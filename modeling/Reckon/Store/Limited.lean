import Reckon.Store.Memory

/-! A store in memory that takes a number of writes and refuses those after them, and that may
refuse all reads. -/

namespace Reckon

structure Limited where
  memory : Memory
  /-- So many writes are still taken. -/
  writes : Nat
  readable : Bool
  deriving DecidableEq, Repr

instance : Store Limited where
  get limited key :=
    if limited.readable then .ok (limited.memory.get? key) else .error ⟨key, .unreadable⟩
  put limited key bytes :=
    match limited.writes with
    | 0 => (.error ⟨key, .readOnly⟩, limited)
    | left + 1 => (.ok (), { limited with memory := limited.memory.insert key bytes, writes := left })

end Reckon
