import Reckon.Entries
import Reckon.Store

/-! The store in memory. It refuses nothing. -/

namespace Reckon

structure Memory where
  entries : List (String × Bytes)
  deriving DecidableEq, Repr

namespace Memory

def empty : Memory := ⟨[]⟩

def get? (memory : Memory) (key : String) : Option Bytes := memory.entries.lookup key

def insert (memory : Memory) (key : String) (bytes : Bytes) : Memory :=
  ⟨Entries.insert memory.entries key bytes⟩

theorem get?_insert (memory : Memory) (key other : String) (bytes : Bytes) :
    (memory.insert key bytes).get? other = if other = key then some bytes else memory.get? other := by
  simp [get?, insert, Entries.lookup_insert]

instance : Store Memory where
  get memory key := .ok (memory.get? key)
  put memory key bytes := (.ok (), memory.insert key bytes)

end Memory

end Reckon
