import Mathlib.Data.List.Induction

/-! Lists that are read from left to right and refused at the first entry that is at fault. Whether an
entry is at fault is told by the entries before it; a machine that reads them knows only the state it
is in. -/

namespace Reckon

variable {α σ ε : Type}

/-- No entry is at fault behind those before it. -/
def Faultless (fault : List α → α → ε → Prop) (entries : List α) : Prop :=
  ∀ before entry after, entries = before ++ entry :: after → ∀ error, ¬ fault before entry error

/-- The first entry at fault has this error, whatever comes after it. -/
inductive FirstFault (fault : List α → α → ε → Prop) : List α → ε → Prop where
  | behind (faultless : Faultless fault before) (wrong : fault before entry error) (after : List α) :
      FirstFault fault (before ++ entry :: after) error

section

variable {fault : List α → α → ε → Prop}

theorem faultless_nil : Faultless fault [] := by
  intro before entry after same
  simp at same

theorem faultless_concat_iff {before : List α} {entry : α} :
    Faultless fault (before ++ [entry]) ↔
      Faultless fault before ∧ ∀ error, ¬ fault before entry error := by
  constructor
  · intro faultless
    refine ⟨fun front other after same => ?_, faultless before entry [] rfl⟩
    exact faultless front other (after ++ [entry]) (by simp [same])
  · rintro ⟨faultless, fine⟩ front other after same
    rcases List.eq_nil_or_concat after with rfl | ⟨rest, last, rfl⟩
    · obtain ⟨rfl, sameEntry⟩ := List.append_inj' same rfl
      cases sameEntry
      exact fine
    · have shorter : before ++ [entry] = (front ++ other :: rest) ++ [last] := by simpa using same
      exact faultless front other rest (List.append_inj' shorter rfl).1

theorem FirstFault.append {entries : List α} (first : FirstFault fault entries error) (more : List α) :
    FirstFault fault (entries ++ more) error := by
  cases first with
  | behind faultless wrong after =>
    rw [List.append_assoc, List.cons_append]
    exact .behind faultless wrong (after ++ more)

theorem FirstFault.not_faultless {entries : List α} (first : FirstFault fault entries error) :
    ¬ Faultless fault entries := by
  cases first with
  | behind _ wrong after => exact fun faultless => faultless _ _ after rfl _ wrong

theorem faultless_or_firstFault (fault : List α → α → ε → Prop) (entries : List α) :
    Faultless fault entries ∨ ∃ error, FirstFault fault entries error := by
  induction entries using List.reverseRecOn with
  | nil => exact .inl faultless_nil
  | append_singleton entries entry ih =>
    rcases ih with faultless | ⟨error, first⟩
    · by_cases fine : ∀ error, ¬ fault entries entry error
      · exact .inl (faultless_concat_iff.mpr ⟨faultless, fine⟩)
      · obtain ⟨error, wrong⟩ := not_forall_not.mp fine
        exact .inr ⟨error, .behind faultless wrong []⟩
    · exact .inr ⟨error, first.append [entry]⟩

end

/-- A machine that refuses exactly the entries at fault, where `reached before state` says that it may
be in this state when it has read those before. -/
structure Detects (step : σ → α → Except ε σ) (fault : List α → α → ε → Prop)
    (reached : List α → σ → Prop) : Prop where
  next : reached before state → step state entry = .ok after → reached (before ++ [entry]) after
  error_iff : reached before state → (step state entry = .error error ↔ fault before entry error)

namespace Detects

variable {step : σ → α → Except ε σ} {fault : List α → α → ε → Prop} {reached : List α → σ → Prop}
  {start : σ} {entries : List α} (machine : Detects step fault reached) (begins : reached [] start)

include machine begins

/-- Entries without a fault are all read. -/
theorem exists_state (faultless : Faultless fault entries) :
    ∃ state, entries.foldlM step start = .ok state ∧ reached entries state := by
  induction entries using List.reverseRecOn with
  | nil => exact ⟨start, rfl, begins⟩
  | append_singleton entries entry ih =>
    obtain ⟨faultlessBefore, fine⟩ := faultless_concat_iff.mp faultless
    obtain ⟨state, read, here⟩ := ih faultlessBefore
    cases stepped : step state entry with
    | error error => exact absurd ((machine.error_iff here).mp stepped) (fine error)
    | ok after =>
      refine ⟨after, ?_, machine.next here stepped⟩
      rw [List.foldlM_append, read]
      change [entry].foldlM step state = .ok after
      rw [List.foldlM_cons, stepped]
      rfl

/-- The machine stops exactly at the first entry at fault, with its error. -/
theorem foldlM_error_iff :
    entries.foldlM step start = .error error ↔ FirstFault fault entries error := by
  have stops {error : ε} (first : FirstFault fault entries error) :
      entries.foldlM step start = .error error := by
    cases first with
    | @behind before entry _ faultless wrong after =>
      obtain ⟨state, read, here⟩ := machine.exists_state begins faultless
      have refused := (machine.error_iff here).mpr wrong
      rw [List.foldlM_append, read]
      change (entry :: after).foldlM step state = .error error
      rw [List.foldlM_cons, refused]
      rfl
  constructor
  · intro refused
    rcases faultless_or_firstFault fault entries with faultless | ⟨other, first⟩
    · obtain ⟨state, read, _⟩ := machine.exists_state begins faultless
      cases refused.symm.trans read
    · cases refused.symm.trans (stops first)
      exact first
  · exact stops

end Detects

end Reckon
