/-! Lists of keys with values, in which a new value takes the place of the old one. -/

namespace Reckon.Entries

variable {κ : Type} {α : Type} [BEq κ]

/-- Puts a value under a key, in place of the one that was there. -/
def insert (entries : List (κ × α)) (key : κ) (value : α) : List (κ × α) :=
  (key, value) :: entries.filter (·.1 != key)

variable [LawfulBEq κ]

private theorem lookup_filter (entries : List (κ × α)) {key other : κ} (different : other ≠ key) :
    (entries.filter (·.1 != key)).lookup other = entries.lookup other := by
  induction entries with
  | nil => rfl
  | cons entry rest ih =>
    obtain ⟨name, value⟩ := entry
    by_cases same : name = key
    · subst same
      have missed : (other == name) = false := by simpa using different
      simp [List.lookup_cons, missed, ih]
    · have kept : (name != key) = true := by simpa using same
      rw [List.filter_cons_of_pos (by simpa using kept), List.lookup_cons, List.lookup_cons, ih]

/-- The key has its new value, and every other key what it had. -/
theorem lookup_insert (entries : List (κ × α)) (key other : κ) (value : α) :
    (insert entries key value).lookup other =
      if other == key then some value else entries.lookup other := by
  rw [insert, List.lookup_cons]
  by_cases same : other = key
  · simp [same]
  · have missed : (other == key) = false := by simpa using same
    simp [missed, lookup_filter entries same]

end Reckon.Entries
