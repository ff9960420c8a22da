import Mathlib.Data.List.DropRight
import Reckon.Text.Blank

/-! Trimming: it takes the blanks off both ends, which is all of a blank text and nothing of a text without
blanks. -/

namespace Reckon.Text

theorem trim_eq_rdropWhile (text : List Char) : trim text = (text.dropWhile isBlank).rdropWhile isBlank := rfl

theorem trim_eq_nil_iff {text : List Char} : trim text = [] ↔ ∀ c ∈ text, isBlank c = true := by
  rw [trim_eq_rdropWhile, List.rdropWhile_eq_nil_iff, ← List.dropWhile_eq_nil_iff,
    List.dropWhile_idempotent, List.dropWhile_eq_nil_iff]

theorem trim_eq_self {text : List Char} (printed : ∀ c ∈ text, isBlank c = false) : trim text = text := by
  have start : text.dropWhile isBlank = text := by
    apply List.dropWhile_eq_self_iff.mpr
    intro present blank
    rw [printed _ (List.getElem_mem present)] at blank
    cases blank
  rw [trim_eq_rdropWhile, start]
  apply List.rdropWhile_eq_self_iff.mpr
  intro present blank
  rw [printed _ (List.getLast_mem present)] at blank
  cases blank

/-- A text of blanks, or of nothing. -/
def Blank (gap : List Char) : Prop := ∀ c ∈ gap, isBlank c = true

instance (gap : List Char) : Decidable (Blank gap) := List.decidableBAll _ gap

/-- Blanks around a text without blanks are what is taken off. -/
theorem trim_padded {lead text trail : List Char} (ahead : Blank lead) (behind : Blank trail)
    (printed : ∀ c ∈ text, isBlank c = false) : trim (lead ++ text ++ trail) = text := by
  cases text with
  | nil =>
    rw [trim_eq_nil_iff, List.append_nil]
    intro c member
    exact (List.mem_append.mp member).elim (ahead c) (behind c)
  | cons first rest =>
    have start : (lead ++ (first :: rest) ++ trail).dropWhile isBlank = first :: rest ++ trail := by
      rw [List.append_assoc, List.dropWhile_append_of_pos ahead, List.cons_append, List.dropWhile_cons,
        printed first List.mem_cons_self, if_neg (by decide)]
    have ends : (first :: rest ++ trail).rdropWhile isBlank = (first :: rest).rdropWhile isBlank := by
      rw [List.rdropWhile, List.reverse_append, List.dropWhile_append_of_pos, ← List.rdropWhile]
      intro c member
      exact behind c (List.mem_reverse.mp member)
    rw [trim_eq_rdropWhile, start, ends]
    have whole := trim_eq_self printed
    rwa [trim_eq_rdropWhile, List.dropWhile_cons, printed first List.mem_cons_self,
      if_neg (by decide)] at whole

/-- What is taken off are blanks. -/
theorem exists_padded (text : List Char) : ∃ lead trail, Blank lead ∧ Blank trail ∧
    text = lead ++ trim text ++ trail := by
  refine ⟨text.takeWhile isBlank, (text.dropWhile isBlank).rtakeWhile isBlank, ?_, ?_, ?_⟩
  · exact fun c member => List.mem_takeWhile_imp member
  · exact fun c member => List.mem_rtakeWhile_imp member
  · rw [trim_eq_rdropWhile, List.append_assoc, List.rdropWhile_append_rtakeWhile,
      List.takeWhile_append_dropWhile]

end Reckon.Text
