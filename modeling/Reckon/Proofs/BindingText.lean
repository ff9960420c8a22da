import Reckon.Binding
import Reckon.Proofs.Numerals
import Reckon.Proofs.WholeWords

/-! The texts of bindings: a name and a numeral with one equals sign between them, and blanks around
either. -/

namespace Reckon

namespace Variable

/-- The characters of names are neither blank nor signs of the command line. -/
theorem plain_of_isName {letters : List Char} (named : isName letters = true) :
    ∀ c ∈ letters, Text.isBlank c = false ∧ c ≠ '=' ∧ c ≠ '-' := by
  intro c member
  have letter := (isName_iff.mp named).2.1 c member
  refine ⟨?_, ?_, ?_⟩
  · rcases Bool.or_eq_true_iff.mp letter with alphanum | underscore
    · exact Text.not_isBlank_of_isAlphanum alphanum
    · rw [eq_of_beq underscore]
      decide
  · rintro rfl
    cases letter
  · rintro rfl
    cases letter

end Variable

namespace Binding

open Variable (isName)
open Numeral (IsNumeral)
open Text (Blank)

/-- The text is a name and a numeral with blanks around either, and an equals sign between them. -/
inductive Spelled : List Char → List Char → List Char → Prop where
  | intro {lead name trail lead' numeral trail' : List Char} (named : isName name = true)
      (accepted : IsNumeral numeral) (ahead : Blank lead) (behind : Blank trail) (ahead' : Blank lead')
      (behind' : Blank trail') :
      Spelled (lead ++ name ++ trail ++ '=' :: (lead' ++ numeral ++ trail')) name numeral

theorem no_equals_of_blank {gap : List Char} (blank : Blank gap) : '=' ∉ gap := by
  intro member
  exact absurd (blank '=' member) (by decide)

theorem no_equals_of_isName {name : List Char} (named : isName name = true) : '=' ∉ name := by
  intro member
  exact (Variable.plain_of_isName named '=' member).2.1 rfl

theorem no_equals_of_isNumeral {numeral : List Char} (accepted : IsNumeral numeral) : '=' ∉ numeral := by
  intro member
  exact (Numeral.printed_of_isPart (accepted.isPart '=' member)).2 rfl

/-- The name ends at the first equals sign. -/
theorem split_equals {before : List Char} (none : '=' ∉ before) (after : List Char) :
    (before ++ '=' :: after).takeWhile (· ≠ '=') = before ∧
      (before ++ '=' :: after).dropWhile (· ≠ '=') = '=' :: after := by
  have other : ∀ c ∈ before, decide (c ≠ '=') = true := by
    intro c member
    refine decide_eq_true ?_
    rintro rfl
    exact none member
  rw [List.takeWhile_append_of_pos other, List.dropWhile_append_of_pos other]
  simp

theorem read_spelled {text name : String} {numeral : List Char} {value : Float}
    (spelled : Spelled text.toList name.toList numeral) (reads : Numeral.read numeral = .ok value) :
    read text = .ok (name, value) := by
  generalize chars : text.toList = list at spelled
  generalize letters : name.toList = start at spelled
  cases spelled with
  | @intro lead _ trail lead' _ trail' named accepted ahead behind ahead' behind' =>
    have none : '=' ∉ lead ++ start ++ trail := by
      simp only [List.mem_append, not_or]
      exact ⟨⟨no_equals_of_blank ahead, no_equals_of_isName named⟩, no_equals_of_blank behind⟩
    obtain ⟨before, after⟩ := split_equals none (lead' ++ numeral ++ trail')
    have nameTrimmed := Text.trim_padded ahead behind fun c member =>
      (Variable.plain_of_isName named c member).1
    have trimmed := Text.trim_padded ahead' behind' fun c member =>
      (Numeral.printed_of_isPart (accepted.isPart c member)).1
    have whole : String.ofList start = name := by rw [← letters, String.ofList_toList]
    simp only [read, chars, before, after, nameTrimmed, trimmed, named, reads, whole, if_true]

theorem exists_spelled {text name : String} {value : Float} (accepted : read text = .ok (name, value)) :
    ∃ numeral, Spelled text.toList name.toList numeral ∧ Numeral.read numeral = .ok value := by
  have whole := List.takeWhile_append_dropWhile (p := (· ≠ '=')) (l := text.toList)
  have stop := List.head?_dropWhile_not (· ≠ '=') text.toList
  unfold read at accepted
  split at accepted
  · cases accepted
  · rename_i equals after split
    rw [split] at whole stop
    obtain rfl : equals = '=' := by simpa using stop
    simp only at accepted
    generalize text.toList.takeWhile (· ≠ '=') = before at whole accepted
    split at accepted
    · rename_i named
      split at accepted
      · rename_i reads
        cases accepted
        obtain ⟨lead, trail, ahead, behind, start⟩ := Text.exists_padded before
        obtain ⟨lead', trail', ahead', behind', rest⟩ := Text.exists_padded after
        have numeral := Numeral.isNumeral_iff.mpr ⟨_, reads⟩
        have spelled := Spelled.intro named numeral ahead behind ahead' behind'
        rw [← start, ← rest, whole] at spelled
        rw [String.toList_ofList]
        exact ⟨_, spelled, reads⟩
      · cases accepted
    · cases accepted

theorem Spelled.isName {text name numeral : List Char} (spelled : Spelled text name numeral) :
    isName name = true := by
  cases spelled with
  | intro named _ _ _ _ _ => exact named

theorem Spelled.head? {text name numeral : List Char} (spelled : Spelled text name numeral) :
    text.head? ≠ some '-' := by
  cases spelled with
  | @intro lead _ trail lead' _ trail' named accepted ahead behind ahead' behind' =>
    intro dash
    cases lead with
    | cons blank rest =>
      cases dash
      exact absurd (ahead '-' List.mem_cons_self) (by decide)
    | nil =>
      obtain ⟨first, rest, rfl⟩ := List.exists_cons_of_ne_nil (Variable.isName_iff.mp named).1
      cases dash
      exact (Variable.plain_of_isName named '-' List.mem_cons_self).2.2 rfl

theorem Spelled.count_equals {text name numeral : List Char} (spelled : Spelled text name numeral) :
    text.count '=' = 1 := by
  cases spelled with
  | intro named accepted ahead behind ahead' behind' =>
    have none {part : List Char} (absent : '=' ∉ part) : part.count '=' = 0 :=
      List.count_eq_zero.mpr absent
    simp [List.count_append, none (no_equals_of_blank ahead), none (no_equals_of_blank behind),
      none (no_equals_of_blank ahead'), none (no_equals_of_blank behind'),
      none (no_equals_of_isName named), none (no_equals_of_isNumeral accepted)]

/-- Bindings of all names to all doubles read back, as the double is written and with any blanks around
either. Nothing else is read as a binding than a name and a numeral, so none starts with a minus or has a
second equals sign. -/
theorem read_bindings :
    (∀ (name : String) (x : Float) (lead trail lead' trail' : List Char), isName name.toList = true →
      Blank lead → Blank trail → Blank lead' → Blank trail' →
      read (String.ofList (lead ++ name.toList ++ trail ++ '=' ::
        (lead' ++ (Numeral.write x).toList ++ trail'))) = .ok (name, x)) ∧
    ∀ (text name : String) (value : Float), read text = .ok (name, value) →
      (∃ numeral, Spelled text.toList name.toList numeral ∧ Numeral.read numeral = .ok value) ∧
        text.toList.head? ≠ some '-' ∧ text.toList.count '=' = 1 := by
  constructor
  · intro name x lead trail lead' trail' named ahead behind ahead' behind'
    have reads := Numeral.read_write x
    have numeral := Numeral.isNumeral_iff.mpr ⟨x, reads⟩
    have spelled := Spelled.intro named numeral ahead behind ahead' behind'
    refine read_spelled ?_ reads
    rwa [String.toList_ofList]
  · intro text name value accepted
    obtain ⟨numeral, spelled, reads⟩ := exists_spelled accepted
    exact ⟨⟨numeral, spelled, reads⟩, spelled.head?, spelled.count_equals⟩

/-- A zero with its sign between blanks of all kinds, and a no-number by its name in another letter case. -/
theorem read_bindings_zero :
    isName "_rate2".toList = true ∧ Blank ['\u00a0'] ∧ Blank ['\t'] ∧ Blank ['\u2003', ' '] ∧
      Blank ['\n'] ∧ read "\u00a0_rate2\t=\u2003 -0\n" = .ok ("_rate2", -0) ∧
      read " x = nAN " = .ok ("x", 0 / 0) ∧
      (∃ numeral, Spelled " x = nAN ".toList "x".toList numeral ∧ Numeral.read numeral = .ok (0 / 0)) ∧
      " x = nAN ".toList.head? ≠ some '-' ∧ " x = nAN ".toList.count '=' = 1 := by
  have named : isName "_rate2".toList = true := by decide +kernel
  have ahead : Blank ['\u00a0'] := by decide +kernel
  have behind : Blank ['\t'] := by decide +kernel
  have ahead' : Blank ['\u2003', ' '] := by decide +kernel
  have behind' : Blank ['\n'] := by decide +kernel
  have accepted : read " x = nAN " = .ok ("x", 0 / 0) := by decide +kernel
  have written := read_bindings.1 "_rate2" (-0) _ _ _ _ named ahead behind ahead' behind'
  have text : String.ofList (['\u00a0'] ++ "_rate2".toList ++ ['\t'] ++ '=' ::
      (['\u2003', ' '] ++ (Numeral.write (-0)).toList ++ ['\n'])) = "\u00a0_rate2\t=\u2003 -0\n" := by
    decide +kernel
  rw [text] at written
  exact ⟨named, ahead, behind, ahead', behind', written, accepted, read_bindings.2 _ _ _ accepted⟩

end Binding

end Reckon
