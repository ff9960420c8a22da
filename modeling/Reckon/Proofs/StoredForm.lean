import Mathlib.Data.List.Forall2
import Mathlib.Data.List.Perm.Basic
import Reckon.Formula.Stored
import Reckon.Proofs.WrittenJson

/-! The stored form of formulas: every JSON text of them reads as these formulas, and what is written for
them is such a text. -/

namespace Reckon.Formula

open Json (Spaced Written Member LaterItems LaterMembers)

/-- The fields of a formula with their names. -/
def fields (f : Formula) : List (Option String × Json) :=
  [(some "id", .text (some f.id)), (some "name", .text (some f.name)),
    (some "expression", .text (some f.expression))]

/-- The values that are a formula: a record of its fields in any order, among any that have other names, or a
list of its texts. -/
inductive Form (f : Formula) : Json → Prop where
  | record {members others : List (Option String × Json)} (order : members.Perm (f.fields ++ others))
      (apart : ∀ member ∈ others, ∃ name, member.1 = some name ∧ name ∉ ["id", "name", "expression"]) :
      Form f (.record members)
  | list : Form f (.list [.text (some f.id), .text (some f.name), .text (some f.expression)])

/-- A field is found when it is the only one with its name, wherever it stands. -/
theorem field?_of_perm {members fields others : List (Option String × Json)} {name content : String}
    (order : members.Perm (fields ++ others))
    (single : fields.filter (·.1 == some name) = [(some name, .text (some content))])
    (apart : ∀ member ∈ others, member.1 ≠ some name) : Json.field? members name = some content := by
  have none : others.filter (·.1 == some name) = [] := by
    rw [List.filter_eq_nil_iff]
    intro member listed
    simpa using apart member listed
  have same := order.filter (·.1 == some name)
  rw [List.filter_append, single, none, List.append_nil, List.perm_singleton] at same
  rw [Json.field?, same]

theorem ofJson?_form {f : Formula} {value : Json} (form : Form f value) : ofJson? value = some f := by
  cases form with
  | list => rfl
  | @record members others order apart =>
    have named : members.all (·.1.isSome) := by
      rw [List.all_eq_true]
      intro member listed
      rcases List.mem_append.mp (order.subset listed) with own | other
      · simp only [fields, List.mem_cons, List.not_mem_nil, or_false] at own
        rcases own with rfl | rfl | rfl <;> rfl
      · obtain ⟨name, same, _⟩ := apart member other
        rw [same]
        rfl
    have unlike (name : String) (own : name ∈ ["id", "name", "expression"]) :
        ∀ member ∈ others, member.1 ≠ some name := by
      intro member other same
      obtain ⟨found, named, missing⟩ := apart member other
      rw [same, Option.some.injEq] at named
      rw [← named] at missing
      exact missing own
    have id : Json.field? members "id" = some f.id :=
      field?_of_perm order rfl (unlike "id" (by decide))
    have name : Json.field? members "name" = some f.name :=
      field?_of_perm order rfl (unlike "name" (by decide))
    have expression : Json.field? members "expression" = some f.expression :=
      field?_of_perm order rfl (unlike "expression" (by decide))
    rw [ofJson?, if_pos named, id, name, expression]
    rfl

theorem mapM_forms {formulas : List Formula} {items : List Json} (forms : List.Forall₂ Form formulas items) :
    items.mapM ofJson? = some formulas := by
  induction forms with
  | nil => rfl
  | cons form _ ih =>
    rw [List.mapM_cons, ofJson?_form form, ih]
    rfl

/-- Every text of formulas reads as these formulas, all of them and in their order. -/
theorem readList?_spaced {formulas : List Formula} {items : List Json} {text : List Char}
    (forms : List.Forall₂ Form formulas items) (written : Spaced (.list items) text) :
    readList? (Bytes.ofChars text) = some formulas := by
  rw [readList?, Json.read?_spaced written]
  exact mapM_forms forms

/-- The record that a formula is written as. -/
def json (f : Formula) : Json := .record f.fields

theorem form_json (f : Formula) : Form f f.json := .record (.of_eq (List.append_nil _).symm) nofun

theorem quoted_write (text : String) :
    Json.Text.Quoted (some text) (text.toList.flatMap Json.Text.writeChar) :=
  (Json.Text.spells_write text.toList).quoted

theorem member_writeField (name value : String) :
    Member (some name, .text (some value)) (writeField name value) := by
  have none : Json.IsGap [] := nofun
  have written := (Written.text (quoted_write value)).spaced
  simpa [writeField, Json.Text.write] using Member.named none (quoted_write name) none written

theorem written_write (f : Formula) : Written f.json f.write := by
  have last := LaterMembers.cons (member_writeField "expression" f.expression) .nil
  have later := LaterMembers.cons (member_writeField "name" f.name) last
  simpa [write, json, fields] using Written.record (member_writeField "id" f.id) later

theorem laterItems_write (formulas : List Formula) :
    LaterItems (formulas.map json) (formulas.flatMap fun f => ',' :: f.write) := by
  induction formulas with
  | nil => exact .nil
  | cons f rest ih => exact .cons f.written_write.spaced ih

theorem flatten_intersperse (f : Formula) (rest : List Formula) :
    (((f :: rest).map write).intersperse [',']).flatten =
      f.write ++ rest.flatMap fun f => ',' :: f.write := by
  induction rest generalizing f with
  | nil => simp
  | cons g rest ih =>
    have later := ih g
    rw [List.map_cons] at later
    rw [List.map_cons, List.map_cons, List.intersperse_cons_cons, List.flatten_cons, List.flatten_cons, later]
    simp

/-- What is written for formulas is a text of them. -/
theorem spaced_writeList (formulas : List Formula) :
    Spaced (.list (formulas.map json))
      ('[' :: ((formulas.map write).intersperse [',']).flatten ++ [']']) := by
  have none : Json.IsGap [] := nofun
  apply Written.spaced
  cases formulas with
  | nil => exact .emptyList none
  | cons f rest =>
    rw [flatten_intersperse]
    simpa using Written.list f.written_write.spaced (laterItems_write rest)

/-- What is written reads back as the same formulas, all of them and in their order. -/
theorem readList?_writeList (formulas : List Formula) :
    readList? (writeList formulas) = some formulas := by
  have forms : List.Forall₂ Form formulas (formulas.map json) := by
    rw [List.forall₂_map_right_iff]
    exact List.forall₂_same.mpr fun f _ => form_json f
  exact readList?_spaced forms (spaced_writeList formulas)

end Reckon.Formula
