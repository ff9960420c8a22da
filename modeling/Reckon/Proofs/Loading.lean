import Reckon.Proofs.BookRun
import Reckon.Proofs.StoredForm

/-! Loading a book. It has the formulas of the text that is stored, and nothing else of how they were written
shows, not even in the next text. -/

namespace Reckon.Book

open Json (IsGap IsDigits Scalar Spaced Written)
open Json.Text (Hex Quoted Spells)

variable {σ : Type} [Store σ] {book after last : Book σ} {formula : Formula}

/-- A request that makes no change leaves the formulas. -/
theorem formulas_of_quiet {request : Request} {answer : Answer}
    (served : book.serve request = .ok (answer, after)) (keeps : request ≠ .reload)
    (quiet : ∀ formula, answer ≠ .changed (.ok formula)) : after.formulas = book.formulas := by
  cases request with
  | add name expression =>
    cases served
    cases result : (book.add name expression).1 with
    | ok formula => exact absurd (congrArg Answer.changed result) (quiet formula)
    | error error => exact (change_add book name expression).formulas_of_error result
  | remove id =>
    cases served
    cases result : (book.remove id).1 with
    | ok formula => exact absurd (congrArg Answer.changed result) (quiet formula)
    | error error => exact (change_remove book id).formulas_of_error result
  | reload => exact absurd rfl keeps
  | _ =>
    cases served
    rfl

theorem formulas_of_quiets {requests : List Request} {answers : List Answer}
    (served : book.serveAll requests = .ok (answers, after)) (keeps : ∀ request ∈ requests, request ≠ .reload)
    (quiet : ∀ answer ∈ answers, ∀ formula, answer ≠ .changed (.ok formula)) :
    after.formulas = book.formulas := by
  induction requests generalizing book answers with
  | nil =>
    cases served
    rfl
  | cons request requests ih =>
    obtain ⟨⟨answer, next⟩, first, later⟩ := exists_of_bind_ok served
    obtain ⟨⟨answersLater, ended⟩, rest, same⟩ := exists_of_bind_ok later
    cases same
    obtain ⟨keepsFirst, keepsRest⟩ := List.forall_mem_cons.mp keeps
    obtain ⟨quietFirst, quietRest⟩ := List.forall_mem_cons.mp quiet
    rw [ih rest keepsRest quietRest, formulas_of_quiet first keepsFirst quietFirst]

/-- What is written by a formula that is added depends on the formulas before it alone. -/
theorem put_of_add {name expression : String} (added : book.add name expression = (.ok formula, last)) :
    Store.put book.store key
        (Formula.writeList (book.formulas ++ [⟨Formula.nextId book.formulas, name, expression⟩])) =
      (.ok (), last.store) := by
  have change := change_add book name expression
  rw [added] at change
  exact change.of_ok.2.2

theorem put_of_remove {id : String} (removed : book.remove id = (.ok formula, last)) :
    Store.put book.store key (Formula.writeList (book.formulas.eraseP (·.id == id))) =
      (.ok (), last.store) := by
  have change := change_remove book id
  rw [removed] at change
  exact change.of_ok.2.2

/-- A book loaded from any text of formulas has these formulas. Whatever is then asked of it that is no
change, the next formula that is added or removed writes bytes that depend on the formulas alone. -/
theorem load_spaced {formulas : List Formula} {items : List Json} {text : List Char} {store : σ}
    (forms : List.Forall₂ Formula.Form formulas items) (written : Spaced (.list items) text)
    (kept : Store.get store key = .ok (some (Bytes.ofChars text))) :
    load store = .ok ⟨store, formulas⟩ ∧
    ∀ requests answers (after : Book σ), serveAll ⟨store, formulas⟩ requests = .ok (answers, after) →
      (∀ request ∈ requests, request ≠ .reload) →
      (∀ answer ∈ answers, ∀ formula, answer ≠ .changed (.ok formula)) →
      (∀ name expression formula last, after.add name expression = (.ok formula, last) →
        Store.put after.store key
            (Formula.writeList (formulas ++ [⟨Formula.nextId formulas, name, expression⟩])) =
          (.ok (), last.store)) ∧
      ∀ id formula last, after.remove id = (.ok formula, last) →
        Store.put after.store key (Formula.writeList (formulas.eraseP (·.id == id))) = (.ok (), last.store) := by
  constructor
  · apply load_of_stored
    simp only [stored, kept, Formula.readList?_spaced forms written]
  · intro requests answers after served keeps quiet
    have same : after.formulas = formulas := formulas_of_quiets served keeps quiet
    rw [← same]
    exact ⟨fun name expression formula last => put_of_add, fun id formula last => put_of_remove⟩

/-- A record with its fields out of order, characters escaped, and another record among them that has a name of
theirs; a list; and a formula that is added after a removal of none. -/
theorem load_spaced_shuffled :
    let text := ("[ \x7b\"expression\" : \"x\\u002By\", \"more\":\x7b\"id\":[true,-1.5E+2,\"\"]\x7d, " ++
      "\"name\":\"a\\\"\\uD83D\\ude00\", \"id\":\"\\u0031\"\x7d,\n\t[\"2\",\"b\",\"2\"]]\r\n").toList
    let formulas : List Formula := [⟨"1", "a\"😀", "x+y"⟩, ⟨"2", "b", "2"⟩]
    let store : Memory := ⟨[(key, Bytes.ofChars text)]⟩
    (∃ items, List.Forall₂ Formula.Form formulas items ∧ Spaced (.list items) text) ∧
      Store.get store key = .ok (some (Bytes.ofChars text)) ∧
      load store = .ok ⟨store, formulas⟩ ∧
      ∃ after formula last, serveAll ⟨store, formulas⟩ [.remove "3"] =
          .ok ([.changed (.error (.unknownFormula "3"))], after) ∧
        after.add "c" "3" = (.ok formula, last) ∧
        Store.put after.store key (Formula.writeList (formulas ++ [⟨"3", "c", "3"⟩])) = (.ok (), last.store) := by
  intro text formulas store
  let other : Json := .record [(some "id", .list [.scalar, .scalar, .text (some "")])]
  let items : List Json := [.record [(some "expression", .text (some "x+y")), (some "more", other),
    (some "name", .text (some "a\"😀")), (some "id", .text (some "1"))],
    .list [.text (some "2"), .text (some "b"), .text (some "2")]]
  have forms : List.Forall₂ Formula.Form formulas items := by
    have others : ∀ member ∈ [(some "more", other)], ∃ name, member.1 = some name ∧
        name ∉ ["id", "name", "expression"] := by
      intro member listed
      cases List.mem_singleton.mp listed
      exact ⟨"more", rfl, by decide⟩
    have order := (List.Perm.swap _ _ _).trans
      (List.reverse_perm (Formula.fields ⟨"1", "a\"😀", "x+y"⟩ ++ [(some "more", other)]))
    exact .cons (.record order others) (.cons .list .nil)
  have spelledExpression : Quoted (some "x+y") "x\\u002By".toList := by
    have plus : Hex '+'.toNat "002B".toList := .digits (by decide) (by decide) (by decide) (by decide)
    exact Spells.quoted (.raw (by decide) (.number plus (.raw (by decide) .nil)))
  have spelledName : Quoted (some "a\"😀") "a\\\"\\uD83D\\ude00".toList := by
    have high : Hex (0xD800 + ('😀'.toNat - 0x10000) / 0x400) "D83D".toList :=
      .digits (by decide) (by decide) (by decide) (by decide)
    have low : Hex (0xDC00 + ('😀'.toNat - 0x10000) % 0x400) "de00".toList :=
      .digits (by decide) (by decide) (by decide) (by decide)
    exact Spells.quoted (.raw (by decide) (.letter (by decide) (.pair (by decide) high low .nil)))
  have spelledId : Quoted (some "1") "\\u0031".toList :=
    Spells.quoted (.number (.digits (by decide) (by decide) (by decide) (by decide)) .nil)
  have number : Scalar "-1.5E+2".toList := by
    have digits (digit : Char) (isDigit : digit.isDigit) : IsDigits [digit] := ⟨by simp, by simpa using isDigit⟩
    exact .number (by decide : ['-'] ∈ _) (.digits (by decide) (digits '1' rfl)) (.digits (digits '5' rfl))
      (.digits (by decide : 'E' ∈ _) (by decide : ['+'] ∈ _) (digits '2' rfl))
  have word : Scalar "true".toList := .word (by decide)
  have none : IsGap [] := nofun
  have space : IsGap [' '] := by decide
  have plain (text : String) := (Written.text (Formula.quoted_write text)).spaced
  have inner := Written.list (Written.scalar word).spaced
    (.cons (Written.scalar number).spaced (.cons (plain "") .nil))
  have member := Written.record (.named none (Formula.quoted_write "id") none inner.spaced) .nil
  have first := Written.record
    (.named none (Formula.quoted_write "expression") space (.gaps space (.text spelledExpression) none))
    (.cons (.named space (Formula.quoted_write "more") none member.spaced)
      (.cons (.named space (Formula.quoted_write "name") none (Written.text spelledName).spaced)
        (.cons (.named space (Formula.quoted_write "id") none (Written.text spelledId).spaced) .nil)))
  have second := Written.list (plain "2") (.cons (plain "b") (.cons (plain "2") .nil))
  have spaced : Spaced (.list items) text := by
    have whole := Spaced.gaps none (.list (.gaps space first none)
      (.cons (.gaps (by decide : IsGap ['\n', '\t']) second none) .nil)) (by decide : IsGap ['\r', '\n'])
    convert whole using 1
    decide +kernel
  have kept : Store.get store key = .ok (some (Bytes.ofChars text)) := rfl
  obtain ⟨loaded, next⟩ := load_spaced forms spaced kept
  let refused : Except BookError Formula := .error (.unknownFormula "3")
  have served : serveAll ⟨store, formulas⟩ [.remove "3"] = .ok ([.changed refused], ⟨store, formulas⟩) := rfl
  have id : Formula.nextId formulas = "3" := by decide +kernel
  let more : List Formula := formulas ++ [⟨Formula.nextId formulas, "c", "3"⟩]
  let last : Book Memory := ⟨store.insert key (Formula.writeList more), more⟩
  have added : (⟨store, formulas⟩ : Book Memory).add "c" "3" = (.ok ⟨_, "c", "3"⟩, last) := rfl
  have put := (next _ _ _ served (by simp) (by simp [refused])).1 "c" "3" _ _ added
  rw [id] at put
  exact ⟨⟨items, forms, spaced⟩, kept, loaded, _, _, _, served, added, put⟩

end Reckon.Book
