import Mathlib.Data.List.InsertIdx
import Reckon.Book
import Reckon.Proofs.Except

/-! How adding and removing end. Both change the formulas before they are written, and what undoes the
change afterwards gives back the list there was. -/

namespace Reckon.Book

variable {σ : Type} [Store σ]

theorem store_of_load {store : σ} {book : Book σ} (loaded : load store = .ok book) :
    book.store = store := by
  obtain ⟨formulas, _, same⟩ := exists_of_bind_ok loaded
  cases same
  rfl

variable {book : Book σ} {formula? : Option Formula} {formulas : List Formula}
  {ended : Except BookError Formula × Book σ}

/-- The ends of a change that is to make `formulas` of those of a book: a wrong request, a refused
write, or the change with the formula that it was about. -/
inductive Change (book : Book σ) (formula? : Option Formula) (formulas : List Formula) :
    Except BookError Formula × Book σ → Prop where
  | wrong (error : BookError) : Change book formula? formulas (.error error, book)
  | undone {store : σ} {error : StoreError}
      (refused : Store.put book.store key (Formula.writeList formulas) = (.error error, store)) :
      Change book formula? formulas (.error (.store error), ⟨store, book.formulas⟩)
  | made {store : σ} {formula : Formula} (about : formula? = some formula)
      (taken : Store.put book.store key (Formula.writeList formulas) = (.ok (), store)) :
      Change book formula? formulas (.ok formula, ⟨store, formulas⟩)

/-- Writing changed formulas, with the change undone when they are refused. -/
theorem change_persist {formula : Formula} {undo : List Formula → List Formula}
    (undoes : undo formulas = book.formulas) :
    Change book (some formula) formulas
      (match persist { book with formulas } with
      | (.ok _, after) => (.ok formula, after)
      | (.error error, after) => (.error error, { after with formulas := undo after.formulas })) := by
  unfold persist
  simp only
  cases written : Store.put book.store key (Formula.writeList formulas) with
  | mk result store =>
    cases result with
    | ok _ => exact .made rfl written
    | error error =>
      simp only [undoes]
      exact .undone written

theorem change_add (book : Book σ) (name expression : String) :
    Change book (some ⟨Formula.nextId book.formulas, name, expression⟩)
      (book.formulas ++ [⟨Formula.nextId book.formulas, name, expression⟩])
      (book.add name expression) := by
  unfold add
  split
  · exact .wrong _
  · split
    · exact .wrong _
    · exact change_persist List.dropLast_concat

theorem change_remove (book : Book σ) (id : String) :
    Change book (book.get? id) (book.formulas.eraseP (·.id == id)) (book.remove id) := by
  rw [get?, List.find?_eq_map_findFinIdx?_getElem, List.eraseP_eq_eraseIdx,
    List.findIdx?_eq_map_findFinIdx?_val]
  unfold remove
  cases found : book.formulas.findFinIdx? (·.id == id) with
  | none => exact .wrong _
  | some index => exact change_persist (List.insertIdx_eraseIdx_getElem index.isLt)

/-- A change that fails leaves the formulas, whatever the store does. -/
theorem Change.formulas_of_error (change : Change book formula? formulas ended) {error : BookError}
    (failed : ended.1 = .error error) : ended.2.formulas = book.formulas := by
  cases change with
  | wrong other => rfl
  | undone refused => rfl
  | made about taken => cases failed

/-- A change that is made is of the formula it was about, and the store has taken what is written for it. -/
theorem Change.of_ok {formula : Formula} {after : Book σ}
    (change : Change book formula? formulas (.ok formula, after)) :
    formula? = some formula ∧ after.formulas = formulas ∧
      Store.put book.store key (Formula.writeList formulas) = (.ok (), after.store) := by
  cases change with
  | made about taken => exact ⟨about, rfl, taken⟩

end Reckon.Book
