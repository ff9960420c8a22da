import Reckon.Proofs.FormulaIds

/-! The formula that was added last. Its id is a number beyond those of all others, so the id denotes it
and no other formula, and removing it gives back the list there was. -/

namespace Reckon

namespace Formula

theorem idNumber?_lt {id : String} {n : Nat} (number : idNumber? id = some n) : n < idBound := by
  unfold idNumber? at number
  exact of_decide_eq_true (Option.filter_eq_some_iff.mp number).2

theorem foldl_max_lt {numbers : List Nat} {start bound : Nat} (least : start < bound)
    (below : ∀ n ∈ numbers, n < bound) : numbers.foldl max start < bound := by
  induction numbers generalizing start with
  | nil => exact least
  | cons first rest ih =>
    obtain ⟨belowFirst, belowRest⟩ := List.forall_mem_cons.mp below
    exact ih (Nat.max_lt.mpr ⟨least, belowFirst⟩) belowRest

/-- Unless the last number is in use, the new id is a number beyond all others. -/
theorem exists_number_nextId {formulas : List Formula}
    (below : ∀ f ∈ formulas, idNumber? f.id ≠ some (idBound - 1)) :
    ∃ n, idNumber? (nextId formulas) = some n ∧
      ∀ f ∈ formulas, ∀ m, idNumber? f.id = some m → m < n := by
  have most : (formulas.filterMap fun f => idNumber? f.id).foldl max 0 < idBound - 1 := by
    refine foldl_max_lt (by decide) ?_
    intro n member
    obtain ⟨f, owned, number⟩ := List.mem_filterMap.mp member
    have bound := idNumber?_lt number
    have other : n ≠ idBound - 1 := by
      rintro rfl
      exact below f owned number
    omega
  refine ⟨(formulas.filterMap fun f => idNumber? f.id).foldl max 0 + 1, ?_, ?_⟩
  · unfold nextId
    simp only
    rw [Nat.min_eq_left (by omega)]
    exact idNumber?_repr (by omega)
  · intro f owned m number
    exact Nat.lt_succ_of_le ((le_foldl_max _ 0).2 m (List.mem_filterMap.mpr ⟨f, owned, number⟩))

/-- A number beyond those of all formulas is the id of none. -/
theorem not_mem_ids {formulas : List Formula} {id : String} {n : Nat} (number : idNumber? id = some n)
    (beyond : ∀ f ∈ formulas, ∀ m, idNumber? f.id = some m → m < n) : id ∉ ids formulas := by
  intro member
  obtain ⟨f, owned, rfl⟩ := List.mem_map.mp member
  exact Nat.lt_irrefl n (beyond f owned n number)

end Formula

namespace Book

open Formula (ids idNumber? idBound nextId)

variable {σ : Type} [Store σ] {book : Book σ} {store : σ}

theorem add_of_put {name expression : String} (named : Text.isBlankText name = false)
    (expressed : Text.isBlankText expression = false)
    (taken : Store.put book.store key
        (Formula.writeList (book.formulas ++ [⟨nextId book.formulas, name, expression⟩])) =
      (.ok (), store)) :
    book.add name expression = (.ok ⟨nextId book.formulas, name, expression⟩,
      ⟨store, book.formulas ++ [⟨nextId book.formulas, name, expression⟩]⟩) := by
  simp [add, named, expressed, persist, taken]

theorem remove_of_put {id : String} {formula : Formula} (found : book.get? id = some formula)
    (taken : Store.put book.store key (Formula.writeList (book.formulas.eraseP (·.id == id))) =
      (.ok (), store)) :
    book.remove id = (.ok formula, ⟨store, book.formulas.eraseP (·.id == id)⟩) := by
  rw [get?, List.find?_eq_map_findFinIdx?_getElem] at found
  rw [List.eraseP_eq_eraseIdx, List.findIdx?_eq_map_findFinIdx?_val] at taken ⊢
  unfold remove
  cases place : book.formulas.findFinIdx? (·.id == id) with
  | none =>
    rw [place] at found
    cases found
  | some index =>
    rw [place] at found taken
    cases found
    simp only [Option.map_some] at taken ⊢
    simp only [persist, taken]

theorem not_beq_of_fresh {formulas : List Formula} {id : String} (fresh : id ∉ ids formulas) :
    ∀ f ∈ formulas, ¬ (f.id == id) = true := by
  intro f owned same
  exact fresh (List.mem_map.mpr ⟨f, owned, by simpa using same⟩)

variable {formulas : List Formula} {formula : Formula}

theorem find?_concat_of_fresh (fresh : formula.id ∉ ids formulas) :
    (formulas ++ [formula]).find? (·.id == formula.id) = some formula := by
  rw [List.find?_append, List.find?_eq_none.mpr (not_beq_of_fresh fresh)]
  simp

theorem eraseP_concat_of_fresh (fresh : formula.id ∉ ids formulas) :
    (formulas ++ [formula]).eraseP (·.id == formula.id) = formulas := by
  rw [List.eraseP_append_right _ (not_beq_of_fresh fresh)]
  simp

/-- When no id is the last number, a formula that is not blank and whose write is taken is added under an
id that no other has, a number beyond those of all others. The id finds it, and removing it, when that
write is taken too, returns it and gives back the list there was. -/
theorem add_get_remove {name expression : String}
    (below : ∀ f ∈ book.formulas, idNumber? f.id ≠ some (idBound - 1))
    (named : Text.isBlankText name = false) (expressed : Text.isBlankText expression = false)
    (taken : Store.put book.store key
        (Formula.writeList (book.formulas ++ [⟨nextId book.formulas, name, expression⟩])) =
      (.ok (), store)) :
    ∃ formula after, book.add name expression = (.ok formula, after) ∧
      formula.name = name ∧ formula.expression = expression ∧ formula.id ∉ ids book.formulas ∧
      (∃ n, idNumber? formula.id = some n ∧
        ∀ f ∈ book.formulas, ∀ m, idNumber? f.id = some m → m < n) ∧
      after.get? formula.id = some formula ∧
      ∀ last, Store.put after.store key (Formula.writeList book.formulas) = (.ok (), last) →
        after.remove formula.id = (.ok formula, ⟨last, book.formulas⟩) := by
  obtain ⟨n, number, beyond⟩ := Formula.exists_number_nextId below
  let formula : Formula := ⟨nextId book.formulas, name, expression⟩
  have fresh : formula.id ∉ ids book.formulas := Formula.not_mem_ids number beyond
  have found := find?_concat_of_fresh fresh
  have erased := eraseP_concat_of_fresh fresh
  refine ⟨formula, ⟨store, book.formulas ++ [formula]⟩, add_of_put named expressed taken, rfl, rfl,
    fresh, ⟨n, number, beyond⟩, found, ?_⟩
  intro last written
  rw [← erased] at written
  have removed : remove ⟨store, book.formulas ++ [formula]⟩ formula.id =
      (.ok formula, ⟨last, (book.formulas ++ [formula]).eraseP (·.id == formula.id)⟩) :=
    remove_of_put found written
  rw [removed, erased]

/-- Ids with a plus sign and with zeros in front, and one that is no number and is there twice. -/
theorem add_get_remove_memory :
    let book : Book Memory :=
      ⟨.empty, [⟨"+7", "a", "1"⟩, ⟨"x", "b", "2"⟩, ⟨"007", "c", "3"⟩, ⟨"x", "d", "4"⟩]⟩
    (∀ f ∈ book.formulas, idNumber? f.id ≠ some (idBound - 1)) ∧
      Text.isBlankText "m" = false ∧ Text.isBlankText "a + 1" = false ∧
      (book.add "m" "a + 1").1 = .ok ⟨"8", "m", "a + 1"⟩ ∧
      ∃ formula after last, book.add "m" "a + 1" = (.ok formula, after) ∧
        formula.id ∉ ids book.formulas ∧ after.get? formula.id = some formula ∧
        Store.put after.store key (Formula.writeList book.formulas) = (.ok (), last) ∧
        after.remove formula.id = (.ok formula, ⟨last, book.formulas⟩) := by
  intro book
  have below : ∀ f ∈ book.formulas, idNumber? f.id ≠ some (idBound - 1) := by decide +kernel
  have named : Text.isBlankText "m" = false := by decide +kernel
  have expressed : Text.isBlankText "a + 1" = false := by decide +kernel
  obtain ⟨formula, after, added, _, _, fresh, _, found, removed⟩ :=
    add_get_remove below named expressed rfl
  refine ⟨below, named, expressed, by decide +kernel, formula, after, _, added, fresh, found, rfl, ?_⟩
  exact removed _ rfl

end Book

end Reckon
