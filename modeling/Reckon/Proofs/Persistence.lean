import Reckon.Proofs.BookRun

/-! What a book writes to its store: text in UTF-8, from which the same formulas are loaded. -/

namespace Reckon

theorem Formula.isValidUTF8_writeList (formulas : List Formula) :
    (writeList formulas).toByteArray.IsValidUTF8 :=
  Bytes.isValidUTF8_ofChars _

namespace Book

/-- Persisting is one write, and leaves the formulas. -/
theorem persist_eq {σ : Type} [Store σ] (book : Book σ) :
    book.persist =
      ((Store.put book.store key (Formula.writeList book.formulas)).1.mapError .store,
        ⟨(Store.put book.store key (Formula.writeList book.formulas)).2, book.formulas⟩) := by
  unfold persist
  cases Store.put book.store key (Formula.writeList book.formulas) with
  | mk result store => cases result <;> rfl

/-- Whatever texts its formulas have, a book writes bytes that are UTF-8 and that are read as its
formulas, all of them, in their order and as they are. So every store that has these bytes loads as a
book with the same formulas. -/
theorem load_persisted {σ : Type} [Store σ] (book : Book σ) :
    let bytes := Formula.writeList book.formulas
    book.persist = ((Store.put book.store key bytes).1.mapError .store,
      ⟨(Store.put book.store key bytes).2, book.formulas⟩) ∧
    bytes.toByteArray.IsValidUTF8 ∧
    Formula.readList? bytes = some book.formulas ∧
    ∀ {τ : Type} [Store τ] (store : τ), Store.get store key = .ok (some bytes) →
      load store = .ok ⟨store, book.formulas⟩ := by
  intro bytes
  refine ⟨persist_eq book, Formula.isValidUTF8_writeList _, Formula.readList?_writeList _, ?_⟩
  intro τ _ store kept
  exact load_of_stored (stored_of_get kept)

/-- A book in memory with an empty text, a quote, a backslash, a control character, a line separator, a
character beyond U+FFFF and a formula that is there twice. -/
theorem load_persisted_memory :
    let formula : Formula := ⟨"", "\"\\\x01\u2028😀", "\n"⟩
    let book : Book Memory := ⟨.empty, [formula, ⟨"7", "é", "1"⟩, formula]⟩
    book.persist.1 = .ok () ∧ load book.persist.2.store = .ok book.persist.2 := by
  intro formula book
  obtain ⟨written, _, _, loads⟩ := load_persisted book
  rw [written]
  refine ⟨rfl, loads _ ?_⟩
  exact congrArg Except.ok ((Memory.get?_insert _ _ _ _).trans (if_pos rfl))

end Book

end Reckon
