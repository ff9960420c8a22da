import Reckon.Proofs.BookRun
import Reckon.Proofs.Except

/-! Changes that fail leave no trace. The formulas are the old ones whatever the store does, and over a
store that a refused write leaves alone a run is the same without the requests that failed. -/

namespace Reckon

/-- A write that is refused leaves the whole store as it was. -/
def Store.Steady (σ : Type) [Store σ] : Prop :=
  ∀ {store after : σ} {key : String} {bytes : Bytes} {error : StoreError},
    Store.put store key bytes = (.error error, after) → after = store

theorem Limited.steady : Store.Steady Limited := by
  rintro ⟨memory, writes, readable⟩ after key bytes error refused
  cases writes with
  | zero =>
    cases refused
    rfl
  | succ left => cases refused

namespace Book

variable {σ : Type} [Store σ]

/-- A request with what came of it: an answer and the book after it, or the error of a reload. -/
structure Entry (σ : Type) where
  request : Request
  result : Except BookError (Answer × Book σ)

/-- A run, step by step. A reload that fails is the last step, since it leaves no book. -/
def trace (book : Book σ) : List Request → List (Entry σ)
  | [] => []
  | request :: requests =>
    match book.serve request with
    | .ok (answer, after) => ⟨request, .ok (answer, after)⟩ :: after.trace requests
    | .error error => [⟨request, .error error⟩]

/-- Whether an answer is an error. -/
def Answer.failed : Answer → Bool
  | .changed (.error _) | .value (.error _) => true
  | _ => false

def Entry.failed (entry : Entry σ) : Bool :=
  match entry.result with
  | .ok (answer, _) => answer.failed
  | .error _ => true

theorem trace_ok {book after : Book σ} {request : Request} {answer : Answer}
    (served : book.serve request = .ok (answer, after)) (requests : List Request) :
    book.trace (request :: requests) = ⟨request, .ok (answer, after)⟩ :: after.trace requests := by
  rw [trace, served]

theorem trace_error {book : Book σ} {request : Request} {error : BookError}
    (refused : book.serve request = .error error) (requests : List Request) :
    book.trace (request :: requests) = [⟨request, .error error⟩] := by
  rw [trace, refused]

/-- A change that fails leaves the book and its store. -/
theorem Change.eq_of_error (steady : Store.Steady σ) {book : Book σ} {formula? : Option Formula}
    {formulas : List Formula} {ended : Except BookError Formula × Book σ}
    (change : Change book formula? formulas ended) (failed : (Answer.changed ended.1).failed = true) :
    ended.2 = book := by
  cases change with
  | wrong error => rfl
  | undone refused => rw [steady refused]
  | made about taken => cases failed

/-- One step: a request that fails leaves the book and its store. -/
theorem serve_failed (steady : Store.Steady σ) {book after : Book σ} {request : Request}
    {answer : Answer} (served : book.serve request = .ok (answer, after))
    (failed : answer.failed = true) : after = book := by
  cases request with
  | add name expression =>
    cases served
    exact (change_add book name expression).eq_of_error steady failed
  | remove id =>
    cases served
    exact (change_remove book id).eq_of_error steady failed
  | reload =>
    obtain ⟨loaded, _, same⟩ := exists_of_bind_ok served
    cases same
    cases failed
  | _ =>
    cases served
    rfl

/-- An added or removed formula whose change fails leaves the formulas as they were, in any book and over
any store. Over a store that refused writes leave alone, the requests of a run that are left without
some or all of those that failed have the same answers, and the same books and stores after them. -/
theorem trace_without_failures :
    (∀ (book : Book σ) (name expression : String) (error : BookError),
      (book.add name expression).1 = .error error →
        (book.add name expression).2.formulas = book.formulas) ∧
    (∀ (book : Book σ) (id : String) (error : BookError),
      (book.remove id).1 = .error error → (book.remove id).2.formulas = book.formulas) ∧
    (Store.Steady σ → ∀ (book : Book σ) (requests : List Request) (keep : Entry σ → Bool),
      (∀ entry, keep entry = false → entry.failed = true) →
        book.trace (((book.trace requests).filter keep).map (·.request)) =
          (book.trace requests).filter keep) := by
  refine ⟨?_, ?_, ?_⟩
  · intro book name expression error failed
    exact (change_add book name expression).formulas_of_error failed
  · intro book id error failed
    exact (change_remove book id).formulas_of_error failed
  · intro steady book requests keep failures
    induction requests generalizing book with
    | nil => rfl
    | cons request requests ih =>
      cases served : book.serve request with
      | error error =>
        rw [trace_error served]
        cases kept : keep ⟨request, .error error⟩ with
        | true => simp [kept, trace_error served]
        | false => simp [kept, trace]
      | ok result =>
        obtain ⟨answer, after⟩ := result
        rw [trace_ok served]
        cases kept : keep ⟨request, .ok (answer, after)⟩ with
        | true =>
          rw [List.filter_cons_of_pos kept, List.map_cons, trace_ok served, ih after]
        | false =>
          have same : after = book := serve_failed steady served (failures _ kept)
          rw [List.filter_cons_of_neg (by simp [kept]), same]
          exact ih book

/-- Two formulas with one id, the first of which cannot be removed; and a run with a formula that has no
value, a refused write and an unknown id. -/
theorem trace_without_failures_limited :
    let full : Book Limited := ⟨⟨.empty, 0, true⟩, [⟨"1", "a", "1"⟩, ⟨"1", "b", "2"⟩]⟩
    let book : Book Limited := ⟨⟨.empty, 1, true⟩, []⟩
    let requests := [.add "a" "1 / 0", .evaluate .left (fun _ => none) "1", .add "b" "2", .remove "9", .list]
    (full.add "c" "3").2.formulas = full.formulas ∧ (full.remove "1").2.formulas = full.formulas ∧
      (book.trace requests).map Entry.failed = [false, true, true, true, false] ∧
      book.trace (((book.trace requests).filter (!·.failed)).map (·.request)) =
        (book.trace requests).filter (!·.failed) := by
  intro full book requests
  obtain ⟨add, remove, run⟩ := @trace_without_failures Limited _
  have added : (full.add "c" "3").1 = .error (.store ⟨key, .readOnly⟩) := by decide +kernel
  have removed : (full.remove "1").1 = .error (.store ⟨key, .readOnly⟩) := by decide +kernel
  refine ⟨add full _ _ _ added, remove full _ _ removed, by decide +kernel, ?_⟩
  exact run Limited.steady book requests (!·.failed) (by simp)

end Book

end Reckon
