import Reckon.Proofs.BookChange
import Reckon.Proofs.StoredForm
import Reckon.Store.Limited

/-! Runs of a book over a store that may refuse writes: the book is what its successful changes
make of the loaded list, and the store has the same list at every step. -/

namespace Reckon

/-- In these states a write that is taken is read again, and one that is refused changes nothing that
is read. -/
structure Store.Reliable [Store σ] (good : σ → Prop) : Prop where
  put : good store → ∀ key bytes, good (Store.put store key bytes).2
  taken : good store → Store.put store key bytes = (.ok (), after) →
    Store.get after key = .ok (some bytes)
  refused : good store → Store.put store key bytes = (.error error, after) →
    ∀ other, Store.get after other = Store.get store other

/-- A store of limited writes is reliable as long as it is read. -/
theorem Limited.reliable : Store.Reliable fun limited : Limited => limited.readable = true where
  put := by
    rintro ⟨memory, writes, readable⟩ good key bytes
    cases writes with
    | zero => exact good
    | succ left => exact good
  taken := by
    rintro ⟨memory, writes, readable⟩ key bytes after good done
    cases writes with
    | zero => cases done
    | succ left =>
      cases done
      exact (if_pos good).trans (congrArg Except.ok (by rw [Memory.get?_insert, if_pos rfl]))
  refused := by
    rintro ⟨memory, writes, readable⟩ key bytes error after good done other
    cases writes with
    | zero =>
      cases done
      rfl
    | succ left => cases done

namespace Book

inductive Request where
  | add (name expression : String)
  | remove (id : String)
  | evaluate (power : Grouping) (values : Assignment) (id : String)
  | get (id : String)
  | find (name : String)
  | list
  /-- Loads the book again from its store. -/
  | reload

inductive Answer where
  | changed (result : Except BookError Formula)
  | value (result : Except BookError Float)
  | found (formula : Option Formula)
  | listed (formulas : List Formula)
  | reloaded
  deriving DecidableEq

/-- What a change that was answered makes of a list of formulas. -/
def Request.change (formulas : List Formula) : Request → Answer → List Formula
  | .add name expression, .changed (.ok formula) => formulas ++ [⟨formula.id, name, expression⟩]
  | .remove id, .changed (.ok _) => formulas.eraseP (·.id == id)
  | _, _ => formulas

/-- The changes of a run, made one after another. -/
def replay (formulas : List Formula) : List Request → List Answer → List Formula
  | request :: requests, answer :: answers =>
    replay (request.change formulas answer) requests answers
  | _, _ => formulas

variable {σ : Type} [Store σ]

/-- Serves a request. Only a reload can fail. -/
def serve (book : Book σ) : Request → Except BookError (Answer × Book σ)
  | .add name expression =>
    .ok (.changed (book.add name expression).1, (book.add name expression).2)
  | .remove id => .ok (.changed (book.remove id).1, (book.remove id).2)
  | .evaluate power values id => .ok (.value (book.evaluate power values id), book)
  | .get id => .ok (.found (book.get? id), book)
  | .find name => .ok (.found (book.findByName? name), book)
  | .list => .ok (.listed book.formulas, book)
  | .reload => do return (.reloaded, ← load book.store)

def serveAll (book : Book σ) : List Request → Except BookError (List Answer × Book σ)
  | [] => .ok ([], book)
  | request :: requests => do
    let (answer, book) ← serve book request
    let (answers, book) ← serveAll book requests
    return (answer :: answers, book)

/-- The store is reliable and has the formulas of the book. -/
structure Kept (good : σ → Prop) (book : Book σ) : Prop where
  good : good book.store
  same : stored book.store = .ok book.formulas

theorem stored_of_get {store : σ} {formulas : List Formula}
    (read : Store.get store key = .ok (some (Formula.writeList formulas))) :
    stored store = .ok formulas := by
  simp only [stored, read, Formula.readList?_writeList]

theorem stored_congr {store other : σ} (read : Store.get other key = Store.get store key) :
    stored other = stored store := by
  simp only [stored, read]

theorem load_of_stored {store : σ} {formulas : List Formula} (same : stored store = .ok formulas) :
    load store = .ok ⟨store, formulas⟩ := by
  simp [load, same, bind, Except.bind, pure, Except.pure]

variable {good : σ → Prop}

theorem kept_of_load {store : σ} {book : Book σ} (readable : good store)
    (loaded : load store = .ok book) : book.Kept good := by
  unfold load at loaded
  cases read : stored store with
  | error error =>
    rw [read] at loaded
    cases loaded
  | ok formulas =>
    rw [read] at loaded
    cases loaded
    exact ⟨readable, read⟩

variable (reliable : Store.Reliable good)

include reliable

/-- A change is all or nothing: it is made, or refused and the formulas are the old ones. -/
theorem kept_change {book : Book σ} (kept : book.Kept good) {formula? : Option Formula}
    {formulas : List Formula} {ended : Except BookError Formula × Book σ}
    (change : Change book formula? formulas ended) {request : Request}
    (means : ∀ formula, formula? = some formula →
      request.change book.formulas (.changed (.ok formula)) = formulas) :
    ended.2.Kept good ∧ ended.2.formulas = request.change book.formulas (.changed ended.1) := by
  have same (error : BookError) :
      request.change book.formulas (.changed (.error error)) = book.formulas := by
    cases request <;> rfl
  have next := reliable.put kept.good key (Formula.writeList formulas)
  cases change with
  | wrong error => exact ⟨kept, (same error).symm⟩
  | undone refused =>
    rw [refused] at next
    have read := reliable.refused kept.good refused key
    exact ⟨⟨next, (stored_congr read).trans kept.same⟩, (same _).symm⟩
  | made about taken =>
    rw [taken] at next
    exact ⟨⟨next, stored_of_get (reliable.taken kept.good taken)⟩, (means _ about).symm⟩

theorem kept_add {book : Book σ} (kept : book.Kept good) (name expression : String) :
    (book.add name expression).2.Kept good ∧
      (book.add name expression).2.formulas =
        Request.change book.formulas (.add name expression) (.changed (book.add name expression).1) := by
  refine kept_change reliable kept (change_add book name expression) ?_
  intro formula about
  cases about
  rfl

theorem kept_remove {book : Book σ} (kept : book.Kept good) (id : String) :
    (book.remove id).2.Kept good ∧
      (book.remove id).2.formulas =
        Request.change book.formulas (.remove id) (.changed (book.remove id).1) :=
  kept_change reliable kept (change_remove book id) fun _ _ => rfl

/-- One step: every request is served, and its answer tells how the formulas change. -/
theorem serve_kept {book : Book σ} (kept : book.Kept good) (request : Request) :
    ∃ answer after, book.serve request = .ok (answer, after) ∧ after.Kept good ∧
      after.formulas = request.change book.formulas answer := by
  cases request with
  | add name expression => exact ⟨_, _, rfl, kept_add reliable kept name expression⟩
  | remove id => exact ⟨_, _, rfl, kept_remove reliable kept id⟩
  | evaluate power values id => exact ⟨_, _, rfl, kept, rfl⟩
  | get id => exact ⟨_, _, rfl, kept, rfl⟩
  | find name => exact ⟨_, _, rfl, kept, rfl⟩
  | list => exact ⟨_, _, rfl, kept, rfl⟩
  | reload =>
    have again := load_of_stored kept.same
    exact ⟨.reloaded, book, by simp [serve, again, bind, Except.bind, pure, Except.pure], kept, rfl⟩

theorem serveAll_kept {book : Book σ} (kept : book.Kept good) (requests : List Request) :
    ∃ answers after, book.serveAll requests = .ok (answers, after) ∧ after.Kept good ∧
      after.formulas = replay book.formulas requests answers := by
  induction requests generalizing book with
  | nil => exact ⟨[], book, rfl, kept, rfl⟩
  | cons request requests ih =>
    obtain ⟨answer, next, served, keptNext, changed⟩ := serve_kept reliable kept request
    obtain ⟨answers, after, servedAll, keptAfter, replayed⟩ := ih keptNext
    refine ⟨answer :: answers, after, ?_, keptAfter, ?_⟩
    · simp [serveAll, served, servedAll, bind, Except.bind, pure, Except.pure]
    · rw [replayed, changed, replay]

/-- A loaded book serves every run of requests. At the end, and so after each step, its formulas are
the loaded ones with the successful changes made, the same are stored, and loading gives the book
again. -/
theorem serveAll_refines {store : σ} {book : Book σ} (readable : good store)
    (loaded : load store = .ok book) (requests : List Request) :
    ∃ answers after, book.serveAll requests = .ok (answers, after) ∧
      after.formulas = replay book.formulas requests answers ∧
      stored after.store = .ok after.formulas ∧ load after.store = .ok after := by
  obtain ⟨answers, after, served, keptAfter, replayed⟩ :=
    serveAll_kept reliable (kept_of_load readable loaded) requests
  exact ⟨answers, after, served, replayed, keptAfter.same, load_of_stored keptAfter.same⟩

omit reliable in
/-- A store that takes one write: the second formula is refused, and the first is still there when the
book is loaded again. -/
theorem serveAll_refines_limited :
    let book : Book Limited := ⟨⟨.empty, 1, true⟩, []⟩
    let requests := [.add "a" "1", .add "b" "2", .reload]
    let first : Formula := ⟨"1", "a", "1"⟩
    let answers := [.changed (.ok first), .changed (.error (.store ⟨key, .readOnly⟩)), .reloaded]
    load book.store = .ok book ∧ ∃ after, book.serveAll requests = .ok (answers, after) ∧
      after.formulas = replay book.formulas requests answers ∧ after.formulas = [first] ∧
      stored after.store = .ok after.formulas ∧ load after.store = .ok after := by
  intro book requests first answers
  have loaded : load book.store = .ok book := rfl
  have told : (book.serveAll requests).map Prod.fst = .ok answers := by decide +kernel
  obtain ⟨given, after, served, replayed, same, again⟩ :=
    serveAll_refines Limited.reliable rfl loaded requests
  rw [served] at told
  obtain rfl : given = answers := Except.ok.inj told
  exact ⟨loaded, after, served, replayed, replayed, same, again⟩

end Book

end Reckon
