import Reckon.Proofs.BookRun
import Reckon.Proofs.Digits
import Reckon.Proofs.Except

/-! The ids of a book. A new id is one that no formula has, except that the last number is given again
and again. -/

namespace Reckon

namespace Formula

def ids (formulas : List Formula) : List String := formulas.map (·.id)

/-- The greatest number as an id. -/
def lastId : String := (idBound - 1).repr

theorem idNumber?_repr {n : Nat} (bounded : n < idBound) : idNumber? n.repr = some n := by
  have digits : ∀ c ∈ Nat.toDigits 10 n, c.isDigit = true := isDigit_of_mem_toDigits
  have whole : Numeral.whole? (Nat.toDigits 10 n) = some n := by
    have some : (!(Nat.toDigits 10 n).isEmpty && (Nat.toDigits 10 n).all Char.isDigit) = true := by
      simpa [Nat.toDigits_ne_nil] using digits
    rw [Numeral.whole?, if_pos some, Nat.ofDigitChars_ten_toDigits]
  unfold idNumber?
  rw [Nat.toList_repr]
  split
  · rename_i rest signed
    exact absurd (digits '+' (signed ▸ List.mem_cons_self)) (by decide)
  · simp only [whole]
    simp [Option.filter, bounded]

theorem le_foldl_max (numbers : List Nat) (start : Nat) :
    start ≤ numbers.foldl max start ∧ ∀ n ∈ numbers, n ≤ numbers.foldl max start := by
  induction numbers generalizing start with
  | nil => simp
  | cons first rest ih =>
    obtain ⟨least, all⟩ := ih (max start first)
    refine ⟨Nat.le_trans (Nat.le_max_left _ _) least, fun n member => ?_⟩
    rcases List.mem_cons.mp member with rfl | later
    · exact Nat.le_trans (Nat.le_max_right _ _) least
    · exact all n later

/-- The new id is in use only when the last one is, and then it is the last one. -/
theorem nextId_mem_iff (formulas : List Formula) :
    nextId formulas ∈ ids formulas ↔ lastId ∈ ids formulas := by
  have bound : 0 < idBound := by decide
  have most {n : Nat} (bounded : n < idBound) (member : n.repr ∈ ids formulas) :
      n ≤ (formulas.filterMap fun f => idNumber? f.id).foldl max 0 := by
    obtain ⟨f, owned, same⟩ := List.mem_map.mp member
    refine (le_foldl_max _ 0).2 n (List.mem_filterMap.mpr ⟨f, owned, ?_⟩)
    rw [same, idNumber?_repr bounded]
  unfold nextId lastId
  simp only
  generalize (formulas.filterMap fun f => idNumber? f.id).foldl max 0 = last at most
  constructor
  · intro member
    have least := most (by omega) member
    have full : min (last + 1) (idBound - 1) = idBound - 1 := by omega
    rwa [full] at member
  · intro member
    have least := most (by omega) member
    have full : min (last + 1) (idBound - 1) = idBound - 1 := by omega
    rwa [full]

end Formula

namespace Book

open Formula (ids lastId)

variable {σ : Type} [Store σ]

/-- An added formula has the next id and stands at the end. -/
theorem add_ok {book after : Book σ} {name expression : String} {formula : Formula}
    (added : book.add name expression = (.ok formula, after)) :
    formula = ⟨Formula.nextId book.formulas, name, expression⟩ ∧
      after.formulas = book.formulas ++ [formula] := by
  have change := change_add book name expression
  rw [added] at change
  obtain ⟨about, same, _⟩ := change.of_ok
  cases about
  exact ⟨rfl, same⟩

theorem nodup_append_iff {formulas : List Formula} (distinct : (ids formulas).Nodup) (formula : Formula) :
    (ids (formulas ++ [formula])).Nodup ↔ formula.id ∉ ids formulas := by
  rw [ids, List.map_append, List.nodup_append]
  constructor
  · rintro ⟨_, _, apart⟩ member
    exact apart _ member _ List.mem_cons_self rfl
  · intro fresh
    refine ⟨distinct, by simp, fun id member other last => ?_⟩
    rintro rfl
    obtain rfl := List.mem_singleton.mp last
    exact fresh member

/-- One step keeps ids distinct, unless it adds a formula under an id that is in use. -/
theorem nodup_change {formulas : List Formula} (distinct : (ids formulas).Nodup) (request : Request)
    (answer : Answer)
    (fresh : ∀ name expression formula, request = .add name expression →
      answer = .changed (.ok formula) → formula.id ∉ ids formulas) :
    (ids (request.change formulas answer)).Nodup := by
  unfold Request.change
  split
  · rename_i name expression formula
    exact (nodup_append_iff distinct _).mpr (fresh name expression formula rfl rfl)
  · exact distinct.sublist (List.eraseP_sublist.map _)
  · exact distinct

theorem serveAll_cons {book after : Book σ} {request : Request} {requests : List Request}
    {answers : List Answer} (served : book.serveAll (request :: requests) = .ok (answers, after)) :
    ∃ answer next more, book.serve request = .ok (answer, next) ∧
      next.serveAll requests = .ok (more, after) ∧ answers = answer :: more := by
  unfold serveAll at served
  obtain ⟨⟨answer, next⟩, servedFirst, later⟩ := exists_of_bind_ok served
  obtain ⟨⟨more, last⟩, servedRest, result⟩ := exists_of_bind_ok later
  cases result
  exact ⟨answer, next, more, servedFirst, servedRest, rfl⟩

theorem serveAll_concat {book before after : Book σ} {requests : List Request} {answers : List Answer}
    {request : Request} {answer : Answer} (served : book.serveAll requests = .ok (answers, before))
    (last : before.serve request = .ok (answer, after)) :
    book.serveAll (requests ++ [request]) = .ok (answers ++ [answer], after) := by
  induction requests generalizing book answers with
  | nil =>
    cases served
    simp [serveAll, last, bind, Except.bind, pure, Except.pure]
  | cons first rest ih =>
    obtain ⟨start, next, more, servedFirst, servedRest, rfl⟩ := serveAll_cons served
    have whole := ih servedRest
    simp [serveAll, servedFirst, whole, bind, Except.bind, pure, Except.pure]

/-- After some step of the run the book is this one. -/
def Visits (book : Book σ) (requests : List Request) (after : Book σ) : Prop :=
  ∃ done answers, done <+: requests ∧ book.serveAll done = .ok (answers, after)

/-- Some step of the run adds the formula to this book. -/
def Adds (book : Book σ) (requests : List Request) (before : Book σ) (formula : Formula) : Prop :=
  ∃ done answers name expression after, done ++ [.add name expression] <+: requests ∧
    book.serveAll done = .ok (answers, before) ∧ before.add name expression = (.ok formula, after)

theorem Adds.cons {book next before : Book σ} {request : Request} {requests : List Request}
    {answer : Answer} {formula : Formula} (served : book.serve request = .ok (answer, next))
    (adds : next.Adds requests before formula) : book.Adds (request :: requests) before formula := by
  obtain ⟨done, answers, name, expression, after, start, servedDone, added⟩ := adds
  refine ⟨request :: done, answer :: answers, name, expression, after,
    List.cons_prefix_cons.mpr ⟨rfl, start⟩, ?_, added⟩
  simp [serveAll, served, servedDone, bind, Except.bind, pure, Except.pure]

/-- What a step adds is then the last formula of a book that the run visits. -/
theorem Adds.visits {book before : Book σ} {requests : List Request} {formula : Formula}
    (adds : book.Adds requests before formula) :
    ∃ after, book.Visits requests after ∧ after.formulas = before.formulas ++ [formula] := by
  obtain ⟨done, answers, name, expression, after, start, served, added⟩ := adds
  have last : before.serve (.add name expression) = .ok (.changed (.ok formula), after) := by
    rw [serve, added]
  exact ⟨after, ⟨_, _, start, serveAll_concat served last⟩, (add_ok added).2⟩

theorem Adds.id_mem_iff {book before : Book σ} {requests : List Request} {formula : Formula}
    (adds : book.Adds requests before formula) :
    formula.id ∈ ids before.formulas ↔ lastId ∈ ids before.formulas := by
  obtain ⟨done, answers, name, expression, after, start, served, added⟩ := adds
  rw [(add_ok added).1]
  exact Formula.nextId_mem_iff before.formulas

variable {good : σ → Prop} (reliable : Store.Reliable good)

include reliable

theorem nodup_of_visits {book after : Book σ} {requests : List Request} (kept : book.Kept good)
    (distinct : (ids book.formulas).Nodup)
    (below : ∀ before formula, book.Adds requests before formula → lastId ∉ ids before.formulas)
    (visits : book.Visits requests after) : (ids after.formulas).Nodup := by
  obtain ⟨done, answers, start, served⟩ := visits
  induction done generalizing book requests answers with
  | nil =>
    cases served
    exact distinct
  | cons request done ih =>
    obtain ⟨rest, rfl⟩ := start
    obtain ⟨answer, next, more, servedFirst, servedRest, rfl⟩ := serveAll_cons served
    obtain ⟨sameAnswer, sameNext, servedAgain, keptNext, changed⟩ := serve_kept reliable kept request
    cases servedFirst.symm.trans servedAgain
    refine ih keptNext ?_ (fun before formula adds => below before formula (adds.cons servedFirst))
      _ (List.prefix_append done rest) servedRest
    rw [changed]
    refine nodup_change distinct request answer ?_
    rintro name expression formula rfl rfl member
    have adds : book.Adds (.add name expression :: done ++ rest) book formula := by
      refine ⟨[], [], name, expression, next, ⟨done ++ rest, rfl⟩, rfl, ?_⟩
      simp only [serve, Except.ok.injEq, Prod.mk.injEq, Answer.changed.injEq] at servedFirst
      exact Prod.ext servedFirst.1 servedFirst.2
    exact below book formula adds (adds.id_mem_iff.mp member)

/-- From a loaded list with distinct ids on, the ids are distinct after every step exactly when no
formula is added while one has the last number as its id; an added formula has an id of its own exactly
when none has. -/
theorem nodup_ids_iff {store : σ} {book : Book σ} (readable : good store)
    (loaded : load store = .ok book) (distinct : (ids book.formulas).Nodup)
    (requests : List Request) :
    ((∀ after, book.Visits requests after → (ids after.formulas).Nodup) ↔
        ∀ before formula, book.Adds requests before formula → lastId ∉ ids before.formulas) ∧
      ∀ before formula, book.Adds requests before formula →
        (formula.id ∉ ids before.formulas ↔ lastId ∉ ids before.formulas) := by
  have kept := kept_of_load readable loaded
  constructor
  · constructor
    · intro all before formula adds
      obtain ⟨after, visits, formulas⟩ := adds.visits
      have whole := all after visits
      rw [formulas] at whole
      have start : (ids before.formulas).Nodup :=
        whole.sublist ((List.sublist_append_left _ _).map _)
      rw [← adds.id_mem_iff]
      exact (nodup_append_iff start formula).mp whole
    · intro below after visits
      exact nodup_of_visits reliable kept distinct below visits
  · intro before formula adds
    exact not_congr adds.id_mem_iff

omit reliable in
/-- A store that takes one write: the first formula is added, under an id of its own, and the second one
is refused, so that no step adds to the last number. -/
theorem nodup_ids_iff_limited :
    let book : Book Limited := ⟨⟨.empty, 1, true⟩, []⟩
    let requests := [.add "a" "1", .reload, .add "b" "2"]
    let first : Formula := ⟨"1", "a", "1"⟩
    (((∀ after, book.Visits requests after → (ids after.formulas).Nodup) ↔
        ∀ before formula, book.Adds requests before formula → lastId ∉ ids before.formulas) ∧
      ∀ before formula, book.Adds requests before formula →
        (formula.id ∉ ids before.formulas ↔ lastId ∉ ids before.formulas)) ∧
    (book.serveAll requests).map Prod.fst =
      .ok [.changed (.ok first), .reloaded, .changed (.error (.store ⟨key, .readOnly⟩))] ∧
    book.Adds requests book first ∧ first.id ∉ ids book.formulas ∧
    ∀ after, book.Visits requests after → (ids after.formulas).Nodup := by
  intro book requests first
  have loaded : load book.store = .ok book := rfl
  have whole := nodup_ids_iff Limited.reliable rfl loaded List.nodup_nil requests
  have told : (book.serveAll requests).map Prod.fst =
      .ok [.changed (.ok first), .reloaded, .changed (.error (.store ⟨key, .readOnly⟩))] := by
    decide +kernel
  have taken : (book.add "a" "1").1 = .ok first := by decide +kernel
  have adds : book.Adds requests book first :=
    ⟨[], [], "a", "1", (book.add "a" "1").2, ⟨[.reload, .add "b" "2"], rfl⟩, rfl, Prod.ext taken rfl⟩
  have below : ∀ before formula, book.Adds requests before formula → lastId ∉ ids before.formulas := by
    rintro before formula ⟨done, answers, name, expression, after, start, served, added⟩
    -- only the first and the last request are to add a formula
    rcases done with _ | ⟨one, _ | ⟨two, _ | ⟨three, more⟩⟩⟩
    · cases served
      exact List.not_mem_nil
    · simp [requests, List.cons_prefix_cons] at start
    · have left : (book.serveAll [.add "a" "1", .reload]).map (·.2.formulas) = .ok [first] := by
        decide +kernel
      obtain ⟨rfl, rfl, _⟩ : one = .add "a" "1" ∧ two = .reload ∧ _ := by
        simpa [requests, List.cons_prefix_cons] using start
      rw [served] at left
      have same : before.formulas = [first] := Except.ok.inj left
      rw [same]
      decide +kernel
    · have short := start.length_le
      simp only [requests, List.length_append, List.length_cons, List.length_nil] at short
      omega
  exact ⟨whole, told, adds, (whole.2 book first adds).mpr (below book first adds), whole.1.mpr below⟩

omit reliable in
/-- A formula with the last number as its id is loaded, and the next one gets the same id. -/
theorem duplicate_id :
    ∃ (store : Memory) (book after : Book Memory) (formula : Formula),
      load store = .ok book ∧ (ids book.formulas).Nodup ∧
      book.add "B" "2" = (.ok formula, after) ∧ formula.id ∈ ids book.formulas ∧
      ¬ (ids after.formulas).Nodup := by
  let old : Formula := ⟨lastId, "A", "1"⟩
  let store := Memory.empty.insert key (Formula.writeList [old])
  have read : Store.get store key = .ok (some (Formula.writeList [old])) :=
    congrArg Except.ok ((Memory.get?_insert _ _ _ _).trans (if_pos rfl))
  have distinct : (ids [old]).Nodup := by simp [ids]
  have used : Formula.nextId [old] ∈ ids [old] :=
    (Formula.nextId_mem_iff [old]).mpr List.mem_cons_self
  refine ⟨store, ⟨store, [old]⟩, _, _, load_of_stored (stored_of_get read), distinct, rfl, used, ?_⟩
  exact fun whole => (nodup_append_iff distinct _).mp whole used

end Book

end Reckon
