import Mathlib.Data.List.Nodup
import Reckon.Proofs.Digits
import Reckon.Proofs.NewestFormula
import Reckon.Proofs.Trimming

/-! Books that grow from nothing. Their formulas stand in the order of age, under ids that are the decimal
numerals of an ascending row of numbers. -/

namespace Reckon

namespace Formula

/-- A decimal numeral in its one form: digits, and no zero in front. -/
structure IsCanonical (id : String) : Prop where
  present : id.toList ≠ []
  digits : ∀ c ∈ id.toList, c.isDigit = true
  start : id.toList.head? ≠ some '0'

/-- The number that decimal digits stand for. -/
def number (id : String) : Nat := Nat.ofDigitChars 10 id.toList 0

theorem isCanonical_repr {n : Nat} (positive : 0 < n) : IsCanonical n.repr := by
  refine ⟨?_, ?_, ?_⟩
  · rw [Nat.toList_repr]
    exact Nat.toDigits_ne_nil
  · rw [Nat.toList_repr]
    exact isDigit_of_mem_toDigits
  · rw [Nat.toList_repr]
    exact head?_toDigits positive

theorem number_repr (n : Nat) : number n.repr = n := by
  rw [number, Nat.toList_repr, Nat.ofDigitChars_ten_toDigits]

/-- The ids are the numerals of an ascending row of numbers up to a bound. -/
def Numbered (most : Nat) (formulas : List Formula) : Prop :=
  ∃ numbers : List Nat, ids formulas = numbers.map Nat.repr ∧ numbers.Pairwise (· < ·) ∧
    ∀ n ∈ numbers, 0 < n ∧ n ≤ most

theorem Numbered.canonical {most : Nat} {formulas : List Formula} (numbered : Numbered most formulas) :
    ∀ f ∈ formulas, IsCanonical f.id ∧ 0 < number f.id := by
  obtain ⟨numbers, same, _, bounds⟩ := numbered
  intro f member
  have named : f.id ∈ numbers.map Nat.repr := same ▸ List.mem_map_of_mem member
  obtain ⟨n, owned, repr⟩ := List.mem_map.mp named
  rw [← repr, number_repr]
  exact ⟨isCanonical_repr (bounds n owned).1, (bounds n owned).1⟩

theorem Numbered.ascending {most : Nat} {formulas : List Formula} (numbered : Numbered most formulas) :
    formulas.Pairwise fun f g => number f.id < number g.id := by
  obtain ⟨numbers, same, ascending, _⟩ := numbered
  have names : (ids formulas).Pairwise fun a b => number a < number b := by
    rw [same, List.pairwise_map]
    simpa only [number_repr] using ascending
  rwa [ids, List.pairwise_map] at names

theorem Numbered.mono {most more : Nat} {formulas : List Formula} (numbered : Numbered most formulas)
    (le : most ≤ more) : Numbered more formulas := by
  obtain ⟨numbers, same, ascending, bounds⟩ := numbered
  refine ⟨numbers, same, ascending, fun n member => ?_⟩
  exact ⟨(bounds n member).1, (bounds n member).2.trans le⟩

theorem Numbered.sublist {most : Nat} {formulas fewer : List Formula} (numbered : Numbered most formulas)
    (sublist : fewer.Sublist formulas) : Numbered most fewer := by
  obtain ⟨numbers, same, ascending, bounds⟩ := numbered
  have names := sublist.map (·.id)
  rw [← ids, ← ids, same] at names
  obtain ⟨left, sublistLeft, sameLeft⟩ := List.sublist_map_iff.mp names
  exact ⟨left, sameLeft, ascending.sublist sublistLeft,
    fun n member => bounds n (sublistLeft.subset member)⟩

theorem Numbered.nodup {most : Nat} {formulas : List Formula} (numbered : Numbered most formulas) :
    (ids formulas).Nodup := by
  obtain ⟨numbers, same, ascending, _⟩ := numbered
  rw [same]
  exact List.Nodup.map (Function.LeftInverse.injective number_repr) (ascending.imp Nat.ne_of_lt)

/-- The next id is the numeral of a number beyond all others, as long as there are such. -/
theorem Numbered.concat {most : Nat} {formulas : List Formula} (numbered : Numbered most formulas)
    (room : most + 1 < idBound) (name expression : String) :
    Numbered (most + 1) (formulas ++ [⟨nextId formulas, name, expression⟩]) := by
  obtain ⟨numbers, same, ascending, bounds⟩ := numbered
  have read : (formulas.filterMap fun f => idNumber? f.id) = numbers := by
    have names : (formulas.filterMap fun f => idNumber? f.id) = (ids formulas).filterMap idNumber? := by
      rw [ids, List.filterMap_map]
      rfl
    have each : ∀ n ∈ numbers, (idNumber? ∘ Nat.repr) n = some n := by
      intro n member
      have bound := (bounds n member).2
      exact idNumber?_repr (by omega)
    rw [names, same, List.filterMap_map, List.filterMap_congr each, List.filterMap_some]
  have beyond := (le_foldl_max numbers 0).2
  have last : numbers.foldl max 0 < most + 1 :=
    foldl_max_lt (by omega) fun n member => Nat.lt_succ_of_le (bounds n member).2
  have next : nextId formulas = (numbers.foldl max 0 + 1).repr := by
    simp only [nextId, read]
    rw [Nat.min_eq_left (by omega)]
  refine ⟨numbers ++ [numbers.foldl max 0 + 1], ?_, ?_, ?_⟩
  · rw [ids, List.map_append, ← ids, same, next, List.map_append]
    rfl
  · refine List.pairwise_append.mpr ⟨ascending, List.pairwise_singleton _ _, ?_⟩
    intro n member m new
    rw [List.mem_singleton.mp new]
    exact Nat.lt_succ_of_le (beyond n member)
  · intro n member
    rcases List.mem_append.mp member with old | new
    · have bound := bounds n old
      omega
    · rw [List.mem_singleton.mp new]
      omega

end Formula

namespace Book

open Formula (ids nextId idBound IsCanonical number Numbered)

/-- What a request does to the formulas: it adds one under the next id, which is not blank, removes the first
one with an id, or leaves them. -/
inductive Step (formulas : List Formula) : Request → Answer → List Formula → Prop where
  | added {name expression : String} (named : Text.trim name.toList ≠ [])
      (expressed : Text.trim expression.toList ≠ []) :
      Step formulas (.add name expression) (.changed (.ok ⟨nextId formulas, name, expression⟩))
        (formulas ++ [⟨nextId formulas, name, expression⟩])
  | removed (id : String) (formula : Formula) :
      Step formulas (.remove id) (.changed (.ok formula)) (formulas.eraseP (·.id == id))
  | kept (request : Request) {answer : Answer} (quiet : ∀ formula, answer ≠ .changed (.ok formula)) :
      Step formulas request answer formulas

/-- What the steps of a run make of no formulas, one after another. -/
inductive History : List Request → List Answer → List Formula → Prop where
  | start : History [] [] []
  | next {formulas : List Formula} (history : History requests answers formulas)
      (step : Step formulas request answer after) :
      History (requests ++ [request]) (answers ++ [answer]) after

/-- Whether a request has added a formula. -/
def Request.adds : Request → Answer → Bool
  | .add .., .changed (.ok _) => true
  | _, _ => false

/-- How many formulas a run has added. -/
def additions (requests : List Request) (answers : List Answer) : Nat :=
  (requests.zip answers).countP fun (request, answer) => request.adds answer

/-- A request of the run added the formula, and none after it removed a formula with its id. -/
structure AddedAt (requests : List Request) (answers : List Answer) (place : Nat) (formula : Formula) :
    Prop where
  asked : requests[place]? = some (.add formula.name formula.expression)
  answered : answers[place]? = some (.changed (.ok formula))
  remains : ∀ later removed, place < later → requests[later]? = some (.remove formula.id) →
    answers[later]? ≠ some (.changed (.ok removed))

/-- The formulas stand in the order in which requests of the run added them. -/
def InOrder (requests : List Request) (answers : List Answer) (formulas : List Formula) : Prop :=
  ∃ added : List (Nat × Formula), formulas = added.map (·.2) ∧ added.Pairwise (·.1 < ·.1) ∧
    ∀ entry ∈ added, AddedAt requests answers entry.1 entry.2

variable {requests : List Request} {answers : List Answer} {formulas after : List Formula}
  {request : Request} {answer : Answer}

theorem History.length_eq (history : History requests answers formulas) :
    answers.length = requests.length := by
  induction history with
  | start => rfl
  | next history step ih => simp [ih]

theorem additions_concat (same : answers.length = requests.length) (request : Request)
    (answer : Answer) :
    additions (requests ++ [request]) (answers ++ [answer]) =
      additions requests answers + (request.adds answer).toNat := by
  rw [additions, List.zip_append same.symm, List.countP_append]
  cases adds : request.adds answer <;> simp [additions, adds]

/-- No formula that is added is blank, and none else comes in. -/
theorem History.not_blank (history : History requests answers formulas) :
    ∀ f ∈ formulas, Text.trim f.name.toList ≠ [] ∧ Text.trim f.expression.toList ≠ [] := by
  induction history with
  | start => exact nofun
  | next history step ih =>
    cases step with
    | added named expressed =>
      intro f member
      rcases List.mem_append.mp member with old | new
      · exact ih f old
      · rw [List.mem_singleton.mp new]
        exact ⟨named, expressed⟩
    | removed id formula => exact fun f member => ih f (List.mem_of_mem_eraseP member)
    | kept request quiet => exact ih

/-- Each formula that is added takes one more number. -/
theorem History.numbered (history : History requests answers formulas)
    (few : additions requests answers < idBound - 1) :
    Numbered (additions requests answers) formulas := by
  induction history with
  | start => exact ⟨[], rfl, .nil, nofun⟩
  | @next requests answers formulas request answer after history step ih =>
    rw [additions_concat history.length_eq] at few ⊢
    have before := ih (by omega)
    cases step with
    | added named expressed =>
      have room : additions requests answers + 1 < idBound - 1 := few
      exact before.concat (by omega) _ _
    | removed id formula => exact before.sublist List.eraseP_sublist
    | kept request quiet => exact before.mono (Nat.le_add_right _ _)

/-- A step that removes nothing leaves what was added where it was added. -/
theorem AddedAt.concat {place : Nat} {formula : Formula} (added : AddedAt requests answers place formula)
    (same : answers.length = requests.length)
    (stays : ∀ removed, request = .remove formula.id → answer ≠ .changed (.ok removed)) :
    AddedAt (requests ++ [request]) (answers ++ [answer]) place formula := by
  obtain ⟨asked, answered, remains⟩ := added
  have inside := (List.getElem?_eq_some_iff.mp asked).1
  refine ⟨?_, ?_, ?_⟩
  · rwa [List.getElem?_append_left inside]
  · rwa [List.getElem?_append_left (by omega)]
  · intro later removed behind asks
    by_cases old : later < requests.length
    · rw [List.getElem?_append_left old] at asks
      rw [List.getElem?_append_left (by omega)]
      exact remains later removed behind asks
    · have last : later = requests.length := by
        have present := (List.getElem?_eq_some_iff.mp asks).1
        rw [List.length_append, List.length_singleton] at present
        omega
      subst last
      rw [List.getElem?_concat_length, Option.some.injEq] at asks
      rw [← same, List.getElem?_concat_length, Ne, Option.some.injEq]
      exact stays removed asks

theorem InOrder.concat (ordered : InOrder requests answers formulas)
    (same : answers.length = requests.length)
    (stays : ∀ f ∈ formulas, ∀ removed, request = .remove f.id → answer ≠ .changed (.ok removed)) :
    InOrder (requests ++ [request]) (answers ++ [answer]) formulas := by
  obtain ⟨added, rfl, ascending, places⟩ := ordered
  refine ⟨added, rfl, ascending, fun entry member => ?_⟩
  exact (places entry member).concat same (stays entry.2 (List.mem_map_of_mem member))

theorem InOrder.sublist {fewer : List Formula} (ordered : InOrder requests answers formulas)
    (sublist : fewer.Sublist formulas) : InOrder requests answers fewer := by
  obtain ⟨added, rfl, ascending, places⟩ := ordered
  obtain ⟨left, sublistLeft, rfl⟩ := List.sublist_map_iff.mp sublist
  exact ⟨left, rfl, ascending.sublist sublistLeft,
    fun entry member => places entry (sublistLeft.subset member)⟩

/-- What is added comes after all that was added before. -/
theorem InOrder.added (ordered : InOrder requests answers formulas)
    (same : answers.length = requests.length) (formula : Formula) :
    InOrder (requests ++ [.add formula.name formula.expression])
      (answers ++ [.changed (.ok formula)]) (formulas ++ [formula]) := by
  obtain ⟨added, rfl, ascending, places⟩ := ordered
  have last : AddedAt (requests ++ [.add formula.name formula.expression])
      (answers ++ [.changed (.ok formula)]) requests.length formula := by
    refine ⟨List.getElem?_concat_length, ?_, ?_⟩
    · rw [← same, List.getElem?_concat_length]
    · intro later removed behind asks
      have present := (List.getElem?_eq_some_iff.mp asks).1
      rw [List.length_append, List.length_singleton] at present
      omega
  refine ⟨added ++ [(requests.length, formula)], by simp, ?_, ?_⟩
  · refine List.pairwise_append.mpr ⟨ascending, List.pairwise_singleton _ _, ?_⟩
    intro entry member new isNew
    rw [List.mem_singleton.mp isNew]
    exact (List.getElem?_eq_some_iff.mp (places entry member).asked).1
  · intro entry member
    rcases List.mem_append.mp member with old | new
    · exact (places entry old).concat same nofun
    · rw [List.mem_singleton.mp new]
      exact last

/-- With ids that differ, the one that is removed is no other's. -/
theorem id_ne_of_mem_eraseP {id : String} (distinct : (ids formulas).Nodup) :
    ∀ f ∈ formulas.eraseP (·.id == id), f.id ≠ id := by
  intro f member
  have names : ids (formulas.eraseP (·.id == id)) = (ids formulas).erase id := by
    rw [ids, ids, List.erase_eq_eraseP, List.eraseP_map]
    have flip : (fun f : Formula => f.id == id) = fun f => id == f.id := funext fun f => BEq.comm
    rw [flip]
    rfl
  have kept : f.id ∈ (ids formulas).erase id := by
    rw [← names]
    exact List.mem_map_of_mem member
  exact (distinct.mem_erase_iff.mp kept).1

theorem History.inOrder (history : History requests answers formulas)
    (few : additions requests answers < idBound - 1) : InOrder requests answers formulas := by
  induction history with
  | start => exact ⟨[], rfl, .nil, nofun⟩
  | @next requests answers request answer after formulas history step ih =>
    have before := few
    rw [additions_concat history.length_eq] at before
    have ordered := ih (by omega)
    have distinct := (history.numbered (by omega)).nodup
    cases step with
    | added named expressed => exact ordered.added history.length_eq _
    | removed id formula =>
      refine (ordered.sublist List.eraseP_sublist).concat history.length_eq ?_
      rintro f member removed ⟨⟩
      exact absurd rfl (id_ne_of_mem_eraseP distinct f member)
    | kept request quiet =>
      exact ordered.concat history.length_eq fun f member removed _ => quiet removed

variable {σ : Type} [Store σ]

theorem not_blank_of_add {book : Book σ} {name expression : String} {formula : Formula}
    (added : (book.add name expression).1 = .ok formula) :
    Text.trim name.toList ≠ [] ∧ Text.trim expression.toList ≠ [] := by
  have printed {text : String} (some : ¬ Text.isBlankText text = true) : Text.trim text.toList ≠ [] := by
    intro nothing
    exact some (List.all_eq_true.mpr (Text.trim_eq_nil_iff.mp nothing))
  unfold add at added
  split at added
  · cases added
  · rename_i named
    split at added
    · cases added
    · rename_i expressed
      exact ⟨printed named, printed expressed⟩

variable {good : σ → Prop} (reliable : Store.Reliable good)

include reliable

/-- Every request is answered, and makes one of these steps. -/
theorem exists_step {book : Book σ} (kept : book.Kept good) (request : Request) :
    ∃ answer next, book.serve request = .ok (answer, next) ∧ next.Kept good ∧
      Step book.formulas request answer next.formulas := by
  obtain ⟨answer, next, served, keptNext, changed⟩ := serve_kept reliable kept request
  refine ⟨answer, next, served, keptNext, ?_⟩
  rw [changed]
  by_cases quiet : ∀ formula, answer ≠ .changed (.ok formula)
  · have same : request.change book.formulas answer = book.formulas := by
      unfold Request.change
      split
      · exact absurd rfl (quiet _)
      · exact absurd rfl (quiet _)
      · rfl
    rw [same]
    exact .kept request quiet
  · obtain ⟨formula, rfl⟩ := not_forall_not.mp quiet
    cases request with
    | add name expression =>
      have result : (book.add name expression).1 = .ok formula := by
        simp only [serve, Except.ok.injEq, Prod.mk.injEq, Answer.changed.injEq] at served
        exact served.1
      obtain ⟨same, _⟩ := add_ok (Prod.ext result rfl)
      obtain ⟨named, expressed⟩ := not_blank_of_add result
      subst same
      exact .added named expressed
    | remove id => exact .removed id formula
    | reload =>
      obtain ⟨loaded, _, result⟩ := exists_of_bind_ok served
      cases result
    | _ => cases served

theorem exists_history {store : σ} (kept : (⟨store, []⟩ : Book σ).Kept good) (requests : List Request) :
    ∃ answers after, serveAll ⟨store, []⟩ requests = .ok (answers, after) ∧ after.Kept good ∧
      History requests answers after.formulas := by
  induction requests using List.reverseRecOn with
  | nil => exact ⟨[], _, rfl, kept, .start⟩
  | append_singleton requests request ih =>
    obtain ⟨answers, before, served, keptBefore, history⟩ := ih
    obtain ⟨answer, after, servedLast, keptAfter, step⟩ := exists_step reliable keptBefore request
    exact ⟨answers ++ [answer], after, serveAll_concat served servedLast, keptAfter, history.next step⟩

/-- A book that is loaded where nothing is stored serves every run of requests. As long as fewer than 2⁶⁴ - 1
formulas have been added, and so after each step, its ids are decimal numerals of positive numbers without
zeros in front, ascending along the formulas, these stand in the order in which they were added, and none of
them has a name or an expression of blanks only. -/
theorem serveAll_in_age_order {store : σ} (readable : good store)
    (nothing : Store.get store key = .ok none) (requests : List Request) :
    load store = .ok ⟨store, []⟩ ∧ ∃ answers after,
      serveAll ⟨store, []⟩ requests = .ok (answers, after) ∧
      (additions requests answers < idBound - 1 →
        (∀ f ∈ after.formulas, IsCanonical f.id ∧ 0 < number f.id) ∧
        after.formulas.Pairwise (fun f g => number f.id < number g.id) ∧
        InOrder requests answers after.formulas ∧
        ∀ f ∈ after.formulas, Text.trim f.name.toList ≠ [] ∧ Text.trim f.expression.toList ≠ []) := by
  have empty : stored store = .ok [] := by simp only [stored, nothing]
  obtain ⟨answers, after, served, _, history⟩ := exists_history reliable ⟨readable, empty⟩ requests
  refine ⟨load_of_stored empty, answers, after, served, fun few => ?_⟩
  have numbered := history.numbered few
  exact ⟨numbered.canonical, numbered.ascending, history.inOrder few, history.not_blank⟩

omit reliable in
/-- A formula with a blank name, and one whose write is refused; the last of two is removed and its number
given again, to another that is loaded with the first. -/
theorem serveAll_in_age_order_limited :
    let store : Limited := ⟨.empty, 4, true⟩
    let requests := [.add "a" "1", .add " \u2003" "2", .add "b" "3", .remove "2", .add "c" "4", .add "d" "5",
      .reload]
    Store.get store key = .ok none ∧ ∃ answers after,
      serveAll ⟨store, []⟩ requests = .ok (answers, after) ∧ additions requests answers = 3 ∧
      after.formulas = [⟨"1", "a", "1"⟩, ⟨"2", "c", "4"⟩] ∧
      InOrder requests answers after.formulas := by
  intro store requests
  have nothing : Store.get store key = .ok none := rfl
  obtain ⟨_, answers, after, served, grown⟩ := serveAll_in_age_order Limited.reliable rfl nothing requests
  have ended : (serveAll ⟨store, []⟩ requests).map (fun (answers, after) =>
      (additions requests answers, after.formulas)) = .ok (3, [⟨"1", "a", "1"⟩, ⟨"2", "c", "4"⟩]) := by
    decide +kernel
  rw [served] at ended
  simp only [Except.map, Except.ok.injEq, Prod.mk.injEq] at ended
  have few : additions requests answers < idBound - 1 := by
    rw [ended.1]
    decide
  obtain ⟨_, _, ordered, _⟩ := grown few
  exact ⟨nothing, answers, after, served, ended.1, ended.2, ordered⟩

end Book

end Reckon
