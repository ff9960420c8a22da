import Reckon.Book
import Reckon.Proofs.Lexemes
import Reckon.Proofs.SourceTokens
import Reckon.Store.Memory

/-! Variables without a usable value. A book names all of them instead of evaluating a formula, which
would be refused at one of them anyway. -/

namespace Reckon

/-- Some beginning of the list has the one, and not yet the other. -/
def AppearsBefore (items : List α) (a b : α) : Prop :=
  ∃ front, front <+: items ∧ a ∈ front ∧ b ∉ front

instance (items : List α) : Std.Irrefl (AppearsBefore items) where
  irrefl := by
    rintro a ⟨front, _, present, absent⟩
    exact absent present

instance (items : List α) : Std.Antisymm (AppearsBefore items) where
  antisymm := by
    rintro a b ⟨front, start, hasA, lacksB⟩ ⟨other, start', hasB, lacksA⟩
    rcases List.prefix_or_prefix_of_prefix start start' with longer | longer
    · exact absurd (longer.subset hasA) lacksA
    · exact absurd (longer.subset hasB) lacksB

theorem AppearsBefore.of_filter {items : List α} {p : α → Bool} {a b : α}
    (before : AppearsBefore (items.filter p) a b) (kept : p b = true) : AppearsBefore items a b := by
  obtain ⟨front, ⟨back, split⟩, present, absent⟩ := before
  obtain ⟨start, rest, rfl, rfl, _⟩ := List.filter_eq_append_iff.mp split.symm
  refine ⟨start, List.prefix_append start rest, (List.mem_filter.mp present).1, ?_⟩
  intro member
  exact absent (List.mem_filter.mpr ⟨member, kept⟩)

/-- Without its repetitions a list is in the order of first appearance. -/
theorem pairwise_eraseDups [BEq α] [LawfulBEq α] :
    ∀ items : List α, items.eraseDups.Pairwise (AppearsBefore items)
  | [] => by simp
  | a :: rest => by
    have others (b : α) (member : b ∈ (rest.filter fun b => !b == a).eraseDups) : (!b == a) = true :=
      (List.mem_filter.mp (List.mem_eraseDups.mp member)).2
    rw [List.eraseDups_cons]
    refine List.pairwise_cons.mpr ⟨?_, ?_⟩
    · intro b member
      have different := others b member
      exact ⟨[a], ⟨rest, rfl⟩, List.mem_singleton_self a, by simpa using different⟩
    · refine (pairwise_eraseDups (rest.filter fun b => !b == a)).imp_of_mem ?_
      intro b c _ member before
      have different := others c member
      obtain ⟨front, start, present, absent⟩ := before.of_filter different
      refine ⟨a :: front, List.cons_prefix_cons.mpr ⟨rfl, start⟩, List.mem_cons_of_mem a present, ?_⟩
      simpa [absent] using different
termination_by items => items.length
decreasing_by exact Nat.lt_succ_of_le (List.length_filter_le _ _)

namespace Variable

open Binary64 (isNaN magnitude infinity)

/-- The variables of an expression, as often as they appear. -/
def occurrences (expression : String) : List String :=
  (Text.pieces expression.toList).filterMap ofPiece?

/-- The name has no value, or one that is no number. -/
def Lacks (values : Assignment) (name : String) : Prop :=
  ∀ x, values name = some x → isNaN x = true

/-- An expression whose text has a part that is refused is refused at a character. -/
theorem evaluate_refused (power : Grouping) {values : Assignment} {expression : String}
    {plain text : List Char} (filled : fill values expression.toList = plain ++ text)
    (refused : Refused text) :
    ∃ c, evaluate power values expression = .error (.invalid (.unexpected c)) := by
  rw [evaluate, Token.read_substitute, filled]
  cases scanned : Token.scan (plain ++ text) with
  | ok tokens => exact absurd scanned (refused.behind plain tokens)
  | error error =>
    obtain ⟨_, _, c, _, _, _, rfl⟩ := Token.scan_eq_error_iff.mp scanned
    refine ⟨c, ?_⟩
    rw [Token.read, scanned]
    rfl

/-- An expression with a variable that has no finite value is refused at a character. -/
theorem evaluate_unusable (power : Grouping) {values : Assignment} {expression name : String}
    (free : name ∈ free expression) (unusable : ∀ x, values name = some x → ¬ magnitude x < infinity) :
    ∃ c, evaluate power values expression = .error (.invalid (.unexpected c)) := by
  obtain ⟨piece, member, named⟩ := mem_free_iff_exists_piece.mp free
  obtain ⟨before, after, split⟩ := List.append_of_mem member
  have filled : fill values expression.toList =
      before.flatMap (replace values) ++ (replace values piece ++ after.flatMap (replace values)) := by
    rw [fill, split, List.flatMap_append, List.flatMap_cons]
  exact evaluate_refused power filled (refused_replace named unusable _)

theorem evaluate_lacking (power : Grouping) {values : Assignment} {expression name : String}
    (free : name ∈ free expression) (lacks : Lacks values name) :
    ∃ c, evaluate power values expression = .error (.invalid (.unexpected c)) := by
  apply evaluate_unusable power free
  intro x bound finite
  have number := lacks x bound
  simp only [isNaN, decide_eq_true_eq] at number
  omega

end Variable

namespace Book

open Variable (Lacks occurrences)

theorem mem_missing_iff {values : Assignment} {formula : Formula} {name : String} :
    name ∈ missing values formula ↔ name ∈ formula.freeVariables ∧ Lacks values name := by
  rw [missing, List.mem_filter]
  apply and_congr_right
  intro _
  cases bound : values name with
  | none => simp [Lacks, bound]
  | some x => simp [Lacks, bound]

theorem pairwise_missing (values : Assignment) (formula : Formula) :
    (missing values formula).Pairwise (AppearsBefore (occurrences formula.expression)) :=
  (pairwise_eraseDups (occurrences formula.expression)).filter _

variable {σ : Type}

theorem evaluate_found (power : Grouping) (values : Assignment) {book : Book σ} {id : String}
    {formula : Formula} (found : book.get? id = some formula) :
    book.evaluate power values id =
      if missing values formula = [] then
        (Reckon.evaluate power values formula.expression).mapError .evaluation
      else .error (.missingVariables (missing values formula)) := by
  rw [evaluate, found]
  simp only [List.isEmpty_iff]

/-- The first formula with an id is evaluated as its expression is, unless some of its variables have no
value or one that is no number. These and no others are then named, each once and in the order in which
they first appear, and the expression itself is refused. -/
theorem evaluate_missing_iff (power : Grouping) (values : Assignment) {book : Book σ}
    {before after : List Formula} {formula : Formula}
    (split : book.formulas = before ++ formula :: after) (first : ∀ f ∈ before, f.id ≠ formula.id) :
    (∀ names, book.evaluate power values formula.id = .error (.missingVariables names) ↔
      names ≠ [] ∧ (∀ n, n ∈ names ↔ n ∈ formula.freeVariables ∧ Lacks values n) ∧
        names.Pairwise (AppearsBefore (occurrences formula.expression))) ∧
    ((∃ n ∈ formula.freeVariables, Lacks values n) →
      (∃ names, book.evaluate power values formula.id = .error (.missingVariables names)) ∧
      ∃ c, Reckon.evaluate power values formula.expression = .error (.invalid (.unexpected c))) ∧
    ((∀ n ∈ formula.freeVariables, ¬ Lacks values n) →
      book.evaluate power values formula.id =
        (Reckon.evaluate power values formula.expression).mapError .evaluation) := by
  have found : book.get? formula.id = some formula := by
    rw [get?, split]
    refine List.find?_eq_some_iff_append.mpr ⟨beq_self_eq_true _, before, after, rfl, ?_⟩
    intro f member
    simpa using first f member
  rw [evaluate_found power values found]
  refine ⟨?_, ?_, ?_⟩
  · intro names
    constructor
    · intro refused
      split at refused
      · cases evaluated : Reckon.evaluate power values formula.expression with
        | ok value =>
          rw [evaluated] at refused
          cases refused
        | error error =>
          rw [evaluated] at refused
          cases refused
      · rename_i some
        cases refused
        exact ⟨some, fun n => mem_missing_iff, pairwise_missing values formula⟩
    · rintro ⟨some, lacking, ordered⟩
      have same : missing values formula = names := by
        apply (pairwise_missing values formula).eq_of_mem_iff ordered
        intro n
        rw [mem_missing_iff, lacking]
      rw [if_neg (same ▸ some), same]
  · rintro ⟨n, free, lacks⟩
    have member : n ∈ missing values formula := mem_missing_iff.mpr ⟨free, lacks⟩
    refine ⟨⟨_, if_neg (List.ne_nil_of_mem member)⟩, ?_⟩
    exact Variable.evaluate_lacking power free lacks
  · intro usable
    apply if_pos
    apply List.eq_nil_iff_forall_not_mem.mpr
    intro n member
    obtain ⟨free, lacks⟩ := mem_missing_iff.mp member
    exact usable n free lacks

/-- Two formulas with one id, the first of which has three variables. Only one of them has a value that is
a number. -/
theorem evaluate_missing_iff_twice :
    let formula : Formula := ⟨"1", "x", "b + a * b - nan"⟩
    let book : Book Memory := ⟨.empty, [⟨"2", "y", "a"⟩, formula, ⟨"1", "z", "a"⟩]⟩
    let values := Assignment.ofList [("a", 2), ("nan", .ofBits 0x7FF8000000000000)]
    book.evaluate .left values "1" = .error (.missingVariables ["b", "nan"]) ∧
      ["b", "nan"].Pairwise (AppearsBefore (occurrences formula.expression)) ∧
      (∃ n ∈ formula.freeVariables, Lacks values n) ∧
      (∃ c, Reckon.evaluate .left values formula.expression = .error (.invalid (.unexpected c))) ∧
      book.evaluate .left values "2" =
        (Reckon.evaluate .left values "a").mapError .evaluation := by
  intro formula book values
  have refused : book.evaluate .left values "1" = .error (.missingVariables ["b", "nan"]) := by
    decide +kernel
  have usable : missing values ⟨"2", "y", "a"⟩ = [] := by decide +kernel
  have second : book.formulas = [⟨"2", "y", "a"⟩] ++ formula :: [⟨"1", "z", "a"⟩] := rfl
  have first : book.formulas = [] ++ ⟨"2", "y", "a"⟩ :: [formula, ⟨"1", "z", "a"⟩] := rfl
  obtain ⟨named, blocked, _⟩ := evaluate_missing_iff .left values second (by simp [formula])
  obtain ⟨_, _, passed⟩ := evaluate_missing_iff .left values first (by simp)
  obtain ⟨_, exact, ordered⟩ := (named _).mp refused
  have lacking : ∃ n ∈ formula.freeVariables, Lacks values n :=
    ⟨"b", (exact "b").mp List.mem_cons_self⟩
  refine ⟨refused, ordered, lacking, (blocked lacking).2, passed ?_⟩
  intro n free lacks
  have member : n ∈ missing values ⟨"2", "y", "a"⟩ := mem_missing_iff.mpr ⟨free, lacks⟩
  rw [usable] at member
  cases member

end Book

end Reckon
