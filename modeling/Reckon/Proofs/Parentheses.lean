import Reckon.Proofs.Conversion
import Reckon.Proofs.FirstFault

/-! Which tokens the conversion to postfix order refuses, and with what error. Only blank space and
parentheses without a partner are refused; operators and their grouping play no part in it. -/

namespace Reckon

namespace Token

/-- The opening less the closing parentheses among tokens. -/
def depth (tokens : List Token) : Int := (tokens.count .opening : Int) - tokens.count .closing

/-- What is wrong with a token behind others: it is blank space, or closes a parenthesis when none is
open. -/
inductive Misplaced (before : List Token) : Token → EvalError → Prop where
  | blank : Misplaced before .blank (.invalid .blank)
  | closing (none : depth before = 0) : Misplaced before .closing (.unmatched .closing)

theorem depth_append (first second : List Token) : depth (first ++ second) = depth first + depth second := by
  simp only [depth, List.count_append]
  omega

end Token

namespace Postfix

open Token (depth depth_append Misplaced)

/-- Each parenthesis that is open has its list of waiting operators. -/
def Progress.Opened (tokens : List Token) (state : Progress) : Prop :=
  depth tokens = state.outer.length

theorem Progress.opened_start : Opened [] start := rfl

theorem Progress.Opened.next {power : Grouping} {state after : Progress} (opened : Opened before state)
    (taken : state.read power token = .ok after) : Opened (before ++ [token]) after := by
  obtain ⟨waiting, outer, written⟩ := state
  have depths : depth before = outer.length := opened
  rw [Opened, depth_append, depths]
  cases token with
  | number value =>
    cases taken
    exact Int.add_zero _
  | operator op =>
    cases taken
    exact Int.add_zero _
  | opening =>
    cases taken
    rfl
  | closing =>
    cases outer with
    | nil => cases taken
    | cons around outer =>
      cases taken
      have one : depth [.closing] = -1 := rfl
      rw [one]
      change ((outer.length + 1 : Nat) : Int) + -1 = outer.length
      omega
  | blank => cases outer <;> cases taken

theorem Progress.Opened.error_iff {power : Grouping} {state : Progress} (opened : Opened before state) :
    state.read power token = .error error ↔ Misplaced before token error := by
  obtain ⟨waiting, outer, written⟩ := state
  have depths : depth before = outer.length := opened
  constructor
  · intro refused
    cases token with
    | closing =>
      cases outer with
      | nil =>
        cases refused
        exact .closing depths
      | cons around outer => cases refused
    | blank => cases outer <;> cases refused <;> exact .blank
    | _ => cases refused
  · intro misplaced
    cases misplaced with
    | blank => cases outer <;> rfl
    | closing none =>
      cases outer with
      | nil => rfl
      | cons around outer =>
        rw [none, List.length_cons] at depths
        omega

/-- The conversion refuses exactly the tokens that are misplaced. -/
theorem detects_read (power : Grouping) :
    Detects (Progress.read power) Misplaced Progress.Opened where
  next := Progress.Opened.next
  error_iff := Progress.Opened.error_iff

theorem ofTokens_of_faultless (power : Grouping) (faultless : Faultless Misplaced tokens) :
    ∃ state : Progress, state.Opened tokens ∧ ofTokens power tokens = state.items := by
  obtain ⟨state, read, opened⟩ := (detects_read power).exists_state Progress.opened_start faultless
  refine ⟨state, opened, ?_⟩
  rw [Progress.ofTokens_eq_foldlM, read]
  rfl

/-- A conversion is refused for its first misplaced token, or for a parenthesis still open at the end. -/
theorem ofTokens_error_iff (power : Grouping) : ofTokens power tokens = .error error ↔
    FirstFault Misplaced tokens error ∨
      (Faultless Misplaced tokens ∧ 0 < depth tokens ∧ error = .unmatched .opening) := by
  rcases faultless_or_firstFault Misplaced tokens with faultless | ⟨other, first⟩
  · have fine : ¬ FirstFault Misplaced tokens error := fun first => first.not_faultless faultless
    obtain ⟨⟨waiting, outer, written⟩, opened, result⟩ := ofTokens_of_faultless power faultless
    have depths : depth tokens = outer.length := opened
    rw [result]
    cases outer with
    | nil => simp [Progress.items, fine, depths]
    | cons around outer =>
      have positive : 0 < depth tokens := by
        rw [depths, List.length_cons]
        omega
      simp [Progress.items, fine, faultless, positive, eq_comm (a := error)]
  · have stops (error : EvalError) : tokens.foldlM (Progress.read power) .start = .error error ↔
        FirstFault Misplaced tokens error :=
      (detects_read power).foldlM_error_iff Progress.opened_start
    rw [Progress.ofTokens_eq_foldlM, ← stops, (stops other).mpr first]
    simp [first.not_faultless, bind, Except.bind]

/-- The outcome of a conversion is told by the first misplaced token alone, and without one by the
parentheses that are open at the end. It is the same for either grouping of powers, and there are no
other errors: a token that is taken for an operator is one. -/
theorem ofTokens_decided (power : Grouping) (tokens : List Token) :
    (∀ error, FirstFault Misplaced tokens error → ofTokens power tokens = .error error) ∧
    (Faultless Misplaced tokens →
      (0 < depth tokens → ofTokens power tokens = .error (.unmatched .opening)) ∧
      (¬ 0 < depth tokens → ∃ items, ofTokens power tokens = .ok items)) ∧
    (∀ error, ofTokens power tokens = .error error →
      error = .invalid .blank ∨ error = .unmatched .closing ∨ error = .unmatched .opening) ∧
    (∀ op : Operator, (Token.operator op).operator? = some op) ∧
    (∀ other error, ofTokens power tokens = .error error ↔ ofTokens other tokens = .error error) ∧
    ExpressionFault.blank.message = "whitespace reached the parser" := by
  refine ⟨fun error first => ?_, fun faultless => ⟨fun positive => ?_, fun none => ?_⟩,
    fun error refused => ?_, fun _ => rfl, fun other error => ?_, rfl⟩
  · exact (ofTokens_error_iff power).mpr (.inl first)
  · exact (ofTokens_error_iff power).mpr (.inr ⟨faultless, positive, rfl⟩)
  · cases result : ofTokens power tokens with
    | ok items => exact ⟨items, rfl⟩
    | error error =>
      rcases (ofTokens_error_iff power).mp result with first | ⟨_, positive, _⟩
      · exact absurd faultless first.not_faultless
      · exact absurd positive none
  · rcases (ofTokens_error_iff power).mp refused with first | ⟨_, _, rfl⟩
    · cases first with
      | behind _ misplaced _ => cases misplaced <;> simp
    · simp
  · rw [ofTokens_error_iff, ofTokens_error_iff]

/-- A closing parenthesis without a partner is reported, not the blank space and the open parenthesis
after it. -/
theorem ofTokens_decided_closing :
    FirstFault Misplaced [.opening, .closing, .closing, .blank, .opening] (.unmatched .closing) ∧
      ofTokens .right [.opening, .closing, .closing, .blank, .opening] =
        .error (.unmatched .closing) := by
  have pair : Faultless Misplaced [.opening, .closing] := by
    refine faultless_concat_iff.mpr ⟨faultless_concat_iff.mpr ⟨faultless_nil, nofun⟩, ?_⟩
    rintro error (_ | none)
    exact absurd none (by decide)
  have first := FirstFault.behind pair (.closing (by decide)) [.blank, .opening]
  exact ⟨first, (ofTokens_decided .right _).1 _ first⟩

end Postfix

end Reckon
