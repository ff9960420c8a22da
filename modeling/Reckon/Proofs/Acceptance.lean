import Reckon.Proofs.Alternation
import Reckon.Proofs.Except

/-! Which token lists have a value. The conversion to postfix order checks parentheses and the
evaluation counts operands, so a list passes that is no infix expression when one of its operands
stands directly before another. -/

namespace Reckon

namespace Item

def isNumber : Item → Bool
  | .number _ => true
  | .operator _ => false

def isOperator : Item → Bool
  | .number _ => false
  | .operator _ => true

theorem countP_operators (ops : List Operator) :
    (ops.map Item.operator).countP isNumber = 0 ∧
      (ops.map Item.operator).countP isOperator = ops.length := by
  induction ops with
  | nil => exact ⟨rfl, rfl⟩
  | cons op rest ih => simp [List.countP_cons, isNumber, isOperator, ih.1, ih.2]

end Item

namespace Postfix

/-- Tokens that can be arranged are balanced, and their numbers and operators are kept, besides the
operators that were waiting. -/
theorem arrange_ok {tokens : List Token} {items : List Item}
    (arranged : arrange power waiting outer tokens = .ok items) :
    Token.Balanced outer.length tokens ∧
      items.countP Item.isNumber = tokens.countP Token.isNumber ∧
      items.countP Item.isOperator =
        tokens.countP Token.isOperator + waiting.length + outer.flatten.length := by
  fun_induction arrange power waiting outer tokens generalizing items with
  | case1 waiting =>
    cases arranged
    obtain ⟨numbers, operators⟩ := Item.countP_operators waiting
    exact ⟨rfl, numbers, by simpa using operators⟩
  | case2 => cases arranged
  | case3 waiting outer value rest ih =>
    obtain ⟨later, found, rfl⟩ := exists_of_map_ok arranged
    obtain ⟨balanced, numbers, operators⟩ := ih found
    refine ⟨by simpa [Token.Balanced] using balanced, ?_, ?_⟩
    · simp [List.countP_cons, Item.isNumber, Token.isNumber, numbers]
    · simp [Item.isOperator, Token.isOperator, operators]
  | case4 waiting outer op rest ih =>
    obtain ⟨later, found, rfl⟩ := exists_of_map_ok arranged
    obtain ⟨balanced, numbers, operators⟩ := ih found
    obtain ⟨noNumbers, written⟩ := Item.countP_operators (waiting.takeWhile (·.precedes power op))
    have split := congrArg List.length
      (List.takeWhile_append_dropWhile (p := (·.precedes power op)) (l := waiting))
    rw [List.length_append] at split
    refine ⟨by simpa [Token.Balanced] using balanced, ?_, ?_⟩
    · simp [Token.isNumber, noNumbers, numbers]
    · simp only [List.countP_append, written, operators, List.length_cons, List.countP_cons,
        Token.isOperator, if_true]
      omega
  | case5 waiting outer rest ih =>
    obtain ⟨balanced, numbers, operators⟩ := ih arranged
    refine ⟨by simpa [Token.Balanced] using balanced, ?_, ?_⟩
    · simp [Token.isNumber, numbers]
    · simp only [operators, List.countP_cons, Token.isOperator, List.flatten_cons,
        List.length_append, List.length_nil, Bool.false_eq_true, if_false]
      omega
  | case6 => cases arranged
  | case7 waiting around outer rest ih =>
    obtain ⟨later, found, rfl⟩ := exists_of_map_ok arranged
    obtain ⟨balanced, numbers, operators⟩ := ih found
    obtain ⟨noNumbers, written⟩ := Item.countP_operators waiting
    refine ⟨by simpa [Token.Balanced] using balanced, ?_, ?_⟩
    · simp [Token.isNumber, noNumbers, numbers]
    · simp only [List.countP_append, written, operators, List.countP_cons, Token.isOperator,
        List.flatten_cons, List.length_append, Bool.false_eq_true, if_false]
      omega
  | case8 => cases arranged

theorem arrange_error {tokens : List Token} {error : EvalError}
    (refused : arrange power waiting outer tokens = .error error) : error ≠ .divisionByZero := by
  fun_induction arrange power waiting outer tokens with
  | case1 => cases refused
  | case2 => cases refused; simp
  | case3 _ _ _ _ ih => exact ih (error_of_map refused)
  | case4 _ _ _ _ ih => exact ih (error_of_map refused)
  | case5 _ _ _ ih => exact ih refused
  | case6 => cases refused; simp
  | case7 _ _ _ _ ih => exact ih (error_of_map refused)
  | case8 => cases refused; simp

/-- Items that leave a value have one number more than operators, counting the values below. -/
theorem run_ok {items : List Item} {value : Float} (found : run values items = .ok value) :
    values.length + items.countP Item.isNumber = items.countP Item.isOperator + 1 := by
  fun_induction run values items with
  | case1 => cases found
  | case2 => rfl
  | case3 => cases found
  | case4 values pushed rest ih =>
    have count := ih found
    simp only [List.length_cons, List.countP_cons, Item.isNumber, Item.isOperator,
      Bool.false_eq_true, if_true, if_false] at count ⊢
    omega
  | case5 right left values op rest ih =>
    cases applied : op.apply left right with
    | error error => rw [applied] at found; cases found
    | ok result =>
      rw [applied] at found
      have count := ih result found
      simp only [List.length_cons, List.countP_cons, Item.isNumber, Item.isOperator,
        Bool.false_eq_true, if_true, if_false] at count ⊢
      omega
  | case6 => cases found

end Postfix

namespace Token

/-- Infix expressions are the lists with matched parentheses that keep their operands apart and have
one number more than operators. -/
theorem isInfix_iff {tokens : List Token} (plain : .blank ∉ tokens) :
    IsInfix tokens ↔ Balanced 0 tokens ∧ Apart tokens ∧
      tokens.countP isNumber = tokens.countP isOperator + 1 := by
  rw [isInfix_iff_alternates]
  constructor
  · intro accepted
    obtain ⟨balanced, apart, _, count⟩ := accepted.shape
    exact ⟨balanced, apart, by simpa using count⟩
  · rintro ⟨balanced, apart, count⟩
    have orderly : Orderly false 0 tokens := orderly_of_apart plain balanced apart nofun
    exact orderly.count_le.2 (by simpa using count)

/-- An infix expression is refused only for a division by zero. -/
theorem IsInfix.outcome_error {tokens : List Token} (derivable : IsInfix tokens) {power : Grouping}
    {error : EvalError} (refused : Postfix.ofTokens power tokens >>= Postfix.value = .error error) :
    error = .divisionByZero := by
  obtain ⟨e, rfl⟩ := derivable
  rw [Postfix.value_tokens] at refused
  exact (Tree.eval_error_iff.mp refused).1

/-- Every infix expression is evaluated, to a value or up to a division by zero. A list with a value
is an infix expression unless an operand stands directly before another. One that divides by zero
may besides lack numbers or operators, since evaluation ends there and counts nothing more. -/
theorem isInfix_of_outcome (power : Grouping) {tokens : List Token} (plain : .blank ∉ tokens) :
    match Postfix.ofTokens power tokens >>= Postfix.value with
    | .ok _ => IsInfix tokens ↔ Apart tokens
    | .error .divisionByZero => IsInfix tokens ↔
        Apart tokens ∧ tokens.countP isNumber = tokens.countP isOperator + 1
    | .error (.invalid _) => ¬ IsInfix tokens
    | .error (.unmatched _) => ¬ IsInfix tokens := by
  cases outcome : Postfix.ofTokens power tokens >>= Postfix.value with
  | ok value =>
    obtain ⟨items, arranged, evaluated⟩ := exists_of_bind_ok outcome
    obtain ⟨balanced, numbers, operators⟩ := Postfix.arrange_ok arranged
    have count := Postfix.run_ok evaluated
    have total : tokens.countP isNumber = tokens.countP isOperator + 1 := by
      simpa [numbers, operators] using count
    rw [isInfix_iff plain]
    constructor
    · rintro ⟨_, apart, _⟩
      exact apart
    · intro apart
      exact ⟨balanced, apart, total⟩
  | error error =>
    cases error with
    | divisionByZero =>
      cases arranged : Postfix.ofTokens power tokens with
      | error error =>
        rw [arranged] at outcome
        cases outcome
        exact absurd rfl (Postfix.arrange_error arranged)
      | ok items =>
        obtain ⟨balanced, _, _⟩ := Postfix.arrange_ok arranged
        rw [isInfix_iff plain]
        constructor
        · rintro ⟨_, apart, total⟩
          exact ⟨apart, total⟩
        · rintro ⟨apart, total⟩
          exact ⟨balanced, apart, total⟩
    | invalid fault => exact fun derivable => nomatch derivable.outcome_error outcome
    | unmatched parenthesis => exact fun derivable => nomatch derivable.outcome_error outcome

/-- A sum has a value and keeps its operands apart, so it is an infix expression. -/
theorem isInfix_sum : IsInfix [.number 1, .operator .plus, .number 2] := by
  have plain : .blank ∉ [Token.number 1, .operator .plus, .number 2] := by simp
  exact (isInfix_of_outcome .left plain).mpr (by simp [Apart, endsOperand, startsOperand])

/-- Two numbers before their operator have a value, and a division by zero before an operator without
operand is still a division by zero. Neither is an infix expression. -/
theorem juxtaposed_value :
    (∃ value, Postfix.ofTokens .left [.number 1, .number 2, .operator .plus] >>= Postfix.value =
        .ok value ∧ ¬ IsInfix [.number 1, .number 2, .operator .plus]) ∧
      Postfix.ofTokens .left [.number 1, .operator .divide, .number 0, .operator .times] >>=
        Postfix.value = .error .divisionByZero ∧
      ¬ IsInfix [.number 1, .operator .divide, .number 0, .operator .times] := by
  refine ⟨⟨_, rfl, fun derivable => ?_⟩, by decide +kernel, fun derivable => ?_⟩
  · obtain ⟨_, apart, _⟩ := (isInfix_iff (by simp)).mp derivable
    simp [Apart, endsOperand, startsOperand] at apart
  · obtain ⟨_, _, count⟩ := (isInfix_iff (by simp)).mp derivable
    exact absurd count (by decide)

end Token

end Reckon
