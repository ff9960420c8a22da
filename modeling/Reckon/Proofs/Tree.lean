import Reckon.Postfix

/-! Operator trees: their value by recursion, and the postfix order that a stack of values
evaluates to the same. -/

namespace Reckon

inductive Tree (α : Type) where
  | leaf (a : α)
  | node (op : Operator) (left right : Tree α)
  deriving DecidableEq, Repr

namespace Tree

def map (f : α → β) : Tree α → Tree β
  | leaf a => leaf (f a)
  | node op left right => node op (left.map f) (right.map f)

/-- The value of a tree of doubles. Operands are evaluated before their operator, the left first. -/
def eval : Tree Float → Except EvalError Float
  | leaf value => .ok value
  | node op left right => do op.apply (← left.eval) (← right.eval)

/-- Some division of the tree has a divisor that evaluates to a zero. -/
def DividesByZero : Tree Float → Prop
  | leaf _ => False
  | node op left right => left.DividesByZero ∨ right.DividesByZero ∨
      (op = .divide ∧ ∃ zero, right.eval = .ok zero ∧ zero == 0)

/-- The operands in their order, each operator after its own. -/
def postorder : Tree Float → List Item
  | leaf value => [.number value]
  | node op left right => left.postorder ++ right.postorder ++ [.operator op]

/-- An operator refuses only to divide by a zero. -/
theorem apply_error_iff {op : Operator} {left right : Float} {error : EvalError} :
    op.apply left right = .error error ↔
      error = .divisionByZero ∧ op = .divide ∧ right == 0 := by
  cases op with
  | divide =>
    by_cases zero : right == 0
    · simp [Operator.apply, zero, eq_comm (a := error)]
    · simp [Operator.apply, zero]
  | _ => simp [Operator.apply]

/-- Evaluation fails exactly when some division has a zero divisor, and with no other error. -/
theorem eval_error_iff {tree : Tree Float} {error : EvalError} :
    tree.eval = .error error ↔ error = .divisionByZero ∧ tree.DividesByZero := by
  induction tree generalizing error with
  | leaf value => simp [eval, DividesByZero]
  | node op left right ihl ihr =>
    simp only [eval, DividesByZero]
    cases leftValue : left.eval with
    | error other =>
      obtain ⟨rfl, divides⟩ := ihl.mp leftValue
      simp [bind, Except.bind, divides, eq_comm (a := error)]
    | ok l =>
      have leftWhole : ¬ left.DividesByZero := fun divides =>
        nomatch leftValue.symm.trans (ihl.mpr ⟨rfl, divides⟩)
      cases rightValue : right.eval with
      | error other =>
        obtain ⟨rfl, divides⟩ := ihr.mp rightValue
        simp [bind, Except.bind, divides, eq_comm (a := error)]
      | ok r =>
        have rightWhole : ¬ right.DividesByZero := fun divides =>
          nomatch rightValue.symm.trans (ihr.mpr ⟨rfl, divides⟩)
        simp [bind, Except.bind, leftWhole, rightWhole, apply_error_iff]

/-- A stack that meets the postfix order of a tree goes on with the tree's value on top. -/
theorem run_postorder (tree : Tree Float) (values : List Float) (rest : List Item) :
    Postfix.run values (tree.postorder ++ rest) =
      tree.eval >>= fun value => Postfix.run (value :: values) rest := by
  induction tree generalizing values rest with
  | leaf value => simp [postorder, eval, Postfix.run, bind, Except.bind]
  | node op left right ihl ihr =>
    simp only [postorder, List.append_assoc, ihl, ihr, eval]
    cases left.eval with
    | error other => rfl
    | ok l =>
      cases right.eval with
      | error other => rfl
      | ok r => rfl

theorem value_postorder (tree : Tree Float) : Postfix.value tree.postorder = tree.eval := by
  have whole := run_postorder tree [] []
  rw [List.append_nil] at whole
  rw [Postfix.value, whole]
  cases tree.eval <;> rfl

end Tree

end Reckon
