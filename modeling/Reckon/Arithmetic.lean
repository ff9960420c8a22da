import Reckon.EvalError

/-! The arithmetic of the operators on doubles. -/

namespace Reckon.Operator

/-- Applies an operator to doubles. Division by a zero of either sign is refused, whatever is
divided; everything else follows the arithmetic of doubles. -/
def apply : Operator → Float → Float → Except EvalError Float
  | .plus, left, right => .ok (left + right)
  | .minus, left, right => .ok (left - right)
  | .times, left, right => .ok (left * right)
  | .divide, left, right => if right == 0 then .error .divisionByZero else .ok (left / right)
  | .power, left, right => .ok (Float.pow left right)

end Reckon.Operator
