import Reckon.Operator

/-! What can be wrong with an expression, and the words it is reported in. -/

namespace Reckon

/-- Why an expression is not well formed. -/
inductive ExpressionFault where
  /-- No token starts with this character. -/
  | unexpected (c : Char)
  | empty
  | missingOperand (op : Operator)
  /-- So many values are left over. -/
  | missingOperators (count : Nat)
  | nothing
  /-- Blank space stands among the tokens. -/
  | blank
  deriving DecidableEq, Repr

inductive Parenthesis where
  | opening
  | closing
  deriving DecidableEq, Repr

def Parenthesis.symbol : Parenthesis → String
  | .opening => "("
  | .closing => ")"

inductive EvalError where
  | invalid (fault : ExpressionFault)
  | unmatched (parenthesis : Parenthesis)
  | divisionByZero
  deriving DecidableEq, Repr

def ExpressionFault.message : ExpressionFault → String
  | .unexpected c => "unexpected character(s) '" ++ c.toString ++ "'"
  | .empty => "expression is empty"
  | .missingOperand op => "operator '" ++ op.symbol.toString ++ "' is missing an operand"
  | .missingOperators count => count.repr ++ " operands are missing an operator"
  | .nothing => "nothing to evaluate"
  | .blank => "whitespace reached the parser"

def EvalError.message : EvalError → String
  | .invalid fault => "Invalid expression: " ++ fault.message ++ "."
  | .unmatched parenthesis => "Mismatched parentheses: unmatched '" ++ parenthesis.symbol ++ "'."
  | .divisionByZero => "Division by zero."

end Reckon
