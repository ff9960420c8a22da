import Reckon.Operator

/-! Tokens of an infix expression whose variables have been replaced. -/

namespace Reckon

inductive Token where
  | number (value : Float)
  | operator (op : Operator)
  | opening
  | closing
  /-- A stretch of blank space. The lexer leaves it out, so it is never part of its result. -/
  | blank
  deriving DecidableEq

namespace Token

/-- The token that is written as a single character. -/
def ofSymbol? : Char → Option Token
  | '+' => some (.operator .plus)
  | '-' => some (.operator .minus)
  | '*' => some (.operator .times)
  | '/' => some (.operator .divide)
  | '^' => some (.operator .power)
  | '(' => some .opening
  | ')' => some .closing
  | _ => none

def operator? : Token → Option Operator
  | .operator op => some op
  | _ => none

/-- The characters that are tokens by themselves. -/
def isSymbol (c : Char) : Bool := (ofSymbol? c).isSome

theorem ofSymbol?_symbol (op : Operator) : ofSymbol? op.symbol = some (.operator op) := by
  cases op <;> rfl

end Token

end Reckon
