import Reckon.Arithmetic
import Reckon.Token

/-! Postfix order: numbers in their order, each operator after its operands. Infix tokens are
brought into it, and a stack of values evaluates it. -/

namespace Reckon

inductive Item where
  | number (value : Float)
  | operator (op : Operator)
  deriving DecidableEq

namespace Postfix

/-- Reads infix tokens. `waiting` are the operators of the innermost open parenthesis that still
wait for their right operand, the latest first; `outer` are those of the parentheses around it. -/
def arrange (power : Grouping) :
    List Operator → List (List Operator) → List Token → Except EvalError (List Item)
  | waiting, [], [] => .ok (waiting.map .operator)
  | _, _ :: _, [] => .error (.unmatched .opening)
  | waiting, outer, .number value :: rest => (.number value :: ·) <$> arrange power waiting outer rest
  | waiting, outer, .operator op :: rest =>
    ((waiting.takeWhile (·.precedes power op)).map .operator ++ ·) <$>
      arrange power (op :: waiting.dropWhile (·.precedes power op)) outer rest
  | waiting, outer, .opening :: rest => arrange power [] (waiting :: outer) rest
  | _, [], .closing :: _ => .error (.unmatched .closing)
  | waiting, around :: outer, .closing :: rest =>
    (waiting.map .operator ++ ·) <$> arrange power around outer rest
  | _, _, .blank :: _ => .error (.invalid .blank)

/-- The postfix order of infix tokens. -/
def ofTokens (power : Grouping) (tokens : List Token) : Except EvalError (List Item) :=
  arrange power [] [] tokens

/-- Evaluates items upon a stack of values, the latest first. An operator's right operand is the
latest value. -/
def run : List Float → List Item → Except EvalError Float
  | [], [] => .error (.invalid .nothing)
  | [value], [] => .ok value
  | _ :: _ :: others, [] => .error (.invalid (.missingOperators (others.length + 1)))
  | values, .number value :: rest => run (value :: values) rest
  | right :: left :: values, .operator op :: rest => do
    run ((← op.apply left right) :: values) rest
  | _, .operator op :: _ => .error (.invalid (.missingOperand op))

/-- The value of items in postfix order. -/
def value (items : List Item) : Except EvalError Float := run [] items

end Postfix

end Reckon
