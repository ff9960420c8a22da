/-! The five binary operators: how tightly they bind and from which side their chains group. -/

namespace Reckon

inductive Operator where
  | plus
  | minus
  | times
  | divide
  | power
  deriving DecidableEq, Repr

/-- The side from which a chain of equally tight operators is grouped. -/
inductive Grouping where
  | left
  | right
  deriving DecidableEq, Repr

namespace Operator

def symbol : Operator → Char
  | .plus => '+'
  | .minus => '-'
  | .times => '*'
  | .divide => '/'
  | .power => '^'

/-- Operators of a higher tightness take their operands first. -/
def tightness : Operator → Nat
  | .plus | .minus => 1
  | .times | .divide => 2
  | .power => 3

/-- Chains group from the left; only for powers may the right be chosen. -/
def grouping (power : Grouping) : Operator → Grouping
  | .power => power
  | _ => .left

/-- Whether a waiting operator takes its operands before a new one that follows it. -/
def precedes (power : Grouping) (waiting next : Operator) : Bool :=
  match next.grouping power with
  | .left => next.tightness ≤ waiting.tightness
  | .right => next.tightness < waiting.tightness

end Operator

end Reckon
