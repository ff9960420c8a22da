import Reckon.Variable

/-! Saved formulas. -/

namespace Reckon

structure Formula where
  id : String
  name : String
  expression : String
  deriving DecidableEq, Repr

namespace Formula

/-- The variables that need a value before the formula can be evaluated. -/
def freeVariables (f : Formula) : List String := Variable.free f.expression

/-- One more than the greatest number of sixty-four bits. -/
def idBound : Nat := UInt64.size

/-- The number that an id is: decimal digits, after a plus sign or not, below the bound. -/
def idNumber? (id : String) : Option Nat :=
  let digits := match id.toList with
    | '+' :: rest => rest
    | text => text
  (Numeral.whole? digits).filter (· < idBound)

/-- The id after all ids that are numbers. The last number is given again when it is reached. -/
def nextId (formulas : List Formula) : String :=
  let last := (formulas.filterMap fun f => idNumber? f.id).foldl max 0
  (min (last + 1) (idBound - 1)).repr

end Formula

end Reckon
