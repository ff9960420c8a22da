import Reckon.Binary64
import Reckon.Decimal

/-! The shortest decimal of a double. No decimal of a coarser grid reads back, and of those of its
own grid that do it is the nearest. -/

namespace Reckon.Binary64

/-- The decimals that read back as one double, measured on the grid of one power of ten:
a point `j` of the grid is `j * den`, and the double itself is `centre`. -/
structure Interval where
  low : Nat
  centre : Nat
  high : Nat
  closed : Bool
  den : Nat

namespace Interval

/-- Half a unit on either side, a quarter below the least mantissa of its exponent, where doubles
below lie closer. The ends belong to an even mantissa. -/
def of (x : Dyadic) (grid : Int) : Interval :=
  let quarter := x.exponent - 2
  let scale := Nat.pow 10 (-grid).toNat <<< quarter.toNat
  let narrow := x.mantissa = fullMantissa ∧ leastExponent < x.exponent
  { low := (4 * x.mantissa - if narrow then 1 else 2) * scale
    centre := 4 * x.mantissa * scale
    high := (4 * x.mantissa + 2) * scale
    closed := x.mantissa % 2 = 0
    den := Nat.pow 10 grid.toNat <<< (-quarter).toNat }

/-- Whether a point of the grid reads back. -/
def holds (i : Interval) (point : Nat) : Bool :=
  if i.closed then i.low ≤ point * i.den && point * i.den ≤ i.high
  else i.low < point * i.den && point * i.den < i.high

/-- The last point of the grid that does not exceed the double. -/
def below (i : Interval) : Nat := i.centre / i.den

/-- The nearest point of the grid that reads back, the upper one of two as near. A grid whose
first step is beyond the double is passed over. -/
def point? (i : Interval) : Option Nat :=
  if i.below = 0 then none
  else if i.holds i.below then
    if i.holds (i.below + 1) && (2 * i.below + 1) * i.den ≤ 2 * i.centre then some (i.below + 1)
    else some i.below
  else if i.holds (i.below + 1) then some (i.below + 1)
  else none

end Interval

/-- A power of ten beyond the double. -/
def topGrid (x : Dyadic) : Int :=
  let bits : Int := x.exponent + x.mantissa.log2 + 1
  if 0 ≤ bits then bits / 3 + 1 else -(-bits * 3 / 10)

/-- Tries the grid and then finer ones. The last, `10 ^ exponent` or ones, holds the double. -/
def descend (x : Dyadic) : Nat → Int → Decimal
  | 0, grid => ⟨(Interval.of x grid).below, grid⟩
  | steps + 1, grid =>
    match (Interval.of x grid).point? with
    | some point => ⟨point, grid⟩
    | none => descend x steps (grid - 1)

/-- The shortest decimal that reads back as a positive double. -/
def shortest (x : Dyadic) : Decimal :=
  (descend x (topGrid x - min x.exponent 0).toNat (topGrid x)).trim

end Reckon.Binary64
