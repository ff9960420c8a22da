/-! Doubles by their bits: the fields of a magnitude and the value it stands for. -/

namespace Reckon

/-- The value `mantissa · 2 ^ exponent`. -/
structure Dyadic where
  mantissa : Nat
  exponent : Int
  deriving DecidableEq, Repr

namespace Binary64

/-- The weight of the exponent field: one more than the greatest fraction, and the least mantissa
of full precision. -/
def fullMantissa : Nat := 1 <<< 52

/-- The weight of the sign bit, one more than the greatest magnitude. -/
def signWeight : Nat := 1 <<< 63

/-- The bits of positive infinity. Magnitudes below it are finite, those above are no numbers. -/
def infinity : Nat := 2047 * fullMantissa

/-- The exponent of the smallest positive double, and of all that have a unit as small. -/
def leastExponent : Int := -1074

/-- The value of a finite double with clear sign bit. -/
def dyadic (bits : Nat) : Dyadic :=
  let field := bits / fullMantissa
  if field = 0 then ⟨bits, leastExponent⟩
  else ⟨fullMantissa + bits % fullMantissa, leastExponent + (field - 1 : Nat)⟩

/-- The sign bit of a double. -/
def negative (x : Float) : Bool := signWeight ≤ x.toBits.toNat

/-- The bits of a double without its sign bit. -/
def magnitude (x : Float) : Nat := x.toBits.toNat % signWeight

/-- Whether a double is no number. -/
def isNaN (x : Float) : Bool := infinity < magnitude x

/-- The double with this sign and these other bits. -/
def ofMagnitude (negative : Bool) (bits : Nat) : Float :=
  Float.ofBits (UInt64.ofNat (bits + if negative then signWeight else 0))

end Binary64

end Reckon
