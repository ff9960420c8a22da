import Reckon.Binary64
import Reckon.Decimal

/-! The double nearest to an exact quotient. Half way between two doubles the even one is
taken; too large a quotient gives infinity. -/

namespace Reckon.Binary64

/-- The whole number nearest to a quotient, the even one of two as near. -/
def roundDiv (num den : Nat) : Nat :=
  let below := num / den
  let twice := 2 * (num % den)
  if twice < den ∨ (twice = den ∧ below % 2 = 0) then below else below + 1

/-- The rounded quotient is within half of the exact one. -/
theorem roundDiv_within_half (num : Nat) {den : Nat} (positive : 0 < den) :
    2 * num ≤ (2 * roundDiv num den + 1) * den ∧ 2 * (roundDiv num den * den) ≤ 2 * num + den := by
  have whole := Nat.div_add_mod num den
  have small := Nat.mod_lt num positive
  have order : num / den * den = den * (num / den) := Nat.mul_comm _ _
  unfold roundDiv
  simp only
  split
  · rw [Nat.add_mul, Nat.mul_assoc]
    omega
  · have above : (num / den + 1) * den = num / den * den + den := Nat.succ_mul _ _
    rw [Nat.add_mul (2 * (num / den + 1)), Nat.mul_assoc, above]
    omega

/-- Of two whole numbers as near, the even one is taken. -/
theorem roundDiv_tie {num den below : Nat} (positive : 0 < den)
    (tie : 2 * num = 2 * (below * den) + den) : roundDiv num den % 2 = 0 := by
  have next : (below + 1) * den = below * den + den := Nat.succ_mul _ _
  have whole : num / den = below := Nat.div_eq_of_lt_le (by omega) (by omega)
  have rest := Nat.div_add_mod' num den
  rw [whole] at rest
  unfold roundDiv
  simp only [whole]
  split <;> omega

/-- The greatest `k` for which `2 ^ k` does not exceed the positive quotient. -/
def leading (num den : Nat) : Int :=
  let guess : Int := num.log2 - den.log2
  if den <<< guess.toNat ≤ num <<< (-guess).toNat then guess else guess - 1

/-- The exponent of the unit in which doubles of the quotient's size are counted. -/
def unitExponent (num den : Nat) : Int := max (leading num den - 52) leastExponent

/-- The bits of the double nearest to `num / den`. Counting units carries into the exponent
field by itself, since a double's bits follow the order of its value. -/
def nearest (num den : Nat) : Nat :=
  if num = 0 then 0
  else
    let unit := unitExponent num den
    let count := roundDiv (num <<< (-unit).toNat) (den <<< unit.toNat)
    min infinity ((unit - leastExponent).toNat * fullMantissa + count)

/-- The bits of the double nearest to a decimal. A decimal far outside the range of doubles
is settled by its exponent alone, so that no power of its size is computed. -/
def ofDecimal (d : Decimal) : Nat :=
  if d.digits = 0 then 0
  else if 309 ≤ d.exponent then infinity
  else if d.exponent + d.digits.log2 + 1 ≤ -324 then 0
  else nearest d.numerator d.denominator

end Reckon.Binary64
