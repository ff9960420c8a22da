import Reckon.Proofs.Neighbours
import Reckon.Proofs.Sign

/-! The order of doubles without a sign is that of their bits: first the exponents of their values are
compared, then the mantissas. -/

namespace Reckon.Binary64

open Float.Model (Format UnpackedFloat)
open Float.Model.UnpackedFloat

theorem exponent_eq_ones_iff (x : Float) :
    @unpackExponent .binary64 x.toBits.toBitVec = -1#_ ↔ magnitude x / fullMantissa = 2047 := by
  rw [← BitVec.toNat_inj, (toNat_fields x.toBits).1]
  rfl

theorem exponent_eq_zero_iff (x : Float) :
    @unpackExponent .binary64 x.toBits.toBitVec = 0#_ ↔ magnitude x / fullMantissa = 0 := by
  rw [← BitVec.toNat_inj, (toNat_fields x.toBits).1]
  rfl

theorem mantissa_eq_zero_iff (x : Float) :
    @unpackMantissa .binary64 x.toBits.toBitVec = 0#_ ↔ magnitude x % fullMantissa = 0 := by
  rw [← BitVec.toNat_inj, (toNat_fields x.toBits).2]
  rfl

theorem unpack_infinite {x : Float} (positive : negative x = false) (infinite : magnitude x = infinity) :
    x.toModel.unpack = .infinity .positive := by
  have sign := unpackSign_toBits x
  have exponent := (exponent_eq_ones_iff x).mpr (by rw [infinite]; rfl)
  have mantissa := (mantissa_eq_zero_iff x).mpr (by rw [infinite]; rfl)
  change unpack .binary64 x.toBits.toBitVec = _
  unfold unpack
  simp only [sign, exponent, mantissa, positive]
  rfl

theorem unpack_zero {x : Float} (positive : negative x = false) (zero : magnitude x = 0) :
    x.toModel.unpack = .zero .positive := by
  have sign := unpackSign_toBits x
  have exponent := (exponent_eq_zero_iff x).mpr (by rw [zero]; rfl)
  have mantissa := (mantissa_eq_zero_iff x).mpr (by rw [zero]; rfl)
  change unpack .binary64 x.toBits.toBitVec = _
  unfold unpack
  simp only [sign, exponent, mantissa, positive]
  rfl

/-- A finite double other than zero is unpacked to the mantissa and the exponent of its value. -/
theorem unpack_finite {x : Float} (positive : negative x = false) (nonzero : 0 < magnitude x)
    (finite : magnitude x < infinity) : x.toModel.unpack =
      .finite .positive (dyadic (magnitude x)).mantissa (dyadic (magnitude x)).exponent
        (mantissa_dyadic_pos nonzero) := by
  have sign := unpackSign_toBits x
  have exponent : (@unpackExponent .binary64 x.toBits.toBitVec).toNat = magnitude x / fullMantissa :=
    (toNat_fields x.toBits).1
  have mantissa : (@unpackMantissa .binary64 x.toBits.toBitVec).toNat = magnitude x % fullMantissa :=
    (toNat_fields x.toBits).2
  have weight : 0 < fullMantissa := by decide
  have field : magnitude x / fullMantissa < 2047 := (Nat.div_lt_iff_lt_mul weight).mpr finite
  have other := mt (exponent_eq_ones_iff x).mp field.ne
  change unpack .binary64 x.toBits.toBitVec = _
  unfold unpack
  simp only [sign, positive, if_neg other]
  split
  · rename_i subnormal
    have small := (exponent_eq_zero_iff x).mp subnormal
    have whole := Nat.mod_eq_of_lt ((Nat.div_eq_zero_iff.mp small).resolve_left weight.ne')
    have fraction := mt (mantissa_eq_zero_iff x).mp (by rw [whole]; exact nonzero.ne')
    have value : dyadic (magnitude x) = ⟨magnitude x, leastExponent⟩ := by simp [dyadic, small]
    rw [dif_neg fraction]
    simp only [value, UnpackedFloat.finite.injEq, mantissa, exponent, small, whole]
    exact ⟨rfl, trivial, rfl⟩
  · rename_i normal
    have some := mt (exponent_eq_zero_iff x).mpr normal
    have value : dyadic (magnitude x) = ⟨fullMantissa + magnitude x % fullMantissa,
        leastExponent + (magnitude x / fullMantissa - 1 : Nat)⟩ := by simp [dyadic, some]
    have implicit : (1#1 ++ @unpackMantissa .binary64 x.toBits.toBitVec).toNat =
        fullMantissa + magnitude x % fullMantissa := by
      rw [BitVec.toNat_append, ← Nat.shiftLeft_add_eq_or_of_lt (BitVec.isLt _), mantissa]
      rfl
    have bias : ((magnitude x / fullMantissa : Nat) : Int) -
        (Format.exponentBias .binary64 + (52 : Nat)) =
          leastExponent + (magnitude x / fullMantissa - 1 : Nat) := by
      have known : Format.exponentBias .binary64 = 1023 := rfl
      simp only [known, leastExponent]
      omega
    simp only [value, UnpackedFloat.finite.injEq, implicit, exponent]
    exact ⟨rfl, trivial, bias⟩

/-- The order of bits is that of exponents, and with the same exponent that of mantissas. -/
theorem compare_dyadic {first second : Nat} (order : first ≤ second) :
    ((compare (dyadic first).exponent (dyadic second).exponent).then
      (compare (dyadic first).mantissa (dyadic second).mantissa)).isLE = true := by
  have below := (canonical_dyadic second).below
  rw [← bits_dyadic first, ← bits_dyadic second] at order
  simp only [Dyadic.bits] at order
  rcases Int.lt_trichotomy (dyadic first).exponent (dyadic second).exponent with less | same | more
  · rw [compare_lt_iff_lt.mpr less]
    rfl
  · rw [same] at order ⊢
    rw [compare_eq_iff_eq.mpr rfl]
    exact Nat.isLE_compare.mpr (Nat.le_of_add_le_add_left order)
  · exfalso
    obtain ⟨steps, above⟩ := Int.le.dest (Int.add_one_le_of_lt more)
    obtain ⟨base, least⟩ := Int.le.dest (canonical_dyadic second).least
    have normal := (canonical_dyadic first).full.resolve_right (by omega)
    have units : ((dyadic first).exponent - leastExponent).toNat = base + 1 + steps := by omega
    have units' : ((dyadic second).exponent - leastExponent).toNat = base := by omega
    rw [units, units', Nat.add_mul, Nat.add_mul, Nat.one_mul] at order
    omega

/-- Doubles without a sign are in the order of their bits. -/
theorem le_of_magnitude_le {x y : Float} (positive : negative x = false) (positive' : negative y = false)
    (number : magnitude y ≤ infinity) (order : magnitude x ≤ magnitude y) : x ≤ y := by
  refine decide_eq_true ?_
  change (x.toModel.unpack.compare y.toModel.unpack).any (·.isLE) = true
  by_cases infinite : magnitude y = infinity
  · rw [unpack_infinite positive' infinite]
    by_cases infinite' : magnitude x = infinity
    · rw [unpack_infinite positive infinite']
      rfl
    · by_cases zero : magnitude x = 0
      · rw [unpack_zero positive zero]
        rfl
      · rw [unpack_finite positive (Nat.pos_of_ne_zero zero) (by omega)]
        rfl
  · have finite : magnitude y < infinity := Nat.lt_of_le_of_ne number infinite
    by_cases zero : magnitude x = 0
    · rw [unpack_zero positive zero]
      by_cases zero' : magnitude y = 0
      · rw [unpack_zero positive' zero']
        rfl
      · rw [unpack_finite positive' (Nat.pos_of_ne_zero zero') finite]
        rfl
    · have nonzero := Nat.pos_of_ne_zero zero
      rw [unpack_finite positive nonzero (order.trans_lt finite),
        unpack_finite positive' (nonzero.trans_le order) finite]
      exact compare_dyadic order

end Reckon.Binary64
