import Mathlib
import Reckon.Proofs.Literal

/-! The sign bit of a double: what is less than zero has it set, and the absolute value has it
clear and all other bits the same. The doubles that equal zero have no other bit set. -/

namespace Reckon.Binary64

open Float.Model (Format)
open Float.Model.UnpackedFloat

/-- Unpacking takes the sign from the sign bit. -/
theorem unpackSign_toBits (x : Float) :
    @unpackSign .binary64 x.toBits.toBitVec = if negative x then 1#1 else 0#1 := by
  have bound := x.toBits.toNat_lt
  have weight : signWeight = 2 ^ 63 := rfl
  apply BitVec.eq_of_toNat_eq
  rw [unpackSign_def, BitVec.extractLsb'_toNat, Nat.shiftRight_eq_div_pow, UInt64.toNat_toBitVec]
  unfold negative
  rw [weight]
  by_cases sign : 2 ^ 63 ≤ x.toBits.toNat
  · simp only [sign, decide_true, if_true]
    change x.toBits.toNat / 2 ^ 63 % 2 ^ 1 = 1
    omega
  · simp only [sign, decide_false, Bool.false_eq_true, if_false]
    change x.toBits.toNat / 2 ^ 63 % 2 ^ 1 = 0
    omega

/-- Only doubles with their sign bit set are less than zero. -/
theorem negative_of_lt_zero {x : Float} (below : x < 0) : negative x = true := by
  have order : x.toModel.unpack.compare (.zero .positive) = some .lt :=
    eq_of_beq (of_decide_eq_true below)
  by_contra clear
  have sign := unpackSign_toBits x
  rw [if_neg clear] at sign
  change (unpack .binary64 x.toBits.toBitVec).compare (.zero .positive) = some .lt at order
  unfold unpack at order
  simp only [sign] at order
  split at order
  · split at order <;> cases order
  · split at order
    · split at order <;> cases order
    · cases order

/-- The exponent and the fraction of a word are read off its bits without the sign. -/
theorem toNat_fields (word : UInt64) :
    (@unpackExponent .binary64 word.toBitVec).toNat = word.toNat % signWeight / fullMantissa ∧
      (@unpackMantissa .binary64 word.toBitVec).toNat = word.toNat % signWeight % fullMantissa := by
  have weight : signWeight = 2 ^ 63 := rfl
  have full : fullMantissa = 2 ^ 52 := rfl
  have bound := word.toNat_lt
  rw [unpackExponent_def, unpackMantissa_def, BitVec.extractLsb'_toNat, BitVec.extractLsb'_toNat,
    Nat.shiftRight_eq_div_pow, Nat.shiftRight_eq_div_pow, UInt64.toNat_toBitVec, weight, full]
  change word.toNat / 2 ^ 52 % 2 ^ 11 = _ ∧ word.toNat / 2 ^ 0 % 2 ^ 52 = _
  omega

/-- The words of no numbers have all bits of the exponent set, and one of the fraction. -/
theorem isNaNBits_eq (word : UInt64) :
    @isNaNBits .binary64 word.toBitVec = decide (infinity < word.toNat % signWeight) := by
  have most : infinity = 2047 * 2 ^ 52 := rfl
  have below : word.toNat % signWeight < 2 ^ 63 := Nat.mod_lt _ (by decide)
  obtain ⟨exponent, mantissa⟩ := toNat_fields word
  refine decide_eq_decide.mpr ?_
  rw [← BitVec.toNat_inj, ne_eq, ← BitVec.toNat_inj, exponent, mantissa, most]
  change word.toNat % signWeight / 2 ^ 52 = 2047 ∧ ¬ word.toNat % signWeight % 2 ^ 52 = 0 ↔ _
  omega

/-- What is less than zero is a number. -/
theorem not_isNaN_of_lt_zero {x : Float} (below : x < 0) : isNaN x = false := by
  have order : x.toModel.unpack.compare (.zero .positive) = some .lt :=
    eq_of_beq (of_decide_eq_true below)
  have number : @isNaNBits .binary64 x.toBits.toBitVec = false := by
    refine decide_eq_false fun ⟨exponent, mantissa⟩ => ?_
    change (unpack .binary64 x.toBits.toBitVec).compare (.zero .positive) = some .lt at order
    unfold unpack at order
    simp only [exponent, mantissa, if_true, if_false] at order
    cases order
  rwa [isNaNBits_eq] at number

/-- Words that differ in the sign bit only are unpacked to the same absolute value. -/
theorem abs_unpack {b clear : BitVec Format.binary64.numBits}
    (exponent : unpackExponent clear = unpackExponent b)
    (mantissa : unpackMantissa clear = unpackMantissa b) (sign : unpackSign clear = 0#1) :
    (unpack .binary64 b).abs = unpack .binary64 clear := by
  unfold unpack
  simp only [exponent, mantissa, sign]
  split
  · split <;> rfl
  · split
    · split <;> rfl
    · rfl

/-- The absolute value is the double with clear sign bit and the same other bits. -/
theorem abs_eq (x : Float) : x.abs = ofMagnitude false (magnitude x) := by
  have bound := x.toBits.toNat_lt
  have weight : signWeight = 2 ^ 63 := rfl
  let clear := (UInt64.ofNat (magnitude x + 0)).toBitVec
  have word : clear.toNat = x.toBits.toBitVec.toNat % 2 ^ 63 := by
    rw [UInt64.toNat_toBitVec, UInt64.toNat_toBitVec, UInt64.toNat_ofNat', magnitude, weight]
    omega
  have field (start width : Nat) (below : start + width ≤ 63) :
      clear.extractLsb' start width = x.toBits.toBitVec.extractLsb' start width := by
    apply BitVec.eq_of_getLsbD_eq
    intro i small
    have inside : start + i < 63 := by omega
    rw [BitVec.getLsbD_extractLsb', BitVec.getLsbD_extractLsb', ← BitVec.testBit_toNat,
      ← BitVec.testBit_toNat, word, Nat.testBit_mod_two_pow, decide_eq_true inside, Bool.true_and]
  refine congrArg (fun unpacked => Float.ofModel (.pack unpacked)) (abs_unpack ?_ ?_ ?_)
  · rw [unpackExponent_def, unpackExponent_def]
    exact field 52 11 (by decide)
  · rw [unpackMantissa_def, unpackMantissa_def]
    exact field 0 52 (by decide)
  · apply BitVec.eq_of_toNat_eq
    rw [unpackSign_def, BitVec.extractLsb'_toNat, Nat.shiftRight_eq_div_pow]
    change clear.toNat / 2 ^ 63 % 2 ^ 1 = 0
    omega

/-- Signs and magnitudes up to infinity are the bits of their doubles. Beyond it all words are one
no-number. -/
theorem toBits_ofMagnitude {sign : Bool} {bits : Nat} (number : bits ≤ infinity) :
    (ofMagnitude sign bits).toBits.toNat = bits + if sign then signWeight else 0 := by
  have most : infinity = 2047 * 2 ^ 52 := rfl
  have weight : signWeight = 2 ^ 63 := rfl
  let word := UInt64.ofNat (bits + if sign then signWeight else 0)
  have whole : word.toNat = bits + if sign then signWeight else 0 := by
    rw [UInt64.toNat_ofNat', Nat.mod_eq_of_lt]
    split <;> omega
  have plain : @isNaNBits .binary64 word.toBitVec = false := by
    rw [isNaNBits_eq, whole, weight]
    refine decide_eq_false ?_
    split <;> omega
  have packed := @pack_unpack .binary64 word.toBitVec (by decide)
  rw [plain] at packed
  exact (congrArg BitVec.toNat packed).trans whole

theorem magnitude_ofMagnitude {sign : Bool} {bits : Nat} (number : bits ≤ infinity) :
    magnitude (ofMagnitude sign bits) = bits := by
  have weight : infinity < signWeight := by decide
  have small := Nat.mod_eq_of_lt (Nat.lt_of_le_of_lt number weight)
  rw [magnitude, toBits_ofMagnitude number]
  cases sign with
  | false => exact small
  | true => exact (Nat.add_mod_right bits signWeight).trans small

theorem negative_ofMagnitude {sign : Bool} {bits : Nat} (number : bits ≤ infinity) :
    negative (ofMagnitude sign bits) = sign := by
  have weight : infinity < signWeight := by decide
  rw [negative, toBits_ofMagnitude number]
  cases sign with
  | false => exact decide_eq_false (by simp only [Bool.false_eq_true, if_false]; omega)
  | true => exact decide_eq_true (by simp only [if_true]; omega)

theorem magnitude_abs {x : Float} (number : isNaN x = false) : magnitude x.abs = magnitude x := by
  rw [abs_eq, magnitude_ofMagnitude (Nat.le_of_not_lt (of_decide_eq_false number))]

theorem not_negative_abs {x : Float} (number : isNaN x = false) : negative x.abs = false := by
  rw [abs_eq, negative_ofMagnitude (Nat.le_of_not_lt (of_decide_eq_false number))]

/-- A finite double is determined by its sign and its absolute value. -/
theorem eq_of_abs_eq {x y : Float} (sign : negative x = negative y) (abs : x.abs = y.abs)
    (finite : magnitude x < infinity) (finite' : magnitude y < infinity) : x = y := by
  have same : magnitude x = magnitude y := by
    rw [← magnitude_abs (decide_eq_false finite.le.not_gt), abs,
      magnitude_abs (decide_eq_false finite'.le.not_gt)]
  rw [← ofMagnitude_magnitude x, ← ofMagnitude_magnitude y, sign, same]

/-- The words of zeros have all bits of the exponent and of the fraction clear. -/
theorem isZeroBits_iff (x : Float) :
    @unpackExponent .binary64 x.toBits.toBitVec = 0 ∧ @unpackMantissa .binary64 x.toBits.toBitVec = 0 ↔
      magnitude x = 0 := by
  obtain ⟨exponent, mantissa⟩ := toNat_fields x.toBits
  rw [← BitVec.toNat_inj, ← BitVec.toNat_inj, exponent, mantissa]
  change magnitude x / 2 ^ 52 = 0 ∧ magnitude x % 2 ^ 52 = 0 ↔ _
  omega

theorem exists_zero_of_compare {x : Float.Model.UnpackedFloat}
    (same : x.compare (.zero .positive) = some .eq) : ∃ sign, x = .zero sign := by
  cases x with
  | infinity sign => cases sign <;> cases same
  | notANumber => cases same
  | zero sign => exact ⟨sign, rfl⟩
  | finite sign mantissa exponent positive => cases sign <;> cases same

/-- Equal to zero are the zeros of either sign, and nothing else. -/
theorem beq_zero_iff {x : Float} : (x == 0) = true ↔ magnitude x = 0 := by
  rw [← isZeroBits_iff]
  constructor
  · intro same
    have order : x.toModel.unpack.compare (.zero .positive) = some .eq := eq_of_beq same
    obtain ⟨sign, zero⟩ := exists_zero_of_compare order
    change unpack .binary64 x.toBits.toBitVec = .zero sign at zero
    unfold unpack at zero
    simp only at zero
    split at zero
    · split at zero <;> cases zero
    · split at zero
      · rename_i exponent
        split at zero
        · rename_i mantissa
          exact ⟨exponent, mantissa⟩
        · cases zero
      · cases zero
  · rintro ⟨exponent, mantissa⟩
    change ((unpack .binary64 x.toBits.toBitVec).compare (.zero .positive) == some .eq) = true
    unfold unpack
    simp only [exponent, mantissa]
    rfl

end Reckon.Binary64
