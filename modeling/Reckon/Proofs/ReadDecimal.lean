import Reckon.Proofs.Neighbours

/-! Reading a decimal finds the double nearest to it, whatever its exponent. -/

namespace Reckon

theorem Decimal.value_nonneg (d : Decimal) : 0 ≤ d.value := by
  unfold value
  positivity

theorem Decimal.value_pos_iff {d : Decimal} : 0 < d.value ↔ d.digits ≠ 0 := by
  have unit : (0 : ℚ) < 10 ^ d.exponent := by positivity
  rw [value, mul_pos_iff_of_pos_right unit, Nat.cast_pos, Nat.pos_iff_ne_zero]

theorem Decimal.quotient_eq_value (d : Decimal) : (d.numerator / d.denominator : ℚ) = d.value := by
  rw [value, Binary64.zpow_eq_div, numerator, denominator, mul_div_assoc']
  simp only [Nat.pow_eq]
  push_cast
  rfl

namespace Binary64

private theorem two_pow_1024_le : 2 ^ 1024 ≤ 10 ^ 309 := by decide +kernel

private theorem two_pow_1075_lt : 2 ^ 1075 < 10 ^ 324 := by decide +kernel

/-- A decimal of so great an exponent is beyond all finite doubles. -/
theorem two_zpow_le_value {d : Decimal} (present : d.digits ≠ 0) (far : 309 ≤ d.exponent) :
    (2 : ℚ) ^ (1024 : Int) ≤ d.value := by
  have one : (1 : ℚ) ≤ d.digits := by exact_mod_cast Nat.one_le_iff_ne_zero.mpr present
  calc (2 : ℚ) ^ (1024 : Int) ≤ 10 ^ (309 : Int) := by exact_mod_cast two_pow_1024_le
    _ ≤ 10 ^ d.exponent := zpow_le_zpow_right₀ (by norm_num) far
    _ ≤ d.value := le_mul_of_one_le_left (by positivity) one

/-- A decimal of so small an exponent is nearer to zero than to all other doubles. -/
theorem value_lt_two_zpow {d : Decimal} (present : d.digits ≠ 0)
    (far : d.exponent + d.digits.log2 + 1 ≤ -324) : d.value < 2 ^ (-1075 : Int) := by
  have digits : (d.digits : ℚ) < 10 ^ ((d.digits.log2 : Int) + 1) :=
    (log2_bounds (Nat.pos_of_ne_zero present)).2.trans_le
      (zpow_le_zpow_left₀ (by omega) (by norm_num) (by norm_num))
  calc d.value < 10 ^ ((d.digits.log2 : Int) + 1) * 10 ^ d.exponent :=
        mul_lt_mul_of_pos_right digits (by positivity)
    _ = 10 ^ ((d.digits.log2 : Int) + 1 + d.exponent) := (zpow_add₀ (by norm_num) _ _).symm
    _ ≤ 10 ^ (-324 : Int) := zpow_le_zpow_right₀ (by norm_num) (by omega)
    _ < 2 ^ (-1075 : Int) := by
      rw [zpow_neg, zpow_neg, inv_lt_inv₀ (by positivity) (by positivity)]
      exact_mod_cast two_pow_1075_lt

theorem dyadic_infinity : dyadic infinity = ⟨fullMantissa, 972⟩ := by decide +kernel

/-- The stretch of zero ends at half of the least double. -/
theorem high_zero : (dyadic 0).high = 2 ^ (-1075 : Int) := by
  rw [dyadic_zero, Dyadic.high, leastExponent, Nat.cast_zero, mul_zero, zero_add,
    ← zpow_one_add₀ (by norm_num)]
  norm_num

theorem cast_fullMantissa : (fullMantissa : ℚ) = 2 ^ (52 : Int) := by
  exact_mod_cast fullMantissa_eq

theorem value_infinity : value infinity = 2 ^ (1024 : Int) := by
  rw [value, dyadic_infinity, Dyadic.value, cast_fullMantissa, ← zpow_add₀ (by norm_num)]
  norm_num

/-- Half a unit before the first power of two without a double, numbers are beyond the finite ones. -/
theorem low_infinity : (dyadic infinity).low = 2 ^ (1024 : Int) - 2 ^ (970 : Int) := by
  have narrow : (⟨fullMantissa, 972⟩ : Dyadic).Narrow := by decide
  have quarters : (2 : ℚ) ^ (1024 : Int) = 2 ^ (54 : Int) * 2 ^ (970 : Int) := by
    rw [← zpow_add₀ (by norm_num)]
    norm_num
  have unit : (2 : ℚ) ^ ((972 : Int) - 2) = 2 ^ (970 : Int) := by congr 1
  rw [dyadic_infinity, Dyadic.low, if_pos narrow, cast_fullMantissa, unit, quarters]
  generalize (2 : ℚ) ^ (970 : Int) = unit
  norm_num
  ring

theorem attracts_value (bits : Nat) : (dyadic bits).Attracts (value bits) := (dyadic bits).attracts_value

/-- Numbers less than half of the least double are nearest to zero. -/
theorem attracts_zero {q : ℚ} (nonneg : 0 ≤ q) (small : q < 2 ^ (-1075 : Int)) :
    (dyadic 0).Attracts q := by
  rw [← high_zero] at small
  exact attracts_iff.mpr ⟨⟨low_zero_neg.le.trans nonneg, small.le⟩, fun _ => rfl⟩

theorem eq_of_attracts {first second : Nat} {q : ℚ} (attracts : (dyadic first).Attracts q)
    (attracts' : (dyadic second).Attracts q) : first = second :=
  Nat.le_antisymm (le_of_attracts attracts attracts' le_rfl) (le_of_attracts attracts' attracts le_rfl)

/-- Up to the least full mantissa, values are counted in the least unit. -/
theorem dyadic_of_le_full {bits : Nat} (small : bits ≤ fullMantissa) :
    dyadic bits = ⟨bits, leastExponent⟩ := by
  have weight : 0 < fullMantissa := by decide
  rcases Nat.eq_or_lt_of_le small with rfl | less
  · decide
  · simp [dyadic, Nat.div_eq_of_lt less]

theorem value_of_le_full {bits : Nat} (small : bits ≤ fullMantissa) :
    value bits = bits * 2 ^ (-1074 : Int) := by
  rw [value, dyadic_of_le_full small]
  rfl

/-- There, numbers are at most half of that unit away from the double in whose stretch they are. -/
theorem abs_sub_value_le {bits : Nat} (small : bits ≤ fullMantissa) {q : ℚ}
    (attracts : (dyadic bits).Attracts q) : |q - value bits| ≤ 2 ^ (-1075 : Int) := by
  obtain ⟨low, high⟩ := attracts.within
  have fields := dyadic_of_le_full small
  have wide : ¬ (⟨bits, leastExponent⟩ : Dyadic).Narrow := fun narrow => lt_irrefl _ narrow.2
  have half : (2 : ℚ) ^ (-1075 : Int) = 2 * 2 ^ (leastExponent - 2) := by
    rw [← zpow_one_add₀ (by norm_num)]
    rfl
  rw [fields, Dyadic.low, if_neg wide] at low
  rw [fields, Dyadic.high] at high
  rw [value, fields, Dyadic.value_eq_quarters, half]
  exact abs_le.mpr ⟨by linarith, by linarith⟩

/-- Below the middle between zero and the least double, rounding gives zero. -/
theorem nearest_of_attracts_zero {num den : Nat} (num0 : 0 < num) (den0 : 0 < den)
    (attracts : (dyadic 0).Attracts (num / den)) : nearest num den = 0 := by
  have high := attracts.within.2
  rw [high_zero] at high
  have positive : (0 : ℚ) < num / den := by positivity
  have half : (2 : ℚ) ^ (-1075 : Int) = 1 / 2 * 2 ^ leastExponent := by
    have exponent : (-1075 : Int) = leastExponent - 1 := rfl
    rw [exponent, zpow_sub_one₀ (by norm_num), mul_comm, one_div]
  have leads : leading num den < leastExponent :=
    lt_of_two_zpow (leading_spec num0 den0).1
      (high.trans_lt (zpow_lt_zpow_right₀ (by norm_num) (by decide)))
  have counted : unitExponent num den = leastExponent := by
    rw [unitExponent]
    omega
  have unit := two_zpow_pos leastExponent
  rw [half] at high
  have rounded := nearest_of_unit (m := 0) num0 den0 counted (by push_cast; linarith)
    (by push_cast; linarith) fun _ => rfl
  simpa using rounded

/-- Reading a decimal finds the double in whose stretch it is, or infinity if that is beyond the finite
ones. -/
theorem ofDecimal_eq_min {d : Decimal} {bits : Nat} (attracts : (dyadic bits).Attracts d.value) :
    ofDecimal d = min infinity bits := by
  by_cases present : d.digits = 0
  · have zero : d.value = value 0 := by
      rw [value_zero, Decimal.value, present, Nat.cast_zero, zero_mul]
    rw [zero] at attracts
    rw [ofDecimal, if_pos present, eq_of_attracts attracts (attracts_value 0), Nat.min_zero]
  · rw [ofDecimal, if_neg present]
    by_cases great : 309 ≤ d.exponent
    · have order := two_zpow_le_value present great
      rw [← value_infinity] at order
      rw [if_pos great, min_eq_left (le_of_attracts (attracts_value infinity) attracts order)]
    · rw [if_neg great]
      by_cases small : d.exponent + d.digits.log2 + 1 ≤ -324
      · have zero := attracts_zero (Decimal.value_nonneg d) (value_lt_two_zpow present small)
        rw [if_pos small, eq_of_attracts attracts zero, Nat.min_zero]
      · rw [if_neg small]
        rw [← Decimal.quotient_eq_value] at attracts
        have num0 : 0 < d.numerator :=
          Nat.mul_pos (Nat.pos_of_ne_zero present) (Nat.pow_pos (by decide))
        rcases Nat.eq_zero_or_pos bits with rfl | positive
        · rw [nearest_of_attracts_zero num0 d.denominator_pos attracts, Nat.min_zero]
        · rw [nearest_of_attracts (canonical_dyadic bits) (mantissa_dyadic_pos positive)
            d.denominator_pos attracts, bits_dyadic]

/-- No decimal is read as more than infinity. -/
theorem ofDecimal_le_infinity (d : Decimal) : ofDecimal d ≤ infinity := by
  obtain ⟨bits, attracts⟩ := exists_attracts d.value_nonneg
  rw [ofDecimal_eq_min attracts]
  exact Nat.min_le_left _ _

end Binary64

end Reckon
