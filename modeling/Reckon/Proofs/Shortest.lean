import Reckon.Binary64.Shortest
import Reckon.Proofs.ReadDecimal

/-! The shortest digits of a double are attracted by it, and reading a decimal finds the double that
attracts its value: what is written reads back. -/

namespace Reckon

namespace Decimal

theorem value_trim (d : Decimal) : d.trim.value = d.value := by
  fun_induction trim d with
  | case1 d zero ih =>
    have whole : (d.digits : ℚ) = (d.digits / 10 : Nat) * 10 := by
      exact_mod_cast (Nat.div_mul_cancel (Nat.dvd_of_mod_eq_zero zero.2)).symm
    rw [ih, value, value, whole, zpow_add_one₀ (by norm_num)]
    ring
  | case2 => rfl

end Decimal

namespace Binary64

namespace Interval

/-- An interval holds the double and its middles, all measured in the same unit. -/
theorem exists_unit (x : Dyadic) (positive : 0 < x.mantissa) (grid : Int) :
    ∃ unit : ℚ, 0 < unit ∧ ((of x grid).den : ℚ) = unit * 10 ^ grid ∧
      ((of x grid).centre : ℚ) = unit * x.value ∧
      ((of x grid).low : ℚ) = unit * x.low ∧ ((of x grid).high : ℚ) = unit * x.high := by
  have scale : ((Nat.pow 10 (-grid).toNat <<< (x.exponent - 2).toNat : Nat) : ℚ) =
      10 ^ (-grid).toNat * 2 ^ (-(x.exponent - 2)).toNat * 2 ^ (x.exponent - 2) := by
    rw [zpow_eq_div 2 (x.exponent - 2), Nat.shiftLeft_eq, Nat.pow_eq]
    push_cast
    field_simp
  refine ⟨10 ^ (-grid).toNat * 2 ^ (-(x.exponent - 2)).toNat, by positivity, ?_, ?_, ?_, ?_⟩
  · simp only [of, zpow_eq_div 10 grid, Nat.shiftLeft_eq, Nat.pow_eq]
    push_cast
    field_simp
  · rw [of, Nat.cast_mul, scale, Dyadic.value_eq_quarters]
    push_cast
    ring
  · have below : (of x grid).low = (4 * x.mantissa - if x.Narrow then 1 else 2) *
        (Nat.pow 10 (-grid).toNat <<< (x.exponent - 2).toNat) := rfl
    rw [below, Nat.cast_mul, scale, Dyadic.low, Nat.cast_sub (by split <;> omega)]
    push_cast
    ring
  · rw [of, Nat.cast_mul, scale, Dyadic.high]
    push_cast
    ring

/-- The points that an interval holds are those that the double attracts. -/
theorem holds_iff {x : Dyadic} (positive : 0 < x.mantissa) {grid : Int} {point : Nat} :
    (of x grid).holds point = true ↔ x.Attracts (Decimal.value ⟨point, grid⟩) := by
  obtain ⟨unit, unit0, den, -, low, high⟩ := exists_unit x positive grid
  have measured : ((point * (of x grid).den : Nat) : ℚ) = unit * Decimal.value ⟨point, grid⟩ := by
    rw [Nat.cast_mul, den, Decimal.value]
    ring
  have lowLe : (of x grid).low ≤ point * (of x grid).den ↔ x.low ≤ Decimal.value ⟨point, grid⟩ := by
    rw [← Nat.cast_le (α := ℚ), measured, low, mul_le_mul_iff_of_pos_left unit0]
  have leHigh : point * (of x grid).den ≤ (of x grid).high ↔ Decimal.value ⟨point, grid⟩ ≤ x.high := by
    rw [← Nat.cast_le (α := ℚ), measured, high, mul_le_mul_iff_of_pos_left unit0]
  have lowLt : (of x grid).low < point * (of x grid).den ↔ x.low < Decimal.value ⟨point, grid⟩ := by
    rw [← Nat.cast_lt (α := ℚ), measured, low, mul_lt_mul_iff_of_pos_left unit0]
  have ltHigh : point * (of x grid).den < (of x grid).high ↔ Decimal.value ⟨point, grid⟩ < x.high := by
    rw [← Nat.cast_lt (α := ℚ), measured, high, mul_lt_mul_iff_of_pos_left unit0]
  have closed : (of x grid).closed = decide (x.mantissa % 2 = 0) := rfl
  unfold holds Dyadic.Attracts
  by_cases even : x.mantissa % 2 = 0
  · simp [closed, even, lowLe, leHigh]
  · simp [closed, even, lowLt, ltHigh]

theorem holds_of_point? {i : Interval} {point : Nat} (found : i.point? = some point) :
    i.holds point = true := by
  unfold point? at found
  split at found
  · cases found
  · split at found
    · split at found
      · rename_i both
        cases found
        exact ((Bool.and_eq_true _ _).mp both).1
      · rename_i below _
        cases found
        exact below
    · split at found
      · rename_i above
        cases found
        exact above
      · cases found

theorem den_pos (x : Dyadic) (grid : Int) : 0 < (of x grid).den := by
  simp only [of, Nat.shiftLeft_eq, Nat.pow_eq]
  positivity

/-- A grid of tenths that is as fine as the unit of the double holds the double itself. -/
theorem den_dvd_centre (x : Dyadic) {grid : Int} (fine : grid ≤ min x.exponent 0) :
    (of x grid).den ∣ (of x grid).centre := by
  have tens : grid.toNat = 0 := by omega
  have twos : 2 ^ (-(x.exponent - 2)).toNat ∣ 4 * 10 ^ (-grid).toNat := by
    refine (Nat.pow_dvd_pow 2 (show (-(x.exponent - 2)).toNat ≤ 2 + (-grid).toNat by omega)).trans ?_
    rw [Nat.pow_add]
    exact Nat.mul_dvd_mul (Nat.dvd_refl 4) (pow_dvd_pow_of_dvd (by decide) _)
  simp only [of, tens, Nat.shiftLeft_eq, Nat.pow_eq, pow_zero, one_mul]
  have order : 4 * x.mantissa * (10 ^ (-grid).toNat * 2 ^ (x.exponent - 2).toNat) =
      4 * 10 ^ (-grid).toNat * (x.mantissa * 2 ^ (x.exponent - 2).toNat) := by ring
  rw [order]
  exact twos.mul_right _

end Interval

/-- The double itself is a point of the last grid. -/
theorem value_below {x : Dyadic} (positive : 0 < x.mantissa) {grid : Int}
    (fine : grid ≤ min x.exponent 0) : Decimal.value ⟨(Interval.of x grid).below, grid⟩ = x.value := by
  obtain ⟨unit, unit0, den, centre, -, -⟩ := Interval.exists_unit x positive grid
  have whole := Nat.div_mul_cancel (Interval.den_dvd_centre x fine)
  have cast : ((Interval.of x grid).below * (Interval.of x grid).den : ℚ) =
      (Interval.of x grid).centre := by exact_mod_cast whole
  rw [den, centre] at cast
  refine mul_left_cancel₀ unit0.ne' ?_
  rw [← cast, Decimal.value]
  ring

theorem point?_last {x : Dyadic} (positive : 0 < x.mantissa) {grid : Int}
    (fine : grid ≤ min x.exponent 0) :
    (Interval.of x grid).point? = some (Interval.of x grid).below := by
  have exact := value_below positive fine
  have holds : (Interval.of x grid).holds (Interval.of x grid).below = true := by
    rw [Interval.holds_iff positive, exact]
    exact x.attracts_value
  have some : (Interval.of x grid).below ≠ 0 := by
    intro none
    have value := mul_pos (Nat.cast_pos.mpr positive) (two_zpow_pos x.exponent)
    rw [none, Decimal.value, Nat.cast_zero, zero_mul] at exact
    exact value.ne exact
  have nearer : ¬ (2 * (Interval.of x grid).below + 1) * (Interval.of x grid).den ≤
      2 * (Interval.of x grid).centre := by
    have whole := Nat.div_mul_cancel (Interval.den_dvd_centre x fine)
    have den := Interval.den_pos x grid
    change (Interval.of x grid).below * (Interval.of x grid).den = (Interval.of x grid).centre at whole
    rw [← whole, Nat.add_mul, Nat.mul_assoc]
    omega
  simp [Interval.point?, some, holds, nearer]

/-- The decimal is a point of its grid, and no coarser grid up to the greatest has one. -/
structure FirstPoint (x : Dyadic) (top : Int) (d : Decimal) : Prop where
  found : (Interval.of x d.exponent).point? = some d.digits
  within : d.exponent ≤ top
  coarser : ∀ grid, d.exponent < grid → grid ≤ top → (Interval.of x grid).point? = none

theorem descend_first {x : Dyadic} (positive : 0 < x.mantissa) (steps : Nat) (top : Int)
    (reaches : top - steps ≤ min x.exponent 0) : FirstPoint x top (descend x steps top) := by
  induction steps generalizing top with
  | zero =>
    refine ⟨point?_last positive ?_, le_rfl, ?_⟩
    · simpa [descend] using reaches
    · intro grid above under
      exact absurd under above.not_ge
  | succ steps ih =>
    unfold descend
    split
    · rename_i point found
      refine ⟨found, le_rfl, ?_⟩
      intro grid above under
      exact absurd under above.not_ge
    · rename_i none
      have rest := ih (top - 1) (by push_cast at reaches; omega)
      refine ⟨rest.found, rest.within.trans (Int.sub_le_self top (by decide)), ?_⟩
      intro grid above under
      by_cases same : grid = top
      · rw [same, none]
      · exact rest.coarser grid above (by omega)

theorem attracts_shortest {x : Dyadic} (positive : 0 < x.mantissa) :
    x.Attracts (shortest x).value := by
  rw [shortest, Decimal.value_trim]
  have first := descend_first positive (topGrid x - min x.exponent 0).toNat (topGrid x) (by omega)
  exact (Interval.holds_iff positive).mp (Interval.holds_of_point? first.found)

/-- Every decimal of the value of a double's shortest digits reads back as that double. -/
theorem ofDecimal_of_shortest {bits : Nat} (positive : 0 < bits) (finite : bits < infinity)
    {d : Decimal} (same : d.value = (shortest (dyadic bits)).value) : ofDecimal d = bits := by
  have attracts := attracts_shortest (mantissa_dyadic_pos positive)
  rw [← same] at attracts
  rw [ofDecimal_eq_min attracts]
  exact min_eq_right finite.le

end Binary64

end Reckon
