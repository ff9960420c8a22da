import Reckon.Proofs.Shortest

/-! No decimal with fewer digits reads back as a double than its shortest one: on a grid as fine as such a
decimal needs, the search would have found a point before. -/

namespace Reckon

namespace Decimal

/-- On a finer grid, a decimal has zeros at its end. -/
theorem value_regrid (d : Decimal) {grid : Int} (fine : grid ≤ d.exponent) :
    d.value = value ⟨d.digits * 10 ^ (d.exponent - grid).toNat, grid⟩ := by
  have steps : (((d.exponent - grid).toNat : Nat) : Int) = d.exponent - grid := by omega
  have power : (10 : ℚ) ^ d.exponent = 10 ^ (d.exponent - grid).toNat * 10 ^ grid := by
    rw [← zpow_natCast, steps, ← zpow_add₀ (by norm_num), sub_add_cancel]
  rw [value, value, power]
  push_cast
  ring

theorem value_le_value_iff {first second : Nat} {grid : Int} :
    value ⟨first, grid⟩ ≤ value ⟨second, grid⟩ ↔ first ≤ second := by
  have unit : (0 : ℚ) < 10 ^ grid := by positivity
  rw [value, value, mul_le_mul_iff_of_pos_right unit, Nat.cast_le]

theorem digits_eq_of_value_eq {first second : Nat} {grid : Int}
    (same : value ⟨first, grid⟩ = value ⟨second, grid⟩) : first = second :=
  Nat.le_antisymm (value_le_value_iff.mp same.le) (value_le_value_iff.mp same.ge)

theorem trim_digits {d : Decimal} (present : d.digits ≠ 0) : d.trim.digits % 10 ≠ 0 := by
  fun_induction trim d with
  | case1 d zero ih =>
    apply ih
    simp only
    omega
  | case2 d plain =>
    intro zero
    exact plain ⟨present, zero⟩

theorem trim_trim (d : Decimal) : d.trim.trim = d.trim := by
  fun_induction trim d with
  | case1 d zero ih => exact ih
  | case2 d plain => rw [trim, if_neg plain]

/-- A trimmed coefficient is the least one for its value. -/
theorem trim_least {d : Decimal} (present : d.digits ≠ 0) {m : Nat} {k : Int}
    (same : d.value = value ⟨m, k⟩) : d.trim.digits ≤ m := by
  rw [← value_trim] at same
  by_cases fine : k ≤ d.trim.exponent
  · rw [value_regrid _ fine] at same
    rw [← digits_eq_of_value_eq same]
    exact Nat.le_mul_of_pos_right _ (Nat.pow_pos (by decide))
  · have coarse : d.trim.exponent ≤ k := by omega
    have step : (k - d.trim.exponent).toNat ≠ 0 := by omega
    rw [value_regrid ⟨m, k⟩ coarse] at same
    have zeros : d.trim.digits = m * 10 ^ (k - d.trim.exponent).toNat := digits_eq_of_value_eq same
    have last : d.trim.digits % 10 = 0 := by
      rw [zeros]
      exact Nat.mod_eq_zero_of_dvd (Dvd.dvd.mul_left (dvd_pow_self 10 step) m)
    exact absurd last (trim_digits present)

/-- The number of significant digits: zeros in front and at the end do not count. -/
def significant (d : Decimal) : Nat := (Nat.toDigits 10 d.trim.digits).length

theorem significant_pos (d : Decimal) : 0 < d.significant := Nat.length_toDigits_pos

theorem significant_trim (d : Decimal) : d.trim.significant = d.significant := by
  rw [significant, trim_trim, significant]

theorem trim_lt_significant (d : Decimal) : d.trim.digits < 10 ^ d.significant :=
  (Nat.length_toDigits_le_iff (by decide) d.significant_pos).mp le_rfl

/-- Whoever writes the value needs as many digits. -/
theorem significant_le {d : Decimal} (present : d.digits ≠ 0) {m : Nat} {k : Int} {count : Nat}
    (same : d.value = value ⟨m, k⟩) (short : m < 10 ^ count) : d.significant ≤ count := by
  have least := trim_least present same
  have some : count ≠ 0 := by
    rintro rfl
    have zero : d.trim.digits = 0 := by omega
    exact trim_digits present (by rw [zero])
  rw [significant, Nat.length_toDigits_le_iff (by decide) (Nat.pos_of_ne_zero some)]
  omega

theorem significant_eq {first second : Decimal} (present : first.digits ≠ 0)
    (same : first.value = second.value) : first.significant = second.significant := by
  have present' : second.digits ≠ 0 := by
    rwa [← value_pos_iff, ← same, value_pos_iff]
  refine Nat.le_antisymm ?_ ?_
  · exact significant_le present (same.trans second.value_trim.symm) second.trim_lt_significant
  · exact significant_le present' (same.symm.trans first.value_trim.symm) first.trim_lt_significant

/-- A whole number up to a power of ten has no more digits than the numbers below it. -/
theorem significant_le_of_le_power {d : Decimal} (present : d.digits ≠ 0) {count : Nat}
    (some : count ≠ 0) (short : d.digits ≤ 10 ^ count) : d.significant ≤ count := by
  rcases Nat.lt_or_eq_of_le short with less | power
  · exact significant_le present rfl less
  · have one : d.value = value ⟨1, d.exponent + count⟩ := by
      have fine : d.exponent ≤ (⟨1, d.exponent + count⟩ : Decimal).exponent := by simp
      have zeros : (d.exponent + count - d.exponent).toNat = count := by omega
      rw [value_regrid _ fine, zeros, one_mul, ← power]
    exact significant_le present one (Nat.one_lt_pow some (by decide))

theorem value_lt_power (d : Decimal) : d.value < 10 ^ (d.significant + d.trim.exponent) := by
  have less : (d.trim.digits : ℚ) < 10 ^ d.significant := by exact_mod_cast d.trim_lt_significant
  rw [← value_trim, zpow_add₀ (by norm_num), zpow_natCast, value]
  exact mul_lt_mul_of_pos_right less (by positivity)

end Decimal

namespace Dyadic

/-- The numbers that round to a double are a stretch without gaps. -/
theorem Attracts.between {x : Dyadic} {first second q : ℚ} (attracts : x.Attracts first)
    (attracts' : x.Attracts second) (above : first ≤ q) (under : q ≤ second) : x.Attracts q := by
  unfold Attracts at *
  by_cases even : x.mantissa % 2 = 0
  · rw [if_pos even] at *
    exact ⟨attracts.1.trans above, under.trans attracts'.2⟩
  · rw [if_neg even] at *
    exact ⟨attracts.1.trans_le above, under.trans_lt attracts'.2⟩

end Dyadic

namespace Binary64

namespace Interval

/-- The last point of the grid that does not exceed the double. -/
def lower (x : Dyadic) (grid : Int) : ℚ := Decimal.value ⟨(of x grid).below, grid⟩

/-- The first point of the grid beyond the double. -/
def upper (x : Dyadic) (grid : Int) : ℚ := Decimal.value ⟨(of x grid).below + 1, grid⟩

/-- The number is not between the two points of the grid next to the double. -/
def Apart (x : Dyadic) (grid : Int) (q : ℚ) : Prop := q ≤ lower x grid ∨ upper x grid ≤ q

variable {x : Dyadic} {grid : Int}

theorem lower_le_value (positive : 0 < x.mantissa) (grid : Int) : lower x grid ≤ x.value := by
  obtain ⟨unit, unit0, den, centre, -, -⟩ := exists_unit x positive grid
  have whole : ((of x grid).below * (of x grid).den : ℚ) ≤ (of x grid).centre := by
    exact_mod_cast Nat.div_mul_le_self _ _
  rw [den, centre, mul_left_comm] at whole
  exact le_of_mul_le_mul_left whole unit0

theorem value_lt_upper (positive : 0 < x.mantissa) (grid : Int) : x.value < upper x grid := by
  obtain ⟨unit, unit0, den, centre, -, -⟩ := exists_unit x positive grid
  have whole : ((of x grid).centre : ℚ) < ((of x grid).below + 1 : Nat) * (of x grid).den := by
    exact_mod_cast Nat.lt_mul_of_div_lt (Nat.lt_succ_self _) (den_pos x grid)
  rw [den, centre, mul_left_comm] at whole
  exact lt_of_mul_lt_mul_left whole unit0.le

theorem le_below (positive : 0 < x.mantissa) {point : Nat}
    (under : Decimal.value ⟨point, grid⟩ ≤ x.value) : point ≤ (of x grid).below := by
  by_contra beyond
  have next : upper x grid ≤ Decimal.value ⟨point, grid⟩ :=
    Decimal.value_le_value_iff.mpr (Nat.lt_of_not_le beyond)
  exact absurd (value_lt_upper positive grid) (next.trans under).not_gt

/-- A decimal of the grid or of a coarser one is a point. -/
theorem apart_of_coarse {d : Decimal} (coarse : grid ≤ d.exponent) : Apart x grid d.value := by
  rw [Decimal.value_regrid d coarse]
  rcases Nat.lt_or_ge (of x grid).below (d.digits * 10 ^ (d.exponent - grid).toNat) with beyond | under
  · exact .inr (Decimal.value_le_value_iff.mpr beyond)
  · exact .inl (Decimal.value_le_value_iff.mpr under)

/-- A power of ten up to the double is a point of each grid as fine. -/
theorem power_le_lower (positive : 0 < x.mantissa) {power : Int}
    (under : (10 : ℚ) ^ power ≤ x.value) (fine : grid ≤ power) : (10 : ℚ) ^ power ≤ lower x grid := by
  have one : (10 : ℚ) ^ power = Decimal.value ⟨1, power⟩ := by
    rw [Decimal.value, Nat.cast_one, one_mul]
  rw [one, Decimal.value_regrid ⟨1, power⟩ fine] at under ⊢
  exact Decimal.value_le_value_iff.mpr (le_below positive under)

/-- A decimal is apart on a grid that has a place for each of its digits, when the first of them stands where
the double begins. -/
theorem apart_of_significant (positive : 0 < x.mantissa) {power : Int}
    (under : (10 : ℚ) ^ power ≤ x.value) {d : Decimal} (places : grid + d.significant = power + 1) : Apart x grid d.value := by
  have some := d.significant_pos
  by_cases coarse : grid ≤ d.trim.exponent
  · rw [← Decimal.value_trim]
    exact apart_of_coarse coarse
  · have less : (10 : ℚ) ^ (d.significant + d.trim.exponent) ≤ 10 ^ power :=
      zpow_le_zpow_right₀ (by norm_num) (by omega)
    exact .inl (d.value_lt_power.le.trans (less.trans (power_le_lower positive under (by omega))))

theorem below_pos_of_power (positive : 0 < x.mantissa) {power : Int}
    (under : (10 : ℚ) ^ power ≤ x.value) (fine : grid ≤ power) : 0 < (of x grid).below := by
  have low := power_le_lower positive under fine
  by_contra none
  have zero : (of x grid).below = 0 := by omega
  rw [lower, zero, Decimal.value, Nat.cast_zero, zero_mul] at low
  exact absurd low (by positivity : (0 : ℚ) < 10 ^ power).not_ge

/-- A grid with a point up to the double is not beyond its first digit, and has no more points there than
numbers of that many digits. -/
theorem below_lt_power (positive : 0 < x.mantissa) (present : 0 < (of x grid).below) {power : Int}
    (above : x.value < (10 : ℚ) ^ (power + 1)) :
    grid ≤ power ∧ (of x grid).below < 10 ^ (power + 1 - grid).toNat := by
  have low := (lower_le_value positive grid).trans_lt above
  have one : (10 : ℚ) ^ (power + 1) = Decimal.value ⟨1, power + 1⟩ := by
    rw [Decimal.value, Nat.cast_one, one_mul]
  have unit : (10 : ℚ) ^ grid ≤ lower x grid :=
    le_mul_of_one_le_left (by positivity) (by exact_mod_cast present)
  have fine : grid < power + 1 :=
    (zpow_lt_zpow_iff_right₀ (by norm_num : (1 : ℚ) < 10)).mp (unit.trans_lt low)
  refine ⟨Int.le_of_lt_add_one fine, ?_⟩
  rw [one, Decimal.value_regrid ⟨1, power + 1⟩ fine.le, one_mul] at low
  by_contra beyond
  exact low.not_ge (Decimal.value_le_value_iff.mpr (Nat.le_of_not_lt beyond))

theorem point?_eq_none (positive : 0 < x.mantissa) : (of x grid).point? = none ↔
    (of x grid).below = 0 ∨ ¬ x.Attracts (lower x grid) ∧ ¬ x.Attracts (upper x grid) := by
  rw [lower, upper, ← holds_iff positive, ← holds_iff positive]
  unfold point?
  split
  · simp [*]
  · split
    · split <;> simp [*]
    · split <;> simp [*]

theorem attracts_lower (positive : 0 < x.mantissa) {q : ℚ} (attracts : x.Attracts q)
    (under : q ≤ lower x grid) : x.Attracts (lower x grid) :=
  attracts.between x.attracts_value under (lower_le_value positive grid)

theorem attracts_upper (positive : 0 < x.mantissa) {q : ℚ} (attracts : x.Attracts q)
    (beyond : upper x grid ≤ q) : x.Attracts (upper x grid) :=
  x.attracts_value.between attracts (value_lt_upper positive grid).le beyond

/-- If some number rounds to the double that is not between the points next to it, the grid has a point. -/
theorem point?_ne_none (positive : 0 < x.mantissa) (some : 0 < (of x grid).below) {q : ℚ}
    (attracts : x.Attracts q) (apart : Apart x grid q) : (of x grid).point? ≠ none := by
  intro none
  rcases (point?_eq_none positive).mp none with zero | ⟨notLower, notUpper⟩
  · exact some.ne' zero
  · rcases apart with under | beyond
    · exact notLower (attracts_lower positive attracts under)
    · exact notUpper (attracts_upper positive attracts beyond)

/-- The upper point is the nearer one, or the two are as near. -/
theorem upper_nearer_iff (positive : 0 < x.mantissa) (grid : Int) :
    (2 * (of x grid).below + 1) * (of x grid).den ≤ 2 * (of x grid).centre ↔
      upper x grid - x.value ≤ x.value - lower x grid := by
  obtain ⟨unit, unit0, den, centre, -, -⟩ := exists_unit x positive grid
  have sum : (((2 * (of x grid).below + 1) * (of x grid).den : Nat) : ℚ) =
      unit * (lower x grid + upper x grid) := by
    push_cast
    rw [den, lower, upper, Decimal.value, Decimal.value]
    push_cast
    ring
  have twice : ((2 * (of x grid).centre : Nat) : ℚ) = unit * (2 * x.value) := by
    push_cast
    rw [centre]
    ring
  rw [← Nat.cast_le (α := ℚ), sum, twice, mul_le_mul_iff_of_pos_left unit0]
  constructor <;> intro order <;> linarith

theorem abs_sub_lower (positive : 0 < x.mantissa) :
    |x.value - lower x grid| = x.value - lower x grid :=
  abs_of_nonneg (sub_nonneg.mpr (lower_le_value positive grid))

theorem abs_sub_upper (positive : 0 < x.mantissa) :
    |x.value - upper x grid| = upper x grid - x.value := by
  rw [abs_sub_comm]
  exact abs_of_pos (sub_pos.mpr (value_lt_upper positive grid))

theorem lower_nearest (positive : 0 < x.mantissa) {q : ℚ} (under : q ≤ lower x grid) :
    |x.value - lower x grid| ≤ |x.value - q| := by
  rw [abs_sub_lower positive]
  exact le_trans (by linarith) (le_abs_self _)

theorem upper_nearest (positive : 0 < x.mantissa) {q : ℚ} (beyond : upper x grid ≤ q) :
    |x.value - upper x grid| ≤ |x.value - q| := by
  rw [abs_sub_upper positive, abs_sub_comm]
  exact le_trans (by linarith) (le_abs_self _)

/-- The point of a grid is at least as near to the double as whatever else rounds to it and is not between
the points next to the double. -/
theorem nearest_of_point? (positive : 0 < x.mantissa) {point : Nat}
    (found : (of x grid).point? = some point) {q : ℚ} (attracts : x.Attracts q)
    (apart : Apart x grid q) : |x.value - Decimal.value ⟨point, grid⟩| ≤ |x.value - q| := by
  have nearer := upper_nearer_iff positive grid
  rw [← abs_sub_lower positive, ← abs_sub_upper positive] at nearer
  unfold point? at found
  split at found
  · cases found
  · split at found
    · split at found
      · rename_i both
        cases found
        have order := nearer.mp (of_decide_eq_true ((Bool.and_eq_true _ _).mp both).2)
        rcases apart with under | beyond
        · exact order.trans (lower_nearest positive under)
        · exact upper_nearest positive beyond
      · rename_i single
        cases found
        rcases apart with under | beyond
        · exact lower_nearest positive under
        · -- the upper point rounds to the double as well, so it was left for being farther
          have holds := (holds_iff positive).mpr (attracts_upper positive attracts beyond)
          have farther : ¬ |x.value - upper x grid| ≤ |x.value - lower x grid| := by
            intro order
            exact single (Bool.and_eq_true_iff.mpr ⟨holds, decide_eq_true (nearer.mpr order)⟩)
          exact (le_of_not_ge farther).trans (upper_nearest positive beyond)
    · rename_i notLower
      split at found
      · cases found
        rcases apart with under | beyond
        · exact absurd ((holds_iff positive).mpr (attracts_lower positive attracts under)) notLower
        · exact upper_nearest positive beyond
      · cases found

/-- What a grid finds is one of the two points next to the double, and the lower of them is not zero. -/
theorem point?_eq_some {point : Nat} (found : (of x grid).point? = some point) :
    0 < (of x grid).below ∧ (point = (of x grid).below ∨ point = (of x grid).below + 1) := by
  unfold point? at found
  split at found
  · cases found
  · rename_i present
    refine ⟨Nat.pos_of_ne_zero present, ?_⟩
    split at found
    · split at found <;> cases found
      · exact .inr rfl
      · exact .inl rfl
    · split at found <;> cases found
      exact .inr rfl

end Interval

/-- The greatest grid is beyond the double. -/
theorem value_lt_topGrid (x : Dyadic) (positive : 0 < x.mantissa) : x.value < 10 ^ topGrid x := by
  have short : x.value < 2 ^ (x.exponent + x.mantissa.log2 + 1) := by
    rw [add_assoc, zpow_add₀ (by norm_num), mul_comm]
    exact mul_lt_mul_of_pos_right (log2_bounds positive).2 (two_zpow_pos _)
  refine short.trans_le ?_
  unfold topGrid
  simp only
  generalize x.exponent + x.mantissa.log2 + 1 = bits
  by_cases nonneg : 0 ≤ bits
  · rw [if_pos nonneg]
    obtain ⟨count, rfl⟩ := Int.eq_ofNat_of_zero_le nonneg
    have thirds : (2 : ℚ) ^ (count : Int) ≤ 2 ^ (3 * ((count : Int) / 3 + 1)) :=
      zpow_le_zpow_right₀ (by norm_num) (by omega)
    rw [zpow_mul] at thirds
    exact thirds.trans (zpow_le_zpow_left₀ (by omega) (by norm_num) (by norm_num))
  · rw [if_neg nonneg]
    obtain ⟨count, rfl⟩ : ∃ count : Nat, bits = -count := ⟨(-bits).toNat, by omega⟩
    rw [neg_neg, zpow_neg, zpow_neg, inv_le_inv₀ (by positivity) (by positivity)]
    have tenths : ((10 : ℚ) ^ ((count : Int) * 3 / 10)) ^ (10 : Int) ≤
        (2 ^ (count : Int)) ^ (10 : Int) := by
      rw [← zpow_mul, ← zpow_mul, mul_comm (count : Int) 10, zpow_mul 2]
      calc (10 : ℚ) ^ ((count : Int) * 3 / 10 * 10) ≤ 10 ^ (3 * (count : Int)) :=
            zpow_le_zpow_right₀ (by norm_num) (by omega)
        _ = (10 ^ (3 : Int)) ^ (count : Int) := zpow_mul _ _ _
        _ ≤ (2 ^ (10 : Int)) ^ (count : Int) :=
            zpow_le_zpow_left₀ (by omega) (by norm_num) (by norm_num)
    exact le_of_pow_le_pow_left₀ (by decide) (by positivity) tenths

/-- The first point from the greatest grid on has no more digits than any decimal that rounds to the double,
and of those with as many it is nearest. -/
theorem FirstPoint.fewest {x : Dyadic} {shown d : Decimal} (positive : 0 < x.mantissa)
    (first : FirstPoint x (topGrid x) shown) (attracts : x.Attracts d.value) :
    shown.significant ≤ d.significant ∧
      (d.significant = shown.significant → |x.value - shown.value| ≤ |x.value - d.value|) := by
  have value0 : 0 < x.value := mul_pos (Nat.cast_pos.mpr positive) (two_zpow_pos x.exponent)
  obtain ⟨power, under, above⟩ := exists_mem_Ico_zpow value0 (by norm_num : (1 : ℚ) < 10)
  obtain ⟨present, next⟩ := Interval.point?_eq_some first.found
  have needed := d.significant_pos
  -- the grid with as many places as the decimal has digits; no coarser one was reached before it
  have reached : power + 1 - d.significant ≤ shown.exponent := by
    by_contra coarser
    have top : power < topGrid x := (zpow_lt_zpow_iff_right₀ (by norm_num : (1 : ℚ) < 10)).mp
      (under.trans_lt (value_lt_topGrid x positive))
    have fine : power + 1 - d.significant ≤ power := by omega
    have none := first.coarser (power + 1 - d.significant) (by omega) (by omega)
    exact Interval.point?_ne_none positive (Interval.below_pos_of_power positive under fine) attracts
      (Interval.apart_of_significant positive under (by omega)) none
  obtain ⟨fine, less⟩ := Interval.below_lt_power positive present above
  have digits : shown.significant ≤ (power + 1 - shown.exponent).toNat :=
    Decimal.significant_le_of_le_power (by omega) (by omega) (by omega)
  refine ⟨by omega, ?_⟩
  intro same
  exact Interval.nearest_of_point? positive first.found attracts
    (Interval.apart_of_significant positive under (by omega))

end Binary64

end Reckon
