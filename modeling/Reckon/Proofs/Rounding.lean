import Mathlib.Algebra.Order.Field.Power
import Mathlib.Data.Rat.Cast.Order
import Mathlib.Tactic.FieldSimp
import Mathlib.Tactic.Linarith
import Mathlib.Tactic.Positivity
import Mathlib.Tactic.Ring
import Reckon.Binary64.Nearest

/-! Rounding as a relation on rationals: the numbers that are nearest to one double, and that
`nearest` finds it for each of them. -/

namespace Reckon

def Decimal.value (d : Decimal) : ℚ := d.digits * 10 ^ d.exponent

namespace Dyadic

open Binary64 (fullMantissa leastExponent)

def value (x : Dyadic) : ℚ := x.mantissa * 2 ^ x.exponent

/-- The mantissa has full precision, or the exponent is the least one. -/
structure Canonical (x : Dyadic) : Prop where
  least : leastExponent ≤ x.exponent
  below : x.mantissa < 2 * fullMantissa
  full : fullMantissa ≤ x.mantissa ∨ x.exponent = leastExponent

/-- The next smaller double is only half a unit away. -/
def Narrow (x : Dyadic) : Prop := x.mantissa = fullMantissa ∧ leastExponent < x.exponent

instance (x : Dyadic) : Decidable x.Narrow := inferInstanceAs (Decidable (_ ∧ _))

/-- The middle between the double and the next smaller one. -/
def low (x : Dyadic) : ℚ := (4 * x.mantissa - if x.Narrow then 1 else 2) * 2 ^ (x.exponent - 2)

/-- The middle between the double and the next greater one. -/
def high (x : Dyadic) : ℚ := (4 * x.mantissa + 2) * 2 ^ (x.exponent - 2)

/-- The number rounds to the double: it lies between the middles, or on one if the mantissa is
even. -/
def Attracts (x : Dyadic) (q : ℚ) : Prop :=
  if x.mantissa % 2 = 0 then x.low ≤ q ∧ q ≤ x.high else x.low < q ∧ q < x.high

/-- The bits of the double without its sign. -/
def bits (x : Dyadic) : Nat := (x.exponent - leastExponent).toNat * fullMantissa + x.mantissa

theorem Attracts.within {x : Dyadic} {q : ℚ} (attracts : x.Attracts q) : x.low ≤ q ∧ q ≤ x.high := by
  unfold Attracts at attracts
  split at attracts
  · exact attracts
  · exact ⟨attracts.1.le, attracts.2.le⟩

theorem Attracts.tie {x : Dyadic} {q : ℚ} (attracts : x.Attracts q) (tie : q = x.low ∨ q = x.high) :
    x.mantissa % 2 = 0 := by
  unfold Attracts at attracts
  split at attracts
  · assumption
  · rcases tie with rfl | rfl
    · exact absurd attracts.1 (lt_irrefl _)
    · exact absurd attracts.2 (lt_irrefl _)

end Dyadic

namespace Binary64

theorem fullMantissa_eq : fullMantissa = 2 ^ 52 := rfl

theorem two_zpow_pos (k : Int) : (0 : ℚ) < 2 ^ k := by positivity

/-- A power as the quotient of those of the positive and of the negative part of its exponent. -/
theorem zpow_eq_div (base : ℚ) (k : Int) : base ^ k = base ^ k.toNat / base ^ (-k).toNat := by
  rcases Int.le_total 0 k with nonneg | nonpos
  · have none : (-k).toNat = 0 := by omega
    have whole : ((k.toNat : Nat) : Int) = k := by omega
    rw [none, pow_zero, div_one, ← zpow_natCast, whole]
  · have none : k.toNat = 0 := by omega
    have whole : (((-k).toNat : Nat) : Int) = -k := by omega
    rw [none, pow_zero, ← zpow_natCast, whole, zpow_neg, one_div, inv_inv]

/-- A shift of the numerator or the denominator scales a quotient by a power of two. -/
theorem shifted_quotient (num den : Nat) (k : Int) :
    ((num <<< (-k).toNat : Nat) : ℚ) / ((den <<< k.toNat : Nat) : ℚ) = num / den / 2 ^ k := by
  rw [zpow_eq_div, Nat.shiftLeft_eq, Nat.shiftLeft_eq]
  push_cast
  field_simp

/-- Of two whole numbers within half of a quotient, one is the next after the other, and the quotient is
their middle. -/
theorem middle_of_within_half {num den less more : Nat} (positive : 0 < den) (order : less < more)
    (above : 2 * num ≤ 2 * (less * den) + den) (below : 2 * (more * den) ≤ 2 * num + den) :
    more = less + 1 ∧ 2 * num = 2 * (less * den) + den := by
  have step := Nat.mul_le_mul_right den (Nat.succ_le_of_lt order)
  rw [Nat.succ_mul] at step
  have next : more * den = (less + 1) * den := by
    rw [Nat.succ_mul]
    omega
  exact ⟨Nat.eq_of_mul_eq_mul_right positive next, by omega⟩

/-- A whole number within half of the quotient, and even if just half away, is the rounded one. -/
theorem roundDiv_eq {num den m : Nat} (positive : 0 < den) (low : 2 * (m * den) ≤ 2 * num + den)
    (high : 2 * num ≤ 2 * (m * den) + den)
    (tie : 2 * (m * den) = 2 * num + den ∨ 2 * num = 2 * (m * den) + den → m % 2 = 0) :
    roundDiv num den = m := by
  obtain ⟨above, below⟩ := roundDiv_within_half num positive
  rw [Nat.add_mul, Nat.mul_assoc, Nat.one_mul] at above
  -- both are even where they differ, which neighbours cannot be
  rcases Nat.lt_trichotomy (roundDiv num den) m with less | same | more
  · obtain ⟨next, middle⟩ := middle_of_within_half positive less above low
    have upper : m * den = roundDiv num den * den + den := by rw [next, Nat.succ_mul]
    have even := roundDiv_tie positive middle
    have even' := tie (.inl (by omega))
    omega
  · exact same
  · obtain ⟨next, middle⟩ := middle_of_within_half positive more high below
    have even := roundDiv_tie positive middle
    have even' := tie (.inr middle)
    omega

/-- The same over the rationals. -/
theorem roundDiv_of_quotient {num den m : Nat} {q : ℚ} (positive : 0 < den)
    (quotient : (num : ℚ) / den = q) (low : m - 1 / 2 ≤ q) (high : q ≤ m + 1 / 2)
    (tie : q = m - 1 / 2 ∨ q = m + 1 / 2 → m % 2 = 0) : roundDiv num den = m := by
  have den0 : (0 : ℚ) < den := by exact_mod_cast positive
  have whole : (num : ℚ) = q * den := by rw [← quotient]; field_simp
  refine roundDiv_eq positive ?_ ?_ fun middle => tie ?_
  · have scaled := mul_le_mul_of_nonneg_right low den0.le
    have cast : (2 * (m * den) : ℚ) ≤ 2 * num + den := by rw [whole]; linarith
    exact_mod_cast cast
  · have scaled := mul_le_mul_of_nonneg_right high den0.le
    have cast : (2 * num : ℚ) ≤ 2 * (m * den) + den := by rw [whole]; linarith
    exact_mod_cast cast
  · rcases middle with lower | upper
    · left
      have cast : (2 * (m * den) : ℚ) = 2 * num + den := by exact_mod_cast lower
      rw [whole] at cast
      have scaled : (q - (m - 1 / 2)) * den = 0 := by linarith
      rcases mul_eq_zero.mp scaled with same | none
      · linarith
      · exact absurd none den0.ne'
    · right
      have cast : (2 * num : ℚ) = 2 * (m * den) + den := by exact_mod_cast upper
      rw [whole] at cast
      have scaled : (q - (m + 1 / 2)) * den = 0 := by linarith
      rcases mul_eq_zero.mp scaled with same | none
      · linarith
      · exact absurd none den0.ne'

theorem log2_bounds {n : Nat} (positive : 0 < n) :
    (2 : ℚ) ^ (n.log2 : Int) ≤ n ∧ (n : ℚ) < 2 ^ ((n.log2 : Int) + 1) := by
  constructor
  · have below := Nat.log2_self_le (Nat.pos_iff_ne_zero.mp positive)
    rw [zpow_natCast]
    exact_mod_cast below
  · have above := Nat.lt_log2_self (n := n)
    have cast : (n : ℚ) < 2 ^ (n.log2 + 1) := by exact_mod_cast above
    rwa [← zpow_natCast, Nat.cast_succ] at cast

/-- `leading` is the greatest power of two that does not exceed the quotient. -/
theorem leading_spec {num den : Nat} (num0 : 0 < num) (den0 : 0 < den) :
    (2 : ℚ) ^ leading num den ≤ num / den ∧ (num / den : ℚ) < 2 ^ (leading num den + 1) := by
  obtain ⟨numLow, numHigh⟩ := log2_bounds num0
  obtain ⟨denLow, denHigh⟩ := log2_bounds den0
  have den0' : (0 : ℚ) < den := by exact_mod_cast den0
  have two : (2 : ℚ) ≠ 0 := by norm_num
  -- The quotient of the leading bits is at most one step too great.
  have above : (num / den : ℚ) < 2 ^ ((num.log2 : Int) - den.log2 + 1) := by
    rw [div_lt_iff₀ den0']
    calc (num : ℚ) < 2 ^ ((num.log2 : Int) + 1) := numHigh
      _ = 2 ^ ((num.log2 : Int) - den.log2 + 1) * 2 ^ (den.log2 : Int) := by
        rw [← zpow_add₀ two]; congr 1; omega
      _ ≤ _ := mul_le_mul_of_nonneg_left denLow (two_zpow_pos _).le
  have below : (2 : ℚ) ^ ((num.log2 : Int) - den.log2 - 1) ≤ num / den := by
    rw [le_div_iff₀ den0']
    calc (2 : ℚ) ^ ((num.log2 : Int) - den.log2 - 1) * den
        ≤ 2 ^ ((num.log2 : Int) - den.log2 - 1) * 2 ^ ((den.log2 : Int) + 1) :=
          mul_le_mul_of_nonneg_left denHigh.le (two_zpow_pos _).le
      _ = 2 ^ (num.log2 : Int) := by rw [← zpow_add₀ two]; congr 1; omega
      _ ≤ num := numLow
  have test (k : Int) : den <<< k.toNat ≤ num <<< (-k).toNat ↔ (2 : ℚ) ^ k ≤ num / den := by
    have scaled := shifted_quotient num den k
    have positive : (0 : ℚ) < ((den <<< k.toNat : Nat) : ℚ) := by
      rw [Nat.shiftLeft_eq]
      positivity
    rw [← one_le_div (two_zpow_pos k), ← scaled, one_le_div positive]
    norm_cast
  unfold leading
  simp only
  split
  · rename_i fits
    exact ⟨(test _).mp fits, above⟩
  · rename_i exceeds
    refine ⟨below, ?_⟩
    rw [sub_add_cancel]
    exact lt_of_not_ge fun fits => exceeds ((test _).mpr fits)

theorem lt_of_two_zpow {j k : Int} {q : ℚ} (low : (2 : ℚ) ^ j ≤ q) (high : q < 2 ^ k) : j < k :=
  (zpow_lt_zpow_iff_right₀ (by norm_num : (1 : ℚ) < 2)).mp (low.trans_lt high)

/-- Rounding in units of `2 ^ unit` finds the whole number of them that the quotient is nearest to. -/
theorem nearest_of_unit {num den m : Nat} (num0 : 0 < num) (den0 : 0 < den) {unit : Int}
    (counted : unitExponent num den = unit) (low : (m - 1 / 2) * 2 ^ unit ≤ (num / den : ℚ))
    (high : (num / den : ℚ) ≤ (m + 1 / 2) * 2 ^ unit)
    (tie : (num / den : ℚ) = (m - 1 / 2) * 2 ^ unit ∨ (num / den : ℚ) = (m + 1 / 2) * 2 ^ unit →
      m % 2 = 0) :
    nearest num den = min infinity ((unit - leastExponent).toNat * fullMantissa + m) := by
  have unit0 := two_zpow_pos unit
  have positive : 0 < den <<< unit.toNat := by
    rw [Nat.shiftLeft_eq]
    positivity
  have count : roundDiv (num <<< (-unit).toNat) (den <<< unit.toNat) = m := by
    refine roundDiv_of_quotient positive (shifted_quotient num den unit) ?_ ?_ ?_
    · rwa [le_div_iff₀ unit0]
    · rwa [div_le_iff₀ unit0]
    · rwa [div_eq_iff unit0.ne', div_eq_iff unit0.ne']
  rw [nearest, if_neg num0.ne']
  simp only [counted, count]

/-- A power of two in quarters of the unit. -/
theorem two_zpow_add (e k : Int) : (2 : ℚ) ^ (e + k) = 2 ^ (k + 2) * 2 ^ (e - 2) := by
  rw [← zpow_add₀ (by norm_num)]
  congr 1
  omega

end Binary64

namespace Dyadic

open Binary64 (fullMantissa leastExponent two_zpow_pos two_zpow_add)

theorem value_eq_quarters (x : Dyadic) : x.value = 4 * x.mantissa * 2 ^ (x.exponent - 2) := by
  have scale := two_zpow_add x.exponent 0
  rw [add_zero] at scale
  rw [value, scale]
  norm_num
  ring

theorem mantissa_le {x : Dyadic} (canonical : x.Canonical) : (x.mantissa : ℚ) ≤ 2 ^ 53 - 1 := by
  have cast : (x.mantissa + 1 : ℚ) ≤ 2 * fullMantissa := by exact_mod_cast canonical.below
  have full : (fullMantissa : ℚ) = 2 ^ 52 := by exact_mod_cast Binary64.fullMantissa_eq
  rw [full] at cast
  linarith

theorem quarters_le_low (x : Dyadic) : (4 * x.mantissa - 2) * 2 ^ (x.exponent - 2) ≤ x.low := by
  refine mul_le_mul_of_nonneg_right ?_ (two_zpow_pos _).le
  split <;> linarith

theorem low_pos {x : Dyadic} (positive : 0 < x.mantissa) : 0 < x.low := by
  have one : (1 : ℚ) ≤ x.mantissa := by exact_mod_cast positive
  exact (mul_pos (by linarith) (two_zpow_pos _)).trans_le x.quarters_le_low

/-- Above a mantissa that is full, but not the least one, doubles go on in the same unit. -/
theorem two_zpow_le_low {x : Dyadic} (full : fullMantissa < x.mantissa) :
    2 ^ (x.exponent + 52) ≤ x.low := by
  have next : (fullMantissa + 1 : ℚ) ≤ x.mantissa := by exact_mod_cast full
  have full52 : (fullMantissa : ℚ) = 2 ^ 52 := by exact_mod_cast Binary64.fullMantissa_eq
  refine le_trans ?_ x.quarters_le_low
  rw [two_zpow_add]
  refine mul_le_mul_of_nonneg_right ?_ (two_zpow_pos _).le
  have power : (2 : ℚ) ^ ((52 : Int) + 2) = 4 * 2 ^ 52 := by norm_num
  rw [full52] at next
  rw [power]
  linarith

end Dyadic

namespace Binary64

theorem num_pos_of_low {x : Dyadic} (positive : 0 < x.mantissa) {num den : Nat}
    (low : x.low ≤ num / den) : 0 < num := by
  rcases Nat.eq_zero_or_pos num with rfl | num0
  · rw [Nat.cast_zero, zero_div] at low
    exact absurd (Dyadic.low_pos positive) low.not_gt
  · exact num0

theorem leading_lt_of_high {x : Dyadic} (canonical : x.Canonical) {num den : Nat} (num0 : 0 < num)
    (den0 : 0 < den) (high : (num / den : ℚ) ≤ x.high) : leading num den < x.exponent + 53 := by
  refine lt_of_two_zpow (leading_spec num0 den0).1 ?_
  rw [two_zpow_add]
  refine lt_of_le_of_lt high (mul_lt_mul_of_pos_right ?_ (two_zpow_pos _))
  have most := Dyadic.mantissa_le canonical
  have power : (2 : ℚ) ^ ((53 : Int) + 2) = 4 * 2 ^ 53 := by norm_num
  rw [power]
  linarith

/-- Just below a power of two the unit is half as great, and the quotient rounds up to the power. -/
theorem nearest_of_narrow {x : Dyadic} (narrow : x.Narrow) {num den : Nat} (num0 : 0 < num)
    (den0 : 0 < den) (low : x.low ≤ num / den) (less : (num / den : ℚ) < 2 ^ (x.exponent + 52)) :
    nearest num den = min infinity x.bits := by
  obtain ⟨leadLow, leadHigh⟩ := leading_spec num0 den0
  have full52 : (fullMantissa : ℚ) = 2 ^ 52 := by exact_mod_cast fullMantissa_eq
  rw [Dyadic.low, if_pos narrow, narrow.1, full52] at low
  have bottom : x.exponent + 51 < leading num den + 1 := by
    refine lt_of_two_zpow ?_ leadHigh
    refine le_trans ?_ low
    rw [two_zpow_add]
    exact mul_le_mul_of_nonneg_right (by norm_num) (two_zpow_pos _).le
  have ceiling := lt_of_two_zpow leadLow less
  have normal := narrow.2
  have counted : unitExponent num den = x.exponent - 1 := by
    simp only [unitExponent, leastExponent] at normal ⊢
    omega
  have half : (2 : ℚ) ^ (x.exponent - 1) = 2 * 2 ^ (x.exponent - 2) := by
    simpa [sub_eq_add_neg] using two_zpow_add x.exponent (-1)
  have quarters : (2 : ℚ) ^ (x.exponent + 52) = 2 ^ 54 * 2 ^ (x.exponent - 2) := by
    simpa using two_zpow_add x.exponent 52
  rw [quarters] at less
  have rounded := nearest_of_unit (m := 2 * fullMantissa) num0 den0 counted
    (by rw [half]; push_cast; rw [full52]; linarith)
    (by rw [half]; push_cast; rw [full52]; linarith)
    fun _ => Nat.mul_mod_right 2 _
  rw [rounded, Dyadic.bits, narrow.1]
  refine congrArg (min infinity) ?_
  simp only [leastExponent, fullMantissa_eq] at normal ⊢
  omega

/-- Elsewhere the quotient is counted in the unit of the double. -/
theorem unitExponent_of_attracts {x : Dyadic} (canonical : x.Canonical) {num den : Nat}
    (num0 : 0 < num) (den0 : 0 < den) (low : x.low ≤ num / den) (high : (num / den : ℚ) ≤ x.high)
    (wide : ¬ (x.Narrow ∧ (num / den : ℚ) < 2 ^ (x.exponent + 52))) :
    unitExponent num den = x.exponent := by
  obtain ⟨leadLow, leadHigh⟩ := leading_spec num0 den0
  have top := leading_lt_of_high canonical num0 den0 high
  have least := canonical.least
  rcases lt_or_ge (num / den : ℚ) (2 ^ (x.exponent + 52)) with less | more
  · have small : x.exponent = leastExponent := by
      rcases canonical.full with normal | small
      · by_contra above
        rcases Nat.eq_or_lt_of_le normal with same | greater
        · exact wide ⟨⟨same.symm, lt_of_le_of_ne least (Ne.symm above)⟩, less⟩
        · exact absurd less ((Dyadic.two_zpow_le_low greater).trans low).not_gt
      · exact small
    have ceiling := lt_of_two_zpow leadLow less
    simp only [unitExponent, leastExponent] at small ⊢
    omega
  · have bottom := lt_of_two_zpow more leadHigh
    simp only [unitExponent, leastExponent] at least ⊢
    omega

/-- A number that a double attracts is rounded to it, or to infinity if the double is beyond that. -/
theorem nearest_of_attracts {x : Dyadic} (canonical : x.Canonical) (positive : 0 < x.mantissa)
    {num den : Nat} (den0 : 0 < den) (attracts : x.Attracts (num / den)) :
    nearest num den = min infinity x.bits := by
  obtain ⟨low, high⟩ := attracts.within
  have num0 := num_pos_of_low positive low
  by_cases narrow : x.Narrow ∧ (num / den : ℚ) < 2 ^ (x.exponent + 52)
  · exact nearest_of_narrow narrow.1 num0 den0 low narrow.2
  · have counted := unitExponent_of_attracts canonical num0 den0 low high narrow
    have unit := two_zpow_pos (x.exponent - 2)
    have whole : (2 : ℚ) ^ x.exponent = 4 * 2 ^ (x.exponent - 2) := by
      have scaled := two_zpow_add x.exponent 0
      norm_num at scaled
      exact scaled
    have under := x.quarters_le_low.trans low
    have above : (num / den : ℚ) ≤ (4 * x.mantissa + 2) * 2 ^ (x.exponent - 2) := high
    refine nearest_of_unit num0 den0 counted ?_ ?_ ?_
    · rw [whole]
      linarith
    · rw [whole]
      linarith
    · rw [whole]
      rintro (lower | upper)
      · refine attracts.tie (.inl (le_antisymm ?_ low))
        have same : (num / den : ℚ) = (4 * x.mantissa - 2) * 2 ^ (x.exponent - 2) := by linarith
        exact same.trans_le x.quarters_le_low
      · refine attracts.tie (.inr ?_)
        rw [Dyadic.high]
        linarith

end Binary64

end Reckon
