import Mathlib.Algebra.Order.Archimedean.Basic
import Mathlib.Order.Monotone.Basic
import Reckon.Proofs.Rounding

/-! Doubles in the order of their bits. The middles between neighbours cut the numbers into one stretch
for each double, which holds what is nearest to it; beyond the finite ones the stretches go on as if
exponents were not bounded. -/

namespace Reckon

namespace Dyadic

open Binary64 (two_zpow_pos)

theorem low_lt_value (x : Dyadic) : x.low < x.value := by
  rw [value_eq_quarters, low]
  refine mul_lt_mul_of_pos_right ?_ (two_zpow_pos _)
  split <;> linarith

theorem value_lt_high (x : Dyadic) : x.value < x.high := by
  rw [value_eq_quarters, high]
  exact mul_lt_mul_of_pos_right (by linarith) (two_zpow_pos _)

/-- A double lies strictly between its middles. -/
theorem attracts_value (x : Dyadic) : x.Attracts x.value := by
  unfold Attracts
  split
  · exact ⟨x.low_lt_value.le, x.value_lt_high.le⟩
  · exact ⟨x.low_lt_value, x.value_lt_high⟩

end Dyadic

namespace Binary64

theorem canonical_dyadic (bits : Nat) : (dyadic bits).Canonical := by
  have less := Nat.mod_lt bits (show 0 < fullMantissa by decide)
  unfold dyadic
  simp only
  split
  · rename_i subnormal
    have below := (Nat.div_eq_zero_iff.mp subnormal).resolve_left (by decide)
    exact ⟨le_rfl, by simp only; omega, .inr rfl⟩
  · exact ⟨by simp only; omega, by simp only; omega, .inl (Nat.le_add_right _ _)⟩

theorem bits_dyadic (bits : Nat) : (dyadic bits).bits = bits := by
  have split := Nat.div_add_mod' bits fullMantissa
  unfold dyadic Dyadic.bits
  simp only
  generalize bits / fullMantissa = field at split ⊢
  cases field with
  | zero => simp
  | succ before =>
    have fields : (leastExponent + (before : Int) - leastExponent).toNat = before := by omega
    rw [if_neg (Nat.succ_ne_zero _)]
    simp only [Nat.add_sub_cancel, fields]
    rw [Nat.succ_mul] at split
    omega

theorem mantissa_dyadic_pos {bits : Nat} (positive : 0 < bits) : 0 < (dyadic bits).mantissa := by
  have weight : 0 < fullMantissa := by decide
  unfold dyadic
  simp only
  split
  · exact positive
  · simp only
    omega

/-- The value of the double with these bits. -/
def value (bits : Nat) : ℚ := (dyadic bits).value

theorem dyadic_zero : dyadic 0 = ⟨0, leastExponent⟩ := by decide

theorem value_zero : value 0 = 0 := by
  rw [value, dyadic_zero, Dyadic.value, Nat.cast_zero, zero_mul]

theorem mantissa_mod_two (bits : Nat) : (dyadic bits).mantissa % 2 = bits % 2 := by
  have weight : fullMantissa = 2 * 2 ^ 51 := rfl
  have split := Nat.div_add_mod bits fullMantissa
  unfold dyadic
  simp only
  split
  · rfl
  · simp only
    rw [weight] at split ⊢
    omega

/-- The next double has the next mantissa. Where that has one digit too many, it is halved and the exponent
grows. -/
theorem dyadic_succ (bits : Nat) :
    dyadic (bits + 1) = ⟨(dyadic bits).mantissa + 1, (dyadic bits).exponent⟩ ∨
      (dyadic bits).mantissa + 1 = 2 * fullMantissa ∧
        dyadic (bits + 1) = ⟨fullMantissa, (dyadic bits).exponent + 1⟩ := by
  have weight : 0 < fullMantissa := by decide
  have rest := Nat.mod_lt bits weight
  have whole := Nat.div_add_mod' bits fullMantissa
  by_cases carry : bits % fullMantissa + 1 = fullMantissa
  · have next : bits + 1 = (bits / fullMantissa + 1) * fullMantissa := by
      rw [Nat.succ_mul]
      omega
    have field : (bits + 1) / fullMantissa = bits / fullMantissa + 1 := by
      rw [next, Nat.mul_div_cancel _ weight]
    have fraction : (bits + 1) % fullMantissa = 0 := by rw [next, Nat.mul_mod_left]
    by_cases subnormal : bits / fullMantissa = 0
    · left
      have small := Nat.mod_eq_of_lt ((Nat.div_eq_zero_iff.mp subnormal).resolve_left weight.ne')
      simp [dyadic, field, fraction, subnormal]
      omega
    · right
      have above := Nat.sub_one_add_one subnormal
      simp [dyadic, field, fraction, subnormal]
      omega
  · have field : (bits + 1) / fullMantissa = bits / fullMantissa :=
      Nat.div_eq_of_lt_le (by omega) (by rw [Nat.succ_mul]; omega)
    have fraction : (bits + 1) % fullMantissa = bits % fullMantissa + 1 := by
      have split := Nat.div_add_mod' (bits + 1) fullMantissa
      rw [field] at split
      omega
    left
    by_cases subnormal : bits / fullMantissa = 0
    · simp [dyadic, field, subnormal]
    · simp [dyadic, field, fraction, subnormal]
      omega

theorem cast_of_carry {mantissa : Nat} (carry : mantissa + 1 = 2 * fullMantissa) :
    (mantissa : ℚ) = 2 * fullMantissa - 1 := by
  rw [eq_sub_iff_add_eq]
  exact_mod_cast carry

/-- Neighbours are one unit of the smaller one apart. -/
theorem value_succ (bits : Nat) : value (bits + 1) = value bits + 2 ^ (dyadic bits).exponent := by
  rcases dyadic_succ bits with same | ⟨carry, next⟩
  · rw [value, value, same, Dyadic.value, Dyadic.value]
    push_cast
    ring
  · rw [value, value, next, Dyadic.value, Dyadic.value, cast_of_carry carry,
      zpow_add_one₀ (by norm_num)]
    ring

theorem value_strictMono : StrictMono value :=
  strictMono_nat_of_lt_succ fun bits => by
    rw [value_succ]
    exact lt_add_of_pos_right _ (two_zpow_pos _)

/-- The upper end of a double's stretch is the middle between it and the next. -/
theorem high_eq_middle (bits : Nat) : (dyadic bits).high = (value bits + value (bits + 1)) / 2 := by
  have unit := two_zpow_add (dyadic bits).exponent 0
  rw [add_zero] at unit
  rw [value_succ, unit, value, Dyadic.value_eq_quarters, Dyadic.high]
  norm_num
  ring

/-- It is the lower end of the stretch of the next. -/
theorem low_succ (bits : Nat) : (dyadic (bits + 1)).low = (dyadic bits).high := by
  have canonical := canonical_dyadic bits
  rcases dyadic_succ bits with same | ⟨carry, next⟩
  · have wide : ¬ (dyadic (bits + 1)).Narrow := by
      rw [same]
      rintro ⟨full, above⟩
      rcases canonical.full with normal | least
      · simp only at full
        omega
      · exact above.ne' least
    rw [Dyadic.low, if_neg wide, same, Dyadic.high]
    push_cast
    ring
  · have narrow : (dyadic (bits + 1)).Narrow := by
      rw [next]
      exact ⟨rfl, Int.lt_add_one_of_le canonical.least⟩
    have unit : (2 : ℚ) ^ ((dyadic bits).exponent + 1 - 2) =
        2 * 2 ^ ((dyadic bits).exponent - 2) := by
      rw [add_sub_right_comm, zpow_add_one₀ (by norm_num), mul_comm]
    rw [Dyadic.low, if_pos narrow, next, Dyadic.high, cast_of_carry carry, unit]
    ring

theorem low_strictMono : StrictMono fun bits => (dyadic bits).low :=
  strictMono_nat_of_lt_succ fun bits => by
    rw [low_succ]
    exact (Dyadic.low_lt_value _).trans (Dyadic.value_lt_high _)

theorem attracts_iff {bits : Nat} {q : ℚ} : (dyadic bits).Attracts q ↔
    ((dyadic bits).low ≤ q ∧ q ≤ (dyadic bits).high) ∧
      (q = (dyadic bits).low ∨ q = (dyadic bits).high → bits % 2 = 0) := by
  rw [← mantissa_mod_two]
  constructor
  · intro attracts
    exact ⟨attracts.within, attracts.tie⟩
  · rintro ⟨⟨low, high⟩, tie⟩
    unfold Dyadic.Attracts
    split
    · exact ⟨low, high⟩
    · rename_i odd
      refine ⟨low.lt_of_ne ?_, high.lt_of_ne ?_⟩
      · intro same
        exact odd (tie (.inl same.symm))
      · intro same
        exact odd (tie (.inr same))

theorem low_zero_neg : (dyadic 0).low < 0 := by
  have wide : ¬ (⟨0, leastExponent⟩ : Dyadic).Narrow := by decide
  rw [dyadic_zero, Dyadic.low, if_neg wide]
  exact mul_neg_of_neg_of_pos (by norm_num) (two_zpow_pos _)

/-- Values grow at least by the least unit with the bits. -/
theorem mul_least_le_value (bits : Nat) : bits * 2 ^ leastExponent ≤ value bits := by
  induction bits with
  | zero => rw [value_zero, Nat.cast_zero, zero_mul]
  | succ bits ih =>
    have unit : (2 : ℚ) ^ leastExponent ≤ 2 ^ (dyadic bits).exponent :=
      zpow_le_zpow_right₀ (by norm_num) (canonical_dyadic bits).least
    rw [value_succ]
    push_cast
    linarith

/-- Every number that is not negative is in the stretch of some double. -/
theorem exists_attracts {q : ℚ} (nonneg : 0 ≤ q) : ∃ bits, (dyadic bits).Attracts q := by
  -- the first double whose stretch does not end before the number
  let Reaches (bits : Nat) : Prop := q < (dyadic bits).high ∨ q = (dyadic bits).high ∧ bits % 2 = 0
  have reached : ∃ bits, Reaches bits := by
    obtain ⟨bits, beyond⟩ := exists_nat_gt (q / 2 ^ leastExponent)
    rw [div_lt_iff₀ (two_zpow_pos _)] at beyond
    have order := (mul_least_le_value bits).trans (Dyadic.value_lt_high _).le
    exact ⟨bits, .inl (beyond.trans_le order)⟩
  classical
  have first := Nat.find_spec reached
  have before := fun bits => Nat.find_min (m := bits) reached
  generalize Nat.find reached = bits at first before
  refine ⟨bits, attracts_iff.mpr ⟨⟨?_, ?_⟩, ?_⟩⟩
  · cases bits with
    | zero => exact low_zero_neg.le.trans nonneg
    | succ bits =>
      rw [low_succ]
      exact le_of_not_gt fun less => before bits (Nat.lt_succ_self bits) (.inl less)
  · exact first.elim le_of_lt fun last => last.1.le
  · rintro (lower | upper)
    · cases bits with
      | zero => rfl
      | succ bits =>
        rw [low_succ] at lower
        have odd : ¬ bits % 2 = 0 := fun even =>
          before bits (Nat.lt_succ_self bits) (.inr ⟨lower, even⟩)
        omega
    · rcases first with less | ⟨_, even⟩
      · exact absurd upper less.ne
      · exact even

/-- A greater number is in the stretch of a greater double, or of the same. -/
theorem le_of_attracts {first second : Nat} {q r : ℚ} (attracts : (dyadic first).Attracts q)
    (attracts' : (dyadic second).Attracts r) (order : q ≤ r) : first ≤ second := by
  obtain ⟨⟨low, _⟩, tie⟩ := attracts_iff.mp attracts
  obtain ⟨⟨_, high⟩, tie'⟩ := attracts_iff.mp attracts'
  by_contra beyond
  have next : second + 1 ≤ first := Nat.lt_of_not_le beyond
  rw [← low_succ] at high tie'
  have ordered : (dyadic (second + 1)).low ≤ (dyadic first).low := low_strictMono.monotone next
  have end' : r = (dyadic (second + 1)).low := le_antisymm high (ordered.trans (low.trans order))
  have end'' : q = (dyadic first).low := le_antisymm (order.trans (high.trans ordered)) low
  have same : second + 1 = first :=
    low_strictMono.injective (le_antisymm ordered (low.trans (order.trans high)))
  -- both own the number at which their stretches meet, but one of them is odd
  have even := tie (.inl end'')
  have even' := tie' (.inr end')
  omega

theorem nearer_above {v w q : ℚ} (less : v < w) (beyond : (v + w) / 2 ≤ q) :
    |q - w| ≤ |q - v| ∧ (|q - w| = |q - v| → q = (v + w) / 2) := by
  have below : |q - v| = q - v := abs_of_pos (by linarith)
  rw [below]
  constructor
  · exact abs_le.mpr ⟨by linarith, by linarith⟩
  · intro same
    rcases abs_choice (q - w) with plain | turned
    · linarith
    · linarith

theorem nearer_below {v w q : ℚ} (less : v < w) (before : q ≤ (v + w) / 2) :
    |q - v| ≤ |q - w| ∧ (|q - v| = |q - w| → q = (v + w) / 2) := by
  have turned := nearer_above (v := -w) (w := -v) (q := -q) (by linarith) (by linarith)
  rw [neg_sub_neg, neg_sub_neg, abs_sub_comm, abs_sub_comm w] at turned
  refine ⟨turned.1, fun same => ?_⟩
  have middle := turned.2 same
  linarith

/-- The double is the one nearest to the number: no finite one is nearer, and another one is as near only if
this one is even. -/
structure IsNearest (bits : Nat) (q : ℚ) : Prop where
  finite : bits < infinity
  nearest : ∀ other < infinity, |q - value bits| ≤ |q - value other|
  even : ∀ other < infinity, other ≠ bits → |q - value bits| = |q - value other| →
    (dyadic bits).mantissa % 2 = 0

/-- A stretch holds what is nearest to its double. -/
theorem nearer_of_attracts {bits : Nat} {q : ℚ} (attracts : (dyadic bits).Attracts q) {other : Nat}
    (differ : other ≠ bits) : |q - value bits| ≤ |q - value other| ∧
      (|q - value bits| = |q - value other| → bits % 2 = 0) := by
  obtain ⟨⟨low, high⟩, tie⟩ := attracts_iff.mp attracts
  rcases Nat.lt_or_gt_of_ne differ with less | more
  · obtain ⟨before, rfl⟩ := Nat.exists_eq_add_one_of_ne_zero (Nat.ne_zero_of_lt less)
    rw [low_succ, high_eq_middle] at low tie
    have order : value other ≤ value before := value_strictMono.monotone (Nat.le_of_lt_succ less)
    obtain ⟨nearer, middle⟩ := nearer_above (q := q) (value_strictMono less) (by linarith)
    refine ⟨nearer, fun same => tie (.inl ?_)⟩
    have half := middle same
    exact le_antisymm (by linarith) low
  · rw [high_eq_middle] at high tie
    have order : value (bits + 1) ≤ value other := value_strictMono.monotone more
    obtain ⟨nearer, middle⟩ := nearer_below (q := q) (value_strictMono more) (by linarith)
    refine ⟨nearer, fun same => tie (.inr ?_)⟩
    have half := middle same
    exact le_antisymm high (by linarith)

theorem isNearest_of_attracts {bits : Nat} {q : ℚ} (attracts : (dyadic bits).Attracts q)
    (finite : bits < infinity) : IsNearest bits q := by
  refine ⟨finite, ?_, ?_⟩
  · intro other _
    by_cases same : other = bits
    · rw [same]
    · exact (nearer_of_attracts attracts same).1
  · intro other _ differ same
    rw [mantissa_mod_two]
    exact (nearer_of_attracts attracts differ).2 same

end Binary64

end Reckon
