import Reckon.Proofs.FewestDigits
import Reckon.Proofs.RoundedLiteral

/-! The text of a finite double: the fewest digits that read back, the nearest of as many, and no zero or
point among them that its value could be written without. -/

namespace Reckon

open Binary64 (dyadic infinity magnitude negative ofDecimal ofMagnitude)

namespace Literal

/-- No superfluous zeros: none in front but a single one before the point, and none behind at the end. -/
structure Plain (l : Literal) : Prop where
  begins : l.whole ≠ []
  ahead : l.whole.head? = some '0' → l.whole = ['0']
  behind : ∀ digits ∈ l.fraction, digits ≠ [] ∧ digits.getLast? ≠ some '0'

/-- A plain literal has a point just when its value is no whole number. -/
theorem Plain.point_iff {l : Literal} (plain : l.Plain) :
    '.' ∈ l.chars ↔ ∀ n : Nat, l.exact ≠ n := by
  constructor
  · intro point n whole
    obtain ⟨digits, fraction⟩ := Option.isSome_iff_exists.mp (l.isSome_of_point point)
    obtain ⟨present, last⟩ := plain.behind digits fraction
    have isDigit : ∀ c ∈ digits, c.isDigit = true := by
      intro c member
      exact l.digits c (List.mem_append_right _ (by rwa [fraction]))
    have units := ofDigitChars_mod_ten isDigit present last
    have tens : 10 ∣ 10 ^ digits.length := dvd_pow_self 10 (by simpa using present)
    rw [exact, fraction, Option.getD_some] at whole
    field_simp at whole
    have count : Nat.ofDigitChars 10 l.whole 0 * 10 ^ digits.length + Nat.ofDigitChars 10 digits 0 =
        10 ^ digits.length * n := by
      exact_mod_cast whole
    have zero : 10 ∣ Nat.ofDigitChars 10 digits 0 :=
      (Nat.dvd_add_right (tens.mul_left _)).mp (count ▸ tens.mul_right n)
    exact units (Nat.mod_eq_zero_of_dvd zero)
  · intro broken
    cases fraction : l.fraction with
    | none =>
      refine absurd ?_ (broken (Nat.ofDigitChars 10 l.whole 0))
      simp [exact, fraction]
    | some digits => simp [chars, fraction]

end Literal

namespace Decimal

/-- Without zeros at the end of its coefficient, a decimal is written plainly. -/
theorem plain_literal {d : Decimal} (present : d.digits ≠ 0) (last : d.digits % 10 ≠ 0) :
    d.literal.Plain := by
  have start := head?_toDigits (Nat.pos_of_ne_zero present)
  unfold literal
  split
  · have some : Nat.toDigits 10 d.digits ≠ [] := Nat.toDigits_ne_nil
    refine ⟨List.append_ne_nil_of_left_ne_nil some _, ?_, ?_⟩
    · intro zero
      rw [List.head?_append_of_ne_nil _ some] at zero
      exact absurd zero start
    · intro digits same
      cases same
  · rename_i places
    have shorter := d.places_lt_padded
    refine ⟨?_, ?_, ?_⟩
    · rw [← List.length_pos_iff, List.length_take]
      omega
    · intro zero
      simp only at zero ⊢
      by_cases few : (Nat.toDigits 10 d.digits).length ≤ (-d.exponent).toNat
      · obtain ⟨zeros, counted⟩ := Nat.exists_eq_add_one_of_ne_zero
          (show (-d.exponent).toNat + 1 - (Nat.toDigits 10 d.digits).length ≠ 0 by omega)
        have one : d.padded.length - (-d.exponent).toNat = 1 := by
          rw [padded, List.length_append, List.length_replicate]
          omega
        rw [one, padded, counted]
        rfl
      · have none : (-d.exponent).toNat + 1 - (Nat.toDigits 10 d.digits).length = 0 := by omega
        rw [List.head?_take, if_neg (by omega), padded, none] at zero
        exact absurd zero start
    · intro digits same
      cases same
      refine ⟨?_, ?_⟩
      · rw [← List.length_pos_iff, List.length_drop]
        omega
      · rw [List.getLast?_drop, if_neg (by omega), padded,
          List.getLast?_append_of_ne_nil _ Nat.toDigits_ne_nil]
        exact getLast?_toDigits last

end Decimal

namespace Binary64

theorem shortest_fewest {x : Dyadic} (positive : 0 < x.mantissa) {d : Decimal}
    (attracts : x.Attracts d.value) : (shortest x).significant ≤ d.significant ∧
      (d.significant = (shortest x).significant →
        |x.value - (shortest x).value| ≤ |x.value - d.value|) := by
  rw [shortest, Decimal.significant_trim, Decimal.value_trim]
  exact (descend_first positive _ _ (by omega)).fewest positive attracts

/-- Decimals are read as a finite double just when they round to it. -/
theorem ofDecimal_eq_iff {d : Decimal} {bits : Nat} (finite : bits < infinity) :
    ofDecimal d = bits ↔ (dyadic bits).Attracts d.value := by
  constructor
  · intro reads
    obtain ⟨other, attracts⟩ := exists_attracts d.value_nonneg
    rw [ofDecimal_eq_min attracts] at reads
    have same : other = bits := by omega
    rwa [← same]
  · intro attracts
    rw [ofDecimal_eq_min attracts, min_eq_right finite.le]

/-- The shortest decimal has a last digit that counts. -/
theorem shortest_digits {x : Dyadic} (positive : 0 < x.mantissa) :
    (shortest x).digits ≠ 0 ∧ (shortest x).digits % 10 ≠ 0 := by
  have low := (attracts_shortest positive).within.1
  have present := Decimal.value_pos_iff.mp ((Dyadic.low_pos positive).trans_le low)
  have last := Decimal.trim_digits present
  rw [shortest, Decimal.trim_trim] at last
  exact ⟨present, last⟩

end Binary64

namespace Numeral

/-- A finite double but zero is written in the plain form of a decimal that reads back as it. No decimal of
fewer significant digits reads back as it, and none of as many that does is nearer to it. -/
theorem write_shortest {x : Float} (finite : magnitude x < infinity) (nonzero : magnitude x ≠ 0) :
    ∃ l : Literal, (write x).toList = (if negative x then ['-'] else []) ++ l.chars ∧ l.Plain ∧
      ('.' ∈ l.chars ↔ ∀ n : Nat, l.exact ≠ n) ∧
      ofMagnitude (negative x) (ofDecimal l.decimal) = x ∧
      ∀ (minus : Bool) (d : Decimal), ofMagnitude minus (ofDecimal d) = x →
        minus = negative x ∧ l.decimal.significant ≤ d.significant ∧
          (d.significant = l.decimal.significant →
            |Binary64.value (magnitude x) - l.exact| ≤ |Binary64.value (magnitude x) - d.value|) := by
  have positive := Binary64.mantissa_dyadic_pos (Nat.pos_of_ne_zero nonzero)
  obtain ⟨present, last⟩ := Binary64.shortest_digits positive
  have plain := Decimal.plain_literal present last
  have value := (Binary64.shortest (dyadic (magnitude x))).value_literal
  have digits := (Decimal.significant_eq present value.symm).symm
  refine ⟨_, toList_write finite nonzero, plain, plain.point_iff, ?_, ?_⟩
  · rw [Binary64.ofDecimal_of_shortest (Nat.pos_of_ne_zero nonzero) finite value,
      Binary64.ofMagnitude_magnitude]
  · intro minus d reads
    have sign : minus = negative x := by
      rw [← reads, Binary64.negative_ofMagnitude (Binary64.ofDecimal_le_infinity d)]
    have bits : ofDecimal d = magnitude x := by
      rw [← reads, Binary64.magnitude_ofMagnitude (Binary64.ofDecimal_le_infinity d)]
    have attracts := (Binary64.ofDecimal_eq_iff finite).mp bits
    obtain ⟨fewest, nearest⟩ := Binary64.shortest_fewest positive attracts
    rw [digits, ← Literal.value_decimal, value]
    exact ⟨sign, fewest, nearest⟩

/-- The sum of a tenth and two tenths is not the double next to three tenths, and takes seventeen digits. -/
theorem write_shortest_sum :
    magnitude (0.1 + 0.2) < infinity ∧ magnitude (0.1 + 0.2) ≠ 0 ∧
      (write (0.1 + 0.2)).toList = "0.30000000000000004".toList ∧
      ∀ (minus : Bool) (d : Decimal), ofMagnitude minus (ofDecimal d) = 0.1 + 0.2 →
        minus = false ∧ 17 ≤ d.significant ∧
          (d.significant = 17 → |Binary64.value (magnitude (0.1 + 0.2)) - 0.30000000000000004| ≤
            |Binary64.value (magnitude (0.1 + 0.2)) - d.value|) := by
  have finite : magnitude (0.1 + 0.2) < infinity := by decide +kernel
  have nonzero : magnitude (0.1 + 0.2) ≠ 0 := by decide +kernel
  have plus : negative (0.1 + 0.2) = false := by decide +kernel
  have text : (write (0.1 + 0.2)).toList = "0.30000000000000004".toList := by decide +kernel
  let shown : Literal :=
    ⟨['0'], some "30000000000000004".toList, List.all_eq_true.mp (by decide), by decide⟩
  obtain ⟨l, chars, _, _, _, fewest⟩ := write_shortest finite nonzero
  rw [text, plus] at chars
  have spelled : l.chars = shown.chars := chars.symm
  have same : l.decimal = ⟨30000000000000004, -17⟩ :=
    (Literal.decimal_eq_of_chars_eq spelled).trans (by decide)
  have value : l.exact = 0.30000000000000004 := by
    rw [← Literal.value_decimal, same]
    norm_num [Decimal.value]
  have digits : l.decimal.significant = 17 := by
    rw [same]
    decide +kernel
  rw [value, digits, plus] at fewest
  exact ⟨finite, nonzero, text, fewest⟩

end Numeral

end Reckon
