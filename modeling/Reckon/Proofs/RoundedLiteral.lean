import Reckon.Proofs.FloatOrder
import Reckon.Proofs.Lexemes
import Reckon.Proofs.ReadDecimal

/-! Number literals of any length are rounded once: to the double nearest to their exact value, of two as
near to the even one. -/

namespace Reckon

open Binary64 (IsNearest dyadic fullMantissa infinity magnitude negative)

namespace Literal

/-- The exact value: the digits before the point, and those behind it as tenths, hundredths and so on. -/
def exact (l : Literal) : ℚ :=
  Nat.ofDigitChars 10 l.whole 0 +
    Nat.ofDigitChars 10 (l.fraction.getD []) 0 / 10 ^ (l.fraction.getD []).length

theorem value_decimal (l : Literal) : l.decimal.value = l.exact := by
  rw [decimal, Decimal.ofParts, Decimal.value, exact, Nat.ofDigitChars_append,
    Nat.ofDigitChars_eq_ofDigitChars_zero, zpow_neg, zpow_natCast]
  push_cast
  field_simp

theorem exact_nonneg (l : Literal) : 0 ≤ l.exact := by
  rw [← value_decimal]
  exact Decimal.value_nonneg _

/-- The bits of a literal's value, by the stretch in which it is. -/
theorem magnitude_value {l : Literal} {bits : Nat} (attracts : (dyadic bits).Attracts l.exact) :
    magnitude l.value = min infinity bits := by
  rw [← value_decimal] at attracts
  rw [Literal.value, Binary64.ofDecimal_eq_min attracts,
    Binary64.magnitude_ofMagnitude (Nat.min_le_left _ _)]

theorem magnitude_le (l : Literal) : magnitude l.value ≤ infinity := by
  rw [Literal.value, Binary64.magnitude_ofMagnitude (Binary64.ofDecimal_le_infinity _)]
  exact Binary64.ofDecimal_le_infinity _

/-- Reading is monotone. -/
theorem value_le {l other : Literal} (order : l.exact ≤ other.exact) : l.value ≤ other.value := by
  obtain ⟨bits, attracts⟩ := Binary64.exists_attracts l.exact_nonneg
  obtain ⟨bits', attracts'⟩ := Binary64.exists_attracts other.exact_nonneg
  have ordered := Binary64.le_of_attracts attracts attracts' order
  refine Binary64.le_of_magnitude_le l.value_plain.2 other.value_plain.2 other.magnitude_le ?_
  rw [magnitude_value attracts, magnitude_value attracts']
  exact min_le_min_left infinity ordered

/-- Literals of one exact value are read as one double. -/
theorem value_eq {l other : Literal} (same : l.exact = other.exact) : l.value = other.value := by
  obtain ⟨bits, attracts⟩ := Binary64.exists_attracts l.exact_nonneg
  have attracts' := attracts
  rw [← value_decimal] at attracts
  rw [same, ← value_decimal] at attracts'
  rw [Literal.value, Literal.value, Binary64.ofDecimal_eq_min attracts,
    Binary64.ofDecimal_eq_min attracts']

theorem isNearest_value {l : Literal} (small : l.exact < 2 ^ (1024 : Int) - 2 ^ (970 : Int)) :
    IsNearest (magnitude l.value) l.exact := by
  obtain ⟨bits, attracts⟩ := Binary64.exists_attracts l.exact_nonneg
  have finite : bits < infinity := by
    by_contra beyond
    have order := Binary64.low_strictMono.monotone (Nat.le_of_not_lt beyond)
    have low := attracts.within.1
    simp only [Binary64.low_infinity] at order
    exact small.not_ge (order.trans low)
  rw [magnitude_value attracts, min_eq_right finite.le]
  exact Binary64.isNearest_of_attracts attracts finite

theorem magnitude_eq_infinity {l : Literal} (great : 2 ^ (1024 : Int) - 2 ^ (970 : Int) ≤ l.exact) :
    magnitude l.value = infinity := by
  have attracts : (dyadic infinity).Attracts (2 ^ (1024 : Int) - 2 ^ (970 : Int)) := by
    rw [← Binary64.low_infinity]
    refine Binary64.attracts_iff.mpr ⟨⟨le_rfl, ?_⟩, fun _ => by decide +kernel⟩
    exact (Dyadic.low_lt_value _).le.trans (Dyadic.value_lt_high _).le
  obtain ⟨bits, attracts'⟩ := Binary64.exists_attracts l.exact_nonneg
  rw [magnitude_value attracts', min_eq_left (Binary64.le_of_attracts attracts attracts' great)]

/-- Below the least double with a full mantissa, values are counted in units of the least double. -/
theorem subnormal_value {l : Literal} (small : l.exact < 2 ^ (-1022 : Int)) :
    Binary64.value (magnitude l.value) = magnitude l.value * 2 ^ (-1074 : Int) ∧
      |l.exact - Binary64.value (magnitude l.value)| ≤ 2 ^ (-1075 : Int) := by
  have least : Binary64.value fullMantissa = 2 ^ (-1022 : Int) := by
    rw [Binary64.value_of_le_full le_rfl, Binary64.cast_fullMantissa, ← zpow_add₀ (by norm_num)]
    rfl
  obtain ⟨bits, attracts⟩ := Binary64.exists_attracts l.exact_nonneg
  rw [← least] at small
  have under := Binary64.le_of_attracts attracts (Binary64.attracts_value fullMantissa) small.le
  have finite : bits ≤ infinity := under.trans (by decide)
  rw [magnitude_value attracts, min_eq_right finite]
  exact ⟨Binary64.value_of_le_full under, Binary64.abs_sub_value_le under attracts⟩

theorem value_eq_zero {l : Literal} (small : l.exact < 2 ^ (-1075 : Int)) : l.value = 0 := by
  have attracts := Binary64.attracts_zero l.exact_nonneg small
  rw [← value_decimal] at attracts
  rw [Literal.value, Binary64.ofDecimal_eq_min attracts]
  rfl

/-- The literal with zeros in front. -/
def ahead (l : Literal) (zeros : Nat) : Literal where
  whole := List.replicate zeros '0' ++ l.whole
  fraction := l.fraction
  digits := by
    intro c member
    rw [List.append_assoc] at member
    exact (List.mem_append.mp member).elim (isDigit_of_mem_zeros c) (l.digits c)
  present := by
    intro none
    rw [List.append_assoc] at none
    exact l.present (List.append_eq_nil_iff.mp none).2

theorem chars_ahead (l : Literal) (zeros : Nat) :
    (l.ahead zeros).chars = List.replicate zeros '0' ++ l.chars := by
  cases fraction : l.fraction <;> simp [chars, ahead, fraction]

theorem exact_ahead (l : Literal) (zeros : Nat) : (l.ahead zeros).exact = l.exact := by
  simp [exact, ahead, Nat.ofDigitChars_append, Nat.ofDigitChars_replicate_zero]

/-- The literal with zeros behind the digits after its point, if it has one. -/
def behind (l : Literal) (zeros : Nat) : Literal where
  whole := l.whole
  fraction := l.fraction.map (· ++ List.replicate zeros '0')
  digits := by
    intro c member
    cases fraction : l.fraction with
    | none =>
      rw [fraction] at member
      exact l.digits c (by rwa [fraction])
    | some digits =>
      rw [fraction, Option.map_some, Option.getD_some, ← List.append_assoc] at member
      refine (List.mem_append.mp member).elim (fun inside => l.digits c ?_) (isDigit_of_mem_zeros c)
      rwa [fraction]
  present := by
    have present := l.present
    cases fraction : l.fraction with
    | none => rwa [fraction] at present
    | some digits =>
      rw [fraction, Option.getD_some] at present
      rw [Option.map_some, Option.getD_some, ← List.append_assoc]
      exact List.append_ne_nil_of_left_ne_nil present _

theorem chars_behind {l : Literal} (pointed : l.fraction.isSome = true) (zeros : Nat) :
    (l.behind zeros).chars = l.chars ++ List.replicate zeros '0' := by
  obtain ⟨digits, fraction⟩ := Option.isSome_iff_exists.mp pointed
  simp [chars, behind, fraction]

theorem exact_behind (l : Literal) (zeros : Nat) : (l.behind zeros).exact = l.exact := by
  cases fraction : l.fraction with
  | none => simp [exact, behind, fraction]
  | some digits =>
    simp only [exact, behind, fraction, Option.map_some, Option.getD_some, Nat.ofDigitChars_append,
      Nat.ofDigitChars_replicate_zero, List.length_append, List.length_replicate]
    push_cast
    rw [pow_add]
    field_simp

/-- Number literals of any length are read as one token, the double nearest to their exact value: of two
as near the even one, among the least ones to half of their unit, zero below half of the least, and
infinity from half a unit beyond the greatest. A greater exact value is never read as a smaller double,
and neither zeros in front nor zeros behind the fraction count. -/
theorem read_nearest (l : Literal) :
    Token.read l.chars = .ok [.number l.value] ∧
      (∀ rest, l.Stops rest →
        Token.scan (l.chars ++ rest) = (.number l.value :: ·) <$> Token.scan rest) ∧
      negative l.value = false ∧
      (l.exact < 2 ^ (1024 : Int) - 2 ^ (970 : Int) → IsNearest (magnitude l.value) l.exact) ∧
      (l.exact < 2 ^ (-1022 : Int) →
        Binary64.value (magnitude l.value) = magnitude l.value * 2 ^ (-1074 : Int) ∧
          |l.exact - Binary64.value (magnitude l.value)| ≤ 2 ^ (-1075 : Int)) ∧
      (l.exact < 2 ^ (-1075 : Int) → l.value = 0) ∧
      (2 ^ (1024 : Int) - 2 ^ (970 : Int) ≤ l.exact → magnitude l.value = infinity) ∧
      (∀ other : Literal, l.exact ≤ other.exact → l.value ≤ other.value) ∧
      (∀ (zeros : Nat) (other : Literal), other.chars = List.replicate zeros '0' ++ l.chars →
        other.value = l.value) ∧
      ∀ (zeros : Nat) (other : Literal), l.fraction.isSome = true →
        other.chars = l.chars ++ List.replicate zeros '0' → other.value = l.value := by
  have scanned (rest : List Char) (stops : l.Stops rest) := Token.scan_literal l stops
  have whole := scanned [] (ends_nil.stops l)
  rw [List.append_nil, Token.scan_nil] at whole
  refine ⟨?_, scanned, l.value_plain.2, isNearest_value, subnormal_value, value_eq_zero,
    magnitude_eq_infinity, fun other => value_le, ?_, ?_⟩
  · exact Token.read_eq_ok_iff.mpr ⟨whole, List.cons_ne_nil _ _⟩
  · intro zeros other same
    rw [← chars_ahead] at same
    rw [value_eq_of_chars_eq same, value_eq (exact_ahead l zeros)]
  · intro zeros other pointed same
    rw [← chars_behind pointed] at same
    rw [value_eq_of_chars_eq same, value_eq (exact_behind l zeros)]

/-- A whole number half way between two doubles, also with zeros in front and behind its point, a power of
ten beyond the greatest double, and one far below the least. -/
theorem read_nearest_extremes :
    ∃ half ahead behind great small : Literal, half.chars = "9007199254740993.".toList ∧
      ahead.chars = "009007199254740993.".toList ∧ behind.chars = "9007199254740993.00".toList ∧
      great.chars = Decimal.positional ⟨1, 309⟩ ∧ small.chars = Decimal.positional ⟨1, -330⟩ ∧
      half.exact < 2 ^ (1024 : Int) - 2 ^ (970 : Int) ∧ half.fraction.isSome = true ∧
      small.exact < 2 ^ (-1075 : Int) ∧
      2 ^ (1024 : Int) - 2 ^ (970 : Int) ≤ great.exact ∧ half.exact ≤ great.exact ∧
      Token.read half.chars = .ok [.number 9007199254740992] ∧
      IsNearest (magnitude 9007199254740992) half.exact ∧ small.value = 0 ∧
      magnitude great.value = infinity ∧ half.value ≤ great.value ∧ ahead.value = half.value ∧
      behind.value = half.value := by
  let great := (⟨1, 309⟩ : Decimal).literal
  let small := (⟨1, -330⟩ : Decimal).literal
  let half : Literal :=
    ⟨"9007199254740993".toList, some [], List.all_eq_true.mp (by decide), by decide⟩
  let ahead : Literal :=
    ⟨"009007199254740993".toList, some [], List.all_eq_true.mp (by decide), by decide⟩
  let behind : Literal :=
    ⟨"9007199254740993".toList, some ['0', '0'], List.all_eq_true.mp (by decide), by decide⟩
  have value : half.value = 9007199254740992 := by decide +kernel
  have below : half.exact < 2 ^ (1024 : Int) - 2 ^ (970 : Int) := by
    refine lt_of_not_ge fun great => ?_
    have infinite := magnitude_eq_infinity great
    rw [value] at infinite
    exact absurd infinite (by decide +kernel)
  have beyond : 2 ^ (1024 : Int) - 2 ^ (970 : Int) ≤ great.exact := by
    rw [← value_decimal, Decimal.value_literal]
    exact (sub_le_self _ (Binary64.two_zpow_pos _).le).trans
      (Binary64.two_zpow_le_value (by decide) le_rfl)
  have under : small.exact < 2 ^ (-1075 : Int) := by
    rw [← value_decimal, Decimal.value_literal]
    exact Binary64.value_lt_two_zpow (by decide) (by decide)
  obtain ⟨found, _, _, nearest, _, _, _, monotone, front, back⟩ := read_nearest half
  obtain ⟨_, _, _, _, _, zero, _⟩ := read_nearest small
  obtain ⟨_, _, _, _, _, _, infinite, _⟩ := read_nearest great
  have order := below.le.trans beyond
  rw [value] at found nearest
  refine ⟨half, ahead, behind, great, small, rfl, rfl, rfl, Decimal.chars_literal _,
    Decimal.chars_literal _, below, rfl, under, beyond, order, found, nearest below, zero under,
    infinite beyond, monotone great order, ?_, ?_⟩
  · exact front 2 ahead rfl
  · exact back 2 behind rfl rfl

end Literal

end Reckon
