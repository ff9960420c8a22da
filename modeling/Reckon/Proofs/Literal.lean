import Mathlib
import Reckon.Numeral
import Reckon.Proofs.Digits
import Reckon.Proofs.Shortest
import Reckon.Token.Lexer

/-! Number literals: how they are scanned and read, and that a finite double without a sign is
written as one. -/

namespace Reckon

/-- Digits with at most one point, and a digit on one side of it. -/
structure Literal where
  whole : List Char
  fraction : Option (List Char)
  digits : ∀ c ∈ whole ++ fraction.getD [], c.isDigit = true
  present : whole ++ fraction.getD [] ≠ []

namespace Literal

def chars (l : Literal) : List Char :=
  match l.fraction with
  | none => l.whole
  | some fraction => l.whole ++ '.' :: fraction

def decimal (l : Literal) : Decimal := .ofParts l.whole (l.fraction.getD [])

/-- The double nearest to the literal. -/
def value (l : Literal) : Float := Binary64.ofMagnitude false (Binary64.ofDecimal l.decimal)

/-- A literal before the text ends there. -/
def Ends (rest : List Char) : Prop := ∀ c ∈ rest.head?, c.isDigit = false ∧ c ≠ '.'

theorem ends_nil : Ends [] := by simp [Ends]

/-- The literal does not go on into the text: no digit follows it, nor a point unless it has one. -/
def Stops (l : Literal) (rest : List Char) : Prop :=
  ∀ c ∈ rest.head?, c.isDigit = false ∧ (c = '.' → l.fraction.isSome = true)

theorem Ends.stops {rest : List Char} (ends : Ends rest) (l : Literal) : l.Stops rest :=
  fun c first => ⟨(ends c first).1, fun point => absurd point (ends c first).2⟩

theorem takeWhile_stops {rest : List Char} (stops : ∀ c ∈ rest.head?, c.isDigit = false) :
    rest.takeWhile Char.isDigit = [] ∧ rest.dropWhile Char.isDigit = rest := by
  cases rest with
  | nil => exact ⟨rfl, rfl⟩
  | cons c rest => simp [stops c rfl]

/-- The scanner takes a literal as a whole. -/
theorem scan?_chars (l : Literal) {rest : List Char} (stops : l.Stops rest) :
    Decimal.scan? (l.chars ++ rest) = some (l.decimal, rest) := by
  obtain ⟨whole, fraction, digits, present⟩ := l
  obtain ⟨none, all⟩ := takeWhile_stops fun c first => (stops c first).1
  have wholeDigits : ∀ c ∈ whole, c.isDigit = true :=
    fun c member => digits c (List.mem_append_left _ member)
  cases fraction with
  | none =>
    have some : whole.isEmpty = false := by simpa using present
    simp only [chars, decimal, Option.getD_none, Decimal.scan?,
      List.takeWhile_append_of_pos wholeDigits, List.dropWhile_append_of_pos wholeDigits, none, all,
      List.append_nil]
    split
    · cases (stops '.' rfl).2 rfl
    · rw [some]
      rfl
  | some fraction =>
    have fractionDigits : ∀ c ∈ fraction, c.isDigit = true :=
      fun c member => digits c (List.mem_append_right _ member)
    have some : (whole.isEmpty && fraction.isEmpty) = false := by simpa using present
    have point : Char.isDigit '.' = false := rfl
    simp only [chars, decimal, Option.getD_some, Decimal.scan?, List.append_assoc, List.cons_append,
      List.takeWhile_append_of_pos wholeDigits, List.dropWhile_append_of_pos wholeDigits,
      List.takeWhile_cons, List.dropWhile_cons, point, List.append_nil,
      List.takeWhile_append_of_pos fractionDigits, List.dropWhile_append_of_pos fractionDigits, none,
      all, some, Bool.false_eq_true, if_false]

theorem not_isDigit_of_dropWhile {text rest : List Char} {c : Char}
    (left : text.dropWhile Char.isDigit = c :: rest) : c.isDigit = false := by
  have first := List.head?_dropWhile_not Char.isDigit text
  rw [left] at first
  simpa using first

/-- What the scanner takes is a literal, and the longest one. -/
theorem exists_of_scan? {text rest : List Char} {d : Decimal}
    (found : Decimal.scan? text = some (d, rest)) :
    ∃ l : Literal, text = l.chars ++ rest ∧ d = l.decimal ∧ l.Stops rest := by
  have whole := List.takeWhile_append_dropWhile (p := Char.isDigit) (l := text)
  have digits (text : List Char) : ∀ c ∈ text.takeWhile Char.isDigit, c.isDigit = true :=
    fun c member => List.mem_takeWhile_imp member
  simp only [Decimal.scan?] at found
  split at found
  · rename_i more point
    split at found
    · cases found
    · rename_i present
      cases found
      refine ⟨⟨text.takeWhile Char.isDigit, some (more.takeWhile Char.isDigit), ?_, ?_⟩, ?_, rfl, ?_⟩
      · exact fun c member => (List.mem_append.mp member).elim (digits text c) (digits more c)
      · simpa using present
      · rw [chars, List.append_assoc, List.cons_append, List.takeWhile_append_dropWhile, ← point, whole]
      · intro c first
        obtain ⟨after, left⟩ := List.head?_eq_some_iff.mp first
        exact ⟨not_isDigit_of_dropWhile left, fun _ => rfl⟩
  · rename_i other
    split at found
    · cases found
    · rename_i present
      cases found
      refine ⟨⟨text.takeWhile Char.isDigit, none, ?_, ?_⟩, whole.symm, ?_, ?_⟩
      · simpa using digits text
      · simpa using present
      · simp [decimal]
      · intro c first
        obtain ⟨after, left⟩ := List.head?_eq_some_iff.mp first
        refine ⟨not_isDigit_of_dropWhile left, ?_⟩
        rintro rfl
        exact absurd left (other after)

/-- No number starts there: the character is no digit, and no point with a digit behind it. -/
theorem scan?_eq_none_iff {c : Char} {rest : List Char} :
    Decimal.scan? (c :: rest) = none ↔
      c.isDigit = false ∧ (c = '.' → ∀ d ∈ rest.head?, d.isDigit = false) := by
  by_cases digit : c.isDigit = true
  · simp only [Decimal.scan?, List.takeWhile_cons, digit, if_true, List.isEmpty_cons,
      Bool.false_and, Bool.false_eq_true, if_false]
    constructor
    · intro none
      split at none <;> cases none
    · rintro ⟨other, _⟩
      cases other
  · have other : c.isDigit = false := by simpa using digit
    simp only [Decimal.scan?, List.takeWhile_cons, List.dropWhile_cons, other, Bool.false_eq_true,
      if_false, List.isEmpty_nil, Bool.true_and, if_true, true_and]
    split
    · rename_i more point
      cases point
      cases rest with
      | nil => simp
      | cons d rest => by_cases next : d.isDigit = true <;> simp [next]
    · rename_i unpointed
      refine iff_of_true rfl fun point => ?_
      exact absurd (congrArg (· :: rest) point) (unpointed rest)

theorem chars_ne_nil (l : Literal) : l.chars ≠ [] := by
  obtain ⟨whole, fraction, digits, present⟩ := l
  cases fraction with
  | none => simpa [chars] using present
  | some fraction => simp [chars]

theorem mem_chars (l : Literal) {c : Char} (member : c ∈ l.chars) : c.isDigit = true ∨ c = '.' := by
  obtain ⟨whole, fraction, digits, present⟩ := l
  cases fraction with
  | none => exact .inl (digits c (by simpa [chars] using member))
  | some fraction =>
    rcases List.mem_append.mp member with before | after
    · exact .inl (digits c (List.mem_append_left _ before))
    · rcases List.mem_cons.mp after with point | after
      · exact .inr point
      · exact .inl (digits c (List.mem_append_right _ after))

/-- Only a literal with a fraction has a point. -/
theorem isSome_of_point (l : Literal) (point : '.' ∈ l.chars) : l.fraction.isSome = true := by
  obtain ⟨whole, fraction, digits, present⟩ := l
  cases fraction with
  | none => cases digits '.' (by simpa [chars] using point)
  | some fraction => rfl

theorem exists_digit (l : Literal) : ∃ c ∈ l.chars, c.isDigit = true := by
  obtain ⟨whole, fraction, digits, present⟩ := l
  obtain ⟨c, member⟩ := List.exists_mem_of_ne_nil _ present
  refine ⟨c, ?_, digits c member⟩
  cases fraction with
  | none => simpa [chars] using member
  | some fraction =>
    rcases List.mem_append.mp member with before | after
    · exact List.mem_append_left _ before
    · exact List.mem_append_right _ (List.mem_cons_of_mem _ after)

end Literal

/-- A double is that of its sign and its magnitude. -/
theorem Binary64.ofMagnitude_magnitude (x : Float) : ofMagnitude (negative x) (magnitude x) = x := by
  have bound := x.toBits.toNat_lt
  have weight : signWeight = 2 ^ 63 := rfl
  have whole : magnitude x + (if negative x then signWeight else 0) = x.toBits.toNat := by
    unfold magnitude negative
    rw [weight]
    by_cases sign : 2 ^ 63 ≤ x.toBits.toNat
    · rw [decide_eq_true sign, if_pos rfl]
      omega
    · rw [decide_eq_false sign, if_neg (by decide)]
      omega
  rw [ofMagnitude, whole, UInt64.ofNat_toNat, Float.ofBits_toBits]

namespace Decimal

/-- The digits, with zeros in front where none would stand before the point. -/
def padded (d : Decimal) : List Char :=
  List.replicate ((-d.exponent).toNat + 1 - (Nat.toDigits 10 d.digits).length) '0' ++
    Nat.toDigits 10 d.digits

theorem places_lt_padded (d : Decimal) : (-d.exponent).toNat < d.padded.length := by
  rw [padded, List.length_append, List.length_replicate]
  omega

theorem isDigit_of_mem_padded (d : Decimal) : ∀ c ∈ d.padded, c.isDigit = true := by
  intro c member
  rcases List.mem_append.mp member with zero | digit
  · exact isDigit_of_mem_zeros c zero
  · exact isDigit_of_mem_toDigits c digit

/-- The literal as which a decimal is written. -/
def literal (d : Decimal) : Literal :=
  if (-d.exponent).toNat = 0 then
    { whole := Nat.toDigits 10 d.digits ++ List.replicate d.exponent.toNat '0'
      fraction := none
      digits := by
        intro c member
        rw [Option.getD_none, List.append_nil] at member
        exact (List.mem_append.mp member).elim (isDigit_of_mem_toDigits c) (isDigit_of_mem_zeros c)
      present := by simp [Nat.toDigits_ne_nil] }
  else
    { whole := d.padded.take (d.padded.length - (-d.exponent).toNat)
      fraction := some (d.padded.drop (d.padded.length - (-d.exponent).toNat))
      digits := by
        rw [Option.getD_some, List.take_append_drop]
        exact d.isDigit_of_mem_padded
      present := by
        rw [Option.getD_some, List.take_append_drop, ← List.length_pos_iff]
        exact Nat.zero_lt_of_lt d.places_lt_padded }

theorem chars_literal (d : Decimal) : d.literal.chars = d.positional := by
  unfold literal positional
  simp only
  split <;> rfl

theorem value_literal (d : Decimal) : d.literal.decimal.value = d.value := by
  unfold literal
  split
  · rename_i whole
    have power : (10 : ℚ) ^ d.exponent = 10 ^ d.exponent.toNat := by
      rw [Binary64.zpow_eq_div, whole, pow_zero, div_one]
    simp only [Literal.decimal, ofParts, value, Option.getD_none, List.append_nil,
      Nat.ofDigitChars_append, Nat.ofDigitChars_replicate_zero, Nat.ofDigitChars_ten_toDigits,
      List.length_nil, power]
    push_cast
    simp [mul_comm]
  · have number : Nat.ofDigitChars 10 d.padded 0 = d.digits := by
      rw [padded, Nat.ofDigitChars_append, Nat.ofDigitChars_replicate_zero, Nat.mul_zero,
        Nat.ofDigitChars_ten_toDigits]
    have places := d.places_lt_padded
    have exponent : (-((d.padded.length - (d.padded.length - (-d.exponent).toNat) : Nat) : Int)) =
        d.exponent := by omega
    simp only [Literal.decimal, ofParts, value, Option.getD_some, List.take_append_drop,
      List.length_drop, number, exponent]

end Decimal

namespace Numeral

/-- A finite double but zero is written as its sign and the literal of its shortest digits. -/
theorem toList_write {x : Float} (finite : Binary64.magnitude x < Binary64.infinity)
    (nonzero : Binary64.magnitude x ≠ 0) :
    (write x).toList = (if Binary64.negative x then ['-'] else []) ++
      (Binary64.shortest (Binary64.dyadic (Binary64.magnitude x))).literal.chars := by
  have number : Binary64.isNaN x = false := decide_eq_false finite.le.not_gt
  simp only [write, number, finite.ne, nonzero, Bool.false_eq_true, if_false, Decimal.chars_literal,
    String.toList_ofList]
  split <;> rfl

theorem toList_write_zero {x : Float} (zero : Binary64.magnitude x = 0) :
    (write x).toList = (if Binary64.negative x then ['-'] else []) ++ ['0'] := by
  have number : Binary64.isNaN x = false := by
    rw [Binary64.isNaN, zero]
    rfl
  simp only [write, number, zero, Bool.false_eq_true, if_false, if_true, String.toList_ofList]
  split <;> rfl

/-- A finite double is written as its sign and a literal of its other bits. -/
theorem exists_signed_literal {x : Float} (finite : Binary64.magnitude x < Binary64.infinity) :
    ∃ l : Literal, (write x).toList = (if Binary64.negative x then ['-'] else []) ++ l.chars ∧
      l.value = Binary64.ofMagnitude false (Binary64.magnitude x) := by
  by_cases zero : Binary64.magnitude x = 0
  · have reads : Binary64.ofDecimal (.ofParts ['0'] []) = 0 := if_pos (by decide)
    refine ⟨⟨['0'], none, by simp, by simp⟩, toList_write_zero zero, ?_⟩
    rw [zero]
    exact congrArg (Binary64.ofMagnitude false) reads
  · refine ⟨_, toList_write finite zero, ?_⟩
    rw [Literal.value,
      Binary64.ofDecimal_of_shortest (Nat.pos_of_ne_zero zero) finite (Decimal.value_literal _)]

end Numeral

end Reckon
