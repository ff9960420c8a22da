import Mathlib.Data.List.Basic
import Reckon.Json.Token
import Reckon.Proofs.QuotedText

/-! Numbers and words of JSON. Each is taken for one, in whole. -/

namespace Reckon.Json

def IsDigits (digits : List Char) : Prop := digits ≠ [] ∧ ∀ c ∈ digits, c.isDigit

/-- The digits before a point: a zero alone, or digits without one at the start. -/
inductive Whole : List Char → Prop where
  | zero : Whole ['0']
  | digits {first : Char} {rest : List Char} (nonzero : first ≠ '0') (isDigits : IsDigits (first :: rest)) :
      Whole (first :: rest)

inductive Fraction : List Char → Prop where
  | none : Fraction []
  | digits {digits : List Char} (isDigits : IsDigits digits) : Fraction ('.' :: digits)

inductive Exponent : List Char → Prop where
  | none : Exponent []
  | digits {mark : Char} {sign digits : List Char} (isMark : mark ∈ ['e', 'E'])
      (isSign : sign ∈ [[], ['+'], ['-']]) (isDigits : IsDigits digits) : Exponent (mark :: (sign ++ digits))

/-- Numbers, truth values and null. -/
inductive Scalar : List Char → Prop where
  | word {text : String} (isWord : text ∈ ["true", "false", "null"]) : Scalar text.toList
  | number {sign whole fraction exponent : List Char} (isSign : sign ∈ [[], ['-']]) (isWhole : Whole whole)
      (isFraction : Fraction fraction) (isExponent : Exponent exponent) :
      Scalar (sign ++ (whole ++ (fraction ++ exponent)))

namespace Token

open Bytes (ofChars ofChars_append ofChars_cons)

variable {front tail : Bytes}

theorem span_append {p : UInt8 → Bool} (all : ∀ b ∈ front, p b) (stop : ∀ b ∈ tail.head?, p b = false) :
    (front ++ tail).takeWhile p = front ∧ (front ++ tail).dropWhile p = tail := by
  rw [List.takeWhile_append_of_pos all, List.dropWhile_append_of_pos all]
  cases tail with
  | nil => simp
  | cons b rest =>
    have ended : p b = false := stop b rfl
    simp [ended]

theorem exists_digit {c : Char} (digit : c.isDigit) : ∃ b, String.utf8EncodeChar c = [b] ∧ isDigit b := by
  have all : ∀ n < 10, (String.utf8EncodeChar (Char.ofNat (0x30 + n))).map isDigit = [true] := by decide
  simp only [Char.isDigit, Bool.and_eq_true, decide_eq_true_eq] at digit
  have low : 0x30 ≤ c.toNat := digit.1
  have high : c.toNat ≤ 0x39 := digit.2
  have read := all (c.toNat - 0x30) (by omega)
  rw [Nat.add_sub_cancel' low, Char.ofNat_toNat] at read
  exact List.map_eq_singleton_iff.mp read

/-- Digits are written in as many bytes that are digits. -/
theorem isDigit_ofChars {digits : List Char} (all : ∀ c ∈ digits, c.isDigit) :
    ∀ b ∈ ofChars digits, isDigit b := by
  intro b member
  obtain ⟨c, listed, inside⟩ := List.mem_flatMap.mp member
  obtain ⟨byte, written, digit⟩ := exists_digit (all c listed)
  rw [written, List.mem_singleton] at inside
  rwa [inside]

theorem exists_digits {digits : List Char} (isDigits : IsDigits digits) :
    ∃ b rest, ofChars digits = b :: rest ∧ isDigit b ∧ ∀ b ∈ rest, isDigit b := by
  obtain ⟨nonempty, all⟩ := isDigits
  cases digits with
  | nil => exact absurd rfl nonempty
  | cons c rest =>
    obtain ⟨first, digitsRest⟩ := List.forall_mem_cons.mp all
    obtain ⟨b, written, digit⟩ := exists_digit first
    exact ⟨b, ofChars rest, ofChars_cons written rest, digit, isDigit_ofChars digitsRest⟩

/-- Digits are no signs. -/
theorem ne_of_isDigit {b : UInt8} (digit : isDigit b) : b ≠ 0x2B ∧ b ≠ 0x2D := by
  constructor
  · rintro rfl
    cases digit
  · rintro rfl
    cases digit

theorem isExponent_digits {digits : List Char} (isDigits : IsDigits digits) {sign : List Char}
    (isSign : sign ∈ [[], ['+'], ['-']]) : isExponent (ofChars (sign ++ digits)) := by
  obtain ⟨b, rest, written, digit, digitsRest⟩ := exists_digits isDigits
  have plus : ofChars ['+'] = [0x2B] := rfl
  have minus : ofChars ['-'] = [0x2D] := rfl
  rw [ofChars_append, written]
  simp only [List.mem_cons, List.not_mem_nil, or_false] at isSign
  rcases isSign with rfl | rfl | rfl
  · obtain ⟨noPlus, noMinus⟩ := ne_of_isDigit digit
    simpa [ofChars, isExponent, noPlus, noMinus, digit] using digitsRest
  · simpa [plus, isExponent, digit] using digitsRest
  · simpa [minus, isExponent, digit] using digitsRest

theorem isScale_exponent {exponent : List Char} (isExponent : Exponent exponent) :
    isScale (ofChars exponent) := by
  cases isExponent with
  | none => rfl
  | digits isMark isSign isDigits =>
    have later := isExponent_digits isDigits isSign
    simp only [List.mem_cons, List.not_mem_nil, or_false] at isMark
    rcases isMark with rfl | rfl
    · exact later
    · exact later

/-- An exponent ends the digits before it. -/
theorem head?_exponent {exponent : List Char} (isExponent : Exponent exponent) :
    ∀ b ∈ (ofChars exponent).head?, isDigit b = false := by
  cases isExponent with
  | none => simp [ofChars]
  | digits isMark _ _ =>
    simp only [List.mem_cons, List.not_mem_nil, or_false] at isMark
    intro b first
    rcases isMark with rfl | rfl
    · cases first
      rfl
    · cases first
      rfl

theorem isFraction_fraction {fraction exponent : List Char} (isFraction : Fraction fraction)
    (isExponent : Exponent exponent) : Token.isFraction (ofChars (fraction ++ exponent)) ∧
      ∀ b ∈ (ofChars (fraction ++ exponent)).head?, isDigit b = false := by
  have scale := isScale_exponent isExponent
  have ended := head?_exponent isExponent
  cases isFraction with
  | none =>
    refine ⟨?_, ended⟩
    cases isExponent with
    | none => rfl
    | digits isMark _ _ =>
      simp only [List.mem_cons, List.not_mem_nil, or_false] at isMark
      rcases isMark with rfl | rfl
      · exact scale
      · exact scale
  | @digits digits isDigits =>
    obtain ⟨b, rest, written, _, _⟩ := exists_digits isDigits
    obtain ⟨taken, dropped⟩ := span_append (isDigit_ofChars isDigits.2) ended
    have bytes : ofChars ('.' :: digits ++ exponent) = 0x2E :: (ofChars digits ++ ofChars exponent) := by
      rw [List.cons_append, ← ofChars_append]
      rfl
    rw [bytes]
    constructor
    · rw [Token.isFraction, taken, dropped, scale, written]
      rfl
    · intro b first
      cases first
      rfl

theorem isMagnitude_whole {whole fraction exponent : List Char} (isWhole : Whole whole)
    (isFraction : Fraction fraction) (isExponent : Exponent exponent) :
    isMagnitude (ofChars (whole ++ (fraction ++ exponent))) ∧
      ∃ b rest, ofChars (whole ++ (fraction ++ exponent)) = b :: rest ∧ b ≠ 0x2D := by
  obtain ⟨later, ended⟩ := isFraction_fraction isFraction isExponent
  cases isWhole with
  | zero => exact ⟨later, 0x30, _, rfl, by decide⟩
  | @digits first more nonzero isDigits =>
    obtain ⟨firstDigit, digitsMore⟩ := List.forall_mem_cons.mp isDigits.2
    obtain ⟨b, written, digit⟩ := exists_digit firstDigit
    obtain ⟨_, noMinus⟩ := ne_of_isDigit digit
    have other : b ≠ 0x30 := by
      rintro rfl
      have member : (0x30 : UInt8) ∈ String.utf8EncodeChar first := by rw [written]; simp
      rcases Text.mem_utf8EncodeChar member with same | beyond
      · exact nonzero (Char.toNat_inj.mp same.symm)
      · exact absurd beyond (by decide)
    obtain ⟨_, dropped⟩ := span_append (isDigit_ofChars digitsMore) ended
    have bytes : ofChars (first :: more ++ (fraction ++ exponent)) =
        b :: (ofChars more ++ ofChars (fraction ++ exponent)) := by
      rw [List.cons_append, ← ofChars_append, ofChars_cons written]
    rw [bytes]
    refine ⟨?_, b, _, rfl, noMinus⟩
    simp [isMagnitude, digit, dropped, later]

theorem isNumber_sign {sign whole fraction exponent : List Char} (isSign : sign ∈ [[], ['-']])
    (isWhole : Whole whole) (isFraction : Fraction fraction) (isExponent : Exponent exponent) :
    isNumber (ofChars (sign ++ (whole ++ (fraction ++ exponent)))) := by
  obtain ⟨magnitude, b, rest, written, noMinus⟩ := isMagnitude_whole isWhole isFraction isExponent
  rw [ofChars_append]
  simp only [List.mem_cons, List.not_mem_nil, or_false] at isSign
  rcases isSign with rfl | rfl
  · rw [written] at magnitude ⊢
    simpa [ofChars, isNumber, noMinus] using magnitude
  · exact magnitude

theorem isScalar_scalar {run : List Char} (scalar : Scalar run) : isScalar (ofChars run) := by
  cases scalar with
  | word isWord =>
    simp only [List.mem_cons, List.not_mem_nil, or_false] at isWord
    rcases isWord with rfl | rfl | rfl <;> decide +kernel
  | number isSign isWhole isFraction isExponent =>
    rw [isScalar, isNumber_sign isSign isWhole isFraction isExponent, Bool.or_true]

theorem isScalarByte_digits {digits : List Char} (isDigits : IsDigits digits) :
    ∀ b ∈ ofChars digits, isScalarByte b := by
  intro b member
  simp [isScalarByte, isDigit_ofChars isDigits.2 b member]

theorem isScalarByte_sign {sign : List Char} (isSign : sign ∈ [[], ['+'], ['-']]) :
    ∀ b ∈ ofChars sign, isScalarByte b := by
  simp only [List.mem_cons, List.not_mem_nil, or_false] at isSign
  rcases isSign with rfl | rfl | rfl
  · exact nofun
  · exact List.all_eq_true.mp rfl
  · exact List.all_eq_true.mp rfl

theorem isScalarByte_whole {whole : List Char} (isWhole : Whole whole) :
    ∀ b ∈ ofChars whole, isScalarByte b := by
  cases isWhole with
  | zero => exact List.all_eq_true.mp rfl
  | digits _ isDigits => exact isScalarByte_digits isDigits

theorem isScalarByte_fraction {fraction : List Char} (isFraction : Fraction fraction) :
    ∀ b ∈ ofChars fraction, isScalarByte b := by
  cases isFraction with
  | none => exact nofun
  | digits isDigits => exact List.forall_mem_cons.mpr ⟨rfl, isScalarByte_digits isDigits⟩

theorem isScalarByte_exponent {exponent : List Char} (isExponent : Exponent exponent) :
    ∀ b ∈ ofChars exponent, isScalarByte b := by
  cases isExponent with
  | none => exact nofun
  | @digits mark sign digits isMark isSign isDigits =>
    have rest : ∀ b ∈ ofChars (sign ++ digits), isScalarByte b := by
      rw [ofChars_append, List.forall_mem_append]
      exact ⟨isScalarByte_sign isSign, isScalarByte_digits isDigits⟩
    simp only [List.mem_cons, List.not_mem_nil, or_false] at isMark
    rcases isMark with rfl | rfl
    · exact List.forall_mem_cons.mpr ⟨rfl, rest⟩
    · exact List.forall_mem_cons.mpr ⟨rfl, rest⟩

/-- Numbers and words are made of the bytes that are read on for them. -/
theorem isScalarByte_scalar {run : List Char} (scalar : Scalar run) : ∀ b ∈ ofChars run, isScalarByte b := by
  cases scalar with
  | word isWord =>
    simp only [List.mem_cons, List.not_mem_nil, or_false] at isWord
    rcases isWord with rfl | rfl | rfl <;> exact List.all_eq_true.mp rfl
  | number isSign isWhole isFraction isExponent =>
    simp only [ofChars_append, List.forall_mem_append]
    refine ⟨isScalarByte_sign ?_, isScalarByte_whole isWhole, isScalarByte_fraction isFraction,
      isScalarByte_exponent isExponent⟩
    simp only [List.mem_cons, List.not_mem_nil, or_false] at isSign ⊢
    exact isSign.imp_right .inr

theorem not_isSpace {b : UInt8} (part : isScalarByte b) : isSpace b = false ∧ b ≠ 0x22 := by
  constructor
  · apply Bool.eq_false_iff.mpr
    intro space
    simp only [isSpace, Bool.or_eq_true, beq_iff_eq] at space
    rcases space with ((rfl | rfl) | rfl) | rfl <;> cases part
  · rintro rfl
    cases part

end Token

end Reckon.Json
