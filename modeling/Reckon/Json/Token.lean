import Reckon.Json.Text

/-! Tokens of JSON. Numbers and the three words are told apart from other runs of letters, but
not from one another. -/

namespace Reckon.Json

inductive Token where
  | openList
  | closeList
  | openRecord
  | closeRecord
  | comma
  | colon
  /-- A quoted text, without content when it spells no text. -/
  | text (content : Option String)
  /-- A number, a truth value or null. -/
  | scalar
  deriving DecidableEq, Repr

namespace Token

def ofByte? (b : UInt8) : Option Token :=
  [(0x5B, openList), (0x5D, closeList), (0x7B, openRecord), (0x7D, closeRecord), (0x2C, comma),
    (0x3A, colon)].lookup b

/-- Space, tab, line feed and carriage return. -/
def isSpace (b : UInt8) : Bool := b == 0x20 || b == 0x09 || b == 0x0A || b == 0x0D

def isDigit (b : UInt8) : Bool := 0x30 ≤ b && b ≤ 0x39

/-- The bytes that numbers and words are made of. -/
def isScalarByte (b : UInt8) : Bool :=
  isDigit b || (0x41 ≤ b && b ≤ 0x5A) || (0x61 ≤ b && b ≤ 0x7A) || b == 0x2B || b == 0x2D ||
    b == 0x2E

/-- An exponent: a sign that may be missing, and digits. -/
def isExponent : Bytes → Bool
  | 0x2B :: digits | 0x2D :: digits => !digits.isEmpty && digits.all isDigit
  | digits => !digits.isEmpty && digits.all isDigit

/-- What may follow the digits of a number: nothing, or an exponent after its letter. -/
def isScale : Bytes → Bool
  | [] => true
  | mark :: rest => (mark == 0x65 || mark == 0x45) && isExponent rest

/-- What may follow the whole part of a number: a point and digits, and a scale. -/
def isFraction : Bytes → Bool
  | 0x2E :: rest => !(rest.takeWhile isDigit).isEmpty && isScale (rest.dropWhile isDigit)
  | rest => isScale rest

/-- A number from its first digit on. No zero stands before another digit. -/
def isMagnitude : Bytes → Bool
  | 0x30 :: rest => isFraction rest
  | b :: rest => isDigit b && isFraction (rest.dropWhile isDigit)
  | [] => false

def isNumber : Bytes → Bool
  | 0x2D :: rest => isMagnitude rest
  | digits => isMagnitude digits

def isScalar (run : Bytes) : Bool :=
  run == "true".toUTF8.toList || run == "false".toUTF8.toList || run == "null".toUTF8.toList ||
    isNumber run

theorem parts?_shorter {text after : Bytes} {parts : List Text.Part}
    (found : Text.parts? text = some (parts, after)) : after.length < text.length := by
  fun_induction Text.parts? text generalizing parts with
  | case1 => cases found
  | case2 => cases found; simp
  | case3 a b c d rest ih =>
    simp only [Option.bind_eq_bind, Option.bind_eq_some_iff, Option.pure_def, Option.some.injEq,
      Prod.mk.injEq] at found
    obtain ⟨_, _, ⟨inner, tail⟩, read, _, same⟩ := found
    subst same
    have shorter := ih read
    simp at shorter ⊢; omega
  | case4 b rest _ ih =>
    simp only [Option.bind_eq_bind, Option.bind_eq_some_iff, Option.pure_def, Option.some.injEq,
      Prod.mk.injEq] at found
    obtain ⟨_, _, ⟨inner, tail⟩, read, _, same⟩ := found
    subst same
    have shorter := ih read
    simp at shorter ⊢; omega
  | case5 => cases found
  | case6 b rest _ _ _ _ ih =>
    simp only [Option.bind_eq_bind, Option.bind_eq_some_iff, Option.pure_def, Option.some.injEq,
      Prod.mk.injEq] at found
    obtain ⟨⟨inner, tail⟩, read, _, same⟩ := found
    subst same
    have shorter := ih read
    simp at shorter ⊢; omega

/-- Splits bytes into tokens. -/
def scan? : Bytes → Option (List Token)
  | [] => some []
  | b :: rest =>
    if isSpace b then scan? rest
    else if b = 0x22 then
      match _found : Text.parts? rest with
      | some (parts, after) => (text (Text.ofParts? parts) :: ·) <$> scan? after
      | none => none
    else if isScalarByte b then
      if isScalar (b :: rest.takeWhile isScalarByte) then
        (scalar :: ·) <$> scan? (rest.dropWhile isScalarByte)
      else none
    else
      match ofByte? b with
      | some token => (token :: ·) <$> scan? rest
      | none => none
termination_by bytes => bytes.length
decreasing_by
  · simp
  · have := parts?_shorter _found; simp; omega
  · have := (List.dropWhile_sublist (l := rest) isScalarByte).length_le; simp; omega
  · simp

end Token

end Reckon.Json
