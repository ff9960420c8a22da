import Reckon.Bytes

/-! Texts in JSON: what stands between the quotes, read by bytes and written by characters. -/

namespace Reckon.Json.Text

/-- A part of a quoted text: a byte as it stands, or a unit of sixteen bits given by its number. -/
inductive Part where
  | byte (b : UInt8)
  | unit (n : Nat)
  deriving DecidableEq, Repr

/-- The byte that a backslash and this byte stand for. -/
def escape? (b : UInt8) : Option UInt8 :=
  [(0x22, 0x22), (0x5C, 0x5C), (0x2F, 0x2F), (0x62, 0x08), (0x66, 0x0C), (0x6E, 0x0A),
    (0x72, 0x0D), (0x74, 0x09)].lookup b

def hexDigit? (b : UInt8) : Option Nat :=
  if 0x30 ≤ b ∧ b ≤ 0x39 then some (b.toNat - 0x30)
  else if 0x41 ≤ b ∧ b ≤ 0x46 then some (b.toNat - 0x41 + 10)
  else if 0x61 ≤ b ∧ b ≤ 0x66 then some (b.toNat - 0x61 + 10)
  else none

/-- The number that four hexadecimal digits write. -/
def unit? (a b c d : UInt8) : Option Nat := do
  return (((← hexDigit? a) * 16 + (← hexDigit? b)) * 16 + (← hexDigit? c)) * 16 + (← hexDigit? d)

/-- The parts of a text up to its closing quote, and what follows the quote. Control characters
must be escaped. -/
def parts? : Bytes → Option (List Part × Bytes)
  | [] => none
  | 0x22 :: rest => some ([], rest)
  | 0x5C :: 0x75 :: a :: b :: c :: d :: rest => do
    let n ← unit? a b c d
    let (parts, after) ← parts? rest
    return (.unit n :: parts, after)
  | 0x5C :: b :: rest => do
    let b ← escape? b
    let (parts, after) ← parts? rest
    return (.byte b :: parts, after)
  | b :: rest =>
    if b < 0x20 || b == 0x5C then none
    else do
      let (parts, after) ← parts? rest
      return (.byte b :: parts, after)

/-- The first unit of a pair that together gives a character beyond U+FFFF. -/
def isHigh (n : Nat) : Bool := 0xD800 ≤ n && n < 0xDC00

/-- The second unit of such a pair. -/
def isLow (n : Nat) : Bool := 0xDC00 ≤ n && n < 0xE000

/-- The bytes of parts, none when a unit of a pair stands alone. -/
def bytes? : List Part → Option Bytes
  | [] => some []
  | .byte b :: rest => (b :: ·) <$> bytes? rest
  | .unit high :: .unit low :: rest =>
    if isHigh high then
      if isLow low then
        (String.utf8EncodeChar
          (Char.ofNat (0x10000 + (high - 0xD800) * 0x400 + (low - 0xDC00))) ++ ·) <$> bytes? rest
      else none
    else if isLow high then none
    else (String.utf8EncodeChar (Char.ofNat high) ++ ·) <$> bytes? (.unit low :: rest)
  | .unit n :: rest =>
    if isHigh n || isLow n then none
    else (String.utf8EncodeChar (Char.ofNat n) ++ ·) <$> bytes? rest

/-- The text that parts spell, none when they do not spell one. -/
def ofParts? (parts : List Part) : Option String := (bytes? parts).bind Bytes.text?

/-- A hexadecimal digit in lower case. -/
def hexDigit (n : Nat) : Char := Nat.digitChar n

/-- A character between quotes: escaped where it must be, and by a letter where there is one. -/
def writeChar (c : Char) : List Char :=
  match c with
  | '"' => ['\\', '"']
  | '\\' => ['\\', '\\']
  | '\x08' => ['\\', 'b']
  | '\x0c' => ['\\', 'f']
  | '\n' => ['\\', 'n']
  | '\r' => ['\\', 'r']
  | '\t' => ['\\', 't']
  | c =>
    if c.toNat < 0x20 then ['\\', 'u', '0', '0', hexDigit (c.toNat / 16), hexDigit (c.toNat % 16)]
    else [c]

/-- A quoted text. -/
def write (text : String) : List Char := '"' :: (text.toList.flatMap writeChar ++ ['"'])

end Reckon.Json.Text
