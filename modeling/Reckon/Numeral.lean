import Reckon.Binary64.Nearest
import Reckon.Binary64.Shortest

/-! Numerals: the text of a double, and the doubles that texts stand for. -/

namespace Reckon.Numeral

/-- The shortest digits that read back, in positional notation: no exponent, and a point only
before digits. -/
def write (x : Float) : String :=
  if Binary64.isNaN x then "NaN"
  else
    let bits := Binary64.magnitude x
    let body :=
      if bits = Binary64.infinity then "inf".toList
      else if bits = 0 then ['0']
      else (Binary64.shortest (Binary64.dyadic bits)).positional
    String.ofList (if Binary64.negative x then '-' :: body else body)

/-- Why a text is no numeral. -/
inductive Fault where
  | empty
  | malformed
  deriving DecidableEq, Repr

def Fault.message : Fault → String
  | .empty => "cannot parse float from empty string"
  | .malformed => "invalid float literal"

/-- The sign of a text, positive unless it starts with a minus, and what follows the sign. -/
def sign : List Char → Bool × List Char
  | '-' :: rest => (true, rest)
  | '+' :: rest => (false, rest)
  | text => (false, text)

/-- A whole number in decimal digits, at least one. -/
def whole? (text : List Char) : Option Nat :=
  if !text.isEmpty && text.all Char.isDigit then some (Nat.ofDigitChars 10 text 0) else none

/-- The size from which on an exponent takes no further digits. Only a numeral that has as many
digits itself could tell. -/
def exponentLimit : Nat := 65536

/-- An exponent with one more digit. -/
def extendExponent (size : Nat) (digit : Char) : Nat :=
  if size < exponentLimit then Nat.ofDigitChars 10 [digit] size else size

/-- The exponent written after the digits: none, or `e` and a whole number that may have a sign. -/
def exponent? : List Char → Option Int
  | [] => some 0
  | mark :: rest =>
    if mark.toLower = 'e' && (whole? (sign rest).2).isSome then
      let size := (sign rest).2.foldl extendExponent 0
      some (if (sign rest).1 then -size else size)
    else none

/-- The bits of a numeral without its sign. -/
def magnitude? (text : List Char) : Option Nat :=
  let lower := text.map Char.toLower
  if lower = "inf".toList ∨ lower = "infinity".toList then some Binary64.infinity
  else if lower = "nan".toList then some (Binary64.infinity + Binary64.fullMantissa / 2)
  else do
    let (d, rest) ← Decimal.scan? text
    let shift ← exponent? rest
    return Binary64.ofDecimal ⟨d.digits, d.exponent + shift⟩

/-- Reads a numeral: an optional sign, then the name of infinity or of no number in any letter
case, or digits with an optional point and an optional exponent. -/
def read (text : List Char) : Except Fault Float :=
  if text.isEmpty then .error .empty
  else
    match magnitude? (sign text).2 with
    | some bits => .ok (Binary64.ofMagnitude (sign text).1 bits)
    | none => .error .malformed

end Reckon.Numeral
