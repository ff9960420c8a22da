/-! Decimals with a whole coefficient: their exact value as a quotient, and the
numerals they are written as. -/

namespace Reckon

/-- The value `digits · 10 ^ exponent`. -/
structure Decimal where
  digits : Nat
  exponent : Int
  deriving DecidableEq, Repr

namespace Decimal

/-- The numerator of the value over `denominator`. -/
def numerator (d : Decimal) : Nat := d.digits * Nat.pow 10 d.exponent.toNat

/-- A power of ten, one unless the exponent is negative. -/
def denominator (d : Decimal) : Nat := Nat.pow 10 (-d.exponent).toNat

theorem denominator_pos (d : Decimal) : 0 < d.denominator := Nat.pow_pos (by decide)

/-- The decimal with these digits before and after the point. -/
def ofParts (whole fraction : List Char) : Decimal :=
  ⟨Nat.ofDigitChars 10 (whole ++ fraction) 0, -fraction.length⟩

/-- Reads the longest numeral without a sign that the text starts with, digits with at most
one point and a digit on one side of it, and returns what follows. -/
def scan? (text : List Char) : Option (Decimal × List Char) :=
  let whole := text.takeWhile Char.isDigit
  match text.dropWhile Char.isDigit with
  | '.' :: more =>
    let fraction := more.takeWhile Char.isDigit
    if whole.isEmpty && fraction.isEmpty then none
    else some (ofParts whole fraction, more.dropWhile Char.isDigit)
  | rest => if whole.isEmpty then none else some (ofParts whole [], rest)

theorem scan?_shorter {text rest : List Char} {d : Decimal} (found : scan? text = some (d, rest)) :
    rest.length < text.length := by
  have split := congrArg List.length (List.takeWhile_append_dropWhile (p := Char.isDigit) (l := text))
  rw [List.length_append] at split
  simp only [scan?] at found
  split at found
  · rename_i more point
    have whole : (text.dropWhile Char.isDigit).length = more.length + 1 := by rw [point]; rfl
    have fraction := (List.dropWhile_sublist (l := more) Char.isDigit).length_le
    split at found
    · cases found
    · injection found with pair
      injection pair with _ same
      subst same
      omega
  · split at found
    · cases found
    · rename_i digits
      injection found with pair
      injection pair with _ same
      subst same
      have present : 0 < (text.takeWhile Char.isDigit).length :=
        List.length_pos_iff.mpr (by simpa using digits)
      omega

/-- The same value without zeros at the end of the coefficient. -/
def trim (d : Decimal) : Decimal :=
  if d.digits ≠ 0 ∧ d.digits % 10 = 0 then trim ⟨d.digits / 10, d.exponent + 1⟩ else d
termination_by d.digits
decreasing_by rename_i ends; exact Nat.div_lt_self (Nat.pos_of_ne_zero ends.1) (by decide)

/-- Digits with at least one before the point, and a point only when places follow it. -/
def positional (d : Decimal) : List Char :=
  let shown := Nat.toDigits 10 d.digits
  let places := (-d.exponent).toNat
  if places = 0 then shown ++ List.replicate d.exponent.toNat '0'
  else
    let padded := List.replicate (places + 1 - shown.length) '0' ++ shown
    let point := padded.length - places
    padded.take point ++ '.' :: padded.drop point

end Decimal

end Reckon
