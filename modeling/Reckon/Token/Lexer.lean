import Reckon.Binary64.Nearest
import Reckon.EvalError
import Reckon.Token

/-! The lexer: symbols, numbers as long as possible, and blanks between them. -/

namespace Reckon.Token

/-- The characters that may stand between tokens. -/
def isGap (c : Char) : Bool :=
  c == ' ' || c == '\t' || c == '\r' || c == '\n' || c == '\x0c'

/-- The value of a number without a sign, rounded to the nearest double. -/
def numberOf (d : Decimal) : Token := .number (Binary64.ofMagnitude false (Binary64.ofDecimal d))

/-- Splits a text into tokens, or stops at the first character at which none starts. -/
def scan : List Char → Except EvalError (List Token)
  | [] => .ok []
  | c :: rest =>
    if isGap c then scan rest
    else
      match ofSymbol? c with
      | some token => (token :: ·) <$> scan rest
      | none =>
        match _found : Decimal.scan? (c :: rest) with
        | some (d, after) => (numberOf d :: ·) <$> scan after
        | none => .error (.invalid (.unexpected c))
termination_by text => text.length
decreasing_by
  · simp
  · simp
  · exact Decimal.scan?_shorter _found

/-- The tokens of an expression, at least one. -/
def read (text : List Char) : Except EvalError (List Token) := do
  let tokens ← scan text
  if tokens.isEmpty then throw (.invalid .empty) else return tokens

end Reckon.Token
