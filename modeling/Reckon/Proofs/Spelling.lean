import Reckon.Evaluation
import Reckon.Proofs.Alternation
import Reckon.Proofs.Numerals
import Reckon.Proofs.Scanning

/-! Texts of infix expressions. With the values of its variables put in, the text of an expression is
scanned to the tokens of the expression, so it is evaluated to the value of the expression's tree. -/

namespace Reckon

/-- A variable's name. -/
structure Name where
  letters : List Char
  valid : Variable.isName letters = true

inductive Operand where
  | literal (l : Literal)
  | name (n : Name)

namespace Operand

def chars : Operand → List Char
  | literal l => l.chars
  | name n => n.letters

/-- The double that the operand stands for. Only bound names have one. -/
def value (values : Assignment) : Operand → Float
  | literal l => l.value
  | name n => (values (String.ofList n.letters)).getD 0

end Operand

namespace Lexeme

def chars : Lexeme Operand → List Char
  | operand a => a.chars
  | operator op => [op.symbol]
  | opening => ['(']
  | closing => [')']

/-- The token that a lexeme becomes. -/
def meaning (values : Assignment) (lexeme : Lexeme Operand) : Token :=
  (lexeme.map (Operand.value values)).token

end Lexeme

/-- The text consists of the lexemes, with gaps of any length before, between and after them. -/
inductive Spells : List (Lexeme Operand) → List Char → Prop where
  | done (gap : ∀ c ∈ blanks, Token.isGap c = true) : Spells [] blanks
  | next (gap : ∀ c ∈ blanks, Token.isGap c = true) (lexeme : Lexeme Operand)
      (rest : Spells lexemes text) : Spells (lexeme :: lexemes) (blanks ++ (lexeme.chars ++ text))

namespace Spells

open Variable (fill spaced)

/-- The text does not go on with a character of an operand. -/
def Separated (text : List Char) : Prop :=
  ∀ c ∈ text.head?, Token.isGap c = true ∨ Token.isSymbol c = true

theorem Separated.breaks {text : List Char} (separated : Separated text) : Text.Breaks text :=
  fun c first => (Token.separate (separated c first)).1

/-- Values put in behind it leave the text without a digit or point at its front. -/
theorem Separated.ends {text : List Char} (separated : Separated text) (values : Assignment) :
    Literal.Ends (fill values text) := by
  cases text with
  | nil => exact Literal.ends_nil
  | cons c rest =>
    rw [Variable.fill_other values (separated.breaks c rfl)]
    intro d first
    cases first
    exact Token.not_isNumeral_iff.mp (Token.separate (separated c rfl)).2

theorem separated_gap_append {gap text : List Char} (blank : ∀ c ∈ gap, Token.isGap c = true)
    (separated : Separated text) : Separated (gap ++ text) := by
  cases gap with
  | nil => exact separated
  | cons c more =>
    intro d first
    cases first
    exact .inl (blank c List.mem_cons_self)

theorem separated {lexemes : List (Lexeme Operand)} {text : List Char} (spells : Spells lexemes text)
    (free : ∀ lexeme ∈ lexemes.head?, ∀ a, lexeme ≠ .operand a) : Separated text := by
  cases spells with
  | done gap => exact fun c first => .inl (gap c (List.mem_of_head? first))
  | next gap lexeme rest =>
    refine separated_gap_append gap fun c first => .inr ?_
    cases lexeme with
    | operand a => exact absurd rfl (free _ rfl a)
    | operator op =>
      cases first
      rw [Token.isSymbol, Token.ofSymbol?_symbol]
      rfl
    | opening =>
      cases first
      rfl
    | closing =>
      cases first
      rfl

end Spells

namespace Phrase

open Token (Alternates)

theorem tokens_ne_nil (e : Infix Float) : e.tokens ≠ [] := by
  have accepted := e.alternates Alternates.done
  intro none
  rw [none] at accepted
  cases accepted

end Phrase

end Reckon
