import Reckon.Proofs.Tree

/-! The infix grammar. A phrase of a level is a chain of phrases of the next level, with operators
of that level's tightness between them; at the last level stand operands and parentheses. -/

namespace Reckon

/-- What an infix expression is written with. -/
inductive Lexeme (α : Type) where
  | operand (a : α)
  | operator (op : Operator)
  | opening
  | closing
  deriving DecidableEq, Repr

def Lexeme.map (f : α → β) : Lexeme α → Lexeme β
  | operand a => operand (f a)
  | operator op => operator op
  | opening => opening
  | closing => closing

def Lexeme.token : Lexeme Float → Token
  | operand value => .number value
  | operator op => .operator op
  | opening => .opening
  | closing => .closing

/-- Derivations of the grammar: sums at level 1 join products by `+` and `-`, products at level 2
join powers by `*` and `/`, powers at level 3 join atoms by `^`, and an atom at level 4 is an
operand or a sum in parentheses. -/
inductive Phrase (α : Type) : Nat → Type where
  | leaf (a : α) : Phrase α 4
  | group (inside : Phrase α 1) : Phrase α 4
  | single (part : Phrase α (k + 1)) : Phrase α k
  | chain (part : Phrase α (k + 1)) (op : Operator) (level : op.tightness = k)
      (rest : Phrase α k) : Phrase α k

/-- Whole infix expressions. -/
abbrev Infix (α : Type) := Phrase α 1

/-- Groups a chain of operators that have the same tightness, and thus the same grouping. -/
def Tree.chain (power : Grouping) : Tree α → List (Operator × Tree α) → Tree α
  | first, [] => first
  | first, (op, next) :: rest =>
    match op.grouping power with
    | .left => chain power (.node op first next) rest
    | .right => .node op first (chain power next rest)

namespace Phrase

/-- The operands of a phrase, from left to right. -/
def operands : Phrase α k → List α
  | leaf a => [a]
  | group inside => inside.operands
  | single part => part.operands
  | chain part _ _ rest => part.operands ++ rest.operands

def lexemes : Phrase α k → List (Lexeme α)
  | leaf a => [.operand a]
  | group inside => .opening :: inside.lexemes ++ [.closing]
  | single part => part.lexemes
  | chain part op _ rest => part.lexemes ++ .operator op :: rest.lexemes

def map (f : α → β) : Phrase α k → Phrase β k
  | leaf a => leaf (f a)
  | group inside => group (inside.map f)
  | single part => single (part.map f)
  | chain part op level rest => chain (part.map f) op level (rest.map f)

/-- The trees of a phrase's parts: the first one, and each other one with the operator before it. -/
def links (power : Grouping) : Phrase α k → Tree α × List (Operator × Tree α)
  | leaf a => (.leaf a, [])
  | group inside => (.chain power (inside.links power).1 (inside.links power).2, [])
  | single part => (.chain power (part.links power).1 (part.links power).2, [])
  | chain part op _ rest =>
    (.chain power (part.links power).1 (part.links power).2,
      (op, (rest.links power).1) :: (rest.links power).2)

/-- The operator tree of a phrase. Chains group from the left, those of powers as `power` says. -/
def tree (power : Grouping) (e : Phrase α k) : Tree α :=
  .chain power (e.links power).1 (e.links power).2

/-- The tokens of a phrase of doubles. -/
def tokens (e : Phrase Float k) : List Token := e.lexemes.map Lexeme.token

theorem tokens_leaf (value : Float) : (leaf value).tokens = [.number value] := rfl

theorem tokens_group (inside : Infix Float) :
    (group inside).tokens = .opening :: inside.tokens ++ [.closing] := by
  simp [tokens, lexemes, Lexeme.token]

theorem tokens_single (part : Phrase Float (k + 1)) : (single part).tokens = part.tokens := rfl

theorem tokens_chain (part : Phrase Float (k + 1)) (op : Operator) (level : op.tightness = k)
    (rest : Phrase Float k) :
    (chain part op level rest).tokens = part.tokens ++ .operator op :: rest.tokens := by
  simp [tokens, lexemes, Lexeme.token]

end Phrase

namespace Tree

end Tree

namespace Phrase

end Phrase

end Reckon
