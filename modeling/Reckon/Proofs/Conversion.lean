import Reckon.Proofs.Arrangement

/-! The conversion to postfix order as a machine that reads one token after another. Its state has what
it has written, so what a whole conversion keeps is what one token keeps. -/

namespace Reckon.Postfix

/-- A conversion under way: the operators of the innermost open parenthesis that still wait, those of
the parentheses around it, and the items written so far. -/
structure Progress where
  waiting : List Operator
  outer : List (List Operator)
  written : List Item

namespace Progress

def start : Progress := ⟨[], [], []⟩

/-- One token read. -/
def read (power : Grouping) : Progress → Token → Except EvalError Progress
  | ⟨waiting, outer, written⟩, .number value => .ok ⟨waiting, outer, written ++ [.number value]⟩
  | ⟨waiting, outer, written⟩, .operator op =>
    .ok ⟨op :: waiting.dropWhile (·.precedes power op), outer,
      written ++ (waiting.takeWhile (·.precedes power op)).map .operator⟩
  | ⟨waiting, outer, written⟩, .opening => .ok ⟨[], waiting :: outer, written⟩
  | ⟨_, [], _⟩, .closing => .error (.unmatched .closing)
  | ⟨waiting, around :: outer, written⟩, .closing =>
    .ok ⟨around, outer, written ++ waiting.map .operator⟩
  | _, .blank => .error (.invalid .blank)

/-- The items that were written when no token is left. -/
def items : Progress → Except EvalError (List Item)
  | ⟨waiting, [], written⟩ => .ok (written ++ waiting.map .operator)
  | ⟨_, _ :: _, _⟩ => .error (.unmatched .opening)

theorem emit_arrange (power : Grouping) (tokens : List Token) (waiting : List Operator)
    (outer : List (List Operator)) (written : List Item) :
    emit written (arrange power waiting outer tokens) =
      tokens.foldlM (read power) ⟨waiting, outer, written⟩ >>= items := by
  induction tokens generalizing waiting outer written with
  | nil => cases outer <;> rfl
  | cons token rest ih =>
    cases token with
    | number value =>
      rw [arrange_number, emit_emit, ih]
      rfl
    | operator op =>
      rw [arrange]
      refine (emit_emit _ _ _).trans ?_
      rw [ih]
      rfl
    | opening =>
      rw [arrange_opening, ih]
      rfl
    | closing =>
      cases outer with
      | nil => rfl
      | cons around outer =>
        rw [arrange_closing, emit_emit, ih]
        rfl
    | blank => cases outer <;> rfl

theorem ofTokens_eq_foldlM (power : Grouping) (tokens : List Token) :
    ofTokens power tokens = tokens.foldlM (read power) start >>= items := by
  rw [start, ← emit_arrange, emit_nil, ofTokens]

end Progress

end Reckon.Postfix
