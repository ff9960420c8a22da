import Mathlib.Data.List.Chain
import Reckon.Proofs.Arrangement

/-! Which tokens are an infix expression, and which others the conversion to postfix order lets
pass. Tightness plays no part in it: operands and operators alternate and parentheses match. -/

namespace Reckon

namespace Token

def isNumber : Token → Bool
  | .number _ => true
  | _ => false

def isOperator : Token → Bool
  | .operator _ => true
  | _ => false

/-- An operand may start with the token. -/
def startsOperand : Token → Bool
  | .number _ | .opening => true
  | _ => false

/-- An operand may end with the token. -/
def endsOperand : Token → Bool
  | .number _ | .closing => true
  | _ => false

/-- No operand stands directly before another. -/
def Apart (tokens : List Token) : Prop :=
  tokens.IsChain fun before after => ¬ (before.endsOperand = true ∧ after.startsOperand = true)

/-- Each parenthesis has its partner, when so many are open already. -/
def Balanced : Nat → List Token → Prop
  | depth, [] => depth = 0
  | depth, .opening :: rest => Balanced (depth + 1) rest
  | 0, .closing :: _ => False
  | depth + 1, .closing :: rest => Balanced depth rest
  | depth, _ :: rest => Balanced depth rest

/-- The tokens are derivable in the infix grammar. -/
def IsInfix (tokens : List Token) : Prop := ∃ e : Infix Float, e.tokens = tokens

/-- What may follow when so many parentheses are open, after an operand or where one is due. -/
inductive Alternates : Bool → Nat → List Token → Prop where
  | done : Alternates true 0 []
  | number (rest : Alternates true depth tokens) :
      Alternates false depth (.number value :: tokens)
  | opening (rest : Alternates false (depth + 1) tokens) :
      Alternates false depth (.opening :: tokens)
  | operator (rest : Alternates false depth tokens) :
      Alternates true depth (.operator op :: tokens)
  | closing (rest : Alternates true depth tokens) :
      Alternates true (depth + 1) (.closing :: tokens)

end Token

namespace Phrase

open Token (Alternates)

theorem alternates (e : Phrase Float k) (rest : Alternates true depth following) :
    Alternates false depth (e.tokens ++ following) := by
  induction e generalizing depth following with
  | leaf value => exact .number rest
  | group inside ih =>
    rw [tokens_group, List.cons_append, List.cons_append, List.append_assoc]
    exact .opening (ih (.closing rest))
  | single part ih => exact ih rest
  | chain part op level more ihPart ihMore =>
    rw [tokens_chain, List.append_assoc]
    exact ihPart (.operator (ihMore rest))

/-- An atom is a phrase of each level. -/
theorem exists_raised (atom : Phrase α 4) (steps : Nat) (below : k + steps = 4) :
    ∃ e : Phrase α k, e.lexemes = atom.lexemes := by
  induction steps generalizing k with
  | zero =>
    subst below
    exact ⟨atom, rfl⟩
  | succ steps ih =>
    obtain ⟨e, same⟩ := ih (k := k + 1) (by omega)
    exact ⟨single e, same⟩

/-- An atom and an operator can stand before a phrase. They join the chain of the operator's own
level that the phrase starts with. -/
theorem exists_prepended (atom : Phrase α 4) (op : Operator) (e : Phrase α k)
    (below : k ≤ op.tightness) :
    ∃ whole : Phrase α k, whole.lexemes = atom.lexemes ++ .operator op :: e.lexemes := by
  have least : op.tightness ≤ 3 := by cases op <;> decide
  induction e with
  | leaf a => omega
  | group inside _ => omega
  | @single k part ih =>
    rcases Nat.eq_or_lt_of_le below with level | deeper
    · obtain ⟨first, same⟩ := exists_raised atom (k := k + 1) (3 - k) (by omega)
      exact ⟨chain first op level.symm (single part), by simp [lexemes, same]⟩
    · obtain ⟨whole, same⟩ := ih deeper
      exact ⟨single whole, same⟩
  | @chain k part next nextLevel rest ih _ =>
    rcases Nat.eq_or_lt_of_le below with level | deeper
    · obtain ⟨first, same⟩ := exists_raised atom (k := k + 1) (3 - k) (by omega)
      exact ⟨chain first op level.symm (chain part next nextLevel rest), by simp [lexemes, same]⟩
    · obtain ⟨whole, same⟩ := ih deeper
      exact ⟨chain whole next nextLevel rest, by simp [lexemes, same]⟩

/-- What follows an atom up to the end of its sum: nothing, or an operator and a sum. -/
def tailTokens : Option (Operator × Infix Float) → List Token
  | none => []
  | some (op, e) => .operator op :: e.tokens

theorem exists_atom_tail (atom : Phrase Float 4) (tail : Option (Operator × Infix Float)) :
    ∃ e : Infix Float, e.tokens = atom.tokens ++ tailTokens tail := by
  cases tail with
  | none =>
    obtain ⟨e, same⟩ := exists_raised atom (k := 1) 3 rfl
    exact ⟨e, by simp [tokens, same, tailTokens]⟩
  | some link =>
    obtain ⟨op, rest⟩ := link
    have positive : 1 ≤ op.tightness := by cases op <;> decide
    obtain ⟨e, same⟩ := exists_prepended atom op rest positive
    exact ⟨e, by simp [tokens, same, tailTokens, Lexeme.token]⟩

/-- The tokens from the end of a sum on: for each open parenthesis its partner and what follows
that in the sum around it. -/
inductive Tails : Nat → List Token → Prop where
  | done : Tails 0 []
  | closing (tail : Option (Operator × Infix Float)) (rest : Tails depth following) :
      Tails (depth + 1) (.closing :: tailTokens tail ++ following)

theorem exists_of_alternates (accepted : Alternates after depth following) :
    match after with
    | false => ∃ (e : Infix Float) (rest : List Token), following = e.tokens ++ rest ∧ Tails depth rest
    | true => ∃ tail rest, following = tailTokens tail ++ rest ∧ Tails depth rest := by
  induction accepted with
  | done => exact ⟨none, [], rfl, .done⟩
  | @number _ _ value _ ih =>
    obtain ⟨tail, rest, rfl, tails⟩ := ih
    obtain ⟨e, same⟩ := exists_atom_tail (leaf value) tail
    exact ⟨e, rest, by simp [same, tokens_leaf], tails⟩
  | opening _ ih =>
    obtain ⟨inside, rest, rfl, tails⟩ := ih
    cases tails with
    | @closing _ outside tail tails =>
      obtain ⟨e, same⟩ := exists_atom_tail (group inside) tail
      exact ⟨e, outside, by simp [same, tokens_group], tails⟩
  | @operator _ _ op _ ih =>
    obtain ⟨e, rest, rfl, tails⟩ := ih
    exact ⟨some (op, e), rest, rfl, tails⟩
  | closing _ ih =>
    obtain ⟨tail, rest, rfl, tails⟩ := ih
    exact ⟨none, _, rfl, .closing tail tails⟩

end Phrase

namespace Token

theorem isInfix_iff_alternates : IsInfix tokens ↔ Alternates false 0 tokens := by
  constructor
  · rintro ⟨e, rfl⟩
    have whole := e.alternates .done
    rwa [List.append_nil] at whole
  · intro accepted
    obtain ⟨e, rest, rfl, tails⟩ := Phrase.exists_of_alternates accepted
    cases tails
    exact ⟨e, (List.append_nil _).symm⟩

/-- An alternating list is balanced, keeps its operands apart, and has one number more than
operators; after an operand the next one must wait, and that number is already there. -/
theorem Alternates.shape (accepted : Alternates after depth tokens) :
    Balanced depth tokens ∧ Apart tokens ∧
      (after = true → ∀ token ∈ tokens.head?, token.startsOperand = false) ∧
      tokens.countP isNumber + (if after then 1 else 0) = tokens.countP isOperator + 1 := by
  induction accepted with
  | done => exact ⟨rfl, .nil, by simp, rfl⟩
  | number _ ih =>
    obtain ⟨balanced, apart, next, count⟩ := ih
    refine ⟨by simpa [Balanced] using balanced, ?_, by simp, ?_⟩
    · exact List.isChain_cons.mpr ⟨fun token member => by simp [next rfl token member], apart⟩
    · simp only [List.countP_cons, isNumber, isOperator, Bool.false_eq_true, if_true, if_false] at count ⊢
      omega
  | opening _ ih =>
    obtain ⟨balanced, apart, _, count⟩ := ih
    refine ⟨by simpa [Balanced] using balanced, ?_, by simp, ?_⟩
    · exact List.isChain_cons.mpr ⟨fun token _ => by simp [endsOperand], apart⟩
    · simpa [List.countP_cons, isNumber, isOperator] using count
  | operator _ ih =>
    obtain ⟨balanced, apart, _, count⟩ := ih
    refine ⟨by simpa [Balanced] using balanced, ?_, by simp [startsOperand], ?_⟩
    · exact List.isChain_cons.mpr ⟨fun token _ => by simp [endsOperand], apart⟩
    · simp only [List.countP_cons, isNumber, isOperator, Bool.false_eq_true, if_true, if_false] at count ⊢
      omega
  | closing _ ih =>
    obtain ⟨balanced, apart, next, count⟩ := ih
    refine ⟨by simpa [Balanced] using balanced, ?_, by simp [startsOperand], ?_⟩
    · exact List.isChain_cons.mpr ⟨fun token member => by simp [next rfl token member], apart⟩
    · simpa [List.countP_cons, isNumber, isOperator] using count

/-- The same with operators and closing parentheses also where an operand is due: what is balanced and
keeps its operands apart. -/
inductive Orderly : Bool → Nat → List Token → Prop where
  | done : Orderly after 0 []
  | number (rest : Orderly true depth tokens) : Orderly false depth (.number value :: tokens)
  | opening (rest : Orderly false (depth + 1) tokens) : Orderly false depth (.opening :: tokens)
  | operator (rest : Orderly false depth tokens) : Orderly after depth (.operator op :: tokens)
  | closing (rest : Orderly true depth tokens) : Orderly after (depth + 1) (.closing :: tokens)

theorem orderly_of_apart {after : Bool} {depth : Nat} {tokens : List Token} (plain : .blank ∉ tokens)
    (balanced : Balanced depth tokens) (apart : Apart tokens)
    (next : after = true → ∀ token ∈ tokens.head?, token.startsOperand = false) :
    Orderly after depth tokens := by
  induction tokens generalizing after depth with
  | nil =>
    cases balanced
    exact .done
  | cons token rest ih =>
    have plainRest : .blank ∉ rest := fun member => plain (List.mem_cons_of_mem _ member)
    obtain ⟨first, apartRest⟩ := List.isChain_cons.mp apart
    have free (ends : token.endsOperand = true) :
        true = true → ∀ other ∈ rest.head?, other.startsOperand = false := by
      intro _ other member
      exact Bool.eq_false_iff.mpr fun starts => first other member ⟨ends, starts⟩
    have due (starts : token.startsOperand = true) : after = false := by
      cases after with
      | false => rfl
      | true => exact absurd starts (by simp [next rfl token rfl])
    cases token with
    | number value =>
      obtain rfl := due rfl
      exact .number (ih plainRest (by simpa [Balanced] using balanced) apartRest (free rfl))
    | operator op =>
      exact .operator (ih plainRest (by simpa [Balanced] using balanced) apartRest nofun)
    | opening =>
      obtain rfl := due rfl
      exact .opening (ih plainRest (by simpa [Balanced] using balanced) apartRest nofun)
    | closing =>
      cases depth with
      | zero => exact balanced.elim
      | succ depth =>
        exact .closing (ih plainRest (by simpa [Balanced] using balanced) apartRest (free rfl))
    | blank => exact absurd List.mem_cons_self plain

/-- An orderly list never has more numbers than an alternating one, and has as many only if it
alternates: each operator without its left operand and each empty pair of parentheses costs one for
good. -/
theorem Orderly.count_le (orderly : Orderly after depth tokens) :
    tokens.countP isNumber + (if after then 1 else 0) ≤ tokens.countP isOperator + 1 ∧
      (tokens.countP isNumber + (if after then 1 else 0) = tokens.countP isOperator + 1 →
        Alternates after depth tokens) := by
  induction orderly with
  | @done after =>
    cases after with
    | false => exact ⟨Nat.zero_le _, nofun⟩
    | true => exact ⟨Nat.le_refl _, fun _ => .done⟩
  | number _ ih =>
    obtain ⟨most, alternates⟩ := ih
    simp only [List.countP_cons, isNumber, isOperator, Bool.false_eq_true, if_true, if_false]
      at most alternates ⊢
    exact ⟨by omega, fun same => .number (alternates (by omega))⟩
  | opening _ ih =>
    obtain ⟨most, alternates⟩ := ih
    simp only [List.countP_cons, isNumber, isOperator, Bool.false_eq_true, if_false] at most alternates ⊢
    exact ⟨most, fun same => .opening (alternates same)⟩
  | @operator depth _ after op _ ih =>
    obtain ⟨most, alternates⟩ := ih
    simp only [List.countP_cons, isNumber, isOperator, Bool.false_eq_true, if_true, if_false]
      at most alternates ⊢
    cases after with
    | false =>
      -- The left operand is missing, so the numbers are too few.
      simp only [Bool.false_eq_true, if_false]
      constructor
      · omega
      · intro same
        omega
    | true =>
      simp only [if_true]
      constructor
      · omega
      · intro same
        exact .operator (alternates (by omega))
  | @closing depth _ after _ ih =>
    obtain ⟨most, alternates⟩ := ih
    simp only [List.countP_cons, isNumber, isOperator, Bool.false_eq_true, if_true, if_false]
      at most alternates ⊢
    cases after with
    | false =>
      -- The parentheses are empty or end with an operator.
      simp only [Bool.false_eq_true, if_false]
      constructor
      · omega
      · intro same
        omega
    | true => exact ⟨most, fun same => .closing (alternates same)⟩

end Token

end Reckon
