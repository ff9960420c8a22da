import Mathlib.Data.Multiset.AddSub
import Mathlib.Data.Multiset.MapFold
import Reckon.Proofs.Conversion
import Reckon.Proofs.Except

/-! The conversion to postfix order keeps all numbers and operators and adds none. Numbers stay in their
order, and each operator moves behind numbers only. -/

namespace Reckon

namespace Item

def number? : Item → Option Float
  | .number value => some value
  | .operator _ => none

def operator? : Item → Option Operator
  | .number _ => none
  | .operator op => some op

/-- The operators of items, each with all numbers that stand before it. Before the first item stand
those that were seen. -/
def ranked : List Float → List Item → List (Operator × List Float)
  | _, [] => []
  | seen, .number value :: rest => ranked (seen ++ [value]) rest
  | seen, .operator op :: rest => (op, seen) :: ranked seen rest

/-- The second is the same operator and stands behind all numbers that the first stands behind. -/
def Later (first second : Operator × List Float) : Prop :=
  first.1 = second.1 ∧ first.2 <+: second.2

instance : IsTrans (Operator × List Float) Later where
  trans := fun _ _ _ first next => ⟨first.1.trans next.1, first.2.trans next.2⟩

theorem Later.refl (operator : Operator × List Float) : Later operator operator :=
  ⟨rfl, List.prefix_rfl⟩

theorem numbers_operators (ops : List Operator) : (ops.map operator).filterMap number? = [] := by
  induction ops with
  | nil => rfl
  | cons op rest ih => exact ih

theorem ranked_append (seen : List Float) (first second : List Item) :
    ranked seen (first ++ second) = ranked seen first ++ ranked (seen ++ first.filterMap number?) second := by
  induction first generalizing seen with
  | nil => simp [ranked]
  | cons item rest ih =>
    cases item with
    | number value => simp [ranked, ih, number?]
    | operator op => simp [ranked, ih, List.filterMap_cons, number?]

theorem ranked_operators (seen : List Float) (ops : List Operator) :
    ranked seen (ops.map operator) = ops.map (·, seen) := by
  induction ops with
  | nil => rfl
  | cons op rest ih => exact congrArg ((op, seen) :: ·) ih

theorem ranked_fst (seen : List Float) (items : List Item) :
    (ranked seen items).map Prod.fst = items.filterMap operator? := by
  induction items generalizing seen with
  | nil => rfl
  | cons item rest ih =>
    cases item with
    | number value => exact ih _
    | operator op => exact congrArg (op :: ·) (ih _)

/-- The operators that stand last get behind a number that is put before them. -/
theorem later_number (items : List Item) (value : Float) (ops : List Operator) :
    Multiset.Rel Later (Multiset.ofList (ranked [] (items ++ ops.map operator)))
      (Multiset.ofList (ranked [] (items ++ .number value :: ops.map operator))) := by
  have behind : Multiset.Rel Later (Multiset.ofList (ops.map (·, items.filterMap number?)))
      (Multiset.ofList (ops.map (·, items.filterMap number? ++ [value]))) := by
    induction ops with
    | nil => exact .zero
    | cons op rest ih => exact .cons ⟨rfl, List.prefix_append _ _⟩ ih
  rw [ranked_append, ranked_append, ranked, ranked_operators, ranked_operators, List.nil_append,
    ← Multiset.coe_add, ← Multiset.coe_add]
  exact (Multiset.rel_refl_of_refl_on fun operator _ => Later.refl operator).add behind

/-- An operator among those that stand last stands behind all numbers. -/
theorem ranked_operator (items : List Item) (op : Operator) (ops others : List Operator) :
    (ranked [] (items ++ (ops ++ op :: others).map operator)).Perm
      (ranked [] (items ++ (ops ++ others).map operator) ++ [(op, items.filterMap number?)]) := by
  rw [ranked_append, ranked_append, ranked_operators, ranked_operators, List.nil_append,
    List.append_assoc, List.map_append, List.map_append, List.map_cons, List.append_assoc]
  refine .append_left _ (.append_left _ ?_)
  exact (List.perm_append_singleton _ _).symm

end Item

namespace Token

/-- What a token becomes. Parentheses leave no item. -/
def item? : Token → Option Item
  | .number value => some (.number value)
  | .operator op => some (.operator op)
  | _ => none

def isParenthesis : Token → Bool
  | .opening | .closing => true
  | _ => false

/-- The items of infix tokens, still in infix order. -/
def items (tokens : List Token) : List Item := tokens.filterMap item?

theorem items_concat (tokens : List Token) (token : Token) :
    items (tokens ++ [token]) = items tokens ++ items [token] :=
  List.filterMap_append

end Token

namespace Postfix

open Item (ranked Later)

/-- Items that have the numbers of tokens in their order, each operator once and behind all numbers
that stand before its token, and nothing else. -/
structure Conserves (tokens : List Token) (items : List Item) : Prop where
  numbers : items.filterMap Item.number? = (Token.items tokens).filterMap Item.number?
  operators : Multiset.Rel Later (Multiset.ofList (ranked [] (Token.items tokens)))
    (Multiset.ofList (ranked [] items))
  length : items.length + tokens.countP Token.isParenthesis = tokens.length

namespace Conserves

theorem nothing : Conserves [] [] := ⟨rfl, .zero, rfl⟩

theorem number {ops : List Operator} (conserves : Conserves tokens (items ++ ops.map .operator))
    (value : Float) :
    Conserves (tokens ++ [.number value]) (items ++ .number value :: ops.map .operator) where
  numbers := by
    have same := conserves.numbers
    rw [List.filterMap_append, Item.numbers_operators, List.append_nil] at same
    rw [List.filterMap_append, same, Token.items_concat, List.filterMap_append]
    exact congrArg (_ ++ value :: ·) (Item.numbers_operators ops)
  operators := by
    rw [Token.items_concat, Item.ranked_append]
    have later := Multiset.Rel.trans Later conserves.operators (Item.later_number items value ops)
    simpa [Token.items, Token.item?, ranked] using later
  length := by
    have total := conserves.length
    simp only [List.length_append, List.length_cons, List.length_nil, List.countP_append,
      List.countP_cons, List.countP_nil, Token.isParenthesis, Bool.false_eq_true, if_false] at total ⊢
    omega

theorem operator {ops others : List Operator}
    (conserves : Conserves tokens (items ++ (ops ++ others).map .operator)) (op : Operator) :
    Conserves (tokens ++ [.operator op]) (items ++ (ops ++ op :: others).map .operator) where
  numbers := by
    have same := conserves.numbers
    rw [List.filterMap_append, Item.numbers_operators] at same ⊢
    rw [same, Token.items_concat, List.filterMap_append]
    exact (List.append_nil _).symm
  operators := by
    have same := conserves.numbers
    rw [List.filterMap_append, Item.numbers_operators, List.append_nil] at same
    have moved := Multiset.coe_eq_coe.mpr (Item.ranked_operator items op ops others)
    rw [moved, Token.items_concat, Item.ranked_append, ← Multiset.coe_add, ← Multiset.coe_add, same]
    exact conserves.operators.add (Multiset.rel_refl_of_refl_on fun operator _ => Later.refl operator)
  length := by
    have total := conserves.length
    simp only [List.length_append, List.length_map, List.length_cons, List.length_nil,
      List.countP_append, List.countP_cons, List.countP_nil, Token.isParenthesis, Bool.false_eq_true,
      if_false] at total ⊢
    omega

theorem parenthesis (conserves : Conserves tokens items) (unwritten : token.isParenthesis = true) :
    Conserves (tokens ++ [token]) items := by
  have same : Token.items (tokens ++ [token]) = Token.items tokens := by
    rw [Token.items_concat]
    cases token with
    | opening => exact List.append_nil _
    | closing => exact List.append_nil _
    | _ => cases unwritten
  refine ⟨?_, ?_, ?_⟩
  · rw [same]
    exact conserves.numbers
  · rw [same]
    exact conserves.operators
  · have total := conserves.length
    simp only [List.length_append, List.length_cons, List.length_nil, List.countP_append,
      List.countP_cons, List.countP_nil, unwritten, if_true]
    omega

theorem perm_operators (conserves : Conserves tokens items) :
    (items.filterMap Item.operator?).Perm ((Token.items tokens).filterMap Item.operator?) := by
  have same : Multiset.Rel (· = ·) ((Multiset.ofList (ranked [] (Token.items tokens))).map Prod.fst)
      ((Multiset.ofList (ranked [] items)).map Prod.fst) :=
    Multiset.rel_map.mpr (conserves.operators.mono fun _ _ _ _ later => later.1)
  rw [Multiset.rel_eq, Multiset.map_coe, Multiset.map_coe, Item.ranked_fst, Item.ranked_fst] at same
  exact (Multiset.coe_eq_coe.mp same).symm

end Conserves

namespace Progress

/-- The items of a conversion, if it ended here. -/
def all (state : Progress) : List Item :=
  state.written ++ (state.waiting ++ state.outer.flatten).map .operator

/-- One token: a number is written before the operators that wait, an operator joins them, and
parentheses change only when they are written. -/
theorem conserves_read {power : Grouping} {state after : Progress}
    (conserves : Conserves before state.all) (taken : state.read power token = .ok after) :
    Conserves (before ++ [token]) after.all := by
  obtain ⟨waiting, outer, written⟩ := state
  unfold all at conserves
  cases token with
  | number value =>
    cases taken
    simpa [all] using conserves.number value
  | operator op =>
    cases taken
    have split := List.takeWhile_append_dropWhile (p := (·.precedes power op)) (l := waiting)
    rw [← split, List.append_assoc] at conserves
    simpa [all] using conserves.operator op
  | opening =>
    cases taken
    have kept : Conserves (before ++ [.opening]) _ := conserves.parenthesis rfl
    simpa [all] using kept
  | closing =>
    cases outer with
    | nil => cases taken
    | cons around outer =>
      cases taken
      have kept : Conserves (before ++ [.closing]) _ := conserves.parenthesis rfl
      simpa [all] using kept
  | blank => cases outer <;> cases taken

theorem conserves_foldlM {power : Grouping} {state after : Progress}
    (conserves : Conserves before state.all) (taken : tokens.foldlM (read power) state = .ok after) :
    Conserves (before ++ tokens) after.all := by
  induction tokens generalizing before state with
  | nil =>
    cases taken
    simpa using conserves
  | cons token rest ih =>
    rw [List.foldlM_cons] at taken
    obtain ⟨next, first, later⟩ := exists_of_bind_ok taken
    simpa using ih (conserves_read conserves first) later

theorem all_of_items {state : Progress} {written : List Item} (finished : state.items = .ok written) :
    state.all = written := by
  obtain ⟨waiting, outer, written⟩ := state
  cases outer with
  | nil =>
    cases finished
    simp [all]
  | cons around outer => cases finished

end Progress

/-- A conversion keeps what it is given: the numbers in their order, the operators in some order, each
behind all numbers that stand before its token, and an item for every token but the parentheses. -/
theorem ofTokens_conserves (converted : ofTokens power tokens = .ok items) :
    items.filterMap Item.number? = (Token.items tokens).filterMap Item.number? ∧
    (items.filterMap Item.operator?).Perm ((Token.items tokens).filterMap Item.operator?) ∧
    Multiset.Rel Later (Multiset.ofList (ranked [] (Token.items tokens)))
      (Multiset.ofList (ranked [] items)) ∧
    items.length + tokens.countP Token.isParenthesis = tokens.length := by
  rw [Progress.ofTokens_eq_foldlM] at converted
  obtain ⟨state, taken, finished⟩ := exists_of_bind_ok converted
  have conserves := Progress.conserves_foldlM .nothing taken
  rw [Progress.all_of_items finished, List.nil_append] at conserves
  exact ⟨conserves.numbers, conserves.perm_operators, conserves.operators, conserves.length⟩

/-- The same for tokens that are no infix expression: the power gets behind the last number, the plus
stays before it. -/
theorem ofTokens_conserves_malformed :
    let tokens : List Token := [.operator .power, .opening, .number 1, .operator .plus, .closing, .number 2]
    let items : List Item := [.number 1, .operator .plus, .number 2, .operator .power]
    ofTokens .left tokens = .ok items ∧
      items.filterMap Item.number? = (Token.items tokens).filterMap Item.number? ∧
      (items.filterMap Item.operator?).Perm ((Token.items tokens).filterMap Item.operator?) ∧
      Multiset.Rel Later (Multiset.ofList (ranked [] (Token.items tokens)))
        (Multiset.ofList (ranked [] items)) ∧
      items.length + tokens.countP Token.isParenthesis = tokens.length := by
  intro tokens items
  have converted : ofTokens .left tokens = .ok items := rfl
  exact ⟨converted, ofTokens_conserves converted⟩

end Postfix

end Reckon
