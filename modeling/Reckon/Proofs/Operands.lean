import Reckon.Proofs.Acceptance
import Reckon.Proofs.FirstFault
import Reckon.Proofs.Sign

/-! Evaluation of any items in postfix order. It ends at the first operator that lacks an operand or
divides by a zero; without one, the numbers less the operators tell the outcome. -/

namespace Reckon.Postfix

/-- The numbers less the operators of items. -/
def height (items : List Item) : Int :=
  (items.countP Item.isNumber : Int) - items.countP Item.isOperator

/-- What is wrong with an item behind others: an operator has less than two operands, or a division has
two and the right one, the value of the whole expression that ends directly before it, is a zero. -/
inductive Fault (before : List Item) : Item → EvalError → Prop where
  | operand (low : height before < 2) : Fault before (.operator op) (.invalid (.missingOperand op))
  | divisor (enough : 2 ≤ height before) (right : Tree Float) (ends : right.postorder <:+ before)
      (evaluated : right.eval = .ok number) (zero : Binary64.magnitude number = 0) :
      Fault before (.operator .divide) .divisionByZero

theorem height_append (first second : List Item) :
    height (first ++ second) = height first + height second := by
  simp only [height, List.countP_append]
  omega

theorem height_postorder (tree : Tree Float) : height tree.postorder = 1 := by
  induction tree with
  | leaf value => rfl
  | node op left right ihl ihr =>
    have operator : height [.operator op] = -1 := rfl
    rw [Tree.postorder, height_append, height_append, ihl, ihr, operator]
    rfl

theorem append_postorder_node (front : List Item) (op : Operator) (left right : Tree Float) :
    front ++ (Tree.node op left right).postorder =
      (front ++ left.postorder ++ right.postorder) ++ [.operator op] := by
  simp [Tree.postorder]

/-- Only one expression ends at a place. Its last item tells whether it is a number or an operation, and
that operation's right operand ends directly before it. -/
theorem postorder_inj {tree other : Tree Float} {front back : List Item}
    (same : front ++ tree.postorder = back ++ other.postorder) : front = back ∧ tree = other := by
  induction tree generalizing other front back with
  | leaf value =>
    cases other with
    | leaf value' =>
      obtain ⟨fronts, values⟩ := List.append_inj' same rfl
      cases values
      exact ⟨fronts, rfl⟩
    | node op left right =>
      rw [append_postorder_node] at same
      cases (List.append_inj' same rfl).2
  | node op left right ihl ihr =>
    rw [append_postorder_node] at same
    cases other with
    | leaf value => cases (List.append_inj' same rfl).2
    | node op' left' right' =>
      rw [append_postorder_node] at same
      obtain ⟨operands, operators⟩ := List.append_inj' same rfl
      cases operators
      obtain ⟨lefts, rfl⟩ := ihr operands
      obtain ⟨fronts, rfl⟩ := ihl lefts
      exact ⟨fronts, rfl⟩

/-- One item upon a stack of values, the latest first. -/
def push : List Float → Item → Except EvalError (List Float)
  | values, .number value => .ok (value :: values)
  | right :: left :: values, .operator op => (· :: values) <$> op.apply left right
  | _, .operator op => .error (.invalid (.missingOperand op))

theorem push_few {values : List Float} (few : values.length < 2) (op : Operator) :
    push values (.operator op) = .error (.invalid (.missingOperand op)) := by
  match values with
  | [] => rfl
  | [_] => rfl
  | _ :: _ :: _ => simp at few

theorem exists_of_two_le {values : List Float} (enough : 2 ≤ values.length) :
    ∃ right left others, values = right :: left :: others := by
  match values with
  | [] => simp at enough
  | [_] => simp at enough
  | right :: left :: others => exact ⟨right, left, others, rfl⟩

/-- What the values that are left come to. -/
def result : List Float → Except EvalError Float
  | [] => .error (.invalid .nothing)
  | [value] => .ok value
  | _ :: _ :: others => .error (.invalid (.missingOperators (others.length + 1)))

theorem run_eq_foldlM (values : List Float) (items : List Item) :
    run values items = items.foldlM push values >>= result := by
  fun_induction run values items with
  | case1 => rfl
  | case2 => rfl
  | case3 => rfl
  | case4 values value rest ih => exact ih
  | case5 right left values op rest ih =>
    rw [List.foldlM_cons, push]
    cases op.apply left right with
    | error error => rfl
    | ok value => exact ih value
  | case6 values op rest fewer =>
    rw [List.foldlM_cons, push]
    · rfl
    · exact fewer

/-- Items that have left these values: one whole expression after another, each with its value. -/
inductive Leaves : List Item → List Float → Prop where
  | nothing : Leaves [] []
  | expression (below : Leaves before values) (tree : Tree Float) (evaluated : tree.eval = .ok number) :
      Leaves (before ++ tree.postorder) (number :: values)

theorem Leaves.height_eq (leaves : Leaves items values) : height items = values.length := by
  induction leaves with
  | nothing => rfl
  | expression below tree evaluated ih =>
    rw [height_append, height_postorder, ih, List.length_cons]
    rfl

theorem leaves_push (leaves : Leaves before values) (pushed : push values item = .ok after) :
    Leaves (before ++ [item]) after := by
  cases item with
  | number value =>
    cases pushed
    exact .expression leaves (.leaf value) rfl
  | operator op =>
    cases leaves with
    | nothing => cases pushed
    | expression below right rightValue =>
      cases below with
      | nothing => cases pushed
      | expression below left leftValue =>
        obtain ⟨result, applied, rfl⟩ := exists_of_map_ok pushed
        have whole : (Tree.node op left right).eval = .ok result := by
          rw [Tree.eval, leftValue, rightValue]
          exact applied
        have joined := Leaves.expression below (.node op left right) whole
        simpa [Tree.postorder] using joined

theorem fault_of_push (leaves : Leaves before values) (refused : push values item = .error error) :
    Fault before item error := by
  have count := leaves.height_eq
  cases item with
  | number value => cases refused
  | operator op =>
    by_cases few : values.length < 2
    · rw [push_few few] at refused
      cases refused
      exact .operand (by omega)
    · have enough : 2 ≤ height before := by omega
      obtain ⟨right, left, others, rfl⟩ := exists_of_two_le (Nat.le_of_not_lt few)
      obtain ⟨rfl, rfl, zero⟩ := Tree.apply_error_iff.mp (error_of_map refused)
      cases leaves with
      | expression below tree evaluated =>
        exact .divisor enough tree ⟨_, rfl⟩ evaluated (Binary64.beq_zero_iff.mp zero)

theorem push_of_fault (leaves : Leaves before values) (fault : Fault before item error) :
    push values item = .error error := by
  have count := leaves.height_eq
  cases fault with
  | operand low => exact push_few (by omega) _
  | divisor enough right ends evaluated zero =>
    have two : 2 ≤ values.length := by omega
    obtain ⟨value, left, others, rfl⟩ := exists_of_two_le two
    cases leaves with
    | expression below tree found =>
      -- Both expressions end before the division, so its right operand is the latest value.
      obtain ⟨front, same⟩ := ends
      obtain ⟨_, rfl⟩ := postorder_inj same
      obtain rfl := Except.ok.inj (found.symm.trans evaluated)
      have refused : Operator.divide.apply left value = .error .divisionByZero :=
        Tree.apply_error_iff.mpr ⟨rfl, rfl, Binary64.beq_zero_iff.mpr zero⟩
      rw [push, refused]
      rfl

/-- The stack refuses exactly the items at fault. -/
theorem detects_push : Detects push Fault Leaves where
  next := leaves_push
  error_iff leaves := ⟨fault_of_push leaves, push_of_fault leaves⟩

theorem value_eq_foldlM (items : List Item) : value items = items.foldlM push [] >>= result :=
  run_eq_foldlM [] items

theorem value_of_firstFault (first : FirstFault Fault items error) : value items = .error error := by
  rw [value_eq_foldlM, (detects_push.foldlM_error_iff .nothing).mpr first]
  rfl

theorem exists_leaves (faultless : Faultless Fault items) :
    ∃ values, Leaves items values ∧ value items = result values := by
  obtain ⟨values, read, leaves⟩ := detects_push.exists_state .nothing faultless
  refine ⟨values, leaves, ?_⟩
  rw [value_eq_foldlM, read]
  rfl

theorem Leaves.eq_nil (leaves : Leaves items []) : items = [] := by
  cases leaves
  rfl

theorem Leaves.eq_postorder (leaves : Leaves items [number]) :
    ∃ tree : Tree Float, tree.postorder = items := by
  cases leaves with
  | expression below tree evaluated =>
    cases below.eq_nil
    exact ⟨tree, rfl⟩

/-- Items without a fault are one whole expression exactly if they leave one value, and then there is
only one such expression. -/
theorem height_eq_one_iff (faultless : Faultless Fault items) :
    height items = 1 ↔ ∃! tree : Tree Float, tree.postorder = items := by
  constructor
  · intro one
    obtain ⟨values, leaves, _⟩ := exists_leaves faultless
    have count := leaves.height_eq
    obtain ⟨number, rfl⟩ := List.length_eq_one_iff.mp (show values.length = 1 by omega)
    obtain ⟨tree, rfl⟩ := leaves.eq_postorder
    refine ⟨tree, rfl, fun other same => ?_⟩
    exact (postorder_inj (congrArg ([] ++ ·) same)).2
  · rintro ⟨tree, rfl, _⟩
    exact height_postorder tree

/-- A whole expression without a fault has a value. -/
theorem exists_value (tree : Tree Float) (faultless : Faultless Fault tree.postorder) :
    ∃ number, tree.eval = .ok number := by
  obtain ⟨values, leaves, outcome⟩ := exists_leaves faultless
  have count := leaves.height_eq
  rw [height_postorder] at count
  obtain ⟨number, rfl⟩ := List.length_eq_one_iff.mp (show values.length = 1 by omega)
  rw [Tree.value_postorder] at outcome
  exact ⟨number, outcome⟩

/-- Evaluation is decided by the first item at fault alone. Without one the height tells the outcome:
nothing to evaluate, the value of the only expression that the items are, or values left over. -/
theorem value_decided (items : List Item) :
    (∀ error, FirstFault Fault items error → value items = .error error) ∧
    (Faultless Fault items →
      0 ≤ height items ∧
      (height items = 0 ↔ items = []) ∧
      (height items = 0 → value items = .error (.invalid .nothing)) ∧
      (2 ≤ height items →
        value items = .error (.invalid (.missingOperators (height items - 1).toNat))) ∧
      (height items = 1 ↔ ∃! tree : Tree Float, tree.postorder = items) ∧
      ∀ tree : Tree Float, tree.postorder = items →
        ∃ number, tree.eval = .ok number ∧ value items = .ok number) ∧
    (∀ op : Operator, (ExpressionFault.missingOperand op).message =
      "operator '" ++ op.symbol.toString ++ "' is missing an operand") ∧
    ExpressionFault.nothing.message = "nothing to evaluate" ∧
    ∀ count : Nat, (ExpressionFault.missingOperators count).message =
      count.repr ++ " operands are missing an operator" := by
  refine ⟨fun error first => value_of_firstFault first, fun faultless => ?_, fun _ => rfl, rfl,
    fun _ => rfl⟩
  obtain ⟨values, leaves, outcome⟩ := exists_leaves faultless
  have count := leaves.height_eq
  refine ⟨by omega, ?_, ?_, ?_, height_eq_one_iff faultless, ?_⟩
  · constructor
    · intro none
      obtain rfl := List.length_eq_zero_iff.mp (show values.length = 0 by omega)
      exact leaves.eq_nil
    · rintro rfl
      rfl
  · intro none
    obtain rfl := List.length_eq_zero_iff.mp (show values.length = 0 by omega)
    exact outcome
  · intro several
    obtain ⟨right, left, others, rfl⟩ := exists_of_two_le (show 2 ≤ values.length by omega)
    have surplus : (height items - 1).toNat = others.length + 1 := by
      rw [count, List.length_cons, List.length_cons]
      omega
    rw [outcome, surplus]
    rfl
  · rintro tree rfl
    obtain ⟨number, evaluated⟩ := exists_value tree faultless
    exact ⟨number, evaluated, (Tree.value_postorder tree).trans evaluated⟩

/-- A division by zero ends the evaluation before a sum that lacks an operand. -/
theorem value_decided_division :
    FirstFault Fault [.number 1, .number 0, .operator .divide, .operator .plus] .divisionByZero ∧
      value [.number 1, .number 0, .operator .divide, .operator .plus] = .error .divisionByZero := by
  have numbers : Faultless Fault [.number 1, .number 0] :=
    faultless_concat_iff.mpr ⟨faultless_concat_iff.mpr ⟨faultless_nil, nofun⟩, nofun⟩
  have divides : Fault [.number 1, .number 0] (.operator .divide) .divisionByZero :=
    .divisor (by decide) (.leaf 0) ⟨[.number 1], rfl⟩ rfl (by decide +kernel)
  have first := FirstFault.behind numbers divides [.operator .plus]
  exact ⟨first, (value_decided _).1 _ first⟩

end Reckon.Postfix
