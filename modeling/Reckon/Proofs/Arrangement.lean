import Reckon.Proofs.Phrase

/-! Bringing the tokens of a phrase into postfix order gives the postorder of its tree, whatever
surrounds the phrase. -/

namespace Reckon

namespace Operator

theorem grouping_congr {a b : Operator} (same : a.tightness = b.tightness) (power : Grouping) :
    a.grouping power = b.grouping power := by
  cases a with
  | power =>
    cases b with
    | power => rfl
    | _ => cases same
  | _ =>
    cases b with
    | power => cases same
    | _ => rfl

theorem precedes_of_lt {waiting next : Operator} (looser : next.tightness < waiting.tightness)
    (power : Grouping) : waiting.precedes power next = true := by
  unfold precedes
  split
  · exact decide_eq_true (Nat.le_of_lt looser)
  · exact decide_eq_true looser

theorem not_precedes_of_lt {waiting next : Operator} (tighter : waiting.tightness < next.tightness)
    (power : Grouping) : waiting.precedes power next = false := by
  unfold precedes
  split
  · exact decide_eq_false (Nat.not_le_of_gt tighter)
  · exact decide_eq_false (Nat.lt_asymm tighter)

/-- Of two equally tight operators the first precedes when they group from the left. -/
theorem precedes_of_eq {waiting next : Operator} (same : waiting.tightness = next.tightness)
    (power : Grouping) : waiting.precedes power next = decide (next.grouping power = .left) := by
  unfold precedes
  split
  · rename_i left
    simp [left, same]
  · rename_i right
    simp [right, same]

end Operator

namespace Postfix

/-- Items written before the items that follow, unless those are refused. -/
def emit (items : List Item) (rest : Except EvalError (List Item)) : Except EvalError (List Item) :=
  (items ++ ·) <$> rest

theorem emit_ok (items rest : List Item) : emit items (.ok rest) = .ok (items ++ rest) := rfl

theorem emit_error (items : List Item) (error : EvalError) :
    emit items (.error error) = .error error := rfl

theorem emit_nil (rest : Except EvalError (List Item)) : emit [] rest = rest := by
  cases rest <;> rfl

theorem emit_emit (first next : List Item) (rest : Except EvalError (List Item)) :
    emit first (emit next rest) = emit (first ++ next) rest := by
  cases rest with
  | error error => rfl
  | ok items => exact congrArg Except.ok (List.append_assoc first next items).symm

variable {power : Grouping} {waiting : List Operator} {outer : List (List Operator)}
  {rest : List Token}

theorem arrange_number (value : Float) :
    arrange power waiting outer (.number value :: rest) =
      emit [.number value] (arrange power waiting outer rest) := by
  rw [arrange]
  rfl

theorem arrange_opening :
    arrange power waiting outer (.opening :: rest) = arrange power [] (waiting :: outer) rest := by
  rw [arrange]

theorem arrange_closing (around : List Operator) :
    arrange power waiting (around :: outer) (.closing :: rest) =
      emit (waiting.map .operator) (arrange power around outer rest) := by
  rw [arrange]
  rfl

/-- An operator that no waiting one precedes joins those that wait. -/
theorem arrange_operator {op : Operator} (behind : ∀ top ∈ waiting.head?, top.precedes power op = false) :
    arrange power waiting outer (.operator op :: rest) =
      arrange power (op :: waiting) outer rest := by
  have kept : waiting.takeWhile (·.precedes power op) = [] ∧
      waiting.dropWhile (·.precedes power op) = waiting := by
    cases waiting with
    | nil => exact ⟨rfl, rfl⟩
    | cons top others => simp [behind top rfl]
  rw [arrange, kept.1, kept.2]
  exact emit_nil _

/-- The tokens that follow write the operators of this tightness or more out before anything
else. -/
def Flushes (power : Grouping) (level : Nat) (rest : List Token) : Prop :=
  ∀ pending waiting outer, (∀ op ∈ pending, level ≤ op.tightness) →
    arrange power (pending ++ waiting) outer rest =
      emit (pending.map .operator) (arrange power waiting outer rest)

theorem Flushes.mono {level higher : Nat} (flushes : Flushes power level rest)
    (below : level ≤ higher) : Flushes power higher rest :=
  fun pending waiting outer tight =>
    flushes pending waiting outer fun op member => Nat.le_trans below (tight op member)

theorem flushes_nil (level : Nat) : Flushes power level [] := by
  intro pending waiting outer _
  cases outer with
  | nil => simp [arrange, emit_ok]
  | cons around outer => simp [arrange, emit_error]

theorem flushes_closing (level : Nat) : Flushes power level (.closing :: rest) := by
  intro pending waiting outer _
  cases outer with
  | nil => simp [arrange, emit_error]
  | cons around outer => simp [arrange_closing, emit_emit]

/-- Waiting operators that all precede the next one are written out. -/
theorem arrange_flush {op : Operator} {pending : List Operator}
    (precede : ∀ top ∈ pending, top.precedes power op = true) :
    arrange power (pending ++ waiting) outer (.operator op :: rest) =
      emit (pending.map .operator) (arrange power waiting outer (.operator op :: rest)) := by
  rw [arrange, arrange, List.takeWhile_append_of_pos precede, List.dropWhile_append_of_pos precede,
    List.map_append]
  exact (emit_emit _ _ _).symm

theorem flushes_operator {op : Operator} {level : Nat} (looser : op.tightness < level) :
    Flushes power level (.operator op :: rest) := by
  intro pending waiting outer tight
  exact arrange_flush fun top member =>
    Operator.precedes_of_lt (Nat.lt_of_lt_of_le looser (tight top member)) power

/-- No operator of this tightness or more is preceded by one that waits. -/
def Loose (power : Grouping) (level : Nat) (waiting : List Operator) : Prop :=
  ∀ op : Operator, level ≤ op.tightness → ∀ top ∈ waiting.head?, top.precedes power op = false

theorem loose_nil (level : Nat) : Loose power level [] := by
  intro op _ top member
  cases member

theorem loose_cons {op : Operator} {level : Nat} (tight : op.tightness < level) :
    Loose power level (op :: waiting) := by
  intro next above top member
  cases Option.mem_some.mp member
  exact Operator.not_precedes_of_lt (Nat.lt_of_lt_of_le tight above) power

theorem Loose.append {before : List Operator} {level : Nat} (loose : Loose power level waiting)
    (same : ∀ op ∈ before, op.tightness = level) : Loose power (level + 1) (before ++ waiting) := by
  cases before with
  | nil => exact fun op above => loose op (Nat.le_of_succ_le above)
  | cons op others => exact loose_cons (Nat.lt_succ_of_le (Nat.le_of_eq (same op (by simp))))

end Postfix

namespace Tree

/-- What a chain writes after its first part, when operators of the chain already wait. -/
def steps (power : Grouping) (before : List Operator) : List (Operator × Tree Float) → List Item
  | [] => before.map .operator
  | (op, next) :: rest =>
    match op.grouping power with
    | .left => before.map .operator ++ next.postorder ++ steps power [op] rest
    | .right => next.postorder ++ steps power (op :: before) rest

/-- Operators that wait stand first where the chain groups from the left, and last otherwise. -/
theorem steps_before {power : Grouping} {level : Nat} {others : List (Operator × Tree Float)}
    (same : ∀ link ∈ others, link.1.tightness = level) {op : Operator} (tight : op.tightness = level) :
    ∀ before, steps power (before ++ [op]) others =
      match op.grouping power with
      | .left => (before ++ [op]).map .operator ++ steps power [] others
      | .right => steps power before others ++ [.operator op] := by
  induction others with
  | nil => intro before; split <;> simp [steps]
  | cons link rest ih =>
    intro before
    obtain ⟨next, tree⟩ := link
    have sameRest : ∀ link ∈ rest, link.1.tightness = level :=
      fun link member => same link (by simp [member])
    have grouping : next.grouping power = op.grouping power :=
      Operator.grouping_congr ((same (next, tree) (by simp)).trans tight.symm) power
    cases side : op.grouping power with
    | left => simp [steps, grouping, side]
    | right =>
      have later := ih sameRest (next :: before)
      simp only [side] at later
      simp [steps, grouping, side, ← later]

/-- A chain's postorder is that of its first part and what the other parts write after it. -/
theorem postorder_chain {power : Grouping} {level : Nat} {others : List (Operator × Tree Float)}
    (same : ∀ link ∈ others, link.1.tightness = level) (first : Tree Float) :
    (chain power first others).postorder = first.postorder ++ steps power [] others := by
  induction others generalizing first with
  | nil => simp [chain, steps]
  | cons link rest ih =>
    obtain ⟨op, next⟩ := link
    have sameRest : ∀ link ∈ rest, link.1.tightness = level :=
      fun link member => same link (by simp [member])
    have waiting : steps power [op] rest = _ := steps_before sameRest (same (op, next) (by simp)) []
    cases side : op.grouping power with
    | left =>
      simp only [side] at waiting
      simp [chain, steps, side, ih sameRest, postorder, waiting]
    | right =>
      simp only [side] at waiting
      simp [chain, steps, side, ih sameRest, postorder, waiting]

end Tree

namespace Phrase

theorem links_tightness (power : Grouping) (e : Phrase α k) :
    ∀ link ∈ (e.links power).2, link.1.tightness = k := by
  induction e with
  | leaf a => simp [links]
  | group inside _ => simp [links]
  | single part _ => simp [links]
  | chain part op level rest _ ih => simpa [links, level] using ih

theorem postorder_tree (power : Grouping) (e : Phrase Float k) :
    (e.tree power).postorder =
      (e.links power).1.postorder ++ Tree.steps power [] (e.links power).2 :=
  Tree.postorder_chain (e.links_tightness power) _

open Postfix in
/-- The tokens of a phrase write out the postorder of its tree and then any operators of its level
that were waiting, and leave what comes after as it was. Of the operators that wait further out
none may precede the phrase's own; the tokens after it must write the phrase's own out. -/
theorem arrange_tokens {power : Grouping} (e : Phrase Float k) {before waiting : List Operator}
    {outer : List (List Operator)} {rest : List Token} (same : ∀ op ∈ before, op.tightness = k)
    (loose : Loose power k waiting) (flushes : Flushes power k rest) :
    arrange power (before ++ waiting) outer (e.tokens ++ rest) =
      emit ((e.links power).1.postorder ++ Tree.steps power before (e.links power).2)
        (arrange power waiting outer rest) := by
  induction e generalizing before waiting outer rest with
  | leaf value =>
    have flushed := flushes before waiting outer fun op member => Nat.le_of_eq (same op member).symm
    simp only [tokens_leaf, List.singleton_append, arrange_number, flushed, emit_emit, links,
      Tree.postorder, Tree.steps]
  | group inside ih =>
    have flushed := flushes before waiting outer fun op member => Nat.le_of_eq (same op member).symm
    have whole : arrange power [] ((before ++ waiting) :: outer) (inside.tokens ++ .closing :: rest) = _ :=
      ih (List.forall_mem_nil _) (loose_nil 1) (flushes_closing 1)
    rw [← postorder_tree] at whole
    simp only [tokens_group, List.cons_append, List.append_assoc, List.nil_append, arrange_opening,
      whole, arrange_closing, flushed, emit_emit, links, Tree.steps]
    rfl
  | single part ih =>
    have flushed := flushes before waiting outer fun op member => Nat.le_of_eq (same op member).symm
    have whole : arrange power ([] ++ (before ++ waiting)) outer (part.tokens ++ rest) = _ :=
      ih (List.forall_mem_nil _) (loose.append same) (flushes.mono (Nat.le_succ _))
    rw [List.nil_append, ← postorder_tree] at whole
    simp only [tokens_single, whole, flushed, emit_emit, links, Tree.steps]
    rfl
  | chain part op level more ihPart ihMore =>
    have first : arrange power ([] ++ (before ++ waiting)) outer
        (part.tokens ++ .operator op :: (more.tokens ++ rest)) = _ :=
      ihPart (List.forall_mem_nil _) (loose.append same)
        (flushes_operator (Nat.lt_succ_of_le (Nat.le_of_eq level)))
    rw [List.nil_append, ← postorder_tree] at first
    rw [tokens_chain, List.append_assoc, List.cons_append, first]
    cases side : op.grouping power with
    | left =>
      -- What waits of the chain is written out, so only the new operator waits for the rest.
      have flushed : arrange power (before ++ waiting) outer (.operator op :: (more.tokens ++ rest)) = _ :=
        arrange_flush fun top member => by
          rw [Operator.precedes_of_eq ((same top member).trans level.symm), side]
          rfl
      have later : arrange power (op :: waiting) outer (more.tokens ++ rest) = _ :=
        ihMore (List.forall_mem_singleton.mpr level) loose flushes
      rw [flushed, arrange_operator (loose op (Nat.le_of_eq level.symm)), later]
      simp only [emit_emit, links, Tree.steps, side, List.append_assoc]
      rfl
    | right =>
      have behind : ∀ top ∈ (before ++ waiting).head?, top.precedes power op = false := by
        cases before with
        | nil => exact loose op (Nat.le_of_eq level.symm)
        | cons top others =>
          intro _ member
          cases Option.mem_some.mp member
          rw [Operator.precedes_of_eq ((same top (by simp)).trans level.symm), side]
          rfl
      have later : arrange power (op :: (before ++ waiting)) outer (more.tokens ++ rest) = _ :=
        ihMore (List.forall_mem_cons.mpr ⟨level, same⟩) loose flushes
      rw [arrange_operator behind, later]
      simp only [emit_emit, links, Tree.steps, side]
      rfl

end Phrase

/-- The postfix order of an infix expression is the postorder of its tree. -/
theorem Postfix.ofTokens_tokens (power : Grouping) (e : Infix Float) :
    ofTokens power e.tokens = .ok (e.tree power).postorder := by
  have whole : arrange power [] [] (e.tokens ++ []) = _ :=
    e.arrange_tokens (List.forall_mem_nil _) (loose_nil 1) (flushes_nil 1)
  simpa [Phrase.postorder_tree, ofTokens, arrange, emit_ok] using whole

/-- Infix tokens evaluate to the value of their tree. -/
theorem Postfix.value_tokens (power : Grouping) (e : Infix Float) :
    ofTokens power e.tokens >>= value = (e.tree power).eval := by
  rw [ofTokens_tokens]
  exact Tree.value_postorder _

end Reckon
