import Mathlib.Data.List.Forall2
import Reckon.Evaluation
import Reckon.Proofs.Conversion

/-! The grouping of powers matters to chains of them only. Where any two powers of a group have another
operator of that group between them, a power never meets one that still waits, and tokens are converted
alike under both groupings. -/

namespace Reckon

namespace Operator

/-- Only of two powers does the grouping tell which one precedes. -/
theorem precedes_left_eq_right {next : Operator} (other : next ≠ .power) (waiting : Operator) :
    waiting.precedes .left next = waiting.precedes .right next := by
  cases next with
  | power => exact absurd rfl other
  | _ => rfl

theorem precedes_power {waiting : Operator} (other : waiting ≠ .power) (power : Grouping) :
    waiting.precedes power .power = false := by
  apply not_precedes_of_lt
  cases waiting with
  | power => exact absurd rfl other
  | _ => decide

/-- A power that waits precedes every other operator. -/
theorem power_precedes {next : Operator} (other : next ≠ .power) (power : Grouping) :
    Operator.power.precedes power next = true := by
  apply precedes_of_lt
  cases next with
  | power => exact absurd rfl other
  | _ => decide

end Operator

namespace Token

/-- The places of the parentheses that are open before a place, the innermost first. -/
def openings (tokens : List Token) : Nat → List Nat
  | 0 => []
  | place + 1 =>
    match tokens[place]? with
    | some .opening => place :: openings tokens place
    | some .closing => (openings tokens place).tail
    | _ => openings tokens place

/-- The innermost group that a place belongs to: the place of its parenthesis, or none. -/
def group (tokens : List Token) (place : Nat) : Option Nat := (openings tokens place).head?

/-- The groups around a place, the innermost first. -/
def groups (tokens : List Token) (place : Nat) : List (Option Nat) :=
  (openings tokens place).map some ++ [none]

/-- Between two places stands an operator that is no power, in the group of the later place. -/
def Parted (tokens : List Token) (first last : Nat) : Prop :=
  ∃ between < last, first < between ∧ group tokens between = group tokens last ∧
    ∃ op ∈ [Operator.plus, .minus, .times, .divide], tokens[between]? = some (.operator op)

instance (tokens : List Token) (first last : Nat) : Decidable (Parted tokens first last) := by
  unfold Parted
  infer_instance

/-- Any two powers of one group are parted by another operator of that group. -/
def PowersParted (tokens : List Token) : Prop :=
  ∀ last < tokens.length, ∀ first < last,
    tokens[first]? = some (.operator .power) ∧ tokens[last]? = some (.operator .power) ∧
      group tokens first = group tokens last → Parted tokens first last

instance (tokens : List Token) : Decidable (PowersParted tokens) := by
  unfold PowersParted
  infer_instance

theorem lt_of_mem_openings {tokens : List Token} {opening place : Nat}
    (member : opening ∈ openings tokens place) : opening < place := by
  induction place with
  | zero => cases member
  | succ place ih =>
    rw [openings] at member
    split at member
    · rcases List.mem_cons.mp member with same | inside
      · exact Nat.lt_succ_of_le (Nat.le_of_eq same)
      · exact Nat.lt_succ_of_lt (ih inside)
    · exact Nat.lt_succ_of_lt (ih (List.mem_of_mem_tail member))
    · exact Nat.lt_succ_of_lt (ih member)

theorem nodup_openings (tokens : List Token) (place : Nat) : (openings tokens place).Nodup := by
  induction place with
  | zero => exact List.nodup_nil
  | succ place ih =>
    rw [openings]
    split
    · apply List.nodup_cons.mpr
      refine ⟨?_, ih⟩
      intro member
      exact Nat.lt_irrefl place (lt_of_mem_openings member)
    · exact ih.tail
    · exact ih

/-- Around a place no group comes twice. -/
theorem exists_groups (tokens : List Token) (place : Nat) :
    ∃ around, groups tokens place = group tokens place :: around ∧ group tokens place ∉ around := by
  have distinct := nodup_openings tokens place
  unfold groups group
  cases opened : openings tokens place with
  | nil => exact ⟨[], rfl, List.not_mem_nil⟩
  | cons opening others =>
    rw [opened] at distinct
    refine ⟨others.map some ++ [none], rfl, ?_⟩
    simpa using (List.nodup_cons.mp distinct).1

variable {tokens : List Token} {place : Nat}

theorem groups_opening (here : tokens[place]? = some .opening) :
    groups tokens (place + 1) = some place :: groups tokens place := by
  simp [groups, openings, here]

theorem groups_closing (here : tokens[place]? = some .closing) {group around : Option Nat}
    {outer : List (Option Nat)} (same : groups tokens place = group :: around :: outer) :
    groups tokens (place + 1) = around :: outer := by
  unfold groups at same ⊢
  rw [openings, here]
  cases opened : openings tokens place with
  | nil => simp [opened] at same
  | cons opening others =>
    rw [opened] at same
    exact (List.cons.inj same).2

theorem groups_next {token : Token} (here : tokens[place]? = some token) (opening : token ≠ .opening)
    (closing : token ≠ .closing) : groups tokens (place + 1) = groups tokens place := by
  unfold groups
  rw [openings, here]
  cases token with
  | opening => exact absurd rfl opening
  | closing => exact absurd rfl closing
  | _ => rfl

end Token

namespace Postfix

open Token (group groups PowersParted)

/-- The operators of a group that wait before a place. A power among them is the latest, is the only
one, and no other operator has come in the group since. -/
inductive Settled (tokens : List Token) (place : Nat) : List Operator → Option Nat → Prop where
  | plain (none : .power ∉ waiting) : Settled tokens place waiting around
  | raised (none : .power ∉ waiting) (before : first < place)
      (power : tokens[first]? = some (.operator .power)) (here : group tokens first = around)
      (since : ∀ between < place, first < between → group tokens between = around →
        ∀ op : Operator, op ≠ .power → tokens[between]? ≠ some (.operator op)) :
      Settled tokens place (.power :: waiting) around

variable {tokens : List Token} {place : Nat} {token : Token}

theorem Settled.next {waiting : List Operator} {around : Option Nat}
    (settled : Settled tokens place waiting around)
    (other : group tokens place = around →
      ∀ op : Operator, op ≠ .power → tokens[place]? ≠ some (.operator op)) :
    Settled tokens (place + 1) waiting around := by
  cases settled with
  | plain none => exact .plain none
  | raised none before power here since =>
    refine .raised none (Nat.lt_succ_of_lt before) power here ?_
    intro between upTo behind same
    rcases Nat.lt_succ_iff_lt_or_eq.mp upTo with earlier | rfl
    · exact since between earlier behind same
    · exact other same

/-- A token is no news to groups other than its own, and to none unless it is an operator. -/
theorem settled_next {levels : List (List Operator)} {around : List (Option Nat)}
    (settled : List.Forall₂ (Settled tokens place) levels around)
    (other : group tokens place ∈ around →
      ∀ op : Operator, op ≠ .power → tokens[place]? ≠ some (.operator op)) :
    List.Forall₂ (Settled tokens (place + 1)) levels around := by
  induction settled with
  | nil => exact .nil
  | cons first rest ih =>
    refine .cons (first.next ?_) (ih ?_)
    · intro same
      exact other (same ▸ List.mem_cons_self)
    · intro member
      exact other (List.mem_cons_of_mem _ member)

namespace Progress

/-- The operators that wait are settled in the groups around the place. -/
def SettledAt (tokens : List Token) (place : Nat) (state : Progress) : Prop :=
  List.Forall₂ (Settled tokens place) (state.waiting :: state.outer) (groups tokens place)

theorem settledAt_start (tokens : List Token) : SettledAt tokens 0 start :=
  .cons (.plain List.not_mem_nil) .nil

/-- Where powers are parted, none waits in its group for a power. -/
theorem power_not_mem (parted : PowersParted tokens) {waiting : List Operator}
    (settled : Settled tokens place waiting (group tokens place))
    (here : tokens[place]? = some (.operator .power)) : .power ∉ waiting := by
  cases settled with
  | plain none => exact none
  | raised none before power same since =>
    have inside : place < tokens.length := (List.getElem?_eq_some_iff.mp here).1
    obtain ⟨between, earlier, behind, group, op, looser, found⟩ :=
      parted place inside _ before ⟨power, here, same⟩
    refine absurd found (since between earlier behind group op ?_)
    rintro rfl
    simp at looser

theorem takeWhile_plain {waiting : List Operator} (none : .power ∉ waiting) (power : Grouping) :
    waiting.takeWhile (·.precedes power .power) = [] ∧
      waiting.dropWhile (·.precedes power .power) = waiting := by
  cases waiting with
  | nil => exact ⟨rfl, rfl⟩
  | cons top others =>
    have other : top ≠ .power := by
      rintro rfl
      exact none List.mem_cons_self
    simp [Operator.precedes_power other power]

/-- Where powers are parted, both groupings read an operator alike. -/
theorem read_operator_left_eq_right (parted : PowersParted tokens) {state : Progress} {op : Operator}
    (settled : Settled tokens place state.waiting (group tokens place))
    (here : tokens[place]? = some (.operator op)) :
    state.read .left (.operator op) = state.read .right (.operator op) := by
  by_cases power : op = .power
  · subst power
    have none := power_not_mem parted settled here
    simp only [read, takeWhile_plain none]
  · have alike := funext (Operator.precedes_left_eq_right power)
    simp only [read, alike]

/-- What waits once an operator is read, in the group that it is read in. -/
theorem settled_operator (parted : PowersParted tokens) {waiting : List Operator} {op : Operator}
    (settled : Settled tokens place waiting (group tokens place))
    (here : tokens[place]? = some (.operator op)) (power : Grouping) :
    Settled tokens (place + 1) (op :: waiting.dropWhile (·.precedes power op)) (group tokens place) := by
  by_cases same : op = .power
  · subst same
    have none := power_not_mem parted settled here
    rw [(takeWhile_plain none power).2]
    refine .raised none (Nat.lt_succ_self place) here rfl ?_
    intro between upTo behind
    omega
  · have others (rest : List Operator) (none : .power ∉ rest) :
        .power ∉ op :: rest.dropWhile (·.precedes power op) := by
      intro member
      rcases List.mem_cons.mp member with first | later
      · exact same first.symm
      · exact none ((List.dropWhile_sublist _).subset later)
    cases settled with
    | plain none => exact .plain (others _ none)
    | @raised rest _ _ none =>
      have dropped : (Operator.power :: rest).dropWhile (·.precedes power op) =
          rest.dropWhile (·.precedes power op) :=
        List.dropWhile_cons_of_pos (Operator.power_precedes same power)
      rw [dropped]
      exact .plain (others rest none)

theorem SettledAt.read_left_eq_right (parted : PowersParted tokens) {state : Progress}
    (settled : state.SettledAt tokens place) (here : tokens[place]? = some token) :
    state.read .left token = state.read .right token := by
  obtain ⟨waiting, outer, written⟩ := state
  cases token with
  | operator op =>
    obtain ⟨around, same, _⟩ := Token.exists_groups tokens place
    rw [SettledAt, same] at settled
    cases settled with
    | cons inner _ => exact read_operator_left_eq_right parted inner here
  | closing => cases outer <;> rfl
  | _ => rfl

theorem SettledAt.next (parted : PowersParted tokens) {power : Grouping} {state after : Progress}
    (settled : state.SettledAt tokens place) (here : tokens[place]? = some token)
    (taken : state.read power token = .ok after) : after.SettledAt tokens (place + 1) := by
  obtain ⟨waiting, outer, written⟩ := state
  unfold SettledAt at settled ⊢
  cases token with
  | number value =>
    cases taken
    rw [Token.groups_next here nofun nofun]
    exact settled_next settled (by simp [here])
  | operator op =>
    cases taken
    rw [Token.groups_next here nofun nofun]
    obtain ⟨around, same, absent⟩ := Token.exists_groups tokens place
    rw [same] at settled ⊢
    cases settled with
    | cons inner rest =>
      refine .cons (settled_operator parted inner here power) (settled_next rest ?_)
      intro member
      exact absurd member absent
  | opening =>
    cases taken
    rw [Token.groups_opening here]
    exact .cons (.plain List.not_mem_nil) (settled_next settled (by simp [here]))
  | closing =>
    cases outer with
    | nil => cases taken
    | cons inside outer =>
      cases taken
      have kept := settled_next settled (by simp [here])
      generalize around : groups tokens place = levels at kept
      cases kept with
      | cons _ rest =>
        -- what waited in the closed group is written: the group around it is settled as it was
        cases rest with
        | cons inner rest =>
          rw [Token.groups_closing here around]
          exact .cons inner rest
  | blank => cases outer <;> cases taken

/-- From a settled state on, both groupings read all tokens that are left alike: each token is read
alike and leaves a settled state. -/
theorem foldlM_left_eq_right (parted : PowersParted tokens) {rest : List Token} {state : Progress}
    (left : tokens.drop place = rest) (settled : state.SettledAt tokens place) :
    rest.foldlM (read .left) state = rest.foldlM (read .right) state := by
  induction rest generalizing place state with
  | nil => rfl
  | cons token rest ih =>
    have here : tokens[place]? = some token := by
      rw [← List.head?_drop, left]
      rfl
    have later : tokens.drop (place + 1) = rest := by
      rw [← List.tail_drop, left]
      rfl
    rw [List.foldlM_cons, List.foldlM_cons, ← settled.read_left_eq_right parted here]
    cases taken : state.read .left token with
    | error error => rfl
    | ok after => exact ih later (settled.next parted here taken)

end Progress

/-- Where any two powers of a group have another operator of that group between them, tokens have one
postfix order or one error under both groupings, and an expression of such tokens has one outcome. -/
theorem ofTokens_left_eq_right :
    (∀ tokens, PowersParted tokens → ofTokens .left tokens = ofTokens .right tokens) ∧
    ∀ values expression,
      (∀ tokens, Token.read (Variable.substitute values expression).toList = .ok tokens →
        PowersParted tokens) →
      evaluate .left values expression = evaluate .right values expression := by
  have converted (tokens : List Token) (parted : PowersParted tokens) :
      ofTokens .left tokens = ofTokens .right tokens := by
    rw [Progress.ofTokens_eq_foldlM, Progress.ofTokens_eq_foldlM,
      Progress.foldlM_left_eq_right parted List.drop_zero (Progress.settledAt_start tokens)]
  refine ⟨converted, ?_⟩
  intro values expression parted
  unfold evaluate
  cases found : Token.read (Variable.substitute values expression).toList with
  | error error => rfl
  | ok tokens =>
    change (ofTokens .left tokens >>= value) = (ofTokens .right tokens >>= value)
    rw [converted tokens (parted tokens found)]

/-- Powers before a parenthesis, in it, behind a product, and in a group that is malformed and never
closed. -/
theorem ofTokens_left_eq_right_nested :
    let tokens : List Token := [.number 2, .operator .power, .opening, .number 3, .operator .power,
      .number 2, .closing, .operator .times, .number 2, .operator .power, .opening, .operator .power]
    let values : Assignment := fun _ => some 2
    let expression := "a^(3^a)*2^2"
    PowersParted tokens ∧ ofTokens .left tokens = ofTokens .right tokens ∧
      (∃ tokens, Token.read (Variable.substitute values expression).toList = .ok tokens ∧
        PowersParted tokens) ∧
      evaluate .left values expression = evaluate .right values expression := by
  intro tokens values expression
  have parted : PowersParted tokens := by decide
  have read : Token.read (Variable.substitute values expression).toList =
      .ok [.number 2, .operator .power, .opening, .number 3, .operator .power, .number 2, .closing,
        .operator .times, .number 2, .operator .power, .number 2] := by decide +kernel
  obtain ⟨converted, evaluated⟩ := ofTokens_left_eq_right
  refine ⟨parted, converted tokens parted, ⟨_, read, by decide⟩, evaluated values expression ?_⟩
  intro others found
  cases read.symm.trans found
  decide

/-- A chain of powers is told apart by the grouping. -/
example :
    let chain : List Token := [.number 2, .operator .power, .number 3, .operator .power, .number 2]
    ¬ PowersParted chain ∧ ofTokens .left chain ≠ ofTokens .right chain := by decide

end Postfix

end Reckon
