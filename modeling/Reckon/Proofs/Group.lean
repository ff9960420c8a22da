import Reckon.Proofs.Arrangement
import Reckon.Proofs.Except

/-! A group in parentheses counts as the number it is evaluated to, whatever surrounds it. -/

namespace Reckon.Postfix

/-- Items that leave one value do the same above other values, which they never reach. -/
theorem run_append {values below : List Float} {items rest : List Item} {value : Float}
    (found : run values items = .ok value) :
    run (values ++ below) (items ++ rest) = run (value :: below) rest := by
  fun_induction run values items with
  | case1 => cases found
  | case2 left =>
    cases found
    rfl
  | case3 => cases found
  | case4 values pushed items ih =>
    rw [List.cons_append, run]
    exact ih found
  | case5 right left values op items ih =>
    obtain ⟨result, applied, later⟩ := exists_of_bind_ok found
    rw [List.cons_append, List.cons_append, List.cons_append, run, applied]
    exact ih result later
  | case6 => cases found

/-- Two arrangements that are refused alike, or that are evaluated alike upon all values. -/
inductive Alike : Except EvalError (List Item) → Except EvalError (List Item) → Prop where
  | refused : Alike (.error error) (.error error)
  | arranged (same : ∀ values, run values first = run values second) :
      Alike (.ok first) (.ok second)

namespace Alike

theorem run_congr {first second : List Item} (same : ∀ values, run values first = run values second)
    (items : List Item) : ∀ values, run values (items ++ first) = run values (items ++ second) := by
  induction items with
  | nil => exact same
  | cons item items ih =>
    intro values
    cases item with
    | number value =>
      rw [List.cons_append, List.cons_append, run, run]
      exact ih _
    | operator op =>
      cases values with
      | nil => rfl
      | cons right values =>
        cases values with
        | nil => rfl
        | cons left values =>
          rw [List.cons_append, List.cons_append, run, run]
          exact bind_congr fun result => ih _

theorem emit {first second : Except EvalError (List Item)} (alike : Alike first second)
    (items : List Item) : Alike (emit items first) (emit items second) := by
  cases alike with
  | refused => exact .refused
  | arranged same => exact .arranged (run_congr same items)

theorem value_eq {first second : Except EvalError (List Item)} (alike : Alike first second) :
    first >>= value = second >>= value := by
  cases alike with
  | refused => rfl
  | arranged same => exact same []

end Alike

variable {power : Grouping}

/-- Tokens that are alike in every state stay alike behind others. -/
theorem arrange_alike {first second : List Token}
    (alike : ∀ waiting outer, Alike (arrange power waiting outer first) (arrange power waiting outer second))
    (before : List Token) :
    ∀ waiting outer, Alike (arrange power waiting outer (before ++ first))
      (arrange power waiting outer (before ++ second)) := by
  induction before with
  | nil => exact alike
  | cons token before ih =>
    intro waiting outer
    rw [List.cons_append, List.cons_append]
    cases token with
    | number value =>
      rw [arrange_number, arrange_number]
      exact (ih _ _).emit _
    | operator op =>
      rw [arrange, arrange]
      exact (ih _ _).emit _
    | opening =>
      rw [arrange_opening, arrange_opening]
      exact ih _ _
    | closing =>
      cases outer with
      | nil =>
        rw [arrange, arrange]
        exact .refused
      | cons around outer =>
        rw [arrange_closing, arrange_closing]
        exact (ih _ _).emit _
    | blank =>
      rw [arrange, arrange]
      exact .refused

/-- Tokens that can be arranged by themselves are arranged in the same way inside a parenthesis, and
its end writes out what still waits. What waits around it is untouched. -/
theorem arrange_inside {waiting : List Operator} {inner : List (List Operator)} {inside : List Token}
    {items : List Item} (arranged : arrange power waiting inner inside = .ok items)
    (around : List Operator) (outer : List (List Operator)) (rest : List Token) :
    arrange power waiting (inner ++ around :: outer) (inside ++ .closing :: rest) =
      emit items (arrange power around outer rest) := by
  fun_induction arrange power waiting inner inside generalizing items with
  | case1 waiting =>
    cases arranged
    exact arrange_closing around
  | case2 => cases arranged
  | case3 waiting inner value inside ih =>
    obtain ⟨later, found, rfl⟩ := exists_of_map_ok arranged
    rw [List.cons_append, arrange_number, ih found, emit_emit]
    rfl
  | case4 waiting inner op inside ih =>
    obtain ⟨later, found, rfl⟩ := exists_of_map_ok arranged
    rw [List.cons_append, arrange, ih found]
    exact emit_emit _ _ _
  | case5 waiting inner inside ih =>
    rw [List.cons_append, arrange_opening]
    exact ih arranged
  | case6 => cases arranged
  | case7 waiting next inner inside ih =>
    obtain ⟨later, found, rfl⟩ := exists_of_map_ok arranged
    rw [List.cons_append, List.cons_append, arrange_closing, ih found, emit_emit]
  | case8 => cases arranged

/-- A group whose inside has a value can be replaced by that value between any tokens: the outcome is
the same, value or error. -/
theorem value_group (power : Grouping) (before : List Token) {inside : List Token} {value : Float}
    (evaluated : ofTokens power inside >>= Postfix.value = .ok value) (after : List Token) :
    ofTokens power (before ++ .opening :: inside ++ .closing :: after) >>= Postfix.value =
      ofTokens power (before ++ .number value :: after) >>= Postfix.value := by
  obtain ⟨items, arranged, found⟩ := exists_of_bind_ok evaluated
  have alike (waiting : List Operator) (outer : List (List Operator)) :
      Alike (arrange power waiting outer (.opening :: inside ++ .closing :: after))
        (arrange power waiting outer (.number value :: after)) := by
    have group : arrange power [] (waiting :: outer) (inside ++ .closing :: after) = _ :=
      arrange_inside arranged waiting outer after
    rw [List.cons_append, arrange_opening, group, arrange_number]
    cases arrange power waiting outer after with
    | error error => exact .refused
    | ok rest =>
      rw [emit_ok, emit_ok]
      refine .arranged fun values => ?_
      rw [List.singleton_append, run]
      exact run_append found
  rw [List.append_assoc]
  exact (arrange_alike alike before [] []).value_eq

/-- A sum in parentheses, in a context that leaves a value over. -/
theorem value_group_sum :
    ofTokens .left [.number 1, .operator .plus, .number 2] >>= Postfix.value = .ok (1 + 2) ∧
      ofTokens .left ([.number 5, .number 6, .operator .times] ++ .opening ::
          [.number 1, .operator .plus, .number 2] ++ .closing :: []) >>= Postfix.value =
        .error (.invalid (.missingOperators 1)) := by
  have sum : ofTokens .left [.number 1, .operator .plus, .number 2] >>= Postfix.value = .ok (1 + 2) := rfl
  refine ⟨sum, ?_⟩
  rw [value_group .left _ sum]
  rfl

end Reckon.Postfix
