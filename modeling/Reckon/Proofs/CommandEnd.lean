import Reckon.Command.Session
import Reckon.Proofs.BookChange

/-! How commands end: what they leave of the book, and that they print nothing before they fail. -/

namespace Reckon

/-- The outcome of a command that asks for a value: it is printed on a line of its own. -/
def Outcome.ofValue : Except BookError Float → Outcome
  | .ok value => .printed (Numeral.write value ++ "\n")
  | .error error => @failed "" error

theorem Outcome.ofResult_output (result : Except BookError Float) :
    ofResult (result.map fun _ => ()) (ofValue result).output = ofValue result := by
  cases result <;> rfl

namespace Command

variable {σ α β : Type}

/-- Whether a command is to change the saved formulas. -/
def changes : Command → Bool
  | .add .. | .remove _ => true
  | _ => false

/-- A failing step stops those after it, which leaves what was printed and changed until then. -/
theorem run_bind (step : Step σ α) (next : α → Step σ β) (progress : Progress σ) :
    (step >>= next).run progress =
      match step.run progress with
      | (.ok a, after) => (next a).run after
      | (.error error, after) => (.error error, after) := by
  have opened : (step >>= next).run progress =
      ExceptT.bindCont next (step.run progress).1 (step.run progress).2 := rfl
  rw [opened]
  cases step.run progress with
  | mk result after => cases result <;> rfl

theorem run_ofExcept (result : Except BookError α) (progress : Progress σ) :
    (ofExcept result : Step σ α).run progress = (result, progress) := by
  cases result <;> rfl

theorem run_change (f : Book σ → Except BookError α × Book σ) (progress : Progress σ) :
    (change f).run progress = ((f progress.book).1, ⟨progress.output, (f progress.book).2⟩) :=
  run_ofExcept (f progress.book).1 ⟨progress.output, (f progress.book).2⟩

/-- Texts as lines of output. -/
def lines (texts : List String) : String := String.join (texts.map (· ++ "\n"))

/-- Printing does not fail, and does not touch the book. -/
theorem run_forM_print (items : List α) (text : α → String) (progress : Progress σ) :
    (items.forM fun a => print (text a)).run progress =
      (.ok (), ⟨progress.output ++ lines (items.map text), progress.book⟩) := by
  induction items generalizing progress with
  | nil =>
    rw [List.map_nil, lines, List.map_nil, String.join_nil, String.append_empty]
    rfl
  | cons a rest ih =>
    have output : progress.output ++ lines ((a :: rest).map text) =
        progress.output ++ text a ++ "\n" ++ lines (rest.map text) := by
      simp [lines, String.join_cons, String.append_assoc]
    rw [output]
    exact ih ⟨progress.output ++ text a ++ "\n", progress.book⟩

/-- A step whose result is printed last. -/
theorem run_print (step : Step σ α) (text : α → String) (progress : Progress σ) :
    ∃ output, (step >>= fun a => print (text a)).run progress =
        ((step.run progress).1.map fun _ => (), ⟨output, (step.run progress).2.book⟩) ∧
      ∀ error, (step.run progress).1 = .error error → output = (step.run progress).2.output := by
  rw [run_bind]
  cases step.run progress with
  | mk result after =>
    cases result with
    | ok a => exact ⟨_, rfl, nofun⟩
    | error error => exact ⟨after.output, rfl, fun _ _ => rfl⟩

/-- Where the result is a value, this is the outcome that shows it. -/
theorem run_value (result : Except BookError Float) (book : Book σ) :
    ((ofExcept result : Step σ Float) >>= fun value => print (Numeral.write value)).run ⟨"", book⟩ =
      (result.map fun _ => (), ⟨(Outcome.ofValue result).output, book⟩) := by
  rw [run_bind, run_ofExcept]
  cases result with
  | ok value =>
    have line : "" ++ Numeral.write value ++ "\n" = Numeral.write value ++ "\n" := by
      rw [String.empty_append]
    exact congrArg (fun output => (Except.ok (), Progress.mk output book)) line
  | error error => rfl

variable [Store σ]

/-- The ends of a command upon a book. One that is to change formulas ends as a change of the book does,
and any other leaves the book. Either prints nothing when it fails. -/
inductive End (book : Book σ) : Bool → Except BookError Unit × Progress σ → Prop where
  | kept {result : Except BookError Unit} {output : String}
      (silent : ∀ error, result = .error error → output = "") :
      End book false (result, ⟨output, book⟩)
  | changed {formula? : Option Formula} {formulas : List Formula} {output : String}
      {ended : Except BookError Formula × Book σ} (change : Book.Change book formula? formulas ended)
      (silent : ∀ error, ended.1 = .error error → output = "") :
      End book true (ended.1.map fun _ => (), ⟨output, ended.2⟩)

theorem end_print (book : Book σ) (result : Except BookError α) (text : α → String) :
    End book false (((ofExcept result : Step σ α) >>= fun a => print (text a)).run ⟨"", book⟩) := by
  obtain ⟨output, ran, silent⟩ := run_print (ofExcept result : Step σ α) text ⟨"", book⟩
  rw [run_ofExcept] at ran silent
  rw [ran]
  refine .kept ?_
  intro error failed
  cases result with
  | ok a => cases failed
  | error other => exact silent other rfl

theorem end_change (book : Book σ) {f : Book σ → Except BookError Formula × Book σ} {formula? : Option Formula}
    {formulas : List Formula} (ends : Book.Change book formula? formulas (f book)) (text : Formula → String) :
    End book true ((change f >>= fun a => print (text a)).run ⟨"", book⟩) := by
  obtain ⟨output, ran, silent⟩ := run_print (change f) text ⟨"", book⟩
  rw [run_change] at ran silent
  rw [ran]
  exact .changed ends silent

/-- The variables of an expression are printed on a line each. -/
theorem onBook_vars (power : Grouping) (book : Book σ) (expression : String) :
    onBook power book (.vars expression) =
      (.ok (), ⟨lines (Variable.free expression), book⟩) := by
  have printed := run_forM_print (Variable.free expression) id (⟨"", book⟩ : Progress σ)
  rw [List.map_id, String.empty_append] at printed
  exact printed

/-- An expression is evaluated with the values of its bindings, and the store is not read. -/
theorem perform_eval (power : Grouping) (store : σ) (expression : String)
    (bindings : List (String × Float)) :
    let result := (evaluate power (.ofList bindings) expression).mapError .evaluation
    perform power store (.eval expression bindings) =
      (result.map fun _ => (), (Outcome.ofValue result).output, store) := by
  intro result
  have ran : onBook power (⟨store, []⟩ : Book σ) (.eval expression bindings) =
      (result.map fun _ => (), ⟨(Outcome.ofValue result).output, ⟨store, []⟩⟩) := run_value result _
  simp only [perform, usesBook, Bool.false_eq_true, if_false, ran]

/-- A formula is evaluated as the book of the store does it, with the values of the bindings. -/
theorem perform_run (power : Grouping) (store : σ) (id : String) (bindings : List (String × Float)) :
    let result := do (← Book.load store).evaluate power (.ofList bindings) id
    perform power store (.run id bindings) =
      (result.map fun _ => (), (Outcome.ofValue result).output, store) := by
  intro result
  cases loaded : Book.load store with
  | error error =>
    have failed : result = .error error := by simp only [result, loaded, bind, Except.bind]
    simp only [perform, usesBook, if_true, loaded, failed]
    rfl
  | ok book =>
    have ends : result = book.evaluate power (.ofList bindings) id := by
      simp only [result, loaded, bind, Except.bind]
    have ran : onBook power book (.run id bindings) =
        (result.map fun _ => (), ⟨(Outcome.ofValue result).output, book⟩) := by
      rw [ends]
      exact run_value _ book
    simp only [perform, usesBook, if_true, loaded, ran, Book.store_of_load loaded]

/-- Every command ends so. -/
theorem end_onBook (power : Grouping) (book : Book σ) (command : Command) :
    End book command.changes (onBook power book command) := by
  cases command with
  | eval expression bindings => exact end_print book _ _
  | vars expression =>
    rw [onBook_vars]
    exact .kept nofun
  | add name expression => exact end_change book (Book.change_add book name expression) _
  | list =>
    have printed : onBook power book .list =
        (.ok (), ⟨"" ++ lines (book.formulas.map entry), book⟩) := run_forM_print _ _ _
    rw [printed]
    exact .kept nofun
  | remove id => exact end_change book (Book.change_remove book id) _
  | run id bindings => exact end_print book (book.evaluate power (Assignment.ofList bindings) id) _

/-- A command upon a store ends where the book cannot be loaded, or as it does upon a book of the store. -/
theorem perform_cases (power : Grouping) (store : σ) (command : Command) :
    (∃ error, command.perform power store = (.error error, "", store)) ∨
      ∃ book : Book σ, book.store = store ∧ command.perform power store =
        ((onBook power book command).1, (onBook power book command).2.output,
          (onBook power book command).2.book.store) := by
  unfold perform
  split
  · cases loaded : Book.load store with
    | error error => exact .inl ⟨error, rfl⟩
    | ok book => exact .inr ⟨book, Book.store_of_load loaded, rfl⟩
  · exact .inr ⟨⟨store, []⟩, rfl, rfl⟩

end Command

end Reckon
