import Reckon.Book

/-! Commands on expressions and on the book of a store, and what they print. -/

namespace Reckon

inductive Command where
  | eval (expression : String) (bindings : List (String × Float))
  | vars (expression : String)
  | add (name expression : String)
  | list
  | remove (id : String)
  | run (id : String) (bindings : List (String × Float))
  deriving DecidableEq

namespace Command

/-- A formula in a listing: its parts with tabs between them. -/
def entry (f : Formula) : String := f.id ++ "\t" ++ f.name ++ "\t" ++ f.expression

/-- Whether a command works on the saved formulas. -/
def usesBook : Command → Bool
  | .eval .. | .vars _ => false
  | _ => true

/-- What a command has printed so far, and the book that it works on. -/
structure Progress (σ : Type) where
  output : String
  book : Book σ

/-- A step of a command. One that fails leaves what was printed and changed before it. -/
abbrev Step (σ α : Type) := ExceptT BookError (StateM (Progress σ)) α

variable {σ : Type} [Store σ] {α : Type}

/-- Prints a line. -/
def print (text : String) : Step σ Unit :=
  modify fun progress => { progress with output := progress.output ++ text ++ "\n" }

/-- Changes the book. -/
def change (f : Book σ → Except BookError α × Book σ) : Step σ α := do
  let progress ← get
  let (result, book) := f progress.book
  set { progress with book }
  ofExcept result

/-- The steps of a command. -/
def steps (power : Grouping) : Command → Step σ Unit
  | .eval expression bindings => do
    let value ← ofExcept
      ((evaluate power (Assignment.ofList bindings) expression).mapError .evaluation)
    print (Numeral.write value)
  | .vars expression => (Variable.free expression).forM print
  | .add name expression => do
    let formula ← change (·.add name expression)
    print formula.id
  | .list => do (← get).book.formulas.forM fun formula => print (entry formula)
  | .remove id => do
    let formula ← change (·.remove id)
    print ("Removed '" ++ formula.name ++ "'.")
  | .run id bindings => do
    let value ← ofExcept ((← get).book.evaluate power (Assignment.ofList bindings) id)
    print (Numeral.write value)

/-- Carries out a command upon a book: how it ends, what it prints, and the book after it. -/
def onBook (power : Grouping) (book : Book σ) (command : Command) :
    Except BookError Unit × Progress σ :=
  (steps power command).run ⟨"", book⟩

/-- Carries out a command upon a store, whose book is loaded only when the command works on it. Returns
how it ends, what it prints, and the store after it. -/
def perform (power : Grouping) (store : σ) (command : Command) :
    Except BookError Unit × String × σ :=
  if command.usesBook then
    match Book.load store with
    | .error error => (.error error, "", store)
    | .ok book =>
      let (result, progress) := onBook power book command
      (result, progress.output, progress.book.store)
  else
    let (result, progress) := onBook power ⟨store, []⟩ command
    (result, progress.output, progress.book.store)

end Command

end Reckon
