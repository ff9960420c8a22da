import Reckon.Evaluation
import Reckon.Formula.Stored
import Reckon.Store
import Reckon.Text.Blank

/-! The book of formulas. Each change is written to its store at once, and undone when that write is
refused, so the book and its store stay the same. -/

namespace Reckon

inductive BookError where
  | emptyName
  | emptyExpression
  | unknownFormula (id : String)
  | missingVariables (names : List String)
  | evaluation (error : EvalError)
  | store (error : StoreError)
  /-- What is stored is no list of formulas. Where it stops being one is not told. -/
  | corrupt
  deriving DecidableEq, Repr

def BookError.message : BookError → String
  | .emptyName => "Formula name cannot be empty."
  | .emptyExpression => "Formula expression cannot be empty."
  | .unknownFormula id => "Unknown formula '" ++ id ++ "'."
  | .missingVariables names =>
    "Please fill in all variable values. Missing: " ++ ", ".intercalate names ++ "."
  | .evaluation error => error.message
  | .store error => error.message
  | .corrupt => "Stored formulas are corrupt: not a list of formulas"

/-- Formulas, oldest first, and the store they are written to. -/
structure Book (σ : Type) where
  store : σ
  formulas : List Formula

namespace Book

/-- The key that formulas are stored under. -/
def key : String := "programmable-formulas"

variable {σ : Type} [Store σ]

/-- The formulas of a store, none when nothing is stored. -/
def stored (store : σ) : Except BookError (List Formula) :=
  match Store.get store key with
  | .error error => .error (.store error)
  | .ok none => .ok []
  | .ok (some bytes) =>
    match Formula.readList? bytes with
    | some formulas => .ok formulas
    | none => .error .corrupt

def load (store : σ) : Except BookError (Book σ) := do return ⟨store, ← stored store⟩

def get? (book : Book σ) (id : String) : Option Formula := book.formulas.find? (·.id == id)

/-- The first formula with a name. -/
def findByName? (book : Book σ) (name : String) : Option Formula :=
  book.formulas.find? (·.name == name)

/-- Writes the formulas to the store. -/
def persist (book : Book σ) : Except BookError Unit × Book σ :=
  match Store.put book.store key (Formula.writeList book.formulas) with
  | (.ok _, store) => (.ok (), { book with store })
  | (.error error, store) => (.error (.store error), { book with store })

/-- Adds a formula under a new id, after all others. It is taken off again when the write is refused. -/
def add (book : Book σ) (name expression : String) : Except BookError Formula × Book σ :=
  if Text.isBlankText name then (.error .emptyName, book)
  else if Text.isBlankText expression then (.error .emptyExpression, book)
  else
    let formula := ⟨Formula.nextId book.formulas, name, expression⟩
    match persist { book with formulas := book.formulas ++ [formula] } with
    | (.ok _, book) => (.ok formula, book)
    | (.error error, book) => (.error error, { book with formulas := book.formulas.dropLast })

/-- Removes the first formula with an id. It is put back at its place when the write is refused. -/
def remove (book : Book σ) (id : String) : Except BookError Formula × Book σ :=
  match book.formulas.findFinIdx? (·.id == id) with
  | none => (.error (.unknownFormula id), book)
  | some index =>
    let removed := book.formulas[index]
    match persist { book with formulas := book.formulas.eraseIdx index } with
    | (.ok _, book) => (.ok removed, book)
    | (.error error, book) =>
      (.error error, { book with formulas := book.formulas.insertIdx index removed })

/-- Variables without a value, or with one that is no number. -/
def missing (values : Assignment) (formula : Formula) : List String :=
  formula.freeVariables.filter fun name =>
    match values name with
    | some value => Binary64.isNaN value
    | none => true

/-- The value of a formula, all of whose variables must have one. -/
def evaluate (book : Book σ) (power : Grouping) (values : Assignment) (id : String) :
    Except BookError Float :=
  match book.get? id with
  | none => .error (.unknownFormula id)
  | some formula =>
    if (missing values formula).isEmpty then
      (Reckon.evaluate power values formula.expression).mapError .evaluation
    else .error (.missingVariables (missing values formula))

end Book

end Reckon
