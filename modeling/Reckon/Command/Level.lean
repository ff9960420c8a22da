import Reckon.Command

/-! The words of the command line: the levels they lead to, and the options and values that each
level takes. -/

namespace Reckon.Usage

/-- A command whose values follow its words. -/
inductive Leaf where
  | eval
  | vars
  | add
  | list
  | remove
  | run
  deriving DecidableEq, Repr

/-- How far the words have led. -/
inductive Level where
  | top
  | formula
  | leaf (leaf : Leaf)
  deriving DecidableEq, Repr

inductive Flag where
  | store
  | rightAssocPower
  | binding
  | help
  | version
  deriving DecidableEq, Repr

def Flag.takesValue : Flag → Bool
  | .store | .binding => true
  | _ => false

namespace Leaf

/-- How many values a command takes. -/
def arity : Leaf → Nat
  | .list => 0
  | .eval | .vars | .remove | .run => 1
  | .add => 2

def takesBindings : Leaf → Bool
  | .eval | .run => true
  | _ => false

/-- The command with these values, which must be as many as it takes. -/
def command? (bindings : List (String × Float)) : Leaf → List String → Option Command
  | .eval, [expression] => some (.eval expression bindings)
  | .vars, [expression] => some (.vars expression)
  | .add, [name, expression] => some (.add name expression)
  | .list, [] => some .list
  | .remove, [id] => some (.remove id)
  | .run, [id] => some (.run id bindings)
  | _, _ => none

theorem command?_isSome (bindings : List (String × Float)) (leaf : Leaf) (values : List String) :
    (leaf.command? bindings values).isSome ↔ values.length = leaf.arity := by
  unfold command? arity
  constructor
  · intro complete
    split at complete <;> simp_all
  · intro enough
    cases leaf <;> match values, enough with
      | [], _ | [_], _ | [_, _], _ => simp_all
      | _ :: _ :: _ :: _, enough => simp at enough

end Leaf

namespace Level

/-- Where a word leads. -/
def next? : Level → String → Option Level
  | .top, "eval" => some (.leaf .eval)
  | .top, "vars" => some (.leaf .vars)
  | .top, "formula" => some .formula
  | .formula, "add" => some (.leaf .add)
  | .formula, "list" => some (.leaf .list)
  | .formula, "remove" => some (.leaf .remove)
  | .formula, "run" => some (.leaf .run)
  | _, _ => none

/-- Whether a further word must follow. There, `help` is a word too. -/
def isOpen : Level → Bool
  | .leaf _ => false
  | _ => true

def takesBindings : Level → Bool
  | .leaf last => last.takesBindings
  | _ => false

def arity : Level → Nat
  | .leaf last => last.arity
  | _ => 0

/-- The option of a name after two dashes. -/
def long? (level : Level) : String → Option Flag
  | "store" => some .store
  | "right-assoc-power" => some .rightAssocPower
  | "help" => some .help
  | "version" => if level == .top then some .version else none
  | "var" => if level.takesBindings then some .binding else none
  | _ => none

/-- The option of a letter after one dash. -/
def short? (level : Level) : Char → Option Flag
  | 'h' => some .help
  | 'V' => if level == .top then some .version else none
  | 'v' => if level.takesBindings then some .binding else none
  | _ => none

end Level

end Reckon.Usage
