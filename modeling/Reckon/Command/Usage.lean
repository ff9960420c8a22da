import Reckon.Binding
import Reckon.Command.Level

/-! Reading the command line: words that lead to a command, its values, and options before,
between and after them. -/

namespace Reckon.Usage

/-- Why arguments give no command to carry out. -/
inductive Fault where
  | unknownArgument
  | missingArgument
  /-- An option stands without its value, or has an empty one. -/
  | missingValue
  | badBinding (fault : Binding.Fault)
  | missingCommand
  | unknownCommand
  /-- An option that may stand once stands twice. -/
  | repeated
  /-- An option without a value has one attached. -/
  | unneededValue
  | help
  | version
  deriving DecidableEq, Repr

/-- The forms of an argument. -/
inductive Form where
  /-- Two dashes alone: only values follow. -/
  | escape
  | long (name : String) (attached : Option String)
  /-- A letter after one dash, with the value attached to it. -/
  | short (letter : Char) (attached : Option String)
  /-- An argument that stands for itself. -/
  | plain
  deriving DecidableEq, Repr

/-- The value attached to a letter, after an equals sign or not. -/
def attachedValue? : List Char → Option String
  | [] => none
  | '=' :: value => some (String.ofList value)
  | value => some (String.ofList value)

def Form.of (argument : String) : Form :=
  match argument.toList with
  | ['-', '-'] => .escape
  | '-' :: '-' :: name =>
    match name.dropWhile (· ≠ '=') with
    | [] => .long (String.ofList name) none
    | _ :: value => .long (String.ofList (name.takeWhile (· ≠ '='))) (some (String.ofList value))
  | '-' :: letter :: rest => .short letter (attachedValue? rest)
  | _ => .plain

/-- What one level has been given. -/
structure Given where
  directory : Option String
  rightAssocPower : Bool
  bindings : List (String × Float)
  values : List String

def Given.start : Given := ⟨none, false, [], []⟩

/-- Takes an option, with its value if it has one. -/
def Given.take (given : Given) : Flag → Option String → Except Fault Given
  | .store, some value =>
    if given.directory.isSome then .error .repeated
    else if value.isEmpty then .error .missingValue
    else .ok { given with directory := value }
  | .binding, some value =>
    match Binding.read value with
    | .ok binding => .ok { given with bindings := given.bindings ++ [binding] }
    | .error fault => .error (.badBinding fault)
  | .store, none | .binding, none => .error .missingValue
  | .rightAssocPower, _ =>
    if given.rightAssocPower then .error .repeated else .ok { given with rightAssocPower := true }
  | .help, _ => .error .help
  | .version, _ => .error .version

/-- An option whose value stands apart, and that value once it has been met. -/
structure Pending where
  flag : Flag
  value : Option String

/-- Where the reading of a level stands. An option with a value apart stays pending until the next
option, value or end; only then is it taken. -/
structure Reading where
  given : Given
  pending : Option Pending
  /-- Only values follow. -/
  escaped : Bool

namespace Reading

def start : Reading := ⟨.start, none, false⟩

/-- Takes the pending option. -/
def settle (reading : Reading) : Except Fault Reading :=
  match reading.pending with
  | none => .ok reading
  | some ⟨flag, value⟩ => do
    return { reading with given := ← reading.given.take flag value, pending := none }

/-- Whether the next plain argument is the value of an option. -/
def awaits (reading : Reading) : Bool :=
  match reading.pending with
  | some ⟨_, none⟩ => !reading.escaped
  | _ => false

/-- Whether the next argument may be a word. -/
def takesWord (reading : Reading) : Bool := !reading.escaped && !reading.awaits

/-- Reads an option, which waits for its value when none is attached. -/
def option (reading : Reading) (attached : Option String) : Option Flag → Except Fault Reading
  | none => .error .unknownArgument
  | some flag => do
    let reading ← reading.settle
    if flag.takesValue && attached.isNone then return { reading with pending := some ⟨flag, none⟩ }
    else return { reading with given := ← reading.given.take flag attached }

/-- What a value too many is. Where words are expected it is a wrong one, but a right one that
comes after two dashes is no word any more. -/
def excess (reading : Reading) (level : Level) (word : String) : Fault :=
  let known := word == "help" || (level.next? word).isSome
  if level.isOpen && !(reading.escaped && known) then .unknownCommand else .unknownArgument

/-- Reads a value. -/
def value (reading : Reading) (level : Level) (argument : String) : Except Fault Reading :=
  if reading.given.values.length < level.arity then do
    let reading ← reading.settle
    return { reading with given.values := reading.given.values ++ [argument] }
  else .error (reading.excess level argument)

/-- Reads an argument that is no word. -/
def step (reading : Reading) (level : Level) (argument : String) : Except Fault Reading :=
  if reading.escaped then reading.value level argument
  else
    match Form.of argument with
    | .escape => .ok { reading with escaped := true }
    | .long name attached =>
      match level.long? name with
      | some flag =>
        if attached.isSome && !flag.takesValue then .error .unneededValue
        else reading.option attached (some flag)
      | none => .error .unknownArgument
    | .short letter attached => reading.option attached (level.short? letter)
    | .plain =>
      match reading.pending with
      | some ⟨flag, none⟩ => .ok { reading with pending := some ⟨flag, some argument⟩ }
      | _ => reading.value level argument

end Reading

/-- A command and the options that hold at every level. -/
structure Request where
  directory : Option String
  rightAssocPower : Bool
  command : Command
  deriving DecidableEq

/-- What a level gives at the end of the arguments. -/
def Given.finish (given : Given) : Level → Except Fault Request
  | .leaf last =>
    match last.command? given.bindings given.values with
    | some command => .ok ⟨given.directory, given.rightAssocPower, command⟩
    | none => .error .missingArgument
  | _ => .error .missingCommand

/-- A request with the options of the level above it, whose directory gives way to its own. -/
def Given.around (given : Given) (request : Request) : Request :=
  { request with
    directory := request.directory.or given.directory
    rightAssocPower := request.rightAssocPower || given.rightAssocPower }

/-- What the word `help` and the words after it ask for. -/
def help (level : Level) : List String → Fault
  | [] => .help
  | word :: rest =>
    match level.next? word with
    | some below => help below rest
    | none => if level.isOpen && word == "help" && rest.isEmpty then .help else .unknownCommand

/-- Reads the arguments of a level, down to the last one that its words lead to. -/
def readLevel (level : Level) (reading : Reading) : List String → Except Fault Request
  | [] => do (← reading.settle).given.finish level
  | argument :: rest =>
    if reading.takesWord && level.isOpen && argument == "help" then .error (help level rest)
    else
      match if reading.takesWord then level.next? argument else none with
      | some below => do
        let request ← readLevel below .start rest
        return (← reading.settle).given.around request
      | none => do readLevel level (← reading.step level argument) rest

/-- Reads the arguments of a run. -/
def read (arguments : List String) : Except Fault Request := readLevel .top .start arguments

end Reckon.Usage
