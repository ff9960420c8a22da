import Reckon.Command.Usage
import Reckon.Store.Directory

/-! Runs of the command line on a disk. -/

namespace Reckon

inductive Outcome where
  | printed (text : String)
  /-- An error, after this text was printed. -/
  | failed {text : String} (error : BookError)
  | misused (fault : Usage.Fault)
  deriving DecidableEq, Repr

namespace Outcome

/-- The outcome of a command that has printed a text. -/
def ofResult (result : Except BookError Unit) (text : String) : Outcome :=
  match result with
  | .ok _ => .printed text
  | .error error => @failed text error

/-- Nothing to report when help or the version was asked for. -/
def exitCode : Outcome → Nat
  | .printed _ => 0
  | .failed _ => 1
  | .misused .help | .misused .version => 0
  | .misused _ => 2

/-- What goes to the output. -/
def output : Outcome → String
  | .printed text => text
  | @failed text _ => text
  | .misused _ => ""

end Outcome

/-- The grouping of powers that a request asks for. -/
def Usage.Request.power (request : Usage.Request) : Grouping :=
  if request.rightAssocPower then .right else .left

/-- Runs the command line with these arguments. `directory` holds the formulas unless another
one is given. -/
def runArguments (directory : String) (disk : Disk) (arguments : List String) : Outcome × Disk :=
  match Usage.read arguments with
  | .error fault => (.misused fault, disk)
  | .ok request =>
    let store : Directory := ⟨disk, request.directory.getD directory⟩
    let (result, text, store) := request.command.perform request.power store
    (.ofResult result text, store.disk)

end Reckon
