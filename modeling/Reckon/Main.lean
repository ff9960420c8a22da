import Reckon.Command.Usage
import Reckon.Disk
import Reckon.Store.Memory

/-! The program: reads the arguments and the stored formulas, carries out the command, writes
what it changed and prints. -/

namespace Reckon.Program

/-- The stored bytes of a directory, none before the first write. -/
def readStored (path : String) : IO (Option ByteArray) := do
  try
    return some (← IO.FS.readBinFile path)
  catch
    | .noFileOrDirectory .. => return none
    | error => throw error

/-- Makes the directories of a path that a write makes when they are missing. -/
def makeWay (path : String) : IO Unit := do
  let way := "/".intercalate (Disk.toMake (Disk.names path))
  if !way.isEmpty then IO.FS.createDirAll way

def usage : String :=
  "Usage: formulary [--store DIR] [--right-assoc-power] COMMAND

Commands:
  eval EXPRESSION [-v NAME=VALUE]...   evaluates an expression
  vars EXPRESSION                      prints the variables of an expression
  formula add NAME EXPRESSION          saves a formula and prints its id
  formula list                         lists saved formulas
  formula remove ID                    deletes a saved formula
  formula run ID [-v NAME=VALUE]...    evaluates a saved formula
"

/-- Tells why the arguments were not understood, and returns the exit code. -/
def misuse (fault : Usage.Fault) : IO UInt32 := do
  match fault with
  | .help => IO.print usage; return 0
  | .version => IO.println "formulary 0.1.0"; return 0
  | .badBinding fault => IO.eprintln ("error: " ++ fault.message); return 2
  | _ => IO.eprint usage; return 2

/-- Carries out what the arguments ask for and returns the exit code. -/
def run (arguments : List String) : IO UInt32 := do
  match Usage.read arguments with
  | .error fault => misuse fault
  | .ok request =>
    let home := (← IO.getEnv "FORMULARY_STORE").getD ".formulary"
    let directory := request.directory.getD home
    let path := directory ++ "/" ++ Book.key ++ ".json"
    let power := if request.rightAssocPower then Grouping.right else .left
    try
      let before ← if request.command.usesBook then readStored path else pure none
      let memory : Memory := match before with
        | some bytes => Memory.empty.insert Book.key bytes.toList
        | none => Memory.empty
      match request.command.perform power memory with
      | (.ok _, text, after) =>
        if after ≠ memory then
          if let some bytes := after.get? Book.key then
            makeWay directory
            IO.FS.writeBinFile path bytes.toByteArray
        IO.print text
        return 0
      | (.error error, text, _) => IO.print text; IO.eprintln error.message; return 1
    catch error =>
      IO.eprintln ("Failed to access stored key '" ++ Book.key ++ "': " ++ error.toString)
      return 1

end Reckon.Program

def main (arguments : List String) : IO UInt32 := Reckon.Program.run arguments
