import Reckon.Bytes
import Reckon.Entries

/-! A tree of directories and files, addressed by paths of names. -/

namespace Reckon

inductive Node where
  | file (content : Bytes)
  | directory
  deriving DecidableEq, Repr

/-- The nodes below the top directory, each with the names that lead to it. -/
structure Disk where
  nodes : List (List String × Node)
  deriving DecidableEq, Repr

namespace Disk

/-- Why a path cannot be followed or a node not be used. -/
inductive Fault where
  | missing
  | notDirectory
  | isDirectory
  | nameTooLong
  /-- The path is too long, or holds a null character. -/
  | badPath
  deriving DecidableEq, Repr

def Fault.message : Fault → String
  | .missing => "no such file or directory"
  | .notDirectory => "not a directory"
  | .isDirectory => "is a directory"
  | .nameTooLong => "file name too long"
  | .badPath => "invalid path"

def empty : Disk := ⟨[]⟩

/-- The names between the slashes of a path. Empty ones and a single dot change nothing. -/
def names (path : String) : List String := (path.toList.splitOn '/').map String.ofList

def node? (disk : Disk) (path : List String) : Option Node :=
  if path.isEmpty then some .directory else disk.nodes.lookup path

def put (disk : Disk) (path : List String) (node : Node) : Disk :=
  ⟨Entries.insert disk.nodes path node⟩

theorem node?_put (disk : Disk) {path : List String} (node : Node) (other : List String)
    (below : path ≠ []) :
    (disk.put path node).node? other = if other = path then some node else disk.node? other := by
  by_cases same : other = path
  · subst same
    simp [node?, put, Entries.lookup_insert, below]
  · simp [node?, put, Entries.lookup_insert, same]

/-- The most bytes that a name may have. -/
def nameLimit : Nat := 255

/-- The most bytes that a path may have. -/
def pathLimit : Nat := 4095

/-- Whether a path can be used at all, whatever the disk holds. -/
def isPath (path : List String) : Bool :=
  ("/".intercalate path).utf8ByteSize ≤ pathLimit && path.all fun name => !name.toList.contains '\x00'

/-- The directory that names lead to from a directory. -/
def enter (disk : Disk) (here : List String) : List String → Except Fault (List String)
  | [] => .ok here
  | "" :: rest => enter disk here rest
  | "." :: rest => enter disk here rest
  | ".." :: rest => enter disk here.dropLast rest
  | name :: rest =>
    if name.utf8ByteSize ≤ nameLimit then
      match disk.node? (here ++ [name]) with
      | some .directory => enter disk (here ++ [name]) rest
      | some (.file _) => .error .notDirectory
      | none => .error .missing
    else .error .nameTooLong

/-- Makes the directories that names lead through from a directory, as far as they are missing. -/
def extend (disk : Disk) (here : List String) : List String → Except Fault Unit × Disk
  | [] => (.ok (), disk)
  | "" :: rest => extend disk here rest
  | "." :: rest => extend disk here rest
  | ".." :: rest => extend disk here.dropLast rest
  | name :: rest =>
    if name.utf8ByteSize ≤ nameLimit then
      match disk.node? (here ++ [name]) with
      | some .directory => extend disk (here ++ [name]) rest
      | some (.file _) => (.error .notDirectory, disk)
      | none => extend (disk.put (here ++ [name]) .directory) (here ++ [name]) rest
    else (.error .nameTooLong, disk)

/-- Whether a name leads nowhere else: the empty one, or a single dot. -/
def stays (name : String) : Bool := name.isEmpty || name == "."

/-- The names that lead through the directories to make. A dot at the end of a path stands inside
the directory before it, which is therefore not made but has to be there. -/
def toMake (path : List String) : List String :=
  if (path.reverse.takeWhile stays).contains "." then
    (path.reverse.dropWhile stays).tail.reverse
  else path

/-- Makes a directory and those above it, as far as they are missing, and enters it. -/
def makeDirectories (disk : Disk) (path : List String) : Except Fault Unit × Disk :=
  if isPath path then
    match disk.extend [] (toMake path) with
    | (.ok _, disk) => ((disk.enter [] path).map fun _ => (), disk)
    | refused => refused
  else (.error .badPath, disk)

/-- The place of a file: its name after that of the directory that the names before it lead to. -/
def resolve (disk : Disk) (path : List String) : Except Fault (List String) := do
  if !isPath path then throw .badPath
  let here ← disk.enter [] path.dropLast
  let name := path.getLast?.getD ""
  if name.utf8ByteSize ≤ nameLimit then return here ++ [name] else throw .nameTooLong

/-- The content of a file. -/
def readFile (disk : Disk) (path : List String) : Except Fault Bytes := do
  match disk.node? (← disk.resolve path) with
  | some (.file content) => return content
  | some .directory => throw .isDirectory
  | none => throw .missing

/-- Makes or replaces a file. -/
def writeFile (disk : Disk) (path : List String) (content : Bytes) : Except Fault Disk := do
  let place ← disk.resolve path
  match disk.node? place with
  | some .directory => throw .isDirectory
  | _ => return disk.put place (.file content)

/-- The names in a directory, in ascending order, when it can be entered. -/
def list? (disk : Disk) (directory : List String) : Option (List String) :=
  match disk.enter [] directory with
  | .error _ => none
  | .ok here =>
    let inside := disk.nodes.filterMap fun (path, _) =>
      if path.dropLast == here then path.getLast? else none
    some (inside.mergeSort fun a b => !decide (b < a))

end Disk

end Reckon
