import Reckon.Store

/-! The store that keeps each key in a file of its own, in one directory of a disk. The directory
is made by the first write, so that before it nothing is found. -/

namespace Reckon

structure Directory where
  disk : Disk
  /-- The path of the directory. -/
  root : String
  deriving DecidableEq, Repr

namespace Directory

/-- The names of the root, to which others are added. No further slash is put after one at its
end. -/
def base (root : String) : List String :=
  if (Disk.names root).getLast? = some "" then (Disk.names root).dropLast else Disk.names root

/-- The path of a key's file. A key with slashes leads on from the root, or from the top when it
starts with one. -/
def location (root key : String) : List String :=
  (if key.startsWith '/' then [] else base root) ++ Disk.names (key ++ ".json")

def get (store : Directory) (key : String) : Except StoreError (Option Bytes) :=
  match store.disk.readFile (location store.root key) with
  | .ok bytes => .ok (some bytes)
  | .error .missing => .ok none
  | .error fault => .error ⟨key, .disk fault⟩

def put (store : Directory) (key : String) (bytes : Bytes) : Except StoreError Unit × Directory :=
  match store.disk.makeDirectories (Disk.names store.root) with
  | (.error fault, disk) => (.error ⟨key, .disk fault⟩, { store with disk })
  | (.ok _, disk) =>
    match disk.writeFile (location store.root key) bytes with
    | .ok disk => (.ok (), { store with disk })
    | .error fault => (.error ⟨key, .disk fault⟩, { store with disk })

instance : Store Directory where
  get := get
  put := put

/-- The names of the files in the directory, when it can be listed. -/
def files? (store : Directory) : Option (List String) := store.disk.list? (Disk.names store.root)

end Directory

end Reckon
