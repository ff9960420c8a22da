import Mathlib.Data.List.Basic
import Reckon.Proofs.DirectoryStore
import Reckon.Store.Memory

/-! Calls of stores. A directory that starts without files answers as memory does: what was written last
under a key is read under it, and under no other. -/

namespace Reckon

namespace Store

inductive Call where
  | get (key : String)
  | put (key : String) (bytes : Bytes)

inductive Reply where
  | got (result : Except StoreError (Option Bytes))
  | put (result : Except StoreError Unit)

def Call.key : Call → String
  | get key => key
  | put key _ => key

variable {σ : Type} [Store σ]

def call (store : σ) : Call → Reply × σ
  | .get key => (.got (get store key), store)
  | .put key bytes => (.put (put store key bytes).1, (put store key bytes).2)

/-- The replies to calls made one after another, and the store after them. -/
def callAll (store : σ) : List Call → List Reply × σ
  | [] => ([], store)
  | first :: rest =>
    ((call store first).1 :: (callAll (call store first).2 rest).1, (callAll (call store first).2 rest).2)

/-- What a call writes under a key. -/
def Call.written? (key : String) : Call → Option Bytes
  | put other bytes => if key = other then some bytes else none
  | get _ => none

/-- What the last of the calls that write under a key writes there. -/
def lastWritten? (key : String) (calls : List Call) : Option Bytes :=
  calls.reverse.findSome? (Call.written? key)

theorem lastWritten?_cons (key : String) (first : Call) (rest : List Call) :
    lastWritten? key (first :: rest) = (lastWritten? key rest).or (first.written? key) := by
  rw [lastWritten?, List.reverse_cons, List.findSome?_append, List.findSome?_singleton, lastWritten?]

end Store

open Store (Call callAll lastWritten?)

theorem Memory.get?_callAll (memory : Memory) (calls : List Call) (key : String) :
    (callAll memory calls).2.get? key = (lastWritten? key calls).or (memory.get? key) := by
  induction calls generalizing memory with
  | nil => rfl
  | cons first rest ih =>
    rw [callAll, ih, Store.lastWritten?_cons, Option.or_assoc]
    cases first with
    | get other => rfl
    | put other bytes =>
      have inserted : (Store.call memory (.put other bytes)).2.get? key = _ :=
        get?_insert memory other key bytes
      rw [inserted, Store.Call.written?]
      by_cases same : key = other
      · simp [same]
      · simp [same]

namespace Disk

/-- Every node stands in a directory. -/
def IsTree (disk : Disk) : Prop :=
  ∀ entry ∈ disk.nodes, disk.node? entry.1.dropLast = some .directory

variable {disk after : Disk} {here there path : List String}

theorem IsTree.node?_inside (tree : disk.IsTree) (nothing : disk.node? here = none) (name : String) :
    disk.node? (here ++ [name]) = none := by
  cases found : disk.node? (here ++ [name]) with
  | none => rfl
  | some node =>
    have below : disk.nodes.lookup (here ++ [name]) = some node := by
      simpa [node?] using found
    obtain ⟨front, back, split, _⟩ := List.lookup_eq_some_iff.mp below
    have inside := tree (here ++ [name], node) (by rw [split]; simp)
    rw [List.dropLast_concat, nothing] at inside
    cases inside

/-- Where a path can be followed once directories are made, nothing but what is made was missing. -/
theorem enter_of_grows (grows : Grows disk after) (entered : after.enter here path = .ok there) :
    disk.enter here path = .ok there ∨ disk.enter here path = .error .missing := by
  fun_induction after.enter here path with
  | case1 here => exact .inl entered
  | case2 here rest ih => exact ih entered
  | case3 here rest ih => exact ih entered
  | case4 here rest ih => exact ih entered
  | case5 here name rest _ _ _ fits found ih =>
    rcases grows (here ++ [name]) with same | ⟨nothing, _⟩
    · rw [found] at same
      simpa [enter, fits, ← same] using ih entered
    · right
      simp [enter, fits, nothing]
  | _ => cases entered

end Disk

namespace Directory

open Disk (names isPath Grows)

/-- Keys that are part of a file's name as they are, and not too long for one. -/
structure IsKey (key : String) : Prop where
  slash : '/' ∉ key.toList
  null : '\x00' ∉ key.toList
  short : key.utf8ByteSize ≤ 200

variable {store after : Directory} {root key other : String} {there : List String} {disk : Disk}

theorem location_eq (isKey : IsKey key) : location root key = base root ++ [key ++ ".json"] := by
  have relative : key.startsWith '/' = false := by
    rw [String.startsWith_char_eq_head?]
    apply beq_eq_false_iff_ne.mpr
    intro first
    exact isKey.slash (List.mem_of_head? first)
  have whole : '/' ∉ (key ++ ".json").toList := by
    rw [String.toList_append]
    simp [isKey.slash]
  have single : names (key ++ ".json") = [key ++ ".json"] := by
    rw [names, List.splitOn_eq_singleton whole, List.map_singleton, String.ofList_toList]
  rw [location, relative, single]
  rfl

theorem enter_base (disk : Disk) (root : String) :
    disk.enter [] (base root) = disk.enter [] (names root) := by
  rcases names_eq_base root with same | same
  · rw [same]
  · rw [same, Disk.enter_append]
    cases disk.enter [] (base root) with
    | ok there => rfl
    | error fault => rfl

/-- The file of a key is in the directory, under the key's name with its ending. -/
theorem resolve_location (isKey : IsKey key) (usable : isPath (location root key) = true)
    (entered : disk.enter [] (names root) = .ok there) :
    disk.resolve (location root key) = .ok (there ++ [key ++ ".json"]) := by
  have ending : (".json" : String).utf8ByteSize = 5 := rfl
  refine Disk.resolve_eq_ok_iff.mpr ⟨usable, ?_, there, ?_, ?_⟩
  · rw [location_eq isKey, List.getLast?_concat, Option.getD_some, String.utf8ByteSize_append, ending]
    have short := isKey.short
    simp only [Disk.nameLimit]
    omega
  · rw [location_eq isKey, List.dropLast_concat, enter_base, entered]
  · rw [location_eq isKey, List.getLast?_concat, Option.getD_some]

/-- Where the directory is, or is to be made, there is nothing yet, or nothing is in it. -/
def Unused (store : Directory) : Prop :=
  ∀ made there, store.disk.makeDirectories (names store.root) = (.ok (), made) →
    made.enter [] (names store.root) = .ok there →
    store.disk.node? there = none ∨
      store.disk.node? there = some .directory ∧ ∀ name, store.disk.node? (there ++ [name]) = none

/-- The disk refuses none of the writes that can be made. -/
def Willing (store : Directory) : Prop :=
  ∀ key bytes, IsKey key → ∃ after, put store key bytes = (.ok (), after)

/-- The directory, once it is made, has a file for each key of the memory, with the same bytes, and it is
there unless the memory is empty. -/
structure Mirrors (there : List String) (store : Directory) (memory : Memory) : Prop where
  usable : ∀ key, IsKey key → isPath (location store.root key) = true
  files : ∃ made, store.disk.makeDirectories (names store.root) = (.ok (), made) ∧
    made.enter [] (names store.root) = .ok there ∧
    ∀ key, IsKey key → made.node? (there ++ [key ++ ".json"]) = (memory.get? key).map Node.file
  unmade : store.disk.enter [] (names store.root) = .error .missing → ∀ key, memory.get? key = none

variable {memory : Memory}

theorem Mirrors.get (mirrors : Mirrors there store memory) (isKey : IsKey key) :
    Directory.get store key = .ok (memory.get? key) := by
  obtain ⟨usable, ⟨made, making, entered, files⟩, unmade⟩ := mirrors
  have pathUsable := usable key isKey
  have namesUsable := ((Disk.makeDirectories_ok_iff making).mp rfl).1
  have grows := Disk.grows_makeDirectories store.disk (names store.root)
  rw [making] at grows
  unfold Directory.get Disk.readFile
  rcases Disk.enter_of_grows grows entered with found | missing
  · have same := Disk.makeDirectories_of_enter namesUsable found
    rw [making] at same
    cases same
    rw [resolve_location isKey pathUsable entered]
    simp only [bind, Except.bind, files key isKey]
    cases memory.get? key <;> rfl
  · have unresolved : store.disk.resolve (location store.root key) = .error .missing := by
      rw [location_eq isKey] at pathUsable ⊢
      simp [Disk.resolve, pathUsable, enter_base, missing, bind, Except.bind]
    rw [unresolved, unmade missing key]
    rfl

theorem Mirrors.put (mirrors : Mirrors there store memory) (isKey : IsKey key) (bytes : Bytes) :
    ∃ after, Directory.put store key bytes = (.ok (), after) ∧
      Mirrors there after (memory.insert key bytes) := by
  obtain ⟨usable, ⟨made, making, entered, files⟩, unmade⟩ := mirrors
  have resolved := resolve_location isKey (usable key isKey) entered
  have namesUsable := ((Disk.makeDirectories_ok_iff making).mp rfl).1
  have below : there ++ [key ++ ".json"] ≠ [] := by simp
  have free : made.node? (there ++ [key ++ ".json"]) ≠ some .directory := by
    rw [files key isKey]
    cases memory.get? key <;> simp
  let last := made.put (there ++ [key ++ ".json"]) (.file bytes)
  have enteredLast : last.enter [] (names store.root) = .ok there :=
    Disk.enter_mono (Disk.keepsDirectories_put_file below free bytes) entered
  refine ⟨⟨last, store.root⟩, put_eq_ok_iff.mpr ⟨rfl, made, making, ?_⟩, usable,
    ⟨last, Disk.makeDirectories_of_enter namesUsable enteredLast, enteredLast, ?_⟩, ?_⟩
  · exact Disk.writeFile_eq_ok_iff.mpr ⟨_, resolved, free, rfl⟩
  · intro other isOther
    rw [Disk.node?_put made _ _ below, Memory.get?_insert, files other isOther]
    by_cases same : other = key
    · simp [same]
    · have apart : there ++ [other ++ ".json"] ≠ there ++ [key ++ ".json"] := by
        simpa using same
      rw [if_neg same, if_neg apart]
  · intro missing
    rw [enteredLast] at missing
    cases missing

theorem isKey_empty : IsKey "" := ⟨by simp, by simp, by simp⟩

/-- At the start the directory has no file, as the memory has none. -/
theorem mirrors_start (tree : store.disk.IsTree) (unused : store.Unused) (willing : store.Willing) :
    ∃ there, Mirrors there store .empty := by
  obtain ⟨_, first⟩ := willing "" [] isKey_empty
  obtain ⟨_, made, making, _⟩ := put_eq_ok_iff.mp first
  obtain ⟨_, there, entered⟩ := (Disk.makeDirectories_ok_iff making).mp rfl
  have grows := Disk.grows_makeDirectories store.disk (names store.root)
  rw [making] at grows
  have vacant (name : String) : store.disk.node? (there ++ [name]) = none := by
    rcases unused made there making entered with nothing | ⟨_, empty⟩
    · exact tree.node?_inside nothing name
    · exact empty name
  have taken (key : String) (isKey : IsKey key) : isPath (location store.root key) = true ∧
      made.node? (there ++ [key ++ ".json"]) ≠ some .directory := by
    obtain ⟨_, written⟩ := willing key [] isKey
    obtain ⟨_, again, makingAgain, written⟩ := put_eq_ok_iff.mp written
    cases making.symm.trans makingAgain
    obtain ⟨place, resolved, free, _⟩ := Disk.writeFile_eq_ok_iff.mp written
    have usable := (Disk.resolve_eq_ok_iff.mp resolved).1
    cases resolved.symm.trans (resolve_location isKey usable entered)
    exact ⟨usable, free⟩
  refine ⟨there, fun key isKey => (taken key isKey).1, ⟨made, making, entered, ?_⟩, fun _ _ => rfl⟩
  intro key isKey
  rcases grows (there ++ [key ++ ".json"]) with same | ⟨_, directory⟩
  · exact same.trans (vacant _)
  · exact absurd directory (taken key isKey).2

/-- One call has the same reply. -/
theorem Mirrors.call (mirrors : Mirrors there store memory) {call : Call} (isKey : IsKey call.key) :
    (Store.call store call).1 = (Store.call memory call).1 ∧
      Mirrors there (Store.call store call).2 (Store.call memory call).2 := by
  cases call with
  | get key => exact ⟨congrArg Store.Reply.got (mirrors.get isKey), mirrors⟩
  | put key bytes =>
    obtain ⟨after, written, mirrorsAfter⟩ := mirrors.put isKey bytes
    have same : Store.call store (.put key bytes) = (.put (.ok ()), after) := by
      simp only [Store.call]
      exact congrArg (fun result => (Store.Reply.put result.1, result.2)) written
    rw [same]
    exact ⟨rfl, mirrorsAfter⟩

theorem Mirrors.callAll (mirrors : Mirrors there store memory) {calls : List Call}
    (keys : ∀ call ∈ calls, IsKey call.key) :
    (callAll store calls).1 = (callAll memory calls).1 ∧
      Mirrors there (callAll store calls).2 (callAll memory calls).2 := by
  induction calls generalizing store memory with
  | nil => exact ⟨rfl, mirrors⟩
  | cons first rest ih =>
    obtain ⟨isKey, keysRest⟩ := List.forall_mem_cons.mp keys
    obtain ⟨same, mirrorsNext⟩ := mirrors.call isKey
    obtain ⟨sameRest, mirrorsLast⟩ := ih mirrorsNext keysRest
    exact ⟨congrArg₂ List.cons same sameRest, mirrorsLast⟩

/-- A directory that is not there yet, or is empty, on a disk that refuses nothing, replies to all calls as
a memory does that has nothing. After them each key has what was written last under it, and nothing when
nothing was; writing under one key does not change what is read under another. -/
theorem callAll_eq_memory (tree : store.disk.IsTree) (unused : store.Unused) (willing : store.Willing)
    {calls : List Call} (keys : ∀ call ∈ calls, IsKey call.key) :
    (callAll store calls).1 = (callAll Memory.empty calls).1 ∧
    (∀ key, IsKey key → Store.get (callAll store calls).2 key = .ok (lastWritten? key calls) ∧
      Store.get (callAll Memory.empty calls).2 key = .ok (lastWritten? key calls)) ∧
    ∀ key bytes other, IsKey key → IsKey other → other ≠ key →
      Store.get (Store.put (callAll store calls).2 key bytes).2 other =
        Store.get (callAll store calls).2 other := by
  obtain ⟨there, start⟩ := mirrors_start tree unused willing
  obtain ⟨same, mirrors⟩ := start.callAll keys
  refine ⟨same, ?_, ?_⟩
  · intro key isKey
    have last : (callAll Memory.empty calls).2.get? key = lastWritten? key calls := by
      rw [Memory.get?_callAll]
      exact Option.or_none
    have read := mirrors.get isKey
    rw [last] at read
    exact ⟨read, congrArg Except.ok last⟩
  · intro key bytes other isKey isOther different
    obtain ⟨after, written, mirrorsAfter⟩ := mirrors.put isKey bytes
    have before := mirrors.get isOther
    have later := mirrorsAfter.get isOther
    rw [Memory.get?_insert, if_neg different, ← before] at later
    have put : (Store.put (callAll store calls).2 key bytes).2 = after := congrArg Prod.snd written
    rw [put]
    exact later

/-- A root leaves room for the names of files when the paths of all of them can be used. -/
theorem isPath_location (isKey : IsKey key) (usable : isPath (base root) = true)
    (room : ("/".intercalate (base root)).utf8ByteSize + 206 ≤ Disk.pathLimit) :
    isPath (location root key) = true := by
  rw [isPath, Bool.and_eq_true, List.all_eq_true] at usable
  obtain ⟨_, noNull⟩ := usable
  have short := isKey.short
  have ending : (".json" : String).utf8ByteSize = 5 := rfl
  have separator : ("/" : String).utf8ByteSize = 1 := rfl
  rw [location_eq isKey, isPath, Bool.and_eq_true, decide_eq_true_eq, List.all_eq_true]
  constructor
  · by_cases top : base root = []
    · rw [top, List.nil_append, String.intercalate_singleton, String.utf8ByteSize_append, ending]
      omega
    · rw [String.intercalate_append_of_ne_nil top (by simp), String.intercalate_singleton]
      simp only [String.utf8ByteSize_append, ending, separator]
      omega
  · intro name found
    rcases List.mem_append.mp found with inRoot | isFile
    · exact noNull name inRoot
    · rw [List.mem_singleton.mp isFile]
      simp [isKey.null]

/-- A disk on which the directory can be made refuses no write to it when no directory stands in it. -/
theorem willing_of_makeDirectories {made : Disk} (usable : isPath (base store.root) = true)
    (room : ("/".intercalate (base store.root)).utf8ByteSize + 206 ≤ Disk.pathLimit)
    (making : store.disk.makeDirectories (names store.root) = (.ok (), made))
    (entered : made.enter [] (names store.root) = .ok there)
    (free : ∀ name, made.node? (there ++ [name]) ≠ some .directory) : store.Willing := by
  intro key bytes isKey
  have resolved := resolve_location isKey (isPath_location isKey usable room) entered
  let last := made.put (there ++ [key ++ ".json"]) (.file bytes)
  have written : made.writeFile (location store.root key) bytes = .ok last :=
    Disk.writeFile_eq_ok_iff.mpr ⟨_, resolved, free (key ++ ".json"), rfl⟩
  exact ⟨⟨last, store.root⟩, put_eq_ok_iff.mpr ⟨rfl, made, making, written⟩⟩

/-- A directory two levels below one that is there, beside a file; keys that look like files and
directories, and an empty one. -/
theorem callAll_eq_memory_nested :
    let store : Directory := ⟨⟨[(["tmp"], .directory), (["tmp", "a.json"], .file [1])]⟩, "tmp/nested/store"⟩
    let calls : List Call := [.get "a", .put "a" [2], .put "" [3], .put ".." [4], .put "a" [5], .get "a", .get "a.json"]
    store.disk.IsTree ∧ store.Unused ∧ store.Willing ∧ (∀ call ∈ calls, IsKey call.key) ∧
      (callAll store calls).1 = (callAll Memory.empty calls).1 ∧
      Store.get (callAll store calls).2 "a" = .ok (some [5]) ∧
      Store.get (callAll store calls).2 "a.json" = .ok none := by
  intro store calls
  let made : Disk := ⟨[(["tmp", "nested", "store"], .directory), (["tmp", "nested"], .directory),
    (["tmp"], .directory), (["tmp", "a.json"], .file [1])]⟩
  have making : store.disk.makeDirectories (names store.root) = (.ok (), made) := by decide +kernel
  have entered : made.enter [] (names store.root) = .ok ["tmp", "nested", "store"] := by decide +kernel
  have tree : store.disk.IsTree := by
    unfold Disk.IsTree
    decide
  have unused : store.Unused := by
    intro disk there makingAgain enteredAgain
    cases making.symm.trans makingAgain
    cases entered.symm.trans enteredAgain
    exact .inl rfl
  have willing : store.Willing := by
    refine willing_of_makeDirectories (by decide +kernel) (by decide +kernel) making entered ?_
    intro name
    have nothing : made.node? (["tmp", "nested", "store"] ++ [name]) = none := rfl
    simp only [nothing, ne_eq, reduceCtorEq, not_false_eq_true]
  have file : IsKey "a" := ⟨by decide, by decide, by decide⟩
  have ended : IsKey "a.json" := ⟨by decide, by decide, by decide⟩
  have dots : IsKey ".." := ⟨by decide, by decide, by decide⟩
  have keys : ∀ call ∈ calls, IsKey call.key := by
    simp [calls, Call.key, file, ended, dots, isKey_empty]
  obtain ⟨same, reads, _⟩ := callAll_eq_memory tree unused willing keys
  exact ⟨tree, unused, willing, keys, same, (reads "a" file).1, (reads "a.json" ended).1⟩

end Directory

end Reckon
