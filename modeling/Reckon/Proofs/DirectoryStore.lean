import Reckon.Proofs.Except
import Reckon.Store.Directory

/-! A directory store over its disk. A write that is taken is read again, and can be made again; one that is
refused changes no file, and nothing can be read where it was to go. -/

namespace Reckon

namespace Disk

variable {disk after : Disk} {here there path place : List String}

/-- What a file holds. -/
def content? (disk : Disk) (place : List String) : Option Bytes :=
  match disk.node? place with
  | some (.file content) => some content
  | _ => none

/-- There are the same nodes, and directories where there was nothing. -/
def Grows (disk after : Disk) : Prop :=
  ∀ path, after.node? path = disk.node? path ∨
    disk.node? path = none ∧ after.node? path = some .directory

theorem Grows.refl (disk : Disk) : Grows disk disk := fun _ => .inl rfl

theorem Grows.trans {between : Disk} (first : Grows disk between) (second : Grows between after) :
    Grows disk after := by
  intro path
  rcases first path with same | ⟨nothing, made⟩
  · simpa only [same] using second path
  · rcases second path with same | ⟨nothing', _⟩
    · exact .inr ⟨nothing, same.trans made⟩
    · rw [made] at nothing'
      cases nothing'

theorem Grows.content? (grows : Grows disk after) (place : List String) :
    after.content? place = disk.content? place := by
  unfold Disk.content?
  rcases grows place with same | ⟨nothing, made⟩
  · rw [same]
  · rw [nothing, made]

/-- A directory stays one. -/
def KeepsDirectories (disk after : Disk) : Prop :=
  ∀ path, disk.node? path = some .directory → after.node? path = some .directory

theorem Grows.keepsDirectories (grows : Grows disk after) : KeepsDirectories disk after := by
  intro path directory
  rcases grows path with same | ⟨nothing, made⟩
  · rw [same, directory]
  · exact made

theorem grows_put_directory (nothing : disk.node? path = none) : Grows disk (disk.put path .directory) := by
  have below : path ≠ [] := by
    rintro rfl
    cases nothing
  intro other
  rw [node?_put disk .directory other below]
  split
  · rename_i same
    exact .inr ⟨same ▸ nothing, rfl⟩
  · exact .inl rfl

theorem keepsDirectories_put_file (below : place ≠ []) (free : disk.node? place ≠ some .directory)
    (content : Bytes) : KeepsDirectories disk (disk.put place (.file content)) := by
  intro path directory
  rw [node?_put disk _ path below, if_neg, directory]
  rintro rfl
  exact free directory

/-- Following a path looks at directories only. -/
theorem enter_mono (keeps : KeepsDirectories disk after) (entered : disk.enter here path = .ok there) :
    after.enter here path = .ok there := by
  fun_induction disk.enter here path with
  | case1 here => exact entered
  | case2 here rest ih => exact ih entered
  | case3 here rest ih => exact ih entered
  | case4 here rest ih => exact ih entered
  | case5 here name rest _ _ _ fits found ih =>
    simpa [enter, fits, keeps _ found] using ih entered
  | _ => cases entered

theorem enter_append (disk : Disk) (here front back : List String) :
    disk.enter here (front ++ back) = disk.enter here front >>= fun there => disk.enter there back := by
  fun_induction disk.enter here front with
  | case1 here => rfl
  | case2 here rest ih => exact ih
  | case3 here rest ih => exact ih
  | case4 here rest ih => exact ih
  | case5 here name rest _ _ _ fits found ih => simpa [enter, fits, found] using ih
  | case6 here name rest _ _ _ fits content found => simp [enter, fits, found, bind, Except.bind]
  | case7 here name rest _ _ _ fits found => simp [enter, fits, found, bind, Except.bind]
  | case8 here name rest _ _ _ long => simp [enter, long, bind, Except.bind]

/-- Where a path can be followed there is nothing to make. -/
theorem extend_of_enter (entered : disk.enter here path = .ok there) :
    disk.extend here path = (.ok (), disk) := by
  fun_induction disk.enter here path with
  | case1 here => rfl
  | case2 here rest ih => exact ih entered
  | case3 here rest ih => exact ih entered
  | case4 here rest ih => exact ih entered
  | case5 here name rest _ _ _ fits found ih => simpa [extend, fits, found] using ih entered
  | _ => cases entered

theorem grows_extend (disk : Disk) (here path : List String) :
    Grows disk (disk.extend here path).2 := by
  fun_induction disk.extend here path with
  | case1 disk here => exact Grows.refl disk
  | case2 disk here rest ih => exact ih
  | case3 disk here rest ih => exact ih
  | case4 disk here rest ih => exact ih
  | case5 disk here name rest _ _ _ fits found ih => exact ih
  | case6 disk here name rest _ _ _ fits content found => exact Grows.refl disk
  | case7 disk here name rest _ _ _ fits found ih => exact (grows_put_directory found).trans ih
  | case8 disk here name rest _ _ _ long => exact Grows.refl disk

/-- What stops the making of directories stops a path there. -/
theorem not_enter_of_extend {fault : Fault} (refused : disk.extend here path = (.error fault, after)) :
    after.enter here path ≠ .ok there := by
  have grows := grows_extend disk here path
  rw [refused] at grows
  fun_induction disk.extend here path with
  | case1 disk here => cases refused
  | case2 disk here rest ih => exact ih refused grows
  | case3 disk here rest ih => exact ih refused grows
  | case4 disk here rest ih => exact ih refused grows
  | case5 disk here name rest _ _ _ fits found ih =>
    have directory := grows.keepsDirectories _ found
    simpa [enter, fits, directory] using ih refused grows
  | case6 disk here name rest _ _ _ fits content found =>
    cases refused
    simp [enter, fits, found]
  | case7 disk here name rest _ _ _ fits found ih =>
    have later := grows_extend (disk.put (here ++ [name]) .directory) (here ++ [name]) rest
    rw [refused] at later
    have made : (disk.put (here ++ [name]) .directory).node? (here ++ [name]) = some .directory := by
      simp [node?_put]
    have directory := later.keepsDirectories _ made
    simpa [enter, fits, directory] using ih refused later
  | case8 disk here name rest _ _ _ long =>
    cases refused
    simp [enter, long]

theorem toMake_prefix (path : List String) : toMake path <+: path := by
  unfold toMake
  split
  · have ends : (path.reverse.dropWhile stays).tail <:+ path.reverse :=
      (List.tail_suffix _).trans (List.dropWhile_suffix _)
    simpa using List.reverse_prefix.mpr ends
  · exact List.prefix_rfl

/-- Directories that are there need not be made. -/
theorem makeDirectories_of_enter (usable : isPath path = true) (entered : disk.enter [] path = .ok there) :
    disk.makeDirectories path = (.ok (), disk) := by
  obtain ⟨rest, split⟩ := toMake_prefix path
  have front := entered
  rw [← split, enter_append] at front
  obtain ⟨_, enteredFront, _⟩ := exists_of_bind_ok front
  simp [makeDirectories, usable, extend_of_enter enteredFront, entered, Except.map]

/-- Directories are made just when the path can be followed afterwards. -/
theorem makeDirectories_ok_iff {result : Except Fault Unit}
    (making : disk.makeDirectories path = (result, after)) :
    result = .ok () ↔ isPath path = true ∧ ∃ there, after.enter [] path = .ok there := by
  unfold makeDirectories at making
  split at making
  · rename_i usable
    rw [and_iff_right usable]
    cases extended : disk.extend [] (toMake path) with
    | mk ended between =>
      rw [extended] at making
      cases ended with
      | ok _ =>
        cases making
        cases after.enter [] path <;> simp [Except.map]
      | error fault =>
        cases making
        obtain ⟨rest, split⟩ := toMake_prefix path
        constructor
        · intro made
          cases made
        · rintro ⟨there, entered⟩
          rw [← split, enter_append] at entered
          obtain ⟨_, front, _⟩ := exists_of_bind_ok entered
          exact absurd front (not_enter_of_extend extended)
  · rename_i unusable
    cases making
    simp [unusable]

theorem grows_makeDirectories (disk : Disk) (path : List String) :
    Grows disk (disk.makeDirectories path).2 := by
  have grows := grows_extend disk [] (toMake path)
  unfold makeDirectories
  split
  · split
    · rename_i made
      rwa [made] at grows
    · exact grows
  · exact Grows.refl disk

theorem resolve_eq_ok_iff : disk.resolve path = .ok place ↔
    isPath path = true ∧ (path.getLast?.getD "").utf8ByteSize ≤ nameLimit ∧
      ∃ here, disk.enter [] path.dropLast = .ok here ∧ place = here ++ [path.getLast?.getD ""] := by
  unfold resolve
  cases usable : isPath path with
  | false => simp [bind, Except.bind, throw, throwThe, MonadExceptOf.throw]
  | true =>
    simp only [Bool.not_true, Bool.false_eq_true, if_false, bind_eq_ok_iff, true_and]
    by_cases fits : (path.getLast?.getD "").utf8ByteSize ≤ nameLimit
    · simp [fits, pure, Except.pure, eq_comm]
    · simp [fits, throw, throwThe, MonadExceptOf.throw]

theorem resolve_mono (keeps : KeepsDirectories disk after) (resolved : disk.resolve path = .ok place) :
    after.resolve path = .ok place := by
  obtain ⟨usable, fits, here, entered, same⟩ := resolve_eq_ok_iff.mp resolved
  exact resolve_eq_ok_iff.mpr ⟨usable, fits, here, enter_mono keeps entered, same⟩

theorem readFile_eq_ok_iff {content : Bytes} : disk.readFile path = .ok content ↔
    ∃ place, disk.resolve path = .ok place ∧ disk.node? place = some (.file content) := by
  rw [readFile, bind_eq_ok_iff]
  apply exists_congr
  intro place
  apply and_congr_right
  intro _
  split
  · rename_i found
    simp [found, pure, Except.pure]
  · rename_i found
    simp [found, throw, throwThe, MonadExceptOf.throw]
  · rename_i found
    simp [found, throw, throwThe, MonadExceptOf.throw]

theorem writeFile_eq_ok_iff {content : Bytes} : disk.writeFile path content = .ok after ↔
    ∃ place, disk.resolve path = .ok place ∧ disk.node? place ≠ some .directory ∧
      after = disk.put place (.file content) := by
  rw [writeFile, bind_eq_ok_iff]
  apply exists_congr
  intro place
  apply and_congr_right
  intro _
  split
  · rename_i found
    simp [found, throw, throwThe, MonadExceptOf.throw]
  · rename_i free
    rw [and_iff_right (show disk.node? place ≠ some .directory from free)]
    simp [pure, Except.pure, eq_comm]

/-- A written file is read again, and every directory is still there. -/
theorem readFile_writeFile {content : Bytes} (written : disk.writeFile path content = .ok after) :
    after.readFile path = .ok content ∧ KeepsDirectories disk after := by
  obtain ⟨place, resolved, free, rfl⟩ := writeFile_eq_ok_iff.mp written
  obtain ⟨_, _, here, _, same⟩ := resolve_eq_ok_iff.mp resolved
  have below : place ≠ [] := by simp [same]
  have keeps := keepsDirectories_put_file below free content
  refine ⟨readFile_eq_ok_iff.mpr ⟨place, resolve_mono keeps resolved, ?_⟩, keeps⟩
  rw [node?_put disk _ place below, if_pos rfl]

/-- A file that can be read can be written. -/
theorem writeFile_of_readFile {content : Bytes} (read : disk.readFile path = .ok content) (other : Bytes) :
    ∃ after, disk.writeFile path other = .ok after := by
  obtain ⟨place, resolved, found⟩ := readFile_eq_ok_iff.mp read
  exact ⟨_, writeFile_eq_ok_iff.mpr ⟨place, resolved, by simp [found], rfl⟩⟩

/-- The directory of a longer path can be used, with a slash at its end or without. -/
theorem isPath_front {front back : List String} (usable : isPath (front ++ back) = true)
    (some : front ≠ []) (more : back ≠ []) :
    isPath front = true ∧ isPath (front ++ [""]) = true := by
  have tail : "/".intercalate [""] = "" := rfl
  simp only [isPath, Bool.and_eq_true, decide_eq_true_eq, List.all_append,
    String.intercalate_append_of_ne_nil some more, String.utf8ByteSize_append] at usable
  obtain ⟨short, clean, _⟩ := usable
  constructor
  · simp only [isPath, Bool.and_eq_true, decide_eq_true_eq]
    exact ⟨by omega, clean⟩
  · simp only [isPath, Bool.and_eq_true, decide_eq_true_eq, List.all_append,
      String.intercalate_append_of_ne_nil some (List.cons_ne_nil "" []), String.utf8ByteSize_append, tail]
    exact ⟨by simp; omega, clean, by decide⟩

end Disk

namespace Directory

open Disk (names isPath)

theorem names_ne_nil (path : String) : names path ≠ [] := by
  simp [names, List.splitOn]

theorem names_eq_base (root : String) : names root = base root ∨ names root = base root ++ [""] := by
  unfold base
  split
  · rename_i last
    obtain ⟨front, whole⟩ := List.getLast?_eq_some_iff.mp last
    rw [whole, List.dropLast_concat]
    exact .inr rfl
  · exact .inl rfl

variable {store after : Directory} {key : String} {bytes : Bytes}

/-- A write is taken when the directory can be made and the file be written there. -/
theorem put_eq_ok_iff : put store key bytes = (.ok (), after) ↔
    after.root = store.root ∧ ∃ made, store.disk.makeDirectories (names store.root) = (.ok (), made) ∧
      made.writeFile (location store.root key) bytes = .ok after.disk := by
  obtain ⟨disk, root⟩ := after
  unfold put
  cases making : store.disk.makeDirectories (names store.root) with
  | mk result made =>
    cases result with
    | error fault => simp
    | ok _ =>
      cases written : made.writeFile (location store.root key) bytes with
      | error fault => simp [written]
      | ok done => simp [written, and_comm, eq_comm]

/-- A write is refused when the directory cannot be made, or the file not be written there. -/
theorem put_error {error : StoreError} (refused : put store key bytes = (.error error, after)) :
    after.root = store.root ∧ ((∃ fault, store.disk.makeDirectories (names store.root) =
        (.error fault, after.disk)) ∨
      store.disk.makeDirectories (names store.root) = (.ok (), after.disk) ∧
        ∃ fault, after.disk.writeFile (location store.root key) bytes = .error fault) := by
  unfold put at refused
  cases making : store.disk.makeDirectories (names store.root) with
  | mk result made =>
    rw [making] at refused
    cases result with
    | error fault =>
      cases refused
      exact ⟨rfl, .inl ⟨fault, rfl⟩⟩
    | ok _ =>
      cases written : made.writeFile (location store.root key) bytes with
      | error fault =>
        simp only [written] at refused
        cases refused
        exact ⟨rfl, .inr ⟨rfl, fault, written⟩⟩
      | ok done =>
        simp only [written] at refused
        cases refused

/-- What is written is read again. -/
theorem get_of_put (taken : put store key bytes = (.ok (), after)) : get after key = .ok (some bytes) := by
  obtain ⟨same, made, _, written⟩ := put_eq_ok_iff.mp taken
  rw [get, same, (Disk.readFile_writeFile written).1]

/-- Where one write is taken any other is. -/
theorem put_instead (taken : put store key bytes = (.ok (), after)) (other : Bytes) :
    ∃ last, put store key other = (.ok (), last) := by
  obtain ⟨_, made, making, written⟩ := put_eq_ok_iff.mp taken
  obtain ⟨place, resolved, free, _⟩ := Disk.writeFile_eq_ok_iff.mp written
  exact ⟨⟨made.put place (.file other), store.root⟩, put_eq_ok_iff.mpr
    ⟨rfl, made, making, Disk.writeFile_eq_ok_iff.mpr ⟨place, resolved, free, rfl⟩⟩⟩

/-- After a write that is taken all writes under its key are. -/
theorem put_of_put (taken : put store key bytes = (.ok (), after)) (other : Bytes) :
    ∃ last, put after key other = (.ok (), last) := by
  obtain ⟨same, made, making, written⟩ := put_eq_ok_iff.mp taken
  obtain ⟨read, keeps⟩ := Disk.readFile_writeFile written
  obtain ⟨usable, there, entered⟩ := (Disk.makeDirectories_ok_iff making).mp rfl
  obtain ⟨disk, writtenAgain⟩ := Disk.writeFile_of_readFile read other
  refine ⟨⟨disk, after.root⟩, put_eq_ok_iff.mpr ⟨rfl, after.disk, ?_, by rw [same, writtenAgain]⟩⟩
  rw [same, Disk.makeDirectories_of_enter usable (Disk.enter_mono keeps entered)]

/-- A refused write changes no file. -/
theorem content?_of_refused {error : StoreError} (refused : put store key bytes = (.error error, after))
    (place : List String) : after.disk.content? place = store.disk.content? place := by
  have grows := Disk.grows_makeDirectories store.disk (names store.root)
  obtain ⟨_, ⟨fault, making⟩ | ⟨making, _⟩⟩ := put_error refused
  · rw [making] at grows
    exact grows.content? place
  · rw [making] at grows
    exact grows.content? place

/-- Where a key's file can be read its directory is there. -/
theorem enter_of_readFile (relative : key.startsWith '/' = false) {disk : Disk} {root : String}
    (read : disk.readFile (location root key) = .ok bytes) :
    isPath (names root) = true ∧ ∃ there, disk.enter [] (names root) = .ok there := by
  obtain ⟨place, resolved, _⟩ := Disk.readFile_eq_ok_iff.mp read
  obtain ⟨usable, _, here, entered, _⟩ := Disk.resolve_eq_ok_iff.mp resolved
  have whole : location root key = base root ++ names (key ++ ".json") := by
    simp [location, relative]
  rw [whole, List.dropLast_append_of_ne_nil (names_ne_nil _), Disk.enter_append] at entered
  rw [whole] at usable
  obtain ⟨there, front, _⟩ := exists_of_bind_ok entered
  by_cases top : base root = []
  · have single : names root = [""] := by
      rcases names_eq_base root with same | same
      · exact absurd (same.trans top) (names_ne_nil root)
      · rw [same, top]
        rfl
    rw [single]
    exact ⟨by decide +kernel, [], rfl⟩
  · obtain ⟨plain, slashed⟩ := Disk.isPath_front usable top (names_ne_nil _)
    rcases names_eq_base root with same | same
    · rw [same]
      exact ⟨plain, there, front⟩
    · rw [same, Disk.enter_append, front]
      exact ⟨slashed, there, rfl⟩

/-- What is read can be written. -/
theorem put_of_readFile (relative : key.startsWith '/' = false)
    (read : store.disk.readFile (location store.root key) = .ok bytes) (other : Bytes) :
    ∃ last, put store key other = (.ok (), last) := by
  obtain ⟨usable, there, entered⟩ := enter_of_readFile relative read
  obtain ⟨disk, written⟩ := Disk.writeFile_of_readFile read other
  exact ⟨⟨disk, store.root⟩,
    put_eq_ok_iff.mpr ⟨rfl, store.disk, Disk.makeDirectories_of_enter usable entered, written⟩⟩

/-- Where a write is refused nothing could be read, and nothing can afterwards. -/
theorem readFile_of_refused (relative : key.startsWith '/' = false) {error : StoreError}
    (refused : put store key bytes = (.error error, after)) (content : Bytes) :
    store.disk.readFile (location store.root key) ≠ .ok content ∧
      after.disk.readFile (location store.root key) ≠ .ok content := by
  constructor
  · intro read
    obtain ⟨last, taken⟩ := put_of_readFile relative read bytes
    rw [refused] at taken
    cases taken
  · intro read
    obtain ⟨usable, there, entered⟩ := enter_of_readFile relative read
    obtain ⟨_, ⟨fault, making⟩ | ⟨_, fault, written⟩⟩ := put_error refused
    · cases (Disk.makeDirectories_ok_iff making).mpr ⟨usable, there, entered⟩
    · obtain ⟨disk, taken⟩ := Disk.writeFile_of_readFile read bytes
      rw [written] at taken
      cases taken

end Directory

end Reckon
