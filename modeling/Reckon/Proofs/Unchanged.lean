import Reckon.Proofs.CommandEnd
import Reckon.Proofs.DirectoryStore

/-! What runs of the command line leave as it was. Only an addition or a removal that succeeds changes what
is stored. -/

namespace Reckon

namespace Command

variable {σ : Type} [Store σ]

variable {book : Book σ} {writes : Bool} {ended : Except BookError Unit × Progress σ}

theorem End.book_eq (ends : End book false ended) : ended.2.book = book := by
  cases ends with
  | kept silent => rfl

/-- A command that fails upon a book has printed nothing, and has at most tried to write. -/
theorem End.of_error (ends : End book writes ended) {error : BookError} (failed : ended.1 = .error error) :
    ended.2.output = "" ∧ (ended.2.book.store = book.store ∨
      ∃ bytes refusal, Store.put book.store Book.key bytes = (.error refusal, ended.2.book.store)) := by
  cases ends with
  | kept silent => exact ⟨silent error failed, .inl rfl⟩
  | changed change silent =>
    cases change with
    | wrong other => exact ⟨silent other rfl, .inl rfl⟩
    | undone refused => exact ⟨silent _ rfl, .inr ⟨_, _, refused⟩⟩
    | made about taken => cases failed

/-- A command that is not to change formulas leaves the store. -/
theorem perform_kept (power : Grouping) (store : σ) {command : Command} (reads : command.changes = false) :
    (command.perform power store).2.2 = store := by
  rcases perform_cases power store command with ⟨error, performed⟩ | ⟨book, same, performed⟩
  · rw [performed]
  · have ends := end_onBook power book command
    rw [reads] at ends
    rw [performed, ends.book_eq, same]

theorem perform_error {power : Grouping} {store after : σ} {command : Command} {error : BookError}
    {text : String} (failed : command.perform power store = (.error error, text, after)) :
    text = "" ∧ (after = store ∨ ∃ bytes refusal, Store.put store Book.key bytes = (.error refusal, after)) := by
  rcases perform_cases power store command with ⟨other, performed⟩ | ⟨book, same, performed⟩
  · rw [performed] at failed
    cases failed
    exact ⟨rfl, .inl rfl⟩
  · rw [performed] at failed
    simp only [Prod.mk.injEq] at failed
    obtain ⟨ended, rfl, rfl⟩ := failed
    rw [← same]
    exact (end_onBook power book command).of_error ended

end Command

/-- A refused write leaves every file as it was, and nothing to read at its place. -/
theorem Directory.unchanged_of_refused {store after : Directory} {bytes : Bytes} {error : StoreError}
    (refused : Store.put store Book.key bytes = (.error error, after)) :
    (∀ place, after.disk.content? place = store.disk.content? place) ∧
      (after.disk.readFile (location store.root Book.key)).toOption =
        (store.disk.readFile (location store.root Book.key)).toOption := by
  have relative : Book.key.startsWith '/' = false := by decide +kernel
  refine ⟨content?_of_refused refused, ?_⟩
  have unread {disk : Disk} (unreadable : ∀ content, disk.readFile (location store.root Book.key) ≠
      .ok content) : (disk.readFile (location store.root Book.key)).toOption = none := by
    cases read : disk.readFile (location store.root Book.key) with
    | ok content => exact absurd read (unreadable content)
    | error fault => rfl
  rw [unread fun content => (readFile_of_refused relative refused content).1,
    unread fun content => (readFile_of_refused relative refused content).2]

open Directory (location)

/-- A run that fails prints nothing and leaves every file as it was, also the one of the formulas as it is
found by its path. One that succeeds leaves the whole disk, unless it adds or removes a formula. -/
theorem runArguments_unchanged (directory : String) (disk : Disk) (arguments : List String) :
    let ran := runArguments directory disk arguments
    (ran.1.exitCode ≠ 0 → ran.1.output = "" ∧
      (∀ place, ran.2.content? place = disk.content? place) ∧
      ∀ request, Usage.read arguments = .ok request →
        let path := location (request.directory.getD directory) Book.key
        (ran.2.readFile path).toOption = (disk.readFile path).toOption) ∧
    (ran.1.exitCode = 0 →
      (∀ request, Usage.read arguments = .ok request → request.command.changes = false) →
        ran.2 = disk) := by
  intro ran
  cases understood : Usage.read arguments with
  | error fault =>
    have whole : ran = (.misused fault, disk) := by
      simp only [ran, runArguments, understood]
    rw [whole]
    exact ⟨fun _ => ⟨rfl, fun _ => rfl, fun _ _ => rfl⟩, fun _ _ => rfl⟩
  | ok request =>
    let store : Directory := ⟨disk, request.directory.getD directory⟩
    cases performed : request.command.perform request.power store with
    | mk result rest =>
      obtain ⟨text, after⟩ := rest
      have whole : ran = (.ofResult result text, after.disk) := by
        simp only [ran, runArguments, understood]
        rw [performed]
      rw [whole]
      constructor
      · intro failed
        cases result with
        | ok _ => exact absurd rfl failed
        | error error =>
          obtain ⟨silent, left⟩ := Command.perform_error performed
          refine ⟨silent, ?_⟩
          rcases left with same | ⟨bytes, refusal, refused⟩
          · rw [same]
            exact ⟨fun _ => rfl, fun _ _ => rfl⟩
          · obtain ⟨files, read⟩ := Directory.unchanged_of_refused refused
            refine ⟨files, ?_⟩
            intro other same
            cases same
            exact read
      · intro _ reads
        have kept := Command.perform_kept request.power store (reads request rfl)
        rw [performed] at kept
        exact congrArg Directory.disk kept

/-- A formula that cannot be written, since a file is in the way of its directory: another directory on
the way is made, and no file. An evaluation makes nothing. -/
theorem runArguments_unchanged_refused :
    let disk : Disk := ⟨[(["file"], .file [])]⟩
    let added := runArguments ".reckon" disk ["--store", "new/../file", "formula", "add", "m", "1"]
    let evaluated := runArguments ".reckon" disk ["eval", "1 + 1"]
    added.1.exitCode = 1 ∧ added.2.node? ["new"] = some .directory ∧ added.1.output = "" ∧
      (∀ place, added.2.content? place = disk.content? place) ∧
      evaluated.1.output = "2\n" ∧ evaluated.2 = disk := by
  intro disk added evaluated
  obtain ⟨fails, _⟩ :=
    runArguments_unchanged ".reckon" disk ["--store", "new/../file", "formula", "add", "m", "1"]
  obtain ⟨_, succeeds⟩ := runArguments_unchanged ".reckon" disk ["eval", "1 + 1"]
  have code : added.1.exitCode = 1 := by decide +kernel
  have made : added.2.node? ["new"] = some .directory := by decide +kernel
  have printed : evaluated.1.output = "2\n" := by decide +kernel
  have code' : evaluated.1.exitCode = 0 := by decide +kernel
  have understood : Usage.read ["eval", "1 + 1"] = .ok ⟨none, false, .eval "1 + 1" []⟩ := by
    decide +kernel
  obtain ⟨silent, files, _⟩ := fails (by rw [code]; decide)
  refine ⟨code, made, silent, files, printed, succeeds code' ?_⟩
  intro request same
  rw [understood] at same
  cases same
  rfl

end Reckon
