import Reckon.Proofs.BookRun
import Reckon.Proofs.CommandEnd
import Reckon.Proofs.DirectoryStore

/-! Runs of the command line on one directory. Each loads the book that the one before it stored, and so
they do what they would upon a book that is kept. -/

namespace Reckon

namespace Directory

/-- Whatever is written under the key of the formulas is taken. -/
def Writable (store : Directory) : Prop :=
  ∀ bytes, ∃ after, put store Book.key bytes = (.ok (), after)

theorem Writable.put {store after : Directory} {bytes : Bytes}
    (taken : put store Book.key bytes = (.ok (), after)) : after.Writable :=
  fun other => put_of_put taken other

end Directory

namespace Command

/-- A book that is stored as it is need not be loaded. -/
theorem perform_eq_onBook {σ : Type} [Store σ] (power : Grouping) {book : Book σ} {command : Command}
    (same : Book.stored book.store = .ok book.formulas) (uses : command.usesBook = true) :
    command.perform power book.store =
      ((onBook power book command).1, (onBook power book command).2.output,
        (onBook power book command).2.book.store) := by
  rw [perform, if_pos uses, Book.load_of_stored same]

/-- A command keeps the directory writable and what is stored the same as the book. -/
theorem End.kept_writable {book : Book Directory} {writes : Bool}
    {ended : Except BookError Unit × Progress Directory} (ends : End book writes ended)
    (kept : book.Kept Directory.Writable) :
    ended.2.book.Kept Directory.Writable ∧ ended.2.book.store.root = book.store.root := by
  cases ends with
  | kept silent => exact ⟨kept, rfl⟩
  | changed change silent =>
    cases change with
    | wrong error => exact ⟨kept, rfl⟩
    | undone refused =>
      obtain ⟨after, taken⟩ := kept.good _
      cases taken.symm.trans refused
    | made about taken =>
      refine ⟨⟨Directory.Writable.put taken, ?_⟩, (Directory.put_eq_ok_iff.mp taken).1⟩
      exact Book.stored_of_get (Directory.get_of_put taken)

end Command

/-- Runs of the command line one after another, each on the disk that the one before it left. -/
def runAll (directory : String) (disk : Disk) : List (List String) → List (Outcome × Disk)
  | [] => []
  | arguments :: rest =>
    runArguments directory disk arguments ::
      runAll directory (runArguments directory disk arguments).2 rest

/-- Requests carried out one after another upon one book. -/
def Book.carryOut (book : Book Directory) : List Usage.Request → List (Outcome × Disk)
  | [] => []
  | request :: rest =>
    let (result, progress) := Command.onBook request.power book request.command
    (.ofResult result progress.output, progress.book.store.disk) :: progress.book.carryOut rest

/-- One step: a run does what its request does upon the book that is stored. -/
theorem runArguments_eq {directory : String} {book : Book Directory} {arguments : List String}
    {request : Usage.Request} (parsed : Usage.read arguments = .ok request)
    (uses : request.command.usesBook = true)
    (placed : request.directory.getD directory = book.store.root)
    (kept : book.Kept Directory.Writable) :
    runArguments directory book.store.disk arguments =
      (.ofResult (Command.onBook request.power book request.command).1
          (Command.onBook request.power book request.command).2.output,
        (Command.onBook request.power book request.command).2.book.store.disk) := by
  simp only [runArguments, parsed, placed]
  rw [Command.perform_eq_onBook request.power kept.same uses]

/-- Runs that work on the formulas of one directory, where formulas are found and can be written, have the
outcomes that their requests have upon one book, and leave the same on the disk, each of them. -/
theorem runAll_eq_carryOut {directory : String} {disk : Disk} {root : String} {book : Book Directory}
    {arguments : List (List String)} {requests : List Usage.Request}
    (parsed : arguments.map Usage.read = requests.map .ok)
    (uses : ∀ request ∈ requests, request.command.usesBook = true)
    (placed : ∀ request ∈ requests, request.directory.getD directory = root)
    (loaded : Book.load (⟨disk, root⟩ : Directory) = .ok book)
    (writable : Directory.Writable ⟨disk, root⟩) :
    runAll directory disk arguments = book.carryOut requests := by
  have kept := Book.kept_of_load writable loaded
  have start : book.store = ⟨disk, root⟩ := Book.store_of_load loaded
  have place : book.store.root = root := congrArg Directory.root start
  have found : disk = book.store.disk := (congrArg Directory.disk start).symm
  rw [found]
  clear loaded writable start found
  induction requests generalizing book arguments with
  | nil =>
    cases arguments with
    | nil => rfl
    | cons first rest => cases parsed
  | cons request requests ih =>
    cases arguments with
    | nil => cases parsed
    | cons first rest =>
      simp only [List.map_cons, List.cons.injEq] at parsed
      obtain ⟨parsedFirst, parsedRest⟩ := parsed
      have placedFirst := placed request List.mem_cons_self
      have ran := runArguments_eq parsedFirst (uses request List.mem_cons_self)
        (placedFirst.trans place.symm) kept
      have ends := Command.end_onBook request.power book request.command
      obtain ⟨keptNext, placeNext⟩ := ends.kept_writable kept
      have later := ih parsedRest (fun other member => uses other (List.mem_cons_of_mem _ member))
        (fun other member => placed other (List.mem_cons_of_mem _ member)) keptNext
        (placeNext.trans place)
      rw [runAll, ran, later]
      rfl

/-- Two formulas are added, one with characters that are escaped when it is stored; they are listed, the
second is evaluated with and without a value for its variable, and removed twice. -/
theorem runAll_eq_carryOut_added :
    let arguments := [["formula", "add", "\"\\\t", "2 ^ 3 ^ 2"], ["formula", "add", "m", "a + 1"],
      ["--store=.reckon", "formula", "list"], ["formula", "run", "2", "-v", "a=1"], ["formula", "run", "2"],
      ["formula", "remove", "2", "--right-assoc-power"], ["formula", "remove", "2"]]
    let requests : List Usage.Request := [⟨none, false, .add "\"\\\t" "2 ^ 3 ^ 2"⟩,
      ⟨none, false, .add "m" "a + 1"⟩, ⟨some ".reckon", false, .list⟩, ⟨none, false, .run "2" [("a", 1)]⟩,
      ⟨none, false, .run "2" []⟩, ⟨none, true, .remove "2"⟩, ⟨none, false, .remove "2"⟩]
    let book : Book Directory := ⟨⟨.empty, ".reckon"⟩, []⟩
    arguments.map Usage.read = requests.map .ok ∧
      runAll ".reckon" .empty arguments = book.carryOut requests ∧
      (book.carryOut requests).map (·.1.output) =
        ["1\n", "2\n", "1\t\"\\\t\t2 ^ 3 ^ 2\n2\tm\ta + 1\n", "2\n", "", "Removed 'm'.\n", ""] := by
  intro arguments requests book
  have parsed : arguments.map Usage.read = requests.map .ok := by decide +kernel
  have loaded : Book.load (⟨.empty, ".reckon"⟩ : Directory) = .ok book :=
    Book.load_of_stored (by decide +kernel)
  have writable : Directory.Writable ⟨.empty, ".reckon"⟩ := by
    intro bytes
    have code : (Directory.put ⟨.empty, ".reckon"⟩ Book.key []).1 = .ok () := by decide +kernel
    exact Directory.put_instead (Prod.ext code rfl) bytes
  refine ⟨parsed, ?_, by decide +kernel⟩
  exact runAll_eq_carryOut parsed (by decide) (by decide) loaded writable

end Reckon
