import Reckon.Proofs.BindingText
import Reckon.Proofs.CommandEnd

/-! The spellings of a command: its words in their order, its values and bindings behind them, and the
options that hold at every level anywhere. All of them are read as the same request. -/

namespace Reckon

namespace Usage

/-- No dash starts the text, so it stands for itself. -/
def Undashed (text : String) : Prop := text.toList.head? ≠ some '-'

instance (text : String) : Decidable (Undashed text) := inferInstanceAs (Decidable (_ ≠ _))

/-- An option by its name and its value, apart or behind an equals sign. -/
def longForms (name value : String) : List (List String) :=
  [["--" ++ name, value], ["--" ++ name ++ "=" ++ value]]

/-- The arguments from a level on that lead to a command and give it its values, its bindings and the
options of all levels. Values and bindings follow the words, and options stand anywhere, each at most once. -/
inductive Spells (leaf : Leaf) : Level → Given → List String → Prop where
  | done : Spells leaf (.leaf leaf) .start []
  | word {level below : Level} {given : Given} {word : String} {rest : List String}
      (leads : level.next? word = some below) (spells : Spells leaf below given rest) :
      Spells leaf level given (word :: rest)
  | value {given : Given} {text : String} {rest : List String} (undashed : Undashed text)
      (spells : Spells leaf (.leaf leaf) given rest) :
      Spells leaf (.leaf leaf) { given with values := text :: given.values } (text :: rest)
  | binding {given : Given} {text : String} {binding : String × Float} {form rest : List String}
      (bindable : leaf.takesBindings = true) (accepted : Binding.read text = .ok binding)
      (spelled : form ∈ ["-v", text] :: longForms "var" text)
      (spells : Spells leaf (.leaf leaf) given rest) :
      Spells leaf (.leaf leaf) { given with bindings := binding :: given.bindings } (form ++ rest)
  | store {level : Level} {given : Given} {directory : String} {form rest : List String}
      (once : given.directory = none) (present : directory ≠ "") (undashed : Undashed directory)
      (spelled : form ∈ longForms "store" directory) (spells : Spells leaf level given rest) :
      Spells leaf level { given with directory := some directory } (form ++ rest)
  | rightAssocPower {level : Level} {given : Given} {rest : List String}
      (once : given.rightAssocPower = false) (spells : Spells leaf level given rest) :
      Spells leaf level { given with rightAssocPower := true } ("--right-assoc-power" :: rest)

theorem Form.of_undashed {text : String} (undashed : Undashed text) : Form.of text = .plain := by
  unfold Form.of
  split
  · rename_i dashes
    exact absurd (by rw [dashes]; rfl) undashed
  · rename_i dashes
    exact absurd (by rw [dashes]; rfl) undashed
  · rename_i dashes
    exact absurd (by rw [dashes]; rfl) undashed
  · rfl

theorem Form.of_long {name : String} (present : name.toList ≠ []) (none : '=' ∉ name.toList) :
    Form.of ("--" ++ name) = .long name .none := by
  have chars : ("--" ++ name).toList = '-' :: '-' :: name.toList := by simp
  have whole := String.ofList_toList (s := name)
  have all : name.toList.dropWhile (· ≠ '=') = [] := by
    rw [List.dropWhile_eq_nil_iff]
    intro c member
    refine decide_eq_true ?_
    rintro rfl
    exact none member
  obtain ⟨c, more, letters⟩ := List.exists_cons_of_ne_nil present
  rw [letters] at chars whole all
  unfold Form.of
  rw [chars]
  simp only [all, whole]

theorem Form.of_attached {name : String} (present : name.toList ≠ []) (none : '=' ∉ name.toList)
    (value : String) :
    Form.of ("--" ++ name ++ "=" ++ value) = .long name (some value) := by
  have chars : ("--" ++ name ++ "=" ++ value).toList =
      '-' :: '-' :: (name.toList ++ '=' :: value.toList) := by simp
  have whole := String.ofList_toList (s := name)
  obtain ⟨before, after⟩ := Binding.split_equals none value.toList
  obtain ⟨c, more, letters⟩ := List.exists_cons_of_ne_nil present
  rw [letters] at chars whole before after
  rw [List.cons_append] at chars before after
  unfold Form.of
  rw [chars]
  simp only [before, after, whole, String.ofList_toList]

/-- Texts of bindings have no dash in front. -/
theorem undashed_of_accepted {text : String} {binding : String × Float}
    (accepted : Binding.read text = .ok binding) : Undashed text := by
  obtain ⟨numeral, spelled, _⟩ := Binding.exists_spelled accepted
  exact spelled.head?

theorem Level.next?_leaf (leaf : Leaf) (word : String) : (Level.leaf leaf).next? word = none := rfl

/-- Options are no words. -/
theorem Level.next?_dashed {argument : String} (dashed : ¬ Undashed argument) (level : Level) :
    level.next? argument = none := by
  unfold Level.next?
  split <;> first | rfl | exact absurd (by decide) dashed

theorem ne_help_of_dashed {argument : String} (dashed : ¬ Undashed argument) : argument ≠ "help" := by
  rintro rfl
  exact dashed (by decide)

namespace Reading

/-- The reading of a level has come to what it has been given, once a pending option is taken. -/
structure Holds (reading : Reading) (given : Given) : Prop where
  unescaped : reading.escaped = false
  ready : reading.awaits = false
  settled : reading.settle = .ok ⟨given, none, false⟩
  values : reading.given.values = given.values

variable {reading : Reading} {given next : Given} {level : Level} {argument value name : String}
  {attached : Option String} {flag : Flag} {rest : List String}

theorem Holds.now (given : Given) : Holds ⟨given, none, false⟩ given := ⟨rfl, rfl, rfl, rfl⟩

theorem Holds.later (taken : given.take flag (some value) = .ok next)
    (same : next.values = given.values) :
    Holds ⟨given, some ⟨flag, some value⟩, false⟩ next := by
  refine ⟨rfl, rfl, ?_, same.symm⟩
  simp only [settle, taken]
  rfl

theorem Holds.takesWord (holds : reading.Holds given) : reading.takesWord = true := by
  rw [Reading.takesWord, holds.unescaped, holds.ready]
  rfl

/-- After a word, the level below is read from its start. -/
theorem readLevel_word (holds : reading.Holds given) {below : Level} {word : String}
    (leads : level.next? word = some below) :
    readLevel level reading (word :: rest) = given.around <$> readLevel below start rest := by
  have help : ¬ (reading.takesWord && level.isOpen && word == "help") = true := by
    intro asks
    simp only [Bool.and_eq_true, beq_iff_eq] at asks
    obtain ⟨_, rfl⟩ := asks
    cases level <;> cases leads
  rw [readLevel, if_neg help, holds.takesWord, if_pos rfl, leads]
  simp only [holds.settled]
  cases readLevel below start rest <;> rfl

/-- An argument that is no word takes the reading a step on. -/
theorem readLevel_step {next : Reading}
    (noWord : reading.takesWord = true → level.next? argument = none)
    (noHelp : level.isOpen = true → reading.takesWord = true → argument ≠ "help")
    (step : reading.step level argument = .ok next) :
    readLevel level reading (argument :: rest) = readLevel level next rest := by
  have help : ¬ (reading.takesWord && level.isOpen && argument == "help") = true := by
    intro asks
    simp only [Bool.and_eq_true, beq_iff_eq] at asks
    exact noHelp asks.1.2 asks.1.1 asks.2
  have word : (if reading.takesWord then level.next? argument else none) = none := by
    by_cases takes : reading.takesWord = true
    · rw [if_pos takes, noWord takes]
    · rw [if_neg takes]
  rw [readLevel, if_neg help, word, step]
  rfl

theorem readLevel_dashed {next : Reading} (dashed : ¬ Undashed argument)
    (step : reading.step level argument = .ok next) :
    readLevel level reading (argument :: rest) = readLevel level next rest :=
  readLevel_step (fun _ => Level.next?_dashed dashed level) (fun _ _ => ne_help_of_dashed dashed) step

theorem Holds.option_attached (holds : reading.Holds given)
    (taken : given.take flag (some value) = .ok next) :
    reading.option (some value) (some flag) = .ok ⟨next, none, false⟩ := by
  simp [option, holds.settled, taken, bind, Except.bind, pure, Except.pure]

theorem Holds.option_apart (holds : reading.Holds given) (takes : flag.takesValue = true) :
    reading.option none (some flag) = .ok ⟨given, some ⟨flag, none⟩, false⟩ := by
  simp [option, holds.settled, takes, bind, Except.bind, pure, Except.pure]

/-- An option that has its value apart takes two steps, and waits with it. -/
theorem readLevel_apart (holds : reading.Holds given) (dashed : ¬ Undashed argument)
    (step : reading.step level argument = reading.option none (some flag))
    (takes : flag.takesValue = true) (undashed : Undashed value) :
    readLevel level reading (argument :: value :: rest) =
      readLevel level ⟨given, some ⟨flag, some value⟩, false⟩ rest := by
  rw [readLevel_dashed dashed (step.trans (holds.option_apart takes))]
  refine readLevel_step nofun (fun _ => nofun) ?_
  simp [Reading.step, Form.of_undashed undashed]

theorem Holds.step_long (holds : reading.Holds given) (form : Form.of argument = .long name attached)
    (named : level.long? name = some flag) (takes : flag.takesValue = true) :
    reading.step level argument = reading.option attached (some flag) := by
  simp [step, holds.unescaped, form, named, takes]

/-- A long option with a value, in either form. -/
theorem readLevel_long (holds : reading.Holds given) (present : name.toList ≠ [])
    (none : '=' ∉ name.toList) (named : level.long? name = some flag)
    (takes : flag.takesValue = true) (undashed : Undashed value)
    (taken : given.take flag (some value) = .ok next) (same : next.values = given.values)
    {form : List String} (spelled : form ∈ longForms name value) :
    ∃ after : Reading, after.Holds next ∧ ∀ rest,
      readLevel level reading (form ++ rest) = readLevel level after rest := by
  simp only [longForms, List.mem_cons, List.not_mem_nil, or_false] at spelled
  rcases spelled with rfl | rfl
  · have dashed : ¬ Undashed ("--" ++ name) := by simp [Undashed]
    have step := holds.step_long (Form.of_long present none) named takes
    exact ⟨_, .later taken same, fun _ => readLevel_apart holds dashed step takes undashed⟩
  · have dashed : ¬ Undashed ("--" ++ name ++ "=" ++ value) := by simp [Undashed]
    have step := holds.step_long (Form.of_attached present none value) named takes
    have whole := step.trans (holds.option_attached taken)
    exact ⟨_, .now next, fun _ => readLevel_dashed dashed whole⟩

theorem readLevel_store (holds : reading.Holds given) (once : given.directory = none)
    {directory : String} (present : directory ≠ "") (undashed : Undashed directory) {form : List String}
    (spelled : form ∈ longForms "store" directory) :
    ∃ after : Reading, after.Holds { given with directory := some directory } ∧ ∀ rest,
      readLevel level reading (form ++ rest) = readLevel level after rest := by
  have taken : given.take .store (some directory) = .ok { given with directory := some directory } := by
    have filled : directory.isEmpty = false := by simpa using present
    simp [Given.take, once, filled]
  exact readLevel_long holds (by decide) (by decide) rfl rfl undashed taken rfl spelled

theorem readLevel_power (holds : reading.Holds given) (once : given.rightAssocPower = false) :
    ∃ after : Reading, after.Holds { given with rightAssocPower := true } ∧ ∀ rest,
      readLevel level reading ("--right-assoc-power" :: rest) = readLevel level after rest := by
  have form : Form.of "--right-assoc-power" = .long "right-assoc-power" none := by decide
  have step : reading.step level "--right-assoc-power" =
      .ok ⟨{ given with rightAssocPower := true }, none, false⟩ := by
    simp [step, holds.unescaped, form, Level.long?, option, holds.settled, Flag.takesValue,
      Given.take, once, bind, Except.bind, pure, Except.pure]
  exact ⟨_, .now _, fun _ => readLevel_dashed (by decide) step⟩

theorem readLevel_binding (holds : reading.Holds given) {leaf : Leaf}
    (bindable : leaf.takesBindings = true) {text : String} {binding : String × Float}
    (accepted : Binding.read text = .ok binding)
    {form : List String} (spelled : form ∈ ["-v", text] :: longForms "var" text) :
    ∃ after : Reading, after.Holds { given with bindings := given.bindings ++ [binding] } ∧ ∀ rest,
      readLevel (.leaf leaf) reading (form ++ rest) = readLevel (.leaf leaf) after rest := by
  have taken : given.take .binding (some text) =
      .ok { given with bindings := given.bindings ++ [binding] } := by
    simp [Given.take, accepted]
  have undashed := undashed_of_accepted accepted
  rcases List.mem_cons.mp spelled with rfl | long
  · have letter : Form.of "-v" = .short 'v' none := by decide
    have step : reading.step (.leaf leaf) "-v" = reading.option none (some .binding) := by
      simp [step, holds.unescaped, letter, Level.short?, Level.takesBindings, bindable]
    exact ⟨_, .later taken rfl, fun _ => readLevel_apart holds (by decide) step rfl undashed⟩
  · have named : (Level.leaf leaf).long? "var" = some .binding := by
      simp [Level.long?, Level.takesBindings, bindable]
    exact readLevel_long holds (by decide) (by decide) named rfl undashed taken rfl long

theorem readLevel_value (holds : reading.Holds given) {leaf : Leaf} {text : String}
    (undashed : Undashed text) (room : given.values.length < leaf.arity) :
    ∃ after : Reading, after.Holds { given with values := given.values ++ [text] } ∧ ∀ rest,
      readLevel (.leaf leaf) reading (text :: rest) = readLevel (.leaf leaf) after rest := by
  have value : reading.value (.leaf leaf) text =
      .ok ⟨{ given with values := given.values ++ [text] }, none, false⟩ := by
    rw [← holds.values] at room
    simp [value, Level.arity, room, holds.settled, bind, Except.bind, pure, Except.pure]
  have step : reading.step (.leaf leaf) text =
      .ok ⟨{ given with values := given.values ++ [text] }, none, false⟩ := by
    have ready := holds.ready
    unfold awaits at ready
    simp only [step, holds.unescaped, Form.of_undashed undashed, Bool.false_eq_true, if_false]
    split
    · rename_i pending
      simp [pending, holds.unescaped] at ready
    · exact value
  exact ⟨_, .now _, fun _ => readLevel_step (fun _ => Level.next?_leaf leaf text) nofun step⟩

end Reading

namespace Given

/-- The grouping of powers that the options ask for. -/
def power (given : Given) : Grouping := if given.rightAssocPower then .right else .left

/-- What a level has been given before and after a place in its arguments. -/
def merge (given more : Given) : Given where
  directory := given.directory.or more.directory
  rightAssocPower := given.rightAssocPower || more.rightAssocPower
  bindings := given.bindings ++ more.bindings
  values := given.values ++ more.values

theorem start_merge (given : Given) : start.merge given = given := by
  simp [merge, start]

theorem merge_start (given : Given) : given.merge start = given := by
  simp [merge, start]

/-- No option is given twice, there is room for all values, and a level has values and bindings only if no
word follows. -/
structure Joins (leaf : Leaf) (level : Level) (given more : Given) : Prop where
  directory : given.directory = none ∨ more.directory = none
  power : given.rightAssocPower = false ∨ more.rightAssocPower = false
  room : given.values.length + more.values.length ≤ leaf.arity
  words : level = .leaf leaf ∨ given.values = [] ∧ given.bindings = []

/-- The level above adds its options to what the levels below it are given. -/
theorem finish_around {given more : Given} {leaf : Leaf} {level : Level}
    (joins : given.Joins leaf level more) (above : level ≠ .leaf leaf) :
    (given.around <$> more.finish (.leaf leaf)) = (given.merge more).finish (.leaf leaf) := by
  obtain ⟨values, bindings⟩ := joins.words.resolve_left above
  have directory : more.directory.or given.directory = given.directory.or more.directory := by
    rcases joins.directory with none | none
    · rw [none, Option.or_none, Option.none_or]
    · rw [none, Option.or_none, Option.none_or]
  simp only [finish, merge, values, bindings, List.nil_append]
  cases leaf.command? more.bindings more.values with
  | none => rfl
  | some command =>
    change Except.ok _ = Except.ok _
    simp only [around, directory, Bool.or_comm]

end Given

/-- Whatever the spelling, a level ends with what it was given before and what the arguments give. -/
theorem readLevel_spelled {leaf : Leaf} {level : Level} {given before : Given} {arguments : List String}
    {reading : Reading} (spells : Spells leaf level given arguments) (holds : reading.Holds before)
    (joins : before.Joins leaf level given) :
    readLevel level reading arguments = (before.merge given).finish (.leaf leaf) := by
  -- what an argument gives moves from the rest to what was given before, and their merge stays
  induction spells generalizing reading before with
  | done => simp [readLevel, holds.settled, Given.merge_start, bind, Except.bind]
  | @word level below given word rest leads _ ih =>
    have above : level ≠ .leaf leaf := by
      rintro rfl
      cases leads
    have room := (Nat.le_add_left given.values.length before.values.length).trans joins.room
    have joins' : Given.start.Joins leaf below given :=
      ⟨.inl rfl, .inl rfl, by rwa [Given.start, List.length_nil, Nat.zero_add], .inr ⟨rfl, rfl⟩⟩
    have inner := ih (.now .start) joins'
    rw [Given.start_merge] at inner
    rw [Reading.readLevel_word holds leads, Reading.start, inner, Given.finish_around joins above]
  | @value given text rest undashed _ ih =>
    have room := joins.room
    rw [List.length_cons] at room
    have space : before.values.length < leaf.arity := by omega
    have room' : (before.values ++ [text]).length + given.values.length ≤ leaf.arity := by
      rw [List.length_append, List.length_singleton]
      omega
    obtain ⟨after, holds', same⟩ := Reading.readLevel_value holds undashed space
    rw [same, ih holds' ⟨joins.directory, joins.power, room', .inl rfl⟩]
    simp [Given.merge]
  | @binding given text binding form rest bindable accepted spelled _ ih =>
    obtain ⟨after, holds', same⟩ := Reading.readLevel_binding holds bindable accepted spelled
    rw [same, ih holds' ⟨joins.directory, joins.power, joins.room, .inl rfl⟩]
    simp [Given.merge]
  | @store level given directory form rest once present undashed spelled _ ih =>
    have first := joins.directory.resolve_right nofun
    obtain ⟨after, holds', same⟩ := Reading.readLevel_store holds first present undashed spelled
    rw [same, ih holds' ⟨.inr once, joins.power, joins.room, joins.words⟩]
    simp [Given.merge, first]
  | @rightAssocPower level given rest once _ ih =>
    have first := joins.power.resolve_right nofun
    obtain ⟨after, holds', same⟩ := Reading.readLevel_power holds first
    rw [same, ih holds' ⟨joins.directory, .inr once, joins.room, joins.words⟩]
    simp [Given.merge, first]

/-- The arguments of a command are read as its request. -/
theorem read_spelled {leaf : Leaf} {given : Given} {arguments : List String}
    (spells : Spells leaf .top given arguments) (enough : given.values.length = leaf.arity) :
    ∃ command, leaf.command? given.bindings given.values = some command ∧
      read arguments = .ok ⟨given.directory, given.rightAssocPower, command⟩ := by
  obtain ⟨command, complete⟩ :=
    Option.isSome_iff_exists.mp ((leaf.command?_isSome given.bindings given.values).mpr enough)
  have joins : Given.start.Joins leaf .top given :=
    ⟨.inl rfl, .inl rfl, by rw [Given.start, List.length_nil, Nat.zero_add, enough], .inr ⟨rfl, rfl⟩⟩
  have whole := readLevel_spelled spells (.now .start) joins
  rw [Given.start_merge, Given.finish, complete] at whole
  exact ⟨command, complete, whole⟩

end Usage

namespace Assignment

/-- The last binding of the name gives it the value. -/
def IsLast (bindings : List (String × Float)) (name : String) (value : Float) : Prop :=
  ∃ before after, bindings = before ++ (name, value) :: after ∧ ∀ later ∈ after, later.1 ≠ name

/-- The value of a name is that of its last binding, and a name without bindings has none. -/
theorem ofList_eq_some_iff {bindings : List (String × Float)} {name : String} {value : Float} :
    ofList bindings name = some value ↔ IsLast bindings name value := by
  rw [ofList, List.lookup_eq_some_iff]
  constructor
  · rintro ⟨after, before, split, others⟩
    have whole : bindings = before.reverse ++ (name, value) :: after.reverse := by
      rw [← List.reverse_reverse bindings, split]
      simp
    refine ⟨before.reverse, after.reverse, whole, ?_⟩
    intro later member same
    have other := others later (List.mem_reverse.mp member)
    simp [same] at other
  · rintro ⟨before, after, rfl, others⟩
    refine ⟨after.reverse, before.reverse, by simp, ?_⟩
    intro later member
    have other := others later (List.mem_reverse.mp member)
    simpa using other.symm

/-- A binding does not count when a later one has its name. -/
theorem ofList_shadowed (before between after : List (String × Float)) (name : String)
    (value last : Float) :
    ofList (before ++ (name, value) :: (between ++ (name, last) :: after)) =
      ofList (before ++ (between ++ (name, last) :: after)) := by
  funext other
  simp only [ofList, List.reverse_append, List.reverse_cons, List.append_assoc, List.lookup_append]
  by_cases same : other = name
  · simp [same]
  · have missed : (other == name) = false := by simpa using same
    simp [List.lookup, missed]

end Assignment

namespace Command

variable {σ : Type} [Store σ]

/-- Bindings count only for the values that they give to names. -/
theorem perform_bindings {leaf : Usage.Leaf} {bindings others : List (String × Float)}
    {values : List String} {command other : Command}
    (same : Assignment.ofList bindings = Assignment.ofList others)
    (complete : leaf.command? bindings values = some command)
    (complete' : leaf.command? others values = some other) (power : Grouping) (store : σ) :
    perform power store command = perform power store other := by
  unfold Usage.Leaf.command? at complete complete'
  split at complete <;> cases complete <;> cases complete'
  · rw [perform_eval, perform_eval, same]
  · rfl
  · rfl
  · rfl
  · rfl
  · rw [perform_run, perform_run, same]

end Command

/-- A spelled evaluation shows the value of its expression under its bindings. -/
theorem runArguments_eval {given : Usage.Given} {arguments : List String} {expression : String}
    (spells : Usage.Spells .eval .top given arguments) (values : given.values = [expression])
    (directory : String) (disk : Disk) :
    runArguments directory disk arguments =
      (.ofValue ((evaluate given.power (.ofList given.bindings) expression).mapError .evaluation),
        disk) := by
  obtain ⟨command, complete, reads⟩ := Usage.read_spelled spells (by rw [values]; rfl)
  rw [values] at complete
  cases complete
  simp only [runArguments, reads, Command.perform_eval, Outcome.ofResult_output]
  rfl

/-- A spelled run of a formula shows its value in the book of the directory under its bindings. -/
theorem runArguments_run {given : Usage.Given} {arguments : List String} {id : String}
    (spells : Usage.Spells .run .top given arguments) (values : given.values = [id])
    (directory : String) (disk : Disk) :
    runArguments directory disk arguments =
      (.ofValue (do
        let book ← Book.load (⟨disk, given.directory.getD directory⟩ : Directory)
        book.evaluate given.power (.ofList given.bindings) id), disk) := by
  obtain ⟨command, complete, reads⟩ := Usage.read_spelled spells (by rw [values]; rfl)
  rw [values] at complete
  cases complete
  simp only [runArguments, reads, Command.perform_run, Outcome.ofResult_output]
  rfl

/-- All spellings of a command are read as one request and run alike, wherever its options stand and
whichever form they have. A binding before another one of its name does not count: the value of a name is
that of its last binding, and with these values the expression or the saved formula is evaluated. -/
theorem runArguments_spelled :
    (∀ (leaf : Usage.Leaf) (given : Usage.Given) (arguments : List String),
      Usage.Spells leaf .top given arguments → given.values.length = leaf.arity →
        ∃ command, leaf.command? given.bindings given.values = some command ∧
          Usage.read arguments = .ok ⟨given.directory, given.rightAssocPower, command⟩) ∧
    (∀ (leaf : Usage.Leaf) (given : Usage.Given) (arguments others : List String),
      Usage.Spells leaf .top given arguments → Usage.Spells leaf .top given others →
      given.values.length = leaf.arity → ∀ (directory : String) (disk : Disk),
        runArguments directory disk arguments = runArguments directory disk others) ∧
    (∀ (leaf : Usage.Leaf) (given : Usage.Given) (arguments others : List String)
      (before between after : List (String × Float)) (name : String) (value last : Float),
      given.bindings = before ++ (name, value) :: (between ++ (name, last) :: after) →
      Usage.Spells leaf .top given arguments →
      Usage.Spells leaf .top { given with bindings := before ++ (between ++ (name, last) :: after) } others →
      given.values.length = leaf.arity → ∀ (directory : String) (disk : Disk),
        runArguments directory disk arguments = runArguments directory disk others) ∧
    (∀ (bindings : List (String × Float)) (name : String) (value : Float),
      Assignment.ofList bindings name = some value ↔ Assignment.IsLast bindings name value) ∧
    (∀ (given : Usage.Given) (arguments : List String) (expression : String),
      Usage.Spells .eval .top given arguments → given.values = [expression] →
      ∀ (directory : String) (disk : Disk), runArguments directory disk arguments =
        (.ofValue ((evaluate given.power (.ofList given.bindings) expression).mapError .evaluation),
          disk)) ∧
    ∀ (given : Usage.Given) (arguments : List String) (id : String),
      Usage.Spells .run .top given arguments → given.values = [id] →
      ∀ (directory : String) (disk : Disk), runArguments directory disk arguments =
        (.ofValue (do
          let book ← Book.load (⟨disk, given.directory.getD directory⟩ : Directory)
          book.evaluate given.power (.ofList given.bindings) id), disk) := by
  refine ⟨fun leaf given arguments => Usage.read_spelled, ?_, ?_, ?_, ?_, ?_⟩
  · intro leaf given arguments others spells spells' enough directory disk
    obtain ⟨command, complete, reads⟩ := Usage.read_spelled spells enough
    obtain ⟨other, complete', reads'⟩ := Usage.read_spelled spells' enough
    obtain rfl : command = other := Option.some.inj (complete.symm.trans complete')
    rw [runArguments, reads, runArguments, reads']
  · intro leaf given arguments others before between after name value last shadowed spells spells' enough
      directory disk
    obtain ⟨command, complete, reads⟩ := Usage.read_spelled spells enough
    obtain ⟨other, complete', reads'⟩ := Usage.read_spelled spells' enough
    rw [shadowed] at complete
    have same := Assignment.ofList_shadowed before between after name value last
    simp only [runArguments, reads, reads', Usage.Request.power,
      Command.perform_bindings same complete complete']
  · exact fun bindings name value => Assignment.ofList_eq_some_iff
  · exact fun given arguments expression => runArguments_eval
  · exact fun given arguments id => runArguments_run

/-- An evaluation with options before, between and after its word and its value, and a run of a saved
formula, both with two bindings of one name: the later one is used. -/
theorem runArguments_spelled_last :
    let bindings : List (String × Float) := [("x", 1), ("x", 3)]
    let given : Usage.Given := ⟨some "d", true, bindings, ["x*x-1"]⟩
    let arguments := ["--store", "d", "eval", "--var=x=1", "x*x-1", "--right-assoc-power", "-v", "x=3"]
    let others := ["--right-assoc-power", "eval", "-v", "x=1", "--var", "x=3", "x*x-1", "--store=d"]
    let fewer := ["eval", "x*x-1", "-v", "x=3", "--store=d", "--right-assoc-power"]
    let saved := (runArguments "e" .empty ["formula", "add", "m", "x*x-1"]).2
    let runs := ["formula", "run", "--var=x=1", "1", "-v", "x=3"]
    Usage.Spells .eval .top given arguments ∧ Usage.Spells .eval .top given others ∧
      Usage.Spells .eval .top { given with bindings := [("x", 3)] } fewer ∧
      Usage.Spells .run .top ⟨none, false, bindings, ["1"]⟩ runs ∧
      given.values.length = Usage.Leaf.eval.arity ∧
      Usage.read arguments = .ok ⟨some "d", true, .eval "x*x-1" bindings⟩ ∧
      runArguments "e" .empty arguments = runArguments "e" .empty others ∧
      runArguments "e" .empty arguments = runArguments "e" .empty fewer ∧
      Assignment.IsLast bindings "x" 3 ∧ Assignment.ofList bindings "x" = some 3 ∧
      runArguments "e" .empty arguments = (.printed "8\n", .empty) ∧
      runArguments "e" saved runs = (.printed "8\n", saved) := by
  intro bindings given arguments others fewer saved runs
  have first : Binding.read "x=1" = .ok ("x", 1) := by decide +kernel
  have last : Binding.read "x=3" = .ok ("x", 3) := by decide +kernel
  have value : Usage.Undashed "x*x-1" := by decide
  have id : Usage.Undashed "1" := by decide
  have directory : Usage.Undashed "d" := by decide
  have word : Usage.Level.top.next? "eval" = some (.leaf .eval) := rfl
  have letter (text : String) : ["-v", text] ∈ ["-v", text] :: Usage.longForms "var" text :=
    List.mem_cons_self
  have apart : ["--var", "x=3"] ∈ ["-v", "x=3"] :: Usage.longForms "var" "x=3" := by decide
  have attached : ["--var=x=1"] ∈ ["-v", "x=1"] :: Usage.longForms "var" "x=1" := by decide
  have storeApart : ["--store", "d"] ∈ Usage.longForms "store" "d" := by decide
  have storeAttached : ["--store=d"] ∈ Usage.longForms "store" "d" := by decide
  -- each list is put together from its end
  have start (leaf : Usage.Leaf) : Usage.Spells leaf (.leaf leaf) .start [] := .done
  have spells : Usage.Spells .eval .top given arguments := by
    have options := ((start .eval).binding rfl last (letter _)).rightAssocPower rfl
    have inside := (options.value value).binding rfl first attached
    exact (inside.word word).store rfl (by decide) directory storeApart
  have spells' : Usage.Spells .eval .top given others := by
    have options := ((start .eval).store rfl (by decide) directory storeAttached).value value
    have inside := (options.binding rfl last apart).binding rfl first (letter _)
    exact (inside.word word).rightAssocPower rfl
  have spells'' : Usage.Spells .eval .top { given with bindings := [("x", 3)] } fewer := by
    have options := (start .eval).rightAssocPower rfl |>.store rfl (by decide) directory storeAttached
    exact ((options.binding rfl last (letter _)).value value).word word
  have spellsRun : Usage.Spells .run .top ⟨none, false, bindings, ["1"]⟩ runs := by
    have inside := (((start .run).binding rfl last (letter _)).value id).binding rfl first attached
    exact (inside.word rfl).word rfl
  obtain ⟨reads, alike, shadowed, lasts, evaluates, runsSaved⟩ := runArguments_spelled
  obtain ⟨command, complete, request⟩ := reads .eval given arguments spells rfl
  cases complete
  have isLast : Assignment.IsLast bindings "x" 3 := ⟨[("x", 1)], [], rfl, List.forall_mem_nil _⟩
  have evaluated := evaluates given arguments "x*x-1" spells rfl "e" .empty
  have ran := runsSaved _ runs "1" spellsRun rfl "e" saved
  have eight : (evaluate .right (.ofList bindings) "x*x-1").mapError BookError.evaluation = .ok 8 := by
    decide +kernel
  have eightSaved : (do
      let book ← Book.load (⟨saved, "e"⟩ : Directory)
      book.evaluate .left (.ofList bindings) "1") = .ok 8 := by
    decide +kernel
  have shown : Outcome.ofValue (.ok 8) = .printed "8\n" := by decide +kernel
  refine ⟨spells, spells', spells'', spellsRun, rfl, request, ?_, ?_, isLast, ?_, ?_, ?_⟩
  · exact alike .eval given arguments others spells spells' rfl "e" .empty
  · exact shadowed .eval given arguments fewer [] [] [] "x" 1 3 rfl spells spells'' rfl "e" .empty
  · exact (lasts bindings "x" 3).mpr isLast
  · exact evaluated.trans (congrArg (·, _) ((congrArg Outcome.ofValue eight).trans shown))
  · exact ran.trans (congrArg (·, _) ((congrArg Outcome.ofValue eightSaved).trans shown))

end Reckon
