import Reckon.Command.Session
import Reckon.Proofs.Arguments
import Reckon.Proofs.CommandEnd
import Reckon.Proofs.UsableValues

/-! One notion of a name: what can be bound on the command line is what is found in expressions and what is
replaced in them. -/

namespace Reckon

namespace Variable

theorem pieces_of_isName {letters : List Char} (named : isName letters = true) :
    Text.pieces letters = [.word letters] := by
  obtain ⟨present, letter, _⟩ := isName_iff.mp named
  have word (c : Char) (member : c ∈ letters) := Text.isWordChar_of_name (letter c member)
  have whole : Text.pieces (letters ++ []) = .word letters :: Text.pieces [] :=
    Text.pieces_word present word nofun
  rwa [List.append_nil] at whole

theorem free_of_isName {name : String} (named : isName name.toList = true) : free name = [name] := by
  simp [free, pieces_of_isName named, ofPiece?, named, List.eraseDups_cons]

/-- A whole word is replaced where it stands, and what is around it as it is by itself. -/
theorem substitute_wholeWord {values : Assignment} {name expression : String} {x : Float}
    {before after : List Char} (bound : values name = some x)
    (split : expression.toList = before ++ name.toList ++ after)
    (whole : WholeWord before name.toList after) :
    (substitute values expression).toList =
      (substitute values (String.ofList before)).toList ++ spaced (Numeral.write x).toList ++
        (substitute values (String.ofList after)).toList := by
  have word : replace values (.word name.toList) = (Numeral.write x).toList := by
    simp [replace, whole.ofPiece?, bound]
  rw [substitute_pieces, split, whole.pieces_eq, List.flatMap_append, List.flatMap_cons, word]
  simp [substitute_pieces]

end Variable

namespace Binding

open Variable (isName)

theorem read_named {name text : String} {value : Float} (named : isName name.toList = true)
    (numeral : Numeral.read (Text.trim text.toList) = .ok value) :
    read (name ++ "=" ++ text) = .ok (name, value) := by
  obtain ⟨lead, trail, ahead, behind, whole⟩ := Text.exists_padded text.toList
  have accepted := Numeral.isNumeral_iff.mpr ⟨value, numeral⟩
  have spelled := Spelled.intro named accepted (List.forall_mem_nil _) (List.forall_mem_nil _) ahead behind
  rw [← whole] at spelled
  exact read_spelled (by simpa using spelled) numeral

theorem exists_read_one : ∃ value, Numeral.read (Text.trim "1".toList) = .ok value := by
  have trimmed : Text.trim "1".toList = ['1'] := by decide +kernel
  rw [trimmed]
  exact ⟨_, Numeral.read_literal ⟨['1'], none, by simp [Char.isDigit], by simp⟩⟩

theorem isName_of_read {name text : String} {value : Float} (accepted : read text = .ok (name, value)) :
    isName name.toList = true := by
  obtain ⟨numeral, spelled, _⟩ := exists_spelled accepted
  exact spelled.isName

end Binding

namespace Usage

open Variable (free isName)

/-- Two dashes do not touch the pending option. -/
theorem Reading.settle_escaped (reading : Reading) :
    ({ reading with escaped := true } : Reading).settle =
      ({ · with escaped := true }) <$> reading.settle := by
  obtain ⟨given, pending, escaped⟩ := reading
  cases pending with
  | none => rfl
  | some pending =>
    obtain ⟨flag, value⟩ := pending
    simp only [settle]
    cases given.take flag value <;> rfl

theorem Reading.Holds.finish {reading : Reading} {bindings : List (String × Float)}
    (holds : reading.Holds ⟨none, false, bindings, []⟩) (expression : String) :
    readLevel (.leaf .eval) reading ["--", expression] =
      .ok ⟨none, false, .eval expression bindings⟩ := by
  have escape : Form.of "--" = .escape := by decide
  have settled : ({ reading with escaped := true } : Reading).settle =
      .ok ⟨⟨none, false, bindings, []⟩, none, true⟩ := by
    rw [Reading.settle_escaped, holds.settled]
    rfl
  simp [readLevel, Level.isOpen, Level.next?, Reading.step, escape, Reading.value, Level.arity,
    Leaf.arity, holds.unescaped, holds.values, settled, bind, Except.bind, pure, Except.pure]
  simp [Reading.settle, Given.finish, Leaf.command?]

/-- A name, the text of a value for it, and the value. -/
structure Supply where
  name : String
  text : String
  value : Float

/-- The text reads as the value, with blanks around it or not. -/
def Supply.Valid (supply : Supply) : Prop :=
  Numeral.read (Text.trim supply.text.toList) = .ok supply.value

/-- The arguments that supply values before an expression. -/
def supplied (supplies : List Supply) (expression : String) : List String :=
  "eval" :: supplies.flatMap (fun supply => ["-v", supply.name ++ "=" ++ supply.text]) ++
    ["--", expression]

/-- Names take the values that are supplied for them. -/
theorem read_supplied {supplies : List Supply}
    (named : ∀ supply ∈ supplies, isName supply.name.toList = true)
    (valid : ∀ supply ∈ supplies, supply.Valid) (expression : String) :
    read (supplied supplies expression) =
      .ok ⟨none, false, .eval expression (supplies.map fun supply => (supply.name, supply.value))⟩ := by
  have run (reading : Reading) (bindings : List (String × Float))
      (holds : reading.Holds ⟨none, false, bindings, []⟩) :
      readLevel (.leaf .eval) reading (supplies.flatMap (fun supply =>
          ["-v", supply.name ++ "=" ++ supply.text]) ++ ["--", expression]) =
        .ok ⟨none, false, .eval expression
          (bindings ++ supplies.map fun supply => (supply.name, supply.value))⟩ := by
    induction supplies generalizing reading bindings with
    | nil => simpa using holds.finish expression
    | cons supply rest ih =>
      obtain ⟨namedFirst, namedRest⟩ := List.forall_mem_cons.mp named
      obtain ⟨validFirst, validRest⟩ := List.forall_mem_cons.mp valid
      have bindable : Leaf.eval.takesBindings = true := rfl
      have accepted := Binding.read_named namedFirst validFirst
      obtain ⟨next, holdsNext, step⟩ := Reading.readLevel_binding holds bindable accepted List.mem_cons_self
      have later := ih namedRest validRest next _ holdsNext
      rw [List.append_assoc] at later
      exact (step _).trans later
  have inside := run Reading.start [] (.now .start)
  simp only [supplied, read, readLevel, List.cons_append]
  simp [Reading.start, Reading.takesWord, Reading.awaits, Level.isOpen, Level.next?] at inside ⊢
  rw [inside]
  simp [Reading.settle, Given.around, Given.start, bind, Except.bind]

end Usage

theorem Usage.read_vars (expression : String) :
    Usage.read ["vars", "--", expression] = .ok ⟨none, false, .vars expression⟩ := by
  have escape : Form.of "--" = .escape := by decide
  simp [Usage.read, readLevel, Reading.start, Reading.takesWord, Reading.awaits, Level.isOpen,
    Level.next?, Reading.step, escape, Reading.value, Given.start, Level.arity, Leaf.arity,
    Reading.settle, Given.finish, Leaf.command?, Given.around, bind, Except.bind, pure, Except.pure]

/-- The command line lists the variables of an expression. -/
theorem runArguments_vars (directory : String) (disk : Disk) (expression : String) :
    runArguments directory disk ["vars", "--", expression] =
      (.printed (Command.lines (Variable.free expression)), disk) := by
  simp only [runArguments, Usage.read_vars, Command.perform, Command.usesBook, Command.onBook_vars]
  rfl

namespace Variable

/-- A string is a name in one sense if it is in any other: as a whole, as the only variable of itself, as a
variable of some expression, and as what is bound to one by the text with `=1` behind it. So all variables
that are listed for an expression can be supplied with values, and all that is accepted as the name of a
value is replaced by it wherever it stands as a whole word. -/
theorem names_agree :
    (∀ name : String, [isName name.toList = true, free name = [name],
      ∃ expression, name ∈ free expression,
      ∃ value, Binding.read (name ++ "=1") = .ok (name, value)].TFAE) ∧
    (∀ expression : String,
      (∀ directory disk, runArguments directory disk ["vars", "--", expression] =
        (.printed (Command.lines (free expression)), disk)) ∧
      ∀ supplies : List Usage.Supply, (∀ supply ∈ supplies, supply.name ∈ free expression) →
        (∀ supply ∈ supplies, supply.Valid) →
        Usage.read (Usage.supplied supplies expression) = .ok ⟨none, false, .eval expression
          (supplies.map fun supply => (supply.name, supply.value))⟩) ∧
    ∀ (text name : String) (value : Float), Binding.read text = .ok (name, value) →
      ∀ (values : Assignment) (x : Float), values name = some x →
      ∀ (expression : String) (before after : List Char),
        expression.toList = before ++ name.toList ++ after → WholeWord before name.toList after →
        (substitute values expression).toList =
          (substitute values (String.ofList before)).toList ++ spaced (Numeral.write x).toList ++
            (substitute values (String.ofList after)).toList := by
  refine ⟨?_, ?_, ?_⟩
  · intro name
    tfae_have 1 → 2 := free_of_isName
    tfae_have 2 → 3 := by
      intro alone
      exact ⟨name, by simp [alone]⟩
    tfae_have 3 → 4 := by
      rintro ⟨expression, member⟩
      obtain ⟨value, numeral⟩ := Binding.exists_read_one
      have accepted := Binding.read_named (isName_of_mem_free member) numeral
      rw [String.append_assoc] at accepted
      exact ⟨value, accepted⟩
    tfae_have 4 → 1 := by
      rintro ⟨value, accepted⟩
      exact Binding.isName_of_read accepted
    tfae_finish
  · intro expression
    refine ⟨fun directory disk => runArguments_vars directory disk expression, ?_⟩
    intro supplies free valid
    exact Usage.read_supplied (fun supply member => isName_of_mem_free (free supply member)) valid
      expression
  · intro text name value _ values x bound expression before after split whole
    exact substitute_wholeWord bound split whole

/-- An expression with names at its start and its end, and with words that a digit or a letter of another
script is glued to; a value with blanks around it, and a name with some. -/
theorem names_agree_listed :
    let expression := "_x-(rate+2a)*réel/b1"
    let supplies : List Usage.Supply := [⟨"_x", "2", 2⟩, ⟨"b1", " 1e1\n", 10⟩]
    let values := Assignment.ofList [("rate", 0.5)]
    free "rate" = ["rate"] ∧ (∀ supply ∈ supplies, supply.name ∈ free expression) ∧
      (∀ supply ∈ supplies, supply.Valid) ∧
      runArguments "d" .empty ["vars", "--", expression] = (.printed "_x\nrate\nb1\n", .empty) ∧
      Usage.read (Usage.supplied supplies expression) =
        .ok ⟨none, false, .eval expression [("_x", 2), ("b1", 10)]⟩ ∧
      Binding.read " rate =.5" = .ok ("rate", 0.5) ∧ values "rate" = some 0.5 ∧
      WholeWord "_x-(".toList "rate".toList "+2a)*réel/b1".toList ∧
      (substitute values expression).toList =
        (substitute values (String.ofList "_x-(".toList)).toList ++ spaced (Numeral.write 0.5).toList ++
          (substitute values (String.ofList "+2a)*réel/b1".toList)).toList := by
  intro expression supplies values
  have words : free expression = ["_x", "rate", "b1"] := by decide +kernel
  have free : ∀ supply ∈ supplies, supply.name ∈ free expression := by
    rw [words]
    decide
  have valid : ∀ supply ∈ supplies, supply.Valid := by
    simp only [Usage.Supply.Valid]
    decide +kernel
  have accepted : Binding.read " rate =.5" = .ok ("rate", 0.5) := by decide +kernel
  have bound : values "rate" = some 0.5 := by decide +kernel
  have whole : WholeWord "_x-(".toList "rate".toList "+2a)*réel/b1".toList := by
    refine ⟨by decide +kernel, ?_, ?_⟩
    · unfold Text.Boundary
      decide +kernel
    · unfold Text.Boundary
      decide +kernel
  obtain ⟨alike, listed, replaced⟩ := names_agree
  obtain ⟨printed, supplied⟩ := listed expression
  have alone := ((alike "rate").out 0 1).mp (by decide +kernel)
  have split : expression.toList = "_x-(".toList ++ "rate".toList ++ "+2a)*réel/b1".toList := by
    decide +kernel
  have output := printed "d" .empty
  rw [words] at output
  refine ⟨alone, free, valid, output, supplied supplies free valid, accepted, bound, whole, ?_⟩
  exact replaced _ _ _ accepted values 0.5 bound expression _ _ split whole

end Variable

end Reckon
