import Reckon.Numeral
import Reckon.Text.Piece
import Reckon.Token

/-! Variables of an expression: which of its words are variables, and putting values in
their place. -/

namespace Reckon

/-- The values of variables, none for a name without one. -/
abbrev Assignment := String → Option Float

/-- The values of a list of bindings. The last one of a name counts. -/
def Assignment.ofList (bindings : List (String × Float)) : Assignment :=
  fun name => bindings.reverse.lookup name

theorem Assignment.ofList_concat (bindings : List (String × Float)) (name other : String)
    (value : Float) :
    ofList (bindings ++ [(name, value)]) other =
      if other = name then some value else ofList bindings other := by
  simp only [ofList, List.reverse_append, List.reverse_singleton, List.singleton_append,
    List.lookup_cons]
  by_cases same : other = name
  · simp [same]
  · have missed : (other == name) = false := by simpa using same
    simp [missed, same]

namespace Variable

/-- A variable's name is an ASCII letter or underscore followed by such characters and digits. -/
def isName : List Char → Bool
  | [] => false
  | c :: rest => (c.isAlpha || c == '_') && rest.all fun c => c.isAlphanum || c == '_'

/-- The variable that a piece of an expression is. Words with other letters, or glued to a digit
in front, are none. -/
def ofPiece? : Text.Piece → Option String
  | .word letters => if isName letters then some (String.ofList letters) else none
  | .other _ => none

/-- The variables of an expression, each once, in the order of first appearance. -/
def free (expression : String) : List String :=
  ((Text.pieces expression.toList).filterMap ofPiece?).eraseDups

/-- A piece with the value of the variable that it is, if there is one. -/
def replace (values : Assignment) (piece : Text.Piece) : List Char :=
  match (ofPiece? piece).bind values with
  | some value => (Numeral.write value).toList
  | none => piece.chars

/-- Puts a blank on either side of each symbol. -/
def spaced (text : List Char) : List Char :=
  text.flatMap fun c => if Token.isSymbol c then [' ', c, ' '] else [c]

/-- Replaces each variable that has a value, then spaces all symbols, also those that came with
a value. Variables without a value stay. -/
def substitute (values : Assignment) (expression : String) : String :=
  String.ofList (spaced ((Text.pieces expression.toList).flatMap (replace values)))

end Variable

end Reckon
