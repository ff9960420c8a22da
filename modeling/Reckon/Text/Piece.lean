import Reckon.Text.WordChar

/-! A text cut into its words and the characters between them. -/

namespace Reckon.Text

inductive Piece where
  /-- A longest run of word characters. -/
  | word (letters : List Char)
  /-- A character that belongs to no word. -/
  | other (c : Char)
  deriving DecidableEq, Repr

namespace Piece

def chars : Piece → List Char
  | .word letters => letters
  | .other c => [c]

/-- Puts a word character before pieces, into the word they start with or into one of its own. -/
def attach (c : Char) : List Piece → List Piece
  | .word letters :: rest => .word (c :: letters) :: rest
  | rest => .word [c] :: rest

end Piece

/-- Cuts a text at the ends of its words. -/
def pieces : List Char → List Piece
  | [] => []
  | c :: rest => if isWordChar c then Piece.attach c (pieces rest) else .other c :: pieces rest

theorem chars_attach (c : Char) (rest : List Piece) :
    (Piece.attach c rest).flatMap Piece.chars = c :: rest.flatMap Piece.chars := by
  unfold Piece.attach
  split <;> simp [Piece.chars]

/-- Cutting loses nothing. -/
theorem chars_pieces (text : List Char) : (pieces text).flatMap Piece.chars = text := by
  induction text with
  | nil => rfl
  | cons c rest ih =>
    rw [pieces]
    split
    · rw [chars_attach, ih]
    · simp [Piece.chars, ih]

end Reckon.Text
