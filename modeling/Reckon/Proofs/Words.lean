import Mathlib
import Reckon.Token.Lexer
import Reckon.Variable

/-! Words at the front of a text: how a text is cut there, and what the values of variables make of
them. -/

namespace Reckon

namespace Text

/-- The text does not go on with a word character. -/
def Breaks (text : List Char) : Prop := ∀ c ∈ text.head?, isWordChar c = false

theorem isWordChar_of_name {c : Char} (letter : (c.isAlphanum || c == '_') = true) :
    isWordChar c = true := by
  have ascii : c.toNat < 128 := by
    have bound (most : Char) (below : c.val ≤ most.val) (least : most.toNat < 128) : c.toNat < 128 :=
      Nat.lt_of_le_of_lt below least
    simp only [Char.isAlphanum, Char.isAlpha, Char.isUpper, Char.isLower, Char.isDigit,
      Bool.or_eq_true, Bool.and_eq_true, decide_eq_true_eq, beq_iff_eq] at letter
    rcases letter with ((⟨_, upper⟩ | ⟨_, lower⟩) | ⟨_, digit⟩) | rfl
    · exact bound 'Z' upper (by decide)
    · exact bound 'z' lower (by decide)
    · exact bound '9' digit (by decide)
    · decide
  rw [isWordChar, if_pos ascii, letter]

theorem isWordChar_of_isDigit {c : Char} (digit : c.isDigit = true) : isWordChar c = true :=
  isWordChar_of_name (by simp [Char.isAlphanum, digit])

theorem not_isWordChar_of_isGap {c : Char} (gap : Token.isGap c = true) : isWordChar c = false := by
  simp only [Token.isGap, Bool.or_eq_true, beq_iff_eq] at gap
  rcases gap with (((rfl | rfl) | rfl) | rfl) | rfl <;> decide

/-- A symbol belongs neither to a word nor to a gap. -/
theorem separate_of_ofSymbol? {c : Char} {token : Token} (symbol : Token.ofSymbol? c = some token) :
    isWordChar c = false ∧ Token.isGap c = false := by
  unfold Token.ofSymbol? at symbol
  split at symbol
  case h_8 => cases symbol
  all_goals exact ⟨rfl, rfl⟩

theorem not_isWordChar_of_isSymbol {c : Char} (symbol : Token.isSymbol c = true) :
    isWordChar c = false := by
  obtain ⟨token, symbol⟩ := Option.isSome_iff_exists.mp symbol
  exact (separate_of_ofSymbol? symbol).1

theorem pieces_other {c : Char} (other : isWordChar c = false) (rest : List Char) :
    pieces (c :: rest) = .other c :: pieces rest := by
  rw [pieces, other]
  rfl

theorem attach_pieces (c : Char) {rest : List Char} (breaks : Breaks rest) :
    Piece.attach c (pieces rest) = .word [c] :: pieces rest := by
  cases rest with
  | nil => rfl
  | cons next rest =>
    rw [pieces_other (breaks next rfl)]
    rfl

theorem pieces_word {word rest : List Char} (some : word ≠ [])
    (letters : ∀ c ∈ word, isWordChar c = true) (breaks : Breaks rest) :
    pieces (word ++ rest) = .word word :: pieces rest := by
  induction word with
  | nil => exact absurd rfl some
  | cons c more ih =>
    rw [List.cons_append, pieces, letters c List.mem_cons_self, if_pos rfl]
    cases more with
    | nil => exact attach_pieces c breaks
    | cons next more =>
      rw [ih (by simp) fun d member => letters d (List.mem_cons_of_mem c member)]
      rfl

/-- Whether a piece is a word. -/
def Piece.isWord : Piece → Bool
  | word _ => true
  | other _ => false

/-- No two words stand side by side. -/
theorem isChain_pieces (text : List Char) :
    (pieces text).IsChain fun before after => before.isWord = true → after.isWord = false := by
  induction text with
  | nil => exact .nil
  | cons c rest ih =>
    rw [pieces]
    split
    · unfold Piece.attach
      split
      · rename_i letters more same
        rw [same] at ih
        exact List.isChain_cons.mpr (List.isChain_cons.mp ih)
      · rename_i noWord
        refine List.isChain_cons.mpr ⟨fun piece first _ => ?_, ih⟩
        cases piece with
        | other d => rfl
        | word letters =>
          obtain ⟨more, same⟩ := List.head?_eq_some_iff.mp first
          exact absurd same (noWord letters more)
    · refine List.isChain_cons.mpr ⟨fun _ _ word => ?_, ih⟩
      cases word

/-- Between words stand other characters only. -/
theorem not_isWordChar_of_mem {text : List Char} {c : Char} (member : .other c ∈ pieces text) :
    isWordChar c = false := by
  induction text with
  | nil => cases member
  | cons d rest ih =>
    rw [pieces] at member
    split at member
    · unfold Piece.attach at member
      split at member
      · rename_i letters more same
        rcases List.mem_cons.mp member with first | later
        · cases first
        · exact ih (by rw [same]; exact List.mem_cons_of_mem _ later)
      · rcases List.mem_cons.mp member with first | later
        · cases first
        · exact ih later
    · rename_i other
      rcases List.mem_cons.mp member with first | later
      · cases first
        simpa using other
      · exact ih later

end Text

namespace Variable

open Text (Breaks isWordChar)

theorem mem_free_iff_exists_piece {expression name : String} :
    name ∈ free expression ↔ ∃ piece ∈ Text.pieces expression.toList, ofPiece? piece = some name := by
  rw [free, List.mem_eraseDups, List.mem_filterMap]

/-- The text with the values of its variables, before it is spaced. -/
def fill (values : Assignment) (text : List Char) : List Char :=
  (Text.pieces text).flatMap (replace values)

theorem substitute_eq (values : Assignment) (expression : String) :
    (substitute values expression).toList = spaced (fill values expression.toList) := by
  rw [substitute, String.toList_ofList]
  rfl

theorem fill_other (values : Assignment) {c : Char} (other : isWordChar c = false) (rest : List Char) :
    fill values (c :: rest) = c :: fill values rest := by
  rw [fill, Text.pieces_other other]
  rfl

theorem fill_word (values : Assignment) {word rest : List Char} (some : word ≠ [])
    (letters : ∀ c ∈ word, isWordChar c = true) (breaks : Breaks rest) :
    fill values (word ++ rest) = replace values (.word word) ++ fill values rest := by
  rw [fill, Text.pieces_word some letters breaks]
  rfl

theorem not_letter_of_isDigit {c : Char} (digit : c.isDigit = true) :
    (c.isAlpha || c == '_') = false := by
  have most : c.val ≤ '9'.val := of_decide_eq_true ((Bool.and_eq_true _ _).mp digit).2
  refine Bool.eq_false_iff.mpr fun letter => ?_
  simp only [Char.isAlpha, Char.isUpper, Char.isLower, Bool.or_eq_true, Bool.and_eq_true,
    decide_eq_true_eq, beq_iff_eq] at letter
  rcases letter with (⟨upper, _⟩ | ⟨lower, _⟩) | rfl
  · exact absurd (UInt32.le_trans upper most) (by decide)
  · exact absurd (UInt32.le_trans lower most) (by decide)
  · exact absurd most (by decide)

theorem fill_name (values : Assignment) {letters rest : List Char} (named : isName letters = true)
    {value : Float} (bound : values (String.ofList letters) = some value) (breaks : Breaks rest) :
    fill values (letters ++ rest) = (Numeral.write value).toList ++ fill values rest := by
  rw [fill_word values _ _ breaks]
  · simp [replace, ofPiece?, named, bound]
  · intro none
    rw [none] at named
    cases named
  · intro c member
    cases letters with
    | nil => cases named
    | cons first more =>
      rw [isName, Bool.and_eq_true] at named
      refine Text.isWordChar_of_name ?_
      rcases List.mem_cons.mp member with rfl | later
      · simp only [Char.isAlphanum, Bool.or_eq_true] at named ⊢
        exact named.1.imp_left .inl
      · exact List.all_eq_true.mp named.2 c later

theorem spaced_append (before after : List Char) :
    spaced (before ++ after) = spaced before ++ spaced after :=
  List.flatMap_append

theorem spaced_symbol {c : Char} (symbol : Token.isSymbol c = true) (rest : List Char) :
    spaced (c :: rest) = ' ' :: c :: ' ' :: spaced rest := by
  simp [spaced, symbol]

theorem spaced_cons {c : Char} (plain : Token.isSymbol c = false) (rest : List Char) :
    spaced (c :: rest) = c :: spaced rest := by
  simp [spaced, plain]

theorem spaced_plain {text : List Char} (plain : ∀ c ∈ text, Token.isSymbol c = false) :
    spaced text = text := by
  induction text with
  | nil => rfl
  | cons c rest ih =>
    rw [spaced_cons (plain c List.mem_cons_self),
      ih fun d member => plain d (List.mem_cons_of_mem c member)]

end Variable

end Reckon
