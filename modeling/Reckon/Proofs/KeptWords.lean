import Reckon.Proofs.WholeWords

/-! What substitution does to the words of a text. It takes away the variables that have a value and
leaves all other words as they are: none is made, joined with another, cut or hidden. -/

namespace Reckon

theorem eraseDups_filter [BEq α] [LawfulBEq α] (keep : α → Bool) (items : List α) :
    (items.filter keep).eraseDups = items.eraseDups.filter keep := by
  have ordered : (items.filter keep).eraseDups.Pairwise (AppearsBefore items) := by
    refine (pairwise_eraseDups (items.filter keep)).imp_of_mem ?_
    intro a b _ member before
    exact before.of_filter (List.mem_filter.mp (List.mem_eraseDups.mp member)).2
  refine ordered.eq_of_mem_iff ((pairwise_eraseDups items).filter keep) ?_
  intro a
  simp [List.mem_eraseDups, List.mem_filter]

namespace Text

/-- A text that neither starts nor ends in a word, and is not empty. -/
structure Parts (text : List Char) : Prop where
  present : text ≠ []
  starts : Breaks text
  ends : ∀ c ∈ text.getLast?, isWordChar c = false

/-- Where texts that part words stand for the characters between words, a text put together of others
is cut as those are. -/
theorem pieces_flatMap {items : List Piece} (write : Piece → List Char)
    (chain : items.IsChain fun before after => before.isWord = true → after.isWord = false)
    (parts : ∀ c, .other c ∈ items → Parts (write (.other c))) :
    pieces (items.flatMap write) = items.flatMap fun piece => pieces (write piece) := by
  induction items with
  | nil => rfl
  | cons piece rest ih =>
    obtain ⟨next, later⟩ := List.isChain_cons.mp chain
    rw [List.flatMap_cons, List.flatMap_cons,
      ← ih later fun c member => parts c (List.mem_cons_of_mem piece member)]
    apply pieces_append
    cases piece with
    | other c => exact .inl (parts c List.mem_cons_self).ends
    | word letters =>
      right
      cases rest with
      | nil => exact nofun
      | cons piece rest =>
        cases piece with
        | word more => cases next _ rfl rfl
        | other d =>
          obtain ⟨present, starts, _⟩ := parts d (by simp)
          intro c first
          rw [List.flatMap_cons, List.head?_append_of_ne_nil _ present] at first
          exact starts c first

theorem mem_of_mem_pieces {text : List Char} {piece : Piece} (member : piece ∈ pieces text) {c : Char}
    (inside : c ∈ piece.chars) : c ∈ text := by
  rw [← chars_pieces text]
  exact List.mem_flatMap.mpr ⟨piece, member, inside⟩

end Text

namespace Variable

open Text (Piece pieces isWordChar)
open Binary64 (magnitude infinity)

/-- A text without letters has no variables. -/
theorem filterMap_ofPiece?_eq_nil {text : List Char}
    (digits : ∀ c ∈ text, isWordChar c = true → c.isDigit = true) :
    (pieces text).filterMap ofPiece? = [] := by
  apply List.filterMap_eq_nil_iff.mpr
  intro piece member
  apply Option.eq_none_iff_forall_ne_some.mpr
  intro name named
  obtain ⟨letters, rfl, valid, _⟩ := exists_word named
  obtain ⟨present, _, first⟩ := isName_iff.mp valid
  obtain ⟨c, more, rfl⟩ := List.exists_cons_of_ne_nil present
  have inside : c ∈ (Piece.word (c :: more)).chars := List.mem_cons_self
  have word := (Text.letters_of_mem member).2 c List.mem_cons_self
  have digit := digits c (Text.mem_of_mem_pieces member inside) word
  rw [first c rfl] at digit
  cases digit

theorem spaced_word {letters : List Char} (word : ∀ c ∈ letters, isWordChar c = true) :
    spaced letters = letters := by
  apply spaced_plain
  intro c member
  apply Bool.eq_false_iff.mpr
  intro symbol
  have other := Text.not_isWordChar_of_isSymbol symbol
  rw [word c member] at other
  cases other

theorem mem_spaced {text : List Char} {c : Char} (member : c ∈ spaced text) : c = ' ' ∨ c ∈ text := by
  obtain ⟨d, inside, put⟩ := List.mem_flatMap.mp member
  split at put
  · simp only [List.mem_cons, List.not_mem_nil, or_false] at put
    rcases put with blank | same | blank
    · exact .inl blank
    · exact .inr (same ▸ inside)
    · exact .inl blank
  · exact .inr (List.mem_singleton.mp put ▸ inside)

/-- A character between words, spaced, still parts words. -/
theorem parts_spaced {c : Char} (other : isWordChar c = false) : Text.Parts (spaced [c]) := by
  have blank : isWordChar ' ' = false := by decide
  by_cases symbol : Token.isSymbol c = true
  · rw [spaced_symbol symbol]
    refine ⟨by simp, ?_, ?_⟩
    · simpa [Text.Breaks] using blank
    · simpa [spaced] using blank
  · rw [spaced_cons (by simpa using symbol)]
    refine ⟨by simp, ?_, ?_⟩
    · simpa [Text.Breaks] using other
    · simpa [spaced] using other

theorem substitute_pieces (values : Assignment) (expression : String) :
    (substitute values expression).toList =
      (pieces expression.toList).flatMap fun piece => spaced (replace values piece) := by
  rw [substitute, String.toList_ofList]
  exact List.flatMap_assoc

/-- The text of a finite double has no variables, spaced or not. -/
theorem filterMap_ofPiece?_write {x : Float} (finite : magnitude x < infinity) :
    (pieces (spaced (Numeral.write x).toList)).filterMap ofPiece? = [] := by
  apply filterMap_ofPiece?_eq_nil
  intro c member word
  rcases mem_spaced member with rfl | inside
  · cases word
  · obtain ⟨l, chars, _⟩ := Numeral.exists_signed_literal finite
    rw [chars] at inside
    rcases List.mem_append.mp inside with sign | inside
    · split at sign
      · cases List.mem_singleton.mp sign
        cases word
      · cases sign
    · rcases l.mem_chars inside with digit | rfl
      · exact digit
      · cases word

/-- What becomes of a piece has the variable that the piece is, unless that has a value. -/
theorem filterMap_ofPiece?_replace {values : Assignment}
    (finite : ∀ name x, values name = some x → magnitude x < infinity) {text : List Char}
    {piece : Piece} (member : piece ∈ pieces text) :
    (pieces (spaced (replace values piece))).filterMap ofPiece? =
      (ofPiece? piece).toList.filter fun name => (values name).isNone := by
  cases piece with
  | other c =>
    have other := Text.not_isWordChar_of_mem member
    apply filterMap_ofPiece?_eq_nil
    intro d inside word
    rcases mem_spaced inside with rfl | same
    · cases word
    · rw [List.mem_singleton.mp same, other] at word
      cases word
  | word letters =>
    obtain ⟨present, word⟩ := Text.letters_of_mem member
    have kept : (pieces (spaced letters)).filterMap ofPiece? = (ofPiece? (.word letters)).toList := by
      have whole : pieces (letters ++ []) = .word letters :: pieces [] :=
        Text.pieces_word present word nofun
      rw [List.append_nil] at whole
      rw [spaced_word word, whole]
      cases named : ofPiece? (.word letters) <;> simp [named, pieces]
    cases named : ofPiece? (.word letters) with
    | none => simpa [replace, named, Piece.chars] using kept
    | some name =>
      cases bound : values name with
      | none => simpa [replace, named, bound, Piece.chars] using kept
      | some x =>
        have written := filterMap_ofPiece?_write (finite name x bound)
        simpa [replace, named, bound] using written

/-- Substitution takes the variables that have a value away, wherever they stand, and no others. -/
theorem occurrences_substitute {values : Assignment}
    (finite : ∀ name x, values name = some x → magnitude x < infinity) (expression : String) :
    occurrences (substitute values expression) =
      (occurrences expression).filter fun name => (values name).isNone := by
  have parts (c : Char) (member : .other c ∈ pieces expression.toList) :
      Text.Parts (spaced (replace values (.other c))) :=
    parts_spaced (Text.not_isWordChar_of_mem member)
  rw [occurrences, occurrences, substitute_pieces,
    Text.pieces_flatMap _ (Text.isChain_pieces expression.toList) parts, List.filterMap_flatMap,
    List.filterMap_eq_flatMap_toList, List.filter_flatMap]
  apply List.flatMap_congr
  intro piece member
  exact filterMap_ofPiece?_replace finite member

/-- Only the values of its variables matter to an expression's text. -/
theorem substitute_congr {values others : Assignment} {expression : String}
    (same : ∀ name ∈ free expression, values name = others name) :
    substitute values expression = substitute others expression := by
  apply String.toList_injective
  rw [substitute_pieces, substitute_pieces]
  apply List.flatMap_congr
  intro piece member
  cases named : ofPiece? piece with
  | none => simp [replace, named]
  | some name =>
    have present : name ∈ free expression := mem_free_iff_exists_piece.mpr ⟨piece, member, named⟩
    simp [replace, named, same name present]

theorem ofList_single (name other : String) (x : Float) :
    Assignment.ofList [(name, x)] other = if other = name then some x else none :=
  Assignment.ofList_concat [] name other x

/-- Finite values take their names out of the variables of an expression and leave the others in their
order. A single value changes the text exactly if its name is one of the variables. -/
theorem free_substitute (expression : String) :
    (∀ values : Assignment, (∀ name x, values name = some x → magnitude x < infinity) →
      free (substitute values expression) =
        (free expression).filter fun name => (values name).isNone) ∧
    ∀ name x, magnitude x < infinity →
      (substitute (.ofList [(name, x)]) expression ≠ substitute (.ofList []) expression ↔
        name ∈ free expression) := by
  have left (values : Assignment)
      (finite : ∀ name x, values name = some x → magnitude x < infinity) :
      free (substitute values expression) =
        (free expression).filter fun name => (values name).isNone := by
    have words := congrArg List.eraseDups (occurrences_substitute finite expression)
    rw [eraseDups_filter] at words
    exact words
  refine ⟨left, ?_⟩
  intro name x finite
  constructor
  · intro changed
    by_contra absent
    apply changed
    apply substitute_congr
    intro other present
    have different : other ≠ name := by
      intro same
      exact absent (same ▸ present)
    rw [ofList_single, if_neg different]
    rfl
  · intro present same
    have bound (other : String) (y : Float) (value : Assignment.ofList [(name, x)] other = some y) :
        magnitude y < infinity := by
      rw [ofList_single] at value
      split at value
      · exact Option.some.inj value ▸ finite
      · cases value
    have kept := left (.ofList []) nofun
    rw [← same, left _ bound] at kept
    have member : name ∈ (free expression).filter fun other => (Assignment.ofList [] other).isNone :=
      List.mem_filter.mpr ⟨present, rfl⟩
    rw [← kept, List.mem_filter, ofList_single, if_pos rfl] at member
    cases member.2

/-- A value with a minus and one with a point, among words that a digit or a letter of another script
is glued to. -/
theorem free_substitute_glued :
    let expression := "b-(rate+2a)*b/rateé^_x"
    let values := Assignment.ofList [("b", -5), ("rate", 0.5), ("2a", 1)]
    (∀ name x, values name = some x → magnitude x < infinity) ∧
      free (substitute values expression) = ["_x"] ∧
      magnitude (-5) < infinity ∧ "b" ∈ free expression ∧ "2a" ∉ free expression ∧
      substitute (.ofList [("b", -5)]) expression ≠ substitute (.ofList []) expression ∧
      substitute (.ofList [("2a", 1)]) expression = substitute (.ofList []) expression := by
  intro expression values
  have small : ∀ binding ∈ [("2a", (1 : Float)), ("rate", 0.5), ("b", -5)],
      magnitude binding.2 < infinity := by decide +kernel
  have finite (name : String) (x : Float) (bound : values name = some x) : magnitude x < infinity := by
    obtain ⟨before, after, split, _⟩ := List.lookup_eq_some_iff.mp bound
    have split : [("2a", (1 : Float)), ("rate", 0.5), ("b", -5)] = before ++ (name, x) :: after := split
    apply small (name, x)
    rw [split]
    exact List.mem_append_right before List.mem_cons_self
  have words : free expression = ["b", "rate", "_x"] := by decide +kernel
  have five : magnitude (-5) < infinity := small ("b", -5) (by simp)
  have one : magnitude 1 < infinity := small ("2a", 1) (by simp)
  have present : "b" ∈ free expression := by
    rw [words]
    exact List.mem_cons_self
  have absent : "2a" ∉ free expression := by
    rw [words]
    decide
  obtain ⟨left, changed⟩ := free_substitute expression
  refine ⟨finite, ?_, five, present, absent, (changed "b" (-5) five).mpr present, ?_⟩
  · rw [left values finite, words]
    decide +kernel
  · by_contra different
    exact absent ((changed "2a" 1 one).mp different)

end Variable

end Reckon
