import Reckon.Proofs.MissingValues

/-! The variables of an expression are the names in it that have a word's end on either side. Cutting a
text into pieces finds these and no others, and in the order in which they stand. -/

namespace Reckon

namespace Text

/-- Just one of two texts has a word character where they meet. -/
def Boundary (before after : List Char) : Prop :=
  before.getLast?.any isWordChar ≠ after.head?.any isWordChar

/-- Word characters between two texts, neither of which goes on with one. -/
structure LongestRun (before letters after : List Char) : Prop where
  present : letters ≠ []
  word : ∀ c ∈ letters, isWordChar c = true
  starts : ∀ c ∈ before.getLast?, isWordChar c = false
  breaks : Breaks after

theorem pieces_ne_nil {text : List Char} (present : text ≠ []) : pieces text ≠ [] := by
  intro none
  apply present
  rw [← chars_pieces text, none]
  rfl

theorem attach_append (c : Char) {front : List Piece} (present : front ≠ []) (back : List Piece) :
    Piece.attach c (front ++ back) = Piece.attach c front ++ back := by
  cases front with
  | nil => exact absurd rfl present
  | cons piece others => cases piece <;> rfl

/-- Where no word goes across, two texts are cut one after the other. -/
theorem pieces_append {before after : List Char}
    (apart : (∀ c ∈ before.getLast?, isWordChar c = false) ∨ Breaks after) :
    pieces (before ++ after) = pieces before ++ pieces after := by
  induction before with
  | nil => rfl
  | cons c rest ih =>
    by_cases word : isWordChar c = true
    · rw [List.cons_append, pieces, pieces, if_pos word, if_pos word]
      cases rest with
      | nil =>
        have breaks : Breaks after := by
          rcases apart with ends | breaks
          · exact absurd word (by simp [ends c rfl])
          · exact breaks
        exact attach_pieces c breaks
      | cons next rest =>
        have later := ih (by simpa using apart)
        rw [later, attach_append c (pieces_ne_nil (by simp))]
    · have other : isWordChar c = false := by simpa using word
      have later : pieces (rest ++ after) = pieces rest ++ pieces after := by
        cases rest with
        | nil => rfl
        | cons next rest => exact ih (by simpa using apart)
      rw [List.cons_append, pieces_other other, pieces_other other, later]
      rfl

theorem letters_of_mem {text letters : List Char} (member : .word letters ∈ pieces text) :
    letters ≠ [] ∧ ∀ c ∈ letters, isWordChar c = true := by
  induction text generalizing letters with
  | nil => cases member
  | cons c rest ih =>
    rw [pieces] at member
    split at member
    · rename_i word
      unfold Piece.attach at member
      split at member
      · rename_i more others same
        rcases List.mem_cons.mp member with first | later
        · cases first
          have inside := (ih (by rw [same]; exact List.mem_cons_self)).2
          exact ⟨by simp, List.forall_mem_cons.mpr ⟨word, inside⟩⟩
        · exact ih (by rw [same]; exact List.mem_cons_of_mem _ later)
      · rcases List.mem_cons.mp member with first | later
        · cases first
          exact ⟨by simp, List.forall_mem_singleton.mpr word⟩
        · exact ih later
    · rcases List.mem_cons.mp member with first | later
      · cases first
      · exact ih later

theorem LongestRun.pieces_eq {before letters after : List Char} (run : LongestRun before letters after) :
    pieces (before ++ letters ++ after) = pieces before ++ .word letters :: pieces after := by
  rw [List.append_assoc, pieces_append (.inl run.starts), pieces_word run.present run.word run.breaks]

/-- A word among the pieces is a longest run between what the pieces before and behind it stand for. -/
theorem longestRun_of_split {text letters : List Char} {front back : List Piece}
    (split : pieces text = front ++ .word letters :: back) :
    text = front.flatMap Piece.chars ++ letters ++ back.flatMap Piece.chars ∧
      LongestRun (front.flatMap Piece.chars) letters (back.flatMap Piece.chars) := by
  have whole := chars_pieces text
  have chain := isChain_pieces text
  have member : .word letters ∈ pieces text := by
    rw [split]
    exact List.mem_append_right front List.mem_cons_self
  have inside := letters_of_mem member
  have others (c : Char) (member : .other c ∈ front ++ .word letters :: back) : isWordChar c = false :=
    not_isWordChar_of_mem (by rw [split]; exact member)
  rw [split] at whole chain
  refine ⟨?_, inside.1, inside.2, ?_, ?_⟩
  · simpa [Piece.chars] using whole.symm
  · intro c last
    rcases List.eq_nil_or_concat' front with rfl | ⟨first, piece, rfl⟩
    · cases last
    · cases piece with
      | word more =>
        rw [List.append_assoc] at chain
        have next := (List.isChain_cons.mp chain.right_of_append).1
        cases next _ rfl rfl
      | other d =>
        have same : d = c := by simpa [Piece.chars] using last
        exact same ▸ others d (by simp)
  · intro c first
    cases back with
    | nil => cases first
    | cons piece rest =>
      cases piece with
      | word more =>
        have next := (List.isChain_cons.mp chain.right_of_append).1
        cases next _ rfl rfl
      | other d =>
        have same : d = c := by simpa [Piece.chars] using first
        exact same ▸ others d (by simp)

theorem boundary_before_iff {letters : List Char} (present : letters ≠ [])
    (word : ∀ c ∈ letters, isWordChar c = true) (before after : List Char) :
    Boundary before (letters ++ after) ↔ ∀ c ∈ before.getLast?, isWordChar c = false := by
  obtain ⟨c, more, rfl⟩ := List.exists_cons_of_ne_nil present
  unfold Boundary
  cases before.getLast? <;> simp [word c List.mem_cons_self]

theorem boundary_behind_iff {letters : List Char} (present : letters ≠ [])
    (word : ∀ c ∈ letters, isWordChar c = true) (before after : List Char) :
    Boundary (before ++ letters) after ↔ Breaks after := by
  have last := word _ (List.getLast_mem present)
  unfold Boundary Breaks
  rw [List.getLast?_append_of_ne_nil _ present, List.getLast?_eq_some_getLast present]
  cases after.head? <;> simp [last]

end Text

namespace Variable

open Text (Boundary LongestRun Piece pieces)

/-- A name between two texts with both its ends at boundaries. -/
structure WholeWord (before name after : List Char) : Prop where
  named : isName name = true
  starts : Boundary before (name ++ after)
  ends : Boundary (before ++ name) after

/-- A whole word of the one name stands in the text before all those of the other. -/
def StartsBefore (text : List Char) (a b : String) : Prop :=
  ∃ before after, text = before ++ a.toList ++ after ∧ WholeWord before a.toList after ∧
    ∀ front back, text = front ++ b.toList ++ back → WholeWord front b.toList back →
      before.length < front.length

/-- A name has letters, digits and underscores only, at least one of them, and no digit first. -/
theorem isName_iff {letters : List Char} : isName letters = true ↔
    letters ≠ [] ∧ (∀ c ∈ letters, (c.isAlphanum || c == '_') = true) ∧
      ∀ c ∈ letters.head?, c.isDigit = false := by
  cases letters with
  | nil => simp [isName]
  | cons c rest =>
    have first : (c.isAlpha || c == '_') = true ↔
        (c.isAlphanum || c == '_') = true ∧ c.isDigit = false := by
      by_cases digit : c.isDigit = true
      · simp [not_letter_of_isDigit digit, digit]
      · simp [Char.isAlphanum, digit]
    rw [isName, Bool.and_eq_true, first, List.all_eq_true]
    simp only [List.forall_mem_cons, List.head?_cons, Option.mem_some_iff, forall_eq', ne_eq,
      reduceCtorEq, not_false_eq_true, true_and]
    exact and_right_comm

theorem wholeWord_iff {before letters after : List Char} : WholeWord before letters after ↔
    LongestRun before letters after ∧ (∀ c ∈ letters, (c.isAlphanum || c == '_') = true) ∧
      ∀ c ∈ letters.head?, c.isDigit = false := by
  constructor
  · intro whole
    obtain ⟨present, letter, first⟩ := isName_iff.mp whole.named
    have word (c : Char) (member : c ∈ letters) := Text.isWordChar_of_name (letter c member)
    exact ⟨⟨present, word, (Text.boundary_before_iff present word _ _).mp whole.starts,
      (Text.boundary_behind_iff present word _ _).mp whole.ends⟩, letter, first⟩
  · rintro ⟨run, letter, first⟩
    exact ⟨isName_iff.mpr ⟨run.present, letter, first⟩,
      (Text.boundary_before_iff run.present run.word _ _).mpr run.starts,
      (Text.boundary_behind_iff run.present run.word _ _).mpr run.breaks⟩

theorem WholeWord.ofPiece? {before after : List Char} {name : String}
    (whole : WholeWord before name.toList after) : ofPiece? (.word name.toList) = some name := by
  simp [Variable.ofPiece?, whole.named]

theorem WholeWord.pieces_eq {before letters after : List Char} (whole : WholeWord before letters after) :
    pieces (before ++ letters ++ after) = pieces before ++ .word letters :: pieces after :=
  (wholeWord_iff.mp whole).1.pieces_eq

/-- A piece that is a variable is a whole word. -/
theorem wholeWord_of_split {text : List Char} {front back : List Piece} {piece : Piece} {name : String}
    (split : pieces text = front ++ piece :: back) (named : ofPiece? piece = some name) :
    text = front.flatMap Piece.chars ++ name.toList ++ back.flatMap Piece.chars ∧
      WholeWord (front.flatMap Piece.chars) name.toList (back.flatMap Piece.chars) := by
  obtain ⟨letters, rfl, valid, rfl⟩ := exists_word named
  obtain ⟨whole, run⟩ := Text.longestRun_of_split split
  rw [String.toList_ofList]
  exact ⟨whole, wholeWord_iff.mpr ⟨run, (isName_iff.mp valid).2⟩⟩

/-- The variables are the whole words. -/
theorem mem_free_iff {expression name : String} : name ∈ free expression ↔
    ∃ before after, expression.toList = before ++ name.toList ++ after ∧
      WholeWord before name.toList after := by
  rw [mem_free_iff_exists_piece]
  constructor
  · rintro ⟨piece, member, named⟩
    obtain ⟨front, back, split⟩ := List.append_of_mem member
    exact ⟨_, _, wholeWord_of_split split named⟩
  · rintro ⟨before, after, text, whole⟩
    refine ⟨.word name.toList, ?_, whole.ofPiece?⟩
    rw [text, whole.pieces_eq]
    simp

/-- What appears earlier among the pieces stands earlier in the text. -/
theorem startsBefore_of_appearsBefore {expression a b : String}
    (earlier : AppearsBefore (occurrences expression) a b) : StartsBefore expression.toList a b := by
  obtain ⟨names, ⟨others, split⟩, present, absent⟩ := earlier
  obtain ⟨first, rest, pieces_eq, rfl, _⟩ := List.filterMap_eq_append_iff.mp split.symm
  obtain ⟨piece, member, named⟩ := List.mem_filterMap.mp present
  obtain ⟨front, back, rfl⟩ := List.append_of_mem member
  have inside : pieces expression.toList = front ++ piece :: (back ++ rest) := by
    rw [pieces_eq, List.append_assoc, List.cons_append]
  obtain ⟨text, whole⟩ := wholeWord_of_split inside named
  refine ⟨_, _, text, whole, ?_⟩
  intro before after later other
  -- The pieces up to the first name end before the word of the other, which is not among them.
  have outside : .word b.toList ∉ front ++ piece :: back := by
    intro member
    exact absent (List.mem_filterMap.mpr ⟨_, member, other.ofPiece?⟩)
  have behind : front ++ piece :: back <+: pieces before := by
    have start : front ++ piece :: back <+: pieces expression.toList := pieces_eq ▸ List.prefix_append _ _
    have upTo : pieces before ++ [.word b.toList] <+: pieces expression.toList := by
      rw [later, other.pieces_eq]
      exact ⟨pieces after, by simp⟩
    rcases List.prefix_or_prefix_of_prefix start upTo with shorter | longer
    · rcases List.prefix_concat_iff.mp shorter with same | shorter
      · exact absurd (by rw [same]; simp) outside
      · exact shorter
    · exact absurd (longer.subset (by simp)) outside
  obtain ⟨more, chars⟩ := behind
  have length : (front.flatMap Piece.chars).length < before.length := by
    obtain ⟨letters, rfl, valid, _⟩ := exists_word named
    have some := List.length_pos_iff.mpr (isName_iff.mp valid).1
    rw [← Text.chars_pieces before, ← chars]
    simp only [List.flatMap_append, List.flatMap_cons, List.length_append, Piece.chars]
    omega
  exact length

/-- The variables of an expression are its whole words: the names in it with a boundary at either end,
which are its longest runs of word characters that have letters, digits and underscores of ASCII only
and no digit first. They are listed once each, in the order in which they first stand in the text. -/
theorem free_whole_words (expression : String) :
    (∀ name, name ∈ free expression ↔ ∃ before after,
      expression.toList = before ++ name.toList ++ after ∧ WholeWord before name.toList after) ∧
    (∀ before letters after, WholeWord before letters after ↔
      LongestRun before letters after ∧ (∀ c ∈ letters, (c.isAlphanum || c == '_') = true) ∧
        ∀ c ∈ letters.head?, c.isDigit = false) ∧
    (free expression).Nodup ∧ (free expression).Pairwise (StartsBefore expression.toList) := by
  have ordered := pairwise_eraseDups (occurrences expression)
  refine ⟨fun _ => mem_free_iff, fun _ _ _ => wholeWord_iff, ?_, ?_⟩
  · apply ordered.imp
    rintro a _ earlier rfl
    exact Std.Irrefl.irrefl a earlier
  · apply ordered.imp
    intro a b earlier
    exact startsBefore_of_appearsBefore earlier

end Variable

end Reckon
