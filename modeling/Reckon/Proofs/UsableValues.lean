import Reckon.Proofs.KeptWords

/-! What the value of an expression rests on. All of its variables must have finite values, and no letter
may stand beside them; whatever else there is to say of the expression, it is refused otherwise. No other
values matter. -/

namespace Reckon

namespace Text

/-- Each character of a text stands in one of the pieces. -/
theorem exists_piece {pieces : List Piece} {before after : List Char} {c : Char}
    (split : pieces.flatMap Piece.chars = before ++ c :: after) :
    ∃ front piece back start rest, pieces = front ++ piece :: back ∧
      piece.chars = start ++ c :: rest ∧ before = front.flatMap Piece.chars ++ start := by
  induction pieces generalizing before with
  | nil => simp at split
  | cons piece others ih =>
    rw [List.flatMap_cons] at split
    have behind {start : List Char} (later : others.flatMap Piece.chars = start ++ c :: after)
        (same : before = piece.chars ++ start) :
        ∃ front found back start rest, piece :: others = front ++ found :: back ∧
          found.chars = start ++ c :: rest ∧ before = front.flatMap Piece.chars ++ start := by
      obtain ⟨front, found, back, start, rest, rfl, chars, rfl⟩ := ih later
      exact ⟨piece :: front, found, back, start, rest, rfl, chars, by simp [same]⟩
    rcases List.append_eq_append_iff.mp split with ⟨more, same, later⟩ | ⟨more, chars, later⟩
    · exact behind later same
    · cases more with
      | nil =>
        have next : others.flatMap Piece.chars = [] ++ c :: after := later.symm
        exact behind next (by simpa using chars.symm)
      | cons d more =>
        cases later
        exact ⟨[], piece, others, before, more, rfl, chars, rfl⟩

end Text

namespace Variable

open Binary64 (isNaN magnitude infinity)
open Text (Piece pieces)

/-- ASCII letters, the underscore and all characters beyond ASCII. No token starts with one. -/
def isForeign (c : Char) : Bool := c.isAlpha || c == '_' || 128 ≤ c.toNat

/-- The character stands in the text at a place that no whole word covers. -/
def Outside (text : List Char) (c : Char) : Prop :=
  ∃ before after, text = before ++ c :: after ∧
    ∀ front name back, text = front ++ name ++ back → WholeWord front name back →
      before.length < front.length ∨ (front ++ name).length ≤ before.length

/-- The name has no value, an infinite one, or one that is no number. -/
def Unusable (values : Assignment) (name : String) : Prop :=
  ∀ x, values name = some x → magnitude x = infinity ∨ isNaN x = true

/-- No token starts with a character beyond ASCII. -/
theorem refused_wide {c : Char} (wide : 128 ≤ c.toNat) (rest : List Char) : Refused (c :: rest) := by
  have apart {d : Char} (ascii : d.toNat < 128) : c ≠ d := by
    rintro rfl
    omega
  have digit : c.isDigit = false := Bool.eq_false_iff.mpr fun digit => by
    have most : c.toNat ≤ '9'.toNat := of_decide_eq_true ((Bool.and_eq_true _ _).mp digit).2
    exact absurd (Nat.le_trans wide most) (by decide)
  have gap : Token.isGap c = false := by
    simp [Token.isGap, apart (d := ' ') (by decide), apart (d := '\t') (by decide),
      apart (d := '\r') (by decide), apart (d := '\n') (by decide), apart (d := '\x0c') (by decide)]
  have symbol : Token.ofSymbol? c = none := by
    unfold Token.ofSymbol?
    split
    case h_8 => rfl
    all_goals exact absurd rfl (apart (by decide))
  exact refused_cons gap symbol (Token.not_isNumeral_iff.mpr ⟨digit, apart (by decide)⟩) rest

theorem refused_foreign {c : Char} (foreign : isForeign c = true) (rest : List Char) :
    Refused (c :: rest) := by
  rw [isForeign, Bool.or_eq_true] at foreign
  rcases foreign with letter | wide
  · exact refused_letter letter rest
  · exact refused_wide (of_decide_eq_true wide) rest

theorem mem_free_of_wholeWord {expression : String} {front letters back : List Char}
    (split : expression.toList = front ++ letters ++ back) (whole : WholeWord front letters back) :
    String.ofList letters ∈ free expression := by
  have named : (String.ofList letters).toList = letters := String.toList_ofList
  rw [← named] at split whole
  exact mem_free_iff.mpr ⟨front, back, split, whole⟩

/-- What stands outside of the whole words is in a piece that is no variable. -/
theorem Outside.exists_piece {text : List Char} {c : Char} (outside : Outside text c) :
    ∃ front piece back start rest, pieces text = front ++ piece :: back ∧
      ofPiece? piece = none ∧ piece.chars = start ++ c :: rest := by
  obtain ⟨before, after, split, apart⟩ := outside
  obtain ⟨front, piece, back, start, rest, cut, chars, place⟩ :=
    Text.exists_piece ((Text.chars_pieces text).trans split)
  refine ⟨front, piece, back, start, rest, cut, ?_, chars⟩
  apply Option.eq_none_iff_forall_ne_some.mpr
  intro name named
  -- as a variable the piece would be a whole word, with the place of the character in it
  obtain ⟨whole, word⟩ := wholeWord_of_split cut named
  have letters : name.toList = start ++ c :: rest := by
    obtain ⟨letters, rfl, _, rfl⟩ := exists_word named
    rw [String.toList_ofList]
    exact chars
  have covered := apart _ _ _ whole word
  simp only [place, letters, List.length_append, List.length_cons] at covered
  omega

theorem evaluate_outside (power : Grouping) (values : Assignment) {expression : String} {c : Char}
    (foreign : isForeign c = true) (outside : Outside expression.toList c) :
    ∃ d, evaluate power values expression = .error (.invalid (.unexpected d)) := by
  obtain ⟨front, piece, back, start, rest, cut, other, chars⟩ := outside.exists_piece
  have kept : replace values piece = start ++ c :: rest := by rw [replace, other, ← chars]; rfl
  have filled : fill values expression.toList = front.flatMap (replace values) ++ start ++
      c :: (rest ++ back.flatMap (replace values)) := by
    simp [fill, cut, kept]
  exact evaluate_refused power filled (refused_foreign foreign _)

/-- An expression with a variable that has no finite value, or with a letter, an underscore or a
character beyond ASCII outside of its whole words, is refused at a character: it has no value, and is
said neither to divide by zero nor to have its parentheses wrong. -/
theorem evaluate_unusable_refused (power : Grouping) (values : Assignment) (expression : String)
    (unfit : (∃ name ∈ free expression, Unusable values name) ∨
      ∃ c, isForeign c = true ∧ Outside expression.toList c) :
    ∃ c, evaluate power values expression = .error (.invalid (.unexpected c)) ∧
      (ExpressionFault.unexpected c).message = "unexpected character(s) '" ++ c.toString ++ "'" := by
  have refused : ∃ c, evaluate power values expression = .error (.invalid (.unexpected c)) := by
    rcases unfit with ⟨name, free, unusable⟩ | ⟨c, foreign, outside⟩
    · apply evaluate_unusable power free
      intro x bound finite
      rcases unusable x bound with infinite | number
      · omega
      · simp only [isNaN, decide_eq_true_eq] at number
        omega
    · exact evaluate_outside power values foreign outside
  obtain ⟨c, refused⟩ := refused
  exact ⟨c, refused, rfl⟩

/-- A variable named and valued infinity beside a division by zero and a parenthesis that is not closed,
and a letter glued to a digit behind one that is not opened. -/
theorem evaluate_unusable_refused_infinity :
    let values := Assignment.ofList [("inf", .ofBits 0x7FF0000000000000), ("a", 5)]
    "inf" ∈ free "(1/0-inf" ∧ Unusable values "inf" ∧
      (∃ c, evaluate .left values "(1/0-inf" = .error (.invalid (.unexpected c)) ∧
        (ExpressionFault.unexpected c).message = "unexpected character(s) '" ++ c.toString ++ "'") ∧
      isForeign 'a' = true ∧ Outside "1/0)+2a".toList 'a' ∧
      ∃ c, evaluate .right values "1/0)+2a" = .error (.invalid (.unexpected c)) ∧
        (ExpressionFault.unexpected c).message = "unexpected character(s) '" ++ c.toString ++ "'" := by
  intro values
  have free : "inf" ∈ free "(1/0-inf" := by decide +kernel
  have unusable : Unusable values "inf" := by
    intro x bound
    have infinite : magnitude (.ofBits 0x7FF0000000000000) = infinity := by decide +kernel
    cases bound
    exact .inl infinite
  have foreign : isForeign 'a' = true := rfl
  have outside : Outside "1/0)+2a".toList 'a' := by
    refine ⟨"1/0)+2".toList, [], rfl, ?_⟩
    intro front name back split whole
    have none : Variable.free "1/0)+2a" = [] := by decide +kernel
    have member := mem_free_of_wholeWord split whole
    rw [none] at member
    cases member
  refine ⟨free, unusable, ?_, foreign, outside, ?_⟩
  · exact evaluate_unusable_refused .left values _ (.inl ⟨"inf", free, unusable⟩)
  · exact evaluate_unusable_refused .right values _ (.inr ⟨'a', foreign, outside⟩)

theorem isName_of_mem_free {expression name : String} (member : name ∈ free expression) :
    isName name.toList = true := by
  obtain ⟨_, _, _, whole⟩ := mem_free_iff.mp member
  exact whole.named

theorem evaluate_congr (power : Grouping) {values other : Assignment} {expression : String}
    (same : ∀ name ∈ free expression, values name = other name) :
    evaluate power values expression = evaluate power other expression := by
  rw [evaluate, evaluate, substitute_congr same]

/-- An expression with a value has a finite one for each variable. -/
theorem exists_value_of_evaluate_ok {power : Grouping} {values : Assignment} {expression name : String}
    {result : Float} (evaluated : evaluate power values expression = .ok result)
    (member : name ∈ free expression) : ∃ x, values name = some x ∧ magnitude x < infinity := by
  by_contra unusable
  have none (x : Float) (bound : values name = some x) : ¬ magnitude x < infinity :=
    fun finite => unusable ⟨x, bound, finite⟩
  obtain ⟨c, refused⟩ := evaluate_unusable power member none
  cases evaluated.symm.trans refused

end Variable

/-- The other assignment has all values of this one, and may have more. -/
def Assignment.Extends (other values : Assignment) : Prop :=
  ∀ name x, values name = some x → other name = some x

theorem Assignment.extends_concat {bindings : List (String × Float)} {name : String} {value : Float}
    (unbound : ofList bindings name = none) :
    (ofList (bindings ++ [(name, value)])).Extends (ofList bindings) := by
  intro other x bound
  rw [ofList_concat]
  by_cases same : other = name
  · rw [same, unbound] at bound
    cases bound
  · rw [if_neg same, bound]

namespace Variable

/-- An expression has the same text and the same outcome with any two assignments that agree on its
variables. These are names, so it is of no account what other keys have. When it has a value, all of its
variables do, and so it keeps it with every assignment that extends the one. -/
theorem evaluate_of_free_values (expression : String) :
    (∀ values other : Assignment, (∀ name ∈ free expression, values name = other name) →
      substitute values expression = substitute other expression ∧
        ∀ power, evaluate power values expression = evaluate power other expression) ∧
    (∀ name ∈ free expression, isName name.toList = true) ∧
    ∀ power (values other : Assignment) result, evaluate power values expression = .ok result →
      other.Extends values → evaluate power other expression = .ok result := by
  refine ⟨?_, fun _ => isName_of_mem_free, ?_⟩
  · intro values other same
    exact ⟨substitute_congr same, fun power => evaluate_congr power same⟩
  · intro power values other result evaluated extended
    have same : ∀ name ∈ free expression, values name = other name := by
      intro name member
      obtain ⟨x, bound, _⟩ := exists_value_of_evaluate_ok evaluated member
      rw [bound, extended name x bound]
    rw [← evaluated, evaluate_congr power same]

/-- A value for a key that is no name but stands in the text. -/
theorem evaluate_of_free_values_sum :
    let values := Assignment.ofList [("a", 2), ("b", 3)]
    let other := Assignment.ofList ([("a", 2), ("b", 3)] ++ [("a + b", 7)])
    (∀ name ∈ free "(a + b) * a", values name = other name) ∧
      substitute values "(a + b) * a" = substitute other "(a + b) * a" ∧
      evaluate .left values "(a + b) * a" = .ok 10 ∧ other.Extends values ∧
      evaluate .left other "(a + b) * a" = .ok 10 := by
  intro values other
  have same : ∀ name ∈ free "(a + b) * a", values name = other name := by decide +kernel
  have evaluated : evaluate .left values "(a + b) * a" = .ok 10 := by decide +kernel
  have extended : other.Extends values := Assignment.extends_concat rfl
  obtain ⟨congr, _, kept⟩ := evaluate_of_free_values "(a + b) * a"
  exact ⟨same, (congr values other same).1, evaluated, extended,
    kept .left values other 10 evaluated extended⟩

end Variable

end Reckon
