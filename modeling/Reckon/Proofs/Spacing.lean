import Reckon.Proofs.KeptWords

/-! Gaps around symbols. They belong neither to the words of an expression nor to its numbers, so it has
the same variables and the same outcome however its symbols are spaced. -/

namespace Reckon

namespace Text

theorem pieces_others {others : List Char} (apart : ∀ c ∈ others, isWordChar c = false)
    (rest : List Char) : pieces (others ++ rest) = others.map Piece.other ++ pieces rest := by
  induction others with
  | nil => rfl
  | cons c more ih =>
    obtain ⟨first, later⟩ := List.forall_mem_cons.mp apart
    rw [List.cons_append, pieces_other first, ih later]
    rfl

/-- Characters between words keep what is before them apart from what is behind. -/
theorem pieces_between (front : List Char) {between : List Char} (some : between ≠ [])
    (apart : ∀ c ∈ between, isWordChar c = false) (back : List Char) :
    pieces (front ++ (between ++ back)) = pieces front ++ (between.map Piece.other ++ pieces back) := by
  have breaks : Breaks (between ++ back) := by
    intro c first
    rw [List.head?_append_of_ne_nil _ some] at first
    exact apart c (List.mem_of_mem_head? first)
  rw [pieces_append (.inr breaks), pieces_others apart]

end Text

namespace Token

/-- A symbol with gaps before and behind it. -/
inductive Spread (c : Char) : List Char → Prop where
  | gaps (before : ∀ d ∈ gap, isGap d = true) (behind : ∀ d ∈ last, isGap d = true) :
      Spread c (gap ++ c :: last)

variable {c : Char} {token : Token} {between : List Char}

theorem spread_self (c : Char) : Spread c [c] :=
  .gaps (List.forall_mem_nil _) (List.forall_mem_nil _)

theorem Spread.ne_nil (spread : Spread c between) : between ≠ [] := by
  cases spread
  simp

theorem Spread.separate (spread : Spread c between) (symbol : isSymbol c = true) :
    ∀ d ∈ between, Text.isWordChar d = false ∧ isNumeral d = false := by
  cases spread with
  | gaps before behind =>
    intro d member
    apply Token.separate
    rcases List.mem_append.mp member with front | inside
    · exact .inl (before d front)
    · rcases List.mem_cons.mp inside with rfl | back
      · exact .inr symbol
      · exact .inl (behind d back)

theorem Spread.scan_eq (spread : Spread c between) (means : ofSymbol? c = some token)
    (back : List Char) : scan (between ++ back) = (token :: ·) <$> scan back := by
  cases spread with
  | gaps before behind =>
    rw [List.append_assoc, scan_gap before, List.cons_append, scan_symbol means, scan_gap behind]

/-- However a symbol is spaced, the texts before and behind it are scanned on their own. -/
theorem Spread.scan_append (spread : Spread c between) (means : ofSymbol? c = some token)
    (front back : List Char) :
    scan (front ++ (between ++ back)) =
      scan front >>= fun first => (first ++ ·) <$> (token :: ·) <$> scan back := by
  have symbol : isSymbol c = true := Option.isSome_iff_exists.mpr ⟨token, means⟩
  have splits : Splits front (between ++ back) := by
    refine .inr fun d first => ?_
    rw [List.head?_append_of_ne_nil _ spread.ne_nil] at first
    exact (spread.separate symbol d (List.mem_of_mem_head? first)).2
  rw [Token.scan_append splits, spread.scan_eq means]

end Token

namespace Variable

open Token (Spread)
open Text (Piece pieces)

/-- The second text is the first with gaps put in before and behind its symbols, at any of them and any
number of times. -/
inductive Widens (text : List Char) : List Char → Prop where
  | refl : Widens text text
  | step (widens : Widens text (front ++ ([c] ++ back))) (symbol : Token.isSymbol c = true)
      (spread : Spread c between) : Widens text (front ++ (between ++ back))

variable {c : Char} {between text widened : List Char}

theorem filterMap_ofPiece?_between (spread : Spread c between) (symbol : Token.isSymbol c = true)
    (front back : List Char) :
    (pieces (front ++ (between ++ back))).filterMap ofPiece? =
      (pieces front).filterMap ofPiece? ++ (pieces back).filterMap ofPiece? := by
  have others : (between.map Piece.other).filterMap ofPiece? = [] := by
    simp [List.filterMap_eq_nil_iff, ofPiece?]
  rw [Text.pieces_between front spread.ne_nil fun d member => (spread.separate symbol d member).1,
    List.filterMap_append, List.filterMap_append, others, List.nil_append]

theorem fill_between (values : Assignment) (spread : Spread c between)
    (symbol : Token.isSymbol c = true) (front back : List Char) :
    fill values (front ++ (between ++ back)) = fill values front ++ (between ++ fill values back) := by
  have kept : (between.map Piece.other).flatMap (replace values) = between := by
    simp [List.flatMap_map, replace, ofPiece?, Piece.chars]
  rw [fill, Text.pieces_between front spread.ne_nil fun d member => (spread.separate symbol d member).1,
    List.flatMap_append, List.flatMap_append, kept]
  rfl

theorem Widens.filterMap_ofPiece? (widens : Widens text widened) :
    (pieces widened).filterMap ofPiece? = (pieces text).filterMap ofPiece? := by
  induction widens with
  | refl => rfl
  | step widens symbol spread ih =>
    -- a symbol without gaps is spread as well, so both texts come apart in the same way
    rw [filterMap_ofPiece?_between (Token.spread_self _) symbol] at ih
    rw [filterMap_ofPiece?_between spread symbol, ih]

theorem Widens.scan_fill (widens : Widens text widened) (values : Assignment) :
    Token.scan (fill values widened) = Token.scan (fill values text) := by
  induction widens with
  | refl => rfl
  | step widens symbol spread ih =>
    obtain ⟨token, means⟩ := Option.isSome_iff_exists.mp symbol
    rw [fill_between values (Token.spread_self _) symbol, (Token.spread_self _).scan_append means] at ih
    rw [fill_between values spread symbol, spread.scan_append means, ih]

/-- Gaps put in before and behind the symbols of an expression change neither its variables nor its
outcome, be it a value or an error. Nor do the blanks that substitution puts there matter: the text with
them has the same tokens, or the same fault, as the text without. -/
theorem evaluate_widened (expression : String) :
    (∀ widened : String, Widens expression.toList widened.toList →
      free widened = free expression ∧
        ∀ power values, evaluate power values widened = evaluate power values expression) ∧
    ∀ values, (substitute values expression).toList = spaced (fill values expression.toList) ∧
      Token.read (spaced (fill values expression.toList)) =
        Token.read (fill values expression.toList) := by
  refine ⟨?_, ?_⟩
  · intro widened widens
    refine ⟨congrArg List.eraseDups widens.filterMap_ofPiece?, ?_⟩
    intro power values
    rw [evaluate, evaluate, Token.read_substitute, Token.read_substitute, Token.read, Token.read,
      widens.scan_fill values]
  · intro values
    have text := substitute_eq values expression
    refine ⟨text, ?_⟩
    rw [← text, Token.read_substitute]

/-- A feed and a tab before a minus, a line's end behind it, and a blank before a parenthesis that closes
nothing. -/
theorem evaluate_widened_unmatched :
    let values := Assignment.ofList [("rate", 2)]
    Widens "rate-.5)".toList "rate\x0c\t-\n.5 )".toList ∧ free "rate\x0c\t-\n.5 )" = free "rate-.5)" ∧
      evaluate .left values "rate\x0c\t-\n.5 )" = evaluate .left values "rate-.5)" ∧
      evaluate .left values "rate-.5)" = .error (.unmatched .closing) := by
  intro values
  have minus : Spread '-' (['\x0c', '\t'] ++ '-' :: ['\n']) :=
    .gaps (by simp [Token.isGap]) (by simp [Token.isGap])
  have closing : Spread ')' ([' '] ++ ')' :: []) :=
    .gaps (by simp [Token.isGap]) (by simp [Token.isGap])
  have plain : Widens "rate-.5)".toList ("rate".toList ++ (['-'] ++ ".5)".toList)) := .refl
  have first : Widens "rate-.5)".toList ("rate\x0c\t-\n.5".toList ++ ([')'] ++ [])) :=
    plain.step rfl minus
  have both : Widens "rate-.5)".toList "rate\x0c\t-\n.5 )".toList := first.step rfl closing
  obtain ⟨free, outcome⟩ := (evaluate_widened "rate-.5)").1 _ both
  exact ⟨both, free, outcome .left values, by decide +kernel⟩

end Variable

end Reckon
