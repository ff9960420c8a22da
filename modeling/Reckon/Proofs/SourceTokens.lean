import Mathlib
import Reckon.Proofs.WrittenValue

/-! Tokens of an expression whose variables still stand. Putting values into the text and scanning it
gives the same tokens with numbers for the variables, where no value's digits meet a point. -/

namespace Reckon

/-- A token of an expression as it is written: a plain one, or a variable. -/
inductive SourceToken where
  | token (token : Token)
  | name (name : String)
  deriving DecidableEq

namespace SourceToken

/-- Scans pieces behind plain text. A variable is a token of its own, which no other goes across, and
between variables the text is scanned as it is. -/
def scan : List Char → List Text.Piece → Except EvalError (List SourceToken)
  | plain, [] => (·.map token) <$> Token.scan plain
  | plain, piece :: rest =>
    match Variable.ofPiece? piece with
    | none => scan (plain ++ piece.chars) rest
    | some n => do
      let before ← Token.scan plain
      let after ← scan [] rest
      return before.map token ++ name n :: after

/-- The tokens of an expression, variables among them. -/
def read (expression : String) : Except EvalError (List SourceToken) :=
  scan [] (Text.pieces expression.toList)

def name? : SourceToken → Option String
  | token _ => none
  | name n => some n

/-- The token with the value of the variable that it is. Only bound names have one. -/
def meaning (values : Assignment) : SourceToken → Token
  | token t => t
  | name n => .number ((values n).getD 0)

/-- The tokens that a variable's value is scanned to stand in the variable's place. -/
inductive Resolves (values : Assignment) : List SourceToken → List Token → Prop where
  | done : Resolves values [] []
  | token (rest : Resolves values source tokens) : Resolves values (.token t :: source) (t :: tokens)
  | name (bound : values n = some x) (finite : Binary64.magnitude x < Binary64.infinity)
      (rest : Resolves values source tokens) :
      Resolves values (.name n :: source) (Numeral.tokens x ++ tokens)

variable {values : Assignment} {source : List SourceToken} {tokens : List Token}

theorem resolves_append_iff {before : List Token} :
    Resolves values (before.map token ++ source) tokens ↔
      ∃ after, tokens = before ++ after ∧ Resolves values source after := by
  induction before generalizing tokens with
  | nil => simp
  | cons t before ih =>
    constructor
    · intro resolves
      cases resolves with
      | token rest =>
        obtain ⟨after, rfl, later⟩ := ih.mp rest
        exact ⟨after, rfl, later⟩
    · rintro ⟨after, rfl, later⟩
      exact .token (ih.mpr ⟨after, rfl, later⟩)

theorem resolves_map_iff {before : List Token} :
    Resolves values (before.map token) tokens ↔ tokens = before := by
  have whole : Resolves values (before.map token ++ []) tokens ↔
      ∃ after, tokens = before ++ after ∧ Resolves values [] after := resolves_append_iff
  rw [List.append_nil] at whole
  rw [whole]
  constructor
  · rintro ⟨_, rfl, resolves⟩
    cases resolves
    exact List.append_nil _
  · rintro rfl
    exact ⟨[], (List.append_nil _).symm, .done⟩

theorem resolves_name_iff {n : String} : Resolves values (name n :: source) tokens ↔
    ∃ x after, values n = some x ∧ Binary64.magnitude x < Binary64.infinity ∧
      tokens = Numeral.tokens x ++ after ∧ Resolves values source after := by
  constructor
  · intro resolves
    cases resolves with
    | name bound finite rest => exact ⟨_, _, bound, finite, rfl, rest⟩
  · rintro ⟨x, after, bound, finite, rfl, rest⟩
    exact .name bound finite rest

theorem scan_other {piece : Text.Piece} (other : Variable.ofPiece? piece = none) (plain : List Char)
    (rest : List Text.Piece) : scan plain (piece :: rest) = scan (plain ++ piece.chars) rest := by
  rw [scan, other]

theorem scan_named_iff {plain : List Char} {piece : Text.Piece} {rest : List Text.Piece} {n : String}
    (named : Variable.ofPiece? piece = some n) :
    scan plain (piece :: rest) = .ok source ↔ ∃ before after, Token.scan plain = .ok before ∧
      scan [] rest = .ok after ∧ source = before.map token ++ name n :: after := by
  rw [scan, named]
  constructor
  · intro found
    obtain ⟨before, scanned, found⟩ := exists_of_bind_ok found
    obtain ⟨after, later, found⟩ := exists_of_bind_ok found
    exact ⟨before, after, scanned, later, (Except.ok.inj found).symm⟩
  · rintro ⟨before, after, scanned, later, rfl⟩
    simp only [scanned, later]
    rfl

theorem Resolves.ne_nil_iff (resolves : Resolves values source tokens) : tokens ≠ [] ↔ source ≠ [] := by
  cases resolves with
  | done => simp
  | token rest => simp
  | name bound finite rest => simp [Numeral.tokens_ne_nil]

/-- Values that are finite and without a sign are single numbers. -/
theorem resolves_iff (plain : ∀ n x, values n = some x →
    Binary64.negative x = false ∧ Binary64.magnitude x < Binary64.infinity) :
    Resolves values source tokens ↔
      (∀ n, name n ∈ source → (values n).isSome = true) ∧ tokens = source.map (meaning values) := by
  constructor
  · intro resolves
    induction resolves with
    | done => simp
    | token rest ih =>
      obtain ⟨named, rfl⟩ := ih
      refine ⟨fun n member => named n ?_, rfl⟩
      simpa using member
    | @name n x source tokens bound finite rest ih =>
      obtain ⟨named, rfl⟩ := ih
      refine ⟨fun m member => ?_, ?_⟩
      · rcases List.mem_cons.mp member with same | later
        · cases same
          simp [bound]
        · exact named m later
      · simp [Numeral.tokens, (plain n x bound).1, meaning, bound]
  · rintro ⟨named, rfl⟩
    induction source with
    | nil => exact .done
    | cons first source ih =>
      have later := ih fun n member => named n (List.mem_cons_of_mem _ member)
      cases first with
      | token t => exact .token later
      | name n =>
        obtain ⟨x, bound⟩ := Option.isSome_iff_exists.mp (named n List.mem_cons_self)
        obtain ⟨positive, finite⟩ := plain n x bound
        have resolved := Resolves.name bound finite later
        simpa [Numeral.tokens, positive, meaning, bound] using resolved

/-- The variables among the tokens are the pieces that are variables. -/
theorem names_of_scan {plain : List Char} {pieces : List Text.Piece}
    (found : scan plain pieces = .ok source) :
    source.filterMap name? = pieces.filterMap Variable.ofPiece? := by
  have unnamed (tokens : List Token) : (tokens.map token).filterMap name? = [] := by
    induction tokens with
    | nil => rfl
    | cons t rest ih => exact ih
  induction pieces generalizing plain source with
  | nil =>
    obtain ⟨tokens, _, rfl⟩ := exists_of_map_ok found
    exact unnamed tokens
  | cons piece rest ih =>
    cases named : Variable.ofPiece? piece with
    | none =>
      rw [scan_other named] at found
      rw [List.filterMap_cons_none named]
      exact ih found
    | some n =>
      obtain ⟨before, after, _, later, rfl⟩ := (scan_named_iff named).mp found
      rw [List.filterMap_append, unnamed, List.nil_append, List.filterMap_cons_some named, ← ih later]
      rfl

/-- The variables among the tokens of an expression are its free variables. -/
theorem free_eq {expression : String} (found : read expression = .ok source) :
    Variable.free expression = (source.filterMap name?).eraseDups := by
  rw [names_of_scan found]
  rfl

end SourceToken

namespace Variable

open Binary64 (negative magnitude infinity)
open SourceToken (Resolves)

/-- The digits of a value go on into a point, which stands directly before the variable or directly
behind it. A value that has a point itself takes no second one, and a minus keeps a point off. -/
inductive Merges (values : Assignment) : Text.Piece → Text.Piece → Prop where
  | behind (named : ofPiece? piece = some n) (bound : values n = some x)
      (finite : magnitude x < infinity) (positive : negative x = false) :
      Merges values (.other '.') piece
  | before (named : ofPiece? piece = some n) (bound : values n = some x)
      (finite : magnitude x < infinity) (whole : '.' ∉ (Numeral.write x).toList) :
      Merges values piece (.other '.')

/-- No value's digits meet a point. -/
def Clear (values : Assignment) (pieces : List Text.Piece) : Prop :=
  pieces.IsChain fun before after => ¬ Merges values before after

/-- Where no point stands beside a variable, none meets the digits of a value, whatever the values. -/
theorem clear_of_lone {pieces : List Text.Piece}
    (lone : pieces.IsChain fun before after =>
      ¬ (before = .other '.' ∧ (ofPiece? after).isSome) ∧ ¬ (after = .other '.' ∧ (ofPiece? before).isSome))
    (values : Assignment) : Clear values pieces := by
  refine lone.imp fun before after apart merges => ?_
  cases merges with
  | behind named bound finite positive => exact apart.1 ⟨rfl, by rw [named]; rfl⟩
  | before named bound finite whole => exact apart.2 ⟨rfl, by rw [named]; rfl⟩

theorem exists_word {piece : Text.Piece} {n : String} (named : ofPiece? piece = some n) :
    ∃ letters, piece = .word letters ∧ isName letters = true ∧ n = String.ofList letters := by
  cases piece with
  | other c => cases named
  | word letters =>
    rw [ofPiece?] at named
    split at named
    · rename_i valid
      exact ⟨letters, rfl, valid, (Option.some.inj named).symm⟩
    · cases named

/-- The lexer refuses the text, and it would behind any other, from which no number goes on into it. -/
def Refused (text : List Char) : Prop :=
  (∀ c ∈ text.head?, Token.isNumeral c = false) ∧ ∃ error, Token.scan text = .error error

theorem Refused.behind {text : List Char} (refused : Refused text) (plain : List Char)
    (tokens : List Token) : Token.scan (plain ++ text) ≠ .ok tokens := by
  obtain ⟨starts, error, scanned⟩ := refused
  intro accepted
  rw [Token.scan_append (.inr starts)] at accepted
  obtain ⟨first, _, accepted⟩ := exists_of_bind_ok accepted
  obtain ⟨after, accepted, _⟩ := exists_of_map_ok accepted
  cases scanned.symm.trans accepted

/-- The lexer goes on at gaps, symbols and the characters of numbers only. -/
theorem refused_cons {c : Char} (gap : Token.isGap c = false) (symbol : Token.ofSymbol? c = none)
    (numeral : Token.isNumeral c = false) (rest : List Char) : Refused (c :: rest) := by
  obtain ⟨digit, point⟩ := Token.not_isNumeral_iff.mp numeral
  refine ⟨?_, _, Token.scan_unexpected gap symbol ?_⟩
  · rintro d first
    cases first
    exact numeral
  · exact Literal.scan?_eq_none_iff.mpr ⟨digit, fun same => absurd same point⟩

/-- No token starts with a letter. -/
theorem refused_letter {c : Char} (letter : (c.isAlpha || c == '_') = true) (rest : List Char) :
    Refused (c :: rest) := by
  have word : Text.isWordChar c = true := Text.isWordChar_of_name (by
    rw [Bool.or_eq_true] at letter ⊢
    exact letter.imp_left fun alpha => by simp [Char.isAlphanum, alpha])
  have digit : c.isDigit = false := Bool.eq_false_iff.mpr fun digit => by
    rw [not_letter_of_isDigit digit] at letter
    cases letter
  have point : c ≠ '.' := by
    rintro rfl
    cases letter
  have gap : Token.isGap c = false := Bool.eq_false_iff.mpr fun gap => by
    rw [Text.not_isWordChar_of_isGap gap] at word
    cases word
  have symbol : Token.ofSymbol? c = none := Option.eq_none_iff_forall_ne_some.mpr fun token symbol => by
    rw [(Text.separate_of_ofSymbol? symbol).1] at word
    cases word
  exact refused_cons gap symbol (Token.not_isNumeral_iff.mpr ⟨digit, point⟩) rest

theorem Refused.minus {text : List Char} (refused : Refused text) : Refused ('-' :: text) := by
  obtain ⟨_, error, scanned⟩ := refused
  refine ⟨?_, error, ?_⟩
  · rintro c first
    cases first
    rfl
  · rw [Token.scan_symbol rfl, scanned]
    rfl

/-- The text of a double that is not finite has letters. -/
theorem refused_write {x : Float} (infinite : ¬ magnitude x < infinity) (rest : List Char) :
    Refused ((Numeral.write x).toList ++ rest) := by
  unfold Numeral.write
  by_cases number : Binary64.isNaN x = true
  · rw [if_pos number]
    exact refused_letter rfl _
  · have same : magnitude x = infinity := by
      simp only [Binary64.isNaN, decide_eq_true_eq] at number
      omega
    rw [if_neg number]
    simp only [same, if_true, String.toList_ofList]
    split
    · exact (refused_letter rfl _).minus
    · exact refused_letter rfl _

/-- A variable without a finite value leaves a text that is refused. -/
theorem refused_replace {values : Assignment} {piece : Text.Piece} {n : String}
    (named : ofPiece? piece = some n) (unbound : ∀ x, values n = some x → ¬ magnitude x < infinity)
    (rest : List Char) : Refused (replace values piece ++ rest) := by
  rw [replace, named, Option.bind_some]
  cases bound : values n with
  | some x => exact refused_write (unbound x bound) rest
  | none =>
    obtain ⟨letters, rfl, valid, rfl⟩ := exists_word named
    cases letters with
    | nil => cases valid
    | cons c letters =>
      rw [isName, Bool.and_eq_true] at valid
      exact refused_letter valid.1 _

/-- Behind a word the text goes on with the character of the next piece. -/
theorem head?_replaced {values : Assignment} {pieces : List Text.Piece} {c : Char}
    (apart : ∀ piece ∈ pieces.head?, piece.isWord = false)
    (first : c ∈ (pieces.flatMap (replace values)).head?) : .other c ∈ pieces.head? := by
  cases pieces with
  | nil => cases first
  | cons piece rest =>
    cases piece with
    | word letters => cases apart _ rfl
    | other d =>
      cases first
      rfl

theorem not_isDigit_of_other {c : Char} (other : Text.isWordChar c = false) : c.isDigit = false := by
  refine Bool.eq_false_iff.mpr fun digit => ?_
  rw [Text.isWordChar_of_isDigit digit] at other
  cases other

/-- A variable with a finite value is scanned to the tokens of its value, and then the rest is. -/
theorem scan_replace_append {values : Assignment} {piece : Text.Piece} {rest : List Text.Piece}
    {n : String} {x : Float} (named : ofPiece? piece = some n) (bound : values n = some x)
    (finite : magnitude x < infinity) (others : ∀ c, .other c ∈ rest → Text.isWordChar c = false)
    (apart : ∀ next ∈ rest.head?, next.isWord = false)
    (clear : ∀ next ∈ rest.head?, ¬ Merges values piece next) :
    Token.scan (replace values piece ++ rest.flatMap (replace values)) =
      (Numeral.tokens x ++ ·) <$> Token.scan (rest.flatMap (replace values)) := by
  have replaced : replace values piece = (Numeral.write x).toList := by
    simp [replace, named, bound]
  rw [replaced]
  refine Numeral.scan_write_append finite fun c first => ?_
  have next := head?_replaced apart first
  constructor
  · exact not_isDigit_of_other (others c (List.mem_of_mem_head? next))
  · rintro rfl
    by_contra whole
    exact clear _ next (.before named bound finite whole)

/-- A value with a minus is kept apart from any text in front, and others are if that ends outside of
numbers. -/
theorem splits_replace {values : Assignment} {piece : Text.Piece} {n : String} {x : Float}
    {plain : List Char} (named : ofPiece? piece = some n) (bound : values n = some x)
    (finite : magnitude x < infinity)
    (front : negative x = false → ∀ c ∈ plain.getLast?, Token.isNumeral c = false) (rest : List Char) :
    Token.Splits plain (replace values piece ++ rest) := by
  cases sign : negative x with
  | false => exact .inl (front sign)
  | true =>
    obtain ⟨l, chars, _⟩ := Numeral.exists_signed_literal finite
    have replaced : replace values piece = '-' :: l.chars := by
      simpa [replace, named, bound, sign] using chars
    rw [replaced]
    refine .inr fun c first => ?_
    cases first
    rfl

/-- The step at a variable: its value and nothing else is put in its place. -/
theorem scan_named_replaced_iff {values : Assignment} {piece : Text.Piece} {rest : List Text.Piece}
    {n : String} {plain : List Char} (named : ofPiece? piece = some n)
    (others : ∀ c, .other c ∈ rest → Text.isWordChar c = false)
    (apart : ∀ next ∈ rest.head?, next.isWord = false)
    (clear : ∀ next ∈ rest.head?, ¬ Merges values piece next)
    (front : ∀ x, values n = some x → magnitude x < infinity → negative x = false →
      ∀ c ∈ plain.getLast?, Token.isNumeral c = false)
    (later : ∀ after, Token.scan (rest.flatMap (replace values)) = .ok after ↔
      ∃ source, SourceToken.scan [] rest = .ok source ∧ Resolves values source after)
    {tokens : List Token} :
    Token.scan (plain ++ (replace values piece ++ rest.flatMap (replace values))) = .ok tokens ↔
      ∃ source, SourceToken.scan plain (piece :: rest) = .ok source ∧
        Resolves values source tokens := by
  constructor
  · intro scanned
    by_cases value : ∃ x, values n = some x ∧ magnitude x < infinity
    · obtain ⟨x, bound, finite⟩ := value
      obtain ⟨before, _, ahead, behind, rfl⟩ := (Token.scan_append_ok_iff
        (splits_replace named bound finite (front x bound finite) _)).mp scanned
      rw [scan_replace_append named bound finite others apart clear] at behind
      obtain ⟨after, scannedRest, rfl⟩ := exists_of_map_ok behind
      obtain ⟨source, found, resolves⟩ := (later after).mp scannedRest
      refine ⟨_, (SourceToken.scan_named_iff named).mpr ⟨before, source, ahead, found, rfl⟩, ?_⟩
      exact SourceToken.resolves_append_iff.mpr ⟨_, rfl, .name bound finite resolves⟩
    · have refused := refused_replace named (fun x bound finite => value ⟨x, bound, finite⟩)
        (rest.flatMap (replace values))
      exact absurd scanned (refused.behind plain tokens)
  · rintro ⟨_, found, resolves⟩
    obtain ⟨before, source, ahead, foundRest, rfl⟩ := (SourceToken.scan_named_iff named).mp found
    obtain ⟨_, rfl, behind⟩ := SourceToken.resolves_append_iff.mp resolves
    obtain ⟨x, after, bound, finite, rfl, resolvesRest⟩ := SourceToken.resolves_name_iff.mp behind
    refine (Token.scan_append_ok_iff (splits_replace named bound finite (front x bound finite) _)).mpr
      ⟨before, _, ahead, ?_, rfl⟩
    rw [scan_replace_append named bound finite others apart clear,
      (later after).mpr ⟨source, foundRest, resolvesRest⟩]
    rfl

/-- Scanning pieces with their values put in gives what their own tokens resolve to. The plain text in
front must not go on into a value. -/
theorem scan_replaced_iff {values : Assignment} {pieces : List Text.Piece} {plain : List Char}
    {tokens : List Token} (others : ∀ c, .other c ∈ pieces → Text.isWordChar c = false)
    (apart : pieces.IsChain fun before after => before.isWord = true → after.isWord = false)
    (clear : Clear values pieces)
    (front : ∀ piece ∈ pieces.head?, ∀ n x, ofPiece? piece = some n → values n = some x →
      magnitude x < infinity → negative x = false → ∀ c ∈ plain.getLast?, Token.isNumeral c = false) :
    Token.scan (plain ++ pieces.flatMap (replace values)) = .ok tokens ↔
      ∃ source, SourceToken.scan plain pieces = .ok source ∧ Resolves values source tokens := by
  induction pieces generalizing plain tokens with
  | nil =>
    rw [List.flatMap_nil, List.append_nil, SourceToken.scan]
    constructor
    · intro scanned
      rw [scanned]
      exact ⟨_, rfl, SourceToken.resolves_map_iff.mpr rfl⟩
    · rintro ⟨source, found, resolves⟩
      obtain ⟨before, scanned, rfl⟩ := exists_of_map_ok found
      rw [scanned, SourceToken.resolves_map_iff.mp resolves]
  | cons piece rest ih =>
    have othersRest : ∀ c, .other c ∈ rest → Text.isWordChar c = false :=
      fun c member => others c (List.mem_cons_of_mem _ member)
    obtain ⟨apartNext, apartRest⟩ := List.isChain_cons.mp apart
    obtain ⟨clearNext, clearRest⟩ := List.isChain_cons.mp clear
    rw [List.flatMap_cons]
    cases named : ofPiece? piece with
    | none =>
      have kept : replace values piece = piece.chars := by rw [replace, named]; rfl
      rw [kept, ← List.append_assoc, SourceToken.scan_other named]
      refine ih othersRest apartRest clearRest ?_
      intro next first m x nextNamed bound finite positive c last
      obtain ⟨letters, rfl, _, _⟩ := exists_word nextNamed
      cases piece with
      | word before => cases apartNext _ first rfl
      | other d =>
        obtain rfl : d = c := by simpa [Text.Piece.chars] using last
        have digit : d.isDigit = false := not_isDigit_of_other (others d List.mem_cons_self)
        have point : d ≠ '.' := by
          rintro rfl
          exact clearNext _ first (.behind nextNamed bound finite positive)
        simp [Token.isNumeral, digit, point]
    | some n =>
      have apartWord : ∀ next ∈ rest.head?, next.isWord = false := by
        obtain ⟨letters, rfl, _, _⟩ := exists_word named
        exact fun next first => apartNext next first rfl
      refine scan_named_replaced_iff named othersRest apartWord clearNext (front _ rfl n · named) ?_
      intro after
      rw [← List.nil_append (rest.flatMap (replace values))]
      exact ih othersRest apartRest clearRest (by simp)

/-- The text with its values has tokens when those of the expression resolve, and then has these. -/
theorem read_substitute_ok_iff {values : Assignment} {expression : String}
    (clear : Clear values (Text.pieces expression.toList)) {tokens : List Token} :
    Token.read (substitute values expression).toList = .ok tokens ↔
      ∃ source, SourceToken.read expression = .ok source ∧ source ≠ [] ∧
        Resolves values source tokens := by
  have scanned : Token.scan (fill values expression.toList) = .ok tokens ↔
      ∃ source, SourceToken.read expression = .ok source ∧ Resolves values source tokens := by
    rw [← List.nil_append (fill values expression.toList)]
    exact scan_replaced_iff (fun _ => Text.not_isWordChar_of_mem) (Text.isChain_pieces _) clear (by simp)
  rw [Token.read_substitute, Token.read_eq_ok_iff, scanned]
  constructor
  · rintro ⟨⟨source, found, resolves⟩, some⟩
    exact ⟨source, found, resolves.ne_nil_iff.mp some, resolves⟩
  · rintro ⟨source, found, some, resolves⟩
    exact ⟨⟨source, found, resolves⟩, resolves.ne_nil_iff.mpr some⟩

/-- When all values are finite and without a sign, the text with the values put in has tokens exactly
when the expression has and its variables have values. They are the expression's tokens with one number
for each variable, and the variables among them are the free ones. -/
theorem read_substituted_iff {values : Assignment}
    (plain : ∀ n x, values n = some x → negative x = false ∧ magnitude x < infinity)
    {expression : String} (clear : Clear values (Text.pieces expression.toList)) :
    (∀ tokens, Token.read (substitute values expression).toList = .ok tokens ↔
      ∃ source, SourceToken.read expression = .ok source ∧ source ≠ [] ∧
        (∀ n, .name n ∈ source → (values n).isSome = true) ∧
        tokens = source.map (SourceToken.meaning values)) ∧
      ∀ source, SourceToken.read expression = .ok source →
        free expression = (source.filterMap SourceToken.name?).eraseDups := by
  refine ⟨fun tokens => ?_, fun source found => SourceToken.free_eq found⟩
  rw [read_substitute_ok_iff clear]
  refine exists_congr fun source => and_congr_right fun _ => and_congr_right fun _ => ?_
  exact SourceToken.resolves_iff plain

/-- A product of variables, of which one is raised to a literal with a point of its own. -/
theorem read_substituted_product :
    (∀ (n : String) (x : Float), (fun _ => some 5 : Assignment) n = some x →
        negative x = false ∧ magnitude x < infinity) ∧
      Clear (fun _ => some 5) (Text.pieces "rate*a ^.5".toList) ∧
      Token.read (substitute (fun _ => some 5) "rate*a ^.5").toList =
        .ok [.number 5, .operator .times, .number 5, .operator .power, .number 0.5] := by
  have plain : ∀ (n : String) (x : Float), (fun _ => some 5 : Assignment) n = some x →
      negative x = false ∧ magnitude x < infinity := by
    intro _ x same
    obtain rfl := Option.some.inj same
    decide +kernel
  have clear : Clear (fun _ => some 5) (Text.pieces "rate*a ^.5".toList) :=
    clear_of_lone (by decide +kernel) _
  refine ⟨plain, clear, ((read_substituted_iff plain clear).1 _).mpr ?_⟩
  refine ⟨[.name "rate", .token (.operator .times), .name "a", .token (.operator .power),
    .token (.number 0.5)], by decide +kernel, by simp, fun _ _ => rfl, rfl⟩

/-- Behind a point, or in front of one, the digits of a value become part of another number, which the
tokens of the expression do not have. -/
theorem value_merges :
    (SourceToken.read "1.a" = .ok [.token (.number 1), .name "a"] ∧
      Token.read (substitute (fun _ => some 5) "1.a").toList = .ok [.number 1.5]) ∧
    (SourceToken.read "a.b" = .error (.invalid (.unexpected '.')) ∧
      Token.read (substitute (fun _ => some 5) "a.b").toList = .ok [.number 5.5]) ∧
    (∀ (n : String) (x : Float), (fun _ => some 5 : Assignment) n = some x →
      negative x = false ∧ magnitude x < infinity) ∧
    ¬ (Token.read (substitute (fun _ => some 5) "a.b").toList = .ok [.number 5.5] ↔
      ∃ source, SourceToken.read "a.b" = .ok source ∧ source ≠ [] ∧
        (∀ n, .name n ∈ source → ((fun _ => some 5 : Assignment) n).isSome = true) ∧
        [.number 5.5] = source.map (SourceToken.meaning fun _ => some 5)) := by
  have refused : SourceToken.read "a.b" = .error (.invalid (.unexpected '.')) := by decide +kernel
  have merged : Token.read (substitute (fun _ => some 5) "a.b").toList = .ok [.number 5.5] := by
    decide +kernel
  refine ⟨by decide +kernel, ⟨refused, merged⟩, ?_, fun same => ?_⟩
  · intro _ x same
    obtain rfl := Option.some.inj same
    decide +kernel
  · obtain ⟨source, found, _⟩ := same.mp merged
    cases refused.symm.trans found

end Variable

end Reckon
