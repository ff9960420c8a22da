import Reckon.Json.Value
import Reckon.Proofs.SpelledText
import Reckon.Proofs.WrittenScalar

/-! Texts of JSON values: numbers and words, quoted texts, lists and records, with any space between them.
Each is read as its value. -/

namespace Reckon.Json

/-- Spaces, tabs and ends of lines. -/
def IsGap (gap : List Char) : Prop := ∀ c ∈ gap, c ∈ [' ', '\t', '\n', '\r']

instance (gap : List Char) : Decidable (IsGap gap) := List.decidableBAll _ gap

mutual

/-- The texts of a value. -/
inductive Written : Json → List Char → Prop where
  | scalar {run : List Char} (isScalar : Scalar run) : Written .scalar run
  | text {content : Option String} {body : List Char} (quoted : Text.Quoted content body) :
      Written (.text content) ('"' :: (body ++ ['"']))
  | emptyList {gap : List Char} (isGap : IsGap gap) : Written (.list []) ('[' :: (gap ++ [']']))
  | list {first : Json} {rest : List Json} {text others : List Char} (written : Spaced first text)
      (later : LaterItems rest others) : Written (.list (first :: rest)) ('[' :: (text ++ (others ++ [']'])))
  | emptyRecord {gap : List Char} (isGap : IsGap gap) : Written (.record []) ('{' :: (gap ++ ['}']))
  | record {first : Option String × Json} {rest : List (Option String × Json)} {text others : List Char}
      (written : Member first text) (later : LaterMembers rest others) :
      Written (.record (first :: rest)) ('{' :: (text ++ (others ++ ['}'])))

/-- The texts of a value with space around it. -/
inductive Spaced : Json → List Char → Prop where
  | gaps {value : Json} {before text after : List Char} (gapBefore : IsGap before)
      (written : Written value text) (gapAfter : IsGap after) : Spaced value (before ++ (text ++ after))

/-- The texts of a name with its value. -/
inductive Member : Option String × Json → List Char → Prop where
  | named {name : Option String} {value : Json} {before body after text : List Char}
      (gapBefore : IsGap before) (quoted : Text.Quoted name body) (gapAfter : IsGap after)
      (written : Spaced value text) :
      Member (name, value) (before ++ '"' :: (body ++ '"' :: (after ++ ':' :: text)))

/-- The texts of the values after the first, each after a comma. -/
inductive LaterItems : List Json → List Char → Prop where
  | nil : LaterItems [] []
  | cons {value : Json} {rest : List Json} {text others : List Char} (written : Spaced value text)
      (later : LaterItems rest others) : LaterItems (value :: rest) (',' :: (text ++ others))

/-- The texts of the members after the first, each after a comma. -/
inductive LaterMembers : List (Option String × Json) → List Char → Prop where
  | nil : LaterMembers [] []
  | cons {member : Option String × Json} {rest : List (Option String × Json)} {text others : List Char}
      (written : Member member text) (later : LaterMembers rest others) :
      LaterMembers (member :: rest) (',' :: (text ++ others))

end

mutual

/-- The tokens of a value. -/
def tokens : Json → List Token
  | .scalar => [.scalar]
  | .text content => [.text content]
  | .list [] => [.openList, .closeList]
  | .list (first :: rest) => .openList :: (first.tokens ++ (laterItems rest ++ [.closeList]))
  | .record [] => [.openRecord, .closeRecord]
  | .record ((name, first) :: rest) =>
    .openRecord :: .text name :: .colon :: (first.tokens ++ (laterMembers rest ++ [.closeRecord]))

def laterItems : List Json → List Token
  | [] => []
  | value :: rest => .comma :: (value.tokens ++ laterItems rest)

def laterMembers : List (Option String × Json) → List Token
  | [] => []
  | (name, value) :: rest => .comma :: .text name :: .colon :: (value.tokens ++ laterMembers rest)

end

/-- No value starts with the end of a list. -/
theorem start?_openList (outer : List Unclosed) (value : Json) (rest : List Token) :
    start? outer (.openList :: (value.tokens ++ rest)) = start? (.list [] :: outer) (value.tokens ++ rest) := by
  fun_cases tokens value <;> simp [start?]

mutual

-- By recursion on the value: what is open keeps what it holds latest first, so the later values of a list or
-- record are read with the earlier ones before them.
/-- The tokens of a value are read as the value. -/
theorem start?_tokens (outer : List Unclosed) (tail : List Token) : (value : Json) →
    start? outer (value.tokens ++ tail) = resume? outer value tail
  | .scalar => by simp [tokens, start?]
  | .text content => by simp [tokens, start?]
  | .list [] => by simp [tokens, start?]
  | .list (first :: rest) => by
    have later := resume?_laterItems outer tail [] first rest
    rw [tokens, List.cons_append, List.append_assoc, start?_openList, start?_tokens, List.append_assoc]
    exact later
  | .record [] => by simp [tokens, start?]
  | .record ((name, first) :: rest) => by
    have later := resume?_laterMembers outer tail [] name first rest
    simp only [tokens, List.cons_append, List.append_assoc, start?]
    rw [start?_tokens]
    exact later

theorem resume?_laterItems (outer : List Unclosed) (tail : List Token) (before : List Json) (value : Json) :
    (rest : List Json) → resume? (.list before :: outer) value (laterItems rest ++ .closeList :: tail) =
      resume? outer (.list (before.reverse ++ value :: rest)) tail
  | [] => by simp [laterItems, resume?]
  | next :: rest => by
    have later := resume?_laterItems outer tail (value :: before) next rest
    rw [laterItems, List.cons_append, List.append_assoc, resume?, start?_tokens, later]
    simp

theorem resume?_laterMembers (outer : List Unclosed) (tail : List Token)
    (before : List (Option String × Json)) (name : Option String) (value : Json) :
    (rest : List (Option String × Json)) →
      resume? (.record before name :: outer) value (laterMembers rest ++ .closeRecord :: tail) =
        resume? outer (.record (before.reverse ++ (name, value) :: rest)) tail
  | [] => by simp [laterMembers, resume?]
  | (next, second) :: rest => by
    have later := resume?_laterMembers outer tail ((name, value) :: before) next second rest
    simp only [laterMembers, List.cons_append, List.append_assoc, resume?]
    rw [start?_tokens, later]
    simp

end

namespace Token

open Bytes (ofChars ofChars_append ofChars_cons)

variable {c : Char} {b : UInt8} {text : List Char} {token : Token} {tokens : List Token}

theorem plain_of_symbol (symbol : ofByte? b = some token) :
    isSpace b = false ∧ b ≠ 0x22 ∧ isScalarByte b = false := by
  obtain ⟨before, after, table, _⟩ := List.lookup_eq_some_iff.mp symbol
  have member : (b, token) ∈ before ++ (b, token) :: after := by simp
  rw [← table] at member
  simp only [List.mem_cons, Prod.mk.injEq, List.not_mem_nil, or_false] at member
  rcases member with ⟨rfl, _⟩ | ⟨rfl, _⟩ | ⟨rfl, _⟩ | ⟨rfl, _⟩ | ⟨rfl, _⟩ | ⟨rfl, _⟩ <;> decide

/-- A bracket, comma or colon is a token by itself. -/
theorem scan?_symbol (byte : String.utf8EncodeChar c = [b]) (symbol : ofByte? b = some token)
    (more : List Char) : scan? (ofChars (c :: more)) = (token :: ·) <$> scan? (ofChars more) := by
  obtain ⟨space, quote, scalar⟩ := plain_of_symbol symbol
  rw [ofChars_cons byte, scan?, space, if_neg (by decide), if_neg quote, scalar, if_neg (by decide), symbol]

/-- The text does not go on with a number or word before it. -/
def Ends (more : List Char) : Prop := ∀ b ∈ (ofChars more).head?, isScalarByte b = false

/-- The text is split into the tokens, whatever follows that does not go on with its end. -/
def Reads (text : List Char) (tokens : List Token) : Prop :=
  ∀ more, Ends more → scan? (ofChars (text ++ more)) = (tokens ++ ·) <$> scan? (ofChars more)

theorem reads_scalar {run : List Char} (scalar : Scalar run) : Reads run [.scalar] := by
  intro more ends
  have isRun := isScalar_scalar scalar
  have all := isScalarByte_scalar scalar
  rw [ofChars_append]
  cases bytes : ofChars run with
  | nil =>
    have nothing : isScalar [] = false := by decide +kernel
    rw [bytes, nothing] at isRun
    cases isRun
  | cons b rest =>
    rw [bytes] at isRun all
    obtain ⟨part, allRest⟩ := List.forall_mem_cons.mp all
    obtain ⟨taken, dropped⟩ := span_append allRest ends
    obtain ⟨space, quote⟩ := not_isSpace part
    rw [List.cons_append, scan?, space, if_neg (by decide), if_neg quote, if_pos part, taken, dropped,
      if_pos isRun]
    rfl

theorem scan?_quoted {content : Option String} {body : List Char} (quoted : Text.Quoted content body)
    (more : List Char) : scan? (ofChars ('"' :: (body ++ '"' :: more))) =
      (Token.text content :: ·) <$> scan? (ofChars more) := by
  obtain ⟨parts, splits, spelled⟩ := quoted.read
  have quote (more : List Char) : ofChars ('"' :: more) = 0x22 :: ofChars more := rfl
  rw [quote, ofChars_append, quote, scan?, if_neg (by decide), if_pos rfl]
  split
  · rename_i found
    rw [splits] at found
    cases found
    rw [spelled]
  · rename_i found
    rw [splits] at found
    cases found

theorem exists_space (space : c ∈ [' ', '\t', '\n', '\r']) :
    ∃ b, String.utf8EncodeChar c = [b] ∧ isSpace b ∧ isScalarByte b = false := by
  simp only [List.mem_cons, List.not_mem_nil, or_false] at space
  rcases space with rfl | rfl | rfl | rfl <;> exact ⟨_, rfl, rfl, rfl⟩

theorem scan?_gap {gap : List Char} (isGap : IsGap gap) (more : List Char) :
    scan? (ofChars (gap ++ more)) = scan? (ofChars more) := by
  induction gap with
  | nil => rfl
  | cons c rest ih =>
    obtain ⟨first, gapRest⟩ := List.forall_mem_cons.mp isGap
    obtain ⟨b, written, space, _⟩ := exists_space first
    rw [List.cons_append, ofChars_cons written, scan?, if_pos space]
    exact ih gapRest

/-- What the text follows does not go on with it. -/
def Stops (text : List Char) : Prop := ∀ more, Ends more → Ends (text ++ more)

theorem stops_nil : Stops [] := fun _ ends => ends

theorem stops_cons (byte : String.utf8EncodeChar c = [b]) (other : isScalarByte b = false)
    (text : List Char) : Stops (c :: text) := by
  intro more _ first found
  rw [List.cons_append, ofChars_cons byte] at found
  cases found
  exact other

theorem stops_symbol (byte : String.utf8EncodeChar c = [b]) (symbol : ofByte? b = some token)
    (text : List Char) : Stops (c :: text) :=
  stops_cons byte (plain_of_symbol symbol).2.2 text

theorem stops_gap {gap : List Char} (isGap : IsGap gap) : Stops gap := by
  cases gap with
  | nil => exact stops_nil
  | cons c rest =>
    obtain ⟨b, written, _, other⟩ := exists_space (isGap c List.mem_cons_self)
    exact stops_cons written other rest

theorem Stops.append {front back : List Char} (stopsFront : Stops front) (stopsBack : Stops back) :
    Stops (front ++ back) := by
  intro more ends
  rw [List.append_assoc]
  exact stopsFront _ (stopsBack more ends)

theorem Reads.append {front back : List Char} {frontTokens backTokens : List Token}
    (readsFront : Reads front frontTokens) (readsBack : Reads back backTokens) (stops : Stops back) :
    Reads (front ++ back) (frontTokens ++ backTokens) := by
  intro more ends
  rw [List.append_assoc, readsFront _ (stops more ends), readsBack more ends, Functor.map_map]
  simp only [List.append_assoc]

theorem Reads.gap {gap : List Char} (isGap : IsGap gap) (reads : Reads text tokens) :
    Reads (gap ++ text) tokens := by
  intro more ends
  rw [List.append_assoc, scan?_gap isGap, reads more ends]

theorem reads_nil : Reads [] [] := by
  intro more _
  simp

theorem Reads.symbol (byte : String.utf8EncodeChar c = [b]) (symbol : ofByte? b = some token)
    (reads : Reads text tokens) : Reads (c :: text) (token :: tokens) := by
  intro more ends
  rw [List.cons_append, scan?_symbol byte symbol, reads more ends, Functor.map_map]
  rfl

theorem Reads.quoted {content : Option String} {body : List Char} (quoted : Text.Quoted content body)
    (reads : Reads text tokens) : Reads ('"' :: (body ++ '"' :: text)) (.text content :: tokens) := by
  intro more ends
  have same : '"' :: (body ++ '"' :: text) ++ more = '"' :: (body ++ '"' :: (text ++ more)) := by simp
  rw [same, scan?_quoted quoted, reads more ends, Functor.map_map]
  rfl

/-- What stands first and what stands later in a list or record, with what closes it. -/
theorem Reads.closed {others : List Char} {otherTokens : List Token} (reads : Reads text tokens)
    (later : Reads others otherTokens) (stops : Stops others) (byte : String.utf8EncodeChar c = [b])
    (symbol : ofByte? b = some token) :
    Reads (text ++ (others ++ [c])) (tokens ++ (otherTokens ++ [token])) := by
  have closing : Reads [c] [token] := reads_nil.symbol byte symbol
  have stopsClosing := stops_symbol byte symbol []
  exact reads.append (later.append closing stopsClosing) (stops.append stopsClosing)

end Token

open Token (Reads Stops reads_nil stops_nil stops_gap stops_symbol)

theorem LaterItems.stops {rest : List Json} {text : List Char} (later : LaterItems rest text) : Stops text := by
  cases later with
  | nil => exact stops_nil
  | cons _ _ => exact stops_symbol (b := 0x2C) rfl rfl _

theorem LaterMembers.stops {rest : List (Option String × Json)} {text : List Char}
    (later : LaterMembers rest text) : Stops text := by
  cases later with
  | nil => exact stops_nil
  | cons _ _ => exact stops_symbol (b := 0x2C) rfl rfl _

mutual

/-- Every text of a value is split into its tokens. -/
theorem Written.reads {value : Json} {text : List Char} : Written value text → Reads text value.tokens
  | .scalar isScalar => Token.reads_scalar isScalar
  | .text quoted => reads_nil.quoted quoted
  | .emptyList isGap => by
    have closing : Reads [']'] [.closeList] := reads_nil.symbol (b := 0x5D) rfl rfl
    exact (closing.gap isGap).symbol (b := 0x5B) rfl rfl
  | .list written later => by
    have inside := written.reads.closed later.reads later.stops (c := ']') (b := 0x5D) rfl rfl
    exact inside.symbol (b := 0x5B) rfl rfl
  | .emptyRecord isGap => by
    have closing : Reads ['\x7d'] [.closeRecord] := reads_nil.symbol (b := 0x7D) rfl rfl
    exact (closing.gap isGap).symbol (b := 0x7B) rfl rfl
  | @Written.record (name, first) _ _ _ written later => by
    have inside := written.reads.closed later.reads later.stops (c := '\x7d') (b := 0x7D) rfl rfl
    exact inside.symbol (b := 0x7B) rfl rfl

theorem Spaced.reads {value : Json} {text : List Char} : Spaced value text → Reads text value.tokens
  | .gaps gapBefore written gapAfter => by
    -- The value may be a number, which ends where the gap behind it starts, or what follows an empty gap.
    have ending := written.reads.append (reads_nil.gap gapAfter) (by simpa using stops_gap gapAfter)
    simpa using ending.gap gapBefore

theorem Member.reads {member : Option String × Json} {text : List Char} :
    Member member text → Reads text (.text member.1 :: .colon :: member.2.tokens)
  | .named gapBefore quoted gapAfter written => by
    have named := (Reads.symbol (c := ':') (b := 0x3A) rfl rfl written.reads).gap gapAfter
    exact (named.quoted quoted).gap gapBefore

theorem LaterItems.reads {rest : List Json} {text : List Char} : LaterItems rest text → Reads text (laterItems rest)
  | .nil => reads_nil
  | .cons written later => Reads.symbol (b := 0x2C) rfl rfl (written.reads.append later.reads later.stops)

theorem LaterMembers.reads {rest : List (Option String × Json)} {text : List Char} :
    LaterMembers rest text → Reads text (laterMembers rest)
  | .nil => reads_nil
  | .cons written later => Reads.symbol (b := 0x2C) rfl rfl (written.reads.append later.reads later.stops)

end

theorem Written.spaced {value : Json} {text : List Char} (written : Written value text) : Spaced value text := by
  have none : IsGap [] := nofun
  simpa using Spaced.gaps none written none

/-- Every text of a value is read as it. -/
theorem read?_spaced {value : Json} {text : List Char} (written : Spaced value text) :
    read? (Bytes.ofChars text) = some value := by
  have ends : Token.Ends [] := nofun
  have scanned := written.reads [] ends
  have parsed := start?_tokens [] [] value
  have nothing : Token.scan? (Bytes.ofChars []) = some [] := by simp [Bytes.ofChars, Token.scan?]
  rw [List.append_nil] at parsed
  rw [List.append_nil, nothing, Option.map_eq_map, Option.map_some, List.append_nil] at scanned
  rw [read?, scanned, Option.bind_some, parsed, resume?]

end Reckon.Json
