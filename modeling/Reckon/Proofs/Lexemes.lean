import Reckon.Evaluation
import Reckon.Proofs.Numerals
import Reckon.Proofs.Parentheses
import Reckon.Proofs.Scanning
import Reckon.Proofs.Sign
import Reckon.Proofs.Tree

/-! How a text is cut into lexemes: in one way only, from the left and each as long as possible, with
gaps between them. The lexer finds the tokens of this cut, and reports the first character at which it
cannot go on. -/

namespace Reckon

namespace Literal

theorem decimal_eq_of_chars_eq {first second : Literal} (same : first.chars = second.chars) :
    first.decimal = second.decimal := by
  have scanned := first.scan?_chars (ends_nil.stops first)
  rw [same, second.scan?_chars (ends_nil.stops second)] at scanned
  exact (Prod.mk.inj (Option.some.inj scanned)).1.symm

theorem value_eq_of_chars_eq {first second : Literal} (same : first.chars = second.chars) :
    first.value = second.value := by
  rw [value, value, decimal_eq_of_chars_eq same]

/-- A literal may have one more digit, and a point if it has none. -/
theorem exists_longer (l : Literal) {c : Char} (goes : c.isDigit = true ∨ c = '.' ∧ l.fraction = none) :
    ∃ longer : Literal, longer.chars = l.chars ++ [c] := by
  obtain ⟨whole, fraction, digits, present⟩ := l
  cases fraction with
  | none =>
    simp only [Option.getD_none, List.append_nil] at digits present
    rcases goes with digit | ⟨rfl, _⟩
    · refine ⟨⟨whole ++ [c], none, ?_, by simp⟩, rfl⟩
      simpa [or_imp, forall_and] using ⟨digits, digit⟩
    · exact ⟨⟨whole, some [], by simpa using digits, by simpa using present⟩, rfl⟩
  | some fraction =>
    rcases goes with digit | ⟨_, none⟩
    · refine ⟨⟨whole, some (fraction ++ [c]), ?_, by simp⟩, by simp [chars]⟩
      simp only [Option.getD_some, ← List.append_assoc] at digits ⊢
      intro d member
      rcases List.mem_append.mp member with inside | last
      · exact digits d inside
      · exact List.mem_singleton.mp last ▸ digit
    · cases none

/-- A literal stops exactly where no longer one starts the text. -/
theorem stops_iff (l : Literal) {rest : List Char} : l.Stops rest ↔
    ∀ other : Literal, other.chars <+: l.chars ++ rest → other.chars.length ≤ l.chars.length := by
  constructor
  · intro stops other start
    by_contra longer
    obtain ⟨after, split⟩ := start
    rcases List.append_eq_append_iff.mp split with ⟨more, same, _⟩ | ⟨more, same, more_eq⟩
    · rw [same] at longer
      simp at longer
    · cases more with
      | nil =>
        rw [same] at longer
        simp at longer
      | cons c more =>
        have stopsThere : l.Stops (c :: more) := by
          intro d first
          refine stops d ?_
          rw [more_eq]
          exact first
        have scanned := l.scan?_chars stopsThere
        rw [← same] at scanned
        have whole := other.scan?_chars (ends_nil.stops other)
        rw [List.append_nil, scanned] at whole
        simp at whole
  · intro longest c first
    obtain ⟨more, rfl⟩ := List.head?_eq_some_iff.mp first
    have cut (goes : c.isDigit = true ∨ c = '.' ∧ l.fraction = none) : False := by
      obtain ⟨longer, chars⟩ := l.exists_longer goes
      have bound := longest longer ⟨more, by simp [chars]⟩
      rw [chars] at bound
      simp at bound
    constructor
    · by_contra digit
      exact cut (.inl (by simpa using digit))
    · intro point
      by_contra none
      exact cut (.inr ⟨point, by simpa using none⟩)

/-- No literal starts a text on which the scanner gives up. -/
theorem not_prefix_of_scan? (l : Literal) {text : List Char} (none : Decimal.scan? text = none) :
    ¬ l.chars <+: text := by
  rintro ⟨rest, rfl⟩
  obtain ⟨whole, fraction, digits, present⟩ := l
  cases whole with
  | cons c more =>
    have digit : c.isDigit = true := digits c (by simp)
    cases fraction <;>
    · have other := (scan?_eq_none_iff.mp none).1
      rw [digit] at other
      cases other
  | nil =>
    cases fraction with
    | none => exact present rfl
    | some fraction =>
      obtain ⟨c, more, rfl⟩ := List.exists_cons_of_ne_nil present
      have digit : c.isDigit = true := digits c (by simp)
      have other := (scan?_eq_none_iff.mp none).2 rfl c rfl
      rw [digit] at other
      cases other

end Literal

namespace Token

/-- The characters are a lexeme of the token: its symbol, or a literal of its number. -/
inductive Spells : List Char → Token → Prop where
  | symbol (means : ofSymbol? c = some token) : Spells [c] token
  | number (l : Literal) : Spells l.chars (.number l.value)

/-- A token in a text: the gap before it, and its lexeme. -/
structure Lexeme where
  gap : List Char
  chars : List Char
  token : Token

/-- The text is cut into lexemes, a gap behind them and a rest. No lexeme could have been longer. -/
inductive Munches : List Char → List Lexeme → List Char → List Char → Prop where
  | done (blank : ∀ c ∈ gap, isGap c = true) : Munches (gap ++ rest) [] gap rest
  | step (blank : ∀ c ∈ gap, isGap c = true) (spells : Spells chars token)
      (longest : ∀ other t, Spells other t → other <+: chars ++ text → other.length ≤ chars.length)
      (more : Munches text lexemes last rest) :
      Munches (gap ++ (chars ++ text)) (⟨gap, chars, token⟩ :: lexemes) last rest

/-- The text starts neither with a gap nor with a lexeme. -/
structure Stuck (text : List Char) : Prop where
  gap : ∀ c ∈ text.head?, isGap c = false
  token : ∀ chars t, Spells chars t → ¬ chars <+: text

theorem Spells.exists_first (spells : Spells chars token) :
    ∃ c more, chars = c :: more ∧ isGap c = false := by
  cases spells with
  | symbol means => exact ⟨_, [], rfl, (Text.separate_of_ofSymbol? means).2⟩
  | number l =>
    obtain ⟨c, more, same⟩ := List.exists_cons_of_ne_nil l.chars_ne_nil
    exact ⟨c, more, same, not_isGap_of_literal (l.mem_chars (same ▸ List.mem_cons_self))⟩

/-- A symbol is its lexeme as a whole. -/
theorem longest_symbol (means : ofSymbol? c = some token) {rest other : List Char}
    (spells : Spells other t) (start : other <+: [c] ++ rest) : other.length ≤ [c].length := by
  cases spells with
  | symbol _ => exact Nat.le_refl 1
  | number l =>
    obtain ⟨d, more, same⟩ := List.exists_cons_of_ne_nil l.chars_ne_nil
    rw [same] at start
    obtain ⟨rfl, _⟩ := List.cons_prefix_cons.mp start
    have none := ofSymbol?_of_literal (l.mem_chars (same ▸ List.mem_cons_self))
    rw [means] at none
    cases none

theorem longest_number {l : Literal} {rest other : List Char} (stops : l.Stops rest)
    (spells : Spells other t) (start : other <+: l.chars ++ rest) : other.length ≤ l.chars.length := by
  cases spells with
  | symbol _ => exact List.length_pos_iff.mpr l.chars_ne_nil
  | number other => exact l.stops_iff.mp stops other start

/-- A text is stuck where the scanner finds no token. -/
theorem stuck_cons_iff {c : Char} {rest : List Char} : Stuck (c :: rest) ↔
    isGap c = false ∧ ofSymbol? c = none ∧ Decimal.scan? (c :: rest) = none := by
  constructor
  · intro stuck
    refine ⟨stuck.gap c rfl, ?_, ?_⟩
    · apply Option.eq_none_iff_forall_ne_some.mpr
      intro token means
      exact stuck.token [c] token (.symbol means) ⟨rest, rfl⟩
    · apply Option.eq_none_iff_forall_ne_some.mpr
      rintro ⟨d, after⟩ found
      obtain ⟨l, split, _⟩ := Literal.exists_of_scan? found
      exact stuck.token l.chars _ (.number l) ⟨after, split.symm⟩
  · rintro ⟨gap, symbol, number⟩
    refine ⟨?_, ?_⟩
    · intro d first
      cases first
      exact gap
    · intro chars token spells start
      cases spells with
      | symbol means =>
        obtain ⟨rfl, _⟩ := List.cons_prefix_cons.mp start
        rw [means] at symbol
        cases symbol
      | number l => exact l.not_prefix_of_scan? number start

theorem stuck_nil : Stuck [] := by
  refine ⟨nofun, ?_⟩
  intro chars token spells start
  obtain ⟨c, more, rfl, _⟩ := spells.exists_first
  simp at start

theorem munches_nothing (text : List Char) : Munches text [] [] text :=
  .done (List.forall_mem_nil _)

theorem Munches.lexeme (spells : Spells chars token)
    (longest : ∀ other t, Spells other t → other <+: chars ++ text → other.length ≤ chars.length)
    (more : Munches text lexemes last rest) :
    Munches (chars ++ text) (⟨[], chars, token⟩ :: lexemes) last rest :=
  .step (List.forall_mem_nil _) spells longest more

theorem Munches.widen (munches : Munches text lexemes last rest) (blank : isGap c = true) :
    ∃ lexemes' last', Munches (c :: text) lexemes' last' rest := by
  cases munches with
  | done blanks => exact ⟨[], _, .done (List.forall_mem_cons.mpr ⟨blank, blanks⟩)⟩
  | step blanks spells longest more =>
    exact ⟨_, _, .step (List.forall_mem_cons.mpr ⟨blank, blanks⟩) spells longest more⟩

/-- Every text is cut up to where it is stuck. -/
theorem exists_munches (text : List Char) :
    ∃ lexemes gap rest, Munches text lexemes gap rest ∧ Stuck rest := by
  fun_induction scan text with
  | case1 => exact ⟨[], [], [], munches_nothing [], stuck_nil⟩
  | case2 c rest gap ih =>
    obtain ⟨lexemes, last, after, munches, stuck⟩ := ih
    obtain ⟨more, front, munches⟩ := munches.widen gap
    exact ⟨more, front, after, munches, stuck⟩
  | case3 c rest gap token symbol ih =>
    obtain ⟨lexemes, last, after, munches, stuck⟩ := ih
    refine ⟨_, last, after, munches.lexeme (.symbol symbol) ?_, stuck⟩
    intro other t spells start
    exact longest_symbol symbol spells start
  | case4 c rest gap symbol d later found ih =>
    obtain ⟨l, text, rfl, stops⟩ := Literal.exists_of_scan? found
    obtain ⟨lexemes, last, after, munches, stuck⟩ := ih
    rw [text]
    refine ⟨_, last, after, munches.lexeme (.number l) ?_, stuck⟩
    intro other t spells start
    exact longest_number stops spells start
  | case5 c rest gap symbol none =>
    have stuck : Stuck (c :: rest) := stuck_cons_iff.mpr ⟨by simpa using gap, symbol, none⟩
    exact ⟨[], [], c :: rest, munches_nothing _, stuck⟩

/-- The tokens of a text are those of its lexemes and then those of the rest. -/
theorem Munches.scan_eq (munches : Munches text lexemes gap rest) :
    scan text = (lexemes.map Lexeme.token ++ ·) <$> scan rest := by
  induction munches with
  | @done gap rest blank =>
    rw [scan_gap blank]
    cases scan rest <;> rfl
  | @step gap chars token text lexemes last rest blank spells longest more ih =>
    rw [scan_gap blank]
    have first : scan (chars ++ text) = (token :: ·) <$> scan text := by
      cases spells with
      | symbol means => exact scan_symbol means text
      | number l =>
        apply scan_literal
        apply l.stops_iff.mpr
        intro other start
        exact longest _ _ (.number other) start
    rw [first, ih]
    cases scan rest <;> rfl

theorem scan_stuck {c : Char} {rest : List Char} (stuck : Stuck (c :: rest)) :
    scan (c :: rest) = .error (.invalid (.unexpected c)) := by
  obtain ⟨gap, symbol, number⟩ := stuck_cons_iff.mp stuck
  exact scan_unexpected gap symbol number

theorem scan_eq_ok_iff {text : List Char} {tokens : List Token} : scan text = .ok tokens ↔
    ∃ lexemes gap, Munches text lexemes gap [] ∧ tokens = lexemes.map Lexeme.token := by
  constructor
  · intro scanned
    obtain ⟨lexemes, gap, rest, munches, stuck⟩ := exists_munches text
    have whole := munches.scan_eq
    cases rest with
    | nil =>
      rw [scanned, scan_nil] at whole
      refine ⟨lexemes, gap, munches, ?_⟩
      exact (Except.ok.inj whole).trans (List.append_nil _)
    | cons c rest =>
      rw [scanned, scan_stuck stuck] at whole
      cases whole
  · rintro ⟨lexemes, gap, munches, rfl⟩
    rw [munches.scan_eq, scan_nil]
    exact congrArg Except.ok (List.append_nil _)

theorem scan_eq_error_iff {text : List Char} {error : EvalError} : scan text = .error error ↔
    ∃ lexemes gap c rest, Munches text lexemes gap (c :: rest) ∧ Stuck (c :: rest) ∧
      error = .invalid (.unexpected c) := by
  constructor
  · intro scanned
    obtain ⟨lexemes, gap, rest, munches, stuck⟩ := exists_munches text
    have whole := munches.scan_eq
    cases rest with
    | nil =>
      rw [scanned, scan_nil] at whole
      cases whole
    | cons c rest =>
      rw [scanned, scan_stuck stuck] at whole
      exact ⟨lexemes, gap, c, rest, munches, stuck, Except.error.inj whole⟩
  · rintro ⟨lexemes, gap, c, rest, munches, stuck, rfl⟩
    rw [munches.scan_eq, scan_stuck stuck]
    rfl

theorem Munches.spells (munches : Munches text lexemes gap rest) :
    ∀ x ∈ lexemes, Spells x.chars x.token := by
  induction munches with
  | done => exact List.forall_mem_nil _
  | step _ spells _ _ ih => exact List.forall_mem_cons.mpr ⟨spells, ih⟩

end Token

open Binary64 (isNaN negative)

theorem Literal.value_plain (l : Literal) : isNaN l.value = false ∧ negative l.value = false := by
  have bound := Binary64.ofDecimal_le_infinity l.decimal
  refine ⟨?_, Binary64.negative_ofMagnitude bound⟩
  rw [isNaN, value, Binary64.magnitude_ofMagnitude bound]
  exact decide_eq_false (Nat.not_lt_of_le bound)

namespace Token

theorem Spells.plain (spells : Spells chars token) :
    token ≠ .blank ∧ ∀ x, token = .number x → isNaN x = false ∧ negative x = false := by
  cases spells with
  | symbol means =>
    unfold ofSymbol? at means
    split at means <;> cases means <;> exact ⟨nofun, nofun⟩
  | number l =>
    refine ⟨nofun, ?_⟩
    intro x same
    cases same
    exact l.value_plain

theorem blank_not_mem_scan {text : List Char} {tokens : List Token} (scanned : scan text = .ok tokens) :
    .blank ∉ tokens := by
  obtain ⟨lexemes, gap, munches, rfl⟩ := scan_eq_ok_iff.mp scanned
  intro member
  obtain ⟨lexeme, inside, same⟩ := List.mem_map.mp member
  exact (munches.spells lexeme inside).plain.1 same

end Token

end Reckon
