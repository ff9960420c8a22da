import Reckon.Proofs.Except
import Reckon.Proofs.Literal
import Reckon.Proofs.Words

/-! Scanning a text in parts: where no number goes across, the tokens of two texts side by side are
those of the one and then those of the other. Blanks around symbols change nothing. -/

namespace Reckon

namespace Token

theorem scan_nil : scan [] = .ok [] := by rw [scan]

theorem scan_cons_gap {c : Char} (gap : isGap c = true) (rest : List Char) :
    scan (c :: rest) = scan rest := by
  rw [scan, if_pos gap]

theorem scan_gap {gap : List Char} (blank : ∀ c ∈ gap, isGap c = true) (rest : List Char) :
    scan (gap ++ rest) = scan rest := by
  induction gap with
  | nil => rfl
  | cons c more ih =>
    rw [List.cons_append, scan_cons_gap (blank c List.mem_cons_self),
      ih fun d member => blank d (List.mem_cons_of_mem c member)]

theorem scan_symbol {c : Char} {token : Token} (symbol : ofSymbol? c = some token) (rest : List Char) :
    scan (c :: rest) = (token :: ·) <$> scan rest := by
  rw [scan, (Text.separate_of_ofSymbol? symbol).2]
  simp [symbol]

theorem not_isGap_of_literal {c : Char} (part : c.isDigit = true ∨ c = '.') : isGap c = false := by
  rcases part with digit | rfl
  · refine Bool.eq_false_iff.mpr fun gap => ?_
    have other := Text.not_isWordChar_of_isGap gap
    rw [Text.isWordChar_of_isDigit digit] at other
    cases other
  · rfl

theorem ofSymbol?_of_literal {c : Char} (part : c.isDigit = true ∨ c = '.') : ofSymbol? c = none := by
  rcases part with digit | rfl
  · refine Option.eq_none_iff_forall_ne_some.mpr fun token symbol => ?_
    have other := (Text.separate_of_ofSymbol? symbol).1
    rw [Text.isWordChar_of_isDigit digit] at other
    cases other
  · rfl

theorem isSymbol_of_literal (l : Literal) : ∀ c ∈ l.chars, isSymbol c = false := by
  intro c member
  rw [isSymbol, ofSymbol?_of_literal (l.mem_chars member)]
  rfl

theorem scan_literal (l : Literal) {rest : List Char} (stops : l.Stops rest) :
    scan (l.chars ++ rest) = (.number l.value :: ·) <$> scan rest := by
  have scanned := l.scan?_chars stops
  cases chars : l.chars with
  | nil => exact absurd chars l.chars_ne_nil
  | cons c more =>
    have start := l.mem_chars (chars ▸ List.mem_cons_self : c ∈ l.chars)
    rw [chars, List.cons_append] at scanned
    rw [List.cons_append, scan, not_isGap_of_literal start]
    simp only [ofSymbol?_of_literal start, Bool.false_eq_true, if_false]
    split
    · rename_i found
      rw [scanned] at found
      cases found
      rfl
    · rename_i found
      rw [scanned] at found
      cases found

/-- No token starts with the character. -/
theorem scan_unexpected {c : Char} {rest : List Char} (gap : isGap c = false)
    (symbol : ofSymbol? c = none) (number : Decimal.scan? (c :: rest) = none) :
    scan (c :: rest) = .error (.invalid (.unexpected c)) := by
  rw [scan, gap]
  simp only [symbol, Bool.false_eq_true, if_false]
  split
  · rename_i found
    rw [number] at found
    cases found
  · rfl

/-- The characters of numbers. -/
def isNumeral (c : Char) : Bool := c.isDigit || c == '.'

/-- No number goes across from the first text into the second. -/
def Splits (before after : List Char) : Prop :=
  (∀ c ∈ before.getLast?, isNumeral c = false) ∨ ∀ c ∈ after.head?, isNumeral c = false

theorem Splits.suffix {before after rest : List Char} (splits : Splits before after)
    (suffix : rest <:+ before) : Splits rest after := by
  obtain ⟨front, rfl⟩ := suffix
  refine splits.imp_left fun ends c last => ends c ?_
  rw [List.getLast?_append, Option.mem_def.mp last]
  rfl

theorem not_isNumeral_iff {c : Char} : isNumeral c = false ↔ c.isDigit = false ∧ c ≠ '.' := by
  simp [isNumeral]

/-- Gaps and symbols are parts neither of words nor of numbers. -/
theorem separate {c : Char} (apart : isGap c = true ∨ isSymbol c = true) :
    Text.isWordChar c = false ∧ isNumeral c = false := by
  constructor
  · rcases apart with gap | symbol
    · exact Text.not_isWordChar_of_isGap gap
    · exact Text.not_isWordChar_of_isSymbol symbol
  · refine Bool.eq_false_iff.mpr fun numeral => ?_
    have part : c.isDigit = true ∨ c = '.' := by simpa [isNumeral] using numeral
    rcases apart with gap | symbol
    · rw [not_isGap_of_literal part] at gap
      cases gap
    · rw [isSymbol, ofSymbol?_of_literal part] at symbol
      cases symbol

theorem isNumeral_of_literal {l : Literal} {c : Char} (member : c ∈ l.chars) : isNumeral c = true := by
  rcases l.mem_chars member with digit | rfl
  · simp [isNumeral, digit]
  · rfl

theorem Splits.stops {l : Literal} {rest after : List Char} (splits : Splits (l.chars ++ rest) after)
    (stops : l.Stops rest) : l.Stops (rest ++ after) := by
  cases rest with
  | cons c rest => exact stops
  | nil =>
    intro c first
    rcases splits with ends | starts
    · have last := List.getLast?_eq_some_getLast l.chars_ne_nil
      rw [List.append_nil, last] at ends
      have inside := isNumeral_of_literal (List.getLast_mem l.chars_ne_nil)
      rw [ends _ rfl] at inside
      cases inside
    · have ends : Literal.Ends after := fun d first => not_isNumeral_iff.mp (starts d first)
      exact ends.stops l c first

theorem map_bind_cons (token : Token) (first second : Except EvalError (List Token)) :
    ((token :: ·) <$> first >>= fun front => (front ++ ·) <$> second) =
      (token :: ·) <$> (first >>= fun front => (front ++ ·) <$> second) := by
  cases first with
  | error error => rfl
  | ok front => cases second <;> rfl

/-- Where no number goes across, two texts are scanned one after the other. -/
theorem scan_append {before after : List Char} (splits : Splits before after) :
    scan (before ++ after) = scan before >>= fun first => (first ++ ·) <$> scan after := by
  fun_induction scan before with
  | case1 =>
    rw [List.nil_append]
    cases scan after <;> rfl
  | case2 c rest gap ih =>
    rw [List.cons_append, scan_cons_gap gap]
    exact ih (splits.suffix (List.suffix_cons c rest))
  | case3 c rest gap token symbol ih =>
    rw [List.cons_append, scan_symbol symbol, map_bind_cons,
      ih (splits.suffix (List.suffix_cons c rest))]
  | case4 c rest gap symbol d later found ih =>
    obtain ⟨l, text, rfl, stops⟩ := Literal.exists_of_scan? found
    rw [text] at splits ⊢
    rw [List.append_assoc, scan_literal l (splits.stops stops),
      ih (splits.suffix (List.suffix_append _ _)), ← map_bind_cons]
    rfl
  | case5 c rest gap symbol none =>
    have number := Literal.scan?_eq_none_iff.mp none
    rw [List.cons_append, scan_unexpected (by simpa using gap) symbol]
    · rfl
    · refine Literal.scan?_eq_none_iff.mpr ⟨number.1, fun point => ?_⟩
      cases rest with
      | cons next rest => exact number.2 point
      | nil =>
        subst point
        intro d first
        rcases splits with ends | starts
        · cases ends '.' rfl
        · exact (not_isNumeral_iff.mp (starts d first)).1

theorem scan_append_ok_iff {before after : List Char} (splits : Splits before after)
    {tokens : List Token} : scan (before ++ after) = .ok tokens ↔
      ∃ first rest, scan before = .ok first ∧ scan after = .ok rest ∧ tokens = first ++ rest := by
  rw [scan_append splits]
  constructor
  · intro found
    obtain ⟨first, front, found⟩ := exists_of_bind_ok found
    obtain ⟨rest, back, same⟩ := exists_of_map_ok found
    exact ⟨first, rest, front, back, same.symm⟩
  · rintro ⟨first, rest, front, back, rfl⟩
    rw [front, back]
    rfl

open Variable (spaced)

theorem plain_of_isGap {c : Char} (gap : isGap c = true) : isSymbol c = false := by
  refine Bool.eq_false_iff.mpr fun symbol => ?_
  obtain ⟨token, symbol⟩ := Option.isSome_iff_exists.mp symbol
  have other := (Text.separate_of_ofSymbol? symbol).2
  rw [gap] at other
  cases other

/-- Spaced, a text starts as before or with a blank. -/
theorem head?_spaced {text : List Char} {c : Char} (first : c ∈ (spaced text).head?) :
    c = ' ' ∨ c ∈ text.head? := by
  cases text with
  | nil => cases first
  | cons d rest =>
    by_cases symbol : isSymbol d = true
    · rw [Variable.spaced_symbol symbol] at first
      exact .inl (Option.mem_some.mp first).symm
    · rw [Variable.spaced_cons (by simpa using symbol)] at first
      exact .inr first

/-- Blanks around symbols change neither the tokens nor the fault. -/
theorem scan_spaced (text : List Char) : scan (spaced text) = scan text := by
  fun_induction scan text with
  | case1 => exact scan_nil
  | case2 c rest gap ih =>
    rw [Variable.spaced_cons (plain_of_isGap gap), scan_cons_gap gap, ih]
  | case3 c rest gap token symbol ih =>
    rw [Variable.spaced_symbol (Option.isSome_iff_exists.mpr ⟨token, symbol⟩), scan_cons_gap rfl,
      scan_symbol symbol, scan_cons_gap rfl, ih]
  | case4 c rest gap symbol d after found ih =>
    obtain ⟨l, text, rfl, stops⟩ := Literal.exists_of_scan? found
    have spacedStops : l.Stops (spaced after) := by
      intro c first
      rcases head?_spaced first with rfl | same
      · exact ⟨rfl, nofun⟩
      · exact stops c same
    rw [text, Variable.spaced_append, Variable.spaced_plain (isSymbol_of_literal l),
      scan_literal l spacedStops, ih]
    rfl
  | case5 c rest gap symbol none =>
    obtain ⟨digit, point⟩ := Literal.scan?_eq_none_iff.mp none
    have plain : isSymbol c = false := by rw [isSymbol, symbol]; rfl
    rw [Variable.spaced_cons plain, scan_unexpected (by simpa using gap) symbol]
    refine Literal.scan?_eq_none_iff.mpr ⟨digit, fun same d first => ?_⟩
    rcases head?_spaced first with rfl | head
    · rfl
    · exact point same d head

theorem read_eq_ok_iff {text : List Char} {tokens : List Token} :
    read text = .ok tokens ↔ scan text = .ok tokens ∧ tokens ≠ [] := by
  unfold read
  cases scan text with
  | error error => exact ⟨nofun, fun both => nomatch both.1⟩
  | ok found =>
    cases found with
    | nil =>
      refine ⟨nofun, ?_⟩
      rintro ⟨same, some⟩
      cases same
      exact absurd rfl some
    | cons token rest =>
      refine ⟨fun same => ⟨same, ?_⟩, fun both => both.1⟩
      rintro rfl
      cases same

/-- The blanks that substitution puts in do not matter to the lexer. -/
theorem read_substitute (values : Assignment) (expression : String) :
    read (Variable.substitute values expression).toList =
      read (Variable.fill values expression.toList) := by
  rw [Variable.substitute_eq, read, read, scan_spaced]

end Token

end Reckon
