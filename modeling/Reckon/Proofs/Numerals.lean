import Reckon.Proofs.Sign
import Reckon.Proofs.Trimming

/-! The grammar of numerals: which texts are read as doubles. What is written for a double, infinite or no
number as it may be, is one of them and reads back. -/

namespace Reckon

/-- Letters and digits are not blank. -/
theorem Text.not_isBlank_of_isAlphanum {c : Char} (alphanum : c.isAlphanum = true) :
    isBlank c = false := by
  have range : 0x30 ≤ c.toNat ∧ c.toNat < 0x80 := by
    simp only [Char.isAlphanum, Char.isAlpha, Char.isUpper, Char.isLower, Char.isDigit,
      UInt32.le_iff_toNat_le, Char.toNat_val, Bool.or_eq_true, Bool.and_eq_true,
      decide_eq_true_eq] at alphanum
    simp at alphanum
    omega
  simp only [isBlank, blankRanges, List.any_cons, List.any_nil, Bool.or_false, Bool.or_eq_false_iff,
    Bool.and_eq_false_iff, decide_eq_false_iff_not]
  omega

namespace Binary64

/-- There is one double that is no number. -/
theorem eq_of_isNaN {x y : Float} (none : isNaN x = true) (none' : isNaN y = true) : x = y := by
  have packed (x : Float) (none : isNaN x = true) :
      x.toBits.toBitVec = Float.Model.UnpackedFloat.packedNaN .binary64 := by
    have fields := (isNaNBits_eq x.toBits).trans none
    obtain ⟨exponent, mantissa⟩ := of_decide_eq_true fields
    exact x.toModel.valid.eq_packedNaN exponent mantissa
  have bits : x.toBits = y.toBits :=
    UInt64.toBitVec_inj.mp ((packed x none).trans (packed y none').symm)
  rw [← Float.ofBits_toBits x, bits, Float.ofBits_toBits]

end Binary64

theorem toLower_of_isDigit {c : Char} (digit : c.isDigit = true) : c.toLower = c := by
  have most : c.val ≤ '9'.val := of_decide_eq_true ((Bool.and_eq_true _ _).mp digit).2
  refine Char.toLower_eq_of_not_isUpper fun upper => ?_
  exact absurd (UInt32.le_trans (of_decide_eq_true upper).1 most) (by decide)

namespace Numeral

/-- The signs that may stand before a numeral and before an exponent. -/
def signs : List (List Char) := [[], ['+'], ['-']]

/-- What may follow the digits of a numeral: nothing, or an `e` in either letter case and a whole number. -/
inductive Power : List Char → Prop where
  | absent : Power []
  | whole {mark : Char} {sign digits : List Char} (letter : mark.toLower = 'e') (signed : sign ∈ signs)
      (present : digits ≠ []) (isDigit : ∀ c ∈ digits, c.isDigit = true) :
      Power (mark :: (sign ++ digits))

/-- The names of infinity and of no number. -/
def names : List (List Char) := ["inf".toList, "infinity".toList, "nan".toList]

/-- The texts of numerals without their signs: the names of infinity and of no number in any letter case,
and digits with at most one point. -/
inductive Unsigned : List Char → Prop where
  | name {text : List Char} (lower : text.map Char.toLower ∈ names) : Unsigned text
  | digits (l : Literal) {power : List Char} (scaled : Power power) : Unsigned (l.chars ++ power)

inductive IsNumeral : List Char → Prop where
  | intro {sign text : List Char} (signed : sign ∈ signs) (unsigned : Unsigned text) :
      IsNumeral (sign ++ text)

/-- No sign starts the text. -/
def Bare (text : List Char) : Prop := ∀ c ∈ text.head?, c ≠ '+' ∧ c ≠ '-'

theorem sign_append {first text : List Char} (signed : first ∈ signs) (bare : Bare text) :
    sign (first ++ text) = (decide (first = ['-']), text) := by
  simp only [signs, List.mem_cons, List.not_mem_nil, or_false] at signed
  rcases signed with rfl | rfl | rfl
  · rw [List.nil_append]
    unfold sign
    split
    · exact absurd rfl (bare '-' rfl).2
    · exact absurd rfl (bare '+' rfl).1
    · rfl
  · rfl
  · rfl

theorem exists_sign (text : List Char) : ∃ first ∈ signs, text = first ++ (sign text).2 := by
  unfold sign
  split
  · exact ⟨['-'], by decide, rfl⟩
  · exact ⟨['+'], by decide, rfl⟩
  · exact ⟨[], by decide, rfl⟩

theorem whole?_isSome_iff {text : List Char} :
    (whole? text).isSome = true ↔ text ≠ [] ∧ ∀ c ∈ text, c.isDigit = true := by
  unfold whole?
  split
  · rename_i digits
    simpa using digits
  · rename_i other
    simpa using other

theorem bare_of_digits {digits : List Char} (isDigit : ∀ c ∈ digits, c.isDigit = true) :
    Bare digits := by
  intro c first
  have digit := isDigit c (List.mem_of_mem_head? first)
  constructor <;> rintro rfl <;> cases digit

theorem exponent?_isSome_iff {text : List Char} : (exponent? text).isSome = true ↔ Power text := by
  constructor
  · intro found
    cases text with
    | nil => exact .absent
    | cons mark rest =>
      simp only [exponent?] at found
      split at found
      · rename_i accepted
        obtain ⟨letter, whole⟩ := (Bool.and_eq_true _ _).mp accepted
        obtain ⟨present, isDigit⟩ := whole?_isSome_iff.mp whole
        obtain ⟨first, signed, split⟩ := exists_sign rest
        rw [split]
        exact .whole (of_decide_eq_true letter) signed present isDigit
      · cases found
  · intro power
    cases power with
    | absent => rfl
    | whole letter signed present isDigit =>
      have whole := whole?_isSome_iff.mpr ⟨present, isDigit⟩
      simp only [exponent?, letter, sign_append signed (bare_of_digits isDigit), whole, decide_true,
        Bool.and_self, if_true, Option.isSome_some]

/-- A text with a digit in it is no name. -/
theorem not_name_of_digit {text : List Char} {c : Char} (member : c ∈ text) (digit : c.isDigit = true) :
    text.map Char.toLower ∉ names := by
  intro name
  have lower := List.mem_map_of_mem (f := Char.toLower) member
  rw [toLower_of_isDigit digit] at lower
  have letters : (names.all fun name => name.all fun c => !c.isDigit) = true := by decide +kernel
  have letter := List.all_eq_true.mp (List.all_eq_true.mp letters _ name) c lower
  rw [digit] at letter
  cases letter

theorem Power.stops {power : List Char} (scaled : Power power) (l : Literal) : l.Stops power := by
  apply Literal.Ends.stops
  intro c first
  cases scaled with
  | absent => cases first
  | whole letter _ _ _ =>
    cases first
    refine ⟨?_, ?_⟩
    · by_contra digit
      rw [toLower_of_isDigit (by simpa using digit)] at letter
      subst letter
      exact digit rfl
    · rintro rfl
      cases letter

theorem magnitude?_name {text : List Char} (name : text.map Char.toLower ∈ names) :
    (magnitude? text).isSome = true := by
  simp only [names, List.mem_cons, List.not_mem_nil, or_false] at name
  unfold magnitude?
  rcases name with lower | lower | lower <;> simp [lower]

theorem magnitude?_digits {text : List Char} (digits : text.map Char.toLower ∉ names) :
    magnitude? text = do
      let (d, rest) ← Decimal.scan? text
      let shift ← exponent? rest
      return Binary64.ofDecimal ⟨d.digits, d.exponent + shift⟩ := by
  simp only [names, List.mem_cons, List.not_mem_nil, or_false, not_or] at digits
  unfold magnitude?
  simp only
  rw [if_neg (not_or.mpr ⟨digits.1, digits.2.1⟩), if_neg digits.2.2]

theorem magnitude?_isSome_iff {text : List Char} :
    (magnitude? text).isSome = true ↔ Unsigned text := by
  constructor
  · intro found
    by_cases name : text.map Char.toLower ∈ names
    · exact .name name
    · rw [magnitude?_digits name] at found
      cases scanned : Decimal.scan? text with
      | none =>
        rw [scanned] at found
        cases found
      | some scan =>
        obtain ⟨d, rest⟩ := scan
        obtain ⟨l, rfl, _, _⟩ := Literal.exists_of_scan? scanned
        refine .digits l (exponent?_isSome_iff.mp ?_)
        rw [scanned] at found
        cases power : exponent? rest with
        | none =>
          simp only [Option.bind_eq_bind, Option.bind_some, power] at found
          cases found
        | some shift => rfl
  · intro unsigned
    cases unsigned with
    | name lower => exact magnitude?_name lower
    | digits l scaled =>
      obtain ⟨c, member, digit⟩ := l.exists_digit
      obtain ⟨shift, power⟩ := Option.isSome_iff_exists.mp (exponent?_isSome_iff.mpr scaled)
      rw [magnitude?_digits (not_name_of_digit (List.mem_append_left _ member) digit),
        l.scan?_chars (scaled.stops l)]
      simp only [Option.bind_eq_bind, Option.bind_some, power]
      rfl

theorem Unsigned.ne_nil {text : List Char} (unsigned : Unsigned text) : text ≠ [] := by
  cases unsigned with
  | name lower =>
    rintro rfl
    exact absurd lower (by decide)
  | digits l scaled => exact List.append_ne_nil_of_left_ne_nil l.chars_ne_nil _

theorem Unsigned.bare {text : List Char} (unsigned : Unsigned text) : Bare text := by
  intro c first
  cases unsigned with
  | name lower =>
    obtain ⟨rest, rfl⟩ := List.head?_eq_some_iff.mp first
    constructor
    · rintro rfl
      simp [names] at lower
    · rintro rfl
      simp [names] at lower
  | digits l scaled =>
    rw [List.head?_append_of_ne_nil _ l.chars_ne_nil] at first
    rcases l.mem_chars (List.mem_of_mem_head? first) with digit | rfl
    · constructor <;> rintro rfl <;> cases digit
    · decide

/-- The texts of numerals are those that are read. -/
theorem isNumeral_iff {text : List Char} : IsNumeral text ↔ ∃ value, read text = .ok value := by
  constructor
  · rintro ⟨signed, unsigned⟩
    rename_i first text
    obtain ⟨bits, found⟩ := Option.isSome_iff_exists.mp (magnitude?_isSome_iff.mpr unsigned)
    have present : (first ++ text).isEmpty = false := by simp [unsigned.ne_nil]
    simp only [read, present, sign_append signed unsigned.bare, found, Bool.false_eq_true, if_false]
    exact ⟨_, rfl⟩
  · rintro ⟨value, accepted⟩
    unfold read at accepted
    split at accepted
    · cases accepted
    · split at accepted
      · rename_i bits found
        obtain ⟨first, signed, split⟩ := exists_sign text
        rw [split]
        exact .intro signed (magnitude?_isSome_iff.mp (Option.isSome_iff_exists.mpr ⟨bits, found⟩))
      · cases accepted

/-- The characters of numerals. -/
def isPart (c : Char) : Bool := c.isAlphanum || c == '.' || c == '+' || c == '-'

theorem isPart_of_isAlpha {c : Char} (letter : c.isAlpha = true) : isPart c = true := by
  simp [isPart, Char.isAlphanum, letter]

theorem isPart_of_isDigit {c : Char} (digit : c.isDigit = true) : isPart c = true := by
  simp [isPart, Char.isAlphanum, digit]

theorem isPart_of_mem_signs {sign : List Char} (signed : sign ∈ signs) :
    ∀ c ∈ sign, isPart c = true := by
  have parts : (signs.all (·.all isPart)) = true := by decide
  exact List.all_eq_true.mp (List.all_eq_true.mp parts sign signed)

/-- The other case of a letter is a letter. -/
theorem isAlpha_of_toLower {c : Char} (letter : c.toLower.isAlpha = true) : c.isAlpha = true := by
  by_cases upper : c.isUpper = true
  · simp [Char.isAlpha, upper]
  · rwa [Char.toLower_eq_of_not_isUpper upper] at letter

theorem Power.isPart {power : List Char} (scaled : Power power) : ∀ c ∈ power, isPart c = true := by
  cases scaled with
  | absent => exact List.forall_mem_nil _
  | whole letter signed present isDigit =>
    have alpha := isAlpha_of_toLower (by rw [letter]; rfl)
    refine List.forall_mem_cons.mpr ⟨isPart_of_isAlpha alpha, ?_⟩
    intro c member
    exact (List.mem_append.mp member).elim (isPart_of_mem_signs signed c)
      fun digit => isPart_of_isDigit (isDigit c digit)

theorem Unsigned.isPart {text : List Char} (unsigned : Unsigned text) :
    ∀ c ∈ text, isPart c = true := by
  intro c member
  cases unsigned with
  | name lower =>
    have letters : (names.all (·.all Char.isAlpha)) = true := by decide +kernel
    have letter :=
      List.all_eq_true.mp (List.all_eq_true.mp letters _ lower) _ (List.mem_map_of_mem member)
    exact isPart_of_isAlpha (isAlpha_of_toLower letter)
  | digits l scaled =>
    rcases List.mem_append.mp member with inside | after
    · rcases l.mem_chars inside with digit | rfl
      · exact isPart_of_isDigit digit
      · rfl
    · exact scaled.isPart c after

theorem IsNumeral.isPart {text : List Char} (numeral : IsNumeral text) :
    ∀ c ∈ text, isPart c = true := by
  cases numeral with
  | intro signed unsigned =>
    intro c member
    exact (List.mem_append.mp member).elim (isPart_of_mem_signs signed c) (unsigned.isPart c)

/-- They are neither blank nor equals signs. -/
theorem printed_of_isPart {c : Char} (part : isPart c = true) : Text.isBlank c = false ∧ c ≠ '=' := by
  refine ⟨?_, ?_⟩
  · simp only [Numeral.isPart, Bool.or_eq_true, beq_iff_eq] at part
    rcases part with ((alphanum | rfl) | rfl) | rfl
    · exact Text.not_isBlank_of_isAlphanum alphanum
    · decide
    · decide
    · decide
  · rintro rfl
    cases part

theorem read_signed {text : List Char} {bits : Nat} (minus : Bool)
    (found : magnitude? text = some bits) :
    read ((if minus then ['-'] else []) ++ text) = .ok (Binary64.ofMagnitude minus bits) := by
  have unsigned := magnitude?_isSome_iff.mp (Option.isSome_iff_exists.mpr ⟨bits, found⟩)
  have signed : (if minus then ['-'] else []) ∈ signs := by cases minus <;> decide
  have sign : decide ((if minus then ['-'] else []) = ['-']) = minus := by cases minus <;> decide
  have present : ((if minus then ['-'] else []) ++ text).isEmpty = false := by simp [unsigned.ne_nil]
  simp only [read, present, sign_append signed unsigned.bare, found, sign, Bool.false_eq_true, if_false]

theorem magnitude?_literal (l : Literal) :
    magnitude? l.chars = some (Binary64.ofDecimal l.decimal) := by
  obtain ⟨c, member, digit⟩ := l.exists_digit
  have scanned := l.scan?_chars (Literal.ends_nil.stops l)
  rw [List.append_nil] at scanned
  rw [magnitude?_digits (not_name_of_digit member digit), scanned]
  simp [exponent?]

/-- A literal is read as its own value. -/
theorem read_literal (l : Literal) : read l.chars = .ok l.value :=
  read_signed false (magnitude?_literal l)

/-- What is written for a double reads back, whichever it is. -/
theorem read_write (x : Float) : read (write x).toList = .ok x := by
  have whole := Binary64.ofMagnitude_magnitude x
  by_cases none : Binary64.isNaN x = true
  · have text : (write x).toList = "NaN".toList := by rw [write, if_pos none]
    let word := Binary64.infinity + Binary64.fullMantissa / 2
    have found : magnitude? "NaN".toList = some word := by decide +kernel
    have isNaN : Binary64.isNaN (Binary64.ofMagnitude false word) = true := by decide +kernel
    rw [text]
    exact (read_signed false found).trans (congrArg _ (Binary64.eq_of_isNaN isNaN none))
  · by_cases infinite : Binary64.magnitude x = Binary64.infinity
    · have name : (write x).toList = (if Binary64.negative x then ['-'] else []) ++ "inf".toList := by
        simp only [write, none, infinite, Bool.false_eq_true, if_false, if_true, String.toList_ofList]
        split <;> rfl
      rw [name, read_signed _ (show magnitude? "inf".toList = some Binary64.infinity by decide +kernel),
        ← infinite, whole]
    · have most : Binary64.magnitude x ≤ Binary64.infinity := by
        simpa [Binary64.isNaN] using none
      obtain ⟨l, chars, value⟩ := exists_signed_literal (Nat.lt_of_le_of_ne most infinite)
      have bits := congrArg Binary64.magnitude value
      rw [Literal.value, Binary64.magnitude_ofMagnitude (Binary64.ofDecimal_le_infinity _),
        Binary64.magnitude_ofMagnitude most] at bits
      rw [chars, read_signed _ (magnitude?_literal l), bits, whole]

end Numeral

end Reckon
