import Reckon.Proofs.QuotedText

/-! Spellings of quoted texts: each character as it is, by a letter, or by one number or two. All of them
are read as the same text, and what is read as no text is no spelling of one. -/

namespace Reckon.Json.Text

/-- The character may stand between quotes as it is. -/
def IsRaw (c : Char) : Prop := 0x20 ≤ c.toNat ∧ c ≠ '"' ∧ c ≠ '\\'

instance (c : Char) : Decidable (IsRaw c) :=
  inferInstanceAs (Decidable (0x20 ≤ c.toNat ∧ c ≠ '"' ∧ c ≠ '\\'))

/-- The letters that may follow a backslash, with the characters they stand for. -/
def letters : List (Char × Char) :=
  [('"', '"'), ('\\', '\\'), ('/', '/'), ('b', '\x08'), ('f', '\x0c'), ('n', '\n'), ('r', '\r'), ('t', '\t')]

/-- A hexadecimal digit in lower or upper case. -/
def IsHexDigit (n : Nat) (c : Char) : Prop :=
  n < 0x10 ∧ (c = Nat.digitChar n ∨ c = (Nat.digitChar n).toUpper)

instance (n : Nat) (c : Char) : Decidable (IsHexDigit n c) :=
  inferInstanceAs (Decidable (n < 0x10 ∧ (c = Nat.digitChar n ∨ c = (Nat.digitChar n).toUpper)))

/-- A number of sixteen bits in four hexadecimal digits. -/
inductive Hex (n : Nat) : List Char → Prop where
  | digits {a b c d : Char} (first : IsHexDigit (n / 0x1000) a) (second : IsHexDigit (n / 0x100 % 0x10) b)
      (third : IsHexDigit (n / 0x10 % 0x10) c) (fourth : IsHexDigit (n % 0x10) d) : Hex n [a, b, c, d]

/-- What may stand between quotes, whether or not its numbers are those of characters. -/
inductive Body : List Char → Prop where
  | nil : Body []
  | raw {c : Char} {rest : List Char} (raw : IsRaw c) (body : Body rest) : Body (c :: rest)
  | letter {letter c : Char} {rest : List Char} (listed : (letter, c) ∈ letters) (body : Body rest) :
      Body ('\\' :: letter :: rest)
  | number {n : Nat} {digits rest : List Char} (hex : Hex n digits) (body : Body rest) :
      Body ('\\' :: 'u' :: (digits ++ rest))

/-- A text with what may stand between quotes for it. A character beyond U+FFFF has the numbers of a pair. -/
inductive Spells : List Char → List Char → Prop where
  | nil : Spells [] []
  | raw {c : Char} {text rest : List Char} (raw : IsRaw c) (spells : Spells text rest) :
      Spells (c :: text) (c :: rest)
  | letter {letter c : Char} {text rest : List Char} (listed : (letter, c) ∈ letters)
      (spells : Spells text rest) : Spells (c :: text) ('\\' :: letter :: rest)
  | number {c : Char} {digits text rest : List Char} (hex : Hex c.toNat digits) (spells : Spells text rest) :
      Spells (c :: text) ('\\' :: 'u' :: (digits ++ rest))
  | pair {c : Char} {high low text rest : List Char} (beyond : 0x10000 ≤ c.toNat)
      (first : Hex (0xD800 + (c.toNat - 0x10000) / 0x400) high)
      (second : Hex (0xDC00 + (c.toNat - 0x10000) % 0x400) low) (spells : Spells text rest) :
      Spells (c :: text) ('\\' :: 'u' :: (high ++ '\\' :: 'u' :: (low ++ rest)))

/-- What stands between quotes, with the text that it spells if it spells one. -/
def Quoted (content : Option String) (body : List Char) : Prop :=
  Body body ∧ ∀ text, content = some text ↔ Spells text.toList body

/-- The parts that are read from what stands between quotes. -/
def Splits (body : List Char) (parts : List Part) : Prop :=
  ∀ rest, parts? (Bytes.ofChars body ++ 0x22 :: rest) = some (parts, rest)

variable {c mark : Char} {n : Nat} {digits rest inside text : List Char} {parts : List Part}

theorem splits_nil : Splits [] [] := fun _ => rfl

theorem Splits.raw (splits : Splits rest parts) (raw : IsRaw c) :
    Splits (c :: rest) ((String.utf8EncodeChar c).map .byte ++ parts) := by
  obtain ⟨printed, quote, backslash⟩ := raw
  intro after
  have bytes : Bytes.ofChars (c :: rest) = String.utf8EncodeChar c ++ Bytes.ofChars rest :=
    List.flatMap_cons
  rw [bytes, List.append_assoc]
  exact parts?_plains (fun b member => isPlain_of_mem printed quote backslash member) (splits after)

/-- The bytes of a letter and of the character it stands for are listed for the reader too. -/
theorem exists_escape (listed : (mark, c) ∈ letters) :
    ∃ code b, String.utf8EncodeChar mark = [code] ∧ String.utf8EncodeChar c = [b] ∧
      escape? code = some b := by
  simp only [letters, List.mem_cons, List.not_mem_nil, or_false, Prod.mk.injEq] at listed
  rcases listed with ⟨rfl, rfl⟩ | ⟨rfl, rfl⟩ | ⟨rfl, rfl⟩ | ⟨rfl, rfl⟩ | ⟨rfl, rfl⟩ | ⟨rfl, rfl⟩ |
    ⟨rfl, rfl⟩ | ⟨rfl, rfl⟩ <;> exact ⟨_, _, rfl, rfl, rfl⟩

theorem Splits.letter (splits : Splits rest parts) (listed : (mark, c) ∈ letters) :
    Splits ('\\' :: mark :: rest) ((String.utf8EncodeChar c).map .byte ++ parts) := by
  obtain ⟨code, b, written, byte, means⟩ := exists_escape listed
  have backslash : String.utf8EncodeChar '\\' = [0x5C] := rfl
  have other : code ≠ 0x75 := by
    rintro rfl
    cases means
  intro after
  have read := splits after
  rw [Bytes.ofChars] at read ⊢
  simp [backslash, written, byte, parts?, other, means, read]

theorem exists_hexDigit (digit : IsHexDigit n c) :
    ∃ b, String.utf8EncodeChar c = [b] ∧ hexDigit? b = some n := by
  obtain ⟨small, written⟩ := digit
  have lower : ∀ n < 0x10, (String.utf8EncodeChar (Nat.digitChar n)).map hexDigit? = [some n] := by decide
  have upper : ∀ n < 0x10, (String.utf8EncodeChar (Nat.digitChar n).toUpper).map hexDigit? = [some n] := by
    decide
  have read : (String.utf8EncodeChar c).map hexDigit? = [some n] := by
    rcases written with rfl | rfl
    · exact lower n small
    · exact upper n small
  exact List.map_eq_singleton_iff.mp read

theorem Splits.number (splits : Splits rest parts) (hex : Hex n digits) :
    Splits ('\\' :: 'u' :: (digits ++ rest)) (.unit n :: parts) := by
  obtain ⟨first, second, third, fourth⟩ := hex
  obtain ⟨a, firstWritten, firstRead⟩ := exists_hexDigit first
  obtain ⟨b, secondWritten, secondRead⟩ := exists_hexDigit second
  obtain ⟨c, thirdWritten, thirdRead⟩ := exists_hexDigit third
  obtain ⟨d, fourthWritten, fourthRead⟩ := exists_hexDigit fourth
  have backslash : String.utf8EncodeChar '\\' = [0x5C] := rfl
  have start : String.utf8EncodeChar 'u' = [0x75] := rfl
  have number : unit? a b c d = some n := by
    simp only [unit?, firstRead, secondRead, thirdRead, fourthRead, Option.bind_eq_bind, Option.bind_some,
      Option.pure_def, Option.some.injEq]
    omega
  intro after
  have read := splits after
  rw [Bytes.ofChars] at read ⊢
  simp [backslash, start, firstWritten, secondWritten, thirdWritten, fourthWritten, parts?, number, read]

theorem Hex.lt (hex : Hex n digits) : n < 0x10000 := by
  obtain ⟨⟨small, _⟩, _, _, _⟩ := hex
  omega

/-- The number of a character is that of no half of a pair. -/
theorem not_half (c : Char) : isHigh c.toNat = false ∧ isLow c.toNat = false := by
  have valid : c.toNat < 0xD800 ∨ 0xDFFF < c.toNat ∧ c.toNat < 0x110000 := c.valid
  simp only [isHigh, isLow, Bool.and_eq_false_iff, decide_eq_false_iff_not]
  omega

/-- The numbers of a pair are read as their character. -/
theorem bytes?_pair (beyond : 0x10000 ≤ c.toNat) (parts : List Part) :
    bytes? (.unit (0xD800 + (c.toNat - 0x10000) / 0x400) :: .unit (0xDC00 + (c.toNat - 0x10000) % 0x400) ::
      parts) = (String.utf8EncodeChar c ++ ·) <$> bytes? parts := by
  have below : c.toNat < 0x110000 := by
    have valid : c.toNat < 0xD800 ∨ 0xDFFF < c.toNat ∧ c.toNat < 0x110000 := c.valid
    omega
  have high : isHigh (0xD800 + (c.toNat - 0x10000) / 0x400) = true := by
    simp only [isHigh, Bool.and_eq_true, decide_eq_true_eq]
    omega
  have low : isLow (0xDC00 + (c.toNat - 0x10000) % 0x400) = true := by
    simp only [isLow, Bool.and_eq_true, decide_eq_true_eq]
    omega
  have code : 0x10000 + (0xD800 + (c.toNat - 0x10000) / 0x400 - 0xD800) * 0x400 +
      (0xDC00 + (c.toNat - 0x10000) % 0x400 - 0xDC00) = c.toNat := by
    omega
  rw [bytes?, if_pos high, if_pos low, code, Char.ofNat_toNat]

/-- Every spelling of a text is read as its bytes. -/
theorem Spells.read (spells : Spells text inside) :
    ∃ parts, Splits inside parts ∧ bytes? parts = some (Bytes.ofChars text) := by
  induction spells with
  | nil => exact ⟨[], splits_nil, rfl⟩
  | raw raw _ ih =>
    obtain ⟨parts, splits, bytes⟩ := ih
    refine ⟨_, splits.raw raw, ?_⟩
    rw [bytes?_bytes, bytes]
    rfl
  | letter listed _ ih =>
    obtain ⟨parts, splits, bytes⟩ := ih
    refine ⟨_, splits.letter listed, ?_⟩
    rw [bytes?_bytes, bytes]
    rfl
  | @number c _ _ _ hex _ ih =>
    obtain ⟨parts, splits, bytes⟩ := ih
    refine ⟨_, splits.number hex, ?_⟩
    obtain ⟨high, low⟩ := not_half c
    rw [bytes?_unit high low, bytes, Char.ofNat_toNat]
    rfl
  | pair beyond first second _ ih =>
    obtain ⟨parts, splits, bytes⟩ := ih
    refine ⟨_, (splits.number second).number first, ?_⟩
    rw [bytes?_pair beyond, bytes]
    rfl

theorem Spells.body (spells : Spells text inside) : Body inside := by
  induction spells with
  | nil => exact .nil
  | raw raw _ ih => exact .raw raw ih
  | letter listed _ ih => exact .letter listed ih
  | number hex _ ih => exact .number hex ih
  | pair _ first second _ ih => exact .number first (.number second ih)

/-- Parts after a number have bytes with it when it is a character's, or when the number after it is the
other half of its pair. -/
theorem isSome_bytes?_unit (some : (bytes? (.unit n :: parts)).isSome) :
    (isHigh n = false ∧ isLow n = false ∧ (bytes? parts).isSome) ∨
      ∃ second after, parts = .unit second :: after ∧ isHigh n = true ∧ isLow second = true ∧
        (bytes? after).isSome := by
  cases high : isHigh n with
  | false =>
    cases low : isLow n with
    | false =>
      rw [bytes?_unit high low] at some
      exact .inl ⟨rfl, rfl, by simpa using some⟩
    | true =>
      cases parts with
      | nil => simp [bytes?, high, low] at some
      | cons next after => cases next <;> simp [bytes?, high, low] at some
  | true =>
    cases parts with
    | nil => simp [bytes?, high] at some
    | cons next after =>
      cases next with
      | byte b => simp [bytes?, high] at some
      | unit second =>
        cases low : isLow second with
        | false => simp [bytes?, high, low] at some
        | true => exact .inr ⟨second, after, rfl, rfl, low, by simpa [bytes?, high, low] using some⟩

/-- A number that is no half of a pair is that of a character. -/
theorem exists_spells_number (hex : Hex n digits) (high : isHigh n = false) (low : isLow n = false)
    (spelled : ∃ text, Spells text inside) : ∃ text, Spells text ('\\' :: 'u' :: (digits ++ inside)) := by
  have small := hex.lt
  have valid : n.isValidChar := by
    simp only [isHigh, isLow, Bool.and_eq_false_iff, decide_eq_false_iff_not] at high low
    unfold Nat.isValidChar
    omega
  have code : (Char.ofNatAux n valid).toNat = n := rfl
  rw [← code] at hex
  obtain ⟨text, spells⟩ := spelled
  exact ⟨_, .number hex spells⟩

/-- The numbers of a pair are those of a character beyond U+FFFF. -/
theorem exists_spells_pair {second : Nat} {more : List Char} (firstHex : Hex n digits)
    (secondHex : Hex second more) (high : isHigh n = true) (low : isLow second = true)
    (spelled : ∃ text, Spells text inside) :
    ∃ text, Spells text ('\\' :: 'u' :: (digits ++ '\\' :: 'u' :: (more ++ inside))) := by
  simp only [isHigh, isLow, Bool.and_eq_true, decide_eq_true_eq] at high low
  have valid : (0x10000 + (n - 0xD800) * 0x400 + (second - 0xDC00)).isValidChar := by
    unfold Nat.isValidChar
    omega
  let c := Char.ofNatAux _ valid
  have code : c.toNat = 0x10000 + (n - 0xD800) * 0x400 + (second - 0xDC00) := rfl
  have firstCode : n = 0xD800 + (c.toNat - 0x10000) / 0x400 := by omega
  have secondCode : second = 0xDC00 + (c.toNat - 0x10000) % 0x400 := by omega
  rw [firstCode] at firstHex
  rw [secondCode] at secondHex
  obtain ⟨text, spells⟩ := spelled
  exact ⟨c :: text, .pair (by omega) firstHex secondHex spells⟩

/-- A number stands alone before the bytes of a character. -/
theorem isSome_bytes?_unit_char (some : (bytes? (.unit n :: ((String.utf8EncodeChar c).map .byte ++ parts))).isSome) :
    isHigh n = false ∧ isLow n = false ∧ (bytes? parts).isSome := by
  rcases isSome_bytes?_unit some with ⟨high, low, later⟩ | ⟨second, after, same, _⟩
  · rw [bytes?_bytes] at later
    exact ⟨high, low, by simpa using later⟩
  · cases first : String.utf8EncodeChar c with
    | nil => exact absurd first (String.utf8EncodeChar_ne_nil)
    | cons b more =>
      rw [first] at same
      cases same

/-- What has bytes spells a text. The same is shown with one more number before it, which may be the first
of a pair. -/
theorem Body.exists_spells (body : Body inside) : ∃ parts, Splits inside parts ∧
    ((bytes? parts).isSome → ∃ text, Spells text inside) ∧
    ∀ n digits, Hex n digits → (bytes? (.unit n :: parts)).isSome →
      ∃ text, Spells text ('\\' :: 'u' :: (digits ++ inside)) := by
  induction body with
  | nil =>
    refine ⟨[], splits_nil, fun _ => ⟨[], .nil⟩, fun n digits hex some => ?_⟩
    rcases isSome_bytes?_unit some with ⟨high, low, _⟩ | ⟨_, _, same, _⟩
    · exact exists_spells_number hex high low ⟨[], .nil⟩
    · cases same
  | raw raw body ih =>
    obtain ⟨parts, splits, spelled, _⟩ := ih
    have step (some : (bytes? parts).isSome) : ∃ text, Spells text (_ :: _) :=
      (spelled some).elim fun text spells => ⟨_, .raw raw spells⟩
    refine ⟨_, splits.raw raw, fun some => step ?_, fun n digits hex some => ?_⟩
    · simpa [bytes?_bytes] using some
    · obtain ⟨high, low, later⟩ := isSome_bytes?_unit_char some
      exact exists_spells_number hex high low (step later)
  | letter listed body ih =>
    obtain ⟨parts, splits, spelled, _⟩ := ih
    have step (some : (bytes? parts).isSome) : ∃ text, Spells text ('\\' :: _ :: _) :=
      (spelled some).elim fun text spells => ⟨_, .letter listed spells⟩
    refine ⟨_, splits.letter listed, fun some => step ?_, fun n digits hex some => ?_⟩
    · simpa [bytes?_bytes] using some
    · obtain ⟨high, low, later⟩ := isSome_bytes?_unit_char some
      exact exists_spells_number hex high low (step later)
  | number hex body ih =>
    obtain ⟨parts, splits, spelled, after⟩ := ih
    -- Whether the number before is the first of a pair shows only here, where the next one is known.
    refine ⟨_, splits.number hex, after _ _ hex, fun n digits first some => ?_⟩
    rcases isSome_bytes?_unit some with ⟨high, low, later⟩ | ⟨second, tail, same, high, low, later⟩
    · exact exists_spells_number first high low (after _ _ hex later)
    · cases same
      exact exists_spells_pair first hex high low (spelled later)

/-- A quoted text is read as what it spells, and as no text when it spells none. -/
theorem Quoted.read {content : Option String} (quoting : Quoted content inside) :
    ∃ parts, Splits inside parts ∧ ofParts? parts = content := by
  obtain ⟨body, spelled⟩ := quoting
  cases content with
  | some text =>
    obtain ⟨parts, splits, bytes⟩ := ((spelled text).mp rfl).read
    refine ⟨parts, splits, ?_⟩
    rw [ofParts?, bytes, Option.bind_some, Bytes.text?_ofChars, String.ofList_toList]
  | none =>
    obtain ⟨parts, splits, spells, _⟩ := body.exists_spells
    refine ⟨parts, splits, ?_⟩
    cases bytes : bytes? parts with
    | none => rw [ofParts?, bytes, Option.bind_none]
    | some found =>
      obtain ⟨text, spells⟩ := spells (by rw [bytes]; rfl)
      have wrong := (spelled (String.ofList text)).mpr (by rwa [String.toList_ofList])
      cases wrong

/-- No quoted text spells two texts. -/
theorem Spells.quoted {text : String} (spells : Spells text.toList inside) : Quoted (some text) inside := by
  refine ⟨spells.body, fun other => ⟨?_, fun spellsOther => ?_⟩⟩
  · rintro ⟨⟩
    exact spells
  · obtain ⟨parts, splits, bytes⟩ := spells.read
    obtain ⟨otherParts, otherSplits, otherBytes⟩ := spellsOther.read
    have same : parts = otherParts := by
      have read := (splits []).symm.trans (otherSplits [])
      simpa using read
    rw [← same, bytes, Option.some.injEq] at otherBytes
    have texts := congrArg Bytes.text? otherBytes
    rw [Bytes.text?_ofChars, Bytes.text?_ofChars, String.ofList_toList, String.ofList_toList] at texts
    exact texts

/-- A control character is written by its number in lower case. -/
theorem hex_control {n : Nat} (control : n < 0x20) :
    Hex n ['0', '0', hexDigit (n / 0x10), hexDigit (n % 0x10)] := by
  have high : n / 0x1000 = 0 := by omega
  have middle : n / 0x100 % 0x10 = 0 := by omega
  have low : n / 0x10 % 0x10 = n / 0x10 := by omega
  refine .digits ?_ ?_ ?_ ?_
  · rw [high]
    exact ⟨by decide, .inl rfl⟩
  · rw [middle]
    exact ⟨by decide, .inl rfl⟩
  · rw [low]
    exact ⟨by omega, .inl rfl⟩
  · exact ⟨by omega, .inl rfl⟩

theorem Spells.writeChar (spells : Spells text inside) (c : Char) :
    Spells (c :: text) (Text.writeChar c ++ inside) := by
  unfold Text.writeChar
  split
  · exact .letter (by decide) spells
  · exact .letter (by decide) spells
  · exact .letter (by decide) spells
  · exact .letter (by decide) spells
  · exact .letter (by decide) spells
  · exact .letter (by decide) spells
  · exact .letter (by decide) spells
  · rename_i quote backslash _ _ _ _ _
    split
    · rename_i control
      exact .number (hex_control control) spells
    · rename_i printed
      exact .raw ⟨Nat.le_of_not_lt printed, quote, backslash⟩ spells

/-- What is written for a text spells it. -/
theorem spells_write (text : List Char) : Spells text (text.flatMap Text.writeChar) := by
  induction text with
  | nil => exact .nil
  | cons c rest ih => exact ih.writeChar c

end Reckon.Json.Text
