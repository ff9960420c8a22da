import Reckon.Json.Text

/-! How a quoted text is split into parts, and what bytes its parts have: those of a character that stands as
it is, and of one that is given by its number. -/

namespace Reckon

namespace Bytes

theorem ofChars_append (before after : List Char) :
    ofChars (before ++ after) = ofChars before ++ ofChars after :=
  List.flatMap_append

theorem ofChars_cons {c : Char} {b : UInt8} (byte : String.utf8EncodeChar c = [b]) (rest : List Char) :
    ofChars (c :: rest) = b :: ofChars rest := by
  rw [ofChars, List.flatMap_cons, byte]
  rfl

end Bytes

namespace Json.Text

/-- A byte of a character is the character itself, or beyond ASCII. -/
theorem mem_utf8EncodeChar {c : Char} {b : UInt8} (member : b ∈ String.utf8EncodeChar c) :
    b.toNat = c.toNat ∨ 0x80 ≤ b.toNat := by
  have size : c.val.toNat = c.toNat := rfl
  unfold String.utf8EncodeChar at member
  simp only [size] at member
  split at member
  · rw [List.mem_singleton.mp member, UInt8.toNat_ofNat']
    omega
  · right
    split at member
    · simp only [List.mem_cons, List.not_mem_nil, or_false] at member
      rcases member with rfl | rfl <;> rw [UInt8.toNat_ofNat'] <;> omega
    · split at member <;> simp only [List.mem_cons, List.not_mem_nil, or_false] at member
      · rcases member with rfl | rfl | rfl <;> rw [UInt8.toNat_ofNat'] <;> omega
      · rcases member with rfl | rfl | rfl | rfl <;> rw [UInt8.toNat_ofNat'] <;> omega

/-- The byte may stand between quotes as it is. -/
def IsPlain (b : UInt8) : Prop := ¬ b < 0x20 ∧ b ≠ 0x22 ∧ b ≠ 0x5C

theorem isPlain_of_mem {c : Char} (printed : 0x20 ≤ c.toNat) (quote : c ≠ '"') (backslash : c ≠ '\\')
    {b : UInt8} (member : b ∈ String.utf8EncodeChar c) : IsPlain b := by
  have other (d : Char) (byte : UInt8) (code : byte.toNat = d.toNat) (ascii : d.toNat < 0x80)
      (different : c ≠ d) : b ≠ byte := by
    rintro rfl
    rcases mem_utf8EncodeChar member with same | beyond
    · exact different (Char.toNat_inj.mp (same.symm.trans code))
    · omega
  refine ⟨fun control => ?_, other '"' _ rfl (by decide) quote, other '\\' _ rfl (by decide) backslash⟩
  have less : b.toNat < 0x20 := control
  rcases mem_utf8EncodeChar member with same | beyond <;> omega

theorem parts?_plain {b : UInt8} (plain : IsPlain b) {rest after : Bytes} {parts : List Part}
    (read : parts? rest = some (parts, after)) :
    parts? (b :: rest) = some (.byte b :: parts, after) := by
  obtain ⟨printed, quote, backslash⟩ := plain
  unfold parts?
  split
  · rename_i same
    cases same
  · rename_i same
    cases same
    exact absurd rfl quote
  · rename_i same
    cases same
    exact absurd rfl backslash
  · rename_i same
    cases same
    exact absurd rfl backslash
  · rename_i same
    cases same
    rw [read, if_neg (by simp [printed, backslash])]
    rfl

theorem parts?_plains {bytes : Bytes} (plain : ∀ b ∈ bytes, IsPlain b) {rest after : Bytes}
    {parts : List Part} (read : parts? rest = some (parts, after)) :
    parts? (bytes ++ rest) = some (bytes.map .byte ++ parts, after) := by
  induction bytes with
  | nil => exact read
  | cons b more ih =>
    exact parts?_plain (plain b List.mem_cons_self)
      (ih fun other member => plain other (List.mem_cons_of_mem b member))

theorem bytes?_bytes (bytes : Bytes) (parts : List Part) :
    bytes? (bytes.map .byte ++ parts) = (bytes ++ ·) <$> bytes? parts := by
  induction bytes with
  | nil => simp
  | cons b more ih =>
    rw [List.map_cons, List.cons_append, bytes?, ih]
    simp [Function.comp_def]

/-- A unit that is no half of a pair spells its character whatever follows. -/
theorem bytes?_unit {n : Nat} (high : isHigh n = false) (low : isLow n = false) (parts : List Part) :
    bytes? (.unit n :: parts) = (String.utf8EncodeChar (Char.ofNat n) ++ ·) <$> bytes? parts := by
  cases parts with
  | nil => simp [bytes?, high, low]
  | cons next rest =>
    cases next with
    | byte b => simp [bytes?, high, low]
    | unit second => simp [bytes?, high, low]

end Json.Text

end Reckon
