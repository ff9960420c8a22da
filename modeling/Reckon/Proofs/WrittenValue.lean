import Reckon.Evaluation
import Reckon.Proofs.Scanning
import Reckon.Proofs.Sign

/-! The text of a finite double is scanned to that double, bit for bit, or to a minus and its absolute
value when the sign bit is set. -/

namespace Reckon.Numeral

open Binary64 (negative magnitude infinity)

/-- A number with its sign bit set is written as its absolute value behind a minus. -/
theorem write_negative {x : Float} (below : negative x = true) (number : Binary64.isNaN x = false) :
    (write x).toList = '-' :: (write x.abs).toList := by
  have numberAbs : Binary64.isNaN x.abs = false := by
    rw [Binary64.isNaN, Binary64.magnitude_abs number]
    exact number
  simp [write, number, numberAbs, below, Binary64.magnitude_abs number, Binary64.not_negative_abs number]

/-- The tokens that the text of a finite double is scanned to. -/
def tokens (x : Float) : List Token :=
  if negative x then [.operator .minus, .number x.abs] else [.number x]

/-- In front of a text that its digits cannot go on into, a written double becomes its tokens. A point
is such a text only behind a double that has one itself. -/
theorem scan_write_append {x : Float} (finite : magnitude x < infinity) {rest : List Char}
    (stops : ∀ c ∈ rest.head?, c.isDigit = false ∧ (c = '.' → '.' ∈ (write x).toList)) :
    Token.scan ((write x).toList ++ rest) = (tokens x ++ ·) <$> Token.scan rest := by
  obtain ⟨l, chars, value⟩ := exists_signed_literal finite
  have literalStops : l.Stops rest := by
    intro c first
    refine ⟨(stops c first).1, fun point => ?_⟩
    have member := (stops c first).2 point
    rw [chars] at member
    have inside : '.' ∈ l.chars := by
      rcases List.mem_append.mp member with sign | inside
      · split at sign <;> simp at sign
      · exact inside
    exact l.isSome_of_point inside
  have whole := Binary64.ofMagnitude_magnitude x
  unfold tokens
  rw [chars]
  cases sign : negative x with
  | false =>
    rw [sign, ← value] at whole
    rw [if_neg (by simp), if_neg (by simp), List.nil_append, Token.scan_literal l literalStops, whole]
    rfl
  | true =>
    rw [Binary64.abs_eq, ← value, if_pos rfl, if_pos rfl, List.append_assoc, List.singleton_append,
      Token.scan_symbol rfl, Token.scan_literal l literalStops]
    cases Token.scan rest <;> rfl

theorem scan_write {x : Float} (finite : magnitude x < infinity) :
    Token.scan (write x).toList = .ok (tokens x) := by
  have scanned : Token.scan ((write x).toList ++ []) = (tokens x ++ ·) <$> Token.scan [] :=
    scan_write_append finite nofun
  rw [List.append_nil, Token.scan_nil] at scanned
  rw [scanned]
  exact congrArg Except.ok (List.append_nil _)

theorem tokens_injective {x y : Float} (finite : magnitude x < infinity)
    (finite' : magnitude y < infinity) (same : tokens x = tokens y) : x = y := by
  unfold tokens at same
  cases left : negative x with
  | false =>
    cases right : negative y with
    | false => simpa [left, right] using same
    | true => simp [left, right] at same
  | true =>
    cases right : negative y with
    | false => simp [left, right] at same
    | true =>
      have abs : x.abs = y.abs := by simpa [left, right] using same
      exact Binary64.eq_of_abs_eq (left.trans right.symm) abs finite finite'

theorem tokens_ne_nil (x : Float) : tokens x ≠ [] := by
  unfold tokens
  split <;> simp

/-- A text that is a variable has the variable's value, when that is finite and has no sign. -/
theorem evaluate_name {x : Float} (positive : negative x = false) (finite : magnitude x < infinity)
    (power : Grouping) {values : Assignment} {name : String}
    (named : Variable.isName name.toList = true) (bound : values name = some x) :
    evaluate power values name = .ok x := by
  have replaced : Variable.fill values name.toList = (write x).toList := by
    have ends : Text.Breaks [] := nofun
    have filled := Variable.fill_name values named (by rwa [String.ofList_toList]) ends
    simpa [Variable.fill, Text.pieces] using filled
  rw [evaluate, Token.read_substitute, replaced, Token.read, scan_write finite, tokens, positive]
  rfl

/-- The text of a finite double is scanned to the double itself, or to a minus and its absolute value
when the sign bit is set. So no two have one text, and a variable stands for exactly its value. The
text is of digits, points and minus signs, with no exponent. -/
theorem read_write_finite {x : Float} (finite : magnitude x < infinity) :
    Token.read (write x).toList =
        .ok (if negative x then [.operator .minus, .number x.abs] else [.number x]) ∧
      (∀ y, magnitude y < infinity → write y = write x → y = x) ∧
      (∀ c ∈ (write x).toList, c.isDigit = true ∨ c = '.' ∨ c = '-') ∧
      (negative x = false → ∀ power values name, Variable.isName name.toList = true →
        values name = some x → evaluate power values name = .ok x) := by
  refine ⟨?_, ?_, ?_, ?_⟩
  · exact Token.read_eq_ok_iff.mpr ⟨scan_write finite, tokens_ne_nil x⟩
  · intro y finite' same
    have scanned := scan_write finite'
    rw [same, scan_write finite] at scanned
    exact tokens_injective finite' finite (Except.ok.inj scanned).symm
  · intro c member
    obtain ⟨l, chars, _⟩ := exists_signed_literal finite
    rw [chars] at member
    rcases List.mem_append.mp member with sign | inside
    · split at sign
      · exact .inr (.inr (List.mem_singleton.mp sign))
      · cases sign
    · exact (l.mem_chars inside).imp_right .inl
  · intro positive power values name named bound
    exact evaluate_name positive finite power named bound

/-- The least double but zero, which has the longest text, and its negative. -/
theorem read_write_finite_least :
    magnitude (.ofBits 1) < infinity ∧ magnitude (-.ofBits 1) < infinity ∧
      Token.read (write (.ofBits 1)).toList = .ok [.number (.ofBits 1)] ∧
      Token.read (write (-.ofBits 1)).toList = .ok [.operator .minus, .number (.ofBits 1)] ∧
      evaluate .right (fun _ => some (.ofBits 1)) "rate" = .ok (.ofBits 1) := by
  have finite : magnitude (.ofBits 1) < infinity := by decide +kernel
  have finite' : magnitude (-.ofBits 1) < infinity := by decide +kernel
  have positive : negative (.ofBits 1) = false := by decide +kernel
  have below : negative (-.ofBits 1) = true := by decide +kernel
  have abs : (-Float.ofBits 1).abs = .ofBits 1 := by decide +kernel
  obtain ⟨scanned, _, _, evaluated⟩ := read_write_finite finite
  obtain ⟨scanned', _⟩ := read_write_finite finite'
  rw [positive, if_neg (by simp)] at scanned
  rw [below, if_pos rfl, abs] at scanned'
  exact ⟨finite, finite', scanned, scanned', evaluated positive .right _ "rate" (by decide) rfl⟩

end Reckon.Numeral
