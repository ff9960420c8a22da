import Mathlib.Data.List.Basic

/-! Decimal digits: what numerals of whole numbers start and end with, and the number that digits make. -/

namespace Reckon

theorem isDigit_of_mem_toDigits {n : Nat} : ∀ c ∈ Nat.toDigits 10 n, c.isDigit = true :=
  fun _ member => Nat.isDigit_of_mem_toDigits (b := 10) (by decide) (by decide) member

theorem isDigit_of_mem_zeros {zeros : Nat} : ∀ c ∈ List.replicate zeros '0', c.isDigit = true := by
  intro c member
  rw [List.eq_of_mem_replicate member]
  rfl

/-- The numeral of a positive number has no zero in front. -/
theorem head?_toDigits {n : Nat} (positive : 0 < n) : (Nat.toDigits 10 n).head? ≠ some '0' := by
  induction n using Nat.strongRecOn with
  | ind n ih =>
    by_cases single : n < 10
    · have digits : ∀ n < 10, 0 < n → (Nat.digitChar n) ≠ '0' := by decide
      rw [Nat.toDigits_of_lt_base single]
      simpa using digits n single positive
    · have less : n / 10 < n := by omega
      have whole := ih (n / 10) less (by omega)
      rw [Nat.toDigits_eq_if (by decide), if_neg single]
      rwa [List.head?_append_of_ne_nil _ Nat.toDigits_ne_nil]

/-- It ends in a zero only if the number is a multiple of ten. -/
theorem getLast?_toDigits {n : Nat} (last : n % 10 ≠ 0) :
    (Nat.toDigits 10 n).getLast? ≠ some '0' := by
  have units : (Nat.toDigits 10 n).getLast? = some (Nat.digitChar (n % 10)) := by
    rw [Nat.toDigits_eq_if (by decide)]
    split
    · rename_i single
      rw [Nat.mod_eq_of_lt single]
      rfl
    · rw [List.getLast?_append, List.getLast?_singleton]
      rfl
  rw [units]
  intro zero
  exact last (Nat.digitChar_eq_zero.mp (Option.some.inj zero))

/-- The last of some digits tells whether they make a multiple of ten. -/
theorem ofDigitChars_mod_ten {digits : List Char} (isDigit : ∀ c ∈ digits, c.isDigit = true)
    (present : digits ≠ []) (last : digits.getLast? ≠ some '0') :
    Nat.ofDigitChars 10 digits 0 % 10 ≠ 0 := by
  obtain ⟨front, units, rfl⟩ := (List.eq_nil_or_concat' digits).resolve_left present
  have digit : units.isDigit = true := isDigit units (by simp)
  obtain ⟨least, most⟩ := (Bool.and_eq_true _ _).mp digit
  have above : 48 ≤ units.toNat := of_decide_eq_true least
  have below : units.toNat ≤ 57 := of_decide_eq_true most
  have nonzero : units.toNat ≠ 48 := by
    intro zero
    have same : units = '0' := Char.toNat_inj.mp zero
    exact last (by rw [List.getLast?_concat, same])
  rw [Nat.ofDigitChars_append, Nat.ofDigitChars_cons, Nat.ofDigitChars_nil]
  change (10 * Nat.ofDigitChars 10 front 0 + (units.toNat - 48)) % 10 ≠ 0
  omega

end Reckon
