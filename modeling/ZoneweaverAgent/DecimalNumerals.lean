import Mathlib.Algebra.Group.Nat.Defs
import Mathlib.Data.Nat.Init

/-!
# Decimal numerals

A run of digits is read as the number it writes, and numbers are kept as doubles: below 2^53 nothing
is rounded.
-/

namespace DecimalNumerals

/-- The double nearest to a natural number. -/
def double (n : ℕ) : ℕ :=
  let ulp := 2 ^ (n.log2 - 52)
  let half := 2 * (n % ulp)
  (n / ulp + if ulp < half ∨ ulp = half ∧ n / ulp % 2 = 1 then 1 else 0) * ulp

def digitsValue (digits : List Char) : ℕ := Nat.ofDigitChars 10 digits 0

theorem double_of_lt {n : ℕ} (h : n < 2 ^ 53) : double n = n := by
  have hlog : n.log2 - 52 = 0 := by
    rcases Nat.eq_zero_or_pos n with rfl | hpos
    · rfl
    · have : n.log2 < 53 := (Nat.log2_lt (Nat.ne_of_gt hpos)).mpr h
      omega
  simp [double, hlog, Nat.mod_one]

theorem digitsValue_toDigits (n : ℕ) : digitsValue (Nat.toDigits 10 n) = n :=
  Nat.ofDigitChars_ten_toDigits

theorem digitsValue_append (a b : List Char) :
    digitsValue (a ++ b) = 10 ^ b.length * digitsValue a + digitsValue b := by
  rw [digitsValue, Nat.ofDigitChars_append, Nat.ofDigitChars_eq_ofDigitChars_zero]
  rfl

theorem digitsValue_zeros (n : ℕ) : digitsValue (List.replicate n '0') = 0 :=
  Nat.ofDigitChars_replicate_zero

theorem isDigit_of_toDigits {n : ℕ} : ∀ c ∈ Nat.toDigits 10 n, c.isDigit = true :=
  fun _ hc => Nat.isDigit_of_mem_toDigits (by decide) (by decide) hc

end DecimalNumerals
