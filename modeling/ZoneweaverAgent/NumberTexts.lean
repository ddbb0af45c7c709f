import ZoneweaverAgent.DecimalNumerals
import ZoneweaverAgent.Doubles
import ZoneweaverAgent.JsonValue
import ZoneweaverAgent.PathScan
import ZoneweaverAgent.TextLines

/-!
# Numbers read from texts

The readings of a text as a number: the longest integer at its front, and the whole of it as a
literal. A literal may have blanks around it, a sign, a point, an exponent, and for whole numbers
another base.
-/

namespace NumberTexts

open DecimalNumerals Doubles PathScan TextLines
open ZoneweaverAgent (isTrimmed isTrimmed_of_isAlphanum)

section Digits

/-- The value of a digit, in the bases that have it. -/
def digit? (base : ℕ) (c : Char) : Option ℕ := (hexDigit? c).filter (· < base)

def isDigitOf (base : ℕ) (c : Char) : Bool := (digit? base c).isSome

def valueOf (base : ℕ) (digits : Text) : ℕ :=
  digits.foldl (fun n c => base * n + (digit? base c).getD 0) 0

theorem isDigit_iff (c : Char) : c.isDigit = true ↔ '0' ≤ c ∧ c ≤ '9' := by
  simp only [Char.isDigit, Bool.and_eq_true, decide_eq_true_eq]
  exact Iff.rfl

theorem digit?_ten (c : Char) : digit? 10 c = if c.isDigit then some (c.toNat - 48) else none := by
  have hle (a b : Char) : a ≤ b ↔ a.toNat ≤ b.toNat := Iff.rfl
  have hzero : '0'.toNat = 48 := rfl
  have hnine : '9'.toNat = 57 := rfl
  have ha : 'a'.toNat = 97 := rfl
  have hf : 'f'.toNat = 102 := rfl
  have hA : 'A'.toNat = 65 := rfl
  have hF : 'F'.toNat = 70 := rfl
  simp only [digit?, hexDigit?, isDigit_iff, hle, hzero, hnine, ha, hf, hA, hF]
  split_ifs with hdigit hlower hupper
  · exact Option.filter_some_pos (decide_eq_true (by omega))
  -- a letter stands for ten or more
  · exact Option.filter_some_neg (decide_eq_false (by omega))
  · exact Option.filter_some_neg (decide_eq_false (by omega))
  · exact Option.filter_none _

theorem isDigitOf_ten : isDigitOf 10 = Char.isDigit := by
  funext c
  rw [isDigitOf, digit?_ten]
  cases h : c.isDigit <;> simp

theorem valueOf_ten {digits : Text} (h : ∀ c ∈ digits, c.isDigit = true) :
    valueOf 10 digits = digitsValue digits := by
  have hfold (n : ℕ) : digits.foldl (fun n c => 10 * n + (digit? 10 c).getD 0) n =
      Nat.ofDigitChars 10 digits n := by
    induction digits generalizing n with
    | nil => rfl
    | cons c digits ih =>
      rw [List.forall_mem_cons] at h
      rw [List.foldl_cons, digit?_ten, if_pos h.1, ih h.2]
      rfl
  exact hfold 0

end Digits

section Integers

/-- The sign of a text, and the text behind it. -/
def signed : Text → ℤ × Text
  | [] => (1, [])
  | c :: rest => if c = '-' then (-1, rest) else if c = '+' then (1, rest) else (1, c :: rest)

/-- The base that a text announces, and the text behind the announcement. -/
def based : Text → ℕ × Text
  | '0' :: c :: rest => if c = 'x' ∨ c = 'X' then (16, rest) else (10, '0' :: c :: rest)
  | text => (10, text)

/-- `parseInt(text)`, nothing for `NaN`. -/
def parseInt (text : Text) : Option Extended :=
  let (sign, unsigned) := signed (text.dropWhile isTrimmed)
  let (base, rest) := based unsigned
  let digits := rest.takeWhile (isDigitOf base)
  if digits = [] then none else some (toDouble (sign * valueOf base digits))

variable {text : Text}

theorem isTrimmed_of_isDigit {c : Char} (h : c.isDigit = true) : isTrimmed c = false :=
  isTrimmed_of_isAlphanum (by simp [Char.isAlphanum, h])

theorem signed_of_isDigit (h : ∀ c ∈ text, c.isDigit = true) : signed text = (1, text) := by
  cases text with
  | nil => rfl
  | cons c rest =>
    have hc := h c List.mem_cons_self
    rw [signed, if_neg, if_neg]
    · rintro rfl
      exact absurd hc (by decide)
    · rintro rfl
      exact absurd hc (by decide)

theorem based_of_isDigit (h : ∀ c ∈ text, c.isDigit = true) : based text = (10, text) := by
  unfold based
  split
  · rename_i c rest
    have hc : c.isDigit = true := h c (by simp)
    rw [if_neg]
    rintro (rfl | rfl) <;> exact absurd hc (by decide)
  · rfl

theorem parseInt_toDigits {n : ℕ} (h : n < 2 ^ 53) :
    parseInt (Nat.toDigits 10 n) = some (finite n) := by
  have hdigits : ∀ c ∈ Nat.toDigits 10 n, c.isDigit = true := isDigit_of_toDigits
  have hdrop : (Nat.toDigits 10 n).dropWhile isTrimmed = Nat.toDigits 10 n := by
    cases hds : Nat.toDigits 10 n with
    | nil => rfl
    | cons c rest =>
      have hc : isTrimmed c = false :=
        isTrimmed_of_isDigit (hdigits c (hds ▸ List.mem_cons_self))
      rw [List.dropWhile_cons_of_neg (by rw [hc]; exact Bool.false_ne_true)]
  have htake : (Nat.toDigits 10 n).takeWhile Char.isDigit = Nat.toDigits 10 n :=
    List.takeWhile_eq_self_iff.mpr hdigits
  simp only [parseInt, hdrop, signed_of_isDigit hdigits, based_of_isDigit hdigits, isDigitOf_ten,
    htake, if_neg Nat.toDigits_ne_nil, valueOf_ten hdigits, digitsValue_toDigits]
  rw [← toDouble_natCast h]
  norm_num

end Integers

end NumberTexts
