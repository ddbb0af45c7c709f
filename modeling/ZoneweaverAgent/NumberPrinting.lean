import ZoneweaverAgent.NumberLiterals

/-!
# Numbers written as texts

A number is written with the fewest digits that are read as the same number, and of those with the
digits nearest to it. The numeral has a point, zeros or an exponent, as the size of the number
asks; what is written is read as the number again.
-/

namespace NumberTexts

open DecimalNumerals Doubles PathScan

section Definitions

/-- The nearest multiple of `10 ^ e` to a number, and the one at the other side of it. -/
def neighbours (x : ℚ) (e : ℤ) : List ℤ :=
  let nearest := roundEven (x / 10 ^ e)
  [nearest, 2 * ⌊x / 10 ^ e⌋ + 1 - nearest]

/-- A neighbour that is read as the number. -/
def significand (x : ℚ) (e : ℤ) : Option ℕ :=
  ((neighbours x e).map Int.toNat).find? fun s => toDouble (s * 10 ^ e) = finite x

/-- The significand of fewest digits, with its power of ten. -/
def shortest (x : ℚ) : Option (ℕ × ℤ) :=
  let n := Int.log 10 x + 1
  (List.range (n + 1074).toNat).findSome? fun k : ℕ =>
    (significand x (n - (k + 1))).map fun s => (s, n - (k + 1))

/-- The digits without zeros at their end. -/
def significant (s : ℕ) (e : ℤ) : Text × ℤ :=
  let digits := Nat.toDigits 10 s
  let kept := digits.rdropWhile (· = '0')
  (kept, e + (digits.length - kept.length))

def signOf (n : ℤ) : Sign := if n < 0 then .minus else .plus

/-- One digit before the point, and the exponent `n`. -/
def scientific (digits : Text) (n : ℤ) : Numeral where
  whole := digits.take 1
  fraction := if digits.length = 1 then none else some (digits.drop 1)
  exponent := some ⟨'e', signOf n, Nat.toDigits 10 n.natAbs⟩

/-- The numeral of `digits` times `10 ^ e`. -/
def layout (digits : Text) (e : ℤ) : Numeral :=
  let n := digits.length + e
  if 0 ≤ e ∧ n ≤ 21 then ⟨digits ++ List.replicate e.toNat '0', none, none⟩
  else if 0 < n ∧ n ≤ 21 then ⟨digits.take n.toNat, some (digits.drop n.toNat), none⟩
  else if -6 < n ∧ n ≤ 0 then ⟨['0'], some (List.replicate (-n).toNat '0' ++ digits), none⟩
  else scientific digits (n - 1)

/-- The text of a positive number. -/
def positiveText (x : ℚ) : Text :=
  let (s, e) := (shortest x).getD (0, 0)
  let (digits, e) := significant s e
  (layout digits e).text

/-- `String` of a number. -/
def numberText (x : ℚ) : Text :=
  if x = 0 then ['0'] else if x < 0 then '-' :: positiveText (-x) else positiveText x

end Definitions

section Layout
variable {digits : Text} {e : ℤ}

theorem isDigit_replicate (n : ℕ) : ∀ c ∈ List.replicate n '0', c.isDigit = true := by
  intro c hc
  rw [List.eq_of_mem_replicate hc]
  rfl

theorem forall_mem_append_digits {a b : Text} (ha : ∀ c ∈ a, c.isDigit = true)
    (hb : ∀ c ∈ b, c.isDigit = true) : ∀ c ∈ a ++ b, c.isDigit = true :=
  List.forall_mem_append.mpr ⟨ha, hb⟩

theorem digits_scientific (n : ℤ) : (scientific digits n).digits = digits := by
  have hfraction : (scientific digits n).fraction.getD [] = digits.drop 1 := by
    rw [scientific]
    dsimp only
    split_ifs with hone
    · rw [List.drop_eq_nil_of_le hone.le]
      rfl
    · rfl
  rw [Numeral.digits, hfraction]
  exact List.take_append_drop 1 digits

theorem power_scientific (hne : digits ≠ []) (n : ℤ) :
    (scientific digits n).power = n - (digits.length - 1) := by
  have hsign : (signOf n).value * (n.natAbs : ℤ) = n := by
    unfold signOf
    split_ifs with hneg
    · rw [Sign.value]
      omega
    · rw [Sign.value]
      · omega
      · intro hminus
        cases hminus
  have hlength := List.length_pos_of_ne_nil hne
  have hfraction : (((scientific digits n).fraction.getD []).length : ℤ) = digits.length - 1 := by
    rw [scientific]
    dsimp only
    split_ifs with hone
    · rw [hone]
      rfl
    · rw [Option.getD_some, List.length_drop]
      omega
  rw [Numeral.power, hfraction]
  simp only [scientific, Option.map_some, Option.getD_some, Exponent.value, digitsValue_toDigits,
    hsign]

theorem layout_wellFormed (hne : digits ≠ []) (hdigits : ∀ c ∈ digits, c.isDigit = true) :
    (layout digits e).WellFormed := by
  unfold layout
  dsimp only
  have hnone : ∀ x ∈ (none : Option Exponent), x.WellFormed := by
    intro x hx
    cases hx
  split_ifs
  · refine ⟨by simp [Numeral.digits, hne], ?_, hnone⟩
    rw [Numeral.digits, Option.getD_none, List.append_nil]
    exact forall_mem_append_digits hdigits (isDigit_replicate _)
  · refine ⟨by simp [Numeral.digits, hne], ?_, hnone⟩
    rw [Numeral.digits, Option.getD_some, List.take_append_drop]
    exact hdigits
  · refine ⟨by simp [Numeral.digits], ?_, hnone⟩
    exact forall_mem_append_digits (List.forall_mem_singleton.mpr rfl)
      (forall_mem_append_digits (isDigit_replicate _) hdigits)
  · refine ⟨by rwa [digits_scientific], by rwa [digits_scientific], ?_⟩
    intro x hx
    cases hx
    exact ⟨.inl rfl, Nat.toDigits_ne_nil, isDigit_of_toDigits⟩

theorem layout_value (hne : digits ≠ []) :
    (layout digits e).value = digitsValue digits * 10 ^ e := by
  unfold layout
  dsimp only
  split_ifs with hwhole hpoint hsmall
  · obtain ⟨k, rfl⟩ := Int.eq_ofNat_of_zero_le hwhole.1
    simp [Numeral.value, Numeral.digits, Numeral.power, digitsValue_append, digitsValue_zeros,
      mul_comm]
  · rw [Numeral.value, Numeral.digits, Numeral.power, Option.getD_some, List.take_append_drop,
      List.length_drop, Option.map_none, Option.getD_none]
    congr 2
    omega
  · have hvalue (m : ℕ) :
        digitsValue (['0'] ++ (List.replicate m '0' ++ digits)) = digitsValue digits := by
      rw [digitsValue_append, digitsValue_append, digitsValue_zeros]
      simp [digitsValue, Nat.ofDigitChars_cons]
    rw [Numeral.value, Numeral.digits, Numeral.power, Option.getD_some, hvalue, List.length_append,
      List.length_replicate, Option.map_none, Option.getD_none]
    congr 2
    omega
  · rw [Numeral.value, digits_scientific, power_scientific hne]
    congr 2
    ring

end Layout

section RoundTrip
variable {x : ℚ} {s : ℕ} {e : ℤ}

theorem isDigit_significant (s : ℕ) (e : ℤ) : ∀ c ∈ (significant s e).1, c.isDigit = true :=
  fun c hc => isDigit_of_toDigits c ((List.rdropWhile_prefix _ _).mem hc)

theorem significant_value (s : ℕ) (e : ℤ) :
    (digitsValue (significant s e).1 : ℚ) * 10 ^ (significant s e).2 = s * 10 ^ e := by
  have hsplit : (Nat.toDigits 10 s).rdropWhile (· = '0') ++
      (Nat.toDigits 10 s).rtakeWhile (· = '0') = Nat.toDigits 10 s := by
    rw [List.rdropWhile, List.rtakeWhile, ← List.reverse_append, List.takeWhile_append_dropWhile,
      List.reverse_reverse]
  have hzeros : (Nat.toDigits 10 s).rtakeWhile (· = '0') =
      List.replicate ((Nat.toDigits 10 s).rtakeWhile (· = '0')).length '0' := by
    refine List.eq_replicate_iff.mpr ⟨rfl, fun c hc => ?_⟩
    rw [List.rtakeWhile, List.mem_reverse] at hc
    exact of_decide_eq_true (List.mem_takeWhile_imp (p := fun c => decide (c = '0')) hc)
  have hs := digitsValue_toDigits s
  rw [← hsplit, hzeros, digitsValue_append, digitsValue_zeros, add_zero,
    List.length_replicate] at hs
  have hlength := congrArg List.length hsplit
  rw [List.length_append] at hlength
  have hpow : (10 : ℚ) ≠ 0 := by norm_num
  rw [significant]
  dsimp only
  rw [← hlength]
  conv_rhs => rw [← hs]
  push_cast
  rw [add_sub_cancel_left, zpow_add₀ hpow, zpow_natCast]
  ring

theorem significant_ne_nil (hs : s ≠ 0) (e : ℤ) : (significant s e).1 ≠ [] := by
  intro hnil
  have hvalue := significant_value s e
  rw [hnil, digitsValue, Nat.ofDigitChars_nil, Nat.cast_zero, zero_mul] at hvalue
  have hpow : (10 : ℚ) ^ e ≠ 0 := zpow_ne_zero e (by norm_num)
  rcases mul_eq_zero.mp hvalue.symm with hzero | hzero
  · exact hs (by exact_mod_cast hzero)
  · exact hpow hzero

theorem significand_sound (h : significand x e = some s) : toDouble (s * 10 ^ e) = finite x := by
  have hfound := List.find?_some (p := fun s : ℕ => decide (toDouble (s * 10 ^ e) = finite x)) h
  exact of_decide_eq_true hfound

theorem shortest_sound (h : shortest x = some (s, e)) : toDouble (s * 10 ^ e) = finite x := by
  obtain ⟨k, -, hk⟩ := List.exists_of_findSome?_eq_some h
  obtain ⟨s', hs', heq⟩ := Option.map_eq_some_iff.mp hk
  cases heq
  exact significand_sound hs'

/-- A multiple of the unit is its own neighbour. -/
theorem significand_of_mul {n : ℕ} (hdouble : IsDouble x) (h : x = n * 10 ^ e) :
    (significand x e).isSome := by
  have hpow : (10 : ℚ) ^ e ≠ 0 := zpow_ne_zero e (by norm_num)
  have hdiv : x / 10 ^ e = (n : ℤ) := by
    rw [h, mul_div_cancel_right₀ _ hpow]
    rfl
  rw [significand, List.find?_isSome]
  refine ⟨n, List.mem_map.mpr ⟨n, ?_, Int.toNat_natCast n⟩, decide_eq_true ?_⟩
  · rw [neighbours, hdiv, roundEven_intCast]
    exact List.mem_cons_self
  · rw [← h]
    exact toDouble_of_isDouble hdouble

theorem mul_two_zpow_neg (n p : ℕ) :
    (n : ℚ) * 2 ^ (-(p : ℤ)) = ((n * 5 ^ p : ℕ) : ℚ) * 10 ^ (-(p : ℤ)) := by
  have hmul : (10 : ℚ) ^ p = 2 ^ p * 5 ^ p := by
    rw [← mul_pow]
    norm_num
  rw [zpow_neg, zpow_neg, zpow_natCast, zpow_natCast, hmul]
  push_cast
  field_simp

theorem exists_natCast_mul (hdouble : IsDouble x) (hpos : 0 < x) :
    ∃ n : ℕ, 0 < n ∧ x = n * 10 ^ (-1074 : ℤ) := by
  obtain ⟨m, hm⟩ := hdouble.exists_mul
  have hmpos : 0 < m := by
    rw [hm] at hpos
    exact_mod_cast pos_of_mul_pos_left hpos (zpow_pos two_pos _).le
  obtain ⟨n, rfl⟩ := Int.eq_ofNat_of_zero_le hmpos.le
  have hn (p : ℕ) : 0 < n * 5 ^ p :=
    Nat.mul_pos (by exact_mod_cast hmpos) (Nat.pow_pos (by norm_num))
  exact ⟨_, hn 1074, hm.trans (mul_two_zpow_neg n 1074)⟩

theorem exists_shortest (hdouble : IsDouble x) (hpos : 0 < x) :
    ∃ s e, shortest x = some (s, e) := by
  obtain ⟨n, hn, hx⟩ := exists_natCast_mul hdouble hpos
  have hlog : -1074 ≤ Int.log 10 x := by
    rw [← Int.zpow_le_iff_le_log (by norm_num) hpos, hx]
    exact le_mul_of_one_le_left (zpow_pos (by norm_num) _).le (by exact_mod_cast hn)
  have hsome : (shortest x).isSome := by
    rw [shortest, List.findSome?_isSome_iff]
    refine ⟨(Int.log 10 x + 1074).toNat, List.mem_range.mpr (by omega), ?_⟩
    rw [Option.isSome_map]
    have he : Int.log 10 x + 1 - ((Int.log 10 x + 1074).toNat + 1) = -1074 := by omega
    rw [he]
    exact significand_of_mul hdouble hx
  obtain ⟨⟨s, e⟩, hp⟩ := Option.isSome_iff_exists.mp hsome
  exact ⟨s, e, hp⟩

theorem spells_positiveText (hdouble : IsDouble x) (hpos : 0 < x) (sign : Sign) :
    Spells (sign.text ++ positiveText x) (finite (sign.value * x)) := by
  obtain ⟨s, e, hshortest⟩ := exists_shortest hdouble hpos
  have hsound := shortest_sound hshortest
  have hs : s ≠ 0 := by
    rintro rfl
    rw [Nat.cast_zero, zero_mul, toDouble_of_isDouble isDouble_zero] at hsound
    exact hpos.ne (finite_injective hsound)
  have hne := significant_ne_nil hs e
  have hvalue := layout_value (e := (significant s e).2) hne
  rw [significant_value] at hvalue
  refine ⟨.numeral sign (layout (significant s e).1 (significant s e).2), [], [],
    layout_wellFormed hne (isDigit_significant s e), nofun, nofun, ?_, ?_⟩
  · rw [positiveText, hshortest, List.nil_append, List.append_nil]
    rfl
  · rw [Literal.value, hvalue]
    cases sign with
    | minus =>
      have hneg := toDouble_neg hsound
      simpa [Sign.value] using hneg
    | none => simpa [Sign.value] using hsound
    | plus => simpa [Sign.value] using hsound

/-- What is written for a number is read as that number. -/
theorem spells_numberText (h : IsDouble x) : Spells (numberText x) (finite x) := by
  rw [numberText]
  split_ifs with hzero hneg
  · have hdigits : Spells ['0'] (toDouble (digitsValue ['0'])) :=
      spells_digits (List.cons_ne_nil _ _) (List.forall_mem_singleton.mpr rfl)
    have hvalue : digitsValue ['0'] = 0 := digitsValue_zeros 1
    rw [hvalue, Nat.cast_zero, toDouble_of_isDouble isDouble_zero] at hdigits
    rwa [hzero]
  · have hdouble : IsDouble (-x) := by
      rw [IsDouble, nearest_neg, h.1, abs_neg]
      exact ⟨rfl, h.2⟩
    have hspells := spells_positiveText hdouble (neg_pos.mpr hneg) .minus
    simpa [Sign.text, Sign.value] using hspells
  · have hpos : 0 < x := lt_of_le_of_ne (not_lt.mp hneg) (Ne.symm hzero)
    have hspells := spells_positiveText h hpos .none
    simpa [Sign.text, Sign.value] using hspells

end RoundTrip

end NumberTexts
