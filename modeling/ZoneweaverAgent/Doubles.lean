import Mathlib.Data.Int.Log
import Mathlib.Data.Rat.Floor
import Mathlib.Order.WithBot
import Mathlib.Tactic.Linarith
import Mathlib.Tactic.NormNum

/-!
# Doubles

A double is a multiple of the spacing at its size. A rational number is rounded to the nearest one,
and of two that are equally near to the one with the even multiple; what is too large becomes an
infinity.
-/

namespace Doubles

/-- The nearest integer, of two the even one. -/
def roundEven (x : ℚ) : ℤ :=
  if x - ⌊x⌋ < 1 / 2 ∨ x - ⌊x⌋ = 1 / 2 ∧ ⌊x⌋ % 2 = 0 then ⌊x⌋ else ⌊x⌋ + 1

/-- The distance of the doubles from a number of this size to the next larger one. -/
def spacing (x : ℚ) : ℚ := 2 ^ max (Int.log 2 |x| - 52) (-1074)

/-- The nearest multiple of the spacing, also where the doubles have ended. -/
def nearest (x : ℚ) : ℚ := roundEven (x / spacing x) * spacing x

/-- Where the infinities begin. -/
def bound : ℚ := 2 ^ (1024 : ℤ)

/-- Numbers without `NaN`. -/
abbrev Extended := WithBot (WithTop ℚ)

def finite (q : ℚ) : Extended := ((q : WithTop ℚ) : Extended)

def infinity : Extended := ((⊤ : WithTop ℚ) : Extended)

def toDouble (x : ℚ) : Extended :=
  if bound ≤ nearest x then infinity else if nearest x ≤ -bound then ⊥ else finite (nearest x)

def IsDouble (q : ℚ) : Prop := nearest q = q ∧ |q| < bound

instance : DecidablePred IsDouble := fun q =>
  inferInstanceAs (Decidable (nearest q = q ∧ |q| < bound))

variable {x : ℚ}

theorem roundEven_intCast (n : ℤ) : roundEven n = n := by
  rw [roundEven, if_pos]
  · exact Int.floor_intCast n
  · left
    rw [Int.floor_intCast, sub_self]
    norm_num

theorem le_roundEven {n : ℤ} (h : (n : ℚ) ≤ x) : n ≤ roundEven x := by
  have hfloor : n ≤ ⌊x⌋ := Int.le_floor.mpr h
  unfold roundEven
  split_ifs <;> omega

theorem spacing_pos (x : ℚ) : 0 < spacing x := zpow_pos two_pos _

theorem finite_injective {p q : ℚ} (h : finite p = finite q) : p = q :=
  WithTop.coe_injective (WithBot.coe_injective h)

/-- A multiple of the spacing is not rounded. -/
theorem nearest_of_mul {n : ℤ} (h : x = n * spacing x) : nearest x = x := by
  have hdiv : x / spacing x = n := by
    rw [div_eq_iff (spacing_pos x).ne']
    exact h
  rw [nearest, hdiv, roundEven_intCast, ← h]

theorem toDouble_of_isDouble (h : IsDouble x) : toDouble x = finite x := by
  obtain ⟨hnearest, hbound⟩ := h
  rw [abs_lt] at hbound
  rw [toDouble, hnearest, if_neg (not_le.mpr hbound.2), if_neg (not_le.mpr hbound.1)]

theorem isDouble_zero : IsDouble 0 := by
  refine ⟨by simp [nearest, roundEven], ?_⟩
  rw [abs_zero]
  exact zpow_pos two_pos _

/-- Natural numbers below 2^53 are doubles. -/
theorem isDouble_natCast {n : ℕ} (h : n < 2 ^ 53) : IsDouble n := by
  rcases Nat.eq_zero_or_pos n with rfl | hpos
  · exact isDouble_zero
  · have hlog : Int.log 2 |(n : ℚ)| = Nat.log 2 n := by
      rw [Nat.abs_cast, Int.log_natCast]
    have hlt : Nat.log 2 n < 53 := Nat.log_lt_of_lt_pow hpos.ne' h
    obtain ⟨k, hk⟩ : ∃ k : ℕ, max (Int.log 2 |(n : ℚ)| - 52) (-1074) = -(k : ℤ) :=
      ⟨(52 - Nat.log 2 n : ℕ), by rw [hlog]; omega⟩
    refine ⟨nearest_of_mul (n := n * 2 ^ k) ?_, ?_⟩
    · rw [spacing, hk, zpow_neg, zpow_natCast]
      push_cast
      field_simp
    · rw [Nat.abs_cast, bound]
      calc (n : ℚ) < 2 ^ (53 : ℤ) := by exact_mod_cast h
        _ ≤ 2 ^ (1024 : ℤ) := zpow_le_zpow_right₀ one_le_two (by norm_num)

theorem toDouble_natCast {n : ℕ} (h : n < 2 ^ 53) : toDouble n = finite n :=
  toDouble_of_isDouble (isDouble_natCast h)

/-- Rounding keeps what is below a number of doubles below it. -/
theorem pow_log_le_nearest (h : 2 ^ (-1022 : ℤ) ≤ x) : 2 ^ Int.log 2 x ≤ nearest x := by
  have hpos : 0 < x := lt_of_lt_of_le (zpow_pos two_pos _) h
  have hlog : -1022 ≤ Int.log 2 x := by
    have := Int.log_mono_right (b := 2) (zpow_pos two_pos (-1022 : ℤ)) h
    rwa [show (2 : ℚ) = ((2 : ℕ) : ℚ) from rfl, Int.log_zpow one_lt_two] at this
  have hspacing : spacing x = 2 ^ (Int.log 2 x - 52) := by
    rw [spacing, abs_of_pos hpos, max_eq_left (by omega)]
  have hself : (2 : ℚ) ^ Int.log 2 x ≤ x := by
    simpa using Int.zpow_log_le_self (b := 2) one_lt_two hpos
  have hmul : (2 : ℚ) ^ Int.log 2 x = ((2 ^ 52 : ℤ) : ℚ) * spacing x := by
    rw [hspacing, zpow_sub₀ two_ne_zero]
    push_cast
    field_simp
  have hround : (2 ^ 52 : ℤ) ≤ roundEven (x / spacing x) := by
    apply le_roundEven
    rw [le_div_iff₀ (spacing_pos x), ← hmul]
    exact hself
  rw [nearest, hmul]
  exact mul_le_mul_of_nonneg_right (by exact_mod_cast hround) (spacing_pos x).le

theorem toDouble_eq_finite : toDouble x = finite y ↔ nearest x = y ∧ |y| < bound := by
  rw [abs_lt]
  unfold toDouble
  split_ifs with hhigh hlow
  · constructor
    · intro h
      cases WithBot.coe_injective h
    · rintro ⟨rfl, -, hlt⟩
      exact absurd hlt (not_lt.mpr hhigh)
  · constructor
    · intro h
      exact absurd h.symm (WithBot.coe_ne_bot)
    · rintro ⟨rfl, hlt, -⟩
      exact absurd hlt (not_lt.mpr hlow)
  · constructor
    · intro h
      have heq := finite_injective h
      rw [← heq]
      exact ⟨rfl, not_le.mp hlow, not_le.mp hhigh⟩
    · rintro ⟨rfl, -⟩
      rfl

theorem natCast_of_toDouble {m n : ℕ} (hn : n < 2 ^ 53) (h : toDouble m = finite n) : m = n := by
  obtain ⟨hnearest, -⟩ := toDouble_eq_finite.mp h
  rcases Nat.lt_or_ge m (2 ^ 53) with hm | hm
  · rw [(isDouble_natCast hm).1] at hnearest
    exact_mod_cast hnearest
  · have hlog : 53 ≤ Nat.log 2 m := (Nat.le_log_iff_pow_le one_lt_two (by omega)).mpr hm
    have hlarge : (2 : ℚ) ^ (-1022 : ℤ) ≤ m := by
      calc (2 : ℚ) ^ (-1022 : ℤ) ≤ 2 ^ (0 : ℤ) := zpow_le_zpow_right₀ one_le_two (by norm_num)
        _ ≤ m := by
          rw [zpow_zero]
          exact_mod_cast (Nat.one_le_two_pow (n := 53)).trans hm
    have hbelow : (2 : ℚ) ^ (53 : ℤ) ≤ n := by
      calc (2 : ℚ) ^ (53 : ℤ) ≤ 2 ^ Int.log 2 (m : ℚ) := by
            rw [Int.log_natCast]
            exact zpow_le_zpow_right₀ one_le_two (by exact_mod_cast hlog)
        _ ≤ nearest m := pow_log_le_nearest hlarge
        _ = n := hnearest
    have hge : 2 ^ 53 ≤ n := by exact_mod_cast hbelow
    exact absurd hn (Nat.not_lt.mpr hge)

theorem roundEven_neg (x : ℚ) : roundEven (-x) = -roundEven x := by
  have hfloor := Int.floor_le x
  have hlt := Int.lt_floor_add_one x
  rcases eq_or_lt_of_le hfloor with heq | hne
  · rw [← heq, ← Int.cast_neg, roundEven_intCast, roundEven_intCast]
  · have hneg : ⌊-x⌋ = -⌊x⌋ - 1 := by
      rw [Int.floor_eq_iff]
      push_cast
      constructor <;> linarith
    unfold roundEven
    rw [hneg]
    push_cast
    rcases lt_trichotomy (x - ⌊x⌋) (1 / 2) with hbelow | hhalf | habove
    · rw [if_neg, if_pos (.inl hbelow)]
      · omega
      · rintro (h | h)
        · linarith
        · linarith [h.1]
    · have hhalf' : -x - (-(⌊x⌋ : ℚ) - 1) = 1 / 2 := by linarith
      rcases Int.emod_two_eq_zero_or_one ⌊x⌋ with heven | hodd
      · rw [if_neg, if_pos (.inr ⟨hhalf, heven⟩)]
        · omega
        · rintro (h | h)
          · linarith
          · omega
      · rw [if_pos (.inr ⟨hhalf', by omega⟩), if_neg]
        · omega
        · rintro (h | h)
          · linarith
          · omega
    · rw [if_pos, if_neg]
      · omega
      · rintro (h | h)
        · linarith
        · linarith [h.1]
      · left
        linarith

theorem nearest_neg (x : ℚ) : nearest (-x) = -nearest x := by
  have hspacing : spacing (-x) = spacing x := by rw [spacing, abs_neg, spacing]
  rw [nearest, hspacing, neg_div, roundEven_neg, nearest]
  push_cast
  ring

theorem toDouble_neg (h : toDouble x = finite y) : toDouble (-x) = finite (-y) := by
  rw [toDouble_eq_finite] at h ⊢
  rw [nearest_neg, h.1, abs_neg]
  exact ⟨rfl, h.2⟩

/-- Every double is a multiple of the smallest one. -/
theorem IsDouble.exists_mul (h : IsDouble x) : ∃ n : ℤ, x = n * 2 ^ (-1074 : ℤ) := by
  obtain ⟨k, hk⟩ : ∃ k : ℕ, max (Int.log 2 |x| - 52) (-1074) = k + -1074 :=
    ⟨(max (Int.log 2 |x| - 52) (-1074) + 1074).toNat, by omega⟩
  refine ⟨roundEven (x / spacing x) * 2 ^ k, ?_⟩
  conv_lhs => rw [← h.1, nearest]
  rw [spacing, hk, zpow_add₀ two_ne_zero, zpow_natCast, Int.cast_mul, Int.cast_pow, Int.cast_ofNat,
    mul_assoc]

end Doubles
