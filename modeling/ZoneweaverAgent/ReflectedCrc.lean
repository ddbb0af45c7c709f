import Mathlib.Data.Nat.Bitwise
import Mathlib.Logic.Function.Iterate

/-!
# Cyclic redundancy checks of reflected polynomials

The register takes in the bits of a message one by one, the lowest bit of a byte first. A shift is
linear in exclusive or, so the eight shifts of a byte can be read from a table of 256 words.
-/

namespace ReflectedCrc
variable {w : ℕ} (poly : BitVec w)

/-- What is added for a bit that leaves the register. -/
def feedback (bit : Bool) : BitVec w := if bit then poly else 0

/-- The register divided by one power of the indeterminate. -/
def shift (c : BitVec w) : BitVec w := (c >>> 1) ^^^ feedback poly (c.getLsbD 0)

def addBit (c : BitVec w) (bit : Bool) : BitVec w := shift poly (c ^^^ feedback 1#w bit)

def bitsOf (byte : BitVec 8) : List Bool := (List.range 8).map fun i => byte.getLsbD i

/-- The register after a message. -/
def register (c : BitVec w) (message : List (BitVec 8)) : BitVec w :=
  (message.flatMap bitsOf).foldl (addBit poly) c

/-- The word of the table for the low byte of the register. -/
def tableWord (byte : BitVec w) : BitVec w := (shift poly)^[8] byte

variable {poly} {c x y : BitVec w}

theorem feedback_xor (a b : Bool) : feedback poly (a ^^ b) = feedback poly a ^^^ feedback poly b := by
  cases a <;> cases b <;> simp [feedback]

theorem shift_xor (x y : BitVec w) : shift poly (x ^^^ y) = shift poly x ^^^ shift poly y := by
  simp only [shift, BitVec.ushiftRight_xor_distrib, BitVec.getLsbD_xor, feedback_xor]
  ac_rfl

theorem iterate_xor (n : ℕ) (x y : BitVec w) :
    (shift poly)^[n] (x ^^^ y) = (shift poly)^[n] x ^^^ (shift poly)^[n] y := by
  induction n with
  | zero => rfl
  | succ n ih => simp only [Function.iterate_succ_apply', ih, shift_xor]

theorem shift_of_low (h : x.getLsbD 0 = false) : shift poly x = x >>> 1 := by
  simp [shift, h, feedback]

/-- While the low bits are clear the register only moves down. -/
theorem iterate_of_low {n : ℕ} (h : ∀ i < n, x.getLsbD i = false) :
    (shift poly)^[n] x = x >>> n := by
  induction n with
  | zero => simp
  | succ n ih =>
    have hlow : (x >>> n).getLsbD 0 = false := by simpa using h n (Nat.lt_succ_self n)
    rw [Function.iterate_succ_apply', ih fun i hi => h i (hi.trans (Nat.lt_succ_self n)),
      shift_of_low hlow, BitVec.shiftRight_add]

/-- The word that has these bits, the first one lowest. -/
def wordOf (w : ℕ) : List Bool → BitVec w
  | [] => 0
  | bit :: bits => feedback 1#w bit ^^^ (wordOf w bits <<< 1)

theorem getLsbD_wordOf (bits : List Bool) (i : ℕ) :
    (wordOf w bits).getLsbD i = (decide (i < w) && bits.getD i false) := by
  induction bits generalizing i with
  | nil => simp [wordOf]
  | cons bit bits ih =>
    cases i with
    | zero => cases bit <;> simp [wordOf, feedback]
    | succ i =>
      have hone : (feedback 1#w bit).getLsbD (i + 1) = false := by cases bit <;> simp [feedback]
      rw [wordOf, BitVec.getLsbD_xor, hone, BitVec.getLsbD_shiftLeft, Nat.add_sub_cancel, ih]
      by_cases hi : i + 1 < w
      · simp [hi, Nat.lt_of_succ_lt hi]
      · simp [hi]

/-- Bits taken in one by one make the same register as their word taken in at once. -/
theorem foldl_addBit (bits : List Bool) (h : bits.length ≤ w) (c : BitVec w) :
    bits.foldl (addBit poly) c = (shift poly)^[bits.length] (c ^^^ wordOf w bits) := by
  induction bits generalizing c with
  | nil => simp [wordOf]
  | cons bit bits ih =>
    have hlength : bits.length < w := h
    have hback : wordOf w bits <<< 1 >>> 1 = wordOf w bits := by
      apply BitVec.eq_of_getLsbD_eq
      intro i hi
      rw [BitVec.getLsbD_ushiftRight, BitVec.getLsbD_shiftLeft, Nat.add_sub_cancel_left,
        getLsbD_wordOf]
      by_cases hlast : 1 + i < w
      · simp [hlast]
      · have hnone : bits.length ≤ i := by omega
        simp [hlast, hnone]
    have hlow : (wordOf w bits <<< 1).getLsbD 0 = false := by simp
    rw [List.foldl_cons, ih hlength.le, List.length_cons, Function.iterate_succ_apply, wordOf,
      addBit, ← BitVec.xor_assoc, shift_xor _ (wordOf w bits <<< 1), shift_of_low hlow, hback]

theorem wordOf_bitsOf (byte : BitVec 8) :
    wordOf w (bitsOf byte) = byte.setWidth w := by
  apply BitVec.eq_of_getLsbD_eq
  intro i hi
  rw [getLsbD_wordOf, BitVec.getLsbD_setWidth, bitsOf]
  rcases Nat.lt_or_ge i 8 with hlt | hge
  · simp [hi, hlt]
  · simp [hi, hge]

/-- The high bytes only move down. -/
theorem iterate_eight (x : BitVec w) :
    (shift poly)^[8] x = tableWord poly (x &&& 255) ^^^ (x >>> 8) := by
  have hbyte (i : ℕ) : (255#w).getLsbD i = (decide (i < w) && decide (i < 8)) := by
    rw [BitVec.getLsbD_ofNat, show 255 = 2 ^ 8 - 1 by rfl, Nat.testBit_two_pow_sub_one]
  have hsplit : x = (x &&& 255#w) ^^^ (x &&& ~~~255#w) := by
    apply BitVec.eq_of_getLsbD_eq
    intro i hi
    rw [BitVec.getLsbD_xor, BitVec.getLsbD_and, BitVec.getLsbD_and, BitVec.getLsbD_not]
    cases (255#w).getLsbD i <;> simp [hi]
  have hlow : ∀ i < 8, (x &&& ~~~255#w).getLsbD i = false := by
    intro i hi
    rw [BitVec.getLsbD_and, BitVec.getLsbD_not, hbyte]
    by_cases hw : i < w <;> simp [hw, hi]
  have hhigh : (x &&& ~~~255#w) >>> 8 = x >>> 8 := by
    apply BitVec.eq_of_getLsbD_eq
    intro i hi
    rw [BitVec.getLsbD_ushiftRight, BitVec.getLsbD_ushiftRight, BitVec.getLsbD_and,
      BitVec.getLsbD_not, hbyte]
    by_cases hw : 8 + i < w
    · simp [hw]
    · simp [hw, BitVec.getLsbD_of_ge x (8 + i) (Nat.le_of_not_lt hw)]
  conv_lhs => rw [hsplit]
  rw [iterate_xor, iterate_of_low hlow, hhigh]
  rfl

/-- A byte by way of the table. -/
theorem foldl_byte (hw : 8 ≤ w) (byte : BitVec 8) (c : BitVec w) :
    (bitsOf byte).foldl (addBit poly) c =
      tableWord poly ((c ^^^ byte.setWidth w) &&& 255) ^^^ (c >>> 8) := by
  have hgone : byte.setWidth w >>> 8 = 0#w := by
    apply BitVec.eq_of_getLsbD_eq
    intro i hi
    rw [BitVec.getLsbD_ushiftRight, BitVec.getLsbD_setWidth,
      BitVec.getLsbD_of_ge byte (8 + i) (Nat.le_add_right 8 i)]
    simp
  have hlength : (bitsOf byte).length = 8 := by simp [bitsOf]
  rw [foldl_addBit _ (hlength.trans_le hw), hlength, wordOf_bitsOf, iterate_eight,
    BitVec.ushiftRight_xor_distrib, hgone, BitVec.xor_zero]

theorem register_cons (c : BitVec w) (byte : BitVec 8) (message : List (BitVec 8)) :
    register poly c (byte :: message) = register poly ((bitsOf byte).foldl (addBit poly) c) message := by
  rw [register, List.flatMap_cons, List.foldl_append]
  rfl

end ReflectedCrc
