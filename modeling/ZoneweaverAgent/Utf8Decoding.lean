import Mathlib.Data.List.Basic
import Mathlib.Tactic.SplitIfs

/-!
# UTF-8 decoding with replacement

A decoder reads byte after byte and knows the character that has begun, if any. A byte that cannot
go on with it ends it with a replacement character and is read afresh. Decoding the parts of a text
one by one gives its decoding unless a part ends inside such a character, and then there are more
replacement characters.
-/

namespace Utf8Decoding

/-- A character that has begun: how many bytes it lacks besides the next one, the range of the next
one, and the bits that are known. -/
structure Pending where
  more : ℕ
  lower : ℕ
  upper : ℕ
  bits : ℕ
  tail_le : 0x80 ≤ lower
  le_tail : upper ≤ 0xBF

def replacement : Char := '\uFFFD'

section Decoder

def Pending.accepts (p : Pending) (b : UInt8) : Bool :=
  p.lower ≤ b.toNat && b.toNat ≤ p.upper

/-- A byte where no character has begun: what is read, and what has begun with it. -/
def first (b : UInt8) : List Char × Option Pending :=
  let n := b.toNat
  if n ≤ 0x7F then ([Char.ofNat n], none)
  else if n < 0xC2 then ([replacement], none)
  else if n ≤ 0xDF then ([], some ⟨0, 0x80, 0xBF, n % 0x20, by decide, by decide⟩)
  else if n = 0xE0 then ([], some ⟨1, 0xA0, 0xBF, n % 0x10, by decide, by decide⟩)
  else if n = 0xED then ([], some ⟨1, 0x80, 0x9F, n % 0x10, by decide, by decide⟩)
  else if n ≤ 0xEF then ([], some ⟨1, 0x80, 0xBF, n % 0x10, by decide, by decide⟩)
  else if n = 0xF0 then ([], some ⟨2, 0x90, 0xBF, n % 0x08, by decide, by decide⟩)
  else if n ≤ 0xF3 then ([], some ⟨2, 0x80, 0xBF, n % 0x08, by decide, by decide⟩)
  else if n = 0xF4 then ([], some ⟨2, 0x80, 0x8F, n % 0x08, by decide, by decide⟩)
  else ([replacement], none)

/-- A byte that goes on with a character. -/
def Pending.next (p : Pending) (b : UInt8) : List Char × Option Pending :=
  let bits := p.bits * 0x40 + b.toNat % 0x40
  match p.more with
  | 0 => ([Char.ofNat bits], none)
  | more + 1 => ([], some ⟨more, 0x80, 0xBF, bits, by decide, by decide⟩)

def next : Option Pending → UInt8 → List Char × Option Pending
  | none, b => first b
  | some p, b =>
    if p.accepts b then p.next b else (replacement :: (first b).1, (first b).2)

/-- The end of the bytes. -/
def flush : Option Pending → List Char
  | none => []
  | some _ => [replacement]

def decodeFrom : Option Pending → List UInt8 → List Char
  | q, [] => flush q
  | q, b :: bytes => (next q b).1 ++ decodeFrom (next q b).2 bytes

def decode (bytes : List UInt8) : List Char := decodeFrom none bytes

/-- The character that has begun at the end of the bytes. -/
def pendingAfter : Option Pending → List UInt8 → Option Pending
  | q, [] => q
  | q, b :: bytes => pendingAfter (next q b).2 bytes

/-- The second part goes on with a character that has begun in the first. -/
def Continues (a b : List UInt8) : Prop :=
  ∃ p ∈ pendingAfter none a, ∃ c ∈ b.head?, p.accepts c = true

end Decoder

section Parts
variable {q : Option Pending} {p : Pending} {a b c : List UInt8} {x : UInt8}

theorem pendingAfter_append (q : Option Pending) (a b : List UInt8) :
    pendingAfter q (a ++ b) = pendingAfter (pendingAfter q a) b := by
  induction a generalizing q with
  | nil => rfl
  | cons x a ih => exact ih _

theorem decodeFrom_append (q : Option Pending) (a b : List UInt8) :
    ∃ read, decodeFrom q (a ++ b) = read ++ decodeFrom (pendingAfter q a) b ∧
      decodeFrom q a = read ++ flush (pendingAfter q a) := by
  induction a generalizing q with
  | nil => exact ⟨[], rfl, rfl⟩
  | cons x a ih =>
    obtain ⟨read, hboth, hfirst⟩ := ih (next q x).2
    refine ⟨(next q x).1 ++ read, ?_, ?_⟩
    · rw [List.append_assoc]
      exact congrArg ((next q x).1 ++ ·) hboth
    · rw [List.append_assoc]
      exact congrArg ((next q x).1 ++ ·) hfirst

/-- What cannot go on with a character is read as if none had begun. -/
theorem decodeFrom_of_refused (h : ∀ x ∈ b.head?, p.accepts x = false) :
    decodeFrom (some p) b = replacement :: decode b := by
  cases b with
  | nil => rfl
  | cons x b =>
    have hx := h x rfl
    simp [decode, decodeFrom, next, hx]

/-- A byte that goes on with a character is none that a character starts with. -/
theorem first_of_accepts (h : p.accepts x = true) : first x = ([replacement], none) := by
  have hlower := p.tail_le
  have hupper := p.le_tail
  simp only [Pending.accepts, Bool.and_eq_true, decide_eq_true_eq] at h
  unfold first
  simp only
  rw [if_neg (by omega), if_pos (by omega)]

theorem decode_of_accepts (h : p.accepts x = true) :
    decode (x :: b) = replacement :: decode b := by
  simp [decode, decodeFrom, next, first_of_accepts h]

theorem count_lt_of_accepts (hx : p.accepts x = true)
    (hle : ∀ p, (decodeFrom (some p) b).count replacement ≤ (decode b).count replacement + 1) :
    (decodeFrom (some p) (x :: b)).count replacement < (decode (x :: b)).count replacement + 1 := by
  rw [decode_of_accepts hx, List.count_cons_self]
  simp only [decodeFrom, next, hx, if_true, Pending.next]
  cases p.more with
  | zero =>
    have hone : List.count replacement [Char.ofNat (p.bits * 0x40 + x.toNat % 0x40)] ≤ 1 :=
      List.count_le_length
    change List.count replacement ([Char.ofNat (p.bits * 0x40 + x.toNat % 0x40)] ++ decode b) < _
    rw [List.count_append]
    omega
  | succ more => exact Nat.lt_succ_of_le (hle _)

/-- What has begun is read as one character, or its bytes as replacements. -/
theorem count_decodeFrom_le (p : Pending) (b : List UInt8) :
    (decodeFrom (some p) b).count replacement ≤ (decode b).count replacement + 1 := by
  induction b generalizing p with
  | nil => simp [decodeFrom, flush, decode]
  | cons x b ih =>
    by_cases hx : p.accepts x = true
    · exact Nat.le_of_lt (count_lt_of_accepts hx ih)
    · apply Nat.le_of_eq
      rw [decodeFrom_of_refused (by simpa using hx), List.count_cons_self]

theorem decode_append (h : ¬Continues a b) : decode (a ++ b) = decode a ++ decode b := by
  obtain ⟨read, hboth, hfirst⟩ := decodeFrom_append none a b
  unfold decode
  rw [hboth, hfirst, List.append_assoc]
  congr 1
  cases hq : pendingAfter none a with
  | none => rfl
  | some p =>
    apply decodeFrom_of_refused
    intro x hx
    rw [Bool.eq_false_iff]
    exact fun haccepts => h ⟨p, hq, x, hx, haccepts⟩

/-- A part that ends inside a character makes for more replacements. -/
theorem count_decode_append (h : Continues a b) :
    (decode (a ++ b)).count replacement <
      (decode a).count replacement + (decode b).count replacement := by
  obtain ⟨p, hp, x, hx, haccepts⟩ := h
  obtain ⟨b, rfl⟩ := List.head?_eq_some_iff.mp hx
  obtain ⟨read, hboth, hfirst⟩ := decodeFrom_append none a (x :: b)
  rw [Option.mem_def.mp hp] at hboth hfirst
  have hless := count_lt_of_accepts haccepts fun p => count_decodeFrom_le p b
  have hflush : (flush (some p)).count replacement = 1 := rfl
  unfold decode at hless ⊢
  rw [hboth, hfirst, List.count_append, List.count_append, hflush]
  omega

theorem count_decode_append_le (a b : List UInt8) :
    (decode (a ++ b)).count replacement ≤
      (decode a).count replacement + (decode b).count replacement := by
  by_cases h : Continues a b
  · exact Nat.le_of_lt (count_decode_append h)
  · apply Nat.le_of_eq
    rw [decode_append h, List.count_append]

/-- Where a part ends at the end of a character, the characters behind are those of the rest. -/
theorem continues_append_iff (h : ¬Continues a (b ++ c)) :
    Continues (a ++ b) c ↔ Continues b c := by
  unfold Continues
  rw [pendingAfter_append]
  cases hq : pendingAfter none a with
  | none => rfl
  | some p =>
    cases b with
    | nil =>
      have hleft : ¬Continues a c := h
      constructor
      · rintro ⟨p', hp', hrest⟩
        exact absurd ⟨p', hq.trans hp', hrest⟩ hleft
      · rintro ⟨p', hp', -⟩
        cases hp'
    | cons x b =>
      have hrefused : p.accepts x = false := by
        rw [Bool.eq_false_iff]
        exact fun haccepts => h ⟨p, hq, x, rfl, haccepts⟩
      have hafter : pendingAfter (some p) (x :: b) = pendingAfter none (x :: b) := by
        simp [pendingAfter, next, hrefused]
      rw [hafter]

/-- No part ends inside a character of the whole. -/
def Apart (parts : List (List UInt8)) : Prop :=
  ∀ before after, parts = before ++ after → ¬Continues before.flatten after.flatten

variable {part : List UInt8} {parts : List (List UInt8)}

theorem apart_cons_iff :
    Apart (part :: parts) ↔ ¬Continues part parts.flatten ∧ Apart parts := by
  constructor
  · intro h
    have hfirst : ¬Continues part parts.flatten := by
      have hapart := h [part] parts rfl
      rwa [List.flatten_singleton] at hapart
    refine ⟨hfirst, ?_⟩
    rintro before after rfl
    rw [List.flatten_append] at hfirst
    rw [← continues_append_iff hfirst]
    exact h (part :: before) after rfl
  · rintro ⟨hfirst, hrest⟩ before after hsplit
    cases before with
    | nil =>
      rintro ⟨p, hp, -⟩
      cases hp
    | cons part' before =>
      obtain rfl := (List.cons.inj hsplit).1
      have hparts : parts = before ++ after := (List.cons.inj hsplit).2
      rw [hparts, List.flatten_append] at hfirst
      exact mt (continues_append_iff hfirst).mp (hrest before after hparts)

theorem decode_parts (h : Apart parts) : parts.flatMap decode = decode parts.flatten := by
  induction parts with
  | nil => rfl
  | cons part parts ih =>
    obtain ⟨hfirst, hrest⟩ := apart_cons_iff.mp h
    rw [List.flatMap_cons, List.flatten_cons, decode_append hfirst, ih hrest]

theorem count_decode_parts_le (parts : List (List UInt8)) :
    (decode parts.flatten).count replacement ≤ (parts.flatMap decode).count replacement := by
  induction parts with
  | nil => exact Nat.le_refl _
  | cons part parts ih =>
    have hfirst := count_decode_append_le part parts.flatten
    rw [List.flatten_cons, List.flatMap_cons, List.count_append]
    omega

theorem count_decode_parts (h : ¬Apart parts) :
    (decode parts.flatten).count replacement < (parts.flatMap decode).count replacement := by
  induction parts with
  | nil =>
    refine absurd ?_ h
    intro before after hsplit
    obtain ⟨rfl, rfl⟩ := List.nil_eq_append_iff.mp hsplit
    rintro ⟨p, hp, -⟩
    cases hp
  | cons part parts ih =>
    rw [apart_cons_iff, not_and_or, not_not] at h
    rw [List.flatten_cons, List.flatMap_cons, List.count_append]
    rcases h with hfirst | hrest
    · have hless := count_decode_append hfirst
      have hle := count_decode_parts_le parts
      omega
    · have hle := count_decode_append_le part parts.flatten
      have hless := ih hrest
      omega

end Parts

section RoundTrip
variable {p : Pending} {bits v : ℕ} {x y : UInt8} {bytes : List UInt8}

theorem toNat_ofNat {n : ℕ} (h : n < 256) : (UInt8.ofNat n).toNat = n := by
  simp [Nat.mod_eq_of_lt h]

/-- The last byte of a character. -/
theorem decodeFrom_last (hmore : p.more = 0) (hx : p.accepts x = true) :
    decodeFrom (some p) (x :: bytes) =
      Char.ofNat (p.bits * 0x40 + x.toNat % 0x40) :: decode bytes := by
  simp only [decodeFrom, next, hx, if_true, Pending.next, hmore]
  rfl

/-- A byte in the middle of a character. -/
theorem decodeFrom_more {more : ℕ} (hmore : p.more = more + 1) (hx : p.accepts x = true) :
    ∃ q : Pending, decodeFrom (some p) (x :: bytes) = decodeFrom (some q) bytes ∧
      q.more = more ∧ q.bits = p.bits * 0x40 + x.toNat % 0x40 ∧
      ∀ y : UInt8, 0x80 ≤ y.toNat → y.toNat ≤ 0xBF → q.accepts y = true := by
  refine ⟨⟨more, 0x80, 0xBF, p.bits * 0x40 + x.toNat % 0x40, by decide, by decide⟩, ?_, rfl, rfl,
    ?_⟩
  · simp only [decodeFrom, next, hx, if_true, Pending.next, hmore, List.nil_append]
  · intro y hlower hupper
    simp [Pending.accepts, hlower, hupper]

/-- The first byte of a character of two, three or four bytes. -/
theorem decode_lead (hlower : 0xC2 ≤ x.toNat) (hupper : x.toNat ≤ 0xF4) :
    ∃ p : Pending, decode (x :: bytes) = decodeFrom (some p) bytes ∧
      p.more = (if x.toNat ≤ 0xDF then 0 else if x.toNat ≤ 0xEF then 1 else 2) ∧
      p.bits = (if x.toNat ≤ 0xDF then x.toNat % 0x20
        else if x.toNat ≤ 0xEF then x.toNat % 0x10 else x.toNat % 0x08) ∧
      ∀ y : UInt8, 0x80 ≤ y.toNat → y.toNat ≤ 0xBF →
        (x.toNat = 0xE0 → 0xA0 ≤ y.toNat) → (x.toNat = 0xED → y.toNat ≤ 0x9F) →
        (x.toNat = 0xF0 → 0x90 ≤ y.toNat) → (x.toNat = 0xF4 → y.toNat ≤ 0x8F) →
        p.accepts y = true := by
  have hread : ∀ p, first x = ([], some p) → decode (x :: bytes) = decodeFrom (some p) bytes := by
    intro p hp
    simp only [decode, decodeFrom, next, hp, List.nil_append]
  have hfirst : ∃ p, first x = ([], some p) ∧
      p.more = (if x.toNat ≤ 0xDF then 0 else if x.toNat ≤ 0xEF then 1 else 2) ∧
      p.bits = (if x.toNat ≤ 0xDF then x.toNat % 0x20
        else if x.toNat ≤ 0xEF then x.toNat % 0x10 else x.toNat % 0x08) ∧
      p.lower = (if x.toNat = 0xE0 then 0xA0 else if x.toNat = 0xF0 then 0x90 else 0x80) ∧
      p.upper = (if x.toNat = 0xED then 0x9F else if x.toNat = 0xF4 then 0x8F else 0xBF) := by
    unfold first
    simp only
    rw [if_neg (by omega), if_neg (by omega)]
    split_ifs <;> first
      | omega
      | exact ⟨_, rfl, rfl, rfl, rfl, rfl⟩
  obtain ⟨p, hp, hmore, hbits, hlow, hup⟩ := hfirst
  refine ⟨p, hread p hp, hmore, hbits, ?_⟩
  intro y h80 hBF hE0 hED hF0 hF4
  simp only [Pending.accepts, hlow, hup, Bool.and_eq_true, decide_eq_true_eq]
  constructor <;> split_ifs <;> simp_all

theorem decode_encodeChar (c : Char) (bytes : List UInt8) :
    decode (String.utf8EncodeChar c ++ bytes) = c :: decode bytes := by
  have hvalid : c.val.toNat < 0xD800 ∨ 0xDFFF < c.val.toNat ∧ c.val.toNat < 0x110000 := c.valid
  have hchar : Char.ofNat c.val.toNat = c := Char.ofNat_toNat c
  generalize hv : c.val.toNat = v at hvalid hchar
  unfold String.utf8EncodeChar
  simp only [hv]
  split_ifs with h1 h2 h3
  · have hbyte := @toNat_ofNat v (by omega)
    simp only [List.cons_append, List.nil_append, decode, decodeFrom, next, first, hbyte]
    rw [if_pos h1, hchar]
    rfl
  · have hlead := @toNat_ofNat (v / 64 % 0x20 + 0xC0) (by omega)
    have hlast := @toNat_ofNat (v % 0x40 + 0x80) (by omega)
    generalize UInt8.ofNat (v / 64 % 0x20 + 0xC0) = lead at hlead
    generalize UInt8.ofNat (v % 0x40 + 0x80) = last at hlast
    obtain ⟨p, hread, hmore, hbits, haccepts⟩ :=
      @decode_lead lead (last :: bytes) (by omega) (by omega)
    rw [if_pos (by omega)] at hmore hbits
    have hp := haccepts last (by omega) (by omega) (by omega) (by omega) (by omega) (by omega)
    have hvalue : p.bits * 0x40 + last.toNat % 0x40 = v := by omega
    change decode (lead :: last :: bytes) = _
    rw [hread, decodeFrom_last hmore hp, hvalue, hchar]
  · have hlead := @toNat_ofNat (v / 4096 % 0x10 + 0xE0) (by omega)
    have hsecond := @toNat_ofNat (v / 64 % 0x40 + 0x80) (by omega)
    have hlast := @toNat_ofNat (v % 0x40 + 0x80) (by omega)
    generalize UInt8.ofNat (v / 4096 % 0x10 + 0xE0) = lead at hlead
    generalize UInt8.ofNat (v / 64 % 0x40 + 0x80) = second at hsecond
    generalize UInt8.ofNat (v % 0x40 + 0x80) = last at hlast
    obtain ⟨p, hread, hmore, hbits, haccepts⟩ :=
      @decode_lead lead (second :: last :: bytes) (by omega) (by omega)
    rw [if_neg (by omega), if_pos (by omega)] at hmore hbits
    have hp := haccepts second (by omega) (by omega) (by omega) (by omega) (by omega) (by omega)
    obtain ⟨q, hnext, hqmore, hqbits, hqaccepts⟩ := @decodeFrom_more p second (last :: bytes) 0
      hmore hp
    have hq := hqaccepts last (by omega) (by omega)
    have hvalue : q.bits * 0x40 + last.toNat % 0x40 = v := by omega
    change decode (lead :: second :: last :: bytes) = _
    rw [hread, hnext, decodeFrom_last hqmore hq, hvalue, hchar]
  · have hlead := @toNat_ofNat (v / 262144 % 0x08 + 0xF0) (by omega)
    have hsecond := @toNat_ofNat (v / 4096 % 0x40 + 0x80) (by omega)
    have hthird := @toNat_ofNat (v / 64 % 0x40 + 0x80) (by omega)
    have hlast := @toNat_ofNat (v % 0x40 + 0x80) (by omega)
    generalize UInt8.ofNat (v / 262144 % 0x08 + 0xF0) = lead at hlead
    generalize UInt8.ofNat (v / 4096 % 0x40 + 0x80) = second at hsecond
    generalize UInt8.ofNat (v / 64 % 0x40 + 0x80) = third at hthird
    generalize UInt8.ofNat (v % 0x40 + 0x80) = last at hlast
    obtain ⟨p, hread, hmore, hbits, haccepts⟩ :=
      @decode_lead lead (second :: third :: last :: bytes) (by omega) (by omega)
    rw [if_neg (by omega), if_neg (by omega)] at hmore hbits
    have hp := haccepts second (by omega) (by omega) (by omega) (by omega) (by omega) (by omega)
    obtain ⟨q, hnext, hqmore, hqbits, hqaccepts⟩ :=
      @decodeFrom_more p second (third :: last :: bytes) 1 hmore hp
    have hq := hqaccepts third (by omega) (by omega)
    obtain ⟨r, hthen, hrmore, hrbits, hraccepts⟩ :=
      @decodeFrom_more q third (last :: bytes) 0 hqmore hq
    have hr := hraccepts last (by omega) (by omega)
    have hvalue : r.bits * 0x40 + last.toNat % 0x40 = v := by omega
    change decode (lead :: second :: third :: last :: bytes) = _
    rw [hread, hnext, hthen, decodeFrom_last hrmore hr, hvalue, hchar]

/-- Decoding undoes encoding. -/
theorem decode_encode (text : List Char) : decode (text.flatMap String.utf8EncodeChar) = text := by
  induction text with
  | nil => rfl
  | cons c text ih => rw [List.flatMap_cons, decode_encodeChar, ih]

end RoundTrip

end Utf8Decoding
