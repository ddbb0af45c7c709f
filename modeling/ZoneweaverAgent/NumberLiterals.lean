import Mathlib.Data.Option.Basic
import ZoneweaverAgent.NumberTexts

/-!
# Number literals

The grammar of the texts that spell a number: between blanks nothing, a whole number in base
sixteen, eight or two, an infinity, or a decimal numeral, the last two with a sign. The reader
finds the literal of every such text and of no other, so what a text is read as is what it spells.
-/

namespace NumberTexts

open DecimalNumerals Doubles PathScan TextLines
open ZoneweaverAgent (isTrimmed isTrimmed_of_visible)

section Grammar

inductive Sign
  | none
  | plus
  | minus
  deriving DecidableEq

namespace Sign

def text : Sign → Text
  | none => []
  | plus => ['+']
  | minus => ['-']

def value : Sign → ℤ
  | minus => -1
  | _ => 1

end Sign

structure Exponent where
  marker : Char
  sign : Sign
  digits : Text

namespace Exponent

def text (e : Exponent) : Text := e.marker :: (e.sign.text ++ e.digits)

def value (e : Exponent) : ℤ := e.sign.value * digitsValue e.digits

structure WellFormed (e : Exponent) : Prop where
  marker : e.marker = 'e' ∨ e.marker = 'E'
  nonempty : e.digits ≠ []
  digits : ∀ c ∈ e.digits, c.isDigit = true

end Exponent

/-- A decimal numeral without its sign; the fraction is what stands behind a point. -/
structure Numeral where
  whole : Text
  fraction : Option Text
  exponent : Option Exponent

def fractionText : Option Text → Text
  | none => []
  | some digits => '.' :: digits

def exponentText (e : Option Exponent) : Text := (e.map Exponent.text).getD []

namespace Numeral

def digits (n : Numeral) : Text := n.whole ++ n.fraction.getD []

def text (n : Numeral) : Text := n.whole ++ (fractionText n.fraction ++ exponentText n.exponent)

/-- The power of ten that the digits are multiplied with. -/
def power (n : Numeral) : ℤ :=
  (n.exponent.map Exponent.value).getD 0 - (n.fraction.getD []).length

def value (n : Numeral) : ℚ := digitsValue n.digits * 10 ^ n.power

structure WellFormed (n : Numeral) : Prop where
  nonempty : n.digits ≠ []
  digits : ∀ c ∈ n.digits, c.isDigit = true
  exponent : ∀ e ∈ n.exponent, e.WellFormed

end Numeral

def baseOf (c : Char) : Option ℕ :=
  if c = 'x' ∨ c = 'X' then some 16
  else if c = 'o' ∨ c = 'O' then some 8
  else if c = 'b' ∨ c = 'B' then some 2
  else none

inductive Literal
  | blank
  | based (marker : Char) (digits : Text)
  | infinity (sign : Sign)
  | numeral (sign : Sign) (n : Numeral)

def infinityText : Text := ['I', 'n', 'f', 'i', 'n', 'i', 't', 'y']

namespace Literal

def text : Literal → Text
  | blank => []
  | based marker digits => '0' :: marker :: digits
  | infinity sign => sign.text ++ infinityText
  | numeral sign n => sign.text ++ n.text

def value : Literal → Extended
  | blank => finite 0
  | based marker digits => toDouble (valueOf ((baseOf marker).getD 10) digits)
  | infinity sign => if sign = .minus then ⊥ else Doubles.infinity
  | numeral sign n => toDouble (sign.value * n.value)

def WellFormed : Literal → Prop
  | based marker digits => ∃ base, baseOf marker = some base ∧ digits ≠ [] ∧
      ∀ c ∈ digits, isDigitOf base c = true
  | numeral _ n => n.WellFormed
  | _ => True

end Literal

/-- The text is a literal between blanks whose value is `x`. -/
def Spells (text : Text) (x : Extended) : Prop :=
  ∃ (l : Literal) (before after : Text), l.WellFormed ∧ (∀ c ∈ before, isTrimmed c = true) ∧
    (∀ c ∈ after, isTrimmed c = true) ∧ text = before ++ l.text ++ after ∧ l.value = x

end Grammar

section Reader

def readSign : Text → Sign × Text
  | [] => (.none, [])
  | c :: rest =>
    if c = '+' then (.plus, rest) else if c = '-' then (.minus, rest) else (.none, c :: rest)

def readFraction : Text → Option Text × Text
  | [] => (none, [])
  | c :: rest =>
    if c = '.' then (some (rest.takeWhile Char.isDigit), rest.dropWhile Char.isDigit)
    else (none, c :: rest)

/-- The exponent that is the whole of a text, which may be none. -/
def readExponent : Text → Option (Option Exponent)
  | [] => some none
  | c :: rest =>
    let (sign, digits) := readSign rest
    if (c = 'e' ∨ c = 'E') ∧ digits ≠ [] ∧ digits.all Char.isDigit then
      some (some ⟨c, sign, digits⟩)
    else none

def readNumeral (text : Text) : Option Numeral :=
  let (fraction, rest) := readFraction (text.dropWhile Char.isDigit)
  ((readExponent rest).map fun exponent =>
    ⟨text.takeWhile Char.isDigit, fraction, exponent⟩).filter fun n => n.digits ≠ []

def readBased : Text → Option Literal
  | z :: c :: digits =>
    (baseOf c).bind fun base =>
      if z = '0' ∧ digits ≠ [] ∧ digits.all (isDigitOf base) then some (.based c digits) else none
  | _ => none

def readSigned (text : Text) : Option Literal :=
  let (sign, rest) := readSign text
  if rest = infinityText then some (.infinity sign) else (readNumeral rest).map (.numeral sign)

def readLiteral (text : Text) : Option Literal :=
  if text = [] then some .blank else (readBased text).orElse fun _ => readSigned text

/-- `Number(text)`, nothing for `NaN`. -/
def number (text : Text) : Option Extended :=
  (readLiteral (trim isTrimmed text)).map Literal.value

end Reader

section Soundness
variable {text rest digits : Text} {s : Sign} {f : Option Text} {e : Option Exponent} {n : Numeral}
  {l : Literal} {x y : Extended}

theorem text_readSign (text : Text) : (readSign text).1.text ++ (readSign text).2 = text := by
  cases text with
  | nil => rfl
  | cons c rest =>
    rw [readSign]
    split_ifs with hplus hminus
    · rw [hplus]
      rfl
    · rw [hminus]
      rfl
    · rfl

theorem readSign_append (h : ∀ c ∈ rest.head?, c ≠ '+' ∧ c ≠ '-') :
    readSign (s.text ++ rest) = (s, rest) := by
  cases s with
  | plus => rfl
  | minus => rfl
  | none =>
    cases rest with
    | nil => rfl
    | cons c rest =>
      obtain ⟨hplus, hminus⟩ := h c rfl
      rw [Sign.text, List.nil_append, readSign, if_neg hplus, if_neg hminus]

theorem not_sign_of_isDigit {c : Char} (h : c.isDigit = true) : c ≠ '+' ∧ c ≠ '-' := by
  refine ⟨?_, ?_⟩
  · rintro rfl
    exact absurd h (by decide)
  · rintro rfl
    exact absurd h (by decide)

theorem text_readFraction (text : Text) :
    fractionText (readFraction text).1 ++ (readFraction text).2 = text := by
  cases text with
  | nil => rfl
  | cons c rest =>
    rw [readFraction]
    split_ifs with hpoint
    · rw [hpoint, fractionText, List.cons_append, List.takeWhile_append_dropWhile]
    · rfl

theorem digits_readFraction (text : Text) :
    ∀ c ∈ (readFraction text).1.getD [], c.isDigit = true := by
  cases text with
  | nil => nofun
  | cons c rest =>
    rw [readFraction]
    split_ifs with hpoint
    · exact fun d hd => List.mem_takeWhile_imp hd
    · nofun

theorem head_exponentText (he : ∀ x ∈ e, x.WellFormed) :
    ∀ c ∈ (exponentText e).head?, c = 'e' ∨ c = 'E' := by
  cases e with
  | none => nofun
  | some x =>
    intro c hc
    cases hc
    exact (he x rfl).marker

theorem readFraction_append (hf : ∀ c ∈ f.getD [], c.isDigit = true)
    (he : ∀ x ∈ e, x.WellFormed) :
    readFraction (fractionText f ++ exponentText e) = (f, exponentText e) := by
  have hhead := head_exponentText he
  cases f with
  | none =>
    rw [fractionText, List.nil_append]
    cases hexp : exponentText e with
    | nil => rfl
    | cons c rest =>
      rw [hexp] at hhead
      rw [readFraction, if_neg]
      rintro rfl
      exact absurd (hhead '.' rfl) (by decide)
  | some digits =>
    have hstop : ∀ c ∈ (exponentText e).head?, c.isDigit = false := by
      intro c hc
      rcases hhead c hc with rfl | rfl <;> rfl
    change ∀ c ∈ digits, c.isDigit = true at hf
    rw [fractionText, List.cons_append, readFraction, if_pos rfl, takeWhile_append_stop hf hstop,
      dropWhile_append_stop hf hstop]

theorem readExponent_eq_some :
    readExponent text = some e ↔ (∀ x ∈ e, x.WellFormed) ∧ exponentText e = text := by
  cases text with
  | nil =>
    rw [readExponent, Option.some.injEq]
    constructor
    · rintro rfl
      exact ⟨nofun, rfl⟩
    · rintro ⟨-, htext⟩
      cases e with
      | none => rfl
      | some x => cases htext
  | cons c rest =>
    have hsplit := text_readSign rest
    rw [readExponent]
    constructor
    · intro h
      dsimp only at h
      split_ifs at h with hall
      cases h
      obtain ⟨hmarker, hne, hdigits⟩ := hall
      refine ⟨?_, congrArg (c :: ·) hsplit⟩
      intro x hx
      cases hx
      exact ⟨hmarker, hne, List.all_eq_true.mp hdigits⟩
    · rintro ⟨hx, htext⟩
      cases e with
      | none => cases htext
      | some x =>
        obtain ⟨hmarker, hne, hdigits⟩ := hx x rfl
        obtain ⟨rfl, rfl⟩ := List.cons.inj htext
        have hhead : ∀ c ∈ x.digits.head?, c ≠ '+' ∧ c ≠ '-' := fun c hc =>
          not_sign_of_isDigit (hdigits c (List.mem_of_mem_head? hc))
        rw [readSign_append hhead]
        exact if_pos ⟨hmarker, hne, List.all_eq_true.mpr hdigits⟩

theorem head_fractionText (he : ∀ x ∈ e, x.WellFormed) :
    ∀ c ∈ (fractionText f ++ exponentText e).head?, c.isDigit = false := by
  cases f with
  | none =>
    intro c hc
    rcases head_exponentText he c hc with rfl | rfl <;> rfl
  | some digits =>
    intro c hc
    cases hc
    rfl

theorem readNumeral_eq_some : readNumeral text = some n ↔ n.WellFormed ∧ n.text = text := by
  constructor
  · intro h
    simp only [readNumeral, Option.filter_eq_some_iff, Option.map_eq_some_iff] at h
    obtain ⟨⟨e, he, rfl⟩, hne⟩ := h
    obtain ⟨hexponent, htext⟩ := readExponent_eq_some.mp he
    refine ⟨⟨of_decide_eq_true hne, ?_, hexponent⟩, ?_⟩
    · intro c hc
      rcases List.mem_append.mp hc with hwhole | hfraction
      · exact List.mem_takeWhile_imp hwhole
      · exact digits_readFraction _ c hfraction
    · rw [Numeral.text, htext, text_readFraction, List.takeWhile_append_dropWhile]
  · rintro ⟨⟨hne, hdigits, hexponent⟩, rfl⟩
    have hwhole : ∀ c ∈ n.whole, c.isDigit = true := fun c hc =>
      hdigits c (List.mem_append_left _ hc)
    have hfraction : ∀ c ∈ n.fraction.getD [], c.isDigit = true := fun c hc =>
      hdigits c (List.mem_append_right _ hc)
    have hstop := head_fractionText (f := n.fraction) hexponent
    rw [readNumeral, Numeral.text, takeWhile_append_stop hwhole hstop,
      dropWhile_append_stop hwhole hstop, readFraction_append hfraction hexponent]
    dsimp only
    rw [readExponent_eq_some.mpr ⟨hexponent, rfl⟩, Option.filter_eq_some_iff]
    exact ⟨rfl, decide_eq_true hne⟩

/-! ### Literals -/

/-- The characters of literals are visible, and none is a comma. -/
def isLiteral (c : Char) : Bool := 0x20 < c.toNat && c.toNat < 0x7F && c ≠ ','

theorem isLiteral_of_range {a b c : Char} (ha : 0x2C < a.toNat) (hb : b.toNat < 0x7F)
    (h : a ≤ c ∧ c ≤ b) : isLiteral c = true := by
  have hlow : a.toNat ≤ c.toNat := h.1
  have hhigh : c.toNat ≤ b.toNat := h.2
  have hcomma : c ≠ ',' := by
    rintro rfl
    exact absurd (Nat.lt_of_lt_of_le ha hlow) (by decide)
  simp only [isLiteral, Bool.and_eq_true, decide_eq_true_eq]
  exact ⟨⟨by omega, by omega⟩, hcomma⟩

theorem isTrimmed_of_isLiteral {c : Char} (h : isLiteral c = true) : isTrimmed c = false := by
  simp only [isLiteral, Bool.and_eq_true, decide_eq_true_eq] at h
  exact isTrimmed_of_visible h.1.1 h.1.2

/-- The characters of signed numerals and infinities. -/
def IsPlain (c : Char) : Prop := baseOf c = none ∧ isLiteral c = true

theorem isPlain_of_isDigit {c : Char} (h : c.isDigit = true) : IsPlain c := by
  refine ⟨?_, isLiteral_of_range (by decide) (by decide) ((isDigit_iff c).mp h)⟩
  have hne : ∀ d : Char, d.isDigit = false → c ≠ d := by
    rintro d hd rfl
    rw [h] at hd
    cases hd
  rw [baseOf, if_neg, if_neg, if_neg]
  · rintro (heq | heq) <;> exact hne _ (by decide) heq
  · rintro (heq | heq) <;> exact hne _ (by decide) heq
  · rintro (heq | heq) <;> exact hne _ (by decide) heq

theorem isPlain_sign (s : Sign) : ∀ c ∈ s.text, IsPlain c := by
  cases s with
  | none => nofun
  | plus => exact List.forall_mem_singleton.mpr ⟨rfl, rfl⟩
  | minus => exact List.forall_mem_singleton.mpr ⟨rfl, rfl⟩

theorem isPlain_numeral (h : n.WellFormed) : ∀ c ∈ n.text, IsPlain c := by
  intro c hc
  rw [Numeral.text, List.mem_append, List.mem_append] at hc
  rcases hc with hwhole | hfraction | hexponent
  · exact isPlain_of_isDigit (h.digits c (List.mem_append_left _ hwhole))
  · cases hf : n.fraction with
    | none =>
      rw [hf] at hfraction
      cases hfraction
    | some digits =>
      rw [hf] at hfraction
      rcases List.mem_cons.mp hfraction with rfl | hdigit
      · exact ⟨rfl, rfl⟩
      · refine isPlain_of_isDigit (h.digits c (List.mem_append_right _ ?_))
        rwa [hf]
  · cases he : n.exponent with
    | none =>
      rw [he] at hexponent
      cases hexponent
    | some x =>
      have hx := h.exponent x he
      rw [he] at hexponent
      rcases List.mem_cons.mp hexponent with heq | hmem
      · rcases hx.marker with hmarker | hmarker
        · rw [heq, hmarker]
          exact ⟨rfl, rfl⟩
        · rw [heq, hmarker]
          exact ⟨rfl, rfl⟩
      · rcases List.mem_append.mp hmem with hsign | hdigit
        · exact isPlain_sign x.sign c hsign
        · exact isPlain_of_isDigit (hx.digits c hdigit)

theorem readBased_eq_some :
    readBased text = some l ↔
      ∃ c digits, (Literal.based c digits).WellFormed ∧ text = '0' :: c :: digits ∧
        l = .based c digits := by
  constructor
  · intro h
    match text, h with
    | z :: c :: digits, h =>
      obtain ⟨base, hbase, h⟩ := Option.bind_eq_some_iff.mp h
      split_ifs at h with hall
      cases h
      obtain ⟨rfl, hne, hdigits⟩ := hall
      exact ⟨c, digits, ⟨base, hbase, hne, List.all_eq_true.mp hdigits⟩, rfl, rfl⟩
  · rintro ⟨c, digits, ⟨base, hbase, hne, hdigits⟩, rfl, rfl⟩
    rw [readBased, hbase, Option.bind_some]
    exact if_pos ⟨rfl, hne, List.all_eq_true.mpr hdigits⟩

theorem readBased_of_isPlain (h : ∀ c ∈ text, IsPlain c) : readBased text = none := by
  match text, h with
  | [], _ => rfl
  | [_], _ => rfl
  | z :: c :: digits, h =>
    rw [readBased, (h c (by simp)).1]
    rfl

theorem head_numeral (h : n.WellFormed) :
    ∃ c rest, n.text = c :: rest ∧ (c.isDigit = true ∨ c = '.') := by
  cases hwhole : n.whole with
  | cons c rest =>
    refine ⟨c, _, by rw [Numeral.text, hwhole, List.cons_append], .inl (h.digits c ?_)⟩
    rw [Numeral.digits, hwhole]
    exact List.mem_cons_self
  | nil =>
    cases hf : n.fraction with
    | none => exact absurd (by rw [Numeral.digits, hwhole, hf]; rfl) h.nonempty
    | some digits =>
      refine ⟨'.', digits ++ exponentText n.exponent, ?_, .inr rfl⟩
      rw [Numeral.text, hwhole, hf]
      rfl

theorem readSigned_infinity (s : Sign) :
    readSigned (Literal.infinity s).text = some (.infinity s) := by
  have hhead : ∀ c ∈ infinityText.head?, c ≠ '+' ∧ c ≠ '-' := by
    intro c hc
    cases hc
    decide
  rw [Literal.text, readSigned, readSign_append hhead]
  exact if_pos rfl

theorem readSigned_numeral (s : Sign) (h : n.WellFormed) :
    readSigned (Literal.numeral s n).text = some (.numeral s n) := by
  obtain ⟨c, rest, htext, hc⟩ := head_numeral h
  have hhead : ∀ d ∈ n.text.head?, d ≠ '+' ∧ d ≠ '-' := by
    intro d hd
    rw [htext] at hd
    cases hd
    rcases hc with hdigit | rfl
    · exact not_sign_of_isDigit hdigit
    · decide
  have hne : n.text ≠ infinityText := by
    rw [htext]
    intro heq
    obtain ⟨rfl, -⟩ := List.cons.inj heq
    exact absurd hc (by decide)
  rw [Literal.text, readSigned, readSign_append hhead]
  dsimp only
  rw [if_neg hne, readNumeral_eq_some.mpr ⟨h, rfl⟩]
  rfl

theorem readSigned_sound (h : readSigned text = some l) : l.WellFormed ∧ l.text = text := by
  have hsplit := text_readSign text
  rw [readSigned] at h
  dsimp only at h
  split_ifs at h with hinfinity
  · cases h
    refine ⟨trivial, ?_⟩
    rw [hinfinity] at hsplit
    exact hsplit
  · obtain ⟨n, hn, rfl⟩ := Option.map_eq_some_iff.mp h
    obtain ⟨hwf, htext⟩ := readNumeral_eq_some.mp hn
    refine ⟨hwf, ?_⟩
    rw [Literal.text, htext, hsplit]

theorem isLiteral_of_isDigitOf {base : ℕ} {c : Char} (h : isDigitOf base c = true) :
    isLiteral c = true := by
  obtain ⟨d, hd⟩ := Option.isSome_iff_exists.mp h
  obtain ⟨hd, -⟩ := Option.filter_eq_some_iff.mp hd
  unfold hexDigit? at hd
  split_ifs at hd with h0 h1 h2
  · exact isLiteral_of_range (by decide) (by decide) h0
  · exact isLiteral_of_range (by decide) (by decide) h1
  · exact isLiteral_of_range (by decide) (by decide) h2

theorem isLiteral_of_baseOf {base : ℕ} {c : Char} (h : baseOf c = some base) :
    isLiteral c = true := by
  unfold baseOf at h
  split_ifs at h with hx ho hb
  · rcases hx with rfl | rfl <;> rfl
  · rcases ho with rfl | rfl <;> rfl
  · rcases hb with rfl | rfl <;> rfl

theorem isPlain_infinity (s : Sign) : ∀ c ∈ (Literal.infinity s).text, IsPlain c := by
  intro c hc
  rcases List.mem_append.mp hc with hsign | hletter
  · exact isPlain_sign s c hsign
  · simp only [infinityText, List.mem_cons, List.not_mem_nil, or_false] at hletter
    rcases hletter with rfl | rfl | rfl | rfl | rfl | rfl | rfl | rfl <;> exact ⟨rfl, rfl⟩

theorem isPlain_signed (s : Sign) (h : n.WellFormed) :
    ∀ c ∈ (Literal.numeral s n).text, IsPlain c := by
  intro c hc
  rcases List.mem_append.mp hc with hsign | hnumeral
  · exact isPlain_sign s c hsign
  · exact isPlain_numeral h c hnumeral

theorem isLiteral_literal (h : l.WellFormed) : ∀ c ∈ l.text, isLiteral c = true := by
  cases l with
  | blank => nofun
  | based marker digits =>
    obtain ⟨base, hbase, -, hdigits⟩ := h
    intro c hc
    rcases List.mem_cons.mp hc with rfl | hc
    · rfl
    rcases List.mem_cons.mp hc with rfl | hc
    · exact isLiteral_of_baseOf hbase
    · exact isLiteral_of_isDigitOf (hdigits c hc)
  | infinity s => exact fun c hc => (isPlain_infinity s c hc).2
  | numeral s n => exact fun c hc => (isPlain_signed s h c hc).2

theorem readLiteral_eq_some : readLiteral text = some l ↔ l.WellFormed ∧ l.text = text := by
  constructor
  · intro h
    rw [readLiteral] at h
    split_ifs at h with hnil
    · cases h
      exact ⟨trivial, hnil.symm⟩
    · cases hbased : readBased text with
      | some l' =>
        rw [hbased] at h
        cases h
        obtain ⟨c, digits, hwf, rfl, rfl⟩ := readBased_eq_some.mp hbased
        exact ⟨hwf, rfl⟩
      | none =>
        rw [hbased] at h
        exact readSigned_sound h
  · rintro ⟨hwf, rfl⟩
    cases l with
    | blank => rfl
    | based c digits =>
      have hne : (Literal.based c digits).text ≠ [] := List.cons_ne_nil _ _
      have hread : readBased (Literal.based c digits).text = some (.based c digits) :=
        readBased_eq_some.mpr ⟨c, digits, hwf, rfl, rfl⟩
      rw [readLiteral, if_neg hne, hread]
      rfl
    | infinity s =>
      have hne : (Literal.infinity s).text ≠ [] :=
        List.append_ne_nil_of_right_ne_nil _ (List.cons_ne_nil _ _)
      rw [readLiteral, if_neg hne, readBased_of_isPlain (isPlain_infinity s)]
      exact readSigned_infinity s
    | numeral s n =>
      obtain ⟨c, rest, htext, -⟩ := head_numeral hwf
      have hne : (Literal.numeral s n).text ≠ [] := by
        rw [Literal.text, htext]
        exact List.append_ne_nil_of_right_ne_nil _ (List.cons_ne_nil _ _)
      rw [readLiteral, if_neg hne, readBased_of_isPlain (isPlain_signed s hwf)]
      exact readSigned_numeral s hwf

/-- What a text is read as is what it spells. -/
theorem number_eq_some : number text = some x ↔ Spells text x := by
  rw [number, Option.map_eq_some_iff]
  constructor
  · rintro ⟨l, hl, rfl⟩
    obtain ⟨hwf, htext⟩ := readLiteral_eq_some.mp hl
    obtain ⟨before, after, hsplit, hbefore, hafter⟩ := exists_trim isTrimmed text
    exact ⟨l, before, after, hwf, hbefore, hafter, by rw [htext, ← hsplit], rfl⟩
  · rintro ⟨l, before, after, hwf, hbefore, hafter, rfl, rfl⟩
    have htrimmed : ∀ c ∈ l.text, isTrimmed c = false := fun c hc =>
      isTrimmed_of_isLiteral (isLiteral_literal hwf c hc)
    refine ⟨l, ?_, rfl⟩
    rw [trim_padded hbefore hafter, trim_eq_self, readLiteral_eq_some]
    · exact ⟨hwf, rfl⟩
    · exact fun c hc => htrimmed c (List.mem_of_mem_head? hc)
    · exact fun c hc => htrimmed c (List.mem_of_mem_getLast? hc)

theorem Spells.eq (hx : Spells text x) (hy : Spells text y) : x = y := by
  rw [← number_eq_some] at hx hy
  rw [hx] at hy
  exact Option.some.inj hy

theorem Spells.comma_notMem (h : Spells text x) : ',' ∉ text := by
  obtain ⟨l, before, after, hwf, hbefore, hafter, rfl, -⟩ := h
  intro hmem
  rcases List.mem_append.mp hmem with hmem | hmem
  · rcases List.mem_append.mp hmem with hmem | hmem
    · exact absurd (hbefore _ hmem) (by decide)
    · exact absurd (isLiteral_literal hwf _ hmem) (by decide)
  · exact absurd (hafter _ hmem) (by decide)

theorem spells_nil : Spells [] (finite 0) :=
  ⟨.blank, [], [], trivial, nofun, nofun, rfl, rfl⟩

theorem spells_digits (hne : digits ≠ []) (hdigits : ∀ c ∈ digits, c.isDigit = true) :
    Spells digits (toDouble (digitsValue digits)) := by
  refine ⟨.numeral .none ⟨digits, none, none⟩, [], [], ⟨?_, ?_, nofun⟩, nofun, nofun, ?_, ?_⟩
  · simpa [Numeral.digits] using hne
  · simpa [Numeral.digits] using hdigits
  · simp [Literal.text, Sign.text, Numeral.text, fractionText, exponentText]
  · simp [Literal.value, Sign.value, Numeral.value, Numeral.digits, Numeral.power]

end Soundness

end NumberTexts
