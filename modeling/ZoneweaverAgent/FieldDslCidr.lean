import ZoneweaverAgent.FieldDslCoercions

/-!
# Prefix lengths

The field of type `cidr` splits its value at the slashes and converts what stands behind the first
one. A prefix length in digits is accepted as it should be, and so is every other text that spells
such a number.
-/

namespace ZoneweaverAgent.FieldDsl

open DecimalNumerals Doubles NumberTexts PathScan TextLines

section Split
variable {text a b : Text} {c : Char}

theorem splitOn_eq_pair : text.splitOn c = [a, b] ↔ text = a ++ c :: b ∧ c ∉ a ∧ c ∉ b := by
  constructor
  · intro h
    have hmem (line : Text) (hline : line ∈ [a, b]) : c ∉ line := by
      rw [← h] at hline
      exact notMem_of_mem_splitOn hline
    refine ⟨?_, hmem a (by simp), hmem b (by simp)⟩
    have hjoin : [c].intercalate (text.splitOn c) = text := List.intercalate_splitOn c
    rw [← hjoin, h, List.intercalate_cons_cons, List.intercalate_singleton]
    simp
  · rintro ⟨rfl, ha, hb⟩
    rw [List.splitOn_append_cons_self, List.splitOn_eq_singleton ha, List.splitOn_eq_singleton hb]
    rfl

end Split

section Prefix
variable (isIP : String → ℕ)

def prefixCap (version : ℕ) : ℕ := if version = 6 then 128 else 32

def IsDigits (text : Text) : Prop := text ≠ [] ∧ ∀ c ∈ text, c.isDigit = true

instance : DecidablePred IsDigits := fun text =>
  decidable_of_iff (text ≠ [] ∧ text.all Char.isDigit = true)
    (and_congr_right fun _ => List.all_eq_true)

/-- `<address>/<prefix>`, the prefix length in decimal digits. -/
def IsCidr (value : Text) : Prop :=
  ∃ address digits, value = address ++ '/' :: digits ∧ IsDigits digits ∧
    (isIP (String.ofList address) = 4 ∧ digitsValue digits ≤ 32 ∨
      isIP (String.ofList address) = 6 ∧ digitsValue digits ≤ 128)

/-- Behind an address and the only slash stands no run of digits, but nothing or blanks, or a
literal with blanks around it, a sign, a base, a point or an exponent, that spells an integer up to
the cap. -/
def Respells (value : Text) : Prop :=
  ∃ address behind, value = address ++ '/' :: behind ∧ '/' ∉ behind ∧
    isIP (String.ofList address) ≠ 0 ∧ ¬IsDigits behind ∧
    ∃ n ≤ prefixCap (isIP (String.ofList address)), Spells behind (finite n)

/-- What is relied on of `net.isIP`. -/
structure ChecksAddresses : Prop where
  versions : ∀ text, isIP text = 0 ∨ isIP text = 4 ∨ isIP text = 6
  slashless : ∀ text, isIP text ≠ 0 → '/' ∉ text.toList

/-- The built-in conversions, with the address check and the regular expressions as given. -/
def environment (regExpError : Json → Option String) (regExpTest : String → String → Bool) :
    AnswerEnvironment :=
  { conversions with regExpError, isIP, regExpTest }

end Prefix

section Acceptance
variable {isIP : String → ℕ} {regExpError : Json → Option String}
  {regExpTest : String → String → Bool} {field : Json} {value behind digits : Text} {cap : ℕ}

theorem isPrefixLength_iff :
    isPrefixLength (environment isIP regExpError regExpTest) (some (String.ofList behind)) cap ↔
      ∃ n ≤ cap, Spells behind (finite n) := by
  have hnumber : (environment isIP regExpError regExpTest).number
      (.value (.str (String.ofList behind))) = number behind := by
    change number (String.ofList behind).toList = number behind
    rw [String.toList_ofList]
  simp only [isPrefixLength, Option.any_some, List.any_eq_true, List.mem_range, decide_eq_true_eq,
    Nat.lt_succ_iff, hnumber]
  exact exists_congr fun n => and_congr_right fun _ => number_eq_some

/-- A run of digits spells the number it writes, also where the double nearest to that number is
another one. -/
theorem exists_spells_digits (hdigits : IsDigits digits) (hcap : cap < 2 ^ 53) :
    (∃ n ≤ cap, Spells digits (finite n)) ↔ digitsValue digits ≤ cap := by
  have hspells := spells_digits hdigits.1 hdigits.2
  constructor
  · rintro ⟨n, hn, hn'⟩
    rw [natCast_of_toDouble (hn.trans_lt hcap) (hspells.eq hn')]
    exact hn
  · intro hle
    rw [toDouble_natCast (hle.trans_lt hcap)] at hspells
    exact ⟨_, hle, hspells⟩

theorem stringTypeError_cidr (hfield : typeIs field "cidr" = true) :
    stringTypeError (environment isIP regExpError regExpTest) field (String.ofList value) = none ↔
      let parts := (value.splitOn '/').map String.ofList
      let version := isIP (parts.headD "")
      parts[2]? = none ∧ version ≠ 0 ∧
        isPrefixLength (environment isIP regExpError regExpTest) parts[1]? (prefixCap version) := by
  have htype := of_decide_eq_true hfield
  have hother {type : String} (hne : type ≠ "cidr") : typeIs field type = false := by
    rw [typeIs, htype, decide_eq_false_iff_not, Option.some.injEq, Json.str.injEq]
    exact hne.symm
  have hsplit : (String.ofList value).splitOn "/" = (value.splitOn '/').map String.ofList := by
    have hlist := string_splitOn '/' (String.ofList value)
    rwa [String.toList_ofList] at hlist
  rw [stringTypeError, hother (by decide), hother (by decide), hfield, hsplit]
  simp only [Bool.false_and, Bool.false_eq_true, if_false, if_true, ite_eq_right_iff,
    reduceCtorEq, imp_false, Bool.or_eq_true, Bool.not_eq_true', not_or, decide_eq_true_eq,
    Option.isSome_eq_false_iff, Bool.not_eq_false, Option.isNone_iff_eq_none, Bool.not_eq_true]
  exact and_assoc

/-- What the check accepts. -/
theorem cidr_check_eq_none (hfield : typeIs field "cidr" = true) :
    stringTypeError (environment isIP regExpError regExpTest) field (String.ofList value) = none ↔
      ∃ address behind, value = address ++ '/' :: behind ∧ '/' ∉ address ∧ '/' ∉ behind ∧
        isIP (String.ofList address) ≠ 0 ∧
        ∃ n ≤ prefixCap (isIP (String.ofList address)), Spells behind (finite n) := by
  rw [stringTypeError_cidr hfield]
  constructor
  · rintro ⟨htwo, hversion, hprefix⟩
    match hparts : value.splitOn '/' with
    | [] => exact absurd hparts (List.splitOn_ne_nil _ _)
    | [a] =>
      rw [hparts] at hprefix
      cases hprefix
    | [a, b] =>
      rw [hparts] at hversion hprefix
      obtain ⟨hvalue, ha, hb⟩ := splitOn_eq_pair.mp hparts
      exact ⟨a, b, hvalue, ha, hb, hversion, isPrefixLength_iff.mp hprefix⟩
    | a :: b :: c :: rest =>
      rw [hparts] at htwo
      cases htwo
  · rintro ⟨a, b, hvalue, ha, hb, hversion, hspells⟩
    rw [splitOn_eq_pair.mpr ⟨hvalue, ha, hb⟩]
    exact ⟨rfl, hversion, isPrefixLength_iff.mpr hspells⟩

theorem IsDigits.slashless (h : IsDigits digits) : '/' ∉ digits := fun hmem =>
  absurd (h.2 '/' hmem) (by decide)

theorem ChecksAddresses.slash_notMem (h : ChecksAddresses isIP) {address : Text}
    (hversion : isIP (String.ofList address) ≠ 0) : '/' ∉ address := by
  have hslash := h.slashless _ hversion
  rwa [String.toList_ofList] at hslash

/-- In terms of the address and what stands behind the slash. -/
theorem isCidr_iff (h : ChecksAddresses isIP) {address : Text}
    (hversion : isIP (String.ofList address) ≠ 0) :
    IsCidr isIP (address ++ '/' :: behind) ↔
      IsDigits behind ∧ digitsValue behind ≤ prefixCap (isIP (String.ofList address)) := by
  have haddress := h.slash_notMem hversion
  constructor
  · rintro ⟨address', digits, heq, hdigits, hcap⟩
    have hversion' : isIP (String.ofList address') ≠ 0 := by omega
    obtain ⟨rfl, rfl⟩ := append_cons_eq haddress (h.slash_notMem hversion') heq
    refine ⟨hdigits, ?_⟩
    rcases hcap with ⟨hfour, hle⟩ | ⟨hsix, hle⟩
    · rwa [hfour]
    · rwa [hsix]
  · rintro ⟨hdigits, hcap⟩
    refine ⟨address, behind, rfl, hdigits, ?_⟩
    rcases h.versions (String.ofList address) with hzero | hfour | hsix
    · exact absurd hzero hversion
    · rw [hfour] at hcap
      exact .inl ⟨hfour, hcap⟩
    · rw [hsix] at hcap
      exact .inr ⟨hsix, hcap⟩

theorem prefixCap_lt (version : ℕ) : prefixCap version < 2 ^ 53 := by
  unfold prefixCap
  split_ifs <;> norm_num

theorem cidr_accepted_iff (h : ChecksAddresses isIP) (hfield : typeIs field "cidr" = true)
    (value : String) :
    (stringTypeError (environment isIP regExpError regExpTest) field value = none ↔
      IsCidr isIP value.toList) ↔ ¬Respells isIP value.toList := by
  obtain ⟨text, rfl⟩ : ∃ text, value = String.ofList text := ⟨_, String.ofList_toList.symm⟩
  rw [String.toList_ofList, cidr_check_eq_none hfield]
  constructor
  · rintro hiff ⟨address, behind, rfl, hbehind, hversion, hnot, hspells⟩
    have haddress := h.slash_notMem hversion
    have hcidr := hiff.mp ⟨address, behind, rfl, haddress, hbehind, hversion, hspells⟩
    exact hnot ((isCidr_iff h hversion).mp hcidr).1
  · intro hnot
    constructor
    · rintro ⟨address, behind, rfl, -, hbehind, hversion, hspells⟩
      by_cases hdigits : IsDigits behind
      · have hcap := (exists_spells_digits hdigits (prefixCap_lt _)).mp hspells
        exact (isCidr_iff h hversion).mpr ⟨hdigits, hcap⟩
      · exact absurd ⟨address, behind, rfl, hbehind, hversion, hdigits, hspells⟩ hnot
    · intro hcidr
      obtain ⟨address, digits, rfl, hdigits, hversions⟩ := hcidr
      have hversion : isIP (String.ofList address) ≠ 0 := by omega
      have hcap := ((isCidr_iff h hversion).mp ⟨address, digits, rfl, hdigits, hversions⟩).2
      exact ⟨address, digits, rfl, h.slash_notMem hversion, hdigits.slashless, hversion,
        (exists_spells_digits hdigits (prefixCap_lt _)).mpr hcap⟩

/-- An address check that knows one address. -/
def isSample (text : String) : ℕ := if text = "10.0.0.0" then 4 else 0

theorem checksAddresses_isSample : ChecksAddresses isSample := by
  refine ⟨fun text => ?_, fun text h => ?_⟩
  · unfold isSample
    split_ifs
    · exact .inr (.inl rfl)
    · exact .inl rfl
  · unfold isSample at h
    split_ifs at h with htext
    · rw [htext]
      decide
    · exact absurd rfl h

def sampleEnvironment : AnswerEnvironment :=
  environment isSample (fun _ => none) fun _ _ => true

def cidrField : Json := .obj [("type", .str "cidr")]

theorem cidr_accepted_sample :
    ChecksAddresses isSample ∧ typeIs cidrField "cidr" = true ∧
      ((stringTypeError sampleEnvironment cidrField "10.0.0.0/8" = none ↔
        IsCidr isSample "10.0.0.0/8".toList) ↔ ¬Respells isSample "10.0.0.0/8".toList) :=
  ⟨checksAddresses_isSample, by decide, cidr_accepted_iff checksAddresses_isSample (by decide) _⟩

def WronglyAccepted (value : String) : Prop :=
  stringTypeError sampleEnvironment cidrField value = none ∧ ¬IsCidr isSample value.toList

theorem wronglyAccepted (behind : Text) (n : ℕ) (hn : n ≤ 32)
    (hnumber : number behind = some (finite n)) (hslash : '/' ∉ behind)
    (hdigits : ¬IsDigits behind) :
    WronglyAccepted
      (String.ofList (['1', '0', '.', '0', '.', '0', '.', '0'] ++ '/' :: behind)) := by
  have hversion : isSample (String.ofList ['1', '0', '.', '0', '.', '0', '.', '0']) = 4 := by decide
  have hne : isSample (String.ofList ['1', '0', '.', '0', '.', '0', '.', '0']) ≠ 0 := by
    rw [hversion]
    decide
  refine ⟨?_, ?_⟩
  · rw [sampleEnvironment, cidr_check_eq_none (by decide)]
    refine ⟨_, behind, rfl, by decide, hslash, hne, n, ?_, number_eq_some.mp hnumber⟩
    rw [hversion]
    exact hn
  · rw [String.toList_ofList, isCidr_iff checksAddresses_isSample hne]
    exact fun h => hdigits h.1

/-- Without a digit, between blanks, signed, in base sixteen and with an exponent. -/
theorem not_cidr_accepted :
    WronglyAccepted "10.0.0.0/" ∧ WronglyAccepted "10.0.0.0/ 8 " ∧ WronglyAccepted "10.0.0.0/+8" ∧
      WronglyAccepted "10.0.0.0/0x8" ∧ WronglyAccepted "10.0.0.0/1e1" := by
  refine ⟨?_, ?_, ?_, ?_, ?_⟩
  · exact wronglyAccepted [] 0 (by decide) (by decide +kernel) (by decide) (by decide)
  · exact wronglyAccepted [' ', '8', ' '] 8 (by decide) (by decide +kernel) (by decide) (by decide)
  · exact wronglyAccepted ['+', '8'] 8 (by decide) (by decide +kernel) (by decide) (by decide)
  · exact wronglyAccepted ['0', 'x', '8'] 8 (by decide) (by decide +kernel) (by decide) (by decide)
  · exact wronglyAccepted ['1', 'e', '1'] 10 (by decide) (by decide +kernel) (by decide) (by decide)

end Acceptance

end ZoneweaverAgent.FieldDsl
