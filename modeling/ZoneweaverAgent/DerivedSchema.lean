import Mathlib.Algebra.Order.Ring.Rat
import Mathlib.Data.Nat.Cast.Order.Ring
import ZoneweaverAgent.FieldDslValidate
import ZoneweaverAgent.FieldNoninterference
import ZoneweaverAgent.JsonSchema

/-!
# The derived schema and the validator

For an accepted configuration and answers without errors, what else the derived schema asks of the
answers. Where the validator has looked at a value, the two differ in four types of fields and in
how characters are counted; where it has not, the value has to fit the field.
-/

namespace ZoneweaverAgent.FieldDsl

open JsonSchema (Formats boundsNumber boundsLength onTexts isLength isHostname)

/-- What the parameters of the two sides have to do with each other: the regular expressions are the
same, the address formats are those of `net.isIP` without zone identifiers. -/
structure FormatsAgree (env : AnswerEnvironment) (formats : Formats) : Prop where
  search : ∀ pattern text, formats.search pattern text = env.regExpTest pattern text
  ipv4 : ∀ text, formats.ipv4 text = true ↔ env.isIP text = 4
  ipv6 : ∀ text, formats.ipv6 text = true ↔ env.isIP text = 6 ∧ '%' ∉ text.toList
  number : ∀ q, env.number (.value (.num q)) = some (finite q)
  numberFalsy : ∀ value : Json, value.truthy = false → env.number (.value value) = some (finite 0)
  numberUndefined : env.number .undefined = none

/-! ## What a field asks of a value -/

/-- A rule that is there satisfies the predicate. -/
def ruleHolds (field : Json) (rule : String) (p : Json → Bool) : Bool := (ruleOf field rule).all p

section Fits
variable (env : AnswerEnvironment) (formats : Formats)

def isVersion6 (field : Json) : Bool :=
  env.number (operandOf (field.field "version")) = some (finite 6)

/-- The rules of a text field, with the characters counted as code points. -/
def fitsText (field : Json) (text : String) : Bool :=
  (!typeIs field "fqdn" || isHostname text) &&
    (!typeIs field "ipaddr" || (if isVersion6 env field then formats.ipv6 text
      else formats.ipv4 text)) &&
    ruleHolds field "min_length" (boundsLength (fun bound q => bound ≤ q) · (.str text)) &&
    ruleHolds field "max_length" (boundsLength (fun bound q => q ≤ bound) · (.str text)) &&
    ruleHolds field "pattern" (onTexts formats.search · (.str text))

def isOption (values : List Json) (value : Json) : Bool := values.any (JsonSchema.same · value)

/-- A value of the type of the field, within its options and its bounds. -/
def fits (field value : Json) : Bool :=
  if typeIs field "number" then
    value.isNum && ruleHolds field "min" (boundsNumber (fun bound q => bound ≤ q) · value) &&
      ruleHolds field "max" (boundsNumber (fun bound q => q ≤ bound) · value)
  else if typeIs field "checkbox" then value.isBool
  else if typeIs field "multiselect" then
    match value with
    | .arr entries =>
      entries.all fun entry => (optionValues field).elim entry.text?.isSome (isOption · entry)
    | _ => false
  else if typeIs field "select" && (optionValues field).isSome then
    (optionValues field).any (isOption · value)
  else value.text?.any (fitsText env formats field)

/-- What the validator leaves open of a text. -/
def agreesText (field : Json) (text : String) : Bool :=
  (!typeIs field "fqdn" || text.toList.all fun c => c ≠ 'ſ' && c ≠ '\u212a') &&
    (!typeIs field "ipaddr" || (if isVersion6 env field then '%' ∉ text.toList
      else env.isIP text = 4)) &&
    ruleHolds field "min_length" (boundsLength (fun bound q => bound ≤ q) · (.str text))

/-- What the validator leaves open of a value it has looked at: a choice from a live source is a
text, an address without a version is an IPv4 address and one of version 6 has no zone identifier,
a host name is ASCII, and a lower bound on the length counts code points. -/
def agrees (field value : Json) : Bool :=
  if typeIs field "number" || typeIs field "checkbox" then true
  else if typeIs field "multiselect" then
    (optionValues field).isSome || ((value.items?.getD []).all (·.text?.isSome))
  else if typeIs field "select" && (optionValues field).isSome then true
  else value.text?.any (agreesText env field)

/-- The rules of a field are of the kinds that JSON Schema demands of its keywords. -/
def wellTyped (field : Json) : Bool :=
  if typeIs field "number" then
    ruleHolds field "min" Json.isNum && ruleHolds field "max" Json.isNum
  else if typeIs field "checkbox" || typeIs field "multiselect" ||
      (typeIs field "select" && (optionValues field).isSome) then true
  else ruleHolds field "min_length" isLength && ruleHolds field "max_length" isLength &&
    ruleHolds field "pattern" (·.text?.isSome)

end Fits

/-! ## The schema of one field -/

section FieldSchema
variable {env : AnswerEnvironment} {formats : Formats}

theorem all_keywordOf (p : String × Json → Bool) (key : String) (value : Option Json) :
    (keywordOf key value).all p = value.all fun v => p (key, v) := by
  cases value <;> simp [keywordOf]

theorem typeIs_unique {field : Json} {type type' : String} (h : typeIs field type = true)
    (hne : type ≠ type') : typeIs field type' = false := by
  unfold typeIs at h ⊢
  rw [decide_eq_true_eq] at h
  simp [h, hne]

theorem annotations_hold (declared : List String) (field value : Json) :
    (annotations field).all (JsonSchema.keywordHolds formats declared value) = true := by
  have htitle (v : Json) : JsonSchema.keywordHolds formats declared value ("title", v) = true := rfl
  have hhelp (v : Json) :
      JsonSchema.keywordHolds formats declared value ("description", v) = true := rfl
  have hdefault (v : Json) :
      JsonSchema.keywordHolds formats declared value ("default", v) = true := rfl
  simp only [annotations, List.all_append, all_keywordOf, htitle, hhelp, hdefault]
  simp

theorem annotations_formed (field : Json) :
    (annotations field).all JsonSchema.keywordFormed = true := by
  have htitle (v : Json) : JsonSchema.keywordFormed ("title", v) = true := rfl
  have hhelp (v : Json) : JsonSchema.keywordFormed ("description", v) = true := rfl
  have hdefault (v : Json) : JsonSchema.keywordFormed ("default", v) = true := rfl
  simp only [annotations, List.all_append, all_keywordOf, htitle, hhelp, hdefault]
  simp

theorem stringKeywords_hold (declared : List String) (field value : Json) :
    (stringKeywords env.toCoercions field).all (JsonSchema.keywordHolds formats declared value) =
      value.text?.any (fitsText env formats field) := by
  unfold stringKeywords
  simp only [List.all_append, all_keywordOf, List.all_cons, List.all_nil, Bool.and_true]
  cases value with
  | str text =>
    have htype : JsonSchema.keywordHolds formats declared (.str text) ("type", .str "string") =
        true := rfl
    have hwrite : ((if typeIs field "password" then [("writeOnly", Json.bool true)] else []).all
        (JsonSchema.keywordHolds formats declared (.str text))) = true := by
      split_ifs <;> rfl
    have hhostname : ((if typeIs field "fqdn" then [("format", Json.str "hostname")] else []).all
        (JsonSchema.keywordHolds formats declared (.str text))) =
        (!typeIs field "fqdn" || isHostname text) := by
      cases typeIs field "fqdn" with
      | false => rfl
      | true => exact Bool.and_true _
    have haddress : ((if typeIs field "ipaddr" then [("format", Json.str
        (if env.number (operandOf (field.field "version")) = some (finite 6)
          then "ipv6" else "ipv4"))] else []).all
        (JsonSchema.keywordHolds formats declared (.str text))) =
        (!typeIs field "ipaddr" || (if isVersion6 env field then formats.ipv6 text
          else formats.ipv4 text)) := by
      unfold isVersion6
      cases typeIs field "ipaddr" with
      | false => rfl
      | true =>
        by_cases hversion : env.number (operandOf (field.field "version")) = some (finite 6)
        · simp only [hversion, decide_true, if_true]
          exact Bool.and_true _
        · simp only [hversion, decide_false, if_true, if_false]
          exact Bool.and_true _
    rw [htype, hwrite, hhostname, haddress]
    rfl
  | _ => rfl

theorem items_hold (field entry : Json) :
    JsonSchema.validates formats ((optionValues field).elim (.obj [("type", .str "string")])
      fun values => .obj [("enum", .arr values)]) entry =
    (optionValues field).elim entry.text?.isSome (isOption · entry) := by
  cases optionValues field with
  | none =>
    simp only [Option.elim_none, JsonSchema.validates, JsonSchema.keywords_eq, List.all_cons,
      List.all_nil, Bool.and_true]
    cases entry <;> rfl
  | some values =>
    simp only [Option.elim_some, JsonSchema.validates, JsonSchema.keywords_eq, List.all_cons,
      List.all_nil, Bool.and_true]
    rfl

theorem typeKeywords_hold (declared : List String) (field value : Json) :
    (typeKeywords env.toCoercions field).all (JsonSchema.keywordHolds formats declared value) =
      fits env formats field value := by
  unfold typeKeywords fits
  split_ifs with hnumber hcheckbox hmulti hselect hsource hsource
  · simp only [List.all_append, all_keywordOf, List.all_cons, List.all_nil, Bool.and_true]
    cases value <;> rfl
  · cases value <;> rfl
  · simp only [List.all_cons, List.all_nil, Bool.and_true]
    cases value with
    | arr entries =>
      have htype : JsonSchema.keywordHolds formats declared (.arr entries) ("type", .str "array") =
          true := rfl
      rw [htype, Bool.true_and]
      unfold JsonSchema.keywordHolds
      simp only [if_true, JsonSchema.itemsOf, items_hold]
    | _ => rfl
  · rw [Bool.and_eq_true, Option.isSome_iff_exists] at hsource
    obtain ⟨values, hvalues⟩ := hsource.2
    simp only [hvalues, List.all_cons, List.all_nil, Bool.and_true, Option.any_some]
    rfl
  · have hnone : optionValues field = none := by simpa [hselect] using hsource
    simp only [hnone]
    exact stringKeywords_hold declared field value
  · exact absurd (Bool.and_eq_true _ _ ▸ hsource).1 hselect
  · exact stringKeywords_hold declared field value

theorem stringKeywords_formed (field : Json) :
    (stringKeywords env.toCoercions field).all JsonSchema.keywordFormed =
      (ruleHolds field "min_length" isLength && ruleHolds field "max_length" isLength &&
        ruleHolds field "pattern" (·.text?.isSome)) := by
  unfold stringKeywords
  simp only [List.all_append, all_keywordOf, List.all_cons, List.all_nil, Bool.and_true]
  have hwrite : ((if typeIs field "password" then [("writeOnly", Json.bool true)] else []).all
      JsonSchema.keywordFormed) = true := by
    split_ifs <;> rfl
  have hhostname : ((if typeIs field "fqdn" then [("format", Json.str "hostname")] else []).all
      JsonSchema.keywordFormed) = true := by
    split_ifs <;> rfl
  have haddress : ∀ name : String, ((if typeIs field "ipaddr" then [("format", Json.str name)]
      else []).all JsonSchema.keywordFormed) = true := by
    intro name
    split_ifs <;> rfl
  rw [hwrite, hhostname, haddress]
  rfl

theorem typeKeywords_formed (field : Json) :
    (typeKeywords env.toCoercions field).all JsonSchema.keywordFormed = wellTyped field := by
  unfold typeKeywords wellTyped
  by_cases hnumber : typeIs field "number" = true
  · simp only [hnumber, if_true, List.all_append, all_keywordOf, List.all_cons, List.all_nil,
      Bool.and_true]
    rfl
  · by_cases hcheckbox : typeIs field "checkbox" = true
    · simp only [hnumber, hcheckbox, if_true, Bool.true_or]
      rfl
    · by_cases hmulti : typeIs field "multiselect" = true
      · simp only [hnumber, hcheckbox, hmulti, if_true, if_false, Bool.or_true, Bool.true_or,
          List.all_cons, List.all_nil, Bool.and_true, Bool.false_eq_true]
        cases optionValues field <;> rfl
      · by_cases hselect : typeIs field "select" = true
        · cases hvalues : optionValues field with
          | none =>
            simp only [hnumber, hcheckbox, hmulti, hselect, Option.isSome_none, Bool.and_false,
              Bool.or_false, Bool.false_eq_true, if_true, if_false]
            exact stringKeywords_formed field
          | some values =>
            simp only [hnumber, hcheckbox, hmulti, hselect, Option.isSome_some, Bool.and_true,
              Bool.or_true, Bool.false_eq_true, if_true, if_false]
            rfl
        · simp only [hnumber, hcheckbox, hmulti, hselect, Bool.false_and, Bool.or_false,
            Bool.false_eq_true, if_false]
          exact stringKeywords_formed field

/-- The schema of a field is one where the rules are of the right kinds, and asks for what fits. -/
theorem isSchema_schemaForField (field : Json) :
    JsonSchema.isSchema (schemaForField env.toCoercions field) = wellTyped field := by
  simp only [schemaForField, JsonSchema.isSchema, JsonSchema.keywordsFormed_eq, List.all_append,
    annotations_formed, typeKeywords_formed, Bool.true_and]

theorem validates_schemaForField (field value : Json) :
    JsonSchema.validates formats (schemaForField env.toCoercions field) value =
      fits env formats field value := by
  simp only [schemaForField, JsonSchema.validates, JsonSchema.keywords_eq, List.all_append,
    annotations_hold, typeKeywords_hold, Bool.true_and]

end FieldSchema

/-! ## What the validator has checked -/

section Checked
variable {env : AnswerEnvironment} {formats : Formats}

theorem any_below (hformats : FormatsAgree env formats) {rule : Option Json} (q : ℚ)
    (h : rule.all Json.isNum = true) :
    rule.any (below env q) = !rule.all (boundsNumber (fun bound q => bound ≤ q) · (.num q)) := by
  cases rule with
  | none => rfl
  | some bound =>
    cases bound with
    | num b => simp [below, hformats.number, boundsNumber, finite, ← not_le]
    | _ => cases h

theorem any_above (hformats : FormatsAgree env formats) {rule : Option Json} (q : ℚ)
    (h : rule.all Json.isNum = true) :
    rule.any (above env q) = !rule.all (boundsNumber (fun bound q => q ≤ bound) · (.num q)) := by
  cases rule with
  | none => rfl
  | some bound =>
    cases bound with
    | num b => simp [above, hformats.number, boundsNumber, finite, ← not_le]
    | _ => cases h

theorem length_le_utf16Length (text : String) : text.length ≤ utf16Length text := by
  unfold utf16Length
  rw [← String.length_toList]
  induction text.toList with
  | nil => exact Nat.le_refl 0
  | cons c rest ih =>
    rw [List.length_cons, List.map_cons, List.sum_cons]
    have hone : 1 ≤ if c.toNat < 0x10000 then 1 else 2 := by split_ifs <;> omega
    omega

theorem isNum_of_isLength {value : Json} (h : isLength value = true) : value.isNum = true := by
  cases value with
  | num q => rfl
  | _ => cases h

/-- An upper bound in UTF-16 units is one in code points. -/
theorem maxLength_holds (hformats : FormatsAgree env formats) {rule : Option Json} {text : String}
    (hrule : rule.all isLength = true) (h : rule.any (above env (utf16Length text)) = false) :
    rule.all (boundsLength (fun bound q => q ≤ bound) · (.str text)) = true := by
  cases rule with
  | none => rfl
  | some bound =>
    have hnum : (some bound).all Json.isNum = true := isNum_of_isLength hrule
    rw [any_above hformats _ hnum, Bool.not_eq_false'] at h
    cases bound with
    | num b =>
      have hle : (utf16Length text : ℚ) ≤ b := by simpa [boundsNumber] using h
      have hlength : (text.length : ℚ) ≤ utf16Length text :=
        Nat.cast_le.mpr (length_le_utf16Length text)
      simpa [boundsLength] using hlength.trans hle
    | _ => cases hnum

theorem pattern_holds (hformats : FormatsAgree env formats) {rule : Option Json} {text : String}
    (hrule : rule.all (·.text?.isSome) = true)
    (h : rule.any (fun pattern => !env.regExpTest (propertyKey env.toCoercions pattern) text) =
      false) :
    rule.all (onTexts formats.search · (.str text)) = true := by
  cases rule with
  | none => rfl
  | some pattern =>
    cases pattern with
    | str p => simpa [propertyKey, onTexts, hformats.search] using h
    | _ => cases hrule

theorem forall_splitOn {P : Char → Prop} (text : List Char) (hdot : P '.') :
    (∀ label ∈ text.splitOn '.', ∀ c ∈ label, P c) ↔ ∀ c ∈ text, P c := by
  induction text with
  | nil => simp
  | cons c rest ih =>
    rw [List.splitOn_cons_eq_if_modifyHead, List.forall_mem_cons, ← ih]
    by_cases hc : c = '.'
    · subst hc
      simp [hdot]
    · obtain ⟨first, labels, hsplit⟩ := List.exists_cons_of_ne_nil
        (List.splitOn_ne_nil '.' rest)
      simp [hc, hsplit, and_assoc]

theorem isHostnameChar_iff {c : Char} (h : isFqdnAlphanumeric c = true ∨ c = '-') :
    JsonSchema.isHostnameChar c = true ↔ c ≠ 'ſ' ∧ c ≠ '\u212a' := by
  unfold isFqdnAlphanumeric isLetter at h
  unfold JsonSchema.isHostnameChar
  by_cases hlong : c = 'ſ'
  · subst hlong
    decide
  · by_cases hkelvin : c = '\u212a'
    · subst hkelvin
      decide
    · simp only [beq_eq_false_iff_ne.mpr hlong, beq_eq_false_iff_ne.mpr hkelvin, Bool.or_false,
        Bool.or_eq_true, Bool.and_eq_true, decide_eq_true_eq, beq_iff_eq] at h ⊢
      exact ⟨fun _ => ⟨hlong, hkelvin⟩, fun _ => by tauto⟩

/-- A domain name is a host name where it does without the two letters that fold to ASCII. -/
theorem isHostname_of_isFqdn {text : String} (h : isFqdn text = true) :
    isHostname text = text.toList.all fun c => c ≠ 'ſ' && c ≠ '\u212a' := by
  unfold isFqdn at h
  simp only [Bool.and_eq_true, decide_eq_true_eq, List.all_eq_true] at h
  obtain ⟨⟨hlength, -⟩, hlabels⟩ := h
  have hchars : (∀ label ∈ text.toList.splitOn '.', ∀ c ∈ label, c ≠ 'ſ' ∧ c ≠ '\u212a') ↔
      ∀ c ∈ text.toList, c ≠ 'ſ' ∧ c ≠ '\u212a' :=
    forall_splitOn text.toList (by decide)
  rw [Bool.eq_iff_iff]
  simp only [isHostname, hlength, decide_true, Bool.true_and, List.all_eq_true, Bool.and_eq_true,
    decide_eq_true_eq]
  rw [← hchars]
  apply forall₂_congr
  intro label hlabel
  have hlabel := hlabels label hlabel
  simp only [isFqdnLabel, JsonSchema.isHostnameLabel, Bool.and_eq_true, decide_eq_true_eq,
    List.all_eq_true, Bool.or_eq_true, beq_iff_eq] at hlabel ⊢
  obtain ⟨⟨⟨⟨hmin, hmax⟩, hall⟩, hhead⟩, hlast⟩ := hlabel
  have hsame : (∀ c ∈ label, JsonSchema.isHostnameChar c = true) ↔
      ∀ c ∈ label, c ≠ 'ſ' ∧ c ≠ '\u212a' :=
    forall₂_congr fun c hc => isHostnameChar_iff (hall c hc)
  rw [← hsame]
  exact ⟨fun hhost => hhost.1.1.2, fun hhost => ⟨⟨⟨⟨hmin, hmax⟩, hhost⟩, hhead⟩, hlast⟩⟩

/-- The two address formats are told apart by the version that `net.isIP` gives. -/
theorem address_agrees (hformats : FormatsAgree env formats) {field : Json} {text : String}
    (h : (field.field "version").any (fun version => version.truthy &&
      env.number (.value version) ≠ some (finite (env.isIP text))) = false) :
    (if isVersion6 env field then formats.ipv6 text else formats.ipv4 text) =
      (if isVersion6 env field then decide ('%' ∉ text.toList) else decide (env.isIP text = 4)) := by
  have hipv4 : formats.ipv4 text = decide (env.isIP text = 4) := by
    rw [Bool.eq_iff_iff, decide_eq_true_eq]
    exact hformats.ipv4 text
  rw [hipv4]
  by_cases hsix : isVersion6 env field = true
  · rw [if_pos hsix, if_pos hsix, Bool.eq_iff_iff, decide_eq_true_eq, hformats.ipv6]
    unfold isVersion6 at hsix
    rw [decide_eq_true_eq] at hsix
    cases hfield : field.field "version" with
    | none =>
      rw [hfield, operandOf, hformats.numberUndefined] at hsix
      cases hsix
    | some version =>
      rw [hfield] at h hsix
      rw [operandOf] at hsix
      have htruthy : version.truthy = true := by
        by_contra hfalsy
        rw [hformats.numberFalsy version (by simpa using hfalsy)] at hsix
        revert hsix
        decide
      rw [Option.any_some, htruthy, Bool.true_and, hsix, decide_eq_false_iff_not, not_not] at h
      have hip : env.isIP text = 6 := by
        have hfinite : finite 6 = finite (env.isIP text) := Option.some.inj h
        simp only [finite, WithBot.coe_inj, WithTop.coe_inj] at hfinite
        exact_mod_cast hfinite.symm
      simp [hip]
  · rw [if_neg hsix, if_neg hsix]

theorem stringTypeError_eq_none {field : Json} {text : String}
    (h : stringTypeError env field text = none) :
    (typeIs field "fqdn" = true → isFqdn text = true) ∧
      (typeIs field "ipaddr" = true → (field.field "version").any (fun version =>
        version.truthy && env.number (.value version) ≠ some (finite (env.isIP text))) = false) := by
  unfold stringTypeError at h
  split_ifs at h with hfqdn hip hversion
  all_goals
    constructor
    · intro htype
      simpa [htype] using hfqdn
    · intro htype
      rw [htype, Bool.true_and] at hversion
      exact Bool.eq_false_iff.mpr hversion

theorem stringRuleError_eq_none {field : Json} {text : String}
    (h : stringRuleError env field text = none) :
    (ruleOf field "max_length").any (above env (utf16Length text)) = false ∧
      (ruleOf field "pattern").any (fun pattern =>
        !env.regExpTest (propertyKey env.toCoercions pattern) text) = false := by
  unfold stringRuleError at h
  split_ifs at h with hmin hmax hpattern
  · cases hmessage : ruleOf field "pattern_error" with
    | none => simp [hmessage] at h
    | some message =>
      simp only [hmessage] at h
      split_ifs at h
  · exact ⟨Bool.eq_false_iff.mpr hmax, Bool.eq_false_iff.mpr hpattern⟩

theorem text_agrees (hformats : FormatsAgree env formats) {field : Json} {text : String}
    (hmax : ruleHolds field "max_length" isLength = true)
    (hpattern : ruleHolds field "pattern" (·.text?.isSome) = true)
    (htype : stringTypeError env field text = none)
    (hrule : stringRuleError env field text = none) :
    fitsText env formats field text = agreesText env field text := by
  obtain ⟨hfqdn, hversion⟩ := stringTypeError_eq_none htype
  obtain ⟨habove, hsearch⟩ := stringRuleError_eq_none hrule
  have hlength : ruleHolds field "max_length"
      (boundsLength (fun bound q => q ≤ bound) · (.str text)) = true :=
    maxLength_holds hformats hmax habove
  have hsearched : ruleHolds field "pattern" (onTexts formats.search · (.str text)) = true :=
    pattern_holds hformats hpattern hsearch
  have hname : (!typeIs field "fqdn" || isHostname text) =
      (!typeIs field "fqdn" || text.toList.all fun c => c ≠ 'ſ' && c ≠ '\u212a') := by
    cases hcase : typeIs field "fqdn" with
    | false => rfl
    | true => rw [isHostname_of_isFqdn (hfqdn hcase)]
  have haddress : (!typeIs field "ipaddr" || (if isVersion6 env field then formats.ipv6 text
        else formats.ipv4 text)) =
      (!typeIs field "ipaddr" || (if isVersion6 env field then decide ('%' ∉ text.toList)
        else decide (env.isIP text = 4))) := by
    cases hcase : typeIs field "ipaddr" with
    | false => rfl
    | true => rw [address_agrees hformats (hversion hcase)]
  unfold fitsText agreesText
  rw [hname, haddress, hlength, hsearched, Bool.and_true, Bool.and_true]

theorem numberRuleError_eq_none {field : Json} {q : ℚ} (h : numberRuleError env field q = none) :
    (ruleOf field "min").any (below env q) = false ∧
      (ruleOf field "max").any (above env q) = false := by
  unfold numberRuleError at h
  split_ifs at h with hmin hmax
  exact ⟨Bool.eq_false_iff.mpr hmin, Bool.eq_false_iff.mpr hmax⟩

/-- Strictly equal values are equal instances. -/
theorem isOption_of_includes {values : List Json} {value : Json}
    (h : includes values value = true) : isOption values value = true := by
  unfold includes at h
  unfold isOption
  rw [List.any_eq_true] at h ⊢
  obtain ⟨v, hv, hequal⟩ := h
  refine ⟨v, hv, ?_⟩
  cases v with
  | arr items => cases hequal
  | obj entries => cases hequal
  | _ =>
    have heq : some _ = some value := of_decide_eq_true hequal
    rw [← Option.some.inj heq]
    exact JsonSchema.same_self_of_not_object rfl

theorem multiselect_checked {field value : Json} (hmulti : typeIs field "multiselect" = true)
    (h : optionTypeError env field (.value value) = none) :
    ∃ entries, value = .arr entries ∧ ∀ values, optionValues field = some values →
      ∀ entry ∈ entries, includes values entry = true := by
  simp only [optionTypeError, hmulti, if_true] at h
  cases value with
  | arr entries =>
    refine ⟨entries, rfl, fun values hvalues entry hentry => ?_⟩
    simp only [hvalues, Option.bind_some, Option.map_eq_none_iff] at h
    simpa using List.find?_eq_none.mp h entry hentry
  | _ => cases h

theorem select_checked {field value : Json} (hmulti : typeIs field "multiselect" = false)
    (h : optionTypeError env field (.value value) = none) :
    (value.text?.isSome ∨ value.isNum) ∧ ∀ values, optionValues field = some values →
      includes values value = true := by
  simp only [optionTypeError, hmulti, Bool.false_eq_true, if_false] at h
  split_ifs at h with hoffered
  rw [Bool.not_eq_true', Bool.not_eq_false] at hoffered
  constructor
  · cases value with
    | str text => exact Or.inl rfl
    | num q => exact Or.inr rfl
    | _ => cases h
  · intro values hvalues
    rw [hvalues] at hoffered
    exact hoffered

/-- A value that the validator has looked at fits exactly where the two sides agree. -/
theorem fits_iff_agrees (hformats : FormatsAgree env formats) {field value : Json}
    (htyped : ∃ type ∈ fieldTypes, field.field "type" = some (.str type))
    (hwell : wellTyped field = true) (hblank : isBlankOperand (.value value) = false)
    (htype : typeError env field (.value value) = none)
    (hrule : validateRuleError env field (.value value) = none) :
    fits env formats field value = agrees env field value := by
  unfold typeError at htype
  unfold validateRuleError at hrule
  simp only [hblank, Bool.false_eq_true, if_false] at htype hrule
  unfold fits agrees
  unfold wellTyped at hwell
  by_cases hnumber : typeIs field "number" = true
  · simp only [hnumber, if_true] at htype hwell
    simp only [hnumber, if_true, Bool.true_or]
    cases value with
    | num q =>
      obtain ⟨hbelow, habove⟩ := numberRuleError_eq_none hrule
      obtain ⟨hmin, hmax⟩ := Bool.and_eq_true_iff.mp hwell
      rw [any_below hformats q hmin, Bool.not_eq_false'] at hbelow
      rw [any_above hformats q hmax, Bool.not_eq_false'] at habove
      unfold ruleHolds
      rw [hbelow, habove]
      rfl
    | _ => cases htype
  rw [Bool.not_eq_true] at hnumber
  by_cases hcheckbox : typeIs field "checkbox" = true
  · simp only [hnumber, hcheckbox, Bool.false_eq_true, if_true, if_false] at htype
    simp only [hnumber, hcheckbox, Bool.false_eq_true, if_true, if_false, Bool.or_true]
    cases value with
    | bool b => rfl
    | _ => cases htype
  rw [Bool.not_eq_true] at hcheckbox
  by_cases hmulti : typeIs field "multiselect" = true
  · simp only [hnumber, hcheckbox, hmulti, Bool.false_eq_true, Bool.or_true, if_true, if_false]
      at htype
    simp only [hnumber, hcheckbox, hmulti, Bool.false_eq_true, Bool.or_false, if_true, if_false]
    obtain ⟨entries, rfl, hincluded⟩ := multiselect_checked hmulti htype
    cases hvalues : optionValues field with
    | none => rfl
    | some values =>
      simp only [Option.elim_some, Option.isSome_some, Bool.true_or, List.all_eq_true]
      exact fun entry hentry => isOption_of_includes (hincluded values hvalues entry hentry)
  rw [Bool.not_eq_true] at hmulti
  simp only [hnumber, hcheckbox, hmulti, Bool.false_eq_true, Bool.false_or, Bool.or_false, if_false]
    at htype hwell ⊢
  by_cases hselect : (typeIs field "select" && (optionValues field).isSome) = true
  · simp only [hselect, if_true]
    obtain ⟨hselect, hsome⟩ := Bool.and_eq_true_iff.mp hselect
    obtain ⟨values, hvalues⟩ := Option.isSome_iff_exists.mp hsome
    rw [if_pos hselect] at htype
    rw [hvalues]
    exact isOption_of_includes ((select_checked hmulti htype).2 values hvalues)
  rw [if_neg hselect] at hwell
  rw [if_neg hselect, if_neg hselect]
  obtain ⟨hlengths, hpattern⟩ := Bool.and_eq_true_iff.mp hwell
  cases value with
  | str text =>
    simp only [Json.text?, Option.any_some]
    apply text_agrees hformats (Bool.and_eq_true_iff.mp hlengths).2 hpattern _ hrule
    by_cases hs : typeIs field "select" = true
    · -- a choice from a live source has no format
      unfold stringTypeError
      simp [typeIs_unique hs]
    · obtain ⟨type, htype', hfield⟩ := htyped
      have hstring : ((field.field "type").bind Json.text?).any (· ∈ stringTypes) = true := by
        unfold typeIs at hnumber hcheckbox hmulti hs
        simp only [hfield, Option.some.injEq, Json.str.injEq, decide_eq_true_eq,
          decide_eq_false_iff_not] at hnumber hcheckbox hmulti hs
        simp only [fieldTypes, List.mem_cons, List.not_mem_nil, or_false] at htype'
        simp only [hfield, Option.bind_some, Json.text?, Option.any_some, stringTypes,
          decide_eq_true_eq, List.mem_cons, List.not_mem_nil, or_false]
        tauto
      rw [if_neg hs, hstring] at htype
      exact htype
  | _ => rfl

theorem assign_ne_nil {α : Type*} (m : KeyedList String α) {key : String} (v : α)
    (h : key ≠ "__proto__") : assign m key v ≠ [] := by
  intro hnil
  have hget : (assign m key v).get key = some v := by
    rw [get_assign]
    simp [h]
  rw [hnil] at hget
  cases hget

theorem validateField_ne_nil (options : ValidationOptions) (values : Values) (field : Json)
    {errors : KeyedList String String} (h : errors ≠ []) :
    validateField env options values errors field ≠ [] := by
  have hassign : ∀ {m : KeyedList String String} (key message : String), m ≠ [] →
      assign m key message ≠ [] := by
    intro m key message hm
    by_cases hproto : key = "__proto__"
    · rwa [assign, if_pos hproto]
    · exact assign_ne_nil m message hproto
  unfold validateField
  cases nameOf field with
  | none => exact h
  | some name =>
    simp only
    split_ifs
    · exact hassign _ _ h
    · apply hassign
      split
      · exact hassign _ _ h
      · exact h
    · split
      · exact hassign _ _ h
      · exact h

/-- Without errors each field is without. -/
theorem validateField_eq_nil {options : ValidationOptions} {values : Values} {fields : List Json}
    {errors : KeyedList String String}
    (h : fields.foldl (validateField env options values) errors = []) :
    errors = [] ∧ ∀ field ∈ fields, validateField env options values [] field = [] := by
  induction fields using List.reverseRecOn with
  | nil => exact ⟨h, by simp⟩
  | append_singleton pre field ih =>
    rw [List.foldl_append, List.foldl_cons, List.foldl_nil] at h
    have hpre : pre.foldl (validateField env options values) errors = [] := by
      by_contra hne
      exact validateField_ne_nil options values field hne h
    obtain ⟨herrors, hfields⟩ := ih hpre
    rw [hpre] at h
    refine ⟨herrors, fun f hf => ?_⟩
    rcases List.mem_append.mp hf with hf | hf
    · exact hfields f hf
    · rw [List.mem_singleton.mp hf]
      exact h

theorem validateField_checked {options : ValidationOptions} {values : Values} {field : Json}
    {name : String} (hname : nameOf field = some name) (hproto : name ≠ "__proto__")
    (h : validateField env options values [] field = []) :
    typeError env field (read values name) = none ∧
      validateRuleError env field (read values name) = none := by
  simp only [validateField, hname] at h
  split_ifs at h with hempty himmutable
  · exact absurd h (assign_ne_nil _ _ hproto)
  · exact absurd h (assign_ne_nil _ _ hproto)
  · cases hmessage : (typeError env field (read values name)).or
        (validateRuleError env field (read values name)) with
    | none => exact Option.or_eq_none_iff.mp hmessage
    | some message =>
      rw [hmessage] at h
      exact absurd h (assign_ne_nil _ _ hproto)

theorem declared_of_undeclaredErrors {fields : List Json} {answers : Values}
    (h : undeclaredErrors fields answers = []) :
    ∀ key ∈ answers.keys, key ≠ "__proto__" → key ∈ fields.filterMap nameOf := by
  unfold undeclaredErrors at h
  generalize answers.keys = keys at h ⊢
  induction keys using List.reverseRecOn with
  | nil => simp
  | append_singleton pre key ih =>
    rw [List.foldl_append, List.foldl_cons, List.foldl_nil] at h
    intro k hk hproto
    split_ifs at h with hdeclared
    · rcases List.mem_append.mp hk with hk | hk
      · exact ih h k hk hproto
      · rw [List.mem_singleton.mp hk]
        exact hdeclared.2
    · rcases List.mem_append.mp hk with hk | hk
      · by_cases hkey : key = "__proto__"
        · rw [assign, if_pos hkey] at h
          exact ih h k hk hproto
        · exact absurd h (assign_ne_nil _ _ hkey)
      · rw [List.mem_singleton.mp hk] at hproto
        exact absurd h (assign_ne_nil _ _ hproto)

end Checked

/-! ## The document -/

section Document
variable {env : AnswerEnvironment} {formats : Formats}

theorem derivedProperties_eq (coerce : Coercions) (fields : List Json) :
    derivedProperties coerce fields = assignAll
      (namedEntries (fun field => some (schemaForField coerce field)) (fields.filter knownType))
      [] := by
  unfold derivedProperties assignAll namedEntries
  rw [List.foldl_filterMap]
  congr 1
  funext acc field
  cases nameOf field <;> rfl

theorem mem_iff_get {α : Type*} {m : KeyedList String α} (h : m.keys.Nodup) (k : String) (v : α) :
    (k, v) ∈ m ↔ m.get k = some v := by
  refine ⟨fun hmem => ?_, KeyedList.mem_of_get⟩
  induction m with
  | nil => cases hmem
  | cons e rest ih =>
    have hnodup : e.1 ∉ KeyedList.keys rest ∧ (KeyedList.keys rest).Nodup := List.nodup_cons.mp h
    rw [KeyedList.get_cons]
    rcases List.mem_cons.mp hmem with rfl | hmem
    · rw [if_pos rfl]
    · have hne : e.1 ≠ k := by
        rintro rfl
        exact hnodup.1 (List.mem_map.mpr ⟨(e.1, v), hmem, rfl⟩)
      rw [if_neg hne]
      exact ih hnodup.2 hmem

/-- The properties of the schema are the fields. -/
theorem mem_derivedProperties {coerce : Coercions} {fields : List Json}
    (hdistinct : (fields.filterMap nameOf).Nodup) (hknown : ∀ field ∈ fields, knownType field = true)
    (k : String) (schema : Json) :
    (k, schema) ∈ derivedProperties coerce fields ↔ ∃ field ∈ fields,
      nameOf field = some k ∧ k ≠ "__proto__" ∧ schema = schemaForField coerce field := by
  have hall : fields.filter knownType = fields := List.filter_eq_self.mpr hknown
  have hentries : (namedEntries (fun field => some (schemaForField coerce field))
      fields).keys.Nodup := hdistinct.sublist (keys_namedEntries_sublist _ _)
  have hnil : (KeyedList.keys ([] : Values)).Nodup := List.nodup_nil
  rw [derivedProperties_eq, hall, mem_iff_get (nodup_keys_assignAll hnil _),
    get_assignAll hentries, get_namedEntries _ hdistinct]
  constructor
  · intro h
    split_ifs at h with hproto
    · cases h
    · rw [KeyedList.get_nil, Option.or_none, Option.bind_eq_some_iff] at h
      obtain ⟨field, howner, hschema⟩ := h
      obtain ⟨hmem, hname⟩ := mem_of_ownerNamed howner
      exact ⟨field, hmem, hname, hproto, (Option.some.inj hschema).symm⟩
  · rintro ⟨field, hmem, hname, hproto, rfl⟩
    rw [if_neg hproto, ownerNamed_of_mem hdistinct hmem hname]
    rfl

theorem isSchema_deriveJsonSchema {coerce : Coercions} {configuration : Option Json}
    (hdistinct : ((listOf configuration "fields").filterMap nameOf).Nodup) :
    JsonSchema.isSchema (deriveJsonSchema coerce configuration) =
      (derivedProperties coerce (listOf configuration "fields")).all fun e =>
        JsonSchema.isSchema e.2 := by
  have hrequired : (if derivedRequired (listOf configuration "groups")
      (listOf configuration "fields") = [] then [] else [("required", Json.arr
        ((derivedRequired (listOf configuration "groups")
          (listOf configuration "fields")).map Json.str))]).all JsonSchema.keywordFormed = true := by
    have hnodup : (derivedRequired (listOf configuration "groups")
        (listOf configuration "fields")).Nodup :=
      hdistinct.sublist (List.filter_sublist.filterMap nameOf)
    split_ifs
    · rfl
    · rw [List.all_cons, List.all_nil, Bool.and_true]
      exact (JsonSchema.assertionFormed_required _).trans (decide_eq_true hnodup)
  unfold deriveJsonSchema
  simp only [JsonSchema.isSchema, JsonSchema.keywordsFormed_eq, List.all_append, hrequired,
    Bool.and_true, List.all_cons, List.all_nil]
  rw [← JsonSchema.schemasFormed_eq]
  rfl

theorem validates_deriveJsonSchema {coerce : Coercions} {configuration : Option Json}
    {answers : Values} :
    JsonSchema.validates formats (deriveJsonSchema coerce configuration) (.obj answers) =
      ((answers.filter fun e => e.1 ∉ (derivedProperties coerce
          (listOf configuration "fields")).keys).all (fun _ => false) &&
        ((derivedProperties coerce (listOf configuration "fields")).all fun e =>
          (answers.get e.1).all fun value => JsonSchema.validates formats e.2 value) &&
        (derivedRequired (listOf configuration "groups") (listOf configuration "fields")).all
          fun name => answers.has name) := by
  have hrequired : ∀ declared, (if derivedRequired (listOf configuration "groups")
      (listOf configuration "fields") = [] then [] else [("required", Json.arr
        ((derivedRequired (listOf configuration "groups")
          (listOf configuration "fields")).map Json.str))]).all
        (JsonSchema.keywordHolds formats declared (.obj answers)) =
      (derivedRequired (listOf configuration "groups") (listOf configuration "fields")).all
        fun name => answers.has name := by
    intro declared
    split_ifs with hnil
    · rw [hnil]
      rfl
    · rw [List.all_cons, List.all_nil, Bool.and_true]
      exact JsonSchema.assertion_required formats _ answers
  unfold deriveJsonSchema
  simp only [JsonSchema.validates, JsonSchema.keywords_eq, List.all_append, hrequired,
    List.all_cons, List.all_nil, Bool.and_true]
  have hproperties : ∀ declared, JsonSchema.keywordHolds formats declared (.obj answers)
      ("properties", .obj (derivedProperties coerce (listOf configuration "fields"))) =
      (derivedProperties coerce (listOf configuration "fields")).all fun e =>
        (answers.get e.1).all fun value => JsonSchema.validates formats e.2 value := by
    intro declared
    simp only [JsonSchema.keywordHolds, JsonSchema.properties, JsonSchema.propertySchemas_eq]
    rfl
  have hadditional : ∀ declared, JsonSchema.keywordHolds formats declared (.obj answers)
      ("additionalProperties", .bool false) =
      (answers.filter fun e => e.1 ∉ declared).all fun _ => false := by
    intro declared
    simp only [JsonSchema.keywordHolds, JsonSchema.validates]
    rfl
  have hschema : ∀ declared, JsonSchema.keywordHolds formats declared (.obj answers)
      ("$schema", .str "https://json-schema.org/draft/2020-12/schema") = true := fun _ => rfl
  have htype : ∀ declared, JsonSchema.keywordHolds formats declared (.obj answers)
      ("type", .str "object") = true := fun _ => rfl
  rw [hproperties, hadditional, hschema, htype, Bool.true_and, Bool.true_and]
  rfl

/-- Where the schema accepts answers that the validator accepts. -/
structure AnswersFit (env : AnswerEnvironment) (formats : Formats) (configuration : Option Json)
    (answers roleFlags : Values) : Prop where
  proto : "__proto__" ∉ answers.keys
  rules : ∀ field ∈ listOf configuration "fields", nameOf field ≠ some "__proto__" →
    wellTyped field = true
  required : ∀ field ∈ listOf configuration "fields",
    (field.field "required").any Json.isTrue = true →
    isConditional (listOf configuration "groups") field = false →
    ∀ k, nameOf field = some k → answers.has k = true
  unchecked : ∀ field ∈ listOf configuration "fields", ∀ k value, nameOf field = some k →
    answers.get k = some value →
    (k ∈ (computeVisibility env.toCoercions configuration answers roleFlags).hidden ∨
      isBlankOperand (.value value) = true) → fits env formats field value = true
  checked : ∀ field ∈ listOf configuration "fields", ∀ k value, nameOf field = some k →
    answers.get k = some value →
    k ∉ (computeVisibility env.toCoercions configuration answers roleFlags).hidden →
    isBlankOperand (.value value) = false → agrees env field value = true

variable {configuration : Option Json} {answers roleFlags : Values}

theorem visibleFields_subset {coerce : Coercions} {groupVisible : KeyedList String Bool}
    {ctx values : Values} (fields : List Json) :
    ∀ field ∈ (passAfter coerce groupVisible ctx values fields).visibleFields, field ∈ fields := by
  induction fields using List.reverseRecOn with
  | nil => exact fun _ h => h
  | append_singleton pre field ih =>
    have hold : ∀ f ∈ (passAfter coerce groupVisible ctx values pre).visibleFields,
        f ∈ pre ++ [field] := fun f hf => List.mem_append_left _ (ih f hf)
    rw [passAfter_snoc]
    unfold visitField
    split
    · exact hold
    · split_ifs
      · intro f hf
        rcases List.mem_append.mp hf with hf | hf
        · exact hold f hf
        · exact List.mem_append_right _ hf
      · exact hold

theorem mem_visibleFields_of_not_hidden {coerce : Coercions}
    (hdistinct : ((listOf configuration "fields").filterMap nameOf).Nodup) {field : Json}
    {k : String} (hmem : field ∈ listOf configuration "fields") (hname : nameOf field = some k)
    (h : k ∉ (computeVisibility coerce configuration answers roleFlags).hidden) :
    field ∈ (computeVisibility coerce configuration answers roleFlags).visibleFields := by
  rw [computeVisibility_passOf] at h ⊢
  have hperm : ((passOf coerce configuration roleFlags answers
        (listOf configuration "fields")).visibleFields.filterMap nameOf ++
      (passOf coerce configuration roleFlags answers (listOf configuration "fields")).hidden).Perm
        ((listOf configuration "fields").filterMap nameOf) := names_perm _
  have hk := hperm.mem_iff.mpr (List.mem_filterMap.mpr ⟨field, hmem, hname⟩)
  obtain ⟨other, hother, hname'⟩ := List.mem_filterMap.mp ((List.mem_append.mp hk).resolve_right h)
  have hsame : some other = some field :=
    (ownerNamed_of_mem hdistinct (visibleFields_subset _ other hother) hname').symm.trans
      (ownerNamed_of_mem hdistinct hmem hname)
  exact Option.some.inj hsame ▸ hother

theorem values_of_answer {coerce : Coercions} {env : LintEnvironment} {roles : List Json}
    (hacc : Accepted env roles (listOf configuration "groups") (listOf configuration "fields"))
    (hkeys : answers.keys.Nodup) {k : String} {value : Json} (hanswer : answers.get k = some value)
    (hproto : k ≠ "__proto__")
    (h : k ∉ (computeVisibility coerce configuration answers roleFlags).hidden) :
    (computeVisibility coerce configuration answers roleFlags).values.get k = some value := by
  rw [computeVisibility_passOf] at h ⊢
  unfold passOf at h ⊢
  rw [(passAfter_get hacc.named k).2, if_neg h, mergeValues_get hacc.distinct hkeys,
    if_neg hproto, effective, hanswer, Option.some_or]

theorem accepts_deriveJsonSchema
    (hdistinct : ((listOf configuration "fields").filterMap nameOf).Nodup)
    (hknown : ∀ field ∈ listOf configuration "fields", knownType field = true)
    (hnamed : ∀ field ∈ listOf configuration "fields", (nameOf field).isSome) :
    JsonSchema.accepts formats (deriveJsonSchema env.toCoercions configuration) (.obj answers) =
        true ↔
      (∀ field ∈ listOf configuration "fields", nameOf field ≠ some "__proto__" →
        wellTyped field = true) ∧
      (∀ key ∈ answers.keys, key ≠ "__proto__" ∧
        key ∈ (listOf configuration "fields").filterMap nameOf) ∧
      (∀ field ∈ listOf configuration "fields", ∀ k value, nameOf field = some k →
        k ≠ "__proto__" → answers.get k = some value → fits env formats field value = true) ∧
      ∀ k ∈ derivedRequired (listOf configuration "groups") (listOf configuration "fields"),
        answers.has k = true := by
  have hmem : ∀ k schema, (k, schema) ∈ derivedProperties env.toCoercions
      (listOf configuration "fields") ↔ ∃ field ∈ listOf configuration "fields",
        nameOf field = some k ∧ k ≠ "__proto__" ∧ schema = schemaForField env.toCoercions field :=
    mem_derivedProperties hdistinct hknown
  unfold JsonSchema.accepts
  rw [isSchema_deriveJsonSchema hdistinct, validates_deriveJsonSchema]
  simp only [Bool.and_eq_true, List.all_eq_true]
  have hrules : (∀ e ∈ derivedProperties env.toCoercions (listOf configuration "fields"),
      JsonSchema.isSchema e.2 = true) ↔ ∀ field ∈ listOf configuration "fields",
        nameOf field ≠ some "__proto__" → wellTyped field = true := by
    constructor
    · intro h field hfield hproto
      obtain ⟨k, hk⟩ := Option.isSome_iff_exists.mp (hnamed field hfield)
      have hschema := h (k, _) ((hmem k _).mpr ⟨field, hfield, hk, fun heq => hproto (heq ▸ hk), rfl⟩)
      exact (isSchema_schemaForField field).symm.trans hschema
    · rintro h ⟨k, schema⟩ he
      obtain ⟨field, hfield, hk, hproto, rfl⟩ := (hmem k schema).mp he
      rw [isSchema_schemaForField]
      exact h field hfield fun heq => hproto (Option.some.inj (hk.symm.trans heq))
  have hkeys : (∀ e ∈ answers.filter fun e => e.1 ∉ (derivedProperties env.toCoercions
      (listOf configuration "fields")).keys, false = true) ↔ ∀ key ∈ answers.keys,
        key ≠ "__proto__" ∧ key ∈ (listOf configuration "fields").filterMap nameOf := by
    have hname : ∀ key, key ∈ (derivedProperties env.toCoercions
        (listOf configuration "fields")).keys ↔
        key ≠ "__proto__" ∧ key ∈ (listOf configuration "fields").filterMap nameOf := by
      intro key
      constructor
      · intro h
        obtain ⟨⟨k, schema⟩, he, rfl⟩ := List.mem_map.mp h
        obtain ⟨field, hfield, hk, hproto, -⟩ := (hmem k schema).mp he
        exact ⟨hproto, List.mem_filterMap.mpr ⟨field, hfield, hk⟩⟩
      · rintro ⟨hproto, h⟩
        obtain ⟨field, hfield, hk⟩ := List.mem_filterMap.mp h
        exact List.mem_map.mpr ⟨(key, _), (hmem key _).mpr ⟨field, hfield, hk, hproto, rfl⟩, rfl⟩
    constructor
    · intro h key hkey
      obtain ⟨e, he, rfl⟩ := List.mem_map.mp hkey
      by_contra hnot
      have hnew : e.1 ∉ (derivedProperties env.toCoercions (listOf configuration "fields")).keys :=
        fun hin => hnot ((hname e.1).mp hin)
      have hfalse := h e (List.mem_filter.mpr ⟨he, decide_eq_true hnew⟩)
      cases hfalse
    · intro h e he
      obtain ⟨hmem', hnot⟩ := List.mem_filter.mp he
      have hdeclared := (hname e.1).mpr (h e.1 (List.mem_map_of_mem hmem'))
      simp [hdeclared] at hnot
  have hvalues : (∀ e ∈ derivedProperties env.toCoercions (listOf configuration "fields"),
      (answers.get e.1).all (fun value => JsonSchema.validates formats e.2 value) = true) ↔
        ∀ field ∈ listOf configuration "fields", ∀ k value, nameOf field = some k →
          k ≠ "__proto__" → answers.get k = some value →
          fits env formats field value = true := by
    constructor
    · intro h field hfield k value hk hproto hvalue
      have hall := h (k, _) ((hmem k _).mpr ⟨field, hfield, hk, hproto, rfl⟩)
      rw [hvalue, Option.all_some, validates_schemaForField] at hall
      exact hall
    · rintro h ⟨k, schema⟩ he
      obtain ⟨field, hfield, hk, hproto, rfl⟩ := (hmem k schema).mp he
      cases hvalue : answers.get k with
      | none => rfl
      | some value =>
        rw [Option.all_some, validates_schemaForField]
        exact h field hfield k value hk hproto hvalue
  rw [hrules, hkeys, hvalues, and_assoc]

/-- For an accepted configuration and answers without errors, the derived schema accepts the
answers exactly where they fit. -/
theorem schema_agrees_iff (env : AnswerEnvironment) (formats : Formats)
    (hformats : FormatsAgree env formats) (configuration : Option Json)
    (roles selection : List Json) (answers : Values) (options : ValidationOptions)
    (hlint : lintConfiguration env.toLintEnvironment configuration roles = [])
    (hkeys : answers.keys.Nodup)
    (hvalid : (validateAnswers env configuration answers (buildShowIfRoleFlags selection)
      options).errors = []) :
    JsonSchema.accepts formats (deriveJsonSchema env.toCoercions configuration) (.obj answers) =
        true ↔
      AnswersFit env formats configuration answers (buildShowIfRoleFlags selection) := by
  have hacc := accepted_of_lint hlint
  have hdistinct := hacc.distinct
  have htyped : ∀ field ∈ listOf configuration "fields",
      ∃ type ∈ fieldTypes, field.field "type" = some (.str type) := by
    intro field hfield
    obtain ⟨pre, post, hsplit⟩ := List.append_of_mem hfield
    obtain ⟨name, haccepted⟩ := hacc.fields pre field post hsplit
    exact haccepted.typed
  have hknown : ∀ field ∈ listOf configuration "fields", knownType field = true := by
    intro field hfield
    obtain ⟨type, htype, heq⟩ := htyped field hfield
    unfold knownType
    simpa [heq, Json.text?] using htype
  obtain ⟨hundeclared, hchecked⟩ := validateField_eq_nil hvalid
  have hdeclared := declared_of_undeclaredErrors hundeclared
  -- a value that the validator has looked at
  have hagrees : ∀ field ∈ listOf configuration "fields", ∀ k value, nameOf field = some k →
      k ≠ "__proto__" → answers.get k = some value → wellTyped field = true →
      k ∉ (computeVisibility env.toCoercions configuration answers
        (buildShowIfRoleFlags selection)).hidden → isBlankOperand (.value value) = false →
      fits env formats field value = agrees env field value := by
    intro field hfield k value hk hproto hvalue hwell hhidden hblank
    have hget := values_of_answer hacc hkeys hvalue hproto hhidden
    obtain ⟨htype, hrule⟩ := validateField_checked hk hproto
      (hchecked field (mem_visibleFields_of_not_hidden hdistinct hfield hk hhidden))
    have hread : read (computeVisibility env.toCoercions configuration answers
        (buildShowIfRoleFlags selection)).values k = .value value := by
      unfold read
      rw [hget]
    rw [hread] at htype hrule
    exact fits_iff_agrees hformats (htyped field hfield) hwell hblank htype hrule
  rw [accepts_deriveJsonSchema hdistinct hknown hacc.named]
  constructor
  · rintro ⟨hrules, hnames, hfits, hrequired⟩
    have hproto : ∀ k value, answers.get k = some value → k ≠ "__proto__" := fun k value hvalue =>
      (hnames k (List.mem_map_of_mem (KeyedList.mem_of_get hvalue))).1
    exact {
      proto := fun h => (hnames _ h).1 rfl
      rules := hrules
      required := fun field hfield hreq hcond k hk => hrequired k (List.mem_filterMap.mpr
        ⟨field, List.mem_filter.mpr ⟨hfield, by simp [hknown field hfield, hreq, hcond]⟩, hk⟩)
      unchecked := fun field hfield k value hk hvalue _ =>
        hfits field hfield k value hk (hproto k value hvalue) hvalue
      checked := fun field hfield k value hk hvalue hhidden hblank => by
        have hp := hproto k value hvalue
        rw [← hagrees field hfield k value hk hp hvalue
          (hrules field hfield fun heq => hp (Option.some.inj (hk.symm.trans heq))) hhidden hblank]
        exact hfits field hfield k value hk hp hvalue }
  · intro h
    refine ⟨h.rules, fun key hkey => ?_, fun field hfield k value hk hp hvalue => ?_, ?_⟩
    · have hp : key ≠ "__proto__" := fun heq => h.proto (heq ▸ hkey)
      exact ⟨hp, hdeclared key hkey hp⟩
    · by_cases hopen : k ∈ (computeVisibility env.toCoercions configuration answers
          (buildShowIfRoleFlags selection)).hidden ∨ isBlankOperand (.value value) = true
      · exact h.unchecked field hfield k value hk hvalue hopen
      · obtain ⟨hhidden, hblank⟩ := not_or.mp hopen
        rw [hagrees field hfield k value hk hp hvalue
          (h.rules field hfield fun heq => hp (Option.some.inj (hk.symm.trans heq))) hhidden
          (by simpa using hblank)]
        exact h.checked field hfield k value hk hvalue hhidden (by simpa using hblank)
    · intro k hk
      obtain ⟨field, hmem, hname⟩ := List.mem_filterMap.mp hk
      obtain ⟨hfield, hcond⟩ := List.mem_filter.mp hmem
      simp only [Bool.and_eq_true, Bool.not_eq_true'] at hcond
      exact h.required field hfield hcond.1.2 hcond.2 k hname

/-- Two addresses, and no patterns. -/
def plainAnswerEnvironment : AnswerEnvironment where
  toLintEnvironment := plainEnvironment
  isIP text := if text = "10.0.0.7" then 4 else if text = "fe80::1" then 6 else 0
  regExpTest _ _ := false

def plainFormats : Formats where
  search _ _ := false
  ipv4 text := text = "10.0.0.7"
  ipv6 text := text = "fe80::1"

theorem plainFormats_agree : FormatsAgree plainAnswerEnvironment plainFormats where
  search _ _ := rfl
  ipv4 text := by
    by_cases hfour : text = "10.0.0.7"
    · simp [plainFormats, plainAnswerEnvironment, hfour]
    · simp only [plainFormats, plainAnswerEnvironment, hfour, if_false]
      split_ifs <;> simp
  ipv6 text := by
    by_cases hsix : text = "fe80::1"
    · subst hsix
      decide
    · simp only [plainFormats, plainAnswerEnvironment, hsix, if_false]
      split_ifs <;> simp
  number _ := rfl
  numberFalsy value h := by
    cases value with
    | null => rfl
    | bool b =>
      have hb : b = false := h
      rw [hb]
      rfl
    | num q =>
      have hq : q = 0 := by simpa [Json.truthy] using h
      rw [hq]
      rfl
    | str text =>
      have htext : text = "" := by simpa [Json.truthy] using h
      rw [htext]
      rfl
    | arr items => cases h
    | obj entries => cases h
  numberUndefined := rfl

def managedHost : Json :=
  .obj [("fields", .arr [
    .obj [("name", .str "hostname"), ("type", .str "fqdn"), ("required", .bool true)],
    .obj [("name", .str "mgmt"), ("type", .str "ipaddr")]])]

theorem schema_agrees_managed :
    JsonSchema.accepts plainFormats
        (deriveJsonSchema plainAnswerEnvironment.toCoercions (some managedHost))
        (.obj [("hostname", .str "web.example"), ("mgmt", .str "10.0.0.7")]) = true ↔
      AnswersFit plainAnswerEnvironment plainFormats (some managedHost)
        [("hostname", .str "web.example"), ("mgmt", .str "10.0.0.7")] (buildShowIfRoleFlags []) :=
  schema_agrees_iff plainAnswerEnvironment plainFormats plainFormats_agree (some managedHost) [] []
    [("hostname", .str "web.example"), ("mgmt", .str "10.0.0.7")] ⟨none, false⟩
    (by decide +kernel) (by decide) (by decide +kernel)

/-- The schema takes an address of any version for an IPv4 address. -/
theorem schema_agrees_fails :
    ¬∀ (env : AnswerEnvironment) (formats : Formats), FormatsAgree env formats →
      ∀ (configuration : Option Json) (roles selection : List Json) (answers : Values)
        (options : ValidationOptions),
        lintConfiguration env.toLintEnvironment configuration roles = [] → answers.keys.Nodup →
        (validateAnswers env configuration answers (buildShowIfRoleFlags selection)
          options).errors = [] →
        JsonSchema.accepts formats (deriveJsonSchema env.toCoercions configuration)
          (.obj answers) = true := by
  intro h
  have haccepts := h plainAnswerEnvironment plainFormats plainFormats_agree (some managedHost) [] []
    [("hostname", .str "web.example"), ("mgmt", .str "fe80::1")] ⟨none, false⟩
    (by decide +kernel) (by decide) (by decide +kernel)
  revert haccepts
  decide +kernel

end Document

end ZoneweaverAgent.FieldDsl
