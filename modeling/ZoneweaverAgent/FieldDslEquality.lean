import ZoneweaverAgent.FieldDslCoercions
import ZoneweaverAgent.MixedEquality
import ZoneweaverAgent.ShowIfGrammar

/-!
# Loose equality

`looseEqual` compares as numbers what reads as a number and as texts what does not. Null reads as
zero and is written as a word, and an empty list reads as zero where the empty text does not: these
are the values that are equal to two values that differ from each other.
-/

namespace ZoneweaverAgent.FieldDsl

open DecimalNumerals Doubles MixedEquality NumberTexts PathScan TextLines

section Definitions

/-- What a field can hold. -/
inductive Holdable : Json → Prop
  | null : Holdable .null
  | bool (b : Bool) : Holdable (.bool b)
  | num {q : ℚ} (h : IsDouble q) : Holdable (.num q)
  | str (s : String) : Holdable (.str s)
  | arr {items : List Json} (h : ∀ v ∈ items, Holdable v) : Holdable (.arr items)

def Held : Operand → Prop
  | .undefined => True
  | .inherited _ => False
  | .value v => Holdable v

abbrev FieldValue := { a : Operand // Held a }

/-- The word `null`, or a list of nothing but such a value. -/
inductive SaysNull : Json → Prop
  | str : SaysNull (.str "null")
  | arr {v : Json} (h : SaysNull v) : SaysNull (.arr [v])

/-- A list that is written as the empty text. -/
inductive Hollow : Json → Prop
  | nil : Hollow (.arr [])
  | null : Hollow (.arr [.null])
  | str : Hollow (.arr [.str ""])
  | arr {v : Json} (h : Hollow v) : Hollow (.arr [v])

inductive SaysZero : Json → Prop
  | null : SaysZero .null
  | num : SaysZero (.num 0)
  | str {s : String} (h : Spells s.toList (finite 0)) : SaysZero (.str s)
  | nil : SaysZero (.arr [])
  | arr {v : Json} (h : SaysZero v) : SaysZero (.arr [v])

/-- A zero other than null. -/
def OtherZero (v : Json) : Prop := SaysZero v ∧ v ≠ .str "" ∧ v ≠ .null

/-- A zero that is written with some character. -/
def WrittenZero (v : Json) : Prop := SaysZero v ∧ v ≠ .str "" ∧ ¬Hollow v

def Operand.Is (p : Json → Prop) : Operand → Prop
  | .value v => p v
  | _ => False

/-- Null between the word `null` and a zero, or an empty list between the empty text and a zero. -/
def Intransitive (a b c : Operand) : Prop :=
  b.Is (· = .null) ∧ (a.Is SaysNull ∧ c.Is OtherZero ∨ a.Is OtherZero ∧ c.Is SaysNull) ∨
    b.Is Hollow ∧
      (a.Is (· = .str "") ∧ c.Is WrittenZero ∨ a.Is WrittenZero ∧ c.Is (· = .str ""))

/-- One of the values is null, the empty text or an empty list, and the other is not. -/
def Differs (v e : Operand) : Prop :=
  ¬((v.Is (· = .null) ↔ e.Is (· = .null)) ∧ (v.Is (· = .str "") ↔ e.Is (· = .str "")) ∧
    (v.Is Hollow ↔ e.Is Hollow))

/-- A scalar, a list of entries, or one of these negated. -/
inductive IsCondition : Json → Prop
  | scalar {c : Json} (hscalar : isScalar c = true) (h : Holdable c) : IsCondition c
  | entries {entries : List Json} (h : ∀ e ∈ entries, Holdable e) : IsCondition (.arr entries)
  | not {c : Json} (h : IsCondition c) : IsCondition (.obj [("not", c)])

/-- The number of a value that is compared by numbers. -/
def reading (a : Operand) : Option Extended :=
  if comparable a then conversions.number a else none

def textOf (a : Operand) : Text := (conversions.text a).toList

end Definitions

section Texts
variable {v w : Json} {items : List Json}

def entryText (v : Json) : Text := if isNull v then [] else valueText v

theorem entryTexts_eq (items : List Json) : entryTexts items = items.map entryText := by
  induction items with
  | nil => rfl
  | cons v items ih =>
    rw [entryTexts, ih]
    rfl

theorem valueText_arr (items : List Json) :
    valueText (.arr items) = [','].intercalate (items.map entryText) := by
  rw [valueText, entryTexts_eq]

theorem valueText_singleton (v : Json) : valueText (.arr [v]) = entryText v := by
  rw [valueText_arr, List.map_singleton, List.intercalate_singleton]

theorem comma_mem_valueText (v w : Json) (rest : List Json) :
    ',' ∈ valueText (.arr (v :: w :: rest)) := by
  rw [valueText_arr, List.map_cons, List.map_cons, List.intercalate_cons_cons]
  simp

theorem number_numberText {q : ℚ} (h : IsDouble q) :
    NumberTexts.number (numberText q) = some (finite q) :=
  number_eq_some.mpr (spells_numberText h)

theorem number_nullText : NumberTexts.number nullText = none := by decide +kernel

theorem number_bool (b : Bool) : NumberTexts.number (valueText (.bool b)) = none := by
  cases b <;> decide +kernel

theorem entryText_of_ne_null (h : v ≠ .null) : entryText v = valueText v := by
  cases v with
  | null => exact absurd rfl h
  | bool _ => rfl
  | num _ => rfl
  | str _ => rfl
  | arr _ => rfl
  | obj _ => rfl

theorem SaysNull.ne_null (h : SaysNull v) : v ≠ .null := by
  rintro rfl
  cases h

theorem Hollow.ne_null (h : Hollow v) : v ≠ .null := by
  rintro rfl
  cases h

/-- A text without a comma is written by one entry at most. -/
theorem exists_entry (h : ',' ∉ valueText (.arr items)) :
    items = [] ∨ ∃ v, items = [v] ∧ valueText (.arr items) = entryText v := by
  match items, h with
  | [], _ => exact .inl rfl
  | [v], _ => exact .inr ⟨v, rfl, valueText_singleton v⟩
  | v :: w :: rest, h => exact absurd (comma_mem_valueText v w rest) h

theorem valueText_nil : valueText (.arr []) = [] := by
  rw [valueText_arr]
  rfl

theorem valueText_eq_nullText (h : Holdable v) :
    valueText v = nullText ↔ v = .null ∨ SaysNull v := by
  induction h with
  | null => exact iff_of_true rfl (.inl rfl)
  | bool b =>
    refine iff_of_false ?_ (by rintro (h | h) <;> cases h)
    cases b <;> decide
  | num hdouble =>
    refine iff_of_false (fun htext => ?_) (by rintro (h | h) <;> cases h)
    have hnumber := number_numberText hdouble
    rw [valueText] at htext
    rw [htext, number_nullText] at hnumber
    cases hnumber
  | str s =>
    constructor
    · intro htext
      have hs : s.toList = "null".toList := htext
      rw [String.toList_injective hs]
      exact .inr .str
    · rintro (h | h)
      · cases h
      · cases h
        rfl
  | arr hitems ih =>
    constructor
    · intro htext
      rcases exists_entry (by rw [htext]; decide) with rfl | ⟨v, rfl, hentry⟩
      · rw [valueText_nil] at htext
        cases htext
      · rw [hentry] at htext
        have hne : v ≠ .null := by
          rintro rfl
          cases htext
        rw [entryText_of_ne_null hne, ih v List.mem_cons_self] at htext
        exact .inr (.arr (htext.resolve_left hne))
    · rintro (h | h)
      · cases h
      · cases h with
        | arr h =>
          rw [valueText_singleton, entryText_of_ne_null h.ne_null, ih _ List.mem_cons_self]
          exact .inr h

theorem valueText_eq_nil (h : Holdable v) : valueText v = [] ↔ v = .str "" ∨ Hollow v := by
  induction h with
  | null => exact iff_of_false (by decide) (by rintro (h | h) <;> cases h)
  | bool b =>
    refine iff_of_false ?_ (by rintro (h | h) <;> cases h)
    cases b <;> decide
  | num hdouble =>
    refine iff_of_false (fun htext => ?_) (by rintro (h | h) <;> cases h)
    have hnumber := number_numberText hdouble
    rw [valueText] at htext
    rw [htext, number_eq_some.mpr spells_nil] at hnumber
    rw [← finite_injective (Option.some.inj hnumber)] at htext
    cases htext
  | str s =>
    constructor
    · intro htext
      have hs : s.toList = "".toList := htext
      rw [String.toList_injective hs]
      exact .inl rfl
    · rintro (h | h)
      · cases h
        rfl
      · cases h
  | arr hitems ih =>
    constructor
    · intro htext
      rcases exists_entry (by rw [htext]; exact List.not_mem_nil) with rfl | ⟨v, rfl, hentry⟩
      · exact .inr .nil
      · rw [hentry] at htext
        by_cases hnull : v = .null
        · rw [hnull]
          exact .inr .null
        · rw [entryText_of_ne_null hnull, ih v List.mem_cons_self] at htext
          rcases htext with rfl | hhollow
          · exact .inr .str
          · exact .inr (.arr hhollow)
    · rintro (h | h)
      · cases h
      · cases h with
        | nil => exact valueText_nil
        | null => exact valueText_singleton _
        | str => exact valueText_singleton _
        | arr h =>
          rw [valueText_singleton, entryText_of_ne_null h.ne_null, ih _ List.mem_cons_self]
          exact .inr h

/-- The entries that are zero between others. -/
theorem number_entryText (h : Holdable v) :
    NumberTexts.number (entryText v) = some (finite 0) ↔ SaysZero v := by
  induction h with
  | null => exact iff_of_true (number_eq_some.mpr spells_nil) .null
  | bool b =>
    refine iff_of_false (fun hnumber => ?_) (by rintro ⟨⟩)
    rw [entryText_of_ne_null (v := .bool b) nofun, number_bool] at hnumber
    cases hnumber
  | num hdouble =>
    rw [entryText_of_ne_null (v := .num _) nofun, valueText, number_numberText hdouble,
      Option.some.injEq]
    constructor
    · intro hzero
      rw [finite_injective hzero]
      exact .num
    · rintro ⟨⟩
      rfl
  | str s =>
    rw [entryText_of_ne_null (v := .str s) nofun, valueText, number_eq_some]
    constructor
    · exact fun hspells => .str hspells
    · rintro ⟨⟩
      assumption
  | arr hitems ih =>
    rw [entryText_of_ne_null (v := .arr _) nofun, number_eq_some]
    constructor
    · intro hspells
      rcases exists_entry hspells.comma_notMem with rfl | ⟨v, rfl, hentry⟩
      · exact .nil
      · rw [hentry, ← number_eq_some, ih v List.mem_cons_self] at hspells
        exact .arr hspells
    · intro hzero
      cases hzero with
      | nil =>
        rw [valueText_nil]
        exact spells_nil
      | arr hzero =>
        rw [valueText_singleton, ← number_eq_some, ih _ List.mem_cons_self]
        exact hzero

end Texts

section Readings
variable {a b c : Operand} {v : Json}

theorem looseEqual_eq (a b : Operand) :
    looseEqual conversions a b = mixedEq reading textOf a b := by
  have htext : decide (conversions.text a = conversions.text b) =
      decide (textOf a = textOf b) := by
    rw [decide_eq_decide, textOf, textOf, String.toList_inj]
  unfold looseEqual mixedEq reading
  by_cases ha : comparable a = true
  · by_cases hb : comparable b = true
    · rw [if_pos ⟨ha, hb⟩, if_pos ha, if_pos hb, htext]
      cases conversions.number a <;> cases conversions.number b <;> rfl
    · rw [if_neg fun h => hb h.2, if_neg hb, htext]
      cases (if comparable a = true then conversions.number a else none) <;> rfl
  · rw [if_neg fun h => ha h.1, if_neg ha, htext]

theorem textOf_value (v : Json) : textOf (.value v) = valueText v := String.toList_ofList

theorem comparable_str {s : String} (h : s ≠ "") : comparable (.value (.str s)) = true := by
  unfold comparable
  split
  · rename_i heq
    cases heq
  · rename_i heq
    cases heq
    exact absurd rfl h
  · rfl

/-- What a value reads as is what its text does, but for null and the empty text. -/
theorem reading_cases (h : Held a) :
    a = .value .null ∨ a = .value (.str "") ∨ reading a = NumberTexts.number (textOf a) := by
  cases a with
  | undefined =>
    have htext : NumberTexts.number (textOf .undefined) = none := by decide +kernel
    exact .inr (.inr htext.symm)
  | inherited key => cases h
  | value v =>
    rw [textOf_value]
    cases h with
    | null => exact .inl rfl
    | bool b => exact .inr (.inr (number_bool b).symm)
    | num hdouble => exact .inr (.inr (number_numberText hdouble).symm)
    | str s =>
      by_cases hs : s = ""
      · rw [hs]
        exact .inr (.inl rfl)
      · rw [reading, if_pos (comparable_str hs)]
        exact .inr (.inr rfl)
    | arr hitems => exact .inr (.inr rfl)

theorem textOf_eq_nullText (h : Held a) :
    textOf a = nullText ↔ a.Is (· = .null) ∨ a.Is SaysNull := by
  cases a with
  | undefined => exact iff_of_false (by decide) (by rintro (h | h) <;> exact h)
  | inherited key => cases h
  | value v =>
    rw [textOf_value]
    exact valueText_eq_nullText h

theorem textOf_eq_nil (h : Held a) : textOf a = [] ↔ a.Is (· = .str "") ∨ a.Is Hollow := by
  cases a with
  | undefined => exact iff_of_false (by decide) (by rintro (h | h) <;> exact h)
  | inherited key => cases h
  | value v =>
    rw [textOf_value]
    exact valueText_eq_nil h

theorem reading_null : reading (.value .null) = some (finite 0) := rfl

theorem reading_empty : reading (.value (.str "")) = none := rfl

theorem reading_eq_zero (h : Held a) :
    reading a = some (finite 0) ↔ a.Is fun v => SaysZero v ∧ v ≠ .str "" := by
  cases a with
  | undefined => exact iff_of_false nofun id
  | inherited key => cases h
  | value v =>
    by_cases hnull : v = .null
    · rw [hnull]
      exact iff_of_true reading_null ⟨.null, nofun⟩
    by_cases hempty : v = .str ""
    · rw [hempty]
      exact iff_of_false nofun fun h => h.2 rfl
    have hne {w : Json} (hw : v ≠ w) : Operand.value v ≠ .value w := fun heq =>
      hw (Operand.value.inj heq)
    have hnumber := ((reading_cases h).resolve_left (hne hnull)).resolve_left (hne hempty)
    rw [hnumber, textOf_value, ← entryText_of_ne_null hnull, number_entryText h]
    exact (and_iff_left hempty).symm

/-! ### Values that cross -/

theorem Operand.is_eq {w : Json} : a.Is (· = w) ↔ a = .value w := by
  cases a with
  | value v => exact Operand.value.injEq v w ▸ Iff.rfl
  | undefined => exact iff_of_false id nofun
  | inherited key => exact iff_of_false id nofun

theorem saysNull_reading (ha : Held a) (h : a.Is SaysNull) :
    reading a = none ∧ textOf a = nullText := by
  have htext := (textOf_eq_nullText ha).mpr (.inr h)
  rcases reading_cases ha with rfl | rfl | hnumber
  · cases h
  · exact absurd htext (by decide)
  · rw [hnumber, htext]
    exact ⟨number_nullText, rfl⟩

theorem hollow_reading (ha : Held a) (h : a.Is Hollow) :
    reading a = some (finite 0) ∧ textOf a = [] := by
  have htext := (textOf_eq_nil ha).mpr (.inr h)
  rcases reading_cases ha with rfl | rfl | hnumber
  · cases h
  · cases h
  · rw [hnumber, htext]
    exact ⟨number_eq_some.mpr spells_nil, rfl⟩

theorem crosses_iff (ha : Held a) (hb : Held b) :
    Crosses reading textOf a b ↔
      a.Is (· = .null) ∧ b.Is SaysNull ∨ a.Is Hollow ∧ b.Is (· = .str "") := by
  constructor
  · rintro ⟨hsome, hnone, htext⟩
    rcases reading_cases ha with rfl | rfl | hnumber
    · have hb' := (textOf_eq_nullText hb).mp (htext ▸ rfl)
      refine .inl ⟨rfl, hb'.resolve_left fun hnull => ?_⟩
      rw [Operand.is_eq.mp hnull, reading_null] at hnone
      cases hnone
    · cases hsome
    · rcases reading_cases hb with rfl | rfl | hnumber'
      · cases hnone
      · refine .inr ⟨((textOf_eq_nil ha).mp htext).resolve_left fun hempty => ?_, rfl⟩
        rw [Operand.is_eq.mp hempty] at hsome
        cases hsome
      · rw [hnumber, htext, ← hnumber', hnone] at hsome
        cases hsome
  · rintro (⟨hnull, hb'⟩ | ⟨hhollow, hempty⟩)
    · obtain ⟨hnone, htext⟩ := saysNull_reading hb hb'
      rw [Operand.is_eq.mp hnull]
      exact ⟨rfl, hnone, htext.symm⟩
    · obtain ⟨hzero, htext⟩ := hollow_reading ha hhollow
      rw [Operand.is_eq.mp hempty]
      exact ⟨by rw [hzero]; rfl, rfl, htext⟩

theorem otherZero_iff (h : Held a) :
    a.Is OtherZero ↔ reading a = some (finite 0) ∧ textOf a ≠ nullText := by
  have hzero := reading_eq_zero h
  constructor
  · intro hother
    have hreading : reading a = some (finite 0) := by
      cases a with
      | value v => exact hzero.mpr ⟨hother.1, hother.2.1⟩
      | undefined => cases hother
      | inherited key => cases hother
    refine ⟨hreading, fun htext => ?_⟩
    rcases (textOf_eq_nullText h).mp htext with hnull | hnull
    · rw [Operand.is_eq.mp hnull] at hother
      exact hother.2.2 rfl
    · rw [(saysNull_reading h hnull).1] at hreading
      cases hreading
  · rintro ⟨hreading, htext⟩
    have his := hzero.mp hreading
    cases a with
    | value v =>
      refine ⟨his.1, his.2, ?_⟩
      rintro rfl
      exact htext rfl
    | undefined => cases his
    | inherited key => cases his

theorem writtenZero_iff (h : Held a) :
    a.Is WrittenZero ↔ reading a = some (finite 0) ∧ textOf a ≠ [] := by
  have hzero := reading_eq_zero h
  have htext := textOf_eq_nil h
  cases a with
  | value v =>
    rw [hzero, Ne, htext]
    constructor
    · rintro ⟨hspelled, hempty, hhollow⟩
      exact ⟨⟨hspelled, hempty⟩, fun hor => hor.elim hempty hhollow⟩
    · rintro ⟨⟨hspelled, hempty⟩, hnot⟩
      exact ⟨hspelled, hempty, fun hhollow => hnot (.inr hhollow)⟩
  | undefined => exact iff_of_false id fun h => hzero.mp h.1
  | inherited key => cases h

/-- How a triple breaks at one end. -/
theorem crosses_and_iff (ha : Held a) (hb : Held b) (hc : Held c) :
    Crosses reading textOf b a ∧ reading c = reading b ∧ textOf c ≠ textOf b ↔
      b.Is (· = .null) ∧ a.Is SaysNull ∧ c.Is OtherZero ∨
        b.Is Hollow ∧ a.Is (· = .str "") ∧ c.Is WrittenZero := by
  rw [crosses_iff hb ha, otherZero_iff hc, writtenZero_iff hc]
  constructor
  · rintro ⟨⟨hnull, ha'⟩ | ⟨hhollow, ha'⟩, hreading, htext⟩
    · rw [Operand.is_eq.mp hnull] at hreading htext
      exact .inl ⟨hnull, ha', hreading, htext⟩
    · obtain ⟨hzero, hnil⟩ := hollow_reading hb hhollow
      rw [hzero] at hreading
      rw [hnil] at htext
      exact .inr ⟨hhollow, ha', hreading, htext⟩
  · rintro (⟨hnull, ha', hreading, htext⟩ | ⟨hhollow, ha', hreading, htext⟩)
    · refine ⟨.inl ⟨hnull, ha'⟩, ?_⟩
      rw [Operand.is_eq.mp hnull]
      exact ⟨hreading, htext⟩
    · obtain ⟨hzero, hnil⟩ := hollow_reading hb hhollow
      rw [hzero, hnil]
      exact ⟨.inr ⟨hhollow, ha'⟩, hreading, htext⟩

theorem crosses_reading (ha : Held a) (hb : Held b) (h : Crosses reading textOf a b) :
    reading a = some (finite 0) := by
  rcases (crosses_iff ha hb).mp h with ⟨hnull, -⟩ | ⟨hhollow, -⟩
  · rw [Operand.is_eq.mp hnull]
    rfl
  · exact (hollow_reading ha hhollow).1

theorem breaks_iff (ha : Held a) (hb : Held b) (hc : Held c) :
    Breaks reading textOf a b c ↔ Intransitive a b c := by
  have hboth : ¬(Crosses reading textOf a b ∧ Crosses reading textOf c b ∧
      reading a ≠ reading c) := by
    rintro ⟨hab, hcb, hne⟩
    exact hne ((crosses_reading ha hb hab).trans (crosses_reading hc hb hcb).symm)
  rw [Breaks, crosses_and_iff ha hb hc, crosses_and_iff hc hb ha, or_iff_left hboth, Intransitive,
    or_or_or_comm, ← and_or_left, ← and_or_left, and_comm (a := c.Is SaysNull),
    and_comm (a := c.Is (· = .str ""))]

end Readings

section Conditions
variable {v e : Operand} {c : Json}

/-- Conditions only look at what a value is equal to. -/
theorem evaluateCondition_congr
    (h : ∀ c, Holdable c →
      looseEqual conversions v (.value c) = looseEqual conversions e (.value c))
    (hc : IsCondition c) :
    evaluateCondition conversions v c = evaluateCondition conversions e c := by
  induction hc with
  | scalar hscalar hc =>
    obtain ⟨s, rfl⟩ := exists_scalar.mpr hscalar
    rw [evaluateCondition_scalar, evaluateCondition_scalar, h _ hc]
  | entries hentries =>
    rw [evaluateCondition, evaluateCondition, Bool.eq_iff_iff, List.any_eq_true, List.any_eq_true]
    refine exists_congr fun entry => and_congr_right fun hentry => ?_
    rw [h entry (hentries entry hentry)]
  | not _ ih =>
    simp only [evaluateCondition, evaluateNot, if_true, Option.getD_some, ih]

theorem looseEqual_comm (a b : Operand) :
    looseEqual conversions a b = looseEqual conversions b a := by
  rw [looseEqual_eq, looseEqual_eq, mixedEq_comm]

theorem looseEqual_trans_iff {a b d : Operand} (ha : Held a) (hb : Held b) (hd : Held d) :
    (looseEqual conversions a b = true → looseEqual conversions b d = true →
      looseEqual conversions a d = true) ↔ ¬Intransitive a b d := by
  rw [looseEqual_eq, looseEqual_eq, looseEqual_eq, mixedEq_trans_iff, breaks_iff ha hb hd]

/-- Equal values that are null, the empty text and empty lists together lie in no broken triple. -/
theorem not_intransitive (h : ¬Differs v e) (d : Operand) : ¬Intransitive e v d := by
  obtain ⟨hnull, hempty, hhollow⟩ := not_not.mp h
  rintro (⟨hv, ⟨he, -⟩ | ⟨he, -⟩⟩ | ⟨hv, ⟨he, -⟩ | ⟨he, -⟩⟩)
  · rw [Operand.is_eq.mp (hnull.mp hv)] at he
    cases he
  · rw [Operand.is_eq.mp (hnull.mp hv)] at he
    exact he.2.2 rfl
  · rw [Operand.is_eq.mp (hempty.mpr he)] at hv
    cases hv
  · have he' := hhollow.mp hv
    cases e with
    | value w => exact he.2.2 he'
    | undefined => cases he
    | inherited key => cases he

theorem differs_comm : Differs e v ↔ Differs v e := by
  rw [Differs, Differs]
  exact not_congr (and_congr Iff.comm (and_congr Iff.comm Iff.comm))

theorem looseEqual_congr (hv : Held v) (he : Held e) (heq : looseEqual conversions v e = true)
    (hsame : ¬Differs v e) (hc : Holdable c) :
    looseEqual conversions v (.value c) = looseEqual conversions e (.value c) := by
  have heq' : looseEqual conversions e v = true := by rwa [looseEqual_comm]
  have hc' : Held (.value c) := hc
  rw [Bool.eq_iff_iff]
  constructor
  · exact (looseEqual_trans_iff he hv hc').mpr (not_intransitive hsame _) heq'
  · exact (looseEqual_trans_iff hv he hc').mpr (not_intransitive (mt differs_comm.mp hsame) _) heq

theorem looseEqual_of_none {a b : Operand} (h : reading a = none ∨ reading b = none) :
    looseEqual conversions a b = true ↔ textOf a = textOf b := by
  rw [looseEqual_eq, mixedEq_of_none h]

theorem looseEqual_of_zero {a b : Operand} (ha : reading a = some (finite 0))
    (hb : reading b = some (finite 0)) : looseEqual conversions a b = true := by
  rw [looseEqual_eq, mixedEq_of_isSome (by rw [ha]; rfl) (by rw [hb]; rfl), ha, hb]

/-- What equals a zero and has a number is a zero. -/
theorem reading_of_looseEqual {a b : Operand} (ha : reading a = some (finite 0))
    (hb : (reading b).isSome) (h : looseEqual conversions a b = true) :
    reading b = some (finite 0) := by
  rw [looseEqual_eq, mixedEq_of_isSome (by rw [ha]; rfl) hb, ha] at h
  exact h.symm

/-- A scalar that one of the values is equal to and the other is not. -/
def ToldApart (v e : Operand) : Prop :=
  ∃ c, isScalar c = true ∧ Holdable c ∧
    looseEqual conversions v (.value c) ≠ looseEqual conversions e (.value c)

theorem ToldApart.symm (h : ToldApart v e) : ToldApart e v := by
  obtain ⟨c, hscalar, hc, hne⟩ := h
  exact ⟨c, hscalar, hc, hne.symm⟩

theorem toldApart_of (hscalar : isScalar c = true) (hc : Holdable c)
    (hv : looseEqual conversions v (.value c) = true)
    (he : ¬looseEqual conversions e (.value c) = true) : ToldApart v e :=
  ⟨c, hscalar, hc, fun heq => he (heq ▸ hv)⟩

theorem toldApart_of_null (he : Held e)
    (heq : looseEqual conversions (.value .null) e = true) (hne : e ≠ .value .null) :
    ToldApart (.value .null) e := by
  have hnull := textOf_eq_nullText he
  rcases Option.eq_none_or_eq_some (reading e) with hnone | ⟨x, hx⟩
  · have htext := (looseEqual_of_none (.inr hnone)).mp heq
    refine toldApart_of (c := .num 0) rfl (.num isDouble_zero) (looseEqual_of_zero rfl rfl) ?_
    rw [looseEqual_of_none (.inl hnone), ← htext]
    decide +kernel
  · have hzero := reading_of_looseEqual reading_null (by rw [hx]; rfl) heq
    refine toldApart_of (c := .str "null") rfl (.str _)
      ((looseEqual_of_none (.inr (by decide +kernel))).mpr rfl) ?_
    rw [looseEqual_of_none (.inr (by decide +kernel))]
    intro htext
    rcases hnull.mp htext with hnull | hspelled
    · exact hne (Operand.is_eq.mp hnull)
    · rw [(saysNull_reading he hspelled).1] at hzero
      cases hzero

theorem toldApart_of_empty (he : Held e)
    (heq : looseEqual conversions (.value (.str "")) e = true) (hne : e ≠ .value (.str "")) :
    ToldApart e (.value (.str "")) := by
  have htext := (looseEqual_of_none (.inl reading_empty)).mp heq
  have hhollow := ((textOf_eq_nil he).mp htext.symm).resolve_left fun h => hne (Operand.is_eq.mp h)
  refine toldApart_of (c := .num 0) rfl (.num isDouble_zero)
    (looseEqual_of_zero (hollow_reading he hhollow).1 rfl) ?_
  rw [looseEqual_of_none (.inl reading_empty)]
  decide +kernel

theorem toldApart_of_hollow (hv : Held v) (he : Held e) (hhollow : v.Is Hollow)
    (hnot : ¬e.Is Hollow) (hne : e ≠ .value (.str "")) : ToldApart v e := by
  obtain ⟨-, hnil⟩ := hollow_reading hv hhollow
  refine toldApart_of (c := .str "") rfl (.str _)
    ((looseEqual_of_none (.inr reading_empty)).mpr hnil) ?_
  rw [looseEqual_of_none (.inr reading_empty)]
  intro htext
  rcases (textOf_eq_nil he).mp htext with hempty | hhollow'
  · exact hne (Operand.is_eq.mp hempty)
  · exact hnot hhollow'

/-- Equal values that differ are told apart by a scalar. -/
theorem toldApart_of_differs (hv : Held v) (he : Held e)
    (heq : looseEqual conversions v e = true) (h : Differs v e) : ToldApart v e := by
  have heq' : looseEqual conversions e v = true := by rwa [looseEqual_comm]
  simp only [Differs, Operand.is_eq] at h
  by_cases hvnull : v = .value .null
  · subst hvnull
    refine toldApart_of_null he heq fun henull => h ?_
    rw [henull]
    exact ⟨Iff.rfl, Iff.rfl, Iff.rfl⟩
  by_cases henull : e = .value .null
  · subst henull
    exact (toldApart_of_null hv heq' hvnull).symm
  by_cases hvempty : v = .value (.str "")
  · subst hvempty
    refine (toldApart_of_empty he heq fun heempty => h ?_).symm
    rw [heempty]
    exact ⟨Iff.rfl, Iff.rfl, Iff.rfl⟩
  by_cases heempty : e = .value (.str "")
  · subst heempty
    exact toldApart_of_empty hv heq' hvempty
  have hothers := And.intro (iff_of_false hvnull henull) (iff_of_false hvempty heempty)
  by_cases hvhollow : v.Is Hollow
  · refine toldApart_of_hollow hv he hvhollow (fun hehollow => h ?_) heempty
    exact ⟨hothers.1, hothers.2, iff_of_true hvhollow hehollow⟩
  · have hehollow : e.Is Hollow := by
      by_contra hehollow
      exact h ⟨hothers.1, hothers.2, iff_of_false hvhollow hehollow⟩
    exact (toldApart_of_hollow he hv hehollow hvhollow hvempty).symm

theorem looseEqual_equivalence_iff (a b d : FieldValue) :
    looseEqual conversions a.1 a.1 = true ∧
    looseEqual conversions a.1 b.1 = looseEqual conversions b.1 a.1 ∧
    ((looseEqual conversions a.1 b.1 = true → looseEqual conversions b.1 d.1 = true →
      looseEqual conversions a.1 d.1 = true) ↔ ¬Intransitive a.1 b.1 d.1) ∧
    ((looseEqual conversions a.1 b.1 = true → ∀ c, IsCondition c →
      evaluateCondition conversions a.1 c = evaluateCondition conversions b.1 c) ↔
      ¬(looseEqual conversions a.1 b.1 = true ∧ Differs a.1 b.1)) := by
  refine ⟨?_, looseEqual_comm a.1 b.1, looseEqual_trans_iff a.2 b.2 d.2, ?_, ?_⟩
  · rw [looseEqual_eq, mixedEq_refl]
  · rintro hall ⟨heq, hdiffers⟩
    obtain ⟨c, hscalar, hc, hne⟩ := toldApart_of_differs a.2 b.2 heq hdiffers
    obtain ⟨s, rfl⟩ := exists_scalar.mpr hscalar
    have hsame := hall heq _ (.scalar hscalar hc)
    rw [evaluateCondition_scalar, evaluateCondition_scalar] at hsame
    exact hne hsame
  · intro hnot heq c hc
    refine evaluateCondition_congr (fun d hd => ?_) hc
    exact looseEqual_congr a.2 b.2 heq (fun hdiffers => hnot ⟨heq, hdiffers⟩) hd

/-- The word `null` equals null and null equals zero; the empty list equals the empty text and
zero. -/
theorem not_looseEqual_equivalence :
    (¬∀ a b d : FieldValue, looseEqual conversions a.1 b.1 = true →
      looseEqual conversions b.1 d.1 = true → looseEqual conversions a.1 d.1 = true) ∧
    ¬∀ v e : FieldValue, looseEqual conversions v.1 e.1 = true → ∀ c, IsCondition c →
      evaluateCondition conversions v.1 c = evaluateCondition conversions e.1 c := by
  have hzero : Holdable (.num 0) := .num isDouble_zero
  have hword : looseEqual conversions (.value (.str "null")) (.value .null) = true := by
    decide +kernel
  have hnull : looseEqual conversions (.value .null) (.value (.num 0)) = true := by decide +kernel
  have hnot : looseEqual conversions (.value (.str "null")) (.value (.num 0)) = false := by
    decide +kernel
  have hempty : looseEqual conversions (.value (.str "")) (.value (.arr [])) = true := by
    decide +kernel
  have hdiffer : evaluateCondition conversions (.value (.str "")) (.num 0) ≠
      evaluateCondition conversions (.value (.arr [])) (.num 0) := by decide +kernel
  refine ⟨fun h => ?_, fun h => hdiffer ?_⟩
  · have hequal := h ⟨.value (.str "null"), Holdable.str _⟩ ⟨.value .null, Holdable.null⟩
      ⟨.value (.num 0), hzero⟩ hword hnull
    rw [hnot] at hequal
    cases hequal
  · exact h ⟨.value (.str ""), Holdable.str _⟩ ⟨.value (.arr []), Holdable.arr nofun⟩ hempty
      (.num 0) (.scalar rfl hzero)

end Conditions

end ZoneweaverAgent.FieldDsl
