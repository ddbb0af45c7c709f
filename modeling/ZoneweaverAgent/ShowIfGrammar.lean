import ZoneweaverAgent.FieldDslAccepted

/-!
# The closed grammar of `show_if`

The grammar as syntax of its own, with the meaning its documentation gives: a map is the conjunction
of its conditions, `any` the disjunction of its maps, a condition is a test, a negated test or one
comparison with a number, and a test is equality with a scalar or with one of a list. The lint and
the evaluator are compared with it.
-/

namespace ZoneweaverAgent.FieldDsl

inductive Scalar
  | null
  | bool (value : Bool)
  | num (value : ℚ)
  | str (value : String)

inductive Test
  | equals (scalar : Scalar)
  | oneOf (scalars : List Scalar)

inductive Comparator
  | gt
  | gte
  | lt
  | lte

inductive Condition
  | test (t : Test)
  | negated (t : Test)
  | compare (cmp : Comparator) (bound : ℚ)

/-- All of these conditions on operands. -/
abbrev Conditions := List (String × Condition)

inductive Clause
  | operand (key : String) (condition : Condition)
  | anyOf (maps : List Conditions)

abbrev ShowIf := List Clause

/-! ## How it is written -/

def Scalar.toJson : Scalar → Json
  | null => .null
  | bool b => .bool b
  | num q => .num q
  | str s => .str s

def Test.toJson : Test → Json
  | equals scalar => scalar.toJson
  | oneOf scalars => .arr (scalars.map Scalar.toJson)

def Comparator.key : Comparator → String
  | gt => "gt"
  | gte => "gte"
  | lt => "lt"
  | lte => "lte"

def Condition.toJson : Condition → Json
  | test t => t.toJson
  | negated t => .obj [("not", t.toJson)]
  | compare cmp bound => .obj [(cmp.key, .num bound)]

def Conditions.toJson (conditions : Conditions) : Json :=
  .obj (conditions.map fun e => (e.1, e.2.toJson))

def Clause.toEntry : Clause → String × Json
  | operand key condition => (key, condition.toJson)
  | anyOf maps => ("any", .arr (maps.map Conditions.toJson))

def ShowIf.toJson (showIf : ShowIf) : Json := .obj (showIf.map Clause.toEntry)

def Conditions.Legal (operands : List String) (conditions : Conditions) : Prop :=
  ∀ e ∈ conditions, e.1 ≠ "any" ∧ e.1 ∈ operands

def Clause.Legal (operands : List String) : Clause → Prop
  | operand key _ => key ≠ "any" ∧ key ∈ operands
  | anyOf maps => maps ≠ [] ∧ ∀ conditions ∈ maps, Conditions.Legal operands conditions

def ShowIf.Legal (operands : List String) (showIf : ShowIf) : Prop :=
  ∀ clause ∈ showIf, clause.Legal operands

/-! ## What it means -/

section Meaning
variable (coerce : Coercions)

def Test.Holds (value : Operand) : Test → Prop
  | equals scalar => looseEqual coerce value (.value scalar.toJson) = true
  | oneOf scalars => ∃ scalar ∈ scalars, looseEqual coerce value (.value scalar.toJson) = true

def Comparator.Holds : Comparator → Numeric → Numeric → Prop
  | gt, operand, bound => bound < operand
  | gte, operand, bound => bound ≤ operand
  | lt, operand, bound => operand < bound
  | lte, operand, bound => operand ≤ bound

/-- A comparison fails on an operand that is no number. -/
def Condition.Holds (value : Operand) : Condition → Prop
  | test t => t.Holds coerce value
  | negated t => ¬t.Holds coerce value
  | compare cmp bound =>
    ∃ operand, coerce.number value = some operand ∧ cmp.Holds operand (finite bound)

def Conditions.Holds (ctx : Values) (conditions : Conditions) : Prop :=
  ∀ e ∈ conditions, e.2.Holds coerce (read ctx e.1)

def Clause.Holds (ctx : Values) : Clause → Prop
  | operand key condition => condition.Holds coerce (read ctx key)
  | anyOf maps => ∃ conditions ∈ maps, Conditions.Holds coerce ctx conditions

def ShowIf.Holds (ctx : Values) (showIf : ShowIf) : Prop :=
  ∀ clause ∈ showIf, clause.Holds coerce ctx

end Meaning

/-! ## The evaluator gives the meaning -/

section Evaluation
variable {coerce : Coercions}

theorem evaluateCondition_scalar (value : Operand) (scalar : Scalar) :
    evaluateCondition coerce value scalar.toJson =
      looseEqual coerce value (.value scalar.toJson) := by
  cases scalar <;> simp only [Scalar.toJson, evaluateCondition]

theorem evaluateCondition_test (value : Operand) (t : Test) :
    evaluateCondition coerce value t.toJson = true ↔ t.Holds coerce value := by
  cases t with
  | equals scalar => rw [Test.toJson, evaluateCondition_scalar, Test.Holds]
  | oneOf scalars => simp only [Test.toJson, evaluateCondition, Test.Holds, List.any_map,
      List.any_eq_true, Function.comp_apply]

theorem evaluateComparator_key (hnumber : ∀ q, coerce.number (.value (.num q)) = some (finite q))
    (value : Operand) (cmp : Comparator) (bound : ℚ) :
    evaluateComparator coerce value [(cmp.key, .num bound)] = true ↔
      ∃ operand, coerce.number value = some operand ∧ cmp.Holds operand (finite bound) := by
  have hfind : comparators.find? (fun c => KeyedList.has [(cmp.key, Json.num bound)] c) =
      some cmp.key := by
    cases cmp <;> rfl
  have hread : read [(cmp.key, Json.num bound)] cmp.key = .value (.num bound) := by
    cases cmp <;> rfl
  unfold evaluateComparator
  rw [hfind]
  simp only [hread, hnumber]
  cases coerce.number value with
  | none => simp
  | some operand =>
    cases cmp <;> simp [Comparator.key, Comparator.Holds, compareWith]

theorem evaluateCondition_toJson
    (hnumber : ∀ q, coerce.number (.value (.num q)) = some (finite q)) (value : Operand)
    (condition : Condition) :
    evaluateCondition coerce value condition.toJson = true ↔ condition.Holds coerce value := by
  cases condition with
  | test t => exact evaluateCondition_test value t
  | negated t =>
    simp only [Condition.toJson, Condition.Holds, evaluateCondition, evaluateNot, if_true,
      Option.getD_some, Bool.not_eq_true', ← evaluateCondition_test, Bool.not_eq_true]
  | compare cmp bound =>
    have hnot : cmp.key ≠ "not" := by cases cmp <;> decide
    simp only [Condition.toJson, Condition.Holds, evaluateCondition, evaluateNot, if_neg hnot,
      Option.getD_none]
    exact evaluateComparator_key hnumber value cmp bound

theorem evaluateEntries_eq_true (ctx : Values) (entries : List (String × Json)) :
    evaluateEntries coerce ctx entries = true ↔ ∀ e ∈ entries,
      (if e.1 = "any" then evaluateAnyOf coerce ctx e.2
      else evaluateCondition coerce (read ctx e.1) e.2) = true := by
  induction entries with
  | nil => simp [evaluateEntries]
  | cons e rest ih =>
    simp only [evaluateEntries, Bool.and_eq_true, ih, List.forall_mem_cons]

theorem evaluateAny_eq_true (ctx : Values) (maps : List Json) :
    evaluateAny coerce ctx maps = true ↔ ∃ map ∈ maps, evaluateShowIf coerce ctx map = true := by
  induction maps with
  | nil => simp [evaluateAny]
  | cons map rest ih => simp [evaluateAny, ih]

variable (hnumber : ∀ q, coerce.number (.value (.num q)) = some (finite q))
include hnumber

theorem evaluateShowIf_conditions {operands : List String} (ctx : Values) {conditions : Conditions}
    (h : conditions.Legal operands) :
    evaluateShowIf coerce ctx conditions.toJson = true ↔ conditions.Holds coerce ctx := by
  simp only [Conditions.toJson, evaluateShowIf, evaluateEntries_eq_true, List.forall_mem_map,
    Conditions.Holds]
  apply forall₂_congr
  intro e he
  rw [if_neg (h e he).1, evaluateCondition_toJson hnumber]

theorem evaluateShowIf_toJson {operands : List String} (ctx : Values) {showIf : ShowIf}
    (h : showIf.Legal operands) :
    evaluateShowIf coerce ctx showIf.toJson = true ↔ showIf.Holds coerce ctx := by
  simp only [ShowIf.toJson, evaluateShowIf, evaluateEntries_eq_true, List.forall_mem_map,
    ShowIf.Holds]
  apply forall₂_congr
  intro clause hclause
  have hlegal := h clause hclause
  cases clause with
  | operand key condition =>
    have hkey : (Clause.operand key condition).toEntry.1 ≠ "any" := hlegal.1
    rw [if_neg hkey]
    exact evaluateCondition_toJson hnumber _ condition
  | anyOf maps =>
    simp only [Clause.toEntry, if_true, Clause.Holds, evaluateAnyOf, evaluateAny_eq_true,
      List.mem_map, exists_exists_and_eq_and]
    apply exists_congr
    intro conditions
    apply and_congr_right
    intro hconditions
    exact evaluateShowIf_conditions hnumber ctx (hlegal.2 conditions hconditions)

end Evaluation

/-! ## The rules on the outermost level and the ones below -/

def isScalar : Json → Bool
  | .arr _ => false
  | .obj _ => false
  | _ => true

def isTest : Json → Bool
  | .arr entries => entries.all isScalar
  | condition => isScalar condition

/-- A condition object has one key, `not` or a comparator with a number. -/
def wellKeyed : Json → Bool
  | .obj [(key, bound)] => key == "not" || (key ∈ comparators && bound.isNum)
  | .obj _ => false
  | _ => true

/-- Lists hold scalars, and `not` carries a scalar or a list of scalars. -/
def plainInside : Json → Bool
  | .obj [(key, condition)] => key ≠ "not" || isTest condition
  | .obj _ => true
  | condition => isTest condition

section Shape
variable (p : String → Json → Bool)

def conditionsOf : Json → Bool
  | .obj entries => entries.all fun e => e.1 ≠ "any" && p e.1 e.2
  | _ => false

def anyOfConditions : Json → Bool
  | .arr maps => !maps.isEmpty && maps.all (conditionsOf p)
  | _ => false

/-- A map of conditions that satisfy `p`, at the top and in the maps of `any`. -/
def showIfOf : Json → Bool
  | .obj entries => entries.all fun e =>
    if e.1 = "any" then anyOfConditions p e.2 else p e.1 e.2
  | _ => false

end Shape

theorem showIfOf_and (p q : String → Json → Bool) (showIf : Json) :
    showIfOf (fun key condition => p key condition && q key condition) showIf = true ↔
      showIfOf p showIf = true ∧ showIfOf q showIf = true := by
  have hconditions : ∀ map, conditionsOf (fun key condition => p key condition && q key condition)
      map = true ↔ conditionsOf p map = true ∧ conditionsOf q map = true := by
    intro map
    cases map with
    | obj entries =>
      simp only [conditionsOf, List.all_eq_true, Bool.and_eq_true, ← forall₂_and]
      grind
    | _ => simp [conditionsOf]
  have hanyOf : ∀ condition, anyOfConditions (fun key condition => p key condition &&
      q key condition) condition = true ↔
      anyOfConditions p condition = true ∧ anyOfConditions q condition = true := by
    intro condition
    cases condition with
    | arr maps =>
      simp only [anyOfConditions, List.all_eq_true, Bool.and_eq_true, hconditions]
      grind
    | _ => simp [anyOfConditions]
  cases showIf with
  | obj entries =>
    simp only [showIfOf, List.all_eq_true, ← forall₂_and]
    apply forall₂_congr
    intro e _
    split_ifs
    · exact hanyOf e.2
    · exact Bool.and_eq_true _ _ ▸ Iff.rfl
  | _ => simp [showIfOf]

/-! ## The lint checks the outermost level -/

theorem lintCondition_eq_nil {path key : String} {condition : Json} :
    lintCondition path key condition = [] ↔ wellKeyed condition = true := by
  cases condition with
  | obj entries =>
    cases entries with
    | nil => simp [lintCondition, wellKeyed]
    | cons e rest =>
      obtain ⟨k, bound⟩ := e
      cases rest with
      | nil =>
        simp only [lintCondition, wellKeyed]
        by_cases hnot : k = "not"
        · simp [hnot]
        · by_cases hcmp : k ∈ comparators
          · simp [hnot, hcmp, errorIf_eq_nil]
          · simp [hnot, hcmp]
      | cons e' rest => simp [lintCondition, wellKeyed]
  | _ => simp [lintCondition, wellKeyed]

def legalOuter (operands : List String) (key : String) (condition : Json) : Bool :=
  key ∈ operands && wellKeyed condition

theorem lintEntries_eq_nil {operands : List String} {path : String} (entries : List (String × Json)) :
    lintEntries operands path entries = [] ↔ ∀ e ∈ entries,
      if e.1 = "any" then lintAnyOf operands path e.2 = []
      else legalOuter operands e.1 e.2 = true := by
  induction entries with
  | nil => simp [lintEntries]
  | cons e rest ih =>
    simp only [lintEntries, List.append_eq_nil_iff, ih, List.forall_mem_cons]
    apply and_congr_left
    intro _
    split_ifs
    · exact Iff.rfl
    · rw [List.append_eq_nil_iff, errorIf_eq_nil, lintCondition_eq_nil]
      simp [legalOuter]

theorem field_any_eq_none {entries : List (String × Json)} :
    (Json.obj entries).field "any" = none ↔ ∀ e ∈ entries, e.1 ≠ "any" := by
  rw [Json.field]
  induction entries with
  | nil => simp
  | cons e rest ih =>
    rw [KeyedList.get_cons, List.forall_mem_cons, ← ih]
    by_cases hkey : e.1 = "any" <;> simp [hkey]

/-- A map of `any` is checked like a condition map without `any`. -/
theorem lintShowIf_plain {operands : List String} (path : String) {map : Json} :
    (map.isMap = true ∧ map.field "any" = none ∧ lintShowIf operands path map = []) ↔
      conditionsOf (legalOuter operands) map = true := by
  cases map with
  | obj entries =>
    rw [field_any_eq_none, lintShowIf, lintEntries_eq_nil]
    simp only [Json.isMap, conditionsOf, List.all_eq_true, Bool.and_eq_true, true_and,
      decide_eq_true_eq, forall₂_and]
    apply and_congr_right
    intro hplain
    apply forall₂_congr
    intro e he
    rw [if_neg (hplain e he)]
  | _ => simp [Json.isMap, conditionsOf]

theorem lintAny_eq_nil {operands : List String} {path : String} (i : ℕ) (maps : List Json) :
    lintAny operands path i maps = [] ↔
      maps.all (conditionsOf (legalOuter operands)) = true := by
  induction maps generalizing i with
  | nil => simp [lintAny]
  | cons map rest ih =>
    simp only [lintAny, List.append_eq_nil_iff, ih, List.all_cons, Bool.and_eq_true]
    apply and_congr_left
    intro _
    rw [← lintShowIf_plain (path ++ ".any[" ++ toString i ++ "]")]
    cases hmap : map.isMap with
    | false => simp
    | true =>
      cases hany : map.field "any" with
      | none => simp
      | some value => simp

theorem lintAnyOf_eq_nil {operands : List String} {path : String} {condition : Json} :
    lintAnyOf operands path condition = [] ↔
      anyOfConditions (legalOuter operands) condition = true := by
  cases condition with
  | arr maps =>
    cases maps with
    | nil => simp [lintAnyOf, anyOfConditions]
    | cons map rest => simp [lintAnyOf, anyOfConditions, lintAny_eq_nil]
  | _ => simp [lintAnyOf, anyOfConditions]

/-- The lint accepts what keeps the rules on maps, operands, keys and bounds. -/
theorem lintShowIf_eq_nil {operands : List String} {path : String} {showIf : Json} :
    lintShowIf operands path showIf = [] ↔ showIfOf (legalOuter operands) showIf = true := by
  cases showIf with
  | obj entries =>
    simp only [lintShowIf, lintEntries_eq_nil, showIfOf, List.all_eq_true]
    apply forall₂_congr
    intro e _
    split_ifs
    · exact lintAnyOf_eq_nil
    · exact Iff.rfl
  | _ => simp [lintShowIf, showIfOf]

/-! ## The grammar checks all levels -/

theorem exists_scalar {value : Json} : (∃ s : Scalar, s.toJson = value) ↔ isScalar value = true := by
  constructor
  · rintro ⟨s, rfl⟩
    cases s <;> rfl
  · intro h
    cases value with
    | null => exact ⟨.null, rfl⟩
    | bool b => exact ⟨.bool b, rfl⟩
    | num q => exact ⟨.num q, rfl⟩
    | str s => exact ⟨.str s, rfl⟩
    | arr items => cases h
    | obj entries => cases h

theorem exists_map_eq {α β : Type*} {P : α → Prop} {f : α → β} {l : List β} :
    (∃ as : List α, (∀ a ∈ as, P a) ∧ as.map f = l) ↔ ∀ b ∈ l, ∃ a, P a ∧ f a = b := by
  constructor
  · rintro ⟨as, has, rfl⟩ b hb
    obtain ⟨a, ha, rfl⟩ := List.mem_map.mp hb
    exact ⟨a, has a ha, rfl⟩
  · intro h
    induction l with
    | nil => exact ⟨[], by simp, rfl⟩
    | cons b rest ih =>
      obtain ⟨a, ha, hb⟩ := h b List.mem_cons_self
      obtain ⟨as, has, hrest⟩ := ih fun b hb => h b (List.mem_cons_of_mem _ hb)
      exact ⟨a :: as, List.forall_mem_cons.mpr ⟨ha, has⟩, by rw [List.map_cons, hb, hrest]⟩

theorem exists_test {value : Json} : (∃ t : Test, t.toJson = value) ↔ isTest value = true := by
  constructor
  · rintro ⟨t, rfl⟩
    cases t with
    | equals s => cases s <;> rfl
    | oneOf scalars =>
      simp only [Test.toJson, isTest, List.all_eq_true, List.forall_mem_map]
      intro s _
      exact exists_scalar.mp ⟨s, rfl⟩
  · intro h
    cases value with
    | arr items =>
      simp only [isTest, List.all_eq_true] at h
      have hscalars : ∀ item ∈ items, ∃ s : Scalar, True ∧ s.toJson = item := by
        intro item hitem
        simpa using exists_scalar.mpr (h item hitem)
      obtain ⟨scalars, -, hmap⟩ := exists_map_eq.mpr hscalars
      exact ⟨.oneOf scalars, by rw [Test.toJson, hmap]⟩
    | null => exact ⟨.equals .null, rfl⟩
    | bool b => exact ⟨.equals (.bool b), rfl⟩
    | num q => exact ⟨.equals (.num q), rfl⟩
    | str s => exact ⟨.equals (.str s), rfl⟩
    | obj entries => simp [isTest, isScalar] at h

theorem exists_condition {value : Json} : (∃ c : Condition, c.toJson = value) ↔
    wellKeyed value = true ∧ plainInside value = true := by
  constructor
  · rintro ⟨c, rfl⟩
    cases c with
    | test t =>
      have htest := exists_test.mp ⟨t, rfl⟩
      cases t with
      | equals s => cases s <;> exact ⟨rfl, rfl⟩
      | oneOf scalars => exact ⟨rfl, htest⟩
    | negated t =>
      have htest := exists_test.mp ⟨t, rfl⟩
      exact ⟨rfl, by simpa [Condition.toJson, plainInside] using htest⟩
    | compare cmp bound => cases cmp <;> exact ⟨rfl, rfl⟩
  · rintro ⟨hkeyed, hplain⟩
    have htest : isTest value = true → ∃ c : Condition, c.toJson = value := by
      intro h
      obtain ⟨t, ht⟩ := exists_test.mpr h
      exact ⟨.test t, ht⟩
    cases value with
    | obj entries =>
      cases entries with
      | nil => cases hkeyed
      | cons e rest =>
        obtain ⟨key, bound⟩ := e
        cases rest with
        | cons e' rest => cases hkeyed
        | nil =>
          by_cases hnot : key = "not"
          · subst hnot
            obtain ⟨t, rfl⟩ := exists_test.mpr (by simpa [plainInside] using hplain)
            exact ⟨.negated t, rfl⟩
          · simp only [wellKeyed, beq_iff_eq, Bool.or_eq_true, hnot, false_or, Bool.and_eq_true,
              decide_eq_true_eq] at hkeyed
            obtain ⟨hcmp, hnum⟩ := hkeyed
            cases bound with
            | num q =>
              have hkey : ∃ cmp : Comparator, cmp.key = key := by
                simp only [comparators, List.mem_cons, List.not_mem_nil, or_false] at hcmp
                rcases hcmp with rfl | rfl | rfl | rfl
                · exact ⟨.gt, rfl⟩
                · exact ⟨.gte, rfl⟩
                · exact ⟨.lt, rfl⟩
                · exact ⟨.lte, rfl⟩
              obtain ⟨cmp, rfl⟩ := hkey
              exact ⟨.compare cmp q, rfl⟩
            | _ => cases hnum
    | _ => exact htest hplain

/-- What a legal condition of the grammar is written as. -/
def legalCondition (operands : List String) (key : String) (condition : Json) : Bool :=
  legalOuter operands key condition && plainInside condition

theorem legalCondition_iff {operands : List String} {key : String} {value : Json} :
    legalCondition operands key value = true ↔
      key ∈ operands ∧ ∃ c : Condition, c.toJson = value := by
  rw [exists_condition]
  simp [legalCondition, legalOuter, and_assoc]

theorem exists_conditions {operands : List String} {map : Json} :
    (∃ conditions : Conditions, conditions.Legal operands ∧ conditions.toJson = map) ↔
      conditionsOf (legalCondition operands) map = true := by
  cases map with
  | obj entries =>
    have hentry : ∀ e : String × Json, (∃ c : String × Condition,
        (c.1 ≠ "any" ∧ c.1 ∈ operands) ∧ (c.1, c.2.toJson) = e) ↔
        e.1 ≠ "any" ∧ legalCondition operands e.1 e.2 = true := by
      intro e
      rw [legalCondition_iff]
      constructor
      · rintro ⟨c, ⟨hany, hmem⟩, rfl⟩
        exact ⟨hany, hmem, c.2, rfl⟩
      · rintro ⟨hany, hmem, c, hc⟩
        exact ⟨(e.1, c), ⟨hany, hmem⟩, by rw [hc]⟩
    simp only [conditionsOf, List.all_eq_true, Bool.and_eq_true, decide_eq_true_eq, ← hentry]
    rw [← exists_map_eq]
    simp only [Conditions.Legal, Conditions.toJson, Json.obj.injEq]
  | _ => simp [conditionsOf, Conditions.toJson]

theorem exists_anyOf {operands : List String} {value : Json} :
    (∃ maps : List Conditions, (maps ≠ [] ∧ ∀ m ∈ maps, Conditions.Legal operands m) ∧
        Json.arr (maps.map Conditions.toJson) = value) ↔
      anyOfConditions (legalCondition operands) value = true := by
  cases value with
  | arr items =>
    simp only [anyOfConditions, Bool.and_eq_true, List.all_eq_true, ← exists_conditions]
    rw [← exists_map_eq]
    simp only [Json.arr.injEq]
    constructor
    · rintro ⟨maps, ⟨hne, hlegal⟩, rfl⟩
      exact ⟨by simpa using hne, maps, hlegal, rfl⟩
    · rintro ⟨hne, maps, hlegal, rfl⟩
      exact ⟨maps, ⟨by simpa using hne, hlegal⟩, rfl⟩
  | _ => simp [anyOfConditions]

/-- The grammar over legal operands keeps the rules on every level. -/
theorem exists_showIf {operands : List String} {value : Json} :
    (∃ showIf : ShowIf, showIf.Legal operands ∧ showIf.toJson = value) ↔
      showIfOf (legalCondition operands) value = true := by
  cases value with
  | obj entries =>
    have hentry : ∀ e : String × Json, (∃ clause : Clause,
        clause.Legal operands ∧ clause.toEntry = e) ↔
        (if e.1 = "any" then anyOfConditions (legalCondition operands) e.2
          else legalCondition operands e.1 e.2) = true := by
      rintro ⟨key, value⟩
      constructor
      · rintro ⟨clause, hlegal, heq⟩
        cases clause with
        | operand key' condition =>
          obtain ⟨rfl, rfl⟩ := Prod.mk.injEq .. ▸ heq
          rw [if_neg hlegal.1]
          exact legalCondition_iff.mpr ⟨hlegal.2, condition, rfl⟩
        | anyOf maps =>
          obtain ⟨rfl, rfl⟩ := Prod.mk.injEq .. ▸ heq
          rw [if_pos rfl]
          exact exists_anyOf.mp ⟨maps, hlegal, rfl⟩
      · intro h
        split_ifs at h with hany
        · obtain ⟨maps, hlegal, hmaps⟩ := exists_anyOf.mpr h
          exact ⟨.anyOf maps, hlegal, Prod.ext hany.symm hmaps⟩
        · obtain ⟨hmem, c, hc⟩ := legalCondition_iff.mp h
          exact ⟨.operand key c, ⟨hany, hmem⟩, Prod.ext rfl hc⟩
    simp only [showIfOf, List.all_eq_true, ← hentry]
    rw [← exists_map_eq]
    simp only [ShowIf.Legal, ShowIf.toJson, Json.obj.injEq]
  | _ => simp [showIfOf, ShowIf.toJson]

/-! ## The lint and the grammar -/

/-- What the lint accepts is of the grammar and has the documented meaning, and the grammar over
legal operands is accepted. -/
structure LintMatches (coerce : Coercions) (operands : List String) (path : String)
    (value : Json) : Prop where
  sound : lintShowIf operands path value = [] → ∃ showIf : ShowIf, showIf.Legal operands ∧
    showIf.toJson = value ∧ ∀ ctx, evaluateShowIf coerce ctx value = true ↔ showIf.Holds coerce ctx
  complete : ∀ showIf : ShowIf, showIf.Legal operands → showIf.toJson = value →
    lintShowIf operands path value = []

/-- The lint matches the grammar exactly where a value that keeps the rules on maps, operands,
keys and bounds also holds scalars alone in its lists and tests alone under `not`. -/
theorem lint_matches_iff {coerce : Coercions}
    (hnumber : ∀ q, coerce.number (.value (.num q)) = some (finite q)) (operands : List String)
    (path : String) (value : Json) :
    LintMatches coerce operands path value ↔ (showIfOf (legalOuter operands) value = true →
      showIfOf (fun _ condition => plainInside condition) value = true) := by
  have hgrammar : showIfOf (legalCondition operands) value = true ↔
      showIfOf (legalOuter operands) value = true ∧
        showIfOf (fun _ condition => plainInside condition) value = true :=
    showIfOf_and (legalOuter operands) (fun _ condition => plainInside condition) value
  constructor
  · intro h houter
    obtain ⟨showIf, hlegal, htext, -⟩ := h.sound (lintShowIf_eq_nil.mpr houter)
    exact (hgrammar.mp (exists_showIf.mp ⟨showIf, hlegal, htext⟩)).2
  · intro h
    constructor
    · intro hlint
      have houter := lintShowIf_eq_nil.mp hlint
      obtain ⟨showIf, hlegal, rfl⟩ := exists_showIf.mpr (hgrammar.mpr ⟨houter, h houter⟩)
      exact ⟨showIf, hlegal, rfl, fun ctx => evaluateShowIf_toJson hnumber ctx hlegal⟩
    · intro showIf hlegal htext
      exact lintShowIf_eq_nil.mpr (hgrammar.mp (exists_showIf.mp ⟨showIf, hlegal, htext⟩)).1

theorem lint_matches_any : LintMatches plainEnvironment.toCoercions ["size", "tier"] "show_if"
    (.obj [("any", .arr [.obj [("size", .obj [("gte", .num 3)])],
      .obj [("tier", .obj [("not", .arr [.str "dev", .null])])]])]) :=
  (lint_matches_iff (fun _ => rfl) _ _ _).mpr fun _ => by decide

/-- A condition object of an unknown key under `not` is accepted. -/
theorem lint_matches_fails :
    ¬∀ (coerce : Coercions), (∀ q, coerce.number (.value (.num q)) = some (finite q)) →
      ∀ (operands : List String) (path : String) (value : Json),
        LintMatches coerce operands path value := by
  intro h
  have hmatches := h plainEnvironment.toCoercions (fun _ => rfl) ["tier"] "show_if"
    (.obj [("tier", .obj [("not", .obj [("oneOf", .arr [.str "dev"])])])])
  obtain ⟨showIf, hlegal, htext, -⟩ := hmatches.sound (lintShowIf_eq_nil.mpr (by decide))
  have hgrammar := exists_showIf.mp ⟨showIf, hlegal, htext⟩
  revert hgrammar
  decide

end ZoneweaverAgent.FieldDsl
