import ZoneweaverAgent.DerivedSchema

/-!
# Immutable fields

`validateAnswers` refuses a change of an immutable field after the first provision. It compares the
value a field has now, a default included, with the answer that was recorded, and by identity.
-/

namespace ZoneweaverAgent.FieldDsl

open HostsTemplate (isIn)

theorem eq_nil_iff_get {α : Type*} (m : KeyedList String α) : m = [] ↔ ∀ k, m.has k = false := by
  constructor
  · rintro rfl k
    rfl
  · intro h
    cases m with
    | nil => rfl
    | cons e rest =>
      have hhead := h e.1
      obtain ⟨key, value⟩ := e
      rw [KeyedList.has, KeyedList.get_cons, if_pos rfl] at hhead
      cases hhead

section Errors
variable (env : AnswerEnvironment)

/-- The value is missing, or its type or rules refuse it. -/
def refuses (field : Json) (value : Operand) : Bool :=
  (field.field "required").any Json.isTrue && isEmpty value ||
    ((typeError env field value).or (validateRuleError env field value)).isSome

variable {env} {options : ValidationOptions} {values : Values} {field : Json} {name k : String}

theorem has_assign {α : Type*} (m : KeyedList String α) (key : String) (v : α) (k : String) :
    (assign m key v).has k = true ↔ m.has k = true ∨ key = k ∧ k ≠ "__proto__" := by
  unfold KeyedList.has
  rw [get_assign]
  split_ifs with h
  · obtain ⟨rfl, hproto⟩ := h
    simp [hproto]
  · constructor
    · exact .inl
    · rintro (hold | ⟨rfl, hproto⟩)
      · exact hold
      · exact absurd ⟨rfl, hproto⟩ h

/-- A field gets an error where a check refuses its value or the change of it. -/
theorem has_validateField (errors : KeyedList String String) (hname : nameOf field = some name) :
    (validateField env options values errors field).has k = true ↔
      errors.has k = true ∨ (name = k ∧ k ≠ "__proto__") ∧
        (refuses env field (read values name) = true ∨
          isImmutable options field name (read values name) = true) := by
  simp only [validateField, hname, refuses]
  cases hrequired : (field.field "required").any Json.isTrue && isEmpty (read values name) with
  | true => simp [has_assign]
  | false =>
    cases hmessage : (typeError env field (read values name)).or
        (validateRuleError env field (read values name)) <;>
    cases himmutable : isImmutable options field name (read values name) <;>
    simp [has_assign, or_assoc]

theorem has_validateFields {fields : List Json} (errors : KeyedList String String) :
    (fields.foldl (validateField env options values) errors).has k = true ↔
      errors.has k = true ∨ k ≠ "__proto__" ∧ ∃ field ∈ fields, nameOf field = some k ∧
        (refuses env field (read values k) = true ∨
          isImmutable options field k (read values k) = true) := by
  induction fields generalizing errors with
  | nil => simp
  | cons field rest ih =>
    rw [List.foldl_cons, ih]
    cases hname : nameOf field with
    | none =>
      have hskip : validateField env options values errors field = errors := by
        simp only [validateField, hname]
      simp [hskip, hname]
    | some name =>
      rw [has_validateField errors hname]
      constructor
      · rintro ((h | ⟨⟨rfl, hproto⟩, h⟩) | ⟨hproto, f, hf, h⟩)
        · exact .inl h
        · exact .inr ⟨hproto, field, List.mem_cons_self, hname, h⟩
        · exact .inr ⟨hproto, f, List.mem_cons_of_mem _ hf, h⟩
      · rintro (h | ⟨hproto, f, hf, hnamed, h⟩)
        · exact .inl (.inl h)
        · rcases List.mem_cons.mp hf with rfl | hf
          · obtain rfl := Option.some.inj (hname.symm.trans hnamed)
            exact .inl (.inr ⟨⟨rfl, hproto⟩, h⟩)
          · exact .inr ⟨hproto, f, hf, hnamed, h⟩

/-- What a field inherits from the object prototype has none of the types. -/
theorem refuses_inherited (key : String) (htype : ∃ type ∈ fieldTypes,
    field.field "type" = some (.str type)) : refuses env field (.inherited key) = true := by
  have hsome : (typeError env field (.inherited key)).isSome = true := by
    unfold typeError
    simp only [isBlankOperand, Bool.false_eq_true, if_false]
    split_ifs with hnumber hcheckbox hselect hstring
    · rfl
    · rfl
    · unfold optionTypeError
      split_ifs
      · rfl
      · dsimp only
        split_ifs <;> rfl
    · -- every other type is one of texts
      obtain ⟨type, hmem, hfield⟩ := htype
      simp only [typeIs, hfield, decide_eq_true_eq, Option.some.injEq, Json.str.injEq,
        Bool.or_eq_true, not_or] at hnumber hcheckbox hselect
      simp only [hfield, Option.bind_some, Json.text?, Option.any_some, Bool.not_eq_true',
        decide_eq_false_iff_not] at hstring
      simp only [fieldTypes, stringTypes, List.mem_cons, List.not_mem_nil, or_false] at hmem hstring
      tauto
    · rfl
  unfold refuses
  rw [Option.isSome_or, hsome]
  simp

end Errors

section Immutable
variable (env : AnswerEnvironment) (configuration : Option Json) (roleFlags previous answers : Values)

/-- Visible fields with the flag, under their names. -/
def ImmutableVisible (answers : Values) (field : Json) (name : String) : Prop :=
  field ∈ (computeVisibility env.toCoercions configuration answers roleFlags).visibleFields ∧
    nameOf field = some name ∧ (field.field "immutable").any Json.isTrue = true

def effectiveValue (answers : Values) (name : String) : Operand :=
  read (computeVisibility env.toCoercions configuration answers roleFlags).values name

def afterProvision : ValidationOptions where
  previousAnswers := some previous
  provisioned := true

/-- The recorded answers stay valid, and no other answers change an immutable field. -/
structure ImmutableKept : Prop where
  resubmitted : (validateAnswers env configuration previous roleFlags
    (afterProvision previous)).errors = []
  refused : ∀ field name, ImmutableVisible env configuration roleFlags previous field name →
    ImmutableVisible env configuration roleFlags answers field name →
    effectiveValue env configuration roleFlags previous name ≠
      effectiveValue env configuration roleFlags answers name →
    (validateAnswers env configuration answers roleFlags
      (afterProvision previous)).errors.has name = true

/-- An immutable field was answered with a scalar or not at all, and one that changes was answered,
or its own checks refuse the new value. -/
structure ImmutableComparable : Prop where
  scalar : ∀ field name, ImmutableVisible env configuration roleFlags previous field name →
    name ≠ "__proto__" →
      (∀ v, previous.get name = some v → v.isObject = false) ∧
      (previous.get name = none → name ∉ objectPrototype)
  answered : ∀ field name, ImmutableVisible env configuration roleFlags previous field name →
    ImmutableVisible env configuration roleFlags answers field name →
    effectiveValue env configuration roleFlags previous name ≠
      effectiveValue env configuration roleFlags answers name →
    isIn previous name = true ∨
      refuses env field (effectiveValue env configuration roleFlags answers name) = true

variable {env configuration roleFlags previous answers} {roles : List Json} {field : Json}
  {name : String}

theorem visible_value (hacc : Accepted env.toLintEnvironment roles (listOf configuration "groups")
    (listOf configuration "fields")) (hkeys : answers.keys.Nodup) (hname : nameOf field = some name)
    (hvisible : field ∈
      (computeVisibility env.toCoercions configuration answers roleFlags).visibleFields) :
    (computeVisibility env.toCoercions configuration answers roleFlags).values.get name =
      if name = "__proto__" then none else effective (listOf configuration "fields") answers name := by
  rw [computeVisibility_passOf] at hvisible ⊢
  have hshown := not_hidden_of_visible hacc.distinct hname hvisible
  unfold passOf at hshown ⊢
  rw [(passAfter_get hacc.named name).2, if_neg hshown, mergeValues_get hacc.distinct hkeys]

theorem has_validateAnswers (options : ValidationOptions) (k : String) :
    (validateAnswers env configuration answers roleFlags options).errors.has k = true ↔
      (undeclaredErrors (listOf configuration "fields") answers).has k = true ∨
        k ≠ "__proto__" ∧ ∃ field ∈
          (computeVisibility env.toCoercions configuration answers roleFlags).visibleFields,
          nameOf field = some k ∧
            (refuses env field (effectiveValue env configuration roleFlags answers k) = true ∨
              isImmutable options field k
                (effectiveValue env configuration roleFlags answers k) = true) :=
  has_validateFields _

theorem changed_self (v : Json) : changed (.value v) (.value v) = v.isObject := by
  cases v <;> simp [changed, strictEqual, Json.isObject]

theorem changed_of_ne {value other : Operand} (h : value ≠ other) : changed value other = true := by
  cases value with
  | value v =>
    have hne : ∀ o, other = .value o → v ≠ o := by
      rintro o rfl rfl
      exact h rfl
    cases other with
    | value o => cases v <;> simp_all [changed, strictEqual]
    | _ => cases v <;> simp [changed, strictEqual]
  | _ => simpa [changed] using h

/-- What validated before is refused for a change of an immutable field only. -/
theorem resubmitted_iff {first : ValidationOptions}
    (hvalid : (validateAnswers env configuration previous roleFlags first).errors = []) :
    (validateAnswers env configuration previous roleFlags (afterProvision previous)).errors = [] ↔
      ∀ field name, ImmutableVisible env configuration roleFlags previous field name →
        name ≠ "__proto__" → isIn previous name = true →
        changed (effectiveValue env configuration roleFlags previous name) (read previous name) =
          false := by
  rw [eq_nil_iff_get] at hvalid ⊢
  have hfirst : ∀ k, ¬(validateAnswers env configuration previous roleFlags first).errors.has k =
      true := fun k => by simp [hvalid k]
  constructor
  · rintro h field name ⟨hmem, hname, himmutable⟩ hproto hin
    have hnone := h name
    by_contra hchanged
    rw [(has_validateAnswers _ name).mpr (.inr ⟨hproto, field, hmem, hname, .inr ?_⟩)] at hnone
    · cases hnone
    · simp only [isImmutable, himmutable, afterProvision, Option.any_some, hin, Bool.true_and]
      simpa using hchanged
  · intro h k
    rw [Bool.eq_false_iff]
    intro hhas
    rcases (has_validateAnswers _ k).mp hhas with hundeclared | ⟨hproto, field, hmem, hname, hor⟩
    · exact hfirst k ((has_validateAnswers _ k).mpr (.inl hundeclared))
    · rcases hor with hrefused | hchange
      · exact hfirst k ((has_validateAnswers _ k).mpr
          (.inr ⟨hproto, field, hmem, hname, .inl hrefused⟩))
      · simp only [isImmutable, afterProvision, Option.any_some, Bool.and_eq_true] at hchange
        obtain ⟨⟨himmutable, -⟩, hin, hchanged⟩ := hchange
        rw [h field k ⟨hmem, hname, himmutable⟩ hproto hin] at hchanged
        cases hchanged

theorem declared_of_undeclared {fields : List Json} {k : String}
    (h : (undeclaredErrors fields answers).has k = true) :
    ¬(k ≠ "" ∧ k ∈ fields.filterMap nameOf) := by
  unfold undeclaredErrors at h
  generalize answers.keys = keys at h
  induction keys using List.reverseRecOn with
  | nil => cases h
  | append_singleton pre key ih =>
    rw [List.foldl_append, List.foldl_cons, List.foldl_nil] at h
    split_ifs at h with hdeclared
    · exact ih h
    · rcases (has_assign _ _ _ _).mp h with hold | ⟨rfl, -⟩
      · exact ih hold
      · exact hdeclared

section Accepted
variable (hacc : Accepted env.toLintEnvironment roles (listOf configuration "groups")
  (listOf configuration "fields")) (hkeys : previous.keys.Nodup)
include hacc hkeys

omit hkeys in
theorem accepted_visible (hvisible : ImmutableVisible env configuration roleFlags answers field name) :
    field ∈ listOf configuration "fields" ∧ name ≠ "" ∧
      ∃ type ∈ fieldTypes, field.field "type" = some (.str type) := by
  obtain ⟨hmem, hname, -⟩ := hvisible
  rw [computeVisibility_passOf] at hmem
  have hfield := visibleFields_subset _ field hmem
  obtain ⟨pre, post, hsplit⟩ := List.append_of_mem hfield
  obtain ⟨name', haccepted⟩ := hacc.fields pre field post hsplit
  obtain rfl := Option.some.inj (hname.symm.trans haccepted.named)
  refine ⟨hfield, ?_, haccepted.typed⟩
  rintro rfl
  have hlegal := haccepted.legal
  revert hlegal
  decide

theorem effectiveValue_of_answer {v : Json} (hproto : name ≠ "__proto__")
    (hvisible : ImmutableVisible env configuration roleFlags previous field name)
    (hanswer : previous.get name = some v) :
    effectiveValue env configuration roleFlags previous name = .value v := by
  unfold effectiveValue read
  rw [visible_value hacc hkeys hvisible.2.1 hvisible.1, if_neg hproto, effective, hanswer]
  rfl

omit hkeys in
/-- A field that gives a value where it was not answered has a default. -/
theorem effectiveValue_of_inherited (hkeys' : answers.keys.Nodup) (hproto : name ≠ "__proto__")
    (hvisible : ImmutableVisible env configuration roleFlags answers field name)
    (hinherited : effectiveValue env configuration roleFlags answers name = .inherited name) :
    effective (listOf configuration "fields") answers name = none := by
  unfold effectiveValue read at hinherited
  rw [visible_value hacc hkeys' hvisible.2.1 hvisible.1, if_neg hproto] at hinherited
  cases heffective : effective (listOf configuration "fields") answers name with
  | none => rfl
  | some v =>
    rw [heffective] at hinherited
    cases hinherited

/-- The recorded answer of a field is taken for unchanged where it is a scalar. -/
theorem unchanged_iff {first : ValidationOptions}
    (hvalid : (validateAnswers env configuration previous roleFlags first).errors = [])
    (hproto : name ≠ "__proto__")
    (hvisible : ImmutableVisible env configuration roleFlags previous field name) :
    (isIn previous name = true →
        changed (effectiveValue env configuration roleFlags previous name) (read previous name) =
          false) ↔
      (∀ v, previous.get name = some v → v.isObject = false) ∧
        (previous.get name = none → name ∉ objectPrototype) := by
  cases hanswer : previous.get name with
  | some v =>
    have hin : isIn previous name = true := by simp [isIn, KeyedList.has, hanswer]
    have hread : read previous name = .value v := by simp [read, hanswer]
    rw [effectiveValue_of_answer hacc hkeys hproto hvisible hanswer, hread, changed_self]
    simp [hin]
  | none =>
    have hin : isIn previous name = true ↔ name ∈ objectPrototype := by
      simp [isIn, KeyedList.has, hanswer]
    rw [hin]
    constructor
    · intro h
      refine ⟨by simp, fun _ hmem => ?_⟩
      have hread : read previous name = .inherited name := by simp [read, hanswer, hmem]
      have hne : effectiveValue env configuration roleFlags previous name ≠ read previous name := by
        intro heq
        rw [hread] at heq
        have hhas := (@has_validateAnswers env configuration roleFlags previous first name).mpr
          (.inr ⟨hproto, field, hvisible.1, hvisible.2.1, .inl (heq ▸ refuses_inherited name
            (accepted_visible hacc hvisible).2.2)⟩)
        rw [hvalid] at hhas
        cases hhas
      have hchanged := changed_of_ne hne
      rw [h hmem] at hchanged
      cases hchanged
    · rintro ⟨-, hnot⟩ hmem
      exact absurd hmem (hnot rfl)

/-- A change of a field is refused where the field was answered, or else by its own checks. -/
theorem refused_iff (hkeys' : answers.keys.Nodup)
    (hbefore : ImmutableVisible env configuration roleFlags previous field name)
    (hafter : ImmutableVisible env configuration roleFlags answers field name)
    (hne : effectiveValue env configuration roleFlags previous name ≠
      effectiveValue env configuration roleFlags answers name) :
    (validateAnswers env configuration answers roleFlags
        (afterProvision previous)).errors.has name = true ↔
      isIn previous name = true ∨
        refuses env field (effectiveValue env configuration roleFlags answers name) = true := by
  have hproto : name ≠ "__proto__" := by
    rintro rfl
    apply hne
    unfold effectiveValue read
    rw [visible_value hacc hkeys hbefore.2.1 hbefore.1,
      visible_value hacc hkeys' hafter.2.1 hafter.1]
    rfl
  obtain ⟨hfield, hempty, -⟩ := accepted_visible hacc hafter
  rw [has_validateAnswers]
  constructor
  · rintro (hundeclared | ⟨-, other, hother, hname, hor⟩)
    · exact absurd ⟨hempty, List.mem_filterMap.mpr ⟨field, hfield, hbefore.2.1⟩⟩
        (declared_of_undeclared hundeclared)
    · rw [computeVisibility_passOf] at hother
      have hsame : some other = some field :=
        (ownerNamed_of_mem hacc.distinct (visibleFields_subset _ other hother) hname).symm.trans
          (ownerNamed_of_mem hacc.distinct hfield hbefore.2.1)
      obtain rfl := Option.some.inj hsame
      rcases hor with hrefused | hchange
      · exact .inr hrefused
      · simp only [isImmutable, afterProvision, Option.any_some, Bool.and_eq_true] at hchange
        exact .inl hchange.2.1
  · rintro (hin | hrefused)
    · have hother : effectiveValue env configuration roleFlags answers name ≠ read previous name := by
        intro heq
        cases hanswer : previous.get name with
        | some v =>
          rw [effectiveValue_of_answer hacc hkeys hproto hbefore hanswer] at hne
          exact hne (by rw [heq, read, hanswer])
        | none =>
          have hmem : name ∈ objectPrototype := by
            simpa [isIn, KeyedList.has, hanswer] using hin
          have hread : read previous name = .inherited name := by simp [read, hanswer, hmem]
          rw [hread] at heq
          have hnone := effectiveValue_of_inherited hacc hkeys' hproto hafter heq
          obtain ⟨-, hdefault⟩ := Option.or_eq_none_iff.mp hnone
          apply hne
          rw [heq]
          unfold effectiveValue read
          rw [visible_value hacc hkeys hbefore.2.1 hbefore.1, if_neg hproto, effective, hanswer,
            hdefault]
          simp [hmem]
      refine .inr ⟨hproto, field, hafter.1, hafter.2.1, .inr ?_⟩
      simp only [isImmutable, afterProvision, Option.any_some, hafter.2.2, hin,
        changed_of_ne hother, Bool.and_self]
    · exact .inr ⟨hproto, field, hafter.1, hafter.2.1, .inl hrefused⟩

end Accepted

/-- For an accepted configuration and answers that validated, the recorded answers can be sent again
and other answers change no immutable field, exactly where no such answer is a list and every field
that changes was answered. -/
theorem immutable_kept_iff (env : AnswerEnvironment) (configuration : Option Json)
    (roles selection : List Json) (previous answers : Values) (first : ValidationOptions)
    (hlint : lintConfiguration env.toLintEnvironment configuration roles = [])
    (hkeys : previous.keys.Nodup) (hkeys' : answers.keys.Nodup)
    (hvalid : (validateAnswers env configuration previous (buildShowIfRoleFlags selection)
      first).errors = []) :
    ImmutableKept env configuration (buildShowIfRoleFlags selection) previous answers ↔
      ImmutableComparable env configuration (buildShowIfRoleFlags selection) previous answers := by
  have hacc := accepted_of_lint hlint
  constructor
  · rintro ⟨hresubmitted, hrefused⟩
    constructor
    · intro field name hvisible hproto
      rw [← unchanged_iff hacc hkeys hvalid hproto hvisible]
      exact (resubmitted_iff hvalid).mp hresubmitted field name hvisible hproto
    · intro field name hbefore hafter hne
      rw [← refused_iff hacc hkeys hkeys' hbefore hafter hne]
      exact hrefused field name hbefore hafter hne
  · rintro ⟨hscalar, hanswered⟩
    constructor
    · apply (resubmitted_iff hvalid).mpr
      intro field name hvisible hproto
      rw [unchanged_iff hacc hkeys hvalid hproto hvisible]
      exact hscalar field name hvisible hproto
    · intro field name hbefore hafter hne
      rw [refused_iff hacc hkeys hkeys' hbefore hafter hne]
      exact hanswered field name hbefore hafter hne

/-- A cluster with its disks and its size, both fixed by the first provision. -/
def fixedCluster : Json :=
  .obj [("fields", .arr [
    .obj [("name", .str "disks"), ("type", .str "multiselect"), ("immutable", .bool true),
      ("options", .arr [.str "a", .str "b"])],
    .obj [("name", .str "size"), ("type", .str "number"), ("immutable", .bool true),
      ("default", .num 3)]])]

theorem immutable_kept_size :
    ImmutableKept plainAnswerEnvironment (some fixedCluster) (buildShowIfRoleFlags [])
        [("size", .num 3)] [("size", .num 5)] ↔
      ImmutableComparable plainAnswerEnvironment (some fixedCluster) (buildShowIfRoleFlags [])
        [("size", .num 3)] [("size", .num 5)] :=
  immutable_kept_iff plainAnswerEnvironment (some fixedCluster) [] [] [("size", .num 3)]
    [("size", .num 5)] ⟨none, false⟩ (by decide +kernel) (by decide) (by decide)
    (by decide +kernel)

/-- A list that is sent again counts as changed. -/
theorem immutable_kept_fails :
    ¬∀ (env : AnswerEnvironment) (configuration : Option Json) (roles selection : List Json)
      (previous : Values) (first : ValidationOptions),
      lintConfiguration env.toLintEnvironment configuration roles = [] → previous.keys.Nodup →
      (validateAnswers env configuration previous (buildShowIfRoleFlags selection)
        first).errors = [] →
      ∀ answers : Values, answers.keys.Nodup →
        ImmutableKept env configuration (buildShowIfRoleFlags selection) previous answers := by
  intro h
  have hresubmitted := (h plainAnswerEnvironment (some fixedCluster) [] []
    [("disks", .arr [.str "a"])] ⟨none, false⟩ (by decide +kernel) (by decide) (by decide +kernel)
    [] (by decide)).resubmitted
  revert hresubmitted
  decide +kernel

end Immutable

end ZoneweaverAgent.FieldDsl
