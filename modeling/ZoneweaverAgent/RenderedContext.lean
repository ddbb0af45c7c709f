import ZoneweaverAgent.ImmutableFields

/-!
# The rendered context against the validated values

The context of a hosts template keeps settings, role flags, role files and fields under one set of
names. What a template sees of a field is compared with what `validateAnswers` has checked.
-/

namespace ZoneweaverAgent.HostsTemplate

open FieldDsl

section Names
variable (env : TemplateEnvironment)

/-- The names a role takes: its own, its flags and its files. -/
def roleNames (role : Json) : List String :=
  match nameOf role with
  | none => []
  | some name =>
    [name, sanitizeVar env name, (sanitizeVar env name).toLower] ++
      (roleFileSuffixes.filter fun e => ((filesOf role).field e.2).any Json.truthy).map fun e =>
        sanitizeVar env name ++ e.1

/-- The names in a context that are no field's. -/
def reservedNames (input : TemplateInput) : List String :=
  ["settings", "networks", "disks", "roles"] ++ input.settings.keys.map (sanitizeVar env) ++
    input.roles.flatMap (roleNames env)

variable {env} {k : String}

theorem has_assign_iff {α : Type*} (m : KeyedList String α) (key : String) (v : α) :
    (assign m key v).has k = true ↔ m.has k = true ∨ k = key ∧ k ≠ "__proto__" := by
  rw [has_assign, @eq_comm _ key k]

theorem has_foldl_assign {α β : Type*} (entries : List β) (key : β → String) (value : β → α)
    (m : KeyedList String α) :
    (entries.foldl (fun m e => assign m (key e) (value e)) m).has k = true ↔
      m.has k = true ∨ k ∈ entries.map key ∧ k ≠ "__proto__" := by
  induction entries generalizing m with
  | nil => simp
  | cons e rest ih =>
    rw [List.foldl_cons, ih, has_assign_iff, List.map_cons, List.mem_cons, or_assoc, ← or_and_right]

theorem mem_keys_buildRoleFlags (roles : List Json) :
    k ∈ (buildRoleFlags env roles).keys ↔ (∃ role ∈ roles, ∃ name, nameOf role = some name ∧
      k ∈ [name, sanitizeVar env name, (sanitizeVar env name).toLower]) ∧ k ≠ "__proto__" := by
  rw [← KeyedList.has_iff_mem_keys]
  unfold buildRoleFlags
  induction roles using List.reverseRecOn with
  | nil => simp [KeyedList.has]
  | append_singleton pre role ih =>
    rw [List.foldl_append, List.foldl_cons, List.foldl_nil]
    simp only [List.mem_append, List.mem_singleton, or_and_right, exists_or, exists_eq_left]
    rw [← ih]
    cases nameOf role with
    | none => simp
    | some name =>
      simp only [has_assign_iff, List.mem_cons, List.not_mem_nil, or_false, Option.some.injEq,
        exists_eq_left', or_assoc, ← or_and_right]

theorem has_roleFileVars (ctx : Context) (upper : String) (files : Json) :
    (roleFileVars ctx upper files).has k = true ↔ ctx.has k = true ∨
      k ∈ (roleFileSuffixes.filter fun e => (files.field e.2).any Json.truthy).map
        (fun e => upper ++ e.1) ∧ k ≠ "__proto__" := by
  unfold roleFileVars
  generalize roleFileSuffixes = suffixes
  induction suffixes generalizing ctx with
  | nil => simp
  | cons e rest ih =>
    rw [List.foldl_cons, ih, List.filter_cons]
    cases hfile : files.field e.2 with
    | none => simp
    | some value =>
      cases htruthy : value.truthy with
      | false => simp [htruthy]
      | true =>
        simp only [if_true, has_assign_iff, Option.any_some, htruthy, List.map_cons, List.mem_cons,
          or_assoc, ← or_and_right]

theorem has_foldl_roleFileVars (roles : List Json) (ctx : Context) :
    (roles.foldl (fun ctx role =>
      match nameOf role with
      | none => ctx
      | some name => roleFileVars ctx (sanitizeVar env name) (filesOf role)) ctx).has k = true ↔
      ctx.has k = true ∨ (∃ role ∈ roles, ∃ name, nameOf role = some name ∧
        k ∈ (roleFileSuffixes.filter fun e => ((filesOf role).field e.2).any Json.truthy).map
          fun e => sanitizeVar env name ++ e.1) ∧ k ≠ "__proto__" := by
  induction roles generalizing ctx with
  | nil => simp
  | cons role rest ih =>
    rw [List.foldl_cons, ih]
    cases hname : nameOf role with
    | none => simp [hname]
    | some name =>
      simp only [has_roleFileVars, List.mem_cons, or_and_right, exists_or, exists_eq_left, hname,
        Option.some.injEq, exists_eq_left', or_assoc]

/-- Before the fields enter it, the context has the reserved names. -/
theorem has_baseContext (input : TemplateInput) :
    (baseContext env input).has k = true ↔ k ∈ reservedNames env input ∧ k ≠ "__proto__" := by
  have hnames : k ∈ input.roles.flatMap (roleNames env) ↔
      (∃ role ∈ input.roles, ∃ name, nameOf role = some name ∧
        k ∈ [name, sanitizeVar env name, (sanitizeVar env name).toLower]) ∨
      ∃ role ∈ input.roles, ∃ name, nameOf role = some name ∧
        k ∈ (roleFileSuffixes.filter fun e => ((filesOf role).field e.2).any Json.truthy).map
          fun e => sanitizeVar env name ++ e.1 := by
    rw [List.mem_flatMap, ← exists_or]
    apply exists_congr
    intro role
    rw [← and_or_left]
    apply and_congr_right
    intro _
    cases hname : nameOf role with
    | none => simp [roleNames, hname]
    | some name => simp only [roleNames, hname, List.mem_append, Option.some.injEq, exists_eq_left']
  have hfirst : KeyedList.has [("settings", Operand.value (.obj input.settings)),
      ("networks", .value input.networks), ("disks", .value input.disks),
      ("roles", .value (.arr (input.roles.map roleEntry)))] k = true ↔
      k ∈ ["settings", "networks", "disks", "roles"] ∧ k ≠ "__proto__" := by
    rw [KeyedList.has_iff_mem_keys]
    constructor
    · intro hmem
      refine ⟨hmem, ?_⟩
      rintro rfl
      revert hmem
      simp [KeyedList.keys]
    · exact fun hmem => hmem.1
  apply (has_foldl_roleFileVars _ _).trans
  rw [has_foldl_assign, has_foldl_assign, hfirst, reservedNames, List.mem_append, List.mem_append,
    hnames]
  have hflags : k ∈ List.map (fun e : String × Bool => e.1) (buildRoleFlags env input.roles) ↔ _ :=
    mem_keys_buildRoleFlags input.roles
  rw [hflags, KeyedList.keys, List.map_map]
  simp only [or_and_right, and_assoc, and_self, or_assoc, Function.comp_def]

end Names

section Fields
variable {answers : Values} {ctx : Context} {field : Json} {fields : List Json} {name k : String}

theorem isIn_congr {m m' : Context} (h : m.get k = m'.get k) : isIn m k = isIn m' k := by
  simp only [isIn, KeyedList.has, h]

theorem get_assignField (hname : nameOf field = some name) :
    (assignField answers ctx field).get k =
      if name = k ∧ k ≠ "__proto__" then
        if isIn answers k then some (read answers k)
        else if isIn ctx k then ctx.get k
        else (field.field "default").map .value
      else ctx.get k := by
  unfold assignField
  simp only [hname]
  by_cases hk : name = k
  · subst hk
    cases isIn answers name with
    | true => simp [get_assign]
    | false =>
      cases hdefault : field.field "default" with
      | none =>
        cases hin : isIn ctx name with
        | true => simp
        | false =>
          have hnone : ctx.get name = none := by simp_all [isIn, KeyedList.has]
          simp [hnone]
      | some d =>
        cases hin : isIn ctx name <;> simp [get_assign]
  · have hframe : ∀ v, (assign ctx name v).get k = ctx.get k := by
      intro v
      rw [get_assign, if_neg (fun hc => hk hc.1)]
    rw [if_neg (fun hc : name = k ∧ _ => hk hc.1)]
    split_ifs
    · exact hframe _
    · cases field.field "default" <;> rfl
    · cases field.field "default" with
      | none => rfl
      | some d => exact hframe _

/-- The entry a field gets is decided by what was there before any field. -/
theorem get_assignFields (hdistinct : (fields.filterMap nameOf).Nodup) (k : String) :
    (fields.foldl (assignField answers) ctx).get k =
      match fields.find? fun field => nameOf field = some k with
      | some field => (assignField answers ctx field).get k
      | none => ctx.get k := by
  induction fields generalizing ctx with
  | nil => rfl
  | cons field rest ih =>
    rw [List.foldl_cons]
    cases hname : nameOf field with
    | none =>
      rw [List.filterMap_cons_none hname] at hdistinct
      have hskip : assignField answers ctx field = ctx := by simp only [assignField, hname]
      rw [hskip, ih hdistinct, List.find?_cons_of_neg (by simp [hname])]
    | some name =>
      rw [List.filterMap_cons_some hname, List.nodup_cons] at hdistinct
      rw [ih hdistinct.2]
      by_cases hk : name = k
      · subst hk
        have hnone : rest.find? (fun field => nameOf field = some name) = none := by
          rw [List.find?_eq_none]
          intro other hother hname'
          exact hdistinct.1 (List.mem_filterMap.mpr ⟨other, hother, by simpa using hname'⟩)
        rw [hnone, List.find?_cons_of_pos (by simp [hname])]
      · have hsame : (assignField answers ctx field).get k = ctx.get k := by
          rw [get_assignField hname, if_neg (fun hc => hk hc.1)]
        rw [List.find?_cons_of_neg (by simp [hname, hk])]
        cases hfind : rest.find? fun field => nameOf field = some k with
        | none => exact hsame
        | some other =>
          have hother : nameOf other = some k := by simpa using List.find?_some hfind
          simp only [get_assignField hother, isIn_congr hsame, hsame]

end Fields

section Rendered
variable (env : AnswerEnvironment) (template : TemplateEnvironment) (input : TemplateInput)
  (options : ValidationOptions)

def validated : AnswerValidation :=
  validateAnswers env input.version.configuration (contextAnswers template input)
    (buildShowIfRoleFlags input.roles) options

/-- Apart from the names of the secrets, a template sees each field with the value that was
validated, and nothing under the name of a hidden one. -/
structure RenderedAsValidated : Prop where
  visible : ∀ field ∈ listOf input.version.configuration "fields", ∀ k, nameOf field = some k →
    k ∉ (validated env template input options).hidden → k ∉ template.secretsTemplateVars.keys →
      (buildTemplateContext template input).get k =
        ((validated env template input options).values.get k).map .value
  hidden : ∀ k ∈ (validated env template input options).hidden,
    k ∉ template.secretsTemplateVars.keys → (buildTemplateContext template input).get k = none

/-- A hidden field has no reserved name, and neither has a visible one that is not answered, unless
what stands there is its default. -/
structure NamesApart : Prop where
  visible : ∀ field ∈ listOf input.version.configuration "fields", ∀ k, nameOf field = some k →
    k ∉ (validated env template input options).hidden → k ∉ template.secretsTemplateVars.keys →
    k ≠ "__proto__" → (contextAnswers template input).get k = none →
      k ∉ objectPrototype ∧ (k ∉ reservedNames template input ∨
        (baseContext template input).get k = (field.field "default").map .value)
  hidden : ∀ k ∈ (validated env template input options).hidden,
    k ∉ template.secretsTemplateVars.keys → k ≠ "__proto__" → k ∉ reservedNames template input

variable {env template input options}

theorem get_buildTemplateContext {k : String} (hsecret : k ∉ template.secretsTemplateVars.keys) :
    (buildTemplateContext template input).get k =
      ((computeVisibility template.toCoercions input.version.configuration
        (contextAnswers template input) (buildShowIfRoleFlags input.roles)).visibleFields.foldl
          (assignField (contextAnswers template input)) (baseContext template input)).get k := by
  unfold buildTemplateContext
  simp only
  generalize template.secretsTemplateVars = secrets at hsecret ⊢
  generalize List.foldl _ (baseContext template input) _ = ctx
  induction secrets generalizing ctx with
  | nil => rfl
  | cons e rest ih =>
    obtain ⟨hne, hrest⟩ := not_or.mp (fun hc => hsecret (List.mem_cons.mpr hc))
    rw [List.foldl_cons, ih hrest, get_assign, if_neg (fun hc => hne hc.1.symm)]

section Accepted
variable {roles : List Json} {field : Json} {k : String}
  (hcoerce : template.toCoercions = env.toCoercions)
  (hacc : Accepted env.toLintEnvironment roles (listOf input.version.configuration "groups")
    (listOf input.version.configuration "fields"))
include hcoerce hacc

omit hcoerce in
theorem visibleFields_distinct : ((computeVisibility env.toCoercions input.version.configuration
    (contextAnswers template input) (buildShowIfRoleFlags input.roles)).visibleFields.filterMap
      nameOf).Nodup := by
  rw [computeVisibility_passOf]
  exact (List.nodup_append.mp ((names_perm _).nodup_iff.mpr hacc.distinct)).1

theorem context_of_visible (hfield : field ∈ listOf input.version.configuration "fields")
    (hname : nameOf field = some k)
    (hvisible : k ∉ (validated env template input options).hidden)
    (hsecret : k ∉ template.secretsTemplateVars.keys) :
    (buildTemplateContext template input).get k =
      (assignField (contextAnswers template input) (baseContext template input) field).get k := by
  have hmem := mem_visibleFields_of_not_hidden hacc.distinct hfield hname hvisible
  have hdistinct := @visibleFields_distinct env template input roles hacc
  have hfind := ownerNamed_of_mem hdistinct hmem hname
  unfold ownerNamed at hfind
  rw [get_buildTemplateContext hsecret, hcoerce, get_assignFields hdistinct, hfind]

theorem context_of_hidden (hhidden : k ∈ (validated env template input options).hidden)
    (hsecret : k ∉ template.secretsTemplateVars.keys) :
    (buildTemplateContext template input).get k = (baseContext template input).get k := by
  have hdistinct := @visibleFields_distinct env template input roles hacc
  have hnone : (computeVisibility env.toCoercions input.version.configuration
      (contextAnswers template input) (buildShowIfRoleFlags input.roles)).visibleFields.find?
        (fun field => nameOf field = some k) = none := by
    rw [List.find?_eq_none]
    intro other hother hname
    rw [computeVisibility_passOf] at hother
    exact not_hidden_of_visible hacc.distinct (by simpa using hname) hother hhidden
  rw [get_buildTemplateContext hsecret, hcoerce, get_assignFields hdistinct, hnone]

/-- A visible field is rendered as it was validated unless it is not answered and its name stands
for something else. -/
theorem visible_rendered_iff (hkeys : (contextAnswers template input).keys.Nodup)
    (hfield : field ∈ listOf input.version.configuration "fields") (hname : nameOf field = some k)
    (hvisible : k ∉ (validated env template input options).hidden)
    (hsecret : k ∉ template.secretsTemplateVars.keys) :
    (buildTemplateContext template input).get k =
        ((validated env template input options).values.get k).map .value ↔
      (k ≠ "__proto__" → (contextAnswers template input).get k = none →
        k ∉ objectPrototype ∧ (k ∉ reservedNames template input ∨
          (baseContext template input).get k = (field.field "default").map .value)) := by
  have hmem := mem_visibleFields_of_not_hidden hacc.distinct hfield hname hvisible
  have hvalue : (validated env template input options).values.get k =
      if k = "__proto__" then none
      else effective (listOf input.version.configuration "fields") (contextAnswers template input) k :=
    visible_value hacc hkeys hname hmem
  have hdefault : effective (listOf input.version.configuration "fields")
      (contextAnswers template input) k =
        ((contextAnswers template input).get k).or (field.field "default") := by
    rw [effective, ownerNamed_of_mem hacc.distinct hfield hname]
    rfl
  rw [context_of_visible hcoerce hacc hfield hname hvisible hsecret, get_assignField hname, hvalue,
    hdefault]
  by_cases hproto : k = "__proto__"
  · have hnone : (baseContext template input).get k = none := by
      have hhas : ¬(baseContext template input).has k = true := by
        rw [has_baseContext]
        exact fun hc => hc.2 hproto
      simpa [KeyedList.has] using hhas
    simp [hproto, ← hnone]
  · simp only [hproto, ne_eq, not_false_eq_true, and_self, if_true, if_false, true_imp_iff]
    cases hanswer : (contextAnswers template input).get k with
    | some v =>
      have hin : isIn (contextAnswers template input) k = true := by
        simp [isIn, KeyedList.has, hanswer]
      simp [hin, FieldDsl.read, hanswer]
    | none =>
      by_cases hinherited : k ∈ objectPrototype
      · have hin : isIn (contextAnswers template input) k = true := by
          simp [isIn, hinherited]
        have hread : FieldDsl.read (contextAnswers template input) k = .inherited k := by
          simp [FieldDsl.read, hanswer, hinherited]
        cases field.field "default" <;> simp [hin, hread, hinherited]
      · have hin : isIn (contextAnswers template input) k = false := by
          simp [isIn, KeyedList.has, hanswer, hinherited]
        have hbase : isIn (baseContext template input) k = true ↔
            k ∈ reservedNames template input := by
          have hhas := @has_baseContext template k input
          simp [isIn, hinherited, hhas, hproto]
        by_cases hreserved : k ∈ reservedNames template input
        · simp [hin, hbase.mpr hreserved, hreserved, hinherited]
        · have hout : isIn (baseContext template input) k = false := by
            simpa using fun hc => hreserved (hbase.mp hc)
          simp [hin, hout, hreserved, hinherited]

theorem hidden_rendered_iff (hhidden : k ∈ (validated env template input options).hidden)
    (hsecret : k ∉ template.secretsTemplateVars.keys) :
    (buildTemplateContext template input).get k = none ↔
      (k ≠ "__proto__" → k ∉ reservedNames template input) := by
  rw [context_of_hidden hcoerce hacc hhidden hsecret]
  have hhas := @has_baseContext template k input
  rw [KeyedList.has] at hhas
  constructor
  · intro hnone hproto hreserved
    have hsome := hhas.mpr ⟨hreserved, hproto⟩
    rw [hnone] at hsome
    cases hsome
  · intro h
    by_contra hsome
    obtain ⟨hreserved, hproto⟩ := hhas.mp (Option.isSome_iff_ne_none.mpr hsome)
    exact h hproto hreserved

end Accepted

/-- For an accepted configuration, every setting, role and answer: what was validated is what a
template sees, exactly where the names keep apart. -/
theorem rendered_as_validated_iff (env : AnswerEnvironment) (template : TemplateEnvironment)
    (input : TemplateInput) (options : ValidationOptions) (roles : List Json)
    (hcoerce : template.toCoercions = env.toCoercions)
    (hlint : lintConfiguration env.toLintEnvironment input.version.configuration roles = [])
    (hkeys : (contextAnswers template input).keys.Nodup) :
    RenderedAsValidated env template input options ↔ NamesApart env template input options := by
  have hacc := accepted_of_lint hlint
  constructor
  · rintro ⟨hvisible, hhidden⟩
    constructor
    · intro field hfield k hname hshown hsecret
      exact (visible_rendered_iff hcoerce hacc hkeys hfield hname hshown hsecret).mp
        (hvisible field hfield k hname hshown hsecret)
    · intro k hk hsecret
      exact (hidden_rendered_iff hcoerce hacc hk hsecret).mp (hhidden k hk hsecret)
  · rintro ⟨hvisible, hhidden⟩
    constructor
    · intro field hfield k hname hshown hsecret
      exact (visible_rendered_iff hcoerce hacc hkeys hfield hname hshown hsecret).mpr
        (hvisible field hfield k hname hshown hsecret)
    · intro k hk hsecret
      exact (hidden_rendered_iff hcoerce hacc hk hsecret).mpr (hhidden k hk hsecret)

/-- Letters of a name in capitals, no secrets. -/
def plainTemplates : TemplateEnvironment where
  toCoercions := plainEnvironment.toCoercions
  upperCase := String.toUpper
  secretsTemplateVars := []

/-- A host with an answer, a default and a field that is not shown. -/
def plainHost : TemplateInput where
  version := ⟨"1.0.0", some (.obj [("fields", .arr [
    .obj [("name", .str "DOMAIN"), ("type", .str "text")],
    .obj [("name", .str "SYNC_METHOD"), ("type", .str "text"), ("default", .str "scp")],
    .obj [("name", .str "domino"), ("type", .str "checkbox"),
      ("show_if", .obj [("DOMAIN", .str "local")])]])]), fun _ => []⟩
  settings := [("sync_method", .str "rsync")]
  networks := .arr []
  disks := .obj []
  roles := [.obj [("name", .str "domino"), ("enabled", .bool true)]]
  properties := [("DOMAIN", .str "example")]
  answersFromVersion := none

theorem rendered_as_validated_plain :
    RenderedAsValidated plainAnswerEnvironment plainTemplates plainHost ⟨none, false⟩ ↔
      NamesApart plainAnswerEnvironment plainTemplates plainHost ⟨none, false⟩ :=
  rendered_as_validated_iff plainAnswerEnvironment plainTemplates plainHost ⟨none, false⟩
    [.obj [("name", .str "domino")]] rfl (by decide +kernel) (by decide)

/-- A setting takes the place of a default, and a role flag that of a hidden field. -/
theorem rendered_as_validated_fails :
    ¬∀ (env : AnswerEnvironment) (template : TemplateEnvironment) (input : TemplateInput)
      (options : ValidationOptions) (roles : List Json), template.toCoercions = env.toCoercions →
      lintConfiguration env.toLintEnvironment input.version.configuration roles = [] →
      (contextAnswers template input).keys.Nodup →
      (validated env template input options).errors = [] →
      RenderedAsValidated env template input options := by
  intro h
  have hhidden := (h plainAnswerEnvironment plainTemplates plainHost ⟨none, false⟩
    [.obj [("name", .str "domino")]] rfl (by decide +kernel) (by decide)
    (by decide +kernel)).hidden "domino" (by decide +kernel) (by decide)
  revert hhidden
  decide +kernel

end Rendered

end ZoneweaverAgent.HostsTemplate
