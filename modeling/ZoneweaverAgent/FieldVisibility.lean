import ZoneweaverAgent.FieldDslAccepted

/-!
# Visibility of the fields of an accepted configuration

The pass of `computeVisibility` evaluates each condition against a context that is still being
shrunk. What it leaves behind is compared with the final context: the role flags and the values of
the visible fields.
-/

namespace ZoneweaverAgent.FieldDsl

/-! ## Values and contexts -/

section Contexts
variable {α : Type*}

/-- Assignments one after another. -/
def assignAll (entries target : KeyedList String α) : KeyedList String α :=
  entries.foldl (fun acc e => assign acc e.1 e.2) target

theorem get_assign (m : KeyedList String α) (k k' : String) (v : α) :
    (assign m k v).get k' = if k = k' ∧ k ≠ "__proto__" then some v else m.get k' := by
  unfold assign
  by_cases hproto : k = "__proto__"
  · simp [hproto]
  · rw [if_neg hproto, KeyedList.get_set]
    simp [hproto]

theorem nodup_keys_assign {m : KeyedList String α} (h : m.keys.Nodup) (k : String) (v : α) :
    (assign m k v).keys.Nodup := by
  unfold assign
  split_ifs
  · exact h
  · exact KeyedList.nodup_keys_set h k v

theorem nodup_keys_assignAll {m : KeyedList String α} (h : m.keys.Nodup)
    (entries : KeyedList String α) : (assignAll entries m).keys.Nodup := by
  induction entries generalizing m with
  | nil => exact h
  | cons e rest ih => exact ih (nodup_keys_assign h e.1 e.2)

theorem get_assignAll {entries : KeyedList String α} (h : entries.keys.Nodup)
    (m : KeyedList String α) (k : String) :
    (assignAll entries m).get k =
      if k = "__proto__" then m.get k else (entries.get k).or (m.get k) := by
  induction entries generalizing m with
  | nil => simp [assignAll]
  | cons e rest ih =>
    obtain ⟨k₀, v₀⟩ := e
    have hnodup : k₀ ∉ KeyedList.keys rest ∧ (KeyedList.keys rest).Nodup := List.nodup_cons.mp h
    have hcons : assignAll ((k₀, v₀) :: rest) m = assignAll rest (assign m k₀ v₀) := rfl
    rw [hcons, ih hnodup.2, get_assign, KeyedList.get_cons]
    by_cases hk : k₀ = k
    · subst hk
      have hnone : KeyedList.get rest k₀ = none := by
        cases hget : KeyedList.get rest k₀ with
        | none => rfl
        | some v => exact absurd (List.mem_map_of_mem (KeyedList.mem_of_get hget)) hnodup.1
      by_cases hproto : k₀ = "__proto__" <;> simp [hproto, hnone]
    · simp [hk]

/-- What the owners give under their names. -/
def namedEntries (f : Json → Option α) (owners : List Json) : KeyedList String α :=
  owners.filterMap fun owner => (nameOf owner).bind fun name => (f owner).map (name, ·)

def ownerNamed (owners : List Json) (name : String) : Option Json :=
  owners.find? fun owner => nameOf owner = some name

theorem keys_namedEntries_sublist (f : Json → Option α) (owners : List Json) :
    (namedEntries f owners).keys.Sublist (owners.filterMap nameOf) := by
  induction owners with
  | nil => exact List.Sublist.slnil
  | cons owner rest ih =>
    unfold namedEntries at ih ⊢
    cases hname : nameOf owner with
    | none => simpa [List.filterMap_cons, hname] using ih
    | some name =>
      cases hf : f owner with
      | none => simpa [List.filterMap_cons, hname, hf] using ih.trans (List.sublist_cons_self _ _)
      | some v => simpa [List.filterMap_cons, hname, hf, KeyedList.keys] using ih

theorem get_namedEntries (f : Json → Option α) {owners : List Json}
    (h : (owners.filterMap nameOf).Nodup) (name : String) :
    (namedEntries f owners).get name = (ownerNamed owners name).bind f := by
  induction owners with
  | nil => rfl
  | cons owner rest ih =>
    unfold namedEntries ownerNamed at ih ⊢
    cases hname : nameOf owner with
    | none =>
      rw [List.filterMap_cons_none hname] at h
      simpa [List.filterMap_cons, hname] using ih h
    | some n =>
      rw [List.filterMap_cons_some hname, List.nodup_cons] at h
      by_cases hn : n = name
      · subst hn
        cases hf : f owner with
        | none =>
          have hnone : (namedEntries f rest).get n = none := by
            cases hget : (namedEntries f rest).get n with
            | none => rfl
            | some v =>
              exact absurd ((keys_namedEntries_sublist f rest).subset
                (List.mem_map_of_mem (KeyedList.mem_of_get hget))) h.1
          unfold namedEntries at hnone
          simpa [List.filterMap_cons, hname, hf] using hnone
        | some v => simp [hname, hf, KeyedList.get_cons]
      · cases hf : f owner with
        | none => simpa [List.filterMap_cons, hname, hf, hn] using ih h.2
        | some v => simpa [List.filterMap_cons, hname, hf, hn, KeyedList.get_cons] using ih h.2

theorem mem_of_ownerNamed {owners : List Json} {name : String} {owner : Json}
    (h : ownerNamed owners name = some owner) : owner ∈ owners ∧ nameOf owner = some name :=
  ⟨List.mem_of_find?_eq_some h, by simpa using List.find?_some h⟩

theorem ownerNamed_of_mem {owners : List Json} (h : (owners.filterMap nameOf).Nodup)
    {name : String} {owner : Json} (hmem : owner ∈ owners) (hname : nameOf owner = some name) :
    ownerNamed owners name = some owner := by
  induction owners with
  | nil => cases hmem
  | cons first rest ih =>
    unfold ownerNamed at ih ⊢
    rw [List.find?_cons]
    rcases List.mem_cons.mp hmem with rfl | hmem
    · simp [hname]
    · have hne : nameOf first ≠ some name := by
        intro hfirst
        rw [List.filterMap_cons_some hfirst, List.nodup_cons] at h
        exact h.1 (List.mem_filterMap.mpr ⟨owner, hmem, hname⟩)
      simp only [hne, decide_false]
      exact ih (h.sublist ((List.sublist_cons_self first rest).filterMap nameOf)) hmem

end Contexts

/-- The answer of a field, or else its default. -/
def effective (fields : List Json) (answers : Values) (name : String) : Option Json :=
  (answers.get name).or ((ownerNamed fields name).bind (·.field "default"))

theorem defaultValues_eq (fields : List Json) :
    defaultValues fields = assignAll (namedEntries (·.field "default") fields) [] := by
  unfold defaultValues assignAll namedEntries
  rw [List.foldl_filterMap]
  congr 1
  funext acc field
  cases nameOf field with
  | none => rfl
  | some name => cases hdefault : field.field "default" <;> simp [hdefault]

theorem mergeValues_get {fields : List Json} (hfields : (fields.filterMap nameOf).Nodup)
    {answers : Values} (hanswers : answers.keys.Nodup) (k : String) :
    (mergeValues fields answers).get k =
      if k = "__proto__" then none else effective fields answers k := by
  have hentries : (namedEntries (·.field "default") fields).keys.Nodup :=
    hfields.sublist (keys_namedEntries_sublist _ _)
  change (assignAll answers (defaultValues fields)).get k = _
  rw [get_assignAll hanswers, defaultValues_eq, get_assignAll hentries, get_namedEntries _ hfields]
  by_cases hk : k = "__proto__" <;> simp [hk, effective]

theorem nodup_keys_mergeValues (fields : List Json) (answers : Values) :
    (mergeValues fields answers).keys.Nodup := by
  refine nodup_keys_assignAll ?_ answers
  rw [defaultValues_eq]
  have hnil : (KeyedList.keys ([] : Values)).Nodup := List.nodup_nil
  exact nodup_keys_assignAll hnil _

theorem contextOf_get (roleFlags : Values) {values : Values} (h : values.keys.Nodup) (k : String) :
    (contextOf roleFlags values).get k = (values.get k).or (roleFlags.get k) :=
  KeyedList.get_setAll h roleFlags k

/-! ## The pass -/

section Pass
variable (coerce : Coercions) (groupVisible : KeyedList String Bool) (ctx values : Values)

/-- The state of the pass after the fields `pre`. -/
def passAfter (pre : List Json) : Pass :=
  pre.foldl (visitField coerce groupVisible) ⟨ctx, values, [], []⟩

def visibleAfter (pre : List Json) (field : Json) : Bool :=
  inVisibleGroup coerce groupVisible field &&
    shows coerce (passAfter coerce groupVisible ctx values pre).ctx field

variable {coerce groupVisible ctx values}

theorem passAfter_snoc (pre : List Json) (field : Json) :
    passAfter coerce groupVisible ctx values (pre ++ [field]) =
      visitField coerce groupVisible (passAfter coerce groupVisible ctx values pre) field := by
  unfold passAfter
  rw [List.foldl_append]
  rfl

theorem passAfter_snoc_of_visible {pre : List Json} {field : Json} {name : String}
    (hname : nameOf field = some name)
    (h : visibleAfter coerce groupVisible ctx values pre field = true) :
    passAfter coerce groupVisible ctx values (pre ++ [field]) =
      { passAfter coerce groupVisible ctx values pre with
        visibleFields :=
          (passAfter coerce groupVisible ctx values pre).visibleFields ++ [field] } := by
  unfold visibleAfter at h
  rw [passAfter_snoc]
  simp only [visitField, hname, h, if_true]

theorem passAfter_snoc_of_hidden {pre : List Json} {field : Json} {name : String}
    (hname : nameOf field = some name)
    (h : visibleAfter coerce groupVisible ctx values pre field = false) :
    passAfter coerce groupVisible ctx values (pre ++ [field]) =
      { passAfter coerce groupVisible ctx values pre with
        hidden := (passAfter coerce groupVisible ctx values pre).hidden ++ [name]
        ctx := (passAfter coerce groupVisible ctx values pre).ctx.erase name
        values := (passAfter coerce groupVisible ctx values pre).values.erase name } := by
  unfold visibleAfter at h
  rw [passAfter_snoc]
  simp only [visitField, hname, h, Bool.false_eq_true, if_false]

/-- What the pass has removed so far is exactly the names of the hidden fields. -/
theorem passAfter_get {pre : List Json} (hnamed : ∀ field ∈ pre, (nameOf field).isSome)
    (k : String) :
    (passAfter coerce groupVisible ctx values pre).ctx.get k =
        (if k ∈ (passAfter coerce groupVisible ctx values pre).hidden then none else ctx.get k) ∧
      (passAfter coerce groupVisible ctx values pre).values.get k =
        (if k ∈ (passAfter coerce groupVisible ctx values pre).hidden then none
          else values.get k) := by
  induction pre using List.reverseRecOn with
  | nil => simp [passAfter]
  | append_singleton pre field ih =>
    have ih := ih fun f hf => hnamed f (List.mem_append_left _ hf)
    obtain ⟨name, hname⟩ :=
      Option.isSome_iff_exists.mp (hnamed field (List.mem_append_right _ (List.mem_singleton_self _)))
    by_cases hvisible : visibleAfter coerce groupVisible ctx values pre field = true
    · rw [passAfter_snoc_of_visible hname hvisible]
      exact ih
    · rw [passAfter_snoc_of_hidden hname (by simpa using hvisible)]
      simp only [KeyedList.get_erase, ih.1, ih.2, List.mem_append, List.mem_singleton]
      by_cases hk : name = k
      · simp [hk]
      · simp [hk, Ne.symm hk]

theorem nodup_keys_passAfter (pre : List Json) (h : values.keys.Nodup) :
    (passAfter coerce groupVisible ctx values pre).values.keys.Nodup := by
  induction pre using List.reverseRecOn with
  | nil => exact h
  | append_singleton pre field ih =>
    rw [passAfter_snoc]
    unfold visitField
    split
    · exact ih
    · split_ifs
      · exact ih
      · exact KeyedList.nodup_keys_erase ih _

theorem hidden_mono (pre post : List Json) {k : String}
    (h : k ∈ (passAfter coerce groupVisible ctx values pre).hidden) :
    k ∈ (passAfter coerce groupVisible ctx values (pre ++ post)).hidden := by
  induction post using List.reverseRecOn with
  | nil => simpa using h
  | append_singleton post field ih =>
    rw [← List.append_assoc, passAfter_snoc]
    unfold visitField
    split
    · exact ih
    · split_ifs
      · exact ih
      · exact List.mem_append_left _ ih

theorem mem_hidden {fields pre post : List Json} {field : Json} {k : String}
    (hsplit : fields = pre ++ field :: post) (hname : nameOf field = some k)
    (h : visibleAfter coerce groupVisible ctx values pre field = false) :
    k ∈ (passAfter coerce groupVisible ctx values fields).hidden := by
  rw [hsplit, ← List.singleton_append, ← List.append_assoc]
  refine hidden_mono _ _ ?_
  rw [passAfter_snoc_of_hidden hname h]
  exact List.mem_append_right _ (List.mem_singleton_self k)

theorem exists_of_mem_hidden {fields : List Json}
    (hnamed : ∀ field ∈ fields, (nameOf field).isSome) {k : String}
    (h : k ∈ (passAfter coerce groupVisible ctx values fields).hidden) :
    ∃ pre field post, fields = pre ++ field :: post ∧ nameOf field = some k ∧
      visibleAfter coerce groupVisible ctx values pre field = false := by
  induction fields using List.reverseRecOn with
  | nil => cases h
  | append_singleton pre field ih =>
    have hold : k ∈ (passAfter coerce groupVisible ctx values pre).hidden →
        ∃ pre' field' post, pre ++ [field] = pre' ++ field' :: post ∧ nameOf field' = some k ∧
          visibleAfter coerce groupVisible ctx values pre' field' = false := by
      intro hk
      obtain ⟨pre', field', post, hsplit, hfield⟩ :=
        ih (fun f hf => hnamed f (List.mem_append_left _ hf)) hk
      exact ⟨pre', field', post ++ [field], by simp [hsplit], hfield⟩
    obtain ⟨name, hname⟩ :=
      Option.isSome_iff_exists.mp (hnamed field (List.mem_append_right _ (List.mem_singleton_self _)))
    cases hvisible : visibleAfter coerce groupVisible ctx values pre field with
    | true =>
      rw [passAfter_snoc_of_visible hname hvisible] at h
      exact hold h
    | false =>
      rw [passAfter_snoc_of_hidden hname hvisible] at h
      rcases List.mem_append.mp h with hk | hk
      · exact hold hk
      · rw [List.mem_singleton.mp hk]
        exact ⟨pre, field, [], rfl, hname, hvisible⟩

theorem exists_named_filter_iff {fields : List Json} (h : (fields.filterMap nameOf).Nodup)
    (P : Json → Bool) (k : String) :
    (∃ field ∈ fields.filter P, nameOf field = some k) ↔
      ∃ field ∈ fields, nameOf field = some k ∧
        k ∉ (fields.filter fun field => !P field).filterMap nameOf := by
  constructor
  · intro ⟨field, hfield, hname⟩
    obtain ⟨hmem, hP⟩ := List.mem_filter.mp hfield
    refine ⟨field, hmem, hname, fun hhidden => ?_⟩
    obtain ⟨other, hother, hname'⟩ := List.mem_filterMap.mp hhidden
    obtain ⟨hmem', hP'⟩ := List.mem_filter.mp hother
    have hsame : some field = some other :=
      (ownerNamed_of_mem h hmem hname).symm.trans (ownerNamed_of_mem h hmem' hname')
    rw [← Option.some.inj hsame, hP] at hP'
    cases hP'
  · intro ⟨field, hmem, hname, hhidden⟩
    refine ⟨field, List.mem_filter.mpr ⟨hmem, ?_⟩, hname⟩
    by_contra hP
    exact hhidden (List.mem_filterMap.mpr
      ⟨field, List.mem_filter.mpr ⟨hmem, by simpa using hP⟩, hname⟩)

/-- A predicate that agrees with each decision of the pass describes its outcome. -/
theorem passAfter_eq_filter {fields : List Json} (P : Json → Bool)
    (hnamed : ∀ field ∈ fields, (nameOf field).isSome)
    (h : ∀ pre field post, fields = pre ++ field :: post →
      visibleAfter coerce groupVisible ctx values pre field = P field) :
    (passAfter coerce groupVisible ctx values fields).visibleFields = fields.filter P ∧
      (passAfter coerce groupVisible ctx values fields).hidden =
        (fields.filter fun field => !P field).filterMap nameOf := by
  induction fields using List.reverseRecOn with
  | nil => exact ⟨rfl, rfl⟩
  | append_singleton pre field ih =>
    obtain ⟨hvisible, hhidden⟩ := ih (fun f hf => hnamed f (List.mem_append_left _ hf))
      fun pre' field' post' hsplit => h pre' field' (post' ++ [field]) (by simp [hsplit])
    obtain ⟨name, hname⟩ :=
      Option.isSome_iff_exists.mp (hnamed field (List.mem_append_right _ (List.mem_singleton_self _)))
    have hfield := h pre field [] rfl
    rw [List.filter_append, List.filter_append, List.filterMap_append]
    cases hP : P field with
    | true =>
      rw [hP] at hfield
      rw [passAfter_snoc_of_visible hname hfield]
      simp [hvisible, hhidden, hP]
    | false =>
      rw [hP] at hfield
      rw [passAfter_snoc_of_hidden hname hfield]
      simp [hvisible, hhidden, hP, hname]

end Pass

/-! ## The outcome and the final context -/

section Soundness
variable (coerce : Coercions) (roles groups fields : List Json) (answers roleFlags : Values)

def mergedContext : Values := contextOf roleFlags (mergeValues fields answers)

/-- The group of the field, if it has one, is visible in the context. -/
def groupShows (ctx : Values) (field : Json) : Bool :=
  match field.field "group" with
  | some (.str g) => groups.all fun group => nameOf group ≠ some g || shows coerce ctx group
  | _ => true

/-- The outcome is the one of a single evaluation in the final context. -/
structure VisibilitySound (v : Visibility) : Prop where
  visible : v.visibleFields = fields.filter fun field =>
    groupShows coerce groups (mergedContext fields answers roleFlags) field &&
      shows coerce (contextOf roleFlags v.values) field
  hidden : v.hidden = (fields.filter fun field =>
    !(groupShows coerce groups (mergedContext fields answers roleFlags) field &&
      shows coerce (contextOf roleFlags v.values) field)).filterMap nameOf
  values : ∀ k value, v.values.get k = some value ↔
    (∃ field ∈ v.visibleFields, nameOf field = some k) ∧ effective fields answers k = some value

/-- A field that is not visible whatever the fields before it are. -/
def mayHide (field : Json) : Prop :=
  (field.field "show_if").isSome ∨
    groupShows coerce groups (mergedContext fields answers roleFlags) field = false

/-- Where a condition reads a role flag, no field of that name that may hide takes the flag away
from it or gives it another value. And the name of the object prototype carries no value and names
no hidden group. -/
structure Unshadowed : Prop where
  shadow : ∀ pre field post showIf, fields = pre ++ field :: post →
    groupShows coerce groups (mergedContext fields answers roleFlags) field = true →
    field.field "show_if" = some showIf → ∀ k ∈ operandsOf showIf, k ∈ roleOperands roles →
    ∀ owner, nameOf owner = some k → mayHide coerce groups fields answers roleFlags owner →
      (owner ∈ pre → roleFlags.get k = none) ∧
      (owner ∈ field :: post → ∀ v, effective fields answers k = some v → roleFlags.get k = some v)
  protoField : ∀ field ∈ fields, nameOf field = some "__proto__" →
    effective fields answers "__proto__" = none
  protoGroup : ∀ group ∈ groups, nameOf group = some "__proto__" →
    shows coerce (mergedContext fields answers roleFlags) group = true

variable {coerce roles groups fields answers roleFlags}

theorem groupVisibility_eq (ctx : Values) : groupVisibility coerce groups ctx =
    assignAll (namedEntries (fun group => some (shows coerce ctx group)) groups) [] := by
  unfold groupVisibility assignAll namedEntries
  rw [List.foldl_filterMap]
  congr 1
  funext acc group
  cases nameOf group <;> rfl

theorem groupVisibility_get (h : (groups.filterMap nameOf).Nodup) (ctx : Values) (k : String) :
    (groupVisibility coerce groups ctx).get k =
      if k = "__proto__" then none else (ownerNamed groups k).map (shows coerce ctx) := by
  rw [groupVisibility_eq, get_assignAll (h.sublist (keys_namedEntries_sublist _ _)),
    get_namedEntries _ h]
  by_cases hk : k = "__proto__" <;> simp [hk, Option.map_eq_bind]

theorem groupShows_of_named (h : (groups.filterMap nameOf).Nodup) {ctx : Values} {field group : Json}
    {g : String} (hgroup : field.field "group" = some (.str g)) (hmem : group ∈ groups)
    (hname : nameOf group = some g) : groupShows coerce groups ctx field = shows coerce ctx group := by
  unfold groupShows
  rw [hgroup, Bool.eq_iff_iff, List.all_eq_true]
  constructor
  · intro hall
    simpa [hname] using hall group hmem
  · intro hshows other hother
    by_cases hg : nameOf other = some g
    · have heq : some other = some group :=
        (ownerNamed_of_mem h hother hg).symm.trans (ownerNamed_of_mem h hmem hname)
      rw [Option.some.inj heq, hshows, Bool.or_true]
    · simp [hg]

variable {env : LintEnvironment}

theorem inVisibleGroup_eq (h : Accepted env roles groups fields) {ctx : Values}
    (hproto : ∀ group ∈ groups, nameOf group = some "__proto__" → shows coerce ctx group = true)
    {field : Json} (hfield : field ∈ fields) :
    inVisibleGroup coerce (groupVisibility coerce groups ctx) field =
      groupShows coerce groups ctx field := by
  obtain ⟨pre, post, hsplit⟩ := List.append_of_mem hfield
  obtain ⟨name, haccepted⟩ := h.fields pre field post hsplit
  cases hgroup : field.field "group" with
  | none => simp [inVisibleGroup, groupShows, hgroup]
  | some value =>
    obtain ⟨g, hg, rfl⟩ := haccepted.group value hgroup
    obtain ⟨group, hmem, hname⟩ := List.mem_filterMap.mp hg
    have hempty : g ≠ "" := by
      obtain ⟨g', hg', hne⟩ := h.groupsNamed group hmem
      rw [hname] at hg'
      exact Option.some.inj hg' ▸ hne
    rw [groupShows_of_named h.groupsDistinct hgroup hmem hname]
    simp only [inVisibleGroup, hgroup, Json.truthy, propertyKey,
      groupVisibility_get h.groupsDistinct, ownerNamed_of_mem h.groupsDistinct hmem hname]
    by_cases hp : g = "__proto__"
    · simp [hp, hproto group hmem (hp ▸ hname)]
    · simp [hp, hempty]

theorem isSome_of_not_shows {ctx : Values} {owner : Json} (h : shows coerce ctx owner = false) :
    (owner.field "show_if").isSome := by
  unfold shows at h
  cases hshow : owner.field "show_if" with
  | none => simp [hshow] at h
  | some showIf => rfl

/-- The condition of a field is the same in two contexts that agree on what it reads. -/
theorem shows_congr {ctx ctx' : Values} {owner : Json}
    (h : ∀ showIf, owner.field "show_if" = some showIf →
      ∀ k ∈ operandsOf showIf, ctx.get k = ctx'.get k) :
    shows coerce ctx owner = shows coerce ctx' owner := by
  unfold shows
  cases hshow : owner.field "show_if" with
  | none => rfl
  | some showIf =>
    have hread : ∀ k ∈ operandsOf showIf, read ctx k = read ctx' k := by
      intro k hk
      unfold read
      rw [h showIf hshow k hk]
    simp only [evaluateShowIf_congr coerce showIf hread]

theorem Accepted.mem_operands (h : Accepted env roles groups fields) {pre post : List Json}
    {field showIf : Json} (hsplit : fields = pre ++ field :: post)
    (hshow : field.field "show_if" = some showIf) {k : String} (hk : k ∈ operandsOf showIf) :
    k ∈ roleOperands roles ∨ k ∈ pre.filterMap nameOf := by
  obtain ⟨name, haccepted⟩ := h.fields pre field post hsplit
  obtain ⟨path, hlint⟩ := haccepted.showIf showIf hshow
  exact List.mem_append.mp (operands_of_lintShowIf path showIf hlint k hk)

/-- Two owners of one name stand on the same side of a split. -/
theorem not_mem_both (h : (fields.filterMap nameOf).Nodup) {pre post : List Json}
    (hsplit : fields = pre ++ post) {owner owner' : Json} {k : String} (hpre : owner ∈ pre)
    (hpost : owner' ∈ post) (hname : nameOf owner = some k) : nameOf owner' ≠ some k := by
  intro hname'
  rw [hsplit, List.filterMap_append] at h
  exact (List.nodup_append.mp h).2.2 k (List.mem_filterMap.mpr ⟨owner, hpre, hname⟩) k
    (List.mem_filterMap.mpr ⟨owner', hpost, hname'⟩) rfl

theorem roleFlags_spec (selection : List Json) {k : String} {v : Json}
    (h : (buildShowIfRoleFlags selection).get k = some v) :
    ∃ role ∈ selection, ∃ name, nameOf role = some name ∧ k = roleFlag name := by
  unfold buildShowIfRoleFlags at h
  induction selection using List.reverseRecOn with
  | nil => cases h
  | append_singleton pre role ih =>
    rw [List.foldl_append, List.foldl_cons, List.foldl_nil] at h
    have hold (hget : (buildShowIfRoleFlags pre).get k = some v) :
        ∃ r ∈ pre ++ [role], ∃ name, nameOf r = some name ∧ k = roleFlag name := by
      obtain ⟨r, hr, hname⟩ := ih hget
      exact ⟨r, List.mem_append_left _ hr, hname⟩
    split at h
    · next name hname =>
      rw [get_assign] at h
      split_ifs at h with hk
      · exact ⟨role, by simp, name, hname, hk.1.symm⟩
      · exact hold h
    · exact hold h

section Final
variable (hacc : Accepted env roles groups fields) (hkeys : answers.keys.Nodup)
  (hflags : ∀ k v, roleFlags.get k = some v → k ∈ roleOperands roles)
  (hcond : Unshadowed coerce roles groups fields answers roleFlags)
include hacc hkeys hflags hcond

omit hkeys hflags in
theorem mayHide_of_hidden {groupVisible : KeyedList String Bool}
    (hgroup : groupVisible =
      groupVisibility coerce groups (mergedContext fields answers roleFlags))
    {ctx values : Values} {pre : List Json} {owner : Json} (hmem : owner ∈ fields)
    (h : visibleAfter coerce groupVisible ctx values pre owner = false) :
    mayHide coerce groups fields answers roleFlags owner := by
  unfold visibleAfter at h
  rw [hgroup, inVisibleGroup_eq hacc hcond.protoGroup hmem, Bool.and_eq_false_iff] at h
  exact h.elim .inr fun hshow => .inl (isSome_of_not_shows hshow)

/-- The context in which a field is evaluated agrees with the final one on what its condition
reads. -/
theorem final_context_get {groupVisible : KeyedList String Bool}
    (hgroup : groupVisible =
      groupVisibility coerce groups (mergedContext fields answers roleFlags))
    {pre post : List Json} {field showIf : Json} (hsplit : fields = pre ++ field :: post)
    (hshown : groupShows coerce groups (mergedContext fields answers roleFlags) field = true)
    (hshow : field.field "show_if" = some showIf) {k : String} (hk : k ∈ operandsOf showIf) :
    (passAfter coerce groupVisible (mergedContext fields answers roleFlags)
        (mergeValues fields answers) pre).ctx.get k =
      (contextOf roleFlags (passAfter coerce groupVisible (mergedContext fields answers roleFlags)
        (mergeValues fields answers) fields).values).get k := by
  have hnamed := hacc.named
  have hvalues := nodup_keys_mergeValues fields answers
  have hpre : ∀ f ∈ pre, (nameOf f).isSome :=
    fun f hf => hnamed f (hsplit ▸ List.mem_append_left _ hf)
  have hmerged : (mergedContext fields answers roleFlags).get k =
      ((mergeValues fields answers).get k).or (roleFlags.get k) := contextOf_get roleFlags hvalues k
  have hshadow := hcond.shadow pre field post showIf hsplit hshown hshow k hk
  rw [contextOf_get roleFlags (nodup_keys_passAfter fields hvalues), (passAfter_get hpre k).1,
    (passAfter_get hnamed k).2, hmerged]
  by_cases hfinal : k ∈ (passAfter coerce groupVisible (mergedContext fields answers roleFlags)
      (mergeValues fields answers) fields).hidden
  · rw [if_pos hfinal, Option.none_or]
    by_cases hearly : k ∈ (passAfter coerce groupVisible (mergedContext fields answers roleFlags)
        (mergeValues fields answers) pre).hidden
    · -- hidden before: the operand is absent, and so is the role flag
      rw [if_pos hearly]
      obtain ⟨pre', owner, post', hsplit', hname, hhidden⟩ := exists_of_mem_hidden hpre hearly
      have hmem : owner ∈ pre := hsplit' ▸ by simp
      have hmay := mayHide_of_hidden hacc hcond hgroup
        (hsplit ▸ List.mem_append_left _ hmem) hhidden
      by_cases hrole : k ∈ roleOperands roles
      · exact ((hshadow hrole owner hname hmay).1 hmem).symm
      · cases hget : roleFlags.get k with
        | none => rfl
        | some v => exact absurd (hflags k v hget) hrole
    · -- hidden later: the operand is a role flag, and the field gives it no other value
      rw [if_neg hearly]
      obtain ⟨pre', owner, post', hsplit', hname, hhidden⟩ := exists_of_mem_hidden hnamed hfinal
      have hlater : owner ∈ field :: post := by
        rcases List.append_eq_append_iff.mp (hsplit.symm.trans hsplit') with
          ⟨mid, -, hpost⟩ | ⟨mid, hpre', hpost⟩
        · rw [hpost]
          simp
        · cases mid with
          | nil =>
            rw [List.nil_append] at hpost
            rw [← hpost]
            exact List.mem_cons_self
          | cons first mid =>
            rw [List.cons_append, List.cons.injEq] at hpost
            exact absurd (mem_hidden (hpost.1 ▸ hpre') hname hhidden) hearly
      have hmay := mayHide_of_hidden hacc hcond hgroup
        (hsplit ▸ List.mem_append_right _ hlater) hhidden
      have hrole : k ∈ roleOperands roles := by
        refine (hacc.mem_operands hsplit hshow hk).resolve_right fun hearlier => ?_
        obtain ⟨other, hother, hname'⟩ := List.mem_filterMap.mp hearlier
        exact not_mem_both hacc.distinct hsplit hother hlater hname' hname
      have hsame := (hshadow hrole owner hname hmay).2 hlater
      rw [mergeValues_get hacc.distinct hkeys]
      split_ifs
      · rfl
      · cases heff : effective fields answers k with
        | none => rfl
        | some v => exact (hsame v heff).symm
  · have hearly : k ∉ (passAfter coerce groupVisible (mergedContext fields answers roleFlags)
        (mergeValues fields answers) pre).hidden := by
      intro hearly
      have hmono := hidden_mono pre (field :: post) hearly
      rw [← hsplit] at hmono
      exact hfinal hmono
    rw [if_neg hfinal, if_neg hearly]

theorem pass_decides {groupVisible : KeyedList String Bool}
    (hgroup : groupVisible =
      groupVisibility coerce groups (mergedContext fields answers roleFlags))
    {pre post : List Json} {field : Json} (hsplit : fields = pre ++ field :: post) :
    visibleAfter coerce groupVisible (mergedContext fields answers roleFlags)
        (mergeValues fields answers) pre field =
      (groupShows coerce groups (mergedContext fields answers roleFlags) field &&
        shows coerce (contextOf roleFlags (passAfter coerce groupVisible
          (mergedContext fields answers roleFlags) (mergeValues fields answers) fields).values)
          field) := by
  have hmem : field ∈ fields := hsplit ▸ by simp
  unfold visibleAfter
  rw [hgroup, inVisibleGroup_eq hacc hcond.protoGroup hmem]
  cases hshown : groupShows coerce groups (mergedContext fields answers roleFlags) field with
  | false => rfl
  | true =>
    rw [Bool.true_and, Bool.true_and]
    exact shows_congr fun showIf hshow k hk =>
      final_context_get hacc hkeys hflags hcond rfl hsplit hshown hshow hk

omit hflags in
/-- The values that are left are those of the visible fields. -/
theorem pass_values {groupVisible : KeyedList String Bool}
    (hdeclared : ∀ k ∈ answers.keys, k ∈ fields.filterMap nameOf) (k : String) (value : Json) :
    let pass := passAfter coerce groupVisible (mergedContext fields answers roleFlags)
      (mergeValues fields answers) fields
    pass.values.get k = some value ↔ (∃ field ∈ fields, nameOf field = some k ∧ k ∉ pass.hidden) ∧
      effective fields answers k = some value := by
  intro pass
  have hdistinct := hacc.distinct
  have hnone : ∀ v, effective fields answers k = some v → k ∈ fields.filterMap nameOf := by
    intro v heff
    unfold effective at heff
    cases hanswer : answers.get k with
    | some v => exact hdeclared k (List.mem_map_of_mem (KeyedList.mem_of_get hanswer))
    | none =>
      rw [hanswer, Option.none_or] at heff
      obtain ⟨owner, howner, -⟩ := Option.bind_eq_some_iff.mp heff
      obtain ⟨hmem, hname⟩ := mem_of_ownerNamed howner
      exact List.mem_filterMap.mpr ⟨owner, hmem, hname⟩
  rw [(passAfter_get hacc.named k).2, mergeValues_get hdistinct hkeys]
  constructor
  · intro h
    split_ifs at h with hhidden hproto
    obtain ⟨field, hmem, hname⟩ := List.mem_filterMap.mp (hnone value h)
    exact ⟨⟨field, hmem, hname, hhidden⟩, h⟩
  · rintro ⟨⟨field, hmem, hname, hhidden⟩, heff⟩
    rw [if_neg hhidden]
    split_ifs with hproto
    · subst hproto
      rw [hcond.protoField field hmem hname] at heff
      cases heff
    · exact heff

end Final

theorem computeVisibility_eq (configuration : Option Json) :
    computeVisibility coerce configuration answers roleFlags =
      let pass := passAfter coerce
        (groupVisibility coerce (listOf configuration "groups")
          (mergedContext (listOf configuration "fields") answers roleFlags))
        (mergedContext (listOf configuration "fields") answers roleFlags)
        (mergeValues (listOf configuration "fields") answers) (listOf configuration "fields")
      ⟨pass.values, pass.hidden, pass.visibleFields⟩ := rfl

end Soundness

/-- No field is named like a role flag, and nothing like the object prototype. -/
theorem unshadowed_of_names {coerce : Coercions} {roles groups fields : List Json}
    {answers roleFlags : Values} (hflags : ∀ k ∈ fields.filterMap nameOf, k ∉ roleOperands roles)
    (hfields : "__proto__" ∉ fields.filterMap nameOf)
    (hgroups : "__proto__" ∉ groups.filterMap nameOf) :
    Unshadowed coerce roles groups fields answers roleFlags where
  shadow := by
    intro pre field post showIf hsplit _ _ k _ hrole owner hname _
    have hnot : owner ∉ fields := fun hmem =>
      hflags k (List.mem_filterMap.mpr ⟨owner, hmem, hname⟩) hrole
    rw [hsplit] at hnot
    constructor
    · intro hmem
      exact absurd (List.mem_append_left _ hmem) hnot
    · intro hmem
      exact absurd (List.mem_append_right _ hmem) hnot
  protoField := fun field hmem hname =>
    absurd (List.mem_filterMap.mpr ⟨field, hmem, hname⟩) hfields
  protoGroup := fun group hmem hname =>
    absurd (List.mem_filterMap.mpr ⟨group, hmem, hname⟩) hgroups

/-- A port that is asked for where a machine serves HTTPS. -/
def httpsPort : Json :=
  .obj [("groups", .arr [
      .obj [("name", .str "web"), ("show_if", .obj [("nginx_enabled", .bool true)])]]),
    ("fields", .arr [
      .obj [("name", .str "https"), ("type", .str "checkbox"), ("default", .bool true)],
      .obj [("name", .str "port"), ("type", .str "number"), ("group", .str "web"),
        ("default", .num 443), ("show_if", .obj [("https", .bool true)])]])]

/-- A checkbox named like a role flag, hidden where the advanced settings are. -/
def shadowedFlag : Json :=
  .obj [("fields", .arr [
    .obj [("name", .str "advanced"), ("type", .str "checkbox"), ("default", .bool false)],
    .obj [("name", .str "domino_enabled"), ("type", .str "checkbox"),
      ("show_if", .obj [("advanced", .bool true)])],
    .obj [("name", .str "org"), ("type", .str "text"),
      ("show_if", .obj [("domino_enabled", .bool true)])]])]

end ZoneweaverAgent.FieldDsl
