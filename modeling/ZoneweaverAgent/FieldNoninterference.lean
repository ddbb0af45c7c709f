import ZoneweaverAgent.FieldVisibility
import ZoneweaverAgent.HostsTemplate

/-!
# The answers of hidden fields

Two passes over one accepted configuration, with answers that differ in hidden fields only. Groups
are decided in the merged context, where nothing is hidden yet, so they are compared by what their
conditions give.
-/

namespace ZoneweaverAgent.FieldDsl

/-! ## What a pass hides and shows -/

section Pass
variable {coerce : Coercions} {groupVisible : KeyedList String Bool} {ctx values : Values}

theorem hidden_subset (pre post : List Json) {k : String}
    (h : k ∈ (passAfter coerce groupVisible ctx values (pre ++ post)).hidden) :
    k ∈ (passAfter coerce groupVisible ctx values pre).hidden ∨ k ∈ post.filterMap nameOf := by
  induction post using List.reverseRecOn with
  | nil =>
    rw [List.append_nil] at h
    exact Or.inl h
  | append_singleton post field ih =>
    rw [← List.append_assoc, passAfter_snoc] at h
    rw [List.filterMap_append, List.mem_append]
    have hold : k ∈ (passAfter coerce groupVisible ctx values (pre ++ post)).hidden →
        k ∈ (passAfter coerce groupVisible ctx values pre).hidden ∨
          k ∈ post.filterMap nameOf ∨ k ∈ [field].filterMap nameOf := by
      intro hk
      apply (ih hk).imp_right
      exact Or.inl
    unfold visitField at h
    split at h
    · exact hold h
    · next name hname =>
      split_ifs at h
      · exact hold h
      · rcases List.mem_append.mp h with hk | hk
        · exact hold hk
        · apply Or.inr
          apply Or.inr
          rw [List.mem_singleton.mp hk]
          simp [hname]

/-- A name that the fields `pre` carry is hidden there or never. -/
theorem hidden_early {fields pre post : List Json} (hdistinct : (fields.filterMap nameOf).Nodup)
    (hsplit : fields = pre ++ post) {k : String} (hnamed : k ∈ pre.filterMap nameOf)
    (h : k ∈ (passAfter coerce groupVisible ctx values fields).hidden) :
    k ∈ (passAfter coerce groupVisible ctx values pre).hidden := by
  rw [hsplit] at h
  apply (hidden_subset pre post h).resolve_right
  intro hlater
  rw [hsplit, List.filterMap_append] at hdistinct
  exact (List.nodup_append.mp hdistinct).2.2 k hnamed k hlater rfl

/-- Each name ends up visible or hidden, once. -/
theorem names_perm (fields : List Json) :
    ((passAfter coerce groupVisible ctx values fields).visibleFields.filterMap nameOf ++
      (passAfter coerce groupVisible ctx values fields).hidden).Perm (fields.filterMap nameOf) := by
  induction fields using List.reverseRecOn with
  | nil => exact List.Perm.refl _
  | append_singleton pre field ih =>
    rw [passAfter_snoc, List.filterMap_append]
    unfold visitField
    split
    · next hname => simpa [hname] using ih
    · next name hname =>
      split_ifs
      · simp only [List.filterMap_append, List.append_assoc]
        have hsingle : [field].filterMap nameOf = [name] := by simp [hname]
        rw [hsingle]
        exact (List.perm_append_comm.append_left _).trans
          (by simpa using ih.append_right [name])
      · have hsingle : [field].filterMap nameOf = [name] := by simp [hname]
        rw [hsingle, ← List.append_assoc]
        exact ih.append_right [name]

theorem not_hidden_of_visible {fields : List Json} (hdistinct : (fields.filterMap nameOf).Nodup)
    {field : Json} {k : String} (hname : nameOf field = some k)
    (h : field ∈ (passAfter coerce groupVisible ctx values fields).visibleFields) :
    k ∉ (passAfter coerce groupVisible ctx values fields).hidden := by
  intro hhidden
  have hperm : ((passAfter coerce groupVisible ctx values fields).visibleFields.filterMap nameOf ++
      (passAfter coerce groupVisible ctx values fields).hidden).Perm (fields.filterMap nameOf) :=
    names_perm fields
  have hnodup := hperm.nodup_iff.mpr hdistinct
  exact (List.nodup_append.mp hnodup).2.2 k (List.mem_filterMap.mpr ⟨field, h, hname⟩) k hhidden rfl

end Pass

/-! ## Two passes -/

/-- Two answers maps that differ in the fields hidden under both only. A role flag that a field of
its name could replace is not among these. -/
structure AgreeVisible (coerce : Coercions) (configuration : Option Json) (roles : List Json)
    (roleFlags answers answers' : Values) : Prop where
  visible : ∀ k, answers.get k = answers'.get k ∨
    (k ∈ (computeVisibility coerce configuration answers roleFlags).hidden ∧
      k ∈ (computeVisibility coerce configuration answers' roleFlags).hidden ∧
      k ∉ roleOperands roles)
  groups : ∀ group ∈ listOf configuration "groups",
    shows coerce (mergedContext (listOf configuration "fields") answers roleFlags) group =
      shows coerce (mergedContext (listOf configuration "fields") answers' roleFlags) group

section TwoRuns
variable {env : LintEnvironment} {configuration : Option Json} {roles : List Json}
  {roleFlags answers answers' : Values}

/-- The pass of `computeVisibility` over the fields `pre`. -/
def passOf (coerce : Coercions) (configuration : Option Json) (roleFlags answers : Values)
    (pre : List Json) : Pass :=
  passAfter coerce
    (groupVisibility coerce (listOf configuration "groups")
      (mergedContext (listOf configuration "fields") answers roleFlags))
    (mergedContext (listOf configuration "fields") answers roleFlags)
    (mergeValues (listOf configuration "fields") answers) pre

theorem computeVisibility_passOf (coerce : Coercions) (configuration : Option Json)
    (roleFlags answers : Values) :
    computeVisibility coerce configuration answers roleFlags =
      ⟨(passOf coerce configuration roleFlags answers (listOf configuration "fields")).values,
        (passOf coerce configuration roleFlags answers (listOf configuration "fields")).hidden,
        (passOf coerce configuration roleFlags answers
          (listOf configuration "fields")).visibleFields⟩ := rfl

theorem groupVisibility_congr {coerce : Coercions} {groups : List Json} {ctx ctx' : Values}
    (h : ∀ group ∈ groups, shows coerce ctx group = shows coerce ctx' group) :
    groupVisibility coerce groups ctx = groupVisibility coerce groups ctx' := by
  unfold groupVisibility
  apply List.foldl_ext
  intro acc group hgroup
  cases nameOf group with
  | none => rfl
  | some name => simp only [h group hgroup]

variable (hacc : Accepted env roles (listOf configuration "groups") (listOf configuration "fields"))
  (hkeys : answers.keys.Nodup) (hkeys' : answers'.keys.Nodup)
  (hagree : AgreeVisible env.toCoercions configuration roles roleFlags answers answers')
include hacc hkeys hkeys' hagree

omit hagree in
theorem mergeValues_agree {k : String}
    (h : answers.get k = answers'.get k) :
    (mergeValues (listOf configuration "fields") answers).get k =
      (mergeValues (listOf configuration "fields") answers').get k := by
  rw [mergeValues_get hacc.distinct hkeys, mergeValues_get hacc.distinct hkeys']
  unfold effective
  rw [h]

/-- The next field is decided alike where all fields before it were. -/
theorem pass_step {pre post : List Json} {field : Json}
    (hsplit : listOf configuration "fields" = pre ++ field :: post)
    (hhidden : (passOf env.toCoercions configuration roleFlags answers pre).hidden =
      (passOf env.toCoercions configuration roleFlags answers' pre).hidden) :
    visibleAfter env.toCoercions
        (groupVisibility env.toCoercions (listOf configuration "groups")
          (mergedContext (listOf configuration "fields") answers roleFlags))
        (mergedContext (listOf configuration "fields") answers roleFlags)
        (mergeValues (listOf configuration "fields") answers) pre field =
      visibleAfter env.toCoercions
        (groupVisibility env.toCoercions (listOf configuration "groups")
          (mergedContext (listOf configuration "fields") answers' roleFlags))
        (mergedContext (listOf configuration "fields") answers' roleFlags)
        (mergeValues (listOf configuration "fields") answers') pre field := by
  have hpre : ∀ f ∈ pre, (nameOf f).isSome := fun f hf =>
    hacc.named f (hsplit ▸ List.mem_append_left _ hf)
  unfold visibleAfter
  rw [groupVisibility_congr hagree.groups]
  congr 1
  apply shows_congr
  intro showIf hshow k hk
  rw [(passAfter_get hpre k).1, (passAfter_get hpre k).1]
  unfold passOf at hhidden
  rw [groupVisibility_congr hagree.groups] at hhidden
  rw [hhidden]
  split_ifs with hearly
  · rfl
  · -- an operand that is not hidden is no hidden field of the whole pass either
    have hsame : answers.get k = answers'.get k := by
      apply (hagree.visible k).resolve_right
      rintro ⟨-, hfinal, hrole⟩
      have hnamed := (hacc.mem_operands hsplit hshow hk).resolve_left hrole
      exact hearly (hidden_early hacc.distinct hsplit hnamed hfinal)
    unfold mergedContext
    rw [contextOf_get _ (nodup_keys_mergeValues _ _), contextOf_get _ (nodup_keys_mergeValues _ _),
      mergeValues_agree hacc hkeys hkeys' hsame]

theorem pass_agree {pre post : List Json} (hsplit : listOf configuration "fields" = pre ++ post) :
    (passOf env.toCoercions configuration roleFlags answers pre).hidden =
        (passOf env.toCoercions configuration roleFlags answers' pre).hidden ∧
      (passOf env.toCoercions configuration roleFlags answers pre).visibleFields =
        (passOf env.toCoercions configuration roleFlags answers' pre).visibleFields := by
  induction pre using List.reverseRecOn generalizing post with
  | nil => exact ⟨rfl, rfl⟩
  | append_singleton pre field ih =>
    have hsplit' : listOf configuration "fields" = pre ++ field :: post := by
      rw [hsplit, List.append_assoc, List.singleton_append]
    obtain ⟨hhidden, hvisible⟩ := ih hsplit'
    have hstep := pass_step hacc hkeys hkeys' hagree hsplit' hhidden
    have hmem : field ∈ listOf configuration "fields" := hsplit' ▸ by simp
    obtain ⟨name, hname⟩ := Option.isSome_iff_exists.mp (hacc.named field hmem)
    unfold passOf at hhidden hvisible ⊢
    cases hshown : visibleAfter env.toCoercions
        (groupVisibility env.toCoercions (listOf configuration "groups")
          (mergedContext (listOf configuration "fields") answers roleFlags))
        (mergedContext (listOf configuration "fields") answers roleFlags)
        (mergeValues (listOf configuration "fields") answers) pre field with
    | true =>
      rw [hshown] at hstep
      rw [passAfter_snoc_of_visible hname hshown, passAfter_snoc_of_visible hname hstep.symm]
      exact ⟨hhidden, by rw [hvisible]⟩
    | false =>
      rw [hshown] at hstep
      rw [passAfter_snoc_of_hidden hname hshown, passAfter_snoc_of_hidden hname hstep.symm]
      exact ⟨by rw [hhidden], hvisible⟩

/-- Both passes hide and show the same fields, and leave the same values. -/
theorem visibility_agree :
    (computeVisibility env.toCoercions configuration answers roleFlags).hidden =
        (computeVisibility env.toCoercions configuration answers' roleFlags).hidden ∧
      (computeVisibility env.toCoercions configuration answers roleFlags).visibleFields =
        (computeVisibility env.toCoercions configuration answers' roleFlags).visibleFields ∧
      ∀ k, (computeVisibility env.toCoercions configuration answers roleFlags).values.get k =
        (computeVisibility env.toCoercions configuration answers' roleFlags).values.get k := by
  have hsplit : listOf configuration "fields" = listOf configuration "fields" ++ [] :=
    (List.append_nil _).symm
  obtain ⟨hhidden, hvisible⟩ := pass_agree hacc hkeys hkeys' hagree hsplit
  refine ⟨hhidden, hvisible, fun k => ?_⟩
  have hget := hagree.visible k
  rw [computeVisibility_passOf, computeVisibility_passOf] at hget ⊢
  unfold passOf at hhidden hget ⊢
  rw [(passAfter_get hacc.named k).2, (passAfter_get hacc.named k).2, hhidden]
  split_ifs with hk
  · rfl
  · apply mergeValues_agree hacc hkeys hkeys'
    apply hget.resolve_right
    rintro ⟨-, hk', -⟩
    exact hk hk'

omit hkeys hkeys' in
/-- A visible field has the same answer in both. -/
theorem visible_answer {field : Json} {k : String} (hname : nameOf field = some k)
    (h : field ∈ (computeVisibility env.toCoercions configuration answers roleFlags).visibleFields) :
    answers.get k = answers'.get k := by
  apply (hagree.visible k).resolve_right
  rintro ⟨hhidden, -⟩
  exact not_hidden_of_visible hacc.distinct hname h hhidden

end TwoRuns

theorem assignField_congr {answers answers' : Values} {field : Json}
    (h : ∀ k, nameOf field = some k → answers.get k = answers'.get k)
    (ctx : HostsTemplate.Context) :
    HostsTemplate.assignField answers ctx field = HostsTemplate.assignField answers' ctx field := by
  unfold HostsTemplate.assignField
  cases hname : nameOf field with
  | none => rfl
  | some name =>
    have hsame := h name hname
    have hin : HostsTemplate.isIn answers name = HostsTemplate.isIn answers' name := by
      unfold HostsTemplate.isIn KeyedList.has
      rw [hsame]
    have hread : read answers name = read answers' name := by
      unfold read
      rw [hsame]
    simp only [hin, hread]

/-- For an accepted configuration, answers that differ in hidden fields only give one visibility
and one render context. -/
theorem hidden_noninterfering (env : LintEnvironment) (configuration : Option Json)
    (roles selection : List Json) (answers answers' : Values)
    (hlint : lintConfiguration env configuration roles = [])
    (hkeys : answers.keys.Nodup) (hkeys' : answers'.keys.Nodup)
    (hagree : AgreeVisible env.toCoercions configuration roles (buildShowIfRoleFlags selection)
      answers answers') :
    (computeVisibility env.toCoercions configuration answers (buildShowIfRoleFlags selection)).hidden =
        (computeVisibility env.toCoercions configuration answers'
          (buildShowIfRoleFlags selection)).hidden ∧
      (∀ k, (computeVisibility env.toCoercions configuration answers
          (buildShowIfRoleFlags selection)).values.get k =
        (computeVisibility env.toCoercions configuration answers'
          (buildShowIfRoleFlags selection)).values.get k) ∧
      ∀ (template : HostsTemplate.TemplateEnvironment) (input : HostsTemplate.TemplateInput)
        (properties' : Values), template.toCoercions = env.toCoercions →
        input.version.configuration = configuration → input.roles = selection →
        HostsTemplate.contextAnswers template input = answers →
        HostsTemplate.contextAnswers template { input with properties := properties' } = answers' →
        HostsTemplate.buildTemplateContext template input =
          HostsTemplate.buildTemplateContext template { input with properties := properties' } := by
  have hacc := accepted_of_lint hlint
  obtain ⟨hhidden, hvisible, hvalues⟩ := visibility_agree hacc hkeys hkeys' hagree
  refine ⟨hhidden, hvalues, ?_⟩
  intro template input properties' htemplate hconfiguration hroles hanswers hanswers'
  have hbase : HostsTemplate.baseContext template { input with properties := properties' } =
      HostsTemplate.baseContext template input := rfl
  unfold HostsTemplate.buildTemplateContext
  rw [hanswers, hanswers', htemplate, hbase]
  simp only [hconfiguration, hroles]
  rw [← hvisible]
  congr 1
  apply List.foldl_ext
  intro ctx field hfield
  apply assignField_congr
  intro k hname
  exact visible_answer hacc hagree hname hfield

/-- A cluster whose size is an advanced setting. -/
def clusterSize : Json :=
  .obj [("groups", .arr [.obj [("name", .str "ha"), ("show_if", .obj [("cluster", .bool true)])]]),
    ("fields", .arr [
      .obj [("name", .str "advanced"), ("type", .str "checkbox"), ("default", .bool false)],
      .obj [("name", .str "cluster"), ("type", .str "checkbox"),
        ("show_if", .obj [("advanced", .bool true)])],
      .obj [("name", .str "size"), ("type", .str "text"),
        ("show_if", .obj [("advanced", .bool true)])],
      .obj [("name", .str "peer"), ("type", .str "text"), ("group", .str "ha")]])]

theorem hidden_noninterfering_size :
    (computeVisibility plainEnvironment.toCoercions (some clusterSize) [("size", .str "a")]
        (buildShowIfRoleFlags [])).hidden =
      (computeVisibility plainEnvironment.toCoercions (some clusterSize) [("size", .str "b")]
        (buildShowIfRoleFlags [])).hidden :=
  (hidden_noninterfering plainEnvironment (some clusterSize) [] [] [("size", .str "a")]
    [("size", .str "b")] (by decide +kernel) (by decide) (by decide)
    { visible := by
        intro k
        by_cases hk : "size" = k
        · subst hk
          exact Or.inr (by decide +kernel)
        · apply Or.inl
          rw [KeyedList.get_cons, KeyedList.get_cons, if_neg hk, if_neg hk]
      groups := by decide +kernel }).1

/-- The group is decided by an answer that its own field hides. -/
theorem hidden_noninterfering_fails :
    ¬∀ (env : LintEnvironment) (configuration : Option Json) (roles selection : List Json)
      (answers answers' : Values), lintConfiguration env configuration roles = [] →
      answers.keys.Nodup → answers'.keys.Nodup →
      (∀ k ∈ answers.keys ++ answers'.keys,
        k ∈ (listOf configuration "fields").filterMap nameOf) →
      (∀ field ∈ (computeVisibility env.toCoercions configuration answers
            (buildShowIfRoleFlags selection)).visibleFields ++
          (computeVisibility env.toCoercions configuration answers'
            (buildShowIfRoleFlags selection)).visibleFields,
        ∀ k, nameOf field = some k → answers.get k = answers'.get k) →
      (computeVisibility env.toCoercions configuration answers
          (buildShowIfRoleFlags selection)).hidden =
        (computeVisibility env.toCoercions configuration answers'
          (buildShowIfRoleFlags selection)).hidden := by
  intro h
  have hhidden := h plainEnvironment (some clusterSize) [] [] [("cluster", .bool true)]
    [("cluster", .bool false)] (by decide +kernel) (by decide) (by decide) (by decide)
    (by decide +kernel)
  revert hhidden
  decide +kernel

end ZoneweaverAgent.FieldDsl
