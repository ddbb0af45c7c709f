import Mathlib.Data.List.Induction
import ZoneweaverAgent.FieldDslLint

/-!
# Accepted configurations

What the import lint has established of a configuration it accepts: the names are there, legal and
different, and every condition reads role flags and fields declared earlier only.
-/

namespace ZoneweaverAgent.FieldDsl

mutual

/-- The names a `show_if` reads. -/
def operandsOf : Json → List String
  | .obj entries => entriesOperands entries
  | .arr entries => entries.zipIdx.map fun e => toString e.2
  | _ => []

def entriesOperands : List (String × Json) → List String
  | [] => []
  | (key, condition) :: rest =>
    (if key = "any" then anyOfOperands condition else [key]) ++ entriesOperands rest

def anyOfOperands : Json → List String
  | .arr maps => anyOperands maps
  | _ => []

def anyOperands : List Json → List String
  | [] => []
  | map :: rest => operandsOf map ++ anyOperands rest

end

section Congruence
variable (coerce : Coercions) {ctx ctx' : Values}

mutual

theorem evaluateShowIf_congr : ∀ showIf : Json,
    (∀ k ∈ operandsOf showIf, read ctx k = read ctx' k) →
      evaluateShowIf coerce ctx showIf = evaluateShowIf coerce ctx' showIf
  | .obj entries, h => by
    simp only [evaluateShowIf]
    exact evaluateEntries_congr entries (by simpa only [operandsOf] using h)
  | .arr entries, h => by
    simp only [evaluateShowIf]
    have hread : ∀ e ∈ entries.zipIdx, read ctx (toString e.2) = read ctx' (toString e.2) := by
      intro e he
      refine h _ ?_
      simp only [operandsOf]
      exact List.mem_map_of_mem he
    rw [Bool.eq_iff_iff, List.all_eq_true, List.all_eq_true]
    exact forall₂_congr fun e he => by rw [hread e he]
  | .null, _ => rfl
  | .bool _, _ => rfl
  | .num _, _ => rfl
  | .str _, _ => rfl
termination_by showIf => sizeOf showIf

theorem evaluateEntries_congr : ∀ entries : List (String × Json),
    (∀ k ∈ entriesOperands entries, read ctx k = read ctx' k) →
      evaluateEntries coerce ctx entries = evaluateEntries coerce ctx' entries
  | [], _ => rfl
  | (key, condition) :: rest, h => by
    simp only [entriesOperands, List.mem_append] at h
    simp only [evaluateEntries]
    rw [evaluateEntries_congr rest fun k hk => h k (.inr hk)]
    congr 1
    by_cases hkey : key = "any"
    · simp only [if_pos hkey] at h ⊢
      exact evaluateAnyOf_congr condition fun k hk => h k (.inl hk)
    · simp only [if_neg hkey] at h ⊢
      rw [h key (.inl (List.mem_singleton_self key))]
termination_by entries => sizeOf entries

theorem evaluateAnyOf_congr : ∀ condition : Json,
    (∀ k ∈ anyOfOperands condition, read ctx k = read ctx' k) →
      evaluateAnyOf coerce ctx condition = evaluateAnyOf coerce ctx' condition
  | .arr maps, h => by
    simp only [evaluateAnyOf]
    exact evaluateAny_congr maps (by simpa only [anyOfOperands] using h)
  | .null, _ => rfl
  | .bool _, _ => rfl
  | .num _, _ => rfl
  | .str _, _ => rfl
  | .obj _, _ => rfl
termination_by condition => sizeOf condition

theorem evaluateAny_congr : ∀ maps : List Json,
    (∀ k ∈ anyOperands maps, read ctx k = read ctx' k) →
      evaluateAny coerce ctx maps = evaluateAny coerce ctx' maps
  | [], _ => rfl
  | map :: rest, h => by
    simp only [anyOperands, List.mem_append] at h
    simp only [evaluateAny]
    rw [evaluateShowIf_congr map fun k hk => h k (.inl hk),
      evaluateAny_congr rest fun k hk => h k (.inr hk)]
termination_by maps => sizeOf maps

end

end Congruence

section Accepted
variable {operands : List String}

theorem errorIf_eq_nil {refused : Bool} {path message : String} {node : Option Json} :
    errorIf refused path message node = [] ↔ refused = false := by
  cases refused <;> simp [errorIf]

mutual

/-- An accepted `show_if` reads legal operands only. -/
theorem operands_of_lintShowIf (path : String) : ∀ showIf : Json,
    lintShowIf operands path showIf = [] → ∀ k ∈ operandsOf showIf, k ∈ operands
  | .obj entries, h, k, hk => by
    simp only [lintShowIf] at h
    simp only [operandsOf] at hk
    exact operands_of_lintEntries path entries h k hk
  | .arr _, h, _, _ => by simp [lintShowIf] at h
  | .null, _, _, hk => by simp [operandsOf] at hk
  | .bool _, _, _, hk => by simp [operandsOf] at hk
  | .num _, _, _, hk => by simp [operandsOf] at hk
  | .str _, _, _, hk => by simp [operandsOf] at hk
termination_by showIf => sizeOf showIf

theorem operands_of_lintEntries (path : String) : ∀ entries : List (String × Json),
    lintEntries operands path entries = [] → ∀ k ∈ entriesOperands entries, k ∈ operands
  | [], _, _, hk => by simp [entriesOperands] at hk
  | (key, condition) :: rest, h, k, hk => by
    simp only [lintEntries, List.append_eq_nil_iff] at h
    simp only [entriesOperands, List.mem_append] at hk
    rcases hk with hk | hk
    · by_cases hkey : key = "any"
      · simp only [if_pos hkey] at h hk
        exact operands_of_lintAnyOf path condition h.1 k hk
      · simp only [if_neg hkey, List.append_eq_nil_iff] at h hk
        rw [List.mem_singleton.mp hk]
        simpa using errorIf_eq_nil.mp h.1.1
    · exact operands_of_lintEntries path rest h.2 k hk
termination_by entries => sizeOf entries

theorem operands_of_lintAnyOf (path : String) : ∀ condition : Json,
    lintAnyOf operands path condition = [] → ∀ k ∈ anyOfOperands condition, k ∈ operands
  | .arr maps, h, k, hk => by
    simp only [lintAnyOf] at h
    simp only [anyOfOperands] at hk
    split_ifs at h
    exact operands_of_lintAny path 0 maps h k hk
  | .null, _, _, hk => by simp [anyOfOperands] at hk
  | .bool _, _, _, hk => by simp [anyOfOperands] at hk
  | .num _, _, _, hk => by simp [anyOfOperands] at hk
  | .str _, _, _, hk => by simp [anyOfOperands] at hk
  | .obj _, _, _, hk => by simp [anyOfOperands] at hk
termination_by condition => sizeOf condition

theorem operands_of_lintAny (path : String) (i : ℕ) : ∀ maps : List Json,
    lintAny operands path i maps = [] → ∀ k ∈ anyOperands maps, k ∈ operands
  | [], _, _, hk => by simp [anyOperands] at hk
  | map :: rest, h, k, hk => by
    simp only [lintAny, List.append_eq_nil_iff] at h
    simp only [anyOperands, List.mem_append] at hk
    rcases hk with hk | hk
    · split_ifs at h
      · simp at h
      · exact operands_of_lintShowIf _ map h.1 k hk
    · exact operands_of_lintAny path (i + 1) rest h.2 k hk
termination_by maps => sizeOf maps

end

/-- What the lint has checked of a field, the names `seen` being those of the fields before it. -/
structure AcceptedField (env : LintEnvironment) (operands groupNames seen : List String)
    (field : Json) (name : String) : Prop where
  isMap : field.isMap = true
  named : nameOf field = some name
  legal : isFieldName name = true
  new : name ∉ seen
  typed : ∃ type ∈ fieldTypes, field.field "type" = some (.str type)
  group : ∀ group, field.field "group" = some group → ∃ g ∈ groupNames, group = .str g
  flags : ∀ flag ∈ ["required", "immutable"], ∀ value, field.field flag = some value →
    value.isBool = true
  showIf : ∀ showIf, field.field "show_if" = some showIf →
    ∃ path, lintShowIf (operands ++ seen) path showIf = []
  typeKeys : ∃ path, lintFieldTypeKeys env field path = []
  validate : ∃ path, lintValidate env field path = []

variable {env : LintEnvironment} {groupNames seen : List String}

theorem lintFieldName_eq_nil {path : String} {field : Json}
    (h : lintFieldName path seen field = []) :
    ∃ name, nameOf field = some name ∧ isFieldName name = true ∧ name ∉ seen := by
  unfold lintFieldName at h
  cases hname : nameOf field with
  | none => simp [hname] at h
  | some name =>
    simp only [hname] at h
    split_ifs at h with hlegal
    exact ⟨name, rfl, by simpa using hlegal, by simpa using errorIf_eq_nil.mp h⟩

theorem knownType_eq_true {field : Json} (h : knownType field = true) :
    ∃ type ∈ fieldTypes, field.field "type" = some (.str type) := by
  unfold knownType at h
  cases htype : field.field "type" with
  | none => simp [htype] at h
  | some value =>
    cases value with
    | str type => exact ⟨type, by simpa [htype, Json.text?] using h, rfl⟩
    | _ => simp [htype, Json.text?] at h

theorem lintFieldGroup_eq_nil {path : String} {field group : Json}
    (h : lintFieldGroup env path groupNames field = []) (hgroup : field.field "group" = some group) :
    ∃ g ∈ groupNames, group = .str g := by
  unfold lintFieldGroup at h
  rw [hgroup] at h
  have hdeclared := errorIf_eq_nil.mp h
  cases group with
  | str g => exact ⟨g, by simpa [Json.text?] using hdeclared, rfl⟩
  | _ => simp [Json.text?] at hdeclared

theorem lintFlag_eq_nil {path flag : String} {owner value : Json}
    (h : lintFlag path owner flag = []) (hvalue : owner.field flag = some value) :
    value.isBool = true := by
  unfold lintFlag at h
  rw [hvalue] at h
  simpa using errorIf_eq_nil.mp h

theorem lintOwnShowIf_eq_nil {path : String} {owner showIf : Json}
    (h : lintOwnShowIf operands path owner = []) (hshow : owner.field "show_if" = some showIf) :
    ∃ path, lintShowIf operands path showIf = [] := by
  unfold lintOwnShowIf at h
  rw [hshow] at h
  exact ⟨_, h⟩

theorem accepted_of_lintField {i : ℕ} {field : Json}
    (h : (lintField env operands groupNames i seen field).1 = []) :
    ∃ name, AcceptedField env operands groupNames seen field name ∧
      (lintField env operands groupNames i seen field).2 = seen ++ [name] := by
  cases field with
  | obj entries =>
    simp only [lintField] at h ⊢
    by_cases htype : knownType (.obj entries) = true
    · simp only [htype, Bool.not_true, Bool.false_eq_true, if_false, List.append_eq_nil_iff] at h ⊢
      obtain ⟨⟨⟨⟨⟨⟨-, hname⟩, hgroup⟩, hflags⟩, hshow⟩, hkeys⟩, hvalidate⟩ := h
      obtain ⟨name, hnamed, hlegal, hnew⟩ := lintFieldName_eq_nil hname
      refine ⟨name, ?_, by rw [hnamed]; rfl⟩
      exact {
        isMap := rfl
        named := hnamed
        legal := hlegal
        new := hnew
        typed := knownType_eq_true htype
        group := fun group hg => lintFieldGroup_eq_nil hgroup hg
        flags := fun flag hflag value hvalue =>
          lintFlag_eq_nil (List.flatMap_eq_nil_iff.mp hflags flag hflag) hvalue
        showIf := fun showIf hs => lintOwnShowIf_eq_nil hshow hs
        typeKeys := ⟨_, hkeys⟩
        validate := ⟨_, hvalidate⟩ }
    · simp [htype] at h
  | _ => simp [lintField] at h

theorem accepted_of_lintFields {i : ℕ} {fields : List Json}
    (h : lintFields env operands groupNames i seen fields = []) {pre post : List Json}
    {field : Json} (hsplit : fields = pre ++ field :: post) :
    ∃ name, AcceptedField env operands groupNames (seen ++ pre.filterMap nameOf) field name := by
  induction pre generalizing i seen fields with
  | nil =>
    subst hsplit
    simp only [List.nil_append, lintFields, List.append_eq_nil_iff] at h
    obtain ⟨name, hfield, -⟩ := accepted_of_lintField h.1
    exact ⟨name, by simpa using hfield⟩
  | cons first pre ih =>
    subst hsplit
    simp only [List.cons_append, lintFields, List.append_eq_nil_iff] at h
    obtain ⟨n, hfirst, hseen⟩ := accepted_of_lintField h.1
    obtain ⟨name, hfield⟩ := ih (hseen ▸ h.2) rfl
    refine ⟨name, ?_⟩
    rw [List.filterMap_cons_some hfirst.named]
    simpa using hfield

theorem accepted_of_lintGroup {fields : List Json} {i : ℕ} {group : Json}
    (h : (lintGroup operands fields i groupNames group).1 = []) :
    ∃ name, nameOf group = some name ∧ name ≠ "" ∧ name ∉ groupNames ∧
      (lintGroup operands fields i groupNames group).2 = groupNames ++ [name] := by
  cases group with
  | obj entries =>
    simp only [lintGroup, List.append_eq_nil_iff] at h ⊢
    have hname := h.1.1.2
    unfold lintGroupName at hname
    split_ifs at hname with hempty
    have hnew : groupNameOf (.obj entries) ∉ groupNames := by
      simpa using errorIf_eq_nil.mp hname
    refine ⟨groupNameOf (.obj entries), ?_, hempty, hnew, ?_⟩
    · unfold groupNameOf at hempty ⊢
      cases hn : nameOf (.obj entries) with
      | none => simp [hn] at hempty
      | some name => rfl
    · rw [if_neg (by simp [hempty, hnew])]
  | _ => simp [lintGroup] at h

/-- The names of accepted groups are all there and all different. -/
theorem accepted_of_lintGroups {fields groups : List Json} {i : ℕ} (hnodup : groupNames.Nodup)
    (h : (lintGroups operands fields i groupNames groups).1 = []) :
    (∀ group ∈ groups, ∃ name, nameOf group = some name ∧ name ≠ "") ∧
      (lintGroups operands fields i groupNames groups).2 = groupNames ++ groups.filterMap nameOf ∧
      (groupNames ++ groups.filterMap nameOf).Nodup := by
  induction groups generalizing i groupNames with
  | nil => simpa [lintGroups] using hnodup
  | cons group rest ih =>
    simp only [lintGroups, List.append_eq_nil_iff] at h ⊢
    obtain ⟨name, hname, hempty, hnew, hnames⟩ := accepted_of_lintGroup h.1
    have hnodup' : (groupNames ++ [name]).Nodup :=
      List.nodup_append.mpr ⟨hnodup, List.pairwise_singleton _ name, fun a ha b hb heq =>
        hnew (List.mem_singleton.mp hb ▸ heq ▸ ha)⟩
    rw [hnames] at h ⊢
    obtain ⟨hnamed, hall, hdistinct⟩ := ih hnodup' h.2
    have hcons : groupNames ++ (group :: rest).filterMap nameOf =
        groupNames ++ [name] ++ rest.filterMap nameOf := by
      rw [List.filterMap_cons_some hname, List.append_assoc]
      rfl
    rw [hcons]
    refine ⟨fun g hg => ?_, hall, hdistinct⟩
    rcases List.mem_cons.mp hg with rfl | hg
    · exact ⟨name, hname, hempty⟩
    · exact hnamed g hg

/-- What the lint has checked of a configuration. -/
structure Accepted (env : LintEnvironment) (roles groups fields : List Json) : Prop where
  fields : ∀ pre field post, fields = pre ++ field :: post → ∃ name,
    AcceptedField env (roleOperands roles) (groups.filterMap nameOf) (pre.filterMap nameOf)
      field name
  groupsNamed : ∀ group ∈ groups, ∃ name, nameOf group = some name ∧ name ≠ ""
  groupsDistinct : (groups.filterMap nameOf).Nodup

theorem accepted_nil (roles : List Json) : Accepted env roles [] [] where
  fields pre field post h := by simp at h
  groupsNamed _ h := by cases h
  groupsDistinct := List.nodup_nil

theorem listOf_obj (entries : List (String × Json)) (key : String) :
    listOf (some (.obj entries)) key =
      (((Json.obj entries).field key).getD (.arr [])).items?.getD [] := by
  unfold listOf
  rw [Option.bind_some]
  cases (Json.obj entries).field key <;> rfl

theorem accepted_of_lint {configuration : Option Json} {roles : List Json}
    (h : lintConfiguration env configuration roles = []) :
    Accepted env roles (listOf configuration "groups") (listOf configuration "fields") := by
  cases configuration with
  | none => exact accepted_nil roles
  | some configuration =>
    cases configuration with
    | null => exact accepted_nil roles
    | obj entries =>
      rw [listOf_obj, listOf_obj]
      simp only [lintConfiguration] at h
      cases hfields : ((Json.obj entries).field "fields").getD (.arr []) with
      | arr fields =>
        simp only [hfields, List.append_eq_nil_iff] at h
        obtain ⟨⟨-, hgroups⟩, hfields'⟩ := h
        obtain ⟨hnamed, hnames, hdistinct⟩ := accepted_of_lintGroups List.nodup_nil hgroups
        rw [hnames] at hfields'
        exact {
          fields := fun pre field post hsplit => by
            simpa using accepted_of_lintFields hfields' hsplit
          groupsNamed := hnamed
          groupsDistinct := by simpa using hdistinct }
      | _ => simp only [hfields, List.append_eq_nil_iff, List.cons_ne_nil, and_false] at h
    | _ => simp [lintConfiguration] at h

theorem Accepted.named {roles groups fields : List Json} (h : Accepted env roles groups fields) :
    ∀ field ∈ fields, (nameOf field).isSome := by
  intro field hfield
  obtain ⟨pre, post, hsplit⟩ := List.append_of_mem hfield
  obtain ⟨name, haccepted⟩ := h.fields pre field post hsplit
  rw [haccepted.named]
  rfl

theorem Accepted.distinct {roles groups fields : List Json} (h : Accepted env roles groups fields) :
    (fields.filterMap nameOf).Nodup := by
  have hpfx : ∀ pre post, fields = pre ++ post → (pre.filterMap nameOf).Nodup := by
    intro pre
    induction pre using List.reverseRecOn with
    | nil => exact fun _ _ => List.nodup_nil
    | append_singleton pre field ih =>
      intro post hsplit
      have hsplit' : fields = pre ++ field :: post := by simpa using hsplit
      obtain ⟨name, haccepted⟩ := h.fields pre field post hsplit'
      rw [List.filterMap_append, List.filterMap_cons_some haccepted.named, List.filterMap_nil]
      refine List.nodup_append.mpr
        ⟨ih _ hsplit', List.pairwise_singleton _ name, fun a ha b hb heq => ?_⟩
      exact haccepted.new (List.mem_singleton.mp hb ▸ heq ▸ ha)
  exact hpfx fields [] (List.append_nil fields).symm

end Accepted

end ZoneweaverAgent.FieldDsl
