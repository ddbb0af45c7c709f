import ZoneweaverAgent.ZoneResources

/-!
# Resource controls, all or nothing

The removes have taken effect when the batch of adds is refused, and a remove that is refused is
passed over. The replacement is atomic where neither matters.
-/

namespace ZoneweaverAgent.ZoneResources

section Requested
variable (text : Json → String) (metadata : Json)

def single (key : String) (resource : Resource) (settings : Json → Option Settings) :
    List (Resource × Settings) :=
  (((metadata.field key).bind settings).map fun v => (resource, v)).toList

def entries (key : String) (entry : Json → Except String (Resource × Settings)) :
    List (Resource × Settings) :=
  (itemsOf (metadata.field key)).filterMap fun item => (entry item).toOption

/-- The values that are asked for. -/
def requests : List (Resource × Settings) :=
  single metadata "capped_cpu" .cappedCpu (valueOf (cappedCpuSettings text)) ++
  single metadata "capped_memory" .cappedMemory (valueOf (cappedMemorySettings text)) ++
  single metadata "dedicated_cpu" .dedicatedCpu (valueOf (dedicatedCpuSettings text)) ++
  single metadata "security_flags" .securityFlags (valueOf (securityFlagsSettings text)) ++
  entries metadata "rctls" (rctlEntry text) ++
  entries metadata "admins" (adminEntry text) ++
  (itemsOf (metadata.field "virtfs")).zipIdx.filterMap
    (fun e => (virtfsEntry text e.1 e.2).toOption) ++
  ((itemsOf (metadata.field "ppt")).filterMap
    fun entry => (pptEntry text entry).toOption).flatten ++
  single metadata "fs_allowed" .fsAllowed (fsAllowedSettings text)

/-- The resources of the families that the metadata names. -/
def named : Resource → Bool
  | .cappedCpu => (metadata.field "capped_cpu").isSome
  | .cappedMemory => (metadata.field "capped_memory").isSome
  | .dedicatedCpu => (metadata.field "dedicated_cpu").isSome
  | .securityFlags => (metadata.field "security_flags").isSome
  | .rctl name => (itemsOf (metadata.field "remove_rctls")).any (text · = name) ||
      (entries metadata "rctls" (rctlEntry text)).any (·.1 = .rctl name)
  | .admin user => (itemsOf (metadata.field "remove_admins")).any (text · = user) ||
      (entries metadata "admins" (adminEntry text)).any (·.1 = .admin user)
  | .attr name => (metadata.field "virtfs").isSome && isNumbered "virtfs" name ||
      (metadata.field "ppt").isSome && isNumbered "ppt" name
  | .device path => (metadata.field "ppt").isSome && isNumbered "/dev/ppt" path
  | .fsAllowed => (metadata.field "fs_allowed").isSome

def isRequested (r : Resource) : Bool := (requests text metadata).any (·.1 = r)

def setAll (c : Configuration) (requests : List (Resource × Settings)) : Configuration :=
  requests.foldl (fun c e => Function.update c e.1 (some e.2)) c

/-- The named families have the requested values, and nothing else of theirs. -/
def requested (before : Configuration) : Configuration :=
  setAll (fun r => if named text metadata r then none else before r) (requests text metadata)

end Requested

section Properties
variable (text : Json → String) (host : Host) (zoneName : String) (zoneConfig metadata : Json)
  (c : Configuration)

/-- Nothing is changed where it throws, and everything is as requested where it returns. -/
def Atomic : Prop :=
  match (applyResourceControlChanges text host zoneName zoneConfig metadata c).result with
  | .ok _ => (applyResourceControlChanges text host zoneName zoneConfig metadata c).after =
      requested text metadata c
  | .error _ => (applyResourceControlChanges text host zoneName zoneConfig metadata c).after = c

/-- Where the batch of adds is taken, everything of the named families that is not requested has
been removed; where it is refused, nothing has. -/
def RemovesFit (plan : Plan) : Prop :=
  let removed := toleratedRemoves host zoneName 0 plan.removes c
  if (strictBatch host zoneName plan removed.1).isSome then
    ∀ r, named text metadata r = true → isRequested text metadata r = false → c r ≠ none →
      r ∈ removed.2.2
  else ∀ r ∈ removed.2.2, c r = none

def Fits : Prop :=
  ∀ plan, collect text zoneConfig metadata = .ok plan →
    RemovesFit text host zoneName metadata c plan

end Properties

section Zonecfg
variable {host : Host} {zoneName : String} {c c' : Configuration}

theorem zonecfg_eq_some {n : ℕ} {commands : List Command}
    (h : zonecfg host zoneName n commands c = some c') : commands.foldlM run c = some c' := by
  unfold zonecfg at h
  split_ifs at h
  exact h

theorem run_remove {r : Resource} (h : run c (.remove r) = some c') :
    c' = Function.update c r none := by
  unfold run at h
  simp only at h
  split_ifs at h
  exact (Option.some.inj h).symm

theorem run_add {r : Resource} {settings : Settings} (h : run c (.add r settings) = some c') :
    c' = Function.update c r (some settings) := by
  unfold run at h
  simp only at h
  split_ifs at h
  exact (Option.some.inj h).symm

/-- What was removed is gone, and nothing else. -/
theorem toleratedRemoves_get (n : ℕ) (removes : List Resource) (c : Configuration) (r : Resource) :
    (toleratedRemoves host zoneName n removes c).1 r =
      if r ∈ (toleratedRemoves host zoneName n removes c).2.2 then none else c r := by
  induction removes generalizing n c with
  | nil => simp [toleratedRemoves]
  | cons r' removes ih =>
    unfold toleratedRemoves
    cases hrun : zonecfg host zoneName n [.remove r'] c with
    | none => exact ih (n + 1) c
    | some c' =>
      have hc' : c' = Function.update c r' none := by
        have hfold := zonecfg_eq_some hrun
        simp only [List.foldlM_cons, List.foldlM_nil] at hfold
        obtain ⟨c'', hc'', hpure⟩ := Option.bind_eq_some_iff.mp hfold
        obtain rfl := Option.some.inj hpure
        exact run_remove hc''
      change (toleratedRemoves host zoneName (n + 1) removes c').1 r =
        if r ∈ r' :: (toleratedRemoves host zoneName (n + 1) removes c').2.2 then none else c r
      rw [ih, hc']
      by_cases hr : r = r'
      · simp [hr]
      · simp [hr, Function.update_of_ne hr]

theorem removed_subset (n : ℕ) (removes : List Resource) (c : Configuration) :
    (toleratedRemoves host zoneName n removes c).2.2 ⊆ removes := by
  induction removes generalizing n c with
  | nil => simp [toleratedRemoves]
  | cons r removes ih =>
    unfold toleratedRemoves
    cases zonecfg host zoneName n [.remove r] c with
    | none => exact List.Subset.trans (ih (n + 1) c) (List.subset_cons_self _ _)
    | some c' => exact List.cons_subset_cons r (ih (n + 1) c')

theorem strictBatch_eq {plan : Plan} (h : strictBatch host zoneName plan c = some c') :
    c' = setAll c plan.strict := by
  unfold strictBatch at h
  split_ifs at h with hnil
  · rw [List.isEmpty_iff.mp hnil]
    exact (Option.some.inj h).symm
  · have hfold := zonecfg_eq_some h
    unfold strictCommands at hfold
    rw [List.foldlM_map] at hfold
    clear h hnil
    generalize plan.strict = strict at hfold
    induction strict generalizing c with
    | nil => exact (Option.some.inj hfold).symm
    | cons e strict ih =>
      rw [List.foldlM_cons] at hfold
      obtain ⟨c'', hc'', hrest⟩ := Option.bind_eq_some_iff.mp hfold
      rw [ih hrest, run_add hc'']
      rfl

/-- Two configurations become alike where what is not set is alike. -/
theorem setAll_eq_iff (c c' : Configuration) (requests : List (Resource × Settings)) :
    setAll c requests = setAll c' requests ↔
      ∀ r, requests.any (·.1 = r) = false → c r = c' r := by
  have hget : ∀ (requests : List (Resource × Settings)) (c : Configuration) (r : Resource),
      requests.any (·.1 = r) = false → setAll c requests r = c r := by
    intro requests
    induction requests with
    | nil => exact fun _ _ _ => rfl
    | cons e requests ih =>
      intro c r h
      rw [List.any_cons, Bool.or_eq_false_iff, decide_eq_false_iff_not] at h
      exact (ih _ r h.2).trans (Function.update_of_ne (Ne.symm h.1) _ _)
  constructor
  · intro h r hr
    rw [← hget requests c r hr, h, hget requests c' r hr]
  · intro h
    induction requests generalizing c c' with
    | nil => exact funext fun r => h r rfl
    | cons e requests ih =>
      apply ih
      intro r hr
      change Function.update c e.1 (some e.2) r = Function.update c' e.1 (some e.2) r
      by_cases her : r = e.1
      · rw [her, Function.update_self, Function.update_self]
      · rw [Function.update_of_ne her, Function.update_of_ne her]
        apply h
        rw [List.any_cons, hr, Bool.or_false, decide_eq_false_iff_not]
        exact Ne.symm her

end Zonecfg

section Collect
variable {text : Json → String} {zoneConfig metadata : Json} {plan plan' : Plan}

/-- What collecting one family adds to the plan: its requests, removes of named resources, and a
change unless the family is idle. -/
structure Adds (text : Json → String) (metadata : Json) (requests : List (Resource × Settings))
    (idle : Prop) (plan plan' : Plan) : Prop where
  strict : plan'.strict = plan.strict ++ requests
  removes : ∀ r ∈ plan'.removes, r ∈ plan.removes ∨ named text metadata r = true
  changes : plan'.changes = [] → plan.changes = [] ∧ idle

/-- A family that asks for nothing. -/
theorem adds_nothing {idle : Prop} (h : idle) (plan : Plan) :
    Adds text metadata [] idle plan plan :=
  ⟨(List.append_nil _).symm, fun _ hr => .inl hr, fun hnil => ⟨hnil, h⟩⟩

/-- Removes of named resources that are put behind those of the plan. -/
theorem removes_append {resources : List Resource}
    (h : ∀ r ∈ resources, named text metadata r = true) (plan : Plan) :
    ∀ r ∈ plan.removes ++ resources, r ∈ plan.removes ∨ named text metadata r = true := by
  intro r hr
  rcases List.mem_append.mp hr with hr | hr
  · exact .inl hr
  · exact .inr (h r hr)

theorem adds_resource {key : String} {resource : Resource} {settings : Json → Settings}
    (hnamed : (metadata.field key).isSome → named text metadata resource = true) (plan : Plan) :
    Adds text metadata (single metadata key resource (valueOf settings))
      (metadata.field key = none) plan (collectResource key resource settings metadata plan) := by
  unfold collectResource single
  cases hfield : metadata.field key with
  | none => exact adds_nothing rfl plan
  | some value =>
    constructor
    · rfl
    · exact removes_append (List.forall_mem_singleton.mpr (hnamed (by rw [hfield]; rfl))) plan
    · intro hnil
      exact absurd hnil (by simp)

theorem adds_removed {key change : String} {resource : String → Resource}
    (hnamed : ∀ name ∈ itemsOf (metadata.field key),
      named text metadata (resource (text name)) = true) (plan : Plan) :
    Adds text metadata [] (itemsOf (metadata.field key) = []) plan
      (collectRemoved text key change resource metadata plan) := by
  unfold collectRemoved
  generalize itemsOf (metadata.field key) = names at hnamed
  induction names generalizing plan with
  | nil => exact adds_nothing rfl plan
  | cons name names ih =>
    have hrest := ih { plan with
        removes := plan.removes ++ [resource (text name)]
        changes := plan.changes ++ [change] } fun n hn => hnamed n (List.mem_cons_of_mem _ hn)
    constructor
    · exact hrest.strict
    · intro r hr
      rcases hrest.removes r hr with hr | hr
      · exact removes_append (List.forall_mem_singleton.mpr (hnamed name List.mem_cons_self)) plan
          r hr
      · exact .inr hr
    · intro hnil
      exact absurd (hrest.changes hnil).1 (by simp)

theorem adds_entries {key : String} {entry : Json → Except String (Resource × Settings)}
    (hnamed : ∀ e ∈ entries metadata key entry, named text metadata e.1 = true)
    (h : collectEntries key entry metadata plan = .ok plan') :
    Adds text metadata (entries metadata key entry) (entries metadata key entry = []) plan
      plan' := by
  unfold collectEntries at h
  unfold entries at hnamed ⊢
  generalize itemsOf (metadata.field key) = items at h hnamed
  induction items generalizing plan with
  | nil =>
    obtain rfl := Except.ok.inj h
    exact adds_nothing rfl plan
  | cons item items ih =>
    rw [List.foldlM_cons] at h
    cases hentry : entry item with
    | error e =>
      rw [hentry] at h
      cases h
    | ok request =>
      rw [hentry] at h
      rw [List.filterMap_cons_some (b := request) (by rw [hentry]; rfl)] at hnamed ⊢
      have hrest := ih h (List.forall_mem_cons.mp hnamed).2
      constructor
      · rw [hrest.strict, List.append_assoc]
        rfl
      · intro r hr
        rcases hrest.removes r hr with hr | hr
        · exact removes_append
            (List.forall_mem_singleton.mpr (List.forall_mem_cons.mp hnamed).1) plan r hr
        · exact .inr hr
      · intro hnil
        exact absurd (hrest.changes hnil).1 (by simp)

theorem filterMap_toOption_of_mapM {α β : Type} {f : α → Except String β} {items : List α}
    {results : List β} (h : items.mapM f = .ok results) :
    items.filterMap (fun item => (f item).toOption) = results := by
  induction items generalizing results with
  | nil => exact Except.ok.inj h
  | cons item items ih =>
    rw [List.mapM_cons] at h
    cases hitem : f item with
    | error e =>
      rw [hitem] at h
      cases h
    | ok result =>
      rw [hitem] at h
      cases hrest : items.mapM f with
      | error e =>
        rw [hrest] at h
        cases h
      | ok rest =>
        rw [hrest] at h
        obtain rfl := Except.ok.inj h
        rw [List.filterMap_cons_some (b := result) (by rw [hitem]; rfl), ih hrest]

theorem isNumbered_append_toString (stem : String) (i : ℕ) :
    isNumbered stem (stem ++ toString i) = true := by
  have hlist : (stem ++ toString i).toList = stem.toList ++ Nat.toDigits 10 i := by simp
  have hdrop : (stem ++ toString i).toList.drop stem.length = Nat.toDigits 10 i := by
    rw [hlist, ← String.length_toList, List.drop_left]
  have hdigits : (Nat.toDigits 10 i).all Char.isDigit = true :=
    List.all_eq_true.mpr fun c hc => Nat.isDigit_of_mem_toDigits (by decide) (by decide) hc
  unfold isNumbered
  rw [hdrop, hdigits, hlist]
  simp

theorem isNumbered_devPath {name : String} (h : isNumbered "ppt" name = true) :
    isNumbered "/dev/ppt" (devPath name) = true := by
  have hlist : (devPath name).toList = "/dev/".toList ++ name.toList := by simp [devPath]
  have hdrop : (devPath name).toList.drop "/dev/ppt".length =
      name.toList.drop "ppt".length := by
    rw [hlist]
    rfl
  unfold isNumbered at h ⊢
  simp only [Bool.and_eq_true] at h ⊢
  refine ⟨⟨?_, ?_⟩, ?_⟩
  · have hsplit : "/dev/ppt".toList = "/dev/".toList ++ "ppt".toList := rfl
    rw [List.isPrefixOf_iff_prefix] at h ⊢
    rw [hlist, hsplit]
    exact (List.prefix_append_right_inj _).mpr h.1.1
  · rw [hdrop]
    exact h.1.2
  · rw [hdrop]
    exact h.2

theorem isNumbered_of_existing {stem name : String}
    (h : name ∈ existingNumberedAttrs text zoneConfig stem) : isNumbered stem name = true := by
  unfold existingNumberedAttrs at h
  rw [List.mem_eraseDups, List.mem_append] at h
  rcases h with h | h
  · obtain ⟨attr, -, hname⟩ := List.mem_filterMap.mp h
    exact (Option.filter_eq_some_iff.mp hname).2
  · obtain ⟨i, -, rfl⟩ := List.mem_map.mp h
    exact isNumbered_append_toString stem i

theorem adds_virtfs (h : collectVirtfs text zoneConfig metadata plan = .ok plan') :
    Adds text metadata ((itemsOf (metadata.field "virtfs")).zipIdx.filterMap
      (fun e => (virtfsEntry text e.1 e.2).toOption)) (metadata.field "virtfs" = none) plan
      plan' := by
  unfold collectVirtfs at h
  cases hfield : metadata.field "virtfs" with
  | none =>
    rw [hfield] at h
    obtain rfl := Except.ok.inj h
    exact adds_nothing rfl plan
  | some value =>
    rw [hfield] at h
    simp only at h
    cases hshares : (itemsOf (some value)).zipIdx.mapM fun e => virtfsEntry text e.1 e.2 with
    | error e =>
      rw [hshares] at h
      cases h
    | ok shares =>
      rw [hshares] at h
      obtain rfl := Except.ok.inj h
      constructor
      · rw [filterMap_toOption_of_mapM hshares]
      · refine removes_append (fun r hr => ?_) plan
        obtain ⟨name, hname, rfl⟩ := List.mem_map.mp hr
        simp [named, hfield, isNumbered_of_existing hname]
      · intro hnil
        exact absurd hnil (by simp)

theorem adds_ppt (h : collectPpt text zoneConfig metadata plan = .ok plan') :
    Adds text metadata ((itemsOf (metadata.field "ppt")).filterMap
      fun entry => (pptEntry text entry).toOption).flatten (metadata.field "ppt" = none) plan
      plan' := by
  unfold collectPpt at h
  cases hfield : metadata.field "ppt" with
  | none =>
    rw [hfield] at h
    obtain rfl := Except.ok.inj h
    exact adds_nothing rfl plan
  | some value =>
    rw [hfield] at h
    simp only at h
    cases hentries : (itemsOf (some value)).mapM (pptEntry text) with
    | error e =>
      rw [hentries] at h
      cases h
    | ok entries =>
      rw [hentries] at h
      obtain rfl := Except.ok.inj h
      constructor
      · rw [filterMap_toOption_of_mapM hentries]
      · refine removes_append (fun r hr => ?_) plan
        obtain ⟨name, hname, hr⟩ := List.mem_flatMap.mp hr
        have hnumbered := isNumbered_of_existing hname
        have hdevice := isNumbered_devPath hnumbered
        simp only [List.mem_cons, List.not_mem_nil, or_false] at hr
        rcases hr with rfl | rfl
        · simp [named, hfield, hnumbered]
        · simp [named, hfield, hdevice]
      · intro hnil
        exact absurd hnil (by simp)

theorem adds_fsAllowed (plan : Plan) :
    Adds text metadata (single metadata "fs_allowed" .fsAllowed (fsAllowedSettings text))
      (metadata.field "fs_allowed" = none) plan (collectFsAllowed text metadata plan) := by
  unfold collectFsAllowed single
  cases hfield : metadata.field "fs_allowed" with
  | none => exact adds_nothing rfl plan
  | some value =>
    simp only [Option.bind_some]
    cases fsAllowedSettings text value with
    | none =>
      constructor
      · exact (List.append_nil _).symm
      · exact removes_append (List.forall_mem_singleton.mpr (by simp [named, hfield])) plan
      · intro hnil
        exact absurd hnil (by simp)
    | some settings =>
      constructor
      · rfl
      · exact fun r hr => .inl hr
      · intro hnil
        exact absurd hnil (by simp)

theorem named_of_single {key : String} {resource : Resource} {settings : Json → Option Settings}
    {e : Resource × Settings}
    (hnamed : (metadata.field key).isSome = true → named text metadata resource = true)
    (h : e ∈ single metadata key resource settings) : named text metadata e.1 = true := by
  unfold single at h
  rw [Option.mem_toList] at h
  obtain ⟨v, hv, rfl⟩ := Option.map_eq_some_iff.mp h
  obtain ⟨value, hvalue, -⟩ := Option.bind_eq_some_iff.mp hv
  exact hnamed (by rw [hvalue]; rfl)

theorem toOption_eq_some {α : Type} {x : Except String α} {a : α} (h : x.toOption = some a) :
    x = .ok a := by
  cases x with
  | error e => cases h
  | ok b => exact congrArg _ (Option.some.inj h)

theorem named_rctl {e : Resource × Settings} (h : e ∈ entries metadata "rctls" (rctlEntry text)) :
    named text metadata e.1 = true := by
  obtain ⟨rctl, -, hentry⟩ := List.mem_filterMap.mp h
  have hok := toOption_eq_some hentry
  unfold rctlEntry at hok
  split at hok
  · obtain rfl := Except.ok.inj hok
    simp only [named, Bool.or_eq_true, List.any_eq_true]
    exact .inr ⟨_, h, by simp⟩
  · cases hok

theorem named_admin {e : Resource × Settings}
    (h : e ∈ entries metadata "admins" (adminEntry text)) : named text metadata e.1 = true := by
  obtain ⟨admin, -, hentry⟩ := List.mem_filterMap.mp h
  have hok := toOption_eq_some hentry
  unfold adminEntry at hok
  split at hok
  · obtain rfl := Except.ok.inj hok
    simp only [named, Bool.or_eq_true, List.any_eq_true]
    exact .inr ⟨_, h, by simp⟩
  · cases hok

theorem isSome_of_item {key : String} {item : Json} (h : item ∈ itemsOf (metadata.field key)) :
    (metadata.field key).isSome = true := by
  cases hfield : metadata.field key with
  | none =>
    rw [hfield] at h
    cases h
  | some value => rfl

theorem named_of_request {e : Resource × Settings} (h : e ∈ requests text metadata) :
    named text metadata e.1 = true := by
  unfold requests at h
  simp only [List.mem_append] at h
  rcases h with (((((((h | h) | h) | h) | h) | h) | h) | h) | h
  · exact named_of_single id h
  · exact named_of_single id h
  · exact named_of_single id h
  · exact named_of_single id h
  · exact named_rctl h
  · exact named_admin h
  · obtain ⟨⟨share, index⟩, hshare, hentry⟩ := List.mem_filterMap.mp h
    have hok := toOption_eq_some hentry
    have hsome := isSome_of_item (List.fst_mem_of_mem_zipIdx hshare)
    unfold virtfsEntry at hok
    split at hok
    · obtain rfl := Except.ok.inj hok
      have hnumbered := isNumbered_append_toString "virtfs" index
      simp only [named, hsome, hnumbered, Bool.and_self, Bool.true_or]
    · cases hok
  · obtain ⟨group, hgroup, he⟩ := List.mem_flatten.mp h
    obtain ⟨entry, hitem, hentry⟩ := List.mem_filterMap.mp hgroup
    have hok := toOption_eq_some hentry
    have hsome := isSome_of_item hitem
    unfold pptEntry at hok
    simp only at hok
    split_ifs at hok with hleaf
    obtain rfl := Except.ok.inj hok
    rw [Bool.not_eq_true, Bool.not_eq_false'] at hleaf
    have hdevice := isNumbered_devPath hleaf
    simp only [List.mem_cons, List.not_mem_nil, or_false] at he
    rcases he with rfl | rfl
    · simp [named, hsome, hleaf]
    · simp [named, hsome, hdevice]
  · exact named_of_single id h

theorem exists_of_bind {α β : Type} {x : Except String α} {f : α → Except String β} {b : β}
    (h : x >>= f = .ok b) : ∃ a, x = .ok a ∧ f a = .ok b := by
  cases x with
  | error e => cases h
  | ok a => exact ⟨a, rfl, h⟩

theorem Adds.trans {requests requests' : List (Resource × Settings)} {idle idle' : Prop}
    {plan'' : Plan} (h : Adds text metadata requests idle plan plan')
    (h' : Adds text metadata requests' idle' plan' plan'') :
    Adds text metadata (requests ++ requests') (idle ∧ idle') plan plan'' where
  strict := by rw [h'.strict, h.strict, List.append_assoc]
  removes r hr := (h'.removes r hr).elim (h.removes r) .inr
  changes hnil :=
    have hlater := h'.changes hnil
    have hfirst := h.changes hlater.1
    ⟨hfirst.1, hfirst.2, hlater.2⟩

/-- The plan adds what is requested and removes what is named; without a change nothing is named. -/
theorem collect_spec (h : collect text zoneConfig metadata = .ok plan) :
    plan.strict = requests text metadata ∧ (∀ r ∈ plan.removes, named text metadata r = true) ∧
      (plan.changes = [] → ∀ r, named text metadata r = false) := by
  unfold collect at h
  obtain ⟨withRctls, hrctls, h⟩ := exists_of_bind h
  obtain ⟨withAdmins, hadmins, h⟩ := exists_of_bind h
  obtain ⟨withVirtfs, hvirtfs, h⟩ := exists_of_bind h
  obtain ⟨withPpt, hppt, h⟩ := exists_of_bind h
  obtain rfl := Except.ok.inj h
  have hcpu := @adds_resource text metadata "capped_cpu" .cappedCpu (cappedCpuSettings text) id
    emptyPlan
  have hmemory := @adds_resource text metadata "capped_memory" .cappedMemory
    (cappedMemorySettings text) id (collectCappedCpu text metadata emptyPlan)
  have hdedicated := @adds_resource text metadata "dedicated_cpu" .dedicatedCpu
    (dedicatedCpuSettings text) id
    (collectCappedMemory text metadata (collectCappedCpu text metadata emptyPlan))
  have hflags := @adds_resource text metadata "security_flags" .securityFlags
    (securityFlagsSettings text) id (collectDedicatedCpu text metadata
      (collectCappedMemory text metadata (collectCappedCpu text metadata emptyPlan)))
  have hnoRctls := @adds_removed text metadata "remove_rctls" "rctls" .rctl (fun name hname => by
    simp only [named, Bool.or_eq_true, List.any_eq_true]
    exact .inl ⟨name, hname, by simp⟩)
  have hnoAdmins := @adds_removed text metadata "remove_admins" "admins" .admin
    (fun name hname => by
      simp only [named, Bool.or_eq_true, List.any_eq_true]
      exact .inl ⟨name, hname, by simp⟩)
  have hall := ((((((hcpu.trans hmemory).trans hdedicated).trans hflags).trans
    ((hnoRctls _).trans (adds_entries (fun e => named_rctl) hrctls))).trans
    ((hnoAdmins _).trans (adds_entries (fun e => named_admin) hadmins))).trans
    (adds_virtfs hvirtfs)).trans (adds_ppt hppt) |>.trans (adds_fsAllowed withPpt)
  refine ⟨hall.strict, ?_, ?_⟩
  · intro r hr
    exact (hall.removes r hr).resolve_left (List.not_mem_nil)
  · intro hnil r
    obtain ⟨-, ⟨⟨⟨⟨⟨⟨⟨hcpu, hmemory⟩, hdedicated⟩, hflags⟩, hnoRctl, hrctl⟩, hnoAdmin, hadmin⟩,
      hvirtfs⟩, hppt⟩, hfs⟩ := hall.changes hnil
    cases r with
    | cappedCpu => simp only [named, hcpu, Option.isSome_none]
    | cappedMemory => simp only [named, hmemory, Option.isSome_none]
    | dedicatedCpu => simp only [named, hdedicated, Option.isSome_none]
    | securityFlags => simp only [named, hflags, Option.isSome_none]
    | rctl name => simp only [named, hnoRctl, hrctl, List.any_nil, Bool.or_self]
    | admin user => simp only [named, hnoAdmin, hadmin, List.any_nil, Bool.or_self]
    | attr name =>
      simp only [named, hvirtfs, hppt, Option.isSome_none, Bool.false_and, Bool.or_self]
    | device path => simp only [named, hppt, Option.isSome_none, Bool.false_and]
    | fsAllowed => simp only [named, hfs, Option.isSome_none]

end Collect

section Atomicity
variable {text : Json → String} {host : Host} {zoneName : String} {zoneConfig metadata : Json}
  {c : Configuration} {plan : Plan}

/-- Without a change there is nothing to remove or to add. -/
theorem nothing_of_noChanges (hcollect : collect text zoneConfig metadata = .ok plan)
    (hnil : plan.changes = []) : requests text metadata = [] ∧ plan.removes = [] ∧
      plan.strict = [] := by
  obtain ⟨hstrict, hremoves, hnone⟩ := collect_spec hcollect
  have hidle := hnone hnil
  have hrequests : requests text metadata = [] := by
    rw [List.eq_nil_iff_forall_not_mem]
    intro e he
    have hnamed := named_of_request he
    rw [hidle] at hnamed
    cases hnamed
  refine ⟨hrequests, ?_, hstrict.trans hrequests⟩
  rw [List.eq_nil_iff_forall_not_mem]
  intro r hr
  have hnamed := hremoves r hr
  rw [hidle] at hnamed
  cases hnamed

/-- Behind the removes the adds make what is requested where what is not requested is gone. -/
theorem setAll_removed_iff (hcollect : collect text zoneConfig metadata = .ok plan) :
    setAll (toleratedRemoves host zoneName 0 plan.removes c).1 plan.strict =
        requested text metadata c ↔
      ∀ r, named text metadata r = true → isRequested text metadata r = false → c r ≠ none →
        r ∈ (toleratedRemoves host zoneName 0 plan.removes c).2.2 := by
  obtain ⟨hstrict, hremoves, -⟩ := collect_spec hcollect
  rw [hstrict, requested, setAll_eq_iff]
  constructor
  · intro h r hnamed hfree hsome
    have heq := h r hfree
    rw [toleratedRemoves_get, if_pos hnamed] at heq
    by_contra hkept
    rw [if_neg hkept] at heq
    exact hsome heq
  · intro h r hfree
    rw [toleratedRemoves_get]
    by_cases hremoved : r ∈ (toleratedRemoves host zoneName 0 plan.removes c).2.2
    · rw [if_pos hremoved, if_pos (hremoves r (removed_subset 0 plan.removes c hremoved))]
    · rw [if_neg hremoved]
      split_ifs with hnamed
      · by_contra hsome
        exact hremoved (h r hnamed hfree hsome)
      · rfl

theorem removed_eq_iff (n : ℕ) (removes : List Resource) (c : Configuration) :
    (toleratedRemoves host zoneName n removes c).1 = c ↔
      ∀ r ∈ (toleratedRemoves host zoneName n removes c).2.2, c r = none := by
  constructor
  · intro h r hr
    have hget := @toleratedRemoves_get host zoneName n removes c r
    rw [if_pos hr, h] at hget
    exact hget
  · intro h
    funext r
    rw [toleratedRemoves_get]
    split_ifs with hr
    · exact (h r hr).symm
    · rfl

end Atomicity

end ZoneweaverAgent.ZoneResources
