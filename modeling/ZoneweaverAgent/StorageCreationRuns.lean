import ZoneweaverAgent.StorageCreation

/-!
# What a failed machine create leaves behind

The rollback destroys the zone's root dataset with all its descendants whether or not the run
created it, and it knows of nothing outside that root. A failed run therefore restores the pool
exactly when nothing existed at or below the root, every ancestor of the root did, and the replica
of a localized template was there before.
-/

namespace ZoneweaverAgent.StorageCreation
open ZoneDocument DiskSpec FallibleRun PathTree
open MachineDisks (Host diskField)

section Rollback

/-- A run over `before` that created `root`: it tracks `root` and datasets below it, and created
the ancestors of `root`, `beside` and datasets below `root`. -/
structure Ended (before beside : Pool) (root : List Char) (s : Storage) : Prop where
  tracksRoot : root ∈ s.zfsCreated.map String.toList
  tracksBelow : ∀ x ∈ s.zfsCreated, AtOrBelow '/' root x.toList
  kept : ∀ d ∈ before, d ∈ s.pool
  parents : ∀ a, AtOrBelow '/' a root → a ∈ s.pool
  made : ∀ d ∈ beside, d ∈ s.pool
  only : ∀ d ∈ s.pool, d ∈ before ∨ AtOrBelow '/' d root ∨ d ∈ beside ∨ AtOrBelow '/' root d

/-- What a failed run needs of the pool it found to leave it as it was. -/
structure Undisturbed (before beside : Pool) (root : List Char) : Prop where
  vacant : ∀ d ∈ before, ¬ AtOrBelow '/' root d
  parents : ∀ a, AtOrBelow '/' a root → a = root ∨ a ∈ before
  made : ∀ d ∈ beside, d ∈ before ∨ AtOrBelow '/' root d

variable {before beside : Pool} {root : List Char} {s : Storage} {zoneName : String}

theorem rollbackCreation_nil (pool : Pool) : rollbackCreation zoneName [] pool = pool := by
  simp [rollbackCreation, removeTrees]

theorem Ended.mem_rollback (h : Ended before beside root s) (hname : zoneName ≠ "")
    (d : List Char) :
    d ∈ rollbackCreation zoneName s.zfsCreated s.pool ↔
      d ∈ s.pool ∧ ¬ AtOrBelow '/' root d := by
  rw [rollbackCreation, if_neg hname, mem_removeTrees]
  apply and_congr_right
  intro _
  constructor
  · intro hnone
    apply hnone root
    simpa using h.tracksRoot
  · intro hnot x hx hbelow
    simp only [List.mem_map, List.mem_reverse] at hx
    obtain ⟨y, hy, rfl⟩ := hx
    exact hnot ((h.tracksBelow y hy).trans hbelow)

theorem Ended.undisturbed_iff (h : Ended before beside root s) (hname : zoneName ≠ "") :
    (∀ d, d ∈ rollbackCreation zoneName s.zfsCreated s.pool ↔ d ∈ before) ↔
      Undisturbed before beside root := by
  simp only [h.mem_rollback hname]
  constructor
  · intro hrestores
    constructor
    · intro d hd
      exact ((hrestores d).mpr hd).2
    · intro a ha
      by_cases hroot : AtOrBelow '/' root a
      · exact Or.inl (ha.antisymm hroot)
      · exact Or.inr ((hrestores a).mp ⟨h.parents a ha, hroot⟩)
    · intro d hd
      by_cases hroot : AtOrBelow '/' root d
      · exact Or.inr hroot
      · exact Or.inl ((hrestores d).mp ⟨h.made d hd, hroot⟩)
  · intro hclean d
    constructor
    · rintro ⟨hd, hnot⟩
      rcases h.only d hd with hbefore | habove | hbeside | hbelow
      · exact hbefore
      · rcases hclean.parents d habove with rfl | hbefore
        · exact absurd (AtOrBelow.refl d) hnot
        · exact hbefore
      · exact (hclean.made d hbeside).resolve_right hnot
      · exact absurd hbelow hnot
    · intro hd
      exact ⟨h.kept d hd, hclean.vacant d hd⟩

end Rollback

section Runs
variable {o : Outcomes} {host : Host} {zoneName : String} {metadata : Document} {boot : Json}
variable {before beside : Pool} {root : List Char} {s : Storage}

theorem Ended.create (h : Ended before beside root s) {d : List Char}
    (hd : AtOrBelow '/' root d) : Ended before beside root { s with pool := s.pool ++ [d] } where
  tracksRoot := h.tracksRoot
  tracksBelow := h.tracksBelow
  kept e he := List.mem_append_left _ (h.kept e he)
  parents a ha := List.mem_append_left _ (h.parents a ha)
  made e he := List.mem_append_left _ (h.made e he)
  only e he := by
    rcases List.mem_append.mp he with he | he
    · exact h.only e he
    · rw [List.mem_singleton.mp he]
      exact Or.inr (Or.inr (Or.inr hd))

theorem Ended.track (h : Ended before beside root s) {d : String}
    (hd : AtOrBelow '/' root d.toList) :
    Ended before beside root { s with zfsCreated := s.zfsCreated ++ [d] } where
  tracksRoot := by
    rw [List.map_append]
    exact List.mem_append_left _ h.tracksRoot
  tracksBelow x hx := by
    rcases List.mem_append.mp hx with hx | hx
    · exact h.tracksBelow x hx
    · rw [List.mem_singleton.mp hx]
      exact hd
  kept := h.kept
  parents := h.parents
  made := h.made
  only := h.only

theorem Ended.addBeside (h : Ended before [] root s) (datasets : Pool) :
    Ended before datasets root { s with pool := s.pool ++ datasets } where
  tracksRoot := h.tracksRoot
  tracksBelow := h.tracksBelow
  kept e he := List.mem_append_left _ (h.kept e he)
  parents a ha := List.mem_append_left _ (h.parents a ha)
  made e he := List.mem_append_right _ he
  only e he := by
    rcases List.mem_append.mp he with he | he
    · rcases h.only e he with hbefore | habove | hbeside | hbelow
      · exact Or.inl hbefore
      · exact Or.inr (Or.inl habove)
      · cases hbeside
      · exact Or.inr (Or.inr (Or.inr hbelow))
    · exact Or.inr (Or.inr (Or.inl he))

/-- The storage behind a successful creation of the root. -/
def rootCreated (before : Pool) (root : String) : Storage :=
  ⟨before ++ ancestors '/' root.toList, [root]⟩

theorem ended_rootCreated (before : Pool) (root : String) :
    Ended before [] root.toList (rootCreated before root) where
  tracksRoot := by simp [rootCreated]
  tracksBelow x hx := by
    rw [List.mem_singleton.mp hx]
    exact AtOrBelow.refl _
  kept d hd := List.mem_append_left _ hd
  parents a ha := List.mem_append_right _ (mem_ancestors.mpr ha)
  made := nofun
  only d hd := by
    rcases List.mem_append.mp hd with hd | hd
    · exact Or.inl hd
    · exact Or.inr (Or.inl (mem_ancestors.mp hd))

theorem atOrBelow_bootVolume (host : Host) (zoneName : String) (metadata : Document)
    (boot : Json) :
    AtOrBelow '/' (rootDataset host zoneName metadata boot).toList
      (bootVolume host zoneName metadata boot).toList := by
  have hvolume : (bootVolume host zoneName metadata boot).toList =
      (rootDataset host zoneName metadata boot).toList ++
        '/' :: (host.orText "volume_name" "boot" boot).toList := by
    simp [bootVolume, MachineDisks.volumePath, rootDataset, bootPool, String.toList_append]
  rw [hvolume]
  exact atOrBelow_child _ _

theorem final_createZoneRootDataset_bind {α : Type} (f : Unit → Run Storage α) (pool : Pool)
    (root : String) :
    final (createZoneRootDataset o root >>= f) ⟨pool, []⟩ =
      if o.createRoot then
        if o.stampRoot then final (f ()) (rootCreated pool root) else rootCreated pool root
      else ⟨pool, []⟩ := by
  simp [createZoneRootDataset, create, track, bind_assoc, rootCreated]

theorem ended_createBlankVolume (hroot : o.createRoot = true) :
    Ended before [] (rootDataset host zoneName metadata boot).toList
      (final (createBlankVolume o host zoneName metadata boot) ⟨before, []⟩) := by
  have hmade := ended_rootCreated before (rootDataset host zoneName metadata boot)
  have hbelow := atOrBelow_bootVolume host zoneName metadata boot
  rw [createBlankVolume, final_createZoneRootDataset_bind, if_pos hroot]
  simp only [create, final_require_bind, final_update_bind, final_pure]
  split_ifs
  · exact hmade.create hbelow
  · exact hmade.create hbelow
  · exact hmade
  · exact hmade

variable (o host)

/-- What a localization creates beside the root: its replica and what the replica lies in. -/
def replicaMade (template boot : Json) : Pool :=
  match template with
  | .str template =>
    if (o.originGuid.filter (· ≠ "")).isSome ∧ o.replicaGuid.filter (· ≠ "") = none ∧
        o.createReplicaParent = true then
      ancestors '/' (parentName (replicaName host boot template)) ++
        if o.receiveReplica then [replicaName host boot template] else []
    else []
  | _ => []

variable {o host}

theorem final_ensureLocalizedTemplate (template boot : Json) (s : Storage) :
    final (ensureLocalizedTemplate o host template boot) s =
      { s with pool := s.pool ++ replicaMade o host template boot } := by
  cases template with
  | str template =>
    unfold ensureLocalizedTemplate replicaMade
    cases horigin : o.originGuid.filter (· ≠ "") with
    | none => simp
    | some originGuid =>
      cases hreplica : o.replicaGuid.filter (· ≠ "") with
      | some existingGuid => simp
      | none =>
        cases hparent : o.createReplicaParent <;> cases hreceive : o.receiveReplica <;>
          simp [create, hparent, hreceive]
  | _ => simp [ensureLocalizedTemplate, replicaMade]

/-- The datasets created beside the root by a run that copies the template. -/
def besideRoot (o : Outcomes) (host : Host) (boot template : Json) : Pool :=
  if o.stampRoot = true ∧ localizes boot = true then replicaMade o host template boot else []

theorem ended_copyTemplate (hroot : o.createRoot = true) (template : Json) :
    Ended before (besideRoot o host boot template)
      (rootDataset host zoneName metadata boot).toList
      (final (copyTemplate o host zoneName metadata boot template) ⟨before, []⟩) := by
  have hmade := ended_rootCreated before (rootDataset host zoneName metadata boot)
  have hbelow := atOrBelow_bootVolume host zoneName metadata boot
  rw [copyTemplate, final_createZoneRootDataset_bind, if_pos hroot]
  by_cases hstamp : o.stampRoot = true
  · rw [if_pos hstamp]
    apply final_bind_of
    · unfold cloneSource
      by_cases hlocal : localizes boot = true
      · rw [if_pos hlocal, final_ensureLocalizedTemplate, besideRoot, if_pos ⟨hstamp, hlocal⟩]
        exact hmade.addBeside _
      · simpa [hlocal, besideRoot] using hmade
    · intro _ t ht
      simp only [create, track, final_require_bind, final_update_bind, final_pure]
      split_ifs
      · exact (ht.create hbelow).track hbelow
      · exact (ht.create hbelow).track hbelow
      · exact ht
  · rw [if_neg hstamp]
    simpa [besideRoot, hstamp] using hmade

end Runs

section Task
variable (o : Outcomes) (host : Host) (zoneName : String) (metadata : Document) (boot : Json)

/-- The template a boot entry is copied from: the one it names, or the one its box resolves to. -/
def templateOf : Option Json :=
  (if carries "template_dataset" boot then boot.field "template_dataset" else o.resolved).filter
    Json.truthy

/-- Whether a boot entry makes the run create the root dataset. -/
def needsRoot : Bool :=
  if textField "type" boot = some "template" then (templateOf o boot).isSome
  else boot.truthy && textField "type" boot ≠ some "none" && textField "type" boot ≠ some "image"

/-- What the run of a boot entry creates beside the root dataset. -/
def madeBeside : Pool :=
  if textField "type" boot = some "template" then
    ((templateOf o boot).map (besideRoot o host boot)).getD []
  else []

variable {o host zoneName metadata boot} {before : Pool}

theorem final_storageRun (s : Storage) :
    final (storageRun o host zoneName metadata) s =
      final (resolveTemplate o metadata >>= prepareStorage o host zoneName metadata) s := by
  rw [storageRun, ← bind_assoc]
  apply final_bind_of_keeps
  intro _ t
  rw [final_require_bind]
  split_ifs <;> rfl

theorem truthy_of_textField {key text : String} (h : textField key boot = some text) :
    boot.truthy = true := by
  cases boot with
  | obj entries => rfl
  | _ => simp [textField, Json.field] at h

/-- The commands of a run over a boot entry that is no template. -/
theorem final_storageRun_other (hboot : diskField "boot" metadata = some boot)
    (htype : textField "type" boot ≠ some "template") (s : Storage) :
    final (storageRun o host zoneName metadata) s =
      if needsRoot o boot then final (createBlankVolume o host zoneName metadata boot) s else s := by
  have hresolve : resolveTemplate o metadata = pure (boot.field "template_dataset") := by
    simp [resolveTemplate, hboot, htype]
  have hprepare (template : Option Json) : prepareStorage o host zoneName metadata template =
      prepareBootVolume o host zoneName metadata := by
    simp [prepareStorage, hboot, htype]
  rw [final_storageRun, hresolve, pure_bind, hprepare, prepareBootVolume, hboot, needsRoot,
    if_neg htype]
  by_cases htruthy : boot.truthy = true
  · simp only [Option.filter, htruthy, if_true, htype, or_false]
    by_cases hnone : textField "type" boot = some "none"
    · simp [hnone]
    · by_cases himage : textField "type" boot = some "image"
      · simp [himage]
      · simp [hnone, himage]
  · simp [Option.filter, htruthy]

theorem final_storageRun_template (hboot : diskField "boot" metadata = some boot)
    (htype : textField "type" boot = some "template") (s : Storage) :
    final (storageRun o host zoneName metadata) s =
      match templateOf o boot with
      | none => s
      | some template => final (copyTemplate o host zoneName metadata boot template) s := by
  have hprepare (template : Option Json) : prepareStorage o host zoneName metadata template =
      importTemplate o host zoneName metadata template := by
    rw [prepareStorage, prepareBootVolume, hboot, Option.filter, if_pos (truthy_of_textField htype)]
    simp [htype]
  have himport (template : Option Json) :
      final (importTemplate o host zoneName metadata template) s =
        match template.filter Json.truthy with
        | none => s
        | some template => final (copyTemplate o host zoneName metadata boot template) s := by
    rw [importTemplate, hboot]
    simp only [htype, if_true]
    cases template.filter Json.truthy <;> rfl
  rw [final_storageRun, resolveTemplate, hboot]
  simp only [htype, true_and, templateOf]
  by_cases hcarries : carries "template_dataset" boot = true
  · simp only [hcarries, Bool.true_eq_false, if_false, if_true, pure_bind, hprepare, himport]
  · have hnone : carries "template_dataset" boot = false := by simpa using hcarries
    simp only [hnone, if_true, Bool.false_eq_true, if_false]
    cases o.resolved with
    | none => rfl
    | some template => simp only [pure_bind, hprepare, himport]

theorem ended_storageRun (hboot : diskField "boot" metadata = some boot)
    (hneeds : needsRoot o boot = true) (hroot : o.createRoot = true) :
    Ended before (madeBeside o host boot) (rootDataset host zoneName metadata boot).toList
      (final (storageRun o host zoneName metadata) ⟨before, []⟩) := by
  by_cases htype : textField "type" boot = some "template"
  · rw [needsRoot, if_pos htype] at hneeds
    obtain ⟨template, htemplate⟩ := Option.isSome_iff_exists.mp hneeds
    rw [final_storageRun_template hboot htype, madeBeside, if_pos htype, htemplate]
    exact ended_copyTemplate hroot template
  · rw [final_storageRun_other hboot htype, if_pos hneeds, madeBeside, if_neg htype]
    exact ended_createBlankVolume hroot

theorem final_storageRun_of_not
    (h : ∀ boot, diskField "boot" metadata = some boot → needsRoot o boot = true →
      o.createRoot = false) :
    final (storageRun o host zoneName metadata) ⟨before, []⟩ = ⟨before, []⟩ := by
  cases hboot : diskField "boot" metadata with
  | none =>
    have hresolve : resolveTemplate o metadata = pure none := by simp [resolveTemplate, hboot]
    have hprepare : prepareStorage o host zoneName metadata none = pure none := by
      simp [prepareStorage, prepareBootVolume, hboot]
    rw [final_storageRun, hresolve, pure_bind, hprepare, final_pure]
  | some boot =>
    by_cases htype : textField "type" boot = some "template"
    · rw [final_storageRun_template hboot htype]
      cases htemplate : templateOf o boot with
      | none => rfl
      | some template =>
        have hneeds : needsRoot o boot = true := by simp [needsRoot, htype, htemplate]
        simp [copyTemplate, final_createZoneRootDataset_bind, h boot hboot hneeds]
    · rw [final_storageRun_other hboot htype]
      by_cases hneeds : needsRoot o boot = true
      · rw [if_pos hneeds]
        simp [createBlankVolume, final_createZoneRootDataset_bind, h boot hboot hneeds]
      · rw [if_neg hneeds]

end Task

section Restoration

/-- A create refuses an empty machine name before it makes any task. -/
abbrev ZoneName := {name : String // name ≠ ""}

variable (o : Outcomes) (host : Host) (zoneName : ZoneName) (metadata : Option Document)
variable (before : Pool)

/-- A failed run leaves the datasets it found and no others. -/
def Restores : Prop :=
  (executeZoneCreateStorageTask o host zoneName.val metadata before).1 = false →
    ∀ d, d ∈ (executeZoneCreateStorageTask o host zoneName.val metadata before).2 ↔ d ∈ before

/-- Where a failed run created its root dataset, the pool it found is undisturbed by that. -/
def CreatesAfresh : Prop :=
  (executeZoneCreateStorageTask o host zoneName.val metadata before).1 = false →
    ∀ doc boot, metadata = some doc → diskField "boot" doc = some boot →
      needsRoot o boot = true → o.createRoot = true →
        Undisturbed before (madeBeside o host boot) (rootDataset host zoneName.val doc boot).toList

theorem restores_iff :
    Restores o host zoneName metadata before ↔ CreatesAfresh o host zoneName metadata before := by
  unfold Restores CreatesAfresh
  apply imp_congr_right
  intro hfails
  cases metadata with
  | none => simp [executeZoneCreateStorageTask, rollbackCreation_nil]
  | some doc =>
    cases hrun : storageRun o host zoneName.val doc ⟨before, []⟩ with
    | ok p => simp [executeZoneCreateStorageTask, hrun] at hfails
    | error s =>
      have hfinal := final_of_error _ _ hrun
      simp only [executeZoneCreateStorageTask, hrun, Option.some.injEq]
      by_cases hmakes : ∃ boot, diskField "boot" doc = some boot ∧ needsRoot o boot = true ∧
          o.createRoot = true
      · obtain ⟨boot, hboot, hneeds, hroot⟩ := hmakes
        have hended := @ended_storageRun o host zoneName.val doc boot before hboot hneeds hroot
        rw [hfinal] at hended
        rw [hended.undisturbed_iff zoneName.property]
        constructor
        · rintro hclean _ other rfl hother - -
          rw [hboot] at hother
          cases hother
          exact hclean
        · intro hclean
          exact hclean doc boot rfl hboot hneeds hroot
      · have hs : s = ⟨before, []⟩ := by
          rw [← hfinal]
          apply final_storageRun_of_not
          intro boot hboot hneeds
          by_contra hroot
          exact hmakes ⟨boot, hboot, hneeds, by simpa using hroot⟩
        rw [hs, rollbackCreation_nil]
        simp only [implies_true, true_iff]
        rintro _ boot rfl hboot hneeds hroot
        exact absurd ⟨boot, hboot, hneeds, hroot⟩ hmakes

end Restoration

section KeptDisks

/-- A host whose `zfs create -V` fails, everything else going through. -/
def keptOutcomes : Outcomes where
  resolved := none
  imageListed := true
  createRoot := true
  stampRoot := true
  createVolume := false
  stampVolume := true
  originGuid := none
  replicaGuid := none
  createReplicaParent := true
  receiveReplica := true
  stampReplica := true
  cloneOrReceive := true
  stampTarget := true
  metadataStored := true

def keptHost : Host where
  prefixDatasets := false
  rootPool := "rpool"
  toText _ := ""

/-- The datasets of a machine that was deleted without its disks. -/
def keptPool : Pool :=
  ["rpool".toList, "rpool/zones".toList, "rpool/zones/web".toList, "rpool/zones/web/boot".toList]

theorem restores_fails :
    ¬ Restores keptOutcomes keptHost ⟨"web", by decide⟩
        (some [("disks", .obj [("boot", .obj [("type", .str "blank"), ("size", .str "10G")])])])
        keptPool := by
  intro h
  have hafter : executeZoneCreateStorageTask keptOutcomes keptHost "web"
      (some [("disks", .obj [("boot", .obj [("type", .str "blank"), ("size", .str "10G")])])])
      keptPool = (false, ["rpool".toList, "rpool/zones".toList, "rpool".toList,
        "rpool/zones".toList]) := by
    decide +kernel
  have hkept := h (by rw [hafter]) "rpool/zones/web/boot".toList
  rw [hafter] at hkept
  exact absurd (hkept.mpr (by decide +kernel)) (by decide +kernel)

end KeptDisks

end ZoneweaverAgent.StorageCreation
