import ZoneweaverAgent.ConfigTask

/-!
# What a failed configuration leaves behind

The flag behind the rollback is set after the last command, so that it speaks of a failed
`task.update` only, and the rollback knows of no dataset. A failed task undoes itself exactly when
it never made a configuration, or when everything but the update went through and none of the
further disks was a volume.
-/

namespace ZoneweaverAgent.ConfigTask
open ZoneDocument DiskSpec FallibleRun
open MachineDisks (additionalDisks)
open StorageCreation (parentName)
open DiskLayout (Name)
open TemplateMove (Outcome)

section Condition
variable (o : Outcomes) (settings : Settings) (zoneName : String)

/-- What the commands behind `zonecfg create` need to go through. -/
structure Applies (metadata : Document) (bootdiskPath : Option Json)
    (tree : KeyedList Name (Option ℕ)) : Prop where
  attributes : ∃ attrs, hasAttributes settings metadata = some attrs ∧
    (attrs = true → o.attributes = .works)
  bootdisk : (bootdiskPath.map Json.truthy).getD false = true → o.bootdisk = .works
  disks : additionalDisks metadata ≠ [] →
    (configureDisks o settings zoneName metadata (diskJobs o metadata) tree).1 = true ∧
      .null ∉ additionalDisks metadata ∧ o.disks = .works
  cdroms : ∃ resolved, (listField "cdroms" ((metadata.get "disks").getD .null)).mapM
    (resolveCdromPath settings) = some resolved ∧
      ((resolved.any fun path => (path.map Json.truthy).getD false) = true → o.cdroms = .works)
  filesystems : (listOf metadata "filesystems").all (carries "special") = true ∧
    (listOf metadata "filesystems" ≠ [] → o.filesystems = .works)
  nics : listOf metadata "nics" ≠ [] →
    (listOf metadata "nics").any (nicThrows metadata) = false ∧ o.nics = .works
  cloudInit : (["enabled", "dns_domain", "password", "resolvers", "sshkey"].any fun key =>
    ((under metadata "cloud_init" key).map Json.truthy).getD false) = true → o.cloudInit = .works

/-- The task makes no configuration. -/
def MakesNothing (configured : Bool) : Prop :=
  (o.metadataParses && o.storageTaskFound && o.storageMetadataParses) = false ∨
    configured = true ∨ o.create = .fails

/-- The task makes its configuration and keeps it, or makes nothing else and takes it back. -/
structure KeepsOrReverts (metadata : Document) (bootdiskPath : Option Json)
    (tree : KeyedList Name (Option ℕ)) : Prop where
  create : o.create = .works
  applies : Applies o settings zoneName metadata bootdiskPath tree
  reverts : o.update = false → o.delete ≠ .fails ∧
    ∀ job ∈ diskJobs o metadata, diskVolume settings zoneName metadata job.1 job.2 = none

end Condition

section Commands
variable (o : Outcomes) (settings : Settings) (zoneName : String) (metadata : Document)

theorem checks_zonecfg (outcome : Outcome) : Checks (zonecfg outcome) (outcome = .works) :=
  (checks_require _).congr (by simp)

theorem checks_attributes : Checks (applyAttributes o settings metadata)
    (∃ attrs, hasAttributes settings metadata = some attrs ∧
      (attrs = true → o.attributes = .works)) := by
  unfold applyAttributes
  cases hasAttributes settings metadata with
  | none => exact checks_stop.congr (by simp)
  | some attrs =>
    apply ((checks_zonecfg o.attributes).ifNeeded (attrs = true)).congr
    simp

theorem checks_bootdisk (bootdiskPath : Option Json) : Checks (configureBootdisk o bootdiskPath)
    ((bootdiskPath.map Json.truthy).getD false = true → o.bootdisk = .works) :=
  (checks_zonecfg o.bootdisk).ifNeeded _

theorem checks_cdroms : Checks (configureCdroms o settings metadata)
    (∃ resolved, (listField "cdroms" ((metadata.get "disks").getD .null)).mapM
      (resolveCdromPath settings) = some resolved ∧
        ((resolved.any fun path => (path.map Json.truthy).getD false) = true →
          o.cdroms = .works)) := by
  unfold configureCdroms
  cases (listField "cdroms" ((metadata.get "disks").getD .null)).mapM
      (resolveCdromPath settings) with
  | none => exact checks_stop.congr (by simp)
  | some resolved =>
    apply ((checks_zonecfg o.cdroms).ifNeeded _).congr
    simp

theorem checks_filesystems : Checks (configureFilesystems o metadata)
    ((listOf metadata "filesystems").all (carries "special") = true ∧
      (listOf metadata "filesystems" ≠ [] → o.filesystems = .works)) := by
  unfold configureFilesystems
  split_ifs with hall hempty
  · exact checks_pure.congr (by simp [hempty])
  · exact (checks_zonecfg o.filesystems).congr (by simp [hempty, hall])
  · exact checks_stop.congr (by simp [hall])

theorem checks_nics : Checks (configureNics o metadata)
    (listOf metadata "nics" ≠ [] →
      (listOf metadata "nics").any (nicThrows metadata) = false ∧ o.nics = .works) := by
  unfold configureNics
  apply Checks.unless
  split_ifs with hthrows
  · exact checks_stop.congr (by simp [hthrows])
  · exact (checks_zonecfg o.nics).congr (by simp [hthrows])

theorem checks_cloudInit : Checks (configureCloudInit o metadata)
    ((["enabled", "dns_domain", "password", "resolvers", "sshkey"].any fun key =>
      ((under metadata "cloud_init" key).map Json.truthy).getD false) = true →
        o.cloudInit = .works) :=
  (checks_zonecfg o.cloudInit).ifNeeded _

end Commands

section Disks
variable {o : Outcomes} {settings : Settings} {zoneName : String} {metadata : Document}

theorem diskJobs_nil (h : additionalDisks metadata = []) : diskJobs o metadata = [] := by
  simp [diskJobs, h]

/-- What the parallel disk commands leave of the datasets. -/
def disksMade (o : Outcomes) (settings : Settings) (zoneName : String) (metadata : Document)
    (tree : KeyedList Name (Option ℕ)) : KeyedList Name (Option ℕ) :=
  (configureDisks o settings zoneName metadata (diskJobs o metadata) tree).2

theorem configureAdditionalDisks_of_works (w : World)
    (h : additionalDisks metadata ≠ [] →
      (configureDisks o settings zoneName metadata (diskJobs o metadata) w.tree).1 = true ∧
        .null ∉ additionalDisks metadata ∧ o.disks = .works) :
    configureAdditionalDisks o settings zoneName metadata w =
      .ok ((), { w with tree := disksMade o settings zoneName metadata w.tree }) := by
  unfold configureAdditionalDisks disksMade
  split_ifs with hempty
  · rw [diskJobs_nil hempty]
    rfl
  · obtain ⟨hmade, hnull, hdisks⟩ := h hempty
    simp only [run_bind]
    rw [hmade, (checks_require _).passes (by simp [hnull])]
    exact (checks_zonecfg o.disks).passes hdisks _

theorem configureAdditionalDisks_of_not (w : World)
    (h : ¬ (additionalDisks metadata ≠ [] →
      (configureDisks o settings zoneName metadata (diskJobs o metadata) w.tree).1 = true ∧
        .null ∉ additionalDisks metadata ∧ o.disks = .works)) :
    configureAdditionalDisks o settings zoneName metadata w =
      .error { w with tree := disksMade o settings zoneName metadata w.tree } := by
  have hempty : additionalDisks metadata ≠ [] := fun hempty => h (absurd hempty)
  have hnot : ¬ _ := fun hall => h fun _ => hall
  unfold configureAdditionalDisks disksMade
  rw [if_neg hempty, run_bind]
  change (require _ >>= fun _ => zonecfg o.disks) _ = _
  apply (((checks_require _).bind (checks_zonecfg o.disks)).congr _).stops hnot
  simp [and_assoc]

/-- A dataset of this task stays one. -/
theorem make_keeps {outcome : Outcome} {index : ℕ} {overwrites : Bool} {path name : Name}
    {tree : KeyedList Name (Option ℕ)} (h : ∃ i, tree.get name = some (some i)) :
    ∃ i, (make outcome index overwrites path tree).2.get name = some (some i) := by
  unfold make
  split_ifs
  · change ∃ i, (tree.set path (some index)).get name = some (some i)
    by_cases hname : name = path
    · rw [hname, KeyedList.get_set_self]
      exact ⟨index, rfl⟩
    · rw [KeyedList.get_set_of_ne _ _ (Ne.symm hname)]
      exact h
  · exact h

theorem make_made {outcome : Outcome} {index : ℕ} {overwrites : Bool} {path : Name}
    {tree : KeyedList Name (Option ℕ)}
    (h : (make outcome index overwrites path tree).1 = true) :
    (make outcome index overwrites path tree).2.get path = some (some index) := by
  unfold make at h ⊢
  split_ifs at h ⊢
  exact KeyedList.get_set_self _ _ _

theorem configureDisk_keeps (job : ℕ × Json) {name : Name} {tree : KeyedList Name (Option ℕ)}
    (h : ∃ i, tree.get name = some (some i)) :
    ∃ i, (configureDisk o settings zoneName metadata job tree).2.get name = some (some i) := by
  unfold configureDisk
  split
  · exact make_keeps h
  · exact h

theorem configureDisks_keeps {jobs : List (ℕ × Json)} {name : Name}
    {tree : KeyedList Name (Option ℕ)} (h : ∃ i, tree.get name = some (some i)) :
    ∃ i, (configureDisks o settings zoneName metadata jobs tree).2.get name = some (some i) := by
  induction jobs generalizing tree with
  | nil => exact h
  | cons job jobs ih => exact ih (configureDisk_keeps job h)

/-- Where every command went through, the volume of each entry is a dataset of this task. -/
theorem configureDisks_made {jobs : List (ℕ × Json)} {tree : KeyedList Name (Option ℕ)}
    (h : (configureDisks o settings zoneName metadata jobs tree).1 = true) :
    ∀ job ∈ jobs, ∀ path, diskVolume settings zoneName metadata job.1 job.2 = some path →
      ∃ i, (configureDisks o settings zoneName metadata jobs tree).2.get path =
        some (some i) := by
  induction jobs generalizing tree with
  | nil => simp
  | cons job jobs ih =>
    simp only [configureDisks, Bool.and_eq_true] at h
    obtain ⟨hfirst, hrest⟩ := h
    intro other hother path hpath
    rcases List.mem_cons.mp hother with rfl | hother
    · have hmade : ∃ i, (configureDisk o settings zoneName metadata other tree).2.get path =
          some (some i) := by
        simp only [configureDisk, hpath, Bool.and_eq_true] at hfirst ⊢
        exact ⟨_, make_made hfirst.1⟩
      exact @configureDisks_keeps o settings zoneName metadata jobs path _ hmade
    · exact ih hrest other hother path hpath

theorem configureDisks_of_none {jobs : List (ℕ × Json)} {tree : KeyedList Name (Option ℕ)}
    (h : ∀ job ∈ jobs, diskVolume settings zoneName metadata job.1 job.2 = none) :
    (configureDisks o settings zoneName metadata jobs tree).2 = tree := by
  induction jobs generalizing tree with
  | nil => rfl
  | cons job jobs ih =>
    have hfirst : (configureDisk o settings zoneName metadata job tree).2 = tree := by
      simp [configureDisk, h job List.mem_cons_self]
    simp only [configureDisks]
    rw [ih fun job hjob => h job (List.mem_cons_of_mem _ hjob), hfirst]

theorem disksMade_eq_iff {tree : KeyedList Name (Option ℕ)}
    (hfree : ∀ name i, tree.get name ≠ some (some i))
    (hdisks : additionalDisks metadata ≠ [] →
      (configureDisks o settings zoneName metadata (diskJobs o metadata) tree).1 = true) :
    (∀ name, (disksMade o settings zoneName metadata tree).get name = tree.get name) ↔
      ∀ job ∈ diskJobs o metadata, diskVolume settings zoneName metadata job.1 job.2 = none := by
  constructor
  · intro hsame job hjob
    by_contra hvolume
    obtain ⟨path, hpath⟩ := Option.ne_none_iff_exists'.mp hvolume
    have hdeclared : additionalDisks metadata ≠ [] := fun hempty => by
      rw [diskJobs_nil hempty] at hjob
      cases hjob
    obtain ⟨i, hi⟩ := configureDisks_made (hdisks hdeclared) job hjob path hpath
    exact hfree path i ((hsame path).symm.trans hi)
  · intro hnone name
    rw [disksMade, configureDisks_of_none hnone]

end Disks

section Task
variable {o : Outcomes} {settings : Settings} {zoneName : String} {metadata : Document}
variable {bootdiskPath : Option Json}

theorem run_applyAllZoneConfig {tree : KeyedList Name (Option ℕ)} (hcreate : o.create = .works) :
    applyAllZoneConfig o settings zoneName metadata bootdiskPath ⟨false, tree⟩ =
      (do
        applyAttributes o settings metadata
        configureBootdisk o bootdiskPath
        configureAdditionalDisks o settings zoneName metadata
        configureCdroms o settings metadata
        configureFilesystems o metadata
        configureNics o metadata
        configureCloudInit o metadata : Run World Unit) ⟨true, tree⟩ := by
  have hmade : createZone o.create ⟨false, tree⟩ = .ok ((), ⟨true, tree⟩) := by
    rw [hcreate]
    rfl
  simp only [applyAllZoneConfig, applyZoneConfig, bind_assoc]
  rw [run_bind, hmade]

theorem applyAllZoneConfig_of_applies {tree : KeyedList Name (Option ℕ)}
    (hcreate : o.create = .works)
    (h : Applies o settings zoneName metadata bootdiskPath tree) :
    applyAllZoneConfig o settings zoneName metadata bootdiskPath ⟨false, tree⟩ =
      .ok ((), ⟨true, disksMade o settings zoneName metadata tree⟩) := by
  have hlast := (checks_cdroms o settings metadata).bind <|
    (checks_filesystems o metadata).bind <|
      (checks_nics o metadata).bind (checks_cloudInit o metadata)
  rw [run_applyAllZoneConfig hcreate,
    run_bind, (checks_attributes o settings metadata).passes h.attributes]
  simp only
  rw [run_bind, (checks_bootdisk o bootdiskPath).passes h.bootdisk]
  simp only
  rw [run_bind, configureAdditionalDisks_of_works _ h.disks]
  exact hlast.passes ⟨h.cdroms, h.filesystems, h.nics, h.cloudInit⟩ _

/-- Once it has taken effect, a configuration is taken back by none of the commands. -/
theorem applyAllZoneConfig_of_not {tree : KeyedList Name (Option ℕ)} (hcreate : o.create ≠ .fails)
    (h : ¬ (o.create = .works ∧ Applies o settings zoneName metadata bootdiskPath tree)) :
    ∃ left, applyAllZoneConfig o settings zoneName metadata bootdiskPath ⟨false, tree⟩ =
      .error ⟨true, left⟩ := by
  by_cases hworks : o.create = .works
  · rw [run_applyAllZoneConfig hworks, run_bind]
    by_cases hattributes : ∃ attrs, hasAttributes settings metadata = some attrs ∧
      (attrs = true → o.attributes = .works)
    · rw [(checks_attributes o settings metadata).passes hattributes]
      simp only
      rw [run_bind]
      by_cases hbootdisk : (bootdiskPath.map Json.truthy).getD false = true → o.bootdisk = .works
      · rw [(checks_bootdisk o bootdiskPath).passes hbootdisk]
        simp only
        rw [run_bind]
        by_cases hdisks : additionalDisks metadata ≠ [] →
          (configureDisks o settings zoneName metadata (diskJobs o metadata) tree).1 = true ∧
            .null ∉ additionalDisks metadata ∧ o.disks = .works
        · have hlast := (checks_cdroms o settings metadata).bind <|
            (checks_filesystems o metadata).bind <|
              (checks_nics o metadata).bind (checks_cloudInit o metadata)
          rw [configureAdditionalDisks_of_works _ hdisks]
          refine ⟨_, hlast.stops ?_ _⟩
          rintro ⟨hcdroms, hfilesystems, hnics, hcloudInit⟩
          exact h ⟨hworks, hattributes, hbootdisk, hdisks, hcdroms, hfilesystems, hnics,
            hcloudInit⟩
        · rw [configureAdditionalDisks_of_not _ hdisks]
          exact ⟨_, rfl⟩
      · rw [(checks_bootdisk o bootdiskPath).stops hbootdisk]
        exact ⟨_, rfl⟩
    · rw [(checks_attributes o settings metadata).stops hattributes]
      exact ⟨_, rfl⟩
  · have hlate : o.create = .late := by
      cases houtcome : o.create with
      | works => exact absurd houtcome hworks
      | late => rfl
      | fails => exact absurd houtcome hcreate
    simp only [applyAllZoneConfig, applyZoneConfig, bind_assoc]
    rw [run_bind, hlate]
    exact ⟨tree, rfl⟩

theorem applyAllZoneConfig_of_makesNothing {configured : Bool} {tree : KeyedList Name (Option ℕ)}
    (h : configured = true ∨ o.create = .fails) :
    applyAllZoneConfig o settings zoneName metadata bootdiskPath ⟨configured, tree⟩ =
      .error ⟨configured, tree⟩ := by
  have hcreate : createZone o.create ⟨configured, tree⟩ = .error ⟨configured, tree⟩ := by
    unfold createZone
    rcases h with rfl | hfails
    · rfl
    · rw [hfails]
      simp
  simp only [applyAllZoneConfig, applyZoneConfig, bind_assoc]
  rw [run_bind, hcreate]

theorem before_free (configured : Bool) (existing : List Name) (name : Name) (i : ℕ) :
    (before configured existing).tree.get name ≠ some (some i) := by
  intro hget
  have hmem := KeyedList.mem_of_get hget
  simp [before] at hmem

end Task

theorem configuration_undone (o : Outcomes) (settings : Settings) (zoneName : String)
    (metadata storageMetadata : Document) (configured : Bool) (existing : List Name) :
    UndoesItself o settings zoneName metadata storageMetadata configured existing ↔
      MakesNothing o configured ∨
        KeepsOrReverts o settings zoneName (withServerId metadata storageMetadata)
          (under storageMetadata "_execution_output" "bootdiskPath")
          (before configured existing).tree := by
  unfold UndoesItself executeZoneCreateConfigTask
  by_cases hset : (o.metadataParses && o.storageTaskFound && o.storageMetadataParses) = true
  case neg =>
    apply iff_of_true _ (Or.inl (Or.inl (Bool.eq_false_iff.mpr hset)))
    simp only [hset]
    simp
  simp only [hset, if_true]
  by_cases hnothing : configured = true ∨ o.create = .fails
  case pos =>
    apply iff_of_true _ (Or.inl (Or.inr hnothing))
    simp only [before, applyAllZoneConfig_of_makesNothing hnothing]
    simp
  obtain ⟨hfree, hcreate⟩ := not_or.mp hnothing
  obtain rfl : configured = false := Bool.eq_false_iff.mpr hfree
  have hmakes : ¬ MakesNothing o false := by
    rintro (hunset | hnone)
    · exact absurd hset (Bool.eq_false_iff.mp hunset)
    · exact hnothing hnone
  simp only [hmakes, false_or]
  by_cases happlies : o.create = .works ∧
      Applies o settings zoneName (withServerId metadata storageMetadata)
        (under storageMetadata "_execution_output" "bootdiskPath") (before false existing).tree
  · obtain ⟨hworks, happlies⟩ := happlies
    have hrun := applyAllZoneConfig_of_applies hworks happlies
    simp only [before] at hrun ⊢
    rw [hrun]
    cases hupdate : o.update with
    | true => exact iff_of_true (by simp) ⟨hworks, happlies, by simp [hupdate]⟩
    | false =>
      have hmade := disksMade_eq_iff (before_free false existing) fun h => (happlies.disks h).1
      simp only [before] at hmade
      constructor
      · intro hundone
        have hclean := hundone rfl
        simp only [Bool.false_eq_true, if_false, deleteZone] at hclean
        split_ifs at hclean with hdelete
        · cases hclean.1
        · exact ⟨hworks, happlies, fun _ => ⟨hdelete, hmade.mp hclean.2⟩⟩
      · intro hkeeps _
        obtain ⟨hdelete, hnone⟩ := hkeeps.reverts hupdate
        simp only [Bool.false_eq_true, if_false, deleteZone, hdelete]
        exact ⟨trivial, hmade.mpr hnone⟩
  · obtain ⟨left, hrun⟩ := applyAllZoneConfig_of_not hcreate happlies
    simp only [before] at hrun ⊢
    rw [hrun]
    apply iff_of_false
    · intro hundone
      cases (hundone rfl).1
    · intro hkeeps
      exact happlies ⟨hkeeps.create, hkeeps.applies⟩

section Example

/-- Every command goes through but the one that sets the attributes. -/
def attributesFail : Outcomes where
  metadataParses := true
  storageTaskFound := true
  storageMetadataParses := true
  create := .works
  attributes := .fails
  bootdisk := .works
  turn := id
  disk _ := .works
  stampDisk _ := true
  inUse _ := false
  disks := .works
  cdroms := .works
  filesystems := .works
  nics := .works
  cloudInit := .works
  update := true
  delete := .works

def plainSettings : Settings where
  prefixDatasets := false
  rootPool := "rpool"
  toText _ := ""
  guestAgentEnabled := false
  cpuValue _ _ vcpus := some vcpus
  toUpperCase := String.toUpper
  artifactStorage := false
  isoPath _ := none

/-- The configuration of a machine whose attributes could not be set stays behind. -/
theorem configuration_undone_fails :
    ¬ ∀ (o : Outcomes) (settings : Settings) (zoneName : String)
      (metadata storageMetadata : Document) (configured : Bool) (existing : List Name),
      UndoesItself o settings zoneName metadata storageMetadata configured existing := by
  intro h
  have hundone := (h attributesFail plainSettings "web"
    [("brand", .str "bhyve"), ("ram", .str "2G"), ("vcpus", .str "2")] [] false []
    (by decide)).1
  revert hundone
  decide

end Example

end ZoneweaverAgent.ConfigTask
