import ZoneweaverAgent.StorageCreation

/-!
# The volumes of a disk layout

`prepareStorage` makes the root dataset of a blank or template boot disk, and no other boot type
makes one; `configureAdditionalDisks` issues the creation of every further volume at once, below the
pool and dataset its entry names. A layout can be materialized exactly when the parent of every
volume lies at or above the boot disk's root and no two volumes have one path.
-/

namespace ZoneweaverAgent.DiskLayout
open ZoneDocument DiskSpec FallibleRun PathTree
open MachineDisks (Host diskField additionalDisks createServerId volumePath diskName)
open StorageCreation (Pool Outcomes rootDataset bootVolume replicaName behindPool parentName
  localizes)

abbrev Name := List Char

/-- A command that creates a volume, with the filesystems there are when it is issued. -/
structure Issued where
  volume : Name
  filesystems : Pool

structure Zfs where
  filesystems : Pool
  issued : List Issued

section Commands

/-- `zfs create -p` -/
def createFilesystems (d : Name) : Run Zfs Unit :=
  update fun s => { s with filesystems := s.filesystems ++ ancestors '/' d }

def issue (volumes : List Name) : Run Zfs Unit :=
  update fun s => { s with issued := s.issued ++ volumes.map (⟨·, s.filesystems⟩) }

/-- `zfs create -V`, `zfs clone` or `zfs recv`, and the stamp. -/
def createVolume (volume : Name) (works stamped : Bool) : Run Zfs Unit := do
  issue [volume]
  require works
  require stamped

end Commands

section Materialization
variable (o : Outcomes) (host : Host) (zoneName : String) (metadata : Document)

def createZoneRootDataset (root : String) : Run Zfs Unit := do
  require o.createRoot
  createFilesystems root.toList
  require o.stampRoot

def prepareBootVolume : Run Zfs Unit :=
  match (diskField "boot" metadata).filter Json.truthy with
  | none => return ()
  | some boot =>
    if textField "type" boot = some "none" ∨ textField "type" boot = some "template" then return ()
    else if textField "type" boot = some "image" then require o.imageListed
    else do
      createZoneRootDataset o (rootDataset host zoneName metadata boot)
      createVolume (bootVolume host zoneName metadata boot).toList o.createVolume o.stampVolume

/-- A template that is no text cannot be split. -/
def ensureLocalizedTemplate (boot : Json) : Json → Run Zfs Unit
  | .str template =>
    match o.originGuid.filter (· ≠ "") with
    | none => stop
    | some originGuid =>
      match o.replicaGuid.filter (· ≠ "") with
      | some existingGuid => require (existingGuid = originGuid)
      | none => do
        require o.createReplicaParent
        createFilesystems (parentName (replicaName host boot template))
        createVolume (replicaName host boot template) o.receiveReplica o.stampReplica
  | _ => stop

def cloneSource (boot template : Json) : Run Zfs Unit :=
  if localizes boot then ensureLocalizedTemplate o host boot template else pure ()

def templateDataset (boot : Json) : Option Json :=
  (boot.field "template_dataset").filter Json.truthy

def importTemplate : Run Zfs Unit :=
  match diskField "boot" metadata with
  | none => return ()
  | some boot =>
    if textField "type" boot = some "template" then
      match templateDataset boot with
      | none => stop
      | some template => do
        createZoneRootDataset o (rootDataset host zoneName metadata boot)
        cloneSource o host boot template
        createVolume (bootVolume host zoneName metadata boot).toList o.cloneOrReceive o.stampTarget
    else return ()

def prepareStorage : Run Zfs Unit := do
  prepareBootVolume o host zoneName metadata
  if (diskField "boot" metadata).bind (textField "type") = some "template" then
    importTemplate o host zoneName metadata
  else return ()

/-- The volume of an additional entry; an image is attached as it is. -/
def additionalVolume (index : ℕ) (disk : Json) : Option Name :=
  if textField "type" disk = some "blank" ∨ textField "type" disk = some "template" then
    some (volumePath host zoneName (createServerId host metadata) (diskName index) disk).toList
  else none

def additionalVolumes : List Name :=
  ((additionalDisks metadata).mapIdx (additionalVolume host zoneName metadata)).filterMap id

/-- The creations run in parallel: all are issued before the first one ends. -/
def configureAdditionalDisks : Run Zfs Unit := issue (additionalVolumes host zoneName metadata)

/-- `configures` is whether the storage task and the configuration of the zone get through. -/
def materialize (configures : Bool) : Run Zfs Unit := do
  prepareStorage o host zoneName metadata
  require configures
  configureAdditionalDisks host zoneName metadata

end Materialization

section Property
variable (host : Host) (zoneName : String) (metadata : Document) (filesystems : Pool)

/-- No command is for a volume without a parent, and no two are for one volume. -/
structure Sound (s : Zfs) : Prop where
  parents : ∀ c ∈ s.issued, parentName c.volume ∈ c.filesystems
  distinct : (s.issued.map Issued.volume).Nodup

/-- Whatever the commands answer. -/
def Materializes : Prop :=
  ∀ o configures, Sound (final (materialize o host zoneName metadata configures) ⟨filesystems, []⟩)

/-- What the boot entry comes to: nothing to create, a run that always stops before its volume, or a
volume with, for a localized template, a replica. -/
inductive BootStage
  | nothing
  | stopped
  | volume (boot : Json) (replica : Option Name)

def templateStage (boot template : Json) : BootStage :=
  if localizes boot then
    match template with
    | .str template => .volume boot (some (replicaName host boot template))
    | _ => .stopped
  else .volume boot none

def bootStage : BootStage :=
  match diskField "boot" metadata with
  | none => .nothing
  | some boot =>
    if textField "type" boot = some "template" then
      match templateDataset boot with
      | none => .stopped
      | some template => templateStage host boot template
    else if boot.truthy = false ∨ textField "type" boot = some "none" ∨
        textField "type" boot = some "image" then .nothing
    else .volume boot none

def volumes (boot : Json) : List Name :=
  (bootVolume host zoneName metadata boot).toList :: additionalVolumes host zoneName metadata

/-- The layouts that can be materialized. -/
def Fits : Prop :=
  match bootStage host metadata with
  | .stopped => True
  | .nothing => additionalVolumes host zoneName metadata = []
  | .volume boot replica =>
    (∀ v ∈ volumes host zoneName metadata boot,
      AtOrBelow '/' (parentName v) (rootDataset host zoneName metadata boot).toList) ∧
    (volumes host zoneName metadata boot).Nodup ∧
    ∀ r ∈ replica, r ∉ volumes host zoneName metadata boot

/-- Nothing of the machine's name exists where an entry puts its volume. -/
def Vacant : Prop :=
  ∀ disk ∈ (diskField "boot" metadata).toList ++ additionalDisks metadata,
    ∀ d ∈ filesystems, ¬AtOrBelow '/' (rootDataset host zoneName metadata disk).toList d

instance : Decidable (Vacant host zoneName metadata filesystems) :=
  inferInstanceAs (Decidable (∀ disk ∈ _, ∀ d ∈ filesystems, ¬AtOrBelow '/' _ d))

end Property

section Names
variable {host : Host} {zoneName : String} {metadata : Document} {filesystems : Pool} {disk : Json}

/-- The parent of what lies below a name is that name or lies below it too. -/
theorem atOrBelow_parentName (x y : Name) : AtOrBelow '/' x (parentName (x ++ '/' :: y)) := by
  have hreverse : (x ++ '/' :: y).reverse = y.reverse ++ '/' :: x.reverse := by simp
  rw [parentName, behindPool, hreverse, List.dropWhile_append]
  split_ifs with hnone
  · rw [List.dropWhile_cons_of_neg (by decide), List.drop_one, List.tail_cons, List.reverse_reverse]
    exact AtOrBelow.refl x
  · cases hdrop : y.reverse.dropWhile (· ≠ '/') with
    | nil =>
      rw [hdrop] at hnone
      exact absurd rfl hnone
    | cons c rest =>
      rw [List.cons_append, List.drop_one, List.tail_cons, List.reverse_append,
        List.reverse_cons, List.reverse_reverse, List.append_assoc, List.singleton_append]
      exact atOrBelow_child x _

theorem volumePath_eq (name : String) :
    (volumePath host zoneName (createServerId host metadata) name disk).toList =
      (rootDataset host zoneName metadata disk).toList ++
        '/' :: (host.orText "volume_name" name disk).toList := by
  simp [volumePath, rootDataset, StorageCreation.bootPool, String.toList_append]

theorem parent_volumePath_notMem (hvacant : Vacant host zoneName metadata filesystems)
    (hdisk : diskField "boot" metadata = some disk ∨ disk ∈ additionalDisks metadata)
    (name : String) :
    parentName (volumePath host zoneName (createServerId host metadata) name disk).toList ∉
      filesystems := by
  intro hmem
  rw [volumePath_eq] at hmem
  have hentry : disk ∈ (diskField "boot" metadata).toList ++ additionalDisks metadata := by
    rwa [List.mem_append, Option.mem_toList]
  exact hvacant disk hentry _ hmem (atOrBelow_parentName _ _)

theorem mem_additionalVolumes {v : Name} (h : v ∈ additionalVolumes host zoneName metadata) :
    ∃ index, ∃ disk ∈ additionalDisks metadata,
      v = (volumePath host zoneName (createServerId host metadata) (diskName index) disk).toList := by
  obtain ⟨entry, hentry, hv⟩ := List.mem_filterMap.mp h
  obtain ⟨index, hindex, rfl⟩ := List.mem_mapIdx.mp hentry
  refine ⟨index, (additionalDisks metadata)[index], List.getElem_mem hindex, ?_⟩
  rw [id, additionalVolume] at hv
  split_ifs at hv
  exact (Option.some.inj hv).symm

end Names

section Stages
variable {o : Outcomes} {host : Host} {zoneName : String} {metadata : Document} {boot : Json}
variable {replica : Option Name} {configures : Bool} {filesystems : Pool}

/-- Without anything to create, the run may only stop. -/
theorem prepareStorage_nothing (h : bootStage host metadata = .nothing) :
    ∃ cond, (o.imageListed = true → cond = true) ∧
      prepareStorage o host zoneName metadata = require cond := by
  unfold bootStage at h
  unfold prepareStorage prepareBootVolume
  cases hboot : diskField "boot" metadata with
  | none => exact ⟨true, fun _ => rfl, rfl⟩
  | some boot =>
    rw [hboot] at h
    simp only at h
    split_ifs at h with htemplate hother
    · cases hdataset : templateDataset boot with
      | none =>
        rw [hdataset] at h
        cases h
      | some template =>
        rw [hdataset] at h
        simp only [templateStage] at h
        split at h
        · split at h <;> cases h
        · cases h
    · simp only [Option.bind_some, htemplate, if_false, Option.filter_some]
      rcases hother with hfalsy | hnone | himage
      · exact ⟨true, fun _ => rfl, by simp only [hfalsy, Bool.false_eq_true, if_false]; rfl⟩
      · cases boot.truthy
        · exact ⟨true, fun _ => rfl, rfl⟩
        · exact ⟨true, fun _ => rfl, by simp only [hnone, true_or, if_true]; rfl⟩
      · cases boot.truthy
        · exact ⟨true, fun _ => rfl, rfl⟩
        · exact ⟨o.imageListed, id, by simp [himage]⟩

theorem prepareBootVolume_template (hboot : diskField "boot" metadata = some boot)
    (htype : textField "type" boot = some "template") :
    prepareBootVolume o host zoneName metadata = pure () := by
  unfold prepareBootVolume
  rw [hboot, Option.filter_some]
  cases boot.truthy
  · rfl
  · simp [htype]

theorem prepareStorage_template (hboot : diskField "boot" metadata = some boot)
    (htype : textField "type" boot = some "template") :
    prepareStorage o host zoneName metadata =
      (match templateDataset boot with
      | none => stop
      | some template =>
        createZoneRootDataset o (rootDataset host zoneName metadata boot) >>= fun _ =>
          cloneSource o host boot template >>= fun _ =>
            createVolume (bootVolume host zoneName metadata boot).toList o.cloneOrReceive
              o.stampTarget) := by
  rw [prepareStorage, prepareBootVolume_template hboot htype, pure_bind, hboot, Option.bind_some,
    if_pos htype, importTemplate, hboot]
  simp only [htype, if_true]

theorem stopped_template {template : Json} (h : templateStage host boot template = .stopped) :
    cloneSource o host boot template = stop := by
  unfold templateStage at h
  unfold cloneSource
  split_ifs at h ⊢ with hlocal
  cases template with
  | str t => cases h
  | _ => rfl

/-- A run that stops before its volume issues nothing. -/
theorem issued_stopped (h : bootStage host metadata = .stopped) :
    (final (materialize o host zoneName metadata configures) ⟨filesystems, []⟩).issued = [] := by
  unfold bootStage at h
  cases hboot : diskField "boot" metadata with
  | none =>
    rw [hboot] at h
    cases h
  | some boot =>
    rw [hboot] at h
    simp only at h
    split_ifs at h with htype
    rw [materialize, prepareStorage_template hboot htype]
    cases hdataset : templateDataset boot with
    | none => rfl
    | some template =>
      rw [hdataset] at h
      simp only
      rw [stopped_template h]
      simp only [createZoneRootDataset, createFilesystems, bind_assoc, final_require_bind,
        final_update_bind, final_stop_bind]
      split_ifs <;> rfl

/-- What makes sure of the dataset to clone, by the replica it may create. -/
def IsSource (o : Outcomes) (host : Host) (boot : Json) (replica : Option Name)
    (m : Run Zfs Unit) : Prop :=
  match replica with
  | none => m = pure ()
  | some r => ∃ template, m = ensureLocalizedTemplate o host boot (.str template) ∧
      r = replicaName host boot template

theorem prepareStorage_volume (h : bootStage host metadata = .volume boot replica) :
    diskField "boot" metadata = some boot ∧
    ∃ m works stamped, IsSource o host boot replica m ∧
      (works = o.createVolume ∧ stamped = o.stampVolume ∨
        works = o.cloneOrReceive ∧ stamped = o.stampTarget) ∧
      prepareStorage o host zoneName metadata = (do
        createZoneRootDataset o (rootDataset host zoneName metadata boot)
        m
        createVolume (bootVolume host zoneName metadata boot).toList works stamped) := by
  unfold bootStage at h
  cases hboot : diskField "boot" metadata with
  | none =>
    rw [hboot] at h
    cases h
  | some entry =>
    rw [hboot] at h
    simp only at h
    split_ifs at h with htype hother
    · cases hdataset : templateDataset entry with
      | none =>
        rw [hdataset] at h
        cases h
      | some template =>
        rw [hdataset] at h
        have hprepare := @prepareStorage_template o host zoneName metadata entry hboot htype
        rw [hdataset] at hprepare
        simp only [templateStage] at h
        split_ifs at h with hlocal
        · cases template with
          | str t =>
            cases h
            refine ⟨rfl, _, _, _, ⟨t, rfl, rfl⟩, .inr ⟨rfl, rfl⟩, ?_⟩
            rw [hprepare]
            simp only [cloneSource, hlocal, if_true]
          | _ => cases h
        · cases h
          refine ⟨rfl, _, _, _, rfl, .inr ⟨rfl, rfl⟩, ?_⟩
          rw [hprepare]
          simp only [cloneSource, hlocal, Bool.false_eq_true, if_false]
    · cases h
      simp only [not_or, Bool.not_eq_false] at hother
      refine ⟨rfl, _, _, _, rfl, .inl ⟨rfl, rfl⟩, ?_⟩
      rw [prepareStorage, prepareBootVolume, hboot, Option.filter_some, Option.bind_some]
      simp only [hother.1, hother.2.1, hother.2.2, htype, if_true, if_false, or_self, pure_bind,
        bind_pure_unit]

end Stages

section Runs
variable {o : Outcomes} {host : Host} {zoneName : String} {metadata : Document} {boot : Json}
variable {replica : Option Name} {configures : Bool} {filesystems : Pool} {m : Run Zfs Unit}

/-- From its volume on, a run issues some of the first volumes that are left. -/
theorem issued_volume (works stamped : Bool) (s : Zfs) :
    (final (createVolume (bootVolume host zoneName metadata boot).toList works stamped >>= fun _ =>
      require configures >>= fun _ => configureAdditionalDisks host zoneName metadata) s).issued <+:
      s.issued ++ (volumes host zoneName metadata boot).map (⟨·, s.filesystems⟩) := by
  simp only [createVolume, issue, configureAdditionalDisks, bind_assoc, final_update_bind,
    final_require_bind, final_update, volumes, List.map_cons, List.map_nil]
  split_ifs
  · rw [List.append_assoc]
    exact List.prefix_rfl
  all_goals exact (List.prefix_append_right_inj _).mpr ⟨_, rfl⟩

/-- The runs that get to a volume: what they issue first, on which filesystems. -/
theorem issued_source (hsource : IsSource o host boot replica m) (f : Unit → Run Zfs Unit)
    (s : Zfs) :
    (final (m >>= f) s).issued = s.issued ∨
      ∃ front added, (front = [] ∨ ∃ r ∈ replica, front = [r] ∧ parentName r ∈ added) ∧
        ((final (m >>= f) s).issued = s.issued ++ front.map (⟨·, s.filesystems ++ added⟩) ∨
        final (m >>= f) s = final (f ()) ⟨s.filesystems ++ added,
          s.issued ++ front.map (⟨·, s.filesystems ++ added⟩)⟩) := by
  cases replica with
  | none =>
    cases hsource
    exact .inr ⟨[], [], .inl rfl, .inr (by simp)⟩
  | some r =>
    obtain ⟨template, rfl, rfl⟩ := hsource
    unfold ensureLocalizedTemplate
    cases o.originGuid.filter (· ≠ "") with
    | none => exact .inl rfl
    | some originGuid =>
      simp only
      cases o.replicaGuid.filter (· ≠ "") with
      | some existingGuid =>
        simp only [final_require_bind]
        split_ifs
        · exact .inr ⟨[], [], .inl rfl, .inr (by simp)⟩
        · exact .inl rfl
      | none =>
        simp only [createFilesystems, createVolume, issue, bind_assoc, final_require_bind,
          final_update_bind]
        split_ifs
        · refine .inr ⟨[_], _, .inr ⟨_, rfl, rfl, mem_ancestors.mpr (AtOrBelow.refl _)⟩, .inr rfl⟩
        · refine .inr ⟨[_], _, .inr ⟨_, rfl, rfl, mem_ancestors.mpr (AtOrBelow.refl _)⟩, .inl rfl⟩
        · refine .inr ⟨[_], _, .inr ⟨_, rfl, rfl, mem_ancestors.mpr (AtOrBelow.refl _)⟩, .inl rfl⟩
        · exact .inl rfl

/-- Every run over a boot entry with a volume issues some of the first of its volumes, behind the
replica if that is created, once the root is there. -/
theorem issued_materialize (h : bootStage host metadata = .volume boot replica) :
    ∃ front fs, (front = [] ∨ ∃ r ∈ replica, front = [r] ∧ parentName r ∈ fs) ∧
      (∀ a, AtOrBelow '/' a (rootDataset host zoneName metadata boot).toList → a ∈ fs) ∧
      (final (materialize o host zoneName metadata configures) ⟨filesystems, []⟩).issued <+:
        (front ++ volumes host zoneName metadata boot).map (⟨·, fs⟩) := by
  obtain ⟨-, m, works, stamped, hsource, -, hprepare⟩ :=
    @prepareStorage_volume o host zoneName metadata boot replica h
  have hroot : ∀ added a, AtOrBelow '/' a (rootDataset host zoneName metadata boot).toList →
      a ∈ filesystems ++ ancestors '/' (rootDataset host zoneName metadata boot).toList ++ added :=
    fun added a ha => List.mem_append_left _ (List.mem_append_right _ (mem_ancestors.mpr ha))
  have hnone : ∀ s : Zfs, s.issued = [] → ∃ front fs,
      (front = [] ∨ ∃ r ∈ replica, front = [r] ∧ parentName r ∈ fs) ∧
      (∀ a, AtOrBelow '/' a (rootDataset host zoneName metadata boot).toList → a ∈ fs) ∧
      s.issued <+: (front ++ volumes host zoneName metadata boot).map (⟨·, fs⟩) :=
    fun s hs => ⟨[], _, .inl rfl, hroot [], hs ▸ List.nil_prefix⟩
  rw [materialize, hprepare]
  simp only [createZoneRootDataset, createFilesystems, bind_assoc, final_require_bind,
    final_update_bind]
  split_ifs
  · rcases issued_source hsource (fun _ => createVolume
      (bootVolume host zoneName metadata boot).toList works stamped >>= fun _ =>
        require configures >>= fun _ => configureAdditionalDisks host zoneName metadata)
      ⟨filesystems ++ ancestors '/' (rootDataset host zoneName metadata boot).toList, []⟩ with
      hstopped | ⟨front, added, hfront, hissued | hfinal⟩
    · exact hnone _ hstopped
    · refine ⟨front, _, hfront.imp_right ?_, hroot added, ?_⟩
      · rintro ⟨r, hr, rfl, hparent⟩
        exact ⟨r, hr, rfl, List.mem_append_right _ hparent⟩
      · rw [hissued, List.nil_append, List.map_append]
        exact List.prefix_append _ _
    · refine ⟨front, _, hfront.imp_right ?_, hroot added, ?_⟩
      · rintro ⟨r, hr, rfl, hparent⟩
        exact ⟨r, hr, rfl, List.mem_append_right _ hparent⟩
      · rw [hfinal, List.map_append]
        exact issued_volume works stamped _
  · exact hnone _ rfl
  · exact hnone _ rfl

/-- Everything works; the replica of a localized template is there or is received. -/
def allWork (replicaThere : Bool) : Outcomes where
  resolved := none
  imageListed := true
  createRoot := true
  stampRoot := true
  createVolume := true
  stampVolume := true
  originGuid := some "1"
  replicaGuid := if replicaThere then some "1" else none
  createReplicaParent := true
  receiveReplica := true
  stampReplica := true
  cloneOrReceive := true
  stampTarget := true
  metadataStored := true

theorem final_allWork {replicaThere : Bool} (h : bootStage host metadata = .volume boot replica) :
    ∃ m, IsSource (allWork replicaThere) host boot replica m ∧
      final (materialize (allWork replicaThere) host zoneName metadata true) ⟨filesystems, []⟩ =
        final (m >>= fun _ => issue [(bootVolume host zoneName metadata boot).toList] >>= fun _ =>
          configureAdditionalDisks host zoneName metadata)
          ⟨filesystems ++ ancestors '/' (rootDataset host zoneName metadata boot).toList, []⟩ := by
  obtain ⟨-, m, works, stamped, hsource, hflags, hprepare⟩ :=
    @prepareStorage_volume (allWork replicaThere) host zoneName metadata boot replica h
  have hwork : works = true ∧ stamped = true := by
    rcases hflags with ⟨rfl, rfl⟩ | ⟨rfl, rfl⟩ <;> exact ⟨rfl, rfl⟩
  refine ⟨m, hsource, ?_⟩
  have hrequire : (require true : Run Zfs Unit) = pure () := rfl
  rw [materialize, hprepare, hwork.1, hwork.2]
  simp only [createZoneRootDataset, createFilesystems, createVolume, allWork, hrequire, bind_assoc,
    pure_bind, final_update_bind]

/-- With the replica there, every volume is issued over the root. -/
theorem issued_there (h : bootStage host metadata = .volume boot replica) :
    (final (materialize (allWork true) host zoneName metadata true) ⟨filesystems, []⟩).issued =
      (volumes host zoneName metadata boot).map (⟨·, filesystems ++
        ancestors '/' (rootDataset host zoneName metadata boot).toList⟩) := by
  obtain ⟨m, hsource, hfinal⟩ := @final_allWork host zoneName metadata boot replica filesystems
    true h
  have hm : m = pure () := by
    cases replica with
    | none => exact hsource
    | some r =>
      obtain ⟨template, rfl, -⟩ := hsource
      rfl
  rw [hfinal, hm, pure_bind]
  simp [issue, configureAdditionalDisks, volumes]

/-- Without it, the replica is issued first. -/
theorem issued_received {r : Name} (h : bootStage host metadata = .volume boot (some r)) :
    (final (materialize (allWork false) host zoneName metadata true) ⟨filesystems, []⟩).issued.map
      Issued.volume = r :: volumes host zoneName metadata boot := by
  obtain ⟨m, ⟨template, rfl, rfl⟩, hfinal⟩ :=
    @final_allWork host zoneName metadata boot (some r) filesystems false h
  have hrequire : (require true : Run Zfs Unit) = pure () := rfl
  have hsource : ensureLocalizedTemplate (allWork false) host boot (.str template) =
      createFilesystems (parentName (replicaName host boot template)) >>= fun _ =>
        issue [replicaName host boot template] := by
    simp only [ensureLocalizedTemplate, allWork, createVolume, hrequire, pure_bind]
    rfl
  rw [hfinal, hsource]
  simp [createFilesystems, issue, configureAdditionalDisks, volumes, bind_assoc,
    Function.comp_def]

end Runs

section Main
variable {host : Host} {zoneName : String} {metadata : Document} {filesystems : Pool}

theorem parent_volumes_notMem {boot : Json} (hboot : diskField "boot" metadata = some boot)
    (hvacant : Vacant host zoneName metadata filesystems) {v : Name}
    (hv : v ∈ volumes host zoneName metadata boot) : parentName v ∉ filesystems := by
  rcases List.mem_cons.mp hv with rfl | hv
  · exact parent_volumePath_notMem hvacant (.inl hboot) "boot"
  · obtain ⟨index, disk, hdisk, rfl⟩ := mem_additionalVolumes hv
    exact parent_volumePath_notMem hvacant (.inr hdisk) _

theorem Fits.sound (h : Fits host zoneName metadata) (o : Outcomes) (configures : Bool) :
    Sound (final (materialize o host zoneName metadata configures) ⟨filesystems, []⟩) := by
  unfold Fits at h
  cases hstage : bootStage host metadata with
  | stopped =>
    have hissued := @issued_stopped o host zoneName metadata configures filesystems hstage
    constructor <;> rw [hissued]
    · exact fun c hc => absurd hc List.not_mem_nil
    · exact List.nodup_nil
  | nothing =>
    rw [hstage] at h
    obtain ⟨cond, -, hprepare⟩ := @prepareStorage_nothing o host zoneName metadata hstage
    have hissued : (final (materialize o host zoneName metadata configures)
        ⟨filesystems, []⟩).issued = [] := by
      rw [materialize, hprepare, configureAdditionalDisks, h]
      simp only [final_require_bind, issue, final_update]
      split_ifs <;> rfl
    constructor <;> rw [hissued]
    · exact fun c hc => absurd hc List.not_mem_nil
    · exact List.nodup_nil
  | volume boot replica =>
    rw [hstage] at h
    obtain ⟨hparents, hnodup, hreplica⟩ := h
    obtain ⟨front, fs, hfront, hroot, hpre⟩ :=
      @issued_materialize o host zoneName metadata boot replica configures filesystems hstage
    constructor
    · intro c hc
      obtain ⟨v, hv, rfl⟩ := List.mem_map.mp (hpre.subset hc)
      rcases List.mem_append.mp hv with hv | hv
      · rcases hfront with rfl | ⟨r, -, rfl, hparent⟩
        · cases hv
        · rwa [List.mem_singleton.mp hv]
      · exact hroot _ (hparents v hv)
    · have hvolumes := hpre.map Issued.volume
      rw [List.map_map] at hvolumes
      have hall : (front ++ volumes host zoneName metadata boot).Nodup := by
        rcases hfront with rfl | ⟨r, hr, rfl, -⟩
        · exact hnodup
        · exact List.nodup_cons.mpr ⟨hreplica r hr, hnodup⟩
      refine hall.sublist (hvolumes.sublist.trans ?_)
      rw [Function.comp_def, List.map_id']

/-- A layout can be materialized, whatever the commands answer, exactly when it fits. -/
theorem layout_materializes (host : Host) (zoneName : String) (metadata : Document)
    (filesystems : Pool) (hvacant : Vacant host zoneName metadata filesystems) :
    Materializes host zoneName metadata filesystems ↔ Fits host zoneName metadata := by
  constructor
  · intro h
    unfold Fits
    cases hstage : bootStage host metadata with
    | stopped => trivial
    | nothing =>
      obtain ⟨cond, hcond, hprepare⟩ :=
        @prepareStorage_nothing (allWork true) host zoneName metadata hstage
      have hsound := h (allWork true) true
      rw [materialize, hprepare, hcond rfl] at hsound
      rw [List.eq_nil_iff_forall_not_mem]
      intro v hv
      obtain ⟨index, disk, hdisk, rfl⟩ := mem_additionalVolumes hv
      have hparent := hsound.parents ⟨_, filesystems⟩ (by
        simp only [final_require_bind, if_true, configureAdditionalDisks, issue, final_update,
          List.nil_append]
        exact List.mem_map_of_mem hv)
      exact parent_volumePath_notMem hvacant (.inr hdisk) _ hparent
    | volume boot replica =>
      obtain ⟨hboot, -⟩ := @prepareStorage_volume (allWork true) host zoneName metadata boot replica
        hstage
      have hthere := h (allWork true) true
      have hissued := @issued_there host zoneName metadata boot replica filesystems hstage
      refine ⟨fun v hv => ?_, ?_, ?_⟩
      · have hparent := hthere.parents ⟨v, _⟩ (by
          rw [hissued]
          exact List.mem_map_of_mem hv)
        rcases List.mem_append.mp hparent with hold | hnew
        · exact absurd hold (parent_volumes_notMem hboot hvacant hv)
        · exact mem_ancestors.mp hnew
      · have hnodup := hthere.distinct
        rw [hissued, List.map_map, Function.comp_def, List.map_id'] at hnodup
        exact hnodup
      · rintro r rfl
        have hnodup := (h (allWork false) true).distinct
        rw [issued_received hstage] at hnodup
        exact (List.nodup_cons.mp hnodup).1
  · exact fun h o configures => h.sound o configures

end Main

/-! ### The example -/

def plainHost : Host := ⟨false, "rpool", fun _ => ""⟩

def layout (boot disk : List (String × Json)) : Document :=
  [("disks", .obj [("boot", .obj boot), ("additional_disks", .arr [.obj disk])])]

def disklessLayout : Document :=
  layout [("type", .str "none")] [("type", .str "blank"), ("size", .str "10G")]

def namesakeLayout : Document :=
  layout [("type", .str "blank"), ("size", .str "10G")]
    [("type", .str "blank"), ("size", .str "10G"), ("volume_name", .str "boot")]

def plainPool : Pool := ["rpool".toList, "rpool/zones".toList]

/-- Both layouts are accepted: without a boot disk nobody makes the dataset the further disk goes
into, and a further disk may be named like the boot disk. -/
theorem layout_materializes_fails :
    ((validateDisksWire plainHost.toText disklessLayout).errors = [] ∧
      Vacant plainHost "web" disklessLayout plainPool ∧
      ¬Materializes plainHost "web" disklessLayout plainPool) ∧
    (validateDisksWire plainHost.toText namesakeLayout).errors = [] ∧
      Vacant plainHost "web" namesakeLayout plainPool ∧
      ¬Materializes plainHost "web" namesakeLayout plainPool := by
  refine ⟨⟨by decide +kernel, by decide +kernel, fun h => ?_⟩, by decide +kernel,
    by decide +kernel, fun h => ?_⟩
  · exact absurd (h (allWork true) true).parents (by decide +kernel)
  · exact absurd (h (allWork true) true).distinct (by decide +kernel)

/-- A blank boot disk and a further disk beside it. -/
theorem layout_materializes_plain :
    Vacant plainHost "web" (layout [("type", .str "blank"), ("size", .str "10G")]
        [("type", .str "blank"), ("size", .str "10G")]) plainPool ∧
      Materializes plainHost "web" (layout [("type", .str "blank"), ("size", .str "10G")]
        [("type", .str "blank"), ("size", .str "10G")]) plainPool := by
  have hvacant : Vacant plainHost "web" (layout [("type", .str "blank"), ("size", .str "10G")]
      [("type", .str "blank"), ("size", .str "10G")]) plainPool := by decide +kernel
  refine ⟨hvacant, (layout_materializes _ _ _ _ hvacant).mpr ⟨?_, ?_, nofun⟩⟩ <;> decide +kernel

end ZoneweaverAgent.DiskLayout
