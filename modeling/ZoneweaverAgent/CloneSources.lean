import ZoneweaverAgent.MachineDisksRuns

/-!
# The clone source reader

A clone snapshots the datasets that `cloneSourceDatasets` computes from the document alone. They are
the attached ones as long as the document mirrors the disks, the boot entry leads to the path the
defaults give, and the document's `server_id` is the one creation worked with.
-/

namespace ZoneweaverAgent.MachineDisks
open ZoneDocument DiskSpec Transition

section ServerId
variable {host : Host} {zoneName : String} {metadata doc : Document}

def SameServerId (doc metadata : Document) : Prop :=
  (doc.get "settings").bind (Json.field "server_id") =
    (metadata.get "settings").bind (Json.field "server_id")

theorem length_padStart4 (s : String) : 4 ≤ (padStart4 s).length := by
  have hlength : (padStart4 s).length = (4 - s.length) + s.length := by
    simp [padStart4, String.length_append]
  omega

theorem padStart4_of_le {s : String} (h : 4 ≤ s.length) : padStart4 s = s := by
  have hzero : 4 - s.length = 0 := by omega
  simp [padStart4, hzero]

theorem padStart4_truthy (s : String) : (Json.str (padStart4 s)).truthy = true := by
  have hlength := length_padStart4 s
  have hne : padStart4 s ≠ "" := by
    intro h
    rw [h] at hlength
    simp at hlength
  simp [Json.truthy, hne]

/-- Where the reader adds a prefix, it is the one creation adds. -/
theorem paddedId_clone (hsettings : SameServerId doc metadata)
    (h : appliesPrefix host zoneName (some (cloneServerId host doc)) = true) :
    paddedId host (some (cloneServerId host doc)) =
      paddedId host (createServerId host metadata) := by
  have htruthy : (cloneServerId host doc).truthy = true := by
    simp only [appliesPrefix, Option.map_some, Option.getD_some, Bool.and_eq_true] at h
    exact h.1.2
  unfold cloneServerId at htruthy ⊢
  unfold createServerId
  unfold SameServerId at hsettings
  rw [hsettings] at htruthy ⊢
  cases hid : (metadata.get "settings").bind (Json.field "server_id") with
  | none => simp [hid, Json.truthy] at htruthy
  | some id =>
    simp only [hid] at htruthy ⊢
    by_cases hidTruthy : id.truthy
    · simp only [hidTruthy, ↓reduceIte] at htruthy ⊢
      unfold paddedId
      rw [orElseTruthy_of_truthy htruthy, orElseTruthy_of_truthy (padStart4_truthy _), text_str,
        text_str, padStart4_of_le (length_padStart4 _)]
    · rw [if_neg hidTruthy] at htruthy
      simp [Json.truthy] at htruthy

theorem buildDatasetPath_clone (hsettings : SameServerId doc metadata)
    (h : appliesPrefix host zoneName (some (cloneServerId host doc)) =
      appliesPrefix host zoneName (createServerId host metadata)) (basePath : String) :
    buildDatasetPath host zoneName (some (cloneServerId host doc)) basePath =
      buildDatasetPath host zoneName (createServerId host metadata) basePath := by
  unfold buildDatasetPath
  by_cases happlies : appliesPrefix host zoneName (some (cloneServerId host doc)) = true
  · rw [if_pos happlies, if_pos (h ▸ happlies), paddedId_clone hsettings happlies]
  · rw [if_neg happlies, if_neg (h ▸ happlies)]

end ServerId

section Frame
variable {host : Host} {zoneName : String} {m m' : Machine} {changes : DiskChanges}

theorem get_eq_none_of_disks {added : KeyedList String String} {name : String}
    (h : ∀ e ∈ added, (diskNumber? e.1).isSome = true) (hname : diskNumber? name = none) :
    added.get name = none := by
  cases hget : added.get name with
  | none => rfl
  | some value =>
    have hdisk := h (name, value) (KeyedList.mem_of_get hget)
    rw [hname] at hdisk
    cases hdisk

theorem foldlM_removeAttr_get {name : String} {names : List String} (hname : name ∉ names) :
    ∀ {attrs attrs' : KeyedList String String}, names.foldlM removeAttr attrs = some attrs' →
      attrs'.get name = attrs.get name := by
  induction names with
  | nil =>
    intro attrs attrs' h
    rw [List.foldlM_nil, Option.pure_def, Option.some.injEq] at h
    rw [h]
  | cons head rest ih =>
    intro attrs attrs' h
    rw [List.foldlM_cons, Option.bind_eq_bind, Option.bind_eq_some_iff] at h
    obtain ⟨attrs₁, hremove, hrest⟩ := h
    obtain ⟨rfl, -⟩ := removeAttr_eq hremove
    rw [ih (fun hmem => hname (List.mem_cons_of_mem head hmem)) hrest]
    exact KeyedList.get_erase_of_ne _ fun heq => hname (heq ▸ List.mem_cons_self)

/-- What a run with fitting steps leaves of the machine it started from. -/
structure Keeps (m m' : Machine) : Prop where
  edits : EditsDisks m.document m'.document (additionalDisks m'.document)
  typed : (∀ e ∈ additionalDisks m.document, isTyped e = true) →
    ∀ e ∈ additionalDisks m'.document, isTyped e = true
  bootdisk : m'.attrs.get "bootdisk" = m.attrs.get "bootdisk"

theorem Keeps.trans {m'' : Machine} (h : Keeps m m') (h' : Keeps m' m'') : Keeps m m'' :=
  ⟨h.edits.trans h'.edits, fun htyped => h'.typed (h.typed htyped),
    h'.bootdisk.trans h.bootdisk⟩

theorem addDisk_typed {number : ℕ} {disk : Json} {addition : Addition}
    (h : addDisk host zoneName number disk = some addition) : isTyped addition.entry = true := by
  unfold addDisk at h
  split_ifs at h <;> simp only [Option.some.injEq] at h <;> subst h <;> rfl

theorem attachDisks_typed (disks : List Json) :
    ∀ {number : ℕ} {attrs attrs' : KeyedList String String} {entries : List Json},
      attachDisks host zoneName number disks attrs = some (attrs', entries) →
        ∀ e ∈ entries, isTyped e = true := by
  induction disks with
  | nil =>
    intro number attrs attrs' entries h e he
    simp only [attachDisks, Option.some.injEq, Prod.mk.injEq] at h
    rw [← h.2] at he
    cases he
  | cons disk rest ih =>
    intro number attrs attrs' entries h e he
    simp only [attachDisks, Option.bind_eq_bind, Option.bind_eq_some_iff, Option.pure_def,
      Option.some.injEq, Prod.mk.injEq, Prod.exists] at h
    obtain ⟨addition, haddition, attrs₁, -, attrs₂, entries₂, hrest, -, rfl⟩ := h
    rcases List.mem_cons.mp he with rfl | hmem
    · exact addDisk_typed haddition
    · exact ih hrest e hmem

variable {serverId : Option Json}

theorem addDisks_keeps {rows : KeyedList String String} {disks : List Json}
    (hpfx : (∃ disk ∈ disks, textField "type" disk = some "blank") →
      appliesPrefix host zoneName serverId = false)
    (hm : Coherent host zoneName serverId m)
    (h : addDisks host zoneName rows disks m = some m') : Keeps m m' := by
  obtain ⟨-, added, hattaches⟩ := addDisks_coherent hpfx hm h
  refine ⟨addDisks_edits hm.isMap h, fun htyped => ?_, ?_⟩
  · obtain ⟨section_, hsection⟩ := hm.isMap
    rcases addDisks_eq h with rfl | ⟨entries, hattach, happend⟩
    · exact htyped
    · rw [(appendDocumentDisks_edits hsection entries happend).additional]
      intro e he
      rcases List.mem_append.mp he with hold | hnew
      · exact htyped e hold
      · exact attachDisks_typed disks hattach e hnew
  · rw [hattaches.append, KeyedList.get_append, get_eq_none_of_disks hattaches.disks (by decide),
      Option.or_none]

theorem removeDisks_keeps {rows : KeyedList String String} {names : List String}
    (hm : Coherent host zoneName serverId m) (hnames : "bootdisk" ∉ names)
    (h : removeDisks rows names m = some m') : Keeps m m' := by
  have hedits := removeDisks_edits hm.isMap h
  refine ⟨?_, fun htyped e he => ?_, foldlM_removeAttr_get hnames (removeDisks_eq h).1⟩
  · rw [hedits.additional]
    exact hedits
  · rw [hedits.additional] at he
    exact htyped e (mem_of_mem_foldl_eraseP he)

theorem zoneModify_keeps (hm : Coherent host zoneName serverId m)
    (hfits : Fits host zoneName serverId m changes) (hnames : "bootdisk" ∉ changes.removeDisks)
    (h : zoneModify host zoneName m changes = some m') : Keeps m m' := by
  obtain ⟨added, hadd, hremove⟩ := zoneModify_eq h
  have hcoherent := (addDisks_coherent hfits.unprefixed hm hadd).1
  exact (addDisks_keeps hfits.unprefixed hm hadd).trans
    (removeDisks_keeps hcoherent hnames hremove)

end Frame

section Reader
variable (host : Host) (zoneName : String) (metadata zadm : Document)

/-- The boot entry leads the reader to the path creation attaches. -/
def BootReadable : Prop :=
  ∀ boot, diskField "boot" metadata = some boot → boot.truthy = true →
    textField "type" boot = some "blank" ∨ textField "type" boot = some "template" ∨
      textField "type" boot = some "image" ∧ host.fieldText "path" boot =
        volumePath host zoneName (createServerId host metadata) "boot" boot

/-- What `zadm` prints of a new zone: no section of the document, and no boot disk where none is
attached. -/
structure NewZoneOutput : Prop where
  sections : ∀ key ∈ documentSections, zadm.get key = none
  bootdisk : (diskField "boot" metadata).filter Json.truthy = none → zadm.get "bootdisk" = none

variable {host zoneName metadata zadm} {others : KeyedList String String} {m : Machine}

theorem typedDisks_of_accepted (hmap : ∃ disks, metadata.get "disks" = some (.obj disks))
    (hlist : HasList metadata) (haccepted : DisksAccepted metadata) : TypedDisks metadata := by
  refine ⟨hmap, hlist, fun disk hdisk => ?_⟩
  obtain ⟨disks, hdisks⟩ := hmap
  have hsection : orElseTruthy (metadata.get "disks") (.obj []) = .obj disks := by
    rw [hdisks]
    rfl
  have hmem : disk ∈ listField "additional_disks"
      (orElseTruthy (metadata.get "disks") (.obj [])) := by
    rw [hsection]
    rw [additionalDisks_eq hdisks] at hdisk
    exact hdisk
  cases haccepted.additional disk hmem with
  | image htype keys => simp [isTyped, htype]
  | blank htype keys => simp [isTyped, htype]

theorem created_settings (hzadm : NewZoneOutput metadata zadm) :
    SameServerId (created host zoneName metadata others zadm).document metadata := by
  have hget := KeyedList.get_copyKeys zadm infrastructureSections
    (fun key => (metadata.get key).filter Json.truthy) "settings"
  rw [if_pos (by decide), hzadm.sections "settings" (by decide), Option.or_none] at hget
  change KeyedList.get (created host zoneName metadata others zadm).document "settings" = _ at hget
  unfold SameServerId
  rw [hget, field_filter_truthy]

/-- The document of a new machine has the key only from `zadm`. -/
theorem created_bootdiskKey :
    (created host zoneName metadata others zadm).document.get "bootdisk" = zadm.get "bootdisk" := by
  have hget := KeyedList.get_copyKeys zadm infrastructureSections
    (fun key => (metadata.get key).filter Json.truthy) "bootdisk"
  rwa [if_neg (by decide)] at hget

theorem volumePath_truthy (host : Host) (zoneName : String) (serverId : Option Json)
    (volumeName : String) (entry : Json) :
    (Json.str (volumePath host zoneName serverId volumeName entry)).truthy = true := by
  have hne : volumePath host zoneName serverId volumeName entry ≠ "" := by
    intro h
    have hlength := congrArg String.length h
    simp [volumePath, String.length_append] at hlength
  simp [Json.truthy, hne]

theorem created_bootdisk (hothers : OtherAttrs others) :
    (created host zoneName metadata others zadm).attrs.get "bootdisk" =
      ((prepareStorage host zoneName metadata).filter Json.truthy).map host.text := by
  have hother : others.get "bootdisk" = none := by
    cases hget : others.get "bootdisk" with
    | none => rfl
    | some value => exact absurd (List.mem_map_of_mem (KeyedList.mem_of_get hget)) hothers.bootdisk
  have hdisks : (configureAdditionalDisks host zoneName metadata).get "bootdisk" = none := by
    exact get_eq_none_of_disks (fun e he => diskNumber?_configureAdditionalDisks he) (by decide)
  simp only [created, KeyedList.get_append, hother, hdisks, Option.none_or, Option.or_none]
  unfold configureBootdisk
  cases (prepareStorage host zoneName metadata).filter Json.truthy <;> rfl

theorem prepareStorage_none (h : (diskField "boot" metadata).filter Json.truthy = none) :
    prepareStorage host zoneName metadata = none := by
  have htype : (diskField "boot" metadata).bind (textField "type") = none := by
    cases hboot : diskField "boot" metadata with
    | none => rfl
    | some boot =>
      rw [hboot, Option.filter_some] at h
      cases boot with
      | obj entries => cases h
      | _ => rfl
  unfold prepareStorage prepareBootVolume
  rw [htype, h]
  rfl

theorem prepareStorage_some {boot : Json} (hfield : diskField "boot" metadata = some boot)
    (htruthy : boot.truthy = true)
    (haccepted : BootAccepted (((metadata.get "settings").map (carries "box")).getD false) boot)
    (hboot : BootReadable host zoneName metadata) :
    ((prepareStorage host zoneName metadata).filter Json.truthy).map host.text =
      some (volumePath host zoneName (createServerId host metadata) "boot" boot) := by
  have hvolume := volumePath_truthy host zoneName (createServerId host metadata) "boot" boot
  unfold prepareStorage prepareBootVolume importTemplate
  rw [hfield, Option.bind_some, Option.filter_some, if_pos htruthy]
  rcases hboot boot hfield htruthy with ht | ht | ⟨ht, hpath⟩
  · simp [ht, hvolume, text_str]
  · simp [ht, hvolume, text_str]
  · have hcarries : carries "path" boot = true := by
      cases haccepted with
      | image _ keys => exact keys.path
      | template htype _ | blank htype _ | none htype _ => simp [ht] at htype
    unfold carries at hcarries
    unfold Host.fieldText at hpath
    cases hpathField : boot.field "path" with
    | none => simp [hpathField] at hcarries
    | some path =>
      simp only [hpathField, Option.map_some, Option.getD_some] at hcarries hpath
      simp [ht, hpathField, hcarries, hpath]

/-- The boot disk the reader tells is the one creation attached. -/
theorem cloneBootDataset_created {doc : Document} (hzadm : NewZoneOutput metadata zadm)
    (hothers : OtherAttrs others) (haccepted : DisksAccepted metadata)
    (hmap : ∃ disks, metadata.get "disks" = some (.obj disks))
    (hboot : BootReadable host zoneName metadata)
    (hfield : diskField "boot" doc = diskField "boot" metadata)
    (hbootdisk : doc.get "bootdisk" = zadm.get "bootdisk")
    (hbase : ∀ basePath,
      buildDatasetPath host zoneName (some (cloneServerId host doc)) basePath =
        buildDatasetPath host zoneName (createServerId host metadata) basePath) :
    (cloneBootDataset host zoneName doc).map host.text =
      (created host zoneName metadata others zadm).attrs.get "bootdisk" := by
  rw [created_bootdisk hothers]
  unfold cloneBootDataset
  rw [hfield]
  cases hfilter : (diskField "boot" metadata).filter Json.truthy with
  | none =>
    rw [prepareStorage_none hfilter, hbootdisk, hzadm.bootdisk hfilter]
    rfl
  | some boot =>
    obtain ⟨hsome, htruthy⟩ := Option.filter_eq_some_iff.mp hfilter
    have hsection : (orElseTruthy (metadata.get "disks") (.obj [])).field "boot" = some boot := by
      obtain ⟨disks, hdisks⟩ := hmap
      rw [diskField, hdisks] at hsome
      rw [hdisks]
      exact hsome
    rw [prepareStorage_some hsome htruthy (haccepted.boot boot hsection htruthy) hboot]
    simp only [Option.map_some, text_str, volumePath, hbase]

/-- The dataset of a source in the snapshot command. -/
def CloneSource.text (host : Host) (source : CloneSource) : String :=
  (source.dataset.map host.text).getD "undefined"

/-- The datasets `createCloneSnapshots` snapshots. -/
def snapshotDatasets (host : Host) (sources : CloneSources) : List String :=
  (sources.bootDataset.map host.text).getD "null" :: sources.additional.map (CloneSource.text host)

/-- What the reader owes a machine: the attached boot disk, and each attached disk once. -/
structure ReadsAttached (host : Host) (m : Machine) (sources : CloneSources) : Prop where
  boot : sources.bootDataset.map host.text = m.attrs.get "bootdisk"
  additional : (sources.additional.map (CloneSource.text host)).Perm (attachedDisks m.attrs)

/-- A clone snapshots the boot disk and the additional disks, and nothing else. -/
theorem ReadsAttached.snapshots {sources : CloneSources} (h : ReadsAttached host m sources)
    {path : String} (hpath : m.attrs.get "bootdisk" = some path) :
    (snapshotDatasets host sources).Perm (path :: attachedDisks m.attrs) := by
  unfold snapshotDatasets
  rw [h.boot, hpath]
  exact h.additional.cons path

section Sources
variable {doc : Document} {serverId : Option Json}
  (hbase : ∀ basePath,
    buildDatasetPath host zoneName (some (cloneServerId host doc)) basePath =
      buildDatasetPath host zoneName serverId basePath)
include hbase

theorem text_cloneSource (index : ℕ) (entry : Json) :
    (cloneSource host zoneName doc index entry).text host =
      entryDataset host zoneName serverId index entry := by
  unfold CloneSource.text cloneSource entryDataset
  by_cases himage : textField "type" entry = some "image"
  · simp only [himage, ↓reduceIte]
    rfl
  · simp only [himage, ↓reduceIte, volumePath, hbase]
    rfl

theorem map_cloneSource (entries : List Json) :
    (entries.mapIdx (cloneSource host zoneName doc)).map (CloneSource.text host) =
      describedDisks host zoneName serverId entries := by
  refine List.ext_getElem (by simp [describedDisks]) fun i hi _ => ?_
  simp only [describedDisks, List.getElem_map, List.getElem_mapIdx]
  exact text_cloneSource hbase i _

end Sources

theorem cloneSourceDatasets_eq {doc : Document} (hlist : HasList doc)
    (htyped : ∀ e ∈ additionalDisks doc, isTyped e = true) :
    cloneSourceDatasets host zoneName doc = some
      { bootDataset := cloneBootDataset host zoneName doc,
        additional := (additionalDisks doc).mapIdx (cloneSource host zoneName doc) } := by
  have hitems : orElseTruthy (diskField "additional_disks" doc) (.arr []) =
      .arr (additionalDisks doc) := by
    unfold additionalDisks
    cases hfield : diskField "additional_disks" doc with
    | none => rfl
    | some value =>
      by_cases htruthy : value.truthy
      · obtain ⟨items, rfl⟩ := hlist value hfield htruthy
        rfl
      · cases value with
        | arr items => exact absurd rfl htruthy
        | _ => simp [orElseTruthy, htruthy, Json.items?]
  have hnull : Json.null ∉ additionalDisks doc := fun hmem => by
    have := htyped .null hmem
    revert this
    decide
  unfold cloneSourceDatasets
  rw [hitems]
  exact if_neg hnull

end Reader

/-- For a document the wire accepts, in every run whose modifications keep document and disks in
step and leave the boot disk attached, the clone reader tells exactly the attached disks. -/
theorem clone_sources_exact (host : Host) (zoneName : String) (metadata zadm : Document)
    (others : KeyedList String String) (hothers : OtherAttrs others)
    (haccepted : (validateDisksWire host.toText metadata).errors = [])
    (hmap : ∃ disks, metadata.get "disks" = some (.obj disks)) (hlist : HasList metadata)
    (hzadm : NewZoneOutput metadata zadm) (hboot : BootReadable host zoneName metadata)
    (hserver : appliesPrefix host zoneName (some (cloneServerId host metadata)) =
      appliesPrefix host zoneName (createServerId host metadata)) {m : Machine}
    (h : Reaches (zoneModify host zoneName)
      (fun m changes => Fits host zoneName (createServerId host metadata) m changes ∧
        "bootdisk" ∉ changes.removeDisks)
      (created host zoneName metadata others zadm) m) :
    ∃ sources, cloneSourceDatasets host zoneName m.document = some sources ∧
      ReadsAttached host m sources ∧
      ∀ path, m.attrs.get "bootdisk" = some path →
        (snapshotDatasets host sources).Perm (path :: attachedDisks m.attrs) := by
  have haccept := (validateDisksWire_errors host.toText metadata).mp haccepted
  have htyped := typedDisks_of_accepted hmap hlist haccept
  let machine := created host zoneName metadata others zadm
  have hcoherent : Coherent host zoneName (createServerId host metadata) machine :=
    created_coherent hothers htyped
  have hkeeps : Keeps machine machine := by
    obtain ⟨disks, hdisks⟩ := hcoherent.isMap
    exact ⟨editsDisks_refl hdisks, id, rfl⟩
  obtain ⟨hm, hmachine⟩ := h.invariant
    (I := fun m => Coherent host zoneName (createServerId host metadata) m ∧ Keeps machine m)
    ⟨hcoherent, hkeeps⟩
    fun a changes b ha hok hstep => ⟨zoneModify_coherent ha.1 hok.1 hstep,
      ha.2.trans (zoneModify_keeps ha.1 hok.1 hok.2 hstep)⟩
  have hlist' : HasList machine.document := by
    unfold HasList
    rw [created_diskField htyped]
    exact hlist
  have htyped' : ∀ e ∈ additionalDisks machine.document, isTyped e = true := by
    rw [created_additionalDisks htyped]
    exact htyped.typed
  have hsettings : SameServerId m.document metadata := by
    unfold SameServerId
    rw [hmachine.edits.sections "settings" (by decide)]
    exact created_settings hzadm
  have hserverId : cloneServerId host m.document = cloneServerId host metadata := by
    unfold cloneServerId
    unfold SameServerId at hsettings
    rw [hsettings]
  have hbase := buildDatasetPath_clone hsettings (by rw [hserverId, hserver])
  refine ⟨_, cloneSourceDatasets_eq (hmachine.edits.list hlist') (hmachine.typed htyped'),
    and_iff_left_of_imp (fun hreads path => hreads.snapshots) |>.mpr ⟨?_, ?_⟩⟩
  · rw [hmachine.bootdisk]
    refine cloneBootDataset_created hzadm hothers haccept hmap hboot ?_ ?_ hbase
    · rw [hmachine.edits.fields "boot" (by decide), created_diskField htyped]
    · rw [hmachine.edits.sections "bootdisk" (by decide)]
      exact created_bootdiskKey
  · rw [map_cloneSource hbase]
    exact hm.mirrored

section Instances

theorem clone_sources_exact_replaced :
    ∃ sources, cloneSourceDatasets plainHost "web" replacedDisks.document = some sources ∧
      ReadsAttached plainHost replacedDisks sources ∧
      ∀ path, replacedDisks.attrs.get "bootdisk" = some path →
        (snapshotDatasets plainHost sources).Perm (path :: attachedDisks replacedDisks.attrs) :=
  clone_sources_exact plainHost "web" imageAndData [] [("ram", "2G")]
    ⟨by decide, by decide, by decide⟩ (by decide +kernel) ⟨_, rfl⟩
    (fun value hvalue _ => ⟨_, (Option.some.inj hvalue).symm⟩)
    ⟨fun key _ => rfl, fun _ => rfl⟩
    (fun boot hfield _ => .inl (Option.some.inj hfield ▸ rfl)) (by decide)
    (.tail .refl ⟨replacement_fits, by decide⟩ rfl)

def prefixHost : Host := { plainHost with prefixDatasets := true }

def numbered (boot : Json) : Document :=
  ("settings", .obj [("server_id", .str "42")]) :: diskDocument boot []

/-- The reader ignores the type of the boot entry, and a disk added by a modification lies under the
machine's plain name while the reader looks under the prefixed one. -/
theorem clone_sources_exact_fails :
    let metadata := diskDocument (imageDisk "tank/master") []
    let machine := created plainHost "web" metadata [] []
    (validateDisksWire plainHost.toText metadata).errors = [] ∧
      (¬ ∃ sources, cloneSourceDatasets plainHost "web" machine.document = some sources ∧
        ReadsAttached plainHost machine sources) ∧
      (validateDisksWire prefixHost.toText (numbered blankDisk)).errors = [] ∧
      ∃ m, Reaches (zoneModify prefixHost "web") (fun _ _ => True)
          (created prefixHost "web" (numbered blankDisk) [] []) m ∧
        ¬ ∃ sources, cloneSourceDatasets prefixHost "web" m.document = some sources ∧
          ReadsAttached prefixHost m sources := by
  refine ⟨by decide +kernel, ?_, by decide +kernel,
    ⟨[("bootdisk", "rpool/zones/0042--web/boot"), ("disk0", "rpool/zones/web/disk0")],
      ("settings", .obj [("server_id", .str "42")]) ::
        diskDocument blankDisk [addedDisk "disk0"]⟩,
    .tail .refl trivial (l := ⟨[], [blankDisk], []⟩) rfl, ?_⟩
  · rintro ⟨sources, heq, hreads⟩
    rw [← Option.some.inj heq] at hreads
    have hboot := hreads.boot
    revert hboot
    decide +kernel
  · rintro ⟨sources, heq, hreads⟩
    rw [← Option.some.inj heq] at hreads
    have hdisks := hreads.additional
    revert hdisks
    decide +kernel

end Instances

end ZoneweaverAgent.MachineDisks
