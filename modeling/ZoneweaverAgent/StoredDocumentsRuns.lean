import ZoneweaverAgent.StoredDocuments
import ZoneweaverAgent.Transition

/-!
# Stored documents pass the validator

Every document the agent stores is editable: its sections have the shape a `PUT` asks for and the
disk wire accepts it. A create body hands this over, a clone and the writers keep it where they stay
inside the grammar of the entry types.
-/

namespace ZoneweaverAgent.StoredDocuments
open ZoneDocument DiskSpec HostsYaml MachineDisks Transition

section Sections
variable {box : Bool} {d doc : Document}

/-- The entries of a `disks` map the wire accepts. -/
structure SectionAccepted (box : Bool) (d : Document) : Prop where
  boot : ∀ boot, d.get "boot" = some boot → boot.truthy = true → BootAccepted box boot
  additional : ∀ entry ∈ listField "additional_disks" (.obj d), AdditionalAccepted entry
  cdroms : ∀ cdrom ∈ listField "cdroms" (.obj d), CdromAccepted cdrom

def boxOf (doc : Document) : Bool := ((doc.get "settings").map (carries "box")).getD false

theorem boxOf_eq (doc : Document) :
    boxOf doc = ((settingsField "box" doc).map Json.truthy).getD false := by
  unfold boxOf settingsField carries
  cases doc.get "settings" <;> rfl

theorem disksAccepted_of_map (h : doc.get "disks" = some (.obj d)) :
    DisksAccepted doc ↔ SectionAccepted (boxOf doc) d := by
  have hdisks : orElseTruthy (doc.get "disks") (.obj []) = .obj d := by
    rw [h]
    rfl
  constructor
  · intro haccepted
    refine ⟨fun boot hget => haccepted.boot boot (hdisks ▸ hget), ?_, ?_⟩
    · rw [← hdisks]
      exact haccepted.additional
    · rw [← hdisks]
      exact haccepted.cdroms
  · intro hsection
    refine ⟨fun boot hfield => hsection.boot boot (by rwa [hdisks] at hfield), ?_, ?_⟩
    · rw [hdisks]
      exact hsection.additional
    · rw [hdisks]
      exact hsection.cdroms

theorem disksAccepted_of_none (h : doc.get "disks" = none) : DisksAccepted doc := by
  have hdisks : orElseTruthy (doc.get "disks") (.obj []) = .obj [] := by
    rw [h]
    rfl
  refine ⟨fun boot hfield => ?_, ?_, ?_⟩
  · rw [hdisks] at hfield
    cases hfield
  · rw [hdisks]
    exact fun entry hentry => by cases hentry
  · rw [hdisks]
    exact fun cdrom hcdrom => by cases hcdrom

theorem sectionAccepted_nil : SectionAccepted box [] := by
  refine ⟨fun boot hget => ?_, fun entry hentry => ?_, fun cdrom hcdrom => ?_⟩
  · cases hget
  · cases hentry
  · cases hcdrom

theorem listField_set_of_ne {key key' : String} (h : key ≠ key') (value : Json) :
    listField key' (.obj (KeyedList.set d key value)) = listField key' (.obj d) := by
  unfold listField
  rw [Json.field_obj, Json.field_obj, KeyedList.get_set_of_ne d value h]

theorem listField_set_self (key : String) (items : List Json) :
    listField key (.obj (KeyedList.set d key (.arr items))) = items := by
  unfold listField
  rw [Json.field_obj, KeyedList.get_set_self]
  rfl

theorem SectionAccepted.set_boot {box' : Bool} (h : SectionAccepted box' d) {boot : Json}
    (hboot : boot.truthy = true → BootAccepted box boot) :
    SectionAccepted box (KeyedList.set d "boot" boot) := by
  refine ⟨fun boot' hget htruthy => ?_, ?_, ?_⟩
  · rw [KeyedList.get_set_self, Option.some.injEq] at hget
    subst hget
    exact hboot htruthy
  · rw [listField_set_of_ne (by decide)]
    exact h.additional
  · rw [listField_set_of_ne (by decide)]
    exact h.cdroms

theorem SectionAccepted.set_additional (h : SectionAccepted box d) {items : List Json}
    (hitems : ∀ entry ∈ items, AdditionalAccepted entry) :
    SectionAccepted box (KeyedList.set d "additional_disks" (.arr items)) := by
  refine ⟨fun boot hget => ?_, ?_, ?_⟩
  · rw [KeyedList.get_set_of_ne _ _ (by decide)] at hget
    exact h.boot boot hget
  · rw [listField_set_self]
    exact hitems
  · rw [listField_set_of_ne (by decide)]
    exact h.cdroms

end Sections

section Entries
variable {box : Bool} {entries : Document}

theorem textField_set_of_ne {key key' : String} (h : key ≠ key') (value : Json) :
    textField key' (.obj (KeyedList.set entries key value)) = textField key' (.obj entries) := by
  unfold textField
  rw [Json.field_obj, Json.field_obj, KeyedList.get_set_of_ne entries value h]

theorem declares_set_of_ne {key key' : String} (h : key ≠ key') (value : Json) :
    declares key' (.obj (KeyedList.set entries key value)) = declares key' (.obj entries) := by
  unfold declares
  rw [Json.field_obj, Json.field_obj, KeyedList.get_set_of_ne entries value h]

theorem carries_set_self (key : String) (value : Json) :
    carries key (.obj (KeyedList.set entries key value)) = value.truthy := by
  unfold carries
  rw [Json.field_obj, KeyedList.get_set_self]
  rfl

theorem obj_of_textField {key text : String} {value : Json} (h : textField key value = some text) :
    ∃ entries, value = .obj entries := by
  cases value with
  | obj entries => exact ⟨entries, rfl⟩
  | _ => cases h

theorem bootAccepted_obj {boot : Json} (h : BootAccepted box boot) :
    ∃ entries, boot = .obj entries := by
  cases h with
  | template htype _ | image htype _ | blank htype _ | none htype _ => exact obj_of_textField htype

/-- A boot entry that is created from data takes a size. -/
theorem bootAccepted_set_size (h : BootAccepted box (.obj entries))
    (himage : textField "type" (.obj entries) ≠ some "image")
    (hnone : textField "type" (.obj entries) ≠ some "none") {size : String} (hsize : size ≠ "") :
    BootAccepted box (.obj (KeyedList.set entries "size" (.str size))) := by
  have htypeEq : textField "type" (.obj (KeyedList.set entries "size" (.str size))) =
      textField "type" (.obj entries) := textField_set_of_ne (by decide) _
  have hpathEq : declares "path" (.obj (KeyedList.set entries "size" (.str size))) =
      declares "path" (.obj entries) := declares_set_of_ne (by decide) _
  cases h with
  | template htype keys => exact .template (htypeEq.trans htype) ⟨keys.box, hpathEq.trans keys.path⟩
  | image htype keys => exact absurd htype himage
  | blank htype keys =>
    refine .blank (htypeEq.trans htype) ⟨?_, hpathEq.trans keys.path⟩
    rw [carries_set_self]
    simp [Json.truthy, hsize]
  | none htype keys => exact absurd htype hnone

/-- An additional entry with a volume name is created and takes a size. -/
theorem additionalAccepted_set_size {entry : Json} (h : AdditionalAccepted entry)
    (hname : declares "volume_name" entry = true) {size : String} (hsize : size ≠ "") :
    AdditionalAccepted ((setProperty "size" (.str size) entry).getD entry) := by
  cases h with
  | image htype keys =>
    rw [keys.volumeName] at hname
    cases hname
  | blank htype keys =>
    cases entry with
    | obj entries =>
      refine .blank ((textField_set_of_ne (by decide) _).trans htype)
        ⟨?_, (declares_set_of_ne (by decide) _).trans keys.path⟩
      have hcarries : carries "size" (.obj (KeyedList.set entries "size" (.str size))) = true := by
        rw [carries_set_self]
        simp [Json.truthy, hsize]
      exact hcarries
    | _ => cases htype

theorem addDisk_accepted {host : Host} {zoneName : String} {number : ℕ} {disk : Json}
    {addition : Addition} (h : addDisk host zoneName number disk = some addition) :
    AdditionalAccepted addition.entry := by
  unfold addDisk at h
  split_ifs at h with hblank hsize himage hpath
  · simp only [Option.some.injEq] at h
    subst h
    refine .blank rfl ⟨?_, rfl⟩
    unfold carries at hsize ⊢
    cases hfield : disk.field "size" with
    | none => simp [hfield] at hsize
    | some size => simpa [hfield, KeyedList.get] using hsize
  · simp only [Option.some.injEq] at h
    subst h
    refine .image rfl ⟨?_, rfl, rfl⟩
    unfold carries at hpath ⊢
    cases hfield : disk.field "path" with
    | none => simp [hfield] at hpath
    | some path => simpa [hfield, KeyedList.get] using hpath

theorem documentEntries_accepted {host : Host} {zoneName : String} (disks : List Json) :
    ∀ {number : ℕ} {entries : List Json},
      documentEntries host zoneName number disks = some entries →
        ∀ entry ∈ entries, AdditionalAccepted entry := by
  induction disks with
  | nil =>
    intro number entries h entry hentry
    simp only [documentEntries, Option.some.injEq] at h
    rw [← h] at hentry
    cases hentry
  | cons disk rest ih =>
    intro number entries h entry hentry
    simp only [documentEntries, Option.bind_eq_bind, Option.bind_eq_some_iff, Option.pure_def,
      Option.some.injEq] at h
    obtain ⟨addition, haddition, entries', hrest, rfl⟩ := h
    rcases List.mem_cons.mp hentry with rfl | hmem
    · exact addDisk_accepted haddition
    · exact ih hrest entry hmem

end Entries

section Writers
variable {conv : Conversions} {doc doc' : Document}

theorem editSection_eq {key : String} {edit : Option Json → Option (Option Json)}
    (h : editSection key edit doc = some doc') :
    ∃ value, edit (doc.get key) = some value ∧ doc'.get key = value ∧
      ∀ key', key' ≠ key → doc'.get key' = doc.get key' := by
  unfold editSection at h
  obtain ⟨value, hedit, hdoc⟩ := Option.map_eq_some_iff.mp h
  refine ⟨value, hedit, ?_, fun key' hne => ?_⟩
  · cases value with
    | none => exact hdoc ▸ KeyedList.get_erase_self doc key
    | some value => exact hdoc ▸ KeyedList.get_set_self doc key value
  · cases value with
    | none => exact hdoc ▸ KeyedList.get_erase_of_ne doc (Ne.symm hne)
    | some value => exact hdoc ▸ KeyedList.get_set_of_ne doc value (Ne.symm hne)

theorem settingsField_congr (h : doc'.get "settings" = doc.get "settings") (key : String) :
    settingsField key doc' = settingsField key doc := by
  unfold settingsField
  rw [h]

/-- A writer of the `disks` section keeps a document editable if it keeps the section accepted. -/
theorem editDisks_editable (h : Editable conv doc) {edit : Option Json → Option (Option Json)}
    (hdoc : editSection "disks" edit doc = some doc')
    (hedit : ∀ value, edit (doc.get "disks") = some value →
      value = none ∨ ∃ d, value = some (.obj d) ∧ SectionAccepted (boxOf doc) d) :
    Editable conv doc' := by
  obtain ⟨value, hvalue, hget, hothers⟩ := editSection_eq hdoc
  have hsettings := hothers "settings" (by decide)
  have hbox : boxOf doc' = boxOf doc := by
    unfold boxOf
    rw [hsettings]
  have haccepted : DisksAccepted doc' ∧ ∀ v, doc'.get "disks" = some v → ∃ d, v = .obj d := by
    rcases hedit value hvalue with rfl | ⟨d, rfl, hd⟩
    · exact ⟨disksAccepted_of_none hget, fun v hv => by rw [hget] at hv; cases hv⟩
    · refine ⟨(disksAccepted_of_map hget).mpr (hbox ▸ hd), fun v hv => ⟨d, ?_⟩⟩
      rw [hget] at hv
      exact (Option.some.inj hv).symm
  refine ⟨haccepted.1, fun key hkey v hv => ?_, ?_, ?_, ?_⟩
  · by_cases hdisks : key = "disks"
    · subst hdisks
      exact haccepted.2 v hv
    · exact h.maps key hkey v (hothers key hdisks ▸ hv)
  · rw [hothers "networks" (by decide)]
    exact h.networks
  · rw [settingsField_congr hsettings]
    exact h.consoleport
  · rw [settingsField_congr hsettings]
    exact h.vcpus

/-- A writer of the `networks` section keeps a document editable. -/
theorem editNetworks_editable (h : Editable conv doc)
    {edit : Option Json → Option (Option Json)}
    (hdoc : editSection "networks" edit doc = some doc')
    (hedit : ∀ value v, edit (doc.get "networks") = some value → value = some v →
      ∃ items, v = .arr items) : Editable conv doc' := by
  obtain ⟨value, hvalue, hget, hothers⟩ := editSection_eq hdoc
  have hsettings := hothers "settings" (by decide)
  have hdisks := hothers "disks" (by decide)
  refine ⟨disksAccepted_congr hdisks.symm hsettings.symm h.disks, fun key hkey v hv => ?_,
    fun v hv => hedit value v hvalue (hget ▸ hv), ?_, ?_⟩
  · have hne : key ≠ "networks" := by
      rintro rfl
      revert hkey
      decide
    exact h.maps key hkey v (hothers key hne ▸ hv)
  · rw [settingsField_congr hsettings]
    exact h.consoleport
  · rw [settingsField_congr hsettings]
    exact h.vcpus

/-- The `disks` section of an editable document. -/
theorem disks_cases (h : Editable conv doc) :
    doc.get "disks" = none ∨
      ∃ d, doc.get "disks" = some (.obj d) ∧ SectionAccepted (boxOf doc) d := by
  cases hget : doc.get "disks" with
  | none => exact .inl rfl
  | some value =>
    obtain ⟨d, rfl⟩ := h.maps "disks" (by decide) value hget
    exact .inr ⟨d, rfl, (disksAccepted_of_map hget).mp h.disks⟩

theorem listField_eq (key : String) (d : Document) :
    ((KeyedList.get d key).bind Json.items?).getD [] = listField key (.obj d) := rfl

theorem appendDocumentDisks_editable (h : Editable conv doc) {entries : List Json}
    (hentries : ∀ entry ∈ entries, AdditionalAccepted entry)
    (hdoc : appendDocumentDisks entries doc = some doc') : Editable conv doc' := by
  refine editDisks_editable h hdoc fun value hvalue => .inr ?_
  rcases disks_cases h with hnone | ⟨d, hd, hsection⟩
  · rw [hnone] at hvalue
    simp only [orElseTruthy, setProperty, Option.pure_def, Option.bind_eq_bind, Option.bind_some,
      Option.some.injEq] at hvalue
    exact ⟨_, hvalue.symm, sectionAccepted_nil.set_additional hentries⟩
  · rw [hd] at hvalue
    simp only [orElseTruthy, Json.truthy_obj, ↓reduceIte, setProperty, Option.pure_def,
      Option.bind_eq_bind, Option.bind_some, Option.some.injEq] at hvalue
    refine ⟨_, hvalue.symm, hsection.set_additional fun entry hentry => ?_⟩
    rcases List.mem_append.mp hentry with hold | hnew
    · exact hsection.additional entry hold
    · exact hentries entry hnew

theorem removeDocumentDisks_editable (h : Editable conv doc) {datasets : List String}
    (hdoc : removeDocumentDisks datasets doc = some doc') : Editable conv doc' := by
  refine editDisks_editable h hdoc fun value hvalue => ?_
  rcases disks_cases h with hnone | ⟨d, hd, hsection⟩
  · rw [hnone] at hvalue
    exact .inl (Option.some.inj hvalue).symm
  · rw [hd] at hvalue
    dsimp only [Json.field_obj] at hvalue
    cases hitems : (KeyedList.get d "additional_disks").bind Json.items? with
    | none =>
      simp only [hitems, Option.some.injEq] at hvalue
      exact .inr ⟨d, hvalue.symm, hsection⟩
    | some items =>
      simp only [hitems, setProperty, Option.pure_def, Option.bind_eq_bind, Option.bind_some,
        Option.some.injEq] at hvalue
      refine .inr ⟨_, hvalue.symm, hsection.set_additional fun entry hentry => ?_⟩
      have hmem := mem_of_mem_foldl_eraseP hentry
      refine hsection.additional entry ?_
      rw [← listField_eq, hitems]
      exact hmem

/-- Whether a resize finds its entry in the document and the entry cannot take a size. -/
def resizesPlain (diskName : String) (doc : Document) : Bool :=
  diskName = "bootdisk" &&
    (diskField "boot" doc).any fun boot => boot.truthy &&
      (textField "type" boot = some "image" || textField "type" boot = some "none")

theorem resized_accepted {items : List Json} (dataset : String) {size : String} (hsize : size ≠ "")
    (hitems : ∀ entry ∈ items, AdditionalAccepted entry) (i : ℕ)
    (hname : ∀ entry, items[i]? = some entry →
      textField "volume_name" entry = some (leaf dataset)) :
    ∀ entry ∈ items.modify i fun entry => (setProperty "size" (.str size) entry).getD entry,
      AdditionalAccepted entry := by
  intro entry hentry
  obtain ⟨j, hj, rfl⟩ := List.mem_iff_getElem.mp hentry
  rw [List.getElem_modify]
  have hj' : j < items.length := by simpa using hj
  split_ifs with hij
  · subst hij
    refine additionalAccepted_set_size (hitems _ (List.getElem_mem _)) ?_ hsize
    have hvolume := hname items[i] (List.getElem?_eq_getElem hj')
    unfold textField at hvolume
    unfold declares
    obtain ⟨value, hvalue, -⟩ := Option.bind_eq_some_iff.mp hvolume
    rw [hvalue]
    rfl
  · exact hitems _ (List.getElem_mem _)

theorem setDocumentDiskSize_editable (h : Editable conv doc) {diskName dataset size : String}
    (hsize : size ≠ "") (hplain : resizesPlain diskName doc = false)
    (hdoc : setDocumentDiskSize diskName dataset size doc = some doc') : Editable conv doc' := by
  refine editDisks_editable h hdoc fun value hvalue => ?_
  rcases disks_cases h with hnone | ⟨d, hd, hsection⟩
  · rw [hnone] at hvalue
    exact .inl (Option.some.inj hvalue).symm
  · rw [hd] at hvalue
    dsimp only [Json.field_obj] at hvalue
    refine .inr ?_
    rw [if_neg (by simp)] at hvalue
    split_ifs at hvalue with hboot
    · cases hget : KeyedList.get d "boot" with
      | none =>
        simp only [hget, Option.some.injEq] at hvalue
        exact ⟨d, hvalue.symm, hsection⟩
      | some boot =>
        by_cases htruthy : boot.truthy
        · have haccepted := hsection.boot boot hget htruthy
          have hfield : diskField "boot" doc = some boot := by
            rw [diskField, hd]
            exact hget
          simp only [resizesPlain, hboot, hfield, decide_true, Bool.true_and, Option.any_some,
            htruthy, Bool.or_eq_false_iff, decide_eq_false_iff_not] at hplain
          obtain ⟨entries, rfl⟩ := bootAccepted_obj haccepted
          simp only [hget, htruthy, Bool.not_true, Bool.false_eq_true, ↓reduceIte, setProperty,
            Option.pure_def, Option.bind_eq_bind, Option.bind_some, Option.some.injEq] at hvalue
          exact ⟨_, hvalue.symm, hsection.set_boot fun _ =>
            bootAccepted_set_size haccepted hplain.1 hplain.2 hsize⟩
        · simp only [hget, htruthy, Bool.not_false, ↓reduceIte, Option.some.injEq] at hvalue
          exact ⟨d, hvalue.symm, hsection⟩
    · cases hitems : (KeyedList.get d "additional_disks").bind Json.items? with
      | none =>
        simp only [hitems, Option.some.injEq] at hvalue
        exact ⟨d, hvalue.symm, hsection⟩
      | some items =>
        have hadditional : ∀ entry ∈ items, AdditionalAccepted entry := by
          have hlist : listField "additional_disks" (.obj d) = items := by
            rw [← listField_eq, hitems, Option.getD_some]
          exact hlist ▸ hsection.additional
        simp only [hitems, setProperty, Option.pure_def, Option.bind_eq_bind, Option.bind_some,
          Option.some.injEq] at hvalue
        refine ⟨_, hvalue.symm, hsection.set_additional
          (resized_accepted dataset hsize hadditional _ fun entry hentry => ?_)⟩
        obtain ⟨hlt, heq⟩ := List.getElem?_eq_some_iff.mp hentry
        have hfound := List.findIdx_getElem (w := hlt)
        rw [heq] at hfound
        exact of_decide_eq_true hfound

theorem setDocumentNetworkKey_editable (h : Editable conv doc) {index : ℕ} {key : String}
    {value : Json} (hdoc : setDocumentNetworkKey index key value doc = some doc') :
    Editable conv doc' := by
  refine editNetworks_editable h hdoc fun result v hresult hv => ?_
  subst hv
  cases hnetworks : doc.get "networks" with
  | none =>
    rw [hnetworks] at hresult
    cases hresult
  | some networks =>
    obtain ⟨items, rfl⟩ := h.networks networks hnetworks
    rw [hnetworks] at hresult
    dsimp only at hresult
    cases hentry : items[index]? with
    | none =>
      rw [hentry] at hresult
      exact ⟨items, (Option.some.inj (Option.some.inj hresult)).symm⟩
    | some entry =>
      rw [hentry] at hresult
      dsimp only at hresult
      split_ifs at hresult
      · exact ⟨items, (Option.some.inj (Option.some.inj hresult)).symm⟩
      · obtain ⟨entry', -, heq⟩ := Option.map_eq_some_iff.mp hresult
        exact ⟨_, (Option.some.inj heq).symm⟩

theorem removeDocumentNetworkEntry_editable (h : Editable conv doc) {index : ℕ}
    (hdoc : removeDocumentNetworkEntry index doc = some doc') : Editable conv doc' := by
  refine editNetworks_editable h hdoc fun result v hresult hv => ?_
  subst hv
  cases hnetworks : doc.get "networks" with
  | none =>
    rw [hnetworks] at hresult
    cases hresult
  | some networks =>
    obtain ⟨items, rfl⟩ := h.networks networks hnetworks
    rw [hnetworks] at hresult
    dsimp only at hresult
    split_ifs at hresult
    · exact ⟨items, (Option.some.inj (Option.some.inj hresult)).symm⟩
    · cases hrest : items.eraseIdx index with
      | nil =>
        rw [hrest] at hresult
        exact ⟨[], (Option.some.inj (Option.some.inj hresult)).symm⟩
      | cons first rest =>
        rw [hrest] at hresult
        dsimp only at hresult
        split_ifs at hresult
        · exact ⟨_, (Option.some.inj (Option.some.inj hresult)).symm⟩
        · obtain ⟨first', -, heq⟩ := Option.map_eq_some_iff.mp hresult
          exact ⟨_, (Option.some.inj heq).symm⟩

theorem get_mergeKeys (keys settings : Document) {key : String} (hkey : key ∉ keys.keys) :
    KeyedList.get (keys.foldl (fun (acc : Document) e =>
      match e.2 with
      | .null => acc.erase e.1
      | .str "" => acc.erase e.1
      | value => acc.set e.1 value) settings) key = settings.get key := by
  induction keys generalizing settings with
  | nil => rfl
  | cons e rest ih =>
    obtain ⟨name, value⟩ := e
    have hne : name ≠ key := fun heq => hkey (heq ▸ List.mem_cons_self)
    have hrest : key ∉ KeyedList.keys rest := fun hmem => hkey (List.mem_cons_of_mem name hmem)
    rw [List.foldl_cons, ih _ hrest]
    dsimp only
    split
    · exact KeyedList.get_erase_of_ne settings hne
    · exact KeyedList.get_erase_of_ne settings hne
    · exact KeyedList.get_set_of_ne settings _ hne

theorem mergeSettingsKeys_editable (h : Editable conv doc) {keys : Document}
    (hkeys : keys.keys ⊆ credentialFields) (hdoc : mergeSettingsKeys keys doc = some doc') :
    Editable conv doc' := by
  obtain ⟨value, hvalue, hget, hothers⟩ := editSection_eq hdoc
  simp only [Option.some.injEq] at hvalue
  have hfield : ∀ key, key ∉ credentialFields → settingsField key doc' = settingsField key doc := by
    intro key hkey
    unfold settingsField
    rw [hget, ← hvalue, Option.bind_some, Json.field_obj]
    refine (get_mergeKeys keys (spread (doc.get "settings")) fun hmem => hkey (hkeys hmem)).trans ?_
    cases hsettings : doc.get "settings" with
    | none => rfl
    | some settings =>
      obtain ⟨entries, rfl⟩ := h.maps "settings" (by decide) settings hsettings
      rfl
  have hbox : boxOf doc' = boxOf doc := by
    rw [boxOf_eq, boxOf_eq, hfield "box" (by decide)]
  have hdisks := hothers "disks" (by decide)
  refine ⟨?_, fun key hkey v hv => ?_, ?_, ?_, ?_⟩
  · rcases disks_cases h with hnone | ⟨d, hd, hsection⟩
    · exact disksAccepted_of_none (hdisks.trans hnone)
    · exact (disksAccepted_of_map (hdisks.trans hd)).mpr (hbox ▸ hsection)
  · by_cases hsettings : key = "settings"
    · subst hsettings
      rw [hget, ← hvalue, Option.some.injEq] at hv
      exact ⟨_, hv.symm⟩
    · exact h.maps key hkey v (hothers key hsettings ▸ hv)
  · rw [hothers "networks" (by decide)]
    exact h.networks
  · rw [hfield "consoleport" (by decide)]
    exact h.consoleport
  · rw [hfield "vcpus" (by decide)]
    exact h.vcpus

end Writers

/-- A resize of the boot disk only where the boot entry can take a size. -/
def MutationFits (doc : Document) : AgentMutation → Prop
  | .resizeDisk diskName _ _ => resizesPlain diskName doc = false
  | _ => True

theorem mutate_editable {conv : Conversions} {host : Host} {zoneName : String}
    {doc doc' : Document} {mutation : AgentMutation} (h : Editable conv doc)
    (hfits : MutationFits doc mutation) (hdoc : mutation.mutate host zoneName doc = some doc') :
    Editable conv doc' := by
  cases mutation with
  | resizeDisk diskName dataset size =>
    simp only [AgentMutation.mutate] at hdoc
    split_ifs at hdoc with hsize
    exact setDocumentDiskSize_editable h hsize hfits hdoc
  | addDisks number disks =>
    obtain ⟨entries, hentries, happend⟩ := Option.bind_eq_some_iff.mp hdoc
    exact appendDocumentDisks_editable h (documentEntries_accepted disks hentries) happend
  | removeDisks datasets => exact removeDocumentDisks_editable h hdoc
  | setNetworkKey index key value => exact setDocumentNetworkKey_editable h hdoc
  | setNetworkAddress index address => exact setDocumentNetworkKey_editable h hdoc
  | removeNetwork index => exact removeDocumentNetworkEntry_editable h hdoc
  | mergeCredentials keys =>
    simp only [AgentMutation.mutate] at hdoc
    split_ifs at hdoc with hkeys
    exact mergeSettingsKeys_editable h hkeys hdoc

section Creation
variable {conv : Conversions} {metadata zadm : Document}

/-- `zadm` prints no section of the document. -/
def PlainOutput (zadm : Document) : Prop := ∀ key ∈ documentSections, zadm.get key = none

theorem get_storeDocument (hzadm : PlainOutput zadm) {key : String}
    (hkey : key ∈ infrastructureSections) :
    (storeDocument metadata zadm).get key = (metadata.get key).filter Json.truthy := by
  have hsections : ∀ key ∈ infrastructureSections, key ∈ documentSections := by decide
  have hget := KeyedList.get_copyKeys zadm infrastructureSections
    (fun key => (metadata.get key).filter Json.truthy) key
  rwa [if_pos hkey, hzadm key (hsections key hkey), Option.or_none] at hget

theorem get_storeDocument_other (hzadm : PlainOutput zadm) {key : String}
    (hkey : key ∉ infrastructureSections) (hsection : key ∈ documentSections) :
    (storeDocument metadata zadm).get key = none := by
  have hget := KeyedList.get_copyKeys zadm infrastructureSections
    (fun key => (metadata.get key).filter Json.truthy) key
  rwa [if_neg hkey, hzadm key hsection] at hget

/-- What a creation owes the pipeline, which stores its sections unchecked. -/
structure Storable (conv : Conversions) (metadata : Document) : Prop where
  disks : DisksAccepted metadata
  maps : ∀ key ∈ mapSections, key ∈ infrastructureSections → ∀ value,
    metadata.get key = some value → value.truthy = true → ∃ entries, value = .obj entries
  networks : ∀ value, metadata.get "networks" = some value → value.truthy = true →
    ∃ items, value = .arr items
  consoleport : consoleportRangeError conv (settingsField "consoleport" metadata) = none
  vcpus : vcpusCountError conv (settingsField "vcpus" metadata) = none

theorem settingsField_storeDocument (hzadm : PlainOutput zadm) (key : String) :
    settingsField key (storeDocument metadata zadm) = settingsField key metadata := by
  unfold settingsField
  rw [get_storeDocument hzadm (by decide), field_filter_truthy]

theorem storeDocument_editable (hzadm : PlainOutput zadm) (h : Storable conv metadata) :
    Editable conv (storeDocument metadata zadm) := by
  have hbox : boxOf (storeDocument metadata zadm) = boxOf metadata := by
    rw [boxOf_eq, boxOf_eq, settingsField_storeDocument hzadm]
  refine ⟨?_, fun key hkey value hvalue => ?_, fun value hvalue => ?_, ?_, ?_⟩
  · have hget : (storeDocument metadata zadm).get "disks" =
        (metadata.get "disks").filter Json.truthy := get_storeDocument hzadm (by decide)
    cases hdisks : (metadata.get "disks").filter Json.truthy with
    | none => exact disksAccepted_of_none (hget.trans hdisks)
    | some value =>
      obtain ⟨hsome, htruthy⟩ := Option.filter_eq_some_iff.mp hdisks
      obtain ⟨d, rfl⟩ := h.maps "disks" (by decide) (by decide) value hsome htruthy
      exact (disksAccepted_of_map (hget.trans hdisks)).mpr
        (hbox ▸ (disksAccepted_of_map hsome).mp h.disks)
  · by_cases hinfra : key ∈ infrastructureSections
    · rw [get_storeDocument hzadm hinfra] at hvalue
      obtain ⟨hsome, htruthy⟩ := Option.filter_eq_some_iff.mp hvalue
      exact h.maps key hkey hinfra value hsome htruthy
    · have hsections : ∀ key ∈ mapSections, key ∈ documentSections := by decide
      rw [get_storeDocument_other hzadm hinfra (hsections key hkey)] at hvalue
      cases hvalue
  · rw [get_storeDocument hzadm (by decide)] at hvalue
    obtain ⟨hsome, htruthy⟩ := Option.filter_eq_some_iff.mp hvalue
    exact h.networks value hsome htruthy
  · rw [settingsField_storeDocument hzadm]
    exact h.consoleport
  · rw [settingsField_storeDocument hzadm]
    exact h.vcpus

theorem declareNetworkDns_get_of_ne {key : String} (h : key ≠ "networks") (body : Document) :
    (declareNetworkDns body).get key = body.get key := by
  unfold declareNetworkDns
  split
  · exact KeyedList.get_set_of_ne body _ (Ne.symm h)
  · rfl

theorem prepareNetworkSections_get_of_ne (netConfig : ProvisioningNetwork) {key : String}
    (h : key ≠ "networks") (body : Document) :
    (prepareNetworkSections netConfig body).get key = body.get key := by
  unfold prepareNetworkSections
  dsimp only
  rw [declareNetworkDns_get_of_ne h]
  split_ifs
  · unfold attachProvisioningNetwork
    split_ifs
    · rfl
    · exact KeyedList.get_set_of_ne body _ (Ne.symm h)
    · exact KeyedList.get_set_of_ne body _ (Ne.symm h)
  · rfl

/-- Preparation leaves a list a list. -/
theorem prepareNetworkSections_networks (netConfig : ProvisioningNetwork) {body : Document}
    {networks : List Json} (h : body.get "networks" = some (.arr networks)) :
    ∃ items, (prepareNetworkSections netConfig body).get "networks" = some (.arr items) := by
  have hdns : ∀ body : Document, (∃ items, body.get "networks" = some (.arr items)) →
      ∃ items, (declareNetworkDns body).get "networks" = some (.arr items) := by
    rintro body ⟨items, hitems⟩
    unfold declareNetworkDns
    rw [hitems]
    exact ⟨_, KeyedList.get_set_self body _ _⟩
  unfold prepareNetworkSections
  refine hdns _ ?_
  split_ifs
  · unfold attachProvisioningNetwork
    split_ifs
    · exact ⟨networks, h⟩
    · exact ⟨_, KeyedList.get_set_self body _ _⟩
    · exact ⟨_, KeyedList.get_set_self body _ _⟩
  · exact ⟨networks, h⟩

theorem normalizeDisks_eq {body body' : Document} (h : normalizeDisks body = some body')
    (hmap : ∀ value, body.get "disks" = some value → value.truthy = true →
      ∃ entries, value = .obj entries) :
    (∃ d, body'.get "disks" = some (.obj d)) ∧
      ∀ key, key ≠ "disks" → body'.get key = body.get key := by
  obtain ⟨d, hd⟩ : ∃ d, orElseTruthy (body.get "disks") (.obj []) = .obj d := by
    cases hget : body.get "disks" with
    | none => exact ⟨[], rfl⟩
    | some value =>
      by_cases htruthy : value.truthy
      · obtain ⟨entries, rfl⟩ := hmap value hget htruthy
        exact ⟨entries, rfl⟩
      · exact ⟨[], by simp [orElseTruthy, htruthy]⟩
  unfold normalizeDisks at h
  rw [hd] at h
  dsimp only at h
  by_cases hboot : carries "boot" (.obj d) = true
  · rw [if_pos hboot, Option.pure_def, Option.some.injEq] at h
    subst h
    exact ⟨⟨d, KeyedList.get_set_self body _ _⟩,
      fun key hkey => KeyedList.get_set_of_ne body _ (Ne.symm hkey)⟩
  · simp only [if_neg hboot, setProperty, Option.pure_def, Option.bind_eq_bind, Option.bind_some,
      Option.some.injEq] at h
    subst h
    exact ⟨⟨_, KeyedList.get_set_self body _ _⟩,
      fun key hkey => KeyedList.get_set_of_ne body _ (Ne.symm hkey)⟩

theorem enrichBootTemplate_eq {body body' d : Document} {templateDataset : Option String}
    {box : Bool} (h : enrichBootTemplate templateDataset body = some body')
    (hd : body.get "disks" = some (.obj d)) (hsection : SectionAccepted box d) :
    (∃ d', body'.get "disks" = some (.obj d') ∧ SectionAccepted box d') ∧
      ∀ key, key ≠ "disks" → body'.get key = body.get key := by
  unfold enrichBootTemplate at h
  cases templateDataset with
  | none =>
    cases h
    exact ⟨⟨d, hd, hsection⟩, fun _ _ => rfl⟩
  | some dataset =>
    dsimp only at h
    split_ifs at h with hresolves
    · cases h
      exact ⟨⟨d, hd, hsection⟩, fun _ _ => rfl⟩
    · have htype : (diskField "boot" body).bind (textField "type") = some "template" := by
        simp only [resolvesBox, Bool.or_eq_true, Bool.not_eq_true', not_or,
          Bool.not_eq_false, Bool.and_eq_true, decide_eq_true_eq] at hresolves
        exact hresolves.1.1.1
      rw [diskField, hd, Option.bind_some, Json.field_obj] at htype
      obtain ⟨boot, hboot, htype⟩ := Option.bind_eq_some_iff.mp htype
      obtain ⟨entries, rfl⟩ := obj_of_textField htype
      simp only [hd, hboot, Json.field_obj, setProperty, Option.pure_def, Option.bind_eq_bind,
        Option.bind_some, Option.some.injEq] at h
      subst h
      refine ⟨⟨_, KeyedList.get_set_self body _ _, hsection.set_boot fun _ => ?_⟩,
        fun key hkey => KeyedList.get_set_of_ne body _ (Ne.symm hkey)⟩
      cases hsection.boot _ hboot rfl with
      | template _ keys =>
        exact .template ((textField_set_of_ne (by decide) _).trans htype)
          ⟨keys.box, (declares_set_of_ne (by decide) _).trans keys.path⟩
      | image htype' _ | blank htype' _ | none htype' _ =>
        simp [htype] at htype'

/-- What a create body has to meet besides the checks of the wire. -/
structure CreateFits (agent : Agent) (body : Document) : Prop where
  maps : ∀ key ∈ ["disks", "provisioner", "metadata"], ∀ value, body.get key = some value →
    value.truthy = true → ∃ entries, value = .obj entries
  networks : ∀ value, (prepareNetworkSections agent.network body).get "networks" = some value →
    value.truthy = true → ∃ items, value = .arr items

theorem obj_of_carries {key : String} {value : Json} (h : carries key value = true) :
    ∃ entries, value = .obj entries := by
  cases value with
  | obj entries => exact ⟨entries, rfl⟩
  | _ => cases h

theorem obj_of_section {key name : String} {body : Document}
    (h : ((body.get name).map (carries key)).getD false = true) {value : Json}
    (hvalue : body.get name = some value) : ∃ entries, value = .obj entries := by
  rw [hvalue] at h
  exact obj_of_carries h

theorem createdDocument_editable {agent : Agent} {body doc : Document}
    {templateDataset : Option String} (hzadm : PlainOutput zadm) (hfits : CreateFits agent body)
    (h : createdDocument agent body zadm templateDataset = some doc) :
    Editable agent.conv doc := by
  unfold createdDocument at h
  split_ifs at h with hbody
  simp only [Option.bind_eq_bind, Option.bind_eq_some_iff, Option.pure_def,
    Option.some.injEq] at h
  obtain ⟨prepared, hprepare, enriched, henrich, rfl⟩ := h
  simp only [Bool.not_eq_true, Bool.not_eq_false', validateCreateBody, Bool.and_eq_true,
    Option.isNone_iff_eq_none] at hbody
  obtain ⟨⟨⟨⟨hhostname, -⟩, hbrand⟩, hconsoleport⟩, hvcpus⟩ := hbody
  simp only [prepareAndValidateDisks, Option.bind_eq_bind, Option.bind_eq_some_iff] at hprepare
  obtain ⟨normalized, hnormalize, haccept⟩ := hprepare
  split_ifs at haccept with herrors
  simp only [Option.pure_def, Option.some.injEq] at haccept
  subst haccept
  have hbodyGet : ∀ key, key ≠ "networks" →
      (prepareNetworkSections agent.network body).get key = body.get key :=
    fun key hkey => prepareNetworkSections_get_of_ne agent.network hkey body
  obtain ⟨⟨d, hd⟩, hnormalized⟩ := normalizeDisks_eq hnormalize fun value hvalue =>
    hfits.maps "disks" (by decide) value (hbodyGet "disks" (by decide) ▸ hvalue)
  have hsection := (disksAccepted_of_map hd).mp
    ((validateDisksWire_errors agent.host.toText normalized).mp herrors)
  obtain ⟨⟨d', hd', hsection'⟩, henriched⟩ := enrichBootTemplate_eq henrich hd hsection
  have hget : ∀ key, key ≠ "disks" → key ≠ "networks" → enriched.get key = body.get key :=
    fun key hdisks hnetworks =>
      ((henriched key hdisks).trans (hnormalized key hdisks)).trans (hbodyGet key hnetworks)
  have hsettings := hget "settings" (by decide) (by decide)
  have hbox : boxOf enriched = boxOf normalized := by
    unfold boxOf
    rw [henriched "settings" (by decide)]
  refine storeDocument_editable hzadm
    ⟨?_, fun key hkey hinfra value hvalue htruthy => ?_, ?_, ?_, ?_⟩
  · exact (disksAccepted_of_map hd').mpr (hbox ▸ hsection')
  · by_cases hdisks : key = "disks"
    · subst hdisks
      rw [hd', Option.some.injEq] at hvalue
      exact ⟨d', hvalue.symm⟩
    · have hstored : ∀ key ∈ mapSections, key ∈ infrastructureSections → key ≠ "disks" →
          key ≠ "networks" ∧ (key = "settings" ∨ key = "zones" ∨
            key ∈ ["disks", "provisioner", "metadata"]) := by decide
      obtain ⟨hnetworks, hcases⟩ := hstored key hkey hinfra hdisks
      rw [hget key hdisks hnetworks] at hvalue
      rcases hcases with rfl | rfl | hmem
      · exact obj_of_section hhostname hvalue
      · exact obj_of_section hbrand hvalue
      · exact hfits.maps key hmem value hvalue htruthy
  · rw [henriched "networks" (by decide), hnormalized "networks" (by decide)]
    exact hfits.networks
  · rw [settingsField_congr hsettings]
    exact hconsoleport
  · rw [settingsField_congr hsettings]
    exact hvcpus

end Creation

section Clone
variable {agent : Agent} {sourceConfig zadm doc : Document} {request : CloneRequest}

/-- What a clone request has to meet: its settings are not checked, and the entries it builds from
snapshots are templates. -/
structure CloneFits (agent : Agent) (request : CloneRequest) (sourceConfig : Document) : Prop where
  consoleport : consoleportRangeError agent.conv
    ((mergedSettings request sourceConfig).get "consoleport") = none
  vcpus : vcpusCountError agent.conv ((mergedSettings request sourceConfig).get "vcpus") = none
  box : (request.snapshotName.isSome = true ∨
      (diskField "boot" sourceConfig).bind (textField "type") = some "template") →
    carries "box" (.obj (mergedSettings request sourceConfig)) = true
  boot : request.snapshotName.isSome = true → ∀ boot, diskField "boot" sourceConfig = some boot →
    declares "path" boot = false
  additional : request.snapshotName.isSome = true → additionalDisks sourceConfig = []

theorem get_present (key key' : String) (value : Option Json) :
    KeyedList.get (present key value) key' = if key = key' then value else none := by
  cases value with
  | none => simp [present]
  | some value => rw [present, KeyedList.get_cons, KeyedList.get_nil]

theorem templateKeys_nodup (dataset : Option Json) (snapshotName cloneStrategy : String) :
    (templateKeys dataset snapshotName cloneStrategy).keys.Nodup := by
  have hnodup : ["type", "template_dataset", "snapshot_name", "clone_strategy",
      "provenance"].Nodup ∧ ["type", "snapshot_name", "clone_strategy", "provenance"].Nodup := by
    decide
  cases dataset with
  | none => exact hnodup.2
  | some value => exact hnodup.1

theorem templateKeys_get (dataset : Option Json) (snapshotName cloneStrategy : String) :
    (templateKeys dataset snapshotName cloneStrategy).get "type" = some (.str "template") ∧
      (templateKeys dataset snapshotName cloneStrategy).get "path" = none := by
  cases dataset <;> exact ⟨rfl, rfl⟩

/-- An entry that is built from a snapshot is an accepted template. -/
theorem templateEntry_accepted {box : Bool} (hbox : box = true) {base : Document}
    (hpath : base.get "path" = none) (dataset : Option Json)
    (snapshotName cloneStrategy : String) :
    BootAccepted box (.obj (base.setAll (templateKeys dataset snapshotName cloneStrategy))) := by
  have hkeys := templateKeys_get dataset snapshotName cloneStrategy
  refine .template ?_ ⟨hbox, ?_⟩
  · rw [textField, Json.field_obj, KeyedList.get_setAll (templateKeys_nodup _ _ _), hkeys.1]
    rfl
  · rw [declares, Json.field_obj, KeyedList.get_setAll (templateKeys_nodup _ _ _), hkeys.2, hpath]
    rfl

theorem cloneSourceDatasets_nil {source : String} {sources : CloneSources}
    (h : cloneSourceDatasets agent.host source sourceConfig = some sources)
    (hnil : additionalDisks sourceConfig = []) : sources.additional = [] := by
  unfold cloneSourceDatasets at h
  dsimp only at h
  split at h
  · next items hitems =>
    have hempty : items = [] := by
      unfold additionalDisks at hnil
      cases hfield : diskField "additional_disks" sourceConfig with
      | none =>
        rw [hfield] at hitems
        exact (Json.arr.inj hitems).symm
      | some value =>
        rw [hfield] at hitems hnil
        by_cases htruthy : value.truthy
        · simp only [orElseTruthy, htruthy, ↓reduceIte] at hitems
          subst hitems
          exact hnil
        · simp only [orElseTruthy, htruthy, Bool.false_eq_true, ↓reduceIte] at hitems
          exact (Json.arr.inj hitems).symm
    subst hempty
    simp only [List.not_mem_nil, ↓reduceIte, Option.some.injEq] at h
    rw [← h]
    rfl
  · cases h

/-- The entries of the `disks` section of an editable document, which may be missing. -/
theorem disks_entries (h : Editable agent.conv sourceConfig) :
    ∃ d, spread (sourceConfig.get "disks") = d ∧
      diskField "boot" sourceConfig = KeyedList.get d "boot" ∧
      SectionAccepted (boxOf sourceConfig) d := by
  rcases disks_cases h with hnone | ⟨d, hd, hsection⟩
  · refine ⟨[], ?_, ?_, sectionAccepted_nil⟩
    · rw [hnone]
      rfl
    · rw [diskField, hnone]
      rfl
  · refine ⟨d, ?_, ?_, hsection⟩
    · rw [hd]
      rfl
    · rw [diskField, hd]
      rfl

/-- The disks of a clone built from snapshots. -/
theorem cloneDisks_accepted {box : Bool} {info : SnapshotInfo}
    (hsource : Editable agent.conv sourceConfig) (hbox : box = true)
    (hboot : ∀ boot, diskField "boot" sourceConfig = some boot → declares "path" boot = false)
    (hadditional : info.sources.additional = []) (cloneStrategy : String) :
    ∃ d, cloneDisks sourceConfig cloneStrategy info = .obj d ∧ SectionAccepted box d := by
  obtain ⟨d, hspread, hfieldBoot, hsection⟩ := disks_entries hsource
  have hpath : (spread (diskField "boot" sourceConfig)).get "path" = none := by
    cases hfield : diskField "boot" sourceConfig with
    | none => rfl
    | some boot =>
      by_cases htruthy : boot.truthy
      · have hget : KeyedList.get d "boot" = some boot := hfieldBoot ▸ hfield
        obtain ⟨entries, rfl⟩ := bootAccepted_obj (hsection.boot boot hget htruthy)
        have hdeclares := hboot _ hfield
        rw [declares, Option.isSome_eq_false_iff, Option.isNone_iff_eq_none] at hdeclares
        exact hdeclares
      · cases boot with
        | obj _ | arr _ => exact absurd rfl htruthy
        | str s =>
          have hempty : s = "" := by simpa [Json.truthy] using htruthy
          rw [hempty]
          rfl
        | _ => rfl
  refine ⟨_, rfl, ?_⟩
  rw [hspread, hadditional]
  refine SectionAccepted.set_additional (SectionAccepted.set_boot hsection fun _ => ?_)
    fun entry hentry => by cases hentry
  exact templateEntry_accepted hbox hpath _ _ _

/-- The disks a clone's metadata carries are accepted with the settings it is given. -/
theorem cloneDisksSection_accepted (hsource : Editable agent.conv sourceConfig)
    (hfits : CloneFits agent request sourceConfig) {source : String} {info : Option SnapshotInfo}
    (hinfo : resolveCloneDiskSources agent source request sourceConfig = some info) :
    ∃ d, cloneDisksSection request sourceConfig info = some (.obj d) ∧
      SectionAccepted (carries "box" (.obj (mergedSettings request sourceConfig))) d := by
  unfold resolveCloneDiskSources at hinfo
  cases hsnapshot : request.snapshotName with
  | none =>
    rw [hsnapshot] at hinfo
    dsimp only at hinfo
    split_ifs at hinfo with hboot
    cases hinfo
    rcases disks_cases hsource with hnone | ⟨d, hd, hsection⟩
    · rw [diskField, hnone] at hboot
      cases hboot
    · refine ⟨d, hd, ?_, hsection.additional, hsection.cdroms⟩
      intro boot hget htruthy
      cases hsection.boot boot hget htruthy with
      | template htype keys =>
        refine .template htype ⟨hfits.box (.inr ?_), keys.path⟩
        rw [diskField, hd, Option.bind_some, Json.field_obj, hget]
        exact htype
      | image htype keys => exact .image htype keys
      | blank htype keys => exact .blank htype keys
      | none htype keys => exact .none htype keys
  | some snapshotName =>
    have hcurrent : request.snapshotName.isSome = true := by rw [hsnapshot]; rfl
    rw [hsnapshot] at hinfo
    obtain ⟨sources, hsources, hinfo⟩ := Option.bind_eq_some_iff.mp hinfo
    split_ifs at hinfo
    cases hinfo
    have hnil := cloneSourceDatasets_nil hsources (hfits.additional hcurrent)
    obtain ⟨d, hd, hsection⟩ : ∃ d, cloneDisks sourceConfig request.cloneStrategy
        ⟨snapshotName, sources⟩ = .obj d ∧
          SectionAccepted (carries "box" (.obj (mergedSettings request sourceConfig))) d :=
      cloneDisks_accepted hsource (hfits.box (.inl hcurrent)) (hfits.boot hcurrent) hnil
        request.cloneStrategy
    exact ⟨d, congrArg some hd, hsection⟩

/-- The sections of a clone's metadata. -/
theorem buildCloneMetadata_get {info : Option SnapshotInfo} {metadata : Document}
    (h : buildCloneMetadata request sourceConfig info = some metadata) :
    metadata.get "settings" = some (.obj (mergedSettings request sourceConfig)) ∧
      metadata.get "zones" = sourceConfig.get "zones" ∧
      (∃ networks, metadata.get "networks" = some (.arr networks)) ∧
      metadata.get "disks" = cloneDisksSection request sourceConfig info ∧
      metadata.get "provisioner" = sourceConfig.get "provisioner" ∧
      metadata.get "metadata" = none := by
  unfold buildCloneMetadata at h
  split at h
  · rw [Option.some.injEq] at h
    subst h
    simp [KeyedList.get_append, KeyedList.get_cons, get_present]
  · cases h

theorem clonedDocument_editable {source : String} (hsource : Editable agent.conv sourceConfig)
    (hzadm : PlainOutput zadm) (hfits : CloneFits agent request sourceConfig)
    (h : clonedDocument agent source request sourceConfig zadm = some doc) :
    Editable agent.conv doc := by
  unfold clonedDocument at h
  split_ifs at h
  simp only [Option.bind_eq_bind, Option.bind_eq_some_iff, Option.pure_def,
    Option.some.injEq] at h
  obtain ⟨info, hinfo, metadata, hmetadata, rfl⟩ := h
  obtain ⟨hsettings, hzones, ⟨networks, hnetworks⟩, hdisks, hprovisioner, hnone⟩ :=
    buildCloneMetadata_get hmetadata
  obtain ⟨d, hd, hsection⟩ := cloneDisksSection_accepted hsource hfits hinfo
  have hget : ∀ key, key ≠ "networks" →
      (prepareNetworkSections agent.network metadata).get key = metadata.get key :=
    fun key hkey => prepareNetworkSections_get_of_ne agent.network hkey metadata
  have hsettings' := (hget "settings" (by decide)).trans hsettings
  have hdisks' := ((hget "disks" (by decide)).trans hdisks).trans hd
  have hfield : ∀ key, settingsField key (prepareNetworkSections agent.network metadata) =
      (mergedSettings request sourceConfig).get key := by
    intro key
    rw [settingsField, hsettings']
    rfl
  refine storeDocument_editable hzadm ⟨?_, fun key hkey hinfra value hvalue _ => ?_,
    fun value hvalue _ => ?_, ?_, ?_⟩
  · refine (disksAccepted_of_map hdisks').mpr ?_
    rw [boxOf, hsettings']
    exact hsection
  · have hstored : ∀ key ∈ mapSections, key ∈ infrastructureSections → key ≠ "networks" ∧
        (key = "settings" ∨ key = "disks" ∨ key = "metadata" ∨ key = "zones" ∨
          key = "provisioner") := by decide
    obtain ⟨hne, hcases⟩ := hstored key hkey hinfra
    rcases hcases with rfl | rfl | rfl | rfl | rfl
    · rw [hsettings', Option.some.injEq] at hvalue
      exact ⟨_, hvalue.symm⟩
    · rw [hdisks', Option.some.injEq] at hvalue
      exact ⟨_, hvalue.symm⟩
    · rw [hget _ hne, hnone] at hvalue
      cases hvalue
    · rw [hget _ hne, hzones] at hvalue
      exact hsource.maps "zones" (by decide) value hvalue
    · rw [hget _ hne, hprovisioner] at hvalue
      exact hsource.maps "provisioner" (by decide) value hvalue
  · obtain ⟨items, hitems⟩ := prepareNetworkSections_networks agent.network hnetworks
    rw [hitems, Option.some.injEq] at hvalue
    exact ⟨items, hvalue.symm⟩
  · rw [hfield]
    exact hfits.consoleport
  · rw [hfield]
    exact hfits.vcpus

end Clone

/-- What the steps of a run have to meet. -/
def Fits (agent : Agent) (fleet : Fleet) : Label → Prop
  | .create _ body zadm _ => PlainOutput zadm ∧ CreateFits agent body
  | .clone source _ request zadm => PlainOutput zadm ∧
    ∀ sourceConfig, fleet.get source = some sourceConfig → CloneFits agent request sourceConfig
  | .mutate name mutation => ∀ doc, fleet.get name = some doc → MutationFits doc mutation

def AllEditable (agent : Agent) (fleet : Fleet) : Prop :=
  ∀ name doc, fleet.get name = some doc → Editable agent.conv doc

theorem allEditable_set {agent : Agent} {fleet : Fleet} (h : AllEditable agent fleet)
    {name : String} {doc : Document} (hdoc : Editable agent.conv doc) :
    AllEditable agent (KeyedList.set fleet name doc) := by
  intro name' doc' hget
  rw [KeyedList.get_set] at hget
  split_ifs at hget with hname
  · exact Option.some.inj hget ▸ hdoc
  · exact h name' doc' hget

theorem step_editable {agent : Agent} {fleet fleet' : Fleet} {label : Label}
    (h : AllEditable agent fleet) (hfits : Fits agent fleet label)
    (hstep : step agent fleet label = some fleet') : AllEditable agent fleet' := by
  cases label with
  | create name body zadm templateDataset =>
    obtain ⟨doc, hdoc, rfl⟩ := Option.map_eq_some_iff.mp hstep
    exact allEditable_set h (createdDocument_editable hfits.1 hfits.2 hdoc)
  | clone source name request zadm =>
    obtain ⟨sourceConfig, hsource, hclone⟩ := Option.bind_eq_some_iff.mp hstep
    obtain ⟨doc, hdoc, rfl⟩ := Option.map_eq_some_iff.mp hclone
    exact allEditable_set h (clonedDocument_editable (h source sourceConfig hsource) hfits.1
      (hfits.2 sourceConfig hsource) hdoc)
  | mutate name mutation =>
    obtain ⟨doc, hget, hmutate⟩ := Option.bind_eq_some_iff.mp hstep
    obtain ⟨doc', hdoc, rfl⟩ := Option.map_eq_some_iff.mp hmutate
    exact allEditable_set h (mutate_editable (h name doc hget) (hfits doc hget) hdoc)

/-- In every run whose creations, clones and resizes stay inside the grammar, every stored document
passes the validator, and a `PUT` of what a `GET` renders is accepted and leaves it unchanged. -/
theorem stored_documents_accepted (agent : Agent) {fleet : Fleet}
    (h : Reaches (step agent) (Fits agent) [] fleet) (name : String) (doc : Document)
    (hdoc : fleet.get name = some doc) :
    (validateDisksWire agent.host.toText doc).errors = [] ∧
      ∀ yaml : Yaml, yaml.RoundTrips (hostsDocument doc) →
        ∃ stored,
          updateZoneHostsYaml agent.conv yaml (getZoneHostsYaml yaml doc) doc = .ok stored ∧
            ∀ key, KeyedList.get stored key = doc.get key := by
  have hempty : AllEditable agent [] := fun name doc hget => by cases hget
  have heditable := h.invariant hempty (fun _ _ _ ha hok hstep => step_editable ha hok hstep)
    name doc hdoc
  exact ⟨(validateDisksWire_errors agent.host.toText doc).mpr heditable.disks,
    fun yaml hyaml => put_get yaml heditable hyaml⟩

section Instances

def plainAgent : Agent where
  host := { prefixDatasets := false, rootPool := "rpool", toText _ := "[object Object]" }
  toNumber _ := none
  network := { enabled := false, etherstubName := "", netmask := "", hostIp := "" }

def createBody (settings disks : Document) : Document :=
  [("settings", .obj (("hostname", .str "web") :: ("domain", .str "lan") :: settings)),
    ("zones", .obj [("brand", .str "bhyve")]), ("disks", .obj disks)]

def imageBoot : Document :=
  [("boot", .obj [("type", .str "image"), ("path", .str "tank/master")])]

def dataDisk : Document :=
  [("additional_disks", .arr [.obj [("type", .str "blank"), ("size", .str "10G")]])]

def boxSettings : Document := [("box", .str "acme/web")]

def grownDocument : Document :=
  [("settings", .obj [("hostname", .str "web"), ("domain", .str "lan"),
      ("box", .str "acme/web")]),
    ("zones", .obj [("brand", .str "bhyve")]),
    ("disks", .obj [("boot", .obj [("type", .str "template"),
      ("template_dataset", .str "rpool/templates/web"), ("size", .str "40G")])])]

theorem createBody_fits (settings disks : Document) :
    Fits plainAgent [] (.create "web" (createBody settings disks) [] none) := by
  refine ⟨fun key _ => rfl, ⟨fun key hkey value hvalue _ => ?_, fun value hvalue _ => ?_⟩⟩
  · simp only [List.mem_cons, List.not_mem_nil, or_false] at hkey
    rcases hkey with rfl | rfl | rfl
    · exact ⟨disks, (Option.some.inj hvalue).symm⟩
    · cases hvalue
    · cases hvalue
  · cases hvalue

def grownText : String :=
  "settings:\n  hostname: web\n  domain: lan\n  box: acme/web\nzones:\n  brand: bhyve\n" ++
    "disks:\n  boot:\n    type: template\n    template_dataset: rpool/templates/web\n" ++
    "    size: 40G\n"

/-- The library on the document of the grown machine. -/
def grownYaml : Yaml where
  dump _ := grownText
  load text := if text = grownText then .ok (some (.obj (hostsDocument grownDocument)))
    else .error "unexpected end of the stream"

theorem grownMachine_reaches :
    Reaches (step plainAgent) (Fits plainAgent) [] [("web", grownDocument)] := by
  have hcreate : Fits plainAgent []
      (.create "web" (createBody boxSettings []) [] (some "rpool/templates/web")) :=
    createBody_fits boxSettings []
  refine .tail (.tail .refl hcreate rfl) (l := .mutate "web" (.resizeDisk "bootdisk" "" "40G")) ?_
    rfl
  intro doc hdoc
  rw [← Option.some.inj hdoc]
  rfl

theorem stored_documents_accepted_grown :
    (validateDisksWire plainAgent.host.toText grownDocument).errors = [] ∧
      ∃ stored, updateZoneHostsYaml plainAgent.conv grownYaml
          (getZoneHostsYaml grownYaml grownDocument) grownDocument = .ok stored ∧
        ∀ key, KeyedList.get stored key = grownDocument.get key := by
  obtain ⟨herrors, hput⟩ :=
    stored_documents_accepted plainAgent grownMachine_reaches "web" grownDocument rfl
  exact ⟨herrors, hput grownYaml ⟨by simp [grownYaml], by decide +kernel⟩⟩

/-- A resize writes a size onto an image, and a clone from snapshots declares its additional disks
as templates. -/
theorem stored_documents_accepted_fails :
    (∃ fleet, Reaches (step plainAgent) (fun _ _ => True) [] fleet ∧
      (fleet.get "web").map (fun doc => (validateDisksWire plainAgent.host.toText doc).errors) =
        some ["disks.boot.type image does not take size or volume_name " ++
          "(an image attaches as-is)"]) ∧
    ∃ fleet, Reaches (step plainAgent) (fun _ _ => True) [] fleet ∧
      (fleet.get "copy").map (fun doc => (validateDisksWire plainAgent.host.toText doc).errors) =
        some ["disks.additional_disks[1].type template is not a valid additional disk type " ++
          "(image|blank)"] := by
  refine ⟨exists_reaches_of_run (step plainAgent) (fun _ _ => True) []
      [.create "web" (createBody [] imageBoot) [] none,
        .mutate "web" (.resizeDisk "bootdisk" "tank/master" "40G")] ⟨_, rfl, by decide +kernel⟩,
    exists_reaches_of_run (step plainAgent) (fun _ _ => True) []
      [.create "web" (createBody boxSettings dataDisk) [] none,
        .clone "web" "copy" ⟨[("hostname", .str "copy")], [], some "clone_1", "clone", "copy"⟩ []]
      ⟨_, rfl, by decide +kernel⟩⟩

end Instances

end ZoneweaverAgent.StoredDocuments
