import Mathlib.Data.List.Nodup
import Mathlib.Data.List.Perm.Basic
import ZoneweaverAgent.MachineDisks
import ZoneweaverAgent.Transition

/-!
# Document disks mirror the attached disks

The entries of a document and the disks of a zone are compared as bags of datasets. Creation makes
them equal, an addition adds the same dataset to both, and a removal takes it away from both where
the entry it drops is the one that describes the disk.
-/

namespace ZoneweaverAgent.MachineDisks
open ZoneDocument DiskSpec Transition

section Names

theorem diskNumber?_diskName (number : ℕ) : diskNumber? (diskName number) = some number := by
  have hlist : (diskName number).toList = 'd' :: 'i' :: 's' :: 'k' :: Nat.toDigits 10 number := by
    simp [diskName]
  have hdigits : (Nat.toDigits 10 number).all Char.isDigit = true :=
    List.all_eq_true.mpr fun c hc => Nat.isDigit_of_mem_toDigits (by decide) (by decide) hc
  simp [diskNumber?, hlist, hdigits]

theorem diskName_injective {i j : ℕ} (h : diskName i = diskName j) : i = j := by
  have hnumber : diskNumber? (diskName i) = diskNumber? (diskName j) := by rw [h]
  simpa [diskNumber?_diskName] using hnumber

theorem lt_getNextDiskNumber {rows : KeyedList String String} {e : String × String}
    (he : e ∈ rows) {n : ℕ} (hn : diskNumber? e.1 = some n) : n < getNextDiskNumber rows := by
  have hmem : n + 1 ∈ (rows.filterMap fun e => diskNumber? e.1).map (· + 1) :=
    List.mem_map_of_mem (List.mem_filterMap.mpr ⟨e, he, hn⟩)
  have hle : ∀ (l : List ℕ) (a : ℕ), a ∈ l → a ≤ l.foldr max 0 := by
    intro l a ha
    induction l with
    | nil => cases ha
    | cons b rest ih =>
      simp only [List.foldr_cons]
      rcases List.mem_cons.mp ha with heq | hrest
      · omega
      · have := ih hrest
        omega
  exact hle _ _ hmem

end Names

/-- The datasets of the additional disks a zone has attached. -/
def attachedDisks (attrs : KeyedList String String) : List String :=
  (attrs.filter fun e => (diskNumber? e.1).isSome).map Prod.snd

section Mirror
variable (host : Host) (zoneName : String) (serverId : Option Json)

def describedDisks (entries : List Json) : List String :=
  entries.mapIdx (entryDataset host zoneName serverId)

/-- The document has exactly one entry for each attached disk, and it describes the disk. -/
def Mirrored (m : Machine) : Prop :=
  (describedDisks host zoneName serverId (additionalDisks m.document)).Perm (attachedDisks m.attrs)

/-- The test by which a removal picks the entry of a dataset. -/
def isEntryOf (dataset : String) (entry : Json) : Bool :=
  decide (textField "path" entry = some dataset ∨
    textField "volume_name" entry = some (leaf dataset))

/-- An entry that describes the same dataset in every position. -/
def hasOwnName (entry : Json) : Bool :=
  textField "type" entry = some "image" || carries "volume_name" entry

/-- The first entry a removal of the dataset hits describes it, and no entry behind it takes its
name from its position. -/
def RemovalFits (dataset : String) (entries : List Json) : Prop :=
  ∃ earlier entry later, entries = earlier ++ entry :: later ∧
    (∀ e ∈ earlier, isEntryOf dataset e = false) ∧ isEntryOf dataset entry = true ∧
    entryDataset host zoneName serverId earlier.length entry = dataset ∧
    ∀ e ∈ later, hasOwnName e = true

/-- Each removed disk has a row and its removal fits the entries left by the ones before, and a
removed attr that is no disk hits no entry. -/
def RemovalsFit (rows : KeyedList String String) : List String → List Json → Prop
  | [], _ => True
  | name :: names, entries =>
    match removedPath rows name with
    | none => diskNumber? name = none ∧ RemovalsFit rows names entries
    | some dataset =>
      (if (diskNumber? name).isSome then RemovalFits host zoneName serverId dataset entries
        else ∀ e ∈ entries, isEntryOf dataset e = false) ∧
      RemovalsFit rows names (entries.eraseP (isEntryOf dataset))

/-- What the steps of a run have to meet. -/
structure Fits (m : Machine) (changes : DiskChanges) : Prop where
  rows : ∀ name ∈ m.attrs.keys, (diskNumber? name).isSome = true → name ∉ changes.rendered
  unprefixed : (∃ disk ∈ changes.addDisks, textField "type" disk = some "blank") →
    appliesPrefix host zoneName serverId = false
  removals : ∀ added,
    addDisks host zoneName (attrRows m changes) changes.addDisks m = some added →
      RemovalsFit host zoneName serverId (attrRows m changes) changes.removeDisks
        (additionalDisks added.document)

variable {host zoneName serverId}

theorem entryDataset_of_own {entry : Json} (h : hasOwnName entry = true) (i j : ℕ) :
    entryDataset host zoneName serverId i entry = entryDataset host zoneName serverId j entry := by
  unfold entryDataset
  by_cases himage : textField "type" entry = some "image"
  · rw [if_pos himage, if_pos himage]
  · have hcarries : carries "volume_name" entry = true := by
      simpa [hasOwnName, himage] using h
    have hname : ∀ fallback fallback', host.orText "volume_name" fallback entry =
        host.orText "volume_name" fallback' entry := by
      intro fallback fallback'
      unfold carries at hcarries
      unfold Host.orText orElseTruthy
      cases hfield : entry.field "volume_name" with
      | none => simp [hfield] at hcarries
      | some v =>
        have htruthy : v.truthy = true := by simpa [hfield] using hcarries
        simp [htruthy]
    rw [if_neg himage, if_neg himage]
    unfold volumePath
    rw [hname]

theorem describedDisks_append (entries later : List Json)
    (h : ∀ e ∈ later, hasOwnName e = true) :
    describedDisks host zoneName serverId (entries ++ later) =
      describedDisks host zoneName serverId entries ++
        describedDisks host zoneName serverId later := by
  unfold describedDisks
  rw [List.mapIdx_append]
  congr 1
  refine List.ext_getElem (by simp) fun i hi _ => ?_
  simp only [List.getElem_mapIdx]
  exact entryDataset_of_own (h _ (List.getElem_mem _)) _ _

/-- A fitting removal takes the dataset away from the described ones. -/
theorem describedDisks_removal {dataset : String} {entries : List Json}
    (h : RemovalFits host zoneName serverId dataset entries) :
    (describedDisks host zoneName serverId entries).Perm
      (dataset :: describedDisks host zoneName serverId
        (entries.eraseP (isEntryOf dataset))) := by
  obtain ⟨earlier, entry, later, rfl, hearlier, hentry, hdataset, hown⟩ := h
  have herase : (earlier ++ entry :: later).eraseP (isEntryOf dataset) = earlier ++ later := by
    rw [List.eraseP_append_right (entry :: later) (fun e he => by simp [hearlier e he]),
      List.eraseP_cons_of_pos hentry]
  have hsplit : earlier ++ entry :: later = (earlier ++ [entry]) ++ later := by simp
  have hentry' : describedDisks host zoneName serverId (earlier ++ [entry]) =
      describedDisks host zoneName serverId earlier ++ [dataset] := by
    simp [describedDisks, List.mapIdx_append, hdataset]
  rw [herase, hsplit, describedDisks_append _ _ hown, describedDisks_append _ _ hown, hentry',
    List.append_assoc]
  exact List.perm_middle

end Mirror

section Documents

/-- `additional_disks` is a list or counts as absent. -/
def HasList (doc : Document) : Prop :=
  ∀ value, diskField "additional_disks" doc = some value → value.truthy = true →
    ∃ items, value = .arr items

/-- `doc'` is `doc` with these additional entries in its `disks` map. -/
structure EditsDisks (doc doc' : Document) (entries : List Json) : Prop where
  isMap : ∃ disks, doc'.get "disks" = some (.obj disks)
  additional : additionalDisks doc' = entries
  list : HasList doc → HasList doc'
  fields : ∀ key, key ≠ "additional_disks" → diskField key doc' = diskField key doc
  sections : ∀ key, key ≠ "disks" → doc'.get key = doc.get key

variable {doc doc' : Document} {disks : Document}

theorem editsDisks_refl (h : doc.get "disks" = some (.obj disks)) :
    EditsDisks doc doc (additionalDisks doc) :=
  ⟨⟨disks, h⟩, rfl, id, fun _ _ => rfl, fun _ _ => rfl⟩

theorem EditsDisks.trans {doc'' : Document} {entries entries' : List Json}
    (h : EditsDisks doc doc' entries) (h' : EditsDisks doc' doc'' entries') :
    EditsDisks doc doc'' entries' :=
  ⟨h'.isMap, h'.additional, fun hlist => h'.list (h.list hlist),
    fun key hkey => (h'.fields key hkey).trans (h.fields key hkey),
    fun key hkey => (h'.sections key hkey).trans (h.sections key hkey)⟩

theorem editsDisks_set (h : doc.get "disks" = some (.obj disks)) (entries : List Json) :
    EditsDisks doc
      (doc.set "disks" (.obj (KeyedList.set disks "additional_disks" (.arr entries)))) entries := by
  have hget : KeyedList.get (doc.set "disks"
      (.obj (KeyedList.set disks "additional_disks" (.arr entries)))) "disks" =
        some (.obj (KeyedList.set disks "additional_disks" (.arr entries))) :=
    KeyedList.get_set_self doc _ _
  refine ⟨⟨_, hget⟩, ?_, fun _ value hvalue _ => ?_, fun key hkey => ?_, fun key hkey => ?_⟩
  · simp [additionalDisks, diskField, hget, Json.items?]
  · rw [diskField, hget, Option.bind_some, Json.field_obj, KeyedList.get_set_self,
      Option.some.injEq] at hvalue
    exact ⟨entries, hvalue.symm⟩
  · simp only [diskField, hget, h, Option.bind_some, Json.field_obj]
    exact KeyedList.get_set_of_ne _ _ (Ne.symm hkey)
  · exact KeyedList.get_set_of_ne _ _ (Ne.symm hkey)

theorem additionalDisks_eq (h : doc.get "disks" = some (.obj disks)) :
    additionalDisks doc = ((KeyedList.get disks "additional_disks").bind Json.items?).getD [] := by
  simp [additionalDisks, diskField, h]

theorem appendDocumentDisks_edits (h : doc.get "disks" = some (.obj disks)) (entries : List Json)
    (happend : appendDocumentDisks entries doc = some doc') :
    EditsDisks doc doc' (additionalDisks doc ++ entries) := by
  have heq : appendDocumentDisks entries doc = some (doc.set "disks" (.obj (KeyedList.set disks
      "additional_disks" (.arr (additionalDisks doc ++ entries))))) := by
    simp [appendDocumentDisks, editSection, h, orElseTruthy, setProperty, additionalDisks_eq h]
  rw [heq, Option.some.injEq] at happend
  rw [← happend]
  exact editsDisks_set h _

theorem removeDocumentDisks_edits (h : doc.get "disks" = some (.obj disks))
    (datasets : List String) (hremove : removeDocumentDisks datasets doc = some doc') :
    EditsDisks doc doc' (datasets.foldl (fun acc dataset => acc.eraseP (isEntryOf dataset))
      (additionalDisks doc)) := by
  rw [additionalDisks_eq h]
  unfold removeDocumentDisks editSection at hremove
  rw [h] at hremove
  dsimp only [Json.field_obj] at hremove
  cases hitems : (KeyedList.get disks "additional_disks").bind Json.items? with
  | none =>
    simp only [hitems, Option.map_some, Option.some.injEq] at hremove
    have hempty : datasets.foldl (fun (acc : List Json) dataset =>
        acc.eraseP (isEntryOf dataset)) [] = [] := by
      induction datasets with
      | nil => rfl
      | cons dataset rest ih => simpa using ih
    rw [Option.getD_none, hempty, ← hremove]
    have hget : KeyedList.get (doc.set "disks" (.obj disks)) "disks" = some (.obj disks) :=
      KeyedList.get_set_self doc _ _
    refine ⟨⟨disks, hget⟩, ?_, fun hlist value hvalue => hlist value ?_, fun key _ => ?_,
      fun key hkey => ?_⟩
    · rw [additionalDisks_eq hget, hitems, Option.getD_none]
    · simpa only [diskField, hget, h] using hvalue
    · simp only [diskField, hget, h]
    · exact KeyedList.get_set_of_ne _ _ (Ne.symm hkey)
  | some items =>
    simp only [hitems, setProperty, Option.pure_def, Option.bind_eq_bind, Option.bind_some,
      Option.map_some, Option.some.injEq] at hremove
    rw [← hremove]
    exact editsDisks_set h _

end Documents

section Additions
variable {host : Host} {zoneName : String} {serverId : Option Json}

theorem text_str (host : Host) (s : String) : host.text (.str s) = s := rfl

theorem orElseTruthy_truthy (value : Option Json) {s : String} (hs : s ≠ "") :
    (orElseTruthy value (.str s)).truthy = true := by
  have hfallback : (Json.str s).truthy = true := by simp [Json.truthy, hs]
  cases value with
  | none => exact hfallback
  | some v =>
    by_cases hv : v.truthy
    · simp [orElseTruthy, hv]
    · simp [orElseTruthy, hv, hfallback]

theorem diskName_ne_empty (number : ℕ) : diskName number ≠ "" := by
  intro h
  have hnumber := diskNumber?_diskName number
  rw [h] at hnumber
  cases hnumber

theorem orElseTruthy_of_truthy {v : Json} (h : v.truthy = true) (fallback : Json) :
    orElseTruthy (some v) fallback = v := by
  simp [orElseTruthy, h]

theorem orElseTruthy_idem (value : Option Json) (fallback : Json) :
    orElseTruthy (some (orElseTruthy value fallback)) fallback = orElseTruthy value fallback := by
  generalize hv : orElseTruthy value fallback = v
  by_cases htruthy : v.truthy
  · simp [orElseTruthy, htruthy]
  · cases value with
    | none => simp_all [orElseTruthy]
    | some w =>
      by_cases hw : w.truthy
      · simp only [orElseTruthy, hw, ↓reduceIte] at hv
        exact absurd (hv ▸ hw) htruthy
      · simp only [orElseTruthy, hw, Bool.false_eq_true, ↓reduceIte] at hv
        simp [orElseTruthy, htruthy, hv]

/-- The entry of a new disk describes it in every position. -/
theorem addDisk_described {number : ℕ} {disk : Json} {addition : Addition}
    (h : addDisk host zoneName number disk = some addition)
    (hpfx : textField "type" disk = some "blank" →
      appliesPrefix host zoneName serverId = false) :
    hasOwnName addition.entry = true ∧
      ∀ index, entryDataset host zoneName serverId index addition.entry = addition.diskPath := by
  unfold addDisk at h
  split_ifs at h with hblank hsize himage hpath
  · simp only [Option.some.injEq] at h
    subst h
    have hvolume := orElseTruthy_truthy (disk.field "volume_name") (diskName_ne_empty number)
    refine ⟨?_, fun index => ?_⟩
    · simp [hasOwnName, carries, KeyedList.get, hvolume]
    · simp [entryDataset, textField, KeyedList.get, Json.text?, volumePath, buildDatasetPath,
        hpfx hblank, Host.orText, orElseTruthy_idem, orElseTruthy_of_truthy hvolume,
        String.append_assoc]
  · simp only [Option.some.injEq] at h
    subst h
    refine ⟨rfl, fun index => rfl⟩

end Additions

section Attrs
variable {attrs attrs' : KeyedList String String} {name value : String}

theorem attachedDisks_append (attrs attrs' : KeyedList String String) :
    attachedDisks (attrs ++ attrs') = attachedDisks attrs ++ attachedDisks attrs' := by
  simp [attachedDisks]

theorem attachedDisks_cons_diskName (number : ℕ) (value : String)
    (attrs : KeyedList String String) :
    attachedDisks ((diskName number, value) :: attrs) = value :: attachedDisks attrs := by
  simp [attachedDisks, diskNumber?_diskName]

theorem addAttr_eq (h : addAttr attrs name value = some attrs') :
    attrs' = attrs ++ [(name, value)] ∧ (attrs.keys.Nodup → attrs'.keys.Nodup) := by
  unfold addAttr at h
  split_ifs at h with hhas
  rw [Option.some.injEq] at h
  subst h
  refine ⟨rfl, fun hnodup => ?_⟩
  have hnotMem : name ∉ attrs.keys := fun hmem => hhas ((KeyedList.has_iff_mem_keys _ _).mpr hmem)
  have hkeys : KeyedList.keys (attrs ++ [(name, value)]) = attrs.keys ++ [name] := by
    simp [KeyedList.keys]
  rw [hkeys]
  refine List.nodup_append.mpr ⟨hnodup, List.pairwise_singleton _ name, fun a ha b hb => ?_⟩
  rw [List.mem_singleton.mp hb]
  exact fun heq => hnotMem (heq ▸ ha)

theorem removeAttr_eq (h : removeAttr attrs name = some attrs') :
    attrs' = attrs.erase name ∧ ∃ value, attrs.get name = some value := by
  unfold removeAttr at h
  split_ifs at h with hhas
  rw [Option.some.injEq] at h
  exact ⟨h.symm, Option.isSome_iff_exists.mp hhas⟩

theorem attachedDisks_erase (hnodup : attrs.keys.Nodup) (hget : attrs.get name = some value)
    (hname : (diskNumber? name).isSome = true) :
    (attachedDisks attrs).Perm (value :: attachedDisks (attrs.erase name)) := by
  have hperm := ((KeyedList.perm_cons_erase hnodup hget).filter
    fun e => (diskNumber? e.1).isSome).map Prod.snd
  simpa [attachedDisks, hname] using hperm

theorem attachedDisks_erase_other (hname : diskNumber? name = none) :
    attachedDisks (attrs.erase name) = attachedDisks attrs := by
  unfold attachedDisks KeyedList.erase
  rw [List.filter_filter]
  congr 1
  refine List.filter_congr fun e _ => ?_
  by_cases he : e.1 = name
  · simp [he, hname]
  · simp [he]

/-- Disk names are added to the attrs and other names stay. -/
structure Attaches (attrs attrs' added : KeyedList String String) : Prop where
  append : attrs' = attrs ++ added
  nodup : attrs.keys.Nodup → attrs'.keys.Nodup
  disks : ∀ e ∈ added, (diskNumber? e.1).isSome = true

end Attrs

section Batches
variable {host : Host} {zoneName : String} {serverId : Option Json}

theorem attachDisks_spec (disks : List Json)
    (hpfx : (∃ disk ∈ disks, textField "type" disk = some "blank") →
      appliesPrefix host zoneName serverId = false) :
    ∀ {number : ℕ} {attrs attrs' : KeyedList String String} {entries : List Json},
      attachDisks host zoneName number disks attrs = some (attrs', entries) →
        (∃ added, Attaches attrs attrs' added ∧
          attachedDisks added = describedDisks host zoneName serverId entries) ∧
        ∀ e ∈ entries, hasOwnName e = true := by
  induction disks with
  | nil =>
    intro number attrs attrs' entries h
    simp only [attachDisks, Option.some.injEq, Prod.mk.injEq] at h
    obtain ⟨rfl, rfl⟩ := h
    exact ⟨⟨[], ⟨(List.append_nil _).symm, id, fun e he => by cases he⟩, rfl⟩,
      fun e he => by cases he⟩
  | cons disk rest ih =>
    intro number attrs attrs' entries h
    simp only [attachDisks, Option.bind_eq_bind, Option.bind_eq_some_iff, Option.pure_def,
      Option.some.injEq, Prod.mk.injEq, Prod.exists] at h
    obtain ⟨addition, haddition, attrs₁, hadd, attrs₂, entries₂, hrest, rfl, rfl⟩ := h
    obtain ⟨rfl, hnodup⟩ := addAttr_eq hadd
    obtain ⟨hown, hdataset⟩ := addDisk_described haddition
      fun hblank => hpfx ⟨disk, List.mem_cons_self, hblank⟩
    obtain ⟨⟨added, hattaches, hdescribed⟩, hrestOwn⟩ :=
      ih (fun ⟨d, hd, hblank⟩ => hpfx ⟨d, List.mem_cons_of_mem _ hd, hblank⟩) hrest
    refine ⟨⟨(diskName number, addition.diskPath) :: added, ⟨?_, ?_, ?_⟩, ?_⟩, ?_⟩
    · rw [hattaches.append, List.append_assoc, List.singleton_append]
    · exact fun h => hattaches.nodup (hnodup h)
    · intro e he
      rcases List.mem_cons.mp he with rfl | hmem
      · rw [diskNumber?_diskName]
        rfl
      · exact hattaches.disks e hmem
    · rw [attachedDisks_cons_diskName, hdescribed]
      have hsplit : describedDisks host zoneName serverId (addition.entry :: entries₂) =
          describedDisks host zoneName serverId [addition.entry] ++
            describedDisks host zoneName serverId entries₂ :=
        describedDisks_append [addition.entry] entries₂ hrestOwn
      rw [hsplit]
      simp [describedDisks, hdataset]
    · intro e he
      rcases List.mem_cons.mp he with rfl | hmem
      · exact hown
      · exact hrestOwn e hmem

/-- Where every removal fits, the attrs and the entries lose the same datasets. -/
theorem removals_mirrored (rows : KeyedList String String) (names : List String) :
    ∀ {attrs attrs' : KeyedList String String} {entries : List Json},
      names.foldlM removeAttr attrs = some attrs' →
      attrs.keys.Nodup →
      (∀ name value value', rows.get name = some value → attrs.get name = some value' →
        value = value') →
      RemovalsFit host zoneName serverId rows names entries →
      (describedDisks host zoneName serverId entries).Perm (attachedDisks attrs) →
      (describedDisks host zoneName serverId ((names.filterMap (removedPath rows)).foldl
        (fun acc dataset => acc.eraseP (isEntryOf dataset)) entries)).Perm
          (attachedDisks attrs') := by
  induction names with
  | nil =>
    intro attrs attrs' entries h _ _ _ hmirrored
    rw [List.foldlM_nil, Option.pure_def, Option.some.injEq] at h
    rw [← h]
    exact hmirrored
  | cons name rest ih =>
    intro attrs attrs' entries h hnodup hrows hfit hmirrored
    rw [List.foldlM_cons, Option.bind_eq_bind, Option.bind_eq_some_iff] at h
    obtain ⟨attrs₁, hremove, hrest⟩ := h
    obtain ⟨rfl, value, hvalue⟩ := removeAttr_eq hremove
    have hnodup₁ := KeyedList.nodup_keys_erase hnodup name
    have hrows₁ : ∀ name' value value', rows.get name' = some value →
        (attrs.erase name).get name' = some value' → value = value' := by
      intro name' value value' hrow hget
      exact hrows name' value value' hrow (KeyedList.get_erase_eq_some hget).2
    rw [RemovalsFit] at hfit
    rw [List.filterMap_cons]
    cases hpath : removedPath rows name with
    | none =>
      rw [hpath] at hfit
      refine ih hrest hnodup₁ hrows₁ hfit.2 ?_
      rw [attachedDisks_erase_other hfit.1]
      exact hmirrored
    | some dataset =>
      rw [hpath] at hfit
      obtain ⟨hhit, hfits⟩ := hfit
      have hrow : rows.get name = some dataset := by
        unfold removedPath at hpath
        exact (Option.filter_eq_some_iff.mp hpath).1
      have hdataset : attrs.get name = some dataset := by
        rw [hvalue, hrows name dataset value hrow hvalue]
      simp only [List.foldl_cons]
      refine ih hrest hnodup₁ hrows₁ hfits ?_
      by_cases hname : (diskNumber? name).isSome
      · rw [if_pos hname] at hhit
        have hdescribed := (describedDisks_removal hhit).symm.trans hmirrored
        exact (hdescribed.trans (attachedDisks_erase hnodup hdataset hname)).cons_inv
      · rw [if_neg hname] at hhit
        have herase : entries.eraseP (isEntryOf dataset) = entries :=
          List.eraseP_of_forall_not fun e he => by simp [hhit e he]
        have hnone : diskNumber? name = none := by simpa using hname
        rw [herase, attachedDisks_erase_other hnone]
        exact hmirrored

end Batches

section Steps
variable (host : Host) (zoneName : String) (serverId : Option Json)

/-- What a fitting run keeps. -/
structure Coherent (m : Machine) : Prop where
  isMap : ∃ disks, m.document.get "disks" = some (.obj disks)
  nodup : m.attrs.keys.Nodup
  mirrored : Mirrored host zoneName serverId m

variable {host zoneName serverId} {m m' : Machine} {changes : DiskChanges}

theorem addDisks_eq {rows : KeyedList String String} {disks : List Json}
    (h : addDisks host zoneName rows disks m = some m') :
    m' = m ∨ ∃ entries,
      attachDisks host zoneName (getNextDiskNumber rows) disks m.attrs = some (m'.attrs, entries) ∧
        appendDocumentDisks entries m.document = some m'.document := by
  unfold addDisks at h
  by_cases hdisks : disks = []
  · simp only [hdisks, ↓reduceIte, Option.pure_def, Option.some.injEq] at h
    exact .inl h.symm
  · simp only [hdisks, ↓reduceIte, Option.bind_eq_bind, Option.bind_eq_some_iff, Option.pure_def,
      Option.some.injEq, Prod.exists] at h
    obtain ⟨attrs, entries, hattach, document, happend, rfl⟩ := h
    exact .inr ⟨entries, hattach, happend⟩

theorem removeDisks_eq {rows : KeyedList String String} {names : List String}
    (h : removeDisks rows names m = some m') :
    names.foldlM removeAttr m.attrs = some m'.attrs ∧
      (names.filterMap (removedPath rows) = [] ∧ m'.document = m.document ∨
        removeDocumentDisks (names.filterMap (removedPath rows)) m.document =
          some m'.document) := by
  unfold removeDisks at h
  by_cases hnames : names = []
  · simp only [hnames, ↓reduceIte, Option.pure_def, Option.some.injEq] at h
    subst h hnames
    exact ⟨rfl, .inl ⟨rfl, rfl⟩⟩
  · simp only [hnames, ↓reduceIte, Option.bind_eq_bind, Option.bind_eq_some_iff] at h
    obtain ⟨attrs, hattrs, hdoc⟩ := h
    by_cases hpaths : names.filterMap (removedPath rows) = []
    · simp only [hpaths, ↓reduceIte, Option.pure_def, Option.some.injEq] at hdoc
      subst hdoc
      exact ⟨hattrs, .inl ⟨hpaths, rfl⟩⟩
    · simp only [hpaths, ↓reduceIte, Option.bind_eq_some_iff, Option.pure_def,
        Option.some.injEq] at hdoc
      obtain ⟨document, hremove, rfl⟩ := hdoc
      exact ⟨hattrs, .inr hremove⟩

theorem zoneModify_eq (h : zoneModify host zoneName m changes = some m') :
    ∃ added, addDisks host zoneName (attrRows m changes) changes.addDisks m = some added ∧
      removeDisks (attrRows m changes) changes.removeDisks added = some m' := by
  simpa [zoneModify, Option.bind_eq_some_iff] using h

theorem addDisks_edits {rows : KeyedList String String} {disks : List Json}
    (hmap : ∃ section_, m.document.get "disks" = some (.obj section_))
    (h : addDisks host zoneName rows disks m = some m') :
    EditsDisks m.document m'.document (additionalDisks m'.document) := by
  obtain ⟨section_, hsection⟩ := hmap
  rcases addDisks_eq h with rfl | ⟨entries, -, happend⟩
  · exact editsDisks_refl hsection
  · have hedits := appendDocumentDisks_edits hsection entries happend
    rw [hedits.additional]
    exact hedits

theorem removeDisks_edits {rows : KeyedList String String} {names : List String}
    (hmap : ∃ section_, m.document.get "disks" = some (.obj section_))
    (h : removeDisks rows names m = some m') :
    EditsDisks m.document m'.document ((names.filterMap (removedPath rows)).foldl
      (fun acc dataset => acc.eraseP (isEntryOf dataset)) (additionalDisks m.document)) := by
  obtain ⟨section_, hsection⟩ := hmap
  obtain ⟨-, ⟨hpaths, hdoc⟩ | hremove⟩ := removeDisks_eq h
  · rw [hpaths, hdoc]
    exact editsDisks_refl hsection
  · exact removeDocumentDisks_edits hsection _ hremove

theorem foldlM_removeAttr_nodup {names : List String} :
    ∀ {attrs attrs' : KeyedList String String}, names.foldlM removeAttr attrs = some attrs' →
      attrs.keys.Nodup → attrs'.keys.Nodup := by
  induction names with
  | nil =>
    intro attrs attrs' h hnodup
    rw [List.foldlM_nil, Option.pure_def, Option.some.injEq] at h
    exact h ▸ hnodup
  | cons name rest ih =>
    intro attrs attrs' h hnodup
    rw [List.foldlM_cons, Option.bind_eq_bind, Option.bind_eq_some_iff] at h
    obtain ⟨attrs₁, hremove, hrest⟩ := h
    obtain ⟨rfl, -⟩ := removeAttr_eq hremove
    exact ih hrest (KeyedList.nodup_keys_erase hnodup name)

/-- The rows a run reads tell the values of attrs that are still there after its additions. -/
theorem attrRows_agree {added : KeyedList String String}
    (hadded : (m.attrs ++ added).keys.Nodup) {name value value' : String}
    (hrow : (attrRows m changes).get name = some value)
    (hget : KeyedList.get (m.attrs ++ added) name = some value') : value = value' := by
  have hmem : (name, value) ∈ m.attrs := (List.mem_filter.mp (KeyedList.mem_of_get hrow)).1
  have hget' := KeyedList.get_of_mem hadded (List.mem_append_left added hmem)
  rw [hget'] at hget
  exact Option.some.inj hget

theorem addDisks_coherent {rows : KeyedList String String} {disks : List Json}
    (hpfx : (∃ disk ∈ disks, textField "type" disk = some "blank") →
      appliesPrefix host zoneName serverId = false)
    (hm : Coherent host zoneName serverId m)
    (h : addDisks host zoneName rows disks m = some m') :
    Coherent host zoneName serverId m' ∧ ∃ added, Attaches m.attrs m'.attrs added := by
  have hedits := addDisks_edits hm.isMap h
  rcases addDisks_eq h with rfl | ⟨entries, hattach, happend⟩
  · exact ⟨hm, [], (List.append_nil _).symm, id, fun e he => by cases he⟩
  · obtain ⟨⟨added, hattaches, hdescribed⟩, hown⟩ :=
      attachDisks_spec disks hpfx hattach
    obtain ⟨section_, hsection⟩ := hm.isMap
    refine ⟨⟨hedits.isMap, hattaches.nodup hm.nodup, ?_⟩, added, hattaches⟩
    have hmirrored : (describedDisks host zoneName serverId
        (additionalDisks m.document)).Perm (attachedDisks m.attrs) := hm.mirrored
    unfold Mirrored
    rw [(appendDocumentDisks_edits hsection entries happend).additional, hattaches.append,
      describedDisks_append _ _ hown, attachedDisks_append, ← hdescribed]
    exact hmirrored.append_right _

theorem zoneModify_coherent (hm : Coherent host zoneName serverId m)
    (hfits : Fits host zoneName serverId m changes)
    (h : zoneModify host zoneName m changes = some m') : Coherent host zoneName serverId m' := by
  obtain ⟨added, hadd, hremove⟩ := zoneModify_eq h
  obtain ⟨hcoherent, new, hattaches⟩ := addDisks_coherent hfits.unprefixed hm hadd
  have hedits := removeDisks_edits hcoherent.isMap hremove
  have hattrs := (removeDisks_eq hremove).1
  refine ⟨hedits.isMap, foldlM_removeAttr_nodup hattrs hcoherent.nodup, ?_⟩
  unfold Mirrored
  rw [hedits.additional]
  refine removals_mirrored (attrRows m changes) changes.removeDisks hattrs hcoherent.nodup ?_
    (hfits.removals added hadd) hcoherent.mirrored
  intro name value value' hrow hget
  have hnodup := hcoherent.nodup
  rw [hattaches.append] at hget hnodup
  exact attrRows_agree hnodup hrow hget

end Steps

section Creation
variable {host : Host} {zoneName : String} {metadata zadm : Document}
  {others : KeyedList String String}

/-- The types the wire and the clone builder give additional entries. -/
def isTyped (entry : Json) : Bool :=
  decide (textField "type" entry ∈ ["image", "blank", "template"].map some)

/-- The `disks` section of a document a machine is created from. -/
structure TypedDisks (metadata : Document) : Prop where
  isMap : ∃ disks, metadata.get "disks" = some (.obj disks)
  list : HasList metadata
  typed : ∀ disk ∈ additionalDisks metadata, isTyped disk = true

/-- The attrs of a new zone that are no disks. -/
structure OtherAttrs (others : KeyedList String String) : Prop where
  nodup : others.keys.Nodup
  disk : ∀ name ∈ others.keys, diskNumber? name = none
  bootdisk : "bootdisk" ∉ others.keys

theorem created_get {key : String} (hkey : key ∈ infrastructureSections) {value : Json}
    (h : metadata.get key = some value) (htruthy : value.truthy = true) :
    (created host zoneName metadata others zadm).document.get key = some value := by
  have hget := KeyedList.get_copyKeys zadm infrastructureSections
    (fun key => (metadata.get key).filter Json.truthy) key
  rw [if_pos hkey, h, Option.filter_some, if_pos htruthy, Option.some_or] at hget
  exact hget

theorem created_diskField (h : TypedDisks metadata) (key : String) :
    diskField key (created host zoneName metadata others zadm).document =
      diskField key metadata := by
  obtain ⟨disks, hdisks⟩ := h.isMap
  unfold diskField
  rw [created_get (by decide) hdisks rfl, hdisks]

theorem additionalDiskPath_eq {index : ℕ} {disk : Json} (h : isTyped disk = true) :
    additionalDiskPath host zoneName metadata index disk =
      entryDataset host zoneName (createServerId host metadata) index disk := by
  have htype : textField "type" disk = some "image" ∨ textField "type" disk = some "blank" ∨
      textField "type" disk = some "template" := by
    simpa [isTyped] using h
  unfold additionalDiskPath entryDataset
  rcases htype with ht | ht | ht <;> simp [ht]

variable (host zoneName metadata) in
theorem keys_configureAdditionalDisks : (configureAdditionalDisks host zoneName metadata).keys =
    (List.range (additionalDisks metadata).length).map diskName := by
  refine List.ext_getElem (by simp [KeyedList.keys, configureAdditionalDisks]) fun i hi _ => ?_
  simp [KeyedList.keys, configureAdditionalDisks]

theorem diskNumber?_configureAdditionalDisks {e : String × String}
    (he : e ∈ configureAdditionalDisks host zoneName metadata) :
    (diskNumber? e.1).isSome = true := by
  have hkey : e.1 ∈ (configureAdditionalDisks host zoneName metadata).keys :=
    List.mem_map_of_mem he
  rw [keys_configureAdditionalDisks host zoneName metadata] at hkey
  obtain ⟨i, -, hi⟩ := List.mem_map.mp hkey
  rw [← hi, diskNumber?_diskName]
  rfl

theorem attachedDisks_configureAdditionalDisks
    (htyped : ∀ disk ∈ additionalDisks metadata, isTyped disk = true) :
    attachedDisks (configureAdditionalDisks host zoneName metadata) =
      describedDisks host zoneName (createServerId host metadata) (additionalDisks metadata) := by
  unfold attachedDisks
  rw [List.filter_eq_self.mpr fun e he => diskNumber?_configureAdditionalDisks he]
  refine List.ext_getElem (by simp [configureAdditionalDisks, describedDisks]) fun i hi _ => ?_
  simp only [configureAdditionalDisks, describedDisks, List.getElem_map, List.getElem_mapIdx]
  exact additionalDiskPath_eq (htyped _ (List.getElem_mem _))

variable (host zoneName metadata) in
theorem keys_configureBootdisk :
    (configureBootdisk host zoneName metadata).keys ⊆ ["bootdisk"] ∧
      (configureBootdisk host zoneName metadata).keys.Nodup := by
  unfold configureBootdisk
  cases (prepareStorage host zoneName metadata).filter Json.truthy with
  | none => exact ⟨List.nil_subset _, List.nodup_nil⟩
  | some path => exact ⟨fun name hname => hname, List.pairwise_singleton _ _⟩

theorem attachedDisks_eq_nil {attrs : KeyedList String String}
    (h : ∀ name ∈ attrs.keys, diskNumber? name = none) : attachedDisks attrs = [] := by
  unfold attachedDisks
  rw [List.map_eq_nil_iff, List.filter_eq_nil_iff]
  intro e he
  simp [h e.1 (List.mem_map_of_mem he)]

theorem created_nodup (hothers : OtherAttrs others) :
    (created host zoneName metadata others zadm).attrs.keys.Nodup := by
  obtain ⟨hboot, hbootNodup⟩ := keys_configureBootdisk host zoneName metadata
  have hkeys : (created host zoneName metadata others zadm).attrs.keys = others.keys ++
      (configureBootdisk host zoneName metadata).keys ++
        (List.range (additionalDisks metadata).length).map diskName := by
    rw [← keys_configureAdditionalDisks host zoneName metadata]
    simp [created, KeyedList.keys]
  rw [hkeys]
  refine List.nodup_append.mpr ⟨List.nodup_append.mpr ⟨hothers.nodup, hbootNodup, ?_⟩, ?_, ?_⟩
  · intro a ha b hb heq
    rw [heq, List.mem_singleton.mp (hboot hb)] at ha
    exact hothers.bootdisk ha
  · exact List.Nodup.map (fun _ _ => diskName_injective) List.nodup_range
  · intro a ha b hb heq
    obtain ⟨i, -, hi⟩ := List.mem_map.mp hb
    have hnumber : diskNumber? a = some i := by rw [heq, ← hi, diskNumber?_diskName]
    rcases List.mem_append.mp ha with hother | hbootdisk
    · rw [hothers.disk a hother] at hnumber
      cases hnumber
    · have hnone : diskNumber? "bootdisk" = none := by decide
      rw [List.mem_singleton.mp (hboot hbootdisk), hnone] at hnumber
      cases hnumber

theorem created_additionalDisks (h : TypedDisks metadata) :
    additionalDisks (created host zoneName metadata others zadm).document =
      additionalDisks metadata := by
  unfold additionalDisks
  rw [created_diskField h]

theorem created_coherent (hothers : OtherAttrs others) (htyped : TypedDisks metadata) :
    Coherent host zoneName (createServerId host metadata)
      (created host zoneName metadata others zadm) := by
  obtain ⟨disks, hdisks⟩ := htyped.isMap
  refine ⟨⟨disks, created_get (by decide) hdisks rfl⟩, created_nodup hothers, ?_⟩
  have hboot : attachedDisks (configureBootdisk host zoneName metadata) = [] := by
    refine attachedDisks_eq_nil fun name hname => ?_
    rw [List.mem_singleton.mp ((keys_configureBootdisk host zoneName metadata).1 hname)]
    decide
  have hattached : attachedDisks (created host zoneName metadata others zadm).attrs =
      describedDisks host zoneName (createServerId host metadata) (additionalDisks metadata) := by
    simp only [created, attachedDisks_append, attachedDisks_eq_nil hothers.disk, hboot,
      List.nil_append, attachedDisks_configureAdditionalDisks htyped.typed]
  unfold Mirrored
  rw [created_additionalDisks htyped, hattached]

end Creation

/-- The numbers a run chooses are free where every disk attr is a row. -/
theorem chosenNumbers_free {m : Machine} {changes : DiskChanges}
    (h : ∀ name ∈ m.attrs.keys, (diskNumber? name).isSome = true → name ∉ changes.rendered) :
    ∀ number ∈ chosenNumbers m changes, ∀ name ∈ m.attrs.keys,
      diskNumber? name ≠ some number := by
  intro number hnumber name hname heq
  obtain ⟨i, -, rfl⟩ := List.mem_map.mp hnumber
  obtain ⟨e, he, rfl⟩ := List.mem_map.mp hname
  have hrow : e ∈ attrRows m changes := by
    refine List.mem_filter.mpr ⟨he, ?_⟩
    simpa using h e.1 hname (by simp [heq])
  have hlt := lt_getNextDiskNumber hrow heq
  omega

/-- In every run whose removals fit the document, whose blank additions get no prefix and that reads
every disk attr as a row, the document mirrors the attached disks and the numbers of new disks are
free. -/
theorem disks_mirrored (host : Host) (zoneName : String) (metadata zadm : Document)
    (others : KeyedList String String) (hothers : OtherAttrs others)
    (htyped : TypedDisks metadata) {m : Machine}
    (h : Reaches (zoneModify host zoneName) (Fits host zoneName (createServerId host metadata))
      (created host zoneName metadata others zadm) m) :
    Mirrored host zoneName (createServerId host metadata) m ∧
      ∀ changes, Fits host zoneName (createServerId host metadata) m changes →
        ∀ number ∈ chosenNumbers m changes, ∀ name ∈ m.attrs.keys,
          diskNumber? name ≠ some number := by
  have hcoherent := h.invariant (created_coherent hothers htyped)
    fun a changes b ha hfits hstep => zoneModify_coherent ha hfits hstep
  exact ⟨hcoherent.mirrored, fun changes hfits => chosenNumbers_free hfits.rows⟩

section Instances

def plainHost : Host where
  prefixDatasets := false
  rootPool := "rpool"
  toText _ := "[object Object]"

def diskDocument (boot : Json) (additional : List Json) : Document :=
  [("disks", .obj [("boot", boot), ("additional_disks", .arr additional)])]

def diskless : Json := .obj [("type", .str "none")]

def imageDisk (path : String) : Json := .obj [("type", .str "image"), ("path", .str path)]

def blankDisk : Json := .obj [("type", .str "blank"), ("size", .str "10G")]

def namedDisk (name : String) : Json :=
  .obj [("type", .str "blank"), ("size", .str "10G"), ("volume_name", .str name)]

def replacement : DiskChanges where
  rendered := []
  addDisks := [namedDisk "logs"]
  removeDisks := ["disk0"]

def imageAndData : Document := diskDocument blankDisk [imageDisk "tank/old", namedDisk "data"]

/-- The entry a new blank disk of that name gets. -/
def addedDisk (name : String) : Json :=
  .obj [("type", .str "blank"), ("pool", .str "rpool"), ("dataset", .str "zones"),
    ("volume_name", .str name), ("size", .str "10G"), ("sparse", .bool true)]

def replacedDisks : Machine where
  attrs := [("ram", "2G"), ("bootdisk", "rpool/zones/web/boot"), ("disk1", "rpool/zones/web/data"),
    ("disk2", "rpool/zones/web/logs")]
  document := diskDocument blankDisk [namedDisk "data", addedDisk "logs"]

theorem replacement_fits : Fits plainHost "web" none
    (created plainHost "web" imageAndData [("ram", "2G")] []) replacement := by
  refine ⟨fun _ _ _ => List.not_mem_nil, fun _ => rfl, fun added hadded => ?_⟩
  have heq : addDisks plainHost "web"
      (attrRows (created plainHost "web" imageAndData [("ram", "2G")] []) replacement)
      replacement.addDisks (created plainHost "web" imageAndData [("ram", "2G")] []) =
        some ⟨[("ram", "2G"), ("bootdisk", "rpool/zones/web/boot"), ("disk0", "tank/old"),
          ("disk1", "rpool/zones/web/data"), ("disk2", "rpool/zones/web/logs")],
          diskDocument blankDisk [imageDisk "tank/old", namedDisk "data", addedDisk "logs"]⟩ := by
    rfl
  rw [heq, Option.some.injEq] at hadded
  rw [← hadded]
  refine ⟨?_, trivial⟩
  rw [if_pos (by decide)]
  exact ⟨[], _, _, rfl, (fun e he => by cases he), by decide, by decide, by decide⟩

theorem disks_mirrored_replaced :
    Mirrored plainHost "web" none replacedDisks ∧
      ∀ changes, Fits plainHost "web" none replacedDisks changes →
        ∀ number ∈ chosenNumbers replacedDisks changes, ∀ name ∈ replacedDisks.attrs.keys,
          diskNumber? name ≠ some number :=
  disks_mirrored plainHost "web" imageAndData [] [("ram", "2G")] ⟨by decide, by decide, by decide⟩
    ⟨⟨_, rfl⟩, fun value hvalue _ => ⟨_, (Option.some.inj hvalue).symm⟩, by decide⟩
    (.tail .refl replacement_fits rfl)

/-- A removed disk without a name of its own stays in the document, and a number that `zadm` renders
outside the `attr` array is chosen again. -/
theorem disks_mirrored_fails :
    let metadata := diskDocument diskless [blankDisk, blankDisk]
    let machine := created plainHost "web" metadata [] []
    (∃ m, Reaches (zoneModify plainHost "web") (fun _ _ => True) machine m ∧
      ¬ Mirrored plainHost "web" (createServerId plainHost metadata) m) ∧
      ∃ changes, ∃ number ∈ chosenNumbers machine changes, ∃ name ∈ machine.attrs.keys,
        diskNumber? name = some number := by
  refine ⟨⟨⟨[("disk1", "rpool/zones/web/disk1")], diskDocument diskless [blankDisk, blankDisk]⟩,
    .tail .refl trivial (l := ⟨[], [], ["disk0"]⟩) rfl, fun h => ?_⟩,
    ⟨["disk0", "disk1"], [blankDisk], []⟩, 0, by decide, "disk0", by decide, by decide⟩
  have hlength := h.length_eq
  revert hlength
  decide

end Instances

end ZoneweaverAgent.MachineDisks
