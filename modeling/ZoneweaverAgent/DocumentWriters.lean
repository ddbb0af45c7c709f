import ZoneweaverAgent.ZoneDocument

/-!
# The writers of the machine document

What each writer makes of the configuration it has read. A mutator of `saveConfiguration` works on
one section, `applyDocumentSections` and `storeInfrastructureConfig` on several; a writer that
throws writes nothing. A refresh from `zadm` overlays what it has read over `zadm`'s output.
-/

namespace ZoneweaverAgent.ZoneDocument

/-- `target[key] = value` in strict mode: a scalar throws, and a named property of an array is not
part of its JSON. -/
def setProperty (key : String) (value : Json) : Json → Option Json
  | .obj entries => some (.obj (KeyedList.set entries key value))
  | .arr items => some (.arr items)
  | _ => none

/-- The entries of `{ ...value }`. -/
def spread : Option Json → Document
  | some (.obj entries) => entries
  | some (.arr items) => items.zipIdx.map fun e => (toString e.2, e.1)
  | some (.str s) => s.toList.zipIdx.map fun e => (toString e.2, .str e.1.toString)
  | _ => []

def leaf (path : String) : String := (path.splitOn "/").getLastD ""

def textField (key : String) (entry : Json) : Option String := (entry.field key).bind Json.text?

/-- A mutator that works on the section `key`. `edit` answers the new section, `none` where it is
removed, or nothing at all when it throws. -/
def editSection (key : String) (edit : Option Json → Option (Option Json))
    (zoneConfig : Document) : Option Document :=
  (edit (zoneConfig.get key)).map fun
    | some value => zoneConfig.set key value
    | none => zoneConfig.erase key

/-- What `null` deletes and any other value replaces. -/
def unlessNull : Json → Option Json
  | .null => none
  | value => some value

def setGuestInfo (info : Json) : Document → Option Document :=
  editSection "guest_info" fun _ => some (unlessNull info)

def setSnapshotPolicy (policy : Json) : Document → Option Document :=
  editSection "snapshots" fun _ => some (unlessNull policy)

def mergePendingChanges (updates : Document) : Document → Option Document :=
  editSection "pending_changes" fun pending =>
    some (some (.obj ((spread pending).setAll updates)))

def clearPendingChanges : Document → Option Document :=
  editSection "pending_changes" fun _ => some none

def mergeSettingsKeys (keys : Document) : Document → Option Document :=
  editSection "settings" fun settings =>
    some (some (.obj (keys.foldl (fun (acc : Document) e =>
      match e.2 with
      | .null => acc.erase e.1
      | .str "" => acc.erase e.1
      | value => acc.set e.1 value) (spread settings))))

def setDocumentDiskSize (diskName dataset size : String) : Document → Option Document :=
  editSection "disks" fun section? =>
    match section? with
    | none => some none
    | some disks =>
      if !disks.truthy then some (some disks)
      else if diskName = "bootdisk" then
        match disks.field "boot" with
        | none => some (some disks)
        | some boot =>
          if !boot.truthy then some (some disks)
          else do
            let boot ← setProperty "size" (.str size) boot
            return some (← setProperty "boot" boot disks)
      else
        match (disks.field "additional_disks").bind Json.items? with
        | none => some (some disks)
        | some items => do
          let isEntry (entry : Json) : Bool := textField "volume_name" entry = some (leaf dataset)
          let resized := items.modify (items.findIdx isEntry) fun entry =>
            (setProperty "size" (.str size) entry).getD entry
          return some (← setProperty "additional_disks" (.arr resized) disks)

def appendDocumentDisks (entries : List Json) : Document → Option Document :=
  editSection "disks" fun section? => do
    let disks := orElseTruthy section? (.obj [])
    let list := ((disks.field "additional_disks").bind Json.items?).getD []
    return some (← setProperty "additional_disks" (.arr (list ++ entries)) disks)

def removeDocumentDisks (datasets : List String) : Document → Option Document :=
  editSection "disks" fun section? =>
    match section? with
    | none => some none
    | some disks =>
      match (disks.field "additional_disks").bind Json.items? with
      | none => some (some disks)
      | some items => do
        let kept := datasets.foldl (fun acc dataset => acc.eraseP fun entry =>
          textField "path" entry = some dataset ∨
            textField "volume_name" entry = some (leaf dataset)) items
        return some (← setProperty "additional_disks" (.arr kept) disks)

theorem mem_of_mem_foldl_eraseP {datasets : List String} {p : String → Json → Bool}
    {entries : List Json} {entry : Json}
    (h : entry ∈ datasets.foldl (fun acc dataset => acc.eraseP (p dataset)) entries) :
    entry ∈ entries := by
  induction datasets generalizing entries with
  | nil => exact h
  | cons dataset rest ih => exact List.mem_of_mem_eraseP (ih h)

def setDocumentNetworkKey (index : ℕ) (key : String) (value : Json) :
    Document → Option Document :=
  editSection "networks" fun section? =>
    match section? with
    | some (.arr items) =>
      match items[index]? with
      | some entry =>
        if !entry.truthy then some (some (.arr items))
        else (setProperty key value entry).map fun entry => some (.arr (items.set index entry))
      | none => some (some (.arr items))
    | section? => some section?

def setDocumentNetworkAddress (index : ℕ) (address : Json) : Document → Option Document :=
  setDocumentNetworkKey index "address" address

def removeDocumentNetworkEntry (index : ℕ) : Document → Option Document :=
  editSection "networks" fun section? =>
    match section? with
    | some (.arr items) =>
      if !(items[index]?.map Json.truthy).getD false then some (some (.arr items))
      else
        match items.eraseIdx index with
        | [] => some (some (.arr []))
        | first :: rest =>
          let isControl (net : Json) : Bool := ((net.field "is_control").map Json.isTrue).getD false
          if (first :: rest).any isControl then some (some (.arr (first :: rest)))
          else (setProperty "is_control" (.bool true) first).map fun first =>
            some (.arr (first :: rest))
    | section? => some section?

def editableSections : List String :=
  ["settings", "zones", "vbox", "utm", "networks", "disks", "provisioner", "metadata"]

def applyDocumentSections (document zoneConfig : Document) : Option Document :=
  some (zoneConfig.replaceKeys editableSections fun key => document.get key)

def infrastructureSections : List String :=
  ["settings", "zones", "networks", "disks", "provisioner", "provisioner_ref", "snapshots",
    "metadata"]

def storeInfrastructureConfig (metadata zoneConfig : Document) : Option Document :=
  some (zoneConfig.copyKeys infrastructureSections fun key => (metadata.get key).filter Json.truthy)

/-- A writer that stores what it makes of the configuration it has read. -/
inductive Mutation
  | setGuestInfo (info : Json)
  | setSnapshotPolicy (policy : Json)
  | mergePendingChanges (updates : Document)
  | clearPendingChanges
  | mergeSettingsKeys (keys : Document)
  | setDocumentDiskSize (diskName dataset size : String)
  | appendDocumentDisks (entries : List Json)
  | removeDocumentDisks (datasets : List String)
  | setDocumentNetworkKey (index : ℕ) (key : String) (value : Json)
  | setDocumentNetworkAddress (index : ℕ) (address : Json)
  | removeDocumentNetworkEntry (index : ℕ)
  | applyDocumentSections (document : Document)
  | storeInfrastructureConfig (metadata : Document)

def Mutation.mutate : Mutation → Document → Option Document
  | setGuestInfo info => ZoneDocument.setGuestInfo info
  | setSnapshotPolicy policy => ZoneDocument.setSnapshotPolicy policy
  | mergePendingChanges updates => ZoneDocument.mergePendingChanges updates
  | clearPendingChanges => ZoneDocument.clearPendingChanges
  | mergeSettingsKeys keys => ZoneDocument.mergeSettingsKeys keys
  | setDocumentDiskSize diskName dataset size =>
    ZoneDocument.setDocumentDiskSize diskName dataset size
  | appendDocumentDisks entries => ZoneDocument.appendDocumentDisks entries
  | removeDocumentDisks datasets => ZoneDocument.removeDocumentDisks datasets
  | setDocumentNetworkKey index key value => ZoneDocument.setDocumentNetworkKey index key value
  | setDocumentNetworkAddress index address => ZoneDocument.setDocumentNetworkAddress index address
  | removeDocumentNetworkEntry index => ZoneDocument.removeDocumentNetworkEntry index
  | applyDocumentSections document => ZoneDocument.applyDocumentSections document
  | storeInfrastructureConfig metadata => ZoneDocument.storeInfrastructureConfig metadata

/-- The sections a writer writes. -/
def Mutation.sections : Mutation → List String
  | setGuestInfo _ => ["guest_info"]
  | setSnapshotPolicy _ => ["snapshots"]
  | mergePendingChanges _ => ["pending_changes"]
  | clearPendingChanges => ["pending_changes"]
  | mergeSettingsKeys _ => ["settings"]
  | setDocumentDiskSize _ _ _ => ["disks"]
  | appendDocumentDisks _ => ["disks"]
  | removeDocumentDisks _ => ["disks"]
  | setDocumentNetworkKey _ _ _ => ["networks"]
  | setDocumentNetworkAddress _ _ => ["networks"]
  | removeDocumentNetworkEntry _ => ["networks"]
  | applyDocumentSections _ => editableSections
  | storeInfrastructureConfig _ => infrastructureSections

/-- What a writer does to the document when it runs alone. -/
def Mutation.effect (m : Mutation) (doc : Document) : Document := (m.mutate doc).getD doc

theorem Mutation.mutate_form (m : Mutation) :
    (∃ key edit, m.mutate = editSection key edit ∧ m.sections = [key]) ∨
      (∃ f, m.mutate = fun doc => some (doc.replaceKeys m.sections f)) ∨
      ∃ f, m.mutate = fun doc => some (doc.copyKeys m.sections f) := by
  cases m with
  | applyDocumentSections document => exact .inr (.inl ⟨_, rfl⟩)
  | storeInfrastructureConfig metadata => exact .inr (.inr ⟨_, rfl⟩)
  | setDocumentNetworkAddress index address =>
    exact .inl ⟨_, _, by simp only [mutate, ZoneDocument.setDocumentNetworkAddress]; rfl, rfl⟩
  | _ => exact .inl ⟨_, _, by simp only [mutate]; rfl, rfl⟩

theorem editSection_get (key : String) (edit : Option Json → Option (Option Json)) (doc : Document)
    (k : String) : KeyedList.get ((editSection key edit doc).getD doc) k =
      if key = k then (edit (doc.get key)).getD (doc.get key) else doc.get k := by
  unfold editSection
  cases edit (doc.get key) with
  | none =>
    split_ifs with hk
    · rw [hk]
      rfl
    · rfl
  | some value =>
    cases value with
    | none => exact KeyedList.get_erase doc key k
    | some v => exact KeyedList.get_set doc key k v

/-- What a writer makes of a section depends on that section alone. -/
theorem Mutation.effect_get_congr (m : Mutation) {doc doc' : Document} {key : String}
    (h : doc.get key = doc'.get key) : (m.effect doc).get key = (m.effect doc').get key := by
  unfold Mutation.effect
  rcases m.mutate_form with ⟨key₀, edit, hm, -⟩ | ⟨f, hm⟩ | ⟨f, hm⟩
  · rw [hm, editSection_get, editSection_get]
    split_ifs with hk
    · rw [hk, h]
    · exact h
  · rw [hm, Option.getD_some, Option.getD_some, KeyedList.get_replaceKeys,
      KeyedList.get_replaceKeys, h]
  · rw [hm, Option.getD_some, Option.getD_some, KeyedList.get_copyKeys, KeyedList.get_copyKeys, h]

/-- A writer leaves alone the sections it does not write. -/
theorem Mutation.effect_get_of_notMem (m : Mutation) {key : String} (h : key ∉ m.sections)
    (doc : Document) : (m.effect doc).get key = doc.get key := by
  unfold Mutation.effect
  rcases m.mutate_form with ⟨key₀, edit, hm, hkeys⟩ | ⟨f, hm⟩ | ⟨f, hm⟩
  · rw [hkeys, List.mem_singleton] at h
    rw [hm, editSection_get, if_neg (Ne.symm h)]
  · rw [hm, Option.getD_some, KeyedList.get_replaceKeys, if_neg h]
  · rw [hm, Option.getD_some, KeyedList.get_copyKeys, if_neg h]

end ZoneweaverAgent.ZoneDocument
