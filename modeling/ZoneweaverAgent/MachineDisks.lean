import ZoneweaverAgent.DiskSpec

/-!
# The disks of a machine

Creation attaches the disks a document declares, `zone_modify` attaches and detaches more, and both
keep the document in step. Nobody records a path: creation, modification and the reader behind a
clone each compute it from the entry. The attrs are the `attr` resources of the zone's `zonecfg`; a
batch of `zonecfg` commands takes effect as a whole or not at all.
-/

namespace ZoneweaverAgent.MachineDisks
open ZoneDocument DiskSpec

/-- `zones.prefix_datasets`, the pool behind `/`, and `String(value)` of a value that is no text. -/
structure Host where
  prefixDatasets : Bool
  rootPool : String
  toText : Json → String

structure Machine where
  attrs : KeyedList String String
  document : Document

section Paths

def padStart4 (s : String) : String := String.ofList (List.replicate (4 - s.length) '0') ++ s

variable (host : Host)

def Host.text : Json → String := textOf host.toText

def Host.fieldText (key : String) (entry : Json) : String :=
  ((entry.field key).map host.text).getD "undefined"

def Host.orText (key fallback : String) (entry : Json) : String :=
  host.text (orElseTruthy (entry.field key) (.str fallback))

variable (zoneName : String) (serverId : Option Json)

def paddedId : String := padStart4 (host.text (orElseTruthy serverId (.str "")))

/-- Whether a dataset path gains the `NNNN--` prefix. -/
def appliesPrefix : Bool :=
  host.prefixDatasets && (serverId.map Json.truthy).getD false &&
    !(paddedId host serverId).toList.isPrefixOf zoneName.toList

def buildDatasetPath (basePath : String) : String :=
  if appliesPrefix host zoneName serverId then
    basePath ++ "/" ++ paddedId host serverId ++ "--" ++ zoneName
  else basePath ++ "/" ++ zoneName

/-- The volume of an entry that is not attached by path, `volumeName` being its default name. -/
def volumePath (volumeName : String) (entry : Json) : String :=
  buildDatasetPath host zoneName serverId
      (host.orText "pool" host.rootPool entry ++ "/" ++ host.orText "dataset" "zones" entry) ++
    "/" ++ host.orText "volume_name" volumeName entry

end Paths

def diskName (number : ℕ) : String := "disk" ++ toString number

/-- `/^disk(?<num>\d+)$/u` -/
def diskNumber? (name : String) : Option ℕ :=
  match name.toList with
  | 'd' :: 'i' :: 's' :: 'k' :: digits =>
    if digits ≠ [] ∧ digits.all Char.isDigit then some (Nat.ofDigitChars 10 digits 0) else none
  | _ => none

/-- A key of the `disks` section, if the document has the section. -/
def diskField (key : String) (document : Document) : Option Json :=
  (document.get "disks").bind (Json.field key)

def additionalDisks (document : Document) : List Json :=
  ((diskField "additional_disks" document).bind Json.items?).getD []

section Creation
variable (host : Host) (zoneName : String) (metadata : Document)

/-- The `server_id` the creation sub-tasks work with. -/
def createServerId : Option Json :=
  match (metadata.get "settings").bind (Json.field "server_id") with
  | some id =>
    if id.truthy then some (.str (padStart4 (host.text id))) else metadata.get "server_id"
  | none => metadata.get "server_id"

/-- The boot disk of an image or blank entry, of a creation that succeeds. -/
def prepareBootVolume : Option Json :=
  match (diskField "boot" metadata).filter Json.truthy with
  | none => none
  | some boot =>
    if textField "type" boot = some "none" ∨ textField "type" boot = some "template" then none
    else if textField "type" boot = some "image" then boot.field "path"
    else some (.str (volumePath host zoneName (createServerId host metadata) "boot" boot))

/-- The boot disk of a template entry, of a creation that succeeds. -/
def importTemplate : Option Json :=
  match diskField "boot" metadata with
  | none => none
  | some boot =>
    if textField "type" boot = some "template" then
      some (.str (volumePath host zoneName (createServerId host metadata) "boot" boot))
    else none

def prepareStorage : Option Json :=
  if (diskField "boot" metadata).bind (textField "type") = some "template" then
    importTemplate host zoneName metadata
  else prepareBootVolume host zoneName metadata

def configureBootdisk : KeyedList String String :=
  match (prepareStorage host zoneName metadata).filter Json.truthy with
  | some bootdiskPath => [("bootdisk", host.text bootdiskPath)]
  | none => []

def additionalDiskPath (index : ℕ) (disk : Json) : String :=
  if textField "type" disk = some "blank" ∨ textField "type" disk = some "template" then
    volumePath host zoneName (createServerId host metadata) (diskName index) disk
  else host.fieldText "path" disk

def configureAdditionalDisks : KeyedList String String :=
  (additionalDisks metadata).mapIdx fun index disk =>
    (diskName index, additionalDiskPath host zoneName metadata index disk)

/-- A machine after the creation pipeline: `others` are the attrs that are no disks, `zadm` is what
`zadm` prints of the new zone. -/
def created (others : KeyedList String String) (zadm : Document) : Machine where
  attrs := others ++ configureBootdisk host zoneName metadata ++
    configureAdditionalDisks host zoneName metadata
  document := (Mutation.storeInfrastructureConfig metadata).effect zadm

end Creation

section Modification
variable (host : Host) (zoneName : String)

/-- `rendered` are the attrs `zadm` renders outside its `attr` array when the run reads the
configuration. -/
structure DiskChanges where
  rendered : List String
  addDisks : List Json
  removeDisks : List String

/-- The `attr` array of the configuration a run reads. -/
def attrRows (m : Machine) (changes : DiskChanges) : KeyedList String String :=
  m.attrs.filter fun e => e.1 ∉ changes.rendered

def getNextDiskNumber (rows : KeyedList String String) : ℕ :=
  ((rows.filterMap fun e => diskNumber? e.1).map (· + 1)).foldr max 0

/-- The path a new disk is attached from and its document entry. -/
structure Addition where
  diskPath : String
  entry : Json

def addDisk (number : ℕ) (disk : Json) : Option Addition :=
  if textField "type" disk = some "blank" then
    if !carries "size" disk then none
    else
      let pool := orElseTruthy (disk.field "pool") (.str host.rootPool)
      let dset := orElseTruthy (disk.field "dataset") (.str "zones")
      let volName := orElseTruthy (disk.field "volume_name") (.str (diskName number))
      some
        { diskPath := host.text pool ++ "/" ++ host.text dset ++ "/" ++ zoneName ++ "/" ++
            host.text volName,
          entry := .obj [("type", .str "blank"), ("pool", pool), ("dataset", dset),
            ("volume_name", volName), ("size", (disk.field "size").getD .null),
            ("sparse", .bool (disk.field "sparse" ≠ some (.bool false)))] }
  else if textField "type" disk = some "image" then
    if !carries "path" disk then none
    else
      let path := (disk.field "path").getD .null
      some { diskPath := host.text path, entry := .obj [("type", .str "image"), ("path", path)] }
  else none

/-- `zonecfg add attr`, refused where the name is taken. -/
def addAttr (attrs : KeyedList String String) (name value : String) :
    Option (KeyedList String String) :=
  if attrs.has name then none else some (attrs ++ [(name, value)])

/-- `zonecfg remove attr`, refused where there is none of the name. -/
def removeAttr (attrs : KeyedList String String) (name : String) :
    Option (KeyedList String String) :=
  if attrs.has name then some (attrs.erase name) else none

/-- The attrs with the new disks, and their document entries. -/
def attachDisks : ℕ → List Json → KeyedList String String →
    Option (KeyedList String String × List Json)
  | _, [], attrs => some (attrs, [])
  | number, disk :: disks, attrs => do
    let addition ← addDisk host zoneName number disk
    let attrs ← addAttr attrs (diskName number) addition.diskPath
    let (attrs, entries) ← attachDisks (number + 1) disks attrs
    return (attrs, addition.entry :: entries)

def addDisks (rows : KeyedList String String) (disks : List Json) (m : Machine) :
    Option Machine := do
  if disks = [] then return m
  let (attrs, documentEntries) ← attachDisks host zoneName (getNextDiskNumber rows) disks m.attrs
  return { attrs, document := ← appendDocumentDisks documentEntries m.document }

/-- The dataset of a disk to be removed, where the configuration that was read tells one. -/
def removedPath (rows : KeyedList String String) (name : String) : Option String :=
  (rows.get name).filter (· ≠ "")

def removeDisks (rows : KeyedList String String) (diskNames : List String) (m : Machine) :
    Option Machine := do
  if diskNames = [] then return m
  let attrs ← diskNames.foldlM removeAttr m.attrs
  let removedPaths := diskNames.filterMap (removedPath rows)
  if removedPaths = [] then return { m with attrs }
  return { attrs, document := ← removeDocumentDisks removedPaths m.document }

/-- A successful `zone_modify` run, on the configuration read at its start; nothing where it
throws. -/
def zoneModify (m : Machine) (changes : DiskChanges) : Option Machine := do
  let rows := attrRows m changes
  let m ← addDisks host zoneName rows changes.addDisks m
  removeDisks rows changes.removeDisks m

/-- The numbers a run gives its new disks. -/
def chosenNumbers (m : Machine) (changes : DiskChanges) : List ℕ :=
  (List.range changes.addDisks.length).map (getNextDiskNumber (attrRows m changes) + ·)

end Modification

section Reading
variable (host : Host) (zoneName : String)

/-- The dataset of a typed additional entry, its position giving the default name. -/
def entryDataset (serverId : Option Json) (index : ℕ) (entry : Json) : String :=
  if textField "type" entry = some "image" then host.fieldText "path" entry
  else volumePath host zoneName serverId (diskName index) entry

structure CloneSource where
  index : ℕ
  dataset : Option Json
  entry : Json

structure CloneSources where
  bootDataset : Option Json
  additional : List CloneSource

def cloneServerId (zoneConfig : Document) : Json :=
  match (zoneConfig.get "settings").bind (Json.field "server_id") with
  | some id => .str (if id.truthy then host.text id else "")
  | none => .str ""

def cloneBootDataset (zoneConfig : Document) : Option Json :=
  match (diskField "boot" zoneConfig).filter Json.truthy with
  | some boot => some (.str (volumePath host zoneName (some (cloneServerId host zoneConfig)) "boot"
      boot))
  | none => ((zoneConfig.get "bootdisk").filter Json.truthy).bind (Json.field "path")

def cloneSource (zoneConfig : Document) (index : ℕ) (entry : Json) : CloneSource where
  index := index
  dataset :=
    if textField "type" entry = some "image" then entry.field "path"
    else some (.str (volumePath host zoneName (some (cloneServerId host zoneConfig))
      (diskName index) entry))
  entry := entry

/-- Nothing where the additional disks are no list or contain `null`, so that it throws. -/
def cloneSourceDatasets (zoneConfig : Document) : Option CloneSources :=
  let list := orElseTruthy (diskField "additional_disks" zoneConfig) (.arr [])
  match list with
  | .arr items =>
    if .null ∈ items then none
    else some
      { bootDataset := cloneBootDataset host zoneName zoneConfig,
        additional := items.mapIdx (cloneSource host zoneName zoneConfig) }
  | _ => none

end Reading

end ZoneweaverAgent.MachineDisks
