import Mathlib.Data.List.Sort
import ZoneweaverAgent.MachineDisks
import ZoneweaverAgent.PathTree

/-!
# Dataset cleanup at a deletion

`executeDeleteTask` collects the datasets of a machine from its stored configuration, uninstalls
and deletes the zone and then issues `zfs destroy -r` for every collected dataset that exists,
carries the provenance stamp and is not protected. What is protected is read from the configurations
`zadm show` prints of the other machines; a failure of that reading is only logged. A reading that
throws answers `none`, and the protection keeps what it had read until then.
-/

namespace ZoneweaverAgent.DatasetCleanup
open ZoneDocument DiskSpec
open MachineDisks (diskNumber?)

/-- `JSON.parse`, the configuration a sync from the system would store, `String(value)` of a value
that is no text, and the trimmed answers of `zfs list` and `zfs get zoneweaver:source`. -/
structure Host where
  parse : String → Option Json
  synced : Option Json
  toText : Json → String
  listed : String → Option String
  present : String → Bool
  stamp : String → Option String
  uninstalls : Bool
  deletes : Bool

section DiskReferences

def isLineTerminator (c : Char) : Bool :=
  c = '\n' || c = '\r' || c.toNat = 0x2028 || c.toNat = 0x2029

/-- What stands behind `/dev/zvol/dsk/` or `/dev/zvol/rdsk/`. -/
def behindZvol (text : List Char) : Option (List Char) :=
  if "/dev/zvol/dsk/".toList.isPrefixOf text then some (text.drop 14)
  else if "/dev/zvol/rdsk/".toList.isPrefixOf text then some (text.drop 15)
  else none

/-- The leftmost match of a pattern that starts with the volume directory, `tail` being what the
rest of the pattern takes. -/
def zvolMatch (tail : List Char → Option (List Char)) : List Char → Option (List Char)
  | [] => none
  | c :: rest =>
    match (behindZvol (c :: rest)).bind tail with
    | some dataset => some dataset
    | none => zvolMatch tail rest

/-- `/\/dev\/zvol\/r?dsk\/(?<dataset>.+)$/u` -/
def deviceDataset (text : String) : Option String :=
  (zvolMatch (fun rest => if rest ≠ [] ∧ rest.all (!isLineTerminator ·) then some rest else none)
    text.toList).map String.ofList

/-- `/\/dev\/zvol\/(?:r)?dsk\/(?<dataset>.+)/` -/
def specialDataset (text : String) : Option String :=
  (zvolMatch (fun rest => some (rest.takeWhile (!isLineTerminator ·)) |>.filter (· ≠ []))
    text.toList).map String.ofList

/-- `/^(?:bootdisk|disk\d+)$/u` -/
def isDiskName (name : String) : Bool := name = "bootdisk" || (diskNumber? name).isSome

def addDisk (value : Json) : Option String :=
  (match value with
    | .str s => some s
    | value => textField "path" value).filter (· ≠ "")

def entries : Json → List (String × Json)
  | .obj entries => entries
  | _ => []

def itemsOf (key : String) (config : Json) : List Json :=
  ((config.field key).bind Json.items?).getD []

variable (host : Host)

def attrDataset (attr : Json) : Option (List String) :=
  match (attr.field "name").filter Json.truthy with
  | none => some []
  | some name =>
    if name.hasText then
      some (if isDiskName (textOf host.toText name) then
        ((attr.field "value").bind addDisk).toList else [])
    else none

def collectZoneDiskDatasets (config : Json) : Option (List String) := do
  let keyed := (entries config).filterMap fun e => if isDiskName e.1 then addDisk e.2 else none
  let attrs ← (itemsOf "attr" config).mapM (attrDataset host)
  let devices := (itemsOf "device" config).filterMap fun device =>
    (textField "match" device).bind deviceDataset
  return keyed ++ attrs.flatten ++ devices

end DiskReferences

section Collection

/-- A zonepath without its leading `/` and its trailing `/path`. -/
def zonepathDataset (zonepath : String) : String :=
  let name := match zonepath.toList with
    | '/' :: rest => rest
    | name => name
  String.ofList (if "/path".toList.isSuffixOf name then name.take (name.length - 5) else name)

def collectZonepathDatasets (config : Json) : Option (List Json) :=
  match (config.field "zonepath").filter Json.truthy with
  | none => some []
  | some (.str zonepath) => some [.str (zonepathDataset zonepath)]
  | some _ => none

/-- `Array.isArray(value) ? value : [value]` of a truthy value. -/
def oneOrMany (value : Option Json) : List Json :=
  match value.filter Json.truthy with
  | none => []
  | some (.arr items) => items
  | some value => [value]

def fsDataset (fs : Json) : Option (List Json) :=
  if fs = .null then none
  else
    match (fs.field "special").filter Json.truthy with
    | none => some []
    | some (.str special) =>
      some (if "/".toList.isPrefixOf special.toList then
        ((specialDataset special).map Json.str).toList else [.str special])
    | some _ => none

def delegatedDataset (ds : Json) : Option (List Json) :=
  if ds = .null then none else some ((ds.field "name").filter Json.truthy).toList

def collectMiscDatasets (config : Json) : Option (List Json) := do
  let filesystems ← (oneOrMany (config.field "fs")).mapM fsDataset
  let delegated ← (oneOrMany (config.field "dataset")).mapM delegatedDataset
  return filesystems.flatten ++ delegated.flatten

variable (host : Host)

def collectPotentialDatasets (config : Json) : Option (List Json) := do
  let zonepath ← collectZonepathDatasets config
  let disks ← collectZoneDiskDatasets host config
  let misc ← collectMiscDatasets config
  return (zonepath ++ disks.map Json.str ++ misc).eraseDups

/-- The configuration of the machine's row; without one the row is synced from the system first. -/
def getZoneConfigurationForCleanup (row : Option Json) : Option Json :=
  match row with
  | some (.str text) =>
    match host.parse text with
    | none => none
    | some config => if config.truthy then some config else host.synced
  | some config => if config.truthy then some config else host.synced
  | none => host.synced

def verifyDatasets (potential : List Json) : List String :=
  potential.filterMap fun ds =>
    if ds.hasText then (host.listed (textOf host.toText ds)).filter (· ≠ "") else none

def extractZoneDatasets (row : Option Json) : List String :=
  match (getZoneConfigurationForCleanup host row).filter Json.truthy with
  | none => []
  | some config => ((collectPotentialDatasets host config).map (verifyDatasets host)).getD []

end Collection

section Protection

/-- What a reading added to the set, and whether it went through. -/
structure Reading where
  values : List Json
  completed : Bool

def Reading.andThen (first second : Reading) : Reading :=
  if first.completed then ⟨first.values ++ second.values, second.completed⟩ else first

def protectZonepath (config : Json) : Reading :=
  match (config.field "zonepath").filter Json.truthy with
  | none => ⟨[], true⟩
  | some (.str zonepath) => ⟨[.str zonepath, .str (zonepathDataset zonepath)], true⟩
  | some zonepath => ⟨[zonepath], false⟩

def pathOf (disk : Json) : List Json := ((disk.field "path").filter Json.truthy).toList

def protectBootdisk (config : Json) : Reading :=
  ⟨((config.field "bootdisk").map pathOf).getD [], true⟩

def protectDisks : List Json → Reading
  | [] => ⟨[], true⟩
  | disk :: rest =>
    if disk = .null then ⟨[], false⟩
    else (Reading.mk (pathOf disk) true).andThen (protectDisks rest)

def protectConfig (config : Json) : Reading :=
  if config = .null then ⟨[], false⟩
  else (protectZonepath config).andThen
    ((protectBootdisk config).andThen (protectDisks (oneOrMany (config.field "disk"))))

def protectOthers (excludeZoneName : String) : KeyedList String Json → Reading
  | [] => ⟨[], true⟩
  | (zoneName, config) :: rest =>
    if zoneName = excludeZoneName then protectOthers excludeZoneName rest
    else (protectConfig config).andThen (protectOthers excludeZoneName rest)

/-- `allZones` is what `zadm show` prints, if it can be read. -/
def getProtectedDatasets (excludeZoneName : String) (allZones : Option (KeyedList String Json)) :
    List Json :=
  match allZones with
  | none => []
  | some configs => (protectOthers excludeZoneName configs).values

/-- Whether a protected text is the dataset or starts like something below it. -/
def matchesProtected (dataset protectedDs : List Char) : Bool :=
  protectedDs = dataset || (dataset ++ ['/']).isPrefixOf protectedDs ||
    ('/' :: dataset ++ ['/']).isPrefixOf protectedDs

/-- `Array.from(protectedDatasets).some(...)`: a value that is no text has no `startsWith`. -/
def isProtected (dataset : String) : List Json → Option Bool
  | [] => some false
  | .str protectedDs :: rest =>
    if matchesProtected dataset.toList protectedDs.toList then some true
    else isProtected dataset rest
  | _ :: _ => none

end Protection

section Cleanup
variable (host : Host)

def readDatasetSource (dataset : String) : Option String :=
  (host.stamp dataset).filter fun value => value ≠ "" ∧ value ≠ "-"

/-- Whether the dataset is one this agent created and still has. -/
def Host.owns (dataset : String) : Bool :=
  host.present dataset && (readDatasetSource host dataset).isSome

/-- Whether `zfs destroy -r` is issued for the dataset. -/
def processSingleDataset (protectedDatasets : List Json) (dataset : String) : Bool :=
  isProtected dataset protectedDatasets = some false && host.owns dataset

def cleanupZoneDatasets (zoneName : String) (allZones : Option (KeyedList String Json))
    (datasets : List String) : List String :=
  (datasets.insertionSort fun a b => a.length ≤ b.length).filter
    (processSingleDataset host (getProtectedDatasets zoneName allZones))

def cleanupRequested (metadata : Option Json) : Bool :=
  ((metadata.bind (Json.field "cleanup_disks")).map Json.isTrue).getD false

/-- The datasets `executeDeleteTask` issues `zfs destroy -r` for. -/
def executeDeleteTask (zoneName : String) (metadata row : Option Json)
    (allZones : Option (KeyedList String Json)) : List String :=
  if cleanupRequested metadata && host.uninstalls && host.deletes then
    cleanupZoneDatasets host zoneName allZones (extractZoneDatasets host row)
  else []

end Cleanup

end ZoneweaverAgent.DatasetCleanup
