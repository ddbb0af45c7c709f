import ZoneweaverAgent.FallibleRun
import ZoneweaverAgent.MachineDisks
import ZoneweaverAgent.PathTree

/-!
# Storage of a machine create

`executeZoneCreateStorageTask` materializes the declared boot disk with `zfs` commands and tracks
what the rollback of a failed run destroys with all its descendants. A command that fails changes
nothing; `zfs create -p` creates the dataset and every missing ancestor and also succeeds on one
that exists.
-/

namespace ZoneweaverAgent.StorageCreation
open ZoneDocument DiskSpec FallibleRun PathTree
open MachineDisks (Host diskField buildDatasetPath volumePath createServerId)

/-- The datasets that exist, by name. -/
abbrev Pool := List (List Char)

structure Storage where
  pool : Pool
  zfsCreated : List String

/-- What the commands and the database answer, by the place they are asked; `resolved` is the
dataset of the template's row. -/
structure Outcomes where
  resolved : Option Json
  imageListed : Bool
  createRoot : Bool
  stampRoot : Bool
  createVolume : Bool
  stampVolume : Bool
  originGuid : Option String
  replicaGuid : Option String
  createReplicaParent : Bool
  receiveReplica : Bool
  stampReplica : Bool
  cloneOrReceive : Bool
  stampTarget : Bool
  metadataStored : Bool

def create (datasets : Pool) : Run Storage Unit :=
  update fun s => { s with pool := s.pool ++ datasets }

def track (dataset : String) : Run Storage Unit :=
  update fun s => { s with zfsCreated := s.zfsCreated ++ [dataset] }

section Names

/-- `name.split('/').slice(1).join('/')` -/
def behindPool (name : List Char) : List Char := (name.dropWhile (· ≠ '/')).drop 1

/-- `name.split('/').slice(0, -1).join('/')` -/
def parentName (name : List Char) : List Char := (behindPool name.reverse).reverse

variable (host : Host) (zoneName : String) (metadata : Document) (boot : Json)

def bootPool : String := host.orText "pool" host.rootPool boot

def rootDataset : String :=
  buildDatasetPath host zoneName (createServerId host metadata)
    (bootPool host boot ++ "/" ++ host.orText "dataset" "zones" boot)

def bootVolume : String := volumePath host zoneName (createServerId host metadata) "boot" boot

def replicaName (template : String) : List Char :=
  (bootPool host boot).toList ++ '/' :: behindPool template.toList

end Names

section Materialization
variable (o : Outcomes) (host : Host) (zoneName : String) (metadata : Document)

def createZoneRootDataset (root : String) : Run Storage Unit := do
  require o.createRoot
  create (ancestors '/' root.toList)
  track root
  require o.stampRoot

def createBlankVolume (boot : Json) : Run Storage (Option Json) := do
  createZoneRootDataset o (rootDataset host zoneName metadata boot)
  require o.createVolume
  create [(bootVolume host zoneName metadata boot).toList]
  require o.stampVolume
  return some (.str (bootVolume host zoneName metadata boot))

def prepareBootVolume : Run Storage (Option Json) :=
  match (diskField "boot" metadata).filter Json.truthy with
  | none => return none
  | some boot =>
    if textField "type" boot = some "none" ∨ textField "type" boot = some "template" then
      return none
    else if textField "type" boot = some "image" then do
      require o.imageListed
      return boot.field "path"
    else createBlankVolume o host zoneName metadata boot

/-- A template that is no text cannot be split. -/
def ensureLocalizedTemplate (template boot : Json) : Run Storage Unit :=
  match template with
  | .str template =>
    match o.originGuid.filter (· ≠ "") with
    | none => stop
    | some originGuid =>
      match o.replicaGuid.filter (· ≠ "") with
      | some existingGuid => require (existingGuid = originGuid)
      | none => do
        require o.createReplicaParent
        create (ancestors '/' (parentName (replicaName host boot template)))
        require o.receiveReplica
        create [replicaName host boot template]
        require o.stampReplica
  | _ => stop

def localizes (boot : Json) : Bool :=
  orElseTruthy (boot.field "clone_strategy") (.str "copy") = .str "localize"

/-- Makes sure of the dataset to clone; a template's own dataset needs nothing. -/
def cloneSource (boot template : Json) : Run Storage Unit :=
  if localizes boot then ensureLocalizedTemplate o host template boot else pure ()

def copyTemplate (boot template : Json) : Run Storage (Option Json) := do
  createZoneRootDataset o (rootDataset host zoneName metadata boot)
  cloneSource o host boot template
  require o.cloneOrReceive
  create [(bootVolume host zoneName metadata boot).toList]
  track (bootVolume host zoneName metadata boot)
  require o.stampTarget
  return some (.str (bootVolume host zoneName metadata boot))

def importTemplate (template : Option Json) : Run Storage (Option Json) :=
  match diskField "boot" metadata with
  | none => return none
  | some boot =>
    if textField "type" boot = some "template" then
      match template.filter Json.truthy with
      | none => stop
      | some template => copyTemplate o host zoneName metadata boot template
    else return none

def prepareStorage (template : Option Json) : Run Storage (Option Json) := do
  let bootdiskPath ← prepareBootVolume o host zoneName metadata
  if (diskField "boot" metadata).bind (textField "type") = some "template" then
    importTemplate o host zoneName metadata template
  else return bootdiskPath

/-- The template a boot entry names, or the one its box resolves to. -/
def resolveTemplate : Run Storage (Option Json) :=
  match diskField "boot" metadata with
  | none => return none
  | some boot =>
    if textField "type" boot = some "template" ∧ carries "template_dataset" boot = false then
      match o.resolved with
      | none => stop
      | some template => return some template
    else return boot.field "template_dataset"

def storageRun : Run Storage (Option Json) := do
  let template ← resolveTemplate o metadata
  let bootdiskPath ← prepareStorage o host zoneName metadata template
  require o.metadataStored
  return bootdiskPath

end Materialization

/-- A destroy of a dataset that is already gone fails and changes nothing. -/
def rollbackCreation (zoneName : String) (zfsCreated : List String) (pool : Pool) : Pool :=
  if zoneName = "" then pool else removeTrees '/' (zfsCreated.reverse.map String.toList) pool

/-- Whether the task succeeds, and the pool it leaves. Metadata that cannot be parsed, or is no
object, fails the task before any command. -/
def executeZoneCreateStorageTask (o : Outcomes) (host : Host) (zoneName : String)
    (metadata : Option Document) (pool : Pool) : Bool × Pool :=
  match metadata with
  | none => (false, rollbackCreation zoneName [] pool)
  | some metadata =>
    match storageRun o host zoneName metadata ⟨pool, []⟩ with
    | .ok (_, s) => (true, s.pool)
    | .error s => (false, rollbackCreation zoneName s.zfsCreated s.pool)

end ZoneweaverAgent.StorageCreation
