import Mathlib.Data.List.Sort
import ZoneweaverAgent.DiskLayout
import ZoneweaverAgent.TemplateMove

/-!
# The configuration of a new machine

`executeZoneCreateConfigTask` makes the zone's configuration with one `zonecfg` command after the
other and its further disks with `zfs` commands in parallel. What it takes back when it fails is the
configuration, and only once all of this went through. The content of the configuration is left out;
a dataset carries the disk entry that made it, if this task did.
-/

namespace ZoneweaverAgent.ConfigTask
open ZoneDocument DiskSpec FallibleRun
open MachineDisks (Host diskField additionalDisks volumePath diskName)
open StorageCreation (parentName)
open DiskLayout (Name)
open TemplateMove (Outcome)

structure World where
  configured : Bool
  tree : KeyedList Name (Option ℕ)

/-- The ways of the commands and of the last `task.update`; `turn` is the moment a parallel disk
command is executed. `cpuValue` is `buildCpuValue`, nothing where it throws, and `isoPath` the path
of a registered ISO. -/
structure Outcomes where
  metadataParses : Bool
  storageTaskFound : Bool
  storageMetadataParses : Bool
  create : Outcome
  attributes : Outcome
  bootdisk : Outcome
  turn : ℕ → ℕ
  disk : ℕ → Outcome
  stampDisk : ℕ → Bool
  inUse : ℕ → Bool
  disks : Outcome
  cdroms : Outcome
  filesystems : Outcome
  nics : Outcome
  cloudInit : Outcome
  update : Bool
  delete : Outcome

structure Settings extends Host where
  guestAgentEnabled : Bool
  cpuValue : Option Json → Option Json → Option Json → Option (Option Json)
  toUpperCase : String → String
  artifactStorage : Bool
  isoPath : Json → Option Json

section Commands

/-- A command on the content of the configuration. -/
def zonecfg (o : Outcome) : Run World Unit := require (o = .works)

/-- `zonecfg create` fails where there is a configuration. -/
def createZone (o : Outcome) : Run World Unit := fun w =>
  if w.configured then .error w
  else
    match o with
    | .works => .ok ((), { w with configured := true })
    | .late => .error { w with configured := true }
    | .fails => .error w

/-- `zonecfg delete -F` -/
def deleteZone (o : Outcome) (w : World) : World :=
  if o = .fails then w else { w with configured := false }

/-- The dataset `path` is made, over an existing one only by `zfs recv -F`. -/
def make (o : Outcome) (index : ℕ) (overwrites : Bool) (path : Name)
    (tree : KeyedList Name (Option ℕ)) : Bool × KeyedList Name (Option ℕ) :=
  if tree.has (parentName path) && (overwrites || !tree.has path) && o ≠ .fails then
    (o = .works, tree.set path (some index))
  else (false, tree)

end Commands

section Configuration
variable (o : Outcomes) (settings : Settings) (zoneName : String) (metadata : Document)

/-- `metadata.section?.key` -/
def under (key field : String) : Option Json := (metadata.get key).bind (Json.field field)

/-- `a || b` -/
def orElse (a b : Option Json) : Option Json :=
  match a.filter Json.truthy with
  | some value => some value
  | none => b

def brand : Option Json := orElse (under metadata "zones" "brand") (metadata.get "brand")

def bhyveBootromDefault : Json :=
  let firmwareType := (under metadata "settings" "firmware_type").getD .null
  if settings.toUpperCase (settings.text (orElseTruthy firmwareType (.str ""))) = "BIOS" then
    .str "BHYVE_RELEASE_CSM"
  else .str "BHYVE_RELEASE"

/-- The values of the attribute map; nothing where `buildCpuValue` throws. -/
def buildZoneAttributeMap : Option (List (Option Json)) :=
  (settings.cpuValue (under metadata "zones" "cpu_configuration")
    (under metadata "zones" "complex_cpu_conf")
    (orElse (under metadata "settings" "vcpus") (metadata.get "vcpus"))).map fun vcpus =>
      let either (key : String) := orElse (under metadata "zones" key) (metadata.get key)
      [orElse (under metadata "settings" "memory") (metadata.get "ram"), vcpus,
        orElse (either "bootrom") (if brand metadata = some (.str "bhyve") then
          some (bhyveBootromDefault settings metadata) else none),
        either "hostbridge", either "diskif", either "netif",
        orElse (under metadata "settings" "os_type") (metadata.get "os_type"),
        either "vnc", either "acpi", either "xhci", either "bootorder", either "bootnext",
        under metadata "zones" "boot_priority", under metadata "settings" "consoleport",
        under metadata "settings" "consolehost"]

/-- Whether there is an `extra` attribute. -/
def hasExtra : Bool :=
  ((under metadata "zones" "extra").bind Json.text?).any (· ≠ "") ||
    (settings.guestAgentEnabled && under metadata "zones" "guest_agent" = some (.bool true) &&
      brand metadata = some (.str "bhyve"))

/-- Whether there is a batch of attributes; nothing where building it throws. -/
def hasAttributes : Option Bool :=
  (buildZoneAttributeMap settings metadata).map fun values =>
    values.any (fun value => (value.filter (· ≠ .null)).isSome) || hasExtra settings metadata

def applyAttributes : Run World Unit :=
  match hasAttributes settings metadata with
  | none => stop
  | some attrs => if attrs = true then zonecfg o.attributes else return ()

def applyZoneConfig : Run World Unit := do
  createZone o.create
  applyAttributes o settings metadata

def configureBootdisk (bootdiskPath : Option Json) : Run World Unit :=
  if (bootdiskPath.map Json.truthy).getD false then zonecfg o.bootdisk else return ()

/-- The volume of an entry; any other type than blank and template attaches a path. -/
def diskVolume (index : ℕ) (disk : Json) : Option Name :=
  if textField "type" disk = some "blank" ∨ textField "type" disk = some "template" then
    some (volumePath settings.toHost zoneName (metadata.get "server_id") (diskName index)
      disk).toList
  else none

/-- `zfs recv -F` -/
def receives (disk : Json) : Bool :=
  textField "type" disk = some "template" && textField "clone_strategy" disk ≠ some "clone"

def configureDisk (job : ℕ × Json) (tree : KeyedList Name (Option ℕ)) :
    Bool × KeyedList Name (Option ℕ) :=
  match diskVolume settings zoneName metadata job.1 job.2 with
  | some path =>
    let made := make (o.disk job.1) job.1 (receives job.2) path tree
    (made.1 && o.stampDisk job.1, made.2)
  | none => (!o.inUse job.1 || job.2.field "force" = some (.bool true), tree)

/-- Every command is executed, whatever becomes of the others. -/
def configureDisks : List (ℕ × Json) → KeyedList Name (Option ℕ) →
    Bool × KeyedList Name (Option ℕ)
  | [], tree => (true, tree)
  | job :: jobs, tree =>
    let first := configureDisk o settings zoneName metadata job tree
    let rest := configureDisks jobs first.2
    (first.1 && rest.1, rest.2)

/-- The parallel disk commands by the moment they are executed; an entry `null` throws when its
command is built. -/
def diskJobs : List (ℕ × Json) :=
  (((additionalDisks metadata).takeWhile (· ≠ .null)).mapIdx fun index disk =>
    (index, disk)).insertionSort fun a b => o.turn a.1 ≤ o.turn b.1

def configureAdditionalDisks : Run World Unit :=
  if additionalDisks metadata = [] then return ()
  else do
    let made ← fun w : World =>
      let made := configureDisks o settings zoneName metadata (diskJobs o metadata) w.tree
      .ok (made.1, { w with tree := made.2 })
    require (made && .null ∉ additionalDisks metadata)
    zonecfg o.disks

/-- Nothing where the ISO is not registered, so that it throws; `some none` skips the entry. -/
def resolveCdromPath (cdrom : Json) : Option (Option Json) :=
  if cdrom = .null then none
  else if carries "path" cdrom then some (cdrom.field "path")
  else
    match (cdrom.field "iso").filter Json.truthy with
    | none => some none
    | some iso => if settings.artifactStorage then (settings.isoPath iso).map some else none

def configureCdroms : Run World Unit :=
  match (listField "cdroms" ((metadata.get "disks").getD .null)).mapM
      (resolveCdromPath settings) with
  | none => stop
  | some resolved =>
    if resolved.any fun path => (path.map Json.truthy).getD false then zonecfg o.cdroms
    else return ()

/-- The entries of a list-valued key of the document. -/
def listOf (key : String) : List Json := ((metadata.get key).bind Json.items?).getD []

def configureFilesystems : Run World Unit :=
  if (listOf metadata "filesystems").all (carries "special") then
    if listOf metadata "filesystems" = [] then return () else zonecfg o.filesystems
  else stop

/-- A name is generated for a NIC that names no link; an id that is no text cannot be padded. -/
def nicThrows (nic : Json) : Bool :=
  nic = .null || (!carries "physical" nic &&
    ((metadata.get "server_id").filter Json.truthy).any fun id => id.text?.isNone)

def configureNics : Run World Unit :=
  if listOf metadata "nics" = [] then return ()
  else if (listOf metadata "nics").any (nicThrows metadata) then stop
  else zonecfg o.nics

def configureCloudInit : Run World Unit :=
  if ["enabled", "dns_domain", "password", "resolvers", "sshkey"].any fun key =>
      ((under metadata "cloud_init" key).map Json.truthy).getD false then zonecfg o.cloudInit
  else return ()

def applyAllZoneConfig (bootdiskPath : Option Json) : Run World Unit := do
  applyZoneConfig o settings metadata
  configureBootdisk o bootdiskPath
  configureAdditionalDisks o settings zoneName metadata
  configureCdroms o settings metadata
  configureFilesystems o metadata
  configureNics o metadata
  configureCloudInit o metadata

end Configuration

section Task
variable (o : Outcomes) (settings : Settings) (zoneName : String)

/-- The document with the storage task's `server_id`. -/
def withServerId (metadata storageMetadata : Document) : Document :=
  match storageMetadata.get "server_id" with
  | some id => metadata.set "server_id" id
  | none => metadata.erase "server_id"

/-- Whether the task succeeds, and what it leaves once its parallel commands have ended. -/
def executeZoneCreateConfigTask (metadata storageMetadata : Document) (w : World) : Bool × World :=
  if o.metadataParses && o.storageTaskFound && o.storageMetadataParses then
    match applyAllZoneConfig o settings zoneName (withServerId metadata storageMetadata)
        (under storageMetadata "_execution_output" "bootdiskPath") w with
    | .error w => (false, w)
    | .ok (_, w) => if o.update then (true, w) else (false, deleteZone o.delete w)
  else (false, w)

/-- The host before the task: no dataset is this task's. -/
def before (configured : Bool) (existing : List Name) : World :=
  ⟨configured, existing.map fun name => (name, none)⟩

/-- A failed task leaves the configuration and the datasets as it found them. -/
def UndoesItself (metadata storageMetadata : Document) (configured : Bool) (existing : List Name) :
    Prop :=
  let w := before configured existing
  let ended := executeZoneCreateConfigTask o settings zoneName metadata storageMetadata w
  ended.1 = false →
    ended.2.configured = w.configured ∧ ∀ name, ended.2.tree.get name = w.tree.get name

end Task

end ZoneweaverAgent.ConfigTask
