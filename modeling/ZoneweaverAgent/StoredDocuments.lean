import ZoneweaverAgent.HostsYaml
import ZoneweaverAgent.MachineDisks

/-!
# The documents the agent stores

A machine's document comes from a create body or from the metadata of a clone, which the pipeline
stores as it is, and later only the agent's own writers change it. `zadm` is what `zadm` prints of a
new zone.
-/

namespace ZoneweaverAgent.StoredDocuments
open ZoneDocument DiskSpec HostsYaml MachineDisks

/-- The configuration of the provisioning network. -/
structure ProvisioningNetwork where
  enabled : Bool
  etherstubName : String
  netmask : String
  hostIp : String

structure Agent where
  host : Host
  toNumber : Json → Option ℚ
  network : ProvisioningNetwork

def Agent.conv (agent : Agent) : Conversions where
  toText := agent.host.toText
  toNumber := agent.toNumber

section Networks

def networkList (body : Document) : List Json := ((body.get "networks").bind Json.items?).getD []

def isProvisional (net : Json) : Bool := ((net.field "provisional").map Json.isTrue).getD false

def attachProvisioningNetwork (netConfig : ProvisioningNetwork) (body : Document) : Document :=
  if !netConfig.enabled then body
  else if (networkList body).any isProvisional then body.set "networks" (.arr (networkList body))
  else
    let flag := match body.get "remove_transport_on_completion" with
      | some (.bool remove) => [("remove_on_completion", Json.bool remove)]
      | _ => []
    let entry := Json.obj ([("type", .str "internal"), ("bridge", .str netConfig.etherstubName),
      ("netmask", .str netConfig.netmask), ("gateway", .str netConfig.hostIp),
      ("dhcp4", .bool true), ("dhcp6", .bool false), ("is_control", .bool true),
      ("provisional", .bool true)] ++ flag)
    body.set "networks" (.arr (networkList body ++ [entry]))

def declareDns (net : Json) : Json :=
  match net, net.field "dns" with
  | .obj entries, some (.arr dns) =>
    let kept := dns.filter fun entry => !(entry.text?.map isBlank).getD false
    .obj (KeyedList.set entries "dns" (.arr (kept.map fun
      | .str nameserver => .obj [("nameserver", .str nameserver)]
      | entry => entry)))
  | net, _ => net

def declareNetworkDns (body : Document) : Document :=
  match body.get "networks" with
  | some (.arr networks) => body.set "networks" (.arr (networks.map declareDns))
  | _ => body

/-- What it makes of the sections; the derived nics are no part of the document. -/
def prepareNetworkSections (netConfig : ProvisioningNetwork) (body : Document) : Document :=
  let attaches := ((body.get "provisioner_ref").map Json.truthy).getD false
  declareNetworkDns (if attaches then attachProvisioningNetwork netConfig body else body)

end Networks

section Creation
variable (agent : Agent)

def validateCreateBody (body : Document) : Bool :=
  ((body.get "settings").map (carries "hostname")).getD false &&
    ((body.get "settings").map (carries "domain")).getD false &&
    ((body.get "zones").map (carries "brand")).getD false &&
    (consoleportRangeError agent.conv (settingsField "consoleport" body)).isNone &&
    (vcpusCountError agent.conv (settingsField "vcpus" body)).isNone

def prepareAndValidateDisks (body : Document) : Option Document := do
  let body ← normalizeDisks (prepareNetworkSections agent.network body)
  if (validateDisksWire agent.host.toText body).errors = [] then return body else none

/-- Whether a box is looked up for the boot entry. -/
def resolvesBox (body : Document) : Bool :=
  decide ((diskField "boot" body).bind (textField "type") = some "template") &&
    ((settingsField "box" body).map Json.truthy).getD false &&
    !((diskField "boot" body).map (carries "template_dataset")).getD false

/-- `templateDataset` is the dataset of the box, where it is local. -/
def enrichBootTemplate (templateDataset : Option String) (body : Document) : Option Document :=
  match templateDataset with
  | none => some body
  | some dataset =>
    if !resolvesBox body || dataset = "" then some body
    else do
      let disks ← body.get "disks"
      let boot ← setProperty "template_dataset" (.str dataset) (← disks.field "boot")
      return body.set "disks" (← setProperty "boot" boot disks)

def storeDocument (metadata zadm : Document) : Document :=
  (Mutation.storeInfrastructureConfig metadata).effect zadm

/-- The document of a machine created from the body; nothing where the wire refuses it. -/
def createdDocument (body zadm : Document) (templateDataset : Option String) :
    Option Document := do
  if !validateCreateBody agent body then none
  else
    let body ← prepareAndValidateDisks agent body
    let body ← enrichBootTemplate templateDataset body
    return storeDocument body zadm

end Creation

section Clone
variable (agent : Agent)

structure CloneRequest where
  settings : Document
  overrides : Document
  /-- The snapshot the disks are built from, or none for a rebuild from the document. -/
  snapshotName : Option String
  cloneStrategy : String
  metadataName : String

def mergedSettings (request : CloneRequest) (sourceConfig : Document) : Document :=
  KeyedList.setAll (KeyedList.setAll
    (KeyedList.erase (KeyedList.erase (spread (sourceConfig.get "settings")) "server_id")
      "consoleport") request.settings) request.overrides

structure SnapshotInfo where
  snapshotName : String
  sources : CloneSources

def present (key : String) : Option Json → Document
  | some value => [(key, value)]
  | none => []

def templateKeys (dataset : Option Json) (snapshotName cloneStrategy : String) : Document :=
  [("type", .str "template")] ++ present "template_dataset" dataset ++
    [("snapshot_name", .str snapshotName), ("clone_strategy", .str cloneStrategy),
      ("provenance", .str "clone")]

def cloneAdditional (snapshotName cloneStrategy : String) (source : CloneSource) : Json :=
  let image : Bool := textField "type" source.entry = some "image"
  let base : Document :=
    if image then [("volume_name", .str (diskName source.index))] else spread (some source.entry)
  .obj (KeyedList.setAll (KeyedList.erase (KeyedList.erase base "path") "force")
    (templateKeys source.dataset snapshotName (if image then "copy" else cloneStrategy)))

def cloneDisks (sourceConfig : Document) (cloneStrategy : String) (info : SnapshotInfo) : Json :=
  let boot := KeyedList.setAll (spread (diskField "boot" sourceConfig))
    (templateKeys info.sources.bootDataset info.snapshotName cloneStrategy)
  .obj (KeyedList.setAll (spread (sourceConfig.get "disks"))
    [("boot", .obj boot), ("additional_disks",
      .arr (info.sources.additional.map (cloneAdditional info.snapshotName cloneStrategy)))])

def cloneNetwork (net : Json) : Json :=
  let netCopy := KeyedList.erase (spread (some net)) "address"
  let netCopy :=
    if ((netCopy.get "mac").map Json.truthy).getD false then netCopy.set "mac" (.str "auto")
    else netCopy
  .obj (if ((netCopy.get "provisional").map Json.isTrue).getD false then
    netCopy.set "dhcp4" (.bool true) else netCopy)

/-- The `disks` of a clone: built from snapshots, or those of the source. -/
def cloneDisksSection (request : CloneRequest) (sourceConfig : Document) :
    Option SnapshotInfo → Option Json
  | some info => some (cloneDisks sourceConfig request.cloneStrategy info)
  | none => sourceConfig.get "disks"

/-- Nothing where the networks of the source are no list, so that it throws. -/
def buildCloneMetadata (request : CloneRequest) (sourceConfig : Document)
    (info : Option SnapshotInfo) : Option Document :=
  match orElseTruthy (sourceConfig.get "networks") (.arr []) with
  | .arr networks =>
    some ([("settings", .obj (mergedSettings request sourceConfig))] ++
      present "zones" (sourceConfig.get "zones") ++
      [("networks", .arr (networks.map cloneNetwork))] ++
      present "disks" (cloneDisksSection request sourceConfig info) ++
      present "cloud_init" (sourceConfig.get "cloud_init") ++
      present "provisioner" (sourceConfig.get "provisioner") ++
      present "provisioner_ref" (sourceConfig.get "provisioner_ref") ++
      [("name", .str request.metadataName)])
  | _ => none

/-- The sources of the clone's disks, if the request asks for the current state; nothing where they
cannot be determined. -/
def resolveCloneDiskSources (source : String) (request : CloneRequest) (sourceConfig : Document) :
    Option (Option SnapshotInfo) :=
  match request.snapshotName with
  | none => if (diskField "boot" sourceConfig).any Json.truthy then some none else none
  | some snapshotName => do
    let sources ← cloneSourceDatasets agent.host source sourceConfig
    if sources.bootDataset.any Json.truthy then return some { snapshotName, sources } else none

/-- The document of a clone; nothing where the request is refused. -/
def clonedDocument (source : String) (request : CloneRequest) (sourceConfig zadm : Document) :
    Option Document := do
  if !((request.settings.get "hostname").map Json.truthy).getD false then none
  else
    let info ← resolveCloneDiskSources agent source request sourceConfig
    let metadata ← buildCloneMetadata request sourceConfig info
    return storeDocument (prepareNetworkSections agent.network metadata) zadm

end Clone

section Mutations

def credentialFields : List String :=
  ["vagrant_user", "vagrant_user_pass", "vagrant_user_private_key_path"]

/-- The agent's own changes of a document. -/
inductive AgentMutation
  | resizeDisk (diskName dataset size : String)
  | addDisks (number : ℕ) (disks : List Json)
  | removeDisks (datasets : List String)
  | setNetworkKey (index : ℕ) (key : String) (value : Json)
  | setNetworkAddress (index : ℕ) (address : Json)
  | removeNetwork (index : ℕ)
  | mergeCredentials (keys : Document)

/-- The document entries of new disks, numbered from `number` on. -/
def documentEntries (host : Host) (zoneName : String) (number : ℕ) :
    List Json → Option (List Json)
  | [] => some []
  | disk :: disks => do
    let addition ← addDisk host zoneName number disk
    return addition.entry :: (← documentEntries host zoneName (number + 1) disks)

/-- The changed document; nothing where the writer refuses or throws. -/
def AgentMutation.mutate (host : Host) (zoneName : String) (doc : Document) :
    AgentMutation → Option Document
  | resizeDisk diskName dataset size =>
    if size = "" then none else setDocumentDiskSize diskName dataset size doc
  | addDisks number disks => do
    appendDocumentDisks (← documentEntries host zoneName number disks) doc
  | removeDisks datasets => removeDocumentDisks datasets doc
  | setNetworkKey index key value => setDocumentNetworkKey index key value doc
  | setNetworkAddress index address => setDocumentNetworkAddress index address doc
  | removeNetwork index => removeDocumentNetworkEntry index doc
  | mergeCredentials keys =>
    if keys.keys ⊆ credentialFields then mergeSettingsKeys keys doc else none

end Mutations

inductive Label
  | create (name : String) (body zadm : Document) (templateDataset : Option String)
  | clone (source name : String) (request : CloneRequest) (zadm : Document)
  | mutate (name : String) (mutation : AgentMutation)

/-- The stored documents by zone name. -/
abbrev Fleet := KeyedList String Document

def step (agent : Agent) (fleet : Fleet) : Label → Option Fleet
  | .create name body zadm templateDataset =>
    (createdDocument agent body zadm templateDataset).map fun doc => KeyedList.set fleet name doc
  | .clone source name request zadm => do
    let sourceConfig ← fleet.get source
    (clonedDocument agent source request sourceConfig zadm).map fun doc =>
      KeyedList.set fleet name doc
  | .mutate name mutation => do
    let doc ← fleet.get name
    (mutation.mutate agent.host name doc).map fun doc => KeyedList.set fleet name doc

end ZoneweaverAgent.StoredDocuments
