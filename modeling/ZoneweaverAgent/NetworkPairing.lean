import ZoneweaverAgent.StoredDocuments
import ZoneweaverAgent.VnicNames

/-!
# Document networks and net resources

Entry `i` of `networks[]` and net resource `i` of the zone belong together by position only. Create
derives the one list from the other; `zone_modify` edits the net resources, and the removal of the
provisioning transport edits both.
-/

namespace ZoneweaverAgent.NetworkPairing
open ZoneDocument DiskSpec StoredDocuments

/-- A nic entry on the wire; a value that JavaScript reads as false is none. -/
structure NicEntry where
  physical : Option String
  nicType : Option String
  globalNic : Option Json
  vlanId : Option Json
  macAddr : Option Json
deriving DecidableEq

def NicEntry.named (nic : NicEntry) : VnicNames.Nic := ⟨nic.physical, nic.nicType⟩

/-- A net resource of the zone configuration. -/
structure Net where
  physical : String
  globalNic : Option Json
  vlanId : Option Json
  macAddr : Option Json
deriving DecidableEq

def NicEntry.net (nic : NicEntry) (generated : String) : Net :=
  ⟨nic.physical.getD generated, nic.globalNic, nic.vlanId, nic.macAddr⟩

def truthyField (key : String) (entry : Json) : Option Json :=
  (entry.field key).filter Json.truthy

section Create
variable (toNumber : Json → Option ℚ)

def vlanOf (net : Json) : Option Json :=
  (((net.field "vlan").bind toNumber).filter fun q => q.den = 1 ∧ 0 < q).map .num

def deriveNic (net : Json) : NicEntry where
  physical := none
  nicType := some (if textField "type" net = some "internal" then "internal" else "external")
  globalNic := truthyField "bridge" net
  vlanId := vlanOf toNumber net
  macAddr := (truthyField "mac" net).filter (· ≠ .str "auto")

/-- The nics that a body with networks gets; `bodyNics` are the ones it states itself. -/
def deriveNicsFromNetworks (body : Document) (bodyNics : List NicEntry) : List NicEntry :=
  if networkList body = [] then bodyNics else (networkList body).map (deriveNic toNumber)

end Create

/-- The net resources of the nics from index `start` on. -/
def configureNics (metadata : VnicNames.Metadata) : ℕ → List NicEntry → List Net
  | _, [] => []
  | start, nic :: rest =>
    nic.net (metadata.generateVnicName nic.named start) :: configureNics metadata (start + 1) rest

structure Machine where
  zoneName : String
  metadata : VnicNames.Metadata
  row : VnicNames.Row
  document : Document
  nets : List Net

def Machine.networks (m : Machine) : List Json := networkList m.document

/-- What a create wants of the agent, its body and the zone. -/
structure Creation where
  toNumber : Json → Option ℚ
  network : ProvisioningNetwork
  zoneName : String
  metadata : VnicNames.Metadata
  body : Document
  bodyNics : List NicEntry
  zadm : Document

namespace Creation
variable (c : Creation)

def prepared : Document := prepareNetworkSections c.network c.body

def nics : List NicEntry := deriveNicsFromNetworks c.toNumber c.prepared c.bodyNics

def created : Machine where
  zoneName := c.zoneName
  metadata := c.metadata
  row := ⟨c.metadata.recordedId, c.metadata.recordedVmType, c.nics.length⟩
  document := storeDocument c.prepared c.zadm
  nets := configureNics c.metadata 0 c.nics

end Creation

def addedNets (zoneName : String) (row : VnicNames.Row) : ℕ → List NicEntry → List Net
  | _, [] => []
  | index, nic :: rest =>
    nic.net (VnicNames.addedName zoneName row nic.named index) ::
      addedNets zoneName row (index + 1) rest

def dropNet (physical : String) (nets : List Net) : List Net :=
  nets.filter fun net => net.physical ≠ physical

/-- `zonecfg` refuses to remove a net that is not there. -/
def removeNics (nets : List Net) : List String → Option (List Net)
  | [] => some nets
  | nicName :: rest =>
    if nets.any fun net => net.physical = nicName then removeNics (dropNet nicName nets) rest
    else none

/-- The net resources edited, and the row that `syncZoneToDatabase` makes of them. -/
def Machine.withNets (m : Machine) (nets : List Net) : Machine :=
  { m with nets, row := { m.row with netCount := nets.length } }

def Machine.provisionalIndex (m : Machine) : Option ℕ := m.networks.findIdx? isProvisional

/-- `executeZoneTransportRemoveTask`; `saved` says whether the document reaches the database. -/
def transportRemove (m : Machine) (saved : Bool) : Machine :=
  match m.provisionalIndex with
  | none => m
  | some index =>
    let document := if saved then
        (removeDocumentNetworkEntry index m.document).getD m.document
      else m.document
    match m.nets[index]? with
    | none => { m with document }
    | some net => { m with document, nets := dropNet net.physical m.nets }

inductive Label
  | addNics (nics : List NicEntry)
  | removeNics (nicNames : List String)
  | transportRemove (saved : Bool)

def step (m : Machine) : Label → Option Machine
  | .addNics nics => some (m.withNets (m.nets ++ addedNets m.zoneName m.row 0 nics))
  | .removeNics nicNames => (removeNics m.nets nicNames).map m.withNets
  | .transportRemove saved => some (transportRemove m saved)

section Pairing
variable (toNumber : Json → Option ℚ)

/-- The net resource is the one that create derives from the entry, at some index. -/
def Describes (metadata : VnicNames.Metadata) (entry : Json) (net : Net) : Prop :=
  ∃ index, net = (deriveNic toNumber entry).net
    (metadata.generateVnicName (deriveNic toNumber entry).named index)

def Paired (m : Machine) : Prop :=
  List.Forall₂ (Describes toNumber m.metadata) m.networks m.nets

/-- The removal takes the provisional entry and the net resource at its index, and no other. -/
def RemovesPair (m m' : Machine) : Prop :=
  match m.provisionalIndex with
  | none => m'.networks = m.networks ∧ m'.nets = m.nets
  | some index => m'.nets = m.nets.eraseIdx index ∧
      List.Forall₂ (fun entry entry' => deriveNic toNumber entry' = deriveNic toNumber entry)
        (m.networks.eraseIdx index) m'.networks

end Pairing

/-- A create whose nics are derived from its networks. -/
def Creation.Derived (c : Creation) : Prop := networkList c.prepared = [] → c.bodyNics = []

/-- The condition on a step: `zone_modify` leaves the nets alone, and a removal is saved and finds
an object to hand `is_control` to. -/
def Fits (m : Machine) : Label → Prop
  | .addNics nics => nics = []
  | .removeNics nicNames => nicNames = []
  | .transportRemove saved => ∀ index ∈ m.provisionalIndex, saved = true ∧
      ∀ first ∈ (m.networks.eraseIdx index).head?, first.isObject = true

instance (m : Machine) (l : Label) : Decidable (Fits m l) := by
  unfold Fits
  split <;> infer_instance

end ZoneweaverAgent.NetworkPairing
