import ZoneweaverAgent.KeyedList
import ZoneweaverAgent.MachineDisks

/-!
# Generated VNIC names

Create and modify each name a machine's VNICs after a type character, a vm-type digit, the padded
server id and an index. Create reads the creation metadata and counts its NICs from zero; modify
reads the `Zones` row and counts on from the number of nets the row holds.
-/

namespace ZoneweaverAgent.VnicNames
open MachineDisks

/-- An id or type that JavaScript reads as false is none. -/
structure Metadata where
  settingsId : Option String
  bodyId : Option String
  bodyVmType : Option String
  zonesVmType : Option String
deriving DecidableEq, Repr

structure Nic where
  physical : Option String
  nicType : Option String
deriving DecidableEq, Repr

/-- A net resource; `index` is the number in a generated name, none for a name that was given. -/
structure Net where
  physical : String
  index : Option ℕ
deriving DecidableEq, Repr

structure Row where
  serverId : Option String
  vmType : String
  netCount : ℕ
deriving DecidableEq, Repr

structure Machine where
  metadata : Metadata
  nets : List Net
  row : Option Row
deriving DecidableEq, Repr

abbrev World := KeyedList String Machine

def nicTypeCode (nicType : Option String) : Char :=
  match nicType with
  | some "external" => 'e'
  | some "internal" => 'i'
  | some "carp" => 'c'
  | some "management" => 'm'
  | some "host" => 'h'
  | _ => 'e'

def vmTypeCode (vmType : Option String) : Char :=
  match vmType with
  | some "template" => '1'
  | some "development" => '2'
  | some "production" => '3'
  | some "firewall" => '4'
  | some "other" => '5'
  | _ => '3'

def vnicName (typeChar vmChar : Char) (serverId : String) (index : ℕ) : String :=
  "vnic" ++ String.ofList [typeChar, vmChar] ++ "_" ++ serverId ++ "_" ++ toString index

namespace Metadata
variable (metadata : Metadata)

/-- The server id that the storage sub-task hands to the config sub-task. -/
def configId : Option String := (metadata.settingsId.map padStart4).or metadata.bodyId

/-- The server id that the finalize sub-task writes into the row. -/
def recordedId : Option String := metadata.bodyId.or (metadata.settingsId.map padStart4)

def recordedVmType : String := (metadata.zonesVmType.or metadata.bodyVmType).getD "production"

def paddedId : String := padStart4 (metadata.configId.getD "0")

def generateVnicName (nic : Nic) (index : ℕ) : String :=
  vnicName (nicTypeCode nic.nicType) (vmTypeCode metadata.bodyVmType) metadata.paddedId index

end Metadata

/-- The name of an added NIC, the `index`-th of its request. -/
def addedName (zoneName : String) (row : Row) (nic : Nic) (index : ℕ) : String :=
  match row.serverId with
  | some serverId => vnicName (nicTypeCode nic.nicType) (vmTypeCode (some row.vmType))
      (padStart4 serverId) (row.netCount + index)
  | none => "vnic_" ++ zoneName ++ "_" ++ toString index

/-- The NICs of a request from the `index`-th on, those without a name of their own named by
`name`. -/
def netsOf (name : Nic → ℕ → String) (offset : ℕ) : ℕ → List Nic → List Net
  | _, [] => []
  | index, nic :: rest =>
    (match nic.physical with
    | some physical => ⟨physical, none⟩
    | none => ⟨name nic index, some (offset + index)⟩) :: netsOf name offset (index + 1) rest

def configureNics (metadata : Metadata) (nics : List Nic) : List Net :=
  netsOf metadata.generateVnicName 0 0 nics

/-- The index from which modify counts. -/
def Row.offset (row : Row) : ℕ := if row.serverId.isSome then row.netCount else 0

def addNics (zoneName : String) (row : Row) (nics : List Nic) : List Net :=
  netsOf (addedName zoneName row) row.offset 0 nics

/-- `zonecfg` refuses to remove a net that is not there. -/
def removeNics (nets : List Net) : List String → Option (List Net)
  | [] => some nets
  | nicName :: rest =>
    if nets.any fun net => net.physical = nicName then
      removeNics (nets.filter fun net => net.physical ≠ nicName) rest
    else none

/-- The row after `syncZoneToDatabase`: it holds the nets of the live configuration. -/
def Machine.withNets (machine : Machine) (nets : List Net) : Machine :=
  { machine with nets, row := machine.row.map fun row => { row with netCount := nets.length } }

inductive Label
  | configure (zoneName : String) (metadata : Metadata) (nics : List Nic)
  | finalize (zoneName : String)
  | addNics (zoneName : String) (nics : List Nic)
  | removeNics (zoneName : String) (nicNames : List String)
deriving DecidableEq, Repr

/-- Another row that carries the id, which the unique column refuses. -/
def idTaken (w : World) (zoneName : String) (id : Option String) : Bool :=
  id.isSome && w.any fun e => e.1 ≠ zoneName && (e.2.row.bind Row.serverId) = id

def finalize (machine : Machine) : Machine :=
  { machine with row := some ⟨machine.metadata.recordedId, machine.metadata.recordedVmType,
      machine.nets.length⟩ }

def step (w : World) : Label → Option World
  | .configure zoneName metadata nics =>
    if w.has zoneName then none
    else some (w.set zoneName ⟨metadata, configureNics metadata nics, none⟩)
  | .finalize zoneName =>
    (w.get zoneName).bind fun machine =>
      if idTaken w zoneName machine.metadata.recordedId then none
      else some (w.set zoneName (finalize machine))
  | .addNics zoneName nics =>
    (w.get zoneName).bind fun machine => machine.row.map fun row =>
      w.set zoneName (machine.withNets (machine.nets ++ addNics zoneName row nics))
  | .removeNics zoneName nicNames =>
    (w.get zoneName).bind fun machine => machine.row.bind fun _ =>
      (removeNics machine.nets nicNames).map fun nets => w.set zoneName (machine.withNets nets)

/-- Generated names differ, within a machine and across machines. -/
structure Distinct (w : World) : Prop where
  within : ∀ z m, w.get z = some m → m.nets.Pairwise fun n n' =>
    n.index.isSome = true → n'.index.isSome = true → n.physical ≠ n'.physical
  across : ∀ z z' m m', z ≠ z' → w.get z = some m → w.get z' = some m' →
    ∀ n ∈ m.nets, ∀ n' ∈ m'.nets, n.index.isSome = true → n'.index.isSome = true →
      n.physical ≠ n'.physical

/-- Whatever the number of nets, create and modify have one name for a type and an index. -/
def SameNames (w : World) : Prop :=
  ∀ z m row, w.get z = some m → m.row = some row → ∀ nic count index,
    m.metadata.generateVnicName nic (count + index) =
      addedName z { row with netCount := count } nic index

/-- The index of a net is handed out again when `count` more NICs are numbered from `offset` on. -/
def Net.reused (net : Net) (offset count : ℕ) : Bool :=
  net.index.any fun index => offset ≤ index && index < offset + count

/-- The metadata state one server id, and the vm types of create and of the row have one digit. -/
def Metadata.Agrees (metadata : Metadata) : Prop :=
  metadata.configId.isSome = true ∧ metadata.recordedId = metadata.configId ∧
    vmTypeCode metadata.bodyVmType = vmTypeCode (some metadata.recordedVmType)

instance (metadata : Metadata) : Decidable metadata.Agrees :=
  inferInstanceAs (Decidable (_ ∧ _ ∧ _))

/-- The condition on a step: a create has a server id of its own, an addition no live index. -/
def Fits (w : World) : Label → Prop
  | .configure _ metadata _ =>
    metadata.Agrees ∧ ∀ e ∈ w, e.2.metadata.paddedId ≠ metadata.paddedId
  | .addNics zoneName nics => ∀ machine ∈ w.get zoneName, ∀ row ∈ machine.row,
      ∀ net ∈ machine.nets, net.reused row.offset nics.length = false
  | _ => True

instance (w : World) (l : Label) : Decidable (Fits w l) := by
  unfold Fits
  split <;> infer_instance

end ZoneweaverAgent.VnicNames
