import ZoneweaverAgent.KeyedList
import ZoneweaverAgent.MachineDisks

/-!
# Names and server ids of created machines

A create, multi-host create or clone request checks its server id, its row and its live zone one
after the other, and queues its machines only when every check has passed. The `Zones` row and the
server id in it are written much later, by the finalize sub-task.
-/

namespace ZoneweaverAgent.MachineIdentity
open MachineDisks

/-- A machine as a create body or a `hosts[]` entry states it; `bodyId` is a top-level `server_id`,
and no id is one that JavaScript reads as false. -/
structure Host where
  baseName : String
  settingsId : Option String
  bodyId : Option String
deriving DecidableEq, Repr

inductive Submission
  | create (host : Host)
  | multiHost (hosts : List Host)
  | clone (explicitName : Option String) (baseName : String) (settingsId : Option String)
deriving DecidableEq, Repr

/-- One machine of a request; only a clone has an explicit name. -/
structure Entry where
  explicitName : Option String
  host : Host
deriving DecidableEq, Repr

def Submission.entries : Submission → List Entry
  | .create host => [⟨none, host⟩]
  | .multiHost hosts => hosts.map (⟨none, ·⟩)
  | .clone explicitName baseName settingsId => [⟨explicitName, ⟨baseName, settingsId, none⟩⟩]

structure Refusal where
  status : ℕ
  error : String
deriving DecidableEq, Repr

/-- The `Zones` rows: the server id recorded under each machine name. -/
abbrev Rows := KeyedList String (Option String)

def numeric (id : String) : Bool := id ≠ "" && id.toList.all Char.isDigit

/-- The number a numeric id spells. -/
def idNumber (id : String) : Option ℕ :=
  if numeric id then some (id.toList.foldl (fun n c => n * 10 + (c.toNat - '0'.toNat)) 0)
  else none

def rowWithId (rows : Rows) (id : String) : Option String :=
  (rows.find? fun row => row.2 = some id).map Prod.fst

section Checks
variable (prefixZoneNames : Bool) (rows : Rows)

def resolveZoneName (baseName : String) (settingsId : Option String) : Except Refusal String :=
  if !prefixZoneNames then .ok baseName
  else match settingsId with
    | none => .error ⟨400, "server_id required when prefix_zone_names is enabled"⟩
    | some id =>
      if !numeric id then .error ⟨400, "server_id must be numeric"⟩
      else
        let serverId := padStart4 id
        match rowWithId rows serverId with
        | some _ => .error ⟨409, "Server ID " ++ serverId ++ " is already in use"⟩
        | none => .ok (serverId ++ "--" ++ baseName)

/-- An explicit clone name wins verbatim and skips the server id. -/
def resolveCloneName (explicitName : Option String) (baseName : String)
    (settingsId : Option String) : Except Refusal String :=
  match explicitName with
  | some name => .ok name
  | none => resolveZoneName prefixZoneNames rows baseName settingsId

/-- The database half of `findExistingZoneConflict`. -/
def rowConflict (finalZoneName : String) : Option Refusal :=
  if rows.has finalZoneName then
    some ⟨409, "Zone " ++ finalZoneName ++ " already exists in database"⟩
  else none

end Checks

/-- The live half of `findExistingZoneConflict`, over the zones `zoneadm` lists. -/
def zoneConflict (zones : List String) (finalZoneName : String) : Option Refusal :=
  if finalZoneName ∈ zones then
    some ⟨409, "Zone " ++ finalZoneName ++ " already exists on the system"⟩
  else none

/-- The server id that the finalize sub-task of an entry records. -/
def Entry.recordedId (entry : Entry) : Option String :=
  entry.host.bodyId.or (entry.host.settingsId.map padStart4)

/-- A machine that passed every check, as its task rows will name it. -/
structure Prepared where
  finalZoneName : String
  serverId : Option String
deriving DecidableEq, Repr

/-- How far the checks of a request's current machine are. -/
inductive Progress
  | start
  | named (finalZoneName : String)
  | rowFree (finalZoneName : String)
  | refused (problem : Refusal)
deriving DecidableEq, Repr

structure Request where
  todo : List Entry
  progress : Progress
  prepared : List Prepared
deriving DecidableEq, Repr

namespace Request

def submitted (submission : Submission) : Request := ⟨submission.entries, .start, []⟩

/-- A refused request creates nothing. -/
def refuse (problem : Refusal) : Request := ⟨[], .refused problem, []⟩

def checkServerId (prefixZoneNames : Bool) (rows : Rows) (request : Request) : Option Request :=
  match request.todo, request.progress with
  | entry :: _, .start =>
    match resolveCloneName prefixZoneNames rows entry.explicitName entry.host.baseName
        entry.host.settingsId with
    | .ok name => some { request with progress := .named name }
    | .error problem => some (refuse problem)
  | _, _ => none

def checkRow (rows : Rows) (request : Request) : Option Request :=
  match request.progress with
  | .named name =>
    match rowConflict rows name with
    | some problem => some (refuse problem)
    | none => some { request with progress := .rowFree name }
  | _ => none

/-- The last check, and the duplicate names of a multi-host document. -/
def checkZone (zones : List String) (request : Request) : Option Request :=
  match request.todo, request.progress with
  | entry :: rest, .rowFree name =>
    match zoneConflict zones name with
    | some problem => some (refuse problem)
    | none =>
      if request.prepared.any fun p => p.finalZoneName = name then
        some (refuse ⟨400, "multi-host document names " ++ name ++ " more than once"⟩)
      else
        some ⟨rest, .start, request.prepared ++ [⟨name, entry.recordedId⟩]⟩
  | _, _ => none

end Request

inductive Stage
  | queued
  | configured
  | synced
  | finalized
deriving DecidableEq, Repr

/-- A machine whose orchestration is queued: its sub-tasks carry the name and the id. -/
structure Machine where
  finalZoneName : String
  serverId : Option String
  stage : Stage
deriving DecidableEq, Repr

structure World where
  prefixZoneNames : Bool
  requests : KeyedList ℕ Request
  machines : KeyedList ℕ Machine
  rows : Rows
  zones : List String
deriving DecidableEq, Repr

inductive Label
  | submit (r : ℕ) (submission : Submission)
  | checkServerId (r : ℕ)
  | checkRow (r : ℕ)
  | checkZone (r : ℕ)
  | refuse (r : ℕ) (problem : Refusal)
  | queue (r t : ℕ)
  | storageFails (t : ℕ)
  | configure (t : ℕ)
  | sync (t : ℕ)
  | record (t : ℕ)
deriving DecidableEq, Repr

namespace World
variable (w : World)

def setRequest (r : ℕ) (request : Request) : World :=
  { w with requests := w.requests.set r request }

def setMachine (t : ℕ) (machine : Machine) : World :=
  { w with machines := w.machines.set t machine }

def dropMachine (t : ℕ) : World := { w with machines := w.machines.erase t }

def advance (r : ℕ) (f : Request → Option Request) : Option World :=
  (w.requests.get r).bind fun request => (f request).map (w.setRequest r)

/-- The task rows of the next machine of a request whose machines have all passed. -/
def queue (r t : ℕ) : Option World :=
  match w.requests.get r with
  | some ⟨[], progress, p :: rest⟩ =>
    if w.machines.has t then none
    else some ((w.setRequest r ⟨[], progress, rest⟩).setMachine t
      ⟨p.finalZoneName, p.serverId, .queued⟩)
  | _ => none

def onMachine (t : ℕ) (stage : Stage) (f : Machine → Option World) : Option World :=
  (w.machines.get t).bind fun machine => if machine.stage = stage then f machine else none

/-- The config sub-task: `zonecfg create` refuses a zone that exists. -/
def configure (t : ℕ) (machine : Machine) : World :=
  if machine.finalZoneName ∈ w.zones then w.dropMachine t
  else { w.setMachine t { machine with stage := .configured } with
    zones := w.zones ++ [machine.finalZoneName] }

/-- `syncZoneToDatabase`: a new row has no server id, an existing one keeps its own. -/
def sync (t : ℕ) (machine : Machine) : World :=
  { w.setMachine t { machine with stage := .synced } with
    rows := if w.rows.has machine.finalZoneName then w.rows
      else w.rows.set machine.finalZoneName none }

def idTaken (machine : Machine) : Bool :=
  w.rows.any fun row => row.1 ≠ machine.finalZoneName && row.2.isSome && row.2 = machine.serverId

/-- The server id written into the row; the task fails where the unique column has it already. -/
def record (t : ℕ) (machine : Machine) : Option World :=
  if w.idTaken machine then none
  else some { w.setMachine t { machine with stage := .finalized } with
    rows := w.rows.set machine.finalZoneName machine.serverId }

end World

def step (w : World) : Label → Option World
  | .submit r submission =>
    if w.requests.has r then none else some (w.setRequest r (.submitted submission))
  | .checkServerId r => w.advance r (Request.checkServerId w.prefixZoneNames w.rows)
  | .checkRow r => w.advance r (Request.checkRow w.rows)
  | .checkZone r => w.advance r (Request.checkZone w.zones)
  | .refuse r problem => w.advance r fun _ => some (.refuse problem)
  | .queue r t => w.queue r t
  | .storageFails t => w.onMachine t .queued fun _ => some (w.dropMachine t)
  | .configure t => w.onMachine t .queued fun machine => some (w.configure t machine)
  | .sync t => w.onMachine t .configured fun machine => some (w.sync t machine)
  | .record t => w.onMachine t .synced (w.record t)

/-- Two ids that spell one number. -/
def sameNumber (id id' : Option String) : Bool :=
  (id.bind idNumber).isSome && id.bind idNumber = id'.bind idNumber

structure Unique (w : World) : Prop where
  names : ∀ t t' m m', w.machines.get t = some m → w.machines.get t' = some m' →
    m.finalZoneName = m'.finalZoneName → t = t'
  ids : w.prefixZoneNames = true → ∀ t t' m m', w.machines.get t = some m →
    w.machines.get t' = some m' → sameNumber m.serverId m'.serverId = true → t = t'

/-- A host between requests: every machine is finalized, and no two share an identity. -/
structure Settled (w : World) : Prop where
  noRequests : w.requests = []
  recorded : ∀ t m, w.machines.get t = some m → m.stage = .finalized ∧
    m.finalZoneName ∈ w.zones ∧ w.rows.get m.finalZoneName = some m.serverId
  unique : Unique w

/-- The id that the check of an entry looks up. -/
def Entry.checkedId (entry : Entry) : Option String :=
  if entry.explicitName.isSome then none else entry.host.settingsId.map padStart4

/-- The entries of a request whose server id has been checked and that are not prepared yet. -/
def Request.inCheck (request : Request) : List Entry :=
  match request.todo, request.progress with
  | entry :: _, .named _ => [entry]
  | entry :: _, .rowFree _ => [entry]
  | _, _ => []

/-- The ids that a request has checked and not handed over yet. -/
def Request.checkedIds (request : Request) : List (Option String) :=
  request.prepared.map Prepared.serverId ++ request.inCheck.map Entry.recordedId

/-- What finalize will record is what the check looks up, and no number comes twice. -/
def Submission.Plain (submission : Submission) : Prop :=
  (∀ e ∈ submission.entries, e.recordedId = e.checkedId) ∧
    submission.entries.Pairwise fun e e' => sameNumber e.recordedId e'.recordedId = false

instance (submission : Submission) : Decidable submission.Plain :=
  inferInstanceAs (Decidable (_ ∧ _))

/-- A machine with the id's number is seen by the check: its row is written, in this spelling. -/
def IdSeen (w : World) (id : Option String) : Prop :=
  ∀ tm ∈ w.machines, sameNumber tm.2.serverId id = true →
    tm.2.stage = .finalized ∧ tm.2.serverId = id

instance (w : World) (id : Option String) : Decidable (IdSeen w id) :=
  inferInstanceAs (Decidable (∀ tm ∈ w.machines, _))

/-- No request but `r` is between its checks and its task rows with this identity. -/
def NotPending (w : World) (r : ℕ) (p : Prepared) : Prop :=
  ∀ rq ∈ w.requests, rq.1 ≠ r →
    (∀ p' ∈ rq.2.prepared, p'.finalZoneName ≠ p.finalZoneName) ∧
    (w.prefixZoneNames = true → ∀ id ∈ rq.2.checkedIds, sameNumber p.serverId id = false)

instance (w : World) (r : ℕ) (p : Prepared) : Decidable (NotPending w r p) :=
  inferInstanceAs (Decidable (∀ rq ∈ w.requests, _))

/-- The condition on a step: the checks see what they are there to see. -/
def Fits (w : World) : Label → Prop
  | .submit _ submission => w.prefixZoneNames = true → submission.Plain
  | .checkServerId r => w.prefixZoneNames = true → ∀ request ∈ w.requests.get r,
      ∀ entry ∈ request.todo.head?, IdSeen w entry.recordedId
  | .checkZone r => ∀ request ∈ w.requests.get r, ∀ tm ∈ w.machines,
      request.progress = .rowFree tm.2.finalZoneName → tm.2.stage ≠ .queued
  | .queue r _ => ∀ request ∈ w.requests.get r, ∀ p ∈ request.prepared.head?, NotPending w r p
  | _ => True

instance (w : World) (l : Label) : Decidable (Fits w l) := by
  unfold Fits
  split <;> infer_instance

end ZoneweaverAgent.MachineIdentity
