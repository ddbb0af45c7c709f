import ZoneweaverAgent.ProvisioningProgramme
import ZoneweaverAgent.Transition

/-!
# Provisioning runs of one machine

A run is built from the stored configuration, its tasks end one way or another, and the step that
carries the mark stamps the configuration. The filters of the next run read the stamp.
-/

namespace ZoneweaverAgent.Provisioning
open Transition

/-- How the executor of a task ends; a cancel that comes while it runs leaves what it has done. -/
inductive Outcome
  | completed
  | cancelled
  | failed
deriving DecidableEq

section Created
variable (ctx : Context) (next : TaskId)

/-- The rows of a pipeline request, those created before a throw included. -/
def pipelineTasks : List Task :=
  match provisioningDatasetPath ctx with
  | none => []
  | some path =>
    let ready := queueInfraSteps ctx path next
    let folders := extractFolders ctx.provisioning
    let synced := queueSyncBracket ctx folders ready.1 ready.2
    match buildProvisioningWalk ctx synced.1 synced.2 with
    | none => synced.1.created
    | some walked =>
      match queueSyncbackBracket ctx folders walked.1 walked.2 with
      | none => walked.1.created
      | some built => (queueTransportRemoval ctx (queueKeyRotation ctx built.1 built.2)
          built.2).created

/-- The rows of an ad-hoc request: the walk alone. -/
def adHocTasks : List Task :=
  match buildProvisioningWalk ctx ⟨next, [], shadowedNote ctx⟩ none with
  | none => []
  | some walked => walked.1.created

end Created

/-- A provisioning run and how it went; `after` is whether the machine is stamped behind it. -/
structure ProvisioningRun where
  ctx : Context
  tasks : List Task
  entered : Bool
  outcome : TaskId → Outcome
  after : Bool

namespace ProvisioningRun
variable (run : ProvisioningRun)

def before : Bool := hasZoneProvisionedBefore run.ctx

/-- Nothing that the task waits for is missing. -/
def released (done : List TaskId) (task : Task) : Bool := task.dependsOn.all fun id => id ∈ done

/-- The tasks that have completed, after what the first one waits for. -/
def done : List TaskId :=
  (works run.tasks).foldl (fun done task =>
    if released done task && run.outcome task.id = .completed then done ++ [task.id] else done)
    (if run.entered then run.ctx.firstDependsOn.toList else [])

/-- The tasks whose executor has been called. -/
def started : List Task := (works run.tasks).filter (released run.done)

/-- The chain has completed through its last task. -/
def completes : Bool := (works run.tasks).all fun task => task.id ∈ run.done

/-- The executor has come to its end. -/
def worked (task : Task) : Bool :=
  task.id ∈ run.done || (released run.done task && run.outcome task.id = .cancelled)

/-- A step that carries the mark has come to its end. -/
def stamps : Bool := (works run.tasks).any fun task => task.final && run.worked task

end ProvisioningRun

/-- A machine's stored configuration and the runs it has been through. -/
structure Machine where
  config : KeyedList String Json
  history : List ProvisioningRun

/-- A request and everything that decides how its run goes. -/
structure Request where
  pipeline : Bool
  base : Context
  next : TaskId
  entered : Bool
  outcome : TaskId → Outcome
  stampWrites : Bool
  date : String
  time : String

inductive Label
  | edit (key : String) (value : Json)
  | run (request : Request)

def isStamped (config : KeyedList String Json) : Bool :=
  ((config.get "provisioner_state").map (truthyField "last_provisioned_at")).getD false

/-- `toISOString` -/
def isoString (date time : String) : String := date ++ "T" ++ time ++ "Z"

def recordProvisionState (config : KeyedList String Json) (now : String) : KeyedList String Json :=
  config.set "provisioner_state" (.obj (KeyedList.set
    (spreadFields (config.get "provisioner_state")) "last_provisioned_at" (.str now)))

namespace Request
variable (request : Request) (config : KeyedList String Json)

/-- The context of a request that is not refused. -/
def context : Option Context :=
  match (config.get "provisioner").filter Json.truthy,
    (config.get "settings").filter Json.truthy with
  | some provisioner, some _ =>
    some { request.base with zoneConfig := .obj config, provisioning := provisioner }
  | _, _ => none

/-- The run of the request, before it is known whether the stamp has been written. -/
def begin (ctx : Context) : ProvisioningRun where
  ctx
  tasks := if request.pipeline then pipelineTasks ctx request.next
    else adHocTasks ctx request.next
  entered := request.entered
  outcome := request.outcome
  after := false

def settled (ctx : Context) : KeyedList String Json :=
  if (request.begin ctx).stamps && request.stampWrites then
    recordProvisionState config (isoString request.date request.time)
  else config

end Request

/-- Everything but a run leaves the provisioning state alone. -/
def step (m : Machine) : Label → Option Machine
  | .edit key value =>
    if key = "provisioner_state" then none else some { m with config := m.config.set key value }
  | .run request => (request.context m.config).map fun ctx =>
    let config := request.settled m.config ctx
    ⟨config, m.history ++ [{ request.begin ctx with after := isStamped config }]⟩

section Property

/-- The walk of the document runs ansible, by its method or by the flat list. -/
def runsPlaybooks (ctx : Context) : Bool :=
  (methodSection ctx).any (fun method => method.1 = "ansible" && enabled method.2) ||
    (!declaresAnsible ctx && flatProvisioners ctx)

/-- What the stamp owes to the history of a machine. -/
structure Faithful (m : Machine) : Prop where
  stamped : ∀ run ∈ m.history,
    run.after = true ↔ run.before = true ∨ run.completes = true
  once : ∀ past run future, m.history = past ++ run :: future →
    (∃ earlier ∈ past, earlier.completes = true) →
      ∀ task ∈ run.started, task.metadata.entryRun ≠ some .once
  notFirst : ∀ past run future, m.history = past ++ run :: future →
    (∃ earlier ∈ past, earlier.completes = true) → runsPlaybooks run.ctx = true →
      ∀ playbook ∈ documentPlaybooks run.ctx.provisioning, playbookRun playbook = .notFirst →
        supportsPlaybook run.ctx playbook = true →
          ∃ task ∈ works run.tasks,
            task.metadata = .playbook run.ctx.target playbook run.ctx.channel ∧
              (run.completes = true → task.id ∈ run.done)

/-- The walk can be built; and on a machine without a stamp, a run that completes has a step with
the mark, and once that step has come to its end the stamp is written and the rest completes. -/
def Fits (m : Machine) : Label → Prop
  | .edit _ _ => True
  | .run request => ∀ ctx ∈ request.context m.config,
    (collectWalkSteps ctx).isSome = true ∧
      (request.pipeline = true → (provisioningDatasetPath ctx).isSome = true) ∧
      (isStamped m.config = false →
        ((request.begin ctx).completes = true →
          (works (request.begin ctx).tasks).any Task.final = true) ∧
        ((request.begin ctx).stamps = true →
          request.stampWrites = true ∧ (request.begin ctx).completes = true))

instance (m : Machine) : (l : Label) → Decidable (Fits m l)
  | .edit _ _ => .isTrue trivial
  | .run request => inferInstanceAs (Decidable (∀ ctx ∈ request.context m.config,
    (collectWalkSteps ctx).isSome = true ∧
      (request.pipeline = true → (provisioningDatasetPath ctx).isSome = true) ∧
      (isStamped m.config = false →
        ((request.begin ctx).completes = true →
          (works (request.begin ctx).tasks).any Task.final = true) ∧
        ((request.begin ctx).stamps = true →
          request.stampWrites = true ∧ (request.begin ctx).completes = true))))

end Property

end ZoneweaverAgent.Provisioning
