import ZoneweaverAgent.TaskQueueGate
import ZoneweaverAgent.WsStreams

/-!
# Stop and restart requests beside the queue

`stopZone` and `restartZone` queue the stop of a machine, the task that applies its pending changes
and, for a restart, its start. The apply task is created like any other task, and a second write
tells it what it depends on. A request is cut at its awaits: one step is one call, answered or
refused, with the code up to the next call, which touches the request's own variables only. The
requests take their steps between those of the queue, in any order.
-/

namespace ZoneweaverAgent

namespace Table

/-- `task.update({ depends_on })`. -/
def attach (tb : Table) (id dependsOn : TaskId) : Table where
  rows := tb.rows.map (fun t => if t.id = id then { t with dependsOn := some dependsOn } else t)
  next := tb.next
  fresh := by
    intro t ht
    obtain ⟨t₀, h₀, rfl⟩ := List.mem_map.mp ht
    have := tb.fresh t₀ h₀
    split_ifs <;> simpa using this
  unique := by
    rw [List.map_map]
    convert tb.unique using 2
    funext t
    by_cases h : t.id = id <;> simp [h]

@[simp] theorem attach_next (tb : Table) (id d : TaskId) : (tb.attach id d).next = tb.next := rfl

theorem find_attach (tb : Table) (id d id' : TaskId) :
    (tb.attach id d).find id' =
      (tb.find id').map (fun t => if t.id = id then { t with dependsOn := some d } else t) := by
  have hid : (fun t => decide (t.id = id')) ∘
      (fun t : Task => if t.id = id then { t with dependsOn := some d } else t) =
      fun t => decide (t.id = id') := by
    funext t
    by_cases h : t.id = id <;> simp [h]
  simp only [find, attach, List.find?_map, hid]

@[simp] theorem status_attach (tb : Table) (id d id' : TaskId) :
    (tb.attach id d).status id' = tb.status id' := by
  simp only [status, find_attach, Option.map_map]
  congr 1
  funext t
  by_cases h : t.id = id <;> simp [h]

def completedIds (tb : Table) : List TaskId :=
  (tb.select (fun t => t.status = .completed)).map Task.id

theorem mem_completedIds {tb : Table} {id : TaskId} :
    id ∈ tb.completedIds ↔ tb.status id = some .completed := by
  constructor
  · intro h
    obtain ⟨t, ht, rfl⟩ := List.mem_map.mp h
    obtain ⟨hmem, hst⟩ := List.mem_filter.mp ht
    rw [status_of_find (find_eq_some_iff.mpr ⟨hmem, rfl⟩), of_decide_eq_true hst]
  · intro h
    obtain ⟨t, ht, hst⟩ := Option.map_eq_some_iff.mp h
    exact List.mem_map.mpr ⟨t, List.mem_filter.mpr ⟨find_mem ht, decide_eq_true hst⟩, find_id ht⟩

end Table

namespace PowerRequests
open TaskQueue

namespace TaskPriority
def high : ℤ := 80
def medium : ℤ := 60
end TaskPriority

/-! ## The two handlers -/

inductive Kind
  | stop (force : Bool)
  | restart
  deriving DecidableEq

inductive Response
  | invalidName
  | notFound
  | failed
  | alreadyStopped
  | stopAlreadyQueued (taskId : TaskId) (status : Status)
  | stopQueued (taskId : TaskId) (applyChained force : Bool)
  | restartAlreadyQueued (stopTaskId startTaskId : TaskId)
  | restartQueued (stopTaskId startTaskId : TaskId)
  deriving DecidableEq

/-- The call whose answer a request awaits, with the variables that no later call reads. -/
inductive Stage
  | findZone
  | systemStatus
  | cancelStarts
  | existingStop
  | pendingStarts (existingStop : Task)
  | middles (existingStop : Task) (pendingStarts : List Task)
  | createStop
  | createApply
  | attachApply
  | createStart
  | responded (response : Response)
  deriving DecidableEq

structure Request where
  kind : Kind
  zoneName : String
  /-- the keys of the pending set in the zone's row, as the request found it -/
  pending : List String := []
  stopTask : Option TaskId := none
  applyTask : Option TaskId := none
  startTask : Option TaskId := none
  stage : Stage
  deriving DecidableEq

/-- What a call is answered with, as far as the tasks table leaves it open. -/
inductive Outcome
  | zone (pending : Option (List String))
  | status (currentStatus : String)
  | row (id : Option TaskId)
  | only
  deriving DecidableEq

def Request.respond (r : Request) (response : Response) : Request :=
  { r with stage := .responded response }

/-- The name is checked before the first call. -/
def Request.receive (kind : Kind) (zoneName : String) : Request where
  kind := kind
  zoneName := zoneName
  stage := if WsStreams.validateZoneName zoneName then .findZone else .responded .invalidName

def newStop (zoneName : String) (clock : ℕ) : Task :=
  { id := 0, zoneName, operation := "stop", priority := TaskPriority.high, createdAt := clock }

/-- `queueModifyTask`; what is to be modified is the executor's affair. -/
def newModify (zoneName : String) (clock : ℕ) : Task :=
  { id := 0, zoneName, operation := "zone_modify", priority := TaskPriority.medium,
    createdAt := clock }

def newStart (zoneName : String) (dependsOn : Option TaskId) (clock : ℕ) : Task :=
  { id := 0, zoneName, operation := "start", priority := TaskPriority.medium, dependsOn,
    createdAt := clock }

/-- What the start of a restart is created to depend on. -/
def Request.startDependsOn (r : Request) : Option TaskId := r.applyTask.or r.stopTask

/-- Behind `queuePendingApply` and the write that attaches its task. -/
def Request.afterApply (r : Request) : Request :=
  match r.kind, r.stopTask with
  | .stop force, some stop => r.respond (.stopQueued stop r.applyTask.isSome force)
  | _, _ => { r with stage := .createStart }

/-- Into `queuePendingApply`, which makes no call for an empty set. -/
def Request.afterStop (r : Request) : Request :=
  if r.pending.isEmpty then r.afterApply else { r with stage := .createApply }

def openStop (zoneName : String) (t : Task) : Bool :=
  t.zoneName = zoneName && t.operation = "stop" && (t.status = .pending || t.status = .running)

def pendingStart (zoneName : String) (t : Task) : Bool :=
  t.zoneName = zoneName && t.operation = "start" && t.status = .pending

/-- `ORDER BY created_at DESC` of the restart; the stop asks for no order. -/
def Kind.stopBefore : Kind → Task → Task → Bool
  | .stop _, _, _ => false
  | .restart, t, t' => t'.createdAt < t.createdAt

/-- The call is answered and the request goes on to the next one. -/
def Request.reply (w : World) (r : Request) (outcome : Outcome) : Option (Table × Request) :=
  match r.stage, outcome with
  | .findZone, .zone none => some (w.table, r.respond .notFound)
  | .findZone, .zone (some pending) =>
    match r.kind with
    | .stop _ => some (w.table, { r with pending, stage := .systemStatus })
    | .restart => some (w.table, { r with pending, stage := .existingStop })
  | .systemStatus, .status currentStatus =>
    if currentStatus = "configured" ∨ currentStatus = "installed" then
      some (w.table, r.respond .alreadyStopped)
    else some (w.table, { r with stage := .cancelStarts })
  | .cancelStarts, .only =>
    some (w.table.update (pendingStart r.zoneName) { status := some .cancelled },
      { r with stage := .existingStop })
  | .existingStop, .row id =>
    match findOne w.table (openStop r.zoneName) r.kind.stopBefore id with
    | none => none
    | some none => some (w.table, { r with stage := .createStop })
    | some (some existing) =>
      match r.kind with
      | .stop _ => some (w.table, r.respond (.stopAlreadyQueued existing.id existing.status))
      | .restart => some (w.table, { r with stage := .pendingStarts existing })
  | .pendingStarts existing, .only =>
    let pendingStarts :=
      w.table.select (fun t => pendingStart r.zoneName t && t.dependsOn.isSome)
    match pendingStarts.find? (fun t => t.dependsOn = some existing.id) with
    | some chained => some (w.table, r.respond (.restartAlreadyQueued existing.id chained.id))
    | none =>
      if pendingStarts.isEmpty then some (w.table, { r with stage := .createStop })
      else some (w.table, { r with stage := .middles existing pendingStarts })
  | .middles existing pendingStarts, .only =>
    let middles := w.table.select (fun t =>
      (pendingStarts.filterMap Task.dependsOn).contains t.id && t.dependsOn = some existing.id)
    match pendingStarts.find? (fun t => middles.any (fun m => t.dependsOn = some m.id)) with
    | some chained => some (w.table, r.respond (.restartAlreadyQueued existing.id chained.id))
    | none => some (w.table, { r with stage := .createStop })
  | .createStop, .only =>
    some (w.table.create (newStop r.zoneName w.clock),
      Request.afterStop { r with stopTask := some w.table.next })
  | .createApply, .only =>
    some (w.table.create (newModify r.zoneName w.clock),
      { r with applyTask := some w.table.next, stage := .attachApply })
  | .attachApply, .only =>
    match r.applyTask, r.stopTask with
    | some apply, some stop => some (w.table.attach apply stop, r.afterApply)
    | _, _ => none
  | .createStart, .only =>
    match r.stopTask with
    | some stop => some (w.table.create (newStart r.zoneName r.startDependsOn w.clock),
        { r with
          startTask := some w.table.next
          stage := .responded (.restartQueued stop w.table.next) })
    | none => none
  | _, _ => none

/-- The call is refused. `queuePendingApply` then answers that there is no task; everything else
ends in the handler's `catch`. `getSystemZoneStatus` never throws. -/
def Request.refuse (r : Request) : Option Request :=
  match r.stage with
  | .systemStatus | .responded _ => none
  | .createApply => some r.afterApply
  | _ => some (r.respond .failed)

/-! ## The requests and the queue -/

structure State where
  queue : QState
  requests : List Request
  /-- the rows that were found completed in some state of the run -/
  completed : List TaskId

inductive Label
  | queue (l : QLabel)
  | receive (kind : Kind) (zoneName : String)
  | reply (i : ℕ) (outcome : Outcome)
  | refuse (i : ℕ)

abbrev State.world (s : State) : World := s.queue.world

/-- The next state, with the completed rows it shows. -/
def State.arrive (s : State) (queue : QState) (requests : List Request) : State where
  queue := queue
  requests := requests
  completed := queue.world.table.completedIds ++ s.completed

def step (cfg : Config) (s : State) : Label → Option State
  | .queue l =>
    (EventLoop.step (program cfg) s.queue l).map fun queue => s.arrive queue s.requests
  | .receive kind zoneName =>
    some (s.arrive s.queue (s.requests ++ [.receive kind zoneName]))
  | .reply i outcome =>
    (s.requests[i]?).bind fun r => (r.reply s.world outcome).map fun (table, r') =>
      s.arrive { s.queue with world := { s.world with table } } (s.requests.set i r')
  | .refuse i =>
    (s.requests[i]?).bind fun r => r.refuse.map fun r' => s.arrive s.queue (s.requests.set i r')

def boot (table : Table) : State where
  queue := TaskQueue.boot table
  requests := []
  completed := table.completedIds

abbrev Reaches (cfg : Config) (ok : State → Label → Prop) : State → State → Prop :=
  Transition.Reaches (step cfg) ok

/-! ## The property -/

/-- A tick has taken the task up, or its executor has been started. -/
def Dispatched (s : State) (id : TaskId) : Prop :=
  .started id ∈ s.world.history ∨
    ∃ pid p t, s.queue.procs.get pid = some p ∧ p.pc.dispatched = some t ∧ t.id = id

/-- What the requests promise in a state `s` of a run from `table`. -/
structure AppliedBetween (cfg : Config) (ok : State → Label → Prop) (table : Table) (s : State) :
    Prop where
  applied : ∀ r ∈ s.requests, ∀ apply ∈ r.applyTask, Dispatched s apply →
    ∀ stop ∈ r.stopTask, stop ∈ s.completed
  started : ∀ r ∈ s.requests, ∀ start ∈ r.startTask, Dispatched s start →
    ∀ d ∈ r.startDependsOn, d ∈ s.completed
  neither : ∀ u, Reaches cfg ok (boot table) u → Reaches cfg ok u s → ∀ r ∈ s.requests,
    ∀ stop ∈ r.stopTask, EndedBadly u.world stop →
    (∀ apply ∈ r.applyTask, ¬Dispatched s apply) ∧ ∀ start ∈ r.startTask, ¬Dispatched s start

/-! ## The condition -/

/-- The row a tick's pick is answered with in this step. -/
def picking (s : QState) : QLabel → Option Task
  | .serve pid (.row (some id)) =>
    match s.procs.get pid with
    | some ⟨.pick _ _, _, _⟩ => s.world.table.find id
    | _ => none
  | _ => none

/-- The row, which names no dependency, is no apply task whose stop has ended without completing or
is in flight, and no start that has lost the row it named before that completed. -/
structure Unhurried (s : State) (t : Task) : Prop where
  apply : ∀ r ∈ s.requests, r.applyTask = some t.id → ∀ stop ∈ r.stopTask,
    s.world.table.status stop = some .pending ∨ stop ∈ s.completed
  start : ∀ r ∈ s.requests, r.startTask = some t.id → ∀ d ∈ r.startDependsOn, d ∈ s.completed

instance (s : State) (t : Task) : Decidable (Unhurried s t) :=
  decidable_of_iff
    ((∀ r ∈ s.requests, r.applyTask = some t.id → ∀ stop ∈ r.stopTask,
      s.world.table.status stop = some .pending ∨ stop ∈ s.completed) ∧
    ∀ r ∈ s.requests, r.startTask = some t.id → ∀ d ∈ r.startDependsOn, d ∈ s.completed)
    ⟨fun ⟨h₁, h₂⟩ => ⟨h₁, h₂⟩, fun h => ⟨h.apply, h.start⟩⟩

/-- No tick picks a row too early, and a stop that has ended, whether by completing or otherwise,
stays so. -/
structure ChainStep (s : State) (l : QLabel) : Prop where
  picked : ∀ t ∈ picking s.queue l, t.dependsOn = none → Unhurried s t
  ended : ∀ pc ∈ served s.queue l, ∀ r ∈ s.requests, ∀ stop ∈ r.stopTask,
    ∀ x ∈ s.world.table.status stop, x.terminal = true → ∀ y ∈ writes s.world stop pc,
      y.terminal = true ∧ (y = .completed ↔ x = .completed)

instance (s : State) (l : QLabel) : Decidable (ChainStep s l) :=
  decidable_of_iff
    ((∀ t ∈ picking s.queue l, t.dependsOn = none → Unhurried s t) ∧
    ∀ pc ∈ served s.queue l, ∀ r ∈ s.requests, ∀ stop ∈ r.stopTask,
      ∀ x ∈ s.world.table.status stop, x.terminal = true → ∀ y ∈ writes s.world stop pc,
        y.terminal = true ∧ (y = .completed ↔ x = .completed))
    ⟨fun ⟨h₁, h₂⟩ => ⟨h₁, h₂⟩, fun h => ⟨h.picked, h.ended⟩⟩

/-- The requests take their steps as they like. -/
def Chained (s : State) : Label → Prop
  | .queue l => ChainStep s l
  | _ => True

instance (s : State) (l : Label) : Decidable (Chained s l) :=
  match l with
  | .queue l => inferInstanceAs (Decidable (ChainStep s l))
  | .receive _ _ | .reply _ _ | .refuse _ => inferInstanceAs (Decidable True)

end PowerRequests
end ZoneweaverAgent
