import ZoneweaverAgent.EventLoop
import ZoneweaverAgent.OperationCategories
import ZoneweaverAgent.TaskTable

/-!
# The task queue as a program of the event loop

`processNextTask`, `executeAndHandleTask`, `updateParentTaskProgress` and `cancelTaskById`, cut at
their awaits. A point names the statement whose promise the activation awaits and carries the local
variables that are read afterwards. `serve` is the database (and the executor) answering at that
point; `resume` is the code from there to the next await.

The poll timer, the cancel and upload requests, the requests and executors that insert rows, the
bulk cancels of machine stop and machine delete and the retention cleanup enter at any moment.
-/

namespace ZoneweaverAgent.TaskQueue
open EventLoop

/-- A task run control; the child processes it also lists play no part in the queue. -/
structure Control where
  cancelled : Bool
  deriving DecidableEq

/-- What the outside can observe of the queue, kept as a history variable. -/
inductive Event
  /-- the executor of the task was started -/
  | started (id : TaskId)
  /-- `cancelTaskById` answered `{cancelled: true, wasRunning}` for a row it had read as `was` -/
  | cancelAnswered (id : TaskId) (wasRunning : Bool) (was : Status)
  deriving DecidableEq

structure World where
  table : Table
  clock : ℕ
  runningTasks : KeyedList TaskId Task
  runningCategories : List String
  taskControls : KeyedList TaskId Control
  /-- newest first -/
  history : List Event

structure ExecResult where
  success : Bool
  error : Option String := none
  deriving DecidableEq

inductive Pc
  -- processNextTask
  | pendingWithDeps
  | deps (pendingWithDeps : List Task)
  | cancelDependents (tasksToCancel : List Task) (completedDepIds : List TaskId)
  | updateParents (completedDepIds : List TaskId)
  | pick (completedDepIds : List TaskId) (busyZones : List String)
  | markRunning (task : Task)
  | lastRunningTask
  -- executeAndHandleTask
  | execute (task : Task)
  | finish (task : Task) (status : Status) (updateData : Patch)
  | finalize (task : Task) (status : Status)
  | taskParent (task : Task) (status : Status)
  | vncEnabled (task : Task)
  | vncCreate (task : Task)
  -- updateParentTaskProgress
  | parentTask (parentTaskId : TaskId)
  | subTasks (parentTask : Task)
  | updateParent (parentTask : Task) (parentStatus : Status) (parentUpdate : Patch)
  -- cancelTaskById
  | cancelFind (taskId : TaskId) (attempt : ℕ)
  | flip (task : Task) (attempt : ℕ)
  | flipParent (task : Task)
  | close (task : Task)
  | children (task : Task)
  | cascade (task : Task) (rest : List TaskId)
  | closeParent (task : Task)
  -- the upload request of a prepared artifact task
  | uploadTask (taskId : TaskId)
  | uploaded (task : Task)
  deriving DecidableEq

inductive Ans
  | rows (ts : List Task)
  | row (t : Option Task)
  | count (n : ℕ)
  | updated
  | executed (result : Option ExecResult) (progressPercent : ℕ)
  | flag (b : Bool)
  deriving DecidableEq

/-- What is left open about an answer: which of several equally good rows a query finds, and how an
executor ends. `executed none` is an executor that returns no result. -/
inductive Choice
  | only
  | row (id : Option TaskId)
  | executed (result : Option ExecResult) (progressPercent : ℕ)
  | flag (b : Bool)
  deriving DecidableEq

/-- What starts from outside: a poll tick, a cancel request, an upload request, an inserted row, the
bulk cancel of the pending rows of some machines (machine stop cancels the pending starts, machine
delete every pending row), the deletion of finished rows, and the passing of time. -/
inductive Entry
  | tick
  | cancel (id : TaskId)
  | upload (id : TaskId)
  | create (row : Task)
  | bulkCancel (zones : List String) (operation : Option String)
  | clearCompleted
  | cleanupOld (before : ℕ)
  | elapse (ms : ℕ)
  deriving DecidableEq

structure Config where
  maxConcurrentTasks : ℕ := 5
  /-- whether the schema in force sets the references to a deleted row to null -/
  setNullOnDelete : Bool := false

abbrev QState := State World Pc Ans
abbrev QLabel := Label Choice Entry

/-! ## The statements of the tick -/

/-- The dependency ids of the pending rows, each once. -/
def depIds (pendingWithDeps : List Task) : List TaskId :=
  (pendingWithDeps.filterMap Task.dependsOn).eraseDups

def depStatus (deps : List Task) (id : TaskId) : Option Status :=
  (deps.find? (fun d => d.id = id)).map Task.status

/-- Failed, cancelled, or no row at all. -/
def depFailed (deps : List Task) (t : Task) : Bool :=
  match t.dependsOn.bind (depStatus deps) with
  | some .failed | some .cancelled | none => true
  | _ => false

def tasksToCancel (pendingWithDeps deps : List Task) : List Task :=
  pendingWithDeps.filter (depFailed deps)

def completedDepIds (pendingWithDeps deps : List Task) : List TaskId :=
  (depIds pendingWithDeps).filter (fun id => depStatus deps id = some .completed)

def parentIds (ts : List Task) : List TaskId := (ts.filterMap Task.parentTaskId).eraseDups

/-- The zones excluded from the pick: those of the in-flight map, pseudo-scopes exempt. -/
def busyZones (runningTasks : KeyedList TaskId Task) : List String :=
  ((runningTasks.map (fun e => e.2.zoneName)).filter
    (fun z => z ≠ "" && !exclusivityExemptScopes.contains z)).eraseDups

def pickable (completedDepIds : List TaskId) (busyZones : List String) (t : Task) : Bool :=
  t.status = .pending && (match t.dependsOn with
    | none => true
    | some d => completedDepIds.contains d) && !busyZones.contains t.zoneName

/-- `ORDER BY priority DESC, created_at ASC`. -/
def picksBefore (t t' : Task) : Bool :=
  t'.priority < t.priority || (t.priority = t'.priority && t.createdAt < t'.createdAt)

/-- `ORDER BY started_at DESC`; a row that was never started sorts last. -/
def startedAfter (t t' : Task) : Bool :=
  match t.startedAt, t'.startedAt with
  | some a, some b => b < a
  | some _, none => true
  | none, _ => false

/-- `findOne` with an order: any row that no other candidate precedes. -/
def findOne (tb : Table) (p : Task → Bool) (before : Task → Task → Bool) (id : Option TaskId) :
    Option (Option Task) :=
  match id with
  | none => if (tb.select p).isEmpty then some none else none
  | some i => ((tb.select p).find? (fun t =>
      t.id = i && (tb.select p).all (fun t' => !before t' t))).map some

/-! ## The registries -/

def World.register (w : World) (t : Task) : World :=
  { w with
    taskControls := w.taskControls.set t.id ⟨false⟩
    runningTasks := w.runningTasks.set t.id t }

def World.deleteControl (w : World) (id : TaskId) : World :=
  { w with taskControls := w.taskControls.erase id }

def World.deleteRunning (w : World) (id : TaskId) : World :=
  { w with runningTasks := w.runningTasks.erase id }

def World.acquire (w : World) (category : Option String) : World :=
  { w with
    runningCategories := match category with
      | none => w.runningCategories
      | some c => w.runningCategories.insert c }

def World.release (w : World) (category : Option String) : World :=
  { w with
    runningCategories := match category with
      | none => w.runningCategories
      | some c => w.runningCategories.filter (· ≠ c) }

def World.held (w : World) (category : Option String) : Bool :=
  match category with
  | none => false
  | some c => w.runningCategories.contains c

def World.markCancelled (w : World) (id : TaskId) : World :=
  { w with taskControls := w.taskControls.set id ⟨true⟩ }

def World.record (w : World) (e : Event) : World := { w with history := e :: w.history }

/-! ## The rollup -/

/-- Terminal from the rollup's point of view, and counted as not completed. -/
def countsFailed (s : Status) : Bool :=
  s = .failed || s = .cancelled || s = .completedWithErrors

def parentStatus (subTasks : List Task) : Status :=
  let total := subTasks.length
  let completed := subTasks.countP (fun t => t.status = .completed)
  let failed := subTasks.countP (fun t => countsFailed t.status)
  if 0 < total ∧ completed + failed = total then
    if failed = total then .failed
    else if 0 < failed then .completedWithErrors
    else .completed
  else .running

def parentUpdate (clock : ℕ) (subTasks : List Task) : Patch :=
  let total := subTasks.length
  let completed := subTasks.countP (fun t => t.status = .completed)
  let failed := subTasks.countP (fun t => countsFailed t.status)
  let done := completed + failed
  let status := parentStatus subTasks
  { progressPercent := some (if 0 < total then (200 * done + total) / (2 * total) else 0)
    progressInfo := some (.rollup completed failed total status)
    status := if status = .running then none else some status
    completedAt := if status = .running then none else some clock }

/-! ## The end of an execution -/

/-- The status a task ends in, `none` when reading `result.success` of no result throws. -/
def endStatus (cancelled : Bool) (result : Option ExecResult) : Option Status :=
  if cancelled then some .cancelled
  else result.map (fun r => if r.success then .completed else .failed)

def updateData (clock : ℕ) (status : Status) (cancelled : Bool) (result : Option ExecResult)
    (progressPercent : ℕ) : Patch :=
  let base : Patch :=
    { status := some status
      completedAt := some clock
      errorMessage := some (if cancelled then none
        else result.bind (fun r => r.error.filter (· ≠ ""))) }
  if status = .completed ∧ progressPercent < 100 then
    { base with progressPercent := some 100, progressInfo := some (.done clock) }
  else base

/-- Operations that boot the zone, after which its VNC console may be started. -/
def bootOperations : List String := ["start", "reset", "resume"]

def vncStartTask (clock : ℕ) (zoneName : String) : Task :=
  { id := 0, zoneName, operation := "vnc_start", priority := 40, createdAt := clock }

/-! ## The database and the executor -/

def serve (w : World) (pc : Pc) (choice : Choice) : Option (Ans × World) :=
  match pc, choice with
  | .pendingWithDeps, .only =>
    some (.rows (w.table.select (fun t => t.status = .pending && t.dependsOn.isSome)), w)
  | .deps pending, .only =>
    some (.rows (w.table.select (fun t => (depIds pending).contains t.id)), w)
  | .cancelDependents toCancel _, .only =>
    some (.updated, { w with
      table := w.table.update (fun t => (toCancel.map Task.id).contains t.id)
        { status := some .cancelled, errorMessage := some (some "Dependency failed"),
          completedAt := some w.clock } })
  | .pick completed busy, .row id =>
    (findOne w.table (pickable completed busy) picksBefore id).map (fun t => (.row t, w))
  | .markRunning task, .only =>
    some (.updated, { w with
      table := w.table.updateId task.id { status := some .running, startedAt := some w.clock } })
  | .lastRunningTask, .row id =>
    (findOne w.table (fun t => t.status = .running) startedAfter id).map (fun t => (.row t, w))
  | .execute _, .executed result progress => some (.executed result progress, w)
  | .finish task _ data, .only =>
    some (.updated, { w with table := w.table.updateId task.id data })
  | .finalize _ _, .only => some (.updated, w)
  | .vncEnabled _, .flag b => some (.flag b, w)
  | .vncCreate task, .only =>
    some (.updated, { w with table := w.table.create (vncStartTask w.clock task.zoneName) })
  | .parentTask id, .only => some (.row (w.table.find id), w)
  | .subTasks parent, .only =>
    some (.rows (w.table.select (fun t => t.parentTaskId = some parent.id)), w)
  | .updateParent parent _ update, .only =>
    some (.updated, { w with table := w.table.updateId parent.id update })
  | .cancelFind id _, .only => some (.row (w.table.find id), w)
  | .flip task _, .only =>
    some (.count (w.table.select (fun t => t.id = task.id && t.status = task.status)).length,
      { w with
        table := w.table.update (fun t => t.id = task.id && t.status = task.status)
          { status := some .cancelled, completedAt := some w.clock } })
  | .close task, .only =>
    some (.updated, { w with
      table := w.table.updateId task.id
        { status := some .cancelled, completedAt := some w.clock } })
  | .uploadTask id, .only => some (.row (w.table.find id), w)
  | .uploaded task, .only =>
    some (.updated, { w with table := w.table.updateId task.id { status := some .pending } })
  | .children task, .only =>
    some (.rows (w.table.select (fun t => t.parentTaskId = some task.id &&
      (t.status = .pending || t.status = .running))), w)
  | _, _ => none

/-- An executor never throws: `executeTask` turns an exception into a failed result. -/
def canFail : Pc → Bool
  | .execute _ => false
  | _ => true

/-- What the executor hands back; as it never throws, nothing but an answer arrives. -/
def executed : Reply Ans → Option ExecResult × ℕ
  | .answer (.executed result progressPercent) => (result, progressPercent)
  | _ => (none, 0)

/-! ## The code between two awaits -/

/-- To the query that picks a task; the busy zones are read here. -/
def toPick (w : World) (completed : List TaskId) : World × Next Pc :=
  (w, .await (.pick completed (busyZones w.runningTasks)))

/-- The `catch` block of `processNextTask`. -/
def caught (w : World) : World × Next Pc := (w, .await .lastRunningTask)

/-- From the release of the category to the end of `executeAndHandleTask`. -/
def afterParent (w : World) (task : Task) (status : Status) : World × Next Pc :=
  let w := w.release (operationCategory task.operation)
  if status = .completed ∧ task.operation ∈ bootOperations ∧ task.zoneName ≠ "system" then
    (w, .await (.vncEnabled task))
  else (w, .finish false)

/-- The next child of a cascade, or the parent's progress and the answer. -/
def toCascade (w : World) (task : Task) : List TaskId → World × Next Pc
  | c :: rest => (w, .call [.cancelFind c 0] (.cascade task rest))
  | [] =>
    match task.parentTaskId with
    | some p => (w, .call [.parentTask p] (.closeParent task))
    | none => (w.record (.cancelAnswered task.id false .running), .finish false)

def resume (w : World) (pc : Pc) (reply : Reply Ans) : World × Next Pc :=
  match pc, reply with
  | .pendingWithDeps, .answer (.rows pending) =>
    if pending.isEmpty then toPick w [] else (w, .await (.deps pending))
  | .deps pending, .answer (.rows deps) =>
    let completed := completedDepIds pending deps
    if (tasksToCancel pending deps).isEmpty then toPick w completed
    else (w, .await (.cancelDependents (tasksToCancel pending deps) completed))
  | .cancelDependents toCancel completed, .answer _ =>
    (w, .call ((parentIds toCancel).map .parentTask) (.updateParents completed))
  | .updateParents completed, _ => toPick w completed
  | .pick _ _, .answer (.row none) => (w, .finish false)
  | .pick _ _, .answer (.row (some task)) =>
    if w.held (operationCategory task.operation) then (w, .finish false)
    else (w.register task, .await (.markRunning task))
  | .markRunning task, .answer _ =>
    ((w.acquire (operationCategory task.operation)).record (.started task.id),
      .await (.execute task))
  | .markRunning task, _ => caught ((w.deleteControl task.id).deleteRunning task.id)
  | .execute task, reply =>
    let cancelled := (w.taskControls.get task.id).elim false Control.cancelled
    let w := w.deleteControl task.id
    let (result, progress) := executed reply
    match endStatus cancelled result with
    | none => caught w
    | some status =>
      (w, .await (.finish task status (updateData w.clock status cancelled result progress)))
  | .finish task status _, .answer _ => (w, .await (.finalize task status))
  | .finalize task status, .answer _ =>
    let w := w.deleteRunning task.id
    match task.parentTaskId with
    | some p => (w, .call [.parentTask p] (.taskParent task status))
    | none => afterParent w task status
  | .taskParent task status, _ => afterParent w task status
  | .vncEnabled task, .answer (.flag true) => (w, .await (.vncCreate task))
  | .vncEnabled _, _ => (w, .finish false)
  | .vncCreate _, _ => (w, .finish false)
  | .lastRunningTask, .answer (.row (some task)) =>
    (w.release (operationCategory task.operation), .finish false)
  | .lastRunningTask, .answer _ => (w, .finish false)
  | .parentTask _, .answer (.row (some parent)) =>
    if parent.status = .running then (w, .await (.subTasks parent)) else (w, .finish false)
  | .parentTask _, .answer _ => (w, .finish false)
  | .subTasks parent, .answer (.rows subTasks) =>
    (w, .await (.updateParent parent (parentStatus subTasks) (parentUpdate w.clock subTasks)))
  | .updateParent parent status _, .answer _ =>
    match parent.parentTaskId with
    | some p => if status = .running then (w, .finish false) else (w, .await (.parentTask p))
    | none => (w, .finish false)
  | .cancelFind id attempt, .answer (.row (some task)) =>
    match task.status with
    | .pending | .prepared => (w, .await (.flip task attempt))
    | .running =>
      if w.taskControls.has id then
        ((w.markCancelled id).record (.cancelAnswered id true .running), .finish false)
      else (w, .await (.close task))
    | _ => (w, .finish false)
  | .cancelFind _ _, .answer _ => (w, .finish false)
  | .flip task attempt, .answer (.count 0) =>
    if 5 ≤ attempt + 1 then (w, .finish false)
    else (w, .await (.cancelFind task.id (attempt + 1)))
  | .flip task _, .answer _ =>
    match task.parentTaskId with
    | some p => (w, .call [.parentTask p] (.flipParent task))
    | none => (w.record (.cancelAnswered task.id false task.status), .finish false)
  | .flipParent task, .returned =>
    (w.record (.cancelAnswered task.id false task.status), .finish false)
  | .close task, .answer _ => (w.deleteRunning task.id, .await (.children task))
  | .children task, .answer (.rows children) => toCascade w task (children.map Task.id)
  | .cascade task rest, .returned => toCascade w task rest
  | .closeParent task, .returned =>
    (w.record (.cancelAnswered task.id false .running), .finish false)
  | .uploadTask _, .answer (.row (some task)) =>
    if task.operation = "artifact_upload" ∧ task.status = .prepared then (w, .await (.uploaded task))
    else (w, .finish true)
  | .uploaded _, .answer _ => (w, .finish false)
  -- a rejected promise: inside the `try` of `processNextTask` it is caught, elsewhere it propagates
  | .pendingWithDeps, _ => caught w
  | .deps _, _ => caught w
  | .cancelDependents _ _, _ => caught w
  | .pick _ _, _ => caught w
  | .finish _ _ _, _ => caught w
  | .finalize _ _, _ => caught w
  | _, _ => (w, .finish true)

def enter (cfg : Config) (w : World) : Entry → Option (World × Next Pc)
  | .tick =>
    if cfg.maxConcurrentTasks ≤ w.runningTasks.length then some (w, .finish false)
    else some (w, .await .pendingWithDeps)
  | .cancel id => some (w, .await (.cancelFind id 0))
  | .upload id => some (w, .await (.uploadTask id))
  | .create row =>
    if row.status.terminal then none
    else some ({ w with table := w.table.create { row with createdAt := w.clock } }, .finish false)
  | .bulkCancel zones operation =>
    some ({ w with
      table := w.table.update
        (fun t => zones.contains t.zoneName && t.status = .pending &&
          operation.all (fun o => t.operation = o))
        { status := some .cancelled } }, .finish false)
  | .clearCompleted => some (deleteFinished (fun t => t.status.terminal), .finish false)
  | .cleanupOld before =>
    some (deleteFinished (fun t => t.status.terminal && t.createdAt < before), .finish false)
  | .elapse ms => some ({ w with clock := w.clock + ms }, .finish false)
where
  deleteFinished (p : Task → Bool) : World :=
    { w with
      table := if cfg.setNullOnDelete then (w.table.destroy p).unlink else w.table.destroy p }

def program (cfg : Config) : Program World Pc Ans Choice Entry where
  serve := serve
  canFail := canFail
  resume := resume
  enter := enter cfg

/-- A process that has just started its queue, over any table. -/
def boot (table : Table) : QState :=
  start ⟨table, 0, [], [], [], []⟩

abbrev QReaches (cfg : Config) (ok : QState → QLabel → Prop) : QState → QState → Prop :=
  Transition.Reaches (step (program cfg)) ok

end ZoneweaverAgent.TaskQueue
