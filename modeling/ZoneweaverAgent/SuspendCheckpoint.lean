import ZoneweaverAgent.CommandProgram

/-!
# Suspend checkpoints

The power verbs of one machine and the snapshot rollback, with every external command they await.
The disk of the machine has a version, a suspend checkpoint records the version it was taken at,
and `restores` collects, for each boot that restored a checkpoint, the recorded and the current
version.
-/

namespace ZoneweaverAgent.SuspendCheckpoint
open CommandProgram

structure Machine (α : Type) where
  running : Bool
  disk : α
  checkpoint : Option α
  /-- Whether the `extra` attr holds `-r <statefile>`. -/
  resumeFlag : Bool
  restores : List (α × α)
  deriving DecidableEq

inductive Command
  | ls | rm | zadmShow | wireResumeFlag | stripResumeFlag | boot | shutdown | halt | reboot
  | guestShutdown | list | suspend | chmod | zfsList | rollback
  deriving DecidableEq

/-- `answer` is the state `running` for `zoneadm list` and the resume flag for `zadm show`;
`zfs list` answers a number of datasets. -/
structure Reply where
  success : Bool
  answer : Bool := false
  shuttingDown : Bool := false
  datasets : Nat := 0

/-- What the world decides about one command: a command that is reported as failed or timed out may
have taken effect all the same. -/
structure Choice (α : Type) where
  took : Bool := true
  success : Bool := true
  /-- A suspend that left the guest running, a reboot that did not come up again, a state that reads
  as `shutting_down`, an attr that `zadm show` hides. -/
  half : Bool := false
  datasets : Nat := 0
  version : Option α := none

inductive Event (α : Type)
  | write (version : α)
  | powerOff

section World
variable {α : Type}

/-- The bhyve process starts; with the resume flag it restores the checkpoint, and fails without
one. -/
def Machine.startBhyve (w : Machine α) : Bool × Machine α :=
  match w.resumeFlag, w.checkpoint with
  | false, _ => (true, { w with running := true })
  | true, some recorded =>
    (true, { w with running := true, restores := w.restores ++ [(recorded, w.disk)] })
  | true, none => (false, w)

def execute (w : Machine α) (c : Command) (choice : Choice α) : Option (Reply × Machine α) :=
  let took := choice.took
  let success := choice.success && choice.took
  match c with
  | .ls => some (⟨success && w.checkpoint.isSome, false, false, 0⟩, w)
  | .rm =>
    some (⟨success, false, false, 0⟩, if took then { w with checkpoint := none } else w)
  -- zadm has hidden an attr that was there, it does not invent one
  | .zadmShow => some (⟨success, w.resumeFlag && !choice.half, false, 0⟩, w)
  | .wireResumeFlag =>
    some (⟨success, false, false, 0⟩, if took then { w with resumeFlag := true } else w)
  | .stripResumeFlag =>
    some (⟨success, false, false, 0⟩, if took then { w with resumeFlag := false } else w)
  | .boot =>
    if w.running || !took then some (⟨false, false, false, 0⟩, w)
    else some (⟨choice.success && w.startBhyve.1, false, false, 0⟩, w.startBhyve.2)
  | .shutdown | .halt | .guestShutdown =>
    some (⟨success, false, false, 0⟩, if took then { w with running := false } else w)
  | .reboot =>
    if !w.running || !took then some (⟨false, false, false, 0⟩, w)
    else if choice.half then some (⟨false, false, false, 0⟩, { w with running := false })
    else
      let booted := { w with running := false }.startBhyve
      some (⟨choice.success && booted.1, false, false, 0⟩, booted.2)
  | .list =>
    some (⟨success, w.running && !choice.half, w.running && choice.half, 0⟩, w)
  | .suspend =>
    if !w.running || !took then some (⟨false, false, false, 0⟩, w)
    else some (⟨choice.success, false, false, 0⟩,
      { w with checkpoint := some w.disk, running := choice.half })
  | .chmod => some (⟨success, false, false, 0⟩, w)
  | .zfsList => some (⟨success, false, false, choice.datasets⟩, w)
  | .rollback =>
    some (⟨success, false, false, 0⟩, { w with disk := choice.version.getD w.disk })

def happen (w : Machine α) : Event α → Option (Machine α)
  | .write version => if w.running then some { w with disk := version } else none
  | .powerOff => some { w with running := false }

def system (α : Type) : System (Machine α) Command Reply (Choice α) (Event α) :=
  ⟨execute, happen⟩

end World

/-! ## The task executors -/

abbrev Procedure := Program Command Reply

/-- What an executor reads that is no command: the zonepath in the machine's row (in the zadm
configuration for the rollback), the experimental setting, whether the guest agent is enabled and
answering, and how many polls fit before a deadline. -/
structure Reads where
  zonepath : Bool
  experimental : Bool
  agentResponding : Bool
  polls : Nat
  /-- The rollback's datasets outside the zone root. -/
  externals : Nat

def hasSuspendCheckpoint (zonepath : Bool) : Procedure Bool :=
  if zonepath then do
    let result ← Program.command Command.ls
    return result.success
  else return false

def deleteSuspendCheckpoint : Procedure Unit := do
  let _ ← Program.command Command.rm
  return ()

def stripResumeToken : Procedure Unit := do
  let config ← Program.command Command.zadmShow
  if config.success && config.answer then
    let _ ← Program.command Command.stripResumeFlag
    return ()
  else return ()

def bootAndSettle : Procedure Bool := do
  let boot ← Program.command Command.boot
  stripResumeToken
  if boot.success then
    deleteSuspendCheckpoint
    return true
  else return false

def bootFromCheckpoint : Procedure Bool := do
  let config ← Program.command Command.zadmShow
  if config.success then
    if config.answer then bootAndSettle
    else
      let wired ← Program.command Command.wireResumeFlag
      if wired.success then bootAndSettle else return false
  else return false

def settleBootedZone (zonepath : Bool) : Procedure Unit :=
  if zonepath then do
    let _ ← Program.command Command.chmod
    return ()
  else return ()

def zoneIsDown : Procedure Bool := do
  let result ← Program.command Command.list
  return !result.success || (!result.answer && !result.shuttingDown)

def waitForZoneDown : Nat → Procedure Bool
  | 0 => zoneIsDown
  | polls + 1 => do
    let down ← zoneIsDown
    if down then return true else waitForZoneDown polls

def tryQgaShutdown (reads : Reads) : Procedure Bool :=
  if reads.agentResponding && reads.zonepath then do
    let delivered ← Program.command Command.guestShutdown
    if delivered.success then waitForZoneDown reads.polls else return false
  else return false

def bootFresh (zonepath : Bool) : Procedure Bool := do
  let result ← Program.command Command.boot
  if result.success then
    settleBootedZone zonepath
    return true
  else return false

def executeStartTask (reads : Reads) : Procedure Bool := do
  let found ← hasSuspendCheckpoint reads.zonepath
  if found then
    if reads.experimental then
      let resumed ← bootFromCheckpoint
      if resumed then
        settleBootedZone reads.zonepath
        return true
      else
        deleteSuspendCheckpoint
        bootFresh reads.zonepath
    else
      deleteSuspendCheckpoint
      bootFresh reads.zonepath
  else bootFresh reads.zonepath

def executeStopTask (reads : Reads) : Procedure Bool := do
  let stopped ← tryQgaShutdown reads
  if stopped then return true
  else
    let shutdown ← Program.command Command.shutdown
    if shutdown.success then return true
    else
      let halt ← Program.command Command.halt
      return halt.success

def executeResetTask : Procedure Bool := do
  let result ← Program.command Command.reboot
  return result.success

def executeSuspendTask (reads : Reads) : Procedure Bool :=
  if reads.zonepath then do
    deleteSuspendCheckpoint
    let result ← Program.command Command.suspend
    if result.success then
      let down ← waitForZoneDown reads.polls
      if down then
        let checkpoint ← Program.command Command.ls
        if checkpoint.success then
          let _ ← Program.command Command.halt
          return true
        else return false
      else return false
    else return false
  else return false

def executeResumeTask (reads : Reads) : Procedure Bool := do
  let found ← hasSuspendCheckpoint reads.zonepath
  if found then
    let resumed ← bootFromCheckpoint
    if resumed then
      settleBootedZone reads.zonepath
      return true
    else return false
  else return false

/-- The row is read again for the start. -/
def executeRestartTask (stop start : Reads) : Procedure Bool := do
  let stopped ← executeStopTask stop
  if stopped then executeStartTask start else return false

def zoneIsRunning : Procedure Bool := do
  let result ← Program.command Command.list
  return result.success && result.answer

/-- The rollbacks run one after another; the first that fails ends the task. -/
def rollbackDatasets : Nat → Procedure Bool
  | 0 => return true
  | datasets + 1 => do
    let result ← Program.command Command.rollback
    if result.success then rollbackDatasets datasets else return false

def discardCheckpoint (zonepath : Bool) : Procedure Bool := do
  let found ← hasSuspendCheckpoint zonepath
  if found then
    deleteSuspendCheckpoint
    return true
  else return true

def restoreDatasets (reads : Reads) (inTree : Nat) : Procedure Bool :=
  if inTree + reads.externals = 0 then return false
  else do
    let restored ← rollbackDatasets (inTree + reads.externals)
    if restored then discardCheckpoint reads.zonepath else return false

def executeSnapshotRestoreTask (reads : Reads) : Procedure Bool := do
  let running ← zoneIsRunning
  if running then return false
  else
    let config ← Program.command Command.zadmShow
    if config.success then
      -- the root dataset is the zonepath without its mountpoint parts
      if reads.zonepath then
        let list ← Program.command Command.zfsList
        restoreDatasets reads (if list.success then list.datasets else 0)
      else if reads.externals = 0 then return false
      else restoreDatasets reads 0
    else return false

inductive Operation
  | start (reads : Reads)
  | stop (reads : Reads)
  | reset
  | suspend (reads : Reads)
  | resume (reads : Reads)
  | restart (stop start : Reads)
  | snapshotRestore (reads : Reads)

def executor : Operation → Procedure Bool
  | .start reads => executeStartTask reads
  | .stop reads => executeStopTask reads
  | .reset => executeResetTask
  | .suspend reads => executeSuspendTask reads
  | .resume reads => executeResumeTask reads
  | .restart stop start => executeRestartTask stop start
  | .snapshotRestore reads => executeSnapshotRestoreTask reads

end ZoneweaverAgent.SuspendCheckpoint
