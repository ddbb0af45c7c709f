import ZoneweaverAgent.TaskOutput
import ZoneweaverAgent.TaskTable
import ZoneweaverAgent.WsStreams

/-!
# The viewers of one task

The upgrade of a viewer reads the row of the task, sends what there is of the output and subscribes
to the output session; every await lets the task, its output and the other viewers go on. The end
of the session has the row read once more, for the status that is sent last.
-/

namespace ZoneweaverAgent.TaskStream
open TaskOutput (Entry OutputConfig)
open WsStreams (Scope hostLevelTask)

section Viewers

inductive Message
  | output (entry : Entry)
  | status (status : Status)
deriving DecidableEq

/-- A read of the row for the last message. -/
inductive Read
  | asked
  | answered (status : Option Status)
  | failed
deriving DecidableEq

/-- How far the upgrade has come. -/
inductive Phase
  | finding
  | found (status : Option Status)
  | fetching (status : Status)
  | fetched (status : Status) (historicalOutput : List Entry)
  | connected
  | refused
deriving DecidableEq

/-- `closed` by the agent, or `gone` with the client. -/
inductive Socket
  | opened
  | closed
  | gone
deriving DecidableEq

/-- `subscribed` tells whether the callback is in the set of the output session. -/
structure Viewer where
  scope : Scope
  phase : Phase
  socket : Socket
  subscribed : Bool
  reads : List Read
  sent : List Message
deriving DecidableEq

def Viewer.arriving (scope : Scope) : Viewer := ⟨scope, .finding, .opened, false, [], []⟩

def Viewer.send (v : Viewer) (messages : List Message) : Viewer :=
  if v.socket = .opened then { v with sent := v.sent ++ messages } else v

def Viewer.close (v : Viewer) : Viewer :=
  if v.socket = .opened then { v with socket := .closed } else v

/-- The word by which a session ends, on the stream of the outputs. -/
def isNotice (entry : Entry) : Bool := entry.stream = "system" && entry.data = "finalized"

/-- The callback of a subscriber. -/
def Viewer.hear (v : Viewer) (entry : Entry) : Viewer :=
  if v.socket ≠ .opened then { v with subscribed := false }
  else if isNotice entry then { v with reads := v.reads ++ [.asked] }
  else v.send [.output entry]

/-- The rest of the callback once the row is read; a row that is gone counts as completed. -/
def Viewer.convey (v : Viewer) : Read → Option Viewer
  | .asked => none
  | .answered status => some (v.send [.status (status.getD .completed)]).close
  | .failed => some v.close

/-- `buffer` is that of the session, none without one. -/
def handleTaskStreamConnection (buffer : Option (List Entry)) (taskStatus : Status)
    (historicalOutput : Option (List Entry)) (v : Viewer) : Viewer :=
  let replayEntries := historicalOutput.getD (buffer.getD [])
  let replayed := v.send (replayEntries.map .output)
  if taskStatus.terminal then (replayed.send [.status taskStatus]).close
  else { replayed with subscribed := buffer.isSome }

/-- A handshake over a socket that is gone is given up. -/
def handleUpgrade (buffer : Option (List Entry)) (taskStatus : Status)
    (historicalOutput : Option (List Entry)) (v : Viewer) : Viewer :=
  if v.socket = .opened then
    handleTaskStreamConnection buffer taskStatus historicalOutput { v with phase := .connected }
  else { v with phase := .refused }

def scopeMismatch (zoneName : String) (scope : Scope) : Bool :=
  if hostLevelTask zoneName then scope ≠ none else some zoneName ≠ scope

/-- The upgrade between its reads, of the row and of the stored output. -/
def handleTaskStreamUpgrade (zoneName : String) (buffer : Option (List Entry)) (v : Viewer) :
    Option Viewer :=
  match v.phase with
  | .found none => some { v with phase := .refused }
  | .found (some status) =>
    if scopeMismatch zoneName v.scope then some { v with phase := .refused }
    else if status.terminal then
      match buffer with
      | some entries => some { v with phase := .fetched status entries }
      | none => some { v with phase := .fetching status }
    else some (handleUpgrade buffer status none v)
  | .fetched status entries => some (handleUpgrade buffer status (some entries) v)
  | _ => none

end Viewers

section Steps

/-- Where the dispatch of the task stands. -/
inductive Stage
  | idle
  | picked
  | marked
  | executing
  | settling (status : Status)
  | settled
  | finalizing
  | finished
  | thrown
deriving DecidableEq

/-- `status` is that of the task's row, none once the row is deleted. -/
structure State where
  status : Option Status
  stage : Stage
  out : TaskOutput.State
  viewers : List Viewer
deriving DecidableEq

/-- A task that no viewer has come to. -/
def State.initial (status : Status) : State := ⟨some status, .idle, .initial, []⟩

inductive Label
  | pick
  | mark
  | markFails
  | start
  | returns (success cancelled : Bool)
  | throws
  | settle
  | settleFails
  | finish
  | conclude
  | write (stream data : String) (now : ℕ)
  | timer
  | looseTimer
  | applied (k : ℕ)
  | flushFails (k : ℕ)
  | overwrite (status : Status)
  | destroy
  | upgrade (scope : Scope)
  | rowRead (v : ℕ)
  | rowFails (v : ℕ)
  | outputRead (v : ℕ) (succeeds : Bool)
  | proceed (v : ℕ)
  | statusRead (v k : ℕ)
  | statusFails (v k : ℕ)
  | convey (v k : ℕ)
  | leave (v : ℕ)
  | unsubscribe (v : ℕ)
deriving DecidableEq

def State.update (s : State) (status : Status) : State :=
  { s with status := s.status.map fun _ => status }

def State.buffer (s : State) : Option (List Entry) := s.out.session.map TaskOutput.Session.buffer

def State.notify (s : State) (entry : Entry) : State :=
  { s with viewers := s.viewers.map fun v => if v.subscribed then v.hear entry else v }

/-- The session, and with it its set of subscribers, is dropped. -/
def State.unsubscribeAll (s : State) : State :=
  { s with viewers := s.viewers.map fun v => { v with subscribed := false } }

def State.onViewer (s : State) (k : ℕ) (f : Viewer → Option Viewer) : Option State :=
  (s.viewers[k]?.bind f).map fun v => { s with viewers := s.viewers.set k v }

def onRead (k : ℕ) (f : Read → Option Read) (v : Viewer) : Option Viewer :=
  (v.reads[k]?.bind f).map fun read => { v with reads := v.reads.set k read }

variable (cfg : OutputConfig) (zoneName : String)

/-- The steps of the output manager that concern the session and the row alone. -/
def State.manage (s : State) (l : TaskOutput.Label) : Option State :=
  (TaskOutput.step cfg s.out l).map fun out => { s with out := out }

/-- `executeAndHandleTask` -/
def dispatchStep (s : State) : Label → Option State
  | .pick =>
    if s.stage = .idle ∧ s.status = some .pending then some { s with stage := .picked } else none
  | .mark => if s.stage = .picked then some { s.update .running with stage := .marked } else none
  | .markFails => if s.stage = .picked then some { s with stage := .idle } else none
  | .start =>
    if s.stage = .marked then
      some { s with stage := .executing, out := TaskOutput.create cfg s.out }
    else none
  | .returns success cancelled =>
    if s.stage = .executing then
      some { s with
        stage := .settling
          (if cancelled then .cancelled else if success then .completed else .failed) }
    else none
  | .throws => if s.stage = .executing then some { s with stage := .thrown } else none
  | .settle =>
    match s.stage with
    | .settling status => some { s.update status with stage := .settled }
    | _ => none
  | .settleFails =>
    match s.stage with
    | .settling _ => some { s with stage := .thrown }
    | _ => none
  | .finish =>
    if s.stage = .settled then
      some { s with
        stage := if s.out.session.isSome then .finalizing else .finished
        out := TaskOutput.finalize s.out }
    else none
  | .conclude =>
    if s.stage = .finalizing ∧ 0 < s.out.flushed then
      some { (s.notify ⟨"system", "finalized", 0⟩).unsubscribeAll with
        stage := .finished
        out := TaskOutput.conclude s.out }
    else none
  | _ => none

/-- The output manager, and updates of the row by the rest of the agent. -/
def outputStep (s : State) : Label → Option State
  | .write stream data now =>
    some (if s.out.session.isSome then
      { s with out := TaskOutput.write cfg s.out ⟨stream, data, now⟩ }.notify ⟨stream, data, now⟩
    else s)
  | .timer => s.manage cfg .timer
  | .looseTimer => s.manage cfg .looseTimer
  | .applied k => s.manage cfg (.applied k)
  | .flushFails k => s.manage cfg (.failed k)
  | .overwrite status => some (s.update status)
  | .destroy => some { s with status := none }
  | _ => none

def viewerStep (s : State) : Label → Option State
  | .upgrade scope => some { s with viewers := s.viewers ++ [.arriving scope] }
  | .rowRead v => s.onViewer v fun v =>
    if v.phase = .finding then some { v with phase := .found s.status } else none
  | .rowFails v => s.onViewer v fun v =>
    if v.phase = .finding then some { v with phase := .refused } else none
  | .outputRead v succeeds => s.onViewer v fun v =>
    match v.phase with
    | .fetching status => some { v with
        phase := .fetched status (if succeeds then s.out.output.getD [] else []) }
    | _ => none
  | .proceed v => s.onViewer v (handleTaskStreamUpgrade zoneName s.buffer)
  | .statusRead v k => s.onViewer v (onRead k fun read =>
    if read = .asked then some (.answered s.status) else none)
  | .statusFails v k => s.onViewer v (onRead k fun read =>
    if read = .asked then some .failed else none)
  | .convey v k => s.onViewer v fun v =>
    v.reads[k]?.bind { v with reads := v.reads.eraseIdx k }.convey
  | .leave v => s.onViewer v fun v =>
    if v.socket = .opened then some { v with socket := .gone } else none
  | .unsubscribe v => s.onViewer v fun v =>
    if v.socket = .opened then none else some { v with subscribed := false }
  | _ => none

def step (s : State) (l : Label) : Option State :=
  ((dispatchStep cfg s l).or (outputStep cfg s l)).or (viewerStep zoneName s l)

end Steps

end ZoneweaverAgent.TaskStream
