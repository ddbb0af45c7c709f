import ZoneweaverAgent.EventLoop
import Mathlib.Data.List.Infix

/-!
# Console sessions

The console requests, the automatic start and the cleanups as activations of the event loop, over
the VNC processes of the host, the PID files and the session rows. That a process dies and that the
agent handles its exit are two events; a process binds its port some time after it was spawned.
-/

namespace ZoneweaverAgent.Vnc
open EventLoop

structure Config where
  portStart : ℕ := 8000
  portEnd : ℕ := 8100
  /-- in milliseconds -/
  sessionTimeout : ℕ := 1800000

/-- A live `zadm vnc` process. -/
structure Process where
  zone : String
  host : String
  port : ℕ
  /-- the running agent has spawned it with an exit handler -/
  child : Bool
  listening : Bool
  deriving DecidableEq

structure PidFile where
  pid : ℕ
  command : String
  timestamp : ℕ
  vmname : String
  netport : String
  deriving DecidableEq

inductive RowStatus
  | active
  | stopped
  deriving DecidableEq

structure Row where
  id : ℕ
  zoneName : String
  webPort : ℕ
  requestedPort : Option ℕ
  consoleHost : String
  processId : ℕ
  status : RowStatus
  lastAccessed : ℕ
  deriving DecidableEq

/-- A history variable, newest first. -/
inductive Event
  /-- `owner` is the zone of the process, `none` when it has died in between -/
  | adopted (zone : String) (pid : ℕ) (owner : Option String)
  | killed (zone : String) (pid : ℕ) (owner : String)
  /-- the exit handler of `pid` has removed the file that named `named` -/
  | unlinked (pid named : ℕ)
  deriving DecidableEq

structure World where
  processes : KeyedList ℕ Process
  nextPid : ℕ
  /-- children whose exit has not been handled, with the exit code, `none` after a signal -/
  exited : KeyedList ℕ (String × Option ℕ)
  /-- `exitCode` of the children whose exit has been handled -/
  exitCodes : KeyedList ℕ (Option ℕ)
  pidFiles : KeyedList String PidFile
  rows : List Row
  nextRow : ℕ
  clock : ℕ
  history : List Event

/-! ## PID files -/

/-- `netport.split(':')[1]` -/
def secondPart (netport : List Char) : Option (List Char) :=
  match netport.dropWhile (· != ':') with
  | [] => none
  | _ :: rest => some (rest.takeWhile (· != ':'))

/-- `none` for NaN. -/
def parseInt (text : List Char) : Option ℕ :=
  let digits := (text.dropWhile Char.isWhitespace).takeWhile Char.isDigit
  if digits.isEmpty then none else some (Nat.ofDigitChars 10 digits 0)

def netportText (host : String) (port : ℕ) : String := host ++ ":" ++ toString port

def portOf (netport : String) : Option ℕ := (secondPart netport.toList).bind parseInt

structure SessionInfo where
  pid : ℕ
  command : String
  timestamp : ℕ
  vmname : String
  netport : String
  port : Option ℕ
  deriving DecidableEq

namespace World

def record (w : World) (e : Event) : World := { w with history := e :: w.history }

def isProcessRunning (w : World) (pid : ℕ) : Bool := (w.processes.get pid).isSome

/-- A file whose process is dead is removed on the way. -/
def getSessionInfo (w : World) (zone : String) : Option SessionInfo × World :=
  match w.pidFiles.get zone with
  | none => (none, w)
  | some f =>
    if w.isProcessRunning f.pid then
      (some ⟨f.pid, f.command, f.timestamp, f.vmname, f.netport, portOf f.netport⟩, w)
    else (none, { w with pidFiles := w.pidFiles.erase zone })

def writeSessionInfo (w : World) (zone : String) (pid : ℕ) (command netport : String) : World :=
  { w with pidFiles := w.pidFiles.set zone ⟨pid, command, w.clock, zone, netport⟩ }

def removePidFile (w : World) (zone : String) : World :=
  { w with pidFiles := w.pidFiles.erase zone }

/-! ## Processes -/

def spawnProcess (w : World) (p : Process) : World × ℕ :=
  ({ w with
      processes := w.processes.set w.nextPid p
      nextPid := w.nextPid + 1 }, w.nextPid)

/-- The process is gone; a child leaves an exit to be handled. -/
def die (w : World) (pid : ℕ) (p : Process) (code : Option ℕ) : World :=
  { w with
    processes := w.processes.erase pid
    exited := if p.child then w.exited.set pid (p.zone, code) else w.exited }

/-- The handler of `vncProcess.on('exit')`. -/
def onExit (w : World) (pid : ℕ) (zone : String) (code : Option ℕ) : World :=
  let w := { w with
    exited := w.exited.erase pid
    exitCodes := w.exitCodes.set pid code }
  match w.pidFiles.get zone with
  | some f => (w.removePidFile zone).record (.unlinked pid f.pid)
  | none => w

def bound (w : World) (port : ℕ) : Prop :=
  ∃ e ∈ w.processes, e.2.port = port ∧ e.2.listening = true

instance (w : World) (port : ℕ) : Decidable (w.bound port) :=
  inferInstanceAs (Decidable (∃ e ∈ w.processes, e.2.port = port ∧ e.2.listening = true))

/-! ## Session rows -/

def updateRows (w : World) (which : Row → Bool) (f : Row → Row) : World :=
  { w with rows := w.rows.map fun r => if which r then f r else r }

def touchRow (w : World) (zone : String) : World :=
  w.updateRows (fun r => r.zoneName == zone && r.status == .active)
    fun r => { r with lastAccessed := w.clock }

def stopRow (w : World) (zone : String) : World :=
  w.updateRows (fun r => r.zoneName == zone && r.status == .active)
    fun r => { r with status := .stopped }

/-- `session.update({ status: 'stopped' })` -/
def stopRowById (w : World) (id : ℕ) : World :=
  w.updateRows (·.id == id) fun r => { r with status := .stopped }

def destroyRows (w : World) (which : Row → Bool) : World :=
  { w with rows := w.rows.filter fun r => !which r }

def createRow (w : World) (row : Row) : World :=
  { w with
    rows := w.rows ++ [{ row with
      id := w.nextRow
      lastAccessed := w.clock }]
    nextRow := w.nextRow + 1 }

end World

/-! ## The program -/

/-- What is going to be started; `static` is the pinned port. -/
structure Plan where
  zone : String
  host : String
  static : Option ℕ
  /-- the automatic start behind a boot -/
  auto : Bool
  deriving DecidableEq

def Plan.command (plan : Plan) : String := if plan.auto then "auto_vnc" else "webvnc"

def Plan.process (plan : Plan) (port : ℕ) : Process :=
  { zone := plan.zone
    host := plan.host
    port
    child := !plan.auto
    listening := false }

def activeRow (zone host : String) (requestedPort : Option ℕ) (pid port : ℕ) : Row :=
  { id := 0
    zoneName := zone
    webPort := port
    requestedPort
    consoleHost := host
    processId := pid
    status := .active
    lastAccessed := 0 }

/-- What follows a `killSession`. -/
inductive AfterKill
  | restart
  | stop
  | cleanup (row : ℕ)
  | nothing
  deriving DecidableEq

inductive Pc
  -- startVncSession
  | findZone (zone : String)
  | health (zone : String) (port : Option ℕ)
  | touch (zone : String)
  | pause (zone : String)
  | readAttrs (zone : String)
  | otherZone (plan : Plan) (port : ℕ)
  -- isPortAvailable
  | probePs (plan : Plan) (port : ℕ)
  | probeRow (plan : Plan) (port : ℕ)
  | probeBind (plan : Plan) (port : ℕ)
  -- validateAndFinalizeSession
  | settling (plan : Plan) (pid port : ℕ)
  | testVnc (plan : Plan) (pid port : ℕ)
  | destroyRow (row : Row) (goesOn : Bool)
  | createRow (row : Row)
  | kill (zone : String) (pid : ℕ) (after : AfterKill)
  | markStopped (zone : String)
  -- handleOrphanedProcessCheck
  | orphans (zone : String)
  -- cleanupVncSessions
  | staleRows
  | killing
  | stoppedRows
  | markRow (id : ℕ)
  | deleteRow (id : ℕ)
  -- cleanupStaleSessionsOnStartup
  | activeRows
  | pidFiles
  | respondingRows
  | testRow (id port : ℕ)
  -- the end of callees
  | ending
  deriving DecidableEq

/-- What the code takes from a line of `ps auxww`. -/
structure PsLine where
  pid : ℕ
  host : String
  port : ℕ
  text : String
  deriving DecidableEq

inductive Ans
  | done
  | found (b : Bool)
  /-- `consoleport` when it is an integer, `consolehost` when it is there -/
  | attrs (port : Option ℤ) (host : Option String)
  | lines (ls : List PsLine)
  | rows (rs : List Row)
  deriving DecidableEq

inductive Choice
  | only
  | yes
  | no
  | attrs (port : Option ℤ) (host : Option String)
  | listing (order : List ℕ)
  deriving DecidableEq

inductive Entry
  | start (zone : String)
  | auto (zone : String)
  | info (zone : String)
  /-- a stop request, or the end of the delay behind the last client -/
  | stop (zone : String)
  | cleanup
  | startup
  /-- somebody else reads the session info -/
  | look (zone : String)
  | exit (pid : ℕ) (code : Option ℕ)
  | reap (pid : ℕ)
  | listen (pid : ℕ)
  | elapse (ms : ℕ)
  deriving DecidableEq

/-- The text of a process in `ps auxww`; `columns` is what stands before the command. -/
def psText (columns : ℕ → String) (pid : ℕ) (p : Process) : String :=
  columns pid ++ "zadm vnc -w " ++ netportText p.host p.port ++ " " ++ p.zone

def psLine (columns : ℕ → String) (pid : ℕ) (p : Process) : PsLine :=
  ⟨pid, p.host, p.port, psText columns pid p⟩

/-- `-w 0.0.0.0:` -/
def anyHost : String := "0.0.0.0"

def PsLine.includes (l : PsLine) (text : String) : Bool := decide (text.toList <:+: l.text.toList)

/-- The line that is taken for a process of the zone. -/
def findOrphan (zone : String) (lines : List PsLine) : Option PsLine :=
  lines.find? fun l => l.host == anyHost && l.includes zone

section Program
variable (cfg : Config) (columns : ℕ → String)

def serve (w : World) (pc : Pc) (choice : Choice) : Option (Ans × World) :=
  match pc, choice with
  -- whether the zone is there and running, whether the port answers, whether it can be bound
  | .findZone _, .yes | .health _ _, .yes | .testVnc _ _ _, .yes | .testRow _ _, .yes =>
    some (.found true, w)
  | .findZone _, .no | .health _ _, .no | .testVnc _ _ _, .no | .testRow _ _, .no
  | .probeBind _ _, .no => some (.found false, w)
  | .probeBind _ port, .yes => if w.bound port then none else some (.found true, w)
  | .touch zone, .only => some (.done, w.touchRow zone)
  | .pause _, .only | .settling _ _ _, .only => some (.done, w)
  | .readAttrs _, .attrs port host => some (.attrs port host, w)
  | .otherZone plan port, .only =>
    some (.found (w.rows.any fun r => r.webPort == port && r.zoneName != plan.zone), w)
  | .probePs _ port, .only =>
    some (.found (w.processes.any fun e => e.2.host == anyHost && e.2.port == port), w)
  | .probeRow _ port, .only =>
    some (.found (w.rows.any fun r => r.webPort == port && r.status == .active), w)
  | .destroyRow row _, .only => some (.done, w.destroyRows (·.zoneName == row.zoneName))
  | .createRow row, .only =>
    -- zone_name is unique
    if w.rows.any (·.zoneName == row.zoneName) then none else some (.done, w.createRow row)
  -- the command that fails is not told from the one that succeeds
  | .kill zone pid _, .yes => (w.processes.get pid).map fun p =>
    (.done, (w.die pid p none).record (.killed zone pid p.zone))
  | .kill _ _ _, .no => some (.done, w)
  | .markStopped zone, .only => some (.done, w.stopRow zone)
  | .orphans _, .listing order =>
    if order.Perm w.processes.keys then
      some (.lines (order.filterMap fun pid =>
        (w.processes.get pid).map (psLine columns pid)), w)
    else none
  | .staleRows, .only => some (.rows (w.rows.filter fun r =>
    r.status == .active && decide (r.lastAccessed + cfg.sessionTimeout < w.clock)), w)
  | .stoppedRows, .only => some (.rows (w.rows.filter (·.status == .stopped)), w)
  | .markRow id, .only => some (.done, w.stopRowById id)
  | .deleteRow id, .only => some (.done, w.destroyRows (·.id == id))
  | .activeRows, .only | .respondingRows, .only =>
    some (.rows (w.rows.filter (·.status == .active)), w)
  | _, _ => none

def canFail : Pc → Bool
  | .findZone _ | .touch _ | .otherZone _ _ | .probePs _ _ | .probeRow _ _ | .destroyRow _ _
  | .createRow _ | .markStopped _ | .orphans _ | .staleRows | .stoppedRows | .markRow _
  | .deleteRow _ | .activeRows | .respondingRows => true
  | _ => false

/-- `killSession` up to its await. -/
def killSession (w : World) (zone : String) (after : AfterKill) : World × Option Pc :=
  match w.getSessionInfo zone with
  | (some info, w) => (w, some (.kill zone info.pid after))
  | (none, w) =>
    (w, match after with
      | .restart => some (.pause zone)
      | .cleanup row => some (.markRow row)
      | .stop | .nothing => none)

def orFinish : Option Pc → Next Pc
  | some pc => .await pc
  | none => .finish false

/-- The sessions of the rows are killed one behind the other, each up to its await. -/
def killSessions (w : World) : List Row → World × List Pc
  | [] => (w, [])
  | r :: rs =>
    let m := killSession w r.zoneName (.cleanup r.id)
    let m' := killSessions m.1 rs
    (m'.1, m.2.toList ++ m'.2)

/-- The files of dead processes are removed. -/
def cleanFiles (w : World) : List String → World
  | [] => w
  | zone :: zones => cleanFiles (w.getSessionInfo zone).2 zones

/-- A dynamic port, from the start of the range. -/
def findAvailablePort (plan : Plan) (port : ℕ) : Next Pc :=
  if port > cfg.portEnd then .finish false else .await (.probePs plan port)

/-- The port is refused: the next one, unless it is pinned. -/
def refused (plan : Plan) (port : ℕ) : Next Pc :=
  if plan.static.isSome then .finish false else findAvailablePort cfg plan (port + 1)

/-- The process is spawned and its file written without a pause. -/
def launch (w : World) (plan : Plan) (port : ℕ) : World × ℕ :=
  let r := w.spawnProcess (plan.process port)
  (r.1.writeSessionInfo plan.zone r.2 plan.command (netportText plan.host port), r.2)

/-- What is written for a process that was found. -/
def adopt (w : World) (zone : String) (l : PsLine) : World :=
  (w.writeSessionInfo zone l.pid "webvnc" (netportText anyHost l.port)).record
    (.adopted zone l.pid ((w.processes.get l.pid).map (·.zone)))

def Plan.row (plan : Plan) (pid port : ℕ) : Row :=
  activeRow plan.zone plan.host plan.static pid port

/-- The session failed to come up: the request is answered while the kill goes on. -/
def abandon (w : World) (zone : String) : World × Next Pc :=
  let m := killSession w zone .nothing
  (m.1, orFinish m.2)

def startPlan (w : World) (zone : String) (consoleport : Option ℤ) (consolehost : Option String) :
    World × Next Pc :=
  let host := (consolehost.filter (· != "")).getD anyHost
  match consoleport.filter (· != 0) with
  | some port =>
    if port < 1025 ∨ port > 65535 then (w, .finish false)
    else (w, .await (.otherZone ⟨zone, host, some port.toNat, false⟩ port.toNat))
  | none => (w, findAvailablePort cfg ⟨zone, host, none, false⟩ cfg.portStart)

def resume (w : World) (pc : Pc) (reply : Reply Ans) : World × Next Pc :=
  match pc, reply with
  | .findZone zone, .answer (.found true) =>
    match w.getSessionInfo zone with
    | (some info, w) => (w, .await (.health zone info.port))
    | (none, w) => (w, .await (.pause zone))
  | .health zone _, .answer (.found true) => (w, .await (.touch zone))
  | .health zone _, _ =>
    let m := killSession w zone .restart
    (m.1, orFinish m.2)
  | .pause zone, _ => (w, .await (.readAttrs zone))
  | .readAttrs zone, .answer (.attrs port host) => startPlan cfg w zone port host
  | .otherZone plan port, .answer (.found false) => (w, .await (.probePs plan port))
  | .probePs plan port, .answer (.found true) => (w, refused cfg plan port)
  | .probePs plan port, _ => (w, .await (.probeRow plan port))
  | .probeRow plan port, .answer (.found true) => (w, refused cfg plan port)
  | .probeRow plan port, _ => (w, .await (.probeBind plan port))
  | .probeBind plan port, .answer (.found true) =>
    let m := launch w plan port
    if plan.auto then (m.1, .await (.destroyRow (plan.row m.2 port) false))
    else (m.1, .await (.settling plan m.2 port))
  | .probeBind plan port, _ => (w, refused cfg plan port)
  | .settling plan pid port, _ =>
    match (w.exitCodes.get pid).join with
    | some (_ + 1) => abandon w plan.zone
    | _ => (w, .await (.testVnc plan pid port))
  | .testVnc plan pid port, .answer (.found true) =>
    if w.isProcessRunning pid then (w, .await (.destroyRow (plan.row pid port) true))
    else (w, .finish false)
  | .testVnc plan _ _, _ => abandon w plan.zone
  | .destroyRow row _, .answer _ => (w, .await (.createRow row))
  | .destroyRow row true, _ => (w, .await (.createRow row))
  | .kill zone _ after, _ =>
    (w.removePidFile zone, orFinish (match after with
      | .restart => some (.pause zone)
      | .stop => some (.markStopped zone)
      | .cleanup row => some (.markRow row)
      | .nothing => none))
  | .orphans zone, .answer (.lines lines) =>
    match findOrphan zone lines with
    | some l =>
      if l.port = 0 then (w, .finish false)
      else (adopt w zone l, .await (.destroyRow (activeRow zone anyHost none l.pid l.port) false))
    | none => (w, .finish false)
  | .staleRows, .answer (.rows rs) =>
    let m := killSessions w rs
    (m.1, .call m.2 .killing)
  | .killing, _ => (w, .await .stoppedRows)
  | .stoppedRows, .answer (.rows rs) => (w, .call (rs.map fun r => .deleteRow r.id) .ending)
  | .activeRows, .answer (.rows rs) =>
    (w, .call ((rs.filter fun r => !w.isProcessRunning r.processId).map fun r => .markRow r.id)
      .pidFiles)
  | .activeRows, _ | .pidFiles, _ => (cleanFiles w w.pidFiles.keys, .await .respondingRows)
  | .respondingRows, .answer (.rows rs) =>
    (w, .call (rs.map fun r => .testRow r.id r.webPort) .ending)
  | .testRow id _, .answer (.found false) => (w, .await (.markRow id))
  -- answered, or an error that the request answers or the cleanup logs
  | _, _ => (w, .finish false)

def enter (w : World) : Entry → Option (World × Next Pc)
  | .start zone => some (w, .await (.findZone zone))
  | .auto zone =>
    match w.getSessionInfo zone with
    | (some _, w) => some (w, .finish false)
    | (none, w) => some (w, findAvailablePort cfg ⟨zone, anyHost, none, true⟩ cfg.portStart)
  | .info zone =>
    match w.getSessionInfo zone with
    | (some _, w) => some (w, .await (.touch zone))
    | (none, w) => some (w, .await (.orphans zone))
  | .stop zone =>
    let m := killSession w zone .stop
    some (m.1, orFinish m.2)
  | .cleanup => some (w, .await .staleRows)
  | .startup => some (w, .await .activeRows)
  | .look zone => some ((w.getSessionInfo zone).2, .finish false)
  | .exit pid code => (w.processes.get pid).map fun p => (w.die pid p code, .finish false)
  | .reap pid => (w.exited.get pid).map fun e => (w.onExit pid e.1 e.2, .finish false)
  | .listen pid => (w.processes.get pid).bind fun p =>
    if w.bound p.port then none
    else some ({ w with processes := w.processes.set pid { p with listening := true } },
      .finish false)
  | .elapse ms => some ({ w with clock := w.clock + ms }, .finish false)

def program : Program World Pc Ans Choice Entry where
  serve := serve cfg columns
  canFail := canFail
  resume := resume cfg
  enter := enter cfg

end Program

abbrev VState := State World Pc Ans
abbrev VLabel := Label Choice Entry

end ZoneweaverAgent.Vnc
