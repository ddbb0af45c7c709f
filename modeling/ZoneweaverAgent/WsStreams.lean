import ZoneweaverAgent.KeyedList
import ZoneweaverAgent.OperationCategories
import ZoneweaverAgent.PathScan

/-!
# WebSocket upgrades

An upgrade carries a ticket, minted for a machine or for the host. `dispatchUpgrade` tells six
families of streams apart by patterns over the path, the first one that matches anywhere, and
compares the ticket's scope with the owner of the stream. What an upgrade opens is a stream or
nothing: every refusal, and every failure, closes the socket.
-/

namespace ZoneweaverAgent.WsStreams
open PathScan

section Tickets

/-- The machine a ticket is bound to; none for the host. -/
abbrev Scope := Option String

structure Ticket where
  expiresAt : ℕ
  machine : Scope

def ticketTtlMs : ℕ := 60 * 1000

/-- `token` is the fresh random text. -/
def mintTicket (tickets : KeyedList String Ticket) (now : ℕ) (token : String)
    (machine : Option String) : KeyedList String Ticket :=
  tickets.set token ⟨now + ticketTtlMs, machine.filter (· ≠ "")⟩

/-- The scope of a ticket that is neither missing nor unknown nor expired. -/
def verifyTicket (tickets : KeyedList String Ticket) (now : ℕ) (ticket : Option String) :
    Option Scope :=
  match ticket.filter (· ≠ "") with
  | none => none
  | some ticket =>
    match tickets.get ticket with
    | none => none
    | some entry => if entry.expiresAt < now then none else some entry.machine

end Tickets

section Tables

def isAlphanumeric (c : Char) : Bool :=
  ('a' ≤ c && c ≤ 'z') || ('A' ≤ c && c ≤ 'Z') || ('0' ≤ c && c ≤ '9')

def isNameChar (c : Char) : Bool := isAlphanumeric c || c = '-' || c = '_' || c = '.'

/-- `/^[a-zA-Z0-9][a-zA-Z0-9\-_.]*[a-zA-Z0-9]$|^[a-zA-Z0-9]$/`, at most 64 characters -/
def validateZoneName (name : String) : Bool :=
  name.toList ≠ [] && name.toList.head?.all isAlphanumeric &&
    name.toList.getLast?.all isAlphanumeric && name.toList.all isNameChar && name.length ≤ 64

abbrev MachineName := {name : String // validateZoneName name = true}

/-- Whom a task works for: a machine, or the host in one of the pseudo-scopes. -/
inductive Origin
  | machine (name : MachineName)
  | pseudo (scope : String) (exempt : scope ∈ exclusivityExemptScopes)

def Origin.zoneName : Origin → String
  | .machine name => name.val
  | .pseudo scope _ => scope

structure Session where
  zoneName : MachineName
  status : String

/-- `[a-fA-F0-9-]` -/
def isIdChar (c : Char) : Bool :=
  ('a' ≤ c && c ≤ 'f') || ('A' ≤ c && c ≤ 'F') || ('0' ≤ c && c ≤ '9') || c = '-'

def IsId (id : Text) : Prop := id ≠ [] ∧ ∀ c ∈ id, isIdChar c = true

/-- The rows behind the streams and the machines with a live VNC session. The ids of rows are
UUIDs. -/
structure Tables where
  terminals : KeyedList Text String
  zlogins : KeyedList Text Session
  sshs : KeyedList Text Session
  logs : List Text
  tasks : KeyedList Text Origin
  vncs : List String
  taskIds : ∀ id task, tasks.get id = some task → IsId id

end Tables

inductive Stream
  | terminal (id : Text)
  | zlogin (id : Text)
  | ssh (id : Text)
  | log (id : Text)
  | task (id : Text)
  | vnc (zoneName : String)
deriving DecidableEq

section Patterns

/-- `/\/term\/(?<sessionId>[a-fA-F0-9-]+)/` and its siblings, without the search. -/
def sessionPattern (family : String) (text : Text) : Option Text :=
  (behind ('/' :: family.toList ++ ['/']) text).bind fun rest =>
    (PathScan.run isIdChar rest).map Prod.fst

def termMatch : Text → Option Text := search (sessionPattern "term")

def zloginMatch : Text → Option Text := search (sessionPattern "zlogin")

def sshMatch : Text → Option Text := search (sessionPattern "ssh")

def logStreamMatch : Text → Option Text := search (sessionPattern "logs/stream")

/-- `/\/tasks\/(?<taskId>[a-fA-F0-9-]+)\/stream/` -/
def taskPattern (text : Text) : Option Text :=
  (behind "/tasks/".toList text).bind fun rest =>
    (PathScan.run isIdChar rest).bind fun (id, rest) =>
      (behind "/stream".toList rest).map fun _ => id

def taskStreamMatch : Text → Option Text := search taskPattern

/-- `/\/machines\/(?<zoneName>[^/]+)\/vnc\/websockify/` -/
def vncPattern (text : Text) : Option Text :=
  (behind "/machines/".toList text).bind fun rest =>
    (PathScan.run (· ≠ '/') rest).bind fun (name, rest) =>
      (behind "/vnc/websockify".toList rest).map fun _ => name

def vncMatch : Text → Option Text := search vncPattern

end Patterns

section Upgrades
variable (t : Tables)

def isLive (status : String) : Bool := status = "active" || status = "connecting"

def handleTerminalWsUpgrade (id : Text) : Option Stream :=
  match t.terminals.get id with
  | some status => if isLive status then some (.terminal id) else none
  | none => none

/-- The upgrade to a session that belongs to a machine. -/
def handleSessionUpgrade (sessions : KeyedList Text Session) (stream : Text → Stream) (id : Text)
    (scope : Scope) : Option Stream :=
  match sessions.get id with
  | some session =>
    if isLive session.status then
      if some session.zoneName.val = scope then some (stream id) else none
    else none
  | none => none

def handleZloginWsUpgrade : Text → Scope → Option Stream := handleSessionUpgrade t.zlogins .zlogin

def handleSSHWsUpgrade : Text → Scope → Option Stream := handleSessionUpgrade t.sshs .ssh

def logSessionId (path : Text) : Option Text :=
  match split path with
  | [_, logs, stream, id] =>
    if logs = "logs".toList ∧ stream = "stream".toList then some id else none
  | _ => none

def handleLogStreamUpgrade (path : Text) : Option Stream :=
  (logSessionId path).bind fun id => if id ∈ t.logs then some (.log id) else none

def hostLevelTask (zoneName : String) : Bool := zoneName = "system" || zoneName = "artifact"

def handleTaskStreamUpgrade (id : Text) (scope : Scope) : Option Stream :=
  match t.tasks.get id with
  | none => none
  | some task =>
    if if hostLevelTask task.zoneName then scope ≠ none else some task.zoneName ≠ scope then none
    else some (.task id)

def setupVncConnection (zoneName : String) : Option Stream :=
  if zoneName ∈ t.vncs then some (.vnc zoneName) else none

def dispatchUpgrade (path : Text) (scope : Scope) : Option Stream :=
  match termMatch path with
  | some id => if scope ≠ none then none else handleTerminalWsUpgrade t id
  | none =>
  match zloginMatch path with
  | some id => handleZloginWsUpgrade t id scope
  | none =>
  match sshMatch path with
  | some id => handleSSHWsUpgrade t id scope
  | none =>
  match logStreamMatch path with
  | some _ => if scope ≠ none then none else handleLogStreamUpgrade t path
  | none =>
  match taskStreamMatch path with
  | some id => handleTaskStreamUpgrade t id scope
  | none =>
  match vncMatch path with
  | some name =>
    match decode name with
    | none => none
    | some name =>
      if some (String.ofList name) ≠ scope then none
      else setupVncConnection t (String.ofList name)
  | none => none

def handleWebSocketUpgrade (tickets : KeyedList String Ticket) (now : ℕ) (path : Text)
    (ticket : Option String) : Option Stream :=
  match verifyTicket tickets now ticket with
  | none => none
  | some scope => dispatchUpgrade t path scope

end Upgrades

end ZoneweaverAgent.WsStreams
