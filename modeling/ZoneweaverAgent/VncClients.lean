import Mathlib.Data.Finset.Card
import ZoneweaverAgent.KeyedList
import ZoneweaverAgent.Transition

/-!
# Clients of the console sockets

A client of a zone's console has a socket to the agent and, behind it, the connection that the
agent opens to the console server. The events of both arrive in any order. The tracker holds the
clients of every zone; when the last one is removed, a timer may be set that kills the session of
the zone. Clients are numbered in the order in which they connect, and the clock counts the steps.
-/

namespace ZoneweaverAgent.VncClients

open Transition

section Tracker

/-- The connections of every zone that has one. -/
abbrev Tracker := KeyedList String (Finset ℕ)

namespace Tracker

def addConnection (t : Tracker) (zoneName : String) (connectionId : ℕ) : Tracker :=
  t.set zoneName (insert connectionId ((t.get zoneName).getD ∅))

/-- The flag says whether this was the last connection. -/
def removeConnection (t : Tracker) (zoneName : String) (connectionId : ℕ) : Tracker × Bool :=
  match t.get zoneName with
  | none => (t, false)
  | some connections =>
    let remaining := connections.erase connectionId
    if remaining.card = 0 then (KeyedList.erase t zoneName, true)
    else (t.set zoneName remaining, false)

def getConnectionCount (t : Tracker) (zoneName : String) : ℕ :=
  ((t.get zoneName).map Finset.card).getD 0

/-- No zone is kept without a connection. -/
def Holds (t : Tracker) (held : String → Finset ℕ) : Prop :=
  ∀ zone, t.get zone = if held zone = ∅ then none else some (held zone)

end Tracker

end Tracker

section Accounts

/-- A socket is closing from the agent's or the client's close frame to its close event; behind an
error event the close event is still to come. -/
inductive Socket
  | opened
  | closing
  | failed
  | closed
  deriving DecidableEq

/-- `if (ws.readyState === WebSocket.OPEN) ws.close()` -/
def Socket.close : Socket → Socket
  | .opened => .closing
  | s => s

inductive Backend
  | connecting
  | opened
  | closing
  | failed
  | closed
  deriving DecidableEq

structure Client where
  zone : String
  connectedAt : ℕ
  socket : Socket
  backend : Backend
  /-- whether the events of the socket are handled -/
  handlers : Bool

/-- The socket has had its close event or an error event. -/
def Client.Ended (c : Client) : Prop := c.socket = .failed ∨ c.socket = .closed

instance : DecidablePred Client.Ended := fun c =>
  inferInstanceAs (Decidable (c.socket = .failed ∨ c.socket = .closed))

/-- A removal that took a connection out, and whether no other client of the zone was connected. -/
structure Removal where
  client : ℕ
  last : Bool

/-- The clients and the tracker. The rest is history: the removals, and the clients at whose removal
`performSmartCleanup` was called with `isLastClient`. -/
structure Accounts where
  clients : List Client
  tracker : Tracker
  removed : List Removal
  cleanups : List ℕ

namespace Accounts

def left (a : Accounts) : List ℕ := a.removed.map Removal.client

/-- The clients of the zone that have connected and were not removed. -/
def connected (a : Accounts) (zone : String) : Finset ℕ :=
  (Finset.range a.clients.length).filter fun c =>
    a.clients[c]?.map Client.zone = some zone ∧ c ∉ a.left

/-- The clients of the zone whose socket is as `p` says. -/
def having (a : Accounts) (zone : String) (p : Socket → Prop) [DecidablePred p] : Finset ℕ :=
  (Finset.range a.clients.length).filter fun c =>
    a.clients[c]?.any fun client => client.zone = zone ∧ p client.socket

def find (a : Accounts) (c : ℕ) (p : Client → Prop) [DecidablePred p] : Option Client :=
  a.clients[c]?.filter fun client => p client

def put (a : Accounts) (c : ℕ) (client : Client) : Accounts :=
  { a with clients := a.clients.set c client }

def connect (a : Accounts) (zone : String) (now : ℕ) : Accounts :=
  { a with
    clients := a.clients ++ [⟨zone, now, .opened, .connecting, false⟩]
    tracker := a.tracker.addConnection zone a.clients.length }

/-- The flag is what `removeConnection` returns. -/
def remove (a : Accounts) (c : ℕ) (zone : String) : Accounts × Bool :=
  let (tracker, isLastClient) := a.tracker.removeConnection zone c
  let last : Bool := (a.connected zone).erase c = ∅
  ({ a with
    tracker
    removed :=
      if c ∈ (a.tracker.get zone).getD ∅ then a.removed ++ [⟨c, last⟩] else a.removed
    cleanups := if isLastClient then a.cleanups ++ [c] else a.cleanups }, isLastClient)

def handleConnectionClose (a : Accounts) (c : ℕ) (client : Client) : Accounts × Bool :=
  let r := a.remove c client.zone
  let backend := if client.backend = .opened then .closing else client.backend
  (r.1.put c { client with backend }, r.2)

/-- Of the handlers of a backend that had opened, the second finds the socket closing. -/
def handleBackendError (a : Accounts) (c : ℕ) (client : Client) : Accounts × Bool :=
  let r := a.remove c client.zone
  (r.1.put c { client with socket := client.socket.close, backend := .failed }, r.2)

end Accounts

end Accounts

section Sessions

structure Timer where
  zone : String
  setAt : ℕ

/-- A kill under way: `killSession` has looked the process of the session up. -/
structure Kill where
  zone : String
  startedAt : ℕ
  setAt : ℕ

structure Killed extends Kill where
  killedAt : ℕ

/-- The sessions with the time of their start; the zones whose boot setting is being looked up; the
timers in the order in which they were set; the kills under way, and those that succeeded. -/
structure State where
  clock : ℕ
  accounts : Accounts
  sessions : KeyedList String ℕ
  checks : List String
  timers : List Timer
  kills : List Kill
  killed : List Killed

def started : State := ⟨0, ⟨[], [], [], []⟩, [], [], [], [], []⟩

inductive Label
  | startSession (zone : String)
  | endSession (zone : String)
  | connect (zone : String)
  | clientClosing (c : ℕ)
  | clientClose (c : ℕ)
  | clientError (c : ℕ)
  | backendOpen (c : ℕ)
  | backendError (c : ℕ)
  | backendClose (c : ℕ)
  | bootChecked (i : ℕ) (vncEnabledAtBoot : Bool)
  | fire
  | kill (i : ℕ) (success : Bool)

def performSmartCleanup (zoneName : String) (isLastClient : Bool) (s : State) : State :=
  if isLastClient then { s with checks := s.checks ++ [zoneName] } else s

/-- A handler has removed a client of the zone. -/
def State.after (s : State) (zone : String) (r : Accounts × Bool) : State :=
  performSmartCleanup zone r.2 { s with accounts := r.1 }

/-- What runs when the delay of a timer is over, up to the signal. -/
def expire (timer : Timer) (s : State) : State :=
  if s.accounts.tracker.getConnectionCount timer.zone = 0 then
    match s.sessions.get timer.zone with
    | none => s
    | some startedAt => { s with kills := s.kills ++ [⟨timer.zone, startedAt, timer.setAt⟩] }
  else s

/-- The signal reaches the process of the session, if that still runs. -/
def signal (kill : Kill) (s : State) : State :=
  if s.sessions.get kill.zone = some kill.startedAt then
    { s with
      sessions := s.sessions.erase kill.zone
      killed := s.killed ++ [⟨kill, s.clock⟩] }
  else s

def act (s : State) : Label → Option State
  | .startSession zone =>
    if (s.sessions.get zone).isNone then
      some { s with sessions := s.sessions.set zone s.clock }
    else none
  | .endSession zone => (s.sessions.get zone).map fun _ =>
    { s with sessions := s.sessions.erase zone }
  | .connect zone => (s.sessions.get zone).map fun _ =>
    { s with accounts := s.accounts.connect zone s.clock }
  | .clientClosing c => (s.accounts.find c fun client => client.socket = .opened).map fun client =>
    { s with accounts := s.accounts.put c { client with socket := .closing } }
  | .clientClose c => (s.accounts.find c fun client => client.socket ≠ .closed).map fun client =>
    let client := { client with socket := .closed }
    if client.handlers then s.after client.zone (s.accounts.handleConnectionClose c client)
    else { s with accounts := s.accounts.put c client }
  | .clientError c =>
    -- an error event without a listener is thrown, and nothing catches it
    (s.accounts.find c fun client => ¬client.Ended ∧ client.handlers).map fun client =>
      s.after client.zone (s.accounts.handleConnectionClose c { client with socket := .failed })
  | .backendOpen c =>
    (s.accounts.find c fun client => client.backend = .connecting).map fun client =>
      { s with accounts := s.accounts.put c { client with backend := .opened, handlers := true } }
  | .backendError c =>
    (s.accounts.find c fun client => client.backend ≠ .failed ∧ client.backend ≠ .closed).map
      fun client => s.after client.zone (s.accounts.handleBackendError c client)
  | .backendClose c =>
    (s.accounts.find c fun client => client.backend ≠ .connecting ∧ client.backend ≠ .closed).map
      fun client =>
        let socket := if client.handlers then client.socket.close else client.socket
        { s with accounts := s.accounts.put c { client with socket, backend := .closed } }
  | .bootChecked i vncEnabledAtBoot => s.checks[i]?.map fun zone =>
    { s with
      checks := s.checks.eraseIdx i
      timers := if vncEnabledAtBoot then s.timers else s.timers ++ [⟨zone, s.clock⟩] }
  | .fire => s.timers.head?.map fun timer => expire timer { s with timers := s.timers.tail }
  | .kill i success => s.kills[i]?.map fun kill =>
    let s := { s with kills := s.kills.eraseIdx i }
    if success then signal kill s else s

def step (s : State) (l : Label) : Option State :=
  (act s l).map fun t => { t with clock := s.clock + 1 }

end Sessions

section Property

/-- No client has connected to the zone behind `time`. -/
def Accounts.NoneSince (a : Accounts) (zone : String) (time : ℕ) : Prop :=
  ∀ client ∈ a.clients, client.zone = zone → client.connectedAt ≤ time

/-- The tracker counts the clients whose socket is open, and of the others only such whose socket is
closing; every client that has connected is removed once, when its socket ends at the latest; every
removal of a last client calls for the cleanup once; and no session was killed by a timer that a
client or its start came behind. -/
structure Safe (s : State) : Prop where
  counted : ∀ zone, ∃ held, s.accounts.having zone (· = .opened) ⊆ held ∧
    held ⊆ s.accounts.having zone (fun socket => socket = .opened ∨ socket = .closing) ∧
    s.accounts.tracker.getConnectionCount zone = held.card
  matched : ∀ c client, s.accounts.clients[c]? = some client →
    s.accounts.left.count c ≤ 1 ∧ (client.socket = .opened → s.accounts.left.count c = 0) ∧
      (client.Ended → s.accounts.left.count c = 1)
  cleaned : s.accounts.cleanups = (s.accounts.removed.filter Removal.last).map Removal.client
  spared : ∀ k ∈ s.killed, k.startedAt ≤ k.setAt ∧ ∀ client ∈ s.accounts.clients,
    client.zone = k.zone → client.connectedAt ≤ k.setAt ∨ k.killedAt < client.connectedAt

/-- A socket does not close while its backend is connecting; no client comes while the session is
being killed; and a timer that finds a session without clients was set behind the start of that
session and behind the last client of the zone. -/
def Fits (s : State) : Label → Prop
  | .connect zone => ∀ kill ∈ s.kills, kill.zone ≠ zone
  | .clientClose c => ∀ client ∈ s.accounts.clients[c]?, client.backend ≠ .connecting
  | .fire => ∀ timer ∈ s.timers.head?, ∀ startedAt ∈ s.sessions.get timer.zone,
      s.accounts.tracker.getConnectionCount timer.zone = 0 →
        startedAt ≤ timer.setAt ∧ s.accounts.NoneSince timer.zone timer.setAt
  | _ => True

instance (s : State) : DecidablePred (Fits s)
  | .connect zone => inferInstanceAs (Decidable (∀ kill ∈ s.kills, kill.zone ≠ zone))
  | .clientClose c =>
    inferInstanceAs (Decidable (∀ client ∈ s.accounts.clients[c]?, client.backend ≠ .connecting))
  | .fire => inferInstanceAs (Decidable (∀ timer ∈ s.timers.head?,
      ∀ startedAt ∈ s.sessions.get timer.zone,
        s.accounts.tracker.getConnectionCount timer.zone = 0 →
          startedAt ≤ timer.setAt ∧ ∀ client ∈ s.accounts.clients,
            client.zone = timer.zone → client.connectedAt ≤ timer.setAt))
  | .startSession _ | .endSession _ | .clientClosing _ | .clientError _ | .backendOpen _ |
    .backendError _ | .backendClose _ | .bootChecked _ _ | .kill _ _ => .isTrue trivial

end Property

end ZoneweaverAgent.VncClients
