import ZoneweaverAgent.KeyedList
import ZoneweaverAgent.TextPatterns

/-!
# The PTY sessions of the zone consoles

The manager keeps one session for each zone. The handlers of a PTY process and the timer of a
destroy hold the session they were made for; they run whenever their process speaks or exits, or
the timer is due. A process is alive when its process id is in use on the host, by itself or by
another process. Texts are lists of UTF-16 code units.
-/

namespace ZoneweaverAgent.Zlogin

open TextPatterns

abbrev Text := List UInt16

section Ansi

def unit (c : Char) : UInt16 := UInt16.ofNat c.toNat

def between (first last : Char) (u : UInt16) : Bool := unit first ≤ u && u ≤ unit last

def oneOf (chars : List Char) (u : UInt16) : Bool := (chars.map unit).contains u

/-- ESC and CSI -/
def isEscape (u : UInt16) : Bool := u == 27 || u == 155

def isDigit : UInt16 → Bool := between '0' '9'

/-- `[[()#;?]` -/
def isIntermediate : UInt16 → Bool := oneOf ['[', '(', ')', '#', ';', '?']

/-- `[0-9A-ORZcf-nqry=><~]` -/
def isFinal (u : UInt16) : Bool :=
  isDigit u || between 'A' 'O' u || between 'f' 'n' u ||
    oneOf ['R', 'Z', 'c', 'q', 'r', 'y', '=', '>', '<', '~'] u

/-- `[0-9]{1,4}(?:;[0-9]{0,4})*` -/
def parameters : Pattern UInt16 :=
  seq (seq (one isDigit) (upTo (one isDigit) 3))
    (many (seq (one (oneOf [';'])) (upTo (one isDigit) 4)))

def ansiRegex : Pattern UInt16 :=
  seq (one isEscape) (seq (many (one isIntermediate)) (seq (maybe parameters) (one isFinal)))

def stripAnsi (text : Text) : Text := removeAll ansiRegex text

end Ansi

/-- A process runs, has ended, and then its exit is handled. -/
inductive Stage
  | running
  | ended
  | exited
  deriving DecidableEq

/-- A session, with the zone that its handlers know and the state of its process. -/
structure Session where
  zoneName : String
  cols : ℕ
  rows : ℕ
  rawBuffer : Text
  strippedBuffer : Text
  subscribers : List ℕ
  automationActive : Bool
  pid : ℕ
  createdAt : ℕ
  lastActivity : ℕ
  stage : Stage
  deriving DecidableEq

section Data

def bufferLimit : ℕ := 100000

/-- `buffer.slice(-100000)` where the buffer is longer. -/
def keepLast (buffer : Text) : Text :=
  if bufferLimit < buffer.length then buffer.drop (buffer.length - bufferLimit) else buffer

def Session.onData (session : Session) (now : ℕ) (data : Text) : Session :=
  { session with
    rawBuffer := keepLast (session.rawBuffer ++ data)
    strippedBuffer := keepLast (session.strippedBuffer ++ stripAnsi data)
    lastActivity := now }

end Data

/-- A change of the rows of a zone. -/
inductive Update
  | closed (zoneName : String)
  | automation (zoneName : String) (active : Bool)
  deriving DecidableEq

/-- The sessions are numbered in the order of their creation, and `next` is the next number.
`others` are the ids of other processes. What was written, signalled, passed to subscribers and
asked of the database, and for which sessions `destroy` was called, is kept as history. -/
structure Manager where
  objects : KeyedList ℕ Session
  next : ℕ
  sessions : KeyedList String ℕ
  timers : List (ℕ × ℕ)
  now : ℕ
  others : List ℕ
  written : List (ℕ × Text)
  signalled : List ℕ
  delivered : List (ℕ × Text)
  updates : List Update
  destroyed : List ℕ

def start (now : ℕ) : Manager := ⟨[], 0, [], [], now, [], [], [], [], [], []⟩

section Operations
variable (s : Manager)

def inUse (pid : ℕ) : Bool :=
  s.others.contains pid || s.objects.any fun e => e.2.pid = pid && e.2.stage = .running

def isProcessAlive (session : Session) : Bool := inUse s session.pid

/-- The session a zone has, with its number. -/
def sessionOf (zoneName : String) : Option (ℕ × Session) :=
  (s.sessions.get zoneName).bind fun n => (s.objects.get n).map fun session => (n, session)

def updateSession (n : ℕ) (session : Session) : Manager :=
  { s with objects := s.objects.set n session }

def newSession (zoneName : String) (cols rows : Option ℕ) (pid now : ℕ) : Session where
  zoneName := zoneName
  cols := (cols.filter (· ≠ 0)).getD 80
  rows := (rows.filter (· ≠ 0)).getD 30
  rawBuffer := []
  strippedBuffer := []
  subscribers := []
  automationActive := false
  pid := pid
  createdAt := now
  lastActivity := now
  stage := .running

/-- `pty.spawn`, which throws where no process id is given, and the new entry. -/
def spawn (zoneName : String) (cols rows spawned : Option ℕ) : Option Manager :=
  match spawned with
  | none => some s
  | some pid =>
    if inUse s pid then none
    else some { s with
      objects := s.objects.set s.next (newSession zoneName cols rows pid s.now)
      next := s.next + 1
      sessions := s.sessions.set zoneName s.next }

def getOrCreate (zoneName : String) (cols rows spawned : Option ℕ) : Option Manager :=
  match sessionOf s zoneName with
  | some (n, session) =>
    if isProcessAlive s session then
      some (updateSession s n { session with lastActivity := s.now })
    else spawn { s with sessions := s.sessions.erase zoneName } zoneName cols rows spawned
  | none => spawn s zoneName cols rows spawned

def onData (n : ℕ) (data : Text) : Option Manager :=
  (s.objects.get n).bind fun session =>
    if session.stage = .exited then none
    else some { updateSession s n (session.onData s.now data) with
      delivered := session.subscribers.map (fun callback => (callback, data)) ++ s.delivered }

/-- The process ends on the host. -/
def onEnd (n : ℕ) : Option Manager :=
  (s.objects.get n).bind fun session =>
    if session.stage = .running then some (updateSession s n { session with stage := .ended })
    else none

def onExit (n : ℕ) : Option Manager :=
  (s.objects.get n).bind fun session =>
    if session.stage = .ended then
      some { updateSession s n { session with stage := .exited } with
        sessions := s.sessions.erase session.zoneName
        updates := .closed session.zoneName :: s.updates }
    else none

/-- What is done with the session of a zone, if it has one. -/
def withSession (zoneName : String) (f : Session → Session) : Manager :=
  match sessionOf s zoneName with
  | some (n, session) => updateSession s n (f session)
  | none => s

def subscribe (zoneName : String) (callback : ℕ) : Manager :=
  withSession s zoneName fun session =>
    { session with
      subscribers := if callback ∈ session.subscribers then session.subscribers
        else session.subscribers ++ [callback]
      lastActivity := s.now }

/-- The function that `subscribe` returned for session `n`. -/
def unsubscribe (n callback : ℕ) : Option Manager :=
  (s.objects.get n).map fun session =>
    updateSession s n { session with subscribers := session.subscribers.filter (· ≠ callback) }

def write (zoneName : String) (data : Text) : Manager :=
  match sessionOf s zoneName with
  | some (n, session) =>
    if isProcessAlive s session then
      { updateSession s n { session with lastActivity := s.now } with
        written := (n, data) :: s.written }
    else s
  | none => s

def clearBuffer (zoneName : String) : Manager :=
  withSession s zoneName fun session => { session with rawBuffer := [], strippedBuffer := [] }

def setAutomationActive (zoneName : String) (active : Bool) : Manager :=
  match sessionOf s zoneName with
  | some (n, session) =>
    { updateSession s n { session with automationActive := active, lastActivity := s.now } with
      updates := .automation zoneName active :: s.updates }
  | none => s

/-- `~.` and a line end -/
def detach : Text := [unit '~', unit '.', 13, 10]

/-- `broken` are the processes that cannot be written to. Where the write throws, there is no
timer. -/
def destroy (broken : List ℕ) (zoneName : String) : Manager :=
  match sessionOf s zoneName with
  | none => s
  | some (n, session) =>
    let alive := isProcessAlive s session
    let throws := alive && broken.contains n
    { s with
      written := if alive && !throws then (n, detach) :: s.written else s.written
      timers := if throws then s.timers else (s.now + 1000, n) :: s.timers
      sessions := s.sessions.erase zoneName
      destroyed := n :: s.destroyed
      updates := .closed zoneName :: s.updates }

def destroyEach (broken : List ℕ) (zoneNames : List String) : Manager :=
  zoneNames.foldl (fun s zoneName => destroy s broken zoneName) s

def destroyAll (broken : List ℕ) : Manager := destroyEach s broken s.sessions.keys

/-- The timer of a destroy. -/
def onTimer (due n : ℕ) : Option Manager :=
  if (due, n) ∈ s.timers ∧ due ≤ s.now then
    (s.objects.get n).map fun session =>
      { s with
        timers := s.timers.erase (due, n)
        signalled := if isProcessAlive s session then session.pid :: s.signalled
          else s.signalled }
  else none

def isIdle (session : Session) : Bool :=
  session.subscribers.isEmpty && !session.automationActive &&
    s.now - session.lastActivity > 10 * 60 * 1000

def cleanupIdleSessions (broken : List ℕ) : Manager :=
  destroyEach s broken
    (s.sessions.keys.filter fun zoneName => (sessionOf s zoneName).any fun e => isIdle s e.2)

end Operations

inductive Event
  | getOrCreate (zoneName : String) (cols rows spawned : Option ℕ)
  | data (n : ℕ) (data : Text)
  | ended (n : ℕ)
  | exit (n : ℕ)
  | subscribe (zoneName : String) (callback : ℕ)
  | unsubscribe (n callback : ℕ)
  | write (zoneName : String) (data : Text)
  | clearBuffer (zoneName : String)
  | setAutomationActive (zoneName : String) (active : Bool)
  | destroy (zoneName : String) (broken : List ℕ)
  | destroyAll (broken : List ℕ)
  | timer (due n : ℕ)
  | cleanup (broken : List ℕ)
  | elapse (ms : ℕ)
  | others (pids : List ℕ)
  deriving DecidableEq

def step (s : Manager) : Event → Option Manager
  | .getOrCreate zoneName cols rows spawned => getOrCreate s zoneName cols rows spawned
  | .data n data => onData s n data
  | .ended n => onEnd s n
  | .exit n => onExit s n
  | .subscribe zoneName callback => some (subscribe s zoneName callback)
  | .unsubscribe n callback => unsubscribe s n callback
  | .write zoneName data => some (write s zoneName data)
  | .clearBuffer zoneName => some (clearBuffer s zoneName)
  | .setAutomationActive zoneName active => some (setAutomationActive s zoneName active)
  | .destroy zoneName broken => some (destroy s broken zoneName)
  | .destroyAll broken => some (destroyAll s broken)
  | .timer due n => onTimer s due n
  | .cleanup broken => some (cleanupIdleSessions s broken)
  | .elapse ms => some { s with now := s.now + ms }
  | .others pids => some { s with others := pids }

end ZoneweaverAgent.Zlogin
