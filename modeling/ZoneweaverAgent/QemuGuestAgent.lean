import ZoneweaverAgent.JsonValue

/-!
# One exchange over the guest-agent channel

The agent resynchronizes behind the first `0xFF` byte, wants its own id back in the next line, sends
the command and takes the line after that for the answer. The bytes come from the guest, in chunks
of any size; an exception that leaves a handler ends the process.
-/

namespace ZoneweaverAgent.QemuGuestAgent

/-- `toString('utf8')`, `JSON.parse` and the text of a value in a template literal. -/
structure Runtime where
  decode : List UInt8 → String
  parse : String → Except String Json
  toText : Json → String

def trim (s : String) : String :=
  String.ofList ((s.toList.dropWhile isTrimmed).reverse.dropWhile isTrimmed).reverse

def Runtime.templateText (rt : Runtime) : Option Json → Option String
  | none => some "undefined"
  | some value => if value.hasText then some (rt.toText value) else none

inductive Stage
  | syncSentinel
  | syncLine
  | reply
deriving DecidableEq

inductive Outcome
  | reply (value : Option Json)
  | noReply
  | failed (message : String)
deriving DecidableEq

inductive Sent
  | sync (id : ℤ)
  | command
deriving DecidableEq

structure Exchange where
  buffer : List UInt8
  stage : Stage
  delivered : Bool
  settled : Bool
  settlements : List Outcome
  sent : List Sent
  crashed : Bool
deriving DecidableEq

def Exchange.opened : Exchange := ⟨[], .syncSentinel, false, false, [], [], false⟩

def Exchange.finish (outcome : Outcome) (x : Exchange) : Exchange :=
  if x.settled then x
  else { x with settled := true, settlements := x.settlements ++ [outcome] }

def Exchange.crash (x : Exchange) : Exchange := { x with crashed := true }

def sentinel : UInt8 := 0xff
def newline : UInt8 := 0x0a

/-- What comes after the first byte `mark`, and what comes before it. -/
def splitAt (mark : UInt8) (bytes : List UInt8) : Option (List UInt8 × List UInt8) :=
  if mark ∈ bytes then
    some (bytes.takeWhile (· ≠ mark), (bytes.dropWhile (· ≠ mark)).tail)
  else none

def takeLine (buffer : List UInt8) : Option (List UInt8 × List UInt8) := splitAt newline buffer

section Handlers
variable (rt : Runtime) (syncId : ℤ)

/-- The line answers the sync request with its id. -/
def answersSync (line : List UInt8) : Bool :=
  match rt.parse (rt.decode line) with
  | .ok parsed => parsed.field "return" = some (.num syncId)
  | .error _ => false

def handleSyncLine (x : Exchange) (line : List UInt8) : Exchange :=
  let text := trim (rt.decode line)
  match rt.parse (rt.decode line) with
  | .error _ => x.finish (.failed ("guest-sync answered unparseable line: " ++ text))
  -- `parsed.return` of `null`, outside the `try`
  | .ok .null => x.crash
  | .ok parsed =>
    if parsed.field "return" = some (.num syncId) then
      { x with sent := x.sent ++ [.command], delivered := true, stage := .reply }
    else
      x.finish (.failed
        ("guest-sync answered " ++ text ++ " (want id " ++ toString syncId ++ ")"))

def handleReplyLine (x : Exchange) (line : List UInt8) : Exchange :=
  match rt.parse (rt.decode line) with
  | .error message =>
    x.finish (.failed ("parse guest answer " ++ trim (rt.decode line) ++ ": " ++ message))
  | .ok .null => x.crash
  | .ok parsed =>
    match (parsed.field "error").filter Json.truthy with
    | none => x.finish (.reply (parsed.field "return"))
    | some error =>
      match rt.templateText (error.field "class"), rt.templateText (error.field "desc") with
      | some errorClass, some desc =>
        x.finish (.failed ("guest agent error (" ++ errorClass ++ "): " ++ desc))
      | _, _ => x.crash

def readReply (x : Exchange) : Exchange :=
  match takeLine x.buffer with
  | none => x
  | some (line, rest) => handleReplyLine rt { x with buffer := rest } line

def readSync (x : Exchange) : Exchange :=
  match takeLine x.buffer with
  | none => x
  | some (line, rest) =>
    let answered := handleSyncLine rt syncId { x with buffer := rest } line
    if answered.stage = .reply then readReply rt answered else answered

def readSentinel (x : Exchange) : Exchange :=
  match splitAt sentinel x.buffer with
  | none => { x with buffer := [] }
  | some (_, rest) => readSync rt syncId { x with buffer := rest, stage := .syncLine }

def onData (x : Exchange) (chunk : List UInt8) : Exchange :=
  let x := { x with buffer := x.buffer ++ chunk }
  match x.stage with
  | .syncSentinel => readSentinel rt syncId x
  | .syncLine => readSync rt syncId x
  | .reply => readReply rt x

def closeOut (message : String) (x : Exchange) : Exchange :=
  if x.delivered then x.finish .noReply else x.finish (.failed message)

end Handlers

inductive Event
  | connect
  | data (chunk : List UInt8)
  | error (message : String)
  | close
  | timeout
deriving DecidableEq

def Exchange.live (x : Exchange) : Bool := !x.settled && !x.crashed

section Runs
variable (rt : Runtime) (syncId : ℤ)

/-- A settled exchange has destroyed its socket and cleared its timer, and only the close of the
socket still arrives; after a crash nothing does. -/
def handle (x : Exchange) : Event → Exchange
  | .connect => if x.live then { x with sent := x.sent ++ [.sync syncId] } else x
  | .data chunk => if x.live then onData rt syncId x chunk else x
  | .timeout => if x.live then closeOut "guest agent did not answer" x else x
  | .error message => if x.crashed then x else closeOut message x
  | .close =>
    if x.crashed then x else closeOut "guest agent channel closed before answering" x

def run (events : List Event) : Exchange := events.foldl (handle rt syncId) .opened

end Runs

def received : List Event → List UInt8
  | [] => []
  | .data chunk :: rest => chunk ++ received rest
  | _ :: rest => received rest

def Event.ends : Event → Bool
  | .error _ => true
  | .close => true
  | .timeout => true
  | _ => false

/-- What of an exchange the caller, the guest and the process see. -/
structure Observation where
  settlements : List Outcome
  sent : List Sent
  crashed : Bool
deriving DecidableEq

def Exchange.observe (x : Exchange) : Observation := ⟨x.settlements, x.sent, x.crashed⟩

/-- The line behind the first sentinel, and the bytes behind that line. -/
def syncSplit (bytes : List UInt8) : Option (List UInt8 × List UInt8) :=
  (splitAt sentinel bytes).bind fun parts => takeLine parts.2

/-- The line behind the sync line. -/
def replySplit (bytes : List UInt8) : Option (List UInt8 × List UInt8) :=
  (syncSplit bytes).bind fun parts => takeLine parts.2

section Property
variable (rt : Runtime) (syncId : ℤ)

/-- The guest has answered the sync request with its id. -/
def Synced (bytes : List UInt8) : Prop :=
  ∃ parts ∈ syncSplit bytes, answersSync rt syncId parts.1 = true

/-- A reply is the `return` of the line behind the right sync line; no reply is what an exchange
ends in whose command was delivered. -/
def Justified (bytes : List UInt8) : Outcome → Prop
  | .reply value => Synced rt syncId bytes ∧ ∃ parts ∈ replySplit bytes, ∃ parsed,
      rt.parse (rt.decode parts.1) = .ok parsed ∧ parsed.field "return" = value
  | .noReply => Synced rt syncId bytes
  | .failed _ => True

/-- What an exchange owes on one order of events. -/
structure Exchanged (events : List Event) : Prop where
  noThrow : (run rt syncId events).crashed = false
  once : (run rt syncId events).settlements.length ≤ 1
  settles : (∃ e ∈ events, e.ends = true) → (run rt syncId events).settlements.length = 1
  independent : ∀ (past : List Event) (chunks chunks' : List (List UInt8)) (future : List Event),
    events = past ++ chunks.map Event.data ++ future → chunks.flatten = chunks'.flatten →
    (run rt syncId (past ++ chunks'.map Event.data ++ future)).observe =
      (run rt syncId events).observe
  answers : ∀ outcome ∈ (run rt syncId events).settlements,
    Justified rt syncId (received events) outcome

/-- A reply line that throws: `null`, or an error whose class or text has no text. -/
def replyThrows (line : List UInt8) : Bool :=
  match rt.parse (rt.decode line) with
  | .error _ => false
  | .ok .null => true
  | .ok parsed =>
    match (parsed.field "error").filter Json.truthy with
    | none => false
    | some error => (rt.templateText (error.field "class")).isNone ||
        (rt.templateText (error.field "desc")).isNone

/-- No line that the exchange reads throws. -/
def Harmless (bytes : List UInt8) : Prop :=
  (∀ parts ∈ syncSplit bytes, rt.parse (rt.decode parts.1) ≠ .ok .null) ∧
    (Synced rt syncId bytes → ∀ parts ∈ replySplit bytes, replyThrows rt parts.1 = false)

end Property

end ZoneweaverAgent.QemuGuestAgent
