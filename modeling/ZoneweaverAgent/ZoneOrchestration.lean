import ZoneweaverAgent.JsonValue
import ZoneweaverAgent.Transition
import Mathlib.Data.List.Sort

/-!
# Priority orchestration of zones

The zones are grouped by the tens of their boot priority. One map starts all groups: each waits for
its own timer, if there is a delay and it is not the first, and then issues the stops or starts of
all its zones. The tasks run for as long as they like.
-/

namespace ZoneweaverAgent.ZoneOrchestration
open Transition

section Priorities
variable (parseInt : Option Json → Option ℤ)

/-- The attr the priority is read from; reading the name of `null` throws. -/
def findPriorityAttr : List Json → Except Unit (Option Json)
  | [] => .ok none
  | .null :: _ => .error ()
  | attr :: rest =>
    if attr.field "name" = some (.str "boot_priority") ∨
        attr.field "name" = some (.str "shutdown_priority") then .ok (some attr)
    else findPriorityAttr rest

def extractZonePriority (zoneConfig : Option Json) : ℕ :=
  match ((zoneConfig.bind (Json.field "attr")).bind Json.items?).map findPriorityAttr with
  | some (.ok (some attr)) =>
    match parseInt (attr.field "value") with
    | some priority => if 1 ≤ priority ∧ priority ≤ 100 then priority.toNat else 95
    | none => 95
  | _ => 95

structure ZoneRecord where
  name : String
  configuration : Option Json
deriving DecidableEq

/-- Priorities 1 to 10 are group 10, 11 to 20 are group 20, and so on. -/
def priorityGroup (zone : ZoneRecord) : ℕ :=
  (extractZonePriority parseInt zone.configuration - 1) / 10 * 10 + 10

structure Member where
  name : String
  priority : ℕ
deriving DecidableEq

structure Group where
  priorityRange : ℕ
  zones : List Member
deriving DecidableEq

def addToGroup (groups : KeyedList ℕ (List Member)) (zone : ZoneRecord) :
    KeyedList ℕ (List Member) :=
  let range := priorityGroup parseInt zone
  groups.set range ((groups.get range).getD [] ++
    [⟨zone.name, extractZonePriority parseInt zone.configuration⟩])

def groupZonesByPriority (zones : List ZoneRecord) : List Group :=
  ((zones.foldl (addToGroup parseInt) []).insertionSort fun a b => a.1 ≤ b.1).map fun group =>
    ⟨group.1, group.2.insertionSort fun a b => a.priority ≤ b.priority⟩

def calculateShutdownOrder (zones : List ZoneRecord) : List Group :=
  groupZonesByPriority parseInt zones

def calculateStartupOrder (zones : List ZoneRecord) : List Group :=
  (groupZonesByPriority parseInt zones).reverse

end Priorities

/-- The stop or start of one zone, in its priority group. -/
structure Issue where
  priorityRange : ℕ
  zone : String
deriving DecidableEq

def Group.issues (group : Group) : List Issue :=
  group.zones.map fun member => ⟨group.priorityRange, member.name⟩

inductive Event
  | begun (issue : Issue)
  | finished (issue : Issue)
deriving DecidableEq

/-- The groups whose timer runs, the tasks in progress, and what has happened so far. -/
structure State where
  waiting : List Group
  running : List Issue
  history : List Event
deriving DecidableEq

structure Options where
  strategy : String
  priorityDelay : Option ℚ

def Options.delayed (options : Options) : Bool := options.priorityDelay.any fun delay => 0 < delay

/-- The tasks of the groups are issued, group by group. -/
def State.launch (s : State) (groups : List Group) : State :=
  { s with
    running := s.running ++ groups.flatMap Group.issues
    history := s.history ++ (groups.flatMap Group.issues).map .begun }

/-- The map over the groups: only the first has no delay. -/
def startGroups (groups : List Group) (options : Options) : State :=
  if options.delayed then State.launch ⟨groups.drop 1, [], []⟩ (groups.take 1)
  else State.launch ⟨[], [], []⟩ groups

section Execution
variable (parseInt : Option Json → Option ℤ)

/-- The strategy makes no difference: both branches issue the whole group. -/
def executeZoneShutdownOrchestration (zones : List ZoneRecord) (options : Options) : State :=
  startGroups (calculateShutdownOrder parseInt zones) options

def executeZoneStartupOrchestration (zones : List ZoneRecord) (options : Options) : State :=
  startGroups (calculateStartupOrder parseInt zones) options

end Execution

inductive Label
  | elapse (k : ℕ)
  | finish (k : ℕ)
deriving DecidableEq

def step (s : State) : Label → Option State
  | .elapse k =>
    s.waiting[k]?.map fun group => State.launch { s with waiting := s.waiting.eraseIdx k } [group]
  | .finish k =>
    s.running[k]?.map fun issue =>
      { s with running := s.running.eraseIdx k, history := s.history ++ [.finished issue] }

inductive Direction
  | shutdown
  | startup
deriving DecidableEq

namespace Direction
variable (d : Direction) (parseInt : Option Json → Option ℤ)

def execute (zones : List ZoneRecord) (options : Options) : State :=
  match d with
  | shutdown => executeZoneShutdownOrchestration parseInt zones options
  | startup => executeZoneStartupOrchestration parseInt zones options

/-- The groups that have to be through first: the lower ones for a stop, the higher for a start. -/
def Before (range range' : ℕ) : Prop :=
  match d with
  | shutdown => range < range'
  | startup => range' < range

end Direction

def selected (parseInt : Option Json → Option ℤ) (zones : List ZoneRecord) : List Issue :=
  zones.map fun zone => ⟨priorityGroup parseInt zone, zone.name⟩

def begins (zone : String) : Event → Bool
  | .begun issue => issue.zone = zone
  | .finished _ => false

/-- What the orchestration owes in every state of a run. -/
structure Respects (d : Direction) (options : Options) (issues : List Issue) (s : State) :
    Prop where
  ordered : ∀ past issue future, s.history = past ++ .begun issue :: future →
    ∀ earlier ∈ issues, d.Before earlier.priorityRange issue.priorityRange →
      past.count (.finished earlier) = issues.count earlier
  once : ∀ issue ∈ issues, s.history.countP (begins issue.zone) ≤ 1 ∧
    (s.waiting = [] → s.history.countP (begins issue.zone) = 1)
  sequential : options.strategy = "sequential" → s.running.length ≤ 1

end ZoneweaverAgent.ZoneOrchestration
