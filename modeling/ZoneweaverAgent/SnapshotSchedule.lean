import ZoneweaverAgent.JsonValue
import ZoneweaverAgent.TaskTable
import ZoneweaverAgent.Transition

/-!
# The schedule of the snapshots

A timer starts a tick every minute, unless one is under way. A tick reads the zones and goes through
them one by one; for each it looks for a snapshot task that has not ended, and creates one if there
is none. Between its queries other parts of the agent create and end tasks of their own.

`Number` of a value is a parameter, none for `NaN`, and so is `JSON.parse`.
-/

namespace ZoneweaverAgent.SnapshotSchedule

section Policies

inductive Tier
  | hourly
  | daily
  | weekly
deriving DecidableEq

def Tier.name : Tier → String
  | .hourly => "hourly"
  | .daily => "daily"
  | .weekly => "weekly"

/-- `DEFAULT_TIERS` -/
def Tier.keep : Tier → ℚ
  | .hourly => 24
  | .daily => 8
  | .weekly => 5

/-- The local time of a tick; Saturday is day 6. -/
structure Moment where
  minutes : Fin 60
  hours : Fin 24
  day : Fin 7
deriving DecidableEq

def dueRotationTiers (now : Moment) : List Tier :=
  if now.minutes ≠ 0 then []
  else if now.hours ≠ 0 then [.hourly]
  else if now.day = 6 then [.weekly] else [.daily]

variable (number : Json → Option ℚ) (parse : String → Option Json)

/-- `Number(value) || fallback` -/
def numberOr (value : Option Json) (fallback : ℚ) : ℚ :=
  ((value.bind number).filter (· ≠ 0)).getD fallback

structure Settings where
  enabled : Bool
  intervalMinutes : ℚ
  defaultPolicy : Json

def serviceConfig (snapshots : Option Json) : Settings :=
  let raw := (snapshots.filter Json.truthy).getD (.obj [])
  { enabled := raw.field "enabled" = some (.bool true)
    intervalMinutes := numberOr number (raw.field "interval_minutes") 60
    defaultPolicy := ((raw.field "default_policy").filter Json.truthy).getD
      (.obj [("type", .str "none")]) }

structure Zone where
  name : String
  configuration : Option Json
deriving DecidableEq

/-- None where reading the property of null throws. -/
def effectivePolicy (zone : Zone) (defaults : Json) : Option Json :=
  let zoneConfig : Json := match zone.configuration.filter Json.truthy with
    | none => .obj []
    | some (.str text) => (parse text).getD (.obj [])
    | some value => value
  if zoneConfig = .null then none
  else some (((zoneConfig.field "snapshots").filter fun override =>
    override.isObject && ((override.field "type").filter Json.truthy).isSome).getD defaults)

/-- `prefix` is called `stem`; a retention of `NaN` is written as null. -/
structure Metadata where
  stem : String
  retention : Json
  maxAgeDays : Option ℚ
  quiesce : Bool
deriving DecidableEq

def hasType (policy : Json) (type : String) : Bool := policy.field "type" = some (.str type)

def tierRetention (policy : Json) (tier : Tier) : Json :=
  let keep := ((policy.field "tiers").filter Json.truthy).bind fun tiers =>
    ((tiers.field tier.name).bind (Json.field "keep")).filter (· ≠ .null)
  match keep with
  | none => .num tier.keep
  | some keep => ((number keep).map .num).getD .null

def runZonePolicy (policy : Json) (tiers : List Tier) : List Metadata :=
  let quiesce := policy.field "quiesce" = some (.bool true)
  if hasType policy "rotation" then
    tiers.map fun tier => ⟨tier.name, tierRetention number policy tier, none, quiesce⟩
  else if hasType policy "simple" then
    [⟨"auto", .num (numberOr number (policy.field "keep") 24), none, quiesce⟩]
  else if hasType policy "age" then
    [⟨"auto", .num 0, some (numberOr number (policy.field "max_age_days") 14), quiesce⟩]
  else []

/-- What a tick does for a zone, the tests before `runZonePolicy` included. -/
def zoneJobs (defaults : Json) (now : Moment) (fireSimple : Bool) (zone : Zone) :
    Option (List Metadata) :=
  (effectivePolicy parse zone defaults).map fun policy =>
    if !policy.truthy || hasType policy "none" then []
    else if hasType policy "rotation" && (dueRotationTiers now).isEmpty then []
    else if !hasType policy "rotation" && !fireSimple then []
    else runZonePolicy number policy (dueRotationTiers now)

end Policies

section Steps

/-- A row of the operation `snapshot_take`, `rotation` if this service created it. -/
structure Row where
  zoneName : String
  rotation : Bool
  status : Status
  metadata : Option Metadata
deriving DecidableEq

def live (status : Status) : Bool := status = .pending || status = .running

inductive Phase
  | zones
  | finding (zone : Zone) (job : Metadata) (jobs : List Metadata) (rest : List Zone)
  | creating (zone : Zone) (job : Metadata) (jobs : List Metadata) (rest : List Zone)
deriving DecidableEq

structure Tick where
  ms : ℚ
  defaults : Json
  now : Moment
  fireSimple : Bool
  phase : Phase
deriving DecidableEq

/-- A zone as a tick has read it; `ms` is the clock of the tick. -/
structure Reading where
  ms : ℚ
  defaults : Json
  now : Moment
  fireSimple : Bool
  zone : Zone

def Tick.reading (t : Tick) (zone : Zone) : Reading :=
  ⟨t.ms, t.defaults, t.now, t.fireSimple, zone⟩

/-- `timer` holds the interval it was started with; `readings` and `fires` record the run, the
firings of the simple policies newest first, each with the interval and the clock. -/
structure State where
  rows : List Row
  ticks : List Tick
  running : Bool
  timer : Option ℚ
  lastSimpleFire : ℚ
  readings : List Reading
  fires : List (ℚ × ℚ)

def State.initial : State := ⟨[], [], false, none, 0, [], []⟩

inductive Label
  | startSnapshotRotation (snapshots : Option Json)
  | stopSnapshotRotation
  | fire (ms : ℚ) (now : Moment) (snapshots : Option Json)
  | zonesRead (k : ℕ) (zones : List Zone)
  | found (k : ℕ)
  | created (k : ℕ)
  | fails (k : ℕ)
  | other (row : Row)
  | status (i : ℕ) (status : Status)
  | destroy (i : ℕ)
deriving DecidableEq

variable (number : Json → Option ℚ) (parse : String → Option Json)

/-- The next zone with something to do; a zone that throws ends the tick. -/
def Tick.nextZone (t : Tick) : List Zone → Option Phase
  | [] => none
  | zone :: rest =>
    match zoneJobs number parse t.defaults t.now t.fireSimple zone with
    | none => none
    | some [] => t.nextZone rest
    | some (job :: jobs) => some (.finding zone job jobs rest)

def Tick.nextJob (t : Tick) (zone : Zone) (jobs : List Metadata) (rest : List Zone) :
    Option Phase :=
  match jobs with
  | [] => t.nextZone number parse rest
  | job :: jobs => some (.finding zone job jobs rest)

/-- A tick that has no phase left resets `running`. -/
def State.proceed (s : State) (k : ℕ) (t : Tick) : Option Phase → State
  | none => { s with ticks := s.ticks.eraseIdx k, running := false }
  | some phase => { s with ticks := s.ticks.set k { t with phase := phase } }

/-- `findOne` of `queueSnapshot` -/
def State.existing (s : State) (zoneName : String) : Bool :=
  s.rows.any fun row => row.zoneName = zoneName && live row.status

def tick (s : State) (ms : ℚ) (fireSimple : Bool) (now : Moment) (snapshots : Option Json) :
    State :=
  if s.running then s
  else { s with
    running := true
    ticks := s.ticks ++
      [⟨ms, (serviceConfig number snapshots).defaultPolicy, now, fireSimple, .zones⟩] }

def step (s : State) : Label → Option State
  | .startSnapshotRotation snapshots =>
    let settings := serviceConfig number snapshots
    if !settings.enabled || s.timer.isSome then some s
    else some { s with timer := some settings.intervalMinutes }
  | .stopSnapshotRotation => some { s with timer := none }
  | .fire ms now snapshots => s.timer.map fun interval =>
    if interval * 60000 ≤ ms - s.lastSimpleFire then
      tick number { s with lastSimpleFire := ms, fires := (interval, ms) :: s.fires } ms true now
        snapshots
    else tick number s ms false now snapshots
  | .zonesRead k zones => s.ticks[k]?.bind fun t =>
    match t.phase with
    | .zones => some (State.proceed { s with
        readings := s.readings ++ zones.map t.reading }
        k t (t.nextZone number parse zones))
    | _ => none
  | .found k => s.ticks[k]?.bind fun t =>
    match t.phase with
    | .finding zone job jobs rest => some (s.proceed k t
        (if s.existing zone.name then t.nextJob number parse zone jobs rest
        else some (.creating zone job jobs rest)))
    | _ => none
  | .created k => s.ticks[k]?.bind fun t =>
    match t.phase with
    | .creating zone job jobs rest => some (State.proceed { s with
        rows := s.rows ++ [⟨zone.name, true, .pending, some job⟩] }
        k t (t.nextJob number parse zone jobs rest))
    | _ => none
  | .fails k => s.ticks[k]?.map fun t => s.proceed k t none
  | .other row => some { s with rows := s.rows ++ [{ row with rotation := false }] }
  | .status i status => s.rows[i]?.map fun row =>
    { s with rows := s.rows.set i { row with status := status } }
  | .destroy i => some { s with rows := s.rows.eraseIdx i }

/-- The rest of the agent revives no row that has ended. -/
def Fits (s : State) : Label → Prop
  | .status i status => ∀ row ∈ s.rows[i]?, live status = true → live row.status = true
  | _ => True

instance (s : State) : (l : Label) → Decidable (Fits s l)
  | .status i status => inferInstanceAs
      (Decidable (∀ row ∈ s.rows[i]?, live status = true → live row.status = true))
  | .startSnapshotRotation _ | .stopSnapshotRotation | .fire _ _ _ | .zonesRead _ _ | .found _
  | .created _ | .fails _ | .other _ | .destroy _ => .isTrue trivial

end Steps

end ZoneweaverAgent.SnapshotSchedule
