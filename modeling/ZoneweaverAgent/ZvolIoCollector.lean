import Mathlib.Data.List.Forall2
import ZoneweaverAgent.Transition
import ZoneweaverAgent.ZvolIo

/-!
# The disk I/O collector

The collector keeps a consumer running: one that fails or exits is started again after a delay,
unless the collector was stopped. The handlers do not ask which consumer an event belongs to, and
all consumers share one line buffer and one interval.
-/

namespace ZoneweaverAgent.ZvolIo

open PathScan TextLines Transition

section Definitions

/-- Whether the process of a consumer runs, and which event of it is due: its exit, or the error
that it was not spawned, behind which an exit may follow. -/
inductive Status
  | running
  | ended
  | refused
  | failed
  | over
  deriving DecidableEq

/-- A consumer with the lines it has written and the number of characters that have arrived. -/
structure Child where
  status : Status
  lines : List Line
  received : ℕ

namespace Child

def output (c : Child) : Text := written '\n' Line.text c.lines

def input (c : Child) : Text := c.output.take c.received

/-- The lines that have arrived. -/
def done (c : Child) : List Line := arrived '\n' Line.text c.lines c.input

def Gone (c : Child) : Prop := c.status = .failed ∨ c.status = .over

instance (c : Child) : Decidable c.Gone :=
  inferInstanceAs (Decidable (c.status = .failed ∨ c.status = .over))

end Child

/-- The collector, the consumers it has spawned, and the timers under way. -/
structure State where
  counting : Counting
  child : Option ℕ
  stdoutBuffer : Text
  stopping : Bool
  disabled : Bool
  restartTimer : Option ℕ
  intervalSeconds : ℕ
  children : List Child
  timers : List ℕ
  issued : ℕ

def created : State where
  counting := ⟨[], 0, []⟩
  child := none
  stdoutBuffer := []
  stopping := false
  disabled := false
  restartTimer := none
  intervalSeconds := 0
  children := []
  timers := []
  issued := 0

inductive Label
  | start (spawned : Bool)
  | stop
  | timer (id : ℕ) (spawned : Bool)
  | write (k : ℕ) (line : Line)
  | ended (k : ℕ)
  | chunk (k n : ℕ)
  | error (k : ℕ)
  | exit (k : ℕ)
  | denied (k : ℕ)

variable (config : Config)

def spawnConsumer (spawned : Bool) (intervalSeconds : ℕ) (s : State) : State :=
  { s with
    intervalSeconds
    child := some s.children.length
    stdoutBuffer := []
    counting := { s.counting with interval := [] }
    children := s.children ++ [⟨if spawned then .running else .refused, [], 0⟩] }

/-- Whether `start` spawns a consumer. -/
def Starts (s : State) : Prop :=
  config.isEnabled = true ∧ s.disabled = false ∧ s.child = none

instance (s : State) : Decidable (Starts config s) :=
  inferInstanceAs (Decidable (config.isEnabled = true ∧ s.disabled = false ∧ s.child = none))

def start (spawned : Bool) (s : State) : State :=
  if Starts config s then
    spawnConsumer spawned config.intervalSeconds { s with stopping := false }
  else s

def scheduleRestart (s : State) : State :=
  if s.stopping || s.disabled then s
  else
    let failures := s.counting.consecutiveFailures + 1
    let s := { s with counting := { s.counting with consecutiveFailures := failures } }
    if config.maxConsecutiveErrors ≤ failures then { s with disabled := true }
    else
      { s with
        restartTimer := some s.issued
        timers := s.timers ++ [s.issued]
        issued := s.issued + 1 }

/-- A timer runs out. -/
def restart (id : ℕ) (spawned : Bool) (s : State) : State :=
  let s := { s with timers := s.timers.erase id, restartTimer := none }
  if !s.stopping && !s.disabled then spawnConsumer spawned s.intervalSeconds s else s

/-- The signal that the child is sent has no effect of its own here: a consumer may end at any
time. -/
def stop (s : State) : State :=
  { s with
    stopping := true
    timers := match s.restartTimer with
      | some id => s.timers.erase id
      | none => s.timers
    restartTimer := none
    child := none }

def consumeStdout (chunk : Text) (s : State) : State :=
  let lines := (s.stdoutBuffer ++ chunk).splitOn '\n'
  { s with
    stdoutBuffer := lines.getLastD []
    counting := lines.dropLast.foldl (consumeLine config s.intervalSeconds) s.counting }

/-- The consumer number `k`, if it is as `p` says. -/
def State.find (s : State) (k : ℕ) (p : Child → Prop) [DecidablePred p] : Option Child :=
  s.children[k]?.filter fun c => p c

def step (s : State) : Label → Option State
  | .start spawned => some (start config spawned s)
  | .stop => some (stop s)
  | .timer id spawned => if id ∈ s.timers then some (restart id spawned s) else none
  | .write k line => (s.find k fun c => c.status = .running).map fun c =>
    { s with children := s.children.set k { c with lines := c.lines ++ [line] } }
  | .ended k => (s.find k fun c => c.status = .running).map fun c =>
    { s with children := s.children.set k { c with status := .ended } }
  | .chunk k n => (s.find k fun c => 0 < n ∧ c.received + n ≤ c.output.length).map fun c =>
    consumeStdout config ((c.output.drop c.received).take n)
      { s with children := s.children.set k { c with received := c.received + n } }
  | .error k => (s.find k fun c => c.status = .refused).map fun c =>
    scheduleRestart config
      { s with child := none, children := s.children.set k { c with status := .failed } }
  | .exit k => (s.find k fun c => c.status = .ended ∨ c.status = .failed).map fun c =>
    scheduleRestart config
      { s with child := none, children := s.children.set k { c with status := .over } }
  | .denied k => (s.find k fun _ => True).map fun _ => { s with disabled := true }

end Definitions

section Property
variable (config : Config)

def HasZvol (ms : List Metric) : Prop := ∃ m ∈ ms, m.path.dataset?.isSome = true

instance : DecidablePred HasZvol := fun ms =>
  inferInstanceAs (Decidable (∃ m ∈ ms, m.path.dataset?.isSome = true))

/-- The intervals of a consumer whose last line has arrived and that have something to store. -/
def Child.reported (c : Child) : List (List Metric) := (cut c.done).1.filter fun ms => HasZvol ms

/-- One consumer lives at most, and every interval that was reported has been stored once. -/
structure Safe (s : State) : Prop where
  single : ∀ (j k : ℕ) (c c' : Child), s.children[j]? = some c → s.children[k]? = some c' →
    c.status = .running → c'.status = .running → j = k
  counted : ∃ intervals, intervals.Perm (s.children.flatMap Child.reported) ∧
    List.Forall₂ Sums intervals s.counting.persisted

/-- `start` spawns a consumer only when the earlier ones have exited and no timer is under way; an
exit does not follow an error; no output arrives after a later consumer was spawned; what is printed
can be told apart again, and no sum is too large for a double. -/
def Fits (s : State) : Label → Prop
  | .start _ => Starts config s → s.timers = [] ∧ ∀ c ∈ s.children, c.Gone
  | .chunk k _ => k + 1 = s.children.length
  | .exit k => ∀ c ∈ s.children[k]?, c.status = .ended
  | .write k (.metric m) => (Line.metric m).Clean ∧ ∀ c ∈ s.children[k]?,
      ∀ dataset ∈ m.path.dataset?,
        total m.counter m.zone dataset ((cut c.lines).2 ++ [m]) < 2 ^ 53
  | _ => True

instance (s : State) : DecidablePred (Fits config s)
  | .start _ => inferInstanceAs (Decidable (_ → _))
  | .stop => .isTrue trivial
  | .timer _ _ => .isTrue trivial
  | .write _ (.metric _) => inferInstanceAs (Decidable (_ ∧ _))
  | .write _ (.finish _) => .isTrue trivial
  | .ended _ => .isTrue trivial
  | .chunk k _ => inferInstanceAs (Decidable (k + 1 = s.children.length))
  | .error _ => .isTrue trivial
  | .exit k => inferInstanceAs (Decidable (∀ c ∈ s.children[k]?, c.status = .ended))
  | .denied _ => .isTrue trivial

end Property

end ZoneweaverAgent.ZvolIo
