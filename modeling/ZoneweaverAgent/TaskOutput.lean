import ZoneweaverAgent.Transition
import Mathlib.Data.List.Basic

/-!
# The output of one task

A session keeps the chunks of a running task in memory; timers and the finalize flush write the
whole buffer to the task's row. An update of the row is under way for a while, may fail, and may
land after one that was issued later.
-/

namespace ZoneweaverAgent.TaskOutput
open Transition

structure Entry where
  stream : String
  data : String
  timestamp : ℕ
deriving DecidableEq

structure OutputConfig where
  enabled : Bool
  mode : String
  circularMaxLines : ℕ
deriving DecidableEq

/-- `provisioning.task_output` with the defaults of its absent or falsy settings. -/
def getOutputConfig (enabled : Option Bool) (mode : Option String)
    (circularMaxLines : Option ℕ) : OutputConfig where
  enabled := enabled ≠ some false
  mode := (mode.filter (· ≠ "")).getD "full"
  circularMaxLines := (circularMaxLines.filter (· ≠ 0)).getD 10000

structure Session where
  buffer : List Entry
  flushTimer : Bool
deriving DecidableEq

/-- An update of the row under way, and whether finalize awaits it. -/
structure Update where
  output : List Entry
  final : Bool
deriving DecidableEq

/-- `looseTimers` are those of sessions that are gone, `flushed` counts the finalize calls whose
flush is over; `accepted` and `finalized` record the run. -/
structure State where
  session : Option Session
  looseTimers : ℕ
  updates : List Update
  flushed : ℕ
  output : Option (List Entry)
  accepted : List Entry
  finalized : Bool
deriving DecidableEq

def State.initial : State := ⟨none, 0, [], 0, none, [], false⟩

inductive Label
  | create
  | write (stream data : String) (now : ℕ)
  | timer
  | looseTimer
  | finalize
  | applied (k : ℕ)
  | failed (k : ℕ)
  | conclude
deriving DecidableEq

section Manager
variable (cfg : OutputConfig)

def splice (buffer : List Entry) : List Entry :=
  if cfg.mode = "circular" ∧ cfg.circularMaxLines < buffer.length then
    buffer.drop (buffer.length - cfg.circularMaxLines)
  else buffer

def create (s : State) : State :=
  if !cfg.enabled || s.session.isSome then s else { s with session := some ⟨[], false⟩ }

def write (s : State) (entry : Entry) : State :=
  match s.session with
  | none => s
  | some session =>
    { s with
      session := some ⟨splice cfg (session.buffer ++ [entry]), true⟩
      accepted := s.accepted ++ [entry] }

/-- The flush that finalize awaits is over. -/
def State.resolve (s : State) (final : Bool) : State :=
  if final then { s with flushed := s.flushed + 1 } else s

def flushToDb (final : Bool) (s : State) : State :=
  match s.session with
  | none => s.resolve final
  | some session =>
    if session.buffer = [] then s.resolve final
    else { s with updates := s.updates ++ [⟨session.buffer, final⟩] }

/-- Without a session finalize resolves at once. -/
def finalize (s : State) : State :=
  match s.session with
  | none => { s with finalized := true }
  | some session => flushToDb true { s with session := some { session with flushTimer := false } }

/-- The rest of finalize drops the session; a timer it holds by then goes on. -/
def conclude (s : State) : State :=
  { s with
    session := none
    looseTimers := s.looseTimers + (s.session.filter Session.flushTimer).toList.length
    flushed := s.flushed - 1
    finalized := true }

def step (s : State) : Label → Option State
  | .create => some (create cfg s)
  | .write stream data now => some (write cfg s ⟨stream, data, now⟩)
  | .timer =>
    (s.session.filter Session.flushTimer).map fun session =>
      flushToDb false { s with session := some { session with flushTimer := false } }
  | .looseTimer =>
    if 0 < s.looseTimers then
      some (flushToDb false { s with looseTimers := s.looseTimers - 1 })
    else none
  | .finalize => some (finalize s)
  | .applied k => s.updates[k]?.map fun update =>
    { s with updates := s.updates.eraseIdx k, output := some update.output }.resolve update.final
  | .failed k => s.updates[k]?.map fun update =>
    { s with updates := s.updates.eraseIdx k }.resolve update.final
  | .conclude => if 0 < s.flushed then some (conclude s) else none

def getOutput (s : State) (readSucceeds : Bool) : List Entry :=
  match s.session with
  | some session => session.buffer
  | none => if readSucceeds then s.output.getD [] else []

/-- What is to be kept of the accepted chunks. -/
def kept (accepted : List Entry) : List Entry :=
  if cfg.mode = "circular" then accepted.drop (accepted.length - cfg.circularMaxLines)
  else accepted

def Complete (s : State) : Prop :=
  s.finalized = true → getOutput s true = kept cfg s.accepted

end Manager

def State.finalizing (s : State) : Bool := decide (0 < s.flushed) || s.updates.any Update.final

/-- No chunk is accepted while a finalize is under way, the update that finalize awaits succeeds
and lands after those that were issued before it, and no second session follows one with output. -/
def Fits (s : State) : Label → Prop
  | .create => s.session = none → s.accepted = []
  | .write _ _ _ => s.session ≠ none → s.finalizing = false
  | .applied k => ∀ update ∈ s.updates[k]?, update.final = true → k = 0
  | .failed k => ∀ update ∈ s.updates[k]?, update.final = false
  | _ => True

instance (s : State) : (l : Label) → Decidable (Fits s l)
  | .create => inferInstanceAs (Decidable (s.session = none → s.accepted = []))
  | .write _ _ _ => inferInstanceAs (Decidable (s.session ≠ none → s.finalizing = false))
  | .applied k => inferInstanceAs
      (Decidable (∀ update ∈ s.updates[k]?, update.final = true → k = 0))
  | .failed k => inferInstanceAs (Decidable (∀ update ∈ s.updates[k]?, update.final = false))
  | .timer => .isTrue trivial
  | .looseTimer => .isTrue trivial
  | .finalize => .isTrue trivial
  | .conclude => .isTrue trivial

end ZoneweaverAgent.TaskOutput
