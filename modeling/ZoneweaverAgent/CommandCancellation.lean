import Mathlib.Data.List.Basic
import ZoneweaverAgent.Transition

/-!
# Cancelling a running task

`executeCommand` registers its child with the control of the task; a cancel signals the registered
children and looks at them again when the grace is over. Children exit when they like, unless they
are sent `SIGKILL`.
-/

namespace ZoneweaverAgent.CommandCancellation
open Transition

inductive Signal
  | term
  | kill
deriving DecidableEq

/-- A spawned child: its process, what `ChildProcess` says of it (`exitCode` stays null behind a
signal), and what it is owed and has been sent. -/
structure Child where
  running : Bool
  registered : Bool
  completed : Bool
  killed : Bool
  exitCode : Option ℕ
  owedTerm : Bool
  owedKill : Bool
  sentTerm : Bool
  sentKill : Bool
deriving DecidableEq

/-- A grace timer: the children registered at the cancel, and those left once they had been
signalled. -/
structure Grace where
  signalled : List ℕ
  survivors : List ℕ
deriving DecidableEq

structure State where
  children : List Child
  control : Bool
  cancelled : Bool
  graces : List Grace
  graceOver : Bool
deriving DecidableEq

def State.started : State := ⟨[], true, false, [], false⟩

inductive Label
  | spawn
  | exit (k : ℕ) (code : Option ℕ)
  | close (k : ℕ)
  | timeout (k : ℕ) (refused : Bool)
  | cancel (refused : List ℕ)
  | escalate (j : ℕ) (refused : List ℕ)
  | finish
deriving DecidableEq

def Child.sent (c : Child) : Signal → Child
  | .term => { c with sentTerm := true }
  | .kill => { c with sentKill := true }

def Child.exited (c : Child) (code : Option ℕ) : Child :=
  { c with running := false, exitCode := code }

def Child.closed (c : Child) : Child := { c with registered := false, completed := true }

/-- `child.kill(signal)`: nothing for a process that is gone, an `error` event, which deregisters,
where the signal is refused. -/
def Child.signal (c : Child) (signal : Signal) (refused : Bool) : Child :=
  let c := c.sent signal
  if !c.running then c
  else if refused then c.closed
  else match signal with
    | .term => { c with killed := true }
    | .kill => { c with killed := true, running := false }

/-- A child that starts behind the cancel is owed its end at once. -/
def registerTaskChild (s : State) : Child :=
  ⟨true, s.control, false, false, none, s.cancelled, false, false, false⟩

def Child.timedOut (c : Child) (refused : Bool) : Child :=
  { c with completed := true }.signal .term refused

def registered (children : List Child) : List ℕ :=
  (List.range children.length).filter fun k => (children[k]?.map Child.registered).getD false

/-- The loop over the registered children. -/
def killTaskChildren (refused : List ℕ) (children : List Child) : List Child :=
  children.mapIdx fun k c =>
    if c.registered then { c with owedTerm := true }.signal .term (k ∈ refused) else c

/-- What was registered at the cancel and is alive at the end of the grace is owed a `SIGKILL`. -/
def Child.oweKill (c : Child) (signalled : Bool) : Child :=
  { c with owedKill := c.owedKill || (signalled && c.running) }

def escalates (c : Child) : Bool := c.exitCode.isNone && !c.killed

def killSurvivors (grace : Grace) (refused : List ℕ) (children : List Child) : List Child :=
  children.mapIdx fun k c =>
    let c := c.oweKill (k ∈ grace.signalled)
    if k ∈ grace.survivors ∧ escalates c then c.signal .kill (k ∈ refused) else c

def step (s : State) : Label → Option State
  | .spawn => some { s with children := s.children ++ [registerTaskChild s] }
  | .exit k code => s.children[k]?.bind fun c =>
    if c.running then some { s with children := s.children.set k (c.exited code) } else none
  | .close k => s.children[k]?.bind fun c =>
    if c.running then none else some { s with children := s.children.set k c.closed }
  | .timeout k refused => s.children[k]?.bind fun c =>
    if c.completed then none
    else some { s with children := s.children.set k (c.timedOut refused) }
  | .cancel refused =>
    if s.control then
      let children := killTaskChildren refused s.children
      some { s with
        children := children
        cancelled := true
        graces := s.graces ++ [⟨registered s.children, registered children⟩] }
    else none
  | .escalate j refused => s.graces[j]?.map fun grace =>
    { s with
      children := killSurvivors grace refused s.children
      graces := s.graces.eraseIdx j
      graceOver := true }
  | .finish => if s.control then some { s with control := false } else none

/-- What a cancel owes to the commands of its task. -/
structure Cancels (s : State) : Prop where
  terminated : ∀ c ∈ s.children, c.owedTerm = true → c.sentTerm = true
  killed : ∀ c ∈ s.children, c.owedKill = true → c.sentKill = true
  stopped : s.graceOver = true → ∀ c ∈ s.children, c.running = false

/-- No command starts behind the cancel; whatever runs at a cancel is registered and takes its
`SIGTERM`; and a child that was sent one has exited when a grace is over. -/
def Fits (s : State) : Label → Prop
  | .spawn => s.cancelled = false
  | .cancel refused => ∀ k < s.children.length, ∀ c ∈ s.children[k]?, c.running = true →
      c.registered = true ∧ k ∉ refused
  | .escalate _ _ => ∀ c ∈ s.children, c.sentTerm = true → c.running = false
  | _ => True

instance (s : State) : (l : Label) → Decidable (Fits s l)
  | .spawn => inferInstanceAs (Decidable (s.cancelled = false))
  | .cancel refused => inferInstanceAs
      (Decidable (∀ k < s.children.length, ∀ c ∈ s.children[k]?, c.running = true →
        c.registered = true ∧ k ∉ refused))
  | .escalate _ _ => inferInstanceAs
      (Decidable (∀ c ∈ s.children, c.sentTerm = true → c.running = false))
  | .exit _ _ => .isTrue trivial
  | .close _ => .isTrue trivial
  | .timeout _ _ => .isTrue trivial
  | .finish => .isTrue trivial

end ZoneweaverAgent.CommandCancellation
