import ZoneweaverAgent.TaskQueueEnded

/-!
# The queue over restarts of the agent

The table outlives the process, the registries do not. A process answers requests from its start
on; it fails the rows that its predecessor left running and cancels those that waited, unless the
configuration keeps them, before its poll timer starts. Either update may fail, and is given up
then. A crash comes at any moment, and loses the activations.
-/

namespace ZoneweaverAgent.TaskQueue
open EventLoop
open Transition (Reaches)

section Lives

/-- How far a process has come since its start. -/
inductive Startup
  | recovering
  | failed
  | polling
deriving DecidableEq

structure Agent where
  queue : QState
  startup : Startup

inductive AgentLabel
  | queue (l : QLabel)
  | failRunning (succeeds : Bool)
  | cancelQueued (resumePendingTasksOnStart succeeds : Bool)
  | crash

/-- The first process over a table. -/
def Agent.first (table : Table) : Agent := ⟨boot table, .recovering⟩

/-- The process that is started behind a crash. -/
def QState.reboot (s : QState) : QState :=
  start { s.world with runningTasks := [], runningCategories := [], taskControls := [] }

def failRunning (w : World) : World :=
  { w with
    table := w.table.update (fun t => t.status = .running)
      { status := some .failed,
        errorMessage := some (some "Agent restarted while task was running"),
        completedAt := some w.clock } }

def cancelQueued (w : World) : World :=
  { w with
    table := w.table.update (fun t => t.status = .pending || t.status = .prepared)
      { status := some .cancelled, errorMessage := some (some "Agent restarted before task ran"),
        completedAt := some w.clock } }

def Agent.write (s : Agent) (f : World → World) (startup : Startup) : Agent :=
  ⟨{ s.queue with world := f s.queue.world }, startup⟩

def isTick : QLabel → Bool
  | .enter .tick => true
  | _ => false

/-- The poll timer is started last. -/
def agentStep (cfg : Config) (s : Agent) : AgentLabel → Option Agent
  | .queue l =>
    if isTick l ∧ s.startup ≠ .polling then none
    else (step (program cfg) s.queue l).map fun queue => { s with queue := queue }
  | .failRunning succeeds =>
    if s.startup = .recovering then
      some (if succeeds then s.write failRunning .failed else s.write id .polling)
    else none
  | .cancelQueued resumePendingTasksOnStart succeeds =>
    if s.startup = .failed then
      some (s.write (if resumePendingTasksOnStart || !succeeds then id else cancelQueued) .polling)
    else none
  | .crash => some ⟨s.queue.reboot, .recovering⟩

/-- What an update of the startup makes of the status of a row. -/
def recovery : AgentLabel → Option (Status → Status)
  | .failRunning succeeds => some fun x => if succeeds ∧ x = .running then .failed else x
  | .cancelQueued resumePendingTasksOnStart succeeds => some fun x =>
    if !resumePendingTasksOnStart ∧ succeeds ∧ (x = .pending ∨ x = .prepared) then .cancelled else x
  | _ => none

/-- A side condition on the steps of the queue, in every life. -/
def InQueue (ok : QState → QLabel → Prop) (s : Agent) : AgentLabel → Prop
  | .queue l => ok s.queue l
  | _ => True

instance (ok : QState → QLabel → Prop) [∀ s l, Decidable (ok s l)] (s : Agent) :
    (l : AgentLabel) → Decidable (InQueue ok s l)
  | .queue l => inferInstanceAs (Decidable (ok s.queue l))
  | .failRunning _ => .isTrue trivial
  | .cancelQueued _ _ => .isTrue trivial
  | .crash => .isTrue trivial

abbrev Lives (cfg : Config) (ok : QState → QLabel → Prop) : Agent → Agent → Prop :=
  Reaches (agentStep cfg) (InQueue ok)

end Lives

variable {cfg : Config} {ok : QState → QLabel → Prop} {table : Table} {s t u : Agent}
  {q : QState} {w w' : World} {id : TaskId} {x y : Status} {l : AgentLabel}

section Writes

/-- What an update of the startup does: rows that had not ended end. -/
structure Retires (w w' : World) : Prop where
  next : w'.table.next = w.table.next
  registries : SameRegistries w w'
  status : ∀ id, w'.table.status id = w.table.status id ∨
    ∃ x y, w.table.status id = some x ∧ x.terminal = false ∧
      w'.table.status id = some y ∧ y.terminal = true

theorem retires_refl (w : World) : Retires w w where
  next := rfl
  registries := ⟨rfl, rfl, rfl, rfl⟩
  status _ := .inl rfl

theorem status_failRunning (w : World) (id : TaskId) : (failRunning w).table.status id =
    (w.table.status id).map fun x => if x = .running then .failed else x := by
  rw [failRunning, Table.status_update, Table.status, Option.map_map]
  congr 1
  funext row
  simp only [decide_eq_true_eq, Function.comp]
  split_ifs <;> rfl

theorem status_cancelQueued (w : World) (id : TaskId) : (cancelQueued w).table.status id =
    (w.table.status id).map fun x => if x = .pending ∨ x = .prepared then .cancelled else x := by
  rw [cancelQueued, Table.status_update, Table.status, Option.map_map]
  congr 1
  funext row
  simp only [Bool.or_eq_true, decide_eq_true_eq, Function.comp]
  split_ifs <;> rfl

theorem retires_failRunning (w : World) : Retires w (failRunning w) where
  next := rfl
  registries := ⟨rfl, rfl, rfl, rfl⟩
  status id := by
    rw [status_failRunning]
    cases hstatus : w.table.status id with
    | none => exact .inl rfl
    | some x =>
      by_cases hrunning : x = .running
      · subst hrunning
        exact .inr ⟨.running, .failed, rfl, rfl, rfl, rfl⟩
      · left
        simp [hrunning]

theorem retires_cancelQueued (w : World) : Retires w (cancelQueued w) where
  next := rfl
  registries := ⟨rfl, rfl, rfl, rfl⟩
  status id := by
    rw [status_cancelQueued]
    cases hstatus : w.table.status id with
    | none => exact .inl rfl
    | some x =>
      by_cases hwaits : x = .pending ∨ x = .prepared
      · refine .inr ⟨x, .cancelled, rfl, ?_, by simp [hwaits], rfl⟩
        rcases hwaits with rfl | rfl <;> rfl
      · left
        simp [hwaits]

/-- Everything a step of the agent can do. -/
inductive AgentSteps (cfg : Config) (s t : Agent) : AgentLabel → Prop
  | queue {l : QLabel} : step (program cfg) s.queue l = some t.queue →
      (isTick l → s.startup = .polling) → t.startup = s.startup →
      AgentSteps cfg s t (.queue l)
  | startup {l : AgentLabel} : Retires s.queue.world t.queue.world →
      t.queue = { s.queue with world := t.queue.world } → AgentSteps cfg s t l
  | crash : t = ⟨s.queue.reboot, .recovering⟩ → AgentSteps cfg s t .crash

theorem agentSteps_of_step (h : agentStep cfg s l = some t) : AgentSteps cfg s t l := by
  cases l with
  | queue l =>
    simp only [agentStep] at h
    split_ifs at h with htick
    obtain ⟨queue, hstep, rfl⟩ := Option.map_eq_some_iff.mp h
    refine .queue hstep (fun htick' => ?_) rfl
    by_contra hstartup
    exact htick ⟨htick', hstartup⟩
  | failRunning succeeds =>
    obtain ⟨-, hsome⟩ := Option.ite_none_right_eq_some.mp h
    cases hsome
    cases succeeds with
    | true => exact .startup (retires_failRunning s.queue.world) rfl
    | false => exact .startup (retires_refl s.queue.world) rfl
  | cancelQueued resumePendingTasksOnStart succeeds =>
    obtain ⟨-, hsome⟩ := Option.ite_none_right_eq_some.mp h
    cases hsome
    refine .startup ?_ rfl
    dsimp only [Agent.write]
    split_ifs
    · exact retires_refl s.queue.world
    · exact retires_cancelQueued s.queue.world
  | crash =>
    cases h
    exact .crash rfl

end Writes

section Once

theorem Settled.retires (h : Settled w id) (hretires : Retires w w') : Settled w' id := by
  refine ⟨hretires.next ▸ h.minted, ?_, ?_⟩
  · intro hpending
    rcases hretires.status id with hsame | ⟨_, y, -, -, hended, hterminal⟩
    · exact h.pending (hsame ▸ hpending)
    · rw [hended] at hpending
      cases hpending
      cases hterminal
  · intro hprepared
    rcases hretires.status id with hsame | ⟨_, y, -, -, hended, hterminal⟩
    · exact h.prepared (hsame ▸ hprepared)
    · rw [hended] at hprepared
      cases hprepared
      cases hterminal

/-- The updates of the startup suit every request that is under way. -/
theorem baseInv_retires (h : BaseInv q) (hretires : Retires q.world w) :
    BaseInv { q with world := w } := by
  have hset : ∀ id, Settled q.world id → Settled w id := fun id hs => hs.retires hretires
  have hreg := hretires.registries
  refine ⟨h.world.transfer hset hreg.history, ?_, h.apart, h.fresh⟩
  intro pid p hp
  have hhere := h.here pid p hp
  refine hhere.transfer hset hretires.next.ge (by simp [hreg.runningTasks])
    (by simp [hreg.taskControls]) ?_ ?_ ?_
  · rw [hreg.history]
    exact hhere.unstarted
  · intro task hpoint hrunning
    rcases hretires.status task.id with hsame | ⟨_, y, -, -, hended, hterminal⟩
    · exact hhere.marking task hpoint (hsame ▸ hrunning)
    · rw [hended] at hrunning
      cases hrunning
      cases hterminal
  · rw [hreg.history]
    exact hhere.unrequested

theorem baseInv_reboot (h : BaseInv q) : BaseInv q.reboot :=
  Inv.start (h.world.transfer (fun _ hs => hs.of_table rfl) rfl)

theorem baseInv_step (h : BaseInv s.queue) (hok : InQueue Current s l)
    (hstep : agentStep cfg s l = some t) : BaseInv t.queue := by
  cases agentSteps_of_step hstep with
  | queue hqueue _ _ => exact (base_coherent cfg).step h hok hqueue
  | startup hretires hqueue =>
    rw [hqueue]
    exact baseInv_retires h hretires
  | crash hcrash =>
    rw [hcrash]
    exact baseInv_reboot h

theorem baseInv_lives (hok : ∀ s l, ok s l → Current s l)
    (h : Lives cfg ok (.first table) s) : BaseInv s.queue := by
  refine h.invariant (I := fun s => BaseInv s.queue) (base_boot table) ?_
  intro a l b ha hl hstep
  refine baseInv_step ha ?_ hstep
  cases l with
  | queue l => exact hok _ _ hl
  | _ => trivial

/-- A startup that keeps what waits, and a tick behind it. -/
def tickingLabels (dispatch : List QLabel) : List AgentLabel :=
  [.failRunning true, .cancelQueued true true] ++ dispatch.map .queue

end Once

section Offline

/-- Behind an entry of the poll timer. -/
def Pc.polls : Pc → Bool
  | .pendingWithDeps | .deps _ | .cancelDependents _ _ | .updateParents _ | .pick _ _
  | .markRunning _ => true
  | _ => false

theorem polls_of_afterParent (w : World) (task : Task) (status : Status) :
    ∀ pc ∈ (afterParent w task status).2.points, pc.polls = false := by
  unfold afterParent
  dsimp only
  split_ifs <;> simp [Next.points, Pc.polls]

theorem polls_of_toCascade (w : World) (task : Task) (ids : List TaskId) :
    ∀ pc ∈ (toCascade w task ids).2.points, pc.polls = false := by
  unfold toCascade
  split
  · simp [Next.points, Pc.polls]
  · split <;> simp [Next.points, Pc.polls]

theorem polls_of_resume (w : World) {pc : Pc} (r : Reply Ans) (hpc : pc.polls = false) :
    ∀ pc' ∈ (resume w pc r).2.points, pc'.polls = false := by
  unfold resume
  split
  case h_9 =>
    dsimp only
    split <;> simp [caught, Next.points, Pc.polls]
  case h_11 =>
    dsimp only
    split
    · simp [Next.points, Pc.polls]
    · exact polls_of_afterParent _ _ _
  case h_12 => exact polls_of_afterParent _ _ _
  case h_22 =>
    split
    case h_3 => split_ifs <;> simp [Next.points, Pc.polls]
    all_goals simp [Next.points, Pc.polls]
  case h_28 => exact polls_of_toCascade _ _ _
  case h_29 => exact polls_of_toCascade _ _ _
  all_goals (try cases hpc)
  all_goals (try split) <;> (try split_ifs)
  all_goals simp [Next.points, Pc.polls, caught]

theorem polls_of_enter {e : Entry} {nx : Next Pc} (htick : isTick (.enter e) = false)
    (h : enter cfg w e = some (w', nx)) : ∀ pc ∈ nx.points, pc.polls = false := by
  cases e with
  | tick => cases htick
  | create row =>
    simp only [enter] at h
    split_ifs at h
    cases h
    simp [Next.points]
  | cancel id =>
    cases h
    simp [Next.points, Pc.polls]
  | upload id =>
    cases h
    simp [Next.points, Pc.polls]
  | bulkCancel zones operation =>
    cases h
    simp [Next.points]
  | clearCompleted =>
    cases h
    simp [Next.points]
  | cleanupOld before =>
    cases h
    simp [Next.points]
  | elapse ms =>
    cases h
    simp [Next.points]

def Offline (s : QState) : Prop := Stands (fun pc => pc.polls = false) s

theorem Offline.step {q' : QState} {l : QLabel} (h : Offline q) (htick : isTick l = false)
    (hstep : EventLoop.step (program cfg) q l = some q') : Offline q' := by
  have hnew : ∀ nx : Next Pc, (∀ pc ∈ nx.points, pc.polls = false) →
      ∀ y ∈ nx.points.map (fun pc => (pc, (none : Option Ans))), y.1.polls = false := by
    rintro nx hnx _ hmem
    obtain ⟨pc, hpc, rfl⟩ := List.mem_map.mp hmem
    exact hnx pc hpc
  cases steps_of_step hstep with
  | @serve pid c p a hp _ _ hmoved =>
    refine h.moved hmoved fun y hmem => ?_
    rw [List.mem_singleton.mp hmem]
    exact h pid p hp
  | @fail pid p hp _ _ hmoved =>
    refine h.moved hmoved fun y hmem => ?_
    rw [List.mem_singleton.mp hmem]
    exact h pid p hp
  | @resume pid p r nx hp _ hres hmoved =>
    refine h.moved hmoved (hnew nx ?_)
    have hkept := polls_of_resume q.world r (h pid p hp)
    have hnx : (resume q.world p.pc r).2 = nx := congrArg Prod.snd hres
    rwa [hnx] at hkept
  | @enter e nx hent hmoved => exact h.moved hmoved (hnew nx (polls_of_enter htick hent))

/-- Until the poll timer is started nothing is on its way to a dispatch. -/
theorem offline_lives (h : Lives cfg ok (.first table) s) :
    s.startup ≠ .polling → Offline s.queue := by
  refine h.invariant (I := fun s => s.startup ≠ .polling → Offline s.queue) ?_ ?_
  · rintro _ pid p ⟨⟩
  · intro a l b ha _ hstep hstartup
    cases l with
    | queue l =>
      simp only [agentStep] at hstep
      split_ifs at hstep with htick
      obtain ⟨queue, hqueue, rfl⟩ := Option.map_eq_some_iff.mp hstep
      refine (ha hstartup).step ?_ hqueue
      by_contra hisTick
      exact htick ⟨by simpa using hisTick, hstartup⟩
    | failRunning succeeds =>
      obtain ⟨hrecovering, hsome⟩ := Option.ite_none_right_eq_some.mp hstep
      cases hsome
      have hoffline := ha (by rw [hrecovering]; decide)
      cases succeeds with
      | true => exact hoffline
      | false => exact absurd rfl hstartup
    | cancelQueued resumePendingTasksOnStart succeeds =>
      obtain ⟨-, hsome⟩ := Option.ite_none_right_eq_some.mp hstep
      cases hsome
      exact absurd rfl hstartup
    | crash =>
      cases hstep
      rintro pid p ⟨⟩

end Offline

section Retired

/-- The row ended with `x`, no dispatch of it is under way, and it has been started `n` times. -/
structure Retired (q : QState) (id : TaskId) (x : Status) (n : ℕ) : Prop where
  ends : EndsAs q.world id x
  unmarked : Stands (fun pc => ∀ task, pc = .markRunning task → task.id ≠ id) q
  started : (startedIds q.world.history).count id = n

variable {n : ℕ}

theorem await_of_mem_markRunning {pc : Pc} {r : Reply Ans} {nx : Next Pc} {task : Task}
    (h : Resumed w pc r w' nx) (hmem : Pc.markRunning task ∈ nx.points) :
    nx = .await (.markRunning task) := by
  have hplain : ¬∀ pc ∈ nx.points, pc.Plain := by
    intro hp
    cases (hp _ hmem).1
  cases h with
  | plain _ hp => exact absurd hp hplain
  | answered _ hp => exact absurd hp hplain
  | finalizedLast hp => exact absurd hp hplain
  | released hp => exact absurd hp hplain
  | registered => rw [List.mem_singleton.mp hmem]
  | _ => simp [Next.points] at hmem

theorem Retired.resume {pid : ℕ} {p : Activation Pc Ans} {r : Reply Ans} {nx : Next Pc}
    {q' : QState}
    (h : Retired q id x n) (hx : x.terminal = true) (hok : Current q (.resume pid))
    (hp : q.procs.get pid = some p) (hphase : p.phase = .ready r)
    (hres : Resumed q.world p.pc r q'.world nx)
    (hmoved : Moved q.procs q'.procs pid q.next (nx.points.map (·, none))) :
    Retired q' id x n where
  ends := h.ends.of_table (resumed_table hres).1
  unmarked := by
    refine h.unmarked.moved hmoved fun y hmem task htask heq => ?_
    obtain ⟨pc, hpc, rfl⟩ := List.mem_map.mp hmem
    obtain rfl : pc = .markRunning task := htask
    rw [await_of_mem_markRunning hres hpc] at hres
    -- a row that has ended is not registered
    have hpending := hok.pending task (registering_of_resumed hres hp hphase)
    rw [heq] at hpending
    have hsame := h.ends.status _ hpending
    rw [← hsame] at hx
    cases hx
  started := by
    rcases hres.startedIds_eq with hsame | ⟨task, a, hpc, -, hstarted⟩
    · rw [hsame]
      exact h.started
    · have hne := h.unmarked pid p hp task hpc
      rw [hstarted, List.count_cons_of_ne hne]
      exact h.started

theorem Retired.step {q' : QState} {l : QLabel} (h : Retired q id x n) (hx : x.terminal = true)
    (hok : KeepsEnded q l) (hstep : EventLoop.step (program cfg) q l = some q') :
    Retired q' id x n := by
  have hends := h.ends.step hx hok hstep
  cases steps_of_step hstep with
  | @serve pid c p a hp _ hserve hmoved =>
    refine ⟨hends, h.unmarked.moved hmoved fun y hmem => ?_, ?_⟩
    · rw [List.mem_singleton.mp hmem]
      exact h.unmarked pid p hp
    · rw [(serve_registries hserve).history]
      exact h.started
  | @fail pid p hp _ hw hmoved =>
    refine ⟨hends, h.unmarked.moved hmoved fun y hmem => ?_, ?_⟩
    · rw [List.mem_singleton.mp hmem]
      exact h.unmarked pid p hp
    · rw [hw]
      exact h.started
  | @resume pid p r nx hp hphase hres hmoved =>
    exact h.resume hx hok.toCurrent hp hphase (resumed_of_eq hres) hmoved
  | @enter e nx hent hmoved =>
    have hentered := enter_entered hent
    refine ⟨hends, h.unmarked.moved hmoved fun y hmem task htask => ?_, ?_⟩
    · obtain ⟨pc, hpc, rfl⟩ := List.mem_map.mp hmem
      obtain rfl : pc = .markRunning task := htask
      rcases hentered.points _ hpc with hpoint | ⟨_, hpoint | hpoint⟩ <;> cases hpoint
    · rw [hentered.registries.history]
      exact h.started

theorem EndsAs.retires (h : EndsAs w id x) (hx : x.terminal = true) (hretires : Retires w w') :
    EndsAs w' id x := by
  refine ⟨hretires.next ▸ h.minted, fun y hy => ?_⟩
  rcases hretires.status id with hsame | ⟨z, _, hz, hlive, -, -⟩
  · exact h.status y (hsame ▸ hy)
  · rw [h.status z hz, hx] at hlive
    cases hlive

theorem Retired.agentStep (h : Retired s.queue id x n) (hx : x.terminal = true)
    (hok : InQueue KeepsEnded s l) (hstep : TaskQueue.agentStep cfg s l = some t) :
    Retired t.queue id x n := by
  cases agentSteps_of_step hstep with
  | queue hqueue _ _ => exact h.step hx hok hqueue
  | startup hretires hqueue =>
    rw [hqueue]
    refine ⟨h.ends.retires hx hretires, h.unmarked, ?_⟩
    exact (congrArg (fun history => (startedIds history).count id)
      hretires.registries.history).trans h.started
  | crash hcrash =>
    rw [hcrash]
    refine ⟨h.ends.of_table rfl, ?_, h.started⟩
    rintro pid p ⟨⟩

theorem status_of_recovery {g : Status → Status} (hstep : TaskQueue.agentStep cfg s l = some t)
    (hl : recovery l = some g) (id : TaskId) :
    t.queue.world.table.status id = (s.queue.world.table.status id).map g := by
  cases l with
  | queue l => cases hl
  | crash => cases hl
  | failRunning succeeds =>
    obtain ⟨-, hsome⟩ := Option.ite_none_right_eq_some.mp hstep
    cases hsome
    cases hl
    cases succeeds with
    | false => simp [Agent.write]
    | true =>
      refine (status_failRunning s.queue.world id).trans ?_
      simp
  | cancelQueued resumePendingTasksOnStart succeeds =>
    obtain ⟨-, hsome⟩ := Option.ite_none_right_eq_some.mp hstep
    cases hsome
    cases hl
    cases resumePendingTasksOnStart with
    | true => simp [Agent.write]
    | false =>
      cases succeeds with
      | false => simp [Agent.write]
      | true =>
        refine (status_cancelQueued s.queue.world id).trans ?_
        simp

/-- What the startup leaves in a terminal status is at rest. -/
theorem retired_of_recovery {g : Status → Status} (hoffline : Offline s.queue)
    (hstep : TaskQueue.agentStep cfg s l = some t) (hl : recovery l = some g)
    (hid : s.queue.world.table.status id = some x) :
    Retired t.queue id (g x) ((startedIds s.queue.world.history).count id) := by
  have hstatus := status_of_recovery hstep hl id
  rw [hid] at hstatus
  have hends := endsAs_of_status hstatus
  cases agentSteps_of_step hstep with
  | queue _ _ _ => cases hl
  | crash _ => cases hl
  | startup hretires hqueue =>
    rw [hqueue]
    refine ⟨hends, ?_, ?_⟩
    · rintro pid p hp task hpc -
      have hidle := hoffline pid p hp
      rw [hpc] at hidle
      cases hidle
    · exact congrArg (fun history => (startedIds history).count id) hretires.registries.history

end Retired

end ZoneweaverAgent.TaskQueue
