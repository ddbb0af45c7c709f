import ZoneweaverAgent.TaskQueueCancellation
import ZoneweaverAgent.TaskQueueEnded

/-!
# Ended rows stay ended

Only the flip of a waiting row compares the status it has read with the one it finds; every other
status write goes to the row whatever has become of it. `Relied` lists the statuses these writes go
by. In a run whose writes find the rows in those statuses no row leaves the status it has ended in.
-/

namespace ZoneweaverAgent.TaskQueue
open EventLoop

/-- The rows a point is about to write a status into, with the status it takes them to have: the one
it has read, or for the end of an execution the `running` it has written itself. -/
def relies : Pc → List (TaskId × Status)
  | .cancelDependents toCancel _ => toCancel.map fun t => (t.id, .pending)
  | .markRunning task => [(task.id, .pending)]
  | .finish task _ _ => [(task.id, .running)]
  | .updateParent parent _ update => if update.status.isSome then [(parent.id, .running)] else []
  | .close task => [(task.id, .running)]
  | .uploaded task => [(task.id, .prepared)]
  | _ => []

/-- The step writes no status into a row that has left the status the write goes by, unless the row
has the written status already. -/
def WritesFresh (s : QState) (l : QLabel) : Prop :=
  ∀ pc ∈ served s l, ∀ e ∈ relies pc, ∀ x ∈ s.world.table.status e.1,
    x = e.2 ∨ writes s.world e.1 pc = some x

instance (s : QState) (l : QLabel) : Decidable (WritesFresh s l) :=
  inferInstanceAs (Decidable (∀ pc ∈ served s l, ∀ e ∈ relies pc, ∀ x ∈ s.world.table.status e.1,
    x = e.2 ∨ writes s.world e.1 pc = some x))

theorem relies_not_terminal {pc : Pc} {e : TaskId × Status} (h : e ∈ relies pc) :
    e.2.terminal = false := by
  cases pc with
  | cancelDependents toCancel completed =>
    obtain ⟨t, -, rfl⟩ := List.mem_map.mp h
    rfl
  | updateParent parent status update =>
    simp only [relies, List.mem_ite_nil_right, List.mem_singleton] at h
    rw [h.2]
    rfl
  | markRunning t | finish t | close t | uploaded t =>
    rw [List.mem_singleton.mp h]
    rfl
  | _ => cases h

/-- A point writes a status into a row it relies on, or it is a flip that has compared. -/
theorem relies_of_writes {w : World} {id : TaskId} {pc : Pc} {y : Status} (hpc : pc.WellFormed)
    (h : writes w id pc = some y) :
    (∃ x, (id, x) ∈ relies pc) ∨ w.table.status id = some .pending ∨
      w.table.status id = some .prepared := by
  cases pc with
  | cancelDependents toCancel completed =>
    simp only [writes, Option.ite_none_right_eq_some, List.mem_map] at h
    obtain ⟨⟨t, ht, rfl⟩, -⟩ := h
    exact .inl ⟨.pending, List.mem_map_of_mem ht⟩
  | updateParent parent status update =>
    simp only [writes, Option.ite_none_right_eq_some] at h
    obtain ⟨rfl, hy⟩ := h
    exact .inl ⟨.running, by simp [relies, hy]⟩
  | flip t attempt =>
    simp only [writes, Option.ite_none_right_eq_some] at h
    obtain ⟨⟨-, hst⟩, -⟩ := h
    rcases hpc with hpend | hprep
    · exact .inr (.inl (hpend ▸ hst))
    · exact .inr (.inr (hprep ▸ hst))
  | markRunning t | finish t | close t | uploaded t =>
    simp only [writes, Option.ite_none_right_eq_some] at h
    obtain ⟨rfl, -⟩ := h
    exact .inl ⟨_, List.mem_singleton_self _⟩
  | _ => cases h

theorem entered_wellFormed {cfg : Config} {w : World} {e : Entry} {m : World × Next Pc}
    (h : enter cfg w e = some m) : ∀ x ∈ m.2.points, x.WellFormed := by
  intro x hx
  obtain rfl | ⟨id, rfl | rfl⟩ := (enter_entered h).points x hx <;> trivial

theorem wellFormed_reaches {cfg : Config} {ok : QState → QLabel → Prop} {s s' : QState}
    (hs : Stands Pc.WellFormed s) (h : QReaches cfg ok s s') : Stands Pc.WellFormed s' := by
  apply h.invariant hs
  intro a l b ha _ hst
  exact ha.step (fun w _ r hpc => wellFormed_of_resume w r hpc) (fun _ _ _ => entered_wellFormed) hst

theorem EndsAs.fresh_step {cfg : Config} {s s' : QState} {l : QLabel} {id : TaskId} {x : Status}
    (he : EndsAs s.world id x) (hx : x.terminal = true) (hwf : Stands Pc.WellFormed s)
    (hok : WritesFresh s l) (h : EventLoop.step (program cfg) s l = some s') :
    EndsAs s'.world id x := by
  cases steps_of_step h with
  | @serve pid c p a hp _ hserve =>
    apply he.of_writes hserve
    intro hst y hy
    obtain ⟨z, hz⟩ | hpend | hprep := relies_of_writes (hwf pid p hp) hy
    · rcases hok p.pc (mem_served hp) _ hz x hst with hread | hwritten
      · rw [hread, relies_not_terminal hz] at hx
        cases hx
      · exact Option.some.inj (hy.symm.trans hwritten)
    · cases hst.symm.trans hpend
      cases hx
    · cases hst.symm.trans hprep
      cases hx
  | fail _ _ hw => exact he.of_table (congrArg World.table hw)
  | resume _ _ hres => exact he.of_table (resumed_table (resumed_of_eq hres)).1
  | enter hent => exact he.entered hx (enter_entered hent)

theorem terminal_absorbing {cfg : Config} {table : Table} {s s' : QState} {id : TaskId}
    {x : Status} (h : QReaches cfg WritesFresh (boot table) s) (h' : QReaches cfg WritesFresh s s')
    (hstatus : s.world.table.status id = some x) (hx : x.terminal = true) :
    ∀ y, s'.world.table.status id = some y → y = x := by
  have hwf : Stands Pc.WellFormed s := wellFormed_reaches (fun q p hp => by cases hp) h
  have hends : Stands Pc.WellFormed s' ∧ EndsAs s'.world id x := by
    apply h'.invariant (I := fun u => Stands Pc.WellFormed u ∧ EndsAs u.world id x)
      ⟨hwf, endsAs_of_status hstatus⟩
    rintro a l b ⟨hawf, ha⟩ hok hst
    exact ⟨wellFormed_reaches hawf (.tail .refl hok hst), ha.fresh_step hx hawf hok hst⟩
  exact hends.2.status

/-! ## The mark behind a cancel -/

/-- The tick has picked the row when a request cancels it; then it marks the row running. -/
theorem terminal_absorbing_fails : ¬∀ (cfg : Config) (table : Table) (s s' : QState) (id : TaskId)
    (x : Status), QReaches cfg (fun _ _ => True) (boot table) s →
      QReaches cfg (fun _ _ => True) s s' → s.world.table.status id = some x →
      x.terminal = true → ∀ y, s'.world.table.status id = some y → y = x := by
  intro h
  obtain ⟨s, hs, hcancelled, s', hs', hrunning⟩ := Transition.exists_reaches_of_run
    (step (program {})) (fun _ _ => True) (boot onePending)
    ([.enter .tick, .serve 0 .only, .resume 0, .serve 0 (.row (some 0))] ++ cancelLabels 1)
    (P := fun s => s.world.table.status 0 = some .cancelled ∧
      ∃ s' ∈ Transition.run (step (program {})) (fun _ _ => True) s [.resume 0, .serve 0 .only],
        s'.world.table.status 0 = some .running)
    (by decide +kernel)
  have hy := h _ _ s s' 0 .cancelled hs (Transition.reaches_of_run hs') hcancelled rfl _ hrunning
  cases hy

/-- A dispatch that runs to its end, and a cancel request behind it. -/
theorem terminal_absorbing_dispatch : ∃ s s', QReaches {} WritesFresh (boot onePending) s ∧
    QReaches {} WritesFresh s s' ∧ s.world.table.status 0 = some .completed ∧
    ∀ y, s'.world.table.status 0 = some y → y = .completed := by
  obtain ⟨s, hs, hcompleted, s', hs', -⟩ := Transition.exists_reaches_of_run
    (step (program {})) WritesFresh (boot onePending)
    (dispatchLabels 0 0 ++ [.serve 0 (.executed (some { success := true }) 0), .resume 0,
      .serve 0 .only, .resume 0])
    (P := fun s => s.world.table.status 0 = some .completed ∧
      ∃ s' ∈ Transition.run (step (program {})) WritesFresh s
        ([.serve 0 .only, .resume 0] ++ (cancelLabels 1).take 3),
        s'.world.table.status 0 = some .completed)
    (by decide +kernel)
  have hrest := Transition.reaches_of_run hs'
  exact ⟨s, s', hs, hrest, hcompleted, terminal_absorbing hs hrest hcompleted rfl⟩

end ZoneweaverAgent.TaskQueue
