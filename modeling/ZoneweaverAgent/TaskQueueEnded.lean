import ZoneweaverAgent.TaskQueueExclusion

/-!
# Rows that have ended

The queue writes statuses without a guard, so a late write may replace the status a row has ended
in. In a run of steps that meet `KeepsEnded` none does; a row then ends once, and all that can
still happen to it is its deletion.
-/

namespace ZoneweaverAgent.TaskQueue
open EventLoop

/-- The point whose call this step serves. -/
def served (s : QState) : QLabel → Option Pc
  | .serve pid _ => (s.procs.get pid).map Activation.pc
  | _ => none

/-- The row this step inserts on behalf of a request or an executor. -/
def inserted : QLabel → Option Task
  | .enter (.create row) => some row
  | _ => none

/-- No write replaces the status of a row that has ended by another. -/
structure KeepsEnded (s : QState) (l : QLabel) : Prop extends Current s l where
  ended : ∀ pc ∈ served s l, ∀ t ∈ s.world.table.rows, t.status.terminal = true →
    ∀ x ∈ writes s.world t.id pc, x = t.status

instance (s : QState) (l : QLabel) : Decidable (KeepsEnded s l) :=
  decidable_of_iff
    (Current s l ∧ ∀ pc ∈ served s l, ∀ t ∈ s.world.table.rows, t.status.terminal = true →
      ∀ x ∈ writes s.world t.id pc, x = t.status)
    ⟨fun ⟨h₁, h₂⟩ => ⟨h₁, h₂⟩, fun h => ⟨h.toCurrent, h.ended⟩⟩

/-- The row ended with this status, or it had and has been deleted since. -/
structure EndsAs (w : World) (id : TaskId) (x : Status) : Prop where
  minted : id < w.table.next
  status : ∀ y, w.table.status id = some y → y = x

theorem mem_served {s : QState} {pid : ℕ} {c : Choice} {p : Activation Pc Ans}
    (hp : s.procs.get pid = some p) : p.pc ∈ served s (.serve pid c) := by
  simp [served, hp]

theorem EndsAs.of_table {w w' : World} {id : TaskId} {x : Status} (h : EndsAs w id x)
    (htable : w'.table = w.table) : EndsAs w' id x := by
  refine ⟨?_, ?_⟩ <;> rw [htable]
  · exact h.minted
  · exact h.status

/-- A served point leaves an ended row alone if it has nothing else to write there. -/
theorem EndsAs.of_writes {w w' : World} {pc : Pc} {c : Choice} {a : Ans} {id : TaskId} {x : Status}
    (he : EndsAs w id x) (h : TaskQueue.serve w pc c = some (a, w'))
    (hw : w.table.status id = some x → ∀ y ∈ writes w id pc, y = x) : EndsAs w' id x := by
  refine ⟨he.minted.trans_le (serve_next h), fun y hy => ?_⟩
  obtain ⟨z, hz, rfl | hyw⟩ := serve_status_eq h he.minted hy
  · exact he.status y hz
  · rw [he.status z hz] at hz
    exact hw hz y hyw

theorem EndsAs.serve {s : QState} {pid : ℕ} {c : Choice} {p : Activation Pc Ans} {a : Ans}
    {w : World} {id : TaskId} {x : Status} (he : EndsAs s.world id x) (hx : x.terminal = true)
    (hp : s.procs.get pid = some p) (hok : KeepsEnded s (.serve pid c))
    (h : serve s.world p.pc c = some (a, w)) : EndsAs w id x := by
  apply he.of_writes h
  intro hst y hy
  obtain ⟨t, ht, rfl⟩ := Option.map_eq_some_iff.mp hst
  obtain rfl := Table.find_id ht
  exact hok.ended p.pc (mem_served hp) t (Table.find_mem ht) hx y hy

theorem EndsAs.entered {w w' : World} {nx : Next Pc} {id : TaskId} {x : Status}
    (he : EndsAs w id x) (hx : x.terminal = true) (h : Entered w w' nx) : EndsAs w' id x := by
  refine ⟨he.minted.trans_le h.next, fun y hy => ?_⟩
  rcases h.status id he.minted with heq | ⟨hpend, -⟩ | ⟨z, -, -, hn⟩
  · exact he.status y (heq ▸ hy)
  · cases he.status _ hpend
    cases hx
  · rw [hn] at hy
    cases hy

theorem EndsAs.step {cfg : Config} {s s' : QState} {l : QLabel} {id : TaskId} {x : Status}
    (he : EndsAs s.world id x) (hx : x.terminal = true) (hok : KeepsEnded s l)
    (h : EventLoop.step (program cfg) s l = some s') : EndsAs s'.world id x := by
  cases steps_of_step h with
  | serve hp _ hserve => exact he.serve hx hp hok hserve
  | fail _ _ hw => exact he.of_table (congrArg World.table hw)
  | resume _ _ hres => exact he.of_table (resumed_table (resumed_of_eq hres)).1
  | enter hent => exact he.entered hx (enter_entered hent)

theorem EndsAs.reaches {cfg : Config} {ok : QState → QLabel → Prop} {s s' : QState} {id : TaskId}
    {x : Status} (he : EndsAs s.world id x) (hx : x.terminal = true)
    (hok : ∀ s l, ok s l → KeepsEnded s l) (h : QReaches cfg ok s s') : EndsAs s'.world id x :=
  h.invariant (I := fun u => EndsAs u.world id x) he fun _ _ _ hi hl hst =>
    hi.step hx (hok _ _ hl) hst

theorem endsAs_of_status {w : World} {id : TaskId} {x : Status}
    (h : w.table.status id = some x) : EndsAs w id x :=
  ⟨Table.status_lt h, fun _ hy => (Option.some.inj (hy.symm.trans h))⟩

theorem mem_of_findOne {tb : Table} {p : Task → Bool} {before : Task → Task → Bool}
    {id : Option TaskId} {t : Task} (h : findOne tb p before id = some (some t)) :
    t ∈ tb.rows ∧ p t = true := by
  cases id with
  | none =>
    simp only [findOne] at h
    split_ifs at h
    cases h
  | some i =>
    obtain ⟨t', ht', heq⟩ := Option.map_eq_some_iff.mp h
    cases heq
    exact List.mem_filter.mp (List.mem_of_find?_eq_some ht')

/-! ## Rows that wait -/

/-- Not dispatched yet. -/
def Waiting (t : Task) : Prop := t.status = .pending ∨ t.status = .prepared

instance (t : Task) : Decidable (Waiting t) := inferInstanceAs (Decidable (_ ∨ _))

theorem waiting_of_status {t : Task} {w : World} {id : TaskId} (h : w.table.find id = some t) :
    Waiting t ↔ w.table.status id = some .pending ∨ w.table.status id = some .prepared := by
  simp [Waiting, Table.status_of_find h]

theorem Settled.not_waiting {w : World} {id : TaskId} {row : Task} (h : Settled w id)
    (hrow : w.table.find id = some row) : ¬Waiting row := by
  rw [waiting_of_status hrow]
  rintro (hp | hp)
  · exact h.pending hp
  · exact h.prepared hp

theorem settled_of_not_waiting {w : World} {id : TaskId} (hid : id < w.table.next)
    (h : ∀ row, w.table.find id = some row → ¬Waiting row) : Settled w id := by
  refine ⟨hid, fun hst => ?_, fun hst => ?_⟩
  · obtain ⟨row, hrow, -⟩ := Option.map_eq_some_iff.mp hst
    exact h row hrow ((waiting_of_status hrow).mpr (.inl hst))
  · obtain ⟨row, hrow, -⟩ := Option.map_eq_some_iff.mp hst
    exact h row hrow ((waiting_of_status hrow).mpr (.inr hst))

end ZoneweaverAgent.TaskQueue
