import ZoneweaverAgent.TaskQueueCancellation
import ZoneweaverAgent.TaskQueueEnded

/-!
# Anchors and their sub-tasks

An anchor is born running and never dispatched; the rollup ends it once all its sub-tasks have
ended. The rollup reads the anchor, reads the sub-tasks and writes, and other activations run in
between. `RollupStep` says that sub-tasks are inserted under running anchors only, that a rollup
which ends an anchor writes what the sub-tasks then present amount to, and that no step drops a
rollup or a cascade. The first part of the invariant is what the table and each activation know
about anchors.
-/

namespace ZoneweaverAgent.TaskQueue
open EventLoop

/-! ## The property -/

/-- `c` is a sub-task of `p`. -/
def Child (tb : Table) (p : TaskId) (c : Task) : Prop := c ∈ tb.rows ∧ c.parentTaskId = some p

def IsParent (tb : Table) (p : TaskId) : Prop := ∃ c, Child tb p c

/-- The statuses of the sub-tasks of `p`. -/
def childStatuses (tb : Table) (p : TaskId) : Set Status := {x | ∃ c, Child tb p c ∧ c.status = x}

/-- What sub-tasks of these statuses, all of them terminal, amount to. -/
structure RolledUp (xs : Set Status) (x : Status) : Prop where
  failed : x = .failed ↔ ∀ y ∈ xs, countsFailed y = true
  completed : x = .completed ↔ ∀ y ∈ xs, y = .completed
  withErrors : x = .completedWithErrors ↔
    ¬(∀ y ∈ xs, countsFailed y = true) ∧ ¬∀ y ∈ xs, y = .completed

/-- An anchor runs as long as one of its sub-tasks has not ended, and an anchor that was not
cancelled has the status its sub-tasks amount to. -/
structure AnchorsExact (tb : Table) : Prop where
  running : ∀ p x, IsParent tb p → tb.status p = some x →
    (x = .running ↔ ∃ y ∈ childStatuses tb p, y.terminal = false)
  rolledUp : ∀ p x, IsParent tb p → tb.status p = some x → x.terminal = true → x ≠ .cancelled →
    RolledUp (childStatuses tb p) x

/-! ## The condition -/

/-- The rows this step cancels in bulk. -/
def bulkCancels : QLabel → Task → Bool
  | .enter (.bulkCancel zones operation), t =>
    zones.contains t.zoneName && t.status = .pending && operation.all (fun o => t.operation = o)
  | _, _ => false

def cleaning : QLabel → Bool
  | .enter .clearCompleted | .enter (.cleanupOld _) => true
  | _ => false

/-- The anchor that serving here ends, and how. -/
def Pc.rollsUp : Pc → Option (TaskId × Status)
  | .updateParent parent status _ => if status = .running then none else some (parent.id, status)
  | _ => none

/-- The tasks that serving here cancels because of their dependencies. -/
def Pc.toCancel : Pc → List Task
  | .cancelDependents toCancel _ => toCancel
  | _ => []

/-- The cancelled anchor whose sub-tasks are read here. -/
def Pc.cascades : Pc → Option Task
  | .children task => some task
  | _ => none

/-- Resuming here drops a rollup, or what is left of a cascade. -/
def drops : Pc → Reply Ans → Bool
  | .parentTask _, .answer _ | .subTasks _, .answer _ | .updateParent _ _ _, .answer _
  | .cancelFind _ _, .answer _ | .flip _ _, .answer _ | .close _, .answer _
  | .children _, .answer _ | .flipParent _, .returned | .cascade _ _, .returned
  | .closeParent _, .returned => false
  | .parentTask _, _ | .subTasks _, _ | .updateParent _ _ _, _ | .cancelFind _ _, _ | .flip _ _, _
  | .close _, _ | .children _, _ | .flipParent _, _ | .cascade _ _, _ | .closeParent _, _ => true
  | _, _ => false

def dropping (s : QState) : QLabel → Bool
  | .resume pid =>
    match s.procs.get pid with
    | some ⟨pc, .ready r, _⟩ => abandons s.world pc r || drops pc r
    | _ => false
  | _ => false

structure RollupStep (s : QState) (l : QLabel) : Prop extends KeepsEnded s l where
  uncleaned : cleaning l = false
  placed : ∀ row ∈ inserted l, ∀ p ∈ row.parentTaskId, s.world.table.status p = some .running ∧
    ∀ e ∈ s.procs, ∀ t ∈ e.2.pc.dispatched, t.id ≠ p
  bulk : ∀ a ∈ s.world.table.rows, a.status = .running →
    (∃ c ∈ s.world.table.rows, c.parentTaskId = some a.id ∧ bulkCancels l c = true) →
    ∃ c ∈ s.world.table.rows, c.parentTaskId = some a.id ∧ c.status.terminal = false ∧
      bulkCancels l c = false
  current : ∀ pc ∈ served s l, ∀ e ∈ pc.rollsUp,
    parentStatus (s.world.table.select (fun t => t.parentTaskId = some e.1)) = e.2
  gate : ∀ pc ∈ served s l, ∀ t ∈ pc.toCancel, s.world.table.status t.id ≠ some .running
  cascade : ∀ pc ∈ served s l, ∀ t ∈ pc.cascades, ∀ c ∈ s.world.table.rows,
    c.parentTaskId = some t.id → c.status ≠ .prepared
  kept : dropping s l = false

/-- Every anchor is there, running or ended. -/
def AnchorsPlaced (tb : Table) : Prop :=
  ∀ p, IsParent tb p → ∃ x, tb.status p = some x ∧ x.rank = 2

/-! ## What a step does to the anchors -/

/-- The table after a step that deletes nothing; `N` holds of the rows that may get a sub-task. -/
structure Grows (N : TaskId → Prop) (tb tb' : Table) : Prop where
  kept : ∀ id row, tb.find id = some row →
    ∃ row', tb'.find id = some row' ∧ row'.parentTaskId = row.parentTaskId
  olds : ∀ id row', tb'.find id = some row' →
    (∃ row, tb.find id = some row ∧ row'.parentTaskId = row.parentTaskId) ∨
      (tb.next ≤ id ∧ row'.status.terminal = false ∧ ∀ p, row'.parentTaskId = some p → N p)
  ended : ∀ id x, x.terminal = true → tb.status id = some x → tb'.status id = some x
  rank : ∀ id, tb.rank id ≤ tb'.rank id

theorem rank_of_terminal {x : Status} (h : x.terminal = true) : x.rank = 2 := by
  cases x <;> first | rfl | cases h

theorem terminal_of_rank {x : Status} (h : x.rank = 2) (hne : x ≠ .running) : x.terminal = true := by
  cases x <;> first | rfl | exact absurd rfl hne | cases h

theorem rank_of_status {tb : Table} {id : TaskId} {x : Status} (h : tb.status id = some x) :
    tb.rank id = x.rank := by
  rw [Table.rank, h]
  rfl

theorem exists_of_status {tb : Table} {id : TaskId} {x : Status} (h : tb.status id = some x) :
    ∃ row, tb.find id = some row ∧ row.status = x :=
  Option.map_eq_some_iff.mp h

theorem child_iff {tb : Table} {p : TaskId} {c : Task} :
    Child tb p c ↔ tb.find c.id = some c ∧ c.parentTaskId = some p := by
  rw [Child, Table.find_eq_some_iff]
  simp

theorem mem_childStatuses {tb : Table} {p : TaskId} {x : Status} :
    x ∈ childStatuses tb p ↔
      ∃ id row, tb.find id = some row ∧ row.parentTaskId = some p ∧ row.status = x := by
  constructor
  · rintro ⟨c, hc, rfl⟩
    obtain ⟨hfind, hparent⟩ := child_iff.mp hc
    exact ⟨c.id, c, hfind, hparent, rfl⟩
  · rintro ⟨id, row, hrow, hparent, rfl⟩
    exact ⟨row, ⟨Table.find_mem hrow, hparent⟩, rfl⟩

theorem isParent_iff {tb : Table} {p : TaskId} :
    IsParent tb p ↔ ∃ id row, tb.find id = some row ∧ row.parentTaskId = some p := by
  constructor
  · rintro ⟨c, hc⟩
    exact ⟨c.id, c, (child_iff.mp hc).1, hc.2⟩
  · rintro ⟨id, row, hrow, hparent⟩
    exact ⟨row, Table.find_mem hrow, hparent⟩

section Grows
variable {N : TaskId → Prop} {tb tb' : Table} {p : TaskId}

theorem Grows.refl (tb : Table) : Grows N tb tb where
  kept _ row h := ⟨row, h, rfl⟩
  olds _ row h := .inl ⟨row, h, rfl⟩
  ended _ _ _ h := h
  rank _ := le_rfl

theorem Grows.parent (h : Grows N tb tb') (hp : IsParent tb p) : IsParent tb' p := by
  obtain ⟨id, row, hrow, hparent⟩ := isParent_iff.mp hp
  obtain ⟨row', hrow', heq⟩ := h.kept id row hrow
  exact isParent_iff.mpr ⟨id, row', hrow', heq.trans hparent⟩

theorem Grows.parent' (h : Grows N tb tb') (hp : IsParent tb' p) : IsParent tb p ∨ N p := by
  obtain ⟨id, row', hrow', hparent⟩ := isParent_iff.mp hp
  rcases h.olds id row' hrow' with ⟨row, hrow, heq⟩ | ⟨-, -, hnew⟩
  · exact .inl (isParent_iff.mpr ⟨id, row, hrow, heq.symm.trans hparent⟩)
  · exact .inr (hnew p hparent)

/-- The sub-tasks of an anchor that gets no new one and whose sub-tasks have all ended. -/
theorem Grows.childStatuses_eq (h : Grows N tb tb') (hN : ¬N p)
    (hend : ∀ y ∈ childStatuses tb p, y.terminal = true) :
    childStatuses tb' p = childStatuses tb p := by
  have same : ∀ {id row row'}, tb.find id = some row → row.parentTaskId = some p →
      tb'.find id = some row' → row'.status = row.status := by
    intro id row row' hrow hparent hrow'
    have hterm := hend row.status (mem_childStatuses.mpr ⟨id, row, hrow, hparent, rfl⟩)
    have := h.ended id _ hterm (Table.status_of_find hrow)
    rw [Table.status_of_find hrow'] at this
    exact Option.some.inj this
  ext x
  rw [mem_childStatuses, mem_childStatuses]
  constructor
  · rintro ⟨id, row', hrow', hparent, rfl⟩
    rcases h.olds id row' hrow' with ⟨row, hrow, heq⟩ | ⟨-, -, hnew⟩
    · exact ⟨id, row, hrow, heq.symm.trans hparent, (same hrow (heq.symm.trans hparent) hrow').symm⟩
    · exact absurd (hnew p hparent) hN
  · rintro ⟨id, row, hrow, hparent, rfl⟩
    obtain ⟨row', hrow', heq⟩ := h.kept id row hrow
    exact ⟨id, row', hrow', heq.trans hparent, same hrow hparent hrow'⟩

end Grows

/-- The rows a served call inserts are pending and have no parent. -/
theorem serve_orphans {w w' : World} {pc : Pc} {c : Choice} {a : Ans} {id : TaskId} {row : Task}
    (h : serve w pc c = some (a, w')) (hid : w.table.next ≤ id)
    (hrow : w'.table.find id = some row) :
    row.status.terminal = false ∧ row.parentTaskId = none := by
  have hlt := Table.find_lt hrow
  unfold serve at h
  split at h <;> simp only [Option.map_eq_some_iff, Option.some.injEq, Prod.mk.injEq,
    reduceCtorEq] at h
  case h_11 task =>
    obtain ⟨-, rfl⟩ := h
    have heq : id = w.table.next := Nat.le_antisymm (Nat.lt_succ_iff.mp hlt) hid
    subst heq
    rw [Table.find_create_self] at hrow
    cases hrow
    exact ⟨rfl, rfl⟩
  all_goals first
    | (obtain ⟨-, rfl⟩ := h; exact absurd hlt (Nat.not_lt.mpr hid))
    | (obtain ⟨_, -, -, rfl⟩ := h; exact absurd hlt (Nat.not_lt.mpr hid))

section Serve
variable {N : TaskId → Prop} {s : QState} {pid : ℕ} {c : Choice} {p : Activation Pc Ans} {a : Ans}
variable {w : World}

theorem serve_rank (hp : s.procs.get pid = some p) (hwf : p.pc.WellFormed)
    (hok : KeepsEnded s (.serve pid c)) (h : serve s.world p.pc c = some (a, w)) (id : TaskId) :
    s.world.table.rank id ≤ w.table.rank id := by
  cases hst : s.world.table.status id with
  | none =>
    rw [Table.rank, hst]
    exact Nat.zero_le _
  | some y =>
    have hst' := serve_status h (Table.status_lt hst)
    rw [hst, Option.map_some] at hst'
    rw [rank_of_status hst, rank_of_status hst']
    have hle : y.rank ≤ 2 := by cases y <;> simp [Status.rank]
    cases hw : writes s.world id p.pc with
    | none => exact le_rfl
    | some x =>
      rcases writes_spec hwf hw with ⟨t, -, -, rfl⟩ | hterm | ⟨t, hpc, rfl, rfl⟩
      · exact hle
      · exact (rank_of_terminal hterm).symm ▸ hle
      · have := hok.prepared t (mem_releasing hp hpc)
        cases hst.symm.trans this
        exact Nat.zero_le _

theorem grows_serve (hp : s.procs.get pid = some p) (hwf : p.pc.WellFormed)
    (hok : KeepsEnded s (.serve pid c)) (h : serve s.world p.pc c = some (a, w)) :
    Grows N s.world.table w.table where
  kept id row hrow := by
    have hlinks := serve_links h (Table.find_lt hrow)
    rw [hrow, Option.map_some] at hlinks
    obtain ⟨row', hrow', heq⟩ := Option.map_eq_some_iff.mp hlinks
    exact ⟨row', hrow', congrArg Prod.snd heq⟩
  olds id row' hrow' := by
    by_cases hid : id < s.world.table.next
    · have hlinks := serve_links h hid
      rw [hrow', Option.map_some] at hlinks
      obtain ⟨row, hrow, heq⟩ := Option.map_eq_some_iff.mp hlinks.symm
      exact .inl ⟨row, hrow, (congrArg Prod.snd heq).symm⟩
    · obtain ⟨hst, hparent⟩ := serve_orphans h (Nat.not_lt.mp hid) hrow'
      exact .inr ⟨Nat.not_lt.mp hid, hst, fun p hp => by rw [hparent] at hp; cases hp⟩
  ended id x hx hst := by
    have hend := (endsAs_of_status hst).serve hx hp hok h
    rw [serve_status h (Table.status_lt hst), hst, Option.map_some]
    have := hend.status ((writes s.world id p.pc).getD x)
      (by rw [serve_status h (Table.status_lt hst), hst, Option.map_some])
    rw [this]
  rank := serve_rank hp hwf hok h

end Serve

theorem grows_enter {cfg : Config} {s : QState} {e : Entry} {w : World} {nx : Next Pc}
    (hok : RollupStep s (.enter e)) (h : enter cfg s.world e = some (w, nx)) :
    Grows (fun p => s.world.table.status p = some .running ∧
      ∀ e ∈ s.procs, ∀ t ∈ e.2.pc.dispatched, t.id ≠ p) s.world.table w.table := by
  cases e with
  | create row =>
    simp only [enter] at h
    split_ifs at h with hterm
    cases h
    refine ⟨fun id r hr => ⟨r, ?_, rfl⟩, fun id r hr => ?_, fun id x _ hx => ?_, fun id => ?_⟩
    · rw [Table.find_create_of_lt _ _ (Table.find_lt hr), hr]
    · by_cases hid : id < s.world.table.next
      · exact .inl ⟨r, (Table.find_create_of_lt _ _ hid).symm.trans hr, rfl⟩
      · have hlt := Table.find_lt hr
        have heq : id = s.world.table.next :=
          Nat.le_antisymm (Nat.lt_succ_iff.mp hlt) (Nat.not_lt.mp hid)
        subst heq
        rw [Table.find_create_self] at hr
        cases hr
        exact .inr ⟨le_rfl, by simpa using hterm, fun p hp => hok.placed row rfl p hp⟩
    · rw [Table.status_create_of_lt _ _ (Table.status_lt hx), hx]
    · cases hst : s.world.table.status id with
      | none =>
        rw [Table.rank, hst]
        exact Nat.zero_le _
      | some y =>
        rw [Table.rank, Table.rank, Table.status_create_of_lt _ _ (Table.status_lt hst)]
  | bulkCancel zones operation =>
    cases h
    have hlinks := Table.links_update s.world.table
      (fun t => zones.contains t.zoneName && t.status = .pending &&
        operation.all (fun o => t.operation = o)) { status := some .cancelled }
    refine ⟨fun id r hr => ?_, fun id r hr => ?_, fun id x hx hst => ?_, fun id => ?_⟩
    · have := hlinks id
      rw [hr, Option.map_some] at this
      obtain ⟨r', hr', heq⟩ := Option.map_eq_some_iff.mp this
      exact ⟨r', hr', congrArg Prod.snd heq⟩
    · have := hlinks id
      rw [show (s.world.table.update _ _).find id = some r from hr, Option.map_some] at this
      obtain ⟨r', hr', heq⟩ := Option.map_eq_some_iff.mp this.symm
      exact .inl ⟨r', hr', (congrArg Prod.snd heq).symm⟩
    · obtain ⟨t, ht, rfl⟩ := exists_of_status hst
      rw [Table.status_update, ht, Option.map_some, if_neg]
      intro hp
      simp only [Bool.and_eq_true, decide_eq_true_eq] at hp
      rw [hp.1.2] at hx
      cases hx
    · cases hst : s.world.table.status id with
      | none =>
        rw [Table.rank, hst]
        exact Nat.zero_le _
      | some y =>
        obtain ⟨t, ht, rfl⟩ := exists_of_status hst
        rw [rank_of_status hst, Table.rank, Table.status_update, ht, Option.map_some]
        split_ifs with hp
        · simp only [Bool.and_eq_true, decide_eq_true_eq] at hp
          rw [hp.1.2]
          decide
        · exact le_rfl
  | clearCompleted => cases hok.uncleaned
  | cleanupOld before => cases hok.uncleaned
  | tick =>
    simp only [enter] at h
    split_ifs at h <;> cases h <;> exact .refl _
  | _ =>
    cases h
    exact .refl _

/-! ## What the table knows -/

/-- Anchors run or have ended; one that a rollup ended has the status of its sub-tasks. -/
structure Rolled (w : World) : Prop where
  placed : AnchorsPlaced w.table
  exact : ∀ p x, IsParent w.table p → w.table.status p = some x → x.terminal = true →
    x ≠ .cancelled → (∀ y ∈ childStatuses w.table p, y.terminal = true) ∧
      RolledUp (childStatuses w.table p) x

theorem countP_terminal (ts : List Task) :
    ts.countP (fun t => t.status = .completed) + ts.countP (fun t => countsFailed t.status) =
      ts.countP (fun t => t.status.terminal) := by
  induction ts with
  | nil => rfl
  | cons t ts ih =>
    have hhead : (if decide (t.status = .completed) then 1 else 0) +
        (if countsFailed t.status then 1 else 0) = if t.status.terminal then 1 else 0 := by
      cases t.status <;> rfl
    simp only [List.countP_cons]
    omega

theorem parentStatus_running_iff (ts : List Task) :
    parentStatus ts = .running ↔ ts = [] ∨ ∃ t ∈ ts, t.status.terminal = false := by
  have hall : ts.countP (fun t => t.status.terminal) = ts.length ↔
      ∀ t ∈ ts, t.status.terminal = true := List.countP_eq_length
  unfold parentStatus
  dsimp only
  rw [countP_terminal]
  cases ts with
  | nil => simp
  | cons t ts =>
    have hpos : 0 < (t :: ts).length := Nat.succ_pos _
    by_cases hend : (t :: ts).countP (fun t => t.status.terminal) = (t :: ts).length
    · rw [if_pos ⟨hpos, hend⟩]
      have hnot : ¬∃ t' ∈ t :: ts, t'.status.terminal = false := by
        rintro ⟨t', ht', hfalse⟩
        rw [hall.mp hend t' ht'] at hfalse
        cases hfalse
      split_ifs <;> exact ⟨nofun, fun h => (h.elim nofun hnot).elim⟩
    · rw [if_neg fun h => hend h.2]
      simp only [true_iff]
      right
      by_contra hnot
      refine hend (hall.mpr fun t' ht' => ?_)
      by_contra hfalse
      exact hnot ⟨t', ht', by simpa using hfalse⟩

/-- The statuses a rollup reads amount to the status it writes. -/
theorem parentStatus_rolledUp {ts : List Task} (h : parentStatus ts ≠ .running) :
    RolledUp {x | ∃ t ∈ ts, t.status = x} (parentStatus ts) := by
  rw [Ne, parentStatus_running_iff, not_or] at h
  obtain ⟨hne, hend⟩ := h
  have hend' : ts.countP (fun t => t.status.terminal) = ts.length := by
    refine List.countP_eq_length.mpr fun t ht => ?_
    by_contra hfalse
    exact hend ⟨t, ht, by simpa using hfalse⟩
  have hsum := (countP_terminal ts).trans hend'
  have hfailed : ts.countP (fun t => countsFailed t.status) = ts.length ↔
      ∀ y ∈ {x | ∃ t ∈ ts, t.status = x}, countsFailed y = true := by
    rw [List.countP_eq_length]
    simp
  have hcompleted : ts.countP (fun t => countsFailed t.status) = 0 ↔
      ∀ y ∈ {x | ∃ t ∈ ts, t.status = x}, y = .completed := by
    rw [show ts.countP (fun t => countsFailed t.status) = 0 ↔
      ts.countP (fun t => decide (t.status = .completed)) = ts.length by omega, List.countP_eq_length]
    simp
  have hpos := List.length_pos_iff.mpr hne
  have hstatus : parentStatus ts =
      if ts.countP (fun t => countsFailed t.status) = ts.length then .failed
      else if 0 < ts.countP (fun t => countsFailed t.status) then .completedWithErrors
      else .completed := by
    unfold parentStatus
    dsimp only
    rw [if_pos ⟨hpos, hsum⟩]
  rw [hstatus]
  generalize ts.countP (fun t => countsFailed t.status) = failed at hfailed hcompleted
  generalize ts.length = total at hfailed hpos
  refine ⟨?_, ?_, ?_⟩
  · rw [← hfailed]
    split_ifs <;> simp only [true_iff, false_iff] <;> omega
  · rw [← hcompleted]
    split_ifs <;> simp only [true_iff, false_iff] <;> omega
  · rw [← hcompleted, ← hfailed]
    split_ifs <;> simp only [true_iff, false_iff] <;> omega

/-! ## What an activation knows -/

/-- The rows an activation has read and carries on. -/
def Pc.tasks : Pc → List Task
  | .deps ts | .cancelDependents ts _ => ts
  | .markRunning t | .execute t | .finish t _ _ | .finalize t _ | .taskParent t _ => [t]
  | .subTasks t | .updateParent t _ _ => [t]
  | .flip t _ | .flipParent t | .close t | .children t | .cascade t _ | .closeParent t => [t]
  | _ => []

def Ans.tasks : Ans → List Task
  | .rows ts => ts
  | .row (some t) => [t]
  | _ => []

def carried (x : Point Pc Ans) : List Task := x.1.tasks ++ x.2.elim [] Ans.tasks

/-- The row is there, with the parent it was read with. -/
def Linked (tb : Table) (t : Task) : Prop :=
  ∃ row, tb.find t.id = some row ∧ row.parentTaskId = t.parentTaskId

def HasEnded (tb : Table) (id : TaskId) : Prop :=
  ∃ x, x.terminal = true ∧ tb.status id = some x

structure RollupHere (w : World) (x : Point Pc Ans) : Prop where
  wellFormed : x.1.WellFormed
  linked : ∀ t ∈ carried x, Linked w.table t
  parent : ∀ p, x.1 = .parentTask p → IsParent w.table p
  childless : ∀ t, x.1.dispatched = some t → ¬IsParent w.table t.id
  rolling : ∀ t status update, x.1 = .updateParent t status update →
    update.status = if status = .running then none else some status
  read : ∀ p o, x = (.parentTask p, some (.row o)) →
    ∃ t ∈ o, t.id = p ∧ (t.status = .running ∨ HasEnded w.table p)
  asking : ∀ id n, x.1 = .cancelFind id n → n ≤ w.table.rank id
  reading : ∀ id n t, x = (.cancelFind id n, some (.row (some t))) →
    t.id = id ∧ n ≤ t.status.rank ∧ t.status.rank ≤ w.table.rank id ∧
      (t.status.terminal = true → HasEnded w.table id)
  flipping : ∀ t n, x.1 = .flip t n → n ≤ t.status.rank ∧ t.status.rank ≤ w.table.rank t.id
  lost : ∀ t n, x = (.flip t n, some (.count 0)) → t.status.rank < w.table.rank t.id

section Grows
variable {N : TaskId → Prop} {tb tb' : Table}

theorem Linked.grows {t : Task} (hl : Linked tb t) (h : Grows N tb tb') : Linked tb' t := by
  obtain ⟨row, hrow, hparent⟩ := hl
  obtain ⟨row', hrow', heq⟩ := h.kept _ row hrow
  exact ⟨row', hrow', heq.trans hparent⟩

theorem HasEnded.grows {id : TaskId} (he : HasEnded tb id) (h : Grows N tb tb') :
    HasEnded tb' id := by
  obtain ⟨x, hx, hst⟩ := he
  exact ⟨x, hx, h.ended id x hx hst⟩

theorem linked_of_mem {t : Task} (ht : t ∈ tb.rows) : Linked tb t :=
  ⟨t, Table.find_eq_some_iff.mpr ⟨ht, rfl⟩, rfl⟩

theorem Linked.isParent {t : Task} {p : TaskId} (hl : Linked tb t) (hp : t.parentTaskId = some p) :
    IsParent tb p := by
  obtain ⟨row, hrow, hparent⟩ := hl
  exact isParent_iff.mpr ⟨_, row, hrow, hparent.trans hp⟩

theorem RollupHere.grows {w w' : World} {x : Point Pc Ans} (hx : RollupHere w x)
    (h : Grows N w.table w'.table) (hN : ∀ t, x.1.dispatched = some t → ¬N t.id) :
    RollupHere w' x where
  wellFormed := hx.wellFormed
  linked t ht := (hx.linked t ht).grows h
  parent p hp := h.parent (hx.parent p hp)
  childless t ht hp := (h.parent' hp).elim (hx.childless t ht) (hN t ht)
  rolling := hx.rolling
  read p o ho := by
    obtain ⟨t, ht, hid, hst⟩ := hx.read p o ho
    exact ⟨t, ht, hid, hst.imp_right (·.grows h)⟩
  asking id n hn := (hx.asking id n hn).trans (h.rank id)
  reading id n t ht := by
    obtain ⟨hid, hn, hrank, hend⟩ := hx.reading id n t ht
    exact ⟨hid, hn, hrank.trans (h.rank id), fun hterm => (hend hterm).grows h⟩
  flipping t n ht := ⟨(hx.flipping t n ht).1, (hx.flipping t n ht).2.trans (h.rank _)⟩
  lost t n ht := (hx.lost t n ht).trans_le (h.rank _)

end Grows

/-- The rows of an answer are rows of the table. -/
theorem serve_tasks {w w' : World} {pc : Pc} {c : Choice} {a : Ans}
    (h : serve w pc c = some (a, w')) : ∀ t ∈ a.tasks, t ∈ w.table.rows := by
  have selected : ∀ p : Task → Bool, ∀ t ∈ w.table.select p, t ∈ w.table.rows :=
    fun p t ht => List.mem_of_mem_filter ht
  have found : ∀ id, ∀ t ∈ (Ans.row (w.table.find id)).tasks, t ∈ w.table.rows := by
    intro id t ht
    cases hf : w.table.find id with
    | none => simp [hf, Ans.tasks] at ht
    | some t' =>
      rw [hf] at ht
      rw [List.mem_singleton.mp ht]
      exact Table.find_mem hf
  have picked : ∀ (p : Task → Bool) before id o, findOne w.table p before id = some o →
      ∀ t ∈ (Ans.row o).tasks, t ∈ w.table.rows := by
    intro p before id o ho t ht
    cases o with
    | none => cases ht
    | some t' =>
      rw [List.mem_singleton.mp ht]
      exact (mem_of_findOne ho).1
  unfold serve at h
  split at h <;> simp only [Option.map_eq_some_iff, Option.some.injEq, Prod.mk.injEq,
    reduceCtorEq] at h
  all_goals first
    | (obtain ⟨rfl, -⟩ := h)
    | (obtain ⟨o, ho, rfl, -⟩ := h)
  all_goals first
    | exact selected _
    | exact found _
    | exact picked _ _ _ _ ho
    | exact fun t ht => nomatch ht

/-- A lost flip found the row further on than it was read. -/
theorem served_lost {w w' : World} {t : Task} {n : ℕ} {c : Choice}
    (h : serve w (.flip t n) c = some (.count 0, w')) (hwf : t.status = .pending ∨ t.status = .prepared)
    (hl : Linked w.table t) (hrank : t.status.rank ≤ w.table.rank t.id) :
    t.status.rank < w.table.rank t.id := by
  obtain ⟨row, hrow, -⟩ := hl
  have hst := Table.status_of_find hrow
  refine lt_of_le_of_ne hrank fun heq => ?_
  rw [rank_of_status hst] at heq
  have hsame : row.status = t.status := by
    revert heq
    rcases hwf with hwf | hwf <;> rw [hwf] <;> cases row.status <;> simp [Status.rank]
  cases c <;> simp only [serve, Option.some.injEq, Prod.mk.injEq, Ans.count.injEq, reduceCtorEq] at h
  have hnil := List.length_eq_zero_iff.mp h.1
  have hmem : row ∈ w.table.select (fun r => r.id = t.id && r.status = t.status) :=
    List.mem_filter.mpr ⟨Table.find_mem hrow, by simp [Table.find_id hrow, hsame]⟩
  rw [hnil] at hmem
  cases hmem

theorem RollupHere.served {N : TaskId → Prop} {w w' : World} {pc : Pc} {c : Choice} {a : Ans}
    (hx : RollupHere w (pc, none)) (hg : Rolled w) (hgrows : Grows N w.table w'.table)
    (hN : ∀ t, pc.dispatched = some t → ¬N t.id) (h : serve w pc c = some (a, w')) :
    RollupHere w' (pc, some a) := by
  have hkept := hx.grows hgrows hN
  refine ⟨hx.wellFormed, ?_, hkept.parent, hkept.childless, hkept.rolling, ?_, hkept.asking, ?_,
    hkept.flipping, ?_⟩
  · intro t ht
    rcases List.mem_append.mp ht with hmem | hmem
    · exact hkept.linked t (List.mem_append.mpr (.inl hmem))
    · exact (linked_of_mem (serve_tasks h t hmem)).grows hgrows
  · rintro p o heq
    cases heq
    obtain ⟨x, hst, hrank⟩ := hg.placed p (hx.parent p rfl)
    obtain ⟨t, ht, rfl⟩ := exists_of_status hst
    cases c <;> simp only [serve, Option.some.injEq, Prod.mk.injEq, Ans.row.injEq,
      reduceCtorEq] at h
    obtain ⟨rfl, rfl⟩ := h
    refine ⟨t, ht, Table.find_id ht, ?_⟩
    by_cases hrun : t.status = .running
    · exact .inl hrun
    · exact .inr ⟨_, terminal_of_rank hrank hrun, hst⟩
  · rintro id n t heq
    cases heq
    obtain ⟨hid, hst, rfl⟩ := served_cancelFind h
    have hrank := rank_of_status hst
    exact ⟨hid, hrank ▸ hx.asking id n rfl, hrank.ge, fun hterm => ⟨_, hterm, hst⟩⟩
  · rintro t n heq
    cases heq
    obtain ⟨-, hrank⟩ := hx.flipping t n rfl
    exact (served_lost h hx.wellFormed (hx.linked t (by simp [carried, Pc.tasks])) hrank).trans_le
      (hgrows.rank _)

/-- What a resumed activation carries to its next points. -/
structure Carries (pc : Pc) (r : Reply Ans) (x : Pc) : Prop where
  tasks : ∀ t ∈ x.tasks, t ∈ carried (pc, (Phase.ready r).seen)
  parent : ∀ p, x = .parentTask p → ∃ t ∈ pc.tasks, t.parentTaskId = some p
  rolling : ∀ t status update, x = .updateParent t status update →
    update.status = if status = .running then none else some status
  asking : ∀ id n, x = .cancelFind id n →
    n = 0 ∨ ∃ t m, pc = .flip t m ∧ r = .answer (.count 0) ∧ id = t.id ∧ n = m + 1
  flipping : ∀ t n, x = .flip t n → ∃ id, pc = .cancelFind id n ∧ r = .answer (.row (some t))

/-- A point about which there is nothing to know but its tasks. -/
def Pc.plainRollup : Pc → Bool
  | .parentTask _ | .updateParent _ _ _ | .cancelFind _ _ | .flip _ _ => false
  | _ => true

theorem carries_plain {pc x : Pc} {r : Reply Ans} (hx : x.plainRollup = true)
    (htasks : ∀ t ∈ x.tasks, t ∈ carried (pc, (Phase.ready r).seen)) : Carries pc r x := by
  refine ⟨htasks, ?_, ?_, ?_, ?_⟩
  · rintro p rfl
    cases hx
  · rintro t status update rfl
    cases hx
  · rintro id n rfl
    cases hx
  · rintro t n rfl
    cases hx

theorem carries_bare {pc x : Pc} {r : Reply Ans} (hx : x.plainRollup = true)
    (htasks : x.tasks = []) : Carries pc r x := by
  refine carries_plain hx fun t ht => ?_
  rw [htasks] at ht
  cases ht

theorem carries_parentTask {pc : Pc} {r : Reply Ans} {t : Task} {p : TaskId} (ht : t ∈ pc.tasks)
    (hp : t.parentTaskId = some p) : Carries pc r (.parentTask p) where
  tasks _ h := nomatch h
  parent p' h := ⟨t, ht, by cases h; exact hp⟩
  rolling _ _ _ h := nomatch h
  asking _ _ h := nomatch h
  flipping _ _ h := nomatch h

theorem carries_cancelFind {pc : Pc} {r : Reply Ans} (id : TaskId) :
    Carries pc r (.cancelFind id 0) where
  tasks _ h := nomatch h
  parent _ h := nomatch h
  rolling _ _ _ h := nomatch h
  asking id' n h := .inl (by cases h; rfl)
  flipping _ _ h := nomatch h

theorem carries_flip {id : TaskId} {n : ℕ} {t : Task} :
    Carries (.cancelFind id n) (.answer (.row (some t))) (.flip t n) where
  tasks _ h := List.mem_append.mpr (.inr h)
  parent _ h := nomatch h
  rolling _ _ _ h := nomatch h
  asking _ _ h := nomatch h
  flipping t' m h := ⟨id, by cases h; exact ⟨rfl, rfl⟩⟩

theorem carries_toCascade {pc : Pc} {r : Reply Ans} (w : World) (t : Task) (ids : List TaskId)
    (ht : t ∈ pc.tasks) : ∀ x ∈ (toCascade w t ids).2.points, Carries pc r x := by
  have own : ∀ x : Pc, x.plainRollup = true → x.tasks = [t] → Carries pc r x := by
    intro x hx hts
    refine carries_plain hx fun t' ht' => ?_
    rw [hts, List.mem_singleton] at ht'
    exact ht' ▸ List.mem_append.mpr (.inl ht)
  unfold toCascade
  split
  · intro x hx
    simp only [Next.points, List.mem_cons, List.not_mem_nil, or_false] at hx
    rcases hx with rfl | rfl
    · exact own _ rfl rfl
    · exact carries_cancelFind _
  · split
    case h_1 p hp =>
      intro x hx
      simp only [Next.points, List.mem_cons, List.not_mem_nil, or_false] at hx
      rcases hx with rfl | rfl
      · exact own _ rfl rfl
      · exact carries_parentTask ht hp
    case h_2 => simp [Next.points]

theorem carries_afterParent {pc : Pc} {r : Reply Ans} (w : World) (t : Task) (status : Status) :
    ∀ x ∈ (afterParent w t status).2.points, Carries pc r x := by
  unfold afterParent
  dsimp only
  split_ifs
  · intro x hx
    rw [List.mem_singleton.mp hx]
    exact carries_bare rfl rfl
  · simp [Next.points]

theorem resume_carries (w : World) (pc : Pc) (r : Reply Ans) :
    ∀ x ∈ (resume w pc r).2.points, Carries pc r x := by
  unfold resume
  split
  case h_2 pending deps =>
    dsimp only
    split_ifs
    · simp only [toPick, Next.points, List.mem_singleton, forall_eq]
      exact carries_bare rfl rfl
    · simp only [Next.points, List.mem_singleton, forall_eq]
      refine carries_plain rfl fun t ht => List.mem_append.mpr (.inl ?_)
      exact List.mem_of_mem_filter ht
  case h_3 toCancel ids a =>
    intro x hx
    rcases List.mem_cons.mp hx with rfl | hmem
    · exact carries_bare rfl rfl
    · obtain ⟨p, hp, rfl⟩ := List.mem_map.mp hmem
      obtain ⟨t, ht, htp⟩ := List.mem_filterMap.mp (List.mem_eraseDups.mp hp)
      exact carries_parentTask ht htp
  case h_9 =>
    dsimp only
    split
    · simp only [caught, Next.points, List.mem_singleton, forall_eq]
      exact carries_bare rfl rfl
    · simp only [Next.points, List.mem_singleton, forall_eq]
      exact carries_plain rfl fun t ht => List.mem_append.mpr (.inl ht)
  case h_11 t status a =>
    dsimp only
    split
    case h_1 p hp =>
      intro x hx
      simp only [Next.points, List.mem_cons, List.not_mem_nil, or_false] at hx
      rcases hx with rfl | rfl
      · exact carries_plain rfl fun t ht => List.mem_append.mpr (.inl ht)
      · exact carries_parentTask (List.mem_singleton_self _) hp
    case h_2 => exact carries_afterParent _ _ _
  case h_12 => exact carries_afterParent _ _ _
  case h_20 parent subTasks =>
    simp only [Next.points, List.mem_singleton, forall_eq]
    refine ⟨fun t ht => List.mem_append.mpr (.inl ht), by rintro _ ⟨⟩, ?_, by rintro _ _ ⟨⟩,
      by rintro _ _ ⟨⟩⟩
    rintro t status update ⟨⟩
    rfl
  case h_21 parent status update a =>
    split
    case h_1 p hp =>
      split_ifs
      · simp [Next.points]
      · simp only [Next.points, List.mem_singleton, forall_eq]
        exact carries_parentTask (List.mem_singleton_self _) hp
    case h_2 => simp [Next.points]
  case h_22 id attempt t =>
    split
    all_goals first
      | (simp only [Next.points, List.mem_singleton, forall_eq]
         exact carries_flip)
      | skip
    · split_ifs
      · simp [Next.points]
      · simp only [Next.points, List.mem_singleton, forall_eq]
        exact carries_plain rfl fun t ht => List.mem_append.mpr (.inr ht)
    · simp [Next.points]
  case h_24 t attempt =>
    split_ifs
    · simp [Next.points]
    · simp only [Next.points, List.mem_singleton, forall_eq]
      refine ⟨by rintro _ ⟨⟩, by rintro _ ⟨⟩, by rintro _ _ _ ⟨⟩, ?_, by rintro _ _ ⟨⟩⟩
      rintro id n ⟨⟩
      exact .inr ⟨t, attempt, rfl, rfl, rfl, rfl⟩
  case h_25 t attempt a ha =>
    split
    case h_1 p hp =>
      intro x hx
      simp only [Next.points, List.mem_cons, List.not_mem_nil, or_false] at hx
      rcases hx with rfl | rfl
      · exact carries_plain rfl fun t ht => List.mem_append.mpr (.inl ht)
      · exact carries_parentTask (List.mem_singleton_self _) hp
    case h_2 => simp [Next.points]
  case h_28 => exact carries_toCascade _ _ _ (List.mem_singleton_self _)
  case h_29 => exact carries_toCascade _ _ _ (List.mem_singleton_self _)
  all_goals try split
  all_goals simp only [Next.points, toPick, caught, List.mem_singleton, forall_eq, List.not_mem_nil,
    false_imp_iff, implies_true]
  all_goals first
    | exact carries_plain rfl fun t ht => List.mem_append.mpr (.inl ht)
    | exact carries_plain rfl fun t ht => List.mem_append.mpr (.inr ht)
    | exact carries_plain rfl fun t ht => absurd ht (List.not_mem_nil (a := t))

/-! ## Every run keeps it -/

theorem RollupHere.resumed {w w' : World} {pc : Pc} {r : Reply Ans} {nx : Next Pc}
    (hx : RollupHere w (pc, (Phase.ready r).seen)) (hg : Rolled w)
    (h : resume w pc r = (w', nx))
    (hnew : ∀ t, nx = .await (.markRunning t) → w.table.status t.id = some .pending) :
    ∀ x ∈ nx.points, RollupHere w (x, none) := by
  intro x hxs
  have hcarries : Carries pc r x := by
    have := resume_carries w pc r
    rw [h] at this
    exact this x hxs
  have hwf : x.WellFormed := by
    have := wellFormed_of_resume w r hx.wellFormed
    rw [show resume w _ r = (w', nx) from h] at this
    exact this x hxs
  have hown : ∀ t ∈ pc.tasks, t ∈ carried (pc, (Phase.ready r).seen) :=
    fun t ht => List.mem_append.mpr (.inl ht)
  refine ⟨hwf, ?_, ?_, ?_, hcarries.rolling, (fun _ _ h => nomatch congrArg Prod.snd h), ?_,
    (fun _ _ _ h => nomatch congrArg Prod.snd h), ?_, (fun _ _ h => nomatch congrArg Prod.snd h)⟩
  · intro t ht
    rw [carried, Option.elim_none, List.append_nil] at ht
    exact hx.linked t (hcarries.tasks t ht)
  · intro p hp
    obtain ⟨t, ht, htp⟩ := hcarries.parent p hp
    exact (hx.linked t (hown t ht)).isParent htp
  · intro t ht
    rcases (resumed_of_eq h).dispatched_points hxs ht with hnx | hpc
    · intro hparent
      obtain ⟨y, hst, hrank⟩ := hg.placed _ hparent
      cases (hnew t hnx).symm.trans hst
      cases hrank
    · exact hx.childless t hpc
  · intro id n hid
    rcases hcarries.asking id n hid with rfl | ⟨t, m, rfl, rfl, rfl, rfl⟩
    · exact Nat.zero_le _
    · exact (hx.flipping t m rfl).1.trans_lt (hx.lost t m rfl)
  · intro t n hflip
    obtain ⟨id, rfl, rfl⟩ := hcarries.flipping t n hflip
    obtain ⟨rfl, hn, hrank, -⟩ := hx.reading id n t rfl
    exact ⟨hn, hrank⟩

/-- The table after a step: only rows that run before and after it get a new sub-task, and an anchor
that the step ends, other than by cancelling it, is rolled up. -/
theorem Rolled.grows {N : TaskId → Prop} {w w' : World} (hg : Rolled w)
    (h : Grows N w.table w'.table)
    (hN : ∀ p, N p → w.table.status p = some .running ∧ w'.table.status p = some .running)
    (hnew : ∀ p x, IsParent w.table p → w'.table.status p = some x → x.terminal = true →
      x ≠ .cancelled → w.table.status p = some x ∨
        (∀ y ∈ childStatuses w.table p, y.terminal = true) ∧
          RolledUp (childStatuses w.table p) x) : Rolled w' where
  placed p hp := by
    have hold : ∃ x, w.table.status p = some x ∧ x.rank = 2 := by
      rcases h.parent' hp with hp | hp
      · exact hg.placed p hp
      · exact ⟨_, (hN p hp).1, rfl⟩
    obtain ⟨x, hst, hrank⟩ := hold
    obtain ⟨row, hrow, -⟩ := exists_of_status hst
    obtain ⟨row', hrow', -⟩ := h.kept p row hrow
    have hst' := Table.status_of_find hrow'
    have hle := h.rank p
    rw [rank_of_status hst, rank_of_status hst', hrank] at hle
    exact ⟨_, hst', le_antisymm (by cases row'.status <;> simp [Status.rank]) hle⟩
  exact p x hp hst hx hne := by
    have hnot : ¬N p := by
      intro hNp
      cases hst.symm.trans (hN p hNp).2
      cases hx
    have hpar := (h.parent' hp).resolve_right hnot
    have hrolled : (∀ y ∈ childStatuses w.table p, y.terminal = true) ∧
        RolledUp (childStatuses w.table p) x := by
      rcases hnew p x hpar hst hx hne with hst' | hrolled
      · exact hg.exact p x hpar hst' hx hne
      · exact hrolled
    rw [h.childStatuses_eq hnot hrolled.1]
    exact hrolled

/-- The sub-tasks that the rollup's query selects. -/
theorem mem_select_iff {tb : Table} {p : TaskId} {t : Task} :
    t ∈ tb.select (fun t => t.parentTaskId = some p) ↔ Child tb p t := by
  simp [Table.select, Child]

theorem childStatuses_select (tb : Table) (p : TaskId) :
    {x | ∃ t ∈ tb.select (fun t => t.parentTaskId = some p), t.status = x} = childStatuses tb p := by
  ext x
  simp only [Set.mem_ofPred_eq, childStatuses, mem_select_iff]

/-- What a rollup reads when its anchor has sub-tasks. -/
theorem parentStatus_select {tb : Table} {p : TaskId} (hp : IsParent tb p) :
    parentStatus (tb.select (fun t => t.parentTaskId = some p)) = .running ↔
      ∃ y ∈ childStatuses tb p, y.terminal = false := by
  rw [parentStatus_running_iff, ← childStatuses_select]
  obtain ⟨c, hc⟩ := hp
  have hne : tb.select (fun t => t.parentTaskId = some p) ≠ [] :=
    List.ne_nil_of_mem (mem_select_iff.mpr hc)
  simp only [hne, false_or, Set.mem_ofPred_eq]
  constructor
  · rintro ⟨t, ht, hterm⟩
    exact ⟨_, ⟨t, ht, rfl⟩, hterm⟩
  · rintro ⟨y, ⟨t, ht, rfl⟩, hterm⟩
    exact ⟨t, ht, hterm⟩

/-- The anchors that a served call ends: by a rollup of their sub-tasks as they are, or by a
cancellation. -/
theorem serve_ends_parent {s : QState} {pid : ℕ} {c : Choice} {p : Activation Pc Ans} {a : Ans}
    {w : World} {id : TaskId} {x : Status} (hp : s.procs.get pid = some p)
    (hx : RollupHere s.world (p.pc, none)) (hg : Rolled s.world)
    (hok : RollupStep s (.serve pid c)) (h : serve s.world p.pc c = some (a, w))
    (hpar : IsParent s.world.table id) (hst : w.table.status id = some x) (hterm : x.terminal = true)
    (hold : ¬HasEnded s.world.table id) :
    (∃ t, p.pc = .close t ∧ t.id = id ∧ x = .cancelled) ∨
      (∃ t update, p.pc = .updateParent t x update ∧ t.id = id ∧
        (∀ y ∈ childStatuses s.world.table id, y.terminal = true) ∧
        RolledUp (childStatuses s.world.table id) x) := by
  obtain ⟨y, hy, hrank⟩ := hg.placed id hpar
  have hrun : y = .running := by
    by_contra hne
    exact hold ⟨y, terminal_of_rank hrank hne, hy⟩
  subst hrun
  obtain ⟨z, hz, rfl | hw⟩ := serve_status_eq h (Table.status_lt hy) hst
  · exact absurd ⟨x, hterm, hz⟩ hold
  · cases hpc : p.pc with
    | close t =>
      rw [hpc] at hw
      simp only [writes, Option.ite_none_right_eq_some, Option.some.injEq] at hw
      exact .inl ⟨t, rfl, hw.1.symm, hw.2.symm⟩
    | updateParent t status update =>
      rw [hpc] at hw hx
      simp only [writes, Option.ite_none_right_eq_some] at hw
      obtain ⟨rfl, hup⟩ := hw
      have hroll := hx.rolling t status update rfl
      by_cases hrun : status = .running
      · rw [hroll, if_pos hrun] at hup
        cases hup
      · rw [hroll, if_neg hrun] at hup
        cases hup
        have hcur : parentStatus (s.world.table.select (fun c => c.parentTaskId = some t.id)) = x :=
          hok.current p.pc (mem_served hp) (t.id, x) (by
            rw [hpc]
            exact if_neg hrun)
        refine .inr ⟨t, update, rfl, rfl, ?_, ?_⟩
        · intro y hy
          by_contra hfalse
          exact hrun (hcur ▸ (parentStatus_select hpar).mpr ⟨y, hy, by simpa using hfalse⟩)
        · have := parentStatus_rolledUp (hcur ▸ hrun)
          rwa [childStatuses_select, hcur] at this
    | finish t status data =>
      rw [hpc] at hw hx
      simp only [writes, Option.ite_none_right_eq_some] at hw
      exact absurd (hw.1 ▸ hpar) (hx.childless t rfl)
    | cancelDependents toCancel ids =>
      rw [hpc] at hw
      simp only [writes, Option.ite_none_right_eq_some] at hw
      obtain ⟨t, ht, rfl⟩ := List.mem_map.mp hw.1
      exact absurd hy (hok.gate p.pc (mem_served hp) t (by rw [hpc]; exact ht))
    | flip t attempt =>
      rw [hpc] at hw hx
      simp only [writes, Option.ite_none_right_eq_some] at hw
      rw [hy] at hw
      have hwf := hx.wellFormed
      rw [Pc.WellFormed, ← Option.some.inj hw.1.2] at hwf
      rcases hwf with hwf | hwf <;> cases hwf
    | markRunning t =>
      rw [hpc] at hw
      simp only [writes, Option.ite_none_right_eq_some, Option.some.injEq] at hw
      rw [← hw.2] at hterm
      cases hterm
    | uploaded t =>
      rw [hpc] at hw
      simp only [writes, Option.ite_none_right_eq_some, Option.some.injEq] at hw
      rw [← hw.2] at hterm
      cases hterm
    | _ =>
      rw [hpc] at hw
      cases hw

theorem Rolled.serve {s : QState} {pid : ℕ} {c : Choice} {p : Activation Pc Ans} {a : Ans}
    {w : World} (hg : Rolled s.world) (hp : s.procs.get pid = some p)
    (hx : RollupHere s.world (p.pc, none)) (hok : RollupStep s (.serve pid c))
    (h : TaskQueue.serve s.world p.pc c = some (a, w)) : Rolled w := by
  have hgrows : Grows (fun _ => False) s.world.table w.table :=
    grows_serve hp hx.wellFormed hok.toKeepsEnded h
  refine hg.grows hgrows (fun _ hN => hN.elim) fun id x hpar hst hterm hne => ?_
  by_cases hold : HasEnded s.world.table id
  · obtain ⟨y, hy, hst'⟩ := hold
    have := hgrows.ended id y hy hst'
    cases this.symm.trans hst
    exact .inl hst'
  · rcases serve_ends_parent hp hx hg hok h hpar hst hterm hold with
      ⟨t, -, -, rfl⟩ | ⟨t, update, -, -, hrolled⟩
    · exact absurd rfl hne
    · exact .inr hrolled

/-- The rows that an entry may give a sub-task. -/
def Placeable (s : QState) (p : TaskId) : Prop :=
  s.world.table.status p = some .running ∧ ∀ e ∈ s.procs, ∀ t ∈ e.2.pc.dispatched, t.id ≠ p

theorem Rolled.enter {cfg : Config} {s : QState} {e : Entry} {w : World} {nx : Next Pc}
    (hg : Rolled s.world) (hok : RollupStep s (.enter e))
    (h : TaskQueue.enter cfg s.world e = some (w, nx)) : Rolled w := by
  have hst : ∀ id, id < s.world.table.next → w.table.status id = s.world.table.status id ∨
      s.world.table.status id = some .pending ∧ w.table.status id = some .cancelled ∨
      HasEnded s.world.table id := by
    intro id hid
    rcases (enter_entered h).status id hid with heq | hc | ⟨x, hx, hterm, -⟩
    · exact .inl heq
    · exact .inr (.inl hc)
    · exact .inr (.inr ⟨x, hterm, hx⟩)
  refine hg.grows (N := Placeable s) (grows_enter hok h) (fun p hN => ⟨hN.1, ?_⟩)
    fun id x hpar hst' hterm hne => ?_
  · rcases hst p (Table.status_lt hN.1) with heq | ⟨hpend, -⟩ | ⟨y, hterm, hy⟩
    · rw [heq, hN.1]
    · cases hN.1.symm.trans hpend
    · cases hN.1.symm.trans hy
      cases hterm
  · obtain ⟨y, hy, -⟩ := hg.placed id hpar
    rcases hst id (Table.status_lt hy) with heq | ⟨-, hc⟩ | ⟨z, hz, hzst⟩
    · exact .inl (heq ▸ hst')
    · cases hc.symm.trans hst'
      exact absurd rfl hne
    · have := (grows_enter hok h).ended id z hz hzst
      cases this.symm.trans hst'
      exact .inl hzst

/-- An activation that has just entered has read nothing. -/
theorem rollupHere_entry {w : World} {pc : Pc}
    (hpc : pc = .pendingWithDeps ∨ ∃ id, pc = .cancelFind id 0 ∨ pc = .uploadTask id) :
    RollupHere w (pc, none) := by
  have htasks : pc.tasks = [] := by obtain rfl | ⟨id, rfl | rfl⟩ := hpc <;> rfl
  have hidle : pc.dispatched = none := by obtain rfl | ⟨id, rfl | rfl⟩ := hpc <;> rfl
  refine ⟨?_, ?_, ?_, ?_, ?_, (fun _ _ h => nomatch congrArg Prod.snd h), ?_,
    (fun _ _ _ h => nomatch congrArg Prod.snd h), ?_, (fun _ _ h => nomatch congrArg Prod.snd h)⟩
  · obtain rfl | ⟨id, rfl | rfl⟩ := hpc <;> trivial
  · intro t ht
    simp [carried, htasks] at ht
  · rintro p rfl
    simp at hpc
  · intro t ht
    rw [hidle] at ht
    cases ht
  · rintro t status update rfl
    simp at hpc
  · rintro id n rfl
    simp only [reduceCtorEq, Pc.cancelFind.injEq, or_false, false_or] at hpc
    obtain ⟨_, -, rfl⟩ := hpc
    exact Nat.zero_le _
  · rintro t n rfl
    simp at hpc

theorem rollup_coherent (cfg : Config) :
    Coherent (program cfg) RollupStep Rolled RollupHere fun _ _ => True where
  symm _ _ _ := trivial
  serve s pid c p a w hi hp hseen hok h := by
    have hx : RollupHere s.world (p.pc, none) := by
      have := hi.here pid p hp
      rwa [Activation.point, hseen] at this
    have hgrows : Grows (fun _ => False) s.world.table w.table :=
      grows_serve hp hx.wellFormed hok.toKeepsEnded h
    refine ⟨hi.world.serve hp hx hok h, ?_, List.pairwise_singleton _ _, fun q p' _ hp' =>
      ⟨(hi.here q p' hp').grows hgrows fun _ _ hN => hN, fun _ _ => trivial⟩⟩
    intro x hxs
    rw [List.mem_singleton.mp hxs]
    exact hx.served hi.world hgrows (fun _ _ hN => hN) h
  resume s pid p r w nx hi hp hphase hok h := by
    have hx : RollupHere s.world (p.pc, (Phase.ready r).seen) := by
      have := hi.here pid p hp
      rwa [Activation.point, hphase] at this
    have hres := resumed_of_eq h
    have hgrows : Grows (fun _ => False) s.world.table w.table := by
      rw [(resumed_table hres).1]
      exact .refl _
    have hnew : ∀ t, nx = .await (.markRunning t) → s.world.table.status t.id = some .pending :=
      fun t ht => hok.pending t (registering_of_resumed (ht ▸ hres) hp hphase)
    refine ⟨hi.world.grows hgrows (fun _ hN => hN.elim) fun id x _ hst _ _ => .inl ?_, ?_,
      List.pairwise_of_forall fun _ _ => trivial, fun q p' _ hp' =>
      ⟨(hi.here q p' hp').grows hgrows fun _ _ hN => hN, fun _ _ => trivial⟩⟩
    · rwa [(resumed_table hres).1] at hst
    · intro x hxs
      obtain ⟨pc, hpc, rfl⟩ := List.mem_map.mp hxs
      exact (hx.resumed hi.world h hnew pc hpc).grows hgrows fun _ _ hN => hN
  enter s e w nx hi hok h := by
    have hent := enter_entered h
    refine ⟨hi.world.enter hok h, ?_, List.pairwise_of_forall fun _ _ => trivial, fun q p _ hp =>
      ⟨(hi.here q p hp).grows (grows_enter hok h) fun t ht hN =>
        hN.2 (q, p) (KeyedList.mem_of_get hp) t ht rfl, fun _ _ => trivial⟩⟩
    intro x hxs
    obtain ⟨pc, hpc, rfl⟩ := List.mem_map.mp hxs
    exact rollupHere_entry (hent.points pc hpc)

theorem rollup_reaches {cfg : Config} {table : Table} {s : QState} (hplaced : AnchorsPlaced table)
    (hexact : AnchorsExact table) (h : QReaches cfg RollupStep (boot table) s) :
    Inv Rolled RollupHere (fun _ _ => True) s := by
  refine (rollup_coherent cfg).reaches (Inv.start ⟨hplaced, fun p x hp hst hterm hne => ?_⟩) h
  refine ⟨fun y hy => ?_, hexact.rolledUp p x hp hst hterm hne⟩
  by_contra hfalse
  cases (hexact.running p x hp hst).mpr ⟨y, hy, by simpa using hfalse⟩
  cases hterm

end ZoneweaverAgent.TaskQueue
