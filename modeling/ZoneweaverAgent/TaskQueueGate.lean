import ZoneweaverAgent.TaskQueueEnded

/-!
# The dependency gate

A tick reads the pending rows that have a dependency, reads the dependencies, cancels the rows
whose dependency failed, was cancelled or is gone, and picks a row whose dependency is among the
completed ones. `GateStep` says that no row that has ended changes its status, that no completed
row is deleted while a waiting row names it, and that no gate meets a dependency that completed
with errors. Then a row is dispatched after its dependency completed, a row is cancelled only if
its dependency ended otherwise, and every pass cancels the rows it has to.
-/

namespace ZoneweaverAgent.TaskQueue
open EventLoop

/-! ## The property -/

/-- The row has ended, and not by completing. -/
def EndedBadly (w : World) (id : TaskId) : Prop :=
  ∃ x, w.table.status id = some x ∧ x.terminal = true ∧ x ≠ .completed

/-- What the gate guarantees in a state `s` of a run from `table`. A task that is registered has a
completed dependency; a pending row that the gate is about to cancel has one that ended badly at
some point of the run and completed at none; and a pass that read a pending row whose dependency
had ended badly has cancelled the row by the time it comes to the pick. -/
structure GateKept (cfg : Config) (ok : QState → QLabel → Prop) (table : Table) (s : QState) :
    Prop where
  dispatched : ∀ l, ok s l → ∀ t ∈ registering s l, ∀ d ∈ t.dependsOn,
    s.world.table.status d = some .completed
  cancelled : ∀ pid p toCancel ids, s.procs.get pid = some p →
    p.point = (.cancelDependents toCancel ids, none) → ∀ t ∈ toCancel,
    s.world.table.status t.id = some .pending → ∃ d ∈ t.dependsOn,
      (∃ u, QReaches cfg ok (boot table) u ∧ QReaches cfg ok u s ∧ EndedBadly u.world d) ∧
      ∀ u, QReaches cfg ok (boot table) u → QReaches cfg ok u s →
        u.world.table.status d ≠ some .completed
  unblocked : ∀ u v pid p c p' ids busy, QReaches cfg ok (boot table) u → ok u (.serve pid c) →
    u.procs.get pid = some p → p.pc = .pendingWithDeps →
    step (program cfg) u (.serve pid c) = some v → QReaches cfg ok v s →
    s.procs.get pid = some p' → p'.pc = .pick ids busy → ∀ t ∈ u.world.table.rows,
    t.status = .pending → ∀ d ∈ t.dependsOn, EndedBadly u.world d → EndsAs s.world t.id .cancelled

/-! ## The condition -/

/-- Some row that waits names this one as its dependency. -/
def Needed (w : World) (id : TaskId) : Prop := ∃ t ∈ w.table.rows, Waiting t ∧ id ∈ t.dependsOn

/-- The rows this step deletes. -/
def cleans : QLabel → Task → Bool
  | .enter .clearCompleted, t => t.status.terminal
  | .enter (.cleanupOld before), t => t.status.terminal && t.createdAt < before
  | _, _ => false

structure GateStep (s : QState) (l : QLabel) : Prop extends KeepsEnded s l where
  kept : ∀ t ∈ s.world.table.rows, cleans l t = true → t.status = .completed →
    ¬Needed s.world t.id
  known : ∀ row ∈ inserted l, ∀ d ∈ row.dependsOn, s.world.table.status d ≠ none
  errors : served s l = some .pendingWithDeps → ∀ t ∈ s.world.table.rows, t.status = .pending →
    ∀ d ∈ t.dependsOn, s.world.table.status d ≠ some .completedWithErrors

/-- Every waiting row of the table names a row that is there. -/
def DependenciesExist (table : Table) : Prop :=
  ∀ t ∈ table.rows, Waiting t → ∀ d ∈ t.dependsOn, table.status d ≠ none

/-! ## Dependencies that ended -/

theorem EndsAs.not_endedBadly {w : World} {id : TaskId} (h : EndsAs w id .completed) :
    ¬EndedBadly w id := by
  rintro ⟨x, hx, -, hne⟩
  exact hne (h.status x hx)

theorem EndedBadly.not_completed {cfg : Config} {s s' : QState} {id : TaskId}
    (h : EndedBadly s.world id) (hr : QReaches cfg GateStep s s') :
    s'.world.table.status id ≠ some .completed := by
  obtain ⟨x, hx, hterm, hne⟩ := h
  intro hc
  exact hne (((endsAs_of_status hx).reaches hterm (fun _ _ h => h.toKeepsEnded) hr).status _ hc).symm

/-! ## What a step does to the waiting rows -/

section Evolution
variable (E : TaskId → Prop)

/-- The table after a step of a run, in which `E` holds of every row seen to have ended badly. -/
structure Evolves (w w' : World) : Prop where
  next : w.table.next ≤ w'.table.next
  settled : ∀ id, Settled w id → Settled w' id
  ended : ∀ id x, x.terminal = true → EndsAs w id x → EndsAs w' id x
  gone : ∀ id < w.table.next, w.table.status id = none → w'.table.status id = none
  waits : ∀ id row', id < w.table.next → w'.table.find id = some row' → Waiting row' →
    ∃ row, w.table.find id = some row ∧ Waiting row ∧ LinksKept w' row row'
  news : ∀ id row', w.table.next ≤ id → w'.table.find id = some row' →
    ∀ d ∈ row'.dependsOn, w'.table.status d ≠ none
  needed : ∀ id row d x, w.table.find id = some row → Waiting row → d ∈ row.dependsOn →
    w.table.status d = some x → w'.table.status d = none → x ≠ .completed ∧ E d

variable {E}

theorem Evolves.of_table {w w' : World} (h : w'.table = w.table) : Evolves E w w' where
  next := h ▸ le_rfl
  settled _ hs := hs.of_table h
  ended _ _ _ he := he.of_table h
  gone _ _ hn := by rwa [h]
  waits _ row _ hrow hw := ⟨row, h ▸ hrow, hw, .of_links rfl⟩
  news id row hid hrow := by
    have := Table.find_lt hrow
    rw [h] at this
    exact absurd this (Nat.not_lt.mpr hid)
  needed _ _ _ _ _ _ _ hd hn := by
    rw [h, hd] at hn
    cases hn

/-- The rows a served call inserts depend on nothing. -/
theorem serve_inserts {w w' : World} {pc : Pc} {c : Choice} {a : Ans} {id : TaskId} {row : Task}
    (h : serve w pc c = some (a, w')) (hid : w.table.next ≤ id)
    (hrow : w'.table.find id = some row) : row.dependsOn = none := by
  have hlt := Table.find_lt hrow
  unfold serve at h
  split at h <;> simp only [Option.map_eq_some_iff, Option.some.injEq, Prod.mk.injEq,
    reduceCtorEq] at h
  case h_11 task =>
    obtain ⟨-, rfl⟩ := h
    have heq : id = w.table.next := Nat.le_antisymm (Nat.lt_succ_iff.mp hlt) hid
    subst heq
    rw [Table.find_create_self] at hrow
    cases hrow
    rfl
  all_goals first
    | (obtain ⟨-, rfl⟩ := h; exact absurd hlt (Nat.not_lt.mpr hid))
    | (obtain ⟨_, -, -, rfl⟩ := h; exact absurd hlt (Nat.not_lt.mpr hid))

theorem evolves_serve {s : QState} {pid : ℕ} {c : Choice} {p : Activation Pc Ans} {a : Ans}
    {w : World} (hp : s.procs.get pid = some p) (hwf : p.pc.WellFormed)
    (hok : GateStep s (.serve pid c)) (h : serve s.world p.pc c = some (a, w)) :
    Evolves E s.world w where
  next := serve_next h
  settled id hs := hs.serve h hwf fun t ht => hok.prepared t (mem_releasing hp ht)
  ended id x hx he := he.serve hx hp hok.toKeepsEnded h
  gone id hid hn := by rw [serve_status h hid, hn]; rfl
  waits id row' hid hrow' hw := by
    have hlinks := serve_links h hid
    rw [hrow', Option.map_some] at hlinks
    obtain ⟨row, hrow, heq⟩ := Option.map_eq_some_iff.mp hlinks.symm
    refine ⟨row, hrow, ?_, .of_links heq.symm⟩
    by_contra hnot
    have hset : Settled s.world id := settled_of_not_waiting hid fun r hr => by
      cases hr.symm.trans hrow
      exact hnot
    exact (hset.serve h hwf fun t ht => hok.prepared t (mem_releasing hp ht)).not_waiting hrow' hw
  news id row' hid hrow' d hd := by
    rw [serve_inserts h hid hrow'] at hd
    cases hd
  needed id row d x _ _ _ hd hn := by
    rw [serve_status h (Table.status_lt hd), hd] at hn
    cases hn

/-- The rows an entry inserts name rows that are there. -/
theorem enter_inserts {cfg : Config} {s : QState} {e : Entry} {w : World} {nx : Next Pc}
    {id : TaskId} {row : Task} (hok : GateStep s (.enter e))
    (h : enter cfg s.world e = some (w, nx)) (hid : s.world.table.next ≤ id)
    (hrow : w.table.find id = some row) : ∀ d ∈ row.dependsOn, w.table.status d ≠ none := by
  have hlt := Table.find_lt hrow
  cases e with
  | create r =>
    simp only [enter] at h
    split_ifs at h
    cases h
    have heq : id = s.world.table.next := Nat.le_antisymm (Nat.lt_succ_iff.mp hlt) hid
    subst heq
    rw [Table.find_create_self] at hrow
    cases hrow
    intro d hd hn
    have hold := hok.known r rfl d hd
    obtain ⟨x, hx⟩ := Option.ne_none_iff_exists'.mp hold
    rw [Table.status_create_of_lt _ _ (Table.status_lt hx)] at hn
    exact hold hn
  | tick =>
    simp only [enter] at h
    split_ifs at h <;> cases h <;> exact absurd hlt (Nat.not_lt.mpr hid)
  | clearCompleted =>
    cases h
    simp only [enter.deleteFinished] at hlt
    split_ifs at hlt <;> exact absurd hlt (Nat.not_lt.mpr hid)
  | cleanupOld before =>
    cases h
    simp only [enter.deleteFinished] at hlt
    split_ifs at hlt <;> exact absurd hlt (Nat.not_lt.mpr hid)
  | _ =>
    cases h
    exact absurd hlt (Nat.not_lt.mpr hid)

/-- A row that an entry takes away is one that the step cleans. -/
theorem enter_cleans {cfg : Config} {w w' : World} {e : Entry} {nx : Next Pc} {id : TaskId}
    {row : Task} (h : enter cfg w e = some (w', nx)) (hrow : w.table.find id = some row)
    (hgone : w'.table.status id = none) : cleans (.enter e) row = true := by
  have hst := Table.status_of_find hrow
  have deleted : ∀ p : Task → Bool, (enter.deleteFinished cfg w p).table.status id = none →
      p row = true := by
    intro p hnone
    have hdestroy : (w.table.destroy p).status id = none := by
      unfold enter.deleteFinished at hnone
      split_ifs at hnone
      · exact (Table.status_unlink _ _).symm.trans hnone
      · exact hnone
    by_contra hne
    have := Table.find_destroy.mpr ⟨hrow, by simpa using hne⟩
    rw [Table.status_of_find this] at hdestroy
    cases hdestroy
  cases e with
  | create r =>
    simp only [enter] at h
    split_ifs at h
    cases h
    rw [Table.status_create_of_lt _ _ (Table.find_lt hrow), hst] at hgone
    cases hgone
  | tick =>
    simp only [enter] at h
    split_ifs at h <;> cases h <;> cases hst.symm.trans hgone
  | bulkCancel zones operation =>
    cases h
    dsimp only at hgone
    rw [Table.status_update, hrow] at hgone
    cases hgone
  | clearCompleted =>
    cases h
    exact deleted _ hgone
  | cleanupOld before =>
    cases h
    exact deleted _ hgone
  | _ =>
    cases h
    cases hst.symm.trans hgone

theorem evolves_enter {cfg : Config} {s : QState} {e : Entry} {w : World} {nx : Next Pc}
    (hE : ∀ d, EndedBadly s.world d → E d) (hok : GateStep s (.enter e))
    (h : enter cfg s.world e = some (w, nx)) : Evolves E s.world w where
  next := (enter_entered h).next
  settled id hs := hs.entered (enter_entered h)
  ended id x hx he := he.entered hx (enter_entered h)
  gone id hid hn := by
    rcases (enter_entered h).status id hid with heq | ⟨hpend, -⟩ | ⟨x, hx, -, -⟩
    · rw [heq, hn]
    · cases hn.symm.trans hpend
    · cases hn.symm.trans hx
  waits id row' hid hrow' hw := by
    obtain ⟨row, hrow, hlinks⟩ := (enter_entered h).rows id row' hid hrow'
    refine ⟨row, hrow, ?_, hlinks⟩
    by_contra hnot
    have hset : Settled s.world id := settled_of_not_waiting hid fun r hr => by
      cases hr.symm.trans hrow
      exact hnot
    exact (hset.entered (enter_entered h)).not_waiting hrow' hw
  news id row' hid hrow' := enter_inserts hok h hid hrow'
  needed id row d x hrow hw hd hst hgone := by
    obtain ⟨t, ht, rfl⟩ := Option.map_eq_some_iff.mp hst
    have hcleans := enter_cleans h ht hgone
    have hterm : t.status.terminal = true := by
      rcases (enter_entered h).status d (Table.find_lt ht) with heq | ⟨-, hc⟩ | ⟨y, hy, hterm, -⟩
      · rw [heq, hst] at hgone
        cases hgone
      · cases hc.symm.trans hgone
      · cases hst.symm.trans hy
        exact hterm
    have hne : t.status ≠ .completed := by
      intro hc
      refine hok.kept t (Table.find_mem ht) hcleans hc ⟨row, Table.find_mem hrow, hw, ?_⟩
      rwa [Table.find_id ht]
    exact ⟨hne, hE d ⟨t.status, hst, hterm, hne⟩⟩

/-! ## What an activation in the gate knows -/

variable (E)

/-- A waiting row names a row that is there, or one that ended badly. -/
def Gated (w : World) : Prop :=
  ∀ id row, w.table.find id = some row → Waiting row → ∀ d ∈ row.dependsOn,
    w.table.status d = none → E d

/-- The row waits for `d`. -/
def WaitsFor (w : World) (id d : TaskId) : Prop :=
  ∃ row, w.table.find id = some row ∧ Waiting row ∧ d ∈ row.dependsOn

/-- The task no longer waits, or what it waited for ended badly. -/
def Judged (w : World) (t : Task) : Prop := Settled w t.id ∨ ∃ d ∈ t.dependsOn, E d

/-- The task, as it was read with its dependency, is judged or still waits for it. -/
def Vouched (w : World) (t : Task) : Prop := Judged E w t ∨ ∃ d ∈ t.dependsOn, WaitsFor w t.id d

/-- The row completed; should it be gone, nothing waits for it. -/
structure Done (w : World) (d : TaskId) : Prop where
  ended : EndsAs w d .completed
  unneeded : w.table.status d = none → ∀ id, ¬WaitsFor w id d

/-- The task no longer waits, or waits for a completed row. -/
def Released (w : World) (t : Task) : Prop :=
  ∀ d ∈ t.dependsOn, Settled w t.id ∨ (w.table.status d = some .completed ∧ WaitsFor w t.id d)

variable {E} {w w' : World}

/-- A row that waits goes on, or no longer waits, or its dependency is gone. -/
theorem Evolves.waitsFor (h : Evolves E w w') {id d : TaskId} (hw : WaitsFor w id d) :
    Settled w' id ∨ WaitsFor w' id d ∨ w'.table.status d = none := by
  obtain ⟨row, hrow, hwait, hd⟩ := hw
  have hid := Table.find_lt hrow
  by_cases hset : Settled w' id
  · exact .inl hset
  right
  by_contra hnot
  rw [not_or] at hnot
  refine hset (settled_of_not_waiting (hid.trans_le h.next) fun row' hrow' hwait' => ?_)
  obtain ⟨row₀, hrow₀, -, hlinks⟩ := h.waits id row' hid hrow' hwait'
  cases hrow₀.symm.trans hrow
  refine hnot.1 ⟨row', hrow', hwait', hlinks.dependsOn d hd ?_⟩
  obtain ⟨x, hx⟩ := Option.ne_none_iff_exists'.mp hnot.2
  obtain ⟨t, ht, -⟩ := Option.map_eq_some_iff.mp hx
  rw [ht]
  rfl

/-- A row that waits after the step waited before, or was inserted by it. -/
theorem Evolves.waitsFor' (h : Evolves E w w') {id d : TaskId} (hw : WaitsFor w' id d) :
    WaitsFor w id d ∨ w'.table.status d ≠ none := by
  obtain ⟨row', hrow', hwait', hd⟩ := hw
  by_cases hid : id < w.table.next
  · obtain ⟨row, hrow, hwait, hlinks⟩ := h.waits id row' hid hrow' hwait'
    exact .inl ⟨row, hrow, hwait, hlinks.dependsOn' d hd⟩
  · exact .inr (h.news id row' (Nat.not_lt.mp hid) hrow' d hd)

/-- What a row waits for is gone only after it ended badly. -/
theorem Evolves.gone_badly (h : Evolves E w w') (hg : Gated E w) {id d : TaskId}
    (hw : WaitsFor w id d) (hgone : w'.table.status d = none) :
    E d ∧ w.table.status d ≠ some .completed := by
  obtain ⟨row, hrow, hwait, hd⟩ := hw
  cases hst : w.table.status d with
  | none => exact ⟨hg id row hrow hwait d hd hst, nofun⟩
  | some x =>
    obtain ⟨hne, hE⟩ := h.needed id row d x hrow hwait hd hst hgone
    exact ⟨hE, fun heq => hne (Option.some.inj heq)⟩

theorem Gated.evolves (hg : Gated E w) (h : Evolves E w w') : Gated E w' := by
  intro id row' hrow' hwait' d hd hgone
  rcases h.waitsFor' ⟨row', hrow', hwait', hd⟩ with hw | hne
  · exact (h.gone_badly hg hw hgone).1
  · exact absurd hgone hne

theorem Judged.evolves {t : Task} (hj : Judged E w t) (h : Evolves E w w') : Judged E w' t :=
  hj.imp (h.settled _) id

theorem Vouched.evolves {t : Task} (hv : Vouched E w t) (hg : Gated E w) (h : Evolves E w w') :
    Vouched E w' t := by
  rcases hv with hj | ⟨d, hd, hw⟩
  · exact .inl (hj.evolves h)
  · rcases h.waitsFor hw with hs | hw' | hgone
    · exact .inl (.inl hs)
    · exact .inr ⟨d, hd, hw'⟩
    · exact .inl (.inr ⟨d, hd, (h.gone_badly hg hw hgone).1⟩)

theorem Done.evolves {d : TaskId} (hd : Done w d) (hg : Gated E w) (h : Evolves E w w') :
    Done w' d := by
  refine ⟨h.ended _ _ rfl hd.ended, fun hgone id hw' => ?_⟩
  rcases h.waitsFor' hw' with hw | hne
  · have hne := (h.gone_badly hg hw hgone).2
    cases hst : w.table.status d with
    | none => exact hd.unneeded hst id hw
    | some x => exact hne (hst.trans (congrArg some (hd.ended.status x hst)))
  · exact hne hgone

theorem Released.evolves {t : Task} (hr : Released w t) (hg : Gated E w) (h : Evolves E w w') :
    Released w' t := by
  intro d hd
  rcases hr d hd with hs | ⟨hst, hw⟩
  · exact .inl (h.settled _ hs)
  · rcases h.waitsFor hw with hs | hw' | hgone
    · exact .inl hs
    · cases hst' : w'.table.status d with
      | none => exact absurd hst (h.gone_badly hg hw hst').2
      | some x =>
        have := (h.ended d _ rfl (endsAs_of_status hst)).status x hst'
        exact .inr ⟨congrArg some this, hw'⟩
    · exact absurd hst (h.gone_badly hg hw hgone).2

/-! ## The moves of a pass -/

/-- The dependencies found completed, which a pass carries from the gate to the pick. -/
def Pc.carried : Pc → List TaskId
  | .cancelDependents _ ids | .updateParents ids | .pick ids _ => ids
  | _ => []

/-- Neither the query for the pending rows nor any point from there to the pick. -/
def Pc.outside : Pc → Bool
  | .pendingWithDeps | .deps _ | .cancelDependents _ _ | .updateParents _ | .pick _ _ => false
  | _ => true

/-- The moves that lead into the gate or stay in it; every other move leads outside. -/
inductive GateMove : Pc → Reply Ans → Next Pc → Prop
  | asked {pending : List Task} :
      GateMove .pendingWithDeps (.answer (.rows pending)) (.await (.deps pending))
  | judged {pending deps : List Task} :
      GateMove (.deps pending) (.answer (.rows deps)) (.await
        (.cancelDependents (tasksToCancel pending deps) (completedDepIds pending deps)))
  | cancelled {toCancel : List Task} {ids : List TaskId} {a : Ans} {parents : List TaskId} :
      GateMove (.cancelDependents toCancel ids) (.answer a)
        (.call (parents.map .parentTask) (.updateParents ids))
  | ungated {busy : List String} :
      GateMove .pendingWithDeps (.answer (.rows [])) (.await (.pick [] busy))
  | passed {pending deps : List Task} {busy : List String} : tasksToCancel pending deps = [] →
      GateMove (.deps pending) (.answer (.rows deps))
        (.await (.pick (completedDepIds pending deps) busy))
  | updated {ids : List TaskId} {r : Reply Ans} {busy : List String} :
      GateMove (.updateParents ids) r (.await (.pick ids busy))
  | outside {pc : Pc} {r : Reply Ans} {nx : Next Pc} : (∀ x ∈ nx.points, x.outside) →
      GateMove pc r nx

theorem toCascade_outside (w : World) (t : Task) (ids : List TaskId) :
    ∀ x ∈ (toCascade w t ids).2.points, x.outside := by
  unfold toCascade
  split
  · simp [Next.points, Pc.outside]
  · split <;> simp [Next.points, Pc.outside]

theorem afterParent_outside (w : World) (t : Task) (status : Status) :
    ∀ x ∈ (afterParent w t status).2.points, x.outside := by
  unfold afterParent
  dsimp only
  split_ifs <;> simp [Next.points, Pc.outside]

theorem resume_gateMove (w : World) (pc : Pc) (r : Reply Ans) :
    GateMove pc r (resume w pc r).2 := by
  unfold resume
  split
  case h_1 pending =>
    cases pending with
    | nil => exact .ungated
    | cons t ts => exact .asked
  case h_2 pending deps =>
    dsimp only
    split_ifs with hempty
    · exact .passed (List.isEmpty_iff.mp hempty)
    · exact .judged
  case h_3 => exact .cancelled
  case h_4 => exact .updated
  case h_9 =>
    dsimp only
    split <;> exact .outside (by simp [Next.points, Pc.outside, caught])
  case h_11 t status a =>
    dsimp only
    split
    · exact .outside (by simp [Next.points, Pc.outside])
    · exact .outside (afterParent_outside _ _ _)
  case h_12 => exact .outside (afterParent_outside _ _ _)
  case h_28 => exact .outside (toCascade_outside _ _ _)
  case h_29 => exact .outside (toCascade_outside _ _ _)
  all_goals (try split) <;> (try split_ifs)
  all_goals exact .outside (by simp [Next.points, Pc.outside, caught])

theorem gateMove_of_eq {w w' : World} {pc : Pc} {r : Reply Ans} {nx : Next Pc}
    (h : resume w pc r = (w', nx)) : GateMove pc r nx := by
  have := resume_gateMove w pc r
  rwa [h] at this

/-! ## Every run keeps it -/

variable (E) in
structure GateHere (w : World) (x : Point Pc Ans) : Prop where
  wellFormed : x.1.WellFormed
  asked : ∀ ts, x = (.pendingWithDeps, some (.rows ts)) ∨ x.1 = .deps ts →
    ∀ t ∈ ts, Vouched E w t
  judged : ∀ ts deps, x = (.deps ts, some (.rows deps)) →
    (∀ t ∈ tasksToCancel ts deps, Judged E w t) ∧ ∀ d ∈ completedDepIds ts deps, Done w d
  cancelling : ∀ ts ids, x.1 = .cancelDependents ts ids → ∀ t ∈ ts, Judged E w t
  carried : ∀ d ∈ x.1.carried, Done w d
  picked : ∀ ids busy t, x = (.pick ids busy, some (.row (some t))) → Released w t

theorem GateHere.evolves {x : Point Pc Ans} (hx : GateHere E w x) (hg : Gated E w)
    (h : Evolves E w w') : GateHere E w' x where
  wellFormed := hx.wellFormed
  asked ts hts t ht := (hx.asked ts hts t ht).evolves hg h
  judged ts deps heq := ⟨fun t ht => ((hx.judged ts deps heq).1 t ht).evolves h,
    fun d hd => ((hx.judged ts deps heq).2 d hd).evolves hg h⟩
  cancelling ts ids heq t ht := (hx.cancelling ts ids heq t ht).evolves h
  carried d hd := (hx.carried d hd).evolves hg h
  picked ids busy t heq := (hx.picked ids busy t heq).evolves hg h

/-- A point whose call is not answered yet. -/
theorem gateHere_unanswered {pc : Pc} (hwf : pc.WellFormed)
    (hasked : ∀ ts, pc = .deps ts → ∀ t ∈ ts, Vouched E w t)
    (hcancel : ∀ ts ids, pc = .cancelDependents ts ids → ∀ t ∈ ts, Judged E w t)
    (hcarried : ∀ d ∈ pc.carried, Done w d) : GateHere E w (pc, none) where
  wellFormed := hwf
  asked ts h := h.elim (fun h => nomatch congrArg Prod.snd h) (hasked ts)
  judged _ _ h := nomatch congrArg Prod.snd h
  cancelling := hcancel
  carried := hcarried
  picked _ _ _ h := nomatch congrArg Prod.snd h

theorem gateHere_outside {pc : Pc} (hpc : pc.outside) (hwf : pc.WellFormed) :
    GateHere E w (pc, none) := by
  refine gateHere_unanswered hwf ?_ ?_ ?_
  · rintro ts rfl
    cases hpc
  · rintro ts ids rfl
    cases hpc
  · cases pc <;> first | (cases hpc; done) | (intro d hd; cases hd)

/-- The statuses that the second query answers are those of the table. -/
theorem depStatus_select (tb : Table) {ids : List TaskId} {d : TaskId} (hd : d ∈ ids) :
    depStatus (tb.select (fun t => ids.contains t.id)) d = tb.status d := by
  rw [depStatus, Table.status, Table.find, Table.select, List.find?_filter]
  congr 2
  funext t
  by_cases h : t.id = d
  · simp [h, hd]
  · simp [h]

theorem mem_depIds {ts : List Task} {t : Task} {d : TaskId} (ht : t ∈ ts) (hd : d ∈ t.dependsOn) :
    d ∈ depIds ts :=
  List.mem_eraseDups.mpr (List.mem_filterMap.mpr ⟨t, ht, hd⟩)

theorem point_of_registering {s : QState} {l : QLabel} {t : Task} (h : t ∈ registering s l) :
    ∃ pid p ids busy, s.procs.get pid = some p ∧ p.point = (.pick ids busy, some (.row (some t))) := by
  unfold registering at h
  split at h
  case h_1 pid =>
    split at h
    case h_1 ids busy t' caller hp =>
      split_ifs at h
      · cases h
      · obtain rfl := Option.some.inj h
        exact ⟨pid, _, ids, busy, hp, rfl⟩
    case h_2 => cases h
  case h_2 => cases h

theorem waitsFor_of_mem {t : Task} {d : TaskId} (ht : t ∈ w.table.rows) (hpend : t.status = .pending)
    (hd : d ∈ t.dependsOn) : WaitsFor w t.id d :=
  ⟨t, Table.find_eq_some_iff.mpr ⟨ht, rfl⟩, .inl hpend, hd⟩

theorem GateHere.served {pc : Pc} {c : Choice} {a : Ans} (hx : GateHere E w (pc, none))
    (hg : Gated E w) (hE : ∀ d, EndedBadly w d → E d) (hev : Evolves E w w')
    (h : serve w pc c = some (a, w')) : GateHere E w' (pc, some a) := by
  have hkept := hx.evolves hg hev
  refine ⟨hx.wellFormed, ?_, ?_, hkept.cancelling, hkept.carried, ?_⟩
  · rintro ts (heq | heq)
    · cases heq
      cases c <;> simp only [serve, Option.some.injEq, Prod.mk.injEq, Ans.rows.injEq,
        reduceCtorEq] at h
      obtain ⟨rfl, rfl⟩ := h
      intro t ht
      obtain ⟨hmem, hp⟩ := List.mem_filter.mp ht
      simp only [Bool.and_eq_true, decide_eq_true_eq] at hp
      obtain ⟨d, hd⟩ := Option.isSome_iff_exists.mp hp.2
      exact .inr ⟨d, hd, waitsFor_of_mem hmem hp.1 hd⟩
    · exact hkept.asked ts (.inr heq)
  · rintro ts deps heq
    cases heq
    have hasked := hx.asked ts (.inr rfl)
    cases c <;> simp only [serve, Option.some.injEq, Prod.mk.injEq, Ans.rows.injEq,
      reduceCtorEq] at h
    obtain ⟨rfl, rfl⟩ := h
    refine ⟨fun t ht => ?_, fun d hd => ?_⟩
    · obtain ⟨hmem, hfail⟩ := List.mem_filter.mp ht
      rcases hasked t hmem with hj | ⟨d, hd, hw⟩
      · exact hj
      · refine .inr ⟨d, hd, ?_⟩
        rw [depFailed, Option.mem_def.mp hd, Option.bind_some,
          depStatus_select _ (mem_depIds hmem hd)] at hfail
        obtain ⟨row, hrow, hwait, hd'⟩ := hw
        split at hfail
        case h_1 hst => exact hE d ⟨_, hst, rfl, by decide⟩
        case h_2 hst => exact hE d ⟨_, hst, rfl, by decide⟩
        case h_3 hst => exact hg _ row hrow hwait d hd' hst
        case h_4 => cases hfail
    · obtain ⟨hmem, hst⟩ := List.mem_filter.mp hd
      rw [depStatus_select _ hmem, decide_eq_true_eq] at hst
      exact ⟨endsAs_of_status hst, fun hn => by cases hst.symm.trans hn⟩
  · rintro ids busy t heq
    cases heq
    have hcarried := hx.carried
    cases c <;> simp only [serve, Option.map_eq_some_iff, Prod.mk.injEq, Ans.row.injEq,
      reduceCtorEq] at h
    obtain ⟨o, ho, rfl, rfl⟩ := h
    obtain ⟨hmem, hp⟩ := mem_of_findOne ho
    simp only [pickable, Bool.and_eq_true, decide_eq_true_eq] at hp
    intro d hd
    have hw := waitsFor_of_mem hmem hp.1.1 hd
    have hin : d ∈ ids := by
      have := hp.1.2
      rw [Option.mem_def.mp hd] at this
      simpa using this
    have hdone := hcarried d hin
    cases hst : w.table.status d with
    | none => exact absurd hw (hdone.unneeded hst _)
    | some x => exact .inr ⟨congrArg some (hdone.ended.status x hst), hw⟩

/-- Where a resumed activation goes, the gate's knowledge goes with it. -/
theorem GateHere.resumed {pc : Pc} {r : Reply Ans} {nx : Next Pc}
    (hx : GateHere E w (pc, (Phase.ready r).seen)) (h : GateMove pc r nx)
    (hwf : ∀ x ∈ nx.points, x.WellFormed) : ∀ x ∈ nx.points, GateHere E w (x, none) := by
  have outside : ∀ x ∈ nx.points, x.outside → GateHere E w (x, none) :=
    fun x hxs hg => gateHere_outside hg (hwf x hxs)
  have pick : ∀ ids busy, (∀ d ∈ ids, Done w d) → GateHere E w (.pick ids busy, none) :=
    fun ids busy hdone => gateHere_unanswered trivial (fun _ h => nomatch h) (fun _ _ h => nomatch h)
      hdone
  cases h with
  | outside hout => exact fun x hxs => outside x hxs (hout x hxs)
  | @asked pending =>
    intro x hxs
    cases List.mem_singleton.mp hxs
    refine gateHere_unanswered trivial ?_ (fun _ _ h => nomatch h) (fun _ h => nomatch h)
    rintro ts ⟨⟩
    exact hx.asked _ (.inl rfl)
  | @judged pending deps =>
    intro x hxs
    cases List.mem_singleton.mp hxs
    obtain ⟨hj, hd⟩ := hx.judged _ _ rfl
    refine gateHere_unanswered trivial (fun _ h => nomatch h) ?_ hd
    rintro ts ids ⟨⟩
    exact hj
  | @cancelled toCancel ids a parents =>
    intro x hxs
    rcases List.mem_cons.mp hxs with rfl | hmem
    · exact gateHere_unanswered trivial (fun _ h => nomatch h) (fun _ _ h => nomatch h) hx.carried
    · obtain ⟨p, -, rfl⟩ := List.mem_map.mp hmem
      exact outside _ hxs rfl
  | ungated =>
    intro x hxs
    cases List.mem_singleton.mp hxs
    exact pick _ _ (fun _ h => nomatch h)
  | passed =>
    intro x hxs
    cases List.mem_singleton.mp hxs
    exact pick _ _ (hx.judged _ _ rfl).2
  | updated =>
    intro x hxs
    cases List.mem_singleton.mp hxs
    exact pick _ _ hx.carried

/-- A step of a run in which `E` holds of every row seen to have ended badly. -/
def GateStepSeeing (E : TaskId → Prop) (s : QState) (l : QLabel) : Prop :=
  GateStep s l ∧ ∀ d, EndedBadly s.world d → E d

theorem gate_coherent (cfg : Config) :
    Coherent (program cfg) (GateStepSeeing E) (Gated E) (GateHere E) fun _ _ => True where
  symm _ _ _ := trivial
  serve s pid c p a w' hi hp hseen hok h := by
    have hx : GateHere E s.world (p.pc, none) := by
      have := hi.here pid p hp
      rwa [Activation.point, hseen] at this
    have hev : Evolves E s.world w' := evolves_serve hp hx.wellFormed hok.1 h
    refine ⟨hi.world.evolves hev, ?_, List.pairwise_singleton _ _, fun q p' _ hp' =>
      ⟨(hi.here q p' hp').evolves hi.world hev, fun _ _ => trivial⟩⟩
    intro x hxs
    rw [List.mem_singleton.mp hxs]
    exact hx.served hi.world hok.2 hev h
  resume s pid p r w' nx hi hp hphase _ h := by
    have hx : GateHere E s.world (p.pc, (Phase.ready r).seen) := by
      have := hi.here pid p hp
      rwa [Activation.point, hphase] at this
    have hwf : ∀ x ∈ nx.points, x.WellFormed := by
      have := wellFormed_of_resume s.world r hx.wellFormed
      rwa [show resume s.world _ r = (w', nx) from h] at this
    have hev : Evolves E s.world w' := .of_table (resumed_table (resumed_of_eq h)).1
    refine ⟨hi.world.evolves hev, ?_, List.pairwise_of_forall fun _ _ => trivial, fun q p' _ hp' =>
      ⟨(hi.here q p' hp').evolves hi.world hev, fun _ _ => trivial⟩⟩
    intro x hxs
    obtain ⟨pc, hpc, rfl⟩ := List.mem_map.mp hxs
    exact (hx.resumed (gateMove_of_eq h) hwf pc hpc).evolves hi.world hev
  enter s e w' nx hi hok h := by
    have hev : Evolves E s.world w' := evolves_enter hok.2 hok.1 h
    refine ⟨hi.world.evolves hev, ?_, List.pairwise_of_forall fun _ _ => trivial, fun q p' _ hp' =>
      ⟨(hi.here q p' hp').evolves hi.world hev, fun _ _ => trivial⟩⟩
    intro x hxs
    obtain ⟨pc, hpc, rfl⟩ := List.mem_map.mp hxs
    obtain rfl | ⟨id, rfl | rfl⟩ := (enter_entered h).points pc hpc
    · exact gateHere_unanswered trivial (by rintro _ ⟨⟩) (by rintro _ _ ⟨⟩) (by rintro _ ⟨⟩)
    · exact gateHere_outside rfl trivial
    · exact gateHere_outside rfl trivial

theorem gate_reaches {cfg : Config} {table : Table} {s : QState} (htable : DependenciesExist table)
    (h : QReaches cfg (GateStepSeeing E) (boot table) s) :
    Inv (Gated E) (GateHere E) (fun _ _ => True) s := by
  refine (gate_coherent cfg).reaches (Inv.start ?_) h
  intro id row hrow hwait d hd hgone
  exact absurd hgone (htable row (Table.find_mem hrow) hwait d hd)

end Evolution

/-! ## A pass cancels what it has to -/

/-- The row failed or was cancelled, and may be gone. -/
def Rejected (w : World) (d : TaskId) : Prop := EndsAs w d .failed ∨ EndsAs w d .cancelled

/-- What a pass that has read `t` as pending does about it. -/
def Pursues (w : World) (t : Task) : Point Pc Ans → Prop
  | (.pendingWithDeps, a) => ∃ ts, a = some (.rows ts) ∧ t ∈ ts
  | (.deps ts, a) => t ∈ ts ∧ ∀ deps, a = some (.rows deps) → t ∈ tasksToCancel ts deps
  | (.cancelDependents ts _, a) => t ∈ ts ∧ (a.isSome → EndsAs w t.id .cancelled)
  | (.updateParents _, _) | (.pick _ _, _) => EndsAs w t.id .cancelled
  | _ => True

/-- A pass pursues the cancellation of `t`, whose dependency was rejected. -/
structure Pursued (t : Task) (d : TaskId) (w : World) (x : Point Pc Ans) : Prop where
  minted : t.id < w.table.next
  rejected : Rejected w d
  here : Pursues w t x

section Pursuit
variable {w w' : World} {t : Task} {d : TaskId}

theorem Rejected.status {x : Status} (h : Rejected w d) (hx : w.table.status d = some x) :
    x = .failed ∨ x = .cancelled :=
  h.imp (fun h => h.status x hx) fun h => h.status x hx

theorem pursues_outside {pc : Pc} {a : Option Ans} (hpc : pc.outside) : Pursues w t (pc, a) := by
  cases pc <;> trivial

theorem Pursues.of_ended {x : Point Pc Ans} (h : Pursues w t x)
    (hend : EndsAs w t.id .cancelled → EndsAs w' t.id .cancelled) : Pursues w' t x := by
  obtain ⟨pc, a⟩ := x
  cases pc with
  | cancelDependents ts ids => exact ⟨h.1, fun ha => hend (h.2 ha)⟩
  | updateParents ids => exact hend h
  | pick ids busy => exact hend h
  | pendingWithDeps => exact h
  | deps ts => exact h
  | _ => trivial

theorem next_le_of_step {cfg : Config} {s s' : QState} {l : QLabel}
    (h : step (program cfg) s l = some s') : s.world.table.next ≤ s'.world.table.next := by
  cases steps_of_step h with
  | serve _ _ hserve => exact serve_next hserve
  | fail _ _ hw => exact hw ▸ le_rfl
  | resume _ _ hres => exact (resumed_table (resumed_of_eq hres)).1 ▸ le_rfl
  | enter hent => exact (enter_entered hent).next

theorem Pursued.step {cfg : Config} {s s' : QState} {l : QLabel} {x : Point Pc Ans}
    (h : Pursued t d s.world x) (hok : GateStep s l) (hst : step (program cfg) s l = some s') :
    Pursued t d s'.world x where
  minted := h.minted.trans_le (next_le_of_step hst)
  rejected := h.rejected.imp (fun h => h.step rfl hok.toKeepsEnded hst) fun h => h.step rfl hok.toKeepsEnded hst
  here := h.here.of_ended fun he => he.step rfl hok.toKeepsEnded hst

/-- A row whose dependency was rejected is among those to cancel. -/
theorem mem_tasksToCancel {ts : List Task} (ht : t ∈ ts) (hd : d ∈ t.dependsOn)
    (hrej : Rejected w d) :
    t ∈ tasksToCancel ts (w.table.select (fun t => (depIds ts).contains t.id)) := by
  refine List.mem_filter.mpr ⟨ht, ?_⟩
  rw [depFailed, Option.mem_def.mp hd, Option.bind_some, depStatus_select _ (mem_depIds ht hd)]
  cases hst : w.table.status d with
  | none => rfl
  | some x => rcases hrej.status hst with rfl | rfl <;> rfl

/-- The pass is answered: it reads the rejected dependency, or has cancelled the row. -/
theorem Pursues.served {pc : Pc} {c : Choice} {a : Ans} (hminted : t.id < w.table.next)
    (hd : d ∈ t.dependsOn) (hrej : Rejected w d) (hx : Pursues w t (pc, none))
    (hend : EndsAs w t.id .cancelled → EndsAs w' t.id .cancelled)
    (h : serve w pc c = some (a, w')) : Pursues w' t (pc, some a) := by
  cases pc with
  | pendingWithDeps =>
    obtain ⟨ts, hts, -⟩ := hx
    cases hts
  | deps ts =>
    refine ⟨hx.1, ?_⟩
    rintro deps ⟨⟩
    cases c <;> simp only [serve, Option.some.injEq, Prod.mk.injEq, Ans.rows.injEq,
      reduceCtorEq] at h
    obtain ⟨rfl, rfl⟩ := h
    exact mem_tasksToCancel hx.1 hd hrej
  | cancelDependents ts ids =>
    refine ⟨hx.1, fun _ => ⟨hminted.trans_le (serve_next h), fun y hy => ?_⟩⟩
    rw [serve_status h hminted, writes, if_pos (List.mem_map_of_mem hx.1)] at hy
    obtain ⟨z, -, rfl⟩ := Option.map_eq_some_iff.mp hy
    rfl
  | updateParents ids => exact hend hx
  | pick ids busy => exact hend hx
  | _ => trivial

/-- The pass goes on: to its next query, to the bulk cancel, or past it. -/
theorem Pursues.resumed {pc : Pc} {r : Reply Ans} {nx : Next Pc} {x : Pc}
    (h : Pursues w t (pc, (Phase.ready r).seen)) (hmove : GateMove pc r nx)
    (hx : nx.points.head? = some x) : Pursues w t (x, none) := by
  cases hmove with
  | asked =>
    cases hx
    obtain ⟨ts, hts, ht⟩ := h
    cases hts
    exact ⟨ht, nofun⟩
  | judged =>
    cases hx
    exact ⟨h.2 _ rfl, nofun⟩
  | cancelled =>
    cases hx
    exact h.2 rfl
  | ungated =>
    obtain ⟨ts, hts, ht⟩ := h
    cases hts
    cases ht
  | passed hnone =>
    have := h.2 _ rfl
    rw [hnone] at this
    cases this
  | updated =>
    cases hx
    exact h
  | outside hout => exact pursues_outside (hout x (List.mem_of_head? hx))

theorem pursued_reaches {cfg : Config} {s s' : QState} {pid : ℕ} {p' : Activation Pc Ans}
    (hd : d ∈ t.dependsOn) (h : QReaches cfg GateStep s s') (hpid : pid < s.next)
    (hp : ∀ p, s.procs.get pid = some p → Pursued t d s.world p.point)
    (hp' : s'.procs.get pid = some p') : Pursued t d s'.world p'.point := by
  refine follow_reaches ?_ ?_ ?_ h hpid hp p' hp'
  · exact fun _ _ _ _ hok hst hx => hx.step hok hst
  · intro a c p b w hp hok hserve hx
    have hend : ∀ id x, x.terminal = true → EndsAs a.world id x → EndsAs w id x :=
      fun id x hx he => he.serve hx hp hok.toKeepsEnded hserve
    exact ⟨hx.minted.trans_le (serve_next hserve),
      hx.rejected.imp (hend _ _ rfl) (hend _ _ rfl),
      hx.here.served hx.minted hd hx.rejected (hend _ _ rfl) hserve⟩
  · intro w pc r w' nx x hres hx hhead
    have htable := (resumed_table (resumed_of_eq hres)).1
    exact ⟨htable ▸ hx.minted, hx.rejected.imp (·.of_table htable) (·.of_table htable),
      (hx.here.resumed (gateMove_of_eq hres) hhead).of_ended (·.of_table htable)⟩

end Pursuit

/-! ## The gate -/

theorem gate_unblocked {cfg : Config} {table : Table} {s u v : QState} {pid : ℕ} {c : Choice}
    {p p' : Activation Pc Ans} {ids : List TaskId} {busy : List String} {t : Task} {d : TaskId}
    (hu : QReaches cfg GateStep (boot table) u) (hok : GateStep u (.serve pid c))
    (hp : u.procs.get pid = some p) (hpc : p.pc = .pendingWithDeps)
    (hst : step (program cfg) u (.serve pid c) = some v) (hv : QReaches cfg GateStep v s)
    (hp' : s.procs.get pid = some p') (hpc' : p'.pc = .pick ids busy)
    (ht : t ∈ u.world.table.rows) (hpend : t.status = .pending) (hd : d ∈ t.dependsOn)
    (hbad : EndedBadly u.world d) : EndsAs s.world t.id .cancelled := by
  have hfresh : pid < u.next := (base_reaches (fun _ _ hok => hok.toCurrent) hu).fresh pid p hp
  have hrej : Rejected u.world d := by
    obtain ⟨x, hx, hterm, hne⟩ := hbad
    have herr := hok.errors (by rw [← hpc]; exact mem_served hp) t ht hpend d hd
    cases x with
    | failed => exact .inl (endsAs_of_status hx)
    | cancelled => exact .inr (endsAs_of_status hx)
    | completed => exact absurd rfl hne
    | completedWithErrors => exact absurd hx herr
    | _ => cases hterm
  cases steps_of_step hst with
  | @serve _ _ p₀ a hp₀ _ hserve hmoved hnext _ =>
    cases hp.symm.trans hp₀
    rw [hpc] at hserve hmoved
    cases c <;> simp only [program, serve, Option.some.injEq, Prod.mk.injEq, reduceCtorEq] at hserve
    obtain ⟨rfl, hw⟩ := hserve
    have hpursued := pursued_reaches hd hv (hnext ▸ hfresh) (fun p₁ hp₁ => ?_) hp'
    · have := hpursued.here
      rw [Activation.point, hpc'] at this
      exact this
    · obtain ⟨-, hpoint⟩ := (hmoved.follow hfresh hp₁).resolve_left fun h => h.1 rfl
      rw [← Option.some.inj hpoint, ← hw]
      refine ⟨u.world.table.fresh t ht, hrej, _, rfl, List.mem_filter.mpr ⟨ht, ?_⟩⟩
      simp [hpend, Option.mem_def.mp hd]

/-- The dependency of a row that the gate cancels ended badly in the part of the run before `u` or
in the part after it, so it had not completed in `u`. -/
theorem gate_cancelled {cfg : Config} {table : Table} {s u : QState} {pid : ℕ}
    {p : Activation Pc Ans} {toCancel : List Task} {ids : List TaskId} {t : Task}
    (htable : DependenciesExist table) (hu : QReaches cfg GateStep (boot table) u)
    (hs : QReaches cfg GateStep u s) (hp : s.procs.get pid = some p)
    (hpoint : p.point = (.cancelDependents toCancel ids, none)) (ht : t ∈ toCancel)
    (hpend : s.world.table.status t.id = some .pending) : ∃ d ∈ t.dependsOn,
      (∃ v, QReaches cfg GateStep (boot table) v ∧ QReaches cfg GateStep v s ∧
        EndedBadly v.world d) ∧ u.world.table.status d ≠ some .completed := by
  let E : TaskId → Prop := fun d => ∃ v, EndedBadly v.world d ∧
    (QReaches cfg GateStep (boot table) v ∧ QReaches cfg GateStep v u ∨
      QReaches cfg GateStep u v ∧ QReaches cfg GateStep v s)
  have hbefore : QReaches cfg (GateStepSeeing E) (boot table) u :=
    hu.between.mono fun a l ⟨hok, hra, hau⟩ => ⟨hok, fun d hd => ⟨a, hd, .inl ⟨hra, hau⟩⟩⟩
  have hafter : QReaches cfg (GateStepSeeing E) u s :=
    hs.between.mono fun a l ⟨hok, hua, has⟩ => ⟨hok, fun d hd => ⟨a, hd, .inr ⟨hua, has⟩⟩⟩
  have hi := gate_reaches htable (hbefore.trans hafter)
  have hj := (hi.here pid p hp).cancelling toCancel ids (by rw [hpoint]) t ht
  obtain ⟨d, hd, v, hbad, ⟨hbv, hvu⟩ | ⟨huv, hvs⟩⟩ := hj.resolve_left fun h => h.pending hpend
  · exact ⟨d, hd, ⟨v, hbv, hvu.trans hs, hbad⟩, hbad.not_completed hvu⟩
  · refine ⟨d, hd, ⟨v, hu.trans huv, hvs, hbad⟩, fun hc => ?_⟩
    exact ((endsAs_of_status hc).reaches rfl (fun _ _ h => h.toKeepsEnded) huv).not_endedBadly hbad

instance (w : World) (id : TaskId) : Decidable (Needed w id) :=
  inferInstanceAs (Decidable (∃ t ∈ w.table.rows, Waiting t ∧ id ∈ t.dependsOn))

instance (table : Table) : Decidable (DependenciesExist table) :=
  inferInstanceAs (Decidable (∀ t ∈ table.rows, Waiting t → ∀ d ∈ t.dependsOn, table.status d ≠ none))

instance (s : QState) (l : QLabel) : Decidable (GateStep s l) :=
  decidable_of_iff
    (KeepsEnded s l ∧
      (∀ t ∈ s.world.table.rows, cleans l t = true → t.status = .completed →
        ¬Needed s.world t.id) ∧
      (∀ row ∈ inserted l, ∀ d ∈ row.dependsOn, s.world.table.status d ≠ none) ∧
      (served s l = some .pendingWithDeps → ∀ t ∈ s.world.table.rows, t.status = .pending →
        ∀ d ∈ t.dependsOn, s.world.table.status d ≠ some .completedWithErrors))
    ⟨fun ⟨h₁, h₂, h₃, h₄⟩ => ⟨h₁, h₂, h₃, h₄⟩,
      fun h => ⟨h.toKeepsEnded, h.kept, h.known, h.errors⟩⟩

/-- A dispatched child of a running anchor ends, and the anchor is rolled up: the dispatch is the
activation `pid`, the rollup `pid + 1`. -/
def endLabels (pid : ℕ) (success : Bool) : List QLabel :=
  [.serve pid (.executed (some { success }) 100), .resume pid, .serve pid .only, .resume pid,
    .serve pid .only, .resume pid, .serve (pid + 1) .only, .resume (pid + 1), .serve (pid + 1) .only,
    .resume (pid + 1), .serve (pid + 1) .only, .resume (pid + 1), .resume pid]

/-- A tick that reads the dependencies, and then picks the row. -/
def gateLabels (pid : ℕ) (id : TaskId) : List QLabel :=
  [.enter .tick, .serve pid .only, .resume pid, .serve pid .only, .resume pid,
    .serve pid (.row (some id)), .resume pid, .serve pid .only, .resume pid]

/-- The row that waits for the anchor of the two children. -/
def dependentRow : Task := { id := 3, zoneName := "db", operation := "start", dependsOn := some 0 }

/-- A running anchor with a child that succeeds and a child that fails, and a row that waits for
the anchor. -/
def partialAnchorLabels : List QLabel :=
  [.enter (.create { id := 0, zoneName := "web", operation := "zone_sync_parent", status := .running }),
    .enter (.create { id := 1, zoneName := "web", operation := "zone_sync", parentTaskId := some 0 }),
    .enter (.create { id := 2, zoneName := "web", operation := "zone_sync", parentTaskId := some 0 }),
    .enter (.create dependentRow)] ++
    gateLabels 4 1 ++ endLabels 4 true ++ gateLabels 6 2 ++ endLabels 6 false ++ [.enter .tick]

/-- Two rows, the second waiting for the first: both are dispatched, in this order. -/
def chainLabels : List QLabel :=
  [.enter (.create { id := 0, zoneName := "web", operation := "stop" }),
    .enter (.create { id := 1, zoneName := "web", operation := "start", dependsOn := some 0 })] ++
    gateLabels 2 0 ++ (endLabels 2 true).take 6 ++ gateLabels 3 1

end ZoneweaverAgent.TaskQueue
