import ZoneweaverAgent.TaskQueue

/-!
# What a step of the queue can do

Serving a call changes rows only: `serve_status` says which status it writes where. Resuming an
activation changes the registries and the history only: `Resumed` lists the moves that do, and every
other move leaves them alone. The invariants of the queue are proved from these two facts.
-/

namespace ZoneweaverAgent.TaskQueue
open EventLoop

/-! ## Serving -/

/-- The status that serving a point writes into the row `id`, should the row exist. -/
def writes (w : World) (id : TaskId) : Pc → Option Status
  | .cancelDependents toCancel _ => if id ∈ toCancel.map Task.id then some .cancelled else none
  | .markRunning task => if id = task.id then some .running else none
  | .finish task _ data => if id = task.id then data.status else none
  | .updateParent parent _ update => if id = parent.id then update.status else none
  | .flip task _ =>
    if id = task.id ∧ w.table.status id = some task.status then some .cancelled else none
  | .close task => if id = task.id then some .cancelled else none
  | .uploaded task => if id = task.id then some .pending else none
  | _ => none

/-- The two worlds differ in the table and the clock at most. -/
structure SameRegistries (w w' : World) : Prop where
  runningTasks : w'.runningTasks = w.runningTasks
  runningCategories : w'.runningCategories = w.runningCategories
  taskControls : w'.taskControls = w.taskControls
  history : w'.history = w.history

theorem serve_registries {w w' : World} {pc : Pc} {c : Choice} {a : Ans}
    (h : serve w pc c = some (a, w')) : SameRegistries w w' := by
  unfold serve at h
  split at h <;> simp only [Option.map_eq_some_iff, Option.some.injEq, Prod.mk.injEq,
    reduceCtorEq] at h
  all_goals first
    | (obtain ⟨-, rfl⟩ := h; exact ⟨rfl, rfl, rfl, rfl⟩)
    | (obtain ⟨_, -, -, rfl⟩ := h; exact ⟨rfl, rfl, rfl, rfl⟩)

theorem serve_next {w w' : World} {pc : Pc} {c : Choice} {a : Ans}
    (h : serve w pc c = some (a, w')) : w.table.next ≤ w'.table.next := by
  unfold serve at h
  split at h <;> simp only [Option.map_eq_some_iff, Option.some.injEq, Prod.mk.injEq,
    reduceCtorEq] at h
  all_goals first
    | (obtain ⟨-, rfl⟩ := h; exact le_rfl)
    | (obtain ⟨_, -, -, rfl⟩ := h; exact le_rfl)
    | (obtain ⟨-, rfl⟩ := h; exact Nat.le_succ _)

theorem map_getD_none (o : Option Status) : o = o.map (none : Option Status).getD := by
  cases o <;> rfl

theorem status_updateId (tb : Table) (id id' : TaskId) (u : Patch) :
    (tb.updateId id u).status id' =
      (tb.status id').map (if id' = id then u.status else none).getD := by
  rw [Table.status_updateId]
  by_cases h : id' = id
  · rw [if_pos h, if_pos h]
  · rw [if_neg h, if_neg h]
    exact map_getD_none _

theorem status_update_of_find {tb : Table} {p : Task → Bool} {u : Patch} {id : TaskId}
    {x : Option Status} (h : ∀ t, tb.find id = some t → (if p t then u.status else none) = x) :
    (tb.update p u).status id = (tb.status id).map x.getD := by
  rw [Table.status_update, Table.status, Option.map_map]
  cases hf : tb.find id with
  | none => rfl
  | some t =>
    rw [← h t hf]
    by_cases hp : p t <;> simp [hp]

theorem serve_status {w w' : World} {pc : Pc} {c : Choice} {a : Ans}
    (h : serve w pc c = some (a, w')) {id : TaskId} (hid : id < w.table.next) :
    w'.table.status id = (w.table.status id).map (writes w id pc).getD := by
  unfold serve at h
  split at h <;> simp only [Option.map_eq_some_iff, Option.some.injEq, Prod.mk.injEq,
    reduceCtorEq] at h
  case h_3 toCancel completed =>
    obtain ⟨-, rfl⟩ := h
    apply status_update_of_find
    intro t ht
    simp [writes, Table.find_id ht]
  case h_16 task attempt =>
    obtain ⟨-, rfl⟩ := h
    apply status_update_of_find
    intro t ht
    simp [writes, Table.status_of_find ht, Table.find_id ht]
  all_goals first
    | (obtain ⟨-, rfl⟩ := h)
    | (obtain ⟨_, -, -, rfl⟩ := h)
  all_goals first
    | exact map_getD_none _
    | exact status_updateId _ _ _ _
    | exact (Table.status_create_of_lt _ _ hid).trans (map_getD_none _)

theorem serve_links {w w' : World} {pc : Pc} {c : Choice} {a : Ans}
    (h : serve w pc c = some (a, w')) {id : TaskId} (hid : id < w.table.next) :
    (w'.table.find id).map Task.links = (w.table.find id).map Task.links := by
  unfold serve at h
  split at h <;> simp only [Option.map_eq_some_iff, Option.some.injEq, Prod.mk.injEq,
    reduceCtorEq] at h
  all_goals first
    | (obtain ⟨-, rfl⟩ := h)
    | (obtain ⟨_, -, -, rfl⟩ := h)
  all_goals first
    | rfl
    | exact Table.links_update _ _ _ _
    | exact congrArg _ (Table.find_create_of_lt _ _ hid)

/-! ## Resuming -/

/-- The task of the dispatch that stands here, from its registration to the release of its
category. -/
def Pc.dispatched : Pc → Option Task
  | .markRunning t | .execute t | .finish t _ _ | .finalize t _ | .taskParent t _ => some t
  | _ => none

/-- The row that is being closed out here. -/
def Pc.closing : Pc → Option Task
  | .close t => some t
  | _ => none

/-- The task whose registration is in force here: its executor is not back yet. -/
def Pc.registered : Pc → Option Task
  | .markRunning t | .execute t => some t
  | _ => none

/-- The task whose in-flight entry is this dispatch's own here. -/
def Pc.entered : Pc → Option Task
  | .markRunning t | .execute t | .finish t _ _ | .finalize t _ => some t
  | _ => none

/-- Neither part of a dispatch nor about to close a row. -/
def Pc.Plain (pc : Pc) : Prop := pc.dispatched = none ∧ pc.closing = none

instance (pc : Pc) : Decidable pc.Plain := inferInstanceAs (Decidable (_ ∧ _))

/-- The moves of an activation that touch the registries or the history, or that lead into a
dispatch or a close-out; every other move is `plain`. -/
inductive Resumed (w : World) : Pc → Reply Ans → World → Next Pc → Prop
  | plain {pc : Pc} {r : Reply Ans} {nx : Next Pc} :
      pc.dispatched = none ∨ (∃ t status data, pc = .finish t status data ∧ ∀ a, r ≠ .answer a) ∨
        (∃ t status, pc = .finalize t status ∧ ∀ a, r ≠ .answer a) →
      (∀ x ∈ nx.points, x.Plain) → Resumed w pc r w nx
  | answered {pc : Pc} {r : Reply Ans} {nx : Next Pc} {id : TaskId} {was : Status} :
      pc.dispatched = none → (∀ x ∈ nx.points, x.Plain) →
      Resumed w pc r (w.record (.cancelAnswered id false was)) nx
  | registered {completed : List TaskId} {busy : List String} {t : Task} :
      w.held (operationCategory t.operation) = false →
      Resumed w (.pick completed busy) (.answer (.row (some t))) (w.register t)
        (.await (.markRunning t))
  | started {t : Task} {a : Ans} :
      Resumed w (.markRunning t) (.answer a)
        ((w.acquire (operationCategory t.operation)).record (.started t.id)) (.await (.execute t))
  | unmarked {t : Task} {r : Reply Ans} : (∀ a, r ≠ .answer a) →
      Resumed w (.markRunning t) r ((w.deleteControl t.id).deleteRunning t.id)
        (.await .lastRunningTask)
  | ended {t : Task} {r : Reply Ans} {status : Status} :
      endStatus ((w.taskControls.get t.id).elim false Control.cancelled) (executed r).1 =
        some status →
      Resumed w (.execute t) r (w.deleteControl t.id)
        (.await (.finish t status (updateData w.clock status
          ((w.taskControls.get t.id).elim false Control.cancelled) (executed r).1 (executed r).2)))
  | noResult {t : Task} {r : Reply Ans} :
      endStatus ((w.taskControls.get t.id).elim false Control.cancelled) (executed r).1 = none →
      Resumed w (.execute t) r (w.deleteControl t.id) (.await .lastRunningTask)
  | finished {t : Task} {status : Status} {data : Patch} {a : Ans} :
      Resumed w (.finish t status data) (.answer a) w (.await (.finalize t status))
  | finalized {t : Task} {status : Status} {a : Ans} {p : TaskId} :
      Resumed w (.finalize t status) (.answer a) (w.deleteRunning t.id)
        (.call [.parentTask p] (.taskParent t status))
  | finalizedLast {t : Task} {status : Status} {a : Ans} {nx : Next Pc} :
      (∀ x ∈ nx.points, x.Plain) →
      Resumed w (.finalize t status) (.answer a)
        ((w.deleteRunning t.id).release (operationCategory t.operation)) nx
  | released {t : Task} {status : Status} {r : Reply Ans} {nx : Next Pc} :
      (∀ x ∈ nx.points, x.Plain) →
      Resumed w (.taskParent t status) r (w.release (operationCategory t.operation)) nx
  | unlocked {t : Task} :
      Resumed w .lastRunningTask (.answer (.row (some t)))
        (w.release (operationCategory t.operation)) (.finish false)
  | cancelMarked {id : TaskId} {attempt : ℕ} {t : Task} :
      t.status = .running → w.taskControls.has id = true →
      Resumed w (.cancelFind id attempt) (.answer (.row (some t)))
        ((w.markCancelled id).record (.cancelAnswered id true .running)) (.finish false)
  | closing {id : TaskId} {attempt : ℕ} {t : Task} :
      t.status = .running → w.taskControls.has id = false →
      Resumed w (.cancelFind id attempt) (.answer (.row (some t))) w (.await (.close t))
  | closed {t : Task} {a : Ans} :
      Resumed w (.close t) (.answer a) (w.deleteRunning t.id) (.await (.children t))

theorem caught_plain (w : World) : ∀ x ∈ (caught w).2.points, x.Plain := by
  simp [caught, Next.points, Pc.Plain, Pc.dispatched, Pc.closing]

theorem toPick_plain (w : World) (completed : List TaskId) :
    ∀ x ∈ (toPick w completed).2.points, x.Plain := by
  simp [toPick, Next.points, Pc.Plain, Pc.dispatched, Pc.closing]

theorem afterParent_spec (w : World) (t : Task) (status : Status) :
    ∃ nx, afterParent w t status = (w.release (operationCategory t.operation), nx) ∧
      ∀ x ∈ nx.points, x.Plain := by
  unfold afterParent
  split_ifs
  · exact ⟨_, rfl, by simp [Next.points, Pc.Plain, Pc.dispatched, Pc.closing]⟩
  · exact ⟨_, rfl, by simp [Next.points]⟩

theorem toCascade_resumed (w : World) {pc : Pc} (r : Reply Ans) (t : Task) (ids : List TaskId)
    (hpc : pc.dispatched = none) : Resumed w pc r (toCascade w t ids).1 (toCascade w t ids).2 := by
  unfold toCascade
  split
  · exact .plain (.inl hpc) (by simp [Next.points, Pc.Plain, Pc.dispatched, Pc.closing])
  · split
    · exact .plain (.inl hpc) (by simp [Next.points, Pc.Plain, Pc.dispatched, Pc.closing])
    · exact .answered hpc (by simp [Next.points])

/-- The moves out of a cancel request that has read its row. -/
theorem cancelFind_resumed (w : World) (id : TaskId) (attempt : ℕ) (t : Task) :
    Resumed w (.cancelFind id attempt) (.answer (.row (some t)))
      (resume w (.cancelFind id attempt) (.answer (.row (some t)))).1
      (resume w (.cancelFind id attempt) (.answer (.row (some t)))).2 := by
  simp only [resume]
  split
  case h_3 hrun =>
    split_ifs with hc
    · exact .cancelMarked hrun hc
    · exact .closing hrun (by simpa using hc)
  all_goals exact .plain (.inl rfl) (by simp [Next.points, Pc.Plain, Pc.dispatched, Pc.closing])

/-- The moves of a dispatch. -/
theorem dispatch_resumed (w : World) {pc : Pc} (r : Reply Ans) (h : pc.dispatched ≠ none) :
    Resumed w pc r (resume w pc r).1 (resume w pc r).2 := by
  cases pc with
  | markRunning t =>
    cases r with
    | answer a => exact .started
    | returned => exact .unmarked (by simp)
    | failed => exact .unmarked (by simp)
  | execute t =>
    simp only [resume]
    split
    case h_1 hend => exact .noResult hend
    case h_2 status hend => exact .ended hend
  | finish t status data =>
    cases r with
    | answer a => exact .finished
    | returned => exact .plain (.inr (.inl ⟨t, status, data, rfl, by simp⟩)) (caught_plain w)
    | failed => exact .plain (.inr (.inl ⟨t, status, data, rfl, by simp⟩)) (caught_plain w)
  | finalize t status =>
    cases r with
    | answer a =>
      simp only [resume]
      split
      · exact .finalized
      · obtain ⟨nx, hnx, hplain⟩ := afterParent_spec (w.deleteRunning t.id) t status
        rw [hnx]
        exact .finalizedLast hplain
    | returned => exact .plain (.inr (.inr ⟨t, status, rfl, by simp⟩)) (caught_plain w)
    | failed => exact .plain (.inr (.inr ⟨t, status, rfl, by simp⟩)) (caught_plain w)
  | taskParent t status =>
    obtain ⟨nx, hnx, hplain⟩ := afterParent_spec w t status
    change Resumed w _ _ (afterParent w t status).1 (afterParent w t status).2
    rw [hnx]
    exact .released hplain
  | _ => exact absurd rfl h

theorem resume_resumed (w : World) (pc : Pc) (r : Reply Ans) :
    Resumed w pc r (resume w pc r).1 (resume w pc r).2 := by
  by_cases hpc : pc.dispatched = none
  case neg => exact dispatch_resumed w r hpc
  unfold resume
  split
  case h_6 t =>
    split_ifs with hheld
    · exact .plain (.inl rfl) (by simp [Next.points])
    · exact .registered (by simpa using hheld)
  case h_16 => exact .unlocked
  case h_22 id attempt t => exact cancelFind_resumed w id attempt t
  case h_27 => exact .closed
  case h_28 => exact toCascade_resumed w _ _ _ rfl
  case h_29 => exact toCascade_resumed w _ _ _ rfl
  all_goals (try split) <;> (try split_ifs)
  all_goals first
    | (cases hpc; done)
    | exact .plain (.inl hpc) (caught_plain w)
    | exact .plain (.inl hpc) (toPick_plain w _)
    | exact .answered hpc (by simp [Next.points])
    | exact .plain (.inl hpc) (by simp [Next.points, Pc.Plain, Pc.dispatched, Pc.closing])

theorem resumed_of_eq {w w' : World} {pc : Pc} {r : Reply Ans} {nx : Next Pc}
    (h : resume w pc r = (w', nx)) : Resumed w pc r w' nx := by
  have := resume_resumed w pc r
  rwa [h] at this

/-- Resuming writes no row and does not move the clock. -/
theorem resumed_table {w w' : World} {pc : Pc} {r : Reply Ans} {nx : Next Pc}
    (h : Resumed w pc r w' nx) : w'.table = w.table ∧ w'.clock = w.clock := by
  cases h <;> exact ⟨rfl, rfl⟩

/-- The entries a resumed activation may change: the one it registers, its own, the one it closes. -/
theorem Resumed.runningTasks_get {w w' : World} {pc : Pc} {r : Reply Ans} {nx : Next Pc} {id : TaskId}
    (h : Resumed w pc r w' nx) (hreg : ∀ t, nx = .await (.markRunning t) → t.id ≠ id)
    (hent : ∀ t, pc.entered = some t → t.id ≠ id) (hclose : ∀ t, pc.closing = some t → t.id ≠ id) :
    w'.runningTasks.get id = w.runningTasks.get id := by
  cases h with
  | registered => exact KeyedList.get_set_of_ne _ _ (hreg _ rfl)
  | unmarked => exact KeyedList.get_erase_of_ne _ (hent _ rfl)
  | finalized => exact KeyedList.get_erase_of_ne _ (hent _ rfl)
  | finalizedLast => exact KeyedList.get_erase_of_ne _ (hent _ rfl)
  | closed => exact KeyedList.get_erase_of_ne _ (hclose _ rfl)
  | _ => rfl

/-- The controls a resumed activation may change: the one it registers, its own, the one it cancels. -/
theorem Resumed.taskControls_get {w w' : World} {pc : Pc} {r : Reply Ans} {nx : Next Pc} {id : TaskId}
    (h : Resumed w pc r w' nx) (hreg : ∀ t, nx = .await (.markRunning t) → t.id ≠ id)
    (hent : ∀ t, pc.registered = some t → t.id ≠ id)
    (hcancel : ∀ attempt, pc ≠ .cancelFind id attempt) :
    w'.taskControls.get id = w.taskControls.get id := by
  cases h with
  | registered => exact KeyedList.get_set_of_ne _ _ (hreg _ rfl)
  | unmarked => exact KeyedList.get_erase_of_ne _ (hent _ rfl)
  | ended => exact KeyedList.get_erase_of_ne _ (hent _ rfl)
  | noResult => exact KeyedList.get_erase_of_ne _ (hent _ rfl)
  | @cancelMarked id' attempt =>
    refine KeyedList.get_set_of_ne _ _ fun heq => ?_
    exact hcancel attempt (heq ▸ rfl)
  | _ => rfl

/-! ## Entering -/

/-- The references of a row after a step: those to rows that still exist are as they were, those to
deleted rows may have been set to null. -/
structure LinksKept (w' : World) (row row' : Task) : Prop where
  dependsOn : ∀ d, row.dependsOn = some d → (w'.table.find d).isSome → row'.dependsOn = some d
  dependsOn' : ∀ d, row'.dependsOn = some d → row.dependsOn = some d
  parent : ∀ d, row.parentTaskId = some d → (w'.table.find d).isSome → row'.parentTaskId = some d
  parent' : ∀ d, row'.parentTaskId = some d → row.parentTaskId = some d

theorem LinksKept.of_links {w' : World} {row row' : Task} (h : row'.links = row.links) :
    LinksKept w' row row' := by
  obtain ⟨hd, hp⟩ := Prod.mk.inj h
  exact ⟨fun d hd' _ => hd ▸ hd', fun d hd' => hd ▸ hd', fun d hp' _ => hp ▸ hp', fun d hp' => hp ▸ hp'⟩

/-- What an entry may do to a row: nothing, cancel it while it is pending, delete it when it has
ended. -/
structure Entered (w w' : World) (nx : Next Pc) : Prop where
  points : ∀ x ∈ nx.points, x = .pendingWithDeps ∨ ∃ id, x = .cancelFind id 0 ∨ x = .uploadTask id
  registries : SameRegistries w w'
  next : w.table.next ≤ w'.table.next
  status : ∀ id < w.table.next, w'.table.status id = w.table.status id ∨
    (w.table.status id = some .pending ∧ w'.table.status id = some .cancelled) ∨
    (∃ x, w.table.status id = some x ∧ x.terminal = true ∧ w'.table.status id = none)
  rows : ∀ id row', id < w.table.next → w'.table.find id = some row' →
    ∃ row, w.table.find id = some row ∧ LinksKept w' row row'

theorem status_of_destroy (tb : Table) (p : Task → Bool) (hp : ∀ t, p t → t.status.terminal = true)
    (id : TaskId) : (tb.destroy p).status id = tb.status id ∨
      ∃ x, tb.status id = some x ∧ x.terminal = true ∧ (tb.destroy p).status id = none := by
  cases hf : (tb.destroy p).find id with
  | some t =>
    left
    rw [Table.status_of_find hf, Table.status_of_find (Table.find_destroy.mp hf).1]
  | none =>
    cases hf' : tb.find id with
    | none => simp [Table.status, hf, hf']
    | some t =>
      right
      have hpt : p t = true := by
        by_contra hne
        have := Table.find_destroy.mpr ⟨hf', by simpa using hne⟩
        simp [hf] at this
      exact ⟨t.status, Table.status_of_find hf', hp t hpt, by simp [Table.status, hf]⟩

theorem entered_deleteFinished (cfg : Config) (w : World) (p : Task → Bool)
    (hp : ∀ t, p t → t.status.terminal = true) :
    Entered w (enter.deleteFinished cfg w p) (.finish false) where
  points := by simp [Next.points]
  registries := ⟨rfl, rfl, rfl, rfl⟩
  next := by
    unfold enter.deleteFinished
    split_ifs <;> exact le_rfl
  status := by
    intro id _
    have hst : (enter.deleteFinished cfg w p).table.status id = (w.table.destroy p).status id := by
      unfold enter.deleteFinished
      split_ifs
      · exact Table.status_unlink _ _
      · rfl
    rw [hst]
    rcases status_of_destroy w.table p hp id with h | h
    · exact .inl h
    · exact .inr (.inr h)
  rows := by
    intro id row' _ hrow'
    unfold enter.deleteFinished at hrow' ⊢
    split_ifs at hrow' ⊢
    · obtain ⟨row, hrow, rfl⟩ := Option.map_eq_some_iff.mp ((Table.find_unlink _ _).symm.trans hrow')
      refine ⟨row, (Table.find_destroy.mp hrow).1, ?_⟩
      have hfind : ∀ d, ((w.table.destroy p).unlink.find d).isSome =
          ((w.table.destroy p).find d).isSome := by
        intro d
        rw [Table.find_unlink, Option.isSome_map]
      refine ⟨fun d hd hsome => ?_, fun d hd => ?_, fun d hd hsome => ?_, fun d hd => ?_⟩
      · exact Option.filter_eq_some_iff.mpr ⟨hd, (hfind d).symm.trans hsome⟩
      · exact (Option.filter_eq_some_iff.mp hd).1
      · exact Option.filter_eq_some_iff.mpr ⟨hd, (hfind d).symm.trans hsome⟩
      · exact (Option.filter_eq_some_iff.mp hd).1
    · exact ⟨row', (Table.find_destroy.mp hrow').1, .of_links rfl⟩

theorem enter_entered {cfg : Config} {w w' : World} {e : Entry} {nx : Next Pc}
    (h : enter cfg w e = some (w', nx)) : Entered w w' nx := by
  have same : ∀ (nx : Next Pc) (clock : ℕ),
      (∀ x ∈ nx.points,
        x = .pendingWithDeps ∨ ∃ id, x = .cancelFind id 0 ∨ x = .uploadTask id) →
      Entered w { w with clock } nx :=
    fun _ _ hnx => ⟨hnx, ⟨rfl, rfl, rfl, rfl⟩, le_rfl, fun _ _ => .inl rfl,
      fun _ row _ hrow => ⟨row, hrow, .of_links rfl⟩⟩
  cases e with
  | tick =>
    simp only [enter] at h
    split_ifs at h <;> cases h
    · exact same _ _ (by simp [Next.points])
    · exact same _ _ (by simp [Next.points])
  | cancel id =>
    cases h
    exact same _ _ (by simp [Next.points])
  | upload id =>
    cases h
    exact same _ _ (by simp [Next.points])
  | create row =>
    simp only [enter] at h
    split_ifs at h
    cases h
    exact ⟨by simp [Next.points], ⟨rfl, rfl, rfl, rfl⟩, Nat.le_succ _,
      fun id hid => .inl (Table.status_create_of_lt _ _ hid), fun id row hid hrow =>
        ⟨row, (Table.find_create_of_lt _ _ hid).symm.trans hrow, .of_links rfl⟩⟩
  | bulkCancel zones operation =>
    cases h
    refine ⟨by simp [Next.points], ⟨rfl, rfl, rfl, rfl⟩, le_rfl, ?_, ?_⟩
    case refine_2 =>
      intro id row' _ hrow'
      have hlinks := Table.links_update w.table
        (fun t => zones.contains t.zoneName && t.status = .pending &&
          operation.all (fun o => t.operation = o)) { status := some .cancelled } id
      rw [show (w.table.update _ _).find id = some row' from hrow', Option.map_some] at hlinks
      obtain ⟨row, hrow, heq⟩ := Option.map_eq_some_iff.mp hlinks.symm
      exact ⟨row, hrow, .of_links heq.symm⟩
    intro id _
    dsimp only
    rw [Table.status_update, Table.status]
    cases hf : w.table.find id with
    | none => exact .inl rfl
    | some t =>
      simp only [Option.map_some, Option.some.injEq]
      split_ifs with hp
      · simp only [Bool.and_eq_true, decide_eq_true_eq] at hp
        exact .inr (.inl ⟨hp.1.2, rfl⟩)
      · exact .inl rfl
  | clearCompleted =>
    cases h
    exact entered_deleteFinished cfg w _ (fun _ ht => ht)
  | cleanupOld before =>
    cases h
    refine entered_deleteFinished cfg w _ ?_
    intro t ht
    simp only [Bool.and_eq_true] at ht
    exact ht.1
  | elapse ms =>
    cases h
    exact same _ _ (by simp [Next.points])

end ZoneweaverAgent.TaskQueue
