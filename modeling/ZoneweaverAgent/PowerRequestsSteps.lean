import ZoneweaverAgent.PowerRequests

/-!
# What a step leaves of the queued chains

A step of the queue leaves the machine, the priority and the dependency of a row alone, but for a
dependency that is forgotten with the row it named. A status that only a dispatch leads to is
written for a task that the writer had taken up, and a task that an activation takes up is one it
was handed: by its pick, or by a row it found running. `Replied` lists what a request's call does to
the table and to the request.
-/

namespace ZoneweaverAgent.PowerRequests
open EventLoop TaskQueue

/-! ## Rows -/

/-- The row as before, at most without its dependency, whatever its status is now. -/
structure SameRow (row row' : Task) : Prop where
  zoneName : row'.zoneName = row.zoneName
  priority : row'.priority = row.priority
  dependsOn : row'.dependsOn = row.dependsOn ∨ row'.dependsOn = none

/-- Every old row that is still there is the row it was. -/
structure Kept (tb tb' : Table) : Prop where
  next : tb.next ≤ tb'.next
  rows : ∀ id row', id < tb.next → tb'.find id = some row' →
    ∃ row, tb.find id = some row ∧ SameRow row row'

/-- A status that a row has only after it was dispatched. -/
def begun : Status → Bool
  | .pending | .prepared | .cancelled => false
  | .running | .completed | .completedWithErrors | .failed => true

section Rows
variable {tb tb' tb'' : Table}

theorem SameRow.refl (row : Task) : SameRow row row := ⟨rfl, rfl, .inl rfl⟩

theorem Kept.refl (tb : Table) : Kept tb tb := ⟨le_rfl, fun _ row _ h => ⟨row, h, .refl row⟩⟩

theorem Kept.trans (h : Kept tb tb') (h' : Kept tb' tb'') : Kept tb tb'' := by
  refine ⟨h.next.trans h'.next, fun id row'' hid hrow'' => ?_⟩
  obtain ⟨row', hrow', hsame'⟩ := h'.rows id row'' (hid.trans_le h.next) hrow''
  obtain ⟨row, hrow, hsame⟩ := h.rows id row' hid hrow'
  refine ⟨row, hrow, hsame'.zoneName.trans hsame.zoneName, hsame'.priority.trans hsame.priority, ?_⟩
  rcases hsame'.dependsOn with heq | hnone
  · rw [heq]
    exact hsame.dependsOn
  · exact .inr hnone

theorem kept_update (tb : Table) (p : Task → Bool) (u : Patch) : Kept tb (tb.update p u) := by
  refine ⟨le_rfl, fun id row' _ hrow' => ?_⟩
  rw [Table.find_update] at hrow'
  obtain ⟨row, hrow, rfl⟩ := Option.map_eq_some_iff.mp hrow'
  refine ⟨row, hrow, ?_⟩
  split_ifs
  · exact ⟨rfl, rfl, .inl rfl⟩
  · exact .refl row

theorem kept_create (tb : Table) (d : Task) : Kept tb (tb.create d) := by
  refine ⟨Nat.le_succ _, fun id row' hid hrow' => ?_⟩
  rw [Table.find_create_of_lt _ _ hid] at hrow'
  exact ⟨row', hrow', .refl row'⟩

theorem kept_destroy (tb : Table) (p : Task → Bool) : Kept tb (tb.destroy p) :=
  ⟨le_rfl, fun _ row' _ hrow' => ⟨row', (Table.find_destroy.mp hrow').1, .refl row'⟩⟩

theorem kept_unlink (tb : Table) : Kept tb tb.unlink := by
  refine ⟨le_rfl, fun id row' _ hrow' => ?_⟩
  rw [Table.find_unlink] at hrow'
  obtain ⟨row, hrow, rfl⟩ := Option.map_eq_some_iff.mp hrow'
  refine ⟨row, hrow, rfl, rfl, ?_⟩
  cases row.dependsOn with
  | none => exact .inl rfl
  | some d =>
    by_cases hd : (tb.find d).isSome
    · exact .inl (by simp [Option.filter, hd])
    · exact .inr (by simp [Option.filter, hd])

theorem kept_deleteFinished (cfg : Config) (w : World) (p : Task → Bool) :
    Kept w.table (enter.deleteFinished cfg w p).table := by
  unfold enter.deleteFinished
  split_ifs
  · exact (kept_destroy _ _).trans (kept_unlink _)
  · exact kept_destroy _ _

theorem serve_kept {w w' : World} {pc : Pc} {c : Choice} {a : Ans}
    (h : serve w pc c = some (a, w')) : Kept w.table w'.table := by
  unfold serve at h
  split at h <;> simp only [Option.map_eq_some_iff, Option.some.injEq, Prod.mk.injEq,
    reduceCtorEq] at h
  all_goals first
    | (obtain ⟨-, rfl⟩ := h)
    | (obtain ⟨_, -, -, rfl⟩ := h)
  all_goals first
    | exact .refl _
    | exact kept_update _ _ _
    | exact kept_create _ _

theorem enter_kept {cfg : Config} {w w' : World} {e : Entry} {nx : Next Pc}
    (h : enter cfg w e = some (w', nx)) : Kept w.table w'.table := by
  cases e with
  | tick =>
    simp only [enter] at h
    split_ifs at h <;> cases h <;> exact .refl _
  | create row =>
    simp only [enter] at h
    split_ifs at h
    cases h
    exact kept_create _ _
  | bulkCancel zones operation =>
    cases h
    exact kept_update _ _ _
  | clearCompleted =>
    cases h
    exact kept_deleteFinished cfg w _
  | cleanupOld before =>
    cases h
    exact kept_deleteFinished cfg w _
  | _ =>
    cases h
    exact .refl _

end Rows

theorem queue_kept {cfg : Config} {s s' : QState} {l : QLabel}
    (h : EventLoop.step (program cfg) s l = some s') : Kept s.world.table s'.world.table := by
  cases steps_of_step h with
  | serve _ _ hserve => exact serve_kept hserve
  | fail _ _ hw => rw [hw]; exact .refl _
  | resume _ _ hres => rw [(resumed_table (resumed_of_eq hres)).1]; exact .refl _
  | enter hent => exact enter_kept hent

/-! ## What an activation was handed -/

/-- The task that an activation has picked, dispatched or found running here. -/
def hands : Point Pc Ans → Option Task
  | (.pick _ _, some (.row t)) => t
  | (.parentTask _, some (.row t)) => t.filter (fun t => t.status = .running)
  | (.subTasks t, _) | (.updateParent t _ _, _) => some t
  | (pc, _) => pc.dispatched

/-- The rows that an activation has found completed here. -/
def vouches : Point Pc Ans → List TaskId
  | (.deps pending, some (.rows deps)) => completedDepIds pending deps
  | (pc, _) => pc.carried

section Queue
variable {w w' : World} {pc x : Pc} {c : Choice} {a : Ans} {r : Reply Ans} {nx : Next Pc}
  {t : Task} {d id : TaskId}

theorem writes_hands {y : Status} (h : writes w id pc = some y) (hy : begun y = true) :
    ∃ t ∈ hands (pc, none), t.id = id := by
  cases pc with
  | markRunning t | finish t _ _ | updateParent t _ _ =>
    simp only [writes, Option.ite_none_right_eq_some] at h
    exact ⟨t, rfl, h.1.symm⟩
  | cancelDependents _ _ | flip _ _ | close _ | uploaded _ =>
    simp only [writes, Option.ite_none_right_eq_some, Option.some.injEq] at h
    rw [← h.2] at hy
    cases hy
  | _ => cases h

theorem serve_begun {y : Status} (h : serve w pc c = some (a, w')) (hid : id < w.table.next)
    (hst : w'.table.status id = some y) (hy : begun y = true) :
    w.table.status id = some y ∨ ∃ t ∈ hands (pc, none), t.id = id := by
  obtain ⟨z, hz, rfl | hw⟩ := serve_status_eq h hid hst
  · exact .inl hz
  · exact .inr (writes_hands hw hy)

theorem enter_begun {cfg : Config} {e : Entry} {y : Status}
    (h : enter cfg w e = some (w', nx)) (hid : id < w.table.next)
    (hst : w'.table.status id = some y) (hy : begun y = true) : w.table.status id = some y := by
  rcases (enter_entered h).status id hid with heq | ⟨-, hc⟩ | ⟨_, -, -, hn⟩
  · rw [← heq, hst]
  · cases hst.symm.trans hc
    cases hy
  · cases hst.symm.trans hn

theorem enter_idle {cfg : Config} {e : Entry} (h : enter cfg w e = some (w', nx))
    (hx : x ∈ nx.points) : hands (x, none) = none ∧ vouches (x, none) = [] := by
  obtain rfl | ⟨id, rfl | rfl⟩ := (enter_entered h).points x hx <;> exact ⟨rfl, rfl⟩

/-- An answer hands over the row that was picked, or one that is running. -/
theorem serve_hands (h : serve w pc c = some (a, w')) (ht : t ∈ hands (pc, some a)) :
    t ∈ hands (pc, none) ∨ w.table.status t.id = some .running ∨
      ∃ ids busy id, pc = .pick ids busy ∧ c = .row id ∧
        findOne w.table (pickable ids busy) picksBefore id = some (some t) := by
  cases pc with
  | pick ids busy =>
    cases c <;> simp only [serve, Option.map_eq_some_iff, Prod.mk.injEq, reduceCtorEq] at h
    obtain ⟨o, ho, rfl, rfl⟩ := h
    obtain rfl : o = some t := ht
    exact .inr (.inr ⟨ids, busy, _, rfl, rfl, ho⟩)
  | parentTask id =>
    cases c <;> simp only [serve, Option.some.injEq, Prod.mk.injEq, reduceCtorEq] at h
    obtain ⟨rfl, rfl⟩ := h
    obtain ⟨hfind, hrun⟩ := Option.filter_eq_some_iff.mp ht
    rw [Table.find_id hfind, Table.status_of_find hfind]
    exact .inr (.inl (congrArg some (of_decide_eq_true hrun)))
  | _ => exact .inl ht

theorem serve_vouches (h : serve w pc c = some (a, w')) (hd : d ∈ vouches (pc, some a)) :
    d ∈ vouches (pc, none) ∨ w.table.status d = some .completed := by
  cases pc with
  | deps pending =>
    cases c <;> simp only [serve, Option.some.injEq, Prod.mk.injEq, reduceCtorEq] at h
    obtain ⟨rfl, rfl⟩ := h
    obtain ⟨hmem, hst⟩ := List.mem_filter.mp hd
    rw [depStatus_select _ hmem, decide_eq_true_eq] at hst
    exact .inr hst
  | _ => exact .inl hd

theorem vouches_outside (hx : x.outside) : vouches (x, none) = [] := by
  cases x <;> first | rfl | cases hx

/-- What an activation vouches for behind a move it vouched for before. -/
theorem resume_vouches (h : resume w pc r = (w', nx)) (hx : x ∈ nx.points)
    (hd : d ∈ vouches (x, none)) : d ∈ vouches (pc, (Phase.ready r).seen) := by
  cases gateMove_of_eq h with
  | outside hout =>
    rw [vouches_outside (hout x hx)] at hd
    cases hd
  | asked =>
    rw [List.mem_singleton.mp hx] at hd
    cases hd
  | judged =>
    rw [List.mem_singleton.mp hx] at hd
    exact hd
  | cancelled =>
    rcases List.mem_cons.mp hx with rfl | hmem
    · exact hd
    · obtain ⟨p, -, rfl⟩ := List.mem_map.mp hmem
      cases hd
  | ungated =>
    rw [List.mem_singleton.mp hx] at hd
    cases hd
  | passed =>
    rw [List.mem_singleton.mp hx] at hd
    exact hd
  | updated =>
    rw [List.mem_singleton.mp hx] at hd
    exact hd

theorem afterParent_hands (w : World) (t : Task) (status : Status) :
    ∀ x ∈ (afterParent w t status).2.points, hands (x, none) = none := by
  unfold afterParent
  dsimp only
  split_ifs <;> simp [Next.points, hands, Pc.dispatched]

theorem toCascade_hands (w : World) (t : Task) (ids : List TaskId) :
    ∀ x ∈ (toCascade w t ids).2.points, hands (x, none) = none := by
  unfold toCascade
  split
  · simp [Next.points, hands, Pc.dispatched]
  · split <;> simp [Next.points, hands, Pc.dispatched]

/-- The task an activation has behind a move it had before. -/
theorem resume_hands (w : World) (pc : Pc) (r : Reply Ans) :
    ∀ x ∈ (resume w pc r).2.points, ∀ t ∈ hands (x, none),
      t ∈ hands (pc, (Phase.ready r).seen) := by
  unfold resume
  split
  case h_9 =>
    dsimp only
    split <;> simp [Next.points, hands, Pc.dispatched, caught, Phase.seen]
  case h_11 t status a =>
    dsimp only
    split
    · simp [Next.points, hands, Pc.dispatched, Phase.seen]
    · intro x hx t ht
      rw [afterParent_hands _ _ _ x hx] at ht
      cases ht
  case h_12 =>
    intro x hx t ht
    rw [afterParent_hands _ _ _ x hx] at ht
    cases ht
  case h_28 =>
    intro x hx t ht
    rw [toCascade_hands _ _ _ x hx] at ht
    cases ht
  case h_29 =>
    intro x hx t ht
    rw [toCascade_hands _ _ _ x hx] at ht
    cases ht
  all_goals (try split) <;> (try split_ifs)
  all_goals simp [Next.points, hands, Pc.dispatched, caught, toPick, Phase.seen, *]

/-- Only a marked task is started. -/
theorem resume_started (h : resume w pc r = (w', nx)) (hs : .started id ∈ w'.history) :
    .started id ∈ w.history ∨ ∃ t ∈ hands (pc, (Phase.ready r).seen), t.id = id := by
  cases resumed_of_eq h with
  | @started t a =>
    rcases List.mem_cons.mp hs with heq | hmem
    · cases heq
      exact .inr ⟨t, rfl, rfl⟩
    · exact .inl hmem
  | answered =>
    rcases List.mem_cons.mp hs with heq | hmem
    · cases heq
    · exact .inl hmem
  | cancelMarked =>
    rcases List.mem_cons.mp hs with heq | hmem
    · cases heq
    · exact .inl hmem
  | _ => exact .inl hs

end Queue

/-! ## What a request does -/

/-- The calls behind which no later one writes these variables. -/
def Request.Fits (r : Request) : Prop :=
  match r.stage with
  | .createStart | .responded _ => True
  | .createApply | .attachApply => r.startTask = none
  | _ => r.applyTask = none ∧ r.startTask = none

/-- The same machine and the same tasks. -/
structure Request.Same (r r' : Request) : Prop where
  zoneName : r'.zoneName = r.zoneName
  stopTask : r'.stopTask = r.stopTask
  applyTask : r'.applyTask = r.applyTask
  startTask : r'.startTask = r.startTask

/-- The table and the request behind one call. -/
inductive Replied (w : World) (r : Request) : Table → Request → Prop
  | read {r' : Request} : r.Same r' → r'.Fits → Replied w r w.table r'
  | cancelled {r' : Request} : r.Same r' → r'.Fits →
      Replied w r (w.table.update (pendingStart r.zoneName) { status := some .cancelled }) r'
  | stop {r' : Request} : r.applyTask = none → r.startTask = none →
      Request.Same { r with stopTask := some w.table.next } r' → r'.Fits →
      Replied w r (w.table.create (newStop r.zoneName w.clock)) r'
  | apply {r' : Request} : r.startTask = none →
      Request.Same { r with applyTask := some w.table.next } r' → r'.Fits →
      Replied w r (w.table.create (newModify r.zoneName w.clock)) r'
  | attached {r' : Request} {apply stop : TaskId} : r.applyTask = some apply →
      r.stopTask = some stop → r.startTask = none → r.Same r' → r'.Fits →
      Replied w r (w.table.attach apply stop) r'
  | start {r' : Request} : Request.Same { r with startTask := some w.table.next } r' → r'.Fits →
      Replied w r (w.table.create (newStart r.zoneName r.startDependsOn w.clock)) r'

section Requests
variable {w : World} {r r' : Request} {tb : Table} {outcome : Outcome}

theorem fits_afterApply (r : Request) : r.afterApply.Fits := by
  unfold Request.afterApply
  split <;> exact trivial

theorem same_afterApply (r : Request) : r.Same r.afterApply := by
  unfold Request.afterApply
  split <;> exact ⟨rfl, rfl, rfl, rfl⟩

theorem fits_afterStop (h : r.startTask = none) : r.afterStop.Fits := by
  unfold Request.afterStop
  split_ifs
  · exact fits_afterApply r
  · exact h

theorem same_afterStop (r : Request) : r.Same r.afterStop := by
  unfold Request.afterStop
  split_ifs
  · exact same_afterApply r
  · exact ⟨rfl, rfl, rfl, rfl⟩

theorem fits_receive (kind : Kind) (zoneName : String) : (Request.receive kind zoneName).Fits := by
  unfold Request.receive Request.Fits
  dsimp only
  split_ifs
  · exact ⟨rfl, rfl⟩
  · exact trivial

theorem replied_of_reply (h : r.reply w outcome = some (tb, r')) (hfits : r.Fits) :
    Replied w r tb r' := by
  have respond : ∀ response, r.Same (r.respond response) := fun _ => ⟨rfl, rfl, rfl, rfl⟩
  unfold Request.Fits at hfits
  unfold Request.reply at h
  split at h
  case h_12 => cases h
  all_goals
    rename_i hstage
    rw [hstage] at hfits
    dsimp only at hfits
  case h_1 =>
    cases h
    exact .read (respond _) trivial
  case h_2 =>
    split at h <;> cases h <;> exact .read ⟨rfl, rfl, rfl, rfl⟩ hfits
  case h_3 =>
    split_ifs at h <;> cases h
    · exact .read (respond _) trivial
    · exact .read ⟨rfl, rfl, rfl, rfl⟩ hfits
  case h_4 =>
    cases h
    exact .cancelled ⟨rfl, rfl, rfl, rfl⟩ hfits
  case h_5 =>
    split at h
    · cases h
    · cases h
      exact .read ⟨rfl, rfl, rfl, rfl⟩ hfits
    · split at h <;> cases h
      · exact .read (respond _) trivial
      · exact .read ⟨rfl, rfl, rfl, rfl⟩ hfits
  case h_6 =>
    dsimp only at h
    split at h
    · cases h
      exact .read (respond _) trivial
    · split_ifs at h <;> cases h <;> exact .read ⟨rfl, rfl, rfl, rfl⟩ hfits
  case h_7 =>
    dsimp only at h
    split at h <;> cases h
    · exact .read (respond _) trivial
    · exact .read ⟨rfl, rfl, rfl, rfl⟩ hfits
  case h_8 =>
    cases h
    exact .stop hfits.1 hfits.2 (same_afterStop _) (fits_afterStop hfits.2)
  case h_9 =>
    cases h
    exact .apply hfits ⟨rfl, rfl, rfl, rfl⟩ hfits
  case h_10 =>
    split at h
    case h_1 apply stop happly hstop =>
      cases h
      exact .attached happly hstop hfits (same_afterApply r) (fits_afterApply r)
    case h_2 => cases h
  case h_11 =>
    split at h
    · cases h
      exact .start ⟨rfl, rfl, rfl, rfl⟩ trivial
    · cases h

theorem status_create (tb : Table) (d : Task) (id : TaskId) :
    (tb.create d).status id = if id = tb.next then some d.status else tb.status id := by
  split_ifs with hid
  · subst hid
    rw [Table.status_of_find (Table.find_create_self tb d)]
  · have hne : tb.next ≠ id := Ne.symm hid
    simp [Table.status, Table.find, Table.create, List.find?_append, hne]

theorem Replied.next_le (h : Replied w r tb r') : w.table.next ≤ tb.next := by
  cases h with
  | stop | apply | start => exact Nat.le_succ _
  | _ => exact le_rfl

/-- A request begins no task itself. -/
theorem Replied.begun {id : TaskId} {y : Status} (h : Replied w r tb r')
    (hst : tb.status id = some y) (hy : begun y = true) : w.table.status id = some y := by
  have created : ∀ d : Task, d.status = .pending → (w.table.create d).status id = some y →
      w.table.status id = some y := by
    intro d hd hst
    rw [status_create] at hst
    split_ifs at hst
    · rw [hd] at hst
      cases hst
      cases hy
    · exact hst
  cases h with
  | read => exact hst
  | cancelled =>
    rw [Table.status_update] at hst
    obtain ⟨t, ht, heq⟩ := Option.map_eq_some_iff.mp hst
    split_ifs at heq
    · cases heq
      cases hy
    · rw [Table.status_of_find ht, heq]
  | attached => rwa [Table.status_attach] at hst
  | stop => exact created _ rfl hst
  | apply => exact created _ rfl hst
  | start => exact created _ rfl hst

/-- The row has ended, by completing or otherwise, or it had and has been deleted since. -/
structure Over (w : World) (id : TaskId) (completed : Prop) : Prop where
  minted : id < w.table.next
  status : ∀ y, w.table.status id = some y → y.terminal = true ∧ (y = .completed ↔ completed)

theorem over_of_status {id : TaskId} {x : Status} {completed : Prop}
    (h : w.table.status id = some x) (hx : x.terminal = true) (hc : x = .completed ↔ completed) :
    Over w id completed := by
  refine ⟨Table.status_lt h, fun y hy => ?_⟩
  obtain rfl := Option.some.inj (h.symm.trans hy)
  exact ⟨hx, hc⟩

theorem Over.of_table {w' : World} {id : TaskId} {completed : Prop} (h : Over w id completed)
    (htable : w'.table = w.table) : Over w' id completed := by
  refine ⟨?_, ?_⟩ <;> rw [htable]
  · exact h.minted
  · exact h.status

theorem Over.entered {w' : World} {nx : Next Pc} {id : TaskId} {completed : Prop}
    (ho : Over w id completed) (h : Entered w w' nx) : Over w' id completed := by
  refine ⟨ho.minted.trans_le h.next, fun y hy => ?_⟩
  rcases h.status id ho.minted with heq | ⟨hpend, -⟩ | ⟨z, -, -, hn⟩
  · exact ho.status y (heq ▸ hy)
  · cases (ho.status _ hpend).1
  · cases hn.symm.trans hy

theorem Replied.ends {w' : World} {id : TaskId} {completed : Prop} (h : Replied w r w'.table r')
    (ho : Over w id completed) : Over w' id completed := by
  refine ⟨ho.minted.trans_le h.next_le, fun y hy => ?_⟩
  generalize w'.table = tb at h hy
  have created : ∀ d, (w.table.create d).status id = some y →
      y.terminal = true ∧ (y = .completed ↔ completed) := fun d hst =>
    ho.status y ((Table.status_create_of_lt _ _ ho.minted).symm.trans hst)
  cases h with
  | read => exact ho.status y hy
  | cancelled =>
    rw [Table.status_update] at hy
    obtain ⟨t, ht, heq⟩ := Option.map_eq_some_iff.mp hy
    have hst := ho.status _ (Table.status_of_find ht)
    split_ifs at heq with hp
    · simp only [pendingStart, Bool.and_eq_true, decide_eq_true_eq] at hp
      rw [hp.2] at hst
      cases hst.1
    · exact heq ▸ hst
  | attached => exact ho.status y (by rwa [Table.status_attach] at hy)
  | stop => exact created _ hy
  | apply => exact created _ hy
  | start => exact created _ hy

theorem refuse_same (h : r.refuse = some r') : r.Same r' ∧ r'.Fits := by
  unfold Request.refuse at h
  split at h
  · cases h
  · cases h
  · cases h
    exact ⟨same_afterApply r, fits_afterApply r⟩
  · cases h
    exact ⟨⟨rfl, rfl, rfl, rfl⟩, trivial⟩

end Requests

end ZoneweaverAgent.PowerRequests
