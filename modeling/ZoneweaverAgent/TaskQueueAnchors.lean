import ZoneweaverAgent.TaskQueueGate
import ZoneweaverAgent.TaskQueueRollup

/-!
# The rollup of the anchors

Two kinds of debts tie the anchors to the activations in progress: an anchor that runs though all
its sub-tasks have ended is owed a rollup, and a sub-task that has not ended though its anchor has
is owed a cancellation. The activation that ends a sub-task owes the first, the cascade of a
cancelled anchor the second. When nothing is in progress nothing is owed, and every anchor is as its
sub-tasks are.
-/

namespace ZoneweaverAgent.TaskQueue
open EventLoop

/-! ## Debts -/

inductive Debt
  | rollup (p : TaskId)
  | cancel (p c : TaskId)

def due (w : World) : Debt → Prop
  | .rollup p => w.table.status p = some .running ∧ IsParent w.table p ∧
    ∀ y ∈ childStatuses w.table p, y.terminal = true
  | .cancel p c => HasEnded w.table p ∧ ∃ row, w.table.find c = some row ∧
    row.parentTaskId = some p ∧ row.status.terminal = false

/-- The activation is on its way to recompute `p`. -/
def willRollUp : Point Pc Ans → TaskId → Prop
  | (.finish t _ _, some _), p | (.finalize t _, _), p => t.parentTaskId = some p
  | (.parentTask q, none), p | (.parentTask q, some (.row _)), p => q = p
  | (.subTasks t, none), p => t.id = p
  | (.subTasks t, some (.rows ts)), p => t.id = p ∧ parentStatus ts ≠ .running
  | (.updateParent t status _, none), p => t.id = p ∧ status ≠ .running
  | (.updateParent t status _, some _), p => t.parentTaskId = some p ∧ status ≠ .running
  | (.cancelDependents ts _, some _), p => ∃ t ∈ ts, t.parentTaskId = some p
  | (.flip t _, some a), p => a ≠ .count 0 ∧ t.parentTaskId = some p
  | (.close t, some _), p | (.children t, none), p | (.children t, some (.rows _)), p
  | (.cascade t _, none), p => t.parentTaskId = some p
  | _, _ => False

/-- The activation is on its way to end the sub-task `c` of the ended anchor `p`: it cascades from
`p`, it is a cancel request for `c`, or it is the dispatch of `c`. -/
def willEnd : Point Pc Ans → TaskId → TaskId → Prop
  | (.close t, none), _, c => t.id = c
  | (.close t, some _), p, _ | (.children t, none), p, _ => t.id = p
  | (.children _, some (.rows ts)), _, c => c ∈ ts.map Task.id
  | (.cascade _ rest, none), _, c => c ∈ rest
  | (.cancelFind id _, none), _, c => id = c
  | (.cancelFind id _, some (.row (some t))), _, c => id = c ∧ t.status.terminal = false
  | (.flip t _, none), _, c | (.flip t _, some (.count 0)), _, c => t.id = c
  | (.markRunning t, some _), _, c | (.execute t, _), _, c | (.finish t _ _, none), _, c => t.id = c
  | _, _, _ => False

def owes (x : Point Pc Ans) : Debt → Prop
  | .rollup p => willRollUp x p
  | .cancel p c => willEnd x p c

/-! ## Serving passes the debts on -/

section Serve
variable {s : QState} {pid : ℕ} {c : Choice} {p : Activation Pc Ans} {a : Ans} {w : World}

theorem served_flip_found {w w' : World} {t : Task} {n : ℕ} {c : Choice} {a : Ans}
    (h : serve w (.flip t n) c = some (a, w')) (hst : w.table.status t.id = some t.status) :
    a ≠ .count 0 := by
  obtain ⟨row, hrow, hrst⟩ := exists_of_status hst
  cases c <;> simp only [serve, Option.some.injEq, Prod.mk.injEq, reduceCtorEq] at h
  obtain ⟨rfl, -⟩ := h
  intro hzero
  have hnil := List.length_eq_zero_iff.mp (Ans.count.inj hzero)
  have hmem : row ∈ w.table.select (fun r => r.id = t.id && r.status = t.status) :=
    List.mem_filter.mpr ⟨Table.find_mem hrow, by simp [Table.find_id hrow, hrst]⟩
  rw [hnil] at hmem
  cases hmem

/-- Whoever ends a row goes on to recompute its parent. -/
theorem writes_willRollUp {w w' : World} {pc : Pc} {c : Choice} {a : Ans} {id : TaskId} {x : Status}
    (hx : RollupHere w (pc, none)) (h : serve w pc c = some (a, w'))
    (hw : writes w id pc = some x) (hterm : x.terminal = true) :
    ∃ t ∈ pc.tasks, t.id = id ∧ ∀ p, t.parentTaskId = some p → willRollUp (pc, some a) p := by
  cases pc with
  | finish t status data =>
    simp only [writes, Option.ite_none_right_eq_some] at hw
    exact ⟨t, List.mem_singleton_self _, hw.1.symm, fun p hp => hp⟩
  | cancelDependents ts ids =>
    simp only [writes, Option.ite_none_right_eq_some] at hw
    obtain ⟨t, ht, hid⟩ := List.mem_map.mp hw.1
    exact ⟨t, ht, hid, fun p hp => ⟨t, ht, hp⟩⟩
  | updateParent t status update =>
    simp only [writes, Option.ite_none_right_eq_some] at hw
    refine ⟨t, List.mem_singleton_self _, hw.1.symm, fun p hp => ⟨hp, fun hrun => ?_⟩⟩
    rw [hx.rolling t status update rfl, if_pos hrun] at hw
    cases hw.2
  | flip t n =>
    simp only [writes, Option.ite_none_right_eq_some] at hw
    obtain ⟨⟨rfl, hst⟩, -⟩ := hw
    exact ⟨t, List.mem_singleton_self _, rfl, fun p hp => ⟨served_flip_found h hst, hp⟩⟩
  | close t =>
    simp only [writes, Option.ite_none_right_eq_some] at hw
    exact ⟨t, List.mem_singleton_self _, hw.1.symm, fun p hp => hp⟩
  | markRunning t =>
    simp only [writes, Option.ite_none_right_eq_some, Option.some.injEq] at hw
    rw [← hw.2] at hterm
    cases hterm
  | uploaded t =>
    simp only [writes, Option.ite_none_right_eq_some, Option.some.injEq] at hw
    rw [← hw.2] at hterm
    cases hterm
  | _ => cases hw

/-- A debt after the call was one before it, or the mover owes it. -/
theorem due_serve (hp : s.procs.get pid = some p) (hx : RollupHere s.world (p.pc, none))
    (hg : Rolled s.world) (hok : RollupStep s (.serve pid c))
    (h : serve s.world p.pc c = some (a, w)) {r : Debt} (hr : due w r) :
    due s.world r ∨ owes (p.pc, some a) r := by
  have hgrows : Grows (fun _ => False) s.world.table w.table :=
    grows_serve hp hx.wellFormed hok.toKeepsEnded h
  cases r with
  | rollup q =>
    obtain ⟨hrun, hpar', hend⟩ := hr
    have hpar := (hgrows.parent' hpar').resolve_right id
    obtain ⟨y, hy, hrank⟩ := hg.placed q hpar
    have hyrun : y = .running := by
      by_contra hne
      cases (hgrows.ended q y (terminal_of_rank hrank hne) hy).symm.trans hrun
      exact hne rfl
    subst hyrun
    by_cases hall : ∀ y ∈ childStatuses s.world.table q, y.terminal = true
    · exact .inl ⟨hy, hpar, hall⟩
    -- the call has just ended a sub-task of `q`
    right
    push Not at hall
    obtain ⟨z, hz, hzterm⟩ := hall
    obtain ⟨id, row, hrow, hparent, rfl⟩ := mem_childStatuses.mp hz
    obtain ⟨row', hrow', heq⟩ := hgrows.kept id row hrow
    have hterm' := hend _ (mem_childStatuses.mpr ⟨id, row', hrow', heq.trans hparent, rfl⟩)
    obtain ⟨y, hy', rfl | hw⟩ :=
      serve_status_eq h (Table.find_lt hrow) (Table.status_of_find hrow')
    · have hsame := (Table.status_of_find hrow).symm.trans hy'
      exact absurd (Option.some.inj hsame ▸ hterm') hzterm
    · obtain ⟨t, ht, rfl, hroll⟩ := writes_willRollUp hx h hw hterm'
      obtain ⟨row₀, hrow₀, hlink⟩ := hx.linked t (List.mem_append.mpr (.inl ht))
      cases hrow.symm.trans hrow₀
      exact hroll q (hlink.symm.trans hparent)
  | cancel q k =>
    obtain ⟨⟨x, hterm, hst⟩, row', hrow', hparent', hopen'⟩ := hr
    obtain ⟨row, hrow, heq⟩ := (hgrows.olds k row' hrow').resolve_right fun hnew =>
      hnew.2.2 q hparent'
    have hparent := heq.symm.trans hparent'
    have hopen : row.status.terminal = false := by
      by_contra hterm'
      have hsame := hgrows.ended k _ (by simpa using hterm') (Table.status_of_find hrow)
      rw [Table.status_of_find hrow'] at hsame
      exact hterm' (by rw [← Option.some.inj hsame]; exact hopen')
    by_cases hold : HasEnded s.world.table q
    · exact .inl ⟨hold, row, hrow, hparent, hopen⟩
    right
    have hchild : row.status ∈ childStatuses s.world.table q :=
      mem_childStatuses.mpr ⟨k, row, hrow, hparent, rfl⟩
    have hpar : IsParent s.world.table q := isParent_iff.mpr ⟨k, row, hrow, hparent⟩
    rcases serve_ends_parent hp hx hg hok h hpar hst hterm hold with
      ⟨t, hpc, hid, -⟩ | ⟨t, update, -, -, hall, -⟩
    · rw [hpc]
      exact hid
    · rw [hall _ hchild] at hopen
      cases hopen

/-- What the mover owed and is still due, it goes on to owe. -/
theorem owes_serve (hp : s.procs.get pid = some p) (hx : RollupHere s.world (p.pc, none))
    (hok : RollupStep s (.serve pid c)) (h : serve s.world p.pc c = some (a, w)) {r : Debt}
    (hr : due w r) (howes : owes (p.pc, none) r) : owes (p.pc, some a) r := by
  have hwf := hx.wellFormed
  cases r with
  | rollup q =>
    obtain ⟨hrun, hpar, hend⟩ := hr
    cases hpc : p.pc <;> rw [hpc] at howes h hwf <;> simp only [owes, willRollUp] at howes
    case finalize => exact howes
    case parentTask id =>
      cases c <;> simp only [serve, Option.some.injEq, Prod.mk.injEq, reduceCtorEq] at h
      rw [← h.1]
      exact howes
    case subTasks t =>
      cases c <;> simp only [serve, Option.some.injEq, Prod.mk.injEq, reduceCtorEq] at h
      obtain ⟨rfl, hw⟩ := h
      refine ⟨howes, fun hrunning => ?_⟩
      rw [howes, hw] at hrunning
      obtain ⟨y, hy, hopen⟩ := (parentStatus_select hpar).mp hrunning
      rw [hend y hy] at hopen
      cases hopen
    case updateParent t status update =>
      obtain ⟨rfl, hne⟩ := howes
      have hroll := hx.rolling t status update hpc
      have hst : s.world.table.status t.id ≠ none := by
        obtain ⟨row, hrow, -⟩ := hx.linked t (by simp [carried, hpc, Pc.tasks])
        simp [Table.status_of_find hrow]
      obtain ⟨y, hy⟩ := Option.ne_none_iff_exists'.mp hst
      rw [serve_status h (Table.status_lt hy), writes, if_pos rfl, hroll, if_neg hne, hy] at hrun
      exact absurd (Option.some.inj hrun) hne
    case children t =>
      cases c <;> simp only [serve, Option.some.injEq, Prod.mk.injEq, reduceCtorEq] at h
      rw [← h.1]
      exact howes
    case cascade t rest => cases h
  | cancel q k =>
    obtain ⟨-, row, hrow, hparent, hopen⟩ := hr
    -- no call has just ended the sub-task, it is open
    have written : ∀ x : Status, writes s.world k p.pc = some x → k < s.world.table.next →
        x.terminal = true → False := by
      intro x hw hlt hterm
      have hst := serve_status h hlt
      rw [Table.status_of_find hrow, hw] at hst
      obtain ⟨y, -, hy⟩ := Option.map_eq_some_iff.mp hst.symm
      rw [← hy] at hopen
      exact absurd hterm (by simpa using hopen)
    have minted : ∀ t ∈ p.pc.tasks, t.id = k → k < s.world.table.next := by
      rintro t ht rfl
      obtain ⟨row₀, hrow₀, -⟩ := hx.linked t (List.mem_append.mpr (.inl ht))
      exact Table.find_lt hrow₀
    cases hpc : p.pc <;> rw [hpc] at howes h hwf written minted <;>
      simp only [owes, willEnd] at howes
    case close t =>
      exact (written .cancelled (if_pos howes.symm) (minted t (List.mem_singleton_self _) howes)
        rfl).elim
    case finish t status data =>
      refine (written status ?_ (minted t (List.mem_singleton_self _) howes) hwf.2).elim
      rw [writes, if_pos howes.symm, hwf.1]
    case execute => exact howes
    case cascade => cases h
    case cancelFind id n =>
      cases c <;> simp only [serve, Option.some.injEq, Prod.mk.injEq, reduceCtorEq] at h
      obtain ⟨rfl, rfl⟩ := h
      rw [howes, hrow]
      exact ⟨rfl, hopen⟩
    case flip t n =>
      by_cases hzero : a = .count 0
      · subst hzero
        exact howes
      · have hcancelled := (served_flip h hzero).2.status row.status (howes ▸ Table.status_of_find hrow)
        rw [hcancelled] at hopen
        cases hopen
    case children t =>
      cases c <;> simp only [serve, Option.some.injEq, Prod.mk.injEq, reduceCtorEq] at h
      obtain ⟨rfl, rfl⟩ := h
      have hprep := hok.cascade p.pc (mem_served hp) t (by rw [hpc]; rfl) row (Table.find_mem hrow)
        (howes ▸ hparent)
      refine List.mem_map.mpr ⟨row, List.mem_filter.mpr ⟨Table.find_mem hrow, ?_⟩, Table.find_id hrow⟩
      rw [howes, hparent]
      revert hopen hprep
      cases row.status <;> simp [Status.terminal]

end Serve

/-! ## Resuming passes them on -/

section Resume
variable {w w' : World} {pc : Pc} {r : Reply Ans} {nx : Next Pc} {q k : TaskId}

theorem toCascade_willRollUp (w : World) {t : Task} (ids : List TaskId)
    (hp : t.parentTaskId = some q) : ∃ x ∈ (toCascade w t ids).2.points, willRollUp (x, none) q := by
  cases ids with
  | nil =>
    simp only [toCascade, hp]
    exact ⟨.parentTask q, by simp [Next.points], rfl⟩
  | cons c rest => exact ⟨.cascade t rest, by simp [toCascade, Next.points], hp⟩

theorem toCascade_willEnd (w : World) (t : Task) {ids : List TaskId} (hk : k ∈ ids) :
    ∃ x ∈ (toCascade w t ids).2.points, willEnd (x, none) q k := by
  cases ids with
  | nil => cases hk
  | cons c rest =>
    rcases List.mem_cons.mp hk with rfl | hrest
    · exact ⟨.cancelFind k 0, by simp [toCascade, Next.points], rfl⟩
    · exact ⟨.cascade t rest, by simp [toCascade, Next.points], hrest⟩

/-- A rollup that is owed goes on, unless it is dropped. -/
theorem resume_willRollUp (hx : RollupHere w (pc, (Phase.ready r).seen))
    (habandon : abandons w pc r = false) (hdrop : drops pc r = false)
    (hrun : w.table.status q = some .running)
    (howes : willRollUp (pc, (Phase.ready r).seen) q) :
    ∃ x ∈ (resume w pc r).2.points, willRollUp (x, none) q := by
  cases pc with
  | finish t status data =>
    cases r with
    | answer a => exact ⟨_, List.mem_singleton_self _, howes⟩
    | _ => cases howes
  | finalize t status =>
    cases r with
    | answer a =>
      have hp : t.parentTaskId = some q := howes
      refine ⟨.parentTask q, ?_, rfl⟩
      simp only [resume]
      rw [hp]
      exact List.mem_cons_of_mem _ (List.mem_singleton_self _)
    | _ => cases habandon
  | parentTask id =>
    cases r with
    | answer a =>
      cases a with
      | row o =>
        obtain ⟨t, ht, hid, hst⟩ := hx.read id o rfl
        cases ht
        obtain rfl : id = q := howes
        rcases hst with hst | ⟨x, hterm, hst⟩
        · refine ⟨.subTasks t, ?_, hid⟩
          simp only [resume]
          rw [if_pos hst]
          exact List.mem_singleton_self _
        · cases hrun.symm.trans hst
          cases hterm
      | _ => cases howes
    | _ => cases hdrop
  | subTasks t =>
    cases r with
    | answer a =>
      cases a with
      | rows ts => exact ⟨_, List.mem_singleton_self _, howes⟩
      | _ => cases howes
    | _ => cases hdrop
  | updateParent t status update =>
    cases r with
    | answer a =>
      obtain ⟨hp, hne⟩ := howes
      refine ⟨.parentTask q, ?_, rfl⟩
      simp only [resume]
      rw [hp]
      dsimp only
      rw [if_neg hne]
      exact List.mem_singleton_self _
    | _ => cases hdrop
  | cancelDependents ts ids =>
    cases r with
    | answer a =>
      obtain ⟨t, ht, hp⟩ := howes
      refine ⟨.parentTask q, List.mem_cons_of_mem _ (List.mem_map_of_mem ?_), rfl⟩
      exact List.mem_eraseDups.mpr (List.mem_filterMap.mpr ⟨t, ht, hp⟩)
    | _ => cases howes
  | flip t n =>
    cases r with
    | answer a =>
      obtain ⟨hzero, hp⟩ := howes
      refine ⟨.parentTask q, ?_, rfl⟩
      cases a with
      | count m =>
        cases m with
        | zero => exact absurd rfl hzero
        | succ m =>
          simp only [resume]
          rw [hp]
          exact List.mem_cons_of_mem _ (List.mem_singleton_self _)
      | _ =>
        simp only [resume]
        rw [hp]
        exact List.mem_cons_of_mem _ (List.mem_singleton_self _)
    | _ => cases howes
  | close t =>
    cases r with
    | answer a => exact ⟨_, List.mem_singleton_self _, howes⟩
    | _ => cases howes
  | children t =>
    cases r with
    | answer a =>
      cases a with
      | rows ts => exact toCascade_willRollUp w _ howes
      | _ => cases howes
    | _ => cases hdrop
  | cascade t rest =>
    cases r with
    | answer a => cases howes
    | returned => exact toCascade_willRollUp w _ howes
    | failed => cases hdrop
  | _ => cases howes

/-- A cancellation that is owed goes on, or is handed over to the dispatch in progress. -/
theorem resume_willEnd (hx : RollupHere w (pc, (Phase.ready r).seen))
    (habandon : abandons w pc r = false) (hdrop : drops pc r = false)
    (howes : willEnd (pc, (Phase.ready r).seen) q k) :
    (∃ x ∈ (resume w pc r).2.points, willEnd (x, none) q k) ∨
      ∃ n t, pc = .cancelFind k n ∧ r = .answer (.row (some t)) ∧ t.status = .running ∧
        w.taskControls.has k = true := by
  cases pc with
  | close t =>
    cases r with
    | answer a => exact .inl ⟨_, List.mem_singleton_self _, howes⟩
    | _ => cases hdrop
  | children t =>
    cases r with
    | answer a =>
      cases a with
      | rows ts => exact .inl (toCascade_willEnd w t howes)
      | _ => cases howes
    | _ => cases hdrop
  | cascade t rest =>
    cases r with
    | answer a => cases howes
    | returned => exact .inl (toCascade_willEnd w t howes)
    | failed => cases hdrop
  | cancelFind id n =>
    cases r with
    | answer a =>
      cases a with
      | row o =>
        cases o with
        | none => cases howes
        | some t =>
          obtain ⟨rfl, hopen⟩ := howes
          obtain ⟨hid, -⟩ := hx.reading id n t rfl
          simp only [resume]
          split
          case h_1 => exact .inl ⟨_, List.mem_singleton_self _, hid⟩
          case h_2 => exact .inl ⟨_, List.mem_singleton_self _, hid⟩
          case h_3 hrun =>
            split_ifs with hhas
            · exact .inr ⟨n, t, rfl, rfl, hrun, hhas⟩
            · exact .inl ⟨_, List.mem_singleton_self _, hid⟩
          case h_4 hpend hprep hrun => cases hst : t.status <;> simp_all [Status.terminal]
      | _ => cases howes
    | _ => cases hdrop
  | flip t n =>
    cases r with
    | answer a =>
      cases a with
      | count m =>
        cases m with
        | zero =>
          -- a row is read anew at most twice before it is neither pending nor prepared
          have hlow : n + 1 < 5 := by
            have h := (hx.flipping t n rfl).1
            have hrank : t.status.rank ≤ 2 := by cases t.status <;> simp [Status.rank]
            omega
          refine .inl ⟨.cancelFind t.id (n + 1), ?_, howes⟩
          simp only [resume]
          rw [if_neg (Nat.not_le.mpr hlow)]
          exact List.mem_singleton_self _
        | succ m => cases howes
      | _ => cases howes
    | _ => cases hdrop
  | markRunning t =>
    cases r with
    | answer a => exact .inl ⟨_, List.mem_singleton_self _, howes⟩
    | _ => cases howes
  | execute t =>
    left
    simp only [abandons, Option.isNone_eq_false_iff, Option.isSome_iff_exists] at habandon
    obtain ⟨status, hend⟩ := habandon
    simp only [resume]
    rw [hend]
    exact ⟨_, List.mem_singleton_self _, howes⟩
  | finish t status data =>
    cases r with
    | answer a => cases howes
    | _ => cases habandon
  | _ => cases howes

end Resume

/-! ## Entering makes no debts -/

/-- An entry changes the status of a row only by cancelling it in bulk. -/
theorem enter_status {cfg : Config} {w w' : World} {e : Entry} {nx : Next Pc} {id : TaskId}
    {row row' : Task} (hclean : cleaning (.enter e) = false) (h : enter cfg w e = some (w', nx))
    (hrow : w.table.find id = some row) (hrow' : w'.table.find id = some row') :
    row'.status = row.status ∨ bulkCancels (.enter e) row = true ∧ row'.status = .cancelled := by
  have hst := Table.status_of_find hrow
  have hst' := Table.status_of_find hrow'
  rcases (enter_entered h).status id (Table.find_lt hrow) with heq | ⟨hpend, hc⟩ | ⟨y, -, -, hnone⟩
  · rw [hst, hst'] at heq
    exact .inl (Option.some.inj heq)
  · refine .inr ⟨?_, Option.some.inj (hst'.symm.trans hc)⟩
    have changed : w'.table.status id ≠ w.table.status id := by
      rw [hpend, hc]
      nofun
    cases e with
    | bulkCancel zones operation =>
      cases h
      by_contra hnot
      refine changed ?_
      dsimp only
      rw [Table.status_update, hrow, hst, Option.map_some]
      exact congrArg some (if_neg hnot)
    | create r =>
      simp only [enter] at h
      split_ifs at h
      cases h
      exact absurd (Table.status_create_of_lt _ _ (Table.find_lt hrow)) changed
    | tick =>
      simp only [enter] at h
      split_ifs at h <;> cases h <;> exact absurd rfl changed
    | clearCompleted => cases hclean
    | cleanupOld before => cases hclean
    | _ =>
      cases h
      exact absurd rfl changed
  · cases hst'.symm.trans hnone

theorem due_enter {cfg : Config} {s : QState} {e : Entry} {w : World} {nx : Next Pc}
    (hg : Rolled s.world) (hok : RollupStep s (.enter e))
    (h : enter cfg s.world e = some (w, nx)) {r : Debt} (hr : due w r) : due s.world r := by
  have hgrows := grows_enter hok h
  cases r with
  | rollup q =>
    obtain ⟨hrun, hpar', hend⟩ := hr
    have hpar : IsParent s.world.table q := by
      obtain ⟨id, row', hrow', hparent'⟩ := isParent_iff.mp hpar'
      rcases hgrows.olds id row' hrow' with ⟨row, hrow, heq⟩ | ⟨-, hopen, -⟩
      · exact isParent_iff.mpr ⟨id, row, hrow, heq.symm.trans hparent'⟩
      · rw [hend _ (mem_childStatuses.mpr ⟨id, row', hrow', hparent', rfl⟩)] at hopen
        cases hopen
    obtain ⟨anchor', hanchor', hrun'⟩ := exists_of_status hrun
    obtain ⟨y, hy, -⟩ := hg.placed q hpar
    obtain ⟨anchor, hanchor, -⟩ := exists_of_status hy
    have hrunning : anchor.status = .running := by
      rcases enter_status hok.uncleaned h hanchor hanchor' with heq | ⟨-, hc⟩
      · exact heq.symm.trans hrun'
      · cases hrun'.symm.trans hc
    refine ⟨hrunning ▸ Table.status_of_find hanchor, hpar, fun y hy => ?_⟩
    obtain ⟨id, row, hrow, hparent, rfl⟩ := mem_childStatuses.mp hy
    by_contra hopen
    -- the sub-task was cancelled in bulk, but then another one is still open
    have ended' : ∀ {id row}, s.world.table.find id = some row → row.parentTaskId = some q →
        row.status.terminal = false → bulkCancels (.enter e) row = true := by
      intro id row hrow hparent hopen
      obtain ⟨row', hrow', heq⟩ := hgrows.kept id row hrow
      rcases enter_status hok.uncleaned h hrow hrow' with hsame | ⟨hbulk, -⟩
      · have := hend _ (mem_childStatuses.mpr ⟨id, row', hrow', heq.trans hparent, rfl⟩)
        rw [hsame, hopen] at this
        cases this
      · exact hbulk
    have hid := Table.find_id hanchor
    obtain ⟨c, hc, hcparent, hcopen, hcbulk⟩ := hok.bulk anchor (Table.find_mem hanchor) hrunning
      ⟨row, Table.find_mem hrow, hid.symm ▸ hparent, ended' hrow hparent (by simpa using hopen)⟩
    have := ended' (Table.find_eq_some_iff.mpr ⟨hc, rfl⟩) (hid ▸ hcparent) hcopen
    rw [hcbulk] at this
    cases this
  | cancel q k =>
    obtain ⟨⟨x, hterm, hst⟩, row', hrow', hparent', hopen'⟩ := hr
    obtain ⟨anchor', hanchor', rfl⟩ := exists_of_status hst
    have same : ∀ {anchor : Task}, s.world.table.find q = some anchor → anchor.status.rank = 2 →
        anchor'.status = anchor.status := by
      intro anchor hanchor hrank
      rcases enter_status hok.uncleaned h hanchor hanchor' with heq | ⟨hbulk, -⟩
      · exact heq
      · cases e <;> simp only [bulkCancels, Bool.and_eq_true, decide_eq_true_eq,
          Bool.false_eq_true] at hbulk
        rw [hbulk.1.2] at hrank
        cases hrank
    rcases hgrows.olds k row' hrow' with ⟨row, hrow, heq⟩ | ⟨-, -, hnew⟩
    · have hparent := heq.symm.trans hparent'
      obtain ⟨y, hy, hrank⟩ := hg.placed q (isParent_iff.mpr ⟨k, row, hrow, hparent⟩)
      obtain ⟨anchor, hanchor, rfl⟩ := exists_of_status hy
      refine ⟨⟨_, ?_, hy⟩, row, hrow, hparent, ?_⟩
      · rw [← same hanchor hrank, hterm]
      · rcases enter_status hok.uncleaned h hrow hrow' with hsame | ⟨-, hc⟩
        · rw [← hsame, hopen']
        · rw [hc] at hopen'
          cases hopen'
    · obtain ⟨anchor, hanchor, hrun⟩ := exists_of_status (hnew q hparent').1
      rw [same hanchor (by rw [hrun]; rfl), hrun] at hterm
      cases hterm

/-! ## Every run -/

/-- The side condition of the rule: the step keeps rollups and cascades, and the invariants hold. -/
structure AnchorStep (s : QState) (l : QLabel) : Prop extends RollupStep s l where
  base : BaseInv s
  rollup : Inv Rolled RollupHere (fun _ _ => True) s
  controls : Covered (fun w id => taken w (.control id)) (fun x id => holds x (.control id)) s

theorem kept_of_resume {s : QState} {pid : ℕ} {p : Activation Pc Ans} {r : Reply Ans}
    (hok : RollupStep s (.resume pid)) (hp : s.procs.get pid = some p) (hphase : p.phase = .ready r) :
    abandons s.world p.pc r = false ∧ drops p.pc r = false := by
  obtain ⟨pc, phase, caller⟩ := p
  cases hphase
  have := hok.kept
  simp only [dropping, hp] at this
  exact Bool.or_eq_false_iff.mp this

/-- A dispatch whose row is marked running, or whose executor was started, ends its task. -/
theorem willEnd_of_registered {x : Point Pc Ans} {t : Task} {q : TaskId}
    (ht : x.1.registered = some t) (hne : x ≠ (.markRunning t, none)) : willEnd x q t.id := by
  obtain ⟨pc, a⟩ := x
  cases pc <;> cases ht
  · cases a with
    | none => exact absurd rfl hne
    | some a => rfl
  · rfl

theorem debt_covering (cfg : Config) : Covering (program cfg) AnchorStep due owes where
  serve s pid c p a w hc hp hseen hok h := by
    have hx : RollupHere s.world (p.pc, none) := by
      have := hok.rollup.here pid p hp
      rwa [Activation.point, hseen] at this
    refine hc.passes hp (fun r hr => ?_) fun r hr howes => ⟨_, List.mem_singleton_self _, ?_⟩
    · rcases due_serve hp hx hok.rollup.world hok.toRollupStep h hr with hold | howes
      · exact .inl hold
      · exact .inr ⟨_, List.mem_singleton_self _, howes⟩
    · rw [Activation.point, hseen] at howes
      exact owes_serve hp hx hok.toRollupStep h hr howes
  resume s pid p r w nx hc hp hphase hok h := by
    have hpoint : p.point = (p.pc, (Phase.ready r).seen) := by rw [Activation.point, hphase]
    have hx : RollupHere s.world (p.pc, (Phase.ready r).seen) := hpoint ▸ hok.rollup.here pid p hp
    have htable := (resumed_table (resumed_of_eq h)).1
    have hpoints : (resume s.world p.pc r).2.points = nx.points := by
      rw [show resume s.world p.pc r = (w, nx) from h]
    obtain ⟨habandon, hdrop⟩ := kept_of_resume hok.toRollupStep hp hphase
    intro debt hdebt
    have hold : due s.world debt := by
      cases debt <;> rwa [due, htable] at hdebt
    obtain ⟨q, p', hp', howes⟩ := hc debt hold
    by_cases hq : q ≠ pid
    · exact .inl ⟨q, p', hq, hp', howes⟩
    obtain rfl := not_not.mp hq
    cases hp.symm.trans hp'
    rw [hpoint] at howes
    cases debt with
    | rollup k =>
      obtain ⟨x, hxs, hroll⟩ := resume_willRollUp hx habandon hdrop hold.1 howes
      exact .inr ⟨_, List.mem_map_of_mem (hpoints ▸ hxs), hroll⟩
    | cancel k j =>
      rcases resume_willEnd hx habandon hdrop howes with
        ⟨x, hxs, hend⟩ | ⟨n, t, hpc, hr, hrun, hhas⟩
      · exact .inr ⟨_, List.mem_map_of_mem (hpoints ▸ hxs), hend⟩
      -- the control the request has marked belongs to a dispatch that has marked its row running
      left
      obtain ⟨q', p₁, hp₁, t', ht', rfl⟩ := hok.controls j (by
        simpa [taken, KeyedList.has, Option.isSome_iff_ne_none] using hhas)
      have hne : q' ≠ q := by
        rintro rfl
        cases hp.symm.trans hp₁
        rw [show p.point.1 = p.pc from rfl, hpc] at ht'
        cases ht'
      refine ⟨q', p₁, hne, hp₁, ?_⟩
      have hsep := (hok.base.apart q q' p p₁ (Ne.symm hne) hp hp₁).1.reading t'.id n t t' (by
        rw [hpoint, hpc, hr]
        rfl) hrun
      exact willEnd_of_registered ht' fun hnone => hsep hnone rfl
  enter s e w nx hc hfresh hok h :=
    hc.passes_enter hfresh fun _ hr => due_enter hok.rollup.world hok.toRollupStep h hr

theorem debt_reaches {cfg : Config} {table : Table} {s : QState} (hplaced : AnchorsPlaced table)
    (hexact : AnchorsExact table) (h : QReaches cfg RollupStep (boot table) s) :
    Covered due owes s := by
  have hbase : ∀ u, QReaches cfg RollupStep (boot table) u → BaseInv u := fun u hu =>
    base_reaches (fun _ _ hok => hok.toCurrent) hu
  have hcontrols : ∀ u, QReaches cfg RollupStep (boot table) u →
      Covered (fun w id => taken w (.control id)) (fun x id => holds x (.control id)) u := fun u hu =>
    (control_covering cfg _).reaches (fun id hid => (hid rfl).elim)
      (fun v hv => (hbase v hv).fresh) hu
  have hstrong := h.strengthen (I := fun u => BaseInv u ∧ Inv Rolled RollupHere (fun _ _ => True) u ∧
    Covered (fun w id => taken w (.control id)) (fun x id => holds x (.control id)) u)
    fun u hu => ⟨hbase u hu, rollup_reaches hplaced hexact hu, hcontrols u hu⟩
  have hsteps : QReaches cfg AnchorStep (boot table) s :=
    hstrong.mono fun _ _ ⟨hok, hb, hroll, hctl⟩ => ⟨hok, hb, hroll, hctl⟩
  refine (debt_covering cfg).reaches ?_ (fun u hu => ?_) hsteps
  · rintro (p | ⟨p, c⟩) hdue
    · obtain ⟨hrun, hpar, hend⟩ := hdue
      obtain ⟨y, hy, hopen⟩ := (hexact.running p .running hpar hrun).mp rfl
      rw [hend y hy] at hopen
      cases hopen
    · obtain ⟨⟨x, hterm, hst⟩, row, hrow, hparent, hopen⟩ := hdue
      have hpar : IsParent table p := isParent_iff.mpr ⟨c, row, hrow, hparent⟩
      have hrun := (hexact.running p x hpar hst).mpr
        ⟨_, mem_childStatuses.mpr ⟨c, row, hrow, hparent, rfl⟩, hopen⟩
      rw [hrun] at hterm
      cases hterm
  · exact (hbase u (hu.mono fun _ _ hok => hok.toRollupStep)).fresh

theorem anchors_exact {cfg : Config} {table : Table} {s : QState} (hplaced : AnchorsPlaced table)
    (hexact : AnchorsExact table) (h : QReaches cfg RollupStep (boot table) s)
    (hquiet : Quiescent s) : AnchorsExact s.world.table := by
  have hroll := (rollup_reaches hplaced hexact h).world
  have hnone : ∀ r, ¬due s.world r := by
    intro r hr
    obtain ⟨q, p, hp, -⟩ := debt_reaches hplaced hexact h r hr
    rw [hquiet] at hp
    cases hp
  refine ⟨fun p x hpar hst => ⟨?_, ?_⟩, fun p x hpar hst hterm hne => (hroll.exact p x hpar hst hterm hne).2⟩
  · rintro rfl
    by_contra hall
    push Not at hall
    exact hnone (.rollup p) ⟨hst, hpar, fun y hy => by simpa using hall y hy⟩
  · rintro ⟨y, hy, hopen⟩
    obtain ⟨id, row, hrow, hparent, rfl⟩ := mem_childStatuses.mp hy
    obtain ⟨z, hz, hrank⟩ := hroll.placed p hpar
    cases hst.symm.trans hz
    by_contra hne
    exact hnone (.cancel p id) ⟨⟨x, terminal_of_rank hrank hne, hst⟩, row, hrow, hparent, hopen⟩

/-! ## A bulk cancel of the last open sub-task -/

instance (s : QState) (l : QLabel) : Decidable (RollupStep s l) :=
  decidable_of_iff
    (KeepsEnded s l ∧ cleaning l = false ∧
      (∀ row ∈ inserted l, ∀ p ∈ row.parentTaskId, s.world.table.status p = some .running ∧
        ∀ e ∈ s.procs, ∀ t ∈ e.2.pc.dispatched, t.id ≠ p) ∧
      (∀ a ∈ s.world.table.rows, a.status = .running →
        (∃ c ∈ s.world.table.rows, c.parentTaskId = some a.id ∧ bulkCancels l c = true) →
        ∃ c ∈ s.world.table.rows, c.parentTaskId = some a.id ∧ c.status.terminal = false ∧
          bulkCancels l c = false) ∧
      (∀ pc ∈ served s l, ∀ e ∈ pc.rollsUp,
        parentStatus (s.world.table.select (fun t => t.parentTaskId = some e.1)) = e.2) ∧
      (∀ pc ∈ served s l, ∀ t ∈ pc.toCancel, s.world.table.status t.id ≠ some .running) ∧
      (∀ pc ∈ served s l, ∀ t ∈ pc.cascades, ∀ c ∈ s.world.table.rows,
        c.parentTaskId = some t.id → c.status ≠ .prepared) ∧ dropping s l = false)
    ⟨fun ⟨h₁, h₂, h₃, h₄, h₅, h₆, h₇, h₈⟩ => ⟨h₁, h₂, h₃, h₄, h₅, h₆, h₇, h₈⟩,
      fun h => ⟨h.toKeepsEnded, h.uncleaned, h.placed, h.bulk, h.current, h.gate, h.cascade, h.kept⟩⟩

theorem not_isParent_empty (p : TaskId) : ¬IsParent .empty p := by
  rintro ⟨c, hc, -⟩
  cases hc

theorem anchorsPlaced_empty : AnchorsPlaced .empty := fun p hp => absurd hp (not_isParent_empty p)

theorem anchorsExact_empty : AnchorsExact .empty :=
  ⟨fun p _ hp => absurd hp (not_isParent_empty p), fun p _ hp => absurd hp (not_isParent_empty p)⟩

/-- A running anchor with one pending sub-task. -/
def anchorLabels : List QLabel :=
  [.enter (.create { id := 0, zoneName := "web", operation := "zone_sync_parent", status := .running }),
    .enter (.create { id := 1, zoneName := "web", operation := "zone_sync", parentTaskId := some 0 })]

theorem anchors_exact_fails : ¬∀ (cfg : Config) (table : Table) (s : QState),
    AnchorsPlaced table → AnchorsExact table → QReaches cfg (fun _ _ => True) (boot table) s →
      Quiescent s → AnchorsExact s.world.table := by
  intro h
  obtain ⟨s, hs, hquiet, hrun, hrows⟩ := Transition.exists_reaches_of_run (step (program {}))
    (fun _ _ => True) (boot .empty) (anchorLabels ++ [.enter (.bulkCancel ["web"] none)])
    (P := fun s => Quiescent s ∧ s.world.table.status 0 = some .running ∧
      s.world.table.rows.map (fun t => (t.parentTaskId, t.status)) =
        [(none, .running), (some 0, .cancelled)]) (by decide +kernel)
  have hchild : ∀ c, Child s.world.table 0 c → c.status = .cancelled := by
    rintro c ⟨hc, hparent⟩
    have hmem := List.mem_map_of_mem (f := fun t : Task => (t.parentTaskId, t.status)) hc
    rw [hrows, hparent] at hmem
    simpa using hmem
  have hpar : IsParent s.world.table 0 := by
    have hmem : (some 0, Status.cancelled) ∈
        s.world.table.rows.map (fun t => (t.parentTaskId, t.status)) := by simp [hrows]
    obtain ⟨c, hc, heq⟩ := List.mem_map.mp hmem
    exact ⟨c, hc, congrArg Prod.fst heq⟩
  have hexact := h {} .empty s anchorsPlaced_empty anchorsExact_empty hs hquiet
  obtain ⟨y, ⟨c, hc, rfl⟩, hopen⟩ := (hexact.running 0 .running hpar hrun).mp rfl
  rw [hchild c hc] at hopen
  cases hopen

theorem anchors_exact_completed : ∃ s, QReaches {} RollupStep (boot .empty) s ∧
    s.world.table.status 0 = some .completed ∧ AnchorsExact s.world.table := by
  obtain ⟨s, hs, hquiet, hdone⟩ := Transition.exists_reaches_of_run (step (program {})) RollupStep
    (boot .empty) (anchorLabels ++ dispatchLabels 2 1 ++ endLabels 2 true)
    (P := fun s => Quiescent s ∧ s.world.table.status 0 = some .completed) (by decide +kernel)
  exact ⟨s, hs, hdone, anchors_exact anchorsPlaced_empty anchorsExact_empty hs hquiet⟩

end ZoneweaverAgent.TaskQueue
