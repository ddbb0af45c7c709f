import ZoneweaverAgent.TaskQueueRelease

/-!
# A confirmed cancellation is not lost

A cancel request answers once it has flipped a pending row, closed out a running row that has no
control, or marked the control of a live dispatch. The dispatch writes `running` and its terminal
status without a guard, and so does the rollup of an anchor, so each of them may write over a row
that was cancelled since it was read. `KeepsCancelled` excludes these writes; then a task whose
cancellation was confirmed before it ran is never started, and once nothing is in progress every
confirmed cancellation is in the table.
-/

namespace ZoneweaverAgent.TaskQueue
open EventLoop

/-! ## The property -/

structure CancellationKept (s : QState) : Prop where
  notStarted : ∀ newer older id was,
    s.world.history = newer ++ .cancelAnswered id false was :: older →
    was = .pending ∨ was = .prepared → .started id ∉ newer
  cancelled : Quiescent s → ∀ id wasRunning was,
    .cancelAnswered id wasRunning was ∈ s.world.history →
    ∀ x, s.world.table.status id = some x → x = .cancelled

/-! ## The condition -/

/-- The row into which serving here writes a status other than `cancelled` that was computed from
an earlier read. -/
def overwrites : Pc → Option TaskId
  | .finish t status _ => if status = .cancelled then none else some t.id
  | .updateParent parent _ update => if update.status.isSome then some parent.id else none
  | _ => none

def overwriting (s : QState) : QLabel → Option TaskId
  | .serve pid _ => (s.procs.get pid).bind fun p => overwrites p.pc
  | _ => none

/-- The task whose row this step marks running. -/
def marking (s : QState) : QLabel → Option Task
  | .serve pid _ =>
    match s.procs.get pid with
    | some ⟨.markRunning t, _, _⟩ => some t
    | _ => none
  | _ => none

/-- This step handles the rejection of the update that ends a cancelled task. -/
def refusing (s : QState) : QLabel → Bool
  | .resume pid =>
    match s.procs.get pid with
    | some ⟨.finish _ .cancelled _, .ready (.answer _), _⟩ => false
    | some ⟨.finish _ .cancelled _, _, _⟩ => true
    | _ => false
  | _ => false

structure KeepsCancelled (s : QState) (l : QLabel) : Prop extends Current s l where
  marks : ∀ t ∈ marking s l, s.world.table.status t.id = some .pending
  uncancelled : ∀ id ∈ overwriting s l, s.world.table.status id ≠ some .cancelled
  accepted : refusing s l = false

/-! ## Cancelled rows -/

/-- The row is cancelled, or was and has been deleted since. -/
structure Cancelled (w : World) (id : TaskId) : Prop where
  minted : id < w.table.next
  status : ∀ x, w.table.status id = some x → x = .cancelled

theorem writes_overwrites {w : World} {id : TaskId} {pc : Pc} {x : Status} (hpc : pc.WellFormed)
    (h : writes w id pc = some x) :
    x = .cancelled ∨ (∃ t, pc = .markRunning t ∧ id = t.id) ∨
      (∃ t, pc = .uploaded t ∧ id = t.id) ∨ overwrites pc = some id := by
  cases pc with
  | markRunning t =>
    simp only [writes, Option.ite_none_right_eq_some] at h
    exact .inr (.inl ⟨t, rfl, h.1⟩)
  | uploaded t =>
    simp only [writes, Option.ite_none_right_eq_some] at h
    exact .inr (.inr (.inl ⟨t, rfl, h.1⟩))
  | finish t status data =>
    simp only [writes, Option.ite_none_right_eq_some, hpc.1, Option.some.injEq] at h
    obtain ⟨rfl, rfl⟩ := h
    by_cases hc : status = .cancelled
    · exact .inl hc
    · exact .inr (.inr (.inr (if_neg hc)))
  | updateParent parent status update =>
    simp only [writes, Option.ite_none_right_eq_some] at h
    obtain ⟨rfl, hx⟩ := h
    exact .inr (.inr (.inr (if_pos (by rw [hx]; rfl))))
  | cancelDependents toCancel completed =>
    simp only [writes, Option.ite_none_right_eq_some, Option.some.injEq] at h
    exact .inl h.2.symm
  | flip t attempt =>
    simp only [writes, Option.ite_none_right_eq_some, Option.some.injEq] at h
    exact .inl h.2.symm
  | close t =>
    simp only [writes, Option.ite_none_right_eq_some, Option.some.injEq] at h
    exact .inl h.2.symm
  | _ => simp only [writes, reduceCtorEq] at h

theorem Cancelled.serve {s : QState} {pid : ℕ} {c : Choice} {p : Activation Pc Ans} {a : Ans}
    {w : World} {id : TaskId} (hs : Cancelled s.world id) (hp : s.procs.get pid = some p)
    (hok : KeepsCancelled s (.serve pid c)) (h : serve s.world p.pc c = some (a, w))
    (hpc : p.pc.WellFormed) : Cancelled w id := by
  refine ⟨hs.minted.trans_le (serve_next h), fun x hx => ?_⟩
  obtain ⟨y, hy, rfl | hw⟩ := serve_status_eq h hs.minted hx
  · exact hs.status x hy
  · cases hs.status y hy
    rcases writes_overwrites hpc hw with hc | ⟨t, hpc', rfl⟩ | ⟨t, hpc', rfl⟩ | hover
    · exact hc
    · have hmark : t ∈ marking s (.serve pid c) := by
        obtain ⟨pc, phase, caller⟩ := p
        cases hpc'
        simp [marking, hp]
      cases hy.symm.trans (hok.marks t hmark)
    · cases hy.symm.trans (hok.prepared t (mem_releasing hp hpc'))
    · exact absurd hy (hok.uncancelled id (by simp [overwriting, hp, hover]))

theorem Cancelled.entered {w w' : World} {nx : Next Pc} {id : TaskId} (hs : Cancelled w id)
    (h : Entered w w' nx) : Cancelled w' id := by
  refine ⟨hs.minted.trans_le h.next, fun x hx => ?_⟩
  rcases h.status id hs.minted with heq | ⟨-, hc⟩ | ⟨y, -, -, hn⟩
  · exact hs.status x (heq ▸ hx)
  · exact (Option.some.inj (hc.symm.trans hx)).symm
  · rw [hn] at hx
    cases hx

theorem Cancelled.of_table {w w' : World} {id : TaskId} (hs : Cancelled w id)
    (h : w'.table = w.table) : Cancelled w' id := by
  refine ⟨?_, ?_⟩ <;> rw [h]
  · exact hs.minted
  · exact hs.status

/-- A row that a write has just cancelled. -/
theorem cancelled_of_writes {w w' : World} {pc : Pc} {c : Choice} {a : Ans} {id : TaskId}
    (h : serve w pc c = some (a, w')) (hid : id < w.table.next)
    (hw : w.table.status id ≠ none → writes w id pc = some .cancelled) : Cancelled w' id := by
  refine ⟨hid.trans_le (serve_next h), fun x hx => ?_⟩
  rw [serve_status h hid] at hx
  obtain ⟨y, hy, rfl⟩ := Option.map_eq_some_iff.mp hx
  rw [hw (by simp [hy])]
  rfl

theorem served_flip {w w' : World} {t : Task} {attempt : ℕ} {c : Choice} {a : Ans}
    (h : serve w (.flip t attempt) c = some (a, w')) (ha : a ≠ .count 0) :
    w.table.status t.id = some t.status ∧ Cancelled w' t.id := by
  have hst : w.table.status t.id = some t.status := by
    cases c <;> simp only [serve, Option.some.injEq, Prod.mk.injEq, reduceCtorEq] at h
    obtain ⟨hcount, -⟩ := h
    have hne : w.table.select (fun t' => t'.id = t.id && t'.status = t.status) ≠ [] := by
      intro hnil
      rw [hnil] at hcount
      exact ha hcount.symm
    obtain ⟨t', ht'⟩ := List.exists_mem_of_ne_nil _ hne
    obtain ⟨hmem, hp⟩ := List.mem_filter.mp ht'
    simp only [Bool.and_eq_true, decide_eq_true_eq] at hp
    rw [← hp.2]
    exact Table.status_of_find (Table.find_eq_some_iff.mpr ⟨hmem, hp.1⟩)
  exact ⟨hst, cancelled_of_writes h (Table.status_lt hst) fun _ => by simp [writes, hst]⟩

/-! ## The cancel requests -/

/-- The pending or prepared row that this activation has flipped and not yet answered for. -/
def flipped : Point Pc Ans → Option Task
  | (.flip t _, some a) => if a = .count 0 then none else some t
  | (.flipParent t, _) => some t
  | _ => none

/-- The running row that this activation has closed out and not yet answered for. -/
def closed : Point Pc Ans → Option Task
  | (.close t, some _) | (.children t, _) | (.cascade t _, _) | (.closeParent t, _) => some t
  | _ => none

theorem afterParent_points (w : World) (t : Task) (status : Status) :
    ∀ x ∈ (afterParent w t status).2.points, flipped (x, none) = none ∧ closed (x, none) = none := by
  unfold afterParent
  dsimp only
  split_ifs <;> simp [Next.points, flipped, closed]

theorem toCascade_points (w : World) (t : Task) (ids : List TaskId) :
    ∀ x ∈ (toCascade w t ids).2.points,
      flipped (x, none) = none ∧ ∀ t', closed (x, none) = some t' → t' = t := by
  unfold toCascade
  split
  · simp [Next.points, flipped, closed]
  · split <;> simp [Next.points, flipped, closed]

/-- An activation that has cancelled a row goes on to answer for that row. -/
theorem resume_cancelling (w : World) (pc : Pc) (r : Reply Ans) :
    ∀ x ∈ (resume w pc r).2.points,
      (∀ t, flipped (x, none) = some t → flipped (pc, (Phase.ready r).seen) = some t) ∧
      ∀ t, closed (x, none) = some t → closed (pc, (Phase.ready r).seen) = some t := by
  unfold resume
  split
  case h_9 =>
    dsimp only
    split <;> simp [caught, Next.points, flipped, closed]
  case h_11 =>
    dsimp only
    split
    · simp [Next.points, flipped, closed]
    · intro x hx
      simp [afterParent_points _ _ _ x hx]
  case h_12 =>
    intro x hx
    simp [afterParent_points _ _ _ x hx]
  case h_25 t attempt a ha =>
    split
    · have hne : a ≠ .count 0 := ha
      simp [Next.points, flipped, closed, Phase.seen, hne]
    · simp [Next.points]
  case h_27 => simp [Next.points, flipped, closed, Phase.seen]
  case h_28 =>
    intro x hx
    obtain ⟨hflip, hclose⟩ := toCascade_points _ _ _ x hx
    refine ⟨by simp [hflip], fun t ht => ?_⟩
    rw [hclose t ht]
    rfl
  case h_29 =>
    intro x hx
    obtain ⟨hflip, hclose⟩ := toCascade_points _ _ _ x hx
    refine ⟨by simp [hflip], fun t ht => ?_⟩
    rw [hclose t ht]
    rfl
  all_goals (try split) <;> (try split_ifs)
  all_goals simp [Next.points, flipped, closed, toPick, caught]

theorem toCascade_history {w : World} {t : Task} {ids : List TaskId} {id : TaskId} {was : Status}
    (h : .cancelAnswered id false was ∈ (toCascade w t ids).1.history) :
    .cancelAnswered id false was ∈ w.history ∨ t.id = id ∧ was = .running := by
  unfold toCascade at h
  split at h
  · exact .inl h
  · split at h
    · exact .inl h
    · rcases List.mem_cons.mp h with heq | hmem
      · cases heq
        exact .inr ⟨rfl, rfl⟩
      · exact .inl hmem

theorem mem_record_false {w : World} {id id' : TaskId} {b : Bool} {was was' : Status}
    (h : .cancelAnswered id false was ∈ (w.record (.cancelAnswered id' b was')).history) :
    .cancelAnswered id false was ∈ w.history ∨ b = false ∧ id' = id ∧ was' = was := by
  rcases List.mem_cons.mp h with heq | hmem
  · cases heq
    exact .inr ⟨rfl, rfl, rfl⟩
  · exact .inl hmem

/-- A request answers `wasRunning: false` for the row it has cancelled. -/
theorem resume_answers (w : World) (pc : Pc) (r : Reply Ans) {id : TaskId} {was : Status}
    (h : .cancelAnswered id false was ∈ (resume w pc r).1.history) :
    .cancelAnswered id false was ∈ w.history ∨ ∃ t, t.id = id ∧
      (flipped (pc, (Phase.ready r).seen) = some t ∨
        closed (pc, (Phase.ready r).seen) = some t ∧ was = .running) := by
  unfold resume at h
  split at h
  case h_9 =>
    dsimp only at h
    split at h <;> exact .inl h
  case h_11 =>
    dsimp only [afterParent] at h
    split at h
    · exact .inl h
    · split_ifs at h <;> exact .inl h
  case h_12 =>
    dsimp only [afterParent] at h
    split_ifs at h <;> exact .inl h
  case h_22 id' attempt t =>
    split at h
    case h_3 =>
      split_ifs at h
      · exact (mem_record_false h).imp_right fun hfalse => by cases hfalse.1
      · exact .inl h
    all_goals exact .inl h
  case h_25 t attempt a ha =>
    have hne : a ≠ .count 0 := ha
    split at h
    · exact .inl h
    · refine (mem_record_false h).imp_right fun hfalse => ⟨t, hfalse.2.1, .inl ?_⟩
      simp [flipped, Phase.seen, hne]
  case h_26 t =>
    exact (mem_record_false h).imp_right fun hfalse => ⟨t, hfalse.2.1, .inl rfl⟩
  case h_28 t children =>
    exact (toCascade_history h).imp_right fun hnew => ⟨t, hnew.1, .inr ⟨rfl, hnew.2⟩⟩
  case h_29 t rest =>
    exact (toCascade_history h).imp_right fun hnew => ⟨t, hnew.1, .inr ⟨rfl, hnew.2⟩⟩
  case h_30 t =>
    exact (mem_record_false h).imp_right fun hfalse =>
      ⟨t, hfalse.2.1, .inr ⟨rfl, hfalse.2.2.symm⟩⟩
  case h_7 => exact .inl ((List.mem_cons.mp h).resolve_left (by simp))
  all_goals (try split at h) <;> (try split_ifs at h)
  all_goals exact .inl h

/-! ## The invariant -/

/-- A newer start and an older answer that the row was cancelled before it ran. -/
def LostStart (newer older : Event) : Prop :=
  ∃ id was, newer = .started id ∧ older = .cancelAnswered id false was ∧
    (was = .pending ∨ was = .prepared)

structure AnswersHold (w : World) : Prop where
  cancelled : ∀ id was, .cancelAnswered id false was ∈ w.history → Cancelled w id
  order : w.history.Pairwise fun newer older => ¬LostStart newer older

structure CancelHere (w : World) (x : Point Pc Ans) : Prop where
  flipped : ∀ t, flipped x = some t → Cancelled w t.id
  closed : ∀ t, closed x = some t → Cancelled w t.id
  finished : ∀ t data a, x = (.finish t .cancelled data, some a) → Cancelled w t.id
  marked : ∀ t a, x = (.markRunning t, some a) → ∀ was, was = .pending ∨ was = .prepared →
    .cancelAnswered t.id false was ∉ w.history
  requested : ∀ t, x.1.registered = some t → ∀ was, .cancelAnswered t.id true was ∈ w.history →
    w.taskControls.get t.id = some ⟨true⟩

/-- A row that one activation has flipped is not one that another has marked running. -/
def FlipApart (x y : Point Pc Ans) : Prop :=
  ∀ t t' a, flipped x = some t → y = (.markRunning t', some a) → t.id ≠ t'.id

def CancelApart (x y : Point Pc Ans) : Prop := FlipApart x y ∧ FlipApart y x

abbrev CancelInv : QState → Prop := Inv AnswersHold CancelHere CancelApart

theorem CancelHere.transfer {w w' : World} {x : Point Pc Ans} (hx : CancelHere w x)
    (hc : ∀ id, Cancelled w id → Cancelled w' id)
    (hmarked : ∀ t a, x = (.markRunning t, some a) → ∀ was, was = .pending ∨ was = .prepared →
      .cancelAnswered t.id false was ∉ w'.history)
    (hreq : ∀ t, x.1.registered = some t → ∀ was, .cancelAnswered t.id true was ∈ w'.history →
      w'.taskControls.get t.id = some ⟨true⟩) : CancelHere w' x where
  flipped t ht := hc _ (hx.flipped t ht)
  closed t ht := hc _ (hx.closed t ht)
  finished t data a ht := hc _ (hx.finished t data a ht)
  marked := hmarked
  requested := hreq

/-- Nothing is known yet of an answer that has not come. -/
theorem cancelHere_new {w : World} {pc : Pc}
    (hflip : ∀ t, TaskQueue.flipped (pc, none) = some t → Cancelled w t.id)
    (hclose : ∀ t, TaskQueue.closed (pc, none) = some t → Cancelled w t.id)
    (hreq : ∀ t, pc.registered = some t → ∀ was, .cancelAnswered t.id true was ∈ w.history →
      w.taskControls.get t.id = some ⟨true⟩) : CancelHere w (pc, none) where
  flipped := hflip
  closed := hclose
  finished t data a ht := by cases ht
  marked t a ht := by cases ht
  requested := hreq

theorem flipApart_new (x : Point Pc Ans) (pc : Pc) : FlipApart x (pc, none) := by
  intro t t' a _ ht'
  cases ht'

section Serve
variable {s : QState} {pid : ℕ} {c : Choice} {p : Activation Pc Ans} {a : Ans} {w : World}

/-- The mover with its answer: a flip that found its row, a close-out and the end of a cancelled
task have just cancelled it, and a row marked running was pending, so nobody has cancelled it. -/
theorem CancelHere.served {pc : Pc} (hx : CancelHere s.world (pc, none))
    (hhere : Here s.world (pc, none)) (hw : AnswersHold s.world)
    (hc : ∀ id, Cancelled s.world id → Cancelled w id) (h : serve s.world pc c = some (a, w))
    (hmark : ∀ t, pc = .markRunning t → s.world.table.status t.id = some .pending) :
    CancelHere w (pc, some a) where
  flipped t ht := by
    cases pc <;> simp only [TaskQueue.flipped, reduceCtorEq] at ht
    · split_ifs at ht with ha
      cases ht
      exact (served_flip h ha).2
    · exact hc _ (hx.flipped t ht)
  closed t ht := by
    cases pc <;> simp only [TaskQueue.closed, reduceCtorEq] at ht
    case close =>
      cases ht
      exact cancelled_of_writes h (hhere.retiring _ rfl).minted fun _ => if_pos rfl
    all_goals exact hc _ (hx.closed t ht)
  finished t data b ht := by
    cases ht
    refine cancelled_of_writes h (hhere.retiring _ rfl).minted fun _ => ?_
    simp [writes, hhere.wellFormed.1]
  marked t b ht was _ he := by
    cases ht
    rw [(serve_registries h).history] at he
    have := (hw.cancelled t.id was he).status _ (hmark t rfl)
    cases this
  requested := by
    rw [(serve_registries h).history, (serve_registries h).taskControls]
    exact hx.requested

theorem CancelApart.served {pc : Pc} {y : Point Pc Ans} (hdis : CancelApart (pc, none) y)
    (hx : Here s.world (pc, none)) (hy : Here s.world y) (hyc : CancelHere s.world y)
    (h : serve s.world pc c = some (a, w))
    (hmark : ∀ t, pc = .markRunning t → s.world.table.status t.id = some .pending) :
    CancelApart (pc, some a) y where
  left t t' b ht ht' heq := by
    cases pc <;> simp only [flipped, reduceCtorEq] at ht
    · split_ifs at ht with ha
      cases ht
      have hst := (served_flip h ha).1
      have hset := hy.marked t' b ht'
      rw [heq] at hst
      rcases hx.wellFormed with hpend | hprep
      · exact hset.pending (hst.trans (congrArg some hpend))
      · exact hset.prepared (hst.trans (congrArg some hprep))
    · exact hdis.1 t t' b ht ht' heq
  right t t' b ht ht' heq := by
    cases ht'
    have := (hyc.flipped t ht).status _ (heq ▸ hmark t' rfl)
    cases this

theorem cancel_serve (hi : CancelInv s) (hb : BaseInv s) (hp : s.procs.get pid = some p)
    (hseen : p.phase.seen = none) (hok : KeepsCancelled s (.serve pid c))
    (h : serve s.world p.pc c = some (a, w)) :
    Respects AnswersHold CancelHere CancelApart s pid w [(p.pc, some a)] := by
  have hpoint : p.point = (p.pc, none) := by rw [Activation.point, hseen]
  have hhere : Here s.world (p.pc, none) := hpoint ▸ hb.here pid p hp
  have hreg := serve_registries h
  have hc : ∀ id, Cancelled s.world id → Cancelled w id := fun id hs =>
    hs.serve hp hok h hhere.wellFormed
  have hmark : ∀ t, p.pc = .markRunning t → s.world.table.status t.id = some .pending := by
    intro t ht
    obtain ⟨pc, phase, caller⟩ := p
    cases ht
    exact hok.marks t (by simp [marking, hp])
  refine ⟨⟨?_, ?_⟩, ?_, List.pairwise_singleton _ _, ?_⟩
  · rw [hreg.history]
    exact fun id was he => hc id (hi.world.cancelled id was he)
  · rw [hreg.history]
    exact hi.world.order
  · intro x hx
    rw [List.mem_singleton.mp hx]
    exact (hpoint ▸ hi.here pid p hp).served hhere hi.world hc h hmark
  · intro q p' hq hp'
    have hyc := hi.here q p' hp'
    refine ⟨hyc.transfer hc ?_ ?_, fun x hx => ?_⟩
    · rw [hreg.history]
      exact hyc.marked
    · rw [hreg.history, hreg.taskControls]
      exact hyc.requested
    · rw [List.mem_singleton.mp hx]
      exact (hpoint ▸ hi.apart pid q p p' (Ne.symm hq) hp hp').served hhere (hb.here q p' hp') hyc h
        hmark

end Serve

section Resume
variable {w w' : World} {pc : Pc} {r : Reply Ans} {nx : Next Pc} {y : Point Pc Ans}

theorem Resumed.history_eq (h : Resumed w pc r w' nx) :
    w'.history = w.history ∨ ∃ e, w'.history = e :: w.history ∧
      ∀ id, e = .started id → ∃ t a, pc = .markRunning t ∧ r = .answer a ∧ t.id = id := by
  cases h with
  | @started t a =>
    refine .inr ⟨_, rfl, ?_⟩
    rintro id ⟨⟩
    exact ⟨t, a, rfl, rfl, rfl⟩
  | answered => exact .inr ⟨_, rfl, by simp⟩
  | cancelMarked => exact .inr ⟨_, rfl, by simp⟩
  | _ => exact .inl rfl

theorem Resumed.registered_points (h : Resumed w pc r w' nx) {x : Pc} (hx : x ∈ nx.points)
    {t : Task} (ht : x.registered = some t) :
    nx = .await (.markRunning t) ∨ pc = .markRunning t ∧ w'.taskControls = w.taskControls := by
  rcases h.dispatched_points hx (Pc.dispatched_of_registered ht) with hnx | hpc
  · exact .inl hnx
  · cases h with
    | started =>
      cases hpc
      exact .inr ⟨rfl, rfl⟩
    | plain _ hp => exact absurd (hp x hx).quiet.1 (by simp [ht])
    | finalizedLast hp => exact absurd (hp x hx).quiet.1 (by simp [ht])
    | released hp => exact absurd (hp x hx).quiet.1 (by simp [ht])
    | answered _ hp => exact absurd (hp x hx).quiet.1 (by simp [ht])
    | finalized =>
      rcases List.mem_cons.mp hx with rfl | hx
      · cases ht
      · rw [List.mem_singleton.mp hx] at ht
        cases ht
    | unlocked => cases hx
    | cancelMarked => cases hx
    | registered => cases hpc
    | _ =>
      rw [List.mem_singleton.mp hx] at ht
      cases ht

/-- Another activation leaves the mark of a registered task in place, and a cancel request that
answers `wasRunning: true` sets it. -/
theorem CancelHere.requested_resumed (hyc : CancelHere w y) (hy : Here w y)
    (h : Resumed w pc r w' nx) (hdis : Separate (pc, (Phase.ready r).seen) y)
    (hnew : ∀ t, nx = .await (.markRunning t) → w.runningTasks.get t.id = none) {t : Task}
    (ht : y.1.registered = some t) {was : Status}
    (he : .cancelAnswered t.id true was ∈ w'.history) :
    w'.taskControls.get t.id = some ⟨true⟩ := by
  by_cases hcancel : ∃ attempt, pc = .cancelFind t.id attempt
  · obtain ⟨attempt, rfl⟩ := hcancel
    cases h with
    | cancelMarked => simp [World.markCancelled, World.record]
    | plain => exact hyc.requested t ht was he
    | answered =>
      exact hyc.requested t ht was ((List.mem_cons.mp he).resolve_left (by simp))
    | closing => exact hyc.requested t ht was he
  · have hkeep : w'.taskControls.get t.id = w.taskControls.get t.id := by
      refine h.taskControls_get (fun t' hnx heq => ?_) (fun t' ht' => ?_)
        fun attempt heq => hcancel ⟨attempt, heq⟩
      · have hnone := hnew t' hnx
        rw [heq, hy.running t ht] at hnone
        cases hnone
      · exact hdis.1.entered t' t (Pc.entered_of_registered ht') (Pc.entered_of_registered ht)
    rw [hkeep]
    rcases h.requested he with hmem | ⟨attempt, _, hpc, -, -⟩
    · exact hyc.requested t ht was hmem
    · exact absurd ⟨attempt, hpc⟩ hcancel

end Resume

theorem cancel_resume {s : QState} {pid : ℕ} {p : Activation Pc Ans} {r : Reply Ans} {w : World}
    {nx : Next Pc} (hi : CancelInv s) (hb : BaseInv s) (hp : s.procs.get pid = some p)
    (hphase : p.phase = .ready r) (hok : KeepsCancelled s (.resume pid))
    (h : resume s.world p.pc r = (w, nx)) :
    Respects AnswersHold CancelHere CancelApart s pid w (nx.points.map (·, none)) := by
  have hpoint : p.point = (p.pc, (Phase.ready r).seen) := by rw [Activation.point, hphase]
  have hx : CancelHere s.world (p.pc, (Phase.ready r).seen) := hpoint ▸ hi.here pid p hp
  have hres := resumed_of_eq h
  have htable := (resumed_table hres).1
  have hc : ∀ id, Cancelled s.world id → Cancelled w id := fun id hs => hs.of_table htable
  have hnew : ∀ t, nx = .await (.markRunning t) → t ∈ registering s (.resume pid) := fun t ht =>
    registering_of_resumed (ht ▸ hres) hp hphase
  have hcancelling : ∀ x ∈ nx.points,
      (∀ t, flipped (x, none) = some t → flipped (p.pc, (Phase.ready r).seen) = some t) ∧
      ∀ t, closed (x, none) = some t → closed (p.pc, (Phase.ready r).seen) = some t := by
    have := resume_cancelling s.world p.pc r
    rwa [h] at this
  have hanswers : ∀ id was, .cancelAnswered id false was ∈ w.history →
      .cancelAnswered id false was ∈ s.world.history ∨ ∃ t, t.id = id ∧
        (flipped (p.pc, (Phase.ready r).seen) = some t ∨
          closed (p.pc, (Phase.ready r).seen) = some t ∧ was = .running) := by
    intro id was he
    refine resume_answers s.world p.pc r ?_
    rwa [h]
  refine ⟨⟨?_, ?_⟩, ?_, ?_, ?_⟩
  · intro id was he
    rcases hanswers id was he with hmem | ⟨t, rfl, hflip | ⟨hclose, -⟩⟩
    · exact hc id (hi.world.cancelled id was hmem)
    · exact hc _ (hx.flipped t hflip)
    · exact hc _ (hx.closed t hclose)
  · rcases hres.history_eq with heq | ⟨e, heq, hstart⟩
    · exact heq ▸ hi.world.order
    · rw [heq]
      refine List.pairwise_cons.mpr ⟨?_, hi.world.order⟩
      rintro older hmem ⟨id, was, rfl, rfl, hwas⟩
      obtain ⟨t, a, hpc, rfl, rfl⟩ := hstart id rfl
      exact hx.marked t a (by rw [hpc]; rfl) was hwas hmem
  · intro x hxs
    obtain ⟨pc, hpc, rfl⟩ := List.mem_map.mp hxs
    refine cancelHere_new (fun t ht => hc _ (hx.flipped t ((hcancelling pc hpc).1 t ht)))
      (fun t ht => hc _ (hx.closed t ((hcancelling pc hpc).2 t ht))) ?_
    intro t ht was he
    rcases hres.registered_points hpc ht with hnx | ⟨hmark, hctl⟩
    · -- a request marks a running row only, and this one was pending until now
      exfalso
      have hreg := hnew t hnx
      rcases hres.requested he with hmem | ⟨attempt, _, hpc', -, -⟩
      · exact (hb.world.requested t.id was hmem).pending (hok.pending t hreg)
      · obtain ⟨⟨completed, busy, hpick⟩, -, -⟩ := (hnx ▸ hres).registers
        rw [hpick] at hpc'
        cases hpc'
    · rw [hctl]
      refine hx.requested t (by rw [hmark]; rfl) was ?_
      rcases hres.requested he with hmem | ⟨attempt, _, hpc', -, -⟩
      · exact hmem
      · rw [hmark] at hpc'
        cases hpc'
  · refine List.pairwise_map.mpr (List.pairwise_of_forall_mem_list ?_)
    exact fun _ _ _ _ => ⟨flipApart_new _ _, flipApart_new _ _⟩
  · intro q p' hq hp'
    have hyc := hi.here q p' hp'
    have hdis : CancelApart (p.pc, (Phase.ready r).seen) p'.point :=
      hpoint ▸ hi.apart pid q p p' (Ne.symm hq) hp hp'
    have hsep : Separate (p.pc, (Phase.ready r).seen) p'.point :=
      hpoint ▸ hb.apart pid q p p' (Ne.symm hq) hp hp'
    refine ⟨hyc.transfer hc ?_ ?_, fun x hxs => ?_⟩
    · intro t a ht was hwas he
      rcases hanswers t.id was he with hmem | ⟨t', hid, hflip | ⟨-, hrun⟩⟩
      · exact hyc.marked t a ht was hwas hmem
      · exact hdis.1 t' t a hflip ht hid
      · subst hrun
        simp at hwas
    · intro t ht was he
      exact hyc.requested_resumed (hb.here q p' hp') hres hsep
        (fun t' hnx => hok.unregistered t' (hnew t' hnx)) ht he
    · obtain ⟨pc, hpc, rfl⟩ := List.mem_map.mp hxs
      exact ⟨fun t t' a ht ht' => hdis.1 t t' a ((hcancelling pc hpc).1 t ht) ht',
        flipApart_new _ _⟩

theorem cancel_enter {cfg : Config} {s : QState} {e : Entry} {w : World} {nx : Next Pc}
    (hi : CancelInv s) (h : enter cfg s.world e = some (w, nx)) :
    Respects AnswersHold CancelHere CancelApart s s.next w (nx.points.map (·, none)) := by
  have hent := enter_entered h
  have hreg := hent.registries
  have hc : ∀ id, Cancelled s.world id → Cancelled w id := fun id hs => hs.entered hent
  refine ⟨⟨?_, ?_⟩, ?_, ?_, ?_⟩
  · rw [hreg.history]
    exact fun id was he => hc id (hi.world.cancelled id was he)
  · rw [hreg.history]
    exact hi.world.order
  · intro x hx
    obtain ⟨pc, hpc, rfl⟩ := List.mem_map.mp hx
    obtain rfl | ⟨id, rfl | rfl⟩ := hent.points pc hpc <;>
      exact cancelHere_new (fun t ht => by cases ht) (fun t ht => by cases ht)
        (fun t ht => by cases ht)
  · refine List.pairwise_map.mpr (List.pairwise_of_forall_mem_list ?_)
    exact fun _ _ _ _ => ⟨flipApart_new _ _, flipApart_new _ _⟩
  · intro q p hq hp
    have hyc := hi.here q p hp
    refine ⟨hyc.transfer hc ?_ ?_, fun x hx => ?_⟩
    · rw [hreg.history]
      exact hyc.marked
    · rw [hreg.history, hreg.taskControls]
      exact hyc.requested
    · obtain ⟨pc, hpc, rfl⟩ := List.mem_map.mp hx
      refine ⟨fun t t' a ht => ?_, flipApart_new _ _⟩
      obtain rfl | ⟨id, rfl | rfl⟩ := hent.points pc hpc <;> cases ht

theorem cancel_coherent (cfg : Config) :
    Coherent (program cfg) (fun s l => KeepsCancelled s l ∧ BaseInv s) AnswersHold CancelHere
      CancelApart where
  symm _ _ h := ⟨h.2, h.1⟩
  serve _ _ _ _ _ _ hi hp hseen hok h := cancel_serve hi hok.2 hp hseen hok.1 h
  resume _ _ _ _ _ _ hi hp hphase hok h := cancel_resume hi hok.2 hp hphase hok.1 h
  enter _ _ _ _ hi _ h := cancel_enter hi h

theorem cancel_reaches {cfg : Config} {table : Table} {s : QState}
    (h : QReaches cfg KeepsCancelled (boot table) s) : CancelInv s := by
  have hstrong := h.strengthen fun a ha => base_reaches (fun _ _ hok => hok.toCurrent) ha
  exact (cancel_coherent cfg).reaches (Inv.start ⟨by simp, .nil⟩) hstrong

/-! ## Marked dispatches end cancelled -/

/-- Every control belongs to a dispatch whose executor is not back. -/
theorem control_covering (cfg : Config) (ok : QState → QLabel → Prop) :
    Covering (program cfg) ok (fun w id => taken w (.control id))
      (fun x id => holds x (.control id)) where
  serve _ _ _ _ _ _ hc hp _ _ h :=
    hc.passes hp (fun _ hres => .inl (taken_of_same (serve_registries h) hres))
      fun _ _ hold => ⟨_, List.mem_singleton_self _, hold⟩
  resume _ _ _ _ _ _ hc hp _ _ h := by
    have hres := resumed_of_eq h
    refine hc.passes hp (fun id ht => ?_) fun id ht hold => ?_
    · rcases hres.taken_or_holds ht with hold | ⟨x, hx, hx'⟩
      · exact .inl hold
      · exact .inr ⟨_, List.mem_map_of_mem hx, hx'⟩
    · obtain ⟨x, hx, hx'⟩ := hres.keeps_control ht hold
      exact ⟨_, List.mem_map_of_mem hx, hx'⟩
  enter _ _ _ _ hc hfresh _ h :=
    hc.passes_enter hfresh fun _ hres => taken_of_same (enter_entered h).registries hres

/-- A cancellation promised for a running task and not yet in the table. -/
def promised (w : World) (id : TaskId) : Prop :=
  (∃ was, .cancelAnswered id true was ∈ w.history) ∧ ¬Cancelled w id

/-- The dispatch that will write the promised cancellation. -/
def willCancel (x : Point Pc Ans) (id : TaskId) : Prop :=
  (∃ t, x.1.registered = some t ∧ t.id = id) ∨ ∃ t data, x.1 = .finish t .cancelled data ∧ t.id = id

/-- The side condition of the rule below: the step keeps cancelled rows, and the invariants hold. -/
structure CancelStep (s : QState) (l : QLabel) : Prop extends KeepsCancelled s l where
  base : BaseInv s
  cancel : CancelInv s
  controls : Covered (fun w id => taken w (.control id)) (fun x id => holds x (.control id)) s

section Resume
variable {w w' : World} {pc : Pc} {r : Reply Ans} {nx : Next Pc}

/-- A dispatch that owes a promised cancellation goes on owing it until it is written. -/
theorem Resumed.keeps_promise (h : Resumed w pc r w' nx) (hb : Here w (pc, (Phase.ready r).seen))
    (hx : CancelHere w (pc, (Phase.ready r).seen))
    (haccept : ∀ t data, pc = .finish t .cancelled data → ∃ a, r = .answer a) {id : TaskId}
    (hdebt : promised w' id) (howes : willCancel (pc, (Phase.ready r).seen) id) :
    ∃ x ∈ nx.points, willCancel (x, none) id := by
  obtain ⟨⟨was, he⟩, hnot⟩ := hdebt
  have hcancelled : Cancelled w id → Cancelled w' id := fun hs => hs.of_table (resumed_table h).1
  rcases howes with ⟨t, ht, rfl⟩ | ⟨t, data, hpc, rfl⟩
  · have hmem : .cancelAnswered t.id true was ∈ w.history := by
      rcases h.requested he with hmem | ⟨attempt, _, rfl, -⟩
      · exact hmem
      · cases ht
    have htrue := hx.requested t ht was hmem
    have hpc := Pc.dispatched_of_registered ht
    cases h with
    | started => exact ⟨_, List.mem_singleton_self _, .inl ⟨t, ht, rfl⟩⟩
    | unmarked hr =>
      cases ht
      have hseen : (Phase.ready r).seen = none := by
        cases r <;> first | rfl | exact absurd rfl (hr _)
      rw [hseen] at hb
      exact absurd hmem (hb.unrequested t rfl was)
    | ended hend =>
      cases ht
      rw [htrue] at hend
      cases hend
      exact ⟨_, List.mem_singleton_self _, .inr ⟨t, _, rfl, rfl⟩⟩
    | noResult hend =>
      cases ht
      rw [htrue] at hend
      cases hend
    | plain hidle =>
      rcases hidle with hidle | ⟨_, _, _, rfl, -⟩ | ⟨_, _, rfl, -⟩
      · rw [hidle] at hpc
        cases hpc
      · cases ht
      · cases ht
    | answered hidle =>
      rw [hidle] at hpc
      cases hpc
    | _ => cases ht
  · change pc = _ at hpc
    subst hpc
    obtain ⟨a, rfl⟩ := haccept t data rfl
    exact absurd (hcancelled (hx.finished t data a rfl)) hnot

end Resume

theorem promise_covering (cfg : Config) :
    Covering (program cfg) CancelStep promised willCancel where
  serve s pid c p a w hc hp hseen hok h := by
    have hhere : Here s.world (p.pc, none) := by
      have := hok.base.here pid p hp
      rwa [Activation.point, hseen] at this
    refine hc.passes hp ?_ fun id _ howes => ⟨_, List.mem_singleton_self _, howes⟩
    rintro id ⟨⟨was, he⟩, hnot⟩
    refine .inl ⟨⟨was, ?_⟩, fun hs => hnot ?_⟩
    · rwa [(serve_registries h).history] at he
    · exact hs.serve hp hok.toKeepsCancelled h hhere.wellFormed
  resume s pid p r w nx hc hp hphase hok h := by
    have hpoint : p.point = (p.pc, (Phase.ready r).seen) := by rw [Activation.point, hphase]
    have hres := resumed_of_eq h
    have haccept : ∀ t data, p.pc = .finish t .cancelled data → ∃ a, r = .answer a := by
      intro t data hpc
      obtain ⟨pc, phase, caller⟩ := p
      cases hpc
      cases hphase
      cases r with
      | answer a => exact ⟨a, rfl⟩
      | returned => simpa [refusing, hp] using hok.accepted
      | failed => simpa [refusing, hp] using hok.accepted
    intro id hdebt
    obtain ⟨⟨was, he⟩, hnot⟩ := hdebt
    rcases hres.requested he with hmem | ⟨attempt, t, hpc, -, -, hhas⟩
    · have hold : promised s.world id := ⟨⟨was, hmem⟩, fun hs => hnot (hs.of_table (resumed_table hres).1)⟩
      obtain ⟨q, p', hp', howes⟩ := hc id hold
      by_cases hq : q = pid
      · subst hq
        cases hp.symm.trans hp'
        rw [hpoint] at howes
        obtain ⟨x, hx, hx'⟩ := hres.keeps_promise (hpoint ▸ hok.base.here q p hp)
          (hpoint ▸ hok.cancel.here q p hp) haccept ⟨⟨was, he⟩, hnot⟩ howes
        exact .inr ⟨_, List.mem_map_of_mem hx, hx'⟩
      · exact .inl ⟨q, p', hq, hp', howes⟩
    · -- the control that was marked belongs to a dispatch, and that one is not the mover
      obtain ⟨q, p', hp', t', ht', hid⟩ := hok.controls id (by
        simpa [taken, KeyedList.has, Option.isSome_iff_ne_none] using hhas)
      refine .inl ⟨q, p', ?_, hp', .inl ⟨t', ht', hid⟩⟩
      rintro rfl
      cases hp.symm.trans hp'
      rw [show p.point.1 = p.pc from rfl, hpc] at ht'
      cases ht'
  enter s e w nx hc hfresh hok h := by
    have hent := enter_entered h
    refine hc.passes_enter hfresh ?_
    rintro id ⟨⟨was, he⟩, hnot⟩
    refine ⟨⟨was, ?_⟩, fun hs => hnot ?_⟩
    · rwa [hent.registries.history] at he
    · exact hs.entered hent

/-! ## Every run -/

theorem promise_reaches {cfg : Config} {table : Table} {s : QState}
    (h : QReaches cfg KeepsCancelled (boot table) s) : Covered promised willCancel s := by
  have hbase : ∀ u, QReaches cfg KeepsCancelled (boot table) u → BaseInv u := fun u hu =>
    base_reaches (fun _ _ hok => hok.toCurrent) hu
  have hcontrols : ∀ u, QReaches cfg KeepsCancelled (boot table) u →
      Covered (fun w id => taken w (.control id)) (fun x id => holds x (.control id)) u := fun u hu =>
    (control_covering cfg _).reaches (fun id hid => (hid rfl).elim)
      (fun v hv => (hbase v hv).fresh) hu
  have hstrong := h.strengthen (I := fun u => BaseInv u ∧ CancelInv u ∧
    Covered (fun w id => taken w (.control id)) (fun x id => holds x (.control id)) u)
    fun u hu => ⟨hbase u hu, cancel_reaches hu, hcontrols u hu⟩
  have hsteps : QReaches cfg CancelStep (boot table) s :=
    hstrong.mono fun _ _ ⟨hok, hb, hcancel, hctl⟩ => ⟨hok, hb, hcancel, hctl⟩
  refine (promise_covering cfg).reaches ?_ (fun u hu => ?_) hsteps
  · rintro id ⟨⟨was, he⟩, -⟩
    cases he
  · exact base_reaches (fun _ _ hok => hok.toCurrent) hu |>.fresh

theorem cancellation_kept {cfg : Config} {table : Table} {s : QState}
    (h : QReaches cfg KeepsCancelled (boot table) s) : CancellationKept s where
  notStarted newer older id was heq hwas hmem := by
    have horder := (cancel_reaches h).world.order
    rw [heq] at horder
    exact (List.pairwise_append.mp horder).2.2 _ hmem _ (List.mem_cons_self)
      ⟨id, was, rfl, rfl, hwas⟩
  cancelled hquiet id wasRunning was he x hx := by
    cases wasRunning with
    | false => exact ((cancel_reaches h).world.cancelled id was he).status x hx
    | true =>
      by_contra hne
      obtain ⟨q, p, hp, -⟩ := promise_reaches h id ⟨⟨was, he⟩, fun hs => hne (hs.status x hx)⟩
      rw [hquiet] at hp
      cases hp

/-! ## A cancel between the pick and the mark -/

instance (s : QState) (l : QLabel) : Decidable (KeepsCancelled s l) :=
  decidable_of_iff
    (Current s l ∧ (∀ t ∈ marking s l, s.world.table.status t.id = some .pending) ∧
      (∀ id ∈ overwriting s l, s.world.table.status id ≠ some .cancelled) ∧ refusing s l = false)
    ⟨fun ⟨h₁, h₂, h₃, h₄⟩ => ⟨h₁, h₂, h₃, h₄⟩,
      fun h => ⟨h.toCurrent, h.marks, h.uncancelled, h.accepted⟩⟩

/-- A cancel request for the pending row 0, from its entry to its answer. -/
def cancelLabels (pid : ℕ) : List QLabel :=
  [.enter (.cancel 0), .serve pid .only, .resume pid, .serve pid .only, .resume pid]

/-- The tick has read the row as pending when the request cancels it and answers, and goes on. -/
def lostCancelLabels : List QLabel :=
  [.enter .tick, .serve 0 .only, .resume 0, .serve 0 (.row (some 0))] ++ cancelLabels 1 ++
    [.resume 0, .serve 0 .only, .resume 0]

theorem cancellation_kept_fails : ¬∀ (cfg : Config) (table : Table) (s : QState),
    QReaches cfg (fun _ _ => True) (boot table) s → CancellationKept s := by
  intro h
  obtain ⟨s, hs, hhist⟩ := Transition.exists_reaches_of_run (step (program {}))
    (fun _ _ => True) (boot onePending) lostCancelLabels
    (P := fun s => s.world.history = [.started 0, .cancelAnswered 0 false .pending])
    (by decide +kernel)
  exact (h _ _ s hs).notStarted [.started 0] [] 0 .pending hhist (.inl rfl)
    (List.mem_singleton_self _)

theorem cancellation_kept_pending : ∃ s, QReaches {} KeepsCancelled (boot onePending) s ∧
    s.world.history = [.cancelAnswered 0 false .pending] ∧ CancellationKept s := by
  obtain ⟨s, hs, hhist⟩ := Transition.exists_reaches_of_run (step (program {})) KeepsCancelled
    (boot onePending) (cancelLabels 0 ++ [.enter .tick, .serve 1 .only, .resume 1,
      .serve 1 (.row none), .resume 1])
    (P := fun s => s.world.history = [.cancelAnswered 0 false .pending]) (by decide +kernel)
  exact ⟨s, hs, hhist, cancellation_kept hs⟩

end ZoneweaverAgent.TaskQueue
