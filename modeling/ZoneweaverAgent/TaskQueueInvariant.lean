import ZoneweaverAgent.TaskQueueSteps

/-!
# What holds of the queue in every run that registers and uploads on current reads

A tick registers a task some time after it has read the row, and an upload releases a prepared row
long after it has read it. `Current` says that these two reads are still true when they are acted
on. Under it a row that has left `pending` and `prepared` never returns, a registered task keeps
its entry and its control, and no two dispatches register the same task.
-/

namespace ZoneweaverAgent.TaskQueue
open EventLoop

/-! ## The condition -/

/-- The task this step registers: a tick resumes with a row it picked and whose category is free. -/
def registering (s : QState) : QLabel → Option Task
  | .resume pid =>
    match s.procs.get pid with
    | some ⟨.pick _ _, .ready (.answer (.row (some t))), _⟩ =>
      if s.world.held (operationCategory t.operation) then none else some t
    | _ => none
  | _ => none

/-- The prepared row this step releases to the queue. -/
def releasing (s : QState) : QLabel → Option Task
  | .serve pid _ =>
    match s.procs.get pid with
    | some ⟨.uploaded t, _, _⟩ => some t
    | _ => none
  | _ => none

/-- The rows a tick registers and an upload releases are still as they were read. -/
structure Current (s : QState) (l : QLabel) : Prop where
  pending : ∀ t ∈ registering s l, s.world.table.status t.id = some .pending
  unregistered : ∀ t ∈ registering s l, s.world.runningTasks.get t.id = none
  prepared : ∀ t ∈ releasing s l, s.world.table.status t.id = some .prepared

theorem mem_registering {s : QState} {pid : ℕ} {p : Activation Pc Ans} {completed : List TaskId}
    {busy : List String} {t : Task} (hp : s.procs.get pid = some p)
    (hpc : p.pc = .pick completed busy) (hphase : p.phase = .ready (.answer (.row (some t))))
    (hheld : s.world.held (operationCategory t.operation) = false) :
    t ∈ registering s (.resume pid) := by
  obtain ⟨pc, phase, caller⟩ := p
  cases hpc
  cases hphase
  simp [registering, hp, hheld]

theorem mem_releasing {s : QState} {pid : ℕ} {c : Choice} {p : Activation Pc Ans} {t : Task}
    (hp : s.procs.get pid = some p) (hpc : p.pc = .uploaded t) :
    t ∈ releasing s (.serve pid c) := by
  obtain ⟨pc, phase, caller⟩ := p
  cases hpc
  simp [releasing, hp]

/-! ## Settled rows -/

/-- The row has left the two statuses that lead to a dispatch. -/
structure Settled (w : World) (id : TaskId) : Prop where
  minted : id < w.table.next
  pending : w.table.status id ≠ some .pending
  prepared : w.table.status id ≠ some .prepared

/-- The values a point carries that no answer can spoil. -/
def Pc.WellFormed : Pc → Prop
  | .finish _ status data => data.status = some status ∧ status.terminal = true
  | .updateParent _ _ update => ∀ x, update.status = some x → x.terminal = true
  | .flip task _ | .flipParent task => task.status = .pending ∨ task.status = .prepared
  | _ => True

theorem endStatus_terminal {cancelled : Bool} {result : Option ExecResult} {status : Status}
    (h : endStatus cancelled result = some status) : status.terminal = true := by
  unfold endStatus at h
  split_ifs at h
  · cases h
    rfl
  · obtain ⟨r, -, rfl⟩ := Option.map_eq_some_iff.mp h
    split_ifs <;> rfl

theorem parentStatus_terminal {subTasks : List Task} (h : parentStatus subTasks ≠ .running) :
    (parentStatus subTasks).terminal = true := by
  unfold parentStatus at h ⊢
  dsimp only at h ⊢
  split_ifs at h ⊢ <;> first | rfl | exact absurd rfl h

theorem updateData_status (clock : ℕ) (status : Status) (cancelled : Bool)
    (result : Option ExecResult) (progress : ℕ) :
    (updateData clock status cancelled result progress).status = some status := by
  unfold updateData
  split_ifs <;> rfl

theorem parentUpdate_status {clock : ℕ} {subTasks : List Task} {x : Status}
    (h : (parentUpdate clock subTasks).status = some x) :
    x = parentStatus subTasks ∧ x ≠ .running := by
  simp only [parentUpdate] at h
  split_ifs at h with hrun
  cases h
  exact ⟨rfl, hrun⟩

theorem wellFormed_of_afterParent (w : World) (t : Task) (status : Status) :
    ∀ x ∈ (afterParent w t status).2.points, x.WellFormed := by
  unfold afterParent
  dsimp only
  split_ifs <;> simp [Next.points, Pc.WellFormed]

theorem wellFormed_of_toCascade (w : World) (t : Task) (ids : List TaskId) :
    ∀ x ∈ (toCascade w t ids).2.points, x.WellFormed := by
  unfold toCascade
  split
  · simp [Next.points, Pc.WellFormed]
  · split <;> simp [Next.points, Pc.WellFormed]

/-- Every point a resumed activation moves to is well formed, if the one it leaves was. -/
theorem wellFormed_of_resume (w : World) {pc : Pc} (r : Reply Ans) (hpc : pc.WellFormed) :
    ∀ x ∈ (resume w pc r).2.points, x.WellFormed := by
  unfold resume
  split
  case h_9 t =>
    dsimp only
    split
    · simp [caught, Next.points, Pc.WellFormed]
    · rename_i status hend
      simp [Next.points, Pc.WellFormed, updateData_status, endStatus_terminal hend]
  case h_11 t status a =>
    dsimp only
    split
    · simp [Next.points, Pc.WellFormed]
    · exact wellFormed_of_afterParent _ _ _
  case h_12 => exact wellFormed_of_afterParent _ _ _
  case h_20 parent subTasks =>
    simp only [Next.points, List.mem_singleton, forall_eq, Pc.WellFormed]
    intro x hx
    obtain ⟨rfl, hrun⟩ := parentUpdate_status hx
    exact parentStatus_terminal hrun
  case h_22 id attempt t =>
    split
    case h_1 hst => simp [Next.points, Pc.WellFormed, hst]
    case h_2 hst => simp [Next.points, Pc.WellFormed, hst]
    case h_3 => split_ifs <;> simp [Next.points, Pc.WellFormed]
    case h_4 => simp [Next.points]
  case h_25 t attempt a =>
    split
    · simpa [Next.points, Pc.WellFormed] using hpc
    · simp [Next.points]
  case h_28 => exact wellFormed_of_toCascade _ _ _
  case h_29 => exact wellFormed_of_toCascade _ _ _
  all_goals (try split) <;> (try split_ifs)
  all_goals simp [Next.points, Pc.WellFormed, toPick, caught]

/-- A served point writes nothing, `running`, a terminal status, or releases an upload. -/
theorem writes_spec {w : World} {id : TaskId} {pc : Pc} {x : Status} (hpc : pc.WellFormed)
    (h : writes w id pc = some x) :
    (∃ t, pc = .markRunning t ∧ id = t.id ∧ x = .running) ∨ x.terminal = true ∨
      (∃ t, pc = .uploaded t ∧ id = t.id ∧ x = .pending) := by
  cases pc with
  | markRunning t =>
    simp only [writes, Option.ite_none_right_eq_some, Option.some.injEq] at h
    exact .inl ⟨t, rfl, h.1, h.2.symm⟩
  | uploaded t =>
    simp only [writes, Option.ite_none_right_eq_some, Option.some.injEq] at h
    exact .inr (.inr ⟨t, rfl, h.1, h.2.symm⟩)
  | finish t status data =>
    simp only [writes, Option.ite_none_right_eq_some, hpc.1, Option.some.injEq] at h
    exact .inr (.inl (h.2 ▸ hpc.2))
  | updateParent parent status update =>
    simp only [writes, Option.ite_none_right_eq_some] at h
    exact .inr (.inl (hpc x h.2))
  | cancelDependents toCancel completed =>
    simp only [writes, Option.ite_none_right_eq_some, Option.some.injEq] at h
    exact .inr (.inl (h.2 ▸ rfl))
  | flip t attempt =>
    simp only [writes, Option.ite_none_right_eq_some, Option.some.injEq] at h
    exact .inr (.inl (h.2 ▸ rfl))
  | close t =>
    simp only [writes, Option.ite_none_right_eq_some, Option.some.injEq] at h
    exact .inr (.inl (h.2 ▸ rfl))
  | _ => simp only [writes, reduceCtorEq] at h

/-- What serving leaves in a row that existed: its status, or one that `writes_spec` allows. -/
theorem serve_status_eq {w w' : World} {pc : Pc} {c : Choice} {a : Ans} {id : TaskId} {x : Status}
    (h : serve w pc c = some (a, w')) (hid : id < w.table.next)
    (hx : w'.table.status id = some x) :
    ∃ y, w.table.status id = some y ∧ (x = y ∨ writes w id pc = some x) := by
  rw [serve_status h hid] at hx
  obtain ⟨y, hy, rfl⟩ := Option.map_eq_some_iff.mp hx
  refine ⟨y, hy, ?_⟩
  cases writes w id pc with
  | none => exact .inl rfl
  | some z => exact .inr rfl

theorem Settled.serve {w w' : World} {pc : Pc} {c : Choice} {a : Ans} {id : TaskId}
    (hs : Settled w id) (h : serve w pc c = some (a, w')) (hpc : pc.WellFormed)
    (hup : ∀ t, pc = .uploaded t → w.table.status t.id = some .prepared) : Settled w' id := by
  have hnot : ∀ x, x = .pending ∨ x = .prepared → w'.table.status id ≠ some x := by
    intro x hx hst
    obtain ⟨y, hy, rfl | hw⟩ := serve_status_eq h hs.minted hst
    · rcases hx with rfl | rfl
      · exact hs.pending hy
      · exact hs.prepared hy
    · rcases writes_spec hpc hw with ⟨t, -, -, rfl⟩ | hterm | ⟨t, rfl, rfl, -⟩
      · simp at hx
      · rcases hx with rfl | rfl <;> cases hterm
      · exact hs.prepared (hup t rfl)
  exact ⟨hs.minted.trans_le (serve_next h), hnot _ (.inl rfl), hnot _ (.inr rfl)⟩

theorem Settled.entered {w w' : World} {nx : Next Pc} {id : TaskId} (hs : Settled w id)
    (h : Entered w w' nx) : Settled w' id := by
  have hst := h.status id hs.minted
  refine ⟨hs.minted.trans_le h.next, ?_, ?_⟩
  · rcases hst with heq | ⟨-, hc⟩ | ⟨x, -, -, hn⟩
    · rw [heq]
      exact hs.pending
    · simp [hc]
    · simp [hn]
  · rcases hst with heq | ⟨-, hc⟩ | ⟨x, -, -, hn⟩
    · rw [heq]
      exact hs.prepared
    · simp [hc]
    · simp [hn]

theorem Settled.of_table {w w' : World} {id : TaskId} (hs : Settled w id)
    (h : w'.table = w.table) : Settled w' id := by
  refine ⟨?_, ?_, ?_⟩ <;> rw [h]
  · exact hs.minted
  · exact hs.pending
  · exact hs.prepared

/-! ## The invariant -/

/-- The task whose in-flight entry is about to be removed here. -/
def Pc.retiring : Pc → Option Task
  | .finish t _ _ | .finalize t _ | .close t => some t
  | _ => none

def Pc.Quiet (pc : Pc) : Prop := pc.registered = none ∧ pc.retiring = none

def startedIds (history : List Event) : List TaskId :=
  history.filterMap fun e => match e with
    | .started id => some id
    | .cancelAnswered _ _ _ => none

structure Base (w : World) : Prop where
  started : ∀ id ∈ startedIds w.history, Settled w id
  once : (startedIds w.history).Nodup
  requested : ∀ id was, .cancelAnswered id true was ∈ w.history → Settled w id

structure Here (w : World) (x : Point Pc Ans) : Prop where
  wellFormed : x.1.WellFormed
  running : ∀ t, x.1.registered = some t → w.runningTasks.get t.id = some t
  control : ∀ t, x.1.registered = some t → w.taskControls.has t.id = true
  minted : ∀ t, x.1.registered = some t → t.id < w.table.next
  unstarted : ∀ t, x.1 = .markRunning t → t.id ∉ startedIds w.history
  marking : ∀ t, x = (.markRunning t, none) → w.table.status t.id ≠ some .running
  unrequested : ∀ t, x = (.markRunning t, none) →
    ∀ was, .cancelAnswered t.id true was ∉ w.history
  marked : ∀ t a, x = (.markRunning t, some a) → Settled w t.id
  executing : ∀ t, x.1 = .execute t → Settled w t.id
  retiring : ∀ t, x.1.retiring = some t → Settled w t.id
  reading : ∀ id attempt t, x = (.cancelFind id attempt, some (.row (some t))) →
    t.id = id ∧ (t.status = .running → Settled w id)

structure Apart (x y : Point Pc Ans) : Prop where
  entered : ∀ t t', x.1.entered = some t → y.1.entered = some t' → t.id ≠ t'.id
  closing : ∀ t t', x.1.closing = some t → y.1.registered = some t' → t.id ≠ t'.id
  reading : ∀ id attempt t t', x = (.cancelFind id attempt, some (.row (some t))) →
    t.status = .running → y = (.markRunning t', none) → t'.id ≠ id

def Separate (x y : Point Pc Ans) : Prop := Apart x y ∧ Apart y x

abbrev BaseInv : QState → Prop := Inv Base Here Separate

theorem Pc.entered_of_registered {pc : Pc} {t : Task} (h : pc.registered = some t) :
    pc.entered = some t := by
  cases pc <;> first | exact h | cases h

theorem Pc.registered_or_retiring {pc : Pc} {t : Task} (h : pc.entered = some t) :
    pc.registered = some t ∨ pc.retiring = some t := by
  cases pc <;> first | exact .inl h | exact .inr h

theorem Pc.retiring_of_closing {pc : Pc} {t : Task} (h : pc.closing = some t) :
    pc.retiring = some t := by
  cases pc <;> first | exact h | cases h

theorem Pc.Quiet.entered {pc : Pc} (h : pc.Quiet) : pc.entered = none := by
  cases hent : pc.entered with
  | none => rfl
  | some t => rcases Pc.registered_or_retiring hent with hreg | hret <;> simp_all [Pc.Quiet]

theorem Pc.Quiet.closing {pc : Pc} (h : pc.Quiet) : pc.closing = none := by
  cases hclose : pc.closing with
  | none => rfl
  | some t => exact absurd (Pc.retiring_of_closing hclose) (by simp [h.2])

theorem Pc.Plain.quiet {pc : Pc} (h : pc.Plain) : pc.Quiet := by
  obtain ⟨hd, hc⟩ := h
  cases pc <;> simp_all [Pc.dispatched, Pc.closing, Pc.Quiet, Pc.registered, Pc.retiring]

theorem Pc.Quiet.here {w : World} {pc : Pc} (h : pc.Quiet) (hwf : pc.WellFormed) :
    Here w (pc, none) where
  wellFormed := hwf
  running t ht := by simp [h.1] at ht
  control t ht := by simp [h.1] at ht
  minted t ht := by simp [h.1] at ht
  unstarted t ht := by
    subst ht
    cases h.1
  marking t ht := by
    cases ht
    cases h.1
  unrequested t ht := by
    cases ht
    cases h.1
  marked t a ht := by cases ht
  executing t ht := by
    subst ht
    cases h.1
  retiring t ht := by simp [h.2] at ht
  reading id attempt t ht := by cases ht

theorem Pc.Quiet.separate {pc : Pc} (h : pc.Quiet) (y : Point Pc Ans) : Separate (pc, none) y where
  left :=
    { entered := fun t t' ht => by simp [h.entered] at ht
      closing := fun t t' ht => by simp [h.closing] at ht
      reading := fun id attempt t t' ht => by cases ht }
  right :=
    { entered := fun t t' _ ht => by simp [h.entered] at ht
      closing := fun t t' _ ht => by simp [h.1] at ht
      reading := fun id attempt t t' _ _ ht => by
        cases ht
        cases h.1 }

theorem separate_symm {x y : Point Pc Ans} (h : Separate x y) : Separate y x := ⟨h.2, h.1⟩

theorem Base.transfer {w w' : World} (hb : Base w) (hset : ∀ id, Settled w id → Settled w' id)
    (hhist : w'.history = w.history) : Base w' where
  started := by
    rw [hhist]
    exact fun id hid => hset id (hb.started id hid)
  once := by
    rw [hhist]
    exact hb.once
  requested := by
    rw [hhist]
    exact fun id was h => hset id (hb.requested id was h)

/-- What a bystander knows survives a step that keeps the registration of its task and does not
mark, start or cancel it. -/
theorem Here.transfer {w w' : World} {x : Point Pc Ans} (hx : Here w x)
    (hset : ∀ id, Settled w id → Settled w' id) (hnext : w.table.next ≤ w'.table.next)
    (hrun : ∀ t, x.1.registered = some t → w'.runningTasks.get t.id = w.runningTasks.get t.id)
    (hctl : ∀ t, x.1.registered = some t → w.taskControls.has t.id = true →
      w'.taskControls.has t.id = true)
    (hstart : ∀ t, x.1 = .markRunning t → t.id ∉ startedIds w'.history)
    (hmark : ∀ t, x = (.markRunning t, none) → w'.table.status t.id ≠ some .running)
    (hreq : ∀ t, x = (.markRunning t, none) →
      ∀ was, .cancelAnswered t.id true was ∉ w'.history) : Here w' x where
  wellFormed := hx.wellFormed
  running t ht := (hrun t ht).trans (hx.running t ht)
  control t ht := hctl t ht (hx.control t ht)
  minted t ht := (hx.minted t ht).trans_le hnext
  unstarted := hstart
  marking := hmark
  unrequested := hreq
  marked t a ht := hset _ (hx.marked t a ht)
  executing t ht := hset _ (hx.executing t ht)
  retiring t ht := hset _ (hx.retiring t ht)
  reading id attempt t ht :=
    ⟨(hx.reading id attempt t ht).1, fun hr => hset _ ((hx.reading id attempt t ht).2 hr)⟩

/-! ## Serving keeps it -/

theorem served_markRunning {w w' : World} {t : Task} {c : Choice} {a : Ans}
    (h : serve w (.markRunning t) c = some (a, w')) (ht : t.id < w.table.next) :
    Settled w' t.id := by
  have hst := serve_status h ht
  rw [writes, if_pos rfl] at hst
  refine ⟨ht.trans_le (serve_next h), ?_, ?_⟩ <;> rw [hst] <;> cases w.table.status t.id <;> simp

theorem served_cancelFind {w w' : World} {id : TaskId} {attempt : ℕ} {t : Task} {c : Choice}
    (h : serve w (.cancelFind id attempt) c = some (.row (some t), w')) :
    t.id = id ∧ w'.table.status id = some t.status ∧ w' = w := by
  cases c <;> simp only [serve, Option.some.injEq, Prod.mk.injEq, Ans.row.injEq, reduceCtorEq] at h
  obtain ⟨hf, rfl⟩ := h
  exact ⟨Table.find_id hf, Table.status_of_find hf, rfl⟩

/-- The mover: at its point, with the answer. -/
theorem Here.served {w w' : World} {pc : Pc} {c : Choice} {a : Ans} (hx : Here w (pc, none))
    (h : serve w pc c = some (a, w')) (hset : ∀ id, Settled w id → Settled w' id) :
    Here w' (pc, some a) where
  wellFormed := hx.wellFormed
  running := by
    rw [(serve_registries h).runningTasks]
    exact hx.running
  control := by
    rw [(serve_registries h).taskControls]
    exact hx.control
  minted t ht := (hx.minted t ht).trans_le (serve_next h)
  unstarted := by
    rw [(serve_registries h).history]
    exact hx.unstarted
  marking t ht := by cases ht
  unrequested t ht := by cases ht
  marked t b ht := by
    cases ht
    exact served_markRunning h (hx.minted t rfl)
  executing t ht := hset _ (hx.executing t ht)
  retiring t ht := hset _ (hx.retiring t ht)
  reading id attempt t ht := by
    cases ht
    obtain ⟨hid, hst, rfl⟩ := served_cancelFind h
    refine ⟨hid, fun hrun => ⟨Table.status_lt hst, ?_, ?_⟩⟩ <;> rw [hst, hrun] <;> simp

/-- A bystander about to mark its task running: nobody else writes `running` into its row. -/
theorem Here.marking_served {w w' : World} {pc : Pc} {c : Choice} {a : Ans} {t : Task}
    (hx : Here w (pc, none)) (hy : Here w (.markRunning t, none))
    (hdis : Separate (pc, none) (.markRunning t, none)) (h : serve w pc c = some (a, w')) :
    w'.table.status t.id ≠ some .running := by
  intro hst
  obtain ⟨y, hy', rfl | hw⟩ := serve_status_eq h (hy.minted t rfl) hst
  · exact hy.marking t rfl hy'
  · rcases writes_spec hx.wellFormed hw with ⟨t', rfl, hid, -⟩ | hterm | ⟨t', -, -, hpend⟩
    · exact hdis.1.entered t' t rfl rfl hid.symm
    · cases hterm
    · cases hpend

theorem Separate.served {w w' : World} {pc : Pc} {c : Choice} {a : Ans} {y : Point Pc Ans}
    (hy : Here w y) (hdis : Separate (pc, none) y) (h : serve w pc c = some (a, w')) :
    Separate (pc, some a) y where
  left :=
    { entered := hdis.1.entered
      closing := hdis.1.closing
      reading := fun id attempt t t' ht hrun hy' => by
        cases ht
        obtain ⟨hid, hst, rfl⟩ := served_cancelFind h
        rintro rfl
        exact hy.marking t' hy' (hst.trans (congrArg some hrun)) }
  right :=
    { entered := hdis.2.entered
      closing := hdis.2.closing
      reading := fun id attempt t t' _ _ hx => by cases hx }

theorem base_serve {s : QState} {pid : ℕ} {c : Choice} {p : Activation Pc Ans} {a : Ans} {w : World}
    (hi : BaseInv s) (hp : s.procs.get pid = some p) (hseen : p.phase.seen = none)
    (hok : Current s (.serve pid c)) (h : serve s.world p.pc c = some (a, w)) :
    Respects Base Here Separate s pid w [(p.pc, some a)] := by
  have hpoint : p.point = (p.pc, none) := by rw [Activation.point, hseen]
  have hhere : Here s.world (p.pc, none) := hpoint ▸ hi.here pid p hp
  have hreg := serve_registries h
  have hset : ∀ id, Settled s.world id → Settled w id := fun id hs =>
    hs.serve h hhere.wellFormed fun t ht => hok.prepared t (mem_releasing hp ht)
  refine ⟨hi.world.transfer hset hreg.history, ?_, List.pairwise_singleton _ _, ?_⟩
  · intro x hx
    rw [List.mem_singleton.mp hx]
    exact hhere.served h hset
  · intro q p' hq hp'
    have hp'here := hi.here q p' hp'
    have hdis : Separate (p.pc, none) p'.point := hpoint ▸ hi.apart pid q p p' (Ne.symm hq) hp hp'
    refine ⟨hp'here.transfer hset (serve_next h) (by simp [hreg.runningTasks])
      (by simp [hreg.taskControls]) ?_ ?_ ?_, ?_⟩
    · rw [hreg.history]
      exact hp'here.unstarted
    · intro t ht
      exact hhere.marking_served (ht ▸ hp'here) (ht ▸ hdis) h
    · rw [hreg.history]
      exact hp'here.unrequested
    · intro x hx
      rw [List.mem_singleton.mp hx]
      exact hdis.served hp'here h

theorem base_enter {cfg : Config} {s : QState} {e : Entry} {w : World} {nx : Next Pc}
    (hi : BaseInv s) (h : enter cfg s.world e = some (w, nx)) :
    Respects Base Here Separate s s.next w (nx.points.map (·, none)) := by
  have hent := enter_entered h
  have hreg := hent.registries
  have hset : ∀ id, Settled s.world id → Settled w id := fun id hs => hs.entered hent
  have hquiet : ∀ pc ∈ nx.points, pc.Quiet ∧ pc.WellFormed := by
    intro pc hpc
    obtain rfl | ⟨id, rfl | rfl⟩ := hent.points pc hpc <;> exact ⟨⟨rfl, rfl⟩, trivial⟩
  refine ⟨hi.world.transfer hset hreg.history, ?_, ?_, ?_⟩
  · intro x hx
    obtain ⟨pc, hpc, rfl⟩ := List.mem_map.mp hx
    exact (hquiet pc hpc).1.here (hquiet pc hpc).2
  · refine List.pairwise_map.mpr (List.pairwise_of_forall_mem_list ?_)
    exact fun pc hpc pc' _ => (hquiet pc hpc).1.separate _
  · intro q p hq hp
    have hhere := hi.here q p hp
    refine ⟨hhere.transfer hset hent.next (by simp [hreg.runningTasks])
      (by simp [hreg.taskControls]) ?_ ?_ ?_, ?_⟩
    · rw [hreg.history]
      exact hhere.unstarted
    · intro t ht hst
      have hid := hhere.minted t (by rw [ht]; rfl)
      rcases hent.status t.id hid with heq | ⟨-, hc⟩ | ⟨x, -, -, hn⟩
      · exact hhere.marking t ht (heq ▸ hst)
      · simp [hc] at hst
      · simp [hn] at hst
    · rw [hreg.history]
      exact hhere.unrequested
    · intro x hx
      obtain ⟨pc, hpc, rfl⟩ := List.mem_map.mp hx
      exact (hquiet pc hpc).1.separate _

/-! ## Resuming keeps it -/

section Resume
variable {w w' : World} {pc : Pc} {r : Reply Ans} {nx : Next Pc} {y : Point Pc Ans}

/-- A resumed activation leaves the entries and the controls of other registered tasks in place. -/
theorem Here.registration (hy : Here w y) (h : Resumed w pc r w' nx)
    (hdis : Separate (pc, (Phase.ready r).seen) y)
    (hnew : ∀ t, nx = .await (.markRunning t) → w.runningTasks.get t.id = none)
    {t' : Task} (ht' : y.1.registered = some t') :
    w'.runningTasks.get t'.id = w.runningTasks.get t'.id ∧
      (w.taskControls.has t'.id = true → w'.taskControls.has t'.id = true) := by
  have hent := Pc.entered_of_registered ht'
  have hreg : ∀ t, nx = .await (.markRunning t) → t.id ≠ t'.id := by
    intro t ht heq
    have hnone := hnew t ht
    rw [heq, hy.running t' ht'] at hnone
    cases hnone
  refine ⟨h.runningTasks_get hreg (fun t ht => hdis.1.entered t t' ht hent)
    fun t ht => hdis.1.closing t t' ht ht', fun hc => ?_⟩
  by_cases hcancel : ∃ attempt, pc = .cancelFind t'.id attempt
  · obtain ⟨attempt, rfl⟩ := hcancel
    cases h with
    | cancelMarked => simp [World.markCancelled, World.record, KeyedList.has]
    | _ => exact hc
  · rw [KeyedList.has, h.taskControls_get hreg
      (fun t ht => hdis.1.entered t t' (Pc.entered_of_registered ht) hent)
      fun attempt heq => hcancel ⟨attempt, heq⟩]
    exact hc

/-- Started tasks are counted once more only when a marked task is started. -/
theorem Resumed.startedIds_eq (h : Resumed w pc r w' nx) :
    startedIds w'.history = startedIds w.history ∨
      ∃ t a, pc = .markRunning t ∧ r = .answer a ∧
        startedIds w'.history = t.id :: startedIds w.history := by
  cases h with
  | @started t a => exact .inr ⟨t, a, rfl, rfl, rfl⟩
  | _ => exact .inl rfl

/-- Only a cancel request that reads a running row answers `wasRunning: true`. -/
theorem Resumed.requested (h : Resumed w pc r w' nx) {id : TaskId} {was : Status}
    (he : .cancelAnswered id true was ∈ w'.history) :
    .cancelAnswered id true was ∈ w.history ∨
      ∃ attempt t, pc = .cancelFind id attempt ∧ r = .answer (.row (some t)) ∧
        t.status = .running ∧ w.taskControls.has id = true := by
  cases h with
  | @cancelMarked id' attempt t hrun hc =>
    rcases List.mem_cons.mp he with heq | hmem
    · cases heq
      exact .inr ⟨attempt, t, rfl, rfl, hrun, hc⟩
    · exact .inl hmem
  | answered =>
    rcases List.mem_cons.mp he with heq | hmem
    · cases heq
    · exact .inl hmem
  | started =>
    rcases List.mem_cons.mp he with heq | hmem
    · cases heq
    · exact .inl hmem
  | _ => exact .inl he

theorem Base.resumed (hb : Base w) (hx : Here w (pc, (Phase.ready r).seen))
    (h : Resumed w pc r w' nx) : Base w' := by
  have hset : ∀ id, Settled w id → Settled w' id := fun id hs => hs.of_table (resumed_table h).1
  refine ⟨?_, ?_, ?_⟩
  · intro id hid
    rcases h.startedIds_eq with heq | ⟨t, a, rfl, rfl, heq⟩
    · exact hset id (hb.started id (heq ▸ hid))
    · rw [heq, List.mem_cons] at hid
      rcases hid with rfl | hid
      · exact hset _ (hx.marked t a rfl)
      · exact hset id (hb.started id hid)
  · rcases h.startedIds_eq with heq | ⟨t, a, rfl, rfl, heq⟩
    · exact heq ▸ hb.once
    · rw [heq]
      exact List.nodup_cons.mpr ⟨hx.unstarted t rfl, hb.once⟩
  · intro id was he
    rcases h.requested he with hmem | ⟨attempt, t, rfl, rfl, hrun, -⟩
    · exact hset id (hb.requested id was hmem)
    · exact hset id ((hx.reading id attempt t rfl).2 hrun)

theorem Here.resumed_other (hy : Here w y) (hdis : Separate (pc, (Phase.ready r).seen) y)
    (h : Resumed w pc r w' nx)
    (hnew : ∀ t, nx = .await (.markRunning t) → w.runningTasks.get t.id = none) : Here w' y := by
  have htable := (resumed_table h).1
  refine hy.transfer (fun id hs => hs.of_table htable) (by rw [htable])
    (fun t ht => (hy.registration h hdis hnew ht).1)
    (fun t ht => (hy.registration h hdis hnew ht).2)
    ?_ ?_ ?_
  · intro t ht hid
    rcases h.startedIds_eq with heq | ⟨t', a, rfl, rfl, heq⟩
    · exact hy.unstarted t ht (heq ▸ hid)
    · rw [heq, List.mem_cons] at hid
      rcases hid with hid | hid
      · exact hdis.1.entered t' t rfl (by rw [ht]; rfl) hid.symm
      · exact hy.unstarted t ht hid
  · rw [htable]
    exact hy.marking
  · intro t ht was he
    rcases h.requested he with hmem | ⟨attempt, t', rfl, rfl, hrun, -⟩
    · exact hy.unrequested t ht was hmem
    · exact hdis.1.reading t.id attempt t' t rfl hrun ht rfl

/-- A task registered on a current read: it is pending, so nothing has started or closed it. -/
theorem here_registered {t : Task} (hb : Base w) (hpend : w.table.status t.id = some .pending) :
    Here (w.register t) (.markRunning t, none) where
  wellFormed := trivial
  running t' ht := by
    cases ht
    exact KeyedList.get_set_self _ _ _
  control t' ht := by
    cases ht
    simp [World.register, KeyedList.has]
  minted t' ht := by
    cases ht
    exact Table.status_lt hpend
  unstarted t' ht hid := by
    cases ht
    exact (hb.started t.id hid).pending hpend
  marking t' ht hrun := by
    cases ht
    rw [show (w.register t).table = w.table from rfl, hpend] at hrun
    cases hrun
  unrequested t' ht was he := by
    cases ht
    exact (hb.requested t.id was he).pending hpend
  marked t' a ht := by cases ht
  executing t' ht := by cases ht
  retiring t' ht := by cases ht
  reading id attempt t' ht := by cases ht

theorem ne_of_entered {t t' : Task} (hy : Here w y) (hpend : w.table.status t.id = some .pending)
    (hfree : w.runningTasks.get t.id = none) (ht' : y.1.entered = some t') : t.id ≠ t'.id := by
  intro heq
  rcases Pc.registered_or_retiring ht' with hreg | hret
  · rw [heq, hy.running t' hreg] at hfree
    cases hfree
  · exact (hy.retiring t' hret).pending (heq ▸ hpend)

theorem separate_registered {t : Task} (hy : Here w y)
    (hpend : w.table.status t.id = some .pending) (hfree : w.runningTasks.get t.id = none) :
    Separate (.markRunning t, none) y where
  left :=
    { entered := fun t₁ t' ht ht' => by
        cases ht
        exact ne_of_entered hy hpend hfree ht'
      closing := fun t₁ t' ht => by cases ht
      reading := fun id attempt t₁ t' ht => by cases ht }
  right :=
    { entered := fun t' t₁ ht' ht => by
        cases ht
        exact (ne_of_entered hy hpend hfree ht').symm
      closing := fun t' t₁ ht' ht heq => by
        cases ht
        exact (hy.retiring t' (Pc.retiring_of_closing ht')).pending (heq ▸ hpend)
      reading := fun id attempt t' t₁ ht' hrun ht heq => by
        cases ht
        exact ((hy.reading id attempt t' ht').2 hrun).pending (heq ▸ hpend) }

/-- A dispatch that goes on to its next point stays apart from the others. -/
theorem Separate.of_entered {pc pc' : Pc} {a : Option Ans} {t : Task} (h : Separate (pc, a) y)
    (ht : pc.entered = some t) (ht' : pc'.entered = some t)
    (hr : pc'.registered = none ∨ pc'.registered = pc.registered)
    (hmark : ∀ t, pc' ≠ .markRunning t) : Separate (pc', none) y := by
  have hc : pc'.closing = none := by
    cases pc' <;> first | rfl | cases ht'
  have hent : pc'.entered = pc.entered := ht'.trans ht.symm
  refine ⟨⟨?_, fun t t' ht => by simp [hc] at ht, fun id attempt t t' ht => by cases ht⟩,
    ⟨?_, ?_, ?_⟩⟩
  · exact fun t t' ht => h.1.entered t t' (hent ▸ ht)
  · exact fun t t' ht ht' => h.2.entered t t' ht (hent ▸ ht')
  · intro t t' ht ht'
    rcases hr with hr | hr
    · simp [hr] at ht'
    · exact h.2.closing t t' ht (hr ▸ ht')
  · rintro id attempt t t' - - ⟨⟩
    exact absurd rfl (hmark t')

theorem here_execute {t : Task} {a : Ans} (hx : Here w (.markRunning t, some a)) :
    Here ((w.acquire (operationCategory t.operation)).record (.started t.id)) (.execute t, none) where
  wellFormed := trivial
  running := hx.running
  control := hx.control
  minted := hx.minted
  unstarted t' ht := by cases ht
  marking t' ht := by cases ht
  unrequested t' ht := by cases ht
  marked t' a ht := by cases ht
  executing t' ht := by
    cases ht
    exact (hx.marked t a rfl).of_table rfl
  retiring t' ht := by cases ht
  reading id attempt t' ht := by cases ht

/-- A point that only retires a settled task. -/
theorem here_retiring {pc : Pc} {t : Task} (hwf : pc.WellFormed) (hret : pc.retiring = some t)
    (hs : Settled w t.id) : Here w (pc, none) := by
  have hreg : pc.registered = none := by
    cases pc <;> first | rfl | cases hret
  refine
    { wellFormed := hwf
      running := fun t ht => by simp [hreg] at ht
      control := fun t ht => by simp [hreg] at ht
      minted := fun t ht => by simp [hreg] at ht
      unstarted := ?_, marking := ?_, unrequested := ?_, marked := ?_, executing := ?_
      retiring := fun t' ht => by
        rw [hret] at ht
        cases ht
        exact hs
      reading := fun id attempt t ht => by cases ht }
  · rintro t rfl
    cases hreg
  · rintro t ⟨⟩
    cases hreg
  · rintro t ⟨⟩
    cases hreg
  · rintro t a ⟨⟩
  · rintro t rfl
    cases hreg

theorem separate_close {t : Task} (hne : ∀ t', y.1.registered = some t' → t.id ≠ t'.id) :
    Separate (.close t, none) y where
  left :=
    { entered := fun t₁ t' ht => by cases ht
      closing := fun t₁ t' ht => by
        cases ht
        exact hne t'
      reading := fun id attempt t₁ t' ht => by cases ht }
  right :=
    { entered := fun t' t₁ _ ht => by cases ht
      closing := fun t' t₁ _ ht => by cases ht
      reading := fun id attempt t' t₁ _ _ ht => by cases ht }

/-- Only a tick that has picked a task of a free category registers it. -/
theorem Resumed.registers {t : Task} (h : Resumed w pc r w' (.await (.markRunning t))) :
    (∃ completed busy, pc = .pick completed busy) ∧ r = .answer (.row (some t)) ∧
      w.held (operationCategory t.operation) = false := by
  have not_plain : ¬∀ x ∈ (Next.await (Pc.markRunning t)).points, x.Plain := by
    intro hp
    cases (hp _ (List.mem_singleton_self _)).1
  cases h with
  | registered hheld => exact ⟨⟨_, _, rfl⟩, rfl, hheld⟩
  | plain _ hp => exact absurd hp not_plain
  | answered _ hp => exact absurd hp not_plain
  | finalizedLast hp => exact absurd hp not_plain
  | released hp => exact absurd hp not_plain

/-- Where a resumed activation goes: to quiet points, or to one point that meets the invariant. -/
theorem Resumed.points (h : Resumed w pc r w' nx) (hb : Base w)
    (hx : Here w (pc, (Phase.ready r).seen))
    (hnew : ∀ t, nx = .await (.markRunning t) →
      w.table.status t.id = some .pending ∧ w.runningTasks.get t.id = none) :
    (∀ x ∈ nx.points, x.Quiet) ∨ ∃ x, nx = .await x ∧ (x.WellFormed → Here w' (x, none)) ∧
      ∀ y, Here w y → Separate (pc, (Phase.ready r).seen) y → Separate (x, none) y := by
  have plain : (∀ x ∈ nx.points, x.Plain) → ∀ x ∈ nx.points, x.Quiet :=
    fun hp x hx => (hp x hx).quiet
  cases h with
  | plain _ hp => exact .inl (plain hp)
  | answered _ hp => exact .inl (plain hp)
  | finalizedLast hp => exact .inl (plain hp)
  | released hp => exact .inl (plain hp)
  | finalized => exact .inl (by simp [Next.points, Pc.Quiet, Pc.registered, Pc.retiring])
  | unmarked => exact .inl (by simp [Next.points, Pc.Quiet, Pc.registered, Pc.retiring])
  | noResult => exact .inl (by simp [Next.points, Pc.Quiet, Pc.registered, Pc.retiring])
  | closed => exact .inl (by simp [Next.points, Pc.Quiet, Pc.registered, Pc.retiring])
  | unlocked => exact .inl (by simp [Next.points])
  | cancelMarked => exact .inl (by simp [Next.points])
  | @registered completed busy t hheld =>
    obtain ⟨hpend, hfree⟩ := hnew t rfl
    exact .inr ⟨_, rfl, fun _ => here_registered hb hpend,
      fun y hy _ => separate_registered hy hpend hfree⟩
  | @started t a =>
    exact .inr ⟨_, rfl, fun _ => here_execute hx,
      fun y hy hdis => hdis.of_entered rfl rfl (.inr rfl) (by simp)⟩
  | @ended t r status hend =>
    exact .inr ⟨_, rfl, fun hwf => here_retiring hwf rfl ((hx.executing t rfl).of_table rfl),
      fun y _ hdis => hdis.of_entered rfl rfl (.inl rfl) (by simp)⟩
  | @finished t status data a =>
    exact .inr ⟨_, rfl, fun hwf => here_retiring hwf rfl (hx.retiring t rfl),
      fun y _ hdis => hdis.of_entered rfl rfl (.inl rfl) (by simp)⟩
  | @closing id attempt t hrun hfree =>
    obtain ⟨hid, hs⟩ := hx.reading id attempt t rfl
    refine .inr ⟨_, rfl, fun hwf => here_retiring hwf rfl (hid ▸ hs hrun), ?_⟩
    -- a registered task still has its control, and this row has none
    refine fun y hy _ => separate_close fun t' ht' heq => ?_
    rw [hid.symm.trans heq, hy.control t' ht'] at hfree
    cases hfree

end Resume

theorem registering_of_resumed {s : QState} {pid : ℕ} {p : Activation Pc Ans} {r : Reply Ans}
    {w : World} {t : Task} (h : Resumed s.world p.pc r w (.await (.markRunning t)))
    (hp : s.procs.get pid = some p) (hphase : p.phase = .ready r) :
    t ∈ registering s (.resume pid) := by
  obtain ⟨⟨completed, busy, hpc⟩, rfl, hheld⟩ := h.registers
  exact mem_registering hp hpc hphase hheld

theorem base_resume {s : QState} {pid : ℕ} {p : Activation Pc Ans} {r : Reply Ans} {w : World}
    {nx : Next Pc} (hi : BaseInv s) (hp : s.procs.get pid = some p) (hphase : p.phase = .ready r)
    (hok : Current s (.resume pid)) (h : resume s.world p.pc r = (w, nx)) :
    Respects Base Here Separate s pid w (nx.points.map (·, none)) := by
  have hpoint : p.point = (p.pc, (Phase.ready r).seen) := by rw [Activation.point, hphase]
  have hx : Here s.world (p.pc, (Phase.ready r).seen) := hpoint ▸ hi.here pid p hp
  have hres := resumed_of_eq h
  have hwf : ∀ x ∈ nx.points, x.WellFormed := by
    have := wellFormed_of_resume s.world r hx.wellFormed
    rwa [h] at this
  have hreg : ∀ t, nx = .await (.markRunning t) → t ∈ registering s (.resume pid) := fun t ht =>
    registering_of_resumed (ht ▸ hres) hp hphase
  have hnew : ∀ t, nx = .await (.markRunning t) →
      s.world.table.status t.id = some .pending ∧ s.world.runningTasks.get t.id = none :=
    fun t ht => ⟨hok.pending t (hreg t ht), hok.unregistered t (hreg t ht)⟩
  have hother : ∀ q p', q ≠ pid → s.procs.get q = some p' →
      Here s.world p'.point ∧ Separate (p.pc, (Phase.ready r).seen) p'.point :=
    fun q p' hq hp' => ⟨hi.here q p' hp', hpoint ▸ hi.apart pid q p p' (Ne.symm hq) hp hp'⟩
  refine ⟨hi.world.resumed hx hres, ?_, ?_, ?_⟩
  · intro x hxs
    obtain ⟨pc, hpc, rfl⟩ := List.mem_map.mp hxs
    rcases hres.points hi.world hx hnew with hq | ⟨x, rfl, hhere, -⟩
    · exact (hq pc hpc).here (hwf pc hpc)
    · rw [List.mem_singleton.mp hpc] at *
      exact hhere (hwf x hpc)
  · rcases hres.points hi.world hx hnew with hq | ⟨x, rfl, -, -⟩
    · refine List.pairwise_map.mpr (List.pairwise_of_forall_mem_list ?_)
      exact fun pc hpc pc' _ => (hq pc hpc).separate _
    · exact List.pairwise_singleton _ _
  · intro q p' hq hp'
    obtain ⟨hhere, hdis⟩ := hother q p' hq hp'
    refine ⟨hhere.resumed_other hdis hres fun t ht => (hnew t ht).2, ?_⟩
    intro x hxs
    obtain ⟨pc, hpc, rfl⟩ := List.mem_map.mp hxs
    rcases hres.points hi.world hx hnew with hq | ⟨x, rfl, -, hxdis⟩
    · exact (hq pc hpc).separate _
    · rw [List.mem_singleton.mp hpc]
      exact hxdis p'.point hhere hdis

theorem base_coherent (cfg : Config) :
    Coherent (program cfg) Current Base Here Separate where
  symm _ _ := separate_symm
  serve _ _ _ _ _ _ hi hp hseen hok h := base_serve hi hp hseen hok h
  resume _ _ _ _ _ _ hi hp hphase hok h := base_resume hi hp hphase hok h
  enter _ _ _ _ hi _ h := base_enter hi h

theorem base_boot (table : Table) : BaseInv (boot table) :=
  Inv.start ⟨by simp [startedIds], by simp [startedIds], by simp⟩

theorem base_reaches {cfg : Config} {ok : QState → QLabel → Prop} {table : Table} {s : QState}
    (hok : ∀ s l, ok s l → Current s l) (h : QReaches cfg ok (boot table) s) : BaseInv s :=
  (base_coherent cfg).reaches (base_boot table) (h.mono hok)

end ZoneweaverAgent.TaskQueue
