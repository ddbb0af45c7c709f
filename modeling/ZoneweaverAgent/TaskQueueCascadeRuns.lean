import ZoneweaverAgent.TaskQueueCascade
import ZoneweaverAgent.TaskQueueInvariant

/-!
# Cancelling an anchor with nothing else running

The cancel request ends, no part of it is tried again, and it takes down exactly what `Hangs` from
the anchor and is pending or running. Whether that is everything below the anchor is `Hanging`.
-/

namespace ZoneweaverAgent.TaskQueue
open EventLoop

/-- No cancel request of the trace is a second attempt at a row that kept changing. -/
def NoRetry (trace : List Pc) : Prop := ∀ id n, .cancelFind id n ∈ trace → n = 0

theorem NoRetry.append {t₁ t₂ : List Pc} (h₁ : NoRetry t₁) (h₂ : NoRetry t₂) :
    NoRetry (t₁ ++ t₂) := by
  intro id n hmem
  rcases List.mem_append.mp hmem with h | h
  · exact h₁ id n h
  · exact h₂ id n h

theorem NoRetry.cons {pc : Pc} {trace : List Pc} (hpc : ∀ id n, pc = .cancelFind id n → n = 0)
    (h : NoRetry trace) : NoRetry (pc :: trace) := by
  intro id n hmem
  rcases List.mem_cons.mp hmem with hhead | htail
  · exact hpc id n hhead.symm
  · exact h id n htail

theorem NoRetry.nil : NoRetry [] := fun _ _ h => by cases h

/-! ## The moves of an activation of the queue -/

section Moves
variable {cfg : Config} {w w₁ w₂ w' : World} {pc pc' callee : Pc} {c : Choice} {a : Ans}
  {r : Reply Ans} {inner trace : List Pc} {failed threw : Bool}

theorem alone_serve (hs : serve w pc c = some (a, w₁))
    (h : Alone (program cfg) w₁ pc (some (.answer a)) trace w' threw) :
    Alone (program cfg) w pc none (pc :: trace) w' threw := by
  have hs' : (program cfg).serve w pc c = some (a, w₁) := hs
  exact .serve hs' h

theorem alone_await (hr : resume w pc r = (w₁, .await pc'))
    (h : Alone (program cfg) w₁ pc' none trace w' threw) :
    Alone (program cfg) w pc (some r) trace w' threw := by
  have hr' : (program cfg).resume w pc r = (w₁, .await pc') := hr
  exact .await hr' h

theorem alone_call (hr : resume w pc r = (w₁, .call [callee] pc'))
    (hc : Alone (program cfg) w₁ callee none inner w₂ failed)
    (h : Alone (program cfg) w₂ pc' (some (if failed then .failed else .returned)) trace w' threw) :
    Alone (program cfg) w pc (some r) (inner ++ trace) w' threw := by
  have hr' : (program cfg).resume w pc r = (w₁, .call [callee] pc') := hr
  exact .call hr' hc h

theorem alone_finish (hr : resume w pc r = (w', .finish threw)) :
    Alone (program cfg) w pc (some r) [] w' threw := by
  have hr' : (program cfg).resume w pc r = (w', .finish threw) := hr
  exact .finish hr'

end Moves

/-! ## The rollup of the ancestors -/

section Rollup
variable {w w' w'' : World} {p : TaskId}

/-- Running rows may have ended, though none as cancelled; controls are as they were. -/
structure Progressed (w w' : World) : Prop where
  next : w'.table.next = w.table.next
  status : ∀ q, w'.table.status q = w.table.status q ∨ w.table.status q = some .running ∧
    ∃ x, w'.table.status q = some x ∧ x.terminal = true ∧ x ≠ .cancelled
  control : ∀ q, w'.taskControls.get q = w.taskControls.get q

theorem Progressed.refl (w : World) : Progressed w w := ⟨rfl, fun _ => .inl rfl, fun _ => rfl⟩

theorem Progressed.trans (h : Progressed w w') (h' : Progressed w' w'') : Progressed w w'' where
  next := h'.next.trans h.next
  status q := by
    rcases h'.status q with heq | ⟨hrun, x, hx, hterm⟩
    · rw [heq]
      exact h.status q
    · rcases h.status q with heq' | ⟨-, y, hy, hterm', -⟩
      · exact .inr ⟨heq' ▸ hrun, x, hx, hterm⟩
      · cases hrun.symm.trans hy
        cases hterm'
  control q := (h'.control q).trans (h.control q)

def runningRows (w : World) : Finset TaskId :=
  (Finset.range w.table.next).filter fun q => w.table.status q = some .running

theorem mem_runningRows {q : TaskId} : q ∈ runningRows w ↔ w.table.status q = some .running := by
  simp only [runningRows, Finset.mem_filter, Finset.mem_range, and_iff_right_iff_imp]
  exact Table.status_lt

theorem parentStatus_ne_cancelled (subTasks : List Task) : parentStatus subTasks ≠ .cancelled := by
  unfold parentStatus
  dsimp only
  split_ifs <;> simp

/-- The write of a rollup. -/
def rolledUp (w : World) (parent : Task) (subTasks : List Task) : World :=
  { w with table := w.table.updateId parent.id (parentUpdate w.clock subTasks) }

theorem parentUpdate_status_eq (clock : ℕ) (subTasks : List Task) :
    (parentUpdate clock subTasks).status =
      if parentStatus subTasks = .running then none else some (parentStatus subTasks) := rfl

theorem progressed_rolledUp {parent : Task} (hrun : w.table.status parent.id = some .running)
    (subTasks : List Task) : Progressed w (rolledUp w parent subTasks) := by
  refine ⟨rfl, fun q => ?_, fun _ => rfl⟩
  rw [rolledUp, Table.status_updateId, parentUpdate_status_eq]
  by_cases hq : q = parent.id
  · subst hq
    rw [if_pos rfl]
    by_cases hstatus : parentStatus subTasks = .running
    · rw [if_pos hstatus]
      exact .inl (map_getD_none _).symm
    · rw [if_neg hstatus, hrun]
      exact .inr ⟨rfl, _, rfl, parentStatus_terminal hstatus, parentStatus_ne_cancelled subTasks⟩
  · rw [if_neg hq]
    exact .inl rfl

theorem runningRows_rolledUp_lt {parent : Task} (hrun : w.table.status parent.id = some .running)
    {subTasks : List Task} (hstatus : parentStatus subTasks ≠ .running) :
    (runningRows (rolledUp w parent subTasks)).card < (runningRows w).card := by
  have hsubset : runningRows (rolledUp w parent subTasks) ⊆ runningRows w := by
    intro q hq
    rw [mem_runningRows] at hq ⊢
    rcases (progressed_rolledUp hrun subTasks).status q with heq | ⟨hold, -⟩
    · exact heq ▸ hq
    · exact hold
  apply Finset.card_lt_card
  apply hsubset.ssubset_of_mem_notMem (mem_runningRows.mpr hrun)
  intro hmem
  have hst := mem_runningRows.mp hmem
  rw [rolledUp, Table.status_updateId, if_pos rfl, hrun, parentUpdate_status_eq,
    if_neg hstatus] at hst
  exact hstatus (Option.some.inj hst)

variable (cfg : Config)

theorem alone_parentTask_closed (h : w.table.status p ≠ some .running) :
    Alone (program cfg) w (.parentTask p) none [.parentTask p] w false := by
  have hserve : serve w (.parentTask p) .only = some (.row (w.table.find p), w) := rfl
  apply alone_serve hserve
  apply alone_finish
  cases hfind : w.table.find p with
  | none => rfl
  | some parent =>
    have hst : parent.status ≠ .running := by
      rw [Table.status_of_find hfind] at h
      exact fun hrun => h (congrArg some hrun)
    rw [resume, if_neg hst]

/-- The progress of an anchor and of those above it, as far as they end. -/
theorem alone_parentTask (w : World) (p : TaskId) : ∃ trace w',
    Alone (program cfg) w (.parentTask p) none trace w' false ∧ NoRetry trace ∧ Progressed w w' := by
  induction hn : (runningRows w).card using Nat.strong_induction_on generalizing w p with
  | _ n ih =>
    by_cases hrun : w.table.status p = some .running
    · obtain ⟨parent, hfind, hst⟩ := Option.map_eq_some_iff.mp hrun
      have hid : parent.id = p := Table.find_id hfind
      subst hid
      set subTasks := w.table.select fun t => t.parentTaskId = some parent.id with hsub
      have hprogress := progressed_rolledUp hrun subTasks
      -- up to the write of the anchor's row
      have hwrite : ∀ {trace w' threw},
          Alone (program cfg) (rolledUp w parent subTasks) (.updateParent parent
            (parentStatus subTasks) (parentUpdate w.clock subTasks)) (some (.answer .updated))
            trace w' threw →
          Alone (program cfg) w (.parentTask parent.id) none (.parentTask parent.id ::
            .subTasks parent :: .updateParent parent (parentStatus subTasks)
              (parentUpdate w.clock subTasks) :: trace) w' threw := by
        intro trace w' threw h
        have hread : serve w (.parentTask parent.id) .only = some (.row (some parent), w) := by
          rw [serve, hfind]
        have hcount : serve w (.subTasks parent) .only = some (.rows subTasks, w) := rfl
        have hupdate : serve w (.updateParent parent (parentStatus subTasks)
            (parentUpdate w.clock subTasks)) .only =
              some (.updated, rolledUp w parent subTasks) := rfl
        apply alone_serve hread
        apply alone_await (by rw [resume, if_pos hst])
        apply alone_serve hcount
        apply alone_await rfl
        exact alone_serve hupdate h
      have htrace : ∀ {trace}, NoRetry trace → NoRetry (.parentTask parent.id ::
          .subTasks parent :: .updateParent parent (parentStatus subTasks)
            (parentUpdate w.clock subTasks) :: trace) := by
        intro trace h
        exact .cons (by simp) (.cons (by simp) (.cons (by simp) h))
      by_cases hup : parent.parentTaskId = none ∨ parentStatus subTasks = .running
      · refine ⟨_, _, hwrite (alone_finish ?_), htrace .nil, hprogress⟩
        rw [resume]
        rcases hup with hnone | hstill
        · simp only [hnone]
        · cases hp : parent.parentTaskId <;> simp [hstill]
      · obtain ⟨hparent, hended⟩ := not_or.mp hup
        obtain ⟨p', hp'⟩ := Option.ne_none_iff_exists'.mp hparent
        obtain ⟨trace, w', hrest, hretry, hprogress'⟩ := ih _
          (hn ▸ runningRows_rolledUp_lt hrun hended) (rolledUp w parent subTasks) p' rfl
        refine ⟨_, _, hwrite (alone_await ?_ hrest), htrace hretry, hprogress.trans hprogress'⟩
        simp only [resume, hp', if_neg hended]
    · exact ⟨_, w, alone_parentTask_closed cfg hrun, .cons (by simp) .nil, .refl w⟩

end Rollup

/-! ## The cancel request -/

section Cancel
variable {w w' : World} {t : Task}

theorem rowCancelled_update {p : Task → Bool} {u : Patch} (hfind : w.table.find t.id = some t)
    (hp : ∀ q row, w.table.find q = some row → (p row = true ↔ q = t.id))
    (hu : u.status = some .cancelled) (htable : w'.table = w.table.update p u)
    (hcontrols : w'.taskControls = w.taskControls) : RowCancelled w t.id w' where
  next := by rw [htable, Table.update_next]
  parents q := by
    have hlinks := congrArg (Option.map Prod.snd) (Table.links_update w.table p u q)
    simp only [Option.map_map] at hlinks
    rw [htable]
    exact hlinks
  status q := by
    rw [htable, Table.status_update, hu, Table.status]
    cases hq : w.table.find q with
    | none =>
      have hne : q ≠ t.id := by
        rintro rfl
        cases hq.symm.trans hfind
      rw [if_neg hne]
      rfl
    | some row =>
      by_cases hid : q = t.id
      · rw [if_pos hid, Option.map_some, if_pos ((hp q row hq).mpr hid)]
        rfl
      · rw [if_neg hid, Option.map_some, if_neg (mt (hp q row hq).mp hid)]
        rfl
  control q := by rw [hcontrols]

variable (cfg : Config)

/-- A waiting row under a closed anchor is flipped. -/
theorem alone_flip (hfind : w.table.find t.id = some t)
    (hclosed : ∀ a, ChildOf w.table t.id a → w.table.status a ≠ some .running) :
    ∃ trace w', Alone (program cfg) w (.flip t 0) none trace w' false ∧ NoRetry trace ∧
      RowCancelled w t.id w' := by
  set p : Task → Bool := fun row => row.id = t.id && row.status = t.status with hp
  set w₁ : World := { w with
    table := w.table.update p { status := some .cancelled, completedAt := some w.clock } } with hw₁
  have hmem : t ∈ w.table.select p := by
    simp [Table.select, hp, Table.find_mem hfind]
  obtain ⟨n, hn⟩ := Nat.exists_eq_add_one_of_ne_zero (List.ne_nil_of_mem hmem |> mt List.length_eq_zero_iff.mp)
  have hserve : serve w (.flip t 0) .only = some (.count (n + 1), w₁) := by
    rw [← hn]
    rfl
  have hrow : RowCancelled w t.id w₁ := by
    refine @rowCancelled_update w w₁ t p _ hfind (fun q row hq => ?_) rfl rfl rfl
    simp only [hp, Bool.and_eq_true, decide_eq_true_eq, Table.find_id hq]
    refine ⟨And.left, fun hid => ⟨hid, ?_⟩⟩
    subst hid
    cases hfind.symm.trans hq
    rfl
  let w₂ := w₁.record (.cancelAnswered t.id false t.status)
  have hrow₂ : RowCancelled w t.id w₂ := ⟨hrow.next, hrow.parents, hrow.status, hrow.control⟩
  cases hparent : t.parentTaskId with
  | none =>
    have hend : resume w₁ (.flip t 0) (.answer (.count (n + 1))) = (w₂, .finish false) := by
      simp only [resume, hparent]
      rfl
    exact ⟨_, w₂, alone_serve hserve (alone_finish hend), .cons (by simp) .nil, hrow₂⟩
  | some a =>
    have hchild : ChildOf w.table t.id a := by
      rw [ChildOf, hfind, Option.map_some, hparent]
    have hstill : w₁.table.status a ≠ some .running := by
      rw [hrow.status]
      split_ifs
      · simp
      · exact hclosed a hchild
    have hcall : resume w₁ (.flip t 0) (.answer (.count (n + 1))) =
        (w₁, .call [.parentTask a] (.flipParent t)) := by
      simp only [resume, hparent]
    have hend : resume w₁ (.flipParent t) .returned = (w₂, .finish false) := rfl
    have hrun := alone_call hcall (alone_parentTask_closed cfg hstill) (alone_finish hend)
    exact ⟨_, w₂, alone_serve hserve hrun, .cons (by simp) (.append (.cons (by simp) .nil) .nil),
      hrow₂⟩

/-- What is left of a cascade when its children have been called. -/
def Closes (cfg : Config) (w : World) (t : Task) (trace : List Pc) (w' : World) : Prop :=
  ∀ pc r, resume w pc r = toCascade w t [] → Alone (program cfg) w pc (some r) trace w' false

/-- Under a closed anchor nothing is left but the answer. -/
theorem closes_closed (h : ∀ a, t.parentTaskId = some a → w.table.status a ≠ some .running) :
    ∃ trace, NoRetry trace ∧
      Closes cfg w t trace (w.record (.cancelAnswered t.id false .running)) := by
  cases hparent : t.parentTaskId with
  | none =>
    refine ⟨[], .nil, fun pc r hr => alone_finish ?_⟩
    rw [hr]
    simp only [toCascade, hparent]
  | some a =>
    refine ⟨[.parentTask a] ++ [], .append (.cons (by simp) .nil) .nil, fun pc r hr => ?_⟩
    have hcall : resume w pc r = (w, .call [.parentTask a] (.closeParent t)) := by
      rw [hr]
      simp only [toCascade, hparent]
    exact alone_call hcall (alone_parentTask_closed cfg (h a hparent)) (alone_finish rfl)

/-- For the anchor that was asked for, the progress of its own ancestors is left. -/
theorem closes_root (w : World) (t : Task) :
    ∃ trace w', NoRetry trace ∧ Progressed w w' ∧ Closes cfg w t trace w' := by
  cases hparent : t.parentTaskId with
  | none =>
    refine ⟨[], w.record (.cancelAnswered t.id false .running), .nil,
      ⟨rfl, fun _ => .inl rfl, fun _ => rfl⟩, fun pc r hr => alone_finish ?_⟩
    rw [hr]
    simp only [toCascade, hparent]
  | some a =>
    obtain ⟨trace, w₁, hrollup, hretry, hprogress⟩ := alone_parentTask cfg w a
    refine ⟨trace ++ [], w₁.record (.cancelAnswered t.id false .running), .append hretry .nil,
      ⟨hprogress.next, hprogress.status, hprogress.control⟩, fun pc r hr => ?_⟩
    have hcall : resume w pc r = (w, .call [.parentTask a] (.closeParent t)) := by
      rw [hr]
      simp only [toCascade, hparent]
    exact alone_call hcall hrollup (alone_finish rfl)

end Cancel

/-! ## The walk -/

section Walk
variable (cfg : Config) (w₀ : World) (root : TaskId)

/-- A call for a row under a closed anchor ends and leaves only the other calls to be made. -/
def CallsDown (w : World) (id : TaskId) : Prop :=
  ∀ left, Sweep w₀ root (fun q => q = id ∨ left q) w → Reached w₀ root id →
    (∀ a, ChildOf w.table id a → w.table.status a ≠ some .running) →
    ∃ trace w', Alone (program cfg) w (.cancelFind id 0) none trace w' false ∧ NoRetry trace ∧
      Sweep w₀ root left w' ∧ Lowers w w'

variable {cfg w₀ root}

theorem childOf_unique {tb : Table} {c a a' : TaskId} (h : ChildOf tb c a) (h' : ChildOf tb c a') :
    a = a' := by
  have heq := h.symm.trans h'
  cases heq
  rfl

/-- The children one after another, by induction on those that are left. -/
theorem alone_cascade {t : Task} {m : ℕ}
    (hcalls : ∀ w id, (openAnchors w).card < m → CallsDown cfg w₀ root w id)
    {left : TaskId → Prop} (ids : List TaskId) {w : World} (hm : (openAnchors w).card < m)
    (hs : Sweep w₀ root (fun q => q ∈ ids ∨ left q) w)
    (hids : ∀ c ∈ ids, Reached w₀ root c ∧ ChildOf w₀.table c t.id)
    (hclosed : w.table.status t.id = some .cancelled) :
    ∃ trace w₁, NoRetry trace ∧ Sweep w₀ root left w₁ ∧ Lowers w w₁ ∧
      ∀ tail w', Closes cfg w₁ t tail w' → ∀ pc r, resume w pc r = toCascade w t ids →
        Alone (program cfg) w pc (some r) (trace ++ tail) w' false := by
  induction ids generalizing w with
  | nil =>
    refine ⟨[], w, .nil, hs.mono fun q hq => hq.resolve_left List.not_mem_nil, .refl w, ?_⟩
    intro tail w' hcloses pc r hr
    exact hcloses pc r hr
  | cons c rest ih =>
    obtain ⟨hreached, hchild⟩ := hids c List.mem_cons_self
    have hs' : Sweep w₀ root (fun q => q = c ∨ (q ∈ rest ∨ left q)) w := by
      apply hs.mono
      intro q hq
      rwa [List.mem_cons, or_assoc] at hq
    have hunder : ∀ a, ChildOf w.table c a → w.table.status a ≠ some .running := by
      intro a ha
      rw [childOf_unique (hs.lowers.childOf.mp ha) hchild, hclosed]
      simp
    obtain ⟨inner, w₂, hcall, hretry, hs₂, hlowers⟩ := hcalls w c hm _ hs' hreached hunder
    obtain ⟨trace, w₁, hretry', hs₁, hlowers', hrest⟩ := ih
      ((Finset.card_le_card hlowers.openAnchors_subset).trans_lt hm) hs₂
      (fun c' hc' => hids c' (List.mem_cons_of_mem c hc')) (hlowers.cancelled hclosed)
    refine ⟨inner ++ trace, w₁, hretry.append hretry', hs₁, hlowers.trans hlowers', ?_⟩
    intro tail w' hcloses pc r hr
    rw [List.append_assoc]
    exact alone_call hr hcall (hrest tail w' hcloses (.cascade t rest) .returned rfl)

/-- An anchor is closed, and its children are called. -/
theorem alone_close {w : World} {t : Task} {left : TaskId → Prop}
    (hcalls : ∀ w' id, (openAnchors w').card < (openAnchors w).card → CallsDown cfg w₀ root w' id)
    (hfind : w.table.find t.id = some t) (hanchor : Anchored w t.id)
    (hs : Sweep w₀ root (fun q => q = t.id ∨ left q) w)
    (hid : t.id = root ∨ Reached w₀ root t.id) :
    ∃ trace w₁, NoRetry trace ∧ Sweep w₀ root left w₁ ∧ Lowers w w₁ ∧
      w₁.table.status t.id = some .cancelled ∧ ∀ tail w', Closes cfg w₁ t tail w' →
        Alone (program cfg) w (.cancelFind t.id 0) none (trace ++ tail) w' false := by
  have hst : t.status = .running := by
    have h := hanchor.1
    rw [Table.status_of_find hfind] at h
    exact Option.some.inj h
  set w₁ : World := { w with
    table := w.table.updateId t.id
      { status := some .cancelled, completedAt := some w.clock } } with hw₁
  set w₂ := w₁.deleteRunning t.id with hw₂
  set ids := (w₂.table.select fun row => row.parentTaskId = some t.id &&
    (row.status = .pending || row.status = .running)).map Task.id with hidsdef
  have hrow₁ : RowCancelled w t.id w₁ := by
    refine @rowCancelled_update w w₁ t (fun row => row.id = t.id) _ hfind (fun q row hq => ?_)
      rfl rfl rfl
    rw [decide_eq_true_iff, Table.find_id hq]
  have hrow : RowCancelled w t.id w₂ := ⟨hrow₁.next, hrow₁.parents, hrow₁.status, hrow₁.control⟩
  have hlowers : Lowers w w₂ := hrow.lowers (.inr (.inr hanchor))
  have hanchor₀ : Anchored w₀ t.id := hs.lowers.anchored hanchor
  have hchildren : ∀ c, ChildOf w₀.table c t.id → Todo w₂ c → c ∈ ids := by
    intro c hc htodo
    obtain ⟨row, hrow', hparent⟩ :=
      Option.map_eq_some_iff.mp (hlowers.childOf.mpr (hs.lowers.childOf.mpr hc))
    have hopen : row.status = .pending ∨ row.status = .running := by
      have hstatus := Table.status_of_find hrow'
      rcases htodo with hp | ⟨hr, -⟩
      · exact .inl (Option.some.inj (hstatus.symm.trans hp))
      · exact .inr (Option.some.inj (hstatus.symm.trans hr))
    rw [hidsdef, ← Table.find_id hrow']
    apply List.mem_map_of_mem
    rw [Table.select, List.mem_filter]
    refine ⟨Table.find_mem hrow', ?_⟩
    simpa [hparent] using hopen
  have hidsof : ∀ c ∈ ids, Reached w₀ root c ∧ ChildOf w₀.table c t.id := by
    intro c hc
    obtain ⟨row, hmem, rfl⟩ := List.mem_map.mp hc
    obtain ⟨hrows, hsel⟩ := List.mem_filter.mp hmem
    have hfind' : w₂.table.find row.id = some row := Table.find_eq_some_iff.mpr ⟨hrows, rfl⟩
    have hparent : row.parentTaskId = some t.id := by
      have := (Bool.and_eq_true _ _ ▸ hsel).1
      simpa using this
    have hchild : ChildOf w₀.table row.id t.id := by
      rw [← hs.lowers.childOf, ← hlowers.childOf, ChildOf, hfind', Option.map_some, hparent]
    have hopen : w₂.table.status row.id = some .pending ∨ w₂.table.status row.id = some .running := by
      have := (Bool.and_eq_true _ _ ▸ hsel).2
      rw [Table.status_of_find hfind']
      simpa using this
    refine ⟨⟨?_, ?_⟩, hchild⟩
    · rcases hid with hroot | hreached
      · exact .child (hroot ▸ hchild)
      · exact .under hreached.1 hanchor₀ hchild
    · exact hopen.imp (fun h => hs.lowers.pending (hlowers.pending h))
        fun h => hs.lowers.running (hlowers.running h)
  have hs₂ : Sweep w₀ root (fun q => q ∈ ids ∨ left q) w₂ :=
    hs.cancelRow hid hrow (.inr (.inr hanchor)) (fun _ => .inr)
      fun _ c hc htodo => .inl (hchildren c hc htodo)
  obtain ⟨trace, w₃, hretry, hs₃, hlowers₃, hrun⟩ := alone_cascade hcalls ids
    (hrow.openAnchors_lt hanchor) hs₂ hidsof hrow.cancelled
  refine ⟨.cancelFind t.id 0 :: .close t :: .children t :: trace, w₃,
    .cons (by simp) (.cons (by simp) (.cons (by simp) hretry)), hs₃, hlowers.trans hlowers₃,
    hlowers₃.cancelled hrow.cancelled, fun tail w' hcloses => ?_⟩
  have hread : serve w (.cancelFind t.id 0) .only = some (.row (some t), w) := by
    rw [serve, hfind]
  have hclose : serve w (.close t) .only = some (.updated, w₁) := rfl
  have hselect : serve w₂ (.children t) .only = some (.rows (w₂.table.select fun row =>
    row.parentTaskId = some t.id && (row.status = .pending || row.status = .running)), w₂) := rfl
  apply alone_serve hread
  apply alone_await (by simp only [resume, hst, hanchor.2]; rfl)
  apply alone_serve hclose
  apply alone_await rfl
  apply alone_serve hselect
  exact hrun tail w' hcloses _ _ rfl

/-- A call that finds nothing to do answers with an error and changes nothing. -/
theorem alone_nothing (cfg : Config) {w : World} {id : TaskId}
    (h : ∀ t, w.table.find id = some t → t.status.terminal = true) :
    Alone (program cfg) w (.cancelFind id 0) none [.cancelFind id 0] w false := by
  have hread : serve w (.cancelFind id 0) .only = some (.row (w.table.find id), w) := rfl
  apply alone_serve hread
  apply alone_finish
  cases hfind : w.table.find id with
  | none => rfl
  | some t =>
    have hterm := h t hfind
    cases hst : t.status with
    | pending | prepared | running =>
      rw [hst] at hterm
      cases hterm
    | completed | completedWithErrors | failed | cancelled => simp only [resume, hst]

/-- The calls below the root, by induction on the anchors that are still running. -/
theorem callsDown (cfg : Config) (w₀ w : World) (root id : TaskId) :
    CallsDown cfg w₀ root w id := by
  induction hn : (openAnchors w).card using Nat.strong_induction_on generalizing w id with
  | _ n ih =>
    intro left hs hreached hclosed
    by_cases hended : ∀ t, w.table.find id = some t → t.status.terminal = true
    · refine ⟨_, w, alone_nothing cfg hended, .cons (by simp) .nil, hs.skip ?_, .refl w⟩
      rintro (hst | ⟨hst, -⟩) <;>
      · obtain ⟨t, ht, hstatus⟩ := Option.map_eq_some_iff.mp hst
        have hterm := hended t ht
        rw [hstatus] at hterm
        cases hterm
    push Not at hended
    obtain ⟨t, hfind, hopen⟩ := hended
    obtain rfl := Table.find_id hfind
    have hstatus := Table.status_of_find hfind
    have hread : serve w (.cancelFind t.id 0) .only = some (.row (some t), w) := by
      rw [serve, hfind]
    by_cases hrun : t.status = .running
    · by_cases hhas : w.taskControls.has t.id = true
      · -- dispatched: its control is marked
        set w' := (w.markCancelled t.id).record (.cancelAnswered t.id true .running)
        have hend : resume w (.cancelFind t.id 0) (.answer (.row (some t))) = (w', .finish false) := by
          simp only [resume, hrun, if_pos hhas]
          rfl
        have hmark : ControlMarked w t.id w' := ⟨rfl, fun q => KeyedList.get_set _ _ _ _⟩
        exact ⟨_, w', alone_serve hread (alone_finish hend), .cons (by simp) .nil,
          hs.mark (.inr hreached) hmark (hrun ▸ hstatus) hhas, hmark.lowers hhas⟩
      · -- an anchor of its own
        have hanchor : Anchored w t.id := ⟨hrun ▸ hstatus, Bool.eq_false_iff.mpr hhas⟩
        obtain ⟨trace, w₁, hretry, hs₁, hlowers, hcancelled, hall⟩ := alone_close
          (fun w' id' hlt => ih _ (hn ▸ hlt) w' id' rfl) hfind hanchor hs (.inr hreached)
        have hstill : ∀ a, t.parentTaskId = some a → w₁.table.status a ≠ some .running := by
          intro a ha hr
          have hchild : ChildOf w.table t.id a := by rw [ChildOf, hfind, Option.map_some, ha]
          exact hclosed a hchild (hlowers.running hr)
        obtain ⟨tail, hretry', hcloses⟩ := closes_closed cfg hstill
        exact ⟨_, _, hall tail _ hcloses, hretry.append hretry', hs₁.record _,
          hlowers.trans (.record w₁ _)⟩
    · -- waiting: the row is flipped
      have hwaits : t.status = .pending ∨ t.status = .prepared := by
        cases hst : t.status with
        | pending => exact .inl rfl
        | prepared => exact .inr rfl
        | running => exact absurd hst hrun
        | _ => exact absurd (by rw [hst]; rfl) hopen
      obtain ⟨trace, w', hflip, hretry, hrow⟩ := alone_flip cfg hfind hclosed
      have hto : resume w (.cancelFind t.id 0) (.answer (.row (some t))) =
          (w, .await (.flip t 0)) := by
        rcases hwaits with hst | hst <;> simp only [resume, hst]
      have hold : w.table.status t.id = some .pending ∨ w.table.status t.id = some .prepared ∨
          Anchored w t.id := by
        rw [hstatus]
        exact hwaits.imp (congrArg some) fun h => .inl (congrArg some h)
      have hnot : ¬Anchored w₀ t.id := by
        intro hanchor₀
        rcases hs.lowers.status t.id with heq | ⟨hc, -⟩
        · rw [hanchor₀.1, hstatus] at heq
          exact hrun (Option.some.inj heq)
        · rw [hstatus] at hc
          rcases hwaits with hst | hst <;> rw [hst] at hc <;> cases hc
      exact ⟨_, w', alone_serve hread (alone_await hto hflip), .cons (by simp) hretry,
        hs.cancelRow (.inr hreached) hrow hold (fun _ h => h) fun h => absurd h hnot,
        hrow.lowers hold⟩

end Walk

/-! ## The whole pipeline -/

section Pipeline
variable {w w₁ w' : World} {root q : TaskId}

/-- What cancelling an anchor promises for everything below it. -/
structure TakenDown (w : World) (root : TaskId) (w' : World) : Prop where
  waiting : ∀ q, Descendant w.table q root →
    w'.table.status q ≠ some .pending ∧ w'.table.status q ≠ some .prepared
  dispatched : ∀ q, Descendant w.table q root → Dispatched w q →
    w'.taskControls.get q = some ⟨true⟩
  anchors : ∀ q, Descendant w.table q root → Anchored w q → w'.table.status q = some .cancelled

/-- No descendant is prepared, and those with something left to cancel hang from the anchor through
running anchors. -/
def Hanging (w : World) (root : TaskId) : Prop :=
  ∀ q, q ≠ root → Descendant w.table q root →
    w.table.status q ≠ some .prepared ∧ (Todo w q → Hangs w root q)

theorem Lowers.cancelled_of_anchored (h : Lowers w w₁) (hanchor : Anchored w q)
    (htodo : ¬Todo w₁ q) : w₁.table.status q = some .cancelled := by
  rcases h.status q with heq | ⟨hc, -⟩
  · have hanchor₁ : Anchored w₁ q := ⟨heq.trans hanchor.1, (h.has q).trans hanchor.2⟩
    exact absurd hanchor₁.todo htodo
  · exact hc

theorem Lowers.prepared (h : Lowers w w₁) (hp : w₁.table.status q = some .prepared) :
    w.table.status q = some .prepared := by
  rcases h.status q with heq | ⟨hc, -⟩
  · exact heq ▸ hp
  · cases hc.symm.trans hp

theorem Lowers.marked (h : Lowers w w₁) (hm : w.taskControls.get q = some ⟨true⟩) :
    w₁.taskControls.get q = some ⟨true⟩ := by
  rcases h.control q with heq | ⟨-, hmarked⟩
  · rw [heq, hm]
  · exact hmarked

/-- A rollup leaves alone what is not running. -/
theorem Progressed.status_of_ne (h : Progressed w₁ w') {x : Status} (hx : x.terminal = false)
    (hst : w'.table.status q = some x) : w₁.table.status q = some x := by
  rcases h.status q with heq | ⟨-, y, hy, hterm, -⟩
  · exact heq ▸ hst
  · cases hy.symm.trans hst
    cases hx.symm.trans hterm

theorem Progressed.cancelled_iff (h : Progressed w₁ w') :
    w'.table.status q = some .cancelled ↔ w₁.table.status q = some .cancelled := by
  rcases h.status q with heq | ⟨hrun, y, hy, -, hne⟩
  · rw [heq]
  · rw [hy, hrun]
    simp [hne]

/-- With nothing left to call, whatever hangs from the root has been seen to. -/
theorem Sweep.done (h : Sweep w root (fun _ => False) w₁) (hanchor : Anchored w root)
    (hclosed : w₁.table.status root = some .cancelled) (hq : Hangs w root q) : ¬Todo w₁ q := by
  induction hq with
  | child hchild => exact h.swept root _ hanchor hclosed hchild
  | under _ ha hchild ih =>
    exact h.swept _ _ ha (h.lowers.cancelled_of_anchored ha ih) hchild

theorem takenDown_of_hanging (hs : Sweep w root (fun _ => False) w₁) (hanchor : Anchored w root)
    (hclosed : w₁.table.status root = some .cancelled) (hprogress : Progressed w₁ w')
    (h : Hanging w root) : TakenDown w root w' where
  waiting q hq := by
    by_cases hroot : q = root
    · subst hroot
      rw [hprogress.cancelled_iff.mpr hclosed]
      simp
    obtain ⟨hprepared, hhangs⟩ := h q hroot hq
    refine ⟨fun hst => ?_, fun hst => ?_⟩
    · have hst₁ := hprogress.status_of_ne rfl hst
      exact hs.done hanchor hclosed (hhangs (.inl (hs.lowers.pending hst₁))) (.inl hst₁)
    · exact hprepared (hs.lowers.prepared (hprogress.status_of_ne rfl hst))
  dispatched q hq hdispatched := by
    have hroot : q ≠ root := by
      rintro rfl
      cases hanchor.2.symm.trans hdispatched.2
    rw [hprogress.control]
    by_cases hmarked : w.taskControls.get q = some ⟨true⟩
    · exact hs.lowers.marked hmarked
    have htodo := hs.done hanchor hclosed ((h q hroot hq).2 (.inr ⟨hdispatched.1, hmarked⟩))
    by_contra hget
    apply htodo
    refine .inr ⟨?_, hget⟩
    rcases hs.lowers.status q with heq | ⟨-, hold | hold | hold⟩
    · rw [heq, hdispatched.1]
    · cases hold.symm.trans hdispatched.1
    · cases hold.symm.trans hdispatched.1
    · cases hold.2.symm.trans hdispatched.2
  anchors q hq ha := by
    rw [hprogress.cancelled_iff]
    by_cases hroot : q = root
    · rwa [hroot]
    · apply hs.lowers.cancelled_of_anchored ha
      exact hs.done hanchor hclosed ((h q hroot hq).2 ha.todo)

theorem hanging_of_takenDown (hs : Sweep w root (fun _ => False) w₁)
    (hprogress : Progressed w₁ w') (h : TakenDown w root w') : Hanging w root := by
  intro q hroot hq
  have kept : ¬Reached w root q → ∀ x, x ≠ .running → w.table.status q = some x →
      w'.table.status q = some x := by
    intro hnot x hx hst
    have hst₁ := (hs.untouched q hroot hnot).1.trans hst
    rcases hprogress.status q with heq | ⟨hrun, -⟩
    · rw [heq, hst₁]
    · exact absurd (Option.some.inj (hst₁.symm.trans hrun)) hx
  constructor
  · intro hprepared
    have hnot : ¬Reached w root q := by
      rintro ⟨-, hst | hst⟩ <;> cases hst.symm.trans hprepared
    exact (h.waiting q hq).2 (kept hnot .prepared (by simp) hprepared)
  · intro htodo
    by_contra hhangs
    have hnot : ¬Reached w root q := fun hreached => hhangs hreached.1
    obtain ⟨hstatus, hcontrol⟩ := hs.untouched q hroot hnot
    rcases htodo with hpending | ⟨hrun, hget⟩
    · exact (h.waiting q hq).1 (kept hnot .pending (by simp) hpending)
    · by_cases hhas : w.taskControls.has q = true
      · apply hget
        rw [← hcontrol, ← hprogress.control]
        exact h.dispatched q hq ⟨hrun, hhas⟩
      · have hcancelled := h.anchors q hq ⟨hrun, Bool.eq_false_iff.mpr hhas⟩
        rw [hprogress.cancelled_iff, hstatus, hrun] at hcancelled
        cases hcancelled

/-- A cancel request for an anchor, from its entry to its answer. -/
theorem alone_cancel (cfg : Config) (h : Anchored w root) :
    ∃ trace w₁ w', Alone (program cfg) w (.cancelFind root 0) none trace w' false ∧
      NoRetry trace ∧ Sweep w root (fun _ => False) w₁ ∧
      w₁.table.status root = some .cancelled ∧ Progressed w₁ w' := by
  obtain ⟨t, hfind, -⟩ := Option.map_eq_some_iff.mp h.1
  obtain rfl := Table.find_id hfind
  have hstart : Sweep w t.id (fun q => q = t.id ∨ False) w := by
    refine ⟨.refl w, fun _ _ _ => ⟨rfl, rfl⟩, fun a c ha hcancelled => ?_⟩
    cases ha.1.symm.trans hcancelled
  obtain ⟨trace, w₁, hretry, hs, -, hclosed, hall⟩ := alone_close
    (fun w' id _ => callsDown cfg w w' t.id id) hfind h hstart (.inl rfl)
  obtain ⟨tail, w', hretry', hprogress, hcloses⟩ := closes_root cfg w₁ t
  exact ⟨trace ++ tail, w₁, w', hall tail w' hcloses, hretry.append hretry', hs, hclosed,
    hprogress⟩

end Pipeline

/-! ## The only run -/

/-- The points of a cancel request and of the rollups it awaits. -/
def Pc.cancels : Pc → Prop
  | .cancelFind _ _ | .flip _ _ | .flipParent _ | .close _ | .children _ | .cascade _ _
  | .closeParent _ | .parentTask _ | .subTasks _ | .updateParent _ _ _ => True
  | _ => False

theorem cancels_serve (w : World) (pc : Pc) (c c' : Choice) (x x' : Ans × World) (h : pc.cancels)
    (hx : serve w pc c = some x) (hx' : serve w pc c' = some x') : x = x' := by
  have only : ∀ c y, serve w pc c = some y → c = .only := by
    intro c y hy
    cases pc <;> first
      | exact (show False from h).elim
      | (cases c <;> first | rfl | cases hy)
  rw [only c x hx] at hx
  rw [only c' x' hx'] at hx'
  exact Option.some.inj (hx.symm.trans hx')

theorem cancels_toCascade (w : World) (t : Task) (ids : List TaskId) :
    ∀ x ∈ (toCascade w t ids).2.points, x.cancels := by
  cases ids with
  | nil =>
    cases hparent : t.parentTaskId <;> simp [toCascade, hparent, Next.points, Pc.cancels]
  | cons c rest => simp [toCascade, Next.points, Pc.cancels]

theorem cancels_resume (w : World) (pc : Pc) (r : Reply Ans) (h : pc.cancels) :
    ∀ x ∈ (resume w pc r).2.points, x.cancels := by
  unfold resume
  split
  all_goals (try split) <;> (try split_ifs)
  all_goals first
    | exact (show False from h).elim
    | exact cancels_toCascade w _ _
    | simp [Next.points, Pc.cancels]

theorem alone_cancel_unique {cfg : Config} {w w₁ w₂ : World} {root : TaskId} {t₁ t₂ : List Pc}
    {b₁ b₂ : Bool} (h₁ : Alone (program cfg) w (.cancelFind root 0) none t₁ w₁ b₁)
    (h₂ : Alone (program cfg) w (.cancelFind root 0) none t₂ w₂ b₂) :
    t₁ = t₂ ∧ w₁ = w₂ ∧ b₁ = b₂ :=
  h₁.unique cancels_serve cancels_resume trivial h₂

theorem cascade_takes_down_iff (cfg : Config) {w : World} {root : TaskId} (h : Anchored w root) :
    (∃ trace w', Alone (program cfg) w (.cancelFind root 0) none trace w' false) ∧
      ∀ trace w' threw, Alone (program cfg) w (.cancelFind root 0) none trace w' threw →
        threw = false ∧ NoRetry trace ∧ (TakenDown w root w' ↔ Hanging w root) := by
  obtain ⟨trace₀, w₁, w₀, hrun₀, hretry, hs, hclosed, hprogress⟩ := alone_cancel cfg h
  refine ⟨⟨trace₀, w₀, hrun₀⟩, fun trace w' threw hrun => ?_⟩
  obtain ⟨rfl, rfl, rfl⟩ := alone_cancel_unique hrun hrun₀
  refine ⟨rfl, hretry, fun htaken => ?_, fun hhanging => ?_⟩
  · exact hanging_of_takenDown hs hprogress htaken
  · exact takenDown_of_hanging hs h hclosed hprogress hhanging

/-- The run of the request in the loop, with every other activation standing still. -/
theorem cancel_in_loop (cfg : Config) {s : QState} {root : TaskId} (hfresh : Fresh s)
    (h : Anchored s.world root) : ∃ s₁ t, step (program cfg) s (.enter (.cancel root)) = some s₁ ∧
      Transition.Reaches (step (program cfg)) (MovesOnly s.next s₁.next) s₁ t ∧
      (∀ q, t.procs.get q = s.procs.get q) ∧
      (TakenDown s.world root t.world ↔ Hanging s.world root) := by
  obtain ⟨trace, w₁, w', hrun, -, hs, hclosed, hprogress⟩ := alone_cancel cfg h
  let s₁ : QState :=
    ⟨s.world, s.procs.set s.next ⟨.cancelFind root 0, .waiting, none⟩, s.next + 1⟩
  have hnew : s.procs.get s.next = none := by
    cases hget : s.procs.get s.next with
    | none => rfl
    | some p => exact absurd (hfresh _ p hget) (Nat.lt_irrefl _)
  have hfresh₁ : Fresh s₁ := by
    intro q p hq
    rw [KeyedList.get_set] at hq
    split_ifs at hq with hqn
    · exact hqn ▸ Nat.lt_succ_self _
    · exact Nat.lt_succ_of_lt (hfresh q p hq)
  obtain ⟨t, hreaches, hworld, -, hprocs⟩ :=
    @Alone.reaches World Pc Ans Choice Entry (program cfg) s.world w' _ none trace false hrun s₁
      s.next none rfl (KeyedList.get_set_self _ _ _) hfresh₁
  refine ⟨s₁, t, rfl, hreaches, fun q => ?_, ?_⟩
  · rw [hprocs]
    change ((s.procs.set s.next _).erase s.next).get q = _
    rw [KeyedList.get_erase, KeyedList.get_set]
    by_cases hq : s.next = q
    · rw [if_pos hq, ← hq, hnew]
    · rw [if_neg hq, if_neg hq]
  · rw [hworld]
    exact ⟨hanging_of_takenDown hs hprogress, takenDown_of_hanging hs h hclosed hprogress⟩

/-! ## A prepared sub-task, and a pipeline that is taken down -/

/-- A running anchor with one sub-task in the given status. -/
def anchorOver (status : Status) : World where
  table := (Table.empty.create
    { id := 0, zoneName := "web", operation := "zone_create_orchestration", status := .running }).create
    { id := 1, zoneName := "web", operation := "artifact_upload", status, parentTaskId := some 0 }
  clock := 0
  runningTasks := []
  runningCategories := []
  taskControls := []
  history := []

theorem descendant_anchorOver {status : Status} {q : TaskId}
    (h : Descendant (anchorOver status).table q 0) : q = 1 := by
  have hrow : ∃ a, ChildOf (anchorOver status).table q a := by
    cases h with
    | single hchild => exact ⟨_, hchild⟩
    | tail htail _ => exact (Relation.TransGen.head'_iff.mp htail).imp fun _ => And.left
  obtain ⟨a, ha⟩ := hrow
  obtain ⟨row, hfind, hparent⟩ := Option.map_eq_some_iff.mp ha
  have hmem := Table.find_mem hfind
  rw [← Table.find_id hfind]
  simp only [anchorOver, Table.create, Table.empty, List.nil_append, List.singleton_append,
    List.mem_cons, List.not_mem_nil, or_false] at hmem
  rcases hmem with rfl | rfl
  · cases hparent
  · rfl

theorem cascade_takes_down_fails : ¬∀ (cfg : Config) (w : World) (root : TaskId),
    Anchored w root → ∀ trace w' threw,
      Alone (program cfg) w (.cancelFind root 0) none trace w' threw →
        threw = false ∧ NoRetry trace ∧ TakenDown w root w' := by
  intro h
  have hanchor : Anchored (anchorOver .prepared) 0 := by decide
  obtain ⟨trace, w₁, w', hrun, -, hs, -, hprogress⟩ := alone_cancel {} hanchor
  have hhanging := hanging_of_takenDown hs hprogress (h {} _ 0 hanchor trace w' false hrun).2.2
  exact (hhanging 1 (by decide) (.single (by decide))).1 (by decide)

theorem cascade_takes_down_pending : Anchored (anchorOver .pending) 0 ∧ ∃ trace w',
    Alone (program {}) (anchorOver .pending) (.cancelFind 0 0) none trace w' false ∧
      TakenDown (anchorOver .pending) 0 w' := by
  have hanchor : Anchored (anchorOver .pending) 0 := by decide
  obtain ⟨⟨trace, w', hrun⟩, hall⟩ := cascade_takes_down_iff {} hanchor
  refine ⟨hanchor, trace, w', hrun, (hall trace w' false hrun).2.2.mpr fun q _ hq => ?_⟩
  obtain rfl := descendant_anchorOver hq
  exact ⟨by decide, fun _ => .child (by decide)⟩

end ZoneweaverAgent.TaskQueue
