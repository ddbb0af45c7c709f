import ZoneweaverAgent.PowerRequestsSteps

/-!
# The pending changes are applied between the stop and the start

A task that waits for another is begun only when that other has completed: the pick answers with it
either because the tick had found its dependency completed, or because it names none. The latter is
the window between the two writes of a request, and the row of a deleted dependency. As long as the
stop is pending, it is the stop that the pick prefers. `Chained` says that no pick falls into the
rest of the window and that a stop that has completed, or ended otherwise, stays so.
-/

namespace ZoneweaverAgent.PowerRequests
open EventLoop TaskQueue

/-! ## The tasks of a request -/

def Request.tasks (r : Request) : List TaskId :=
  r.stopTask.toList ++ r.applyTask.toList ++ r.startTask.toList

/-- The row, as long as it is there, is as `P` says. -/
structure Stands (tb : Table) (P : Task → Prop) (id : TaskId) : Prop where
  minted : id < tb.next
  row : ∀ row, tb.find id = some row → P row

/-- The tasks of the request are the rows it has created. -/
structure Request.Rows (r : Request) (tb : Table) : Prop where
  stop : ∀ id ∈ r.stopTask, Stands tb (fun row =>
    row.zoneName = r.zoneName ∧ row.priority = TaskPriority.high ∧ row.dependsOn = none) id
  apply : ∀ id ∈ r.applyTask, Stands tb (fun row =>
    row.zoneName = r.zoneName ∧ row.priority = TaskPriority.medium ∧
      (row.dependsOn = none ∨ row.dependsOn = r.stopTask)) id
  start : ∀ id ∈ r.startTask, Stands tb (fun row =>
    row.dependsOn = none ∨ row.dependsOn = r.startDependsOn) id
  order : ∀ stop ∈ r.stopTask, ∀ apply ∈ r.applyTask, stop < apply

structure Request.Sound (r : Request) (tb : Table) : Prop extends r.Rows tb where
  fits : r.Fits

/-- Every request is sound, and no two have a task in common. -/
structure Holds (rs : List Request) (tb : Table) : Prop where
  sound : ∀ r ∈ rs, r.Sound tb
  apart : ∀ (i j : ℕ) (r r' : Request) (id : TaskId), rs[i]? = some r → rs[j]? = some r' →
    id ∈ r.tasks → id ∈ r'.tasks → i = j

section Holding
variable {tb tb' : Table} {P : Task → Prop} {id d : TaskId} {r r' : Request} {rs : List Request}

theorem Stands.kept (h : Stands tb P id) (hk : Kept tb tb')
    (hP : ∀ row row', SameRow row row' → P row → P row') : Stands tb' P id := by
  refine ⟨h.minted.trans_le hk.next, fun row' hrow' => ?_⟩
  obtain ⟨row, hrow, hsame⟩ := hk.rows id row' h.minted hrow'
  exact hP row row' hsame (h.row row hrow)

theorem Stands.attach (h : Stands tb P id) {id' : TaskId} (hne : id ≠ id') :
    Stands (tb.attach id' d) P id := by
  refine ⟨h.minted, fun row hrow => ?_⟩
  rw [Table.find_attach] at hrow
  obtain ⟨t, ht, rfl⟩ := Option.map_eq_some_iff.mp hrow
  rw [if_neg (by rw [Table.find_id ht]; exact hne)]
  exact h.row t ht

theorem stands_create (tb : Table) {t : Task} (h : ∀ id, P { t with id }) :
    Stands (tb.create t) P tb.next := by
  refine ⟨Nat.lt_succ_self _, fun row hrow => ?_⟩
  rw [Table.find_create_self] at hrow
  cases hrow
  exact h _

theorem Request.Rows.minted (h : r.Rows tb) (hid : id ∈ r.tasks) : id < tb.next := by
  simp only [Request.tasks, List.mem_append, Option.mem_toList] at hid
  rcases hid with (hstop | happly) | hstart
  · exact (h.stop id hstop).minted
  · exact (h.apply id happly).minted
  · exact (h.start id hstart).minted

theorem Request.Rows.same (h : r.Rows tb) (hsame : r.Same r') (hfits : r'.Fits) :
    r'.Sound tb := by
  refine ⟨⟨?_, ?_, ?_, ?_⟩, hfits⟩
  · rw [hsame.stopTask, hsame.zoneName]
    exact h.stop
  · rw [hsame.applyTask, hsame.stopTask, hsame.zoneName]
    exact h.apply
  · rw [hsame.startTask, Request.startDependsOn, hsame.applyTask, hsame.stopTask]
    exact h.start
  · rw [hsame.stopTask, hsame.applyTask]
    exact h.order

theorem Request.Rows.kept (h : r.Rows tb) (hk : Kept tb tb') : r.Rows tb' where
  stop id hid := (h.stop id hid).kept hk fun _ _ hsame ⟨hzone, hprio, hdep⟩ =>
    ⟨hsame.zoneName.trans hzone, hsame.priority.trans hprio,
      hsame.dependsOn.elim (fun heq => heq.trans hdep) fun hn => hn⟩
  apply id hid := (h.apply id hid).kept hk fun _ _ hsame ⟨hzone, hprio, hdep⟩ =>
    ⟨hsame.zoneName.trans hzone, hsame.priority.trans hprio,
      hsame.dependsOn.elim (fun heq => heq ▸ hdep) .inl⟩
  start id hid := (h.start id hid).kept hk fun _ _ hsame hdep =>
    hsame.dependsOn.elim (fun heq => heq ▸ hdep) .inl
  order := h.order

theorem Request.Rows.attach (h : r.Rows tb) {id' : TaskId} (hne : id' ∉ r.tasks) :
    r.Rows (tb.attach id' d) := by
  simp only [Request.tasks, List.mem_append, Option.mem_toList, not_or] at hne
  exact
    { stop := fun id hid => (h.stop id hid).attach fun heq => hne.1.1 (heq ▸ hid)
      apply := fun id hid => (h.apply id hid).attach fun heq => hne.1.2 (heq ▸ hid)
      start := fun id hid => (h.start id hid).attach fun heq => hne.2 (heq ▸ hid)
      order := h.order }

theorem Holds.kept (h : Holds rs tb) (hk : Kept tb tb') : Holds rs tb' :=
  ⟨fun r hr => ⟨(h.sound r hr).kept hk, (h.sound r hr).fits⟩, h.apart⟩

theorem Holds.receive (h : Holds rs tb) (kind : Kind) (zoneName : String) :
    Holds (rs ++ [.receive kind zoneName]) tb := by
  have hnone : ∀ id, id ∉ (Request.receive kind zoneName).tasks := by
    simp [Request.tasks, Request.receive]
  have hold : ∀ (i : ℕ) (r : Request) (id : TaskId), (rs ++ [.receive kind zoneName])[i]? = some r →
      id ∈ r.tasks → rs[i]? = some r := by
    intro i r id hr hid
    rw [List.getElem?_append] at hr
    split_ifs at hr with hi
    · exact hr
    · obtain rfl := List.mem_singleton.mp (List.mem_of_getElem? hr)
      exact absurd hid (hnone id)
  refine ⟨fun r hr => ?_, fun i j r r' id hr hr' hid hid' =>
    h.apart i j r r' id (hold i r id hr hid) (hold j r' id hr' hid') hid hid'⟩
  rcases List.mem_append.mp hr with hr | hr
  · exact h.sound r hr
  · obtain rfl := List.mem_singleton.mp hr
    exact ⟨⟨nofun, nofun, nofun, nofun⟩, fits_receive kind zoneName⟩

/-- The others stay sound, and the request has no new task but one that is just created. -/
theorem Holds.replace (h : Holds rs tb) {i : ℕ} (hr : rs[i]? = some r)
    (hothers : ∀ j r₁, j ≠ i → rs[j]? = some r₁ → r₁.Sound tb') (hsound : r'.Sound tb')
    (hnew : ∀ id ∈ r'.tasks, id ∈ r.tasks ∨ tb.next ≤ id) : Holds (rs.set i r') tb' := by
  have cases_set : ∀ (j : ℕ) (r₁ : Request), (rs.set i r')[j]? = some r₁ →
      (j = i ∧ r₁ = r') ∨ (j ≠ i ∧ rs[j]? = some r₁) := by
    intro j r₁ hj
    rw [List.getElem?_set] at hj
    split_ifs at hj with hij hlen
    · exact .inl ⟨hij.symm, (Option.some.inj hj).symm⟩
    · exact .inr ⟨Ne.symm hij, hj⟩
  have clash : ∀ (j : ℕ) (r₁ : Request) (id : TaskId), j ≠ i → rs[j]? = some r₁ → id ∈ r₁.tasks →
      id ∉ r'.tasks := by
    intro j r₁ id hne hj hid hid'
    rcases hnew id hid' with hold | hnext
    · exact hne (h.apart j i r₁ r id hj hr hid hold)
    · exact Nat.not_lt.mpr hnext ((h.sound r₁ (List.mem_of_getElem? hj)).minted hid)
  refine ⟨fun r₁ hr₁ => ?_, fun j j' r₁ r₂ id hj hj' hid hid' => ?_⟩
  · obtain ⟨j, hj⟩ := List.getElem?_of_mem hr₁
    rcases cases_set j r₁ hj with ⟨-, rfl⟩ | ⟨hne, hj⟩
    · exact hsound
    · exact hothers j r₁ hne hj
  · rcases cases_set j r₁ hj with ⟨rfl, rfl⟩ | ⟨hne, hold⟩ <;>
      rcases cases_set j' r₂ hj' with ⟨rfl, rfl⟩ | ⟨hne', hold'⟩
    · rfl
    · exact absurd hid (clash j' r₂ id hne' hold' hid')
    · exact absurd hid' (clash j r₁ id hne hold hid)
    · exact h.apart j j' r₁ r₂ id hold hold' hid hid'

theorem tasks_same (h : r.Same r') : r'.tasks = r.tasks := by
  simp only [Request.tasks, h.stopTask, h.applyTask, h.startTask]

theorem tasks_subset_stop (r : Request) (next : TaskId) :
    ∀ id ∈ Request.tasks { r with stopTask := some next }, id ∈ r.tasks ∨ next ≤ id := by
  intro id hid
  simp only [Request.tasks, List.mem_append, Option.mem_toList] at hid ⊢
  rcases hid with (⟨⟨⟩⟩ | h) | h
  · exact .inr le_rfl
  · exact .inl (.inl (.inr h))
  · exact .inl (.inr h)

theorem tasks_subset_apply (r : Request) (next : TaskId) :
    ∀ id ∈ Request.tasks { r with applyTask := some next }, id ∈ r.tasks ∨ next ≤ id := by
  intro id hid
  simp only [Request.tasks, List.mem_append, Option.mem_toList] at hid ⊢
  rcases hid with (h | ⟨⟨⟩⟩) | h
  · exact .inl (.inl (.inl h))
  · exact .inr le_rfl
  · exact .inl (.inr h)

theorem tasks_subset_start (r : Request) (next : TaskId) :
    ∀ id ∈ Request.tasks { r with startTask := some next }, id ∈ r.tasks ∨ next ≤ id := by
  intro id hid
  simp only [Request.tasks, List.mem_append, Option.mem_toList] at hid ⊢
  rcases hid with (h | h) | ⟨⟨⟩⟩
  · exact .inl (.inl (.inl h))
  · exact .inl (.inl (.inr h))
  · exact .inr le_rfl

theorem Request.Rows.attached (h : r.Rows tb) {apply stop : TaskId}
    (happly : r.applyTask = some apply) (hstop : r.stopTask = some stop)
    (hstart : r.startTask = none) : r.Rows (tb.attach apply stop) where
  stop id hid := (h.stop id hid).attach (Nat.ne_of_lt (h.order id hid apply happly))
  apply id hid := by
    obtain rfl := Option.some.inj (happly.symm.trans hid)
    refine ⟨(h.apply apply hid).minted, fun row hrow => ?_⟩
    rw [Table.find_attach] at hrow
    obtain ⟨t, ht, rfl⟩ := Option.map_eq_some_iff.mp hrow
    obtain ⟨hzone, hprio, -⟩ := (h.apply apply hid).row t ht
    rw [if_pos (Table.find_id ht)]
    exact ⟨hzone, hprio, .inr hstop.symm⟩
  start id hid := by
    rw [hstart] at hid
    cases hid
  order := h.order

theorem Holds.reply {w : World} {i : ℕ} (h : Holds rs w.table) (hr : rs[i]? = some r)
    (hrep : Replied w r tb r') : Holds (rs.set i r') tb := by
  have hrows := (h.sound r (List.mem_of_getElem? hr)).toRows
  have old : Kept w.table tb → ∀ (j : ℕ) r₁, j ≠ i → rs[j]? = some r₁ → r₁.Sound tb :=
    fun hk j r₁ _ hj => (h.kept hk).sound r₁ (List.mem_of_getElem? hj)
  cases hrep with
  | read hsame hfits =>
    exact h.replace hr (old (.refl _)) (hrows.same hsame hfits) fun id hid =>
      .inl (tasks_same hsame ▸ hid)
  | cancelled hsame hfits =>
    have hk := kept_update w.table (pendingStart r.zoneName) { status := some .cancelled }
    exact h.replace hr (old hk) ((hrows.kept hk).same hsame hfits) fun id hid =>
      .inl (tasks_same hsame ▸ hid)
  | stop happly hstart hsame hfits =>
    have hk := kept_create w.table (newStop r.zoneName w.clock)
    have hnew : Request.Rows { r with stopTask := some w.table.next }
        (w.table.create (newStop r.zoneName w.clock)) := by
      refine ⟨?_, ?_, ?_, ?_⟩
      · rintro id ⟨⟩
        exact stands_create _ fun _ => ⟨rfl, rfl, rfl⟩
      · simp [happly]
      · simp [hstart]
      · simp [happly]
    exact h.replace hr (old hk) (hnew.same hsame hfits) fun id hid =>
      tasks_subset_stop r _ id (tasks_same hsame ▸ hid)
  | apply hstart hsame hfits =>
    have hk := kept_create w.table (newModify r.zoneName w.clock)
    have hnew : Request.Rows { r with applyTask := some w.table.next }
        (w.table.create (newModify r.zoneName w.clock)) := by
      refine ⟨(hrows.kept hk).stop, ?_, ?_, ?_⟩
      · rintro id ⟨⟩
        exact stands_create _ fun _ => ⟨rfl, rfl, .inl rfl⟩
      · simp [hstart]
      · rintro stop hstop apply ⟨⟩
        exact (hrows.stop stop hstop).minted
    exact h.replace hr (old hk) (hnew.same hsame hfits) fun id hid =>
      tasks_subset_apply r _ id (tasks_same hsame ▸ hid)
  | @attached _ apply stop happly hstop hstart hsame hfits =>
    have hmem : apply ∈ r.tasks := by simp [Request.tasks, happly]
    refine h.replace hr (fun j r₁ hne hj => ?_)
      ((hrows.attached happly hstop hstart).same hsame hfits) fun id hid =>
      .inl (tasks_same hsame ▸ hid)
    have hold := h.sound r₁ (List.mem_of_getElem? hj)
    exact ⟨hold.attach fun hid => hne (h.apart j i r₁ r apply hj hr hid hmem), hold.fits⟩
  | start hsame hfits =>
    have hk := kept_create w.table (newStart r.zoneName r.startDependsOn w.clock)
    have hnew : Request.Rows { r with startTask := some w.table.next }
        (w.table.create (newStart r.zoneName r.startDependsOn w.clock)) := by
      refine ⟨(hrows.kept hk).stop, (hrows.kept hk).apply, ?_, hrows.order⟩
      rintro id ⟨⟩
      exact stands_create _ fun _ => .inr rfl
    exact h.replace hr (old hk) (hnew.same hsame hfits) fun id hid =>
      tasks_subset_start r _ id (tasks_same hsame ▸ hid)

end Holding

/-! ## What is known of a run -/

/-- The request has `id` wait for `d`. -/
def Request.Waits (r : Request) (id d : TaskId) : Prop :=
  (r.applyTask = some id ∧ r.stopTask = some d) ∨
    (r.startTask = some id ∧ r.startDependsOn = some d)

/-- Whatever the task waits for has completed. -/
def Cleared (s : State) (id : TaskId) : Prop :=
  ∀ r ∈ s.requests, ∀ d, r.Waits id d → d ∈ s.completed

/-- Tasks are picked, dispatched and begun only when they are cleared. -/
structure Known (s : State) : Prop where
  handed : ∀ pid p, s.queue.procs.get pid = some p → ∀ t ∈ hands p.point,
    t.id < s.world.table.next ∧ Cleared s t.id
  vouched : ∀ pid p, s.queue.procs.get pid = some p → ∀ d ∈ vouches p.point, d ∈ s.completed
  started : ∀ id, .started id ∈ s.world.history → id < s.world.table.next ∧ Cleared s id
  began : ∀ id x, s.world.table.status id = some x → begun x = true → Cleared s id
  shown : ∀ id, s.world.table.status id = some .completed → id ∈ s.completed
  completed : ∀ id ∈ s.completed, id < s.world.table.next ∧ Cleared s id

/-- A stop that was found completed has ended so. -/
def Ends (s : State) : Prop :=
  ∀ r ∈ s.requests, ∀ d ∈ r.stopTask, d ∈ s.completed → Over s.world d True

/-- What no step takes back: only rows that are new have something new to wait for. -/
structure Later (s s' : State) : Prop where
  next : s.world.table.next ≤ s'.world.table.next
  waits : ∀ r' ∈ s'.requests, ∀ id d, r'.Waits id d →
    (∃ r ∈ s.requests, r.Waits id d) ∨ s.world.table.next ≤ id
  stops : ∀ r' ∈ s'.requests, ∀ d ∈ r'.stopTask,
    (∃ r ∈ s.requests, d ∈ r.stopTask) ∨ s.world.table.next ≤ d
  completed : ∀ id, id ∈ s'.completed ↔
    s'.world.table.status id = some .completed ∨ id ∈ s.completed

section Knowing
variable {s s' : State} {id d : TaskId} {r r' : Request} {tb : Table}

theorem Cleared.later (h : Cleared s id) (hl : Later s s') (hid : id < s.world.table.next) :
    Cleared s' id := by
  intro r' hr' d hd
  rcases hl.waits r' hr' id d hd with ⟨r, hr, hwaits⟩ | hnext
  · exact (hl.completed d).mpr (.inr (h r hr d hwaits))
  · exact absurd hid (Nat.not_lt.mpr hnext)

theorem waits_same (hsame : r.Same r') (h : r'.Waits id d) : r.Waits id d := by
  unfold Request.Waits Request.startDependsOn at h ⊢
  rwa [hsame.applyTask, hsame.stopTask, hsame.startTask] at h

/-- A call makes nothing wait but the row it creates. -/
theorem Replied.waits {w : World} (h : Replied w r tb r') (hd : r'.Waits id d) :
    r.Waits id d ∨ id = w.table.next := by
  cases h with
  | read hsame => exact .inl (waits_same hsame hd)
  | cancelled hsame => exact .inl (waits_same hsame hd)
  | attached _ _ _ hsame => exact .inl (waits_same hsame hd)
  | stop happly hstart hsame =>
    rcases waits_same hsame hd with ⟨h, -⟩ | ⟨h, -⟩
    · cases happly.symm.trans h
    · cases hstart.symm.trans h
  | apply hstart hsame =>
    rcases waits_same hsame hd with ⟨h, -⟩ | ⟨h, -⟩
    · exact .inr (Option.some.inj h).symm
    · cases hstart.symm.trans h
  | start hsame =>
    rcases waits_same hsame hd with h | ⟨h, -⟩
    · exact .inl (.inl h)
    · exact .inr (Option.some.inj h).symm

theorem Replied.stops {w : World} (h : Replied w r tb r') (hd : d ∈ r'.stopTask) :
    d ∈ r.stopTask ∨ d = w.table.next := by
  cases h with
  | stop _ _ hsame =>
    rw [hsame.stopTask] at hd
    exact .inr (Option.some.inj hd).symm
  | read hsame => exact .inl (hsame.stopTask ▸ hd)
  | cancelled hsame => exact .inl (hsame.stopTask ▸ hd)
  | attached _ _ _ hsame => exact .inl (hsame.stopTask ▸ hd)
  | apply _ hsame => exact .inl (hsame.stopTask ▸ hd)
  | start hsame => exact .inl (hsame.stopTask ▸ hd)

theorem arrive_completed (s : State) (queue : QState) (rs : List Request) (id : TaskId) :
    id ∈ (s.arrive queue rs).completed ↔
      queue.world.table.status id = some .completed ∨ id ∈ s.completed := by
  rw [← Table.mem_completedIds]
  exact List.mem_append

/-- Requests that are as they were, or as a call left them. -/
theorem later_arrive {queue : QState} {rs : List Request}
    (hnext : s.world.table.next ≤ queue.world.table.next)
    (hrs : ∀ r' ∈ rs, r' ∈ s.requests ∨ (∀ id, id ∉ r'.tasks) ∨
      ∃ r ∈ s.requests, ∃ tb, Replied s.world r tb r' ∨ r.Same r') :
    Later s (s.arrive queue rs) where
  next := hnext
  completed := arrive_completed s queue rs
  waits r' hr' id d hd := by
    rcases hrs r' hr' with hold | hnone | ⟨r, hr, tb, hrep | hsame⟩
    · exact .inl ⟨r', hold, hd⟩
    · refine absurd ?_ (hnone id)
      rcases hd with ⟨h, -⟩ | ⟨h, -⟩ <;> simp [Request.tasks, h]
    · rcases hrep.waits hd with hw | heq
      · exact .inl ⟨r, hr, hw⟩
      · exact .inr heq.ge
    · exact .inl ⟨r, hr, waits_same hsame hd⟩
  stops r' hr' d hd := by
    rcases hrs r' hr' with hold | hnone | ⟨r, hr, tb, hrep | hsame⟩
    · exact .inl ⟨r', hold, hd⟩
    · refine absurd ?_ (hnone d)
      simp [Request.tasks, Option.mem_def.mp hd]
    · rcases hrep.stops hd with hw | heq
      · exact .inl ⟨r, hr, hw⟩
      · exact .inr heq.ge
    · exact .inl ⟨r, hr, hsame.stopTask ▸ hd⟩

/-- What is left to show of a step: the points it left, the starts it recorded and the statuses it
wrote. -/
theorem Known.later (hk : Known s) (hl : Later s s')
    (hpoints : ∀ pid p, s'.queue.procs.get pid = some p →
      (∃ pid₀ p₀, s.queue.procs.get pid₀ = some p₀ ∧ p₀.point = p.point) ∨
      ((∀ t ∈ hands p.point, t.id < s.world.table.next ∧ Cleared s t.id) ∧
        ∀ d ∈ vouches p.point, d ∈ s.completed))
    (hstarted : ∀ id, .started id ∈ s'.world.history → .started id ∈ s.world.history ∨
      (id < s.world.table.next ∧ Cleared s id))
    (hbegun : ∀ id x, s'.world.table.status id = some x → begun x = true →
      Cleared s' id) : Known s' := by
  have later : ∀ id, id < s.world.table.next ∧ Cleared s id →
      id < s'.world.table.next ∧ Cleared s' id := fun id ⟨hid, hc⟩ =>
    ⟨hid.trans_le hl.next, hc.later hl hid⟩
  have grown : ∀ d ∈ s.completed, d ∈ s'.completed := fun d hd => (hl.completed d).mpr (.inr hd)
  refine ⟨fun pid p hp t ht => ?_, fun pid p hp d hd => ?_, fun id hid => ?_, hbegun,
    fun id hst => (hl.completed id).mpr (.inl hst), fun id hid => ?_⟩
  · rcases hpoints pid p hp with ⟨pid₀, p₀, hp₀, heq⟩ | ⟨hhands, -⟩
    · exact later t.id (hk.handed pid₀ p₀ hp₀ t (heq ▸ ht))
    · exact later t.id (hhands t ht)
  · rcases hpoints pid p hp with ⟨pid₀, p₀, hp₀, heq⟩ | ⟨-, hvouches⟩
    · exact grown d (hk.vouched pid₀ p₀ hp₀ d (heq ▸ hd))
    · exact grown d (hvouches d hd)
  · exact later id ((hstarted id hid).elim (hk.started id) fun h => h)
  · rcases (hl.completed id).mp hid with hst | hold
    · exact ⟨Table.status_lt hst, hbegun id _ hst rfl⟩
    · exact later id (hk.completed id hold)

end Knowing

/-! ## The pick -/

theorem findOne_spec {tb : Table} {p : Task → Bool} {before : Task → Task → Bool}
    {id : Option TaskId} {t : Task} (h : findOne tb p before id = some (some t)) :
    id = some t.id ∧ tb.find t.id = some t ∧ p t = true ∧
      ∀ t' ∈ tb.rows, p t' = true → before t' t = false := by
  obtain ⟨hmem, hp⟩ := mem_of_findOne h
  refine ⟨?_, Table.find_eq_some_iff.mpr ⟨hmem, rfl⟩, hp, ?_⟩ <;> cases id with
  | none =>
    simp only [findOne] at h
    split_ifs at h
    cases h
  | some i =>
    obtain ⟨t', ht', heq⟩ := Option.map_eq_some_iff.mp h
    cases heq
    have hfirst := List.find?_some ht'
    simp only [Bool.and_eq_true, decide_eq_true_eq, List.all_eq_true] at hfirst
    first
      | exact congrArg some hfirst.1.symm
      | exact fun t'' ht'' hp'' => by simpa using hfirst.2 t'' (List.mem_filter.mpr ⟨ht'', hp''⟩)

section Pick
variable {s : State} {pid : ℕ} {p : Activation Pc Ans} {ids : List TaskId} {busy : List String}
  {id : Option TaskId} {t : Task}

/-- The pick prefers a pending stop to the apply task of the same machine. -/
theorem not_pending_of_pick {r : Request} {stop : TaskId}
    (hrows : r.Rows s.world.table) (happly : r.applyTask = some t.id)
    (hstop : r.stopTask = some stop)
    (hfind : findOne s.world.table (pickable ids busy) picksBefore id = some (some t)) :
    s.world.table.status stop ≠ some .pending := by
  obtain ⟨-, hrow, hpick, hfirst⟩ := findOne_spec hfind
  intro hpend
  obtain ⟨t', ht', hst⟩ := Option.map_eq_some_iff.mp hpend
  obtain ⟨hzone, hprio, -⟩ := (hrows.apply _ happly).row t hrow
  obtain ⟨hzone', hprio', hdep'⟩ := (hrows.stop _ hstop).row t' ht'
  have hpick' : pickable ids busy t' = true := by
    simp only [pickable, Bool.and_eq_true] at hpick ⊢
    rw [hzone', ← hzone, hdep', hst]
    exact ⟨⟨rfl, rfl⟩, hpick.2⟩
  have hbefore := hfirst t' (Table.find_mem ht') hpick'
  rw [picksBefore, hprio, hprio'] at hbefore
  cases hbefore

/-- What a tick's pick is answered with is cleared. -/
theorem cleared_of_pick (hh : Holds s.requests s.world.table) (hk : Known s)
    (hp : s.queue.procs.get pid = some p) (hpc : p.pc = .pick ids busy)
    (hok : ChainStep s (.serve pid (.row id)))
    (hfind : findOne s.world.table (pickable ids busy) picksBefore id = some (some t)) :
    Cleared s t.id := by
  obtain ⟨rfl, hrow, hpick, -⟩ := findOne_spec hfind
  have hpicking : t ∈ picking s.queue (.serve pid (.row (some t.id))) := by
    obtain ⟨pc, phase, caller⟩ := p
    cases hpc
    simp only [picking, hp]
    exact hrow
  have hdep : ∀ d, t.dependsOn = some d → d ∈ s.completed := by
    intro d hd
    have hin : d ∈ ids := by
      simp only [pickable, Bool.and_eq_true, hd] at hpick
      simpa using hpick.1.2
    apply hk.vouched pid p hp
    unfold Activation.point
    rw [hpc]
    exact hin
  have alone := hok.picked t hpicking
  intro r hr d hwaits
  have hrows := (hh.sound r hr).toRows
  rcases hwaits with ⟨happly, hstop⟩ | ⟨hstart, hd⟩
  · obtain ⟨-, -, hnone | heq⟩ := (hrows.apply _ happly).row t hrow
    · rcases (alone hnone).apply r hr happly d hstop with hpend | hdone
      · exact absurd hpend (not_pending_of_pick hrows happly hstop hfind)
      · exact hdone
    · exact hdep d (heq.trans hstop)
  · rcases (hrows.start _ hstart).row t hrow with hnone | heq
    · exact (alone hnone).start r hr hstart d hd
    · exact hdep d (heq.trans hd)

end Pick

/-! ## Every step -/

section Steps
variable {cfg : Config} {s s' : State} {l : Label}

theorem waits_mem {r : Request} {id d : TaskId} (h : r.Waits id d) : id ∈ r.tasks := by
  rcases h with ⟨h, -⟩ | ⟨h, -⟩ <;> simp [Request.tasks, h]

/-- Nothing waits yet for a row that does not exist, nor does such a row wait. -/
theorem cleared_new (hh : Holds s.requests s.world.table) {queue : QState} {id : TaskId}
    (hid : ¬id < s.world.table.next) : Cleared (s.arrive queue s.requests) id := by
  intro r hr d hwaits
  exact absurd ((hh.sound r hr).minted (waits_mem hwaits)) hid

theorem known_queue {l : QLabel} {queue : QState} (hh : Holds s.requests s.world.table)
    (hk : Known s) (hok : ChainStep s l)
    (h : EventLoop.step (program cfg) s.queue l = some queue) :
    Known (s.arrive queue s.requests) := by
  have hl : Later s (s.arrive queue s.requests) :=
    later_arrive (queue_kept h).next fun r hr => .inl hr
  have kept : ∀ id x, s.world.table.status id = some x → begun x = true →
      Cleared (s.arrive queue s.requests) id := fun id x hst hx =>
    (hk.began id x hst hx).later hl (Table.status_lt hst)
  cases steps_of_step h with
  | @serve pid c p a hp hseen hserve hmoved _ _ =>
    have hpoint : p.point = (p.pc, none) := by rw [Activation.point, hseen]
    have hhands := hpoint ▸ hk.handed pid p hp
    have hvouches := hpoint ▸ hk.vouched pid p hp
    refine hk.later hl (fun q p' hp' => ?_) (fun id hid => ?_) (fun id x hst hx => ?_)
    · rcases hmoved q p' hp' with ⟨-, p₀, hp₀, heq⟩ | ⟨i, heq, -⟩
      · exact .inl ⟨q, p₀, hp₀, heq⟩
      · rw [List.mem_singleton.mp (List.get_mem _ i)] at heq
        rw [heq]
        refine .inr ⟨fun t ht => ?_, fun d hd => ?_⟩
        · rcases serve_hands hserve ht with hold | hrun | ⟨ids, busy, id, hpc, rfl, hfind⟩
          · exact hhands t hold
          · exact ⟨Table.status_lt hrun, hk.began t.id _ hrun rfl⟩
          · exact ⟨Table.find_lt (findOne_spec hfind).2.1, cleared_of_pick hh hk hp hpc hok hfind⟩
        · exact (serve_vouches hserve hd).elim (hvouches d) (hk.shown d)
    · left
      rwa [← (serve_registries hserve).history]
    · by_cases hid : id < s.world.table.next
      · rcases serve_begun hserve hid hst hx with hold | ⟨t, ht, rfl⟩
        · exact kept id x hold hx
        · exact (hhands t ht).2.later hl hid
      · exact cleared_new hh hid
  | @fail pid p hp _ hw hmoved _ _ =>
    refine hk.later hl (fun q p' hp' => .inl ?_) (fun id hid => .inl ?_) (fun id x hst hx => ?_)
    · rcases hmoved q p' hp' with ⟨-, p₀, hp₀, heq⟩ | ⟨i, heq, -⟩
      · exact ⟨q, p₀, hp₀, heq⟩
      · exact ⟨pid, p, hp, (heq.trans (List.mem_singleton.mp (List.get_mem _ i))).symm⟩
    · rwa [← show queue.world = s.world from hw]
    · exact kept id x (by rwa [← show queue.world = s.world from hw]) hx
  | @resume pid p r nx hp hphase hres hmoved _ _ =>
    have hpoint : p.point = (p.pc, (Phase.ready r).seen) := by rw [Activation.point, hphase]
    have hhands := hpoint ▸ hk.handed pid p hp
    have hvouches := hpoint ▸ hk.vouched pid p hp
    have htable := (resumed_table (resumed_of_eq hres)).1
    refine hk.later hl (fun q p' hp' => ?_) (fun id hid => ?_) (fun id x hst hx => ?_)
    · rcases hmoved q p' hp' with ⟨-, p₀, hp₀, heq⟩ | ⟨i, heq, -⟩
      · exact .inl ⟨q, p₀, hp₀, heq⟩
      · obtain ⟨x, hx, hxeq⟩ := List.mem_map.mp (List.get_mem _ i)
        rw [heq, ← hxeq]
        refine .inr ⟨fun t ht => hhands t ?_, fun d hd => hvouches d (resume_vouches hres hx hd)⟩
        have := resume_hands s.queue.world p.pc r x
        rw [show resume s.queue.world p.pc r = _ from hres] at this
        exact this hx t ht
    · rcases resume_started hres hid with hold | ⟨t, ht, rfl⟩
      · exact .inl hold
      · exact .inr (hhands t ht)
    · exact kept id x (by rwa [← show queue.world.table = s.world.table from htable]) hx
  | @enter e nx hent hmoved _ _ =>
    refine hk.later hl (fun q p' hp' => ?_) (fun id hid => ?_) (fun id x hst hx => ?_)
    · rcases hmoved q p' hp' with ⟨-, p₀, hp₀, heq⟩ | ⟨i, heq, -⟩
      · exact .inl ⟨q, p₀, hp₀, heq⟩
      · obtain ⟨x, hx, hxeq⟩ := List.mem_map.mp (List.get_mem _ i)
        obtain ⟨hhands, hvouches⟩ := enter_idle hent hx
        rw [heq, ← hxeq, hhands, hvouches]
        exact .inr ⟨fun t ht => (Option.not_mem_none t ht).elim, List.forall_mem_nil _⟩
    · left
      rwa [← (enter_entered hent).registries.history]
    · by_cases hid : id < s.world.table.next
      · exact kept id x (enter_begun hent hid hst hx) hx
      · exact cleared_new hh hid

/-- What a step of the requests leaves: the queue's activations and registries are not touched. -/
structure RequestStep (s : State) (tb : Table) (rs : List Request) : Prop where
  holds : Holds rs tb
  next : s.world.table.next ≤ tb.next
  requests : ∀ r' ∈ rs, r' ∈ s.requests ∨ (∀ id, id ∉ r'.tasks) ∨
    ∃ r ∈ s.requests, ∃ tb, Replied s.world r tb r' ∨ r.Same r'
  begun : ∀ id y, tb.status id = some y → begun y = true → s.world.table.status id = some y
  ends : ∀ id completed, Over s.world id completed →
    Over { s.world with table := tb } id completed

def State.withTable (s : State) (tb : Table) : QState :=
  { s.queue with world := { s.world with table := tb } }

theorem requestStep_same {rs : List Request} (hh : Holds rs s.world.table)
    (hrs : ∀ r' ∈ rs, r' ∈ s.requests ∨ (∀ id, id ∉ r'.tasks) ∨
      ∃ r ∈ s.requests, ∃ tb, Replied s.world r tb r' ∨ r.Same r') :
    RequestStep s s.world.table rs :=
  ⟨hh, le_rfl, hrs, fun _ _ hst _ => hst, fun _ _ ho => ho⟩

/-- A step is one of the queue or one of the requests. -/
theorem step_cases (hh : Holds s.requests s.world.table) (h : step cfg s l = some s') :
    (∃ l' queue, l = .queue l' ∧ EventLoop.step (program cfg) s.queue l' = some queue ∧
      s' = s.arrive queue s.requests) ∨
    ∃ tb rs, RequestStep s tb rs ∧ s' = s.arrive (s.withTable tb) rs := by
  cases l with
  | queue l =>
    obtain ⟨queue, hq, rfl⟩ := Option.map_eq_some_iff.mp h
    exact .inl ⟨l, queue, rfl, hq, rfl⟩
  | receive kind zoneName =>
    cases h
    refine .inr ⟨s.world.table, _, requestStep_same (hh.receive kind zoneName) ?_, rfl⟩
    intro r' hr'
    rcases List.mem_append.mp hr' with hold | hnew
    · exact .inl hold
    · obtain rfl := List.mem_singleton.mp hnew
      exact .inr (.inl (by simp [Request.tasks, Request.receive]))
  | reply i outcome =>
    obtain ⟨r, hr, hm⟩ := Option.bind_eq_some_iff.mp h
    obtain ⟨⟨tb, r'⟩, hreply, rfl⟩ := Option.map_eq_some_iff.mp hm
    have hmem := List.mem_of_getElem? hr
    have hrep := replied_of_reply hreply (hh.sound r hmem).fits
    refine .inr ⟨tb, s.requests.set i r', ⟨hh.reply hr hrep, hrep.next_le, ?_, ?_, ?_⟩, rfl⟩
    · intro r₁ hr₁
      rcases List.mem_or_eq_of_mem_set hr₁ with hold | rfl
      · exact .inl hold
      · exact .inr (.inr ⟨r, hmem, tb, .inl hrep⟩)
    · exact fun id y hst hy => hrep.begun hst hy
    · intro id completed ho
      have hrep' : Replied s.world r ({ s.world with table := tb } : World).table r' := hrep
      exact hrep'.ends ho
  | refuse i =>
    obtain ⟨r, hr, hm⟩ := Option.bind_eq_some_iff.mp h
    obtain ⟨r', hrefuse, rfl⟩ := Option.map_eq_some_iff.mp hm
    have hmem := List.mem_of_getElem? hr
    obtain ⟨hsame, hfits⟩ := refuse_same hrefuse
    refine .inr ⟨s.world.table, _, requestStep_same (hh.reply hr (.read hsame hfits)) ?_, rfl⟩
    intro r₁ hr₁
    rcases List.mem_or_eq_of_mem_set hr₁ with hold | rfl
    · exact .inl hold
    · exact .inr (.inr ⟨r, hmem, s.world.table, .inr hsame⟩)

theorem later_step (hh : Holds s.requests s.world.table) (h : step cfg s l = some s') :
    Later s s' := by
  rcases step_cases hh h with ⟨l', queue, -, hq, rfl⟩ | ⟨tb, rs, hstep, rfl⟩
  · exact later_arrive (queue_kept hq).next fun r hr => .inl hr
  · exact later_arrive hstep.next hstep.requests

theorem holds_step (hh : Holds s.requests s.world.table) (h : step cfg s l = some s') :
    Holds s'.requests s'.world.table := by
  rcases step_cases hh h with ⟨l', queue, -, hq, rfl⟩ | ⟨tb, rs, hstep, rfl⟩
  · exact hh.kept (queue_kept hq)
  · exact hstep.holds

theorem known_step (hh : Holds s.requests s.world.table) (hk : Known s) (hok : Chained s l)
    (h : step cfg s l = some s') : Known s' := by
  have hl := later_step hh h
  rcases step_cases hh h with ⟨l', queue, rfl, hq, rfl⟩ | ⟨tb, rs, hstep, rfl⟩
  · exact known_queue hh hk hok hq
  · refine hk.later hl (fun pid p hp => .inl ⟨pid, p, hp, rfl⟩) (fun id hid => .inl hid) ?_
    intro id x hst hx
    have hold := hstep.begun id x hst hx
    exact (hk.began id x hold hx).later hl (Table.status_lt hold)

theorem over_step {d : TaskId} {completed : Prop} (hh : Holds s.requests s.world.table)
    (hok : Chained s l) (h : step cfg s l = some s') (hstop : ∃ r ∈ s.requests, d ∈ r.stopTask)
    (ho : Over s.world d completed) : Over s'.world d completed := by
  rcases step_cases hh h with ⟨l', queue, rfl, hq, rfl⟩ | ⟨tb, rs, hstep, rfl⟩
  · cases steps_of_step hq with
    | @serve pid c p a hp _ hserve =>
      obtain ⟨r, hr, hd⟩ := hstop
      refine ⟨ho.minted.trans_le (serve_next hserve), fun y hy => ?_⟩
      obtain ⟨z, hz, rfl | hw⟩ := serve_status_eq hserve ho.minted hy
      · exact ho.status y hz
      · obtain ⟨hterm, hc⟩ := ho.status z hz
        obtain ⟨hterm', hc'⟩ := hok.ended p.pc (mem_served hp) r hr d hd z hz hterm y hw
        exact ⟨hterm', hc'.trans hc⟩
    | fail _ _ hw => exact ho.of_table (congrArg World.table hw)
    | resume _ _ hres => exact ho.of_table (resumed_table (resumed_of_eq hres)).1
    | enter hent => exact ho.entered (enter_entered hent)
  · exact hstep.ends d completed ho

theorem ends_step (hh : Holds s.requests s.world.table) (hk : Known s) (he : Ends s)
    (hok : Chained s l) (h : step cfg s l = some s') : Ends s' := by
  have hl := later_step hh h
  intro r' hr' d hd hdone
  rcases (hl.completed d).mp hdone with hst | hold
  · exact over_of_status hst rfl (iff_true_intro rfl)
  · rcases hl.stops r' hr' d hd with ⟨r, hr, hmem⟩ | hnext
    · exact over_step hh hok h ⟨r, hr, hmem⟩ (he r hr d hmem hold)
    · exact absurd (hk.completed d hold).1 (Nat.not_lt.mpr hnext)

end Steps

/-! ## Every run -/

structure Invariant (s : State) : Prop where
  holds : Holds s.requests s.world.table
  known : Known s
  ends : Ends s

section Runs
variable {cfg : Config} {table : Table} {s u : State} {l : Label} {stop : TaskId}

theorem Invariant.step (hi : Invariant s) (hok : Chained s l)
    (h : PowerRequests.step cfg s l = some u) : Invariant u :=
  ⟨holds_step hi.holds h, known_step hi.holds hi.known hok h,
    ends_step hi.holds hi.known hi.ends hok h⟩

theorem invariant_boot (table : Table) : Invariant (boot table) := by
  have hnone : ∀ r, r ∉ (boot table).requests := fun r hr => by cases hr
  have hidle : ∀ pid p, (boot table).queue.procs.get pid ≠ some p := fun pid p hp => by cases hp
  have hcleared : ∀ id, Cleared (boot table) id := fun id r hr => absurd hr (hnone r)
  refine ⟨⟨fun r hr => absurd hr (hnone r), fun i j r r' id hr => ?_⟩, ?_, ?_⟩
  · exact absurd (List.mem_of_getElem? hr) (hnone r)
  · exact
      { handed := fun pid p hp => absurd hp (hidle pid p)
        vouched := fun pid p hp => absurd hp (hidle pid p)
        started := fun id hid => by cases hid
        began := fun id _ _ _ => hcleared id
        shown := fun _ hst => Table.mem_completedIds.mpr hst
        completed := fun id hid => ⟨Table.status_lt (Table.mem_completedIds.mp hid), hcleared id⟩ }
  · exact fun r hr => absurd hr (hnone r)

theorem invariant_reaches (h : Reaches cfg Chained (boot table) s) : Invariant s :=
  h.invariant (invariant_boot table) fun _ _ _ hi hok hst => hi.step hok hst

theorem Known.dispatched {id : TaskId} (hk : Known s) (h : Dispatched s id) : Cleared s id := by
  rcases h with hstarted | ⟨pid, p, t, hp, ht, rfl⟩
  · exact (hk.started id hstarted).2
  · refine (hk.handed pid p hp t ?_).2
    obtain ⟨pc, phase, caller⟩ := p
    cases pc <;> first | exact ht | cases ht

/-- A stop that has ended badly never completes. -/
theorem not_completed_of_endedBadly (hi : Invariant u) (h : Reaches cfg Chained u s)
    (hbad : EndedBadly u.world stop) (hstop : ∃ r ∈ s.requests, stop ∈ r.stopTask) :
    stop ∉ s.completed := by
  obtain ⟨x, hst, hx, hne⟩ := hbad
  have hrun : Invariant s ∧ u.world.table.next ≤ s.world.table.next ∧
      ((∃ r ∈ s.requests, stop ∈ r.stopTask) → Over s.world stop False ∧ stop ∉ s.completed) := by
    refine h.invariant (I := fun v => Invariant v ∧ u.world.table.next ≤ v.world.table.next ∧
      ((∃ r ∈ v.requests, stop ∈ r.stopTask) → Over v.world stop False ∧ stop ∉ v.completed))
      ⟨hi, le_rfl, ?_⟩ ?_
    · rintro ⟨r, hr, hmem⟩
      refine ⟨over_of_status hst hx (iff_false_intro hne), fun hdone => ?_⟩
      exact hne (((hi.ends r hr stop hmem hdone).status x hst).2.mpr trivial)
    · rintro v l v' ⟨hv, hnext, hkept⟩ hok hstep
      have hl := later_step hv.holds hstep
      refine ⟨hv.step hok hstep, hnext.trans hl.next, ?_⟩
      rintro ⟨r', hr', hmem'⟩
      rcases hl.stops r' hr' stop hmem' with hold | hnew
      · obtain ⟨hover, hdone⟩ := hkept hold
        have hover' := over_step hv.holds hok hstep hold hover
        refine ⟨hover', fun hdone' => ?_⟩
        rcases (hl.completed stop).mp hdone' with hcompleted | hold'
        · exact (hover'.status _ hcompleted).2.mp rfl
        · exact hdone hold'
      · exact absurd (Table.status_lt hst) (Nat.not_lt.mpr (hnext.trans hnew))
  exact (hrun.2.2 hstop).2

theorem changes_applied_between (h : Reaches cfg Chained (boot table) s) :
    AppliedBetween cfg Chained table s := by
  have hi := invariant_reaches h
  have happlied : ∀ r ∈ s.requests, ∀ apply ∈ r.applyTask, Cleared s apply →
      ∀ stop ∈ r.stopTask, stop ∈ s.completed := fun r hr apply happly hcleared stop hstop =>
    hcleared r hr stop (.inl ⟨happly, hstop⟩)
  have hstarted : ∀ r ∈ s.requests, ∀ start ∈ r.startTask, Dispatched s start →
      ∀ d ∈ r.startDependsOn, d ∈ s.completed := fun r hr start hstart hdispatched d hd =>
    hi.known.dispatched hdispatched r hr d (.inr ⟨hstart, hd⟩)
  refine ⟨fun r hr apply happly hdispatched =>
    happlied r hr apply happly (hi.known.dispatched hdispatched), hstarted, ?_⟩
  intro u hu hus r hr stop hstop hbad
  have hnot := not_completed_of_endedBadly (invariant_reaches hu) hus hbad ⟨r, hr, hstop⟩
  refine ⟨fun apply happly hdispatched => hnot ?_, fun start hstart hdispatched => hnot ?_⟩
  · exact happlied r hr apply happly (hi.known.dispatched hdispatched) stop hstop
  · have hprevious := hstarted r hr start hstart hdispatched
    cases happly : r.applyTask with
    | none =>
      apply hprevious
      rw [Request.startDependsOn, happly, Option.mem_def.mp hstop]
      rfl
    | some apply =>
      -- the apply task the start waited for had waited for the stop
      have hdone : apply ∈ s.completed := by
        apply hprevious
        rw [Request.startDependsOn, happly]
        rfl
      exact happlied r hr apply happly (hi.known.completed apply hdone).2 stop hstop

end Runs

/-- A tick that reads no dependency, and picks the row. -/
def pickLabels (pid : ℕ) (id : TaskId) : List QLabel :=
  [.enter .tick, .serve pid .only, .resume pid, .serve pid (.row (some id)), .resume pid,
    .serve pid .only, .resume pid]

/-- The executor of a dispatched task comes back. -/
def endedLabels (pid : ℕ) (success : Bool) : List QLabel :=
  [.serve pid (.executed (some { success }) 0), .resume pid, .serve pid .only, .resume pid,
    .serve pid .only, .resume pid]

/-- A restart whose stop is taken up before the apply task is attached to it. -/
def restartLabels : List Label :=
  [.receive .restart "web", .reply 0 (.zone (some ["ram"])), .reply 0 (.row none),
    .reply 0 .only, .reply 0 .only] ++
    (pickLabels 0 0).map .queue ++ [.reply 0 .only, .reply 0 .only] ++
    (endedLabels 0 true ++ gateLabels 1 1 ++ endedLabels 1 true ++ gateLabels 2 2).map .queue

theorem changes_applied_between_restart : ∃ s, Reaches {} Chained (boot .empty) s ∧
    AppliedBetween {} Chained .empty s ∧
    s.world.history = [.started 2, .started 1, .started 0] ∧
    s.requests.map Request.stage = [.responded (.restartQueued 0 2)] := by
  obtain ⟨s, hs, hend⟩ := Transition.exists_reaches_of_run (step {}) Chained (boot .empty)
    restartLabels (P := fun s => s.world.history = [.started 2, .started 1, .started 0] ∧
      s.requests.map Request.stage = [.responded (.restartQueued 0 2)]) (by decide +kernel)
  exact ⟨s, hs, changes_applied_between hs, hend⟩

/-- A stop that fails before its apply task is attached to it: the next tick picks that task. -/
def windowLabels : List Label :=
  [.receive (.stop false) "web", .reply 0 (.zone (some ["ram"])), .reply 0 (.status "running"),
    .reply 0 .only, .reply 0 (.row none), .reply 0 .only] ++
    (pickLabels 0 0 ++ endedLabels 0 false).map .queue ++ [.reply 0 .only] ++
    (pickLabels 1 1).map .queue ++ [.reply 0 .only]

theorem changes_applied_between_fails : ¬∀ (cfg : Config) (table : Table) (s : State),
    Reaches cfg (fun _ _ => True) (boot table) s →
      AppliedBetween cfg (fun _ _ => True) table s := by
  intro h
  obtain ⟨s, hs, hstarted, ⟨r, hr, happly, hstop⟩, hnone⟩ := Transition.exists_reaches_of_run
    (step {}) (fun _ _ => True) (boot .empty) windowLabels
    (P := fun s => .started 1 ∈ s.world.history ∧
      (∃ r ∈ s.requests, r.applyTask = some 1 ∧ r.stopTask = some 0) ∧ s.completed = [])
    (by decide +kernel)
  have hdone := (h {} .empty s hs).applied r hr 1 happly (.inl hstarted) 0 hstop
  rw [hnone] at hdone
  cases hdone

end ZoneweaverAgent.PowerRequests
