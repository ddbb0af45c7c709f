import Mathlib.Data.Finset.Max
import Mathlib.Data.Prod.Lex
import ZoneweaverAgent.EventLoopLeads
import ZoneweaverAgent.TaskQueueGate

/-!
# Whether a tick dispatches

The tick picks one row, the first in the order of the query, and asks afterwards whether the row's
category is held. Undisturbed it reads a table in which the same rows are candidates as when it
started, whatever it cancels and rolls up on its way, so that it starts a task exactly when no first
candidate waits for a category.
-/

namespace ZoneweaverAgent.TaskQueue
open EventLoop
open Transition (Leads)

section Statement

/-- Pending, its dependency completed, and its zone not busy. -/
structure Candidate (w : World) (t : Task) : Prop where
  mem : t ∈ w.table.rows
  pending : t.status = .pending
  done : ∀ d, t.dependsOn = some d → w.table.status d = some .completed
  zone : t.zoneName ∉ busyZones w.runningTasks

/-- No candidate comes before it in the order of the query. -/
structure FirstCandidate (w : World) (t : Task) : Prop extends Candidate w t where
  first : ∀ t', Candidate w t' → picksBefore t' t = false

structure Runnable (w : World) (t : Task) : Prop extends Candidate w t where
  free : w.held (operationCategory t.operation) = false

def Started (w : World) (s : QState) : Prop :=
  ∃ id, s.world.history = .started id :: w.history

variable (cfg : Config) (s : QState)

/-- A tick that nothing disturbs starts a task, whichever way its calls are answered. -/
def Dispatches : Prop :=
  ∀ t, step (program cfg) s (.enter .tick) = some t →
    Leads (step (program cfg)) (MovesOnly s.next s.next) (Started s.world) t

def WorkConserving : Prop :=
  s.world.runningTasks.length < cfg.maxConcurrentTasks → (∃ t, Runnable s.world t) →
    Dispatches cfg s

/-- Where a slot is free and a task can run, no first candidate waits for its category. -/
def HeadFree : Prop :=
  s.world.runningTasks.length < cfg.maxConcurrentTasks → (∃ t, Runnable s.world t) →
    ∀ t, FirstCandidate s.world t → s.world.held (operationCategory t.operation) = false

end Statement

section Order

/-- The order of the query. -/
def orderKey (t : Task) : ℤ ×ₗ ℕ := toLex (-t.priority, t.createdAt)

theorem picksBefore_iff (t t' : Task) : picksBefore t t' = true ↔ orderKey t < orderKey t' := by
  simp [picksBefore, orderKey, Prod.Lex.toLex_lt_toLex]

/-- Some row comes first. -/
theorem exists_first {ts : List Task} (hne : ts ≠ []) :
    ∃ t ∈ ts, ∀ t' ∈ ts, picksBefore t' t = false := by
  obtain ⟨t₀, ht₀⟩ := List.exists_mem_of_ne_nil ts hne
  obtain ⟨t, ht, hmin⟩ :=
    ts.toFinset.exists_min_image orderKey ⟨t₀, List.mem_toFinset.mpr ht₀⟩
  refine ⟨t, List.mem_toFinset.mp ht, ?_⟩
  intro t' ht'
  rw [Bool.eq_false_iff]
  intro hbefore
  have hle := hmin t' (List.mem_toFinset.mpr ht')
  exact absurd ((picksBefore_iff t' t).mp hbefore) (not_lt.mpr hle)

theorem mem_select {tb : Table} {p : Task → Bool} {t : Task} :
    t ∈ tb.select p ↔ t ∈ tb.rows ∧ p t = true := List.mem_filter

/-- Any row that comes first may be found. -/
theorem findOne_first {tb : Table} {p : Task → Bool} {t : Task} (ht : t ∈ tb.select p)
    (hfirst : ∀ t' ∈ tb.select p, picksBefore t' t = false) :
    findOne tb p picksBefore (some t.id) = some (some t) := by
  have hfound : ((tb.select p).find? fun t' =>
      t'.id = t.id && (tb.select p).all (fun t'' => !picksBefore t'' t')) = some t := by
    cases hfind : (tb.select p).find? fun t' =>
        t'.id = t.id && (tb.select p).all (fun t'' => !picksBefore t'' t') with
    | none =>
      have hnone := List.find?_eq_none.mp hfind t ht
      simp only [decide_true, Bool.true_and, List.all_eq_true, Bool.not_eq_true'] at hnone
      exact absurd hfirst hnone
    | some t' =>
      have hid := List.find?_some hfind
      simp only [Bool.and_eq_true, decide_eq_true_eq] at hid
      rw [List.inj_on_of_nodup_map tb.unique
        (mem_select.mp (List.mem_of_find?_eq_some hfind)).1 (mem_select.mp ht).1 hid.1]
  rw [findOne, hfound, Option.map_some]

/-- A found row comes first, and where none is found there is none. -/
theorem findOne_cases {tb : Table} {p : Task → Bool} {id : Option TaskId} {o : Option Task}
    (h : findOne tb p picksBefore id = some o) :
    (o = none ∧ tb.select p = []) ∨
      ∃ t, o = some t ∧ t ∈ tb.select p ∧ ∀ t' ∈ tb.select p, picksBefore t' t = false := by
  cases id with
  | none =>
    simp only [findOne] at h
    split_ifs at h with hempty
    cases h
    exact .inl ⟨rfl, List.isEmpty_iff.mp hempty⟩
  | some i =>
    obtain ⟨t, ht, rfl⟩ := Option.map_eq_some_iff.mp h
    have hp := List.find?_some ht
    simp only [Bool.and_eq_true, List.all_eq_true, Bool.not_eq_true'] at hp
    exact .inr ⟨t, rfl, List.mem_of_find?_eq_some ht, hp.2⟩

end Order

section Candidates
variable {w w' : World} {tb : Table}

/-- The rows the query finds when it knows which dependencies of pending rows are completed. -/
theorem candidate_iff {completed : List TaskId}
    (h : ∀ t ∈ w.table.rows, t.status = .pending → ∀ d, t.dependsOn = some d →
      (d ∈ completed ↔ w.table.status d = some .completed)) (t : Task) :
    t ∈ w.table.select (pickable completed (busyZones w.runningTasks)) ↔ Candidate w t := by
  rw [mem_select]
  simp only [pickable, Bool.and_eq_true, decide_eq_true_eq, Bool.not_eq_true',
    List.contains_eq_mem, decide_eq_false_iff_not]
  constructor
  · rintro ⟨hmem, ⟨hpending, hdep⟩, hzone⟩
    refine ⟨hmem, hpending, ?_, hzone⟩
    intro d hd
    rw [hd] at hdep
    exact (h t hmem hpending d hd).mp (by simpa using hdep)
  · intro hc
    refine ⟨hc.mem, ⟨hc.pending, ?_⟩, hc.zone⟩
    cases hd : t.dependsOn with
    | none => rfl
    | some d => simpa using (h t hc.mem hc.pending d hd).mpr (hc.done d hd)

/-- Two tables hold the same pending rows. -/
def SamePending (tb tb' : Table) : Prop :=
  ∀ t : Task, t.status = .pending → (t ∈ tb'.rows ↔ t ∈ tb.rows)

theorem select_samePending {tb' : Table} (h : SamePending tb tb') (completed : List TaskId)
    (busy : List String) (t : Task) : t ∈ tb'.select (pickable completed busy) ↔
      t ∈ tb.select (pickable completed busy) := by
  simp only [mem_select]
  apply and_congr_left
  intro hp
  apply h
  simp only [pickable, Bool.and_eq_true, decide_eq_true_eq] at hp
  exact hp.1.1

/-- The cancelled dependents are none of the rows the query finds. -/
theorem select_cancelled {toCancel : List Task} {completed : List TaskId} {busy : List String}
    (u : Patch) (hu : u.status = some .cancelled)
    (hcancel : ∀ t ∈ toCancel, t ∈ tb.rows ∧ pickable completed busy t = false) (t : Task) :
    t ∈ (tb.update (fun t => (toCancel.map Task.id).contains t.id) u).select
      (pickable completed busy) ↔ t ∈ tb.select (pickable completed busy) := by
  simp only [mem_select]
  constructor
  · rintro ⟨hmem, hp⟩
    obtain ⟨t', ht', rfl⟩ := List.mem_map.mp hmem
    split_ifs at hp ⊢ with hc
    · simp [pickable, hu] at hp
    · exact ⟨ht', hp⟩
  · rintro ⟨hmem, hp⟩
    refine ⟨List.mem_map.mpr ⟨t, hmem, ?_⟩, hp⟩
    apply if_neg
    simp only [List.contains_eq_mem, List.mem_map, decide_eq_true_eq, not_exists, not_and]
    intro t' ht' hid
    obtain ⟨hmem', hnot⟩ := hcancel t' ht'
    rw [List.inj_on_of_nodup_map tb.unique hmem' hmem hid, hp] at hnot
    cases hnot

end Candidates

section Rollup
variable {tb : Table} {w w' : World}

/-- No pending row has this id. -/
def NotPending (tb : Table) (id : TaskId) : Prop :=
  ∀ t ∈ tb.rows, t.id = id → t.status ≠ .pending

/-- Where the parents' progress is brought up to date: what is written are rows that were read as
running, and never a status to be picked by. -/
def RollingUp (tb : Table) : Pc → Option (Reply Ans) → Prop
  | .parentTask _, some (.answer (.row (some parent))) =>
    parent.status = .running → NotPending tb parent.id
  | .parentTask _, _ => True
  | .subTasks parent, _ => NotPending tb parent.id
  | .updateParent parent status update, _ => NotPending tb parent.id ∧
    (∀ x, update.status = some x → x ≠ .running ∧ x ≠ .pending) ∧
      (status ≠ .running → update.status = some status)
  | _, _ => False

/-- What the rollup of a tick leaves as it was: the registries and the pending rows. -/
structure Undisturbed (w : World) (tb : Table) (w' : World) : Prop extends SameRegistries w w' where
  pending : SamePending tb w'.table

def runs (w : World) : ℕ := w.table.rows.countP fun t => t.status = .running

def runsBut (w : World) (id : TaskId) : ℕ :=
  w.table.rows.countP fun t => t.status = .running && t.id ≠ id

/-- How far a rollup is from its end: it goes up from a row only once the row has ended. -/
def distance (w : World) : Pc → Option (Reply Ans) → ℕ
  | .parentTask _, none => 6 * runs w + 6
  | .parentTask _, some (.answer (.row (some parent))) =>
    if parent.status = .running then 6 * runsBut w parent.id + 11 else 0
  | .subTasks parent, none => 6 * runsBut w parent.id + 10
  | .subTasks parent, some _ => 6 * runsBut w parent.id + 9
  | .updateParent parent _ _, none => 6 * runsBut w parent.id + 8
  | .updateParent _ status _, some _ => if status = .running then 0 else 6 * runs w + 7
  | _, _ => 0

theorem distance_mono (hruns : runs w' ≤ runs w) (hbut : ∀ id, runsBut w' id ≤ runsBut w id)
    (pc : Pc) (o : Option (Reply Ans)) : distance w' pc o ≤ distance w pc o := by
  unfold distance
  split
  · omega
  · rename_i parent
    have := hbut parent.id
    split_ifs <;> omega
  · rename_i parent
    have := hbut parent.id
    omega
  · rename_i parent _
    have := hbut parent.id
    omega
  · rename_i parent _ _
    have := hbut parent.id
    omega
  · split_ifs <;> omega
  · exact le_rfl

theorem runsBut_lt {t : Task} (ht : t ∈ w.table.rows) (hrunning : t.status = .running) :
    runsBut w t.id < runs w := by
  have hbut : runsBut w t.id =
      (w.table.rows.filter fun t => t.status = .running).countP fun t' => t'.id ≠ t.id := by
    rw [List.countP_filter]
    unfold runsBut
    congr 1
    funext t'
    rw [Bool.and_comm]
  have hruns : runs w = (w.table.rows.filter fun t => t.status = .running).length :=
    List.countP_eq_length_filter
  rw [hbut, hruns, List.countP_lt_length_iff]
  exact ⟨t, List.mem_filter.mpr ⟨ht, by simpa using hrunning⟩, by simp⟩

section Write
variable {id : TaskId} {u : Patch} (hu : ∀ x, u.status = some x → x ≠ .running ∧ x ≠ .pending)

include hu

theorem running_of_patch {t : Task} (h : (t.patch u).status = .running) : t.status = .running := by
  rw [Task.patch_status] at h
  cases hstatus : u.status with
  | none => rwa [hstatus] at h
  | some x =>
    rw [hstatus] at h
    exact absurd h (hu x hstatus).1

/-- A row that is running after the write was so before. -/
theorem runs_update (hw : w'.table = w.table.updateId id u) : runs w' ≤ runs w := by
  unfold runs
  rw [hw, Table.updateId, Table.update, List.countP_map]
  apply List.countP_mono_left
  intro t _ hrunning
  simp only [Function.comp_apply, decide_eq_true_eq] at hrunning ⊢
  split_ifs at hrunning
  · exact running_of_patch hu hrunning
  · exact hrunning

theorem runsBut_update (hw : w'.table = w.table.updateId id u) (id' : TaskId) :
    runsBut w' id' ≤ runsBut w id' := by
  unfold runsBut
  rw [hw, Table.updateId, Table.update, List.countP_map]
  apply List.countP_mono_left
  intro t _ hrunning
  simp only [Function.comp_apply, Bool.and_eq_true, decide_eq_true_eq] at hrunning ⊢
  split_ifs at hrunning
  · exact ⟨running_of_patch hu hrunning.1, hrunning.2⟩
  · exact hrunning

theorem runs_ended (hw : w'.table = w.table.updateId id u) (hends : u.status ≠ none) :
    runs w' ≤ runsBut w id := by
  unfold runs runsBut
  rw [hw, Table.updateId, Table.update, List.countP_map]
  apply List.countP_mono_left
  intro t _ hrunning
  simp only [Function.comp_apply, decide_eq_true_eq] at hrunning
  split_ifs at hrunning with hid
  · obtain ⟨x, hx⟩ := Option.ne_none_iff_exists'.mp hends
    rw [Task.patch_status, hx] at hrunning
    exact absurd hrunning (hu x hx).1
  · simpa using ⟨hrunning, hid⟩

theorem samePending_update (h : SamePending tb w.table) (hid : NotPending tb id)
    (hw : w'.table = w.table.updateId id u) : SamePending tb w'.table := by
  intro t ht
  rw [← h t ht, hw]
  constructor
  · intro hmem
    obtain ⟨t', ht', rfl⟩ := List.mem_map.mp hmem
    split_ifs at ht ⊢ with hpatched
    · exfalso
      rw [Task.patch_status] at ht
      cases hstatus : u.status with
      | none =>
        rw [hstatus] at ht
        exact hid t' ((h t' ht).mp ht') (by simpa using hpatched) ht
      | some x =>
        rw [hstatus] at ht
        exact (hu x hstatus).2 ht
    · exact ht'
  · intro hmem
    apply List.mem_map.mpr
    refine ⟨t, hmem, if_neg ?_⟩
    simp only [decide_eq_true_eq]
    intro hpatched
    exact hid t ((h t ht).mp hmem) hpatched ht

end Write

theorem notPending_of_running (h : SamePending tb w.table) {id : TaskId} {parent : Task}
    (hfind : w.table.find id = some parent) (hrunning : parent.status = .running) :
    NotPending tb parent.id := by
  intro t ht hid hpending
  have hmem := (h t hpending).mpr ht
  rw [List.inj_on_of_nodup_map w.table.unique hmem (Table.find_mem hfind) hid, hrunning]
    at hpending
  cases hpending

variable {w₀ : World}

theorem rollup_served {cfg : Config} (pc : Pc) (hpc : RollingUp tb pc none) :
    ∃ c x, (program cfg).serve w pc c = some x := by
  cases pc <;> first | exact ⟨.only, _, rfl⟩ | cases hpc

theorem rollup_serve {pc : Pc} {c : Choice} {a : Ans} (hw : Undisturbed w₀ tb w)
    (hpc : RollingUp tb pc none) (h : serve w pc c = some (a, w')) :
    Undisturbed w₀ tb w' ∧ RollingUp tb pc (some (.answer a)) ∧
      distance w' pc (some (.answer a)) < distance w pc none ∧
        ∀ pc' o, RollingUp tb pc' o → distance w' pc' o ≤ distance w pc' o := by
  have hregistries := serve_registries h
  cases pc with
  | parentTask id =>
    cases c with
    | only =>
      simp only [serve, Option.some.injEq, Prod.mk.injEq] at h
      obtain ⟨rfl, rfl⟩ := h
      refine ⟨hw, ?_, ?_, fun _ _ _ => le_rfl⟩
      · cases hfind : w.table.find id with
        | none => trivial
        | some parent => exact notPending_of_running hw.pending hfind
      · cases hfind : w.table.find id with
        | none => simp only [distance]; omega
        | some parent =>
          simp only [distance]
          split_ifs with hrunning
          · have := runsBut_lt (Table.find_mem hfind) hrunning
            omega
          · omega
    | row _ | executed _ _ | flag _ => cases h
  | subTasks parent =>
    cases c with
    | only =>
      simp only [serve, Option.some.injEq, Prod.mk.injEq] at h
      obtain ⟨rfl, rfl⟩ := h
      exact ⟨hw, hpc, Nat.lt_succ_self _, fun _ _ _ => le_rfl⟩
    | row _ | executed _ _ | flag _ => cases h
  | updateParent parent status update =>
    obtain ⟨hid, hupdate, hstatus⟩ := hpc
    cases c with
    | only =>
      simp only [serve, Option.some.injEq, Prod.mk.injEq] at h
      obtain ⟨rfl, rfl⟩ := h
      have hmono : ∀ pc' o, RollingUp tb pc' o →
          distance { w with table := w.table.updateId parent.id update } pc' o ≤
            distance w pc' o := fun pc' o _ =>
        distance_mono (runs_update hupdate rfl) (runsBut_update hupdate rfl) pc' o
      refine ⟨⟨?_, samePending_update hupdate hw.pending hid rfl⟩, ⟨hid, hupdate, hstatus⟩, ?_,
        hmono⟩
      · exact ⟨hw.runningTasks, hw.runningCategories, hw.taskControls, hw.history⟩
      · simp only [distance]
        split_ifs with hrunning
        · omega
        · have hends : update.status ≠ none := by
            rw [hstatus hrunning]
            exact Option.some_ne_none _
          have hless : runs { w with table := w.table.updateId parent.id update } ≤
              runsBut w parent.id := runs_ended hupdate rfl hends
          omega
    | row _ | executed _ _ | flag _ => cases h
  | _ => cases hpc

theorem rollup_resume {pc : Pc} {r : Reply Ans} (hpc : RollingUp tb pc (some r)) :
    (∃ threw, resume w pc r = (w, .finish threw)) ∨
      ∃ pc', resume w pc r = (w, .await pc') ∧ RollingUp tb pc' none ∧
        distance w pc' none < distance w pc (some r) := by
  cases pc with
  | parentTask id =>
    cases r with
    | returned | failed => exact .inl ⟨true, rfl⟩
    | answer a =>
      cases a with
      | row o =>
        cases o with
        | none => exact .inl ⟨false, rfl⟩
        | some parent =>
          by_cases hrunning : parent.status = .running
          · refine .inr ⟨.subTasks parent, if_pos hrunning, hpc hrunning, ?_⟩
            simp only [distance, if_pos hrunning]
            omega
          · exact .inl ⟨false, if_neg hrunning⟩
      | _ => exact .inl ⟨false, rfl⟩
  | subTasks parent =>
    cases r with
    | returned | failed => exact .inl ⟨true, rfl⟩
    | answer a =>
      cases a with
      | rows subTasks =>
        refine .inr ⟨_, rfl, ⟨hpc, ?_, ?_⟩, ?_⟩
        · intro x hx
          obtain ⟨rfl, hne⟩ := parentUpdate_status hx
          refine ⟨hne, ?_⟩
          intro hpending
          have hterminal := parentStatus_terminal hne
          rw [hpending] at hterminal
          cases hterminal
        · intro hne
          simp [parentUpdate, hne]
        · simp only [distance]
          omega
      | _ => exact .inl ⟨true, rfl⟩
  | updateParent parent status update =>
    cases r with
    | returned | failed => exact .inl ⟨true, rfl⟩
    | answer a =>
      cases hparent : parent.parentTaskId with
      | none =>
        left
        refine ⟨false, ?_⟩
        simp only [resume, hparent]
      | some p =>
        by_cases hrunning : status = .running
        · left
          refine ⟨false, ?_⟩
          simp only [resume, hparent, if_pos hrunning]
        · right
          refine ⟨.parentTask p, ?_, trivial, ?_⟩
          · simp only [resume, hparent, if_neg hrunning]
          · simp only [distance, if_neg hrunning]
            omega
  | _ => cases hpc

theorem brief_rollup (cfg : Config) (w₀ : World) (tb : Table) :
    Brief (program cfg) (Undisturbed w₀ tb) (RollingUp tb) distance where
  served _ pc _ hpc := rollup_served pc hpc
  serve _ _ _ _ _ hw hpc h := rollup_serve hw hpc h
  resume _ _ _ _ hpc := rollup_resume hpc

end Rollup

section Pick
variable {cfg : Config} {w : World} {base : ℕ} {s : QState}

/-- The tick is about to pick, from the candidates it started with. -/
def AtPick (w : World) (base : ℕ) (s : QState) : Prop :=
  ∃ completed busy, Sole base base ⟨.pick completed busy, .waiting, none⟩ s ∧
    SameRegistries w s.world ∧
      ∀ t, t ∈ s.world.table.select (pickable completed busy) ↔ Candidate w t

/-- Only the tick moves, and nothing has been started since `w`. -/
def QuietMove (w : World) (base : ℕ) (s : QState) (l : QLabel) : Prop :=
  MovesOnly base base s l ∧ s.world.history = w.history

theorem quietMove_iff (h : s.world.history = w.history) (l : QLabel) :
    QuietMove w base s l ↔ MovesOnly base base s l := and_iff_left h

theorem leads_toPick {pc : Pc} {r : Reply Ans} {completed : List TaskId}
    (h : Sole base base ⟨pc, .ready r, none⟩ s) (hsame : SameRegistries w s.world)
    (hres : resume s.world pc r = toPick s.world completed)
    (hcandidates : ∀ t, t ∈ s.world.table.select (pickable completed (busyZones w.runningTasks)) ↔
      Candidate w t) :
    Leads (step (program cfg)) (QuietMove w base) (AtPick w base) s := by
  apply leads_await h (quietMove_iff hsame.history) hres
  intro t ht hsole
  rw [hsame.runningTasks] at hsole
  rw [← ht] at hsame hcandidates
  exact .now ⟨completed, _, hsole, hsame, hcandidates⟩

/-- What the tick reads of the pending rows with a dependency. -/
def waitingRows (w : World) : List Task :=
  w.table.select fun t => t.status = .pending && t.dependsOn.isSome

theorem mem_waitingRows {t : Task} : t ∈ waitingRows w ↔
    t ∈ w.table.rows ∧ t.status = .pending ∧ t.dependsOn.isSome = true := by
  simp [waitingRows, mem_select]

def depRows (w : World) : List Task :=
  w.table.select fun t => (depIds (waitingRows w)).contains t.id

theorem completed_iff {t : Task} {d : TaskId} (ht : t ∈ w.table.rows)
    (hpending : t.status = .pending) (hd : t.dependsOn = some d) :
    d ∈ completedDepIds (waitingRows w) (depRows w) ↔ w.table.status d = some .completed := by
  have hmem : d ∈ depIds (waitingRows w) :=
    mem_depIds (mem_waitingRows.mpr ⟨ht, hpending, by rw [hd]; rfl⟩) hd
  rw [completedDepIds, List.mem_filter, depRows, depStatus_select _ hmem]
  simp [hmem]

/-- The rows the tick cancels are none it could pick. -/
theorem tasksToCancel_not_pickable {t : Task} {busy : List String}
    (ht : t ∈ tasksToCancel (waitingRows w) (depRows w)) :
    t ∈ w.table.rows ∧
      pickable (completedDepIds (waitingRows w) (depRows w)) busy t = false := by
  obtain ⟨hwaiting, hfailed⟩ := List.mem_filter.mp ht
  obtain ⟨hmem, hpending, hdep⟩ := mem_waitingRows.mp hwaiting
  obtain ⟨d, hd⟩ := Option.isSome_iff_exists.mp hdep
  refine ⟨hmem, ?_⟩
  have hnot : d ∉ completedDepIds (waitingRows w) (depRows w) := by
    intro hd'
    have hstatus := (completed_iff hmem hpending hd).mp hd'
    have hmem' : d ∈ depIds (waitingRows w) := mem_depIds hwaiting hd
    rw [depFailed, hd, Option.bind_some, depRows, depStatus_select _ hmem', hstatus] at hfailed
    cases hfailed
  simp [pickable, hd, hnot]

/-- The table once the dependents of failed rows are cancelled. -/
def cancelledTable (w : World) : Table :=
  w.table.update
    (fun t => ((tasksToCancel (waitingRows w) (depRows w)).map Task.id).contains t.id)
    { status := some .cancelled, errorMessage := some (some "Dependency failed"),
      completedAt := some w.clock }

theorem leads_of_cancelled
    (h : Sole base base ⟨.cancelDependents (tasksToCancel (waitingRows w) (depRows w))
      (completedDepIds (waitingRows w) (depRows w)), .ready (.answer .updated), none⟩ s)
    (hw : s.world = { w with table := cancelledTable w }) :
    Leads (step (program cfg)) (QuietMove w base) (AtPick w base) s := by
  have hstart : Undisturbed w (cancelledTable w) s.world := by
    rw [hw]
    exact ⟨⟨rfl, rfl, rfl, rfl⟩, fun _ _ => Iff.rfl⟩
  apply leads_call (brief_rollup cfg w (cancelledTable w))
    (fun s hs => quietMove_iff hs.history) h hstart rfl hstart
  · intro pc hpc
    obtain ⟨p, _, rfl⟩ := List.mem_map.mp hpc
    trivial
  · intro t r ht _ hsole
    apply leads_toPick hsole ht.toSameRegistries rfl
    intro x
    rw [select_samePending ht.pending, cancelledTable,
      select_cancelled _ rfl fun _ hx => tasksToCancel_not_pickable hx]
    exact candidate_iff (fun _ hmem hpending _ hd => completed_iff hmem hpending hd) x

theorem leads_of_deps (h : Sole base base
    ⟨.deps (waitingRows w), .ready (.answer (.rows (depRows w))), none⟩ s) (hw : s.world = w) :
    Leads (step (program cfg)) (QuietMove w base) (AtPick w base) s := by
  subst hw
  have hrefl : SameRegistries s.world s.world := ⟨rfl, rfl, rfl, rfl⟩
  by_cases hempty : (tasksToCancel (waitingRows s.world) (depRows s.world)).isEmpty = true
  · apply leads_toPick h hrefl
    · simp only [resume, hempty, if_true]
      rfl
    · exact candidate_iff fun _ hmem hpending _ hd => completed_iff hmem hpending hd
  · have hres : resume s.world (.deps (waitingRows s.world))
        (.answer (.rows (depRows s.world))) =
          (s.world, .await (.cancelDependents (tasksToCancel (waitingRows s.world)
            (depRows s.world)) (completedDepIds (waitingRows s.world) (depRows s.world)))) := by
      simp only [resume, hempty]
      rfl
    apply leads_await h (quietMove_iff rfl) hres
    intro t ht hsole
    have hhistory : t.world.history = s.world.history := by rw [ht]
    apply leads_serve hsole (quietMove_iff hhistory) ⟨.only, _, rfl⟩
    intro c a u hserve hsole'
    cases c with
    | row _ | executed _ _ | flag _ => cases hserve
    | only =>
      simp only [program, serve, Option.some.injEq, Prod.mk.injEq] at hserve
      obtain ⟨rfl, hworld⟩ := hserve
      apply leads_of_cancelled hsole'
      rw [← hworld, ht]
      rfl

theorem leads_atPick (h : Sole base base ⟨.pendingWithDeps, .waiting, none⟩ s)
    (hw : s.world = w) : Leads (step (program cfg)) (QuietMove w base) (AtPick w base) s := by
  subst hw
  apply leads_serve h (quietMove_iff rfl) ⟨.only, _, rfl⟩
  intro c a t hserve hsole
  cases c with
  | row _ | executed _ _ | flag _ => cases hserve
  | only =>
  simp only [program, serve, Option.some.injEq, Prod.mk.injEq] at hserve
  obtain ⟨rfl, hworld⟩ := hserve
  have hrefl : SameRegistries s.world t.world := by
    rw [hworld]
    exact ⟨rfl, rfl, rfl, rfl⟩
  by_cases hempty : (waitingRows s.world).isEmpty = true
  · apply @leads_toPick _ _ _ _ _ _ [] hsole hrefl
    · simp only [resume]
      exact if_pos hempty
    · rw [← hworld]
      apply candidate_iff
      intro x hmem hpending d hd
      have hwaiting : x ∈ waitingRows s.world :=
        mem_waitingRows.mpr ⟨hmem, hpending, by rw [hd]; rfl⟩
      rw [List.isEmpty_iff.mp hempty] at hwaiting
      cases hwaiting
  · have hres : resume t.world .pendingWithDeps (.answer (.rows (waitingRows s.world))) =
        (s.world, .await (.deps (waitingRows s.world))) := by
      simp only [resume]
      rw [if_neg hempty, hworld]
    apply leads_await hsole (quietMove_iff hrefl.history) hres
    intro u hu hsole'
    have hhistory : u.world.history = s.world.history := by rw [hu]
    apply leads_serve hsole' (quietMove_iff hhistory) ⟨.only, _, rfl⟩
    intro c a v hserve hsole''
    cases c with
    | row _ | executed _ _ | flag _ => cases hserve
    | only =>
      simp only [program, serve, Option.some.injEq, Prod.mk.injEq] at hserve
      obtain ⟨rfl, hworld'⟩ := hserve
      rw [hu] at hsole''
      exact leads_of_deps hsole'' (by rw [← hworld', hu])

end Pick

section Dispatch
variable {cfg : Config} {w : World} {base : ℕ} {s : QState}

theorem firstCandidate_of_found {completed : List TaskId} {busy : List String} {tb : Table}
    (hcandidates : ∀ t, t ∈ tb.select (pickable completed busy) ↔ Candidate w t) {t : Task}
    (ht : t ∈ tb.select (pickable completed busy))
    (hfirst : ∀ t' ∈ tb.select (pickable completed busy), picksBefore t' t = false) :
    FirstCandidate w t where
  toCandidate := (hcandidates t).mp ht
  first t' ht' := hfirst t' ((hcandidates t').mpr ht')

theorem held_congr {w' : World} (h : SameRegistries w w') (category : Option String) :
    w'.held category = w.held category := by
  unfold World.held
  rw [h.runningCategories]

/-- A row that was picked and whose category is free is started. -/
theorem leads_of_picked {completed : List TaskId} {busy : List String} {task : Task}
    (h : Sole base base ⟨.pick completed busy, .ready (.answer (.row (some task))), none⟩ s)
    (hfree : s.world.held (operationCategory task.operation) = false) :
    Leads (step (program cfg)) (MovesOnly base base) (Started s.world) s := by
  have hres : resume s.world (.pick completed busy) (.answer (.row (some task))) =
      (s.world.register task, .await (.markRunning task)) := by
    simp only [resume, hfree]
    rfl
  apply leads_await h (fun _ => Iff.rfl) hres
  intro t ht hsole
  apply leads_serve hsole (fun _ => Iff.rfl) ⟨.only, _, rfl⟩
  intro c a u hserve hsole'
  cases c with
  | row _ | executed _ _ | flag _ => cases hserve
  | only =>
    simp only [program, serve, Option.some.injEq, Prod.mk.injEq] at hserve
    obtain ⟨rfl, hworld⟩ := hserve
    apply leads_await hsole' (fun _ => Iff.rfl) rfl
    intro v hv _
    refine .now ⟨task.id, ?_⟩
    rw [hv]
    change _ :: u.world.history = _
    rw [← hworld, ht]
    rfl

/-- Where some task can run and no first candidate waits for its category, the pick is started. -/
theorem leads_started (h : AtPick w base s) (hrunnable : ∃ t, Runnable w t)
    (hfree : ∀ t, FirstCandidate w t → w.held (operationCategory t.operation) = false) :
    Leads (step (program cfg)) (MovesOnly base base) (Started w) s := by
  obtain ⟨completed, busy, hsole, hsame, hcandidates⟩ := h
  obtain ⟨t₀, ht₀⟩ := hrunnable
  have hmem₀ := (hcandidates t₀).mpr ht₀.toCandidate
  obtain ⟨t₁, ht₁, hfirst₁⟩ := exists_first (List.ne_nil_of_mem hmem₀)
  have hfound : ∃ c x, (program cfg).serve s.world (.pick completed busy) c = some x := by
    refine ⟨.row (some t₁.id), (.row (some t₁), s.world), ?_⟩
    change (findOne _ _ _ _).map _ = _
    rw [findOne_first ht₁ hfirst₁]
    rfl
  apply leads_serve hsole (fun _ => Iff.rfl) hfound
  intro c a t hserve hsole'
  cases c with
  | only | executed _ _ | flag _ => cases hserve
  | row id =>
    obtain ⟨o, ho, heq⟩ := Option.map_eq_some_iff.mp hserve
    obtain ⟨rfl, hworld⟩ := Prod.mk.inj heq
    rcases findOne_cases ho with ⟨rfl, hempty⟩ | ⟨task, rfl, htask, hfirst⟩
    · rw [hempty] at hmem₀
      cases hmem₀
    · have hheld := hfree task (firstCandidate_of_found hcandidates htask hfirst)
      rw [← held_congr hsame, hworld] at hheld
      have hstarted : Started t.world = Started w := by
        unfold Started
        rw [← hworld, hsame.history]
      rw [← hstarted]
      exact leads_of_picked hsole' hheld

theorem not_started_of_history {u : QState} (h : u.world.history = w.history) : ¬ Started w u := by
  rintro ⟨id, hid⟩
  have hlength := congrArg List.length (h.symm.trans hid)
  simp at hlength

/-- Where a first candidate waits for its category, the tick may pick it and end. -/
theorem not_leads_started (h : AtPick w base s) {t : Task} (ht : FirstCandidate w t)
    (hheld : w.held (operationCategory t.operation) = true) :
    ¬ Leads (step (program cfg)) (MovesOnly base base) (Started w) s := by
  obtain ⟨completed, busy, hsole, hsame, hcandidates⟩ := h
  have hfound : findOne s.world.table (pickable completed busy) picksBefore (some t.id) =
      some (some t) :=
    findOne_first ((hcandidates t).mpr ht.toCandidate)
      fun t' ht' => ht.first t' ((hcandidates t').mp ht')
  have hres : resume s.world (.pick completed busy) (.answer (.row (some t))) =
      (s.world, .finish false) := by
    simp only [resume, held_congr hsame, hheld]
    rfl
  intro hleads
  have hstep := hsole.step_serve (P := program cfg) (.row (some t.id))
  simp only [program, serve, hfound, Option.map_some] at hstep
  have hpicked := hleads.next (not_started_of_history hsame.history)
    (movesOnly_serve base base s _) hstep
  revert hpicked
  apply not_leads_of_finish (hsole.set _ _) hres (not_started_of_history hsame.history)
  intro u hu
  apply not_started_of_history
  rw [hu, hsame.history]

/-- The tick that has just been entered. -/
theorem sole_of_tick (hfresh : Fresh s) {t : QState}
    (hslot : s.world.runningTasks.length < cfg.maxConcurrentTasks)
    (h : step (program cfg) s (.enter .tick) = some t) :
    Sole s.next s.next ⟨.pendingWithDeps, .waiting, none⟩ t ∧ t.world = s.world := by
  simp only [step, program, enter, if_neg (Nat.not_le.mpr hslot), Option.map_some,
    Option.some.injEq] at h
  subst h
  refine ⟨⟨KeyedList.get_set_self _ _ _, ?_, Nat.le_succ _, Nat.lt_succ_self _⟩, rfl⟩
  intro q hq hne
  change (s.procs.set s.next _).get q = none
  rw [KeyedList.get_set_of_ne _ _ (Ne.symm hne)]
  cases hget : s.procs.get q with
  | none => rfl
  | some p => exact absurd (hfresh q p hget) (Nat.not_lt.mpr hq)

theorem not_dispatches (hfresh : Fresh s)
    (hslot : s.world.runningTasks.length < cfg.maxConcurrentTasks) {t : Task}
    (ht : FirstCandidate s.world t)
    (hheld : s.world.held (operationCategory t.operation) = true) : ¬ Dispatches cfg s := by
  intro hdispatches
  obtain ⟨u, hu⟩ : ∃ u, step (program cfg) s (.enter .tick) = some u := by
    simp [step, program, enter, if_neg (Nat.not_le.mpr hslot)]
  obtain ⟨hsole, hw⟩ := sole_of_tick hfresh hslot hu
  obtain ⟨v, hv, hleads⟩ :=
    (leads_atPick hsole hw).meets (fun _ => not_started_of_history) (hdispatches u hu)
  exact not_leads_started hv ht hheld hleads

end Dispatch

theorem tick_dispatches (cfg : Config) (s : QState) (hfresh : Fresh s) :
    WorkConserving cfg s ↔ HeadFree cfg s := by
  constructor
  · intro h hslot hrunnable t ht
    by_contra hheld
    exact not_dispatches hfresh hslot ht (Bool.eq_true_of_not_eq_false hheld)
      (h hslot hrunnable)
  · intro h hslot hrunnable t ht
    obtain ⟨hsole, hw⟩ := sole_of_tick hfresh hslot ht
    exact (leads_atPick hsole hw).weaken.bind fun _ hu =>
      leads_started hu hrunnable (h hslot hrunnable)

section Example

def pkgUpdate : Task :=
  { id := 0, zoneName := "system", operation := "pkg_update", status := .running }

/-- A package operation runs, another waits for its category, and a machine is to be started. -/
def packagesBusy : QState where
  world :=
    { table := ((Table.empty.create pkgUpdate).create
        { id := 1, zoneName := "system", operation := "pkg_install", createdAt := 1 }).create
          { id := 2, zoneName := "web", operation := "start", createdAt := 2 }
      clock := 3
      runningTasks := [(0, pkgUpdate)]
      runningCategories := ["package_management"]
      taskControls := [(0, ⟨false⟩)]
      history := [] }
  procs := [(0, ⟨.execute pkgUpdate, .waiting, none⟩)]
  next := 1

theorem packagesBusy_fresh : Fresh packagesBusy := by
  intro q p hget
  have hmem : (q, p) ∈ packagesBusy.procs := KeyedList.mem_of_get hget
  simp only [packagesBusy, List.mem_singleton, Prod.mk.injEq] at hmem
  rw [hmem.1]
  exact Nat.zero_lt_one

theorem tick_dispatches_packagesBusy :
    WorkConserving {} packagesBusy ↔ HeadFree {} packagesBusy :=
  tick_dispatches {} packagesBusy packagesBusy_fresh

/-- The start of the machine waits although it could run. -/
theorem tick_dispatches_fails :
    ¬ ∀ (cfg : Config) (s : QState), Fresh s → WorkConserving cfg s := by
  intro h
  have hslot : packagesBusy.world.runningTasks.length < ({} : Config).maxConcurrentTasks := by
    decide
  have hrunnable : Runnable packagesBusy.world
      { id := 2, zoneName := "web", operation := "start", createdAt := 2 } :=
    ⟨⟨by decide, rfl, nofun, by decide⟩, by decide⟩
  have hwaits : FirstCandidate packagesBusy.world
      { id := 1, zoneName := "system", operation := "pkg_install", createdAt := 1 } := by
    refine ⟨⟨by decide, rfl, nofun, by decide⟩, ?_⟩
    intro t ht
    have hmem := ht.mem
    have hrows : ∀ t ∈ packagesBusy.world.table.rows, picksBefore t
        { id := 1, zoneName := "system", operation := "pkg_install", createdAt := 1 } = true →
          t.status ≠ .pending := by decide
    rw [Bool.eq_false_iff]
    intro hbefore
    exact hrows t hmem hbefore ht.pending
  exact not_dispatches packagesBusy_fresh hslot hwaits (by decide)
    (h {} packagesBusy packagesBusy_fresh hslot ⟨_, hrunnable⟩)

end Example

end ZoneweaverAgent.TaskQueue
