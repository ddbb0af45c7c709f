import ZoneweaverAgent.PendingChanges

/-!
# Every accrued change is applied once

The accrue contract over runs. An apply carries a snapshot of the pending set while it is open; the
invariant compares what it has applied and what it still has to apply with that snapshot. The
contract holds of the runs in which applies do not overlap, nothing accrues while one is open, and
one that fails has applied nothing.
-/

namespace ZoneweaverAgent.PendingChanges
open EventLoop ZoneDocument Transition

/-! ## The contract -/

def Event.applies (accrual : ℕ) (key : String) : Event → Bool
  | .applied accrual' key' => accrual' = accrual && key' = key
  | _ => false

def timesApplied (history : List Event) (accrual : ℕ) (key : String) : ℕ :=
  history.countP (Event.applies accrual key)

def Accrues (history : List Event) (accrual : ℕ) (key : String) (value : Json) : Prop :=
  ∃ body earlier, .accrued accrual body earlier ∈ history ∧ body.get key = some value

/-- A later accrual wrote over the pending change. -/
def Overridden (overrides : Json → Bool) (history : List Event) (accrual : ℕ) (key : String) :
    Prop :=
  ∃ accrual' body earlier value value', .accrued accrual' body earlier ∈ history ∧
    earlier.get key = some ⟨accrual, value⟩ ∧ body.get key = some value' ∧ overrides value'

def Cancelled (history : List Event) (accrual : ℕ) (key : String) : Prop :=
  ∃ dropped value, .cancelled dropped ∈ history ∧ dropped.get key = some ⟨accrual, value⟩

/-- Every change that was neither overridden nor cancelled is pending and not applied, or applied
once; the latter if an apply has completed since. -/
structure Contract (overrides : Json → Bool) (w : Machine) : Prop where
  once : ∀ accrual key, timesApplied w.history accrual key ≤ 1
  kept : ∀ accrual key value, Accrues w.history accrual key value → asks key value →
    ¬Overridden overrides w.history accrual key → ¬Cancelled w.history accrual key →
    (timesApplied w.history accrual key = 0 ∧ w.pending.get key = some ⟨accrual, value⟩) ∨
      (timesApplied w.history accrual key = 1 ∧ w.pending.get key ≠ some ⟨accrual, value⟩)
  cycled : ∀ before after metadata, w.history = before ++ .completed metadata :: after →
    ∀ accrual key value, Accrues before accrual key value → asks key value →
    ¬Overridden overrides w.history accrual key → ¬Cancelled w.history accrual key →
    timesApplied w.history accrual key = 1

/-! ## What the stages still owe -/

def owed (stages : List Stage) (accrual : ℕ) (key : String) : ℕ :=
  stages.flatten.countP fun e => e.2.accrual = accrual && e.1 = key

theorem owed_cons (stage : Stage) (rest : List Stage) (accrual : ℕ) (key : String) :
    owed (stage :: rest) accrual key =
      stage.countP (fun e => e.2.accrual = accrual && e.1 = key) + owed rest accrual key := by
  simp [owed]

theorem owed_append (done rest : List Stage) (accrual : ℕ) (key : String) :
    owed (done ++ rest) accrual key = owed done accrual key + owed rest accrual key := by
  simp [owed]

theorem timesApplied_append (history events : List Event) (accrual : ℕ) (key : String) :
    timesApplied (history ++ events) accrual key =
      timesApplied history accrual key + timesApplied events accrual key := by
  simp [timesApplied]

theorem timesApplied_stage (stage : Stage) (accrual : ℕ) (key : String) :
    timesApplied (stage.map fun e => Event.applied e.2.accrual e.1) accrual key =
      stage.countP fun e => e.2.accrual = accrual && e.1 = key := by
  unfold timesApplied
  rw [List.countP_map]
  rfl

/-- Every key has its place in one stage. -/
theorem stageGroups_nodup : stageGroups.flatten.Nodup := by decide

theorem mem_stageGroups {key : String} {value : Json} (h : asks key value) :
    key ∈ stageGroups.flatten := by
  have hflatten : stageGroups.flatten = attributeKeys ++ "autoboot" :: (resourceKeys ++
      resourceListKeys) ++ listKeys ++ ["cloud_init"] := rfl
  rw [hflatten]
  unfold asks at h
  split_ifs at h with hattribute hresource hlist hother <;>
    simp only [List.mem_append, List.mem_cons] <;> try tauto
  simp only [Bool.and_eq_true, decide_eq_true_eq] at h
  tauto

theorem countP_get {metadata : Pending} (hnodup : metadata.keys.Nodup) (accrual : ℕ)
    (key : String) (p : String × Accrued → Bool) :
    metadata.countP (fun e => (e.2.accrual = accrual && e.1 = key) && p e) =
      if (metadata.get key).any (fun a => a.accrual = accrual && p (key, a)) then 1 else 0 := by
  induction metadata with
  | nil => rfl
  | cons e rest ih =>
    obtain ⟨key', a⟩ := e
    obtain ⟨hnotMem, hnodup⟩ := List.nodup_cons.mp hnodup
    rw [List.countP_cons, ih hnodup, KeyedList.get_cons]
    by_cases hkey : key' = key
    · subst hkey
      have hnone : KeyedList.get rest key' = none := by
        cases hget : KeyedList.get rest key' with
        | none => rfl
        | some a' => exact absurd (List.mem_map_of_mem (KeyedList.mem_of_get hget)) hnotMem
      simp [hnone]
    · simp [hkey]

theorem owed_groups {metadata : Pending} (hnodup : metadata.keys.Nodup) (accrual : ℕ)
    (key : String) {groups : List (List String)} (hgroups : groups.flatten.Nodup) :
    owed (groups.map fun group => metadata.filter fun e => e.1 ∈ group && asks e.1 e.2.value)
        accrual key =
      if key ∈ groups.flatten ∧
        (metadata.get key).any (fun a => a.accrual = accrual && asks key a.value) then 1 else 0 := by
  induction groups with
  | nil => simp [owed]
  | cons group rest ih =>
    rw [List.flatten_cons] at hgroups
    obtain ⟨-, hrest, hapart⟩ := List.nodup_append.mp hgroups
    rw [List.map_cons, owed_cons, ih hrest, List.countP_filter, countP_get hnodup accrual key
      fun e => e.1 ∈ group && asks e.1 e.2.value]
    by_cases hkey : key ∈ group
    · have hnotMem : key ∉ rest.flatten := fun hmem => hapart key hkey key hmem rfl
      simp [hkey, hnotMem]
    · simp [hkey]

/-- What the stages of a set owe: one application of every change that asks for something. -/
theorem owed_stages {metadata : Pending} (hnodup : metadata.keys.Nodup) (accrual : ℕ)
    (key : String) :
    owed (stages metadata) accrual key =
      if (metadata.get key).any (fun a => a.accrual = accrual && asks key a.value) then 1 else 0 := by
  have hflatten : owed (stages metadata) accrual key = owed (stageGroups.map fun group =>
      metadata.filter fun e => e.1 ∈ group && asks e.1 e.2.value) accrual key := by
    unfold owed stages
    rw [List.flatten_filter_not_isEmpty]
  rw [hflatten, owed_groups hnodup accrual key stageGroups_nodup]
  congr 1
  refine propext ⟨And.right, fun h => ⟨?_, h⟩⟩
  cases hget : metadata.get key with
  | none => simp [hget] at h
  | some a =>
    rw [hget, Option.any_some] at h
    exact mem_stageGroups (Bool.and_eq_true_iff.mp h).2

theorem owed_stages_le {metadata : Pending} (hnodup : metadata.keys.Nodup) (accrual : ℕ)
    (key : String) : owed (stages metadata) accrual key ≤ 1 := by
  rw [owed_stages hnodup]
  split <;> omega

theorem owed_stages_pos {metadata : Pending} (hnodup : metadata.keys.Nodup) {accrual : ℕ}
    {key : String} (h : 0 < owed (stages metadata) accrual key) :
    ∃ value, metadata.get key = some ⟨accrual, value⟩ := by
  rw [owed_stages hnodup] at h
  split at h
  · rename_i hany
    cases hget : metadata.get key with
    | none => simp [hget] at hany
    | some a =>
      obtain ⟨accrual', value⟩ := a
      simp only [hget, Option.any_some, Bool.and_eq_true, decide_eq_true_eq] at hany
      exact ⟨value, by rw [hany.1]⟩
  · omega

theorem owed_stages_asks {metadata : Pending} (hnodup : metadata.keys.Nodup) {accrual : ℕ}
    {key : String} {value : Json} (h : metadata.get key = some ⟨accrual, value⟩)
    (hasks : asks key value) : owed (stages metadata) accrual key = 1 := by
  rw [owed_stages hnodup, h]
  simp [hasks]

/-! ## The invariant -/

def Untouched (w : Machine) (pending : Pending) : Prop :=
  ∀ accrual key value, pending.get key = some ⟨accrual, value⟩ →
    timesApplied w.history accrual key = 0

/-- The snapshot of an open apply: a cancel is all that can have changed the pending set since. -/
structure Carried (w : Machine) (metadata : Pending) : Prop where
  nodup : metadata.keys.Nodup
  pending : w.pending = metadata ∨ w.pending = []
  bound : ∀ accrual key value, metadata.get key = some ⟨accrual, value⟩ → accrual < w.accruals

/-- An open apply that has still to run the stages `rest`. -/
structure Working (w : Machine) (metadata : Pending) (rest : List Stage) : Prop where
  openApplies : w.openApplies = 1
  queue : w.queue.countP (·.applyPending) = 0
  carried : Carried w metadata
  suffix : rest <:+ stages metadata
  owes : ∀ accrual key value, metadata.get key = some ⟨accrual, value⟩ →
    timesApplied w.history accrual key + owed rest accrual key =
      owed (stages metadata) accrual key

structure Sound (w : Machine) : Prop where
  nodup : w.pending.keys.Nodup
  accrued : ∀ accrual key value, w.pending.get key = some ⟨accrual, value⟩ →
    Accrues w.history accrual key value
  bound : ∀ accrual body earlier, .accrued accrual body earlier ∈ w.history → accrual < w.accruals
  fresh : ∀ accrual key, w.accruals ≤ accrual → timesApplied w.history accrual key = 0
  once : ∀ accrual key, timesApplied w.history accrual key ≤ 1
  kept : ∀ accrual key value, Accrues w.history accrual key value → asks key value →
    w.pending.get key = some ⟨accrual, value⟩ ∨ timesApplied w.history accrual key = 1 ∨
      Overridden (fun _ => true) w.history accrual key ∨ Cancelled w.history accrual key
  cycled : ∀ before after metadata, w.history = before ++ .completed metadata :: after →
    ∀ accrual key value body earlier, w.pending.get key = some ⟨accrual, value⟩ →
      .accrued accrual body earlier ∉ before
  fewApplies : w.openApplies ≤ 1
  untouched : w.openApplies = 0 → Untouched w w.pending
  queued : w.queue.countP (·.applyPending) ≤ w.openApplies
  waiting : ∀ task ∈ w.queue, task.applyPending → Carried w task.metadata ∧
    Untouched w task.metadata

/-- A move that leaves every open apply alone. -/
structure Frame (w w' : Machine) : Prop where
  openApplies : w'.openApplies = w.openApplies
  queue : ∀ task ∈ w'.queue, task.applyPending → task ∈ w.queue
  pending : w'.pending = w.pending ∨ w'.pending = []
  accruals : w'.accruals = w.accruals
  applied : ∀ accrual key,
    timesApplied w'.history accrual key = timesApplied w.history accrual key

section Frames
variable {w w' : Machine} {metadata : Pending} {rest : List Stage}

theorem Carried.frame (h : Carried w metadata) (hf : Frame w w') : Carried w' metadata where
  nodup := h.nodup
  pending := by
    rcases hf.pending with heq | heq
    · rw [heq]
      exact h.pending
    · exact .inr heq
  bound := by
    rw [hf.accruals]
    exact h.bound

theorem Untouched.frame {pending : Pending} (h : Untouched w pending) (hf : Frame w w') :
    Untouched w' pending := by
  intro accrual key value hget
  rw [hf.applied]
  exact h accrual key value hget

theorem Working.frame (h : Working w metadata rest) (hf : Frame w w') :
    Working w' metadata rest where
  openApplies := hf.openApplies.trans h.openApplies
  queue := by
    refine List.countP_eq_zero.mpr fun task hmem happly => ?_
    exact List.countP_eq_zero.mp h.queue task (hf.queue task hmem happly) happly
  carried := h.carried.frame hf
  suffix := h.suffix
  owes := by
    intro accrual key value hget
    rw [hf.applied]
    exact h.owes accrual key value hget

end Frames

section Histories
variable {history events : List Event} {accrual : ℕ} {key : String} {value : Json}

theorem accrues_append : Accrues (history ++ events) accrual key value ↔
    Accrues history accrual key value ∨ Accrues events accrual key value := by
  simp only [Accrues, List.mem_append, or_and_right, exists_or]

theorem Overridden.append {overrides : Json → Bool} (h : Overridden overrides history accrual key) :
    Overridden overrides (history ++ events) accrual key := by
  obtain ⟨accrual', body, earlier, value, value', hmem, hrest⟩ := h
  exact ⟨accrual', body, earlier, value, value', List.mem_append_left _ hmem, hrest⟩

theorem Cancelled.append (h : Cancelled history accrual key) :
    Cancelled (history ++ events) accrual key := by
  obtain ⟨dropped, value, hmem, hget⟩ := h
  exact ⟨dropped, value, List.mem_append_left _ hmem, hget⟩

/-- A completion in a longer history that the added events do not contain is an old one. -/
theorem completed_append {before after : List Event} {metadata : Pending}
    (hevents : ∀ metadata, .completed metadata ∉ events)
    (h : history ++ events = before ++ .completed metadata :: after) :
    ∃ after', history = before ++ .completed metadata :: after' := by
  rcases List.append_eq_append_iff.mp h with ⟨between, hbefore, hrest⟩ | ⟨between, hhistory, hrest⟩
  · have hmem : Event.completed metadata ∈ events := by simp [hrest]
    exact absurd hmem (hevents metadata)
  · cases between with
    | nil =>
      have hmem : Event.completed metadata ∈ events := by
        rw [← List.nil_append events, ← hrest]
        simp
      exact absurd hmem (hevents metadata)
    | cons e between =>
      obtain ⟨rfl, -⟩ := List.cons_eq_cons.mp hrest
      exact ⟨between, hhistory⟩

end Histories

section Moves
variable {w : Machine} {metadata : Pending} {rest : List Stage}

theorem Sound.withQueue (h : Sound w) {queue : List ModifyTask}
    (hsub : ∀ task ∈ queue, task.applyPending → task ∈ w.queue)
    (hcount : queue.countP (·.applyPending) ≤ w.queue.countP (·.applyPending)) :
    Sound { w with queue := queue } where
  nodup := h.nodup
  accrued := h.accrued
  bound := h.bound
  fresh := h.fresh
  once := h.once
  kept := h.kept
  cycled := h.cycled
  fewApplies := h.fewApplies
  untouched := h.untouched
  queued := hcount.trans h.queued
  waiting task hmem happly := by
    obtain ⟨⟨hnodup, hpending, hbound⟩, huntouched⟩ := h.waiting task (hsub task hmem happly) happly
    exact ⟨⟨hnodup, hpending, hbound⟩, huntouched⟩

theorem nodup_setAll {pending updates : Pending} (h : pending.keys.Nodup) :
    (KeyedList.setAll pending updates).keys.Nodup := by
  unfold KeyedList.setAll
  induction updates generalizing pending with
  | nil => exact h
  | cons e rest ih => exact ih (KeyedList.nodup_keys_set h e.1 e.2)

theorem get_accrue (accrual : ℕ) (body : Document) (key : String) :
    (accrue accrual body).get key = (body.get key).map (Accrued.mk accrual) := by
  induction body with
  | nil => rfl
  | cons e rest ih =>
    obtain ⟨key', value⟩ := e
    change KeyedList.get ((key', _) :: accrue accrual rest) key = _
    rw [KeyedList.get_cons, KeyedList.get_cons, ih]
    split <;> rfl

theorem keys_accrue (accrual : ℕ) (body : Document) :
    (accrue accrual body).keys = body.keys := by
  simp [accrue, KeyedList.keys]

/-- What is pending after a merge. -/
theorem get_merge {body : Document} (hbody : body.keys.Nodup) (accrual : ℕ) (pending : Pending)
    (key : String) : (KeyedList.setAll pending (accrue accrual body)).get key =
      ((body.get key).map (Accrued.mk accrual)).or (pending.get key) := by
  rw [KeyedList.get_setAll (by rwa [keys_accrue]), get_accrue]

theorem Sound.merge (h : Sound w) (hopen : w.openApplies = 0) {body : Document}
    (hbody : body.keys.Nodup) :
    Sound { w with
      pending := w.pending.setAll (accrue w.accruals body)
      accruals := w.accruals + 1
      history := w.history ++ [.accrued w.accruals body w.pending] } where
  nodup := nodup_setAll h.nodup
  accrued accrual key value hget := by
    rw [get_merge hbody] at hget
    cases hin : body.get key with
    | none =>
      rw [hin, Option.map_none, Option.none_or] at hget
      exact accrues_append.mpr (.inl (h.accrued accrual key value hget))
    | some value' =>
      rw [hin] at hget
      cases hget
      exact accrues_append.mpr (.inr ⟨body, w.pending, List.mem_singleton_self _, hin⟩)
  bound accrual body' earlier hmem := by
    rcases List.mem_append.mp hmem with hold | hnew
    · exact (h.bound accrual body' earlier hold).trans (Nat.lt_succ_self _)
    · cases List.mem_singleton.mp hnew
      exact Nat.lt_succ_self _
  fresh accrual key hle := by
    rw [timesApplied_append]
    exact Nat.add_eq_zero_iff.mpr ⟨h.fresh accrual key (Nat.le_of_succ_le hle), rfl⟩
  once accrual key := by
    rw [timesApplied_append]
    exact h.once accrual key
  kept accrual key value haccrues hasks := by
    rw [timesApplied_append]
    rcases accrues_append.mp haccrues with hold | ⟨body', earlier, hmem, hget⟩
    · rcases h.kept accrual key value hold hasks with hpending | hones | hover | hcancel
      · cases hin : body.get key with
        | none => exact .inl (by rw [get_merge hbody, hin]; exact hpending)
        | some value' =>
          refine .inr (.inr (.inl ⟨w.accruals, body, w.pending, value, value', ?_, hpending, hin, rfl⟩))
          simp
      · exact .inr (.inl hones)
      · exact .inr (.inr (.inl hover.append))
      · exact .inr (.inr (.inr hcancel.append))
    · cases List.mem_singleton.mp hmem
      exact .inl (by rw [get_merge hbody, hget]; rfl)
  cycled before after metadata hsplit accrual key value body' earlier hget := by
    obtain ⟨after', hhistory⟩ := completed_append (by simp) hsplit
    rw [get_merge hbody] at hget
    cases hin : body.get key with
    | none =>
      rw [hin, Option.map_none, Option.none_or] at hget
      exact h.cycled before after' metadata hhistory accrual key value body' earlier hget
    | some value' =>
      rw [hin] at hget
      cases hget
      intro hmem
      have hlt := h.bound w.accruals body' earlier (by rw [hhistory]; exact List.mem_append_left _ hmem)
      exact absurd hlt (lt_irrefl _)
  fewApplies := h.fewApplies
  untouched _ accrual key value hget := by
    rw [timesApplied_append]
    refine Nat.add_eq_zero_iff.mpr ⟨?_, rfl⟩
    rw [get_merge hbody] at hget
    cases hin : body.get key with
    | none =>
      rw [hin, Option.map_none, Option.none_or] at hget
      exact h.untouched hopen accrual key value hget
    | some value' =>
      rw [hin] at hget
      cases hget
      exact h.fresh w.accruals key le_rfl
  queued := h.queued
  waiting task hmem happly := by
    have hnone := List.countP_eq_zero.mp (Nat.le_zero.mp (hopen ▸ h.queued)) task hmem
    exact absurd happly hnone

theorem Sound.cancel (h : Sound w) :
    Sound { w with pending := [], history := w.history ++ [.cancelled w.pending] } where
  nodup := List.nodup_nil
  accrued _ _ _ hget := nomatch hget
  bound accrual body earlier hmem := by
    rcases List.mem_append.mp hmem with hold | hnew
    · exact h.bound accrual body earlier hold
    · cases List.mem_singleton.mp hnew
  fresh accrual key hle := by
    rw [timesApplied_append]
    exact h.fresh accrual key hle
  once accrual key := by
    rw [timesApplied_append]
    exact h.once accrual key
  kept accrual key value haccrues hasks := by
    rw [timesApplied_append]
    rcases accrues_append.mp haccrues with hold | ⟨body, earlier, hmem, -⟩
    · rcases h.kept accrual key value hold hasks with hpending | hones | hover | hcancel
      · exact .inr (.inr (.inr ⟨w.pending, value, by simp, hpending⟩))
      · exact .inr (.inl hones)
      · exact .inr (.inr (.inl hover.append))
      · exact .inr (.inr (.inr hcancel.append))
    · cases List.mem_singleton.mp hmem
  cycled _ _ _ _ _ _ _ _ _ hget := nomatch hget
  fewApplies := h.fewApplies
  untouched _ _ _ _ hget := nomatch hget
  queued := h.queued
  waiting task hmem happly := by
    obtain ⟨⟨hnodup, -, hbound⟩, huntouched⟩ := h.waiting task hmem happly
    refine ⟨⟨hnodup, .inr rfl, hbound⟩, fun accrual key value hget => ?_⟩
    rw [timesApplied_append]
    exact huntouched accrual key value hget

theorem Sound.createApply (h : Sound w) (hopen : w.openApplies = 0) :
    Sound { w with queue := w.queue ++ [⟨w.pending, true⟩], openApplies := w.openApplies + 1 } where
  nodup := h.nodup
  accrued := h.accrued
  bound := h.bound
  fresh := h.fresh
  once := h.once
  kept := h.kept
  cycled := h.cycled
  fewApplies := by simp [hopen]
  untouched hzero := nomatch hzero
  queued := by
    simpa [List.countP_append] using h.queued
  waiting task hmem happly := by
    have hnone := List.countP_eq_zero.mp (Nat.le_zero.mp (hopen ▸ h.queued))
    rcases List.mem_append.mp hmem with hold | hnew
    · exact absurd happly (hnone task hold)
    · rw [List.mem_singleton.mp hnew]
      refine ⟨⟨h.nodup, .inl rfl, fun accrual key value hget => ?_⟩, h.untouched hopen⟩
      obtain ⟨body, earlier, haccrued, -⟩ := h.accrued accrual key value hget
      exact h.bound accrual body earlier haccrued

/-- The stage that is applied next owes each of its changes once, and none of them is applied. -/
theorem Working.stage_le {stage : Stage} (hw : Working w metadata (stage :: rest)) (accrual : ℕ)
    (key : String) (hpos : 0 < owed (stage :: rest) accrual key) :
    accrual < w.accruals ∧
      timesApplied w.history accrual key + owed (stage :: rest) accrual key = 1 := by
  obtain ⟨done, hdone⟩ := hw.suffix
  have hnodup := hw.carried.nodup
  have hle := owed_stages_le hnodup accrual key
  have hsplit := owed_append done (stage :: rest) accrual key
  rw [hdone] at hsplit
  have hsome : 0 < owed (stages metadata) accrual key := by omega
  obtain ⟨value, hget⟩ := owed_stages_pos hnodup hsome
  have howes := hw.owes accrual key value hget
  exact ⟨hw.carried.bound accrual key value hget, by omega⟩

def appliedEvents (stage : Stage) : List Event :=
  stage.map fun e => .applied e.2.accrual e.1

theorem appliedEvents_applied {stage : Stage} {e : Event} (h : e ∈ appliedEvents stage) :
    ∃ accrual key, e = .applied accrual key := by
  obtain ⟨change, -, rfl⟩ := List.mem_map.mp h
  exact ⟨_, _, rfl⟩

theorem Sound.command (h : Sound w) {stage : Stage}
    (hw : Working w metadata (stage :: rest)) :
    Sound { w with history := w.history ++ appliedEvents stage } where
  nodup := h.nodup
  accrued accrual key value hget := accrues_append.mpr (.inl (h.accrued accrual key value hget))
  bound accrual body earlier hmem := by
    rcases List.mem_append.mp hmem with hold | hnew
    · exact h.bound accrual body earlier hold
    · obtain ⟨_, _, heq⟩ := appliedEvents_applied hnew
      cases heq
  fresh accrual key hle := by
    have hnone : owed (stage :: rest) accrual key = 0 := by
      by_contra hne
      have hlt := (hw.stage_le accrual key (Nat.pos_of_ne_zero hne)).1
      exact absurd hle (not_le.mpr hlt)
    rw [owed_cons] at hnone
    rw [timesApplied_append, appliedEvents, timesApplied_stage, h.fresh accrual key hle]
    omega
  once accrual key := by
    have hcons := owed_cons stage rest accrual key
    have honce := h.once accrual key
    rw [timesApplied_append, appliedEvents, timesApplied_stage]
    by_cases hpos : 0 < owed (stage :: rest) accrual key
    · have := (hw.stage_le accrual key hpos).2
      omega
    · omega
  kept accrual key value haccrues hasks := by
    have hcons := owed_cons stage rest accrual key
    rcases accrues_append.mp haccrues with hold | ⟨body, earlier, hmem, -⟩
    · rcases h.kept accrual key value hold hasks with hpending | hones | hover | hcancel
      · exact .inl hpending
      · refine .inr (.inl ?_)
        rw [timesApplied_append, appliedEvents, timesApplied_stage]
        by_cases hpos : 0 < owed (stage :: rest) accrual key
        · have := (hw.stage_le accrual key hpos).2
          omega
        · omega
      · exact .inr (.inr (.inl hover.append))
      · exact .inr (.inr (.inr hcancel.append))
    · obtain ⟨_, _, heq⟩ := appliedEvents_applied hmem
      cases heq
  cycled before after completed hsplit := by
    have hevents : ∀ metadata, .completed metadata ∉ appliedEvents stage := by
      intro metadata hmem
      obtain ⟨_, _, heq⟩ := appliedEvents_applied hmem
      cases heq
    obtain ⟨after', hhistory⟩ := completed_append hevents hsplit
    exact h.cycled before after' completed hhistory
  fewApplies := h.fewApplies
  untouched hzero := by
    have hopen : w.openApplies = 0 := hzero
    rw [hw.openApplies] at hopen
    cases hopen
  queued := h.queued
  waiting task hmem happly := absurd happly (List.countP_eq_zero.mp hw.queue task hmem)

theorem Working.command {stage : Stage} (hw : Working w metadata (stage :: rest)) :
    Working { w with history := w.history ++ appliedEvents stage } metadata rest where
  openApplies := hw.openApplies
  queue := hw.queue
  carried := ⟨hw.carried.nodup, hw.carried.pending, hw.carried.bound⟩
  suffix := (List.suffix_cons stage rest).trans hw.suffix
  owes accrual key value hget := by
    have howes := hw.owes accrual key value hget
    rw [owed_cons] at howes
    rw [timesApplied_append, appliedEvents, timesApplied_stage]
    omega

theorem Sound.complete (h : Sound w) (hw : Working w metadata []) :
    Sound { w with pending := [], history := w.history ++ [.completed metadata] } where
  nodup := List.nodup_nil
  accrued _ _ _ hget := nomatch hget
  bound accrual body earlier hmem := by
    rcases List.mem_append.mp hmem with hold | hnew
    · exact h.bound accrual body earlier hold
    · cases List.mem_singleton.mp hnew
  fresh accrual key hle := by
    rw [timesApplied_append]
    exact h.fresh accrual key hle
  once accrual key := by
    rw [timesApplied_append]
    exact h.once accrual key
  kept accrual key value haccrues hasks := by
    rw [timesApplied_append]
    rcases accrues_append.mp haccrues with hold | ⟨body, earlier, hmem, -⟩
    · rcases h.kept accrual key value hold hasks with hpending | hones | hover | hcancel
      · rcases hw.carried.pending with hsame | hempty
        · rw [hsame] at hpending
          have howes := hw.owes accrual key value hpending
          rw [owed_stages_asks hw.carried.nodup hpending hasks] at howes
          exact .inr (.inl howes)
        · rw [hempty] at hpending
          cases hpending
      · exact .inr (.inl hones)
      · exact .inr (.inr (.inl hover.append))
      · exact .inr (.inr (.inr hcancel.append))
    · cases List.mem_singleton.mp hmem
  cycled _ _ _ _ _ _ _ _ _ hget := nomatch hget
  fewApplies := h.fewApplies
  untouched _ _ _ _ hget := nomatch hget
  queued := h.queued
  waiting task hmem happly := absurd happly (List.countP_eq_zero.mp hw.queue task hmem)

/-- An apply may end where nothing that is still pending has been applied. -/
theorem Sound.endApply (h : Sound w) (hqueue : w.queue.countP (·.applyPending) = 0)
    (huntouched : Untouched w w.pending) :
    Sound { w with openApplies := w.openApplies - 1 } where
  nodup := h.nodup
  accrued := h.accrued
  bound := h.bound
  fresh := h.fresh
  once := h.once
  kept := h.kept
  cycled := h.cycled
  fewApplies := (Nat.sub_le _ _).trans h.fewApplies
  untouched _ := huntouched
  queued := by
    change w.queue.countP _ ≤ _
    omega
  waiting task hmem happly := absurd happly (List.countP_eq_zero.mp hqueue task hmem)

/-- An apply that has all its stages still to run has touched nothing. -/
theorem Working.untouched (hw : Working w metadata (stages metadata)) : Untouched w w.pending := by
  intro accrual key value hget
  rcases hw.carried.pending with hsame | hempty
  · rw [hsame] at hget
    have := hw.owes accrual key value hget
    omega
  · rw [hempty] at hget
    cases hget

end Moves

/-! ## Every interleaving -/

def Pc.body? : Pc → Option Document
  | .systemStatus body => some body
  | .findForMerge body => some body
  | .saveMerge body _ => some body
  | _ => none

/-- The stages that an executor at `pc`, with the answer it has received there, has still to run. -/
def remaining : Pc → Option Ans → List Stage
  | .zadmShow task, _ => stages task.metadata
  | .command _ _ rest, some (.success true) => rest
  | .command task _ _, some _ => stages task.metadata
  | .command _ stage rest, none => stage :: rest
  | .findForSync _ _ rest, _ => rest.getD []
  | .saveSync _ _ _ rest, _ => rest.getD []
  | _, _ => []

/-- The answers that the calls of an executor give. -/
def Pc.Answers : Pc → Ans → Prop
  | .zadmShow _, .done => True
  | .command _ _ _, .success _ => True
  | .findForSync _ _ _, .row _ => True
  | .saveSync _ _ _ _, .done => True
  | .findForDone _, .row _ => True
  | .saveDone _, .done => True
  | _, _ => False

/-- What a save writes, or a new apply carries, as it has been read. -/
def Pc.read? : Pc → Option Pending
  | .saveMerge _ read => some read
  | .saveSync _ read _ _ => some read
  | .createApply read => some read
  | _ => none

/-- The condition on the steps of a run. -/
structure Clean (s : PendingState) (l : PendingLabel) : Prop where
  /-- Nothing was saved between a read of the pending set and what is made of it. -/
  serial : ∀ pid c p read, l = .serve pid c → s.procs.get pid = some p →
    p.pc.read? = some read → read = s.world.pending
  /-- Nothing accrues, and no apply is queued, while an apply is open. -/
  alone : ∀ pid c p, l = .serve pid c → s.procs.get pid = some p →
    (∃ body read, p.pc = .saveMerge body read) ∨ (∃ read, p.pc = .createApply read) →
    s.world.openApplies = 0
  /-- A command of an apply takes effect and succeeds, or is the first one and takes none. -/
  whole : ∀ pid took success p task stage rest, l = .serve pid (.command took success) →
    s.procs.get pid = some p → p.pc = .command task stage rest → task.applyPending →
    (took = true ∧ success = true) ∨ (took = false ∧ stage :: rest = stages task.metadata)
  /-- Otherwise an apply fails only where it reads the configuration. -/
  fails : ∀ pid p task, l = .resume pid → s.procs.get pid = some p → p.phase.seen = none →
    p.pc.task? = some task → task.applyPending → p.pc = .zadmShow task

structure Here (w : Machine) (x : Point Pc Ans) : Prop where
  body : ∀ body, x.1.body? = some body → body.keys.Nodup
  working : ∀ task, x.1.task? = some task → task.applyPending →
    Working w task.metadata (remaining x.1 x.2)
  answers : ∀ task a, x.1.task? = some task → x.2 = some a → x.1.Answers a
  clears : ∀ task, x.1 = .findForDone task ∨ x.1 = .saveDone task → task.applyPending
  cleared : ∀ task a, x.1 = .saveDone task → x.2 = some a → w.pending = []

/-- Two executors do not both run an apply. -/
def Apart (x y : Point Pc Ans) : Prop :=
  ∀ task task', x.1.task? = some task → y.1.task? = some task' →
    ¬(task.applyPending ∧ task'.applyPending)

section Points
variable {w w' : Machine} {x : Point Pc Ans}

theorem Here.frame (h : Here w x) (hf : Frame w w') : Here w' x where
  body := h.body
  working task htask happly := (h.working task htask happly).frame hf
  answers := h.answers
  clears := h.clears
  cleared task a hpc ha := by
    rcases hf.pending with hsame | hempty
    · exact hsame.trans (h.cleared task a hpc ha)
    · exact hempty

/-- An activation that runs no apply depends on nothing in the world. -/
theorem Here.foreign (h : Here w x)
    (hno : ∀ task, x.1.task? = some task → ¬task.applyPending) : Here w' x where
  body := h.body
  working task htask happly := absurd happly (hno task htask)
  answers := h.answers
  clears := h.clears
  cleared task a hpc ha := by
    have htask : x.1.task? = some task := by rw [hpc]; rfl
    exact absurd (h.clears task (.inr hpc)) (hno task htask)

theorem Here.idle (h : Here w x) (hopen : w.openApplies = 0) : Here w' x := by
  refine h.foreign fun task htask happly => ?_
  have := (h.working task htask happly).openApplies
  omega

/-- A request depends on its body only. -/
theorem here_request {pc : Pc} {ans : Option Ans} (htask : pc.task? = none)
    (hbody : ∀ body, pc.body? = some body → body.keys.Nodup) : Here w (pc, ans) where
  body := hbody
  working task hsome := by
    rw [show pc.task? = some task from hsome] at htask
    cases htask
  answers task a hsome := by
    rw [show pc.task? = some task from hsome] at htask
    cases htask
  clears task hpc := by
    rcases hpc with hpc | hpc <;> rw [show pc = _ from hpc] at htask <;> cases htask
  cleared task a hpc := by
    rw [show pc = .saveDone task from hpc] at htask
    cases htask

theorem Here.request {pc : Pc} {ans : Option Ans} (h : Here w (pc, none)) (htask : pc.task? = none) :
    Here w' (pc, ans) :=
  here_request htask h.body

/-- An executor receives an answer that tells it nothing about the world. -/
theorem Here.answered {pc : Pc} {a : Ans} (h : Here w (pc, none)) (hanswers : pc.Answers a)
    (hremaining : remaining pc (some a) = remaining pc none) (hpc : ∀ task, pc ≠ .saveDone task) :
    Here w (pc, some a) where
  body := h.body
  working task htask happly := by
    change Working w task.metadata (remaining pc (some a))
    rw [hremaining]
    exact h.working task htask happly
  answers task a' _ ha := by
    cases ha
    exact hanswers
  clears := h.clears
  cleared task _ heq := absurd heq (hpc task)

theorem Frame.refl (w : Machine) : Frame w w :=
  ⟨rfl, fun _ h _ => h, .inl rfl, rfl, fun _ _ => rfl⟩

/-- What one answered call does to the world, to its activation and to the others. -/
theorem serve_respects {pc : Pc} {c : Choice} {a : Ans} (h : Sound w) (hx : Here w (pc, none))
    (hserial : ∀ read, pc.read? = some read → read = w.pending)
    (halone : (∃ body read, pc = .saveMerge body read) ∨ (∃ read, pc = .createApply read) →
      w.openApplies = 0)
    (hwhole : ∀ took success task stage rest, c = .command took success →
      pc = .command task stage rest → task.applyPending →
      (took = true ∧ success = true) ∨ (took = false ∧ stage :: rest = stages task.metadata))
    (hserve : serve w pc c = some (a, w')) :
    Sound w' ∧ Here w' (pc, some a) ∧ ∀ y, Here w y → Apart (pc, none) y → Here w' y := by
  have hstay : ∀ {pc : Pc} {a : Ans}, Here w (pc, some a) →
      Sound w ∧ Here w (pc, some a) ∧ ∀ y, Here w y → Apart (pc, none) y → Here w y :=
    fun hx => ⟨h, hx, fun _ hy _ => hy⟩
  unfold serve at hserve
  split at hserve
  case h_1 => cases hserve; exact hstay (hx.request rfl)
  case h_2 => cases hserve; exact hstay (hx.request rfl)
  case h_3 body read =>
    cases hserve
    have hopen := halone (.inl ⟨body, read, rfl⟩)
    obtain rfl := hserial read rfl
    exact ⟨h.merge hopen (hx.body body rfl), hx.request rfl, fun _ hy _ => hy.idle hopen⟩
  case h_4 body =>
    cases hserve
    have hframe : Frame w { w with queue := w.queue ++ [⟨accrue 0 body, false⟩] } := by
      refine ⟨rfl, fun task hmem happly => ?_, .inl rfl, rfl, fun _ _ => rfl⟩
      rcases List.mem_append.mp hmem with hold | hnew
      · exact hold
      · rw [List.mem_singleton.mp hnew] at happly
        cases happly
    refine ⟨h.withQueue hframe.queue ?_, hx.request rfl, fun _ hy _ => hy.frame hframe⟩
    simp [List.countP_append]
  case h_5 => cases hserve; exact hstay (hx.request rfl)
  case h_6 =>
    cases hserve
    have hframe : Frame w { w with
        pending := [], history := w.history ++ [.cancelled w.pending] } := by
      refine ⟨rfl, fun _ hmem _ => hmem, .inr rfl, rfl, fun accrual key => ?_⟩
      rw [timesApplied_append]
      rfl
    exact ⟨h.cancel, hx.request rfl, fun _ hy _ => hy.frame hframe⟩
  case h_7 => cases hserve; exact hstay (hx.request rfl)
  case h_8 => cases hserve; exact hstay (hx.request rfl)
  case h_9 read =>
    cases hserve
    have hopen := halone (.inr ⟨read, rfl⟩)
    obtain rfl := hserial read rfl
    exact ⟨h.createApply hopen, hx.request rfl, fun _ hy _ => hy.idle hopen⟩
  case h_10 => cases hserve; exact hstay (hx.answered trivial rfl (by simp))
  case h_11 task stage rest took success =>
    by_cases happly : task.applyPending
    · have hworking := hx.working task rfl happly
      have hothers : ∀ (w' : Machine) y, Here w y → Apart (.command task stage rest, none) y →
          Here w' y :=
        fun w' y hy hapart => hy.foreign fun task' htask' happly' =>
          hapart task task' rfl htask' ⟨happly, happly'⟩
      rcases hwhole took success task stage rest rfl rfl happly with ⟨rfl, rfl⟩ | ⟨rfl, hfirst⟩
      · simp only [happly, Bool.and_self, if_true, Option.some.injEq, Prod.mk.injEq] at hserve
        obtain ⟨rfl, rfl⟩ := hserve
        refine ⟨h.command hworking, ⟨hx.body, ?_, fun _ _ _ ha => by cases ha; trivial, hx.clears,
          fun _ _ heq => by cases heq⟩, hothers _⟩
        rintro task' ⟨⟩ _
        exact hworking.command
      · simp only [Bool.false_and, Bool.false_eq_true, if_false, List.append_nil,
          Option.some.injEq, Prod.mk.injEq] at hserve
        obtain ⟨rfl, rfl⟩ := hserve
        exact hstay (hx.answered trivial hfirst.symm (by simp))
    · simp only [happly, Bool.and_false, Bool.false_eq_true, if_false, List.append_nil,
        Option.some.injEq, Prod.mk.injEq] at hserve
      obtain ⟨rfl, rfl⟩ := hserve
      refine hstay ⟨hx.body, ?_, fun _ _ _ ha => by cases ha; trivial, hx.clears,
        fun _ _ heq => by cases heq⟩
      rintro task' ⟨⟩ happly'
      exact absurd happly' happly
  case h_12 => cases hserve; exact hstay (hx.answered trivial rfl (by simp))
  case h_13 task read saves rest =>
    cases hserve
    obtain rfl := hserial read rfl
    exact hstay (hx.answered trivial rfl (by simp))
  case h_14 => cases hserve; exact hstay (hx.answered trivial rfl (by simp))
  case h_15 task =>
    cases hserve
    have happly := hx.clears task (.inr rfl)
    have hworking := hx.working task rfl happly
    have hframe : Frame w { w with
        pending := [], history := w.history ++ [.completed task.metadata] } := by
      refine ⟨rfl, fun _ hmem _ => hmem, .inr rfl, rfl, fun accrual key => ?_⟩
      rw [timesApplied_append]
      rfl
    refine ⟨h.complete hworking, ⟨hx.body, ?_, ?_, hx.clears, fun _ _ _ _ => rfl⟩,
      fun _ hy _ => hy.frame hframe⟩
    · rintro task' ⟨⟩ _
      exact hworking.frame hframe
    · rintro _ _ _ ⟨⟩
      trivial
  case h_16 => cases hserve

/-- What a stretch from `pc` to `m.2` establishes, at its end and for every other activation. -/
structure Resumed (w : Machine) (pc : Pc) (m : Machine × Next Pc) : Prop where
  sound : Sound m.1
  here : ∀ pc' ∈ m.2.points, Here m.1 (pc', none)
  task : ∀ pc' ∈ m.2.points, pc'.task? = none ∨ pc'.task? = pc.task?
  single : m.2.points.length ≤ 1
  others : ∀ y, Here w y → Apart (pc, none) y → Here m.1 y

theorem resumed_finish (h : Sound w) (pc : Pc) (threw : Bool) :
    Resumed w pc (w, .finish threw) :=
  ⟨h, by simp [Next.points], by simp [Next.points], by simp [Next.points], fun _ hy _ => hy⟩

theorem resumed_await {pc pc' : Pc} (h : Sound w) (hx : Here w (pc', none))
    (htask : pc'.task? = none ∨ pc'.task? = pc.task?) : Resumed w pc (w, .await pc') where
  sound := h
  here pc'' hmem := by
    rw [List.mem_singleton.mp hmem]
    exact hx
  task pc'' hmem := by
    rw [List.mem_singleton.mp hmem]
    exact htask
  single := le_rfl
  others _ hy _ := hy

theorem resumed_endTask {pc : Pc} {task : ModifyTask} (h : Sound w) (htask : pc.task? = some task)
    (hend : task.applyPending → w.queue.countP (·.applyPending) = 0 ∧ Untouched w w.pending)
    (threw : Bool) : Resumed w pc (endTask w task threw) := by
  unfold endTask
  by_cases happly : task.applyPending
  · obtain ⟨hqueue, huntouched⟩ := hend happly
    rw [if_pos happly]
    refine ⟨h.endApply hqueue huntouched, by simp [Next.points], by simp [Next.points],
      by simp [Next.points], fun y hy hapart => hy.foreign fun task' htask' happly' => ?_⟩
    exact hapart task task' htask htask' ⟨happly, happly'⟩
  · rw [if_neg happly]
    exact resumed_finish h pc threw

/-- An executor arrives at a call, with the stages it has still to run. -/
theorem here_executor {pc : Pc} {task : ModifyTask} (htask : pc.task? = some task)
    (hworking : task.applyPending → Working w task.metadata (remaining pc none))
    (hclears : ∀ task', pc = .findForDone task' ∨ pc = .saveDone task' → task.applyPending)
    (hbody : pc.body? = none) : Here w (pc, none) where
  body body hsome := by
    rw [show pc.body? = some body from hsome] at hbody
    cases hbody
  working task' htask' happly := by
    cases htask.symm.trans htask'
    exact hworking happly
  answers _ _ _ ha := by cases ha
  clears task' hpc := by
    have happly := hclears task' hpc
    have htask' : pc.task? = some task' := by
      rcases hpc with hpc | hpc <;> rw [show pc = _ from hpc] <;> rfl
    cases htask.symm.trans htask'
    exact happly
  cleared _ _ _ ha := by cases ha

theorem resumed_proceed {pc : Pc} {task : ModifyTask} (h : Sound w) (htask : pc.task? = some task)
    (rest : Option (List Stage))
    (hworking : task.applyPending → Working w task.metadata (rest.getD [])) :
    Resumed w pc (proceed w task rest) := by
  unfold proceed
  split
  · refine resumed_await h (here_executor rfl hworking ?_ rfl) (.inr htask.symm)
    simp
  · refine resumed_await h (here_executor rfl hworking ?_ rfl) (.inr htask.symm)
    simp
  · by_cases happly : task.applyPending
    · rw [if_pos happly]
      exact resumed_await h (here_executor rfl hworking (fun _ _ => happly) rfl) (.inr htask.symm)
    · rw [if_neg happly]
      exact resumed_endTask h htask (fun hyes => absurd hyes happly) false

theorem resume_respects {pc : Pc} {r : Reply Ans} (h : Sound w)
    (hx : Here w (pc, (Phase.ready r).seen))
    (hfails : (Phase.ready r).seen = none → ∀ task, pc.task? = some task → task.applyPending →
      pc = .zadmShow task) : Resumed w pc (resume w pc r) := by
  unfold resume
  split
  case h_1 body => exact resumed_await h (here_request rfl nofun) (.inl rfl)
  case h_2 body => exact resumed_await h (here_request rfl hx.body) (.inl rfl)
  case h_3 body read => exact resumed_await h (here_request rfl hx.body) (.inl rfl)
  case h_4 => exact resumed_finish h _ _
  case h_5 => exact resumed_finish h _ _
  case h_6 => exact resumed_await h (here_request rfl nofun) (.inl rfl)
  case h_7 => exact resumed_finish h _ _
  case h_8 => exact resumed_await h (here_request rfl nofun) (.inl rfl)
  case h_9 read answer =>
    split
    · exact resumed_await h (here_request rfl nofun) (.inl rfl)
    · exact resumed_finish h _ _
  case h_10 => exact resumed_finish h _ _
  case h_11 task => exact resumed_proceed h rfl _ (hx.working task rfl)
  case h_12 task stage rest =>
    exact resumed_await h (here_executor rfl (hx.working task rfl) nofun rfl) (.inr rfl)
  case h_13 task saves rest read =>
    exact resumed_await h (here_executor rfl (hx.working task rfl) nofun rfl) (.inr rfl)
  case h_14 task read saves rest =>
    split
    · exact resumed_proceed h rfl rest (hx.working task rfl)
    · exact resumed_await h (here_executor rfl (hx.working task rfl) nofun rfl) (.inr rfl)
  case h_15 task _ =>
    have happly := hx.clears task (.inl rfl)
    exact resumed_await h (here_executor rfl (hx.working task rfl) (fun _ _ => happly) rfl)
      (.inr rfl)
  case h_16 task =>
    refine resumed_endTask h rfl (fun happly => ?_) false
    have hempty := hx.cleared task .done rfl rfl
    refine ⟨(hx.working task rfl happly).queue, fun accrual key value hget => ?_⟩
    rw [hempty] at hget
    cases hget
  case h_17 hzadm hcommand hsync hsave hfind hdone =>
    split
    case h_1 task htask =>
      refine resumed_endTask h htask (fun happly => ?_) true
      have hworking := hx.working task htask happly
      refine ⟨hworking.queue, ?_⟩
      -- only a first command without effect, or the read of the configuration, ends an apply early
      have hall : remaining pc (Phase.ready r).seen = stages task.metadata := by
        cases hseen : (Phase.ready r).seen with
        | none => rw [hfails hseen task htask happly]; rfl
        | some a =>
          have hanswers := hx.answers task a htask hseen
          obtain rfl : r = .answer a := by
            cases r <;> cases hseen
            rfl
          cases pc <;> rcases a with _ | _ | _ | ⟨_ | _⟩ | _ <;>
            simp only [Pc.Answers] at hanswers
          · exact (hzadm _ rfl rfl).elim
          · cases htask
            rfl
          · exact (hcommand _ _ _ rfl rfl).elim
          · exact (hsync _ _ _ _ rfl rfl).elim
          · exact (hsave _ _ _ _ rfl rfl).elim
          · exact (hfind _ _ rfl rfl).elim
          · exact (hdone _ rfl rfl).elim
      exact (hall ▸ hworking).untouched
    case h_2 => exact resumed_finish h _ _

theorem countP_eraseIdx {queue : List ModifyTask} {index : ℕ} {task : ModifyTask}
    (h : queue[index]? = some task) : (queue.eraseIdx index).countP (·.applyPending) +
      (if task.applyPending then 1 else 0) = queue.countP (·.applyPending) := by
  induction queue generalizing index with
  | nil => simp at h
  | cons head rest ih =>
    cases index with
    | zero =>
      cases h
      rw [List.countP_cons]
      rfl
    | succ index =>
      have := ih (by simpa using h)
      rw [List.eraseIdx_cons_succ, List.countP_cons, List.countP_cons]
      omega

theorem enter_respects {e : Entry} {m : Machine × Next Pc} (h : Sound w)
    (henter : enter w e = some m) : Sound m.1 ∧ (∀ pc' ∈ m.2.points, Here m.1 (pc', none)) ∧
      m.2.points.length ≤ 1 ∧ (∀ y, Here w y → Here m.1 y) ∧
      ∀ pc' ∈ m.2.points, ∀ y, Here w y → Apart (pc', none) y := by
  have hqueue : ∀ {index task}, w.queue[index]? = some task →
      Sound { w with queue := w.queue.eraseIdx index } := by
    intro index task htask
    refine h.withQueue (fun _ hmem _ => List.mem_of_mem_eraseIdx hmem) ?_
    have := countP_eraseIdx htask
    omega
  -- an apply that waits is the only one that is open
  have hsingle : ∀ {index task}, w.queue[index]? = some task → task.applyPending →
      w.openApplies = 1 ∧ (w.queue.eraseIdx index).countP (·.applyPending) = 0 ∧
        ∀ y, Here w y → ∀ task', y.1.task? = some task' → ¬task'.applyPending := by
    intro index task htask happly
    have hcount := countP_eraseIdx htask
    rw [if_pos happly] at hcount
    have hqueued := h.queued
    have hfew := h.fewApplies
    refine ⟨by omega, by omega, fun y hy task' htask' happly' => ?_⟩
    have := (hy.working task' htask' happly').queue
    omega
  have hrequest : ∀ {pc : Pc}, pc.task? = none → (∀ body, pc.body? = some body → body.keys.Nodup) →
      Sound w ∧ (∀ pc' ∈ (Next.await pc).points, Here w (pc', none)) ∧
        (Next.await pc).points.length ≤ 1 ∧ (∀ y, Here w y → Here w y) ∧
        ∀ pc' ∈ (Next.await pc).points, ∀ y, Here w y → Apart (pc', none) y := by
    intro pc htask hbody
    refine ⟨h, fun pc' hmem => ?_, le_rfl, fun _ hy => hy, fun pc' hmem y _ task _ hsome => ?_⟩
    · rw [List.mem_singleton.mp hmem]
      exact here_request htask hbody
    · rw [List.mem_singleton.mp hmem] at hsome
      rw [show pc.task? = some task from hsome] at htask
      cases htask
  cases e with
  | modify body =>
    simp only [enter] at henter
    split at henter
    · rename_i hnodup
      cases henter
      by_cases hempty : body.isEmpty
      · rw [if_pos hempty]
        exact hrequest rfl nofun
      · rw [if_neg hempty]
        refine hrequest rfl ?_
        rintro _ ⟨⟩
        exact hnodup
    · cases henter
  | cancel =>
    cases henter
    exact hrequest rfl nofun
  | power =>
    cases henter
    exact hrequest rfl nofun
  | dispatch index =>
    obtain ⟨task, htask, rfl⟩ := Option.map_eq_some_iff.mp henter
    have hframe : Frame w { w with queue := w.queue.eraseIdx index } :=
      ⟨rfl, fun _ hmem _ => List.mem_of_mem_eraseIdx hmem, .inl rfl, rfl, fun _ _ => rfl⟩
    refine ⟨hqueue htask, fun pc' hmem => ?_, le_rfl, fun _ hy => hy.frame hframe,
      fun pc' hmem y hy task₁ task₂ h₁ h₂ => ?_⟩
    · rw [List.mem_singleton.mp hmem]
      refine here_executor rfl (fun happly => ?_) nofun rfl
      obtain ⟨hopen, hrest, -⟩ := hsingle htask happly
      obtain ⟨hcarried, huntouched⟩ := h.waiting task (List.mem_of_getElem? htask) happly
      refine ⟨hopen, hrest, hcarried.frame hframe, List.suffix_refl _, ?_⟩
      intro accrual key value hget
      change timesApplied w.history accrual key + owed (stages task.metadata) accrual key = _
      rw [huntouched accrual key value hget, Nat.zero_add]
    · rw [List.mem_singleton.mp hmem] at h₁
      cases h₁
      exact fun hboth => (hsingle htask hboth.1).2.2 y hy task₂ h₂ hboth.2
  | drop index =>
    obtain ⟨task, htask, rfl⟩ := Option.map_eq_some_iff.mp henter
    unfold endTask
    by_cases happly : task.applyPending
    · obtain ⟨hopen, hrest, hnone⟩ := hsingle htask happly
      obtain ⟨hcarried, huntouched⟩ := h.waiting task (List.mem_of_getElem? htask) happly
      rw [if_pos happly]
      refine ⟨(hqueue htask).endApply hrest ?_, by simp [Next.points], by simp [Next.points],
        fun y hy => hy.foreign (hnone y hy), by simp [Next.points]⟩
      intro accrual key value hget
      rcases hcarried.pending with hsame | hempty
      · rw [show w.pending = _ from hsame] at hget
        exact huntouched accrual key value hget
      · rw [show w.pending = [] from hempty] at hget
        cases hget
    · have hframe : Frame w { w with queue := w.queue.eraseIdx index } :=
        ⟨rfl, fun _ hmem _ => List.mem_of_mem_eraseIdx hmem, .inl rfl, rfl, fun _ _ => rfl⟩
      rw [if_neg happly]
      exact ⟨hqueue htask, by simp [Next.points], by simp [Next.points],
        fun _ hy => hy.frame hframe, by simp [Next.points]⟩

end Points

theorem pending_coherent : Coherent pendingProgram Clean Sound Here Apart where
  symm _ _ h task task' htask htask' hboth := h task' task htask' htask hboth.symm
  serve s pid c p a w hi hp hseen hok hserve := by
    have hpoint : p.point = (p.pc, none) := by rw [Activation.point, hseen]
    have hx : Here s.world (p.pc, none) := hpoint ▸ hi.here pid p hp
    obtain ⟨hsound, hhere, hothers⟩ := serve_respects hi.world hx
      (fun read => hok.serial pid c p read rfl hp) (fun hpc => hok.alone pid c p rfl hp hpc)
      (fun took success task stage rest hc hpc =>
        hok.whole pid took success p task stage rest (by rw [hc]) hp hpc) hserve
    refine ⟨hsound, fun x hx => ?_, List.pairwise_singleton _ _, fun q p' hq hp' => ?_⟩
    · rw [List.mem_singleton.mp hx]
      exact hhere
    · have hapart := hi.apart pid q p p' (Ne.symm hq) hp hp'
      refine ⟨hothers _ (hi.here q p' hp') (by rwa [hpoint] at hapart), fun x hx => ?_⟩
      rw [List.mem_singleton.mp hx]
      exact hapart
  resume s pid p r w nx hi hp hphase hok hres := by
    have hpoint : p.point = (p.pc, (Phase.ready r).seen) := by rw [Activation.point, hphase]
    have hx : Here s.world (p.pc, (Phase.ready r).seen) := hpoint ▸ hi.here pid p hp
    have hresumed := resume_respects hi.world hx fun hseen task htask happly =>
      hok.fails pid p task rfl hp (by rw [hphase]; exact hseen) htask happly
    rw [show resume s.world p.pc r = (w, nx) from hres] at hresumed
    refine ⟨hresumed.sound, fun x hx => ?_, ?_, fun q p' hq hp' => ?_⟩
    · obtain ⟨pc', hpc', rfl⟩ := List.mem_map.mp hx
      exact hresumed.here pc' hpc'
    · have hsingle := hresumed.single
      rcases hpoints : nx.points with _ | ⟨_, _ | ⟨_, _⟩⟩
      · exact .nil
      · exact List.pairwise_singleton _ _
      · simp [hpoints] at hsingle
    · have hapart := hi.apart pid q p p' (Ne.symm hq) hp hp'
      refine ⟨hresumed.others _ (hi.here q p' hp') hapart, fun x hx => ?_⟩
      obtain ⟨pc', hpc', rfl⟩ := List.mem_map.mp hx
      intro task task' htask htask'
      rcases hresumed.task pc' hpc' with hnone | hsame
      · rw [show pc'.task? = some task from htask] at hnone
        cases hnone
      · exact hapart task task' (hsame.symm.trans htask) htask'
  enter s e w nx hi hok henter := by
    obtain ⟨hsound, hhere, hsingle, hothers, hapart⟩ := enter_respects hi.world henter
    refine ⟨hsound, fun x hx => ?_, ?_, fun q p' hq hp' => ?_⟩
    · obtain ⟨pc', hpc', rfl⟩ := List.mem_map.mp hx
      exact hhere pc' hpc'
    · rcases hpoints : nx.points with _ | ⟨_, _ | ⟨_, _⟩⟩
      · exact .nil
      · exact List.pairwise_singleton _ _
      · simp [hpoints] at hsingle
    · refine ⟨hothers _ (hi.here q p' hp'), fun x hx => ?_⟩
      obtain ⟨pc', hpc', rfl⟩ := List.mem_map.mp hx
      exact hapart pc' hpc' _ (hi.here q p' hp')

theorem sound_boot : Sound (boot : PendingState).world where
  nodup := List.nodup_nil
  accrued _ _ _ h := nomatch h
  bound _ _ _ h := nomatch h
  fresh _ _ _ := rfl
  once _ _ := Nat.zero_le _
  kept _ _ _ h := by
    obtain ⟨_, _, hmem, -⟩ := h
    cases hmem
  cycled _ _ _ _ _ _ _ _ _ h := nomatch h
  fewApplies := Nat.zero_le _
  untouched _ _ _ _ h := nomatch h
  queued := le_rfl
  waiting _ h := nomatch h

theorem pending_inv {s : PendingState} (h : Reaches (step pendingProgram) Clean boot s) :
    Inv Sound Here Apart s :=
  pending_coherent.reaches (.start sound_boot) h

/-! ## Every open apply is queued or running -/

/-- An apply is open that does not wait in the queue; there is one such debt at most. -/
def Unqueued (w : Machine) (_ : Unit) : Prop :=
  w.openApplies ≠ 0 ∧ w.queue.countP (·.applyPending) = 0

def Runs (x : Point Pc Ans) (_ : Unit) : Prop :=
  ∃ task, x.1.task? = some task ∧ task.applyPending

section Debts
variable {w w' : Machine} {pc : Pc}

theorem serve_unqueued {c : Choice} {a : Ans} (h : serve w pc c = some (a, w'))
    (hdebt : Unqueued w' ()) : Unqueued w () := by
  unfold serve at h
  split at h <;> cases h <;> first
    | exact hdebt
    | exact ⟨hdebt.1, by simpa [List.countP_append] using hdebt.2⟩
    | exact absurd hdebt.2 (by simp [List.countP_append])

theorem endTask_unqueued {task : ModifyTask} {threw : Bool} (hfew : w.openApplies ≤ 1)
    (hdebt : Unqueued (endTask w task threw).1 ()) :
    task.applyPending = false ∧ Unqueued w () := by
  unfold endTask at hdebt
  by_cases happly : task.applyPending
  · rw [if_pos happly] at hdebt
    have hopen : w.openApplies - 1 ≠ 0 := hdebt.1
    omega
  · rw [if_neg happly] at hdebt
    exact ⟨by simpa using happly, hdebt⟩

/-- The stretch leaves the debt to an activation of the same task. -/
def Hands (w : Machine) (pc : Pc) (m : Machine × Next Pc) : Prop :=
  Unqueued m.1 () → Unqueued w () ∧ ∀ task, pc.task? = some task → task.applyPending →
    ∃ pc' ∈ m.2.points, pc'.task? = some task

theorem hands_request (nx : Next Pc) (htask : pc.task? = none) : Hands w pc (w, nx) := by
  refine fun hdebt => ⟨hdebt, fun task hsome => ?_⟩
  rw [htask] at hsome
  cases hsome

theorem hands_await {pc' : Pc} (htask : pc'.task? = pc.task?) : Hands w pc (w, .await pc') :=
  fun hdebt => ⟨hdebt, fun _ hsome _ => ⟨pc', List.mem_singleton_self _, htask.trans hsome⟩⟩

theorem hands_endTask {task : ModifyTask} {threw : Bool} (hfew : w.openApplies ≤ 1)
    (htask : pc.task? = some task) : Hands w pc (endTask w task threw) := by
  intro hdebt
  obtain ⟨hno, hdebt⟩ := endTask_unqueued hfew hdebt
  refine ⟨hdebt, fun task' hsome happly => ?_⟩
  cases htask.symm.trans hsome
  rw [hno] at happly
  cases happly

theorem hands_proceed {task : ModifyTask} (hfew : w.openApplies ≤ 1)
    (htask : pc.task? = some task) (rest : Option (List Stage)) :
    Hands w pc (proceed w task rest) := by
  unfold proceed
  split
  · exact hands_await htask.symm
  · exact hands_await htask.symm
  · split
    · exact hands_await htask.symm
    · exact hands_endTask hfew htask

theorem resume_hands (hfew : w.openApplies ≤ 1) (r : Reply Ans) : Hands w pc (resume w pc r) := by
  unfold resume
  split
  case h_11 task => exact hands_proceed hfew rfl _
  case h_12 => exact hands_await rfl
  case h_13 => exact hands_await rfl
  case h_14 task read saves rest =>
    split
    · exact hands_proceed hfew rfl rest
    · exact hands_await rfl
  case h_15 => exact hands_await rfl
  case h_16 => exact hands_endTask hfew rfl
  case h_17 =>
    split
    case h_1 task htask => exact hands_endTask hfew htask
    case h_2 htask => exact hands_request _ htask
  all_goals exact hands_request _ rfl

theorem enter_unqueued {e : Entry} {m : Machine × Next Pc} (hfew : w.openApplies ≤ 1)
    (h : enter w e = some m) (hdebt : Unqueued m.1 ()) :
    Unqueued w () ∨ ∃ pc' ∈ m.2.points, Runs (pc', none) () := by
  cases e with
  | modify body =>
    simp only [enter] at h
    split at h <;> cases h
    exact .inl hdebt
  | cancel =>
    cases h
    exact .inl hdebt
  | power =>
    cases h
    exact .inl hdebt
  | dispatch index =>
    obtain ⟨task, htask, rfl⟩ := Option.map_eq_some_iff.mp h
    have hcount := countP_eraseIdx htask
    by_cases happly : task.applyPending
    · exact .inr ⟨_, List.mem_singleton_self _, task, rfl, happly⟩
    · rw [if_neg happly, Nat.add_zero] at hcount
      exact .inl ⟨hdebt.1, hcount.symm.trans hdebt.2⟩
  | drop index =>
    obtain ⟨task, htask, rfl⟩ := Option.map_eq_some_iff.mp h
    have hcount := countP_eraseIdx htask
    obtain ⟨hno, hopen, hnone⟩ :=
      endTask_unqueued (w := { w with queue := w.queue.eraseIdx index }) hfew hdebt
    rw [hno, if_neg Bool.false_ne_true, Nat.add_zero] at hcount
    exact .inl ⟨hopen, hcount.symm.trans hnone⟩

end Debts

theorem pending_covering : Covering pendingProgram
    (fun s l => Clean s l ∧ Inv Sound Here Apart s) Unqueued Runs where
  serve s pid c p a w hc hp _ _ hserve := by
    refine hc.passes hp (fun _ hdebt => .inl (serve_unqueued hserve hdebt)) ?_
    exact fun _ _ howes => ⟨_, List.mem_singleton_self _, howes⟩
  resume s pid p r w nx hc hp _ hok hres := by
    have hhands : Hands s.world p.pc (resume s.world p.pc r) :=
      resume_hands hok.2.world.fewApplies r
    rw [show resume s.world p.pc r = (w, nx) from hres] at hhands
    refine hc.passes hp (fun _ hdebt => .inl (hhands hdebt).1) ?_
    rintro _ hdebt ⟨task, htask, happly⟩
    obtain ⟨pc', hmem, htask'⟩ := (hhands hdebt).2 task htask happly
    exact ⟨_, List.mem_map_of_mem hmem, task, htask', happly⟩
  enter s e w nx hc hfresh hok henter := by
    intro r hdebt
    rcases enter_unqueued hok.2.world.fewApplies henter hdebt with hold | ⟨pc', hmem, hruns⟩
    · obtain ⟨q, p, hp, howes⟩ := hc () hold
      exact .inl ⟨q, p, (hfresh q p hp).ne, hp, howes⟩
    · exact .inr ⟨_, List.mem_map_of_mem hmem, hruns⟩

theorem openApplies_zero {s : PendingState} (h : Reaches (step pendingProgram) Clean boot s)
    (hquiet : Quiescent s) (hqueue : s.world.queue = []) : s.world.openApplies = 0 := by
  by_contra hopen
  have hboot : Covered Unqueued Runs (boot : PendingState) := fun _ hdebt => absurd rfl hdebt.1
  have hstrong := h.strengthen fun _ hu => pending_inv hu
  have hcovered := pending_covering.reaches hboot
    (fun u hu => (pending_inv (hu.mono fun _ _ hok => hok.1)).fresh) hstrong
  obtain ⟨q, p, hp, -⟩ := hcovered () ⟨hopen, by rw [hqueue]; rfl⟩
  rw [hquiet] at hp
  cases hp

theorem accrued_applied_once {s : PendingState} (h : Reaches (step pendingProgram) Clean boot s)
    (hquiet : Quiescent s) (hqueue : s.world.queue = []) : Contract (fun _ => true) s.world := by
  have hsound := (pending_inv h).world
  have huntouched := hsound.untouched (openApplies_zero h hquiet hqueue)
  refine ⟨hsound.once, ?_, ?_⟩
  · intro accrual key value haccrues hasks hover hcancel
    rcases hsound.kept accrual key value haccrues hasks with hpending | hones | hover' | hcancel'
    · exact .inl ⟨huntouched accrual key value hpending, hpending⟩
    · refine .inr ⟨hones, fun hpending => ?_⟩
      have := huntouched accrual key value hpending
      omega
    · exact absurd hover' hover
    · exact absurd hcancel' hcancel
  · intro before after metadata hhistory accrual key value haccrues hasks hover hcancel
    have hnow : Accrues s.world.history accrual key value := by
      rw [hhistory]
      exact accrues_append.mpr (.inl haccrues)
    rcases hsound.kept accrual key value hnow hasks with hpending | hones | hover' | hcancel'
    · obtain ⟨body, earlier, hmem, -⟩ := haccrues
      exact absurd hmem (hsound.cycled before after metadata hhistory accrual key value body earlier
        hpending)
    · exact hones
    · exact absurd hover' hover
    · exact absurd hcancel' hcancel

/-! ## Two accrued lists -/

section Instances

def addDisk (name : String) : Document := [("add_disks", .arr [.obj [("volume_name", .str name)]])]

/-- A modify request against a machine that is not powered off, as activation `pid`. -/
def accrueLabels (pid : ℕ) (body : Document) : List PendingLabel :=
  [.enter (.modify body), .serve pid (.poweredOff false), .resume pid, .serve pid .answer,
    .resume pid, .serve pid .answer, .resume pid]

/-- A power action and the apply it queues, whose one stage saves the document twice. -/
def powerLabels (pid : ℕ) : List PendingLabel :=
  [.enter .power, .serve pid .answer, .resume pid, .serve pid (.goesOn true), .resume pid,
    .serve pid .answer, .resume pid, .enter (.dispatch 0), .serve (pid + 1) .answer,
    .resume (pid + 1), .serve (pid + 1) (.command true true), .resume (pid + 1)] ++
  (List.replicate 8 [.serve (pid + 1) .answer, .resume (pid + 1)]).flatten

def isList : Json → Bool
  | .arr _ => true
  | _ => false

/-- The second accrued list replaces the first one, which is then neither applied nor pending. -/
theorem accrued_applied_once_fails : ¬∀ s : PendingState,
    Reaches (step pendingProgram) (fun _ _ => True) boot s → Quiescent s → s.world.queue = [] →
      Contract (fun value => !isList value) s.world := by
  intro h
  let P : PendingState → Prop := fun s => s.procs = [] ∧ s.world.queue = [] ∧
    s.world.pending = [] ∧ s.world.history = [.accrued 0 (addDisk "a") [],
      .accrued 1 (addDisk "b") (accrue 0 (addDisk "a")), .applied 1 "add_disks",
      .completed (accrue 1 (addDisk "b"))]
  obtain ⟨s, hs, hquiet, hqueue, hpending, hhistory⟩ := exists_reaches_of_run
    (step pendingProgram) (fun _ _ => True) boot
    (accrueLabels 0 (addDisk "a") ++ accrueLabels 1 (addDisk "b") ++ powerLabels 2) (P := P)
    ⟨_, rfl, rfl, rfl, rfl, rfl⟩
  have hover : ¬Overridden (fun value => !isList value) s.world.history 0 "add_disks" := by
    rintro ⟨accrual, body, earlier, value, value', hmem, hover, hbody, hscalar⟩
    simp only [hhistory, List.mem_cons, List.not_mem_nil, or_false, reduceCtorEq,
      Event.accrued.injEq] at hmem
    rcases hmem with ⟨rfl, rfl, rfl⟩ | ⟨rfl, rfl, rfl⟩
    · cases hover
    · cases hbody
      cases hscalar
  have hcancel : ¬Cancelled s.world.history 0 "add_disks" := by
    rintro ⟨dropped, value, hmem, -⟩
    simp [hhistory] at hmem
  have haccrues : Accrues s.world.history 0 "add_disks" (.arr [.obj [("volume_name", .str "a")]]) :=
    ⟨addDisk "a", [], by simp [hhistory], rfl⟩
  have hkept := (h s hs hquiet hqueue).kept 0 "add_disks" _ haccrues rfl hover hcancel
  rw [hhistory, hpending] at hkept
  rcases hkept with ⟨-, hget⟩ | ⟨hones, -⟩
  · cases hget
  · cases hones

/-- A decidable condition that is enough for `Clean`. -/
def cleanStep (s : PendingState) : PendingLabel → Bool
  | .serve pid c =>
    (s.procs.get pid).all fun p =>
      (p.pc.read?.all fun read => read = s.world.pending) &&
        match p.pc, c with
        | .saveMerge _ _, _ => s.world.openApplies == 0
        | .createApply _, _ => s.world.openApplies == 0
        | .command _ _ _, .command took success => took && success
        | _, _ => true
  | .resume pid => (s.procs.get pid).all fun p => p.phase.seen.isSome
  | _ => true

theorem clean_of_cleanStep {s : PendingState} {l : PendingLabel} (h : cleanStep s l = true) :
    Clean s l where
  serial pid c p read hl hp hread := by
    subst hl
    simp only [cleanStep, hp, Option.all_some, Bool.and_eq_true, hread, decide_eq_true_eq] at h
    exact h.1
  alone pid c p hl hp hpc := by
    subst hl
    simp only [cleanStep, hp, Option.all_some, Bool.and_eq_true] at h
    rcases hpc with ⟨body, read, hpc⟩ | ⟨read, hpc⟩ <;> simpa [hpc] using h.2
  whole pid took success p task stage rest hl hp hpc _ := by
    subst hl
    simp only [cleanStep, hp, Option.all_some, Bool.and_eq_true, hpc] at h
    exact .inl h.2
  fails pid p task hl hp hseen := by
    subst hl
    simp [cleanStep, hp, hseen] at h

theorem accrued_applied_once_disk : ∃ s : PendingState,
    timesApplied s.world.history 0 "add_disks" = 1 ∧ Contract (fun _ => true) s.world := by
  let P : PendingState → Prop := fun s => s.procs = [] ∧ s.world.queue = [] ∧
    timesApplied s.world.history 0 "add_disks" = 1
  obtain ⟨s, hs, hquiet, hqueue, honce⟩ := exists_reaches_of_run (step pendingProgram)
    (fun s l => cleanStep s l = true) boot (accrueLabels 0 (addDisk "a") ++ powerLabels 1) (P := P)
    ⟨_, rfl, rfl, rfl, rfl⟩
  exact ⟨s, honce, accrued_applied_once (hs.mono fun _ _ => clean_of_cleanStep) hquiet hqueue⟩

end Instances

end ZoneweaverAgent.PendingChanges
