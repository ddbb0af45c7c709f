import ZoneweaverAgent.SuspendCheckpoint

/-!
# No time travel

Between two tasks a checkpoint belongs to a stopped guest and records its disk (`Current`). Every
executor keeps this as long as its cleanup steps do what they report, and then no boot restores a
stale checkpoint; a single `rm` without effect is enough to resume one.
-/

namespace ZoneweaverAgent.SuspendCheckpoint
open CommandProgram Transition

variable {α : Type}

def NoTimeTravel (w : Machine α) : Prop := ∀ restore ∈ w.restores, restore.1 = restore.2

structure Current (w : Machine α) : Prop where
  noTimeTravel : NoTimeTravel w
  recorded : ∀ v, w.checkpoint = some v → w.running = false ∧ v = w.disk

structure Cleared (w : Machine α) : Prop where
  noTimeTravel : NoTimeTravel w
  none : w.checkpoint = none

theorem Cleared.current {w : Machine α} (h : Cleared w) : Current w := by
  refine ⟨h.noTimeTravel, fun v hv => ?_⟩
  rw [h.none] at hv
  cases hv

theorem noTimeTravel_stable : Stable (system α) NoTimeTravel := by
  intro w e w' h hstep
  cases e with
  | write version =>
    by_cases hrunning : w.running <;> simp [system, happen, hrunning] at hstep
    subst hstep
    exact h
  | powerOff =>
    simp only [system, happen, Option.some.injEq] at hstep
    subst hstep
    exact h

theorem current_stable : Stable (system α) Current := by
  intro w e w' h hstep
  refine ⟨noTimeTravel_stable w e w' h.noTimeTravel hstep, fun v hv => ?_⟩
  cases e with
  | write version =>
    by_cases hrunning : w.running <;> simp [system, happen, hrunning] at hstep
    subst hstep
    have := (h.recorded v hv).1
    rw [hrunning] at this
    cases this
  | powerOff =>
    simp only [system, happen, Option.some.injEq] at hstep
    subst hstep
    exact ⟨rfl, (h.recorded v hv).2⟩

theorem cleared_stable : Stable (system α) Cleared := by
  intro w e w' h hstep
  refine ⟨noTimeTravel_stable w e w' h.noTimeTravel hstep, ?_⟩
  cases e with
  | write version =>
    by_cases hrunning : w.running <;> simp [system, happen, hrunning] at hstep
    subst hstep
    exact h.none
  | powerOff =>
    simp only [system, happen, Option.some.injEq] at hstep
    subst hstep
    exact h.none

/-- A rollback in progress: the checkpoint may be stale already. -/
structure Offline (w : Machine α) : Prop where
  noTimeTravel : NoTimeTravel w
  offline : ∀ v, w.checkpoint = some v → w.running = false

theorem Current.offline {w : Machine α} (h : Current w) : Offline w :=
  ⟨h.noTimeTravel, fun v hv => (h.recorded v hv).1⟩

theorem offline_stable : Stable (system α) Offline := by
  intro w e w' h hstep
  refine ⟨noTimeTravel_stable w e w' h.noTimeTravel hstep, fun v hv => ?_⟩
  cases e with
  | write version =>
    by_cases hrunning : w.running <;> simp [system, happen, hrunning] at hstep
    subst hstep
    have := h.offline v hv
    rw [hrunning] at this
    cases this
  | powerOff =>
    simp only [system, happen, Option.some.injEq] at hstep
    subst hstep
    rfl

/-! ## What one command does -/

section Commands
variable {w w' : Machine α} {c : Command} {choice : Choice α} {reply : Reply}

/-- The commands that leave disk and checkpoint alone and start nothing. -/
def Command.Quiet : Command → Prop
  | .rm | .boot | .reboot | .suspend | .rollback => False
  | _ => True

structure Settled (w w' : Machine α) : Prop where
  disk : w'.disk = w.disk
  checkpoint : w'.checkpoint = w.checkpoint
  restores : w'.restores = w.restores
  running : w'.running = true → w.running = true

theorem execute_quiet (hc : c.Quiet) (h : execute w c choice = some (reply, w')) :
    Settled w w' := by
  cases c <;> simp only [Command.Quiet] at hc <;>
    simp only [execute, Option.some.injEq, Prod.mk.injEq] at h <;>
    obtain ⟨-, rfl⟩ := h <;> first
    | exact ⟨rfl, rfl, rfl, id⟩
    | split
      · exact ⟨rfl, rfl, rfl, by simp⟩
      · exact ⟨rfl, rfl, rfl, id⟩

theorem Settled.noTimeTravel (h : Settled w w') (hw : NoTimeTravel w) : NoTimeTravel w' := by
  intro restore hmem
  rw [h.restores] at hmem
  exact hw restore hmem

theorem Settled.current (h : Settled w w') (hw : Current w) : Current w' := by
  refine ⟨h.noTimeTravel hw.noTimeTravel, fun v hv => ?_⟩
  rw [h.checkpoint] at hv
  obtain ⟨hrunning, hdisk⟩ := hw.recorded v hv
  refine ⟨?_, hdisk.trans h.disk.symm⟩
  by_contra hup
  have hup := h.running (by simpa using hup)
  rw [hrunning] at hup
  cases hup

theorem startBhyve_cleared (h : Cleared w) : Cleared w.startBhyve.2 := by
  unfold Machine.startBhyve
  rw [h.none]
  cases w.resumeFlag with
  | false => exact ⟨h.noTimeTravel, rfl⟩
  | true => exact h

theorem startBhyve_noTimeTravel (h : Current w) : NoTimeTravel w.startBhyve.2 := by
  cases hcheckpoint : w.checkpoint with
  | none => exact (startBhyve_cleared ⟨h.noTimeTravel, hcheckpoint⟩).noTimeTravel
  | some recorded =>
    unfold Machine.startBhyve
    rw [hcheckpoint]
    cases w.resumeFlag with
    | false => exact h.noTimeTravel
    | true =>
      intro restore hmem
      rcases List.mem_append.mp hmem with hold | hnew
      · exact h.noTimeTravel restore hold
      · rw [List.mem_singleton.mp hnew]
        exact (h.recorded recorded hcheckpoint).2

/-- Without a checkpoint, only a suspend makes one. -/
theorem execute_cleared (hc : c ≠ .suspend) (hw : Cleared w)
    (h : execute w c choice = some (reply, w')) : Cleared w' := by
  by_cases hquiet : c.Quiet
  · have hsettled := execute_quiet hquiet h
    exact ⟨hsettled.noTimeTravel hw.noTimeTravel, hsettled.checkpoint.trans hw.none⟩
  cases c <;> simp only [Command.Quiet, not_true, not_false_eq_true, ne_eq, not_true] at hquiet hc
    <;> simp only [execute] at h
  · simp only [Option.some.injEq, Prod.mk.injEq] at h
    obtain ⟨-, rfl⟩ := h
    split
    · exact ⟨hw.noTimeTravel, rfl⟩
    · exact hw
  · split at h <;> cases h
    · exact hw
    · exact startBhyve_cleared hw
  · split at h
    · cases h
      exact hw
    split at h <;> cases h
    · exact ⟨hw.noTimeTravel, hw.none⟩
    · exact startBhyve_cleared ⟨hw.noTimeTravel, hw.none⟩
  · cases h
    exact ⟨hw.noTimeTravel, hw.none⟩

theorem execute_rm (htook : choice.took = true) (hw : NoTimeTravel w)
    (h : execute w .rm choice = some (reply, w')) : Cleared w' := by
  simp only [execute, htook, if_true, Option.some.injEq, Prod.mk.injEq] at h
  obtain ⟨-, rfl⟩ := h
  exact ⟨hw, rfl⟩

/-- An `ls` that sees what is there and finds nothing. -/
theorem execute_ls (hsees : (choice.success && choice.took) = true ∨ w.checkpoint = none)
    (hmissing : reply.success = false) (hw : NoTimeTravel w)
    (h : execute w .ls choice = some (reply, w')) : Cleared w' := by
  simp only [execute, Option.some.injEq, Prod.mk.injEq] at h
  obtain ⟨rfl, rfl⟩ := h
  refine ⟨hw, ?_⟩
  rcases hsees with hsees | hnone
  · simpa [hsees] using hmissing
  · exact hnone

theorem execute_boot (hw : Current w) (h : execute w .boot choice = some (reply, w')) :
    NoTimeTravel w' := by
  simp only [execute] at h
  split at h <;> cases h
  · exact hw.noTimeTravel
  · exact startBhyve_noTimeTravel hw

/-- A boot that has started nothing. -/
theorem execute_boot_failed (hreported : choice.took = true → choice.success = true)
    (hfailed : reply.success = false) (hw : Current w)
    (h : execute w .boot choice = some (reply, w')) : Current w' := by
  simp only [execute] at h
  split at h
  · cases h
    exact hw
  · rename_i hstarts
    obtain ⟨-, htook⟩ : w.running = false ∧ choice.took = true := by simpa using hstarts
    cases h
    simp only [hreported htook, Bool.true_and] at hfailed
    unfold Machine.startBhyve at hfailed ⊢
    split at hfailed <;> simp_all

theorem execute_current (hboot : c ≠ .boot) (hrollback : c ≠ .rollback)
    (hsuspend : c = .suspend → choice.half = false) (hw : Current w)
    (h : execute w c choice = some (reply, w')) : Current w' := by
  by_cases hquiet : c.Quiet
  · exact (execute_quiet hquiet h).current hw
  cases hcheckpoint : w.checkpoint with
  | none =>
    by_cases hc : c = .suspend
    · subst hc
      simp only [execute, hsuspend rfl] at h
      split at h <;> cases h
      · exact hw
      · refine ⟨hw.noTimeTravel, fun v hv => ⟨rfl, ?_⟩⟩
        cases hv
        rfl
    · exact (execute_cleared hc ⟨hw.noTimeTravel, hcheckpoint⟩ h).current
  | some recorded =>
    have hrunning := (hw.recorded recorded hcheckpoint).1
    cases c <;> simp only [Command.Quiet, not_true] at hquiet <;>
      simp only [execute, hrunning, ne_eq, not_true] at h hboot hrollback
    · simp only [Option.some.injEq, Prod.mk.injEq] at h
      obtain ⟨-, rfl⟩ := h
      split
      · exact Cleared.current ⟨hw.noTimeTravel, rfl⟩
      · exact hw
    · cases h
      exact hw
    · cases h
      exact hw

end Commands

/-! ## The careful runs -/

/-- The steps on which the executors' promise rests:
* `start` and the rollback see the checkpoint that is there, and know a zonepath to look in;
* their `rm`, and the one after a resume, takes effect;
* a `bhyvectl --suspend` that wrote a statefile has stopped the guest;
* in a resume, a boot that is reported as failed has started nothing;
* a rollback that fails leaves the disk which an existing checkpoint records. -/
def Careful : Condition (Machine α) Command (Choice α) Operation where
  start w op :=
    match op with
    | .start reads | .restart _ reads | .snapshotRestore reads =>
      reads.zonepath = true ∨ w.checkpoint = none
    | _ => True
  command op w c choice :=
    match c with
    | .ls =>
      match op with
      | .start _ | .restart _ _ | .snapshotRestore _ =>
        (choice.success && choice.took) = true ∨ w.checkpoint = none
      | _ => True
    | .rm =>
      match op with
      | .suspend _ => True
      | _ => choice.took = true
    | .suspend => choice.half = false
    | .boot =>
      match op with
      | .resume _ => choice.took = true → choice.success = true
      | _ => True
    | .rollback => (choice.success && choice.took) = true ∨
        ∀ v ∈ w.checkpoint, v = choice.version.getD w.disk
    | _ => True

abbrev Keeps (ok : Machine α → Command → Choice α → Prop) (Q : Bool → Machine α → Prop)
    (p : Procedure Bool) (w : Machine α) : Prop :=
  Safe (system α) ok NoTimeTravel Q p w

section Procedures
variable {ok : Machine α → Command → Choice α → Prop} {w : Machine α} {β : Type}
  {Q : Bool → Machine α → Prop}

theorem keep_cleared {p : Procedure β} (hcalls : p.Calls (· ≠ .suspend)) (hw : Cleared w) :
    Safe (system α) ok NoTimeTravel (fun _ => Cleared) p w :=
  Safe.keep cleared_stable (fun _ h => h.noTimeTravel)
    (fun _ _ _ _ _ hc hw _ h => execute_cleared hc hw h) hcalls hw

theorem keep_current {p : Procedure β} (hok : ∀ w choice, ok w .suspend choice → choice.half = false)
    (hcalls : p.Calls fun c => c ≠ .boot ∧ c ≠ .rollback) (hw : Current w) :
    Safe (system α) ok NoTimeTravel (fun _ => Current) p w := by
  refine Safe.keep current_stable (fun _ h => h.noTimeTravel) ?_ hcalls hw
  intro w c choice reply w' hc hw hmeets h
  refine execute_current hc.1 hc.2 (fun hsuspend => ?_) hw h
  subst hsuspend
  exact hok w choice hmeets

theorem done_current (hw : Current w) :
    Keeps ok (fun _ => Current) (Program.done false) w :=
  Safe.done false current_stable hw fun _ hw => ⟨hw.noTimeTravel, hw⟩

/-- Once no checkpoint is left, a booted zone can be settled. -/
theorem settleBootedZone_current (hw : Cleared w) :
    Keeps ok (fun _ => Current) (settleBootedZone true >>= fun _ => pure true) w := by
  have hcalls : (settleBootedZone true >>= fun _ => pure true : Procedure Bool).Calls
      (· ≠ .suspend) := by simp [settleBootedZone]
  exact (keep_cleared hcalls hw).mono fun _ _ h => h.current

theorem waitForZoneDown_calls {A : Command → Prop} (hA : A .list) (polls : Nat) :
    (waitForZoneDown polls).Calls A := by
  induction polls with
  | zero => simpa [waitForZoneDown, zoneIsDown] using hA
  | succ polls ih => simp [waitForZoneDown, zoneIsDown, hA, ih]

theorem executeStopTask_calls {A : Command → Prop} (hA : ∀ c, c.Quiet → A c) (reads : Reads) :
    (executeStopTask reads).Calls A := by
  have hwait := waitForZoneDown_calls (hA .list trivial) reads.polls
  have hqga : (tryQgaShutdown reads).Calls A := by
    simp [tryQgaShutdown, hA .guestShutdown trivial, hwait]
  refine hqga.bind fun stopped => ?_
  simp [hA .shutdown trivial, hA .halt trivial]

theorem executeSuspendTask_calls (reads : Reads) :
    (executeSuspendTask reads).Calls fun c => c ≠ .boot ∧ c ≠ .rollback := by
  have hwait : (waitForZoneDown reads.polls).Calls fun c => c ≠ .boot ∧ c ≠ .rollback :=
    waitForZoneDown_calls (by simp) reads.polls
  unfold executeSuspendTask
  rw [Program.calls_ite]
  refine ⟨fun _ => ⟨by simp, fun _ => ⟨by simp, fun result => ?_⟩⟩, by simp⟩
  by_cases hsuccess : result.success
  · simp only [Program.done_bind, hsuccess, if_true]
    refine hwait.bind fun down => ?_
    simp
  · simp [hsuccess]

theorem executeStartTask_calls (reads : Reads) : (executeStartTask reads).Calls (· ≠ .suspend) := by
  simp [executeStartTask, hasSuspendCheckpoint, bootFromCheckpoint, bootAndSettle, stripResumeToken,
    deleteSuspendCheckpoint, settleBootedZone, bootFresh]

theorem executeRestartTask_calls (stop start : Reads) :
    (executeRestartTask stop start).Calls (· ≠ .suspend) := by
  have hstop : (executeStopTask stop).Calls (· ≠ .suspend) :=
    executeStopTask_calls (by rintro c hc rfl; exact hc) stop
  exact hstop.bind fun stopped => by simp [executeStartTask_calls]

theorem rollbackDatasets_calls (datasets : Nat) :
    (rollbackDatasets datasets).Calls (· ≠ .suspend) := by
  induction datasets with
  | zero => simp [rollbackDatasets]
  | succ datasets ih => simp [rollbackDatasets, ih]

theorem restoreDatasets_calls (reads : Reads) (inTree : Nat) :
    (restoreDatasets reads inTree).Calls (· ≠ .suspend) := by
  have hrollback := rollbackDatasets_calls (inTree + reads.externals)
  have hrest := hrollback.bind (f := fun restored =>
    if restored then discardCheckpoint reads.zonepath else return false) fun restored => by
      simp [discardCheckpoint, hasSuspendCheckpoint, deleteSuspendCheckpoint]
  simpa [restoreDatasets] using fun _ => hrest

theorem executeSnapshotRestoreTask_calls (reads : Reads) :
    (executeSnapshotRestoreTask reads).Calls (· ≠ .suspend) := by
  simp [executeSnapshotRestoreTask, zoneIsRunning, restoreDatasets_calls]

/-- What only the disk, the checkpoint, the restores and the end of the guest bear on. -/
structure Steady (P : Machine α → Prop) : Prop where
  stable : Stable (system α) P
  noTimeTravel : ∀ w, P w → NoTimeTravel w
  settled : ∀ w w', Settled w w' → P w → P w'

theorem steady_noTimeTravel : Steady (NoTimeTravel (α := α)) :=
  ⟨noTimeTravel_stable, fun _ h => h, fun _ _ hs h => hs.noTimeTravel h⟩

theorem steady_current : Steady (Current (α := α)) :=
  ⟨current_stable, fun _ h => h.noTimeTravel, fun _ _ hs h => hs.current h⟩

theorem keep_steady {P : Machine α → Prop} (hP : Steady P) {p : Procedure β}
    (hcalls : p.Calls Command.Quiet) (hw : P w) :
    Safe (system α) ok NoTimeTravel (fun _ => P) p w :=
  Safe.keep hP.stable hP.noTimeTravel
    (fun _ _ _ _ _ hc hw _ h => hP.settled _ _ (execute_quiet hc h) hw) hcalls hw

/-- After the `rm` of a checkpoint there is none. -/
theorem deleteSuspendCheckpoint_bind {f : Unit → Procedure Bool}
    (hok : ∀ w choice, ok w .rm choice → choice.took = true) (hw : NoTimeTravel w)
    (hf : ∀ w, Cleared w → Keeps ok Q (f ()) w) : Keeps ok Q (deleteSuspendCheckpoint.bind f) w := by
  refine Safe.call noTimeTravel_stable hw (fun _ h => h) ?_
  intro w choice reply w' hw hmeets h
  exact hf w' (execute_rm (hok w choice hmeets) hw h)

/-- A successful restore leaves no checkpoint; `F` is what a failed one leaves. -/
theorem bootFromCheckpoint_keeps {F : Machine α → Prop} (hF : Steady F)
    (hrm : ∀ w choice, ok w .rm choice → choice.took = true) (hcurrent : ∀ w, Current w → F w)
    (hboot : ∀ w choice reply w', ok w .boot choice → Current w →
      execute w .boot choice = some (reply, w') → reply.success = false → F w')
    (hw : Current w) :
    Keeps ok (fun resumed w => if resumed then Cleared w else F w) bootFromCheckpoint w := by
  have hsettle : ∀ w, Current w →
      Keeps ok (fun resumed w => if resumed then Cleared w else F w) bootAndSettle w := by
    intro w hw
    refine Safe.command current_stable hw steady_current.noTimeTravel ?_
    intro w choice reply w' hw hmeets hstep
    have hstrip : (stripResumeToken).Calls Command.Quiet := by
      simp [stripResumeToken, Command.Quiet]
    apply Safe.bind
    by_cases hsuccess : reply.success
    · simp only [hsuccess, if_true]
      refine (keep_steady steady_noTimeTravel hstrip (execute_boot hw hstep)).mono ?_
      intro _ w hw
      refine deleteSuspendCheckpoint_bind hrm hw fun w hw => ?_
      exact Safe.done true cleared_stable hw fun w hw => ⟨hw.noTimeTravel, hw⟩
    · simp only [hsuccess]
      have hfailed := hboot w choice reply w' hmeets hw hstep (by simpa using hsuccess)
      refine (keep_steady hF hstrip hfailed).mono fun _ w hw => ?_
      exact Safe.done false hF.stable hw fun w hw => ⟨hF.noTimeTravel w hw, hw⟩
  have hfalse : ∀ w, Current w → Keeps ok (fun resumed w => if resumed then Cleared w else F w)
      (Program.done false) w := fun w hw =>
    Safe.done false current_stable hw fun w hw => ⟨hw.noTimeTravel, hcurrent w hw⟩
  refine Safe.command current_stable hw steady_current.noTimeTravel ?_
  intro w choice config w' hw _ hstep
  have hw' := (execute_quiet (c := .zadmShow) trivial hstep).current hw
  by_cases hsuccess : config.success
  · by_cases hanswer : config.answer
    · simpa [hsuccess, hanswer] using hsettle w' hw'
    · simp only [hsuccess, hanswer, if_true]
      refine Safe.command current_stable hw' steady_current.noTimeTravel ?_
      intro w choice wired w' hw _ hstep
      have hw' := (execute_quiet (c := .wireResumeFlag) trivial hstep).current hw
      by_cases hwired : wired.success
      · simpa [hwired] using hsettle w' hw'
      · simpa [hwired] using hfalse w' hw'
  · simpa [hsuccess] using hfalse w' hw'

theorem rollbackDatasets_keeps
    (hrollback : ∀ w choice, ok w .rollback choice → (choice.success && choice.took) = true ∨
      ∀ v ∈ w.checkpoint, v = choice.version.getD w.disk)
    (datasets : Nat) (hw : Offline w) :
    Keeps ok (fun restored w => if restored then Offline w else Current w)
      (rollbackDatasets datasets) w := by
  induction datasets generalizing w with
  | zero => exact Safe.done true offline_stable hw fun w hw => ⟨hw.noTimeTravel, hw⟩
  | succ datasets ih =>
    refine Safe.command offline_stable hw (fun _ h => h.noTimeTravel) ?_
    intro w choice reply w' hw hmeets hstep
    simp only [system, execute, Option.some.injEq, Prod.mk.injEq] at hstep
    obtain ⟨rfl, rfl⟩ := hstep
    by_cases hsuccess : (choice.success && choice.took) = true
    · have hrolled : Offline { w with disk := choice.version.getD w.disk } :=
        ⟨hw.noTimeTravel, hw.offline⟩
      simpa only [hsuccess, if_true] using ih hrolled
    · have hrecorded := (hrollback w choice hmeets).resolve_left hsuccess
      have hcurrent : Current { w with disk := choice.version.getD w.disk } :=
        ⟨hw.noTimeTravel, fun v hv => ⟨hw.offline v hv, hrecorded v hv⟩⟩
      simp only [hsuccess]
      exact Safe.done false current_stable hcurrent fun w hw => ⟨hw.noTimeTravel, hw⟩

section Sees
variable (hls : ∀ w choice, ok w .ls choice →
    (choice.success && choice.took) = true ∨ w.checkpoint = none)
  (hrm : ∀ w choice, ok w .rm choice → choice.took = true)
include hls hrm

theorem executeStartTask_keeps {reads : Reads} (hzonepath : reads.zonepath = true)
    (hw : Current w) : Keeps ok (fun _ => Current) (executeStartTask reads) w := by
  have hfresh : ∀ w, Cleared w → Keeps ok (fun _ => Current) (bootFresh reads.zonepath) w := by
    intro w hw
    have hcalls : (bootFresh reads.zonepath).Calls (· ≠ .suspend) := by
      simp [bootFresh, settleBootedZone]
    exact (keep_cleared hcalls hw).mono fun _ _ h => h.current
  unfold executeStartTask hasSuspendCheckpoint
  simp only [hzonepath, if_true] at hfresh ⊢
  refine Safe.command current_stable hw steady_current.noTimeTravel ?_
  intro w choice reply w' hw hmeets hstep
  by_cases hfound : reply.success
  · have hw' := (execute_quiet (c := .ls) trivial hstep).current hw
    by_cases hexperimental : reads.experimental
    · simp only [hfound, hexperimental, if_true, Program.pure_eq, Program.bind_eq]
      apply Safe.bind
      refine (bootFromCheckpoint_keeps steady_noTimeTravel hrm (fun _ h => h.noTimeTravel)
        (fun _ _ _ _ _ hw hstep _ => execute_boot hw hstep) hw').mono ?_
      intro resumed w hw
      by_cases hresumed : resumed
      · simp only [hresumed, if_true] at hw ⊢
        exact settleBootedZone_current hw
      · simp only [hresumed] at hw ⊢
        exact deleteSuspendCheckpoint_bind hrm hw hfresh
    · simp only [hfound, hexperimental, if_true, Program.pure_eq, Program.bind_eq]
      exact deleteSuspendCheckpoint_bind hrm hw'.noTimeTravel hfresh
  · simp only [hfound, Program.pure_eq, Program.bind_eq]
    exact hfresh w' (execute_ls (hls w choice hmeets) (by simpa using hfound) hw.noTimeTravel hstep)

theorem discardCheckpoint_keeps (hw : NoTimeTravel w) :
    Keeps ok (fun _ => Current) (discardCheckpoint true) w := by
  have hdone : ∀ w, Cleared w → Keeps ok (fun _ => Current) (Program.done true) w := fun w hw =>
    Safe.done true cleared_stable hw fun w hw => ⟨hw.noTimeTravel, hw.current⟩
  unfold discardCheckpoint hasSuspendCheckpoint
  simp only [if_true]
  refine Safe.command noTimeTravel_stable hw (fun _ h => h) ?_
  intro w choice reply w' hw hmeets hstep
  by_cases hfound : reply.success
  · have hw' := (execute_quiet (c := .ls) trivial hstep).noTimeTravel hw
    simp only [hfound, if_true, Program.pure_eq, Program.bind_eq]
    exact deleteSuspendCheckpoint_bind hrm hw' hdone
  · simp only [hfound, Program.pure_eq, Program.bind_eq]
    exact hdone w' (execute_ls (hls w choice hmeets) (by simpa using hfound) hw hstep)

theorem executeSnapshotRestoreTask_keeps {reads : Reads} (hzonepath : reads.zonepath = true)
    (hrollback : ∀ w choice, ok w .rollback choice → (choice.success && choice.took) = true ∨
      ∀ v ∈ w.checkpoint, v = choice.version.getD w.disk)
    (hw : Current w) : Keeps ok (fun _ => Current) (executeSnapshotRestoreTask reads) w := by
  have hrestore : ∀ inTree w, Current w →
      Keeps ok (fun _ => Current) (restoreDatasets reads inTree) w := by
    intro inTree w hw
    unfold restoreDatasets
    by_cases hempty : inTree + reads.externals = 0
    · simp only [hempty, if_true]
      exact done_current hw
    simp only [hempty, if_false]
    apply Safe.bind
    refine (rollbackDatasets_keeps hrollback _ hw.offline).mono ?_
    intro restored w hw
    by_cases hrestored : restored
    · simp only [hrestored, if_true] at hw ⊢
      rw [hzonepath]
      exact discardCheckpoint_keeps hls hrm hw.noTimeTravel
    · simp only [hrestored] at hw ⊢
      exact done_current hw
  unfold executeSnapshotRestoreTask zoneIsRunning
  simp only [hzonepath, if_true]
  refine Safe.command current_stable hw steady_current.noTimeTravel ?_
  intro w choice list w' hw _ hstep
  have hw' := (execute_quiet (c := .list) trivial hstep).current hw
  by_cases hrunning : (list.success && list.answer) = true
  · simpa [hrunning] using done_current hw'
  simp only [hrunning, Program.pure_eq, Program.bind_eq]
  refine Safe.command current_stable hw' steady_current.noTimeTravel ?_
  intro w choice config w' hw _ hstep
  have hw' := (execute_quiet (c := .zadmShow) trivial hstep).current hw
  by_cases hconfig : config.success
  · simp only [hconfig, if_true]
    refine Safe.command current_stable hw' steady_current.noTimeTravel ?_
    intro w choice datasets w' hw _ hstep
    exact hrestore _ w' ((execute_quiet (c := .zfsList) trivial hstep).current hw)
  · simpa [hconfig] using done_current hw'

end Sees

theorem executeResumeTask_keeps {reads : Reads}
    (hrm : ∀ w choice, ok w .rm choice → choice.took = true)
    (hboot : ∀ w choice, ok w .boot choice → choice.took = true → choice.success = true)
    (hw : Current w) : Keeps ok (fun _ => Current) (executeResumeTask reads) w := by
  unfold executeResumeTask hasSuspendCheckpoint
  by_cases hzonepath : reads.zonepath
  · simp only [hzonepath, if_true]
    refine Safe.command current_stable hw steady_current.noTimeTravel ?_
    intro w choice reply w' hw _ hstep
    have hw' := (execute_quiet (c := .ls) trivial hstep).current hw
    by_cases hfound : reply.success
    · simp only [hfound, if_true, Program.pure_eq, Program.bind_eq]
      apply Safe.bind
      refine (bootFromCheckpoint_keeps steady_current hrm (fun _ h => h) ?_ hw').mono ?_
      · intro w choice reply w' hmeets hw hstep hfailed
        exact execute_boot_failed (hboot w choice hmeets) hfailed hw hstep
      intro resumed w hw
      by_cases hresumed : resumed
      · simp only [hresumed, if_true] at hw ⊢
        exact settleBootedZone_current hw
      · simp only [hresumed] at hw ⊢
        exact done_current hw
    · simpa [hfound] using done_current hw'
  · simpa [hzonepath] using done_current hw

end Procedures

/-! ## Every run -/

theorem executor_keeps (op : Operation) {w : Machine α} (hw : Current w)
    (hstart : (Careful (α := α)).start w op) :
    Keeps (Careful.command op) (fun _ => Current) (executor op) w := by
  cases op with
  | start reads =>
    rcases hstart with hzonepath | hnone
    · exact executeStartTask_keeps (fun _ _ h => h) (fun _ _ h => h) hzonepath hw
    · exact (keep_cleared (executeStartTask_calls reads) ⟨hw.noTimeTravel, hnone⟩).mono
        fun _ _ h => h.current
  | stop reads =>
    refine keep_steady steady_current ?_ hw
    exact executeStopTask_calls (fun _ h => h) reads
  | reset =>
    refine keep_current (fun _ _ h => h) ?_ hw
    simp [executor, executeResetTask]
  | suspend reads => exact keep_current (fun _ _ h => h) (executeSuspendTask_calls reads) hw
  | resume reads => exact executeResumeTask_keeps (fun _ _ h => h) (fun _ _ h => h) hw
  | restart stop start =>
    rcases hstart with hzonepath | hnone
    · apply Safe.bind
      have hstop := executeStopTask_calls (A := Command.Quiet) (fun _ h => h) stop
      refine (keep_steady steady_current hstop hw).mono ?_
      intro stopped w hw
      by_cases hstopped : stopped
      · simp only [hstopped, if_true]
        exact executeStartTask_keeps (fun _ _ h => h) (fun _ _ h => h) hzonepath hw
      · simp only [hstopped]
        exact Safe.done false current_stable hw fun w hw => ⟨hw.noTimeTravel, hw⟩
    · exact (keep_cleared (executeRestartTask_calls stop start) ⟨hw.noTimeTravel, hnone⟩).mono
        fun _ _ h => h.current
  | snapshotRestore reads =>
    rcases hstart with hzonepath | hnone
    · exact executeSnapshotRestoreTask_keeps (fun _ _ h => h) (fun _ _ h => h) hzonepath
        (fun _ _ h => h) hw
    · exact (keep_cleared (executeSnapshotRestoreTask_calls reads) ⟨hw.noTimeTravel, hnone⟩).mono
        fun _ _ h => h.current

theorem restores_current {w : Machine α}
    {s : State (Machine α) Command Reply Operation Bool} (hw : Current w)
    (h : Reaches (step (system α) executor) Careful.Meets (idle w) s) :
    ∀ restore ∈ s.world.restores, restore.1 = restore.2 :=
  safe_reaches (system α) executor current_stable (fun _ h => h.noTimeTravel)
    (fun op _ hw hstart => executor_keeps op hw hstart) hw h

def reading : Reads := ⟨true, true, false, 0, 0⟩

/-- The machine is suspended and resumed, but the `rm` after the resume fails; the guest writes and
powers off, and the next resume restores the checkpoint again. -/
def staleLabels : List (Label (Choice Nat) (Event Nat) Operation) :=
  let resumeUntilBoot := [.start (.resume reading)] ++ List.replicate 4 (.command {})
  [.start (.suspend reading)] ++ List.replicate 5 (.command {}) ++ [.finish] ++
    resumeUntilBoot ++ [.command {}, .command {}, .command { took := false }, .command {}, .finish,
      .event (.write 1), .event .powerOff] ++ resumeUntilBoot

theorem restores_current_fails : ¬∀ (w : Machine Nat)
    (s : State (Machine Nat) Command Reply Operation Bool), Current w →
    Reaches (step (system Nat) executor) (fun _ _ => True) (idle w) s →
      ∀ restore ∈ s.world.restores, restore.1 = restore.2 := by
  intro h
  obtain ⟨s, hs, hstale⟩ := exists_reaches_of_run (step (system Nat) executor) (fun _ _ => True)
    (idle ⟨true, 0, none, false, []⟩) staleLabels
    (P := fun s => s.world.restores = [(0, 0), (0, 1)]) ⟨_, rfl, rfl⟩
  have hcurrent : Current (⟨true, 0, none, false, []⟩ : Machine Nat) :=
    Cleared.current ⟨by simp [NoTimeTravel], rfl⟩
  have := h _ s hcurrent hs (0, 1) (by simp [hstale])
  cases this

theorem restores_current_resumed : ∃ s : State (Machine Nat) Command Reply Operation Bool,
    s.world.restores = [(0, 0)] ∧ ∀ restore ∈ s.world.restores, restore.1 = restore.2 := by
  have hstart : Reaches (step (system Nat) executor) Careful.Meets
      (idle ⟨false, 0, some 0, false, []⟩)
      ⟨⟨false, 0, some 0, false, []⟩, some (.resume reading, executeResumeTask reading)⟩ :=
    .tail (l := .start (.resume reading)) .refl trivial rfl
  have hcommand : ∀ {t u : State (Machine Nat) Command Reply Operation Bool},
      Reaches (step (system Nat) executor) Careful.Meets (idle ⟨false, 0, some 0, false, []⟩) t →
      Careful.Meets t (.command {} : Label (Choice Nat) (Event Nat) Operation) →
      step (system Nat) executor t (.command {}) = some u →
      Reaches (step (system Nat) executor) Careful.Meets (idle ⟨false, 0, some 0, false, []⟩) u :=
    fun h hok hstep => .tail h hok hstep
  have hboot := hcommand (hcommand (hcommand (hcommand hstart
    (by rintro _ _ _ ⟨⟩; trivial) rfl) (by rintro _ _ _ ⟨⟩; trivial) rfl)
    (by rintro _ _ _ ⟨⟩; trivial) rfl) (by rintro _ _ _ ⟨⟩ _; rfl) rfl
  have hcurrent : Current (⟨false, 0, some 0, false, []⟩ : Machine Nat) :=
    ⟨by simp [NoTimeTravel], by simp⟩
  exact ⟨_, rfl, restores_current hcurrent hboot⟩

end ZoneweaverAgent.SuspendCheckpoint
