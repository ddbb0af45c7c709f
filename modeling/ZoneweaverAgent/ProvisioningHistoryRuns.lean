import ZoneweaverAgent.ProvisioningChainRuns
import ZoneweaverAgent.ProvisioningHistory

/-!
# The stamp over a machine's history

The stamp is never taken back, so a run behind a completed one is built with it; what the filters
select then is read off the programme of its walk.
-/

namespace ZoneweaverAgent.Provisioning
open Transition

section Walk
variable (ctx : Context)

theorem selected_of_mem_walk {work : Work} {directive : Run} (h : work ∈ walkProgramme ctx)
    (hrun : work.2.entryRun = some directive) :
    directive.selected (hasZoneProvisionedBefore ctx) = true := by
  have hhooks : ∀ phase, work ∈ hookProgramme ctx phase →
      directive.selected (hasZoneProvisionedBefore ctx) = true := by
    intro phase hmem
    obtain ⟨hook, hhook, rfl⟩ := List.mem_map.mp hmem
    cases hrun
    exact (List.mem_filter.mp hhook).2
  have hplaybooks : work ∈ playbookProgramme ctx →
      directive.selected (hasZoneProvisionedBefore ctx) = true := by
    intro hmem
    obtain ⟨playbook, hplaybook, rfl⟩ := List.mem_map.mp hmem
    cases hrun
    exact (Bool.and_eq_true_iff.mp (List.mem_filter.mp hplaybook).2).1
  have hmethods : ∀ method, work ∈ methodProgramme ctx method →
      directive.selected (hasZoneProvisionedBefore ctx) = true := by
    intro method hmem
    unfold methodProgramme shellProgramme dockerProgramme at hmem
    split_ifs at hmem
    · obtain ⟨script, -, rfl⟩ := List.mem_map.mp hmem
      cases hrun
    · cases hmem
    · exact hplaybooks hmem
    · cases hmem
    · obtain ⟨file, -, rfl⟩ := List.mem_map.mp hmem
      cases hrun
    · cases hmem
    · cases hmem
  rw [walkProgramme, List.mem_append, List.mem_append, List.mem_append, List.mem_flatMap] at h
  rcases h with ((hpre | ⟨method, -, hmethod⟩) | hflat) | hpost
  · exact hhooks _ hpre
  · exact hmethods method hmethod
  · unfold flatProgramme at hflat
    split_ifs at hflat
    · exact hplaybooks hflat
    · cases hflat
  · exact hhooks _ hpost

theorem playbookProgramme_subset_walk (h : runsPlaybooks ctx = true) :
    ∀ work ∈ playbookProgramme ctx, work ∈ walkProgramme ctx := by
  intro work hwork
  rw [walkProgramme, List.mem_append, List.mem_append, List.mem_append, List.mem_flatMap]
  rw [runsPlaybooks, Bool.or_eq_true, List.any_eq_true] at h
  rcases h with ⟨method, hmem, hansible⟩ | hflat
  · simp only [Bool.and_eq_true, decide_eq_true_eq] at hansible
    refine .inl (.inl (.inr ⟨method, hmem, ?_⟩))
    simpa [methodProgramme, hansible.1, hansible.2] using hwork
  · refine .inl (.inr ?_)
    rw [flatProgramme, if_pos hflat]
    exact hwork

theorem mem_playbookProgramme {playbook : Json}
    (hmem : playbook ∈ documentPlaybooks ctx.provisioning)
    (hselected : (playbookRun playbook).selected (hasZoneProvisionedBefore ctx) = true)
    (hsupported : supportsPlaybook ctx playbook = true) :
    ∃ operation, (operation, .playbook ctx.target playbook ctx.channel) ∈ playbookProgramme ctx :=
  ⟨_, List.mem_map_of_mem (List.mem_filter.mpr ⟨hmem, by rw [hselected, hsupported]; rfl⟩)⟩

end Walk

section Created
variable (ctx : Context)

/-- The rows of a run whose walk could be built: the walk between steps that every run has. -/
def Surrounds (tasks : List Task) : Prop :=
  ∃ opening closing, (works tasks).map Task.work = opening ++ walkProgramme ctx ++ closing ∧
    (∀ work ∈ opening, Plain work) ∧ ∀ work ∈ closing, Plain work

theorem map_fst_planned (tasks : List Task) :
    (tasks.map Task.planned).map Prod.fst = tasks.map Task.work := by
  simp [Task.planned, Function.comp_def]

theorem map_fst_steps {steps : List Step} {notes : List Note}
    (h : collectWalkSteps ctx = some (steps, notes)) :
    (steps.map fun step => (step.work, step.final)).map Prod.fst = walkProgramme ctx := by
  rw [← (collectWalkSteps_spec ctx h).1]
  simp [Function.comp_def]

theorem surrounds_adHoc (next : TaskId) (hwalk : (collectWalkSteps ctx).isSome = true) :
    Surrounds ctx (adHocTasks ctx next) := by
  obtain ⟨⟨steps, notes⟩, hsteps⟩ := Option.isSome_iff_exists.mp hwalk
  cases hwalked : buildProvisioningWalk ctx ⟨next, [], shadowedNote ctx⟩ none with
  | none =>
    rw [buildProvisioningWalk, hsteps] at hwalked
    cases hwalked
  | some walked =>
    obtain ⟨steps', notes', hsteps', tasks, hqueues⟩ :=
      @queued_provisioningWalk ctx (⟨next, [], shadowedNote ctx⟩, none) walked hwalked
    have hcreated : adHocTasks ctx next = tasks := by
      simp only [adHocTasks, hwalked]
      exact hqueues.created
    rw [hcreated]
    have hwork := congrArg (List.map Prod.fst) hqueues.planned
    rw [map_fst_planned, map_fst_steps ctx hsteps'] at hwork
    exact ⟨[], [], by simpa using hwork, by simp, by simp⟩

theorem surrounds_pipeline (next : TaskId) (hpath : (provisioningDatasetPath ctx).isSome = true)
    (hwalk : (collectWalkSteps ctx).isSome = true) :
    Surrounds ctx (pipelineTasks ctx next) := by
  obtain ⟨path, hpath⟩ := Option.isSome_iff_exists.mp hpath
  obtain ⟨⟨steps, notes⟩, hsteps⟩ := Option.isSome_iff_exists.mp hwalk
  have hready := queued_infra ctx path next
  have hsync := queued_sync ctx (extractFolders ctx.provisioning) (queueInfraSteps ctx path next).1
    (queueInfraSteps ctx path next).2
  cases hwalked : buildProvisioningWalk ctx
    (queueSyncBracket ctx (extractFolders ctx.provisioning) (queueInfraSteps ctx path next).1
      (queueInfraSteps ctx path next).2).1
    (queueSyncBracket ctx (extractFolders ctx.provisioning) (queueInfraSteps ctx path next).1
      (queueInfraSteps ctx path next).2).2 with
  | none =>
    rw [buildProvisioningWalk, hsteps] at hwalked
    cases hwalked
  | some walked =>
    obtain ⟨steps', notes', hsteps', hwalks⟩ := queued_provisioningWalk ctx hwalked
    have hopening : ∀ work ∈ openingProgramme ctx path, Plain work :=
      fun work hmem => plain_of_mem_opening ctx hmem
    cases hback : queueSyncbackBracket ctx (extractFolders ctx.provisioning) walked.1 walked.2 with
    | none =>
      obtain ⟨tasks, hqueues⟩ := (hready.append hsync).append hwalks
      have hcreated : pipelineTasks ctx next = tasks := by
        simp only [pipelineTasks, hpath, hwalked, hback]
        exact hqueues.created
      have hwork := congrArg (List.map Prod.fst) hqueues.planned
      rw [map_fst_planned, List.map_append, map_fst_steps ctx hsteps'] at hwork
      rw [hcreated]
      refine ⟨openingProgramme ctx path, [], ?_, hopening, by simp⟩
      rw [hwork, List.append_nil]
      simp [openingProgramme, Function.comp_def]
    | some built =>
      obtain ⟨tasks, hqueues⟩ :=
        ((hready.append hsync).append hwalks).append (queued_syncback ctx hback)
      obtain ⟨after, hafter⟩ := (hsync.append hwalks).append (queued_syncback ctx hback)
      obtain ⟨id, hid, hlt⟩ := hafter.known ⟨_, rfl, Nat.lt_succ_self _⟩
      obtain ⟨rest, hrest, hanchors, hplanned, -⟩ := closing_tasks ctx hlt
      have hcreated : pipelineTasks ctx next = tasks ++ rest := by
        simp only [pipelineTasks, hpath, hwalked, hback]
        rw [hid, hrest, hqueues.created, List.nil_append]
      have hwork := congrArg (List.map Prod.fst) hqueues.planned
      have hlast := congrArg (List.map Prod.fst) hplanned
      rw [map_fst_planned, List.map_append, List.map_append, map_fst_steps ctx hsteps'] at hwork
      rw [map_fst_planned] at hlast
      rw [hcreated]
      refine ⟨openingProgramme ctx path, closingProgramme ctx, ?_, hopening,
        fun work hmem => plain_of_mem_closing ctx hmem⟩
      rw [works_append, works_of_no_anchor hanchors, List.map_append, hwork, hlast]
      simp [openingProgramme, closingProgramme, Function.comp_def]

theorem Surrounds.selected {tasks : List Task} (h : Surrounds ctx tasks) {task : Task}
    (hmem : task ∈ works tasks) {directive : Run}
    (hrun : task.metadata.entryRun = some directive) :
    directive.selected (hasZoneProvisionedBefore ctx) = true := by
  obtain ⟨opening, closing, hworks, hopening, hclosing⟩ := h
  have hwork : task.work ∈ opening ++ walkProgramme ctx ++ closing :=
    hworks ▸ List.mem_map_of_mem hmem
  have hplain : ¬ Plain task.work := by
    intro hplain
    rw [show task.metadata.entryRun = none from hplain.2] at hrun
    cases hrun
  rw [List.mem_append, List.mem_append] at hwork
  rcases hwork with (hleft | hwalk) | hright
  · exact absurd (hopening _ hleft) hplain
  · exact selected_of_mem_walk ctx hwalk hrun
  · exact absurd (hclosing _ hright) hplain

theorem Surrounds.exists_of_mem_walk {tasks : List Task} (h : Surrounds ctx tasks) {work : Work}
    (hmem : work ∈ walkProgramme ctx) : ∃ task ∈ works tasks, task.work = work := by
  obtain ⟨opening, closing, hworks, -, -⟩ := h
  have hwork : work ∈ (works tasks).map Task.work := by
    rw [hworks, List.mem_append, List.mem_append]
    exact .inl (.inr hmem)
  obtain ⟨task, htask, rfl⟩ := List.mem_map.mp hwork
  exact ⟨task, htask, rfl⟩

end Created

section Stamp

theorem stamps_of_completes {run : ProvisioningRun} (h : run.completes = true)
    (hfinal : (works run.tasks).any Task.final = true) : run.stamps = true := by
  obtain ⟨task, hmem, hmark⟩ := List.any_eq_true.mp hfinal
  have hdone := List.all_eq_true.mp h task hmem
  apply List.any_eq_true.mpr
  refine ⟨task, hmem, ?_⟩
  rw [hmark, ProvisioningRun.worked, hdone]
  rfl

theorem isStamped_recordProvisionState (config : KeyedList String Json) (date time : String) :
    isStamped (recordProvisionState config (isoString date time)) = true := by
  have hne : isoString date time ≠ "" := by
    intro h
    have hlength := congrArg String.length h
    simp [isoString] at hlength
  simp [isStamped, recordProvisionState, truthyField, Json.truthy, Option.filter, hne]

theorem isStamped_set {config : KeyedList String Json} {key : String} (value : Json)
    (h : key ≠ "provisioner_state") : isStamped (config.set key value) = isStamped config := by
  rw [isStamped, KeyedList.get_set_of_ne _ _ h, isStamped]

theorem hasZoneProvisionedBefore_context {request : Request} {config : KeyedList String Json}
    {ctx : Context} (h : request.context config = some ctx) :
    hasZoneProvisionedBefore ctx = isStamped config := by
  unfold Request.context at h
  split at h
  · cases h
    rfl
  · cases h

theorem isStamped_settled {request : Request} {config : KeyedList String Json} (ctx : Context)
    (h : isStamped config = true) : isStamped (request.settled config ctx) = true := by
  unfold Request.settled
  split_ifs
  · exact isStamped_recordProvisionState config _ _
  · exact h

end Stamp

section Invariant
variable {m m' : Machine}

/-- What a run that is built with the stamp owes to its document. -/
structure Selects (run : ProvisioningRun) : Prop where
  once : ∀ task ∈ run.started, task.metadata.entryRun ≠ some .once
  notFirst : runsPlaybooks run.ctx = true →
    ∀ playbook ∈ documentPlaybooks run.ctx.provisioning, playbookRun playbook = .notFirst →
      supportsPlaybook run.ctx playbook = true →
        ∃ task ∈ works run.tasks,
          task.metadata = .playbook run.ctx.target playbook run.ctx.channel ∧
            (run.completes = true → task.id ∈ run.done)

theorem Surrounds.selects {run : ProvisioningRun} (h : Surrounds run.ctx run.tasks)
    (hbefore : run.before = true) : Selects run where
  once task hmem honce := by
    have hselected := h.selected run.ctx (List.mem_filter.mp hmem).1 honce
    rw [show hasZoneProvisionedBefore run.ctx = true from hbefore] at hselected
    cases hselected
  notFirst hruns playbook hplaybook hrun hsupported := by
    have hselected : (playbookRun playbook).selected (hasZoneProvisionedBefore run.ctx) = true := by
      rw [hrun, show hasZoneProvisionedBefore run.ctx = true from hbefore]
      rfl
    obtain ⟨operation, hprogramme⟩ := mem_playbookProgramme run.ctx hplaybook hselected hsupported
    obtain ⟨task, hmem, hwork⟩ := h.exists_of_mem_walk run.ctx
      (playbookProgramme_subset_walk run.ctx hruns _ hprogramme)
    refine ⟨task, hmem, congrArg Prod.snd hwork, fun hcompletes => ?_⟩
    exact of_decide_eq_true (List.all_eq_true.mp hcompletes task hmem)

structure Recorded (m : Machine) : Prop where
  stamped : ∀ run ∈ m.history,
    run.after = true ↔ run.before = true ∨ run.completes = true
  completed : ∀ run ∈ m.history, run.completes = true → isStamped m.config = true
  later : ∀ past run future, m.history = past ++ run :: future →
    (∃ earlier ∈ past, earlier.completes = true) → run.before = true
  selects : ∀ run ∈ m.history, run.before = true → Selects run

theorem Recorded.faithful (h : Recorded m) : Faithful m where
  stamped := h.stamped
  once past run future hhistory hearlier :=
    (h.selects run (by simp [hhistory]) (h.later past run future hhistory hearlier)).once
  notFirst past run future hhistory hearlier :=
    (h.selects run (by simp [hhistory]) (h.later past run future hhistory hearlier)).notFirst

theorem split_snoc {α : Type*} {l past future : List α} {last x : α}
    (h : l ++ [last] = past ++ x :: future) :
    (past = l ∧ x = last) ∨ ∃ rest, l = past ++ x :: rest := by
  rcases List.eq_nil_or_concat future with rfl | ⟨rest, y, rfl⟩
  · obtain ⟨hpast, hlast⟩ := List.append_inj' h rfl
    exact .inl ⟨hpast.symm, (List.singleton_inj.mp hlast).symm⟩
  · rw [List.concat_eq_append, ← List.cons_append, ← List.append_assoc] at h
    exact .inr ⟨rest, (List.append_inj' h rfl).1⟩

theorem Recorded.edit (h : Recorded m) {key : String} (value : Json)
    (hkey : key ≠ "provisioner_state") :
    Recorded { m with config := m.config.set key value } where
  stamped := h.stamped
  completed run hmem hcompletes := by
    rw [isStamped_set value hkey]
    exact h.completed run hmem hcompletes
  later := h.later
  selects := h.selects

theorem Recorded.run (h : Recorded m) {request : Request} {ctx : Context}
    (hctx : request.context m.config = some ctx) (hfits : Fits m (.run request)) :
    Recorded ⟨request.settled m.config ctx, m.history ++
      [{ request.begin ctx with after := isStamped (request.settled m.config ctx) }]⟩ := by
  obtain ⟨hwalk, hpath, hfirst⟩ := hfits ctx hctx
  have hbefore : hasZoneProvisionedBefore ctx = isStamped m.config :=
    hasZoneProvisionedBefore_context hctx
  have hsurrounds : Surrounds ctx (request.begin ctx).tasks := by
    unfold Request.begin
    simp only
    split_ifs with hpipeline
    · exact surrounds_pipeline ctx request.next (hpath hpipeline) hwalk
    · exact surrounds_adHoc ctx request.next hwalk
  have hsettled : isStamped (request.settled m.config ctx) = true ↔
      isStamped m.config = true ∨ (request.begin ctx).completes = true := by
    cases hstamped : isStamped m.config with
    | true => simp [isStamped_settled ctx hstamped]
    | false =>
      obtain ⟨hmark, hwrites⟩ := hfirst hstamped
      cases hstamps : (request.begin ctx).stamps with
      | true =>
        obtain ⟨hwritten, hcompletes⟩ := hwrites hstamps
        simp [Request.settled, hstamps, hwritten, hcompletes, isStamped_recordProvisionState]
      | false =>
        have hincomplete : (request.begin ctx).completes ≠ true := by
          intro hcompletes
          rw [stamps_of_completes hcompletes (hmark hcompletes)] at hstamps
          cases hstamps
        simp [Request.settled, hstamps, hstamped, hincomplete]
  refine ⟨?_, ?_, ?_, ?_⟩
  · refine List.forall_mem_append.mpr ⟨h.stamped, ?_⟩
    intro run hmem
    cases List.mem_singleton.mp hmem
    have hflag : (request.begin ctx).before = isStamped m.config := hbefore
    exact hflag ▸ hsettled
  · refine List.forall_mem_append.mpr ⟨?_, ?_⟩
    · exact fun run hmem hcompletes => isStamped_settled ctx (h.completed run hmem hcompletes)
    · intro run hmem hcompletes
      cases List.mem_singleton.mp hmem
      exact hsettled.mpr (.inr hcompletes)
  · rintro past run future hhistory ⟨earlier, hmem, hcompletes⟩
    obtain ⟨rfl, rfl⟩ | ⟨rest, hold⟩ := split_snoc hhistory
    · exact hbefore.trans (h.completed earlier hmem hcompletes)
    · exact h.later past run rest hold ⟨earlier, hmem, hcompletes⟩
  · refine List.forall_mem_append.mpr ⟨h.selects, ?_⟩
    intro run hmem hflag
    cases List.mem_singleton.mp hmem
    exact @Surrounds.selects { request.begin ctx with after := _ } hsurrounds hflag

theorem Recorded.step (h : Recorded m) {l : Label} (hfits : Fits m l)
    (hstep : step m l = some m') : Recorded m' := by
  cases l with
  | edit key value =>
    simp only [Provisioning.step] at hstep
    split_ifs at hstep with hkey
    cases hstep
    exact h.edit value hkey
  | run request =>
    obtain ⟨ctx, hctx, rfl⟩ := Option.map_eq_some_iff.mp hstep
    exact h.run hctx hfits

end Invariant

/-- A document whose one playbook has the directive. -/
def playbookDocument (directive : String) : KeyedList String Json :=
  [("settings", .obj []), ("provisioner", .obj [("provisioning", .obj [("ansible", .obj
    [("enabled", .bool true), ("playbooks", .arr [.obj [("local", .arr [.obj
      [("playbook", .str "site.yml"), ("run", .str directive)]])]])])])])]

/-- A pipeline request on which everything succeeds. -/
def provisionRequest : Request where
  pipeline := true
  base := packagedZone
  next := 1
  entered := true
  outcome _ := .completed
  stampWrites := true
  date := "2026-01-01"
  time := "00:00:00.000"

end ZoneweaverAgent.Provisioning
