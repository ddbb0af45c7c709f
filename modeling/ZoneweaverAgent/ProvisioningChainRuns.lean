import ZoneweaverAgent.ProvisioningProgramme

/-!
# The chain follows the programme

Every builder appends the tasks of its part of the programme and links them to the id it was given;
the parts compose. The key rotation alone does not hand its id on.
-/

namespace ZoneweaverAgent.Provisioning

section Entries

theorem foldl_push {α β : Type*} (p : α → Bool) (f : α → β) (items : List α) (pushed : List β) :
    items.foldl (fun pushed item => if p item = true then pushed ++ [f item] else pushed) pushed =
      pushed ++ (items.filter p).map f := by
  induction items generalizing pushed with
  | nil => simp
  | cons item items ih =>
    rw [List.foldl_cons, ih]
    by_cases hp : p item = true <;> simp [hp]

theorem pushEntries_eq (mode : Mode) (ordered : List Json) (key : String) (value : Json) :
    pushEntries mode ordered (value.field key) = ordered ++ entriesOf mode key value := by
  unfold pushEntries entriesOf listField
  split
  · next items hitems =>
    rw [hitems]
    exact foldl_push _ _ items ordered
  · next hno =>
    cases hfield : value.field key with
    | none => simp
    | some entry =>
      cases entry with
      | arr items => exact absurd hfield (hno items)
      | _ => simp [Json.items?]

theorem pushGroup_eq (ordered : List Json) (group : Json) :
    pushGroup ordered group = ordered ++ groupEntries group := by
  have hlocal := pushEntries_eq .local ordered "local" group
  have hremote := pushEntries_eq .remote (ordered ++ entriesOf .local "local" group) "remote" group
  simp only [pushGroup, List.foldl_cons, List.foldl_nil, Mode.key, hlocal, hremote, groupEntries,
    List.append_assoc]

theorem foldl_pushGroup (groups ordered : List Json) :
    groups.foldl pushGroup ordered = ordered ++ groups.flatMap groupEntries := by
  induction groups generalizing ordered with
  | nil => simp
  | cons group groups ih =>
    rw [List.foldl_cons, ih, pushGroup_eq, List.flatMap_cons, List.append_assoc]

theorem extractOrderedPlaybooks_eq (provisioner : Json) :
    extractOrderedPlaybooks provisioner = documentPlaybooks provisioner := by
  have hflat : ∀ ordered : List Json,
      (if ordered.isEmpty then pushEntries .local ordered (provisioner.field "provisioners")
        else ordered) =
      if ordered = [] then entriesOf .local "provisioners" provisioner else ordered := by
    intro ordered
    cases ordered with
    | nil => simp [pushEntries_eq]
    | cons => rfl
  unfold extractOrderedPlaybooks documentPlaybooks playbookGroups
  simp only [hflat]
  cases ((provisioner.field "provisioning").bind (Json.field "ansible")).bind
    (Json.field "playbooks") with
  | none => rfl
  | some group =>
    cases group with
    | arr groups => simp only [foldl_pushGroup, List.nil_append]
    | _ => simp only [pushGroup_eq, List.nil_append, List.flatMap_singleton]

theorem foldl_included {α : Type*} (keep : α → Bool) (items : List α) (acc : List α × List α) :
    (items.foldl (fun acc item => if keep item = true then (acc.1 ++ [item], acc.2)
      else (acc.1, acc.2 ++ [item])) acc).1 = acc.1 ++ items.filter keep := by
  induction items generalizing acc with
  | nil => simp
  | cons item items ih =>
    rw [List.foldl_cons, ih]
    by_cases hkeep : keep item = true <;> simp [hkeep]

theorem filterHooksByRun_eq (hooks : List Hook) (before : Bool) :
    (filterHooksByRun hooks before).1 = hooks.filter fun hook => hook.run.selected before := by
  have hfold : filterHooksByRun hooks before = hooks.foldl (fun acc hook =>
      if hook.run.selected before = true then (acc.1 ++ [hook], acc.2)
      else (acc.1, acc.2 ++ [hook])) ([], []) := by
    unfold filterHooksByRun
    congr 1
    funext acc hook
    cases honce : hook.once <;> cases before <;> simp [honce, Hook.run, Run.selected]
  rw [hfold, foldl_included, List.nil_append]

theorem runs_eq (playbook : Json) (before : Bool) :
    (if orElseTruthy (playbook.field "run") (.str "once") = .str "always" then true
      else if orElseTruthy (playbook.field "run") (.str "once") = .str "not_first" then before
      else !before) = (playbookRun playbook).selected before := by
  unfold playbookRun orElseTruthy
  cases hfield : playbook.field "run" with
  | none => simp [Run.selected]
  | some value =>
    by_cases halways : value = .str "always"
    · simp [halways, Json.truthy, Run.selected]
    · by_cases hnot : value = .str "not_first"
      · simp [hnot, Json.truthy, Run.selected]
      · cases htruthy : value.truthy <;>
          simp [htruthy, halways, hnot, Run.selected]

theorem filterPlaybooksByRun_eq (playbooks : List Json) (before : Bool) :
    (filterPlaybooksByRun playbooks before).1 =
      playbooks.filter fun playbook => (playbookRun playbook).selected before := by
  have hfold : filterPlaybooksByRun playbooks before = playbooks.foldl (fun acc playbook =>
      if (playbookRun playbook).selected before = true then (acc.1 ++ [playbook], acc.2)
      else (acc.1, acc.2 ++ [playbook])) ([], []) := by
    unfold filterPlaybooksByRun
    congr 1
    funext acc playbook
    simp only [runs_eq]
  rw [hfold, foldl_included, List.nil_append]

end Entries

section Walk
variable (ctx : Context)

def Step.work (step : Step) : Work := (step.operation, step.metadata)

theorem readsTrue_eq_some {value : Option Json} (h : (readsTrue value).isSome = true) :
    readsTrue value = some ((value.map spellsTrue).getD false) := by
  cases value with
  | none => rfl
  | some v =>
    unfold readsTrue at h ⊢
    cases htext : v.hasText with
    | false => simp [htext] at h
    | true => simp [htext]

theorem collectHookSteps_work (phase : Phase) :
    (collectHookSteps ctx phase).map Step.work = hookProgramme ctx phase := by
  simp [collectHookSteps, hookProgramme, filterHooksByRun_eq, Step.work, Function.comp_def]

theorem collectAnsibleSteps_work (c : Collected) :
    (collectAnsibleSteps ctx c).steps.map Step.work =
      c.steps.map Step.work ++ playbookProgramme ctx := by
  have hplaybooks : ∀ playbooks : List Json, (playbooks.map (playbookStep ctx)).map Step.work =
      playbooks.map fun playbook =>
        (if isRemote playbook then .provisionRemote else .provision,
          .playbook ctx.target playbook ctx.channel) := by
    intro playbooks
    simp [Step.work, playbookStep, Function.comp_def]
  unfold collectAnsibleSteps playbookProgramme
  simp only [filterPlaybooksByRun_eq, extractOrderedPlaybooks_eq]
  split_ifs with hlocals
  · rw [List.map_append, hplaybooks, List.filter_filter]
    have hsupport : ∀ playbook, supportsPlaybook ctx playbook = isRemote playbook := by
      intro playbook
      simp [supportsPlaybook, hlocals.1]
    simp only [hsupport, Bool.and_comm]
  · rw [List.map_append, hplaybooks]
    congr 2
    apply List.filter_congr
    intro playbook hmem
    cases hselected : (playbookRun playbook).selected (hasZoneProvisionedBefore ctx)
    · rfl
    · have hsupport : supportsPlaybook ctx playbook = true := by
        cases hcomm : ctx.communicator with
        | ssh => simp [supportsPlaybook, hcomm]
        | winrm =>
          simp only [hcomm, true_and, Nat.not_lt, Nat.le_zero, List.countP_eq_zero] at hlocals
          have hremote := hlocals playbook (List.mem_filter.mpr ⟨hmem, hselected⟩)
          simpa [supportsPlaybook, hcomm] using hremote
      rw [hsupport]
      rfl

theorem collectAnsibleSteps_sawAnsible (c : Collected) :
    (collectAnsibleSteps ctx c).sawAnsible = c.sawAnsible := by
  simp only [collectAnsibleSteps]
  split_ifs <;> rfl

theorem collectAnsibleSteps_unmarked {c : Collected} (h : ∀ step ∈ c.steps, step.final = false) :
    ∀ step ∈ (collectAnsibleSteps ctx c).steps, step.final = false := by
  have hplaybooks : ∀ playbooks : List Json, ∀ step ∈ playbooks.map (playbookStep ctx),
      step.final = false := by
    intro playbooks step hstep
    obtain ⟨playbook, -, rfl⟩ := List.mem_map.mp hstep
    rfl
  simp only [collectAnsibleSteps]
  split_ifs <;> exact List.forall_mem_append.mpr ⟨h, hplaybooks _⟩

/-- The outcome of one method: what it adds, unless its gate cannot be read. -/
structure Adds (c c' : Collected) (works : List Work) (ansible : Bool) : Prop where
  work : c'.steps.map Step.work = c.steps.map Step.work ++ works
  sawAnsible : c'.sawAnsible = (c.sawAnsible || ansible)
  unmarked : (∀ step ∈ c.steps, step.final = false) → ∀ step ∈ c'.steps, step.final = false

theorem Adds.refl (c : Collected) : Adds c c [] false := ⟨by simp, by simp, id⟩

theorem collectShellSteps_eq_none_iff (shell : Json) (c : Collected) :
    collectShellSteps ctx shell c = none ↔ gateReadable ("shell", shell) = false := by
  unfold collectShellSteps extractShellScripts gateReadable
  cases shell.truthy <;> simp

theorem collectDockerSteps_eq_none_iff (docker : Json) (c : Collected) :
    collectDockerSteps ctx docker c = none ↔ gateReadable ("docker", docker) = false := by
  unfold collectDockerSteps extractDockerComposeFiles gateReadable
  cases docker.truthy <;> simp

theorem field_of_not_truthy {value : Json} (h : value.truthy = false) (key : String) :
    value.field key = none := by
  cases value with
  | obj fields => cases h
  | _ => rfl

theorem enabled_of_not_truthy {value : Json} (h : value.truthy = false) :
    enabled value = false := by
  simp [enabled, field_of_not_truthy h]

theorem enabled_of_readsTrue {value : Json} {flag : Bool}
    (h : readsTrue (value.field "enabled") = some flag) : enabled value = flag :=
  Option.some.inj ((readsTrue_eq_some (by simp [h])).symm.trans h)

theorem extractShellScripts_eq {shell : Json} {scripts : Option (List String)}
    (h : extractShellScripts shell = some scripts) :
    scripts = if enabled shell then ((shell.field "scripts").bind Json.items?).map scriptsOf
      else none := by
  unfold extractShellScripts at h
  cases htruthy : shell.truthy with
  | false =>
    rw [htruthy] at h
    cases h
    rw [enabled_of_not_truthy htruthy]
    rfl
  | true =>
    rw [htruthy] at h
    obtain ⟨flag, hflag, rfl⟩ := Option.map_eq_some_iff.mp h
    rw [enabled_of_readsTrue hflag]

theorem extractDockerComposeFiles_eq {docker : Json} {files : Option (List String)}
    (h : extractDockerComposeFiles docker = some files) :
    files = if enabled docker then some (scriptsOf (composeFiles docker)) else none := by
  unfold extractDockerComposeFiles at h
  cases htruthy : docker.truthy with
  | false =>
    rw [htruthy] at h
    cases h
    rw [enabled_of_not_truthy htruthy]
    rfl
  | true =>
    rw [htruthy] at h
    obtain ⟨flag, hflag, rfl⟩ := Option.map_eq_some_iff.mp h
    rw [enabled_of_readsTrue hflag]
    unfold composeFiles
    cases orElseNullish (docker.field "docker_compose")
      ((docker.field "docker-compose").getD .null) <;> rfl

theorem collectShellSteps_adds {shell : Json} {c c' : Collected}
    (h : collectShellSteps ctx shell c = some c') : Adds c c' (shellProgramme ctx shell) false := by
  have hsteps : ∀ scripts : List String, (scripts.map (shellStep ctx)).map Step.work =
      scripts.map fun script =>
        (.shell, .script ctx.target script (buildScriptEnv ctx) ctx.channel) := by
    intro scripts
    simp [Step.work, shellStep, Function.comp_def]
  obtain ⟨scripts, hscripts, rfl⟩ := Option.map_eq_some_iff.mp h
  rw [extractShellScripts_eq hscripts]
  unfold shellProgramme listField
  cases enabled shell with
  | false => exact Adds.refl c
  | true =>
    cases (shell.field "scripts").bind Json.items? with
    | none => exact Adds.refl c
    | some items =>
      refine ⟨by simp [hsteps], by simp, fun h => List.forall_mem_append.mpr ⟨h, ?_⟩⟩
      simp [shellStep]

theorem collectDockerSteps_adds {docker : Json} {c c' : Collected}
    (h : collectDockerSteps ctx docker c = some c') :
    Adds c c' (dockerProgramme ctx docker) false := by
  have hsteps : ∀ files : List String, (files.map (composeStep ctx)).map Step.work =
      files.map fun file => (.dockerCompose, .file ctx.target file) := by
    intro files
    simp [Step.work, composeStep, Function.comp_def]
  obtain ⟨files, hfiles, rfl⟩ := Option.map_eq_some_iff.mp h
  rw [extractDockerComposeFiles_eq hfiles]
  unfold dockerProgramme
  cases enabled docker with
  | false => simpa using Adds.refl c
  | true =>
    cases hcomm : ctx.communicator with
    | ssh =>
      refine ⟨by simp [hsteps], by simp, fun h => List.forall_mem_append.mpr ⟨h, ?_⟩⟩
      simp [composeStep]
    | winrm => exact ⟨by simp, by simp, id⟩

theorem collectMethodSteps_eq_none_iff (key : String) (value : Json) (c : Collected) :
    collectMethodSteps ctx key value c = none ↔ gateReadable (key, value) = false := by
  unfold collectMethodSteps
  split_ifs with hshell hansible hdocker
  · subst hshell
    exact collectShellSteps_eq_none_iff ctx value c
  · subst hansible
    simp [gateReadable]
  · subst hdocker
    exact collectDockerSteps_eq_none_iff ctx value c
  · simp [gateReadable, hshell, hansible, hdocker]

theorem collectMethodSteps_adds {key : String} {value : Json} {c c' : Collected}
    (h : collectMethodSteps ctx key value c = some c') :
    Adds c c' (methodProgramme ctx (key, value)) (key = "ansible") := by
  unfold collectMethodSteps at h
  split_ifs at h with hshell hansible hdocker
  · subst hshell
    simpa [methodProgramme] using collectShellSteps_adds ctx h
  · subst hansible
    obtain ⟨flag, hflag, rfl⟩ := Option.map_eq_some_iff.mp h
    have hread := @readsTrue_eq_some (value.field "enabled") (by simp [hflag])
    have henabled : enabled value = flag := Option.some.inj (hread.symm.trans hflag)
    cases flag with
    | false => exact ⟨by simp [methodProgramme, henabled], by simp, id⟩
    | true =>
      constructor
      · simp [methodProgramme, henabled, collectAnsibleSteps_work]
      · simp [collectAnsibleSteps_sawAnsible]
      · exact collectAnsibleSteps_unmarked ctx (c := { c with sawAnsible := true })
  · subst hdocker
    simpa [methodProgramme] using collectDockerSteps_adds ctx h
  · cases h
    constructor
    · simp [methodProgramme, hshell, hansible, hdocker]
    · simp [hansible]
    · exact id

theorem gateReadable_of_hook {key : String} (h : key = "pre" ∨ key = "post") (value : Json) :
    gateReadable (key, value) = true := by
  rcases h with rfl | rfl <;> rfl

theorem methodProgramme_of_hook {key : String} (h : key = "pre" ∨ key = "post") (value : Json) :
    methodProgramme ctx (key, value) = [] := by
  rcases h with rfl | rfl <;> rfl

theorem collectMethods_eq_none_iff (methods : List (String × Json)) (c : Collected) :
    collectMethods ctx methods c = none ↔ ∃ method ∈ methods, gateReadable method = false := by
  induction methods generalizing c with
  | nil => simp [collectMethods]
  | cons method methods ih =>
    obtain ⟨key, value⟩ := method
    rw [collectMethods, List.exists_mem_cons_iff]
    split_ifs with hkey
    · rw [ih, gateReadable_of_hook hkey]
      simp
    · rw [← collectMethodSteps_eq_none_iff ctx key value c]
      cases hsteps : collectMethodSteps ctx key value c with
      | none => simp
      | some c' => simp [ih]

theorem collectMethods_adds {methods : List (String × Json)} {c c' : Collected}
    (h : collectMethods ctx methods c = some c') :
    Adds c c' (methods.flatMap (methodProgramme ctx))
      (methods.any fun method => method.1 = "ansible") := by
  induction methods generalizing c with
  | nil =>
    cases h
    exact Adds.refl _
  | cons method methods ih =>
    obtain ⟨key, value⟩ := method
    rw [collectMethods] at h
    rw [List.flatMap_cons, List.any_cons]
    split_ifs at h with hkey
    · have hansible : key ≠ "ansible" := by
        rcases hkey with rfl | rfl <;> decide
      rw [methodProgramme_of_hook ctx hkey, List.nil_append, decide_eq_false hansible,
        Bool.false_or]
      exact ih h
    · obtain ⟨d, hsteps, hrest⟩ := Option.bind_eq_some_iff.mp h
      have hone := collectMethodSteps_adds ctx hsteps
      have htwo := ih hrest
      constructor
      · rw [htwo.work, hone.work, List.append_assoc]
      · rw [htwo.sawAnsible, hone.sawAnsible, Bool.or_assoc]
      · exact fun hc => htwo.unmarked (hone.unmarked hc)

theorem markFinal_work (steps : List Step) :
    (markFinal steps).map Step.work = steps.map Step.work := by
  induction steps with
  | nil => rfl
  | cons step rest ih =>
    cases rest with
    | nil => rfl
    | cons next rest => rw [markFinal, List.map_cons, ih, ← List.map_cons]

theorem markFinal_final {steps : List Step} (h : ∀ step ∈ steps, step.final = false) :
    (markFinal steps).map Step.final = lastOnly steps.length := by
  induction steps with
  | nil => rfl
  | cons step rest ih =>
    cases rest with
    | nil => rfl
    | cons next rest =>
      obtain ⟨hstep, hrest⟩ := List.forall_mem_cons.mp h
      rw [markFinal, List.map_cons, ih hrest, hstep]
      rfl

theorem length_markFinal (steps : List Step) : (markFinal steps).length = steps.length := by
  rw [← List.length_map Step.work, markFinal_work, List.length_map]

theorem collectWalkSteps_eq_none_iff :
    collectWalkSteps ctx = none ↔ ∃ method ∈ methodSection ctx, gateReadable method = false := by
  rw [collectWalkSteps, Option.map_eq_none_iff, collectMethods_eq_none_iff]

theorem collectWalkSteps_spec {steps : List Step} {notes : List Note}
    (h : collectWalkSteps ctx = some (steps, notes)) :
    steps.map Step.work = walkProgramme ctx ∧ steps.map Step.final = lastOnly steps.length := by
  obtain ⟨c, hmethods, hcollected⟩ := Option.map_eq_some_iff.mp h
  have hadds := collectMethods_adds ctx hmethods
  have hsaw : c.sawAnsible = declaresAnsible ctx := by
    rw [hadds.sawAnsible, Bool.false_or]
    rfl
  have hhooks : ∀ phase, ∀ step ∈ collectHookSteps ctx phase, step.final = false := by
    intro phase step hstep
    obtain ⟨hook, -, rfl⟩ := List.mem_map.mp hstep
    rfl
  have hflat : Adds c (if !c.sawAnsible && flatProvisioners ctx then collectAnsibleSteps ctx c
      else c) (flatProgramme ctx) false := by
    unfold flatProgramme
    rw [hsaw]
    split_ifs with hfires
    · exact ⟨collectAnsibleSteps_work ctx c, by simp [collectAnsibleSteps_sawAnsible],
        collectAnsibleSteps_unmarked ctx⟩
    · exact .refl c
  obtain ⟨rfl, -⟩ := Prod.mk.inj hcollected
  constructor
  · rw [markFinal_work, List.map_append, hflat.work, hadds.work, collectHookSteps_work,
      collectHookSteps_work]
    rfl
  · rw [length_markFinal]
    exact markFinal_final (List.forall_mem_append.mpr
      ⟨hflat.unmarked (hadds.unmarked (hhooks .pre)), hhooks .post⟩)

end Walk

section Links

/-- The first task depends on the one id, the last one has the other. -/
def LinkedTo : Option TaskId → List Task → Option TaskId → Prop
  | prev, [], last => prev = last
  | prev, task :: rest, last => task.dependsOn = prev ∧ LinkedTo (some task.id) rest last

theorem LinkedTo.append {a b c : Option TaskId} {tasks more : List Task}
    (h : LinkedTo a tasks b) (h' : LinkedTo b more c) : LinkedTo a (tasks ++ more) c := by
  induction tasks generalizing a with
  | nil =>
    cases h
    exact h'
  | cons task tasks ih => exact ⟨h.1, ih h.2⟩

theorem LinkedTo.linear_append {a b : Option TaskId} {tasks : List Task}
    (h : LinkedTo a tasks b) (more : List Task) :
    Linear a (tasks ++ more) ↔ Linear b more := by
  induction tasks generalizing a with
  | nil =>
    cases h
    rfl
  | cons task tasks ih =>
    rw [List.cons_append, Linear, ih h.2]
    exact and_iff_right h.1

abbrev Plan := List (Work × Bool)

def Task.planned (task : Task) : Work × Bool := (task.work, task.final)

theorem works_append (tasks more : List Task) : works (tasks ++ more) = works tasks ++ works more :=
  List.filter_append tasks more

/-- A builder has created these tasks for this part of the plan. -/
structure Queues (tasks : List Task) (plan : Plan) (built built' : Chain × Option TaskId) :
    Prop where
  created : built'.1.created = built.1.created ++ tasks
  linked : LinkedTo built.2 (works tasks) built'.2
  planned : (works tasks).map Task.planned = plan
  anchors : ∀ task ∈ tasks, task.anchor = true →
    task.final = false ∧ task.operation.isWalk = false
  known : (∃ id, built.2 = some id ∧ id < built.1.next) →
    ∃ id, built'.2 = some id ∧ id < built'.1.next

theorem Queues.append {tasks more : List Task} {plan plan' : Plan}
    {a b c : Chain × Option TaskId} (h : Queues tasks plan a b) (h' : Queues more plan' b c) :
    Queues (tasks ++ more) (plan ++ plan') a c where
  created := by rw [h'.created, h.created, List.append_assoc]
  linked := by
    rw [works_append]
    exact h.linked.append h'.linked
  planned := by rw [works_append, List.map_append, h.planned, h'.planned]
  anchors := List.forall_mem_append.mpr ⟨h.anchors, h'.anchors⟩
  known hid := h'.known (h.known hid)

/-- One task that depends on the id before it and hands on its own. -/
theorem queues_create (chain : Chain) (operation : Operation) (metadata : Metadata) (final : Bool)
    (prev : Option TaskId) (parentTaskId : TaskId) (note : List Note) :
    Queues [⟨chain.next, operation, false, metadata, final, prev, parentTaskId⟩]
      [((operation, metadata), final)] (chain, prev)
      ({ chain.create ⟨chain.next, operation, false, metadata, final, prev, parentTaskId⟩ with
        taskChain := note }, some chain.next) where
  created := rfl
  linked := ⟨rfl, rfl⟩
  planned := rfl
  anchors := by simp
  known _ := ⟨chain.next, rfl, Nat.lt_succ_self _⟩

def Queued (plan : Plan) (built built' : Chain × Option TaskId) : Prop :=
  ∃ tasks, Queues tasks plan built built'

theorem Queued.nothing (built : Chain × Option TaskId) : Queued [] built built :=
  ⟨[], by simp, rfl, rfl, by simp, id⟩

theorem Queued.push (chain : Chain) (note : Note) (prev : Option TaskId) :
    Queued [] (chain, prev) (chain.push note, prev) :=
  ⟨[], by simp [Chain.push], rfl, rfl, by simp, id⟩

theorem Queued.append {plan plan' : Plan} {a b c : Chain × Option TaskId} (h : Queued plan a b)
    (h' : Queued plan' b c) : Queued (plan ++ plan') a c := by
  obtain ⟨tasks, htasks⟩ := h
  obtain ⟨more, hmore⟩ := h'
  exact ⟨tasks ++ more, htasks.append hmore⟩

variable (ctx : Context)

theorem queued_queueStep (operation : Operation) (metadata : Metadata) (step : String)
    (chain : Chain) (prev : Option TaskId) : Queued [((operation, metadata), false)]
      (chain, prev) (queueStep ctx operation metadata step chain prev) :=
  ⟨_, queues_create chain operation metadata false prev ctx.parentTaskId _⟩

theorem queued_transfers (operation : Operation) (anchor : TaskId) (folders : List Json)
    (chain : Chain) (prev : Option TaskId) :
    Queued (folders.map fun folder => ((operation, .folder ctx.target folder), false))
      (chain, prev) (createSequentialTransferTasks ctx operation anchor folders chain prev) := by
  induction folders generalizing chain prev with
  | nil => exact .nothing _
  | cons folder folders ih =>
    have hfirst : Queued [((operation, .folder ctx.target folder), false)] (chain, prev) _ :=
      ⟨_, queues_create chain operation (.folder ctx.target folder) false prev anchor
        chain.taskChain⟩
    exact hfirst.append (ih _ (some chain.next))

theorem queued_bracket {parent operation : Operation} (hparent : parent.isWalk = false)
    (step skipped : String) (folders : List Json) (chain : Chain) (prev : Option TaskId) :
    Queued ((folderProgramme ctx operation folders).map (·, false))
      (chain, prev) (queueBracket ctx parent operation step skipped folders chain prev) := by
  unfold queueBracket folderProgramme
  by_cases hnone : folders.isEmpty = true
  · rw [if_pos hnone, List.isEmpty_iff.mp hnone]
    simpa using Queued.nothing (chain, prev)
  · rw [if_neg hnone]
    cases hcomm : ctx.communicator with
    | winrm => simpa using Queued.push chain _ prev
    | ssh =>
      have hanchor : Queued [] (chain, prev)
          ((chain.create ⟨chain.next, parent, true, .folders folders.length, false, none,
            ctx.parentTaskId⟩).push
              ⟨step, some chain.next, [("folder_count", .num folders.length)]⟩, prev) :=
        ⟨[⟨chain.next, parent, true, .folders folders.length, false, none, ctx.parentTaskId⟩],
          rfl, rfl, rfl, by simp [hparent],
          fun ⟨id, hid, hlt⟩ => ⟨id, hid, Nat.lt_succ_of_lt hlt⟩⟩
      rw [if_pos rfl, List.map_map]
      exact hanchor.append (queued_transfers ctx operation chain.next folders _ prev)

theorem queued_sync (folders : List Json) (chain : Chain) (prev : Option TaskId) :
    Queued ((folderProgramme ctx .sync folders).map (·, false)) (chain, prev)
      (queueSyncBracket ctx folders chain prev) :=
  queued_bracket ctx rfl "sync_parent" "sync_skipped_winrm" folders chain prev

theorem queued_walk (steps : List Step) (built : Chain × Option TaskId) :
    Queued (steps.map fun step => (step.work, step.final)) built
      (steps.foldl (queueWalkStep ctx) built) := by
  induction steps generalizing built with
  | nil => exact .nothing _
  | cons step steps ih =>
    have hfirst : Queued [(step.work, step.final)] built (queueWalkStep ctx built step) :=
      ⟨_, queues_create built.1 step.operation step.metadata step.final built.2
        ctx.parentTaskId _⟩
    exact hfirst.append (ih _)

theorem queued_content (path : String) (chain : Chain) :
    Queued ((contentProgramme ctx path).map (·, false)) (chain, ctx.firstDependsOn)
      ((queueContentStep ctx path chain).1,
        (queueContentStep ctx path chain).2.or ctx.firstDependsOn) := by
  unfold queueContentStep contentProgramme
  cases ctx.artifactId.filter Json.truthy with
  | some artifactId => exact queued_queueStep ctx _ _ _ chain _
  | none =>
    cases ctx.zoneConfig.field "provisioner_ref" with
    | none => exact .nothing _
    | some ref =>
      cases hname : (ref.field "name").filter Json.truthy with
      | none => simpa [hname] using Queued.nothing (chain, ctx.firstDependsOn)
      | some name =>
        simp only [hname]
        exact queued_queueStep ctx _ _ _ chain _

theorem queued_bootAndSetup (chain : Chain) (prev : Option TaskId) :
    Queued ((bootProgramme ctx ++ setupProgramme ctx).map (·, false)) (chain, prev)
      (queueBootAndSetupSteps ctx chain prev) := by
  have hboot : Queued ((bootProgramme ctx).map (·, false)) (chain, prev)
      (if !ctx.skipBoot && ctx.zoneStatus ≠ "running" then
        queueStep ctx .start .none "boot" chain prev
      else (chain, prev)) := by
    unfold bootProgramme
    by_cases hboots : ctx.skipBoot = false ∧ ctx.zoneStatus ≠ "running"
    · rw [if_pos hboots, if_pos (by simpa using hboots)]
      exact queued_queueStep ctx _ _ _ chain prev
    · rw [if_neg hboots, if_neg (by simpa using hboots)]
      exact .nothing _
  unfold queueBootAndSetupSteps setupProgramme
  rw [List.map_append]
  cases ctx.recipeId.filter Json.truthy with
  | none => simpa using hboot
  | some recipeId =>
    by_cases hsetup : ctx.skipRecipe = false ∧ shouldSkipZoneSetup ctx = false
    · rw [if_pos hsetup]
      simp only [hsetup.1, hsetup.2, Bool.not_false, Bool.and_self, if_true]
      exact hboot.append (queued_queueStep ctx _ _ _ _ _)
    · have hskips : (!ctx.skipRecipe && !shouldSkipZoneSetup ctx) = false := by
        simpa using hsetup
      rw [if_neg hsetup]
      simp only [hskips]
      simpa using hboot

theorem queued_infra (path : String) (next : TaskId) :
    Queued ((contentProgramme ctx path ++ (bootProgramme ctx ++ setupProgramme ctx) ++
        [(Operation.waitSsh, Metadata.waitSsh ctx.target ctx.channel)]).map (·, false))
      (⟨next, [], shadowedNote ctx⟩, ctx.firstDependsOn) (queueInfraSteps ctx path next) := by
  have hcontent := queued_content ctx path ⟨next, [], shadowedNote ctx⟩
  have hsetup := queued_bootAndSetup ctx (queueContentStep ctx path ⟨next, [], shadowedNote ctx⟩).1
    ((queueContentStep ctx path ⟨next, [], shadowedNote ctx⟩).2.or ctx.firstDependsOn)
  rw [List.map_append, List.map_append]
  exact (hcontent.append hsetup).append (queued_queueStep ctx _ _ _ _ _)

theorem syncbackEligibleFolders_eq_none_iff (folders : List Json) :
    syncbackEligibleFolders folders = none ↔
      ∃ folder ∈ folders, syncbackEligible folder = none := by
  induction folders with
  | nil => simp [syncbackEligibleFolders]
  | cons folder folders ih =>
    rw [syncbackEligibleFolders, List.exists_mem_cons_iff]
    cases heligible : syncbackEligible folder with
    | none => simp
    | some eligible => simp [ih]

theorem syncbackEligibleFolders_eq_some {folders flagged : List Json}
    (h : syncbackEligibleFolders folders = some flagged) :
    flagged = folders.filter fun folder => syncbackEligible folder = some true := by
  induction folders generalizing flagged with
  | nil =>
    cases h
    rfl
  | cons folder folders ih =>
    obtain ⟨eligible, heligible, hrest⟩ := Option.bind_eq_some_iff.mp h
    obtain ⟨rest, hfolders, rfl⟩ := Option.map_eq_some_iff.mp hrest
    rw [ih hfolders]
    cases eligible <;> simp [heligible]

theorem queued_syncback {built built' : Chain × Option TaskId}
    (h : queueSyncbackBracket ctx (extractFolders ctx.provisioning) built.1 built.2 =
      some built') :
    Queued ((folderProgramme ctx .syncback (flaggedFolders ctx)).map (·, false)) built built' := by
  obtain ⟨flagged, hflagged, rfl⟩ := Option.map_eq_some_iff.mp h
  rw [flaggedFolders, ← syncbackEligibleFolders_eq_some hflagged]
  exact queued_bracket ctx rfl _ _ flagged built.1 built.2

theorem queued_provisioningWalk {built built' : Chain × Option TaskId}
    (h : buildProvisioningWalk ctx built.1 built.2 = some built') :
    ∃ steps notes, collectWalkSteps ctx = some (steps, notes) ∧
      Queued (steps.map fun step => (step.work, step.final)) built built' := by
  obtain ⟨⟨steps, notes⟩, hsteps, rfl⟩ := Option.map_eq_some_iff.mp h
  obtain ⟨tasks, hwalk⟩ := queued_walk ctx steps
    ({ built.1 with taskChain := built.1.taskChain ++ notes }, built.2)
  exact ⟨steps, notes, hsteps, tasks, hwalk.created, hwalk.linked, hwalk.planned, hwalk.anchors,
    hwalk.known⟩

/-- The plan of the chain up to the syncback. -/
def stepsPlan (path : String) (steps : List Step) : Plan :=
  (openingProgramme ctx path).map (·, false) ++ steps.map (fun step => (step.work, step.final)) ++
    (folderProgramme ctx .syncback (flaggedFolders ctx)).map (·, false)

theorem queues_provisioningSteps {next : TaskId} {built : Chain × Option TaskId}
    (h : buildProvisioningSteps ctx next = some built) :
    ∃ path ∈ provisioningDatasetPath ctx, ∃ steps notes,
      collectWalkSteps ctx = some (steps, notes) ∧
      Queued (stepsPlan ctx path steps) (⟨next, [], shadowedNote ctx⟩, ctx.firstDependsOn) built ∧
      ∃ id, built.2 = some id ∧ id < built.1.next := by
  obtain ⟨path, hpath, hrest⟩ := Option.bind_eq_some_iff.mp h
  obtain ⟨walked, hwalked, hback⟩ := Option.bind_eq_some_iff.mp hrest
  have hsync := queued_sync ctx (extractFolders ctx.provisioning) (queueInfraSteps ctx path next).1
    (queueInfraSteps ctx path next).2
  obtain ⟨steps, notes, hsteps, hwalk⟩ := queued_provisioningWalk ctx hwalked
  have hafter := (hsync.append hwalk).append (queued_syncback ctx hback)
  refine ⟨path, hpath, steps, notes, hsteps, ?_, ?_⟩
  · simpa [stepsPlan, openingProgramme] using (queued_infra ctx path next).append hafter
  · obtain ⟨tasks, htasks⟩ := hafter
    exact htasks.known ⟨_, rfl, Nat.lt_succ_self _⟩

theorem buildProvisioningSteps_eq_none_iff (next : TaskId) :
    buildProvisioningSteps ctx next = none ↔ ¬ Buildable ctx := by
  have hpath : provisioningDatasetPath ctx = none ↔ ∃ value ∈
      (ctx.zoneConfig.field "zonepath").filter Json.truthy, Json.text? value = none := by
    unfold provisioningDatasetPath
    cases (ctx.zoneConfig.field "zonepath").filter Json.truthy with
    | none => simp
    | some value => cases value <;> simp [Json.text?]
  have hwalk : ∀ chain prev, buildProvisioningWalk ctx chain prev = none ↔
      ∃ method ∈ methodSection ctx, gateReadable method = false := by
    intro chain prev
    rw [buildProvisioningWalk, Option.map_eq_none_iff, collectWalkSteps_eq_none_iff]
  have hback : ∀ folders chain prev, queueSyncbackBracket ctx folders chain prev = none ↔
      ∃ folder ∈ folders, syncbackEligible folder = none := by
    intro folders chain prev
    rw [queueSyncbackBracket, Option.map_eq_none_iff, syncbackEligibleFolders_eq_none_iff]
  constructor
  · intro h hbuildable
    rw [buildProvisioningSteps, Option.bind_eq_none_iff] at h
    cases hdataset : provisioningDatasetPath ctx with
    | none =>
      obtain ⟨value, hvalue, hnone⟩ := hpath.mp hdataset
      simpa [hnone] using hbuildable.zonepath value hvalue
    | some path =>
      cases hwalked : buildProvisioningWalk ctx
        (queueSyncBracket ctx (extractFolders ctx.provisioning) (queueInfraSteps ctx path next).1
          (queueInfraSteps ctx path next).2).1
        (queueSyncBracket ctx (extractFolders ctx.provisioning) (queueInfraSteps ctx path next).1
          (queueInfraSteps ctx path next).2).2 with
      | none =>
        obtain ⟨method, hmem, hgate⟩ := (hwalk _ _).mp hwalked
        rw [hbuildable.gates method hmem] at hgate
        cases hgate
      | some walked =>
        have hnone := h path hdataset
        simp only [hwalked, Option.bind_some] at hnone
        obtain ⟨folder, hmem, hfolder⟩ := (hback _ _ _).mp hnone
        simpa [hfolder] using hbuildable.folders folder hmem
  · intro hbuildable
    by_contra h
    obtain ⟨built, hbuilt⟩ := Option.ne_none_iff_exists'.mp h
    obtain ⟨path, hdataset, hrest⟩ := Option.bind_eq_some_iff.mp hbuilt
    obtain ⟨walked, hwalked, hlast⟩ := Option.bind_eq_some_iff.mp hrest
    apply hbuildable
    constructor
    · intro value hvalue
      by_contra hnone
      rw [Option.not_isSome_iff_eq_none] at hnone
      rw [hpath.mpr ⟨value, hvalue, hnone⟩] at hdataset
      cases hdataset
    · intro method hmem
      by_contra hgate
      rw [(hwalk _ _).mpr ⟨method, hmem, Bool.not_eq_true _ ▸ hgate⟩] at hwalked
      cases hwalked
    · intro folder hmem
      by_contra hnone
      rw [Option.not_isSome_iff_eq_none] at hnone
      rw [(hback _ _ _).mpr ⟨folder, hmem, hnone⟩] at hlast
      cases hlast

end Links

section Closing
variable (ctx : Context)

theorem isWalk_of_mem_walkProgramme {work : Work} (h : work ∈ walkProgramme ctx) :
    work.1.isWalk = true := by
  have hhooks : ∀ phase, ∀ work ∈ hookProgramme ctx phase, work.1.isWalk = true := by
    intro phase work hmem
    obtain ⟨hook, -, rfl⟩ := List.mem_map.mp hmem
    rfl
  have hplaybooks : ∀ work ∈ playbookProgramme ctx, work.1.isWalk = true := by
    intro work hmem
    obtain ⟨playbook, -, rfl⟩ := List.mem_map.mp hmem
    simp only
    split_ifs <;> rfl
  have hmethods : ∀ method, ∀ work ∈ methodProgramme ctx method, work.1.isWalk = true := by
    intro method work hmem
    unfold methodProgramme shellProgramme dockerProgramme at hmem
    split_ifs at hmem
    · obtain ⟨script, -, rfl⟩ := List.mem_map.mp hmem
      rfl
    · cases hmem
    · exact hplaybooks work hmem
    · cases hmem
    · obtain ⟨file, -, rfl⟩ := List.mem_map.mp hmem
      rfl
    · cases hmem
    · cases hmem
  have hflat : ∀ work ∈ flatProgramme ctx, work.1.isWalk = true := by
    intro work hmem
    unfold flatProgramme at hmem
    split_ifs at hmem
    · exact hplaybooks work hmem
    · cases hmem
  rw [walkProgramme, List.mem_append, List.mem_append, List.mem_append, List.mem_flatMap] at h
  rcases h with ((hpre | ⟨method, -, hmethod⟩) | hsection) | hpost
  · exact hhooks _ work hpre
  · exact hmethods method work hmethod
  · exact hflat work hsection
  · exact hhooks _ work hpost

/-- A step that every run has, whatever the entries of its document. -/
def Plain (work : Work) : Prop := work.1.isWalk = false ∧ work.2.entryRun = none

theorem plain_of_mem_opening {path : String} {work : Work}
    (h : work ∈ openingProgramme ctx path) : Plain work := by
  unfold openingProgramme contentProgramme bootProgramme setupProgramme folderProgramme at h
  simp only [List.mem_append, List.mem_singleton] at h
  rcases h with (((hcontent | hboot) | hsetup) | rfl) | hsync
  · split at hcontent
    · rw [List.mem_singleton.mp hcontent]
      exact ⟨rfl, rfl⟩
    · split at hcontent
      · obtain ⟨name, -, rfl⟩ := List.mem_map.mp hcontent
        exact ⟨rfl, rfl⟩
      · cases hcontent
  · split_ifs at hboot
    · rw [List.mem_singleton.mp hboot]
      exact ⟨rfl, rfl⟩
    · cases hboot
  · split_ifs at hsetup
    · obtain ⟨recipeId, -, rfl⟩ := List.mem_map.mp hsetup
      exact ⟨rfl, rfl⟩
    · cases hsetup
  · exact ⟨rfl, rfl⟩
  · split_ifs at hsync
    · obtain ⟨folder, -, rfl⟩ := List.mem_map.mp hsync
      exact ⟨rfl, rfl⟩
    · cases hsync

theorem plain_of_mem_closing {work : Work} (h : work ∈ closingProgramme ctx) : Plain work := by
  unfold closingProgramme folderProgramme rotationProgramme removalProgramme at h
  simp only [List.mem_append] at h
  rcases h with (hback | hrotation) | hremoval
  · split_ifs at hback
    · obtain ⟨folder, -, rfl⟩ := List.mem_map.mp hback
      exact ⟨rfl, rfl⟩
    · cases hback
  · split_ifs at hrotation
    · rw [List.mem_singleton.mp hrotation]
      exact ⟨rfl, rfl⟩
    · cases hrotation
  · split_ifs at hremoval
    · simp only [List.mem_cons, List.not_mem_nil, or_false] at hremoval
      rcases hremoval with rfl | rfl | rfl <;> exact ⟨rfl, rfl⟩
    · cases hremoval

/-- The marks of a chain whose plan marks the last step of its walk. -/
theorem marks_of_plan {tasks : List Task} {opening closing : List Work} {steps : List Step}
    (hplanned : (works tasks).map Task.planned = opening.map (·, false) ++
      steps.map (fun step => (step.work, step.final)) ++ closing.map (·, false))
    (hanchors : ∀ task ∈ tasks, task.anchor = true →
      task.final = false ∧ task.operation.isWalk = false)
    (hopening : ∀ work ∈ opening, work.1.isWalk = false)
    (hclosing : ∀ work ∈ closing, work.1.isWalk = false)
    (hwalk : ∀ step ∈ steps, step.operation.isWalk = true) :
    (walkTasks tasks).map Task.final = steps.map Step.final ∧
      ∀ task ∈ tasks, task.final = true → task.operation.isWalk = true := by
  have hworks : walkTasks tasks = (works tasks).filter fun task => task.operation.isWalk := by
    rw [works, List.filter_filter]
    apply List.filter_congr
    intro task hmem
    cases hanchor : task.anchor with
    | false => simp
    | true => simp [(hanchors task hmem hanchor).2]
  have hfilter : ((works tasks).filter fun task => task.operation.isWalk).map Task.planned =
      steps.map fun step => (step.work, step.final) := by
    have hmap := List.filter_map (p := fun planned : Work × Bool => planned.1.1.isWalk)
      (f := Task.planned) (l := works tasks)
    have hnone : ∀ part : List Work, (∀ work ∈ part, work.1.isWalk = false) →
        (part.map (·, false)).filter (fun planned : Work × Bool => planned.1.1.isWalk) = [] := by
      intro part hpart
      rw [List.filter_eq_nil_iff]
      rintro planned hmem
      obtain ⟨work, hwork, rfl⟩ := List.mem_map.mp hmem
      simp [hpart work hwork]
    have hsteps : (steps.map fun step => (step.work, step.final)).filter
        (fun planned : Work × Bool => planned.1.1.isWalk) =
          steps.map fun step => (step.work, step.final) := by
      rw [List.filter_eq_self]
      rintro planned hmem
      obtain ⟨step, hstep, rfl⟩ := List.mem_map.mp hmem
      exact hwalk step hstep
    rw [hplanned, List.filter_append, List.filter_append, hnone _ hopening, hnone _ hclosing,
      hsteps, List.nil_append, List.append_nil] at hmap
    exact hmap.symm
  constructor
  · have hsnd := congrArg (List.map Prod.snd) hfilter
    rw [← hworks] at hsnd
    simpa [Task.planned, Function.comp_def] using hsnd
  · intro task hmem hfinal
    cases hanchor : task.anchor with
    | true =>
      rw [(hanchors task hmem hanchor).1] at hfinal
      cases hfinal
    | false =>
      have hplan : task.planned ∈ (works tasks).map Task.planned :=
        List.mem_map_of_mem (List.mem_filter.mpr ⟨hmem, by simp [hanchor]⟩)
      rw [hplanned, List.mem_append, List.mem_append] at hplan
      have hunmarked : ∀ part : List Work, task.planned ∉ part.map (·, false) := by
        intro part hpart
        obtain ⟨work, -, heq⟩ := List.mem_map.mp hpart
        rw [Task.planned, Prod.mk.injEq] at heq
        rw [← heq.2] at hfinal
        cases hfinal
      rcases hplan with (hleft | hstep) | hright
      · exact absurd hleft (hunmarked opening)
      · obtain ⟨step, hstep, heq⟩ := List.mem_map.mp hstep
        have hoperation : step.operation = task.operation := congrArg (fun p => p.1.1) heq
        rw [← hoperation]
        exact hwalk step hstep
      · exact absurd hright (hunmarked closing)

/-- The tasks behind the syncback: where a rotation precedes the removal, both depend on `prev`. -/
theorem closing_tasks {chain : Chain} {id : TaskId} (hid : id < chain.next) : ∃ rest,
    (queueTransportRemoval ctx (queueKeyRotation ctx chain (some id)) (some id)).created =
      chain.created ++ rest ∧ (∀ task ∈ rest, task.anchor = false) ∧
    rest.map Task.planned = (rotationProgramme ctx ++ removalProgramme ctx).map (·, false) ∧
    (Linear (some id) rest ↔ ¬ RotatesAndRemoves ctx) := by
  have hne : id ≠ chain.next := Nat.ne_of_lt hid
  unfold RotatesAndRemoves queueTransportRemoval queueKeyRotation rotationProgramme removalProgramme
  cases hremoves : removesTransport ctx with
  | false =>
    cases hrotates : rotatesKey ctx with
    | false => exact ⟨[], by simp [Linear]⟩
    | true =>
      cases hcomm : ctx.communicator with
      | winrm => exact ⟨[], by simp [Chain.push, Linear]⟩
      | ssh =>
        refine ⟨[⟨chain.next, .keyRotate, false, .rotate ctx.target .ssh, false, some id,
          ctx.parentTaskId⟩], ?_⟩
        simp [queueStep, Chain.create, Chain.push, Task.planned, Task.work, Linear]
  | true =>
    by_cases hrotates : rotatesKey ctx = true ∧ ctx.communicator = .ssh
    · refine ⟨[⟨chain.next, .keyRotate, false, .rotate ctx.target .ssh, false, some id,
          ctx.parentTaskId⟩,
        ⟨chain.next + 1, .transportRemove, false, .none, false, some id, ctx.parentTaskId⟩,
        ⟨chain.next + 2, .stop, false, .none, false, some (chain.next + 1), ctx.parentTaskId⟩,
        ⟨chain.next + 3, .start, false, .none, false, some (chain.next + 2),
          ctx.parentTaskId⟩], ?_⟩
      simp [hrotates.1, hrotates.2, queueStep, Chain.create, Chain.push, Task.planned, Task.work,
        Linear, hne]
    · refine ⟨[⟨chain.next, .transportRemove, false, .none, false, some id, ctx.parentTaskId⟩,
        ⟨chain.next + 1, .stop, false, .none, false, some chain.next, ctx.parentTaskId⟩,
        ⟨chain.next + 2, .start, false, .none, false, some (chain.next + 1),
          ctx.parentTaskId⟩], ?_⟩
      cases hrotation : rotatesKey ctx with
      | false =>
        simp [queueStep, Chain.create, Chain.push, Task.planned, Task.work, Linear]
      | true =>
        cases hcomm : ctx.communicator with
        | ssh => exact absurd ⟨hrotation, hcomm⟩ hrotates
        | winrm => simp [queueStep, Chain.create, Chain.push, Task.planned, Task.work, Linear]

theorem works_of_no_anchor {tasks : List Task} (h : ∀ task ∈ tasks, task.anchor = false) :
    works tasks = tasks := by
  rw [works, List.filter_eq_self]
  intro task hmem
  simp [h task hmem]

/-- Everything but the one link holds of every chain that is built. -/
theorem programmed_iff_of_built {next : TaskId} {chain : Chain}
    (h : buildProvisioningTaskChain ctx next = some chain) :
    Programmed ctx chain.created ↔ ¬ RotatesAndRemoves ctx := by
  obtain ⟨built, hbuilt, rfl⟩ := Option.map_eq_some_iff.mp h
  obtain ⟨path, hpath, steps, notes, hsteps, ⟨tasks, hqueues⟩, id, hid, hlt⟩ :=
    queues_provisioningSteps ctx hbuilt
  rw [hid]
  obtain ⟨rest, hcreated, hanchors, hplanned, hlinear⟩ := closing_tasks ctx hlt
  obtain ⟨hwork, hfinal⟩ := collectWalkSteps_spec ctx hsteps
  rw [hcreated, hqueues.created, List.nil_append]
  have hrest : works rest = rest := works_of_no_anchor hanchors
  have hall : (works (tasks ++ rest)).map Task.planned =
      (openingProgramme ctx path).map (·, false) ++
        steps.map (fun step => (step.work, step.final)) ++
          (closingProgramme ctx).map (·, false) := by
    rw [works_append, List.map_append, hqueues.planned, hrest, hplanned]
    simp [stepsPlan, closingProgramme]
  have hlinked : Linear ctx.firstDependsOn (works (tasks ++ rest)) ↔ Linear (some id) rest := by
    have hto : LinkedTo ctx.firstDependsOn (works tasks) (some id) := hid ▸ hqueues.linked
    rw [works_append, hrest, hto.linear_append]
  have hisWalk : ∀ step ∈ steps, step.operation.isWalk = true := by
    intro step hstep
    have hmem : step.work ∈ walkProgramme ctx := hwork ▸ List.mem_map_of_mem hstep
    exact isWalk_of_mem_walkProgramme ctx hmem
  obtain ⟨hmarks, honly⟩ := marks_of_plan hall
    (List.forall_mem_append.mpr ⟨hqueues.anchors, fun task hmem hanchor => by
      rw [hanchors task hmem] at hanchor
      cases hanchor⟩)
    (fun work hwork => (plain_of_mem_opening ctx hwork).1)
    (fun work hwork => (plain_of_mem_closing ctx hwork).1) hisWalk
  rw [← hlinear, ← hlinked]
  refine ⟨Programmed.linear, fun hline => ⟨hline, ⟨path, hpath, ?_⟩, ?_, honly⟩⟩
  · have hfst := congrArg (List.map Prod.fst) hall
    simpa [Task.planned, Function.comp_def, programme, ← hwork] using hfst
  · rw [hmarks, hfinal]
    have hlength := congrArg List.length hmarks
    rw [List.length_map, List.length_map] at hlength
    rw [hlength]

end Closing

/-- A running zone with the key rotation on and the transport of a packaged create. -/
def packagedZone : Context where
  zoneStatus := "running"
  zoneConfig := .obj [("zonepath", .str "/rpool/zones/web/path"),
    ("settings", .obj [("vagrant_ssh_insert_key", .bool true)]),
    ("networks", .arr [.obj [("provisional", .bool true)]])]
  rootPool := "rpool"
  zoneName := "web"
  provisioning := .obj [("provisioning", .obj [("shell", .obj [("enabled", .bool true),
    ("scripts", .arr [.str "setup.sh"])])])]
  zoneIP := .str "10.0.0.5"
  credentials := [("username", .str "root")]
  recipeId := none
  artifactId := none
  skipBoot := false
  skipRecipe := false
  sshAnswers := true
  parentTaskId := 0
  firstDependsOn := none
  textOf _ := ""
  stringify _ := ""

end ZoneweaverAgent.Provisioning
