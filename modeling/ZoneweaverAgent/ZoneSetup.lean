import ZoneweaverAgent.CommandPart
import ZoneweaverAgent.ZloginRecipeRuns

/-!
# The setup of a zone

The setup task carries a recipe out over the guest agent where the agent answers, and types it into
the console where it does not or where a step over the agent fails.
-/

namespace ZoneweaverAgent.ZoneSetup

open CommandProgram CommandScript CommandPart
open ZloginRecipe (Words Step Recipe Outcome Engine Prescribed Faithful orDefault decimal)
open ZloginTemplate (resolveVars)

section Guest

/-- What the guest agent did; the exit code of a command is null or not known where none came
back. -/
inductive Action
  | wrote (dest content : Words)
  | ran (windows : Bool) (commandLine : Words) (exitCode : Option ℤ)

inductive GuestCommand
  | ping
  | sleep (ms : ℚ)
  | fileWrite (dest content : Words)
  | exec (windows : Bool) (commandLine : Words)

inductive GuestReply
  | nothing
  | thrown (error : Words)
  | exited (exitCode : Option ℤ) (stdout stderr : Words)

/-- A call that fails may have been carried out, its answer being lost. -/
inductive GuestChoice
  | plain
  | exited (exitCode : Option ℤ) (stdout stderr : Words)
  | failed (error : Words)
  | lost (error : Words)

def callGuest (actions : List Action) (c : GuestCommand) (choice : GuestChoice) :
    Option (GuestReply × List Action) :=
  match c, choice with
  | .ping, .plain | .sleep _, .plain => some (.nothing, actions)
  | .fileWrite dest content, .plain => some (.nothing, actions ++ [.wrote dest content])
  | .exec windows commandLine, .exited exitCode stdout stderr =>
    some (.exited exitCode stdout stderr, actions ++ [.ran windows commandLine exitCode])
  | .ping, .failed error | .fileWrite _ _, .failed error | .exec _ _, .failed error =>
    some (.thrown error, actions)
  | .fileWrite dest content, .lost error =>
    some (.thrown error, actions ++ [.wrote dest content])
  | .exec windows commandLine, .lost error =>
    some (.thrown error, actions ++ [.ran windows commandLine none])
  | _, _ => none

def guest : System (List Action) GuestCommand GuestReply GuestChoice Empty where
  execute := callGuest
  happen _ e := e.elim

/-- The variables are the narrated outputs. -/
abbrev GuestScript := CommandScript.Script GuestCommand GuestReply Words (List Words)

def guestEffect (c : GuestCommand) : GuestScript Unit := do
  match ← perform c with
  | .thrown error => throw error
  | _ => return ()

structure ExecResult where
  exitCode : Option ℤ
  stdout : Words
  stderr : Words

def guestExecAndWait (windows : Bool) (commandLine : Words) : GuestScript ExecResult := do
  match ← perform (.exec windows commandLine) with
  | .exited exitCode stdout stderr => return ⟨exitCode, stdout, stderr⟩
  | .thrown error => throw error
  | .nothing => return ⟨none, [], []⟩

def narrate (output : Words) : GuestScript Unit := modify fun outputs => outputs ++ [output]

def shownInt : Option ℤ → Words
  | some (.ofNat n) => decimal n
  | some (.negSucc n) => '-' :: decimal (n + 1)
  | none => "null".toList

def stepExited (index : ℕ) (commandLine : Words) (result : ExecResult) : Words :=
  "step ".toList ++ decimal index ++ " (".toList ++ commandLine ++ ") exited ".toList ++
    shownInt result.exitCode ++ ": ".toList ++
      if result.stderr = [] then result.stdout else result.stderr

variable (windows : Bool) (guestVars : Words → Option Words)

/-- `guestVars` are the variables that are not null. -/
def runQgaStep (index : ℕ) : Step → GuestScript Unit
  | .wait _ _ => narrate ("[qga] step ".toList ++ decimal index ++
      " (wait) skipped — console choreography".toList)
  | .send _ => narrate ("[qga] step ".toList ++ decimal index ++
      " (send) skipped — console choreography".toList)
  | .delay seconds => do
    let _ ← perform (.sleep (orDefault seconds 1 * 1000))
  | .template step _ _ => do
    let dest := resolveVars guestVars step.dest
    guestEffect (.fileWrite dest (resolveVars guestVars step.content))
    narrate ("[qga] wrote ".toList ++ dest)
  | .command step => do
    let commandLine := resolveVars guestVars step.value
    let result ← guestExecAndWait windows commandLine
    narrate ("[qga] ".toList ++ commandLine ++ " → exit ".toList ++ shownInt result.exitCode ++
      '\n' :: (result.stdout ++ result.stderr))
    if step.checkExitCode ≠ some false ∧ result.exitCode ≠ some 0 then
      throw (stepExited index commandLine result)
  -- a command line that is missing
  | .other _ => throw "Invalid parameter type".toList

def runQgaSteps : ℕ → List Step → GuestScript Unit
  | _, [] => return ()
  | index, step :: steps => do
    runQgaStep windows guestVars index step
    runQgaSteps (index + 1) steps

/-- `enabled` says that the agent is enabled and the zone has a path. -/
def tryQgaSetup (enabled : Bool) (steps : List Step) : GuestScript (Option Words) := do
  if !enabled then return none
  let responding ← tryCatch (do
    guestEffect .ping
    return true) fun _ => return false
  if !responding then return none
  tryCatch (do
    runQgaSteps windows guestVars 0 steps
    let outputs ← get
    return some (['\n'].intercalate outputs)) fun _ => return none

end Guest

section Task

/-- The console of the zone and what the guest agent did. -/
abbrev World := ZloginRecipe.World × List Action

def setup (zoneName : String) : System World (ZloginRecipe.Command ⊕ GuestCommand)
    (ZloginRecipe.Reply ⊕ GuestReply) (ZloginRecipe.Choice ⊕ GuestChoice) ZloginRecipe.Event where
  execute w c choice :=
    match c, choice with
    | .inl c, .inl choice => (ZloginRecipe.call zoneName w.1 c choice).map fun r =>
        (.inl r.1, (r.2, w.2))
    | .inr c, .inr choice => (callGuest w.2 c choice).map fun r => (.inr r.1, (w.1, r.2))
    | _, _ => none
  happen w e := (ZloginRecipe.happen zoneName w.1 e).map fun console => (console, w.2)

def consolePart (zoneName : String) : Part (ZloginRecipe.console zoneName) (setup zoneName) where
  view := Prod.fst
  command := .inl
  reply r := r.elim id fun _ => .nothing
  happens {w e w'} h := by
    obtain ⟨console, hconsole, rfl⟩ := Option.map_eq_some_iff.mp h
    exact .inr ⟨e, hconsole⟩
  executes {w c choice r w'} h := by
    cases choice with
    | inl choice =>
      obtain ⟨⟨reply, console⟩, hcall, heq⟩ := Option.map_eq_some_iff.mp h
      cases heq
      exact ⟨choice, hcall⟩
    | inr choice => cases h

def guestPart (zoneName : String) : Part guest (setup zoneName) where
  view := Prod.snd
  command := .inr
  reply r := r.elim (fun _ => .nothing) id
  happens {w e w'} h := by
    obtain ⟨console, hconsole, rfl⟩ := Option.map_eq_some_iff.mp h
    exact .inl rfl
  executes {w c choice r w'} h := by
    cases choice with
    | inl choice => cases h
    | inr choice =>
      obtain ⟨⟨reply, actions⟩, hcall, heq⟩ := Option.map_eq_some_iff.mp h
      cases heq
      exact ⟨choice, hcall⟩

inductive SetupResult
  | guestAgent (output : Words)
  | console (outcome : Outcome)
  | failed (error : Words)

/-- The task from the point where its recipe and variables are there. -/
def executeZoneSetupTask (zoneName : String) (enabled windows : Bool) (shown : ℚ → Words)
    (recipe : Recipe) (zoneVars guestVars : Words → Option Words) :
    Program (ZloginRecipe.Command ⊕ GuestCommand) (ZloginRecipe.Reply ⊕ GuestReply)
      SetupResult := do
  let qga ← (guestPart zoneName).embed
    (run (tryQgaSetup windows guestVars enabled recipe.steps) [])
  match qga.1 with
  | .error error => return .failed error
  | .ok (some output) => return .guestAgent output
  | .ok none =>
    let engine := ZloginRecipe.newEngine none none none
      (some (orDefault recipe.timeoutSeconds 300 * 1000))
    let result ← (consolePart zoneName).embed
      (ZloginRecipe.execution engine shown recipe zoneVars [])
    let _ ← (consolePart zoneName).embed (Program.command .destroy)
    match result.1 with
    | .ok outcome => return .console outcome
    | .error error => return .failed error

end Task

section Carried
variable {windows : Bool} {guestVars : Words → Option Words}

/-- The action of a step over the guest agent. -/
def Acts (windows : Bool) (guestVars : Words → Option Words) : Step → Action → Prop
  | .template step _ _, action =>
    action = .wrote (resolveVars guestVars step.dest) (resolveVars guestVars step.content)
  | .command step, action =>
    ∃ exitCode, action = .ran windows (resolveVars guestVars step.value) exitCode
  | _, _ => False

/-- The step lets the run go on behind its action. -/
def Passed : Step → Action → Prop
  | .command step, .ran _ _ exitCode => step.checkExitCode = some false ∨ exitCode = some 0
  | _, _ => True

def isChoreography : Step → Bool
  | .wait _ _ | .send _ | .delay _ => true
  | _ => false

/-- What a run of these steps over the guest agent does: the actions of the steps in their order, to
the end or up to one that is not begun or not passed. -/
inductive Carried (windows : Bool) (guestVars : Words → Option Words) :
    List Step → List Action → Bool → Prop
  | all : Carried windows guestVars [] [] true
  | unbegun (steps : List Step) : Carried windows guestVars steps [] false
  | broken {step : Step} {steps : List Step} {action : Action} :
      Acts windows guestVars step action → Carried windows guestVars (step :: steps) [action] false
  | skip {step : Step} {steps : List Step} {actions : List Action} {complete : Bool} :
      isChoreography step = true → Carried windows guestVars steps actions complete →
      Carried windows guestVars (step :: steps) actions complete
  | next {step : Step} {steps : List Step} {action : Action} {actions : List Action}
      {complete : Bool} : Acts windows guestVars step action → Passed step action →
      Carried windows guestVars steps actions complete →
      Carried windows guestVars (step :: steps) (action :: actions) complete

end Carried

section Doing
variable {α : Type}

/-- What a script does over the guest agent, whatever it narrates. -/
abbrev Doing (Ok : List Action → Prop) (Q : α → List Action → Prop)
    (E : Words → List Action → Prop) (script : GuestScript α) (outputs : List Words)
    (actions : List Action) : Prop :=
  Over guest id Ok (fun a _ => Q a) (fun e _ => E e) script outputs actions

theorem steady_guest : Steady guest id := by
  rintro w ⟨⟩

variable {Ok : List Action → Prop} {E : Words → List Action → Prop} {windows enabled : Bool}
  {guestVars : Words → Option Words} {outputs : List Words} {actions : List Action} {index : ℕ}

theorem over_guestEffect {c : GuestCommand} {Q : Unit → List Words → List Action → Prop}
    {E : Words → List Words → List Action → Prop} (hOk : Ok actions)
    (h : ∀ choice reply actions', callGuest actions c choice = some (reply, actions') →
      Ok actions' ∧ (∀ e, reply = .thrown e → E e outputs actions') ∧
        ((∀ e, reply ≠ .thrown e) → Q () outputs actions')) :
    Over guest id Ok Q E (guestEffect c) outputs actions := by
  refine Over.bind (Over.command steady_guest hOk (T := fun reply actions' => Ok actions' ∧
    (∀ e, reply = .thrown e → E e outputs actions') ∧
      ((∀ e, reply ≠ .thrown e) → Q () outputs actions')) ?_ ?_)
  · rintro _ choice reply actions' rfl hstep
    exact h choice reply actions' hstep
  · rintro reply actions' ⟨hOk', hE, hQ⟩
    refine ⟨hOk', ?_⟩
    cases reply with
    | thrown e => exact Over.throw steady_guest hOk' (hE e rfl)
    | _ => exact Over.pure steady_guest hOk' (hQ (by rintro e ⟨⟩))

/-- The rest of the recipe may go on from here. -/
def Goes (Ok : List Action → Prop) (windows : Bool) (guestVars : Words → Option Words)
    (steps : List Step) (actions : List Action) : Prop :=
  ∀ more complete, Carried windows guestVars steps more complete → Ok (actions ++ more)

theorem Goes.start {steps : List Step} (h : Goes Ok windows guestVars steps actions) :
    Ok actions := by
  simpa using h [] false (.unbegun steps)

/-- One step: what it does where it passes and where it throws. -/
theorem doing_runQgaStep {step : Step} {steps : List Step}
    (h : Goes Ok windows guestVars (step :: steps) actions) :
    Doing Ok
      (fun _ actions' => (isChoreography step = true ∧ actions' = actions) ∨
        ∃ action, Acts windows guestVars step action ∧ Passed step action ∧
          actions' = actions ++ [action])
      (fun _ actions' => ∃ more, Carried windows guestVars (step :: steps) more false ∧
        actions' = actions ++ more)
      (runQgaStep windows guestVars index step) outputs actions := by
  have hstart := h.start
  have hnothing : ∃ more, Carried windows guestVars (step :: steps) more false ∧
      actions = actions ++ more := ⟨[], .unbegun _, (List.append_nil _).symm⟩
  have hacted : ∀ action, Acts windows guestVars step action → Ok (actions ++ [action]) :=
    fun action ha => h _ _ (.broken ha)
  cases step with
  | wait pattern timeout => exact Over.modify steady_guest hstart (.inl ⟨rfl, rfl⟩)
  | send value => exact Over.modify steady_guest hstart (.inl ⟨rfl, rfl⟩)
  | delay seconds =>
    refine Over.bind (Over.command steady_guest hstart (T := fun _ actions' => actions' = actions)
      ?_ ?_)
    · rintro _ (_ | _ | _ | _) reply actions' rfl hstep <;> cases hstep
      rfl
    · rintro reply _ rfl
      exact ⟨hstart, Over.pure steady_guest hstart (.inl ⟨rfl, rfl⟩)⟩
  | other type => exact Over.throw steady_guest hstart hnothing
  | template step expectPrompt timeout =>
    have hacts : Acts windows guestVars (.template step expectPrompt timeout)
        (.wrote (resolveVars guestVars step.dest) (resolveVars guestVars step.content)) := rfl
    have hOk := hacted _ hacts
    refine Over.bind (over_guestEffect hstart ?_)
    rintro (_ | _ | error | error) reply actions' hstep <;> cases hstep
    · refine ⟨hOk, by rintro e ⟨⟩, fun _ => ?_⟩
      exact Over.modify steady_guest hOk (.inr ⟨_, hacts, trivial, rfl⟩)
    · exact ⟨hstart, fun _ _ => hnothing, fun hne => absurd rfl (hne error)⟩
    · exact ⟨hOk, fun _ _ => ⟨_, .broken hacts, rfl⟩, fun hne => absurd rfl (hne error)⟩
  | command step =>
    have hacts : ∀ exitCode, Acts windows guestVars (.command step)
        (.ran windows (resolveVars guestVars step.value) exitCode) :=
      fun exitCode => ⟨exitCode, rfl⟩
    have hOk := fun exitCode => hacted _ (hacts exitCode)
    refine Over.bind (Over.bind (Over.command steady_guest hstart (T := fun reply actions' =>
      match reply with
      | .exited exitCode _ _ => actions' = actions ++
          [.ran windows (resolveVars guestVars step.value) exitCode]
      | .thrown _ => actions' = actions ∨ actions' = actions ++
          [.ran windows (resolveVars guestVars step.value) none]
      | .nothing => False) ?_ ?_))
    · rintro _ (_ | _ | error | error) reply actions' rfl hstep <;> cases hstep
      · rfl
      · exact .inl rfl
      · exact .inr rfl
    · rintro (_ | error | ⟨exitCode, stdout, stderr⟩) actions' hreply
      · exact hreply.elim
      · rcases hreply with rfl | rfl
        · exact ⟨hstart, Over.throw steady_guest hstart hnothing⟩
        · exact ⟨hOk none, Over.throw steady_guest (hOk none) ⟨_, .broken (hacts none), rfl⟩⟩
      · obtain rfl := hreply
        refine ⟨hOk exitCode, Over.pure steady_guest (hOk exitCode) ?_⟩
        refine Over.bind (Over.modify steady_guest (hOk exitCode) ?_)
        split_ifs with hfailed
        · exact Over.throw steady_guest (hOk exitCode) ⟨_, .broken (hacts exitCode), rfl⟩
        · have hpassed : Passed (.command step)
              (.ran windows (resolveVars guestVars step.value) exitCode) := by
            by_contra hnot
            exact hfailed (not_or.mp hnot)
          exact Over.pure steady_guest (hOk exitCode) (.inr ⟨_, hacts exitCode, hpassed, rfl⟩)

theorem doing_runQgaSteps {steps : List Step} (h : Goes Ok windows guestVars steps actions) :
    Doing Ok
      (fun _ actions' => ∃ more, Carried windows guestVars steps more true ∧
        actions' = actions ++ more)
      (fun _ actions' => ∃ more, Carried windows guestVars steps more false ∧
        actions' = actions ++ more)
      (runQgaSteps windows guestVars index steps) outputs actions := by
  induction steps generalizing index outputs actions with
  | nil => exact Over.pure steady_guest h.start ⟨[], .all, (List.append_nil _).symm⟩
  | cons step steps ih =>
    refine Over.bind ((doing_runQgaStep h).mono ?_ fun _ _ _ hbroken => hbroken)
    rintro _ outputs actions' (⟨hskip, rfl⟩ | ⟨action, hacts, hpassed, rfl⟩)
    · refine (ih fun more complete hmore => h _ _ (.skip hskip hmore)).mono ?_ ?_
      · rintro _ _ _ ⟨more, hmore, rfl⟩
        exact ⟨more, .skip hskip hmore, rfl⟩
      · rintro _ _ _ ⟨more, hmore, rfl⟩
        exact ⟨more, .skip hskip hmore, rfl⟩
    · have hgoes : Goes Ok windows guestVars steps (actions ++ [action]) := by
        intro more complete hmore
        rw [List.append_assoc]
        exact h _ _ (.next hacts hpassed hmore)
      refine (ih hgoes).mono ?_ ?_
      · rintro _ _ _ ⟨more, hmore, rfl⟩
        exact ⟨_, .next hacts hpassed hmore, List.append_assoc _ _ _⟩
      · rintro _ _ _ ⟨more, hmore, rfl⟩
        exact ⟨_, .next hacts hpassed hmore, List.append_assoc _ _ _⟩

/-- What the guest agent has done is what a run of the recipe does. -/
def Partial (windows : Bool) (guestVars : Words → Option Words) (steps : List Step)
    (actions : List Action) : Prop :=
  ∃ complete, Carried windows guestVars steps actions complete

theorem doing_tryQgaSetup {steps : List Step} :
    Doing (Partial windows guestVars steps)
      (fun output actions => Partial windows guestVars steps actions ∧
        (output ≠ none → Carried windows guestVars steps actions true))
      (fun _ _ => False) (tryQgaSetup windows guestVars enabled steps) outputs [] := by
  have hnothing : Partial windows guestVars steps [] := ⟨false, .unbegun steps⟩
  have hgoes : Goes (Partial windows guestVars steps) windows guestVars steps [] :=
    fun more complete hmore => ⟨complete, hmore⟩
  unfold tryQgaSetup
  cases enabled with
  | false => exact Over.pure steady_guest hnothing ⟨hnothing, fun hne => absurd rfl hne⟩
  | true =>
    refine Over.bind (Over.tryCatch (Over.bind (over_guestEffect hnothing ?_)))
    have hsilent : ∀ outputs, Doing (Partial windows guestVars steps)
        (fun output actions => Partial windows guestVars steps actions ∧
          (output ≠ none → Carried windows guestVars steps actions true))
        (fun _ _ => False) (return none : GuestScript (Option Words)) outputs [] :=
      fun _ => Over.pure steady_guest hnothing ⟨hnothing, fun hne => absurd rfl hne⟩
    have hping : ∀ outputs, Doing (Partial windows guestVars steps)
        (fun output actions => Partial windows guestVars steps actions ∧
          (output ≠ none → Carried windows guestVars steps actions true))
        (fun _ _ => False) (tryCatch (do
          runQgaSteps windows guestVars 0 steps
          let outputs ← get
          return some (['\n'].intercalate outputs)) fun _ => return none :
            GuestScript (Option Words)) outputs [] := by
      intro outputs
      refine Over.tryCatch (Over.bind ((doing_runQgaSteps hgoes).mono ?_ ?_))
      · rintro _ outputs actions ⟨more, hmore, hactions⟩
        rw [← List.nil_append more, ← hactions] at hmore
        have hOk : Partial windows guestVars steps actions := ⟨true, hmore⟩
        refine Over.bind (Over.get steady_guest hOk ?_)
        exact Over.pure steady_guest hOk ⟨hOk, fun _ => hmore⟩
      · rintro _ outputs actions ⟨more, hmore, hactions⟩
        rw [← List.nil_append more, ← hactions] at hmore
        exact Over.pure steady_guest ⟨false, hmore⟩ ⟨⟨false, hmore⟩, fun hne => absurd rfl hne⟩
    rintro (_ | _ | error | error) reply actions' hstep <;> cases hstep
    · exact ⟨hnothing, by rintro e ⟨⟩, fun _ => Over.pure steady_guest hnothing (hping _)⟩
    · refine ⟨hnothing, fun _ _ => Over.pure steady_guest hnothing (hsilent _), ?_⟩
      exact fun hne => absurd rfl (hne error)

end Doing

section Setup
variable {zoneName : String} {windows : Bool} {recipe : Recipe}
  {zoneVars guestVars : Words → Option Words} {w : World}

/-- At every moment the guest agent has done, and the console was typed, what a run of the recipe
does or types, up to some step. -/
def Follows (recipe : Recipe) (zoneVars guestVars : Words → Option Words) (windows : Bool)
    (w : World) : Prop :=
  Prescribed recipe zoneVars w.1.typed ∧ Partial windows guestVars recipe.steps w.2

/-- The guest agent has carried out the whole recipe and nothing was typed, or the answer is that of
a run on the console from the first step on. -/
def Finished (recipe : Recipe) (zoneVars guestVars : Words → Option Words) (windows : Bool) :
    SetupResult → World → Prop
  | .guestAgent _, w => Carried windows guestVars recipe.steps w.2 true ∧ w.1.typed = []
  | .console outcome, w => Faithful recipe zoneVars [] outcome w.1.typed
  | .failed _, _ => False

theorem prescribed_of_faithful {log : List ZloginRecipe.Entry} {outcome : Outcome}
    {typed : List Zlogin.Text} (h : Faithful recipe zoneVars log outcome typed) :
    Prescribed recipe zoneVars typed := by
  obtain ⟨m, hm, entries, texts, hran, htyped, -⟩ := h.trace
  exact ⟨m, hm, entries, texts, outcome.success, hran, htyped⟩

theorem happen_setup {w' : World} {e : ZloginRecipe.Event}
    (h : (setup zoneName).happen w e = some w') : w'.1.typed = w.1.typed ∧ w'.2 = w.2 := by
  obtain ⟨console, hconsole, rfl⟩ := Option.map_eq_some_iff.mp h
  exact ⟨ZloginRecipe.steady_typed _ _ _ hconsole, rfl⟩

theorem stable_setup (P : List Zlogin.Text → List Action → Prop) :
    Stable (setup zoneName) fun w => P w.1.typed w.2 := by
  intro w e w' hP hstep
  obtain ⟨htyped, hactions⟩ := happen_setup hstep
  rwa [htyped, hactions]

/-- The guest agent types nothing. -/
theorem typed_of_guest {c : GuestCommand} {choice : ZloginRecipe.Choice ⊕ GuestChoice}
    {r : ZloginRecipe.Reply ⊕ GuestReply} {w' : World}
    (h : (setup zoneName).execute w (.inr c) choice = some (r, w')) : w'.1 = w.1 := by
  cases choice with
  | inl choice => cases h
  | inr choice =>
    obtain ⟨⟨reply, actions⟩, -, heq⟩ := Option.map_eq_some_iff.mp h
    cases heq
    rfl

theorem actions_of_console {c : ZloginRecipe.Command} {choice : ZloginRecipe.Choice ⊕ GuestChoice}
    {r : ZloginRecipe.Reply ⊕ GuestReply} {w' : World}
    (h : (setup zoneName).execute w (.inl c) choice = some (r, w')) : w'.2 = w.2 := by
  cases choice with
  | inr choice => cases h
  | inl choice =>
    obtain ⟨⟨reply, console⟩, -, heq⟩ := Option.map_eq_some_iff.mp h
    cases heq
    rfl

/-- A run on the console, whatever the guest agent did before. -/
theorem safe_console {engine : Engine} {shown : ℚ → Words} (htyped : w.1.typed = [])
    (hactions : Partial windows guestVars recipe.steps w.2) :
    Safe (setup zoneName) (fun _ _ _ => True) (Follows recipe zoneVars guestVars windows)
      (fun r w => (∃ outcome, r.1 = .ok outcome ∧ Faithful recipe zoneVars [] outcome w.1.typed) ∧
        Partial windows guestVars recipe.steps w.2)
      ((consolePart zoneName).embed
        (ZloginRecipe.execution engine shown recipe zoneVars [])) w := by
  refine Part.safe (consolePart zoneName) (stable_setup fun _ actions =>
    Partial windows guestVars recipe.steps actions) ?_
    (ZloginRecipe.safe_execution [] htyped) hactions
  intro w c choice r w' hpart hstep
  rwa [actions_of_console hstep]

/-- The `destroy` behind the run changes neither. -/
theorem safe_destroy {P : List Zlogin.Text → List Action → Prop}
    (hP : P w.1.typed w.2) (hI : ∀ w : World, P w.1.typed w.2 →
      Follows recipe zoneVars guestVars windows w) :
    Safe (setup zoneName) (fun _ _ _ => True) (Follows recipe zoneVars guestVars windows)
      (fun _ w => P w.1.typed w.2)
      ((consolePart zoneName).embed (Program.command .destroy)) w := by
  refine Safe.call (stable_setup P) hP hI ?_
  rintro w (choice | choice) r w' hP - hstep
  · have hactions := actions_of_console hstep
    obtain ⟨⟨reply, console⟩, hcall, heq⟩ := Option.map_eq_some_iff.mp hstep
    cases heq
    have htyped := (ZloginRecipe.call_quiet rfl hcall).1
    refine Safe.done _ (stable_setup P) ?_ fun w hw => ⟨hI w hw, hw⟩
    rwa [htyped]
  · cases hstep

end Setup

end ZoneweaverAgent.ZoneSetup
