import ZoneweaverAgent.ProvisioningChain

/-!
# The programme of a provisioner document

What a run owes to its document, stated without the builders: the entries that their run directive
selects and the communicator supports, in the order of the document, between the steps that every
run has.
-/

namespace ZoneweaverAgent.Provisioning

/-- When an entry runs. -/
inductive Run
  | always
  | notFirst
  | once
deriving DecidableEq

def Run.selected (before : Bool) : Run → Bool
  | .always => true
  | .notFirst => before
  | .once => !before

def Hook.run (hook : Hook) : Run := if hook.once then .once else .always

/-- The default of a playbook is `once`, and so is what no directive says. -/
def playbookRun (playbook : Json) : Run :=
  if playbook.field "run" = some (.str "always") then .always
  else if playbook.field "run" = some (.str "not_first") then .notFirst
  else .once

/-- The directive of the entry that a step executes. -/
def Metadata.entryRun : Metadata → Option Run
  | .hook entry _ _ _ _ => some entry.run
  | .playbook _ entry _ => some (playbookRun entry)
  | _ => Option.none

section Entries

def listField (key : String) (value : Json) : List Json :=
  ((value.field key).bind Json.items?).getD []

def entriesOf (mode : Mode) (key : String) (value : Json) : List Json :=
  ((listField key value).filter Json.isObject).map (withMode mode)

/-- A group's `local` entries and then its `remote` ones. -/
def groupEntries (group : Json) : List Json :=
  entriesOf .local "local" group ++ entriesOf .remote "remote" group

def playbookGroups (provisioner : Json) : List Json :=
  match ((provisioner.field "provisioning").bind (Json.field "ansible")).bind
    (Json.field "playbooks") with
  | none => []
  | some (.arr groups) => groups
  | some group => [group]

/-- The entries of the groups in list order; the flat list stands in where there are none. -/
def documentPlaybooks (provisioner : Json) : List Json :=
  let grouped := (playbookGroups provisioner).flatMap groupEntries
  if grouped = [] then entriesOf .local "provisioners" provisioner else grouped

end Entries

section Programme
variable (ctx : Context)

abbrev Work := Operation × Metadata

def enabled (method : Json) : Bool := ((method.field "enabled").map spellsTrue).getD false

def hookProgramme (phase : Phase) : List Work :=
  ((extractHooks ctx.provisioning phase).filter
    fun hook => hook.run.selected (hasZoneProvisionedBefore ctx)).map
      fun hook => (.hook, .hook hook phase ctx.target (buildScriptEnv ctx) ctx.channel)

def shellProgramme (shell : Json) : List Work :=
  if enabled shell then (scriptsOf (listField "scripts" shell)).map
    fun script => (.shell, .script ctx.target script (buildScriptEnv ctx) ctx.channel)
  else []

/-- Local playbooks need ssh. -/
def supportsPlaybook (playbook : Json) : Bool := ctx.communicator = .ssh || isRemote playbook

def playbookProgramme : List Work :=
  ((documentPlaybooks ctx.provisioning).filter fun playbook =>
    (playbookRun playbook).selected (hasZoneProvisionedBefore ctx) &&
      supportsPlaybook ctx playbook).map fun playbook =>
        (if isRemote playbook then .provisionRemote else .provision,
          .playbook ctx.target playbook ctx.channel)

def composeFiles (docker : Json) : List Json :=
  match orElseNullish (docker.field "docker_compose")
      ((docker.field "docker-compose").getD .null) with
  | .arr items => items
  | _ => []

def dockerProgramme (docker : Json) : List Work :=
  if enabled docker ∧ ctx.communicator = .ssh then
    (scriptsOf (composeFiles docker)).map fun file => (.dockerCompose, .file ctx.target file)
  else []

def methodProgramme (method : String × Json) : List Work :=
  if method.1 = "shell" then shellProgramme ctx method.2
  else if method.1 = "ansible" then if enabled method.2 then playbookProgramme ctx else []
  else if method.1 = "docker" then dockerProgramme ctx method.2
  else []

def declaresAnsible : Bool := (methodSection ctx).any fun method => method.1 = "ansible"

def flatProgramme : List Work :=
  if !declaresAnsible ctx && flatProvisioners ctx then playbookProgramme ctx else []

/-- The walk: pre hooks, methods in the order of their keys, post hooks. -/
def walkProgramme : List Work :=
  hookProgramme ctx .pre ++ (methodSection ctx).flatMap (methodProgramme ctx) ++
    flatProgramme ctx ++ hookProgramme ctx .post

def contentProgramme (path : String) : List Work :=
  match ctx.artifactId.filter Json.truthy with
  | some artifactId => [(.extract, .extract artifactId path)]
  | none =>
    match ctx.zoneConfig.field "provisioner_ref" with
    | some ref => ((ref.field "name").filter Json.truthy).toList.map fun name =>
        (.stage, .stage name (ref.field "version") path)
    | none => []

def bootProgramme : List Work :=
  if ctx.skipBoot = false ∧ ctx.zoneStatus ≠ "running" then [(.start, .none)] else []

def setupProgramme : List Work :=
  if ctx.skipRecipe = false ∧ shouldSkipZoneSetup ctx = false then
    (ctx.recipeId.filter Json.truthy).toList.map fun recipeId =>
      (.setup, .setup recipeId (setupVariables ctx))
  else []

/-- Folders are transferred over ssh only. -/
def folderProgramme (operation : Operation) (folders : List Json) : List Work :=
  if ctx.communicator = .ssh then folders.map fun folder => (operation, .folder ctx.target folder)
  else []

def flaggedFolders : List Json :=
  (extractFolders ctx.provisioning).filter fun folder => syncbackEligible folder = some true

def rotationProgramme : List Work :=
  if rotatesKey ctx ∧ ctx.communicator = .ssh then
    [(.keyRotate, .rotate ctx.target ctx.communicator)]
  else []

def removalProgramme : List Work :=
  if removesTransport ctx then [(.transportRemove, .none), (.stop, .none), (.start, .none)] else []

def openingProgramme (path : String) : List Work :=
  contentProgramme ctx path ++ bootProgramme ctx ++ setupProgramme ctx ++
    [(.waitSsh, .waitSsh ctx.target ctx.channel)] ++
    folderProgramme ctx .sync (extractFolders ctx.provisioning)

def closingProgramme : List Work :=
  folderProgramme ctx .syncback (flaggedFolders ctx) ++ rotationProgramme ctx ++
    removalProgramme ctx

def programme (path : String) : List Work :=
  openingProgramme ctx path ++ walkProgramme ctx ++ closingProgramme ctx

end Programme

section Property

def Task.work (task : Task) : Work := (task.operation, task.metadata)

/-- The tasks that do something. -/
def works (tasks : List Task) : List Task := tasks.filter fun task => !task.anchor

/-- Every task depends on the one before it, the first on what is given. -/
def Linear : Option TaskId → List Task → Prop
  | _, [] => True
  | prev, task :: rest => task.dependsOn = prev ∧ Linear (some task.id) rest

instance decidableLinear : (prev : Option TaskId) → (tasks : List Task) →
    Decidable (Linear prev tasks)
  | _, [] => .isTrue trivial
  | prev, task :: rest =>
    have := decidableLinear (some task.id) rest
    inferInstanceAs (Decidable (task.dependsOn = prev ∧ Linear (some task.id) rest))

def Operation.isWalk : Operation → Bool
  | .hook => true
  | .shell => true
  | .provision => true
  | .provisionRemote => true
  | .dockerCompose => true
  | _ => false

/-- `n` flags of which the last one is set. -/
def lastOnly : ℕ → List Bool
  | 0 => []
  | n + 1 => List.replicate n false ++ [true]

def walkTasks (tasks : List Task) : List Task := tasks.filter fun task => task.operation.isWalk

/-- What the claims on a built chain come to. -/
structure Programmed (ctx : Context) (tasks : List Task) : Prop where
  linear : Linear ctx.firstDependsOn (works tasks)
  ordered : ∃ path ∈ provisioningDatasetPath ctx, (works tasks).map Task.work = programme ctx path
  final : (walkTasks tasks).map Task.final = lastOnly (walkTasks tasks).length
  onlyWalk : ∀ task ∈ tasks, task.final = true → task.operation.isWalk = true

/-- The gate of a method can be read; a falsy shell or docker block has none. -/
def gateReadable (method : String × Json) : Bool :=
  if method.1 = "ansible" then (readsTrue (method.2.field "enabled")).isSome
  else if method.1 = "shell" ∨ method.1 = "docker" then
    !method.2.truthy || (readsTrue (method.2.field "enabled")).isSome
  else true

/-- Nothing that the builders convert throws. -/
structure Buildable (ctx : Context) : Prop where
  zonepath : ∀ value ∈ (ctx.zoneConfig.field "zonepath").filter Json.truthy,
    (Json.text? value).isSome = true
  gates : ∀ method ∈ methodSection ctx, gateReadable method = true
  folders : ∀ folder ∈ extractFolders ctx.provisioning, (syncbackEligible folder).isSome = true

/-- A key rotation is followed by a removal of the transport. -/
def RotatesAndRemoves (ctx : Context) : Prop :=
  rotatesKey ctx = true ∧ ctx.communicator = .ssh ∧ removesTransport ctx = true

end Property

end ZoneweaverAgent.Provisioning
