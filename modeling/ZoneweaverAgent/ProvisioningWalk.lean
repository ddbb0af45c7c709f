import Mathlib.Data.List.Basic
import ZoneweaverAgent.JsonValue

/-!
# The walk over a provisioner document

The document's hooks and method entries become the steps of a provisioning run: the pre hooks, the
methods in the order of their keys, the post hooks. Run directives and the communicator filter on
the way; what is left out is narrated.
-/

namespace ZoneweaverAgent.Provisioning

abbrev TaskId := ℕ

inductive Operation
  | extract
  | stage
  | start
  | setup
  | waitSsh
  | syncParent
  | sync
  | hook
  | shell
  | provision
  | provisionRemote
  | dockerCompose
  | syncbackParent
  | syncback
  | keyRotate
  | transportRemove
  | stop
deriving DecidableEq

inductive Communicator
  | ssh
  | winrm
deriving DecidableEq

inductive Phase
  | pre
  | post
deriving DecidableEq

def Phase.key : Phase → String
  | .pre => "pre"
  | .post => "post"

inductive Mode
  | local
  | remote
deriving DecidableEq

def Mode.key : Mode → String
  | .local => "local"
  | .remote => "remote"

structure Winrm where
  transport : Json
  port : Json
  sslPeerVerification : Json
deriving DecidableEq

/-- What a chain is built from. `textOf` and `stringify` are `String` and `JSON.stringify`. -/
structure Context where
  zoneStatus : String
  zoneConfig : Json
  rootPool : String
  zoneName : String
  provisioning : Json
  zoneIP : Json
  credentials : KeyedList String Json
  recipeId : Option Json
  artifactId : Option Json
  skipBoot : Bool
  skipRecipe : Bool
  sshAnswers : Bool
  parentTaskId : TaskId
  firstDependsOn : Option TaskId
  textOf : Json → String
  stringify : Json → String

structure Hook where
  script : String
  onHost : Bool
  continues : Bool
  once : Bool
deriving DecidableEq

/-- Where a step connects to. -/
structure Target where
  ip : Json
  port : Json
  credentials : KeyedList String Json
deriving DecidableEq

structure Channel where
  communicator : Communicator
  winrm : Winrm
deriving DecidableEq

inductive Metadata
  | none
  | extract (artifactId : Json) (datasetPath : String)
  | stage (name : Json) (version : Option Json) (datasetPath : String)
  | setup (recipeId : Json) (vars : KeyedList String Json)
  | waitSsh (target : Target) (channel : Channel)
  | folders (total : ℕ)
  | folder (target : Target) (folder : Json)
  | hook (hook : Hook) (phase : Phase) (target : Target) (env : KeyedList String String)
      (channel : Channel)
  | script (target : Target) (script : String) (env : KeyedList String String) (channel : Channel)
  | playbook (target : Target) (playbook : Json) (channel : Channel)
  | file (target : Target) (file : String)
  | rotate (target : Target) (communicator : Communicator)
deriving DecidableEq

/-- An entry of the answered chain: a created task or the narration of a skip. -/
structure Note where
  step : String
  taskId : Option TaskId
  detail : List (String × Json)
deriving DecidableEq

/-- A step of the walk; `final` is the metadata key of that name. -/
structure Step where
  operation : Operation
  metadata : Metadata
  final : Bool
  note : Note
deriving DecidableEq

/-- `value ?? fallback` -/
def orElseNullish (value : Option Json) (fallback : Json) : Json :=
  match value with
  | none => fallback
  | some .null => fallback
  | some v => v

/-- `!!value` of a property that may be missing. -/
def truthyField (key : String) (value : Json) : Bool :=
  ((value.field key).filter Json.truthy).isSome

/-- The own properties that a spread copies. -/
def spreadFields : Option Json → KeyedList String Json
  | some (.obj fields) => fields
  | some (.arr items) => items.zipIdx.map fun item => (toString item.2, item.1)
  | some (.str text) => text.toList.zipIdx.map fun c => (toString c.2, .str c.1.toString)
  | _ => []

section Settings

/-- The key that wins of a new spelling and its `vagrant_` spelling. -/
def resolveAlias (settings : Json) (newKey oldKey : String) : Option Json :=
  (settings.field newKey).or (settings.field oldKey)

def communicatorAliases : List (String × String) :=
  [("communicator", "vagrant_communicator"), ("winrm_port", "vagrant_winrm_port"),
    ("winrm_transport", "vagrant_winrm_transport"),
    ("winrm_ssl_peer_verification", "vagrant_winrm_ssl_peer_verification")]

def shadowedKeys (settings : Json) : List String :=
  communicatorAliases.filterMap fun keys =>
    if (settings.field keys.1).isSome && (settings.field keys.2).isSome then some keys.2 else none

def winrmDefaults (port transport sslPeerVerification : Option Json) : Winrm :=
  let transport := orElseNullish transport (.str "negotiate")
  { transport
    port := orElseNullish port (.num (if transport = .str "ssl" then 5986 else 5985))
    sslPeerVerification := orElseNullish sslPeerVerification (.bool true) }

variable (ctx : Context)

def Context.settings : Json := orElseTruthy (ctx.zoneConfig.field "settings") (.obj [])

def Context.communicator : Communicator :=
  if resolveAlias ctx.settings "communicator" "vagrant_communicator" = some (.str "winrm") then
    .winrm
  else .ssh

def Context.winrm : Winrm :=
  winrmDefaults (resolveAlias ctx.settings "winrm_port" "vagrant_winrm_port")
    (resolveAlias ctx.settings "winrm_transport" "vagrant_winrm_transport")
    (resolveAlias ctx.settings "winrm_ssl_peer_verification" "vagrant_winrm_ssl_peer_verification")

def Context.channel : Channel := ⟨ctx.communicator, ctx.winrm⟩

def Context.target : Target where
  ip := ctx.zoneIP
  port := orElseTruthy (ctx.provisioning.field "ssh_port") (.num 22)
  credentials := ctx.credentials

def buildScriptEnv : KeyedList String String :=
  match ctx.provisioning.field "vars" with
  | some (.obj entries) => entries.map fun e => (e.1, match e.2 with
    | .null => ""
    | .arr items => ctx.stringify (.arr items)
    | .obj fields => ctx.stringify (.obj fields)
    | value => ctx.textOf value)
  | _ => []

def hasZoneProvisionedBefore : Bool :=
  ((ctx.zoneConfig.field "provisioner_state").map (truthyField "last_provisioned_at")).getD false

end Settings

section Document

mutual
/-- Whether the text of the value is one of the accepted spellings. -/
def spellsTrue : Json → Bool
  | .bool b => b
  | .num q => q = 1
  | .str s => s.toLower ∈ ["true", "on", "1", "yes"]
  | .arr items => spellsTrueItems items
  | _ => false

/-- The text of a list with one item is that of the item, any other has a comma or is empty. -/
def spellsTrueItems : List Json → Bool
  | [item] => spellsTrue item
  | _ => false
end

/-- `readsTrue`; nothing when the conversion to text throws. -/
def readsTrue (value : Option Json) : Option Bool :=
  match value with
  | none => some false
  | some v => if v.hasText then some (spellsTrue v) else none

/-- `{ ...entry, mode }` -/
def withMode (mode : Mode) : Json → Json
  | .obj fields => .obj (KeyedList.set fields "mode" (.str mode.key))
  | .arr items => .obj (KeyedList.set (spreadFields (some (.arr items))) "mode" (.str mode.key))
  | value => value

def pushEntries (mode : Mode) (ordered : List Json) (entries : Option Json) : List Json :=
  match entries with
  | some (.arr items) => items.foldl
      (fun ordered entry => if entry.isObject then ordered ++ [withMode mode entry] else ordered)
      ordered
  | _ => ordered

def pushGroup (ordered : List Json) (group : Json) : List Json :=
  [Mode.local, Mode.remote].foldl
    (fun ordered mode => pushEntries mode ordered (group.field mode.key)) ordered

def extractOrderedPlaybooks (provisioner : Json) : List Json :=
  let playbooks := ((provisioner.field "provisioning").bind (Json.field "ansible")).bind
    (Json.field "playbooks")
  let ordered := match playbooks with
    | none => []
    | some (.arr groups) => groups.foldl pushGroup []
    | some group => pushGroup [] group
  if ordered.isEmpty then pushEntries .local ordered (provisioner.field "provisioners") else ordered

def isScript : Json → Bool
  | .str s => !isBlank s
  | _ => false

def scriptsOf (items : List Json) : List String := (items.filter isScript).filterMap Json.text?

def extractDockerComposeFiles (docker : Json) : Option (Option (List String)) :=
  if !docker.truthy then some none
  else (readsTrue (docker.field "enabled")).map fun enabled =>
    if enabled then
      match orElseNullish (docker.field "docker_compose")
          ((docker.field "docker-compose").getD .null) with
      | .arr items => some (scriptsOf items)
      | _ => some []
    else none

def extractShellScripts (shell : Json) : Option (Option (List String)) :=
  if !shell.truthy then some none
  else (readsTrue (shell.field "enabled")).map fun enabled =>
    if enabled then (shell.field "scripts").bind Json.items? |>.map scriptsOf else none

def extractHook (entry : Json) : Option Hook :=
  match entry.field "script" with
  | some (.str script) =>
    if isBlank script then none
    else some
      { script
        onHost := entry.field "target" = some (.str "host")
        continues := entry.field "on_failure" = some (.str "continue")
        once := entry.field "run" = some (.str "once") }
  | _ => none

def extractHooks (provisioner : Json) (phase : Phase) : List Hook :=
  match (provisioner.field "provisioning").bind (Json.field phase.key) with
  | some (.arr entries) => entries.filterMap extractHook
  | _ => []

def extractFolders (provisioner : Json) : List Json :=
  match provisioner.field "folders", provisioner.field "sync_folders" with
  | some (.arr folders), _ => folders
  | _, some (.arr folders) => folders
  | _, _ => []

def filterHooksByRun (hooks : List Hook) (hasProvisionedBefore : Bool) : List Hook × List Hook :=
  hooks.foldl (fun (included, skipped) hook =>
    if hook.once && hasProvisionedBefore then (included, skipped ++ [hook])
    else (included ++ [hook], skipped)) ([], [])

def filterPlaybooksByRun (playbooks : List Json) (hasProvisionedBefore : Bool) :
    List Json × List Json :=
  playbooks.foldl (fun (included, skipped) playbook =>
    let run := orElseTruthy (playbook.field "run") (.str "once")
    let shouldRun :=
      if run = .str "always" then true
      else if run = .str "not_first" then hasProvisionedBefore
      else !hasProvisionedBefore
    if shouldRun then (included ++ [playbook], skipped) else (included, skipped ++ [playbook]))
    ([], [])

end Document

section Steps
variable (ctx : Context)

/-- Steps and narrations in the order in which they come up. -/
structure Collected where
  steps : List Step
  notes : List Note
  sawAnsible : Bool
deriving DecidableEq

def collectHookSteps (phase : Phase) : List Step :=
  (filterHooksByRun (extractHooks ctx.provisioning phase) (hasZoneProvisionedBefore ctx)).1.map
    fun hook =>
      { operation := .hook
        metadata := .hook hook phase ctx.target (buildScriptEnv ctx) ctx.channel
        final := false
        note := ⟨phase.key ++ "_hook", none, [("script", .str hook.script),
          ("target", .str (if hook.onHost then "host" else "guest"))]⟩ }

def shellStep (script : String) : Step where
  operation := .shell
  metadata := .script ctx.target script (buildScriptEnv ctx) ctx.channel
  final := false
  note := ⟨"shell", none, [("script", .str script)]⟩

def collectShellSteps (shell : Json) (c : Collected) : Option Collected :=
  (extractShellScripts shell).map fun
    | none => c
    | some scripts => { c with steps := c.steps ++ scripts.map (shellStep ctx) }

def isRemote (playbook : Json) : Bool := playbook.field "mode" = some (.str "remote")

def playbookStep (playbook : Json) : Step where
  operation := if isRemote playbook then .provisionRemote else .provision
  metadata := .playbook ctx.target playbook ctx.channel
  final := false
  note := ⟨if isRemote playbook then "provision_remote" else "provision", none,
    (playbook.field "playbook").toList.map fun name => ("playbook", name)⟩

def collectAnsibleSteps (c : Collected) : Collected :=
  let included := (filterPlaybooksByRun (extractOrderedPlaybooks ctx.provisioning)
    (hasZoneProvisionedBefore ctx)).1
  let locals := included.countP fun playbook => !isRemote playbook
  if ctx.communicator = .winrm ∧ 0 < locals then
    { c with
      steps := c.steps ++ (included.filter isRemote).map (playbookStep ctx)
      notes := c.notes ++ [⟨"ansible_local_skipped_winrm", none,
        [("playbook_count", .num locals)]⟩] }
  else { c with steps := c.steps ++ included.map (playbookStep ctx) }

def composeStep (file : String) : Step where
  operation := .dockerCompose
  metadata := .file ctx.target file
  final := false
  note := ⟨"docker_compose", none, [("file", .str file)]⟩

def collectDockerSteps (docker : Json) (c : Collected) : Option Collected :=
  (extractDockerComposeFiles docker).map fun
    | none => c
    | some files =>
      if ctx.communicator = .winrm then
        { c with notes := c.notes ++ [⟨"docker_skipped_winrm", none, []⟩] }
      else { c with steps := c.steps ++ files.map (composeStep ctx) }

def collectMethodSteps (key : String) (value : Json) (c : Collected) : Option Collected :=
  if key = "shell" then collectShellSteps ctx value c
  else if key = "ansible" then
    (readsTrue (value.field "enabled")).map fun enabled =>
      let c := { c with sawAnsible := true }
      if enabled then collectAnsibleSteps ctx c else c
  else if key = "docker" then collectDockerSteps ctx value c
  else some { c with notes := c.notes ++ [⟨"method_not_executable", none, [("method", .str key)]⟩] }

def collectMethods : List (String × Json) → Collected → Option Collected
  | [], c => some c
  | (key, value) :: rest, c =>
    if key = "pre" ∨ key = "post" then collectMethods rest c
    else (collectMethodSteps ctx key value c).bind (collectMethods rest)

/-- `steps[steps.length - 1].metadata.final = true` -/
def markFinal : List Step → List Step
  | [] => []
  | [step] => [{ step with final := true }]
  | step :: next :: rest => step :: markFinal (next :: rest)

/-- The entries of the section, if it is an object that is no list. -/
def methodSection : List (String × Json) :=
  match ctx.provisioning.field "provisioning" with
  | some (.obj entries) => entries
  | _ => []

def flatProvisioners : Bool :=
  ((ctx.provisioning.field "provisioners").bind Json.items?).isSome

/-- Nothing when a method's `enabled` has no text. -/
def collectWalkSteps : Option (List Step × List Note) :=
  (collectMethods ctx (methodSection ctx) ⟨collectHookSteps ctx .pre, [], false⟩).map fun c =>
    let c := if !c.sawAnsible && flatProvisioners ctx then collectAnsibleSteps ctx c else c
    (markFinal (c.steps ++ collectHookSteps ctx .post), c.notes)

end Steps

end ZoneweaverAgent.Provisioning
