import ZoneweaverAgent.ProvisioningWalk

/-!
# The task chain of a provisioning run

Builders create tasks one after the other and hand on the id that the next task is to depend on:
content, boot and setup, the wait for the guest, the folders, the walk, the folders back, the key
rotation, the removal of the transport.
-/

namespace ZoneweaverAgent.Provisioning

/-- A created row; an anchor is born running and waits for nothing. -/
structure Task where
  id : TaskId
  operation : Operation
  anchor : Bool
  metadata : Metadata
  final : Bool
  dependsOn : Option TaskId
  parentTaskId : TaskId
deriving DecidableEq

/-- The ids still to be given out start at `next`. -/
structure Chain where
  next : TaskId
  created : List Task
  taskChain : List Note
deriving DecidableEq

def Chain.create (chain : Chain) (task : Task) : Chain :=
  { chain with
    next := chain.next + 1
    created := chain.created ++ [{ task with id := chain.next }] }

def Chain.push (chain : Chain) (note : Note) : Chain :=
  { chain with taskChain := chain.taskChain ++ [note] }

section Builders
variable (ctx : Context)

/-- One task of the run that goes on from `prev`, and its entry in the answer. -/
def queueStep (operation : Operation) (metadata : Metadata) (step : String) (chain : Chain)
    (prev : Option TaskId) : Chain × Option TaskId :=
  ((chain.create ⟨chain.next, operation, false, metadata, false, prev, ctx.parentTaskId⟩).push
    ⟨step, some chain.next, []⟩, some chain.next)

/-- `text.replace('/path', '')`: the first occurrence goes. -/
def dropPath : List Char → List Char
  | [] => []
  | c :: cs =>
    if "/path".toList.isPrefixOf (c :: cs) then (c :: cs).drop 5 else c :: dropPath cs

/-- Nothing when the zonepath is neither falsy nor a text. -/
def provisioningDatasetPath : Option String :=
  let zoneDataset := match (ctx.zoneConfig.field "zonepath").filter Json.truthy with
    | none => some ("/" ++ ctx.rootPool ++ "/zones/" ++ ctx.zoneName).toList
    | some (.str zonepath) => some (dropPath zonepath.toList)
    | some _ => none
  zoneDataset.map fun dataset =>
    String.ofList ('/' :: (match dataset with
      | '/' :: rest => rest
      | rest => rest) ++ "/provisioning".toList)

def queueContentStep (path : String) (chain : Chain) : Chain × Option TaskId :=
  match ctx.artifactId.filter Json.truthy with
  | some artifactId =>
    queueStep ctx .extract (.extract artifactId path) "extract" chain ctx.firstDependsOn
  | none =>
    match ctx.zoneConfig.field "provisioner_ref" with
    | some ref =>
      match (ref.field "name").filter Json.truthy with
      | some name =>
        queueStep ctx .stage (.stage name (ref.field "version") path) "stage" chain
          ctx.firstDependsOn
      | none => (chain, none)
    | none => (chain, none)

def shouldSkipZoneSetup : Bool := ctx.zoneStatus = "running" && ctx.sshAnswers

/-- The provisioning variables with the credentials written over them, the missing ones too. -/
def setupVariables : KeyedList String Json :=
  ["username", "password"].foldl (fun vars key =>
    match ctx.credentials.get key with
    | some value => KeyedList.set vars key value
    | none => KeyedList.erase vars key) (spreadFields (ctx.provisioning.field "variables"))

def queueBootAndSetupSteps (chain : Chain) (previousTaskId : Option TaskId) :
    Chain × Option TaskId :=
  let booted :=
    if !ctx.skipBoot && ctx.zoneStatus ≠ "running" then
      queueStep ctx .start .none "boot" chain previousTaskId
    else (chain, previousTaskId)
  match ctx.recipeId.filter Json.truthy with
  | none => booted
  | some recipeId =>
    if !ctx.skipRecipe && !shouldSkipZoneSetup ctx then
      queueStep ctx .setup (.setup recipeId (setupVariables ctx)) "setup" booted.1 booted.2
    else booted

def createSequentialTransferTasks (operation : Operation) (anchor : TaskId) (folders : List Json)
    (chain : Chain) (firstDependsOn : Option TaskId) : Chain × Option TaskId :=
  folders.foldl (fun (chain, prev) folder =>
    (chain.create ⟨chain.next, operation, false, .folder ctx.target folder, false, prev, anchor⟩,
      some chain.next)) (chain, firstDependsOn)

/-- The anchor of a bracket and its transfers, or what is said about them on a winrm guest. -/
def queueBracket (parent operation : Operation) (step skipped : String) (folders : List Json)
    (chain : Chain) (previousTaskId : Option TaskId) : Chain × Option TaskId :=
  if folders.isEmpty then (chain, previousTaskId)
  else if ctx.communicator = .winrm then
    (chain.push ⟨skipped, none, [("folder_count", .num folders.length)]⟩, previousTaskId)
  else
    let anchored := (chain.create
      ⟨chain.next, parent, true, .folders folders.length, false, none, ctx.parentTaskId⟩).push
        ⟨step, some chain.next, [("folder_count", .num folders.length)]⟩
    createSequentialTransferTasks ctx operation chain.next folders anchored previousTaskId

def queueSyncBracket (folders : List Json) (chain : Chain) (previousTaskId : Option TaskId) :
    Chain × Option TaskId :=
  queueBracket ctx .syncParent .sync "sync_parent" "sync_skipped_winrm" folders chain previousTaskId

/-- Nothing where `folder.syncback` or `folder.type.toLowerCase()` throws. -/
def syncbackEligible (folder : Json) : Option Bool :=
  if folder = .null then none
  else if folder.field "syncback" = some (.bool true) && !truthyField "disabled" folder then
    match (folder.field "type").filter Json.truthy with
    | none => some true
    | some (.str type) => some (type.toLower ≠ "virtualbox")
    | some _ => none
  else some false

def syncbackEligibleFolders : List Json → Option (List Json)
  | [] => some []
  | folder :: rest =>
    (syncbackEligible folder).bind fun eligible =>
      (syncbackEligibleFolders rest).map fun folders =>
        if eligible then folder :: folders else folders

def queueSyncbackBracket (folders : List Json) (chain : Chain) (previousTaskId : Option TaskId) :
    Option (Chain × Option TaskId) :=
  (syncbackEligibleFolders folders).map fun flagged =>
    queueBracket ctx .syncbackParent .syncback "syncback_parent" "syncback_skipped_winrm" flagged
      chain previousTaskId

def queueWalkStep (built : Chain × Option TaskId) (step : Step) : Chain × Option TaskId :=
  ((built.1.create ⟨built.1.next, step.operation, false, step.metadata, step.final, built.2,
    ctx.parentTaskId⟩).push { step.note with taskId := some built.1.next }, some built.1.next)

def buildProvisioningWalk (chain : Chain) (firstDependsOn : Option TaskId) :
    Option (Chain × Option TaskId) :=
  (collectWalkSteps ctx).map fun collected =>
    collected.1.foldl (queueWalkStep ctx)
      ({ chain with taskChain := chain.taskChain ++ collected.2 }, firstDependsOn)

def rotatesKey : Bool := ctx.settings.field "vagrant_ssh_insert_key" = some (.bool true)

/-- The key rotation; `previousTaskId` stays what it was. -/
def queueKeyRotation (chain : Chain) (previousTaskId : Option TaskId) : Chain :=
  if rotatesKey ctx then
    if ctx.communicator = .winrm then chain.push ⟨"key_rotate_skipped_winrm", none, []⟩
    else (queueStep ctx .keyRotate (.rotate ctx.target ctx.communicator) "key_rotate" chain
      previousTaskId).1
  else chain

def effectiveRemoveOnCompletion (entry : Json) : Bool :=
  match entry.field "remove_on_completion" with
  | none => true
  | some value => value = .bool true

def removesTransport : Bool :=
  match ctx.zoneConfig.field "networks" with
  | some (.arr networks) =>
    match networks.find? fun net => net.field "provisional" = some (.bool true) with
    | some entry => effectiveRemoveOnCompletion entry
    | none => false
  | _ => false

def queueTransportRemoval (chain : Chain) (previousTaskId : Option TaskId) : Chain :=
  if removesTransport ctx then
    let removed := queueStep ctx .transportRemove .none "transport_remove" chain previousTaskId
    let stopped := queueStep ctx .stop .none "post_removal_stop" removed.1 removed.2
    (queueStep ctx .start .none "post_removal_boot" stopped.1 stopped.2).1
  else chain

def shadowedNote : List Note :=
  if (shadowedKeys ctx.settings).isEmpty then []
  else [⟨"communicator_keys_shadowed", none,
    [("keys", .arr ((shadowedKeys ctx.settings).map .str))]⟩]

/-- The steps before the folders, up to the wait for the guest. -/
def queueInfraSteps (path : String) (next : TaskId) : Chain × Option TaskId :=
  let content := queueContentStep ctx path ⟨next, [], shadowedNote ctx⟩
  let setup := queueBootAndSetupSteps ctx content.1 (content.2.or ctx.firstDependsOn)
  queueStep ctx .waitSsh (.waitSsh ctx.target ctx.channel) "wait_ssh" setup.1 setup.2

/-- The chain after the document walk and its brackets, and the id the rest is to depend on. -/
def buildProvisioningSteps (next : TaskId) : Option (Chain × Option TaskId) :=
  (provisioningDatasetPath ctx).bind fun path =>
    let ready := queueInfraSteps ctx path next
    let folders := extractFolders ctx.provisioning
    let synced := queueSyncBracket ctx folders ready.1 ready.2
    (buildProvisioningWalk ctx synced.1 synced.2).bind fun walked =>
      queueSyncbackBracket ctx folders walked.1 walked.2

/-- Nothing when building throws; the ids of the created rows start at `next`. -/
def buildProvisioningTaskChain (next : TaskId) : Option Chain :=
  (buildProvisioningSteps ctx next).map fun built =>
    queueTransportRemoval ctx (queueKeyRotation ctx built.1 built.2) built.2

end Builders

end ZoneweaverAgent.Provisioning
