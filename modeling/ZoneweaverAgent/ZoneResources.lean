import Mathlib.Logic.Function.Basic
import ZoneweaverAgent.JsonValue

/-!
# The resource controls of a zone

A modification names families of resources. Every remove is a `zonecfg` of its own, which may fail;
the adds are one `zonecfg`, which takes all of its commands or none. A configuration is what each
resource of the zone is set to. `String(value)` is a parameter, and so is what else `zonecfg` has
against a command.
-/

namespace ZoneweaverAgent.ZoneResources

inductive Resource
  | cappedCpu
  | cappedMemory
  | dedicatedCpu
  | securityFlags
  | rctl (name : String)
  | admin (user : String)
  | attr (name : String)
  | device (path : String)
  | fsAllowed
  deriving DecidableEq

abbrev Settings := List (String × String)

abbrev Configuration := Resource → Option Settings

section Zonecfg

inductive Command
  | remove (resource : Resource)
  | add (resource : Resource) (settings : Settings)

def sets (settings : Settings) : String :=
  " ".intercalate (settings.map fun e => "set " ++ e.1 ++ "=" ++ e.2 ++ ";")

def valuesText (settings : Settings) : String :=
  ",".intercalate (settings.map fun e => e.1 ++ "=" ++ e.2)

def Command.body : Command → String
  | .remove .cappedCpu => "remove -F capped-cpu;"
  | .remove .cappedMemory => "remove -F capped-memory;"
  | .remove .dedicatedCpu => "remove -F dedicated-cpu;"
  | .remove .securityFlags => "remove -F security-flags;"
  | .remove (.rctl name) => "remove rctl name=" ++ name ++ ";"
  | .remove (.admin user) => "remove admin user=" ++ user ++ ";"
  | .remove (.attr name) => "remove attr name=" ++ name ++ ";"
  | .remove (.device path) => "remove device match=" ++ path ++ ";"
  | .remove .fsAllowed => "clear fs-allowed;"
  | .add .cappedCpu settings => "add capped-cpu; " ++ sets settings ++ " end;"
  | .add .cappedMemory settings => "add capped-memory; " ++ sets settings ++ " end;"
  | .add .dedicatedCpu settings => "add dedicated-cpu; " ++ sets settings ++ " end;"
  | .add .securityFlags settings => "add security-flags; " ++ sets settings ++ " end;"
  | .add (.rctl name) settings =>
    "add rctl; set name=" ++ name ++ "; add value (" ++ valuesText settings ++ "); end;"
  | .add (.admin user) settings =>
    "add admin; set user=" ++ user ++ "; " ++ sets settings ++ " end;"
  | .add (.attr name) settings =>
    "add attr; set name=" ++ name ++ "; " ++ sets settings ++ " end;"
  | .add (.device path) _ => "add device; set match=" ++ path ++ "; end;"
  | .add .fsAllowed settings => sets settings

/-- Only what exists is removed, and nothing is added twice; `fs-allowed` is cleared and set in any
case. -/
def run (c : Configuration) : Command → Option Configuration
  | .remove r => if r = .fsAllowed ∨ (c r).isSome then some (Function.update c r none) else none
  | .add r settings =>
    if r = .fsAllowed ∨ (c r).isNone then some (Function.update c r (some settings)) else none

/-- What `zonecfg` has against its n-th command line, and what it reports. -/
structure Host where
  accepts : ℕ → String → Bool
  error : ℕ → String → String

variable (host : Host) (zoneName : String)

def commandLine (body : String) : String :=
  "pfexec zonecfg -z " ++ zoneName ++ " \"" ++ body ++ "\""

def bodies (commands : List Command) : String := " ".intercalate (commands.map Command.body)

/-- All of the commands, or none. -/
def zonecfg (n : ℕ) (commands : List Command) (c : Configuration) : Option Configuration :=
  if host.accepts n (commandLine zoneName (bodies commands)) then commands.foldlM run c else none

end Zonecfg

section Collect
variable (text : Json → String)

structure Plan where
  removes : List Resource
  strict : List (Resource × Settings)
  changes : List String

def emptyPlan : Plan := ⟨[], [], []⟩

/-- `${value}` -/
def textOf (value : Option Json) : String := (value.map text).getD "undefined"

def itemsOf (value : Option Json) : List Json := (value.bind Json.items?).getD []

/-- The keys that are there. -/
def definedSettings (keys : List String) (value : Json) : Settings :=
  keys.filterMap fun key => (value.field key).map fun v => (key, text v)

def cappedCpuSettings (value : Json) : Settings := [("ncpus", textOf text (value.field "ncpus"))]

def cappedMemorySettings : Json → Settings := definedSettings text ["physical", "swap", "locked"]

def dedicatedCpuSettings (value : Json) : Settings :=
  ("ncpus", textOf text (value.field "ncpus")) :: definedSettings text ["importance"] value

def securityFlagsSettings : Json → Settings := definedSettings text ["default", "lower", "upper"]

/-- The value of a resource that a zone has once, if one is asked for. -/
def valueOf (settings : Json → Settings) : Json → Option Settings
  | .null => none
  | value => some (settings value)

def collectResource (key : String) (resource : Resource) (settings : Json → Settings)
    (metadata : Json) (plan : Plan) : Plan :=
  match metadata.field key with
  | none => plan
  | some value =>
    { removes := plan.removes ++ [resource]
      strict := plan.strict ++ ((valueOf settings value).map fun v => (resource, v)).toList
      changes := plan.changes ++ [key] }

def collectCappedCpu : Json → Plan → Plan :=
  collectResource "capped_cpu" .cappedCpu (cappedCpuSettings text)

def collectCappedMemory : Json → Plan → Plan :=
  collectResource "capped_memory" .cappedMemory (cappedMemorySettings text)

def collectDedicatedCpu : Json → Plan → Plan :=
  collectResource "dedicated_cpu" .dedicatedCpu (dedicatedCpuSettings text)

def collectSecurityFlags : Json → Plan → Plan :=
  collectResource "security_flags" .securityFlags (securityFlagsSettings text)

/-- The removes of a list of names. -/
def collectRemoved (key change : String) (resource : String → Resource) (metadata : Json)
    (plan : Plan) : Plan :=
  (itemsOf (metadata.field key)).foldl (fun plan name =>
    { plan with
      removes := plan.removes ++ [resource (text name)]
      changes := plan.changes ++ [change] }) plan

/-- The entries of a list, each with its remove. -/
def collectEntries (key : String) (entry : Json → Except String (Resource × Settings))
    (metadata : Json) (plan : Plan) : Except String Plan :=
  (itemsOf (metadata.field key)).foldlM (fun plan item => do
    let request ← entry item
    return { removes := plan.removes ++ [request.1]
             strict := plan.strict ++ [request]
             changes := plan.changes ++ [key] }) plan

def rctlEntry (rctl : Json) : Except String (Resource × Settings) :=
  match (rctl.field "name").filter Json.truthy, rctl.field "limit" with
  | some name, some limit => .ok (.rctl (text name),
      [("priv", text (orElseTruthy (rctl.field "priv") (.str "privileged"))), ("limit", text limit),
        ("action", text (orElseTruthy (rctl.field "action") (.str "deny")))])
  | _, _ => .error "rctls entries need name and limit"

def collectRctls (metadata : Json) (plan : Plan) : Except String Plan :=
  collectEntries "rctls" (rctlEntry text) metadata
    (collectRemoved text "remove_rctls" "rctls" .rctl metadata plan)

def adminEntry (admin : Json) : Except String (Resource × Settings) :=
  match (admin.field "user").filter Json.truthy, (admin.field "auths").filter Json.truthy with
  | some user, some auths => .ok (.admin (text user), [("auths", text auths)])
  | _, _ => .error "admins entries need user and auths"

def collectAdmins (metadata : Json) (plan : Plan) : Except String Plan :=
  collectEntries "admins" (adminEntry text) metadata
    (collectRemoved text "remove_admins" "admins" .admin metadata plan)

/-- `^stem\d+$` -/
def isNumbered (stem name : String) : Bool :=
  stem.toList.isPrefixOf name.toList && !(name.toList.drop stem.length).isEmpty &&
    (name.toList.drop stem.length).all Char.isDigit

def existingNumberedAttrs (zoneConfig : Json) (stem : String) : List String :=
  let names := (itemsOf (zoneConfig.field "attr")).filterMap fun attr =>
    (((attr.field "name").filter Json.truthy).map text).filter (isNumbered stem)
  let topLevel := (List.range (itemsOf (zoneConfig.field stem)).length).map fun i =>
    stem ++ toString i
  (names ++ topLevel).eraseDups

def stringAttr (value : String) : Settings := [("type", "string"), ("value", value)]

def virtfsEntry (share : Json) (index : ℕ) : Except String (Resource × Settings) :=
  match (share.field "name").filter Json.truthy, (share.field "path").filter Json.truthy with
  | some name, some path => .ok (.attr ("virtfs" ++ toString index),
      stringAttr (text name ++ "," ++ text path ++
        if share.field "ro" = some (.bool true) then ",ro" else ""))
  | _, _ => .error "virtfs entries need name and path"

def collectVirtfs (zoneConfig metadata : Json) (plan : Plan) : Except String Plan :=
  match metadata.field "virtfs" with
  | none => .ok plan
  | some value => do
    let shares ← (itemsOf (some value)).zipIdx.mapM fun e => virtfsEntry text e.1 e.2
    return { removes := plan.removes ++
               (existingNumberedAttrs text zoneConfig "virtfs").map Resource.attr
             strict := plan.strict ++ shares
             changes := plan.changes ++ ["virtfs"] }

def devPath (leaf : String) : String := "/dev/" ++ leaf

def stripDev (path : String) : String :=
  if "/dev/".toList.isPrefixOf path.toList then String.ofList (path.toList.drop 5) else path

/-- `^(?:on|off|slot[0-7])$` -/
def isPptState (state : String) : Bool :=
  state ∈ ["on", "off", "slot0", "slot1", "slot2", "slot3", "slot4", "slot5", "slot6", "slot7"]

def pptEntry (entry : Json) : Except String (List (Resource × Settings)) :=
  let leaf := stripDev ((((entry.field "device").filter Json.truthy).map text).getD "")
  let state := text (orElseTruthy (entry.field "state") (.str "on"))
  if !isNumbered "ppt" leaf then
    .error "ppt entries need device pptN (pptadm list -a names them)"
  else if !isPptState state then .error ("ppt state " ++ state ++ " is not on|off|slot0-7")
  else .ok [(.attr leaf, stringAttr state), (.device (devPath leaf), [])]

def collectPpt (zoneConfig metadata : Json) (plan : Plan) : Except String Plan :=
  match metadata.field "ppt" with
  | none => .ok plan
  | some value => do
    let entries ← (itemsOf (some value)).mapM (pptEntry text)
    return { removes := plan.removes ++ (existingNumberedAttrs text zoneConfig "ppt").flatMap
               fun name => [.attr name, .device (devPath name)]
             strict := plan.strict ++ entries.flatten
             changes := plan.changes ++ ["ppt"] }

def fsAllowedSettings (value : Json) : Option Settings :=
  if value = .null ∨ value = .str "" then none else some [("fs-allowed", text value)]

def collectFsAllowed (metadata : Json) (plan : Plan) : Plan :=
  match metadata.field "fs_allowed" with
  | none => plan
  | some value =>
    match fsAllowedSettings text value with
    | none => { plan with
        removes := plan.removes ++ [.fsAllowed]
        changes := plan.changes ++ ["fs_allowed"] }
    | some settings => { plan with
        strict := plan.strict ++ [(.fsAllowed, settings)]
        changes := plan.changes ++ ["fs_allowed"] }

def collect (zoneConfig metadata : Json) : Except String Plan := do
  let plan := collectSecurityFlags text metadata (collectDedicatedCpu text metadata
    (collectCappedMemory text metadata (collectCappedCpu text metadata emptyPlan)))
  let plan ← collectRctls text metadata plan
  let plan ← collectAdmins text metadata plan
  let plan ← collectVirtfs text zoneConfig metadata plan
  let plan ← collectPpt text zoneConfig metadata plan
  return collectFsAllowed text metadata plan

end Collect

section Apply
variable (text : Json → String) (host : Host) (zoneName : String)

/-- The removes from the n-th command on: the configuration, what is narrated, and what was
removed. -/
def toleratedRemoves :
    ℕ → List Resource → Configuration → Configuration × List String × List Resource
  | _, [], c => (c, [], [])
  | n, r :: removes, c =>
    match zonecfg host zoneName n [.remove r] c with
    | some c' =>
      let rest := toleratedRemoves (n + 1) removes c'
      (rest.1, rest.2.1, r :: rest.2.2)
    | none =>
      let rest := toleratedRemoves (n + 1) removes c
      (rest.1, ("zonecfg " ++ (Command.remove r).body ++ " — nothing to remove\n") :: rest.2.1,
        rest.2.2)

def strictCommands (plan : Plan) : List Command := plan.strict.map fun e => .add e.1 e.2

/-- The one batch of adds, behind the removes; `none` where it is refused. -/
def strictBatch (plan : Plan) (c : Configuration) : Option Configuration :=
  if plan.strict.isEmpty then some c
  else zonecfg host zoneName plan.removes.length (strictCommands plan) c

structure Applied where
  /-- What the task adds to its changes, or the error that is thrown. -/
  result : Except String (List String)
  after : Configuration
  narrated : List String

def applyResourceControlChanges (zoneConfig metadata : Json) (c : Configuration) : Applied :=
  match collect text zoneConfig metadata with
  | .error e => ⟨.error e, c, []⟩
  | .ok plan =>
    if plan.changes.isEmpty then ⟨.ok [], c, []⟩
    else
      let removed := toleratedRemoves host zoneName 0 plan.removes c
      match strictBatch host zoneName plan removed.1 with
      | some c' => ⟨.ok plan.changes.eraseDups, c', removed.2.1⟩
      | none => ⟨.error ("Resource-control modification failed: " ++ host.error plan.removes.length
          (commandLine zoneName (bodies (strictCommands plan)))), removed.1, removed.2.1⟩

end Apply

end ZoneweaverAgent.ZoneResources
