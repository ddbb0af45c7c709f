import ZoneweaverAgent.FieldDsl

/-!
# The context a package's hosts template renders in

`buildTemplateContext`: settings, networks, disks and roles as they are, then the upper-case
settings, the role flags and role files, then the visible fields, and the global secrets last. The
conversion to upper case and the secrets store are parameters.
-/

namespace ZoneweaverAgent.HostsTemplate

open FieldDsl

structure TemplateEnvironment extends Coercions where
  upperCase : String → String
  secretsTemplateVars : Values

structure PackageVersion where
  version : String
  configuration : Option Json
  /-- `from[<version>].renames` of its `answer-migrations.yml`. -/
  renames : String → Values

structure TemplateInput where
  version : PackageVersion
  settings : Values
  networks : Json
  disks : Json
  roles : List Json
  properties : Values
  answersFromVersion : Option String

abbrev Context := KeyedList String Operand

/-- `key in target` -/
def isIn {α : Type*} (target : KeyedList String α) (key : String) : Bool :=
  target.has key || key ∈ objectPrototype

section Context
variable (env : TemplateEnvironment)

def sanitizeVar (name : String) : String :=
  (env.upperCase name).map fun c => if ('A' ≤ c && c ≤ 'Z') || c.isDigit then c else '_'

def renameAnswer (source : Values) (e : String × Json) : Values :=
  match source.get e.1 with
  | none => source
  | some v =>
    let newName := propertyKey env.toCoercions e.2
    (if source.has newName then source else assign source newName v).erase e.1

def applyAnswerMigrations (version : PackageVersion) (fromVersion : String) (answers : Values) :
    Values :=
  (version.renames fromVersion).foldl (renameAnswer env) answers

/-- The answers a context is assembled from. -/
def contextAnswers (input : TemplateInput) : Values :=
  match input.answersFromVersion with
  | none => input.properties
  | some fromVersion =>
    if fromVersion ≠ "" ∧ fromVersion ≠ input.version.version then
      applyAnswerMigrations env input.version fromVersion input.properties
    else input.properties

def isEnabled (role : Json) : Bool := ((role.field "enabled").map Json.truthy).getD false

def filesOf (role : Json) : Json := orElseTruthy (role.field "files") (.obj [])

def roleFileSuffixes : List (String × String) :=
  [("_INSTALLER", "installer"), ("_INSTALLER_HASH", "installer_hash"),
    ("_INSTALLER_VERSION", "installer_version"), ("_FIXPACK", "fixpack"),
    ("_FIXPACK_HASH", "fixpack_hash"), ("_FIXPACK_VERSION", "fixpack_version"),
    ("_HOTFIX", "hotfix"), ("_HOTFIX_HASH", "hotfix_hash"), ("_HOTFIX_VERSION", "hotfix_version")]

def roleFileVars (ctx : Context) (upper : String) (files : Json) : Context :=
  roleFileSuffixes.foldl (fun ctx e =>
    match files.field e.2 with
    | some value => if value.truthy then assign ctx (upper ++ e.1) (.value value) else ctx
    | none => ctx) ctx

/-- The role flags of the template, in both casings of the sanitized name. -/
def buildRoleFlags (roles : List Json) : KeyedList String Bool :=
  roles.foldl (fun flags role =>
    match nameOf role with
    | none => flags
    | some name =>
      let upper := sanitizeVar env name
      assign (assign (assign flags name (isEnabled role)) upper (isEnabled role)) upper.toLower
        (isEnabled role)) []

def roleEntry (role : Json) : Json :=
  .obj ((((role.field "name").map fun name => ("name", name)).toList) ++
    [("enabled", .bool (isEnabled role)), ("files", filesOf role)])

/-- The context before any field of the configuration enters it. -/
def baseContext (input : TemplateInput) : Context :=
  let ctx : Context :=
    [("settings", .value (.obj input.settings)), ("networks", .value input.networks),
      ("disks", .value input.disks), ("roles", .value (.arr (input.roles.map roleEntry)))]
  let ctx := input.settings.foldl (fun ctx e => assign ctx (sanitizeVar env e.1) (.value e.2)) ctx
  let ctx := (buildRoleFlags env input.roles).foldl
    (fun ctx e => assign ctx e.1 (.value (.bool e.2))) ctx
  input.roles.foldl (fun ctx role =>
    match nameOf role with
    | none => ctx
    | some name => roleFileVars ctx (sanitizeVar env name) (filesOf role)) ctx

def assignField (answers : Values) (ctx : Context) (field : Json) : Context :=
  match nameOf field with
  | none => ctx
  | some name =>
    if isIn answers name then assign ctx name (read answers name)
    else
      match field.field "default" with
      | none => ctx
      | some value => if isIn ctx name then ctx else assign ctx name (.value value)

def buildTemplateContext (input : TemplateInput) : Context :=
  let answers := contextAnswers env input
  let visibleFields := (computeVisibility env.toCoercions input.version.configuration answers
    (buildShowIfRoleFlags input.roles)).visibleFields
  let ctx := visibleFields.foldl (assignField answers) (baseContext env input)
  env.secretsTemplateVars.foldl (fun ctx e => assign ctx e.1 (.value e.2)) ctx

end Context

end ZoneweaverAgent.HostsTemplate
