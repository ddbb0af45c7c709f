import ZoneweaverAgent.FieldDsl

/-!
# The import lint of a manifest's configuration

An accepted configuration has no errors. Each error names its path, its message and the node of the
author's document. The regular expression engine is a parameter: `regExpError` is the message with
which `RegExp` refuses a pattern.
-/

namespace ZoneweaverAgent.FieldDsl

structure LintError where
  path : String
  message : String
  node : Option Json
  deriving DecidableEq

structure LintEnvironment extends Coercions where
  regExpError : Json → Option String

/-- The conversions of integers, booleans and texts that spell no number. -/
def plainEnvironment : LintEnvironment where
  number
    | .value .null => some (finite 0)
    | .value (.bool b) => some (finite (if b then 1 else 0))
    | .value (.num q) => some (finite q)
    | .value (.str "") => some (finite 0)
    | _ => none
  text
    | .undefined => "undefined"
    | .value .null => "null"
    | .value (.bool b) => if b then "true" else "false"
    | .value (.num q) => toString q.num
    | .value (.str s) => s
    | _ => "[object Object]"
  regExpError := fun _ => none

def groupKeys : List String := ["name", "label", "help", "advanced", "show_if"]

def fieldKeys : List String :=
  ["name", "type", "label", "help", "group", "default", "required", "immutable", "show_if",
    "validate", "options", "options_source", "rows", "version", "generate"]

def validateKeys : List String :=
  ["min", "max", "min_length", "max_length", "pattern", "pattern_error"]

def isLetter (c : Char) : Bool := ('A' ≤ c && c ≤ 'Z') || ('a' ≤ c && c ≤ 'z')

/-- `/^[A-Za-z_][A-Za-z0-9_]*$/` -/
def isFieldName (name : String) : Bool :=
  match name.toList with
  | [] => false
  | first :: rest =>
    (isLetter first || first == '_') && rest.all fun c => isLetter c || c.isDigit || c == '_'

/-- `/\(\?<?[=!]|\\[1-9]/` at the head of a text. -/
def nonPortableHead : List Char → Bool
  | '(' :: '?' :: '<' :: c :: _ => c == '=' || c == '!'
  | '(' :: '?' :: c :: _ => c == '=' || c == '!'
  | '\\' :: c :: _ => '1' ≤ c && c ≤ '9'
  | _ => false

def nonPortableRegex (pattern : String) : Bool := pattern.toList.tails.any nonPortableHead

def operandOf : Option Json → Operand
  | some v => .value v
  | none => .undefined

/-- `a === b`; two containers of a document are never the same one. -/
def strictEqual : Option Json → Option Json → Bool
  | some (.arr _), _ => false
  | some (.obj _), _ => false
  | a, b => a = b

def errorIf (refused : Bool) (path message : String) (node : Option Json) : List LintError :=
  if refused then [⟨path, message, node⟩] else []

def illegalCondition (path key : String) (condition : Json) : LintError where
  path := path ++ "." ++ key
  message := "condition object must be exactly one of \x7bnot\x7d, \x7bgt\x7d, \x7bgte\x7d, " ++
    "\x7blt\x7d, \x7blte\x7d"
  node := some condition

def lintCondition (path key : String) (condition : Json) : List LintError :=
  match condition with
  | .obj [(k, bound)] =>
    if k = "not" then []
    else if k ∈ comparators then
      errorIf (!bound.isNum) (path ++ "." ++ key ++ "." ++ k) "comparator bound must be a number"
        (some condition)
    else [illegalCondition path key condition]
  | .obj _ => [illegalCondition path key condition]
  | _ => []

mutual

def lintShowIf (operands : List String) (path : String) : Json → List LintError
  | .obj entries => lintEntries operands path entries
  | showIf => [⟨path, "show_if must be a map of conditions", some showIf⟩]

def lintEntries (operands : List String) (path : String) : List (String × Json) → List LintError
  | [] => []
  | (key, condition) :: rest =>
    (if key = "any" then lintAnyOf operands path condition
    else
      errorIf (key ∉ operands) (path ++ "." ++ key)
        "operand is not an earlier-declared field or role-enable flag" (some condition) ++
      lintCondition path key condition) ++ lintEntries operands path rest

def lintAnyOf (operands : List String) (path : String) : Json → List LintError
  | .arr maps =>
    if maps.isEmpty then
      [⟨path ++ ".any", "any takes a list of condition maps", some (.arr maps)⟩]
    else lintAny operands path 0 maps
  | condition => [⟨path ++ ".any", "any takes a list of condition maps", some condition⟩]

def lintAny (operands : List String) (path : String) (i : ℕ) : List Json → List LintError
  | [] => []
  | map :: rest =>
    (if !map.isMap || (map.field "any").isSome then
      [⟨path ++ ".any[" ++ toString i ++ "]",
        "any entries are plain condition maps (no nested any)", some map⟩]
    else lintShowIf operands (path ++ ".any[" ++ toString i ++ "]") map) ++
      lintAny operands path (i + 1) rest

end

def lintKeys (keys : List String) (path message : String) (entries : Values) : List LintError :=
  entries.flatMap fun e => errorIf (e.1 ∉ keys) (path ++ "." ++ e.1) message (some e.2)

section Rules
variable (env : LintEnvironment)

def lintValidate (field : Json) (path : String) : List LintError :=
  match field.field "validate" with
  | none => []
  | some (.obj entries) =>
    let rules : Values := entries
    let numeric := field.field "type" = some (.str "number")
    let stringy := ((field.field "type").bind Json.text?).any (· ∈ stringTypes)
    lintKeys validateKeys path "unknown validate rule" rules ++
    errorIf ((rules.has "min" || rules.has "max") && !numeric) path
      "min/max apply to number fields only" (some (.obj entries)) ++
    errorIf ((rules.has "min_length" || rules.has "max_length" || rules.has "pattern") && !stringy)
      path "min_length/max_length/pattern apply to string fields only" (some (.obj entries)) ++
    match rules.get "pattern" with
    | none => []
    | some pattern =>
      errorIf ((((rules.get "pattern_error").bind Json.text?).getD "") = "")
        (path ++ ".pattern_error") "pattern REQUIRES pattern_error" (some (.obj entries)) ++
      (match env.regExpError pattern with
      | some message => [⟨path ++ ".pattern", "invalid regex: " ++ message, some pattern⟩]
      | none => []) ++
      errorIf (nonPortableRegex (env.text (.value pattern))) (path ++ ".pattern")
        "lookaround/backreferences are outside the JS/Go-common regex subset" (some pattern)
  | some rules => [⟨path, "validate must be a map", some rules⟩]

def typeIs (field : Json) (type : String) : Bool := field.field "type" = some (.str type)

def lintScalarTypeKeys (field : Json) (path : String) : List LintError :=
  (match field.field "rows" with
  | none => []
  | some rows =>
    errorIf (!typeIs field "textarea") (path ++ ".rows") "rows applies to textarea only"
      (some rows) ++
    errorIf (!rows.isPositiveInteger) (path ++ ".rows") "rows must be a positive integer"
      (some rows)) ++
  match field.field "version" with
  | none => []
  | some version =>
    errorIf (!typeIs field "ipaddr") (path ++ ".version") "version applies to ipaddr only"
      (some version) ++
    errorIf (env.number (.value version) ∉ [some (finite 4), some (finite 6)])
      (path ++ ".version") "version must be 4 or 6" (some version)

def lintOptions (path : String) (i : ℕ) : List Json → List LintError
  | [] => []
  | option :: rest =>
    errorIf (option.isObject && ((option.field "value").isNone ||
        ((option.field "label").bind Json.text?).isNone))
      (path ++ ".options[" ++ toString i ++ "]") "object options carry value and label"
      (some option) ++ lintOptions path (i + 1) rest

def lintSelectKeys (field : Json) (path : String) : List LintError :=
  let selectish := typeIs field "select" || typeIs field "multiselect"
  let options := field.field "options"
  let optionsSource := field.field "options_source"
  errorIf ((options.isSome || optionsSource.isSome) && !selectish) path
    "options/options_source apply to select and multiselect only" (field.field "type") ++
  if !selectish then []
  else
    errorIf (options.isSome && optionsSource.isSome) path
      "options and options_source are mutually exclusive" (field.field "name") ++
    errorIf (options.isNone && optionsSource.isNone) path
      (env.text (operandOf (field.field "type")) ++ " needs options or options_source")
      (field.field "name") ++
    (match options with
    | none => []
    | some (.arr entries) => lintOptions path 0 entries
    | some value => [⟨path ++ ".options", "options must be a list", some value⟩]) ++
    match optionsSource with
    | none => []
    | some source =>
      errorIf (source.text?.all (· ∉ optionsSources)) (path ++ ".options_source")
        ("options_source must be one of " ++ String.intercalate "|" optionsSources) (some source)

/-- `value.length` of an object. -/
def lengthOf : Json → Option Json
  | .arr items => some (.num items.length)
  | value => value.field "length"

def lintPasswordKeys (field : Json) (path : String) : List LintError :=
  let generate := field.field "generate"
  if !typeIs field "password" then
    errorIf generate.isSome (path ++ ".generate") "generate applies to password only" generate
  else
    errorIf (field.field "default").isSome (path ++ ".default")
      "password fields never carry a default" (field.field "name") ++
    match generate with
    | none => []
    | some value =>
      errorIf (!((lengthOf value).map Json.isPositiveInteger).getD false)
        (path ++ ".generate") "generate takes \x7blength: positive integer\x7d" (some value)

def lintFieldTypeKeys (field : Json) (path : String) : List LintError :=
  lintScalarTypeKeys env field path ++ lintSelectKeys env field path ++ lintPasswordKeys field path

def lintFlag (path : String) (owner : Json) (flag : String) : List LintError :=
  match owner.field flag with
  | none => []
  | some value =>
    errorIf (!value.isBool) (path ++ "." ++ flag) (flag ++ " must be a boolean") (some value)

def lintOwnShowIf (operands : List String) (path : String) (owner : Json) : List LintError :=
  match owner.field "show_if" with
  | none => []
  | some showIf => lintShowIf operands (path ++ ".show_if") showIf

def groupNameOf (group : Json) : String := (nameOf group).getD ""

def lintGroupName (path : String) (groupNames : List String) (group : Json) : List LintError :=
  if groupNameOf group = "" then [⟨path ++ ".name", "group name is required", some group⟩]
  else errorIf (groupNameOf group ∈ groupNames) (path ++ ".name")
    ("duplicate group name \"" ++ groupNameOf group ++ "\"") (group.field "name")

/-- The names a condition of the group may read: the role flags and the fields outside it. -/
def groupOperands (operands : List String) (fields : List Json) (group : Json) : List String :=
  operands ++ (fields.filter fun field =>
    !strictEqual (field.field "group") (group.field "name")).filterMap nameOf

/-- The errors of one group, and the names of the groups so far. -/
def lintGroup (operands : List String) (fields : List Json) (i : ℕ) (groupNames : List String)
    (group : Json) : List LintError × List String :=
  let path := "configuration.groups[" ++ toString i ++ "]"
  match group with
  | .obj entries =>
    (lintKeys groupKeys path "unknown group key" entries ++ lintGroupName path groupNames group ++
      lintFlag path group "advanced" ++
      lintOwnShowIf (groupOperands operands fields group) path group,
      if groupNameOf group = "" ∨ groupNameOf group ∈ groupNames then groupNames
      else groupNames ++ [groupNameOf group])
  | _ => ([⟨path, "group must be a map", some group⟩], groupNames)

def lintGroups (operands : List String) (fields : List Json) (i : ℕ) (groupNames : List String) :
    List Json → List LintError × List String
  | [] => ([], groupNames)
  | group :: rest =>
    let r := lintGroup operands fields i groupNames group
    let rs := lintGroups operands fields (i + 1) r.2 rest
    (r.1 ++ rs.1, rs.2)

def lintFieldName (path : String) (seen : List String) (field : Json) : List LintError :=
  match nameOf field with
  | some name =>
    if !isFieldName name then
      [⟨path ++ ".name", "name is required and must be a legal Jinja2 identifier",
        field.field "name"⟩]
    else errorIf (name ∈ seen) (path ++ ".name") ("duplicate field name \"" ++ name ++ "\"")
      (field.field "name")
  | none =>
    [⟨path ++ ".name", "name is required and must be a legal Jinja2 identifier",
      field.field "name"⟩]

def knownType (field : Json) : Bool := ((field.field "type").bind Json.text?).any (· ∈ fieldTypes)

def lintFieldGroup (path : String) (groupNames : List String) (field : Json) : List LintError :=
  match field.field "group" with
  | none => []
  | some group =>
    errorIf (group.text?.all (· ∉ groupNames)) (path ++ ".group")
      ("group \"" ++ env.text (.value group) ++ "\" is not declared") (some group)

/-- The errors of one field, and the names of the fields so far. -/
def lintField (operands groupNames : List String) (i : ℕ) (seen : List String) (field : Json) :
    List LintError × List String :=
  let path := "configuration.fields[" ++ toString i ++ "]"
  match field with
  | .obj entries =>
    let errors := lintKeys fieldKeys path "unknown field key" entries ++
      lintFieldName path seen field
    if !knownType field then
      (errors ++ [⟨path ++ ".type",
        "unknown type \"" ++ env.text (operandOf (field.field "type")) ++ "\" — legal types: " ++
          String.intercalate ", " fieldTypes, field.field "type"⟩], seen)
    else
      (errors ++ lintFieldGroup env path groupNames field ++
        ["required", "immutable"].flatMap (lintFlag path field) ++
        lintOwnShowIf (operands ++ seen) path field ++
        lintFieldTypeKeys env field path ++ lintValidate env field path,
        seen ++ (nameOf field).toList)
  | _ => ([⟨path, "field must be a map", some field⟩], seen)

def lintFields (operands groupNames : List String) (i : ℕ) (seen : List String) :
    List Json → List LintError
  | [] => []
  | field :: rest =>
    let r := lintField env operands groupNames i seen field
    r.1 ++ lintFields operands groupNames (i + 1) r.2 rest

/-- The role-enable flags of a manifest's role list. -/
def roleOperands (roles : List Json) : List String := (roles.filterMap nameOf).map roleFlag

def configurationKeys : List String := ["groups", "fields", "basicFields", "advancedFields"]

def lintConfiguration (configuration : Option Json) (roles : List Json) : List LintError :=
  match configuration with
  | none => []
  | some .null => []
  | some (.obj entries) =>
    let configuration := Json.obj entries
    let legacyErrors := ["basicFields", "advancedFields"].flatMap fun legacy =>
      errorIf (configuration.field legacy).isSome ("configuration." ++ legacy)
        ("basicFields/advancedFields are replaced by \x7bgroups, fields\x7d — one cut, " ++
          "convert the manifest") (configuration.field legacy)
    let keyErrors :=
      lintKeys configurationKeys "configuration" "unknown configuration key" entries
    let operands := roleOperands roles
    let groups := (configuration.field "groups").getD (.arr [])
    let fields := (configuration.field "fields").getD (.arr [])
    let groupsErrors := errorIf groups.items?.isNone "configuration.groups" "groups must be a list"
      (some groups)
    match fields with
    | .arr fields =>
      let r := lintGroups operands fields 0 [] (groups.items?.getD [])
      legacyErrors ++ keyErrors ++ groupsErrors ++ r.1 ++ lintFields env operands r.2 0 [] fields
    | fields =>
      legacyErrors ++ keyErrors ++ groupsErrors ++
        [⟨"configuration.fields", "fields must be a list", some fields⟩]
  | some configuration =>
    [⟨"configuration", "configuration must be a map", some configuration⟩]

end Rules

end ZoneweaverAgent.FieldDsl
