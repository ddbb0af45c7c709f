import ZoneweaverAgent.FieldDslLint
import ZoneweaverAgent.HostsTemplate

/-!
# Answer validation and the derived schema

`validateAnswers` decides which answers a machine may be created with, and `deriveJsonSchema` is the
schema document that is cached beside a package for editors and API clients. `net.isIP` and the
regular expression engine are parameters.
-/

namespace ZoneweaverAgent.FieldDsl

open HostsTemplate (isIn)

structure AnswerEnvironment extends LintEnvironment where
  isIP : String → ℕ
  /-- `new RegExp(pattern, 'u').test(value)` -/
  regExpTest : String → String → Bool

/-! ## Validation -/

/-- The value of an option, a scalar or `{value, label}`. -/
def optionValue (option : Json) : Json :=
  if option.isObject then (option.field "value").getD .null else option

def optionValues (field : Json) : Option (List Json) :=
  ((field.field "options").bind Json.items?).map (·.map optionValue)

/-- `values.includes(value)` -/
def includes (values : List Json) (value : Json) : Bool :=
  values.any fun v => strictEqual (some v) (some value)

def utf16Length (text : String) : ℕ :=
  (text.toList.map fun c => if c.toNat < 0x10000 then 1 else 2).sum

/-- The letters, digits and hyphens of `FQDN_PATTERN`, a case-insensitive Unicode pattern: besides
the capitals, the long s and the Kelvin sign fold to its letters. -/
def isFqdnAlphanumeric (c : Char) : Bool :=
  isLetter c || c.isDigit || c == 'ſ' || c == '\u212a'

def isFqdnLabel (label : List Char) : Bool :=
  1 ≤ label.length && label.length ≤ 63 && label.all (fun c => isFqdnAlphanumeric c || c == '-') &&
    label.head? ≠ some '-' && label.getLast? ≠ some '-'

/-- `FQDN_PATTERN.test(value)` -/
def isFqdn (text : String) : Bool :=
  text.length ≤ 253 && 2 ≤ (text.toList.splitOn '.').length &&
    (text.toList.splitOn '.').all isFqdnLabel

section Validation
variable (env : AnswerEnvironment)

def optionTypeError (field : Json) (value : Operand) : Option String :=
  let refusal (bad : Operand) := "\"" ++ env.text bad ++ "\" is not one of the options"
  if typeIs field "multiselect" then
    match value with
    | .value (.arr entries) =>
      (optionValues field).bind fun legal =>
        (entries.find? fun entry => !includes legal entry).map fun bad => refusal (.value bad)
    | _ => some "must be a list"
  else
    let offered := (optionValues field).all fun legal =>
      match value with
      | .value v => includes legal v
      | _ => false
    if !offered then some (refusal value)
    else
      match value with
      | .value (.str _) => none
      | .value (.num _) => none
      | _ => some "must be a scalar"

/-- `Number(text)` is an integer from 0 to `cap`. -/
def isPrefixLength (text : Option String) (cap : ℕ) : Bool :=
  text.any fun t => (List.range (cap + 1)).any fun n =>
    env.number (.value (.str t)) = some (finite n)

def stringTypeError (field : Json) (value : String) : Option String :=
  if typeIs field "fqdn" && !isFqdn value then some "must be a fully-qualified domain name"
  else if typeIs field "ipaddr" && env.isIP value = 0 then some "must be an IP address"
  else if typeIs field "ipaddr" && ((field.field "version").any fun version =>
      version.truthy && env.number (.value version) ≠ some (finite (env.isIP value))) then
    some ("must be an IPv" ++ env.text (operandOf (field.field "version")) ++ " address")
  else if typeIs field "cidr" then
    let parts := value.splitOn "/"
    let version := env.isIP (parts.headD "")
    if parts[2]?.isSome || version = 0 ||
        !isPrefixLength env parts[1]? (if version = 6 then 128 else 32) then
      some "must be CIDR notation (address/prefix)"
    else none
  else none

/-- No value to check: it is absent, null or the empty text. -/
def isBlankOperand : Operand → Bool
  | .undefined => true
  | .value .null => true
  | .value (.str text) => text = ""
  | _ => false

def typeError (field : Json) (value : Operand) : Option String :=
  if isBlankOperand value then none
  else if typeIs field "number" then
    match value with
    | .value (.num _) => none
    | _ => some "must be a number"
  else if typeIs field "checkbox" then
    match value with
    | .value (.bool _) => none
    | _ => some "must be true or false"
  else if typeIs field "select" || typeIs field "multiselect" then optionTypeError env field value
  else if !((field.field "type").bind Json.text?).any (· ∈ stringTypes) then none
  else
    match value with
    | .value (.str text) => stringTypeError env field text
    | _ => some "must be a string"

/-- `field.validate?.[rule]` -/
def ruleOf (field : Json) (rule : String) : Option Json :=
  (field.field "validate").bind (·.field rule)

/-- `value < bound` -/
def below (value : ℚ) (bound : Json) : Bool :=
  (env.number (.value bound)).any fun b => decide (finite value < b)

/-- `value > bound` -/
def above (value : ℚ) (bound : Json) : Bool :=
  (env.number (.value bound)).any fun b => decide (b < finite value)

def numberRuleError (field : Json) (value : ℚ) : Option String :=
  if (ruleOf field "min").any (below env value) then
    some ("must be at least " ++ env.text (operandOf (ruleOf field "min")))
  else if (ruleOf field "max").any (above env value) then
    some ("must be at most " ++ env.text (operandOf (ruleOf field "max")))
  else none

def stringRuleError (field : Json) (value : String) : Option String :=
  if (ruleOf field "min_length").any (below env (utf16Length value)) then
    some ("must be at least " ++ env.text (operandOf (ruleOf field "min_length")) ++ " characters")
  else if (ruleOf field "max_length").any (above env (utf16Length value)) then
    some ("must be at most " ++ env.text (operandOf (ruleOf field "max_length")) ++ " characters")
  else if (ruleOf field "pattern").any fun pattern =>
      !env.regExpTest (propertyKey env.toCoercions pattern) value then
    match ruleOf field "pattern_error" with
    | some message =>
      if message.truthy then some (propertyKey env.toCoercions message)
      else some "does not match the required pattern"
    | none => some "does not match the required pattern"
  else none

def validateRuleError (field : Json) (value : Operand) : Option String :=
  if isBlankOperand value then none
  else
    match value with
    | .value (.num q) => numberRuleError env field q
    | .value (.str text) => stringRuleError env field text
    | _ => none

def isEmpty : Operand → Bool
  | .value (.arr items) => items.isEmpty
  | value => isBlankOperand value

/-- `value !== other`; two containers are never the same one. -/
def changed (value other : Operand) : Bool :=
  match value with
  | .value v => !strictEqual (some v) (match other with | .value o => some o | _ => none)
  | _ => value ≠ other

structure ValidationOptions where
  previousAnswers : Option Values
  provisioned : Bool

def isImmutable (options : ValidationOptions) (field : Json) (name : String) (value : Operand) :
    Bool :=
  (field.field "immutable").any Json.isTrue && options.provisioned &&
    options.previousAnswers.any fun previous => isIn previous name && changed value (read previous name)

def validateField (options : ValidationOptions) (values : Values)
    (errors : KeyedList String String) (field : Json) : KeyedList String String :=
  match nameOf field with
  | none => errors
  | some name =>
    let value := read values name
    if (field.field "required").any Json.isTrue && isEmpty value then
      assign errors name "is required"
    else
      let errors := match (typeError env field value).or (validateRuleError env field value) with
        | some message => assign errors name message
        | none => errors
      if isImmutable options field name value then
        assign errors name "is immutable after the first provision"
      else errors

structure AnswerValidation where
  errors : KeyedList String String
  values : Values
  hidden : List String

def undeclaredErrors (fields : List Json) (answers : Values) : KeyedList String String :=
  answers.keys.foldl (fun errors key =>
    if key ≠ "" ∧ key ∈ fields.filterMap nameOf then errors
    else assign errors key "is not a declared field") []

def validateAnswers (configuration : Option Json) (answers roleFlags : Values)
    (options : ValidationOptions) : AnswerValidation :=
  let v := computeVisibility env.toCoercions configuration answers roleFlags
  ⟨v.visibleFields.foldl (validateField env options v.values)
    (undeclaredErrors (listOf configuration "fields") answers), v.values, v.hidden⟩

end Validation

/-! ## The derived schema -/

/-- A keyword that is set where the value is defined. -/
def keywordOf (key : String) (value : Option Json) : List (String × Json) :=
  (value.map (key, ·)).toList

def annotations (field : Json) : List (String × Json) :=
  keywordOf "title" ((field.field "label").filter (·.text?.isSome)) ++
    keywordOf "description" ((field.field "help").filter (·.text?.isSome)) ++
    keywordOf "default" (field.field "default")

def stringKeywords (coerce : Coercions) (field : Json) : List (String × Json) :=
  [("type", .str "string")] ++
    (if typeIs field "password" then [("writeOnly", .bool true)] else []) ++
    (if typeIs field "fqdn" then [("format", .str "hostname")] else []) ++
    (if typeIs field "ipaddr" then
      [("format", .str (if coerce.number (operandOf (field.field "version")) = some (finite 6)
        then "ipv6" else "ipv4"))] else []) ++
    keywordOf "minLength" (ruleOf field "min_length") ++
    keywordOf "maxLength" (ruleOf field "max_length") ++
    keywordOf "pattern" (ruleOf field "pattern")

def typeKeywords (coerce : Coercions) (field : Json) : List (String × Json) :=
  if typeIs field "number" then
    [("type", .str "number")] ++ keywordOf "minimum" (ruleOf field "min") ++
      keywordOf "maximum" (ruleOf field "max")
  else if typeIs field "checkbox" then [("type", .str "boolean")]
  else if typeIs field "multiselect" then
    [("type", .str "array"), ("items", (optionValues field).elim (.obj [("type", .str "string")])
      fun values => .obj [("enum", .arr values)])]
  else if typeIs field "select" then
    match optionValues field with
    | some values => [("enum", .arr values)]
    | none => stringKeywords coerce field
  else stringKeywords coerce field

def schemaForField (coerce : Coercions) (field : Json) : Json :=
  .obj (annotations field ++ typeKeywords coerce field)

/-- The field or its group has a condition. -/
def isConditional (groups : List Json) (field : Json) : Bool :=
  (field.field "show_if").isSome ||
    (groups.filter fun group => (group.field "show_if").isSome).any fun group =>
      strictEqual (group.field "name") (field.field "group")

def derivedProperties (coerce : Coercions) (fields : List Json) : Values :=
  (fields.filter knownType).foldl (fun properties field =>
    match nameOf field with
    | some name => assign properties name (schemaForField coerce field)
    | none => properties) []

def derivedRequired (groups fields : List Json) : List String :=
  (fields.filter fun field => knownType field && (field.field "required").any Json.isTrue &&
    !isConditional groups field).filterMap nameOf

def deriveJsonSchema (coerce : Coercions) (configuration : Option Json) : Json :=
  let fields := listOf configuration "fields"
  let required := derivedRequired (listOf configuration "groups") fields
  .obj ([("$schema", .str "https://json-schema.org/draft/2020-12/schema"), ("type", .str "object"),
    ("additionalProperties", .bool false), ("properties", .obj (derivedProperties coerce fields))] ++
    if required = [] then [] else [("required", .arr (required.map .str))])

end ZoneweaverAgent.FieldDsl
