import Mathlib.Data.Rat.Lemmas
import Mathlib.Order.WithBot
import ZoneweaverAgent.JsonValue

/-!
# The field language of a package manifest

`metadata.configuration = {groups, fields}` drives the machine-create form. This is its evaluator:
the conditions of `show_if`, and the one pass in declaration order that decides which fields are
visible and with which values. The conversions `Number` and `String` are parameters, so what is
proved of the evaluator holds for any conversions.
-/

namespace ZoneweaverAgent.FieldDsl

abbrev Values := KeyedList String Json

/-- What reading a property of a plain object gives: nothing, something of the object prototype
under that name, or a value of its own. -/
inductive Operand
  | undefined
  | inherited (key : String)
  | value (v : Json)
  deriving DecidableEq

def objectPrototype : List String :=
  ["constructor", "__proto__", "hasOwnProperty", "isPrototypeOf", "propertyIsEnumerable",
    "toLocaleString", "toString", "valueOf", "__defineGetter__", "__defineSetter__",
    "__lookupGetter__", "__lookupSetter__"]

/-- `target[key]`. -/
def read (target : Values) (key : String) : Operand :=
  match target.get key with
  | some v => .value v
  | none => if key ∈ objectPrototype then .inherited key else .undefined

/-- `target[key] = value`: the key `__proto__` sets the prototype instead of a property. -/
def assign {α : Type*} (target : KeyedList String α) (key : String) (value : α) :
    KeyedList String α :=
  if key = "__proto__" then target else target.set key value

/-- Numbers without `NaN`. -/
abbrev Numeric := WithBot (WithTop ℚ)

def finite (q : ℚ) : Numeric := ((q : WithTop ℚ) : Numeric)

/-- `Number`, nothing where it gives `NaN`, and `String`. -/
structure Coercions where
  number : Operand → Option Numeric
  text : Operand → String

def fieldTypes : List String :=
  ["text", "textarea", "number", "checkbox", "select", "multiselect", "password", "fqdn", "ipaddr",
    "cidr", "path"]

def stringTypes : List String :=
  ["text", "textarea", "password", "fqdn", "ipaddr", "cidr", "path"]

def optionsSources : List String := ["networks", "datastores", "hosts", "images"]

def comparators : List String := ["gt", "gte", "lt", "lte"]

section Evaluation
variable (coerce : Coercions)

/-- An operand that takes the numeric path of `looseEqual`. -/
def comparable : Operand → Bool
  | .value (.bool _) => false
  | .value (.str "") => false
  | _ => true

def looseEqual (a b : Operand) : Bool :=
  if comparable a ∧ comparable b then
    match coerce.number a, coerce.number b with
    | some an, some bn => an = bn
    | _, _ => coerce.text a = coerce.text b
  else coerce.text a = coerce.text b

def compareWith (cmp : String) (operand bound : Numeric) : Bool :=
  if cmp = "gt" then operand > bound
  else if cmp = "gte" then operand ≥ bound
  else if cmp = "lt" then operand < bound
  else operand ≤ bound

/-- The first comparator of a condition object, applied; a condition object without one is false. -/
def evaluateComparator (value : Operand) (condition : Values) : Bool :=
  match comparators.find? (fun cmp => condition.has cmp) with
  | none => false
  | some cmp =>
    match coerce.number value, coerce.number (read condition cmp) with
    | some operand, some bound => compareWith cmp operand bound
    | _, _ => false

mutual

def evaluateCondition (value : Operand) : Json → Bool
  | .arr entries => entries.any fun entry => looseEqual coerce value (.value entry)
  | .obj condition => (evaluateNot value condition).getD (evaluateComparator coerce value condition)
  | condition => looseEqual coerce value (.value condition)

/-- The negated condition, where the condition object has a `not`. -/
def evaluateNot (value : Operand) : List (String × Json) → Option Bool
  | [] => none
  | (key, condition) :: rest =>
    if key = "not" then some !evaluateCondition value condition else evaluateNot value rest

end

mutual

def evaluateShowIf (ctx : Values) : Json → Bool
  | .obj entries => evaluateEntries ctx entries
  | .arr entries =>
    entries.zipIdx.all fun e => evaluateCondition coerce (read ctx (toString e.2)) e.1
  | _ => true

def evaluateEntries (ctx : Values) : List (String × Json) → Bool
  | [] => true
  | (key, condition) :: rest =>
    (if key = "any" then evaluateAnyOf ctx condition
    else evaluateCondition coerce (read ctx key) condition) && evaluateEntries ctx rest

def evaluateAnyOf (ctx : Values) : Json → Bool
  | .arr maps => evaluateAny ctx maps
  | _ => false

def evaluateAny (ctx : Values) : List Json → Bool
  | [] => false
  | map :: rest => evaluateShowIf ctx map || evaluateAny ctx rest

end

/-- The condition of a field or a group, if it has one. -/
def shows (ctx : Values) (owner : Json) : Bool :=
  match owner.field "show_if" with
  | some showIf => if showIf.truthy then evaluateShowIf coerce ctx showIf else true
  | none => true

def nameOf (owner : Json) : Option String := (owner.field "name").bind Json.text?

/-- `configuration?.[key]`, where that is a list. -/
def listOf (configuration : Option Json) (key : String) : List Json :=
  ((configuration.bind (·.field key)).bind Json.items?).getD []

def defaultValues (fields : List Json) : Values :=
  fields.foldl (fun acc field =>
    match nameOf field, field.field "default" with
    | some name, some value => assign acc name value
    | _, _ => acc) []

/-- Defaults, overlaid by the answers. -/
def mergeValues (fields : List Json) (answers : Values) : Values :=
  answers.foldl (fun acc e => assign acc e.1 e.2) (defaultValues fields)

/-- `{ ...roleFlags, ...values }` -/
def contextOf (roleFlags values : Values) : Values := roleFlags.setAll values

def groupVisibility (groups : List Json) (ctx : Values) : KeyedList String Bool :=
  groups.foldl (fun acc group =>
    match nameOf group with
    | some name => assign acc name (shows coerce ctx group)
    | none => acc) []

def propertyKey : Json → String
  | .str key => key
  | value => coerce.text (.value value)

def inVisibleGroup (groupVisible : KeyedList String Bool) (field : Json) : Bool :=
  match field.field "group" with
  | some group => !group.truthy || groupVisible.get (propertyKey coerce group) ≠ some false
  | none => true

structure Pass where
  ctx : Values
  values : Values
  hidden : List String
  visibleFields : List Json

def visitField (groupVisible : KeyedList String Bool) (pass : Pass) (field : Json) : Pass :=
  match nameOf field with
  | none => pass
  | some name =>
    if inVisibleGroup coerce groupVisible field && shows coerce pass.ctx field then
      { pass with visibleFields := pass.visibleFields ++ [field] }
    else
      { pass with
        hidden := pass.hidden ++ [name]
        ctx := pass.ctx.erase name
        values := pass.values.erase name }

structure Visibility where
  values : Values
  hidden : List String
  visibleFields : List Json

def computeVisibility (configuration : Option Json) (answers roleFlags : Values) : Visibility :=
  let fields := listOf configuration "fields"
  let values := mergeValues fields answers
  let ctx := contextOf roleFlags values
  let groupVisible := groupVisibility coerce (listOf configuration "groups") ctx
  let pass := fields.foldl (visitField coerce groupVisible) ⟨ctx, values, [], []⟩
  ⟨pass.values, pass.hidden, pass.visibleFields⟩

end Evaluation

def roleFlag (name : String) : String := name ++ "_enabled"

/-- The flags of a role selection, entries `{name, enabled}`. -/
def buildShowIfRoleFlags (roles : List Json) : Values :=
  roles.foldl (fun flags role =>
    match nameOf role with
    | some name =>
      assign flags (roleFlag name) (.bool (((role.field "enabled").map Json.truthy).getD false))
    | none => flags) []

end ZoneweaverAgent.FieldDsl
