import ZoneweaverAgent.JsonValue

/-!
# JSON Schema

Validation of an instance against a schema of the 2020-12 vocabulary, as far as documents with
types, bounds, enumerations, formats, items and properties need it. Formats are asserted. A keyword
that is not listed is an annotation. A schema whose keywords have values of the wrong kind is no
schema, and nothing validates against it. Regular expressions and IP addresses are parameters.
-/

namespace ZoneweaverAgent.JsonSchema

structure Formats where
  /-- A pattern and a text in which it is searched. -/
  search : String → String → Bool
  ipv4 : String → Bool
  ipv6 : String → Bool

/-! ## Equality of instances -/

mutual

/-- Properties are compared by name. -/
def same : Json → Json → Bool
  | .null, .null => true
  | .bool a, .bool b => a == b
  | .num a, .num b => a == b
  | .str a, .str b => a == b
  | .arr as, .arr bs => sameItems as bs
  | .obj as, .obj bs => as.length == bs.length && sameEntries as bs
  | _, _ => false

def sameItems : List Json → List Json → Bool
  | [], [] => true
  | a :: as, b :: bs => same a b && sameItems as bs
  | _, _ => false

def sameEntries : List (String × Json) → List (String × Json) → Bool
  | [], _ => true
  | (key, a) :: as, bs => (KeyedList.get bs key).any (fun b => same a b) && sameEntries as bs

end

theorem same_self_of_not_object {a : Json} (h : a.isObject = false) : same a a = true := by
  cases a with
  | arr items => cases h
  | obj entries => cases h
  | _ => simp [same]

/-! ## Keywords without subschemas -/

def isHostnameChar (c : Char) : Bool :=
  ('a' ≤ c && c ≤ 'z') || ('A' ≤ c && c ≤ 'Z') || c.isDigit || c == '-'

/-- One to 63 letters, digits and hyphens, no hyphen at either end. -/
def isHostnameLabel (label : List Char) : Bool :=
  1 ≤ label.length && label.length ≤ 63 && label.all isHostnameChar && label.head? ≠ some '-' &&
    label.getLast? ≠ some '-'

def isHostname (text : String) : Bool :=
  text.length ≤ 253 && (text.toList.splitOn '.').all isHostnameLabel

def typeNames : List String :=
  ["null", "boolean", "object", "array", "number", "integer", "string"]

def hasType (inst : Json) (type : String) : Bool :=
  match inst with
  | .null => type == "null"
  | .bool _ => type == "boolean"
  | .num q => type == "number" || (type == "integer" && q.den == 1)
  | .str _ => type == "string"
  | .arr _ => type == "array"
  | .obj _ => type == "object"

def isLength : Json → Bool
  | .num q => q.den == 1 && decide (0 ≤ q)
  | _ => false

/-- A keyword that bounds numbers by `holds`. -/
def boundsNumber (holds : ℚ → ℚ → Bool) (value inst : Json) : Bool :=
  match value, inst with
  | .num bound, .num q => holds bound q
  | _, _ => true

/-- A keyword that bounds the number of characters by `holds`. -/
def boundsLength (holds : ℚ → ℚ → Bool) (value inst : Json) : Bool :=
  match value, inst with
  | .num bound, .str text => holds bound text.length
  | _, _ => true

def onTexts (holds : String → String → Bool) (value inst : Json) : Bool :=
  match value, inst with
  | .str parameter, .str text => holds parameter text
  | _, _ => true

def hasRequired (value inst : Json) : Bool :=
  match value, inst with
  | .arr names, .obj entries => (names.filterMap Json.text?).all fun name => KeyedList.has entries name
  | _, _ => true

section Assertions
variable (formats : Formats)

def format (name text : String) : Bool :=
  if name = "hostname" then isHostname text
  else if name = "ipv4" then formats.ipv4 text
  else if name = "ipv6" then formats.ipv6 text
  else true

def assertion (key : String) (value inst : Json) : Bool :=
  if key = "type" then value.text?.all (hasType inst)
  else if key = "enum" then (value.items?.getD []).any fun v => same v inst
  else if key = "minimum" then boundsNumber (fun bound q => bound ≤ q) value inst
  else if key = "maximum" then boundsNumber (fun bound q => q ≤ bound) value inst
  else if key = "minLength" then boundsLength (fun bound q => bound ≤ q) value inst
  else if key = "maxLength" then boundsLength (fun bound q => q ≤ bound) value inst
  else if key = "pattern" then onTexts formats.search value inst
  else if key = "format" then onTexts (format formats) value inst
  else if key = "required" then hasRequired value inst
  else true

end Assertions

def assertionFormed (key : String) (value : Json) : Bool :=
  if key = "type" then value.text?.any (· ∈ typeNames)
  else if key = "enum" then value.items?.isSome
  else if key = "minimum" ∨ key = "maximum" then value.isNum
  else if key = "minLength" ∨ key = "maxLength" then isLength value
  else if key = "pattern" ∨ key = "format" then value.text?.isSome
  else if key = "required" then
    value.items?.any fun names => names.all (·.text?.isSome) && (names.filterMap Json.text?).Nodup
  else true

/-! ## Schemas -/

mutual

def isSchema : Json → Bool
  | .bool _ => true
  | .obj entries => keywordsFormed entries
  | _ => false

def keywordsFormed : List (String × Json) → Bool
  | [] => true
  | (key, value) :: rest =>
    (if key = "items" ∨ key = "additionalProperties" then isSchema value
    else if key = "properties" then propertiesFormed value
    else assertionFormed key value) && keywordsFormed rest

def propertiesFormed : Json → Bool
  | .obj properties => schemasFormed properties
  | _ => false

def schemasFormed : List (String × Json) → Bool
  | [] => true
  | (_, schema) :: rest => isSchema schema && schemasFormed rest

end

def itemsOf : Json → List Json
  | .arr items => items
  | _ => []

def entriesOf : Json → KeyedList String Json
  | .obj entries => entries
  | _ => []

/-- The property names a schema declares. -/
def propertyNames (schema : KeyedList String Json) : List String :=
  (schema.get "properties").elim [] fun properties => (entriesOf properties).keys

section Validation
variable (formats : Formats)

mutual

def validates : Json → Json → Bool
  | .bool b, _ => b
  | .obj entries, inst => keywords (propertyNames entries) entries inst
  | _, _ => false

def keywords (declared : List String) : List (String × Json) → Json → Bool
  | [], _ => true
  | (key, value) :: rest, inst =>
    (if key = "items" then (itemsOf inst).all fun item => validates value item
    else if key = "properties" then properties value inst
    else if key = "additionalProperties" then
      ((entriesOf inst).filter fun e => e.1 ∉ declared).all fun e => validates value e.2
    else assertion formats key value inst) && keywords declared rest inst

def properties : Json → Json → Bool
  | .obj schemas, inst => propertySchemas schemas inst
  | _, _ => true

def propertySchemas : List (String × Json) → Json → Bool
  | [], _ => true
  | (name, schema) :: rest, inst =>
    (inst.field name).all (fun value => validates schema value) && propertySchemas rest inst

end

/-- The instance is valid against the schema. -/
def accepts (schema inst : Json) : Bool := isSchema schema && validates formats schema inst

end Validation

/-! ## A schema keyword by keyword -/

section Keywords
variable {formats : Formats}

/-- What one keyword of a schema demands of an instance. -/
def keywordHolds (formats : Formats) (declared : List String) (inst : Json) (e : String × Json) :
    Bool :=
  if e.1 = "items" then (itemsOf inst).all fun item => validates formats e.2 item
  else if e.1 = "properties" then properties formats e.2 inst
  else if e.1 = "additionalProperties" then
    ((entriesOf inst).filter fun e => e.1 ∉ declared).all fun a => validates formats e.2 a.2
  else assertion formats e.1 e.2 inst

def keywordFormed (e : String × Json) : Bool :=
  if e.1 = "items" ∨ e.1 = "additionalProperties" then isSchema e.2
  else if e.1 = "properties" then propertiesFormed e.2
  else assertionFormed e.1 e.2

theorem keywords_eq (declared : List String) (entries : List (String × Json)) (inst : Json) :
    keywords formats declared entries inst = entries.all (keywordHolds formats declared inst) := by
  induction entries with
  | nil => simp [keywords]
  | cons e rest ih =>
    obtain ⟨key, value⟩ := e
    simp only [keywords, keywordHolds, List.all_cons, ih]

theorem keywordsFormed_eq (entries : List (String × Json)) :
    keywordsFormed entries = entries.all keywordFormed := by
  induction entries with
  | nil => simp [keywordsFormed]
  | cons e rest ih => simp only [keywordsFormed, keywordFormed, List.all_cons, ih]

theorem schemasFormed_eq (schemas : List (String × Json)) :
    schemasFormed schemas = schemas.all fun e => isSchema e.2 := by
  induction schemas with
  | nil => simp [schemasFormed]
  | cons e rest ih => simp only [schemasFormed, List.all_cons, ih]

theorem propertySchemas_eq (schemas : List (String × Json)) (inst : Json) :
    propertySchemas formats schemas inst =
      schemas.all fun e => (inst.field e.1).all fun value => validates formats e.2 value := by
  induction schemas with
  | nil => simp [propertySchemas]
  | cons e rest ih =>
    obtain ⟨name, schema⟩ := e
    simp only [propertySchemas, List.all_cons, ih]

theorem filterMap_text (names : List String) :
    (names.map Json.str).filterMap Json.text? = names := by
  rw [List.filterMap_map]
  exact List.filterMap_some

theorem assertionFormed_required (names : List String) :
    assertionFormed "required" (.arr (names.map .str)) = decide names.Nodup := by
  have htexts : (names.map Json.str).all (·.text?.isSome) = true := by simp [Json.text?]
  change ((names.map Json.str).all (·.text?.isSome) &&
    decide ((names.map Json.str).filterMap Json.text?).Nodup) = _
  rw [htexts, filterMap_text, Bool.true_and]

theorem assertion_required (formats : Formats) (names : List String) (entries : KeyedList String Json) :
    assertion formats "required" (.arr (names.map .str)) (.obj entries) =
      names.all fun name => entries.has name := by
  change (((names.map Json.str).filterMap Json.text?).all fun name => entries.has name) = _
  rw [filterMap_text]

end Keywords

end ZoneweaverAgent.JsonSchema
