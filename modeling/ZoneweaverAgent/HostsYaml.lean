import ZoneweaverAgent.DiskSpec

/-!
# The document as YAML

`GET hosts-yml` renders the editable sections of a stored document, `PUT hosts-yml` replaces them by
what it parses. The YAML library and `Number(value)` of a value that is no number are parameters.
-/

namespace ZoneweaverAgent.HostsYaml
open ZoneDocument DiskSpec

def reservedSections : List String :=
  ["provisioner_ref", "provisioner_state", "pending_changes", "guest_info", "snapshots"]

def mapSections : List String :=
  ["settings", "zones", "vbox", "utm", "disks", "provisioner", "metadata"]

/-- `yaml.dump` and `yaml.load`; an empty text has no value, a refusal carries its reason. -/
structure Yaml where
  dump : Document → String
  load : String → Except String (Option Json)

/-- The library reads back a document it has rendered. -/
def Yaml.RoundTrips (yaml : Yaml) (document : Document) : Prop :=
  yaml.load (yaml.dump document) = .ok (some (.obj document)) ∧
    isBlank (yaml.dump document) = false

structure Conversions where
  toText : Json → String
  toNumber : Json → Option ℚ

section Controller
variable (conv : Conversions)

def Conversions.number : Json → Option ℚ
  | .num q => some q
  | value => conv.toNumber value

/-- No change requested: absent, `null` or the empty text. -/
def isUnset (value : Option Json) : Bool :=
  decide (value ∈ [none, some .null, some (.str "")])

def consoleportRangeError (value : Option Json) : Option String :=
  if isUnset value then none
  else
    let port := (value.bind conv.number).filter fun num =>
      num.den = 1 ∧ 1025 ≤ num ∧ num ≤ 65535
    if port.isSome then none
    else some ("consoleport " ++ (value.map (textOf conv.toText)).getD "" ++
      " is outside the valid console port range (1025-65535)")

def vcpusCountError (value : Option Json) : Option String :=
  if isUnset value then none
  else
    let count := (value.bind conv.number).filter fun num => num.den = 1 ∧ 1 ≤ num
    if count.isSome then none
    else some ("vcpus " ++ (value.map (textOf conv.toText)).getD "" ++
      " is not a valid vCPU count (whole number >= 1)")

def settingsField (key : String) (document : Document) : Option Json :=
  (document.get "settings").bind (Json.field key)

def sectionNameError (key : String) : Option String :=
  if key ∈ reservedSections then
    some (key ++ " is agent-managed and cannot be edited via hosts-yml")
  else if key ∉ editableSections then
    some ("top-level key " ++ key ++ " is not a machine document section (allowed: " ++
      String.intercalate ", " editableSections ++ ")")
  else none

def sectionShapeError (document : Document) (key : String) : Option String :=
  if (document.get key).all Json.isMap then none else some (key ++ " must be a map")

def documentShapeError : Option Json → Option String
  | some (.obj document) =>
    ((KeyedList.keys document).findSome? sectionNameError).or <|
      (mapSections.findSome? (sectionShapeError document)).or <|
        if (KeyedList.get document "networks").all fun value => value.items?.isSome then none
        else some "networks must be a list"
  | _ => some "document root must be a YAML map"

/-- The sections of a `GET`. -/
def hostsDocument (zoneConfig : Document) : Document :=
  KeyedList.copyKeys [] editableSections fun key => zoneConfig.get key

def getZoneHostsYaml (yaml : Yaml) (zoneConfig : Document) : String :=
  yaml.dump (hostsDocument zoneConfig)

/-- The first problem of a parsed document, if it has one. -/
def documentProblem (document : Document) : Option String :=
  (consoleportRangeError conv (settingsField "consoleport" document)).or <|
    (vcpusCountError conv (settingsField "vcpus" document)).or
      (validateDisksWire conv.toText document).errors.head?

/-- The stored configuration after a `PUT`, or its refusal. -/
def updateZoneHostsYaml (yaml : Yaml) (text : String) (zoneConfig : Document) :
    Except String Document :=
  if isBlank text then .error "yaml must be a non-empty string"
  else
    match yaml.load text with
    | .error reason => .error reason
    | .ok parsed =>
      match documentShapeError parsed, parsed with
      | some problem, _ => .error problem
      | none, some (.obj document) =>
        match documentProblem conv document with
        | some problem => .error problem
        | none => .ok ((applyDocumentSections document zoneConfig).getD zoneConfig)
      | none, _ => .error "document root must be a YAML map"

/-- What the agent owes a document it stores. -/
structure Editable (doc : Document) : Prop where
  disks : DisksAccepted doc
  maps : ∀ key ∈ mapSections, ∀ value, doc.get key = some value → ∃ entries, value = .obj entries
  networks : ∀ value, doc.get "networks" = some value → ∃ items, value = .arr items
  consoleport : consoleportRangeError conv (settingsField "consoleport" doc) = none
  vcpus : vcpusCountError conv (settingsField "vcpus" doc) = none

end Controller

section Document
variable {conv : Conversions} {doc : Document}

theorem get_hostsDocument {key : String} (hkey : key ∈ editableSections) (doc : Document) :
    KeyedList.get (hostsDocument doc) key = doc.get key := by
  unfold hostsDocument
  rw [KeyedList.get_copyKeys, if_pos hkey, KeyedList.get_nil, Option.or_none]

theorem hostsDocument_keys : ∀ key ∈ (hostsDocument doc).keys, key ∈ editableSections := by
  intro key hkey
  rcases KeyedList.keys_copyKeys [] editableSections (fun key => doc.get key) hkey with h | h
  · cases h
  · exact h

theorem disksAccepted_congr {doc doc' : Document} (hdisks : doc.get "disks" = doc'.get "disks")
    (hsettings : doc.get "settings" = doc'.get "settings") (h : DisksAccepted doc) :
    DisksAccepted doc' := by
  refine ⟨?_, ?_, ?_⟩
  · rw [← hdisks, ← hsettings]
    exact h.boot
  · rw [← hdisks]
    exact h.additional
  · rw [← hdisks]
    exact h.cdroms

theorem sectionNameError_editable {key : String} (h : key ∈ editableSections) :
    sectionNameError key = none := by
  have hall : ∀ key ∈ editableSections, sectionNameError key = none := by decide
  exact hall key h

theorem documentShapeError_hostsDocument (h : Editable conv doc) :
    documentShapeError (some (.obj (hostsDocument doc))) = none := by
  have hnames : (hostsDocument doc).keys.findSome? sectionNameError = none :=
    List.findSome?_eq_none_iff.mpr fun key hkey =>
      sectionNameError_editable (hostsDocument_keys key hkey)
  have hmaps : mapSections.findSome? (sectionShapeError (hostsDocument doc)) = none := by
    refine List.findSome?_eq_none_iff.mpr fun key hkey => ?_
    have heditable : ∀ key ∈ mapSections, key ∈ editableSections := by decide
    unfold sectionShapeError
    rw [get_hostsDocument (heditable key hkey)]
    cases hget : doc.get key with
    | none => rfl
    | some value =>
      obtain ⟨entries, rfl⟩ := h.maps key hkey value hget
      rfl
  have hnetworks : ((KeyedList.get (hostsDocument doc) "networks").all fun value =>
      value.items?.isSome) = true := by
    rw [get_hostsDocument (by decide)]
    cases hget : doc.get "networks" with
    | none => rfl
    | some value =>
      obtain ⟨items, rfl⟩ := h.networks value hget
      rfl
  simp only [documentShapeError, hnames, hmaps, hnetworks, Option.none_or, ↓reduceIte]

theorem settingsField_hostsDocument (key : String) :
    settingsField key (hostsDocument doc) = settingsField key doc := by
  unfold settingsField
  rw [get_hostsDocument (by decide)]

theorem documentProblem_hostsDocument (h : Editable conv doc) :
    documentProblem conv (hostsDocument doc) = none := by
  have hdisks : (validateDisksWire conv.toText (hostsDocument doc)).errors = [] :=
    (validateDisksWire_errors conv.toText _).mpr (disksAccepted_congr
      (get_hostsDocument (by decide) doc).symm (get_hostsDocument (by decide) doc).symm h.disks)
  unfold documentProblem
  rw [settingsField_hostsDocument, settingsField_hostsDocument, h.consoleport, h.vcpus, hdisks]
  rfl

/-- What a `GET` renders of an editable document a `PUT` accepts, and the document stays. -/
theorem put_get (yaml : Yaml) (h : Editable conv doc)
    (hyaml : yaml.RoundTrips (hostsDocument doc)) :
    ∃ stored, updateZoneHostsYaml conv yaml (getZoneHostsYaml yaml doc) doc = .ok stored ∧
      ∀ key, KeyedList.get stored key = doc.get key := by
  refine ⟨doc.replaceKeys editableSections fun key => KeyedList.get (hostsDocument doc) key, ?_,
    fun key => ?_⟩
  · unfold updateZoneHostsYaml getZoneHostsYaml
    simp only [hyaml.1, hyaml.2, documentShapeError_hostsDocument h,
      documentProblem_hostsDocument h]
    rfl
  · rw [KeyedList.get_replaceKeys]
    split_ifs with hkey
    · exact get_hostsDocument hkey doc
    · rfl

end Document

end ZoneweaverAgent.HostsYaml
