import ZoneweaverAgent.DocumentWriters

/-!
# The typed disk wire

Every disk entry of a document declares its type, and the agents only validate the declaration. The
validator collects refusals and warnings; a document with a refusal is not stored. `String(value)`
of a value that is no text is a parameter.
-/

namespace ZoneweaverAgent.DiskSpec
open ZoneDocument

def bootDiskTypes : List String := ["template", "image", "blank", "none"]

def additionalDiskTypes : List String := ["image", "blank"]

/-- `Boolean(value.key)` -/
def carries (key : String) (value : Json) : Bool := ((value.field key).map Json.truthy).getD false

/-- `value.key !== undefined` -/
def declares (key : String) (value : Json) : Bool := (value.field key).isSome

structure WireCheck where
  errors : List String
  warnings : List String

def WireCheck.none : WireCheck := ⟨[], []⟩

def WireCheck.append (a b : WireCheck) : WireCheck :=
  ⟨a.errors ++ b.errors, a.warnings ++ b.warnings⟩

def WireCheck.all : List WireCheck → WireCheck := List.foldr WireCheck.append .none

def refuse (message : String) : WireCheck := ⟨[message], []⟩

def warn (message : String) : WireCheck := ⟨[], [message]⟩

def refuseIf (cond : Bool) (message : String) : WireCheck := if cond then refuse message else .none

def warnIf (cond : Bool) (message : String) : WireCheck := if cond then warn message else .none

def vboxOnlyEntryKeys : List String := ["controller", "port", "device"]

def vboxKeyWarnings (place : String) (entry : Json) : WireCheck :=
  let present := vboxOnlyEntryKeys.filter fun key => declares key entry
  warnIf (present ≠ [])
    (place ++ ": " ++ String.intercalate ", " present ++ " are not used on this hypervisor")

/-- `body.disks = body.disks || {}` with the default boot entry declared; a scalar throws. -/
def normalizeDisks (body : Document) : Option Document := do
  let disks := orElseTruthy (body.get "disks") (.obj [])
  if carries "boot" disks then return body.set "disks" disks
  else
    let box := ((body.get "settings").map (carries "box")).getD false
    let boot := Json.obj [("type", .str (if box then "template" else "none"))]
    return body.set "disks" (← setProperty "boot" boot disks)

section Text
variable (toText : Json → String)

/-- The text of a value in a template literal. -/
def textOf : Json → String
  | .str s => s
  | value => toText value

def typeText (entry : Json) : String := ((entry.field "type").map (textOf toText)).getD "undefined"

def validateBootEntry (boot : Json) (settings : Option Json) : WireCheck :=
  let box := (settings.map (carries "box")).getD false
  let type := textField "type" boot
  if !carries "type" boot then
    refuse "disks.boot.type is required when disks.boot is present (template|image|blank|none)"
  else if type ∉ bootDiskTypes.map some then
    refuse ("disks.boot.type " ++ typeText toText boot ++
      " is not a valid disk type (template|image|blank|none)")
  else
    .all [
      refuseIf (type = some "template" && !box) "disks.boot.type template requires settings.box",
      refuseIf (type = some "blank" && !carries "size" boot) "disks.boot.type blank requires size",
      refuseIf (type = some "image" && !carries "path" boot) "disks.boot.type image requires path",
      refuseIf (type = some "image" && (declares "size" boot || declares "volume_name" boot))
        "disks.boot.type image does not take size or volume_name (an image attaches as-is)",
      refuseIf (type = some "blank" && declares "path" boot)
        "disks.boot.type blank does not take path",
      refuseIf (type = some "template" && declares "path" boot)
        "disks.boot.type template does not take path",
      refuseIf (type = some "none" && (spread (some boot)).any fun e => e.1 != "type")
        "disks.boot.type none takes no other keys",
      warnIf (box && type ≠ some "template")
        ("settings.box is set but disks.boot.type is " ++ typeText toText boot ++
          " — the box is not used and no template download occurs"),
      vboxKeyWarnings "disks.boot" boot]

def validateAdditionalEntry (wherePrefix : String) (index : ℕ) (entry : Json) : WireCheck :=
  let place := wherePrefix ++ "[" ++ toString (index + 1) ++ "]"
  let type := textField "type" entry
  if !carries "type" entry then refuse (place ++ ".type is required (image|blank)")
  else if type ∉ additionalDiskTypes.map some then
    refuse (place ++ ".type " ++ typeText toText entry ++
      " is not a valid additional disk type (image|blank)")
  else
    .all [
      refuseIf (type = some "blank" && !carries "size" entry)
        (place ++ ".type blank requires size"),
      refuseIf (type = some "image" && !carries "path" entry)
        (place ++ ".type image requires path"),
      refuseIf (type = some "image" && (declares "size" entry || declares "volume_name" entry))
        (place ++ ".type image does not take size or volume_name (an image attaches as-is)"),
      refuseIf (type = some "blank" && declares "path" entry)
        (place ++ ".type blank does not take path"),
      vboxKeyWarnings place entry]

def validateCdrom (index : ℕ) (cdrom : Json) : WireCheck :=
  let place := "disks.cdroms[" ++ toString (index + 1) ++ "]"
  .all [
    refuseIf (carries "iso" cdrom = carries "path" cdrom)
      (place ++ " needs exactly one of iso or path"),
    vboxKeyWarnings place cdrom]

/-- The entries of a list-valued key; any other value counts as none. -/
def listField (key : String) (value : Json) : List Json :=
  ((value.field key).bind Json.items?).getD []

def validateDisksWire (body : Document) : WireCheck :=
  let disks := orElseTruthy (body.get "disks") (.obj [])
  .all [
    match disks.field "boot" with
    | some boot =>
      if boot.truthy then validateBootEntry toText boot (body.get "settings") else .none
    | none => .none,
    .all ((listField "additional_disks" disks).mapIdx
      (validateAdditionalEntry toText "disks.additional_disks")),
    .all ((listField "cdroms" disks).mapIdx validateCdrom),
    warnIf (declares "controllers" disks) "disks.controllers is not used on this hypervisor"]

def validateTypedDiskEntries (entries : List Json) (wherePrefix : String) : WireCheck :=
  .all (entries.mapIdx (validateAdditionalEntry toText wherePrefix))

end Text

section Errors

@[simp] theorem errors_none : WireCheck.none.errors = [] := rfl

@[simp] theorem errors_append (a b : WireCheck) : (a.append b).errors = a.errors ++ b.errors := rfl

@[simp] theorem errors_refuse (message : String) : (refuse message).errors = [message] := rfl

@[simp] theorem errors_warnIf (cond : Bool) (message : String) :
    (warnIf cond message).errors = [] := by
  unfold warnIf
  split_ifs <;> rfl

@[simp] theorem errors_refuseIf_eq_nil (cond : Bool) (message : String) :
    (refuseIf cond message).errors = [] ↔ cond = false := by
  cases cond <;> simp [refuseIf]

@[simp] theorem errors_vboxKeyWarnings (place : String) (entry : Json) :
    (vboxKeyWarnings place entry).errors = [] := errors_warnIf _ _

theorem errors_all_eq_nil (checks : List WireCheck) :
    (WireCheck.all checks).errors = [] ↔ ∀ check ∈ checks, check.errors = [] := by
  induction checks with
  | nil => simp [WireCheck.all]
  | cons check rest ih =>
    change (check.append (WireCheck.all rest)).errors = [] ↔ _
    simp [ih]

theorem errors_all_mapIdx_eq_nil {f : ℕ → Json → WireCheck} {P : Json → Prop}
    (h : ∀ i entry, (f i entry).errors = [] ↔ P entry) (entries : List Json) :
    (WireCheck.all (entries.mapIdx f)).errors = [] ↔ ∀ entry ∈ entries, P entry := by
  simp only [errors_all_eq_nil, List.mem_mapIdx]
  constructor
  · intro hall entry hmem
    obtain ⟨i, hi, rfl⟩ := List.mem_iff_getElem.mp hmem
    exact (h i _).mp (hall _ ⟨i, hi, rfl⟩)
  · rintro hall _ ⟨i, hi, rfl⟩
    exact (h i _).mpr (hall _ (List.getElem_mem hi))

end Errors

/-- What the wire asks of an entry of each type. -/
structure BlankKeys (entry : Json) : Prop where
  size : carries "size" entry = true
  path : declares "path" entry = false

structure ImageKeys (entry : Json) : Prop where
  path : carries "path" entry = true
  size : declares "size" entry = false
  volumeName : declares "volume_name" entry = false

structure TemplateKeys (box : Bool) (entry : Json) : Prop where
  box : box = true
  path : declares "path" entry = false

/-- A boot entry the wire accepts. -/
inductive BootAccepted (box : Bool) (boot : Json) : Prop
  | template (htype : textField "type" boot = some "template") (keys : TemplateKeys box boot)
  | image (htype : textField "type" boot = some "image") (keys : ImageKeys boot)
  | blank (htype : textField "type" boot = some "blank") (keys : BlankKeys boot)
  | none (htype : textField "type" boot = some "none")
    (keys : ∀ e ∈ spread (some boot), e.1 = "type")

/-- An additional entry the wire accepts. -/
inductive AdditionalAccepted (entry : Json) : Prop
  | image (htype : textField "type" entry = some "image") (keys : ImageKeys entry)
  | blank (htype : textField "type" entry = some "blank") (keys : BlankKeys entry)

theorem carries_of_textField {key s : String} {value : Json} (h : textField key value = some s)
    (hs : s ≠ "") : carries key value = true := by
  unfold textField at h
  unfold carries
  obtain ⟨v, hv, htext⟩ := Option.bind_eq_some_iff.mp h
  rw [hv]
  cases v with
  | str t =>
    simp only [Json.text?, Option.some.injEq] at htext
    simp [Json.truthy, htext, hs]
  | _ => simp [Json.text?] at htext

/-- A falsy value has no properties. -/
theorem field_filter_truthy (value : Option Json) (key : String) :
    (value.filter Json.truthy).bind (Json.field key) = value.bind (Json.field key) := by
  cases value with
  | none => rfl
  | some v =>
    by_cases htruthy : v.truthy
    · rw [Option.filter_some, if_pos htruthy]
    · rw [Option.filter_some, if_neg htruthy]
      cases v with
      | obj entries => exact absurd rfl htruthy
      | _ => rfl

section Accepted
variable (toText : Json → String)

theorem validateBootEntry_errors (boot : Json) (settings : Option Json) :
    (validateBootEntry toText boot settings).errors = [] ↔
      BootAccepted ((settings.map (carries "box")).getD false) boot := by
  unfold validateBootEntry
  generalize (settings.map (carries "box")).getD false = box
  constructor
  · intro h
    dsimp only at h
    split_ifs at h with hcarries htype
    · cases h
    swap
    · cases h
    simp only [errors_all_eq_nil, List.mem_cons, List.not_mem_nil, or_false, forall_eq_or_imp,
      forall_eq, errors_refuseIf_eq_nil, errors_warnIf, errors_vboxKeyWarnings, and_true] at h
    obtain ⟨hbox, hsize, hpath, hplain, hblank, htemplate, hnone⟩ := h
    simp only [bootDiskTypes, List.map_cons, List.map_nil, List.mem_cons, List.not_mem_nil,
      or_false] at htype
    rcases htype with ht | ht | ht | ht <;>
      rw [ht] at hbox hsize hpath hplain hblank htemplate hnone
    · exact .template ht ⟨by simpa using hbox, by simpa using htemplate⟩
    · have hkeys : declares "size" boot = false ∧ declares "volume_name" boot = false := by
        simpa using hplain
      exact .image ht ⟨by simpa using hpath, hkeys.1, hkeys.2⟩
    · exact .blank ht ⟨by simpa using hsize, by simpa using hblank⟩
    · exact .none ht (by simpa using hnone)
  · intro h
    have haccept : ∀ type ∈ bootDiskTypes, textField "type" boot = some type →
        carries "type" boot = true ∧ textField "type" boot ∈ bootDiskTypes.map some := by
      intro type hmem htype
      have hne : type ≠ "" := by
        rintro rfl
        revert hmem
        decide
      exact ⟨carries_of_textField htype hne, htype ▸ List.mem_map_of_mem hmem⟩
    dsimp only
    cases h with
    | template ht keys =>
      obtain ⟨hcarries, hmem⟩ := haccept "template" (by decide) ht
      rw [if_neg (by simp [hcarries]), if_neg (not_not.mpr hmem)]
      simp [errors_all_eq_nil, ht, keys.box, keys.path]
    | image ht keys =>
      obtain ⟨hcarries, hmem⟩ := haccept "image" (by decide) ht
      rw [if_neg (by simp [hcarries]), if_neg (not_not.mpr hmem)]
      simp [errors_all_eq_nil, ht, keys.path, keys.size, keys.volumeName]
    | blank ht keys =>
      obtain ⟨hcarries, hmem⟩ := haccept "blank" (by decide) ht
      rw [if_neg (by simp [hcarries]), if_neg (not_not.mpr hmem)]
      simp [errors_all_eq_nil, ht, keys.path, keys.size]
    | none ht keys =>
      obtain ⟨hcarries, hmem⟩ := haccept "none" (by decide) ht
      rw [if_neg (by simp [hcarries]), if_neg (not_not.mpr hmem)]
      have hany : ((spread (some boot)).any fun e => e.1 != "type") = false := by
        simpa using fun a b hab => keys (a, b) hab
      simp [errors_all_eq_nil, ht, hany]

theorem validateAdditionalEntry_errors (wherePrefix : String) (index : ℕ) (entry : Json) :
    (validateAdditionalEntry toText wherePrefix index entry).errors = [] ↔
      AdditionalAccepted entry := by
  unfold validateAdditionalEntry
  constructor
  · intro h
    dsimp only at h
    split_ifs at h with hcarries htype
    · cases h
    swap
    · cases h
    simp only [errors_all_eq_nil, List.mem_cons, List.not_mem_nil, or_false, forall_eq_or_imp,
      forall_eq, errors_refuseIf_eq_nil, errors_vboxKeyWarnings, and_true] at h
    obtain ⟨hsize, hpath, hplain, hblank⟩ := h
    simp only [additionalDiskTypes, List.map_cons, List.map_nil, List.mem_cons, List.not_mem_nil,
      or_false] at htype
    rcases htype with ht | ht <;> rw [ht] at hsize hpath hplain hblank
    · have hkeys : declares "size" entry = false ∧ declares "volume_name" entry = false := by
        simpa using hplain
      exact .image ht ⟨by simpa using hpath, hkeys.1, hkeys.2⟩
    · exact .blank ht ⟨by simpa using hsize, by simpa using hblank⟩
  · intro h
    dsimp only
    cases h with
    | image ht keys =>
      rw [if_neg (by simp [carries_of_textField ht]), if_neg (by rw [ht]; decide)]
      simp [errors_all_eq_nil, ht, keys.path, keys.size, keys.volumeName]
    | blank ht keys =>
      rw [if_neg (by simp [carries_of_textField ht]), if_neg (by rw [ht]; decide)]
      simp [errors_all_eq_nil, ht, keys.path, keys.size]

/-- A cdrom entry the wire accepts. -/
def CdromAccepted (cdrom : Json) : Prop := carries "iso" cdrom ≠ carries "path" cdrom

/-- The documents the wire accepts. -/
structure DisksAccepted (body : Document) : Prop where
  boot : ∀ boot, (orElseTruthy (body.get "disks") (.obj [])).field "boot" = some boot →
    boot.truthy = true →
      BootAccepted (((body.get "settings").map (carries "box")).getD false) boot
  additional : ∀ entry ∈ listField "additional_disks" (orElseTruthy (body.get "disks") (.obj [])),
    AdditionalAccepted entry
  cdroms : ∀ cdrom ∈ listField "cdroms" (orElseTruthy (body.get "disks") (.obj [])),
    CdromAccepted cdrom

theorem validateCdrom_errors (index : ℕ) (cdrom : Json) :
    (validateCdrom index cdrom).errors = [] ↔ CdromAccepted cdrom := by
  simp [validateCdrom, errors_all_eq_nil, CdromAccepted]

/-- The validator reports no error exactly on the documents of the closed grammar. -/
theorem validateDisksWire_errors (body : Document) :
    (validateDisksWire toText body).errors = [] ↔ DisksAccepted body := by
  unfold validateDisksWire
  simp only [errors_all_eq_nil, List.mem_cons, List.not_mem_nil, or_false, forall_eq_or_imp,
    forall_eq, errors_warnIf, and_true,
    errors_all_mapIdx_eq_nil (validateAdditionalEntry_errors toText "disks.additional_disks"),
    errors_all_mapIdx_eq_nil validateCdrom_errors]
  constructor
  · rintro ⟨hboot, hadditional, hcdroms⟩
    refine ⟨fun boot hfield htruthy => ?_, hadditional, hcdroms⟩
    rw [hfield] at hboot
    simp only [htruthy, ↓reduceIte] at hboot
    exact (validateBootEntry_errors toText boot _).mp hboot
  · intro h
    refine ⟨?_, h.additional, h.cdroms⟩
    cases hfield : (orElseTruthy (body.get "disks") (.obj [])).field "boot" with
    | none => rfl
    | some boot =>
      by_cases htruthy : boot.truthy
      · simp only [htruthy, ↓reduceIte]
        exact (validateBootEntry_errors toText boot _).mpr (h.boot boot hfield htruthy)
      · simp [htruthy]

end Accepted

end ZoneweaverAgent.DiskSpec
