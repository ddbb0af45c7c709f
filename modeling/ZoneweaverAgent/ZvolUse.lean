import ZoneweaverAgent.DatasetCleanup

/-!
# The zone that uses a volume

`checkZvolInUse`, which guards the attachment of a volume at a modification, has a reading of the
zone configurations of its own; the guard at a creation asks `mapZvolDatasetsToZones`, which goes by
the shared reader. A reading that throws answers `none`.
-/

namespace ZoneweaverAgent.ZvolUse
open ZoneDocument DiskSpec DatasetCleanup

section Guards
variable (host : DatasetCleanup.Host)

/-- `/^disk\d*$/u` -/
def isNumberedDisk (name : String) : Bool :=
  match name.toList with
  | 'd' :: 'i' :: 's' :: 'k' :: digits => digits.all Char.isDigit
  | _ => false

def checkAttr (zvolPath : String) (attr : Json) : Option Bool :=
  if attr = .null then none
  else
    match attr.field "name" with
    | none => some false
    | some name =>
      if name = .str "bootdisk" then some (attr.field "value" = some (.str zvolPath))
      else if name.hasText then
        some (isNumberedDisk (textOf host.toText name) && attr.field "value" = some (.str zvolPath))
      else none

def checkAttrs (zvolPath : String) : List Json → Option Bool
  | [] => some false
  | attr :: rest =>
    match checkAttr host zvolPath attr with
    | none => none
    | some true => some true
    | some false => checkAttrs zvolPath rest

/-- Whether the configuration of one zone uses the volume. -/
def checkConfig (zvolPath : String) (zoneConfig : Json) : Option Bool :=
  if zoneConfig = .null then none
  else if (zoneConfig.field "bootdisk").bind (Json.field "path") = some (.str zvolPath) then
    some true
  else checkAttrs host zvolPath (itemsOf "attr" zoneConfig)

def firstUser (zvolPath : String) (excludeZone : Option String) :
    KeyedList String Json → Option (Option String)
  | [] => some none
  | (zoneName, zoneConfig) :: rest =>
    if excludeZone.filter (· ≠ "") = some zoneName then firstUser zvolPath excludeZone rest
    else
      match checkConfig host zvolPath zoneConfig with
      | none => none
      | some true => some (some zoneName)
      | some false => firstUser zvolPath excludeZone rest

/-- The zone that uses the volume, if any; `allZones` is what `zadm show` prints, `none` when the
command fails or prints something else. -/
def checkZvolInUse (allZones : Option (KeyedList String Json)) (zvolPath : String)
    (excludeZone : Option String) : Option (Option String) :=
  match allZones with
  | none => some none
  | some configs => firstUser host zvolPath excludeZone configs

def addDatasets (zoneName : String) (map : KeyedList String String) (datasets : List String) :
    KeyedList String String :=
  datasets.foldl (fun map dataset => if map.has dataset then map else map.set dataset zoneName) map

def mapConfigs (map : KeyedList String String) :
    KeyedList String Json → Option (KeyedList String String)
  | [] => some map
  | (zoneName, zoneConfig) :: rest =>
    match collectZoneDiskDatasets host zoneConfig with
    | none => none
    | some datasets => mapConfigs (addDatasets zoneName map datasets) rest

def mapZvolDatasetsToZones (allZones : Option (KeyedList String Json)) :
    Option (KeyedList String String) :=
  allZones.bind (mapConfigs host [])

end Guards

/-! ## The spellings -/

section Spellings
variable (path : String) (zoneConfig : Json)

/-- A row of the attrs with a text for a name. -/
def HasAttr (p : String → Prop) (value : Json → Prop) : Prop :=
  ∃ attr ∈ itemsOf "attr" zoneConfig, ∃ name v, attr.field "name" = some (.str name) ∧ p name ∧
    attr.field "value" = some v ∧ value v

def ObjectBootdisk : Prop :=
  (zoneConfig.field "bootdisk").bind (Json.field "path") = some (.str path)

/-- The spellings that both readers know: the boot disk as an object, and rows of text. -/
def SpelledPlainly : Prop :=
  ObjectBootdisk path zoneConfig ∨
    HasAttr zoneConfig (fun name => isDiskName name = true) (· = .str path)

/-- The spellings only the shared reader knows: the boot disk as text, other disks outside the rows,
rows with an object, and devices. -/
def OnlyShared : Prop :=
  (∃ e ∈ entries zoneConfig, isDiskName e.1 = true ∧ addDisk e.2 = some path ∧
      ¬(e.1 = "bootdisk" ∧ ObjectBootdisk path zoneConfig)) ∨
    HasAttr zoneConfig (fun name => isDiskName name = true) (textField "path" · = some path) ∨
    ∃ device ∈ itemsOf "device" zoneConfig, (textField "match" device).bind deviceDataset = some path

/-- The spelling only the guard knows: a row `disk` without a number. -/
def OnlyGuard : Prop := HasAttr zoneConfig (· = "disk") (· = .str path)

/-- What `zadm` prints of a zone: an object, the rows of which are objects that have texts for
names. -/
structure Shaped : Prop where
  config : zoneConfig ≠ .null
  attrs : ∀ attr ∈ itemsOf "attr" zoneConfig, attr ≠ .null ∧
    ∀ name ∈ attr.field "name", ∃ text, name = .str text

end Spellings

/-! ## The readers on one configuration -/

section Readers
variable {host : DatasetCleanup.Host} {path : String} {zoneConfig : Json}

theorem isNumberedDisk_iff (name : String) :
    isNumberedDisk name = true ↔ name = "disk" ∨ (MachineDisks.diskNumber? name).isSome = true := by
  have hname : name = "disk" ↔ name.toList = ['d', 'i', 's', 'k'] := by
    rw [← String.toList_inj]
    rfl
  rw [hname]
  unfold isNumberedDisk MachineDisks.diskNumber?
  generalize name.toList = cs
  split
  case h_1 digits =>
    cases digits with
    | nil => simp
    | cons c digits =>
      simp only [ne_eq, reduceCtorEq, not_false_eq_true, true_and]
      split_ifs with hdigits <;> simp [hdigits]
  case h_2 hne =>
    simp only [Bool.false_eq_true, Option.isSome_none, or_false, false_iff]
    exact fun heq => hne [] heq

theorem checkAttr_iff {attr : Json} (hnull : attr ≠ .null)
    (hname : ∀ name ∈ attr.field "name", ∃ text, name = .str text) :
    ∃ used, checkAttr host path attr = some used ∧ (used = true ↔
      ∃ name, attr.field "name" = some (.str name) ∧ (isDiskName name = true ∨ name = "disk") ∧
        attr.field "value" = some (.str path)) := by
  unfold checkAttr
  rw [if_neg hnull]
  cases hfield : attr.field "name" with
  | none => exact ⟨false, rfl, by simp⟩
  | some name =>
    obtain ⟨text, rfl⟩ := hname name hfield
    simp only [Json.str.injEq, Option.some.injEq]
    by_cases hboot : text = "bootdisk"
    · subst hboot
      rw [if_pos rfl]
      refine ⟨_, rfl, ?_⟩
      simp [isDiskName]
    · have htext : (Json.str text).hasText = true := by simp only [Json.hasText]
      rw [if_neg hboot, htext, if_pos rfl]
      refine ⟨_, rfl, ?_⟩
      simp only [textOf, Bool.and_eq_true, decide_eq_true_eq, isNumberedDisk_iff, isDiskName,
        Bool.or_eq_true, exists_eq_left', hboot, false_or]
      tauto

theorem checkAttrs_iff {attrs : List Json}
    (h : ∀ attr ∈ attrs, attr ≠ .null ∧ ∀ name ∈ attr.field "name", ∃ text, name = .str text) :
    ∃ used, checkAttrs host path attrs = some used ∧ (used = true ↔
      ∃ attr ∈ attrs, ∃ name, attr.field "name" = some (.str name) ∧
        (isDiskName name = true ∨ name = "disk") ∧ attr.field "value" = some (.str path)) := by
  induction attrs with
  | nil => exact ⟨false, rfl, by simp⟩
  | cons attr rest ih =>
    obtain ⟨hnull, hname⟩ := h attr List.mem_cons_self
    obtain ⟨used, hused, hiff⟩ := @checkAttr_iff host path attr hnull hname
    obtain ⟨used', hused', hiff'⟩ := ih fun a ha => h a (List.mem_cons_of_mem attr ha)
    unfold checkAttrs
    rw [hused]
    simp only [List.exists_mem_cons_iff, ← hiff]
    cases used with
    | true => exact ⟨true, rfl, by simp⟩
    | false => exact ⟨used', hused', by simpa using hiff'⟩

theorem checkConfig_iff (h : Shaped zoneConfig) :
    ∃ used, checkConfig host path zoneConfig = some used ∧
      (used = true ↔ SpelledPlainly path zoneConfig ∨ OnlyGuard path zoneConfig) := by
  obtain ⟨used, hused, hiff⟩ := @checkAttrs_iff host path (itemsOf "attr" zoneConfig) h.attrs
  have hattrs : used = true ↔
      HasAttr zoneConfig (fun name => isDiskName name = true) (· = .str path) ∨
        OnlyGuard path zoneConfig := by
    rw [hiff]
    constructor
    · rintro ⟨attr, hattr, name, hname, hdisk | hdisk, hvalue⟩
      · exact .inl ⟨attr, hattr, name, _, hname, hdisk, hvalue, rfl⟩
      · exact .inr ⟨attr, hattr, name, _, hname, hdisk, hvalue, rfl⟩
    · rintro (⟨attr, hattr, name, v, hname, hdisk, hvalue, rfl⟩ |
        ⟨attr, hattr, name, v, hname, hdisk, hvalue, rfl⟩)
      · exact ⟨attr, hattr, name, hname, .inl hdisk, hvalue⟩
      · exact ⟨attr, hattr, name, hname, .inr hdisk, hvalue⟩
  unfold checkConfig
  rw [if_neg h.config]
  by_cases hboot : (zoneConfig.field "bootdisk").bind (Json.field "path") = some (.str path)
  · rw [if_pos hboot]
    exact ⟨true, rfl, fun _ => .inl (.inl hboot), fun _ => rfl⟩
  · rw [if_neg hboot]
    refine ⟨used, hused, ?_⟩
    rw [hattrs, SpelledPlainly, ObjectBootdisk, or_iff_right hboot]

theorem attrDataset_iff {attr : Json}
    (hname : ∀ name ∈ attr.field "name", ∃ text, name = .str text) :
    ∃ datasets, attrDataset host attr = some datasets ∧ (path ∈ datasets ↔
      ∃ name v, attr.field "name" = some (.str name) ∧ isDiskName name = true ∧
        attr.field "value" = some v ∧ addDisk v = some path) := by
  unfold attrDataset
  cases hfield : attr.field "name" with
  | none => exact ⟨[], rfl, by simp⟩
  | some name =>
    obtain ⟨text, rfl⟩ := hname name hfield
    by_cases hempty : text = ""
    · subst hempty
      refine ⟨[], rfl, ?_⟩
      simp [isDiskName, MachineDisks.diskNumber?]
    · have hfilter : (some (Json.str text)).filter Json.truthy = some (.str text) := by
        simp [Json.truthy, hempty]
      have htext : (Json.str text).hasText = true := by simp only [Json.hasText]
      rw [hfilter]
      simp only [htext, if_true]
      refine ⟨_, rfl, ?_⟩
      have hmem : path ∈ ((attr.field "value").bind addDisk).toList ↔
          ∃ v, attr.field "value" = some v ∧ addDisk v = some path := by
        rw [Option.mem_toList, Option.bind_eq_some_iff]
      by_cases hdisk : isDiskName text = true
      · rw [if_pos (show isDiskName (textOf host.toText (.str text)) = true from hdisk), hmem]
        simp [hdisk]
      · rw [if_neg (show ¬isDiskName (textOf host.toText (.str text)) = true from hdisk)]
        simp [hdisk]

theorem attrDatasets_iff {attrs : List Json}
    (h : ∀ attr ∈ attrs, attr ≠ .null ∧ ∀ name ∈ attr.field "name", ∃ text, name = .str text) :
    ∃ datasets, attrs.mapM (attrDataset host) = some datasets ∧ (path ∈ datasets.flatten ↔
      ∃ attr ∈ attrs, ∃ name v, attr.field "name" = some (.str name) ∧ isDiskName name = true ∧
        attr.field "value" = some v ∧ addDisk v = some path) := by
  induction attrs with
  | nil => exact ⟨[], rfl, by simp⟩
  | cons attr rest ih =>
    obtain ⟨datasets, hdatasets, hiff⟩ :=
      @attrDataset_iff host path attr (h attr List.mem_cons_self).2
    obtain ⟨datasets', hdatasets', hiff'⟩ := ih fun a ha => h a (List.mem_cons_of_mem attr ha)
    refine ⟨datasets :: datasets', ?_, ?_⟩
    · simp only [List.mapM_cons, hdatasets, hdatasets']
      rfl
    · rw [List.flatten_cons, List.mem_append, hiff, hiff', List.exists_mem_cons_iff]

theorem addDisk_iff (hpath : path ≠ "") (v : Json) :
    addDisk v = some path ↔ v = .str path ∨ textField "path" v = some path := by
  unfold addDisk
  rw [Option.filter_eq_some_iff]
  cases v with
  | str s =>
    simp [textField, Json.field, hpath]
  | _ => simp [hpath]

theorem collect_iff (h : Shaped zoneConfig) (hpath : path ≠ "") :
    ∃ datasets, collectZoneDiskDatasets host zoneConfig = some datasets ∧
      (path ∈ datasets ↔ SpelledPlainly path zoneConfig ∨ OnlyShared path zoneConfig) := by
  obtain ⟨attrs, hattrs, hiff⟩ :=
    @attrDatasets_iff host path (itemsOf "attr" zoneConfig) h.attrs
  refine ⟨_, by rw [collectZoneDiskDatasets, hattrs]; rfl, ?_⟩
  have hkeyed : path ∈ (entries zoneConfig).filterMap
      (fun e => if isDiskName e.1 then addDisk e.2 else none) ↔
      ∃ e ∈ entries zoneConfig, isDiskName e.1 = true ∧ addDisk e.2 = some path := by
    rw [List.mem_filterMap]
    apply exists_congr
    intro e
    by_cases hdisk : isDiskName e.1 = true <;> simp [hdisk]
  have hrows : path ∈ attrs.flatten ↔
      HasAttr zoneConfig (fun name => isDiskName name = true) (· = .str path) ∨
        HasAttr zoneConfig (fun name => isDiskName name = true) (textField "path" · = some path) := by
    rw [hiff]
    constructor
    · rintro ⟨attr, hattr, name, v, hname, hdisk, hvalue, hadd⟩
      rcases (addDisk_iff hpath v).mp hadd with hstr | hobj
      · exact .inl ⟨attr, hattr, name, v, hname, hdisk, hvalue, hstr⟩
      · exact .inr ⟨attr, hattr, name, v, hname, hdisk, hvalue, hobj⟩
    · rintro (⟨attr, hattr, name, v, hname, hdisk, hvalue, hstr⟩ |
        ⟨attr, hattr, name, v, hname, hdisk, hvalue, hobj⟩)
      · exact ⟨attr, hattr, name, v, hname, hdisk, hvalue, (addDisk_iff hpath v).mpr (.inl hstr)⟩
      · exact ⟨attr, hattr, name, v, hname, hdisk, hvalue, (addDisk_iff hpath v).mpr (.inr hobj)⟩
  have hboot : ObjectBootdisk path zoneConfig →
      ∃ e ∈ entries zoneConfig, isDiskName e.1 = true ∧ addDisk e.2 = some path := by
    intro hobj
    obtain ⟨v, hv, hvpath⟩ := Option.bind_eq_some_iff.mp hobj
    cases zoneConfig with
    | obj es =>
      refine ⟨("bootdisk", v), KeyedList.mem_of_get hv, rfl, ?_⟩
      rw [addDisk_iff hpath]
      exact .inr (by simp [textField, hvpath, Json.text?])
    | _ => simp [Json.field] at hv
  have hdevices : path ∈ (itemsOf "device" zoneConfig).filterMap
      (fun device => (textField "match" device).bind deviceDataset) ↔
      ∃ device ∈ itemsOf "device" zoneConfig,
        (textField "match" device).bind deviceDataset = some path := List.mem_filterMap
  rw [List.mem_append, List.mem_append, hkeyed, hrows, hdevices, SpelledPlainly, OnlyShared]
  constructor
  · rintro ((⟨e, he, hdisk, hadd⟩ | hrow | hobj) | hdevice)
    · by_cases hplain : e.1 = "bootdisk" ∧ ObjectBootdisk path zoneConfig
      · exact .inl (.inl hplain.2)
      · exact .inr (.inl ⟨e, he, hdisk, hadd, hplain⟩)
    · exact .inl (.inr hrow)
    · exact .inr (.inr (.inl hobj))
    · exact .inr (.inr (.inr hdevice))
  · rintro ((hobj | hrow) | ⟨e, he, hdisk, hadd, -⟩ | hobj | hdevice)
    · exact .inl (.inl (hboot hobj))
    · exact .inl (.inr (.inl hrow))
    · exact .inl (.inl ⟨e, he, hdisk, hadd⟩)
    · exact .inl (.inr (.inr hobj))
    · exact .inr hdevice

end Readers

/-! ## The readers on all configurations -/

section Agreement
variable (host : DatasetCleanup.Host) (allZones : Option (KeyedList String Json))
variable (zvolPath : String) (excludeZone : Option String)

def Other (e : String × Json) : Prop := excludeZone.filter (· ≠ "") ≠ some e.1

def AmongOthers (configs : KeyedList String Json) (p : Json → Prop) : Prop :=
  ∃ e ∈ configs, Other excludeZone e ∧ p e.2

structure Agrees : Prop where
  inUse : ∀ configs ∈ allZones, ∃ user,
    checkZvolInUse host allZones zvolPath excludeZone = some user ∧ (user.isSome = true ↔
      AmongOthers excludeZone configs fun config =>
        ∃ datasets ∈ collectZoneDiskDatasets host config, zvolPath ∈ datasets)
  /-- what could not be read is not free -/
  read : allZones = none → checkZvolInUse host allZones zvolPath excludeZone ≠ some none
  /-- for a machine that has no configuration yet, both guards refuse the same -/
  guards : ∀ configs ∈ allZones, (∀ e ∈ configs, Other excludeZone e) →
    ∃ user map, checkZvolInUse host allZones zvolPath excludeZone = some user ∧
      mapZvolDatasetsToZones host allZones = some map ∧ user.isSome = map.has zvolPath

/-- The configurations were read, and another zone references the volume in a spelling that both
readers know, or in spellings of either reader, or in none. -/
def SpelledAlike : Prop :=
  ∃ configs, allZones = some configs ∧
    (AmongOthers excludeZone configs (SpelledPlainly zvolPath) ∨
      (AmongOthers excludeZone configs (OnlyShared zvolPath) ↔
        AmongOthers excludeZone configs (OnlyGuard zvolPath)))

variable {host zvolPath excludeZone} {configs : KeyedList String Json}

theorem amongOthers_or (p q : Json → Prop) :
    AmongOthers excludeZone configs (fun config => p config ∨ q config) ↔
      AmongOthers excludeZone configs p ∨ AmongOthers excludeZone configs q := by
  constructor
  · rintro ⟨e, he, hother, hp | hq⟩
    · exact .inl ⟨e, he, hother, hp⟩
    · exact .inr ⟨e, he, hother, hq⟩
  · rintro (⟨e, he, hother, hp⟩ | ⟨e, he, hother, hq⟩)
    · exact ⟨e, he, hother, .inl hp⟩
    · exact ⟨e, he, hother, .inr hq⟩

theorem firstUser_iff (h : ∀ e ∈ configs, Shaped e.2) :
    ∃ user, firstUser host zvolPath excludeZone configs = some user ∧ (user.isSome = true ↔
      AmongOthers excludeZone configs fun config =>
        SpelledPlainly zvolPath config ∨ OnlyGuard zvolPath config) := by
  induction configs with
  | nil => exact ⟨none, rfl, by simp [AmongOthers]⟩
  | cons e rest ih =>
    obtain ⟨zoneName, zoneConfig⟩ := e
    obtain ⟨user, huser, hiff⟩ := ih fun e he => h e (List.mem_cons_of_mem _ he)
    obtain ⟨used, hused, hiff'⟩ :=
      @checkConfig_iff host zvolPath zoneConfig (h _ List.mem_cons_self)
    unfold firstUser AmongOthers
    simp only [List.exists_mem_cons_iff, Other]
    by_cases hexclude : excludeZone.filter (· ≠ "") = some zoneName
    · rw [if_pos hexclude]
      refine ⟨user, huser, hiff.trans ?_⟩
      simp only [hexclude, ne_eq, not_true_eq_false, false_and, false_or, AmongOthers, Other]
    · rw [if_neg hexclude, hused]
      cases used with
      | true =>
        refine ⟨some zoneName, rfl, fun _ => .inl ⟨hexclude, hiff'.mp rfl⟩, fun _ => rfl⟩
      | false =>
        have hnot := mt hiff'.mpr Bool.false_ne_true
        refine ⟨user, huser, hiff.trans ?_⟩
        simp only [hnot, and_false, false_or, AmongOthers, Other]

theorem has_addDatasets (zoneName : String) (map : KeyedList String String)
    (datasets : List String) (d : String) :
    (addDatasets zoneName map datasets).has d = true ↔ map.has d = true ∨ d ∈ datasets := by
  induction datasets generalizing map with
  | nil => simp [addDatasets]
  | cons x datasets ih =>
    have hrec := ih (if map.has x then map else map.set x zoneName)
    rw [addDatasets, List.foldl_cons]
    rw [addDatasets] at hrec
    rw [hrec, List.mem_cons]
    by_cases hx : map.has x = true
    · rw [if_pos hx]
      constructor
      · rintro (h | h)
        · exact .inl h
        · exact .inr (.inr h)
      · rintro (h | rfl | h)
        · exact .inl h
        · exact .inl hx
        · exact .inr h
    · rw [if_neg hx, KeyedList.has, KeyedList.has, KeyedList.get_set]
      split_ifs with hxd
      · subst hxd
        simp
      · simp [Ne.symm hxd]

theorem mapConfigs_iff (h : ∀ e ∈ configs, Shaped e.2) (hpath : zvolPath ≠ "")
    (map : KeyedList String String) :
    ∃ map', mapConfigs host map configs = some map' ∧ (map'.has zvolPath = true ↔
      map.has zvolPath = true ∨ ∃ e ∈ configs,
        SpelledPlainly zvolPath e.2 ∨ OnlyShared zvolPath e.2) := by
  induction configs generalizing map with
  | nil => exact ⟨map, rfl, by simp⟩
  | cons e rest ih =>
    obtain ⟨zoneName, zoneConfig⟩ := e
    obtain ⟨datasets, hdatasets, hiff⟩ :=
      @collect_iff host zvolPath zoneConfig (h _ List.mem_cons_self) hpath
    obtain ⟨map', hmap', hiff'⟩ := ih (fun e he => h e (List.mem_cons_of_mem _ he))
      (addDatasets zoneName map datasets)
    refine ⟨map', by rw [mapConfigs, hdatasets]; exact hmap', ?_⟩
    rw [hiff', has_addDatasets, hiff, List.exists_mem_cons_iff, or_assoc]

theorem or_iff_or {p q r : Prop} : (p ∨ q ↔ p ∨ r) ↔ p ∨ (r ↔ q) := by
  by_cases hp : p
  · simp [hp]
  · simp only [hp, false_or]
    exact Iff.comm

/-- The guard of a modification agrees with the shared reader just when the configurations are read
and spelled for both. -/
theorem guard_agrees (hpath : zvolPath ≠ "")
    (hshaped : ∀ configs ∈ allZones, ∀ e ∈ configs, Shaped e.2) :
    Agrees host allZones zvolPath excludeZone ↔ SpelledAlike allZones zvolPath excludeZone := by
  cases allZones with
  | none =>
    constructor
    · exact fun h => absurd rfl (h.read rfl)
    · rintro ⟨configs, hconfigs, -⟩
      cases hconfigs
  | some configs =>
    have hshape := hshaped configs rfl
    obtain ⟨user, huser, hused⟩ :=
      @firstUser_iff host zvolPath excludeZone configs hshape
    obtain ⟨map, hmap, hhas⟩ := @mapConfigs_iff host zvolPath configs hshape hpath []
    have hcollect : AmongOthers excludeZone configs (fun config =>
        ∃ datasets ∈ collectZoneDiskDatasets host config, zvolPath ∈ datasets) ↔
        AmongOthers excludeZone configs fun config =>
          SpelledPlainly zvolPath config ∨ OnlyShared zvolPath config := by
      apply exists_congr
      intro e
      apply and_congr_right
      intro he
      apply and_congr_right
      intro _
      obtain ⟨datasets, hdatasets, hiff⟩ := @collect_iff host zvolPath e.2 (hshape e he) hpath
      simp only [← hiff, hdatasets, Option.mem_some_iff, exists_eq_left']
    rw [amongOthers_or] at hcollect hused
    constructor
    · intro h
      refine ⟨configs, rfl, ?_⟩
      obtain ⟨user', huser', hiff⟩ := h.inUse configs rfl
      cases huser.symm.trans huser'
      rw [hused, hcollect] at hiff
      exact or_iff_or.mp hiff
    · rintro ⟨configs', hconfigs, hspelled⟩
      cases hconfigs
      have hiff : user.isSome = true ↔ AmongOthers excludeZone configs (fun config =>
          ∃ datasets ∈ collectZoneDiskDatasets host config, zvolPath ∈ datasets) := by
        rw [hused, hcollect]
        exact or_iff_or.mpr hspelled
      constructor
      case inUse =>
        intro configs' hconfigs
        obtain rfl : configs = configs' := Option.some.inj hconfigs
        exact ⟨user, huser, hiff⟩
      case read =>
        intro hnone
        cases hnone
      case guards =>
        intro configs' hconfigs hothers
        obtain rfl : configs = configs' := Option.some.inj hconfigs
        have hall : AmongOthers excludeZone configs (fun config =>
            SpelledPlainly zvolPath config ∨ OnlyShared zvolPath config) ↔
            ∃ e ∈ configs, SpelledPlainly zvolPath e.2 ∨ OnlyShared zvolPath e.2 := by
          constructor
          · rintro ⟨e, he, -, hp⟩
            exact ⟨e, he, hp⟩
          · rintro ⟨e, he, hp⟩
            exact ⟨e, he, hothers e he, hp⟩
        have hempty : KeyedList.has ([] : KeyedList String String) zvolPath = false := rfl
        refine ⟨user, map, huser, hmap, ?_⟩
        rw [Bool.eq_iff_iff, hiff, hcollect, hhas, hempty, ← amongOthers_or, hall]
        simp

/-- A boot disk that `zadm` prints as text. -/
theorem guard_agrees_fails : ¬∀ (host : DatasetCleanup.Host)
    (allZones : Option (KeyedList String Json)) (zvolPath : String) (excludeZone : Option String),
      zvolPath ≠ "" → (∀ configs ∈ allZones, ∀ e ∈ configs, Shaped e.2) →
      Agrees host allZones zvolPath excludeZone := by
  intro h
  have hagrees := h ⟨fun _ => none, none, fun _ => "", fun _ => none, fun _ => false,
    fun _ => none, false, false⟩ (some [("db", .obj [("bootdisk", .str "p/db")])]) "p/db" none
    (by decide) (by
      intro configs hconfigs e he
      obtain rfl := Option.some.inj hconfigs
      obtain rfl := List.mem_singleton.mp he
      exact ⟨nofun, fun attr hattr => nomatch hattr⟩)
  obtain ⟨user, huser, hiff⟩ := hagrees.inUse _ rfl
  have hfree : user = none := Option.some.inj (huser.symm.trans (by decide +kernel))
  subst hfree
  have hin := hiff.mpr ⟨("db", .obj [("bootdisk", .str "p/db")]), List.mem_singleton_self _,
    nofun, ["p/db"], by decide +kernel, List.mem_singleton_self _⟩
  cases hin

theorem guard_agrees_object :
    Agrees ⟨fun _ => none, none, fun _ => "", fun _ => none, fun _ => false, fun _ => none, false,
      false⟩ (some [("db", .obj [("bootdisk", .obj [("path", .str "p/db")])])]) "p/db"
      (some "web") := by
  refine (guard_agrees _ (by decide) ?_).mpr ⟨_, rfl, .inl ?_⟩
  · intro configs hconfigs e he
    obtain rfl := Option.some.inj hconfigs
    obtain rfl := List.mem_singleton.mp he
    exact ⟨nofun, fun attr hattr => nomatch hattr⟩
  · exact ⟨_, List.mem_singleton_self _, by unfold Other; decide, .inl rfl⟩

end Agreement

end ZoneweaverAgent.ZvolUse
