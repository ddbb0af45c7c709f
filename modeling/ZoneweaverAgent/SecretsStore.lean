import Mathlib.Data.List.Nodup
import ZoneweaverAgent.JsonValue

/-!
# The secrets store

Six categories of named entries in a YAML file beside the configuration. An update overwrites the
submitted categories whole; an invalid one is refused before the file is written. The entries become
template variables, named after the entry in upper case with a suffix that tells what they carry.
-/

namespace ZoneweaverAgent.SecretsStore

inductive Category
  | hclDownloadPortalApiKeys
  | gitApiKeys
  | vagrantAtlasToken
  | customResourceUrl
  | dockerHub
  | sshKeys
deriving DecidableEq

namespace Category

def name : Category → String
  | hclDownloadPortalApiKeys => "hcl_download_portal_api_keys"
  | gitApiKeys => "git_api_keys"
  | vagrantAtlasToken => "vagrant_atlas_token"
  | customResourceUrl => "custom_resource_url"
  | dockerHub => "docker_hub"
  | sshKeys => "ssh_keys"

theorem name_injective : Function.Injective name := by
  intro c c' h
  cases c <;> cases c' <;> first | rfl | (exfalso; revert h; decide)

/-- `NAMED_KEY_CATEGORIES` -/
def namedKey : List Category := [hclDownloadPortalApiKeys, gitApiKeys, vagrantAtlasToken]

/-- `CATEGORIES` -/
def all : List Category := namedKey ++ [customResourceUrl, dockerHub, sshKeys]

end Category

/-- The entries of every category; other values than objects are filtered out. -/
structure Document where
  entries : Category → List Json
  objects : ∀ c, ∀ entry ∈ entries c, entry.isObject = true

@[ext] theorem Document.ext {doc doc' : Document} (h : ∀ c, doc.entries c = doc'.entries c) :
    doc = doc' := by
  cases doc
  cases doc'
  congr
  exact funext h

def emptyDocument : Document := ⟨fun _ => [], fun _ _ h => by cases h⟩

/-- `updated[category] = value.filter(…)` -/
def Document.put (doc : Document) (c : Category) (items : List Json) : Document where
  entries := Function.update doc.entries c (items.filter Json.isObject)
  objects c' entry h := by
    by_cases hc : c' = c
    · rw [hc, Function.update_self] at h
      exact (List.mem_filter.mp h).2
    · rw [Function.update_of_ne hc] at h
      exact doc.objects c' entry h

/-- A YAML library that reads back what it has written; `load` may throw. -/
structure Yaml (β : Type*) where
  load : β → Except String Json
  dump : Json → β
  load_dump : ∀ value, load (dump value) = .ok value

/-- An object's properties, in order. -/
structure Update where
  properties : KeyedList String Json
  nodup : properties.keys.Nodup

/-- How writing the file and setting its mode ends. -/
inductive Write (β : Type*)
  | done
  | modeRefused (reason : String)
  | failed (reason : String) (left : Option β)

section Store
variable {β : Type*} (yaml : Yaml β)

def category (parsed : Json) (c : Category) : List Json :=
  (((parsed.field c.name).bind Json.items?).getD []).filter Json.isObject

def normalize (parsed : Json) : Document :=
  if parsed.truthy && parsed.isObject then
    ⟨category parsed, fun _ _ h => (List.mem_filter.mp h).2⟩
  else emptyDocument

/-- `raw` is the content of the file, if it can be read. -/
def getSecrets (raw : Option β) : Except String Document :=
  match raw with
  | none => .ok emptyDocument
  | some raw => (yaml.load raw).map normalize

def isNameChar (c : Char) : Bool :=
  ('a' ≤ c && c ≤ 'z') || ('A' ≤ c && c ≤ 'Z') || ('0' ≤ c && c ≤ '9') || c = '_' || c = '-'

/-- `/^[a-zA-Z0-9_-]+$/u` -/
def matchesName (name : String) : Bool := !name.toList.isEmpty && name.toList.all isNameChar

def hasValidName (entry : Json) : Bool := ((entry.field "name").bind Json.text?).any matchesName

/-- `text` is `JSON.stringify`. -/
def validateNames (text : Json → String) (doc : Document) : Except String Unit :=
  Category.all.forM fun c => (doc.entries c).forM fun entry =>
    if hasValidName entry then .ok ()
    else
      let name := text ((entry.field "name").getD (.str ""))
      .error s!"category {c.name}: name {name} must match [a-zA-Z0-9_-]+"

def merge (doc : Document) : List (String × Json) → Except String Document
  | [] => .ok doc
  | (key, value) :: rest =>
    match Category.all.find? fun c => c.name = key with
    | none => .error s!"unknown secrets category: {key}"
    | some c =>
      match value.items? with
      | none => .error s!"category {key}: must be an array of entries"
      | some items => merge (doc.put c items) rest

/-- The document that `replaceSecrets` is about to write. -/
def validated (text : Json → String) (raw : Option β) (update : Update) :
    Except String Document := do
  let stored ← getSecrets yaml raw
  let updated ← merge stored update.properties
  validateNames text updated
  return updated

def toJson (doc : Document) : Json :=
  .obj (Category.all.map fun c => (c.name, .arr (doc.entries c)))

/-- The answer and the file. A file that cannot be read counts as missing. -/
def replaceSecrets (text : Json → String) (readable : Bool) (write : Write β) (stored : Option β)
    (update : Update) : Except String Document × Option β :=
  match validated yaml text (if readable then stored else none) update with
  | .error reason => (.error reason, stored)
  | .ok updated =>
    match write with
    | .done => (.ok updated, some (yaml.dump (toJson updated)))
    | .modeRefused reason => (.error reason, some (yaml.dump (toJson updated)))
    | .failed reason left => (.error reason, left)

end Store

section Variables

abbrev Text := List Char

/-- `string` is `String(…)`, `toUpperCase` the method of that name. -/
structure Spelling where
  string : Option Json → Text
  toUpperCase : Text → Text

variable (spelling : Spelling)

def sanitizeVarName (name : Option Json) : Text :=
  (spelling.toUpperCase (spelling.string name)).map fun c => if c = '-' then '_' else c

/-- What an entry gives, by the suffix of the variable. -/
def fields (c : Category) (entry : Json) : List (Text × Option Json) :=
  match c with
  | .hclDownloadPortalApiKeys | .gitApiKeys | .vagrantAtlasToken => [([], entry.field "key")]
  | .customResourceUrl =>
    ("_URL".toList, entry.field "url") ::
      if (entry.field "useAuth").any Json.truthy then
        [("_USER".toList, entry.field "user"), ("_PASS".toList, entry.field "pass")]
      else []
  | .dockerHub =>
    [("_USER".toList, entry.field "docker_hub_user"),
      ("_TOKEN".toList, entry.field "docker_hub_token")]
  | .sshKeys => [("_SSH".toList, entry.field "key")]

def varPrefix (entry : Json) : Text :=
  "SECRETS_".toList ++ sanitizeVarName spelling (entry.field "name")

def entryVars (c : Category) (entry : Json) : KeyedList Text (Option Json) :=
  (fields c entry).map fun field => (varPrefix spelling entry ++ field.1, field.2)

def setEntryVars (vars : KeyedList Text (Option Json)) (a : Category × Json) :
    KeyedList Text (Option Json) :=
  vars.setAll (entryVars spelling a.1 a.2)

def buildSecretsTemplateVars (doc : Document) : KeyedList Text (Option Json) :=
  Category.all.foldl (fun vars c =>
    (doc.entries c).foldl (fun vars entry => setEntryVars spelling vars (c, entry)) vars) []

/-- Every stored entry with its category, in the order in which the variables are set. -/
def sources (doc : Document) : List (Category × Json) :=
  Category.all.flatMap fun c => (doc.entries c).map fun entry => (c, entry)

/-- No two entries give the same variable, and every variable has the value of its entry. -/
def EverySecretSeen (doc : Document) : Prop :=
  ((sources doc).Pairwise fun a b =>
    ∀ k ∈ (entryVars spelling a.1 a.2).keys,
      k ∉ (entryVars spelling b.1 b.2).keys) ∧
  ∀ a ∈ sources doc, ∀ field ∈ entryVars spelling a.1 a.2,
    (buildSecretsTemplateVars spelling doc).get field.1 = some field.2

def spelledName (a : Category × Json) : Text := sanitizeVarName spelling (a.2.field "name")

/-- Two entries with a suffix in common are spelled differently, and no entry without a suffix is
spelled like another one with its suffix. -/
def Distinct (a b : Category × Json) : Prop :=
  ∀ s ∈ (fields a.1 a.2).map Prod.fst, ∀ t ∈ (fields b.1 b.2).map Prod.fst,
    (s = t → spelledName spelling a ≠ spelledName spelling b) ∧
    (s = [] → t ≠ [] → spelledName spelling a ≠ spelledName spelling b ++ t) ∧
    (s ≠ [] → t = [] → spelledName spelling b ≠ spelledName spelling a ++ s)

def Unmistakable (doc : Document) : Prop := (sources doc).Pairwise (Distinct spelling)

end Variables

/-! ## Updates -/

section Updates
variable {β : Type*} (yaml : Yaml β)

/-- The document in the file, empty where it cannot be parsed. -/
def documentOf (raw : Option β) : Document := (getSecrets yaml raw).toOption.getD emptyDocument

/-- A refused update leaves the file as it was; one that is taken replaces what was submitted and
nothing else. -/
def Atomic (stored : Option β) (update : Update) : Except String Document × Option β → Prop
  | (.error _, after) => after = stored
  | (.ok _, after) => ∀ c : Category, match update.properties.get c.name with
    | some value => value = .arr ((documentOf yaml after).entries c)
    | none => (documentOf yaml after).entries c = (documentOf yaml stored).entries c

/-- If the update gets past its validation: a write that fails leaves the file as it was, and one
that succeeds has nothing to filter and does not lose a file it could not read. -/
def Careful (text : Json → String) (readable : Bool) (write : Write β) (stored : Option β)
    (update : Update) : Prop :=
  ∀ updated, validated yaml text (if readable then stored else none) update = .ok updated →
    match write with
    | .done => ∀ c : Category, match update.properties.get c.name with
      | some value => ∀ items ∈ value.items?, ∀ item ∈ items, item.isObject = true
      | none => readable = false → (documentOf yaml stored).entries c = []
    | .modeRefused _ => stored = some (yaml.dump (toJson updated))
    | .failed _ left => left = stored

variable {yaml} {doc updated : Document}

theorem put_entries (doc : Document) (c c' : Category) (items : List Json) :
    (doc.put c items).entries c' =
      if c' = c then items.filter Json.isObject else doc.entries c' :=
  Function.update_apply _ _ _ _

theorem merge_entries {properties : KeyedList String Json} (hnodup : properties.keys.Nodup)
    (h : merge doc properties = .ok updated) (c : Category) :
    match properties.get c.name with
    | some value => ∃ items, value = .arr items ∧ updated.entries c = items.filter Json.isObject
    | none => updated.entries c = doc.entries c := by
  induction properties generalizing doc with
  | nil =>
    cases h
    rfl
  | cons property rest ih =>
    obtain ⟨key, value⟩ := property
    obtain ⟨hkey, hrest⟩ := List.nodup_cons.mp hnodup
    simp only [merge] at h
    cases hfind : Category.all.find? fun c => c.name = key with
    | none => simp [hfind] at h
    | some c₀ =>
      have hname : c₀.name = key := by simpa using List.find?_some hfind
      cases hitems : value.items? with
      | none => simp [hfind, hitems] at h
      | some items =>
        simp only [hfind, hitems] at h
        have hrec := ih hrest h
        rw [KeyedList.get_cons]
        by_cases hc : c = c₀
        · have hnone : KeyedList.get rest c.name = none := by
            rw [hc, hname]
            exact KeyedList.get_of_notMem hkey
          rw [hnone, put_entries, if_pos hc] at hrec
          rw [if_pos (by rw [hc, hname])]
          refine ⟨items, ?_, hrec⟩
          cases value <;> first | cases hitems; rfl | cases hitems
        · have hne : key ≠ c.name := fun heq =>
            hc (Category.name_injective (heq.symm.trans hname.symm))
          rw [if_neg hne]
          rw [put_entries, if_neg hc] at hrec
          exact hrec

theorem getSecrets_dump (yaml : Yaml β) (doc : Document) :
    getSecrets yaml (some (yaml.dump (toJson doc))) = .ok doc := by
  have hcategory : ∀ c, category (toJson doc) c = doc.entries c := by
    intro c
    have hget : (toJson doc).field c.name = some (.arr (doc.entries c)) := by
      cases c <;> rfl
    rw [category, hget]
    exact List.filter_eq_self.mpr (doc.objects c)
  simp only [getSecrets, yaml.load_dump, Except.map]
  congr 1
  ext1 c
  exact hcategory c

theorem validated_eq_ok {text : Json → String} {raw : Option β} {update : Update}
    (h : validated yaml text raw update = .ok updated) :
    ∃ doc, getSecrets yaml raw = .ok doc ∧ merge doc update.properties = .ok updated := by
  simp only [validated] at h
  cases hdoc : getSecrets yaml raw with
  | error reason => simp [hdoc, bind, Except.bind] at h
  | ok doc =>
    cases hmerge : merge doc update.properties with
    | error reason => simp [hdoc, hmerge, bind, Except.bind] at h
    | ok merged =>
      refine ⟨doc, rfl, ?_⟩
      cases hvalid : validateNames text merged with
      | error reason => simp [hdoc, hmerge, hvalid, bind, Except.bind] at h
      | ok _ =>
        simp only [hdoc, hmerge, hvalid, bind, Except.bind, pure, Except.pure] at h
        exact hmerge.trans (congrArg Except.ok (Except.ok.inj h))

theorem documentOf_dump (yaml : Yaml β) (doc : Document) :
    documentOf yaml (some (yaml.dump (toJson doc))) = doc := by
  rw [documentOf, getSecrets_dump]
  rfl

/-- An update that is taken keeps what was not submitted, unless it took the file for missing. -/
theorem kept_iff {text : Json → String} {readable : Bool} {stored : Option β} {update : Update}
    (h : validated yaml text (if readable then stored else none) update = .ok updated)
    {c : Category} (hc : update.properties.get c.name = none) :
    updated.entries c = (documentOf yaml stored).entries c ↔
      (readable = false → (documentOf yaml stored).entries c = []) := by
  obtain ⟨doc, hdoc, hmerge⟩ := validated_eq_ok h
  have hentries := merge_entries update.nodup hmerge c
  rw [hc] at hentries
  rw [hentries]
  cases readable with
  | true =>
    have hsame : documentOf yaml stored = doc := by
      rw [documentOf, show getSecrets yaml stored = .ok doc from hdoc]
      rfl
    simp [hsame]
  | false =>
    cases (show Except.ok emptyDocument = Except.ok doc from hdoc)
    constructor
    · exact fun hnil _ => hnil.symm
    · exact fun hnil => (hnil rfl).symm

theorem atomic_iff (text : Json → String) (readable : Bool) (write : Write β) (stored : Option β)
    (update : Update) :
    Atomic yaml stored update (replaceSecrets yaml text readable write stored update) ↔
      Careful yaml text readable write stored update := by
  cases hvalid : validated yaml text (if readable then stored else none) update with
  | error reason =>
    simp only [replaceSecrets, hvalid, Atomic, Careful, true_iff]
    intro updated hok
    cases hok
  | ok updated =>
    have hcareful : Careful yaml text readable write stored update ↔ _ :=
      ⟨fun h => h updated hvalid, fun h updated' hok => Except.ok.inj (hvalid.symm.trans hok) ▸ h⟩
    rw [hcareful]
    cases write with
    | modeRefused reason =>
      simp only [replaceSecrets, hvalid, Atomic]
      exact eq_comm
    | failed reason left => simp only [replaceSecrets, hvalid, Atomic]
    | done =>
      simp only [replaceSecrets, hvalid, Atomic, documentOf_dump]
      refine forall_congr' fun c => ?_
      cases hc : update.properties.get c.name with
      | none => exact kept_iff hvalid hc
      | some value =>
        obtain ⟨doc, _, hmerge⟩ := validated_eq_ok hvalid
        have hentries := merge_entries update.nodup hmerge c
        rw [hc] at hentries
        obtain ⟨items, rfl, hitems⟩ := hentries
        simp only [hitems, Json.arr.injEq, Json.items?, Option.mem_def, Option.some.injEq,
          forall_eq']
        exact eq_comm.trans List.filter_eq_self

end Updates

/-! ## Template variables -/

section Seen
variable {spelling : Spelling} {a b : Category × Json}

/-- A suffix is empty, or starts with the only underscore in it. -/
theorem suffix_cases {c : Category} {entry : Json} {s : Text}
    (h : s ∈ (fields c entry).map Prod.fst) : s = [] ∨ ∃ rest, s = '_' :: rest ∧ '_' ∉ rest := by
  have hmem : s ∈ [[], "_URL".toList, "_USER".toList, "_PASS".toList, "_TOKEN".toList,
      "_SSH".toList] := by
    cases c <;> simp only [fields, List.map_cons, List.mem_cons] at h ⊢
    all_goals first | tauto | (split_ifs at h <;> simp at h <;> simp <;> tauto)
  simp only [List.mem_cons, List.not_mem_nil, or_false] at hmem
  rcases hmem with rfl | rfl | rfl | rfl | rfl | rfl
  · exact .inl rfl
  all_goals exact .inr ⟨_, rfl, by decide⟩

theorem eq_of_append_suffix {x y s t : Text} (hs : '_' ∉ s) (ht : '_' ∉ t)
    (h : x ++ '_' :: s = y ++ '_' :: t) : x = y ∧ s = t := by
  induction x generalizing y with
  | nil =>
    cases y with
    | nil => exact ⟨rfl, (List.cons.inj h).2⟩
    | cons c y =>
      obtain ⟨rfl, hrest⟩ := List.cons.inj h
      exact absurd (hrest ▸ List.mem_append_right y List.mem_cons_self) hs
  | cons c x ih =>
    cases y with
    | nil =>
      obtain ⟨rfl, hrest⟩ := List.cons.inj h
      exact absurd (hrest ▸ List.mem_append_right x List.mem_cons_self) ht
    | cons d y =>
      obtain ⟨rfl, hrest⟩ := List.cons.inj h
      obtain ⟨rfl, hst⟩ := ih hrest
      exact ⟨rfl, hst⟩

theorem keys_entryVars (spelling : Spelling) (a : Category × Json) :
    (entryVars spelling a.1 a.2).keys =
      ((fields a.1 a.2).map Prod.fst).map (varPrefix spelling a.2 ++ ·) := by
  rw [KeyedList.keys, entryVars, List.map_map, List.map_map]
  rfl

theorem mem_keys_entryVars {k : Text} :
    k ∈ (entryVars spelling a.1 a.2).keys ↔
      ∃ s ∈ (fields a.1 a.2).map Prod.fst, varPrefix spelling a.2 ++ s = k := by
  rw [keys_entryVars]
  exact List.mem_map

theorem varPrefix_append_inj {s t : Text} :
    varPrefix spelling a.2 ++ s = varPrefix spelling b.2 ++ t ↔
      spelledName spelling a ++ s = spelledName spelling b ++ t := by
  unfold varPrefix spelledName
  rw [List.append_assoc, List.append_assoc]
  generalize "SECRETS_".toList = word
  exact List.append_right_inj word

theorem distinct_iff :
    (∀ k ∈ (entryVars spelling a.1 a.2).keys,
      k ∉ (entryVars spelling b.1 b.2).keys) ↔ Distinct spelling a b := by
  constructor
  · intro h s hs t ht
    have hne : spelledName spelling a ++ s ≠ spelledName spelling b ++ t := by
      intro heq
      exact h _ (mem_keys_entryVars.mpr ⟨s, hs, rfl⟩)
        (mem_keys_entryVars.mpr ⟨t, ht, (varPrefix_append_inj.mpr heq).symm⟩)
    refine ⟨?_, ?_, ?_⟩
    · rintro rfl hname
      exact hne (by rw [hname])
    · rintro rfl _ hname
      exact hne (by rw [hname, List.append_nil])
    · rintro _ rfl hname
      exact hne (by rw [hname, List.append_nil])
  · intro h k hk hk'
    obtain ⟨s, hs, rfl⟩ := mem_keys_entryVars.mp hk
    obtain ⟨t, ht, heq⟩ := mem_keys_entryVars.mp hk'
    have hsame := varPrefix_append_inj.mp heq.symm
    obtain ⟨hshared, hleft, hright⟩ := h s hs t ht
    rcases suffix_cases hs with rfl | ⟨s, rfl, hs'⟩ <;>
      rcases suffix_cases ht with rfl | ⟨t, rfl, ht'⟩
    · exact hshared rfl (by simpa using hsame)
    · exact hleft rfl (List.cons_ne_nil _ _) (by simpa using hsame)
    · exact hright (List.cons_ne_nil _ _) rfl (by simpa using hsame.symm)
    · obtain ⟨hname, rfl⟩ := eq_of_append_suffix hs' ht' hsame
      exact hshared rfl hname

theorem nodup_entryVars (spelling : Spelling) (a : Category × Json) :
    (entryVars spelling a.1 a.2).keys.Nodup := by
  have hfields : ((fields a.1 a.2).map Prod.fst).Nodup := by
    cases a.1 <;> simp only [fields]
    case customResourceUrl => split_ifs <;> simp
    all_goals simp
  rw [keys_entryVars]
  exact hfields.map fun _ _ h => List.append_cancel_left h

theorem buildSecretsTemplateVars_eq (doc : Document) :
    buildSecretsTemplateVars spelling doc =
      (sources doc).foldl (setEntryVars spelling) [] := by
  simp only [buildSecretsTemplateVars, sources, List.foldl_flatMap, List.foldl_map]

/-- What no later entry gives is kept. -/
theorem get_foldl_of_notMem {k : Text} {rest : List (Category × Json)}
    (h : ∀ b ∈ rest, k ∉ (entryVars spelling b.1 b.2).keys)
    (vars : KeyedList Text (Option Json)) :
    (rest.foldl (setEntryVars spelling) vars).get k = vars.get k := by
  induction rest generalizing vars with
  | nil => rfl
  | cons b rest ih =>
    rw [List.foldl_cons, ih fun b' hb' => h b' (List.mem_cons_of_mem b hb'), setEntryVars,
      KeyedList.get_setAll (nodup_entryVars spelling b),
      KeyedList.get_of_notMem (h b List.mem_cons_self), Option.none_or]

theorem get_foldl_of_mem {list : List (Category × Json)}
    (hlist : list.Pairwise fun a b => ∀ k ∈ (entryVars spelling a.1 a.2).keys,
      k ∉ (entryVars spelling b.1 b.2).keys)
    (ha : a ∈ list) {field : Text × Option Json} (hfield : field ∈ entryVars spelling a.1 a.2)
    (vars : KeyedList Text (Option Json)) :
    (list.foldl (setEntryVars spelling) vars).get field.1 = some field.2 := by
  induction list generalizing vars with
  | nil => cases ha
  | cons b rest ih =>
    obtain ⟨hfirst, hrest⟩ := List.pairwise_cons.mp hlist
    rw [List.foldl_cons]
    rcases List.mem_cons.mp ha with rfl | hmem
    · rw [get_foldl_of_notMem fun b hb => hfirst b hb _ (List.mem_map_of_mem hfield), setEntryVars,
        KeyedList.get_setAll (nodup_entryVars spelling a),
        KeyedList.get_of_mem (nodup_entryVars spelling a) hfield, Option.some_or]
    · exact ih hrest hmem _

theorem everySecretSeen_iff (spelling : Spelling) (doc : Document) :
    EverySecretSeen spelling doc ↔ Unmistakable spelling doc := by
  have hpairwise : ((sources doc).Pairwise fun a b =>
      ∀ k ∈ (entryVars spelling a.1 a.2).keys,
        k ∉ (entryVars spelling b.1 b.2).keys) ↔ Unmistakable spelling doc :=
    ⟨fun h => h.imp distinct_iff.mp, fun h => h.imp distinct_iff.mpr⟩
  constructor
  · exact fun h => hpairwise.mp h.1
  · intro h
    refine ⟨hpairwise.mpr h, fun a ha field hfield => ?_⟩
    rw [buildSecretsTemplateVars_eq]
    exact get_foldl_of_mem (hpairwise.mpr h) ha hfield []

theorem updates_atomic_and_secrets_seen_iff {β : Type*} (yaml : Yaml β) (text : Json → String)
    (spelling : Spelling) :
    (∀ readable write stored update,
      Atomic yaml stored update (replaceSecrets yaml text readable write stored update) ↔
        Careful yaml text readable write stored update) ∧
      ∀ doc, EverySecretSeen spelling doc ↔ Unmistakable spelling doc :=
  ⟨atomic_iff text, everySecretSeen_iff spelling⟩

/-- A library that keeps the value itself as the file. -/
def verbatim : Yaml Json := ⟨.ok, id, fun _ => rfl⟩

/-- `String` of a text and `toUpperCase` of its ASCII letters. -/
def ascii : Spelling where
  string name := ((name.bind Json.text?).getD "").toList
  toUpperCase := List.map Char.toUpper

def gitKey (name key : String) : Json := .obj [("name", .str name), ("key", .str key)]

/-- The names of two keys differ in a hyphen. -/
theorem updates_atomic_and_secrets_seen_fails :
    ¬ ((∀ stored update,
        Atomic verbatim stored update
          (replaceSecrets verbatim (fun _ => "") true .done stored update)) ∧
      ∀ update doc, validated verbatim (fun _ => "") none update = .ok doc →
        EverySecretSeen ascii doc) := by
  rintro ⟨_, hseen⟩
  let items : List Json := [gitKey "a-b" "1", gitKey "a_b" "2"]
  let update : Update := ⟨[("git_api_keys", .arr items)], by decide⟩
  let doc : Document := emptyDocument.put .gitApiKeys items
  have hdoc : validated verbatim (fun _ => "") none update = .ok doc := by rfl
  have hsources : sources doc = items.map fun entry => (.gitApiKeys, entry) := by rfl
  have hpairwise := (hseen update doc hdoc).1
  rw [hsources] at hpairwise
  exact (List.pairwise_cons.mp hpairwise).1 _ List.mem_cons_self "SECRETS_A_B".toList
    (by decide +kernel) (by decide +kernel)

end Seen

end ZoneweaverAgent.SecretsStore
