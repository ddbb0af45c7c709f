import ZoneweaverAgent.FieldDsl
import ZoneweaverAgent.VersionOrder

/-!
# The latest version of a box

A create asks for the latest version in three places: the registry is asked for what to download,
the request and the storage task ask the table of local templates. The registry query orders
versions by their numbers, the table by their texts. `Number` and the order of texts in the
database are parameters.
-/

namespace ZoneweaverAgent.BoxVersions

open Comparators FieldDsl VersionOrder

section Registry
variable (number : String → Option Numeric)

/-- `a.split('.').map(Number)`, read as `Number(part) || 0`. -/
def parts (version : String) : List Numeric :=
  (version.toList.splitOn '.').map fun part => (number (String.ofList part)).getD (finite 0)

/-- `diff` where it is not zero, `NaN` counting as no difference, and else what follows. -/
def difference (a b : Numeric) (following : ℤ) : ℤ :=
  if a = b then if a = ⊤ ∨ a = ⊥ then 0 else following
  else if b < a then -1 else 1

/-- The first `n` parts one after the other, a missing one as 0. -/
def compareUpTo : ℕ → List Numeric → List Numeric → ℤ
  | 0, _, _ => 0
  | n + 1, as, bs =>
    difference (as.headD (finite 0)) (bs.headD (finite 0)) (compareUpTo n as.tail bs.tail)

/-- Negative where the first is the newer. -/
def compareParts (as bs : List Numeric) : ℤ := compareUpTo (max as.length bs.length) as bs

def compareNumbers : Comparator String := fun a b => compareParts (parts number a) (parts number b)

/-- The version a registry with these versions is asked for. -/
def queryLatestBoxVersion (org boxName : String) (versions : List String) : Except String String :=
  match (sortBy (compareNumbers number) versions).head? with
  | some version => .ok version
  | none => .error ("No versions available for " ++ org ++ "/" ++ boxName)

end Registry

structure Template where
  organization : String
  boxName : String
  version : String
  provider : String
  architecture : String
  datasetPath : String
  deriving DecidableEq

structure Settings where
  box : String
  boxVersion : Option String
  boxArch : Option String

structure BootDisk where
  type : String
  templateDataset : Option String

section Templates
variable (textOrder : Comparator String) (rows : List Template)

/-- `value || fallback` -/
def orText (value : Option String) (fallback : String) : String :=
  (value.filter (· ≠ "")).getD fallback

def requestedVersion (settings : Settings) : String := orText settings.boxVersion "latest"

/-- `settings.box.split('/')` -/
def boxParts (settings : Settings) : List String :=
  (settings.box.toList.splitOn '/').map String.ofList

def organizationOf (settings : Settings) : String := (boxParts settings).headD ""

def boxNameOf (settings : Settings) : String := ((boxParts settings)[1]?).getD ""

def isTemplateOf (settings : Settings) (row : Template) : Bool :=
  row.organization = organizationOf settings && row.boxName = boxNameOf settings &&
    row.architecture = orText settings.boxArch "amd64" && row.provider = "zone"

/-- `findOne` with `order: [['version', 'DESC']]`, or of the version that is asked for. -/
def findTemplate (settings : Settings) : Option Template :=
  if requestedVersion settings = "latest" then
    (sortBy (fun a b => textOrder b.version a.version) (rows.filter (isTemplateOf settings))).head?
  else
    rows.find? fun row => isTemplateOf settings row && row.version = requestedVersion settings

inductive BoxResolution
  | unchanged
  | invalidBox
  | notAvailable
  | resolved (template : Template)
  deriving DecidableEq

/-- The boot disk asks for a template that is not known yet. -/
def asksForTemplate (boot : BootDisk) : Bool :=
  boot.type = "template" && orText boot.templateDataset "" = ""

/-- What the request resolves to, and the rows that are left. `ready` tells whether the dataset of a
template has its snapshot. -/
def resolveBoxToTemplate (ready : String → Bool) (settings : Settings) (boot : BootDisk) :
    BoxResolution × List Template :=
  if !asksForTemplate boot || settings.box = "" then (.unchanged, rows)
  else if organizationOf settings = "" || boxNameOf settings = "" then (.invalidBox, rows)
  else
    match findTemplate textOrder rows settings with
    | none => (.notAvailable, rows)
    | some template =>
      if ready template.datasetPath then (.resolved template, rows)
      else (.notAvailable, rows.erase template)

/-- The template of `executeZoneCreateStorageTask`, where its boot disk asks for one. -/
def storageTemplate (settings : Settings) (boot : BootDisk) : Except String (Option Template) :=
  if asksForTemplate boot then
    match findTemplate textOrder rows settings with
    | none => .error ("Template " ++ organizationOf settings ++ "/" ++ boxNameOf settings ++ " v" ++
        requestedVersion settings ++ " not found after download")
    | some template => .ok (some template)
  else .ok none

end Templates

section Agreement
variable (number : String → Option Numeric) (textOrder : Comparator String)
  (ready : String → Bool) (settings : Settings) (boot : BootDisk) (versions : List String)
  (rows : List Template)

/-- One version is selected everywhere, and none is numerically greater. -/
def SameLatest : Prop :=
  ∃ version,
    queryLatestBoxVersion number (organizationOf settings) (boxNameOf settings) versions =
      .ok version ∧
    (∃ template, (resolveBoxToTemplate textOrder rows ready settings boot).1 = .resolved template ∧
      template.version = version) ∧
    (∃ template, storageTemplate textOrder rows settings boot = .ok (some template) ∧
      template.version = version) ∧
    ∀ other ∈ versions, compareNumbers number version other ≤ 0

/-- The version that is greatest as a text is not numerically less than another, nor is one before
it in the registry's list that is as great. -/
def GreatestAsText : Prop :=
  ∃ before version after, versions = before ++ version :: after ∧
    (∀ other ∈ versions, textOrder other version ≤ 0) ∧
    (∀ other ∈ before, compareNumbers number version other < 0) ∧
    ∀ other ∈ after, compareNumbers number version other ≤ 0

/-- The request asks for the latest version of a box, and every version the registry lists, and no
other, was downloaded. -/
structure AllDownloaded : Prop where
  latest : requestedVersion settings = "latest"
  template : asksForTemplate boot = true
  organization : organizationOf settings ≠ ""
  boxName : boxNameOf settings ≠ ""
  some : versions ≠ []
  distinct : versions.Nodup
  stored : ∀ version, version ∈ versions ↔
    ∃ row ∈ rows, isTemplateOf settings row = true ∧ row.version = version
  ready : ∀ row ∈ rows, ready row.datasetPath = true

end Agreement

section Order
variable {number : String → Option Numeric} {a b c : Numeric} {m n : ℤ}

theorem compareUpTo_nil (n : ℕ) : compareUpTo n [] [] = 0 := by
  induction n with
  | zero => rfl
  | succ n ih =>
    have hfinite : ¬(finite 0 = ⊤ ∨ finite 0 = ⊥) := by decide
    change difference (finite 0) (finite 0) (compareUpTo n [] []) = 0
    rw [difference, if_pos rfl, if_neg hfinite, ih]

/-- Parts that both lists miss make no difference. -/
theorem compareUpTo_of_le {n : ℕ} {as bs : List Numeric} (h : max as.length bs.length ≤ n) :
    compareUpTo n as bs = compareParts as bs := by
  unfold compareParts
  induction n generalizing as bs with
  | zero => rw [Nat.le_zero.mp h]
  | succ n ih =>
    by_cases hnil : max as.length bs.length = 0
    · have has : as = [] := List.length_eq_zero_iff.mp (by omega)
      have hbs : bs = [] := List.length_eq_zero_iff.mp (by omega)
      rw [has, hbs, compareUpTo_nil, compareUpTo_nil]
    · obtain ⟨k, hk⟩ := Nat.exists_eq_succ_of_ne_zero hnil
      have htail : max as.tail.length bs.tail.length = k := by
        rw [List.length_tail, List.length_tail]
        omega
      rw [hk]
      change difference _ _ _ = difference _ _ _
      rw [ih (by omega), htail]

theorem difference_swap (h : m < 0 ↔ 0 < n) : difference a b m < 0 ↔ 0 < difference b a n := by
  unfold difference
  rcases lt_trichotomy a b with hab | rfl | hab
  · rw [if_neg (ne_of_lt hab), if_neg (ne_of_gt hab), if_neg (not_lt_of_gt hab), if_pos hab]
    omega
  · rw [if_pos rfl, if_pos rfl]
    split_ifs <;> omega
  · rw [if_neg (ne_of_gt hab), if_neg (ne_of_lt hab), if_pos hab, if_neg (not_lt_of_gt hab)]
    omega

theorem difference_nonpos : difference a b m ≤ 0 ↔
    b < a ∨ a = b ∧ (a = ⊤ ∨ a = ⊥ ∨ m ≤ 0) := by
  unfold difference
  rcases lt_trichotomy a b with hab | rfl | hab
  · rw [if_neg (ne_of_lt hab), if_neg (not_lt_of_gt hab)]
    simp [ne_of_lt hab, not_lt_of_gt hab]
  · rw [if_pos rfl]
    split_ifs with h
    · simp [← or_assoc, h]
    · simp [← or_assoc, h]
  · rw [if_neg (ne_of_gt hab), if_pos hab]
    simp [hab]

theorem compareNumbers_swap (v w : String) :
    compareNumbers number v w < 0 ↔ 0 < compareNumbers number w v := by
  have key : ∀ k as bs, compareUpTo k as bs < 0 ↔ 0 < compareUpTo k bs as := by
    intro k
    induction k with
    | zero => simp [compareUpTo]
    | succ k ih => exact fun as bs => difference_swap (ih as.tail bs.tail)
  unfold compareNumbers compareParts
  rw [max_comm (parts number w).length]
  exact key _ _ _

theorem compareNumbers_trans {u v w : String} (huv : compareNumbers number u v ≤ 0)
    (hvw : compareNumbers number v w ≤ 0) : compareNumbers number u w ≤ 0 := by
  have key : ∀ k as bs cs, compareUpTo k as bs ≤ 0 → compareUpTo k bs cs ≤ 0 →
      compareUpTo k as cs ≤ 0 := by
    intro k
    induction k with
    | zero => simp [compareUpTo]
    | succ k ih =>
      intro as bs cs hab hbc
      unfold compareUpTo at hab hbc ⊢
      rw [difference_nonpos] at hab hbc ⊢
      rcases hab with hab | ⟨hab, hleft⟩
      · rcases hbc with hbc | ⟨hbc, -⟩
        · exact .inl (lt_trans hbc hab)
        · exact .inl (hbc ▸ hab)
      · rcases hbc with hbc | ⟨hbc, hright⟩
        · exact .inl (hab ▸ hbc)
        · refine .inr ⟨hab.trans hbc, ?_⟩
          rcases hleft with htop | hbot | hleft
          · exact .inl htop
          · exact .inr (.inl hbot)
          · rcases hright with htop | hbot | hright
            · exact .inl (hab.trans htop)
            · exact .inr (.inl (hab.trans hbot))
            · exact .inr (.inr (ih _ _ _ hleft hright))
  -- the three versions are compared over one number of parts
  unfold compareNumbers at huv hvw ⊢
  generalize parts number u = as at huv ⊢
  generalize parts number v = bs at huv hvw
  generalize parts number w = cs at hvw ⊢
  rw [← compareUpTo_of_le (n := as.length + bs.length + cs.length) (by omega)] at huv hvw ⊢
  exact key _ as bs cs huv hvw

end Order

section Selection
variable {number : String → Option Numeric} {textOrder : Comparator String}
  {ready : String → Bool} {settings : Settings} {boot : BootDisk} {versions : List String}
  {rows : List Template}

/-- The table answers with the version that is greatest as a text. -/
theorem findTemplate_spec (horder : TotalOrder textOrder)
    (h : AllDownloaded ready settings boot versions rows) :
    ∃ template ∈ rows, findTemplate textOrder rows settings = some template ∧
      template.version ∈ versions ∧ ∀ other ∈ versions, textOrder other template.version ≤ 0 := by
  have hmem : ∀ version, version ∈ versions ↔
      ∃ row ∈ rows.filter (isTemplateOf settings), row.version = version := by
    intro version
    rw [h.stored]
    simp only [List.mem_filter, and_assoc]
  have hne : rows.filter (isTemplateOf settings) ≠ [] := by
    obtain ⟨version, hversion⟩ := List.exists_mem_of_ne_nil _ h.some
    obtain ⟨row, hrow, -⟩ := (hmem version).mp hversion
    exact List.ne_nil_of_mem hrow
  obtain ⟨template, hhead, hrow, hgreatest⟩ := exists_head?_sortBy
    (fun a b : Template => horder.swap b.version a.version)
    (fun a _ b _ c _ hab hbc => horder.le_trans hbc hab) hne
  refine ⟨template, List.mem_of_mem_filter hrow, ?_, (hmem _).mpr ⟨template, hrow, rfl⟩, ?_⟩
  · rw [findTemplate, if_pos h.latest]
    exact hhead
  · intro other hother
    obtain ⟨row, hrow, rfl⟩ := (hmem other).mp hother
    exact hgreatest row hrow

theorem resolved_eq (h : AllDownloaded ready settings boot versions rows) {template : Template}
    (hmem : template ∈ rows) (hfind : findTemplate textOrder rows settings = some template) :
    (resolveBoxToTemplate textOrder rows ready settings boot).1 = .resolved template := by
  have hbox : settings.box ≠ "" := by
    intro hempty
    apply h.organization
    rw [organizationOf, boxParts, hempty]
    decide +kernel
  simp only [resolveBoxToTemplate, h.template, hbox, h.organization, h.boxName, hfind,
    h.ready template hmem, Bool.not_true, decide_false, Bool.or_self, Bool.false_eq_true, if_false,
    if_true]

theorem query_ok_iff (org boxName version : String) :
    queryLatestBoxVersion number org boxName versions = .ok version ↔
      (sortBy (compareNumbers number) versions).head? = some version := by
  unfold queryLatestBoxVersion
  cases (sortBy (compareNumbers number) versions).head? <;> simp

/-- For every box whose versions are all published and all downloaded, the latest version is one and
the same for the registry, the request and the storage task, and numerically greatest, exactly
where it is greatest as a text too. -/
theorem latest_agrees_iff (number : String → Option Numeric) (textOrder : Comparator String)
    (horder : TotalOrder textOrder) (ready : String → Bool) (settings : Settings)
    (boot : BootDisk) (versions : List String) (rows : List Template)
    (h : AllDownloaded ready settings boot versions rows) :
    SameLatest number textOrder ready settings boot versions rows ↔
      GreatestAsText number textOrder versions := by
  obtain ⟨template, hmem, hfind, hversion, hgreatest⟩ := findTemplate_spec horder h
  have hresolved := resolved_eq h hmem hfind
  have hstored : storageTemplate textOrder rows settings boot = .ok (some template) := by
    rw [storageTemplate, if_pos h.template, hfind]
  have hhead := fun version => @head?_sortBy_iff _ (compareNumbers number) versions version
    compareNumbers_swap (fun a _ b _ c _ => compareNumbers_trans) h.distinct
  unfold SameLatest
  simp only [query_ok_iff, hresolved, hstored, BoxResolution.resolved.injEq, Except.ok.injEq,
    Option.some.injEq, exists_eq_left']
  constructor
  · rintro ⟨version, hquery, hsame, -, -⟩
    obtain ⟨before, after, hsplit, hbefore, hafter⟩ := (hhead version).mp hquery
    exact ⟨before, version, after, hsplit, hsame ▸ hgreatest, hbefore, hafter⟩
  · rintro ⟨before, version, after, hsplit, htext, hbefore, hafter⟩
    have hsame : template.version = version := by
      apply horder.antisymm (htext _ hversion) (hgreatest _ _)
      rw [hsplit]
      simp
    refine ⟨version, (hhead version).mpr ⟨before, after, hsplit, hbefore, hafter⟩, hsame, hsame, ?_⟩
    intro other hother
    rw [hsplit] at hother
    rcases List.mem_append.mp hother with hother | hother
    · exact le_of_lt (hbefore other hother)
    · rcases List.mem_cons.mp hother with rfl | hother
      · have := @compareNumbers_swap number other other
        omega
      · exact hafter other hother

/-- The digits that occur below. -/
def plainNumber (part : String) : Option Numeric :=
  if part = "0" then some (finite 0) else if part = "1" then some (finite 1)
  else if part = "9" then some (finite 9) else if part = "10" then some (finite 10) else none

def plainSettings : Settings := ⟨"startcloud/debian", none, none⟩

def plainBoot : BootDisk := ⟨"template", none⟩

def plainTemplate (version : String) : Template :=
  ⟨"startcloud", "debian", version, "zone", "amd64", "rpool/templates/" ++ version⟩

theorem allDownloaded_plain {versions : List String} (hsome : versions ≠ [])
    (hdistinct : versions.Nodup) : AllDownloaded (fun _ => true) plainSettings plainBoot versions
      (versions.map plainTemplate) where
  latest := by decide +kernel
  template := by decide +kernel
  organization := by decide +kernel
  boxName := by decide +kernel
  some := hsome
  distinct := hdistinct
  stored := by
    intro version
    have htemplate : ∀ v, isTemplateOf plainSettings (plainTemplate v) = true := by
      intro v
      have horg : organizationOf plainSettings = "startcloud" := by decide +kernel
      have hbox : boxNameOf plainSettings = "debian" := by decide +kernel
      unfold isTemplateOf
      rw [horg, hbox]
      simp [plainTemplate, plainSettings, orText]
    constructor
    · intro hversion
      exact ⟨plainTemplate version, List.mem_map_of_mem hversion, htemplate version, rfl⟩
    · rintro ⟨row, hrow, -, rfl⟩
      obtain ⟨v, hv, rfl⟩ := List.mem_map.mp hrow
      exact hv
  ready _ _ := rfl

theorem latest_agrees_plain :
    SameLatest plainNumber byCodePoints (fun _ => true) plainSettings plainBoot ["1.0.0", "1.9.0"]
        (["1.0.0", "1.9.0"].map plainTemplate) ↔
      GreatestAsText plainNumber byCodePoints ["1.0.0", "1.9.0"] :=
  latest_agrees_iff plainNumber byCodePoints totalOrder_byCodePoints (fun _ => true) plainSettings
    plainBoot ["1.0.0", "1.9.0"] (["1.0.0", "1.9.0"].map plainTemplate)
    (allDownloaded_plain (by decide) (by decide))

/-- The registry is asked for 1.10.0, and 1.9.0 is what the table answers. -/
theorem latest_agrees_fails :
    ¬∀ (number : String → Option Numeric) (textOrder : Comparator String), TotalOrder textOrder →
      ∀ (ready : String → Bool) (settings : Settings) (boot : BootDisk) (versions : List String)
        (rows : List Template), AllDownloaded ready settings boot versions rows →
        SameLatest number textOrder ready settings boot versions rows := by
  intro h
  have hall := @allDownloaded_plain ["1.9.0", "1.10.0"] (by decide) (by decide)
  obtain ⟨template, hmem, hfind, hversion, hgreatest⟩ :=
    findTemplate_spec totalOrder_byCodePoints hall
  obtain ⟨version, -, ⟨found, hfound, rfl⟩, -, hnumbers⟩ :=
    h plainNumber byCodePoints totalOrder_byCodePoints _ _ _ _ _ hall
  rw [resolved_eq hall hmem hfind] at hfound
  obtain rfl := BoxResolution.resolved.inj hfound
  rcases List.mem_cons.mp hversion with heq | hversion
  · have hless := hnumbers "1.10.0" (by decide)
    rw [heq] at hless
    revert hless
    decide +kernel
  · have hless := hgreatest "1.9.0" (by decide)
    rw [List.mem_singleton.mp hversion] at hless
    revert hless
    decide +kernel

end Selection

end ZoneweaverAgent.BoxVersions
