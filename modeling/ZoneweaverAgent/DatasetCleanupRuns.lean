import ZoneweaverAgent.DatasetCleanup

/-!
# What a dataset cleanup spares

A cleanup spares the other machines if no destroyed dataset is, or lies above, a dataset one of
their configurations references. It does so exactly when every owned dataset at or above a reference
is shielded: some configuration that is read before the reading throws spells a value at or below it
in one of the places the protection looks at.
-/

namespace ZoneweaverAgent.DatasetCleanup
open ZoneDocument DiskSpec PathTree

section Property
variable (host : Host)

/-- The disks of a configuration as the shared reader collects them, and its zonepath's dataset. -/
def references (config : Json) : List String :=
  (collectZoneDiskDatasets host config).getD [] ++
    (((textField "zonepath" config).filter (· ≠ "")).map zonepathDataset).toList

/-- No issued destroy reaches a dataset of another machine; with the configurations unread, none is
issued. -/
def Spares (zoneName : String) (allZones : Option (KeyedList String Json)) (issued : List String) :
    Prop :=
  match allZones with
  | none => issued = []
  | some configs => ∀ x ∈ issued, ∀ e ∈ configs, e.1 ≠ zoneName → ∀ d ∈ references host e.2,
      ¬ AtOrBelow '/' x.toList d.toList

/-- Whatever pool the destroys run on, the referenced datasets it has survive. -/
theorem Spares.survives {zoneName : String} {configs : KeyedList String Json} {issued : List String}
    (h : Spares host zoneName (some configs) issued) {pool : List (List Char)} {d : String}
    {e : String × Json} (he : e ∈ configs) (hne : e.1 ≠ zoneName) (hd : d ∈ references host e.2)
    (hpool : d.toList ∈ pool) :
    d.toList ∈ removeTrees '/' (issued.map String.toList) pool := by
  rw [mem_removeTrees]
  constructor
  · exact hpool
  · intro x hx
    obtain ⟨y, hy, rfl⟩ := List.mem_map.mp hx
    exact h y hy e he hne d hd

end Property

section Shields

/-- A text at or below the dataset, as it stands or behind a leading `/`; a value that is no text
stops the check. -/
def Shields (x : String) (value : Json) : Prop :=
  ∀ s, value = .str s → matchesProtected x.toList s.toList = true

/-- The values a configuration spells where the protection looks. -/
inductive Spelled (config : Json) : Json → Prop
  | zonepath {value : Json} : config.field "zonepath" = some value → value.truthy = true →
      Spelled config value
  | zonepathDataset {zonepath : String} : config.field "zonepath" = some (.str zonepath) →
      zonepath ≠ "" → Spelled config (.str (zonepathDataset zonepath))
  | bootdisk {disk value : Json} : config.field "bootdisk" = some disk → value ∈ pathOf disk →
      Spelled config value
  | disk {disk value : Json} :
      disk ∈ (oneOrMany (config.field "disk")).takeWhile (· ≠ .null) → value ∈ pathOf disk →
      Spelled config value

/-- Neither the configuration nor an entry of its `disk` is null. -/
def Legible (config : Json) : Prop := config ≠ .null ∧ .null ∉ oneOrMany (config.field "disk")

/-- Another machine's configuration, behind legible ones only, spells a value that shields `x`. -/
inductive Shielded (zoneName x : String) : KeyedList String Json → Prop
  | here {name : String} {config value : Json} {rest : KeyedList String Json} :
      name ≠ zoneName → Spelled config value → Shields x value →
      Shielded zoneName x ((name, config) :: rest)
  | there {name : String} {config : Json} {rest : KeyedList String Json} :
      (name ≠ zoneName → Legible config) → Shielded zoneName x rest →
      Shielded zoneName x ((name, config) :: rest)

theorem shields_of_atOrBelow {x d : String} (h : AtOrBelow '/' x.toList d.toList) :
    Shields x (.str d) := by
  intro s hs
  cases hs
  rcases h with h | h
  · simp [matchesProtected, h]
  · simp [matchesProtected, List.isPrefixOf_iff_prefix.mpr h]

theorem isProtected_eq_false_iff {x : String} {values : List Json} :
    isProtected x values = some false ↔ ∀ value ∈ values, ¬ Shields x value := by
  induction values with
  | nil => simp [isProtected]
  | cons value rest ih =>
    simp only [List.mem_cons, forall_eq_or_imp]
    cases value with
    | str s =>
      have hshields : Shields x (.str s) ↔ matchesProtected x.toList s.toList = true := by
        constructor
        · intro h
          exact h s rfl
        · intro h t ht
          cases ht
          exact h
      rw [isProtected, hshields, ← ih]
      split_ifs with h <;> simp [h]
    | _ => simp [isProtected, Shields]

end Shields

section Readings
variable {x : String}

theorem mem_andThen {first second : Reading} {value : Json} :
    value ∈ (first.andThen second).values ↔
      value ∈ first.values ∨ first.completed = true ∧ value ∈ second.values := by
  unfold Reading.andThen
  split_ifs with h <;> simp [h]

theorem completed_andThen {first second : Reading} :
    (first.andThen second).completed = (first.completed && second.completed) := by
  unfold Reading.andThen
  cases h : first.completed <;> simp [h]

theorem mem_protectDisks {disks : List Json} {value : Json} :
    value ∈ (protectDisks disks).values ↔
      ∃ disk ∈ disks.takeWhile (· ≠ .null), value ∈ pathOf disk := by
  induction disks with
  | nil => simp [protectDisks]
  | cons disk rest ih =>
    by_cases hnull : disk = .null
    · simp [protectDisks, hnull]
    · rw [protectDisks, if_neg hnull, mem_andThen, ih]
      simp [hnull]

theorem completed_protectDisks {disks : List Json} :
    (protectDisks disks).completed = true ↔ .null ∉ disks := by
  induction disks with
  | nil => simp [protectDisks]
  | cons disk rest ih =>
    by_cases hnull : disk = .null
    · simp [protectDisks, hnull]
    · rw [protectDisks, if_neg hnull, completed_andThen]
      simp [ih, Ne.symm hnull]

variable {config : Json}

theorem mem_protectZonepath {value : Json} :
    value ∈ (protectZonepath config).values ↔
      config.field "zonepath" = some value ∧ value.truthy = true ∨
        ∃ zonepath, config.field "zonepath" = some (.str zonepath) ∧ zonepath ≠ "" ∧
          value = .str (zonepathDataset zonepath) := by
  unfold protectZonepath
  cases hfield : config.field "zonepath" with
  | none => simp
  | some found =>
    by_cases htruthy : found.truthy = true
    · cases found with
      | str s =>
        have hne : s ≠ "" := by simpa [Json.truthy] using htruthy
        simp only [Option.filter, htruthy, if_true, List.mem_cons, List.not_mem_nil, or_false,
          Option.some.injEq, Json.str.injEq]
        constructor
        · rintro (rfl | rfl)
          · exact Or.inl ⟨rfl, htruthy⟩
          · exact Or.inr ⟨s, rfl, hne, rfl⟩
        · rintro (⟨rfl, -⟩ | ⟨_, rfl, -, rfl⟩)
          · exact Or.inl rfl
          · exact Or.inr rfl
      | _ =>
        simp only [Option.filter, htruthy, if_true, List.mem_cons, List.not_mem_nil, or_false,
          Option.some.injEq]
        constructor
        · rintro rfl
          exact Or.inl ⟨rfl, htruthy⟩
        · rintro (⟨rfl, -⟩ | ⟨_, h, -⟩)
          · rfl
          · cases h
    · simp only [Option.filter, if_neg htruthy, List.not_mem_nil, Option.some.injEq, false_iff]
      rintro (⟨rfl, h⟩ | ⟨zonepath, rfl, hne, -⟩)
      · exact htruthy h
      · exact htruthy (by simpa [Json.truthy] using hne)

/-- A zonepath on which the reading throws shields every dataset. -/
theorem protectZonepath_completed_or (config : Json) (x : String) :
    (protectZonepath config).completed = true ∨
      ∃ value ∈ (protectZonepath config).values, Shields x value := by
  unfold protectZonepath
  split
  · exact Or.inl rfl
  · exact Or.inl rfl
  · rename_i zonepath hnot _
    apply Or.inr
    refine ⟨zonepath, by simp, ?_⟩
    intro s hs
    exact absurd hs (hnot s)

theorem mem_protectConfig {value : Json} (h : value ∈ (protectConfig config).values) :
    Spelled config value := by
  unfold protectConfig at h
  by_cases hnull : config = .null
  · simp [hnull] at h
  · rw [if_neg hnull, mem_andThen, mem_andThen, mem_protectZonepath, mem_protectDisks] at h
    rcases h with (⟨hfield, htruthy⟩ | ⟨zonepath, hfield, hne, rfl⟩) | ⟨-, h | ⟨-, disk, hdisk, h⟩⟩
    · exact .zonepath hfield htruthy
    · exact .zonepathDataset hfield hne
    · cases hfield : config.field "bootdisk" with
      | none => simp [protectBootdisk, hfield] at h
      | some disk =>
        apply Spelled.bootdisk hfield
        simpa [protectBootdisk, hfield] using h
    · exact .disk hdisk h

theorem ne_null_of_spelled {value : Json} (h : Spelled config value) : config ≠ .null := by
  rintro rfl
  cases h with
  | zonepath h => cases h
  | zonepathDataset h => cases h
  | bootdisk h => cases h
  | disk h => cases h

theorem exists_shields_protectConfig :
    (∃ value ∈ (protectConfig config).values, Shields x value) ↔
      ∃ value, Spelled config value ∧ Shields x value := by
  constructor
  · rintro ⟨value, hmem, hshields⟩
    exact ⟨value, mem_protectConfig hmem, hshields⟩
  · rintro ⟨value, hspelled, hshields⟩
    rw [protectConfig, if_neg (ne_null_of_spelled hspelled)]
    simp only [mem_andThen]
    have hlater (h : value ∈ (protectBootdisk config).values ∨
        (protectBootdisk config).completed = true ∧
          value ∈ (protectDisks (oneOrMany (config.field "disk"))).values) :
        ∃ value, (value ∈ (protectZonepath config).values ∨
          (protectZonepath config).completed = true ∧
            (value ∈ (protectBootdisk config).values ∨ (protectBootdisk config).completed = true ∧
              value ∈ (protectDisks (oneOrMany (config.field "disk"))).values)) ∧
          Shields x value := by
      rcases protectZonepath_completed_or config x with hdone | ⟨other, hmem, hother⟩
      · exact ⟨value, Or.inr ⟨hdone, h⟩, hshields⟩
      · exact ⟨other, Or.inl hmem, hother⟩
    cases hspelled with
    | zonepath hfield htruthy =>
      exact ⟨value, Or.inl (mem_protectZonepath.mpr (Or.inl ⟨hfield, htruthy⟩)), hshields⟩
    | zonepathDataset hfield hne =>
      exact ⟨_, Or.inl (mem_protectZonepath.mpr (Or.inr ⟨_, hfield, hne, rfl⟩)), hshields⟩
    | bootdisk hfield hpath =>
      apply hlater
      exact Or.inl (by simpa [protectBootdisk, hfield] using hpath)
    | disk hdisk hpath =>
      apply hlater
      exact Or.inr ⟨rfl, mem_protectDisks.mpr ⟨_, hdisk, hpath⟩⟩

theorem legible_of_completed (h : (protectConfig config).completed = true) : Legible config := by
  unfold protectConfig at h
  by_cases hnull : config = .null
  · simp [hnull] at h
  · rw [if_neg hnull, completed_andThen, completed_andThen, Bool.and_eq_true, Bool.and_eq_true,
      completed_protectDisks] at h
    exact ⟨hnull, h.2.2⟩

theorem completed_or_of_legible (h : Legible config) :
    (protectConfig config).completed = true ∨
      ∃ value, Spelled config value ∧ Shields x value := by
  rcases protectZonepath_completed_or config x with hdone | ⟨value, hmem, hshields⟩
  · apply Or.inl
    rw [protectConfig, if_neg h.1, completed_andThen, completed_andThen, hdone,
      completed_protectDisks.mpr h.2]
    rfl
  · apply Or.inr
    rcases mem_protectZonepath.mp hmem with ⟨hfield, htruthy⟩ | ⟨zonepath, hfield, hne, rfl⟩
    · exact ⟨value, .zonepath hfield htruthy, hshields⟩
    · exact ⟨_, .zonepathDataset hfield hne, hshields⟩

theorem exists_shields_protectOthers {zoneName : String} {configs : KeyedList String Json} :
    (∃ value ∈ (protectOthers zoneName configs).values, Shields x value) ↔
      Shielded zoneName x configs := by
  induction configs with
  | nil =>
    simp only [protectOthers, List.not_mem_nil, false_and, exists_false, false_iff]
    exact nofun
  | cons e rest ih =>
    obtain ⟨name, config⟩ := e
    by_cases hname : name = zoneName
    · rw [protectOthers, if_pos hname, ih]
      constructor
      · exact .there (fun hne => absurd hname hne)
      · intro h
        cases h with
        | here hne => exact absurd hname hne
        | there _ h => exact h
    · rw [protectOthers, if_neg hname]
      simp only [mem_andThen, or_and_right, exists_or, exists_shields_protectConfig, and_assoc,
        exists_and_left, ih]
      constructor
      · rintro (⟨value, hspelled, hshields⟩ | ⟨hdone, h⟩)
        · exact .here hname hspelled hshields
        · exact .there (fun _ => legible_of_completed hdone) h
      · intro h
        cases h with
        | here _ hspelled hshields => exact Or.inl ⟨_, hspelled, hshields⟩
        | there hlegible h =>
          rcases completed_or_of_legible (x := x) (hlegible hname) with hdone | hvalue
          · exact Or.inr ⟨hdone, h⟩
          · exact Or.inl hvalue

end Readings

section Cleanup
variable {host : Host} {zoneName x : String} {configs : KeyedList String Json}

theorem isProtected_eq_false_iff_not_shielded :
    isProtected x (getProtectedDatasets zoneName (some configs)) = some false ↔
      ¬ Shielded zoneName x configs := by
  rw [isProtected_eq_false_iff, ← exists_shields_protectOthers]
  simp [getProtectedDatasets]

theorem mem_cleanupZoneDatasets {allZones : Option (KeyedList String Json)}
    {datasets : List String} :
    x ∈ cleanupZoneDatasets host zoneName allZones datasets ↔
      x ∈ datasets ∧ isProtected x (getProtectedDatasets zoneName allZones) = some false ∧
        host.owns x = true := by
  simp [cleanupZoneDatasets, processSingleDataset, List.mem_insertionSort]

variable (host)

/-- The datasets of the machine's configuration that exist and carry the stamp. -/
def ownedDatasets (row : Option Json) : List String :=
  (extractZoneDatasets host row).filter host.owns

def reachesCleanup (metadata : Option Json) : Bool :=
  cleanupRequested metadata && host.uninstalls && host.deletes

/-- Every owned dataset at or above a reference of another machine is shielded; with the
configurations unread, the machine owns no dataset. -/
def ReferencesShielded (zoneName : String) (row : Option Json)
    (allZones : Option (KeyedList String Json)) : Prop :=
  match allZones with
  | none => ownedDatasets host row = []
  | some configs => ∀ x ∈ ownedDatasets host row, ∀ e ∈ configs, e.1 ≠ zoneName →
      ∀ d ∈ references host e.2, AtOrBelow '/' x.toList d.toList → Shielded zoneName x configs

variable {host}

theorem mem_executeDeleteTask {metadata row : Option Json}
    (h : reachesCleanup host metadata = true) {allZones : Option (KeyedList String Json)} :
    x ∈ executeDeleteTask host zoneName metadata row allZones ↔
      x ∈ ownedDatasets host row ∧
        isProtected x (getProtectedDatasets zoneName allZones) = some false := by
  have hreaches : (cleanupRequested metadata && host.uninstalls && host.deletes) = true := h
  rw [executeDeleteTask, if_pos hreaches, mem_cleanupZoneDatasets, ownedDatasets, List.mem_filter]
  tauto

theorem executeDeleteTask_eq_nil {metadata row : Option Json}
    (h : reachesCleanup host metadata ≠ true) {allZones : Option (KeyedList String Json)} :
    executeDeleteTask host zoneName metadata row allZones = [] := by
  have hreaches : ¬ (cleanupRequested metadata && host.uninstalls && host.deletes) = true := h
  rw [executeDeleteTask, if_neg hreaches]

theorem shielded_of_mem {e : String × Json} {value : Json}
    (hlegible : ∀ e ∈ configs, e.1 ≠ zoneName → Legible e.2) (he : e ∈ configs)
    (hne : e.1 ≠ zoneName) (hspelled : Spelled e.2 value) (hshields : Shields x value) :
    Shielded zoneName x configs := by
  induction configs with
  | nil => cases he
  | cons first rest ih =>
    cases he with
    | head => exact .here hne hspelled hshields
    | tail _ he =>
      apply Shielded.there (hlegible first List.mem_cons_self)
      exact ih (fun e he => hlegible e (List.mem_cons_of_mem _ he)) he

/-- A zonepath's dataset is one of the spellings the protection knows, so only disks are at risk. -/
theorem spelled_zonepath {config : Json} {d : String}
    (h : d ∈ (((textField "zonepath" config).filter (· ≠ "")).map zonepathDataset).toList) :
    Spelled config (.str d) := by
  simp only [Option.mem_toList, Option.map_eq_some_iff, Option.filter_eq_some_iff,
    decide_eq_true_eq] at h
  obtain ⟨zonepath, ⟨htext, hne⟩, rfl⟩ := h
  apply Spelled.zonepathDataset _ hne
  cases hfield : config.field "zonepath" with
  | none => simp [textField, hfield] at htext
  | some value => cases value <;> simp_all [textField, Json.text?]

/-- With every configuration legible and every disk spelled where the protection looks, the other
machines are spared whatever the deleted machine references. -/
theorem referencesShielded_of_spelled (hlegible : ∀ e ∈ configs, e.1 ≠ zoneName → Legible e.2)
    (hspelled : ∀ e ∈ configs, e.1 ≠ zoneName →
      ∀ d ∈ (collectZoneDiskDatasets host e.2).getD [], Spelled e.2 (.str d))
    (row : Option Json) : ReferencesShielded host zoneName row (some configs) := by
  intro x _ e he hne d hd hbelow
  apply shielded_of_mem hlegible he hne _ (shields_of_atOrBelow hbelow)
  rcases List.mem_append.mp hd with hd | hd
  · exact hspelled e he hne d hd
  · exact spelled_zonepath hd

theorem spares_nil (allZones : Option (KeyedList String Json)) :
    Spares host zoneName allZones [] := by
  cases allZones with
  | none => rfl
  | some configs => exact nofun

theorem cleanup_spares_iff (host : Host) (zoneName : String) (metadata row : Option Json)
    (allZones : Option (KeyedList String Json)) :
    Spares host zoneName allZones (executeDeleteTask host zoneName metadata row allZones) ↔
      (reachesCleanup host metadata = true → ReferencesShielded host zoneName row allZones) := by
  by_cases hreaches : reachesCleanup host metadata = true
  · simp only [hreaches, forall_const]
    cases allZones with
    | none =>
      simp only [Spares, ReferencesShielded, List.eq_nil_iff_forall_not_mem,
        mem_executeDeleteTask hreaches]
      simp [getProtectedDatasets, isProtected]
    | some configs =>
      simp only [Spares, ReferencesShielded, mem_executeDeleteTask hreaches,
        isProtected_eq_false_iff_not_shielded]
      constructor
      · intro h x hx e he hne d hd hbelow
        by_contra hshielded
        exact h x ⟨hx, hshielded⟩ e he hne d hd hbelow
      · intro h x hx e he hne d hd hbelow
        exact hx.2 (h x hx.1 e he hne d hd hbelow)
  · rw [executeDeleteTask_eq_nil hreaches]
    simp [hreaches, spares_nil]

/-- The dataset root of `web` and its volumes, all created by the agent. -/
def webHost : Host where
  parse _ := none
  synced := none
  toText _ := ""
  listed d := if d ∈ ["rpool/zones/web", "rpool/zones/web/disk1"] then some d else none
  present d := d ∈ ["rpool/zones/web", "rpool/zones/web/disk1"]
  stamp d := if d = "rpool/zones/web" then some "zone" else some "blank"
  uninstalls := true
  deletes := true

def webConfig : Json := .obj [("zonepath", .str "/rpool/zones/web/path")]

/-- `db` has a volume of `web` attached as `disk1`. -/
def dbConfig : Json :=
  .obj [("zonepath", .str "/rpool/zones/db/path"), ("disk1", .str "rpool/zones/web/disk1")]

def deleteWeb (allZones : Option (KeyedList String Json)) : List String :=
  executeDeleteTask webHost "web" (some (.obj [("cleanup_disks", .bool true)]))
    (some webConfig) allZones

theorem cleanup_spares_fails :
    ¬ Spares webHost "web" (some [("web", webConfig), ("db", dbConfig)])
        (deleteWeb (some [("web", webConfig), ("db", dbConfig)])) ∧
      ¬ Spares webHost "web" none (deleteWeb none) := by
  have hread : deleteWeb (some [("web", webConfig), ("db", dbConfig)]) = ["rpool/zones/web"] := by
    decide +kernel
  have hunread : deleteWeb none = ["rpool/zones/web"] := by decide +kernel
  constructor
  · intro h
    rw [hread] at h
    have hreference : "rpool/zones/web/disk1" ∈ references webHost dbConfig := by decide +kernel
    have hbelow : AtOrBelow '/' "rpool/zones/web".toList "rpool/zones/web/disk1".toList := by
      decide +kernel
    exact h "rpool/zones/web" (by simp) ("db", dbConfig) (by simp) (by simp) _ hreference hbelow
  · rw [hunread]
    intro h
    exact List.cons_ne_nil _ _ h

end Cleanup

end ZoneweaverAgent.DatasetCleanup
