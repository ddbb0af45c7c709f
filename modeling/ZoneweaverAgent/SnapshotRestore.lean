import ZoneweaverAgent.DatasetCleanup
import ZoneweaverAgent.DatasetTree

/-!
# Restoring a snapshot

`executeSnapshotRestoreTask` over a tree of datasets: the datasets of the zone's root that carry the
snapshot are read from the lines of `zfs list`, the disks outside the root follow unchecked, and all
are rolled back one after the other up to the first failure.
-/

namespace DatasetTree
variable {α ν δ : Type*} [DecidableEq α] [DecidableEq ν]

/-- `zfs rollback -r`: the data of a snapshot that is there; the younger ones are gone. -/
def rollback (t : Tree α ν δ) (p : List α) (s : ν) : Option (Tree α ν δ) :=
  (t.get p).bind fun d => (d.find s).map fun x =>
    t.set p { d with data := x.data, snapshots := (through s d.snapshots).1 }

theorem find_through {d : Dataset α ν δ} {s : ν} {x : Snapshot ν δ} (h : d.find s = some x) :
    (through s d.snapshots).1.find? (fun y => y.name = s) = some x := by
  have := find_moved h []
  rwa [List.append_nil] at this

theorem isSome_rollback (t : Tree α ν δ) (p : List α) (s : ν) :
    (rollback t p s).isSome = hasSnapshot t p s := by
  unfold rollback hasSnapshot
  cases t.get p with
  | none => rfl
  | some d =>
    simp only [Option.bind_some, Option.isSome_map]

theorem rollback_spec {t t' : Tree α ν δ} {p : List α} {s : ν} (h : rollback t p s = some t') :
    (∃ d x d', t.get p = some d ∧ d.find s = some x ∧ t'.get p = some d' ∧ d'.data = x.data) ∧
      (∀ q, p ≠ q → t'.get q = t.get q) ∧
      ∀ q, (t'.get q).bind (fun d => d.find s) = (t.get q).bind fun d => d.find s := by
  unfold rollback at h
  obtain ⟨d, hd, h⟩ := Option.bind_eq_some_iff.mp h
  obtain ⟨x, hx, rfl⟩ := Option.map_eq_some_iff.mp h
  refine ⟨⟨d, x, _, hd, hx, KeyedList.get_set_self _ _ _, rfl⟩,
    fun q hq => KeyedList.get_set_of_ne _ _ hq, fun q => ?_⟩
  by_cases hq : p = q
  · subst hq
    rw [KeyedList.get_set_self, hd, Option.bind_some, Option.bind_some, hx]
    exact find_through hx
  · rw [KeyedList.get_set_of_ne _ _ hq]

end DatasetTree

namespace ZoneweaverAgent.SnapshotRestore
open DatasetTree
open DatasetCleanup (collectZoneDiskDatasets)
open PathTree (AtOrBelow)

abbrev Path := List Char
abbrev ZfsTree (Data : Type) := Tree Char Path Data

structure Targets where
  root : Option Path
  externals : List Path

/-- `zonepath.replace(/^\/+/u, '').replace(/\/path$/u, '')` -/
def rootDataset (zonepath : String) : Path :=
  let name := zonepath.toList.dropWhile (· = '/')
  if "/path".toList.isSuffixOf name then name.take (name.length - 5) else name

/-- The root of a zonepath; an empty one counts as none. -/
def rootOf (zoneConfig : Json) : Option Path :=
  (((zoneConfig.field "zonepath").bind Json.text?).map rootDataset).filter (· ≠ [])

variable (host : DatasetCleanup.Host)

/-- The datasets of the disks, each once. -/
def diskDatasets (zoneConfig : Json) : Option (List Path) :=
  (collectZoneDiskDatasets host zoneConfig).map fun ds => (ds.map String.toList).eraseDups

def inTree (root : Option Path) (dataset : Path) : Bool :=
  root.any fun r => decide (AtOrBelow '/' r dataset)

def collectSnapshotTargets (zoneConfig : Json) : Option Targets :=
  (diskDatasets host zoneConfig).map fun ds =>
    ⟨rootOf zoneConfig, ds.filter fun dataset => !inTree (rootOf zoneConfig) dataset⟩

/-- `none` when it throws. -/
def resolveTargets (zoneConfig : Option Json) : Option Targets :=
  (zoneConfig.bind (collectSnapshotTargets host)).filter fun targets =>
    targets.root.isSome || !targets.externals.isEmpty

variable {Data : Type}

/-- The lines of `zfs list -H -t snapshot -o name -r`. -/
def snapshotLines (tree : ZfsTree Data) (root : Path) : List Path :=
  (tree.filter fun e => decide (AtOrBelow '/' root e.1)).flatMap fun e =>
    e.2.snapshots.map fun x => e.1 ++ '@' :: x.name

def carriers (snapshotName : Path) (lines : List Path) : List Path :=
  (lines.filter fun name => ('@' :: snapshotName).isSuffixOf name).map fun name =>
    name.take (name.length - (snapshotName.length + 1))

structure Result (Data : Type) where
  success : Bool
  /-- the datasets that were rolled back -/
  performed : List Path
  tree : ZfsTree Data

section Task
-- whether a rollback works where the snapshot is there, and whether `zfs list` does
variable (rollsBack : Path → Bool) (listed : Bool) (snapshotName : Path)

def rollbackAll : List Path → ZfsTree Data → Result Data
  | [], tree => ⟨true, [], tree⟩
  | dataset :: rest, tree =>
    match rollsBack dataset, rollback tree dataset snapshotName with
    | true, some tree' =>
      let r := rollbackAll rest tree'
      { r with performed := dataset :: r.performed }
    | _, _ => ⟨false, [], tree⟩

def restoreDatasets (targets : Targets) (tree : ZfsTree Data) : List Path :=
  (match targets.root with
    | some root => if listed then carriers snapshotName (snapshotLines tree root) else []
    | none => []) ++ targets.externals

/-- `discards` says whether a suspend checkpoint, if there is one, is discarded without an error. -/
def executeSnapshotRestoreTask (running discards : Bool) (zoneConfig : Option Json)
    (tree : ZfsTree Data) : Result Data :=
  if running then ⟨false, [], tree⟩
  else
    match resolveTargets host zoneConfig with
    | none => ⟨false, [], tree⟩
    | some targets =>
      let datasets := restoreDatasets listed snapshotName targets tree
      if datasets = [] then ⟨false, [], tree⟩
      else
        let r := rollbackAll rollsBack snapshotName datasets tree
        { r with success := r.success && discards }

end Task

/-! ## All or nothing -/

def AtSnapshot (before after : ZfsTree Data) (snapshotName dataset : Path) : Prop :=
  ∃ x d, (before.get dataset).bind (fun d => d.find snapshotName) = some x ∧
    after.get dataset = some d ∧ d.data = x.data

section Property
variable (rollsBack : Path → Bool) (listed : Bool) (snapshotName : Path) (running discards : Bool)
variable (zoneConfig : Option Json) (tree : ZfsTree Data)

/-- The disks the machine references. -/
def references : List Path := (zoneConfig.bind (diskDatasets host)).getD []

structure AllOrNothing (r : Result Data) : Prop where
  targets : r.performed ≠ [] → ∀ targets ∈ resolveTargets host zoneConfig,
    ∀ d ∈ restoreDatasets listed snapshotName targets tree, hasSnapshot tree d snapshotName = true
  disks : ∀ d ∈ references host zoneConfig, hasSnapshot tree d snapshotName = false →
    r.performed = []
  restored : r.success = true → ∀ d ∈ references host zoneConfig,
    AtSnapshot tree r.tree snapshotName d

/-- When the first rollback works, every referenced disk has the snapshot; and when all work, the
root was listed, or the disks below it are at the snapshot already. -/
def Whole : Prop :=
  running = false → ∀ targets ∈ resolveTargets host zoneConfig, ∀ d rest,
    restoreDatasets listed snapshotName targets tree = d :: rest →
      rollsBack d = true → hasSnapshot tree d snapshotName = true →
        (∀ d' ∈ references host zoneConfig, hasSnapshot tree d' snapshotName = true) ∧
          (discards = true → (∀ d' ∈ d :: rest, rollsBack d' = true) → listed = true ∨
            ∀ d' ∈ references host zoneConfig, inTree targets.root d' = true →
              AtSnapshot tree tree snapshotName d')

/-- Names have no `@`, and each names one dataset. -/
structure Proper : Prop where
  nodup : tree.keys.Nodup
  names : ∀ e ∈ tree, '@' ∉ e.1 ∧ ∀ x ∈ e.2.snapshots, '@' ∉ x.name

end Property

/-! ## The lines of the listing -/

theorem isSuffix_line {p s snap : Path} (hp : '@' ∉ p) (hs : '@' ∉ s) :
    '@' :: snap <:+ p ++ '@' :: s ↔ s = snap := by
  constructor
  · rintro ⟨u, hu⟩
    rcases List.append_eq_append_iff.mp hu with ⟨a, hpa, ha⟩ | ⟨a, -, ha⟩
    · cases a with
      | nil => exact (List.cons.inj ha).2.symm
      | cons c a =>
        obtain ⟨rfl, -⟩ := List.cons.inj ha
        exact absurd (hpa ▸ List.mem_append_right _ List.mem_cons_self) hp
    · cases a with
      | nil => exact (List.cons.inj ha).2
      | cons c a =>
        obtain ⟨-, hrest⟩ := List.cons.inj ha
        exact absurd (hrest ▸ List.mem_append_right _ List.mem_cons_self) hs
  · rintro rfl
    exact ⟨p, rfl⟩

variable {tree : ZfsTree Data}

theorem mem_carriers {snap root d : Path} (h : Proper tree) :
    d ∈ carriers snap (snapshotLines tree root) ↔
      AtOrBelow '/' root d ∧ hasSnapshot tree d snap = true := by
  have htake : ∀ p s : Path, (p ++ '@' :: s).take ((p ++ '@' :: s).length - (s.length + 1)) = p := by
    intro p s
    rw [List.length_append, List.length_cons, Nat.add_sub_cancel, List.take_left]
  constructor
  · intro hmem
    obtain ⟨line, hline, rfl⟩ := List.mem_map.mp hmem
    obtain ⟨hline, hsuffix⟩ := List.mem_filter.mp hline
    obtain ⟨⟨p, d⟩, he, hline⟩ := List.mem_flatMap.mp hline
    obtain ⟨x, hx, rfl⟩ := List.mem_map.mp hline
    obtain ⟨he, hroot⟩ := List.mem_filter.mp he
    have hnames := h.names _ he
    have hsnap := (isSuffix_line hnames.1 (hnames.2 x hx)).mp
      (List.isSuffixOf_iff_suffix.mp hsuffix)
    subst hsnap
    rw [htake]
    refine ⟨of_decide_eq_true hroot, ?_⟩
    rw [hasSnapshot, KeyedList.get_of_mem h.nodup he, Option.bind_some, Dataset.find,
      List.find?_isSome]
    exact ⟨x, hx, by simp⟩
  · rintro ⟨hroot, hsnap⟩
    obtain ⟨x, hx⟩ := Option.isSome_iff_exists.mp hsnap
    obtain ⟨dataset, hget, hfind⟩ := Option.bind_eq_some_iff.mp hx
    obtain ⟨hx, hname⟩ := find_eq_some hfind
    have he := KeyedList.mem_of_get hget
    have hnames := h.names _ he
    refine List.mem_map.mpr ⟨d ++ '@' :: x.name, List.mem_filter.mpr ⟨?_, ?_⟩, ?_⟩
    · refine List.mem_flatMap.mpr ⟨_, List.mem_filter.mpr ⟨he, decide_eq_true hroot⟩, ?_⟩
      exact List.mem_map_of_mem hx
    · exact List.isSuffixOf_iff_suffix.mpr ((isSuffix_line hnames.1 (hnames.2 x hx)).mpr hname)
    · rw [← hname, htake]

/-! ## One rollback after the other -/

section Rollbacks
variable {rollsBack : Path → Bool} {snap : Path}

theorem hasSnapshot_of_find {t t' : ZfsTree Data} {q : Path}
    (h : (t'.get q).bind (fun d => d.find snap) = (t.get q).bind fun d => d.find snap) :
    hasSnapshot t' q snap = hasSnapshot t q snap := by
  rw [hasSnapshot, h, hasSnapshot]

theorem rollbackAll_spec (ds : List Path) (tree : ZfsTree Data) :
    let r := rollbackAll rollsBack snap ds tree
    (r.success = true ↔ ∀ d ∈ ds, rollsBack d = true ∧ hasSnapshot tree d snap = true) ∧
    (r.success = true → r.performed = ds) ∧
    (∀ d ∈ r.performed, AtSnapshot tree r.tree snap d) ∧
    ∀ d, d ∉ r.performed → r.tree.get d = tree.get d := by
  induction ds generalizing tree with
  | nil => simp [rollbackAll]
  | cons d ds ih =>
    have hfails : ¬(rollsBack d = true ∧ hasSnapshot tree d snap = true) →
        ¬∀ d' ∈ d :: ds, rollsBack d' = true ∧ hasSnapshot tree d' snap = true :=
      fun h hall => h (hall d List.mem_cons_self)
    unfold rollbackAll
    have hsome := isSome_rollback tree d snap
    cases hworks : rollsBack d with
    | false => simpa [hworks] using hfails
    | true =>
      cases hroll : rollback tree d snap with
      | none =>
        rw [hroll] at hsome
        simpa [← hsome] using hfails
      | some tree' =>
        rw [hroll] at hsome
        obtain ⟨⟨d₀, x, d₁, hd₀, hx, hd₁, hdata⟩, hother, hfind⟩ := rollback_spec hroll
        obtain ⟨hsuccess, hperformed, hat, hstill⟩ := ih tree'
        simp only
        refine ⟨?_, fun h => by rw [hperformed h], fun p hp => ?_, fun p hp => ?_⟩
        · rw [hsuccess, List.forall_mem_cons]
          simp only [hasSnapshot_of_find (hfind _), hworks, ← hsome, Option.isSome_some, true_and]
        · by_cases hmem : p ∈ (rollbackAll rollsBack snap ds tree').performed
          · obtain ⟨y, d', hy, hd', hydata⟩ := hat p hmem
            exact ⟨y, d', (hfind p).symm.trans hy, hd', hydata⟩
          · have hpd : p = d := by
              rcases List.mem_cons.mp hp with heq | hmem'
              · exact heq
              · exact absurd hmem' hmem
            subst hpd
            refine ⟨x, d₁, ?_, (hstill p hmem).trans hd₁, hdata⟩
            rw [hd₀, Option.bind_some, hx]
        · rw [List.mem_cons, not_or] at hp
          rw [hstill p hp.2]
          exact hother p (Ne.symm hp.1)

theorem performed_eq_nil (ds : List Path) (tree : ZfsTree Data) :
    (rollbackAll rollsBack snap ds tree).performed = [] ↔
      ∀ d rest, ds = d :: rest → rollsBack d = true → hasSnapshot tree d snap = false := by
  cases ds with
  | nil => simp [rollbackAll]
  | cons d ds =>
    have hsome := isSome_rollback tree d snap
    unfold rollbackAll
    cases hworks : rollsBack d with
    | false => simp [hworks]
    | true =>
      cases hroll : rollback tree d snap with
      | none =>
        rw [hroll] at hsome
        simp [hworks, ← hsome]
      | some tree' =>
        rw [hroll] at hsome
        simp [hworks, ← hsome]

end Rollbacks

/-! ## When a restore is all or nothing -/

section Restore
variable {host : DatasetCleanup.Host} {rollsBack : Path → Bool} {listed running discards : Bool}
variable {snapshotName : Path} {zoneConfig : Option Json} {targets : Targets}

theorem resolved (h : resolveTargets host zoneConfig = some targets) :
    ∃ config, zoneConfig = some config ∧ collectSnapshotTargets host config = some targets := by
  obtain ⟨h, -⟩ := Option.filter_eq_some_iff.mp h
  exact Option.bind_eq_some_iff.mp h

/-- A referenced disk lies below the root or is one of the externals. -/
theorem mem_references (h : resolveTargets host zoneConfig = some targets) {d : Path} :
    (d ∈ targets.externals ↔ d ∈ references host zoneConfig ∧ inTree targets.root d = false) := by
  obtain ⟨config, rfl, hcollect⟩ := resolved h
  obtain ⟨ds, hds, rfl⟩ := Option.map_eq_some_iff.mp hcollect
  simp only [references, Option.bind_some, hds, Option.getD_some, List.mem_filter,
    Bool.not_eq_true']

theorem mem_restoreDatasets (hproper : Proper tree) {d : Path} :
    d ∈ restoreDatasets listed snapshotName targets tree ↔
      listed = true ∧ inTree targets.root d = true ∧ hasSnapshot tree d snapshotName = true ∨
        d ∈ targets.externals := by
  unfold restoreDatasets inTree
  rw [List.mem_append]
  cases targets.root with
  | none => simp
  | some root =>
    cases listed with
    | false => simp
    | true => simp [mem_carriers hproper]

/-- A restore is all or nothing just when, the first rollback working, every disk has the snapshot,
and no disk below a root that could not be listed is left behind. -/
theorem restore_all_or_nothing (hproper : Proper tree) :
    AllOrNothing host listed snapshotName zoneConfig tree
        (executeSnapshotRestoreTask host rollsBack listed snapshotName running discards zoneConfig
          tree) ↔
      Whole host rollsBack listed snapshotName running discards zoneConfig tree := by
  have hnothing : AllOrNothing host listed snapshotName zoneConfig tree ⟨false, [], tree⟩ :=
    ⟨fun h => absurd rfl h, fun _ _ _ => rfl, fun h => absurd h Bool.false_ne_true⟩
  unfold executeSnapshotRestoreTask Whole
  cases running with
  | true => exact ⟨fun _ h => absurd h.symm Bool.false_ne_true, fun _ => hnothing⟩
  | false =>
    simp only [true_implies, Bool.false_eq_true, if_false]
    cases hresolve : resolveTargets host zoneConfig with
    | none => exact ⟨fun _ => nofun, fun _ => hnothing⟩
    | some targets =>
      simp only [Option.mem_some_iff, forall_eq']
      have hdatasets := @mem_restoreDatasets _ tree listed snapshotName targets hproper
      generalize hds : restoreDatasets listed snapshotName targets tree = datasets at hdatasets ⊢
      cases datasets with
      | nil => exact ⟨fun _ => nofun, fun _ => hnothing⟩
      | cons d rest =>
        rw [if_neg (List.cons_ne_nil d rest)]
        have hnil := @performed_eq_nil _ rollsBack snapshotName (d :: rest) tree
        obtain ⟨hsuccess, hperformed, hat, hstill⟩ :=
          @rollbackAll_spec _ rollsBack snapshotName (d :: rest) tree
        generalize rollbackAll rollsBack snapshotName (d :: rest) tree = r
          at hnil hsuccess hperformed hat hstill ⊢
        by_cases hbegins : rollsBack d = true ∧ hasSnapshot tree d snapshotName = true
        · have hne : r.performed ≠ [] := by
            intro heq
            have := hnil.mp heq d rest rfl hbegins.1
            rw [hbegins.2] at this
            cases this
          constructor
          · rintro ⟨htargets, hdisks, hrestored⟩ d' rest' hcons - -
            cases hcons
            have hall : ∀ p ∈ references host zoneConfig,
                hasSnapshot tree p snapshotName = true := by
              intro p hp
              by_contra hsnap
              exact hne (hdisks p hp (by simpa using hsnap))
            refine ⟨hall, fun hdiscards hworks => ?_⟩
            have hsucceeds : r.success = true := by
              refine hsuccess.mpr fun p hp => ⟨hworks p hp, ?_⟩
              exact htargets hne targets hresolve p (hds ▸ hp)
            by_cases hlisted : listed = true
            · exact .inl hlisted
            · refine .inr fun p hp hin => ?_
              obtain ⟨x, dp, hx, hdp, hdata⟩ := hrestored
                (Bool.and_eq_true_iff.mpr ⟨hsucceeds, hdiscards⟩) p hp
              have hout : p ∉ r.performed := by
                rw [hperformed hsucceeds, hdatasets]
                rintro (h | h)
                · exact hlisted h.1
                · have := ((mem_references hresolve).mp h).2
                  rw [hin] at this
                  cases this
              exact ⟨x, dp, hx, (hstill p hout).symm.trans hdp, hdata⟩
          · intro hwhole
            obtain ⟨hall, hgoes⟩ := hwhole d rest rfl hbegins.1 hbegins.2
            refine ⟨fun _ targets' htargets' p hp => ?_, fun p hp hsnap => ?_, fun hsucceeds p hp => ?_⟩
            · cases hresolve.symm.trans htargets'
              rw [hds, hdatasets] at hp
              rcases hp with h | h
              · exact h.2.2
              · exact hall p ((mem_references hresolve).mp h).1
            · rw [hall p hp] at hsnap
              cases hsnap
            · obtain ⟨hsucceeds, hdiscards⟩ := Bool.and_eq_true_iff.mp hsucceeds
              by_cases hmem : p ∈ d :: rest
              · exact hat p ((hperformed hsucceeds).symm ▸ hmem)
              · rw [hdatasets] at hmem
                have hin : inTree targets.root p = true := by
                  by_contra hin
                  exact hmem (.inr ((mem_references hresolve).mpr ⟨hp, by simpa using hin⟩))
                rcases hgoes hdiscards fun q hq => (hsuccess.mp hsucceeds q hq).1 with hlisted | hold
                · exact absurd (.inl ⟨hlisted, hin, hall p hp⟩) hmem
                · obtain ⟨x, dp, hx, hdp, hdata⟩ := hold p hp hin
                  have hout : p ∉ r.performed := by
                    rw [hperformed hsucceeds, hdatasets]
                    exact hmem
                  exact ⟨x, dp, hx, (hstill p hout).trans hdp, hdata⟩
        · have heq : r.performed = [] := by
            refine hnil.mpr fun d' rest' hcons hworks => ?_
            cases hcons
            by_contra hsnap
            exact hbegins ⟨hworks, by simpa using hsnap⟩
          have hfails : r.success = false := by
            by_contra hs
            exact hbegins (hsuccess.mp (by simpa using hs) d List.mem_cons_self)
          constructor
          · rintro - d' rest' hcons hworks hsnap
            cases hcons
            exact absurd ⟨hworks, hsnap⟩ hbegins
          · intro _
            refine ⟨fun h => absurd heq h, fun _ _ _ => heq, fun h => ?_⟩
            rw [hfails] at h
            exact absurd h Bool.false_ne_true

/-- A data disk on another pool has no such snapshot: the root has been rolled back before that is
found out. -/
theorem restore_all_or_nothing_fails : ¬∀ (host : DatasetCleanup.Host) (rollsBack : Path → Bool)
    (listed : Bool) (snapshotName : Path) (running discards : Bool) (zoneConfig : Option Json)
    (tree : ZfsTree ℕ), Proper tree → AllOrNothing host listed snapshotName zoneConfig tree
      (executeSnapshotRestoreTask host rollsBack listed snapshotName running discards zoneConfig
        tree) := by
  intro h
  have hlost := h ⟨fun _ => none, none, fun _ => "", fun _ => none, fun _ => false, fun _ => none,
    false, false⟩ (fun _ => true) true "s".toList false true
    (some (.obj [("zonepath", .str "/p/web/path"), ("disk0", .str "q/data")]))
    [("p/web".toList, ⟨2, [⟨"s".toList, 1⟩], none⟩), ("q/data".toList, ⟨3, [], none⟩)]
    ⟨by decide, by decide⟩
  have hnil := hlost.disks "q/data".toList (by decide +kernel) (by decide)
  revert hnil
  decide +kernel

/-- Both disks have the snapshot. -/
theorem restore_all_or_nothing_both :
    let tree : ZfsTree ℕ := [("p/web".toList, ⟨2, [⟨"s".toList, 1⟩], none⟩),
      ("q/data".toList, ⟨4, [⟨"s".toList, 3⟩], none⟩)]
    let zoneConfig : Option Json :=
      some (.obj [("zonepath", .str "/p/web/path"), ("disk0", .str "q/data")])
    let host : DatasetCleanup.Host := ⟨fun _ => none, none, fun _ => "", fun _ => none,
      fun _ => false, fun _ => none, false, false⟩
    AllOrNothing host true "s".toList zoneConfig tree (executeSnapshotRestoreTask host
      (fun _ => true) true "s".toList false true zoneConfig tree) := by
  intro tree zoneConfig host
  refine (restore_all_or_nothing ⟨by decide, by decide⟩).mpr ?_
  rintro - targets - d rest - - -
  refine ⟨?_, fun _ _ => .inl rfl⟩
  have href : references host zoneConfig = ["q/data".toList] := by decide +kernel
  rw [href]
  decide

end Restore

end ZoneweaverAgent.SnapshotRestore
