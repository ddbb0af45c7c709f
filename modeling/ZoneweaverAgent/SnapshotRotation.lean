import Mathlib.Algebra.Order.Ring.Unbundled.Rat
import Mathlib.Data.List.Nodup

/-!
# Pruning a rotation of snapshots

`pruneSnapshots` and `pruneSnapshotsByAge` over the snapshots `zfs list` prints of a dataset, oldest
first. A snapshot counts as one of a policy when its name begins with the policy's prefix and a
dash. The names that are returned are those for which `zfs destroy` is run.
-/

namespace ZoneweaverAgent.SnapshotRotation

abbrev Name := List Char

/-! ## The names a policy gives -/

structure Date where
  year : ℕ
  /-- `getMonth()` and `getDate() - 1` -/
  month : Fin 12
  day : Fin 31
  hours : Fin 24
  minutes : Fin 60

def pad (n : ℕ) : Name := List.replicate (2 - (Nat.toDigits 10 n).length) '0' ++ Nat.toDigits 10 n

def timestampSuffix (date : Date) : Name :=
  Nat.toDigits 10 date.year ++ pad (date.month.val + 1) ++ pad (date.day.val + 1) ++
    '-' :: (pad date.hours ++ pad date.minutes)

/-- What the names of a policy's snapshots begin with. -/
def stem (dataset policy : Name) : Name := dataset ++ '@' :: policy ++ ['-']

def Minted (dataset policy name : Name) : Prop :=
  ∃ date, name = stem dataset policy ++ timestampSuffix date

/-! ## The two ways of pruning -/

structure Snapshot where
  name : Name
  creation : ℚ

section Prune
variable (dataset policy : Name)

/-- The names that the rotation takes for the policy's. -/
def matching (snapshots : List Snapshot) : List Name :=
  (snapshots.map Snapshot.name).filter fun name => (stem dataset policy).isPrefixOf name

/-- `list` is what `zfs list` prints, `none` when it fails. -/
def pruneSnapshots (scrubIdle : Bool) (list : Option (List Snapshot)) (retention : ℕ) :
    List Name :=
  if scrubIdle then
    match list with
    | none => []
    | some snapshots =>
      let names := matching dataset policy snapshots
      names.take (names.length - retention)
  else []

def pruneSnapshotsByAge (scrubIdle : Bool) (list : Option (List Snapshot)) (cutoff : ℚ) :
    List Name :=
  if scrubIdle then
    match list with
    | none => []
    | some snapshots =>
      (snapshots.filter fun s =>
        (stem dataset policy).isPrefixOf s.name && s.creation < cutoff).map Snapshot.name
  else []

inductive Pruning
  | rotation (retention : ℕ)
  | byAge (cutoff : ℚ)

def prune (scrubIdle : Bool) (list : Option (List Snapshot)) : Pruning → List Name
  | .rotation retention => pruneSnapshots dataset policy scrubIdle list retention
  | .byAge cutoff => pruneSnapshotsByAge dataset policy scrubIdle list cutoff

/-! ## The property and the condition -/

open Classical in
/-- The policy's own snapshots, oldest first. -/
noncomputable def minted (snapshots : List Snapshot) : List Name :=
  (snapshots.map Snapshot.name).filter fun name => Minted dataset policy name

/-- Only the policy's snapshots are destroyed, and a rotation keeps the newest of them. -/
structure Confined (snapshots : List Snapshot) (kind : Pruning) (destroyed : List Name) :
    Prop where
  own : ∀ name ∈ destroyed, Minted dataset policy name
  newest : ∀ retention, kind = .rotation retention →
    ∀ name ∈ (minted dataset policy snapshots).drop
      ((minted dataset policy snapshots).length - retention), name ∉ destroyed

/-- No more names begin like the policy's than are kept, or all of them are the policy's. -/
def Unmixed (snapshots : List Snapshot) : Pruning → Prop
  | .rotation retention => (matching dataset policy snapshots).length ≤ retention ∨
      ∀ name ∈ matching dataset policy snapshots, Minted dataset policy name
  | .byAge cutoff => ∀ s ∈ snapshots, stem dataset policy <+: s.name → s.creation < cutoff →
      Minted dataset policy s.name

end Prune

/-! ## When a pruning is confined -/

section Confinement
variable {dataset policy : Name} {snapshots : List Snapshot} {scrubIdle : Bool}

theorem minted_eq_filter : minted dataset policy snapshots =
    (matching dataset policy snapshots).filter
      (fun name => @decide (Minted dataset policy name) (Classical.propDecidable _)) := by
  rw [minted, matching, List.filter_filter]
  apply List.filter_congr
  intro name _
  by_cases h : Minted dataset policy name
  · obtain ⟨date, rfl⟩ := h
    have hpre : (stem dataset policy).isPrefixOf
        (stem dataset policy ++ timestampSuffix date) = true :=
      List.isPrefixOf_iff_prefix.mpr (List.prefix_append _ _)
    rw [hpre, Bool.and_true]
  · simp [h]

/-- Of a family, the oldest are destroyed until `retention` are left. They are all good, and none of
the newest good ones is among them, just when nothing is destroyed or the family is good. -/
theorem take_iff {p : Name → Bool} {family : List Name} (hfamily : family.Nodup) (retention : ℕ) :
    ((∀ name ∈ family.take (family.length - retention), p name = true) ∧
      ∀ name ∈ (family.filter p).drop ((family.filter p).length - retention),
        name ∉ family.take (family.length - retention)) ↔
      family.length ≤ retention ∨ ∀ name ∈ family, p name = true := by
  constructor
  · rintro ⟨hown, hnewest⟩
    by_contra hnot
    rw [not_or, not_le] at hnot
    obtain ⟨hexcess, hforeign⟩ := hnot
    generalize hk : family.length - retention = k at hown hnewest
    have hsplit : family = family.take k ++ family.drop k := (List.take_append_drop k family).symm
    have hkept : (family.filter p).length < family.length := by
      rw [List.length_filter_lt_length_iff_exists]
      simpa using hforeign
    have hfilter : family.filter p = family.take k ++ (family.drop k).filter p := by
      conv_lhs => rw [hsplit]
      rw [List.filter_append, List.filter_eq_self.mpr hown]
    -- the last of those that are destroyed is one of the newest good ones
    have hlength : (family.take k).length = k := by
      rw [List.length_take]
      omega
    have hlt : (family.filter p).length - retention < (family.take k).length := by omega
    have hne : (family.take k).drop ((family.filter p).length - retention) ≠ [] := by
      intro hnil
      have := congrArg List.length hnil
      rw [List.length_drop, List.length_nil] at this
      omega
    obtain ⟨name, hname⟩ := List.exists_mem_of_ne_nil _ hne
    refine hnewest name ?_ (List.mem_of_mem_drop hname)
    generalize (family.filter p).length - retention = m at hlt hname ⊢
    rw [hfilter, List.drop_append_of_le_length hlt.le]
    exact List.mem_append_left _ hname
  · intro h
    by_cases hexcess : family.length ≤ retention
    · rw [Nat.sub_eq_zero_of_le hexcess]
      simp
    · have hall := h.resolve_left hexcess
      rw [List.filter_eq_self.mpr hall]
      refine ⟨fun name hname => hall name (List.mem_of_mem_take hname), fun name hlate hearly => ?_⟩
      have hnodup := hfamily
      rw [← List.take_append_drop (family.length - retention) family] at hnodup
      exact (List.nodup_append.mp hnodup).2.2 name hearly name hlate rfl

/-- A pruning is confined to its policy just when the pool is busy, the listing fails, or the names
it goes by are not mixed with others. -/
theorem pruning_confined (scrubIdle listed : Bool) (kind : Pruning)
    (hnodup : (snapshots.map Snapshot.name).Nodup) :
    Confined dataset policy snapshots kind
        (prune dataset policy scrubIdle (if listed then some snapshots else none) kind) ↔
      (scrubIdle = true → listed = true → Unmixed dataset policy snapshots kind) := by
  have hnone : Confined dataset policy snapshots kind [] := by
    constructor
    · intro name h
      cases h
    · intro retention _ name _ h
      cases h
  cases scrubIdle with
  | false =>
    refine ⟨fun _ h => absurd h Bool.false_ne_true, fun _ => ?_⟩
    cases kind <;> exact hnone
  | true =>
    cases listed with
    | false =>
      refine ⟨fun _ _ h => absurd h Bool.false_ne_true, fun _ => ?_⟩
      cases kind <;> exact hnone
    | true =>
      simp only [true_implies]
      cases kind with
      | rotation retention =>
        have hfamily : (matching dataset policy snapshots).Nodup := hnodup.filter _
        have hiff := take_iff (p := fun name =>
          @decide (Minted dataset policy name) (Classical.propDecidable _)) hfamily retention
        rw [← minted_eq_filter] at hiff
        simp only [decide_eq_true_eq] at hiff
        change _ ↔ (_ ∨ _)
        rw [← hiff]
        constructor
        · exact fun h => ⟨h.own, h.newest retention rfl⟩
        · rintro ⟨hown, hnewest⟩
          refine ⟨hown, fun r hr => ?_⟩
          cases hr
          exact hnewest
      | byAge cutoff =>
        constructor
        · intro h s hs hpre hold
          apply h.own
          refine List.mem_map_of_mem (List.mem_filter.mpr ⟨hs, ?_⟩)
          rw [Bool.and_eq_true, decide_eq_true_eq]
          exact ⟨List.isPrefixOf_iff_prefix.mpr hpre, hold⟩
        · intro h
          refine ⟨fun name hname => ?_, nofun⟩
          obtain ⟨s, hs, rfl⟩ := List.mem_map.mp hname
          obtain ⟨hs, hcond⟩ := List.mem_filter.mp hs
          rw [Bool.and_eq_true, decide_eq_true_eq] at hcond
          exact h s hs (List.isPrefixOf_iff_prefix.mp hcond.1) hcond.2

theorem isDigit_of_mem_pad {n : ℕ} {c : Char} (h : c ∈ pad n) : c.isDigit = true := by
  rcases List.mem_append.mp h with hzero | hdigit
  · rw [(List.mem_replicate.mp hzero).2]
    rfl
  · exact Nat.isDigit_of_mem_toDigits (by decide) (by decide) hdigit

/-- A time stamp has digits and a dash. -/
theorem mem_timestampSuffix {date : Date} {c : Char} (h : c ∈ timestampSuffix date) :
    c.isDigit = true ∨ c = '-' := by
  simp only [timestampSuffix, List.mem_append, List.mem_cons] at h
  rcases h with ((hyear | hmonth) | hday) | rfl | hhours | hminutes
  · exact .inl (Nat.isDigit_of_mem_toDigits (by decide) (by decide) hyear)
  · exact .inl (isDigit_of_mem_pad hmonth)
  · exact .inl (isDigit_of_mem_pad hday)
  · exact .inr rfl
  · exact .inl (isDigit_of_mem_pad hhours)
  · exact .inl (isDigit_of_mem_pad hminutes)

/-- The policy `daily` takes a snapshot of the policy `daily-db` for its own. -/
theorem pruning_confined_fails : ¬∀ (dataset policy : Name) (snapshots : List Snapshot)
    (scrubIdle listed : Bool) (kind : Pruning), (snapshots.map Snapshot.name).Nodup →
      Confined dataset policy snapshots kind
        (prune dataset policy scrubIdle (if listed then some snapshots else none) kind) := by
  intro h
  obtain ⟨date, hdate⟩ := (h "p/web".toList "daily".toList
    [⟨"p/web@daily-db-20260101-0000".toList, 1⟩, ⟨"p/web@daily-20260102-0000".toList, 2⟩]
    true true (.rotation 1) (by decide)).own "p/web@daily-db-20260101-0000".toList (by decide)
  have hsuffix : timestampSuffix date = "db-20260101-0000".toList :=
    (List.append_cancel_left hdate.symm)
  have hmem : 'd' ∈ timestampSuffix date := by
    rw [hsuffix]
    decide
  rcases mem_timestampSuffix hmem with hdigit | hdash
  · exact absurd hdigit (by decide)
  · exact absurd hdash (by decide)

theorem pruning_confined_alone :
    Confined "p/web".toList "daily".toList
      [⟨"p/web@daily-20260101-0000".toList, 1⟩, ⟨"p/web@before".toList, 2⟩,
        ⟨"p/web@daily-20260102-0000".toList, 3⟩] (.rotation 1)
      ["p/web@daily-20260101-0000".toList] := by
  refine (pruning_confined true true (.rotation 1) (by decide)).mpr fun _ _ => .inr ?_
  intro name hname
  have hmem : name ∈ ["p/web@daily-20260101-0000".toList, "p/web@daily-20260102-0000".toList] :=
    hname
  simp only [List.mem_cons, List.not_mem_nil, or_false] at hmem
  rcases hmem with rfl | rfl
  · exact ⟨⟨2026, 0, 0, 0, 0⟩, by decide⟩
  · exact ⟨⟨2026, 0, 1, 0, 0⟩, by decide⟩

end Confinement

end ZoneweaverAgent.SnapshotRotation
