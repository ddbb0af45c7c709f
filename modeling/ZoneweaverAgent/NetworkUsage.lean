import Mathlib.Algebra.BigOperators.Group.List.Basic
import Mathlib.Algebra.GroupWithZero.Nat
import Mathlib.Data.Int.Order.Basic
import Mathlib.Data.List.Perm.Basic
import ZoneweaverAgent.KeyedList
import ZoneweaverAgent.Transition

/-!
# Network usage records

Each collection reads the counters of every link and stores one record a link, with the difference
to an earlier record of that link. The earlier records come from one query: the newest rows that are
older than a cutoff, three for each interface of known speed.
-/

namespace ZoneweaverAgent.NetworkUsage
open Transition

inductive Field
  | ipackets
  | rbytes
  | ierrors
  | opackets
  | obytes
  | oerrors

instance {P : Field → Prop} [DecidablePred P] : Decidable (∀ field, P field) :=
  decidable_of_iff (P .ipackets ∧ P .rbytes ∧ P .ierrors ∧ P .opackets ∧ P .obytes ∧ P .oerrors)
    ⟨fun ⟨h₁, h₂, h₃, h₄, h₅, h₆⟩ field => by cases field <;> assumption,
      fun h => ⟨h _, h _, h _, h _, h _, h _⟩⟩

structure PerCounter (α : Type*) where
  ipackets : α
  rbytes : α
  ierrors : α
  opackets : α
  obytes : α
  oerrors : α
deriving DecidableEq

namespace PerCounter
variable {α β γ : Type*}

def get (counters : PerCounter α) : Field → α
  | .ipackets => counters.ipackets
  | .rbytes => counters.rbytes
  | .ierrors => counters.ierrors
  | .opackets => counters.opackets
  | .obytes => counters.obytes
  | .oerrors => counters.oerrors

def const (a : α) : PerCounter α := ⟨a, a, a, a, a, a⟩

def zipWith (f : α → β → γ) (a : PerCounter α) (b : PerCounter β) : PerCounter γ :=
  ⟨f a.ipackets b.ipackets, f a.rbytes b.rbytes, f a.ierrors b.ierrors, f a.opackets b.opackets,
    f a.obytes b.obytes, f a.oerrors b.oerrors⟩

@[simp] theorem get_const (a : α) (field : Field) : (const a).get field = a := by
  cases field <;> rfl

@[simp] theorem get_zipWith (f : α → β → γ) (a : PerCounter α) (b : PerCounter β) (field : Field) :
    (zipWith f a b).get field = f (a.get field) (b.get field) := by
  cases field <;> rfl

end PerCounter

/-- A stored row; a counter's text is read back as the number it says. -/
structure Record where
  link : String
  counters : PerCounter ℕ
  deltas : PerCounter (Option ℕ)
  scanTimestamp : ℤ
deriving DecidableEq

/-- The counters of one link, the time at which its record is made, and whether the database takes
the record. -/
structure Stat where
  link : String
  counters : PerCounter ℕ
  time : ℤ
  stored : Bool

/-- A row of the interface scans; a speed of 0 counts as unknown. -/
structure Interface where
  link : String
  speed : ℕ
  ifaceClass : String

/-- `interfaces` are the newest rows of the scans, none if they could not be read; `previous` is the
order in which the database sorts the earlier records, none if that query fails. -/
structure Collection where
  stats : List Stat
  interfaces : Option (List Interface)
  now : ℤ
  previous : Option (List Record)

def getInterfaceConfigs (interfaces : Option (List Interface)) : KeyedList String (ℕ × String) :=
  (interfaces.getD []).foldl (fun speeds iface =>
    if !speeds.has iface.link && iface.speed ≠ 0 then
      speeds.set iface.link (iface.speed, iface.ifaceClass)
    else speeds) []

/-- `intervals.network_usage || 20`, in seconds -/
def collectionInterval (configured : Option ℤ) : ℤ := (configured.filter (· ≠ 0)).getD 20

def minPreviousAge (configured : Option ℤ) (now : ℤ) : ℤ :=
  now - (collectionInterval configured - 2) * 1000

/-- The rows the query for earlier records selects, before its limit. -/
def olderRows (configured : Option ℤ) (now : ℤ) (rows : List Record) : List Record :=
  rows.filter fun row => row.scanTimestamp < minPreviousAge configured now

/-- A database's answer to `ORDER BY scan_timestamp DESC`; rows of one time come in any order. -/
def IsNewestFirst (rows sorted : List Record) : Prop :=
  sorted.Perm rows ∧ sorted.Pairwise fun a b => b.scanTimestamp ≤ a.scanTimestamp

instance (rows sorted : List Record) : Decidable (IsNewestFirst rows sorted) :=
  inferInstanceAs (Decidable (_ ∧ _))

/-- The first of the found rows for a link. -/
def getPreviousUsageStats (interfaceCount : ℕ) (sorted : Option (List Record)) (link : String) :
    Option Record :=
  ((sorted.getD []).take (interfaceCount * 3)).find? fun row => row.link = link

def calculateDeltaValues (current : PerCounter ℕ) (previous : Option (PerCounter ℕ)) :
    PerCounter (Option ℕ) :=
  match previous with
  | none => .const none
  | some previous => .zipWith (fun current previous => some (current - previous)) current previous

def createUsageRecord (stat : Stat) (previous : Option Record) : Record where
  link := stat.link
  counters := stat.counters
  deltas := calculateDeltaValues stat.counters (previous.map Record.counters)
  scanTimestamp := stat.time

/-- `history` records every row ever stored, in order. -/
structure State where
  rows : List Record
  history : List Record

inductive Label
  | collect (c : Collection)
  | destroy (kept : Record → Bool)

section Collector
variable (configured : Option ℤ)

def previousOf (c : Collection) (link : String) : Option Record :=
  getPreviousUsageStats (getInterfaceConfigs c.interfaces).length c.previous link

def usageRecords (c : Collection) : List Record :=
  (c.stats.filter Stat.stored).map fun stat => createUsageRecord stat (previousOf c stat.link)

def step (s : State) : Label → Option State
  | .collect c =>
    if ∀ sorted ∈ c.previous, IsNewestFirst (olderRows configured c.now s.rows) sorted then
      some ⟨s.rows ++ usageRecords c, s.history ++ usageRecords c⟩
    else none
  | .destroy kept => some { s with rows := s.rows.filter kept }

def ofLink (link : String) (records : List Record) : List Record :=
  records.filter fun record => record.link = link

/-- Each link is listed once, with counters that have not gone back. -/
def Counting (s : State) : Label → Prop
  | .collect c => (c.stats.map Stat.link).Nodup ∧ ∀ stat ∈ c.stats,
      ∀ last ∈ (ofLink stat.link s.history).getLast?, ∀ field,
        last.counters.get field ≤ stat.counters.get field
  | .destroy _ => True

instance (s : State) : (l : Label) → Decidable (Counting s l)
  | .collect c => inferInstanceAs (Decidable ((c.stats.map Stat.link).Nodup ∧ ∀ stat ∈ c.stats,
      ∀ last ∈ (ofLink stat.link s.history).getLast?, ∀ field,
        last.counters.get field ≤ stat.counters.get field))
  | .destroy _ => .isTrue trivial

/-- The first counter of a link and all its deltas make the last counter. -/
def Telescopes (s : State) : Prop :=
  ∀ link field, ∀ first ∈ (ofLink link s.history).head?, ∀ last ∈ (ofLink link s.history).getLast?,
    first.counters.get field +
      ((ofLink link s.history).map fun record => (record.deltas.get field).getD 0).sum =
        last.counters.get field

/-- The last record of a link is one that the query finds first: still in the table, older than the
cutoff, newer than the link's other rows, and within the limit among the rows at least as new. -/
structure Found (s : State) (c : Collection) (last : Record) : Prop where
  answered : c.previous.isSome = true
  kept : last ∈ s.rows
  old : last.scanTimestamp < minPreviousAge configured c.now
  newest : ∀ row ∈ s.rows, row.link = last.link → row.scanTimestamp < last.scanTimestamp ∨ row = last
  within : ((olderRows configured c.now s.rows).filter fun row =>
    last.scanTimestamp ≤ row.scanTimestamp).length ≤ (getInterfaceConfigs c.interfaces).length * 3

def Fits (s : State) : Label → Prop
  | .collect c => ∀ stat ∈ c.stats, stat.stored = true →
      ∀ last ∈ (ofLink stat.link s.history).getLast?, Found configured s c last
  | .destroy _ => True

instance (s : State) (c : Collection) (last : Record) : Decidable (Found configured s c last) :=
  decidable_of_iff (c.previous.isSome = true ∧ last ∈ s.rows ∧
      last.scanTimestamp < minPreviousAge configured c.now ∧
      (∀ row ∈ s.rows, row.link = last.link →
        row.scanTimestamp < last.scanTimestamp ∨ row = last) ∧
      ((olderRows configured c.now s.rows).filter fun row =>
        last.scanTimestamp ≤ row.scanTimestamp).length ≤
          (getInterfaceConfigs c.interfaces).length * 3)
    ⟨fun ⟨h₁, h₂, h₃, h₄, h₅⟩ => ⟨h₁, h₂, h₃, h₄, h₅⟩,
      fun h => ⟨h.answered, h.kept, h.old, h.newest, h.within⟩⟩

instance (s : State) : (l : Label) → Decidable (Fits configured s l)
  | .collect c => inferInstanceAs (Decidable (∀ stat ∈ c.stats, stat.stored = true →
      ∀ last ∈ (ofLink stat.link s.history).getLast?, Found configured s c last))
  | .destroy _ => .isTrue trivial

end Collector

section Runs
variable {configured : Option ℤ} {s s' : State} {c : Collection} {last : Record}

theorem previousOf_found (h : Found configured s c last) {sorted : List Record}
    (hprevious : c.previous = some sorted)
    (hsorted : IsNewestFirst (olderRows configured c.now s.rows) sorted) :
    previousOf c last.link = some last := by
  obtain ⟨hperm, hdesc⟩ := hsorted
  have hmem : last ∈ sorted :=
    hperm.mem_iff.mpr (List.mem_filter.mpr ⟨h.kept, by simpa using h.old⟩)
  obtain ⟨newer, older, hsplit, hnewer⟩ := List.eq_append_cons_of_mem hmem
  have hge : ∀ row ∈ newer, last.scanTimestamp ≤ row.scanTimestamp := by
    intro row hrow
    rw [hsplit] at hdesc
    exact (List.pairwise_append.mp hdesc).2.2 row hrow last List.mem_cons_self
  -- the rows before `last` and `last` itself are all counted by the bound
  have hlength : newer.length + 1 ≤ (getInterfaceConfigs c.interfaces).length * 3 := by
    refine Nat.le_trans ?_ h.within
    have hcount := (hperm.filter fun row => decide (last.scanTimestamp ≤ row.scanTimestamp)).length_eq
    rw [← hcount, hsplit, List.filter_append, List.filter_eq_self.mpr fun row hrow => by
      simpa using hge row hrow, List.filter_cons_of_pos (by simp), List.length_append,
      List.length_cons]
    omega
  have hother : ∀ row ∈ newer, ¬ (decide (row.link = last.link) = true) := by
    intro row hrow hlink
    have hrows : row ∈ s.rows :=
      (List.mem_filter.mp (hperm.mem_iff.mp (hsplit ▸ List.mem_append_left _ hrow))).1
    rcases h.newest row hrows (by simpa using hlink) with hless | rfl
    · exact absurd (hge row hrow) (not_le.mpr hless)
    · exact hnewer hrow
  unfold previousOf getPreviousUsageStats
  rw [hprevious, Option.getD_some, hsplit, List.take_append, List.find?_append,
    List.take_of_length_le (by omega), List.find?_eq_none.mpr hother, Option.none_or]
  obtain ⟨room, hroom⟩ : ∃ room,
      (getInterfaceConfigs c.interfaces).length * 3 - newer.length = room + 1 :=
    ⟨(getInterfaceConfigs c.interfaces).length * 3 - newer.length - 1, by omega⟩
  rw [hroom, List.take_succ_cons, List.find?_cons_of_pos (by simp)]

/-- A collection stores one record of a link or none. -/
theorem ofLink_usageRecords (hnodup : (c.stats.map Stat.link).Nodup) (link : String) :
    ofLink link (usageRecords c) = [] ∨ ∃ stat ∈ c.stats, stat.stored = true ∧ stat.link = link ∧
      ofLink link (usageRecords c) = [createUsageRecord stat (previousOf c link)] := by
  have hrecords : ofLink link (usageRecords c) =
      ((c.stats.filter Stat.stored).filter fun stat => stat.link = link).map
        fun stat => createUsageRecord stat (previousOf c stat.link) := by
    rw [ofLink, usageRecords, List.filter_map]
    rfl
  have hdistinct : (((c.stats.filter Stat.stored).filter fun stat => stat.link = link).map
      Stat.link).Nodup :=
    hnodup.sublist ((List.filter_sublist.trans List.filter_sublist).map Stat.link)
  have hmem : ∀ stat ∈ (c.stats.filter Stat.stored).filter fun stat => stat.link = link,
      stat ∈ c.stats ∧ stat.stored = true ∧ stat.link = link := by
    intro stat hstat
    obtain ⟨hstat, hlink⟩ := List.mem_filter.mp hstat
    obtain ⟨hstat, hstored⟩ := List.mem_filter.mp hstat
    exact ⟨hstat, hstored, by simpa using hlink⟩
  rw [hrecords]
  generalize (c.stats.filter Stat.stored).filter (fun stat => stat.link = link) = same at hdistinct hmem
  cases same with
  | nil => exact .inl rfl
  | cons stat rest =>
    obtain ⟨hstat, hstored, hlink⟩ := hmem stat List.mem_cons_self
    cases rest with
    | nil => exact .inr ⟨stat, hstat, hstored, hlink, by rw [List.map_singleton, hlink]⟩
    | cons stat' rest =>
      have hlink' := (hmem stat' (List.mem_cons_of_mem _ List.mem_cons_self)).2.2
      rw [List.map_cons, List.map_cons, hlink, hlink'] at hdistinct
      exact absurd List.mem_cons_self (List.nodup_cons.mp hdistinct).1

theorem getPreviousUsageStats_mem {interfaceCount : ℕ} {sorted : List Record} {link : String}
    {row : Record} (h : getPreviousUsageStats interfaceCount (some sorted) link = some row) :
    row ∈ sorted ∧ row.link = link := by
  unfold getPreviousUsageStats at h
  exact ⟨List.mem_of_mem_take (List.mem_of_find?_eq_some h), by simpa using List.find?_some h⟩

/-- A link without stored rows has no earlier record. -/
theorem previousOf_none {link : String} (hnone : ofLink link s.history = [])
    (hrows : ∀ row ∈ s.rows, row ∈ s.history)
    (hanswer : ∀ sorted ∈ c.previous, IsNewestFirst (olderRows configured c.now s.rows) sorted) :
    previousOf c link = none := by
  unfold previousOf
  cases hprevious : c.previous with
  | none => rw [getPreviousUsageStats, Option.getD_none, List.take_nil, List.find?_nil]
  | some sorted =>
    by_contra hsome
    obtain ⟨row, hrow⟩ := Option.ne_none_iff_exists'.mp hsome
    obtain ⟨hmem, hlink⟩ := getPreviousUsageStats_mem hrow
    have hold := (hanswer sorted hprevious).1.mem_iff.mp hmem
    have hhistory : row ∈ ofLink link s.history :=
      List.mem_filter.mpr ⟨hrows row (List.mem_filter.mp hold).1, by simpa using hlink⟩
    rw [hnone] at hhistory
    cases hhistory

structure Sound (s : State) : Prop where
  rows : ∀ row ∈ s.rows, row ∈ s.history
  telescopes : Telescopes s

theorem Sound.collect (h : Sound s) (hcounting : Counting s (.collect c))
    (hfits : Fits configured s (.collect c))
    (hanswer : ∀ sorted ∈ c.previous, IsNewestFirst (olderRows configured c.now s.rows) sorted) :
    Sound ⟨s.rows ++ usageRecords c, s.history ++ usageRecords c⟩ := by
  constructor
  · intro row hrow
    rcases List.mem_append.mp hrow with hold | hnew
    · exact List.mem_append_left _ (h.rows row hold)
    · exact List.mem_append_right _ hnew
  intro link field
  have happend : ofLink link (s.history ++ usageRecords c) =
      ofLink link s.history ++ ofLink link (usageRecords c) := List.filter_append _ _
  simp only [happend]
  rcases ofLink_usageRecords hcounting.1 link with hnone | ⟨stat, hstat, hstored, rfl, hone⟩
  · rw [hnone, List.append_nil]
    exact h.telescopes link field
  rw [hone]
  intro first hfirst last hlast
  rw [List.getLast?_concat] at hlast
  cases hlast
  cases hhistory : (ofLink stat.link s.history).getLast? with
  | none =>
    have hempty := List.getLast?_eq_none_iff.mp hhistory
    rw [hempty, List.nil_append] at hfirst ⊢
    cases hfirst
    rw [previousOf_none hempty h.rows hanswer]
    simp [createUsageRecord, calculateDeltaValues]
  | some before =>
    have hbefore := hcounting.2 stat hstat before hhistory field
    have hfound := hfits stat hstat hstored before hhistory
    obtain ⟨sorted, hprevious⟩ := Option.isSome_iff_exists.mp hfound.answered
    have hlink : before.link = stat.link := by
      simpa using (List.mem_filter.mp (List.mem_of_getLast? hhistory)).2
    have hfirst' : first ∈ (ofLink stat.link s.history).head? := by
      rw [List.head?_append] at hfirst
      cases hhead : (ofLink stat.link s.history).head? with
      | none =>
        rw [List.head?_eq_none_iff.mp hhead] at hhistory
        cases hhistory
      | some first' =>
        rw [hhead, Option.some_or] at hfirst
        exact hfirst
    have hsum := h.telescopes stat.link field first hfirst' before hhistory
    rw [← hlink, previousOf_found hfound hprevious (hanswer sorted hprevious), hlink,
      List.map_append, List.sum_append, ← Nat.add_assoc, hsum]
    simp only [createUsageRecord, calculateDeltaValues, Option.map_some, List.map_singleton,
      List.sum_singleton, PerCounter.get_zipWith, Option.getD_some]
    exact Nat.add_sub_cancel' hbefore

/-- A collection of one link at a time in milliseconds, with what the query found before. -/
def collectOne (time : ℤ) (bytes : ℕ) (previous : List Record) : Label :=
  .collect {
    stats := [⟨"net0", .const bytes, time, true⟩]
    interfaces := some [⟨"net0", 1000, "phys"⟩]
    now := time
    previous := some previous }

end Runs

end ZoneweaverAgent.NetworkUsage
