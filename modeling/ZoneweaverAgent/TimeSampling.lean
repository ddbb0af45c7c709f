import ZoneweaverAgent.Comparators
import ZoneweaverAgent.FieldDsl

/-!
# Samples of a time series

The monitoring endpoints answer with a sample of the recorded rows: every `interval`-th row of a
list, of the list of each entity, or of the rows that a query finds. The interval is rounded down,
so the samples need not reach the end of the list. The time span of a sample is taken from its
dates, sorted by their texts.
-/

namespace ZoneweaverAgent.TimeSampling

open Comparators

/-! ## The code -/

section Code

structure Record where
  id : ℕ
  entity : String
  /-- In milliseconds. -/
  timestamp : ℕ
  deriving DecidableEq

def interval (n t : ℕ) : ℕ := max 1 (n / t)

/-- The loop over the samples of a list that is not empty. -/
def sampleLoop (records : List Record) (t : ℕ) : List Record :=
  (List.range (min t records.length)).filterMap fun i =>
    records[min (i * interval records.length t) (records.length - 1)]?

def sampleByTime (records : List Record) (t : ℕ) : List Record :=
  if records = [] then [] else if records.length ≤ t then records else sampleLoop records t

abbrev Groups := KeyedList String (List Record)

/-- A name that objects inherit is taken for a group, which it is not. -/
def addRow (groups : Groups) (row : Record) : Option Groups :=
  if row.entity ∈ FieldDsl.objectPrototype then none
  else some (groups.set row.entity (((groups.get row.entity).getD []) ++ [row]))

/-- A key that objects list before the others, in numeric order. -/
def arrayIndex? (key : String) : Option ℕ :=
  key.toNat?.filter fun n => toString n = key ∧ n < 2 ^ 32 - 1

def objectKeys (groups : Groups) : List String :=
  let (indices, names) := groups.keys.partition fun key => (arrayIndex? key).isSome
  sortBy (comap (fun key => (((arrayIndex? key).getD 0 : ℕ) : ℤ)) fun a b => a - b) indices ++ names

/-- Nothing when the grouping throws. -/
def sampleByEntityAndTime (records : List Record) (t : ℕ) : Option (List Record) :=
  (records.foldlM addRow []).map fun groups =>
    (objectKeys groups).flatMap fun name => sampleLoop ((groups.get name).getD []) t

def compareTimes : Comparator Record := fun a b => a.timestamp - b.timestamp

/-- The rows that a query finds, in ascending order of time. -/
def rowsOf (table : List Record) (link : String) (since : ℕ) : List Record :=
  sortBy compareTimes (table.filter fun row => row.entity = link ∧ since ≤ row.timestamp)

def interfaceSamples (table : List Record) (since t : ℕ) (link : String) : List Record :=
  let rows := rowsOf table link since
  let totalCount := rows.length
  if totalCount = 0 then []
  else if totalCount ≤ t then rows
  else (List.range t).filterMap fun i => rows[i * (totalCount / t)]?

/-- `localeCompare` on the names, and the time for rows of one interface. -/
def compareRows (localeCompare : Comparator String) : Comparator Record := fun a b =>
  if a.entity ≠ b.entity then localeCompare a.entity b.entity else compareTimes a b

def getFallbackSampledData (localeCompare : Comparator String) (table : List Record)
    (interfaces : List String) (since t : ℕ) : List Record :=
  sortBy (compareRows localeCompare) (interfaces.flatMap (interfaceSamples table since t))

end Code

/-! ## Dates -/

section Dates

structure TimeZone where
  /-- The offset at a time, in minutes east of Greenwich. -/
  offset : ℕ → ℤ
  name : ℕ → List Char

def weekdays : List (List Char) :=
  [['S', 'u', 'n'], ['M', 'o', 'n'], ['T', 'u', 'e'], ['W', 'e', 'd'], ['T', 'h', 'u'],
    ['F', 'r', 'i'], ['S', 'a', 't']]

def months : List (List Char) :=
  [['J', 'a', 'n'], ['F', 'e', 'b'], ['M', 'a', 'r'], ['A', 'p', 'r'], ['M', 'a', 'y'],
    ['J', 'u', 'n'], ['J', 'u', 'l'], ['A', 'u', 'g'], ['S', 'e', 'p'], ['O', 'c', 't'],
    ['N', 'o', 'v'], ['D', 'e', 'c']]

/-- Year, month from 0 on, and day of the month of a day, counted from 1970-01-01. -/
def civil (day : ℤ) : ℤ × ℕ × ℕ :=
  -- years are counted from March on, in eras of 400 years
  let shifted := day + 719468
  let era := shifted / 146097
  let dayOfEra := (shifted % 146097).toNat
  let yearOfEra := (dayOfEra - dayOfEra / 1460 + dayOfEra / 36524 - dayOfEra / 146096) / 365
  let dayOfYear := dayOfEra - (365 * yearOfEra + yearOfEra / 4 - yearOfEra / 100)
  let month := (5 * dayOfYear + 2) / 153
  let date := dayOfYear - (153 * month + 2) / 5 + 1
  (yearOfEra + era * 400 + (if month < 10 then 0 else 1), (month + 2) % 12, date)

def padded (width n : ℕ) : List Char :=
  List.replicate (width - (Nat.toDigits 10 n).length) '0' ++ Nat.toDigits 10 n

/-- `date.toString()`, as in `Wed Nov 19 2025 20:45:10 GMT+0000 (Coordinated Universal Time)`. -/
def dateText (zone : TimeZone) (time : ℕ) : List Char :=
  let offset := zone.offset time
  let seconds := (time : ℤ) / 1000 + offset * 60
  let day := seconds / 86400
  let clock := (seconds % 86400).toNat
  let (year, month, date) := civil day
  weekdays.getD ((day + 4) % 7).toNat [] ++ ' ' :: (months.getD month [] ++ ' ' ::
    (padded 2 date ++ ' ' :: (padded 4 year.toNat ++ ' ' ::
      (padded 2 (clock / 3600) ++ ':' :: (padded 2 (clock / 60 % 60) ++ ':' ::
        (padded 2 (clock % 60) ++ ' ' :: 'G' :: 'M' :: 'T' :: (if offset < 0 then '-' else '+') ::
          (padded 2 (offset.natAbs / 60) ++ (padded 2 (offset.natAbs % 60) ++ ' ' :: '(' ::
            (zone.name time ++ [')'])))))))))

/-- The order in which `sort` puts texts. -/
def compareTexts : Comparator (List Char) := lex fun a b => (a.toNat : ℤ) - b.toNat

structure Span where
  start : ℕ
  stop : ℕ
  durationMinutes : ℤ
  deriving DecidableEq

/-- The half that a quotient is rounded up from counts up, as in `Math.round`. -/
def roundMinutes (milliseconds : ℤ) : ℤ := (2 * milliseconds + 60000) / 120000

/-- `start` and `stop` stand for the instants that are written out. -/
def calculateTimeSpan (zone : TimeZone) (results : List Record) : Option Span :=
  if results.length < 2 then none
  else
    let timestamps := sortBy (comap (dateText zone) compareTexts) (results.map Record.timestamp)
    match timestamps.head?, timestamps.getLast? with
    | some first, some last => some ⟨first, last, roundMinutes ((last : ℤ) - first)⟩
    | _, _ => none

end Dates

/-! ## Coverage -/

section Coverage

/-- The end of a list: the position of its last record, or the place behind it. -/
inductive End
  | lastRecord
  | behind
  deriving DecidableEq

def End.place (n : ℕ) : End → ℕ
  | lastRecord => n - 1
  | behind => n

/-- The largest remainder of `n` by `t` with which the end is still covered. -/
def End.slack : End → ℕ
  | lastRecord => 2
  | behind => 1

def ceilDiv (n t : ℕ) : ℕ := (n + t - 1) / t

/-- As many records as there are or are wanted, in order, from positions with no wide gap between
neighbours or before the end. -/
def SampledEvenly (stop : End) (records sampled : List Record) (t : ℕ) : Prop :=
  ∃ positions : List ℕ, positions.map (records[·]?) = sampled.map some ∧
    positions.length = min records.length t ∧ positions.Pairwise (· < ·) ∧
    (∀ i, ∀ a ∈ positions[i]?, ∀ b ∈ positions[i + 1]?, b - a ≤ ceilDiv records.length t) ∧
    ∀ last ∈ positions.getLast?, stop.place records.length - last ≤ ceilDiv records.length t

def Covered (stop : End) (n t : ℕ) : Prop := n ≤ t ∨ n % t ≤ stop.slack

instance (stop : End) (n t : ℕ) : Decidable (Covered stop n t) :=
  inferInstanceAs (Decidable (n ≤ t ∨ n % t ≤ stop.slack))

def positions (n t : ℕ) : List ℕ := (List.range (min t n)).map (· * interval n t)

def pick (records : List Record) (ps : List ℕ) : List Record := ps.filterMap (records[·]?)

variable {n t i : ℕ} {records : List Record} {ps : List ℕ}

theorem interval_of_le (h : n ≤ t) : interval n t = 1 := by
  unfold interval
  rcases Nat.lt_or_ge n t with hlt | hge
  · rw [Nat.div_eq_of_lt hlt]
    rfl
  · obtain rfl : n = t := Nat.le_antisymm h hge
    rcases Nat.eq_zero_or_pos n with rfl | hpos
    · rfl
    · rw [Nat.div_self hpos]
      rfl

theorem interval_of_lt (ht : 1 ≤ t) (h : t < n) : interval n t = n / t :=
  max_eq_right (Nat.div_pos h.le ht)

theorem position_lt (hi : i < min t n) : i * interval n t < n := by
  rw [lt_min_iff] at hi
  rcases Nat.lt_or_ge t n with hlt | hle
  · rw [interval_of_lt (by omega) hlt]
    have hpos : 0 < n / t := Nat.div_pos hlt.le (by omega)
    calc i * (n / t) < t * (n / t) := (Nat.mul_lt_mul_right hpos).mpr hi.1
      _ ≤ n := Nat.mul_div_le n t
  · rw [interval_of_le hle, Nat.mul_one]
    exact hi.2

theorem mem_positions_lt (hi : i ∈ positions n t) : i < n := by
  obtain ⟨k, hk, rfl⟩ := List.mem_map.mp hi
  exact position_lt (List.mem_range.mp hk)

theorem positions_of_le (h : n ≤ t) : positions n t = List.range n := by
  rw [positions, interval_of_le h, min_eq_right h]
  simp

theorem map_some_pick (h : ∀ i ∈ ps, i < records.length) :
    (pick records ps).map some = ps.map (records[·]?) := by
  induction ps with
  | nil => rfl
  | cons i ps ih =>
    rw [List.forall_mem_cons] at h
    rw [pick, List.filterMap_cons_some (List.getElem?_eq_getElem h.1), List.map_cons, List.map_cons,
      ← pick, ih h.2, List.getElem?_eq_getElem h.1]

theorem pick_range (records : List Record) :
    pick records (List.range records.length) = records := by
  have hsome : (pick records (List.range records.length)).map some = records.map some := by
    rw [map_some_pick fun i hi => List.mem_range.mp hi]
    apply List.ext_getElem?
    intro i
    rw [List.getElem?_map, List.getElem?_map]
    rcases Nat.lt_or_ge i records.length with hlt | hge
    · rw [List.getElem?_range hlt, List.getElem?_eq_getElem hlt]
      exact congrArg some (List.getElem?_eq_getElem hlt)
    · rw [List.getElem?_eq_none (by simpa using hge), List.getElem?_eq_none hge]
      rfl
  exact List.map_injective_iff.mpr (Option.some_injective _) hsome

theorem sampleLoop_eq (records : List Record) (t : ℕ) :
    sampleLoop records t = pick records (positions records.length t) := by
  rw [sampleLoop, pick, positions, List.filterMap_map]
  refine List.filterMap_congr fun i hi => ?_
  have hlt := position_lt (List.mem_range.mp hi)
  rw [Function.comp_apply, min_eq_left (by omega)]

theorem sampleByTime_eq (records : List Record) (t : ℕ) :
    sampleByTime records t = pick records (positions records.length t) := by
  unfold sampleByTime
  split_ifs with hnil hle
  · rw [hnil, List.length_nil, positions_of_le (Nat.zero_le t)]
    rfl
  · rw [positions_of_le hle, pick_range]
  · exact sampleLoop_eq records t

theorem interfaceSamples_eq (table : List Record) (since : ℕ) (link : String) (ht : 1 ≤ t) :
    interfaceSamples table since t link =
      pick (rowsOf table link since) (positions (rowsOf table link since).length t) := by
  unfold interfaceSamples
  generalize rowsOf table link since = rows
  dsimp only
  split_ifs with hzero hle
  · rw [List.length_eq_zero_iff.mp hzero, List.length_nil, positions_of_le (Nat.zero_le t)]
    rfl
  · rw [positions_of_le hle, pick_range]
  · rw [pick, positions, List.filterMap_map, min_eq_left (by omega),
      interval_of_lt ht (by omega)]
    rfl

/-- The positions of distinct records are read off the records. -/
theorem positions_unique (hnodup : records.Nodup) {qs : List ℕ}
    (hps : ∀ i ∈ ps, i < records.length) (h : qs.map (records[·]?) = ps.map (records[·]?)) :
    qs = ps := by
  have hread (is : List ℕ) (his : ∀ i ∈ is, i < records.length) :
      (is.map (records[·]?)).map (Option.elim · 0 records.idxOf) = is := by
    rw [List.map_map]
    conv_rhs => rw [← List.map_id is]
    refine List.map_congr_left fun i hi => ?_
    rw [Function.comp_apply, List.getElem?_eq_getElem (his i hi), Option.elim_some,
      hnodup.idxOf_getElem, id_eq]
  have hqs : ∀ i ∈ qs, i < records.length := by
    intro i hi
    have hmem : records[i]? ∈ ps.map (records[·]?) := h ▸ List.mem_map_of_mem hi
    obtain ⟨j, hj, hij⟩ := List.mem_map.mp hmem
    rw [List.getElem?_eq_getElem (hps j hj)] at hij
    exact (List.getElem?_eq_some_iff.mp hij.symm).1
  rw [← hread qs hqs, h, hread ps hps]

theorem last_position (ht : 1 ≤ t) (hn : 1 ≤ n) :
    (positions n t).getLast? = some ((min t n - 1) * interval n t) := by
  obtain ⟨m, hm⟩ : ∃ m, min t n = m + 1 := ⟨min t n - 1, by omega⟩
  rw [positions, hm, List.range_succ, List.map_append, List.map_singleton, List.getLast?_concat,
    Nat.add_sub_cancel]

theorem ceilDiv_eq (ht : 1 ≤ t) (n : ℕ) :
    ceilDiv n t = n / t + if n % t = 0 then 0 else 1 := by
  have hlt := Nat.mod_lt n ht
  have hsplit : n + t - 1 = t * (n / t) + (n % t + t - 1) := by
    have := Nat.div_add_mod n t
    omega
  rw [ceilDiv, hsplit, Nat.mul_add_div ht]
  congr 1
  split_ifs with hzero
  · exact Nat.div_eq_of_lt (by omega)
  · exact Nat.div_eq_of_lt_le (by omega) (by omega)

/-- The last stretch is the interval and the remainder. -/
theorem covered_iff (stop : End) (ht : 1 ≤ t) (hn : 1 ≤ n) :
    stop.place n - (min t n - 1) * interval n t ≤ ceilDiv n t ↔ Covered stop n t := by
  rcases Nat.lt_or_ge t n with hlt | hle
  · obtain ⟨s, rfl⟩ : ∃ s, t = s + 1 := ⟨t - 1, by omega⟩
    have hdiv := Nat.div_add_mod n (s + 1)
    have hpos : 0 < n / (s + 1) := Nat.div_pos hlt.le ht
    rw [min_eq_left hlt.le, interval_of_lt ht hlt, ceilDiv_eq ht, Nat.add_sub_cancel, Covered]
    rw [Nat.add_mul, Nat.one_mul] at hdiv
    generalize s * (n / (s + 1)) = front at hdiv ⊢
    split_ifs <;> cases stop <;> simp only [End.place, End.slack] <;> omega
  · have hceil : 1 ≤ ceilDiv n t := by
      rw [ceilDiv_eq ht]
      split_ifs with hzero
      · exact Nat.div_pos (Nat.le_of_dvd hn (Nat.dvd_of_mod_eq_zero hzero)) ht
      · exact Nat.le_add_left 1 _
    rw [min_eq_right hle, interval_of_le hle, Covered]
    cases stop <;> simp only [End.place] <;> omega

theorem interval_le_ceilDiv (ht : 1 ≤ t) (hn : 1 ≤ n) : interval n t ≤ ceilDiv n t := by
  rw [ceilDiv_eq ht, interval, max_le_iff]
  split_ifs with hzero
  · exact ⟨Nat.div_pos (Nat.le_of_dvd hn (Nat.dvd_of_mod_eq_zero hzero)) ht, le_rfl⟩
  · exact ⟨Nat.le_add_left 1 _, Nat.le_add_right _ 1⟩

theorem pairwise_positions (n t : ℕ) : (positions n t).Pairwise (· < ·) := by
  have hpos : 0 < interval n t := Nat.lt_of_lt_of_le Nat.one_pos (le_max_left _ _)
  rw [positions, List.pairwise_map]
  exact List.pairwise_lt_range.imp fun h => Nat.mul_lt_mul_of_pos_right h hpos

theorem gap_positions {a b : ℕ} (ha : a ∈ (positions n t)[i]?) (hb : b ∈ (positions n t)[i + 1]?) :
    b - a = interval n t := by
  rw [positions, Option.mem_def, List.getElem?_map, Option.map_eq_some_iff] at ha hb
  obtain ⟨j, hj, rfl⟩ := ha
  obtain ⟨k, hk, rfl⟩ := hb
  obtain ⟨-, rfl⟩ := List.getElem?_eq_some_iff.mp hj
  obtain ⟨-, rfl⟩ := List.getElem?_eq_some_iff.mp hk
  rw [List.getElem_range, List.getElem_range, Nat.add_mul, Nat.one_mul, Nat.add_sub_cancel_left]

theorem sampledEvenly_iff (stop : End) (hnodup : records.Nodup) (ht : 1 ≤ t) :
    SampledEvenly stop records (pick records (positions records.length t)) t ↔
      Covered stop records.length t := by
  have hlt : ∀ i ∈ positions records.length t, i < records.length := fun i => mem_positions_lt
  rcases Nat.eq_zero_or_pos records.length with hzero | hn
  · refine iff_of_true ⟨[], ?_, ?_, List.Pairwise.nil, by simp, by simp⟩ (Or.inl (by omega))
    · rw [hzero, positions_of_le (Nat.zero_le t)]
      rfl
    · rw [hzero, Nat.zero_min, List.length_nil]
  · rw [← covered_iff stop ht hn]
    constructor
    · rintro ⟨ps, hps, -, -, -, hlast⟩
      rw [map_some_pick hlt] at hps
      obtain rfl := positions_unique hnodup hlt hps
      exact hlast _ (last_position ht hn)
    · intro hend
      refine ⟨positions records.length t, (map_some_pick hlt).symm, ?_, pairwise_positions _ _,
        fun i a ha b hb => ?_, fun last hlast => ?_⟩
      · rw [positions, List.length_map, List.length_range, min_comm]
      · rw [gap_positions ha hb]
        exact interval_le_ceilDiv ht hn
      · rw [last_position ht hn] at hlast
        cases hlast
        exact hend

theorem entity_of_pick {e : String} (h : ∀ r ∈ records, r.entity = e) :
    ∀ r ∈ pick records ps, r.entity = e := by
  intro r hr
  obtain ⟨i, -, hi⟩ := List.mem_filterMap.mp hr
  exact h r (List.mem_of_getElem? hi)

end Coverage

/-! ## Entities -/

section Entities
variable {records done : List Record} {groups : Groups} {row : Record} {t : ℕ}

def ofEntity (records : List Record) (e : String) : List Record :=
  records.filter fun r => r.entity = e

theorem entity_of_mem {e : String} : ∀ r ∈ ofEntity records e, r.entity = e := by
  intro r hr
  exact of_decide_eq_true (List.mem_filter.mp hr).2

/-- The parts of a list that are made one a name are found again by the name. -/
theorem ofEntity_flatMap {names : List String} (hnodup : names.Nodup) {f : String → List Record}
    (hf : ∀ name ∈ names, ∀ r ∈ f name, r.entity = name) (e : String) :
    ofEntity (names.flatMap f) e = if e ∈ names then f e else [] := by
  induction names with
  | nil => rfl
  | cons name names ih =>
    rw [List.forall_mem_cons] at hf
    rw [List.nodup_cons] at hnodup
    have hrest := ih hnodup.2 hf.2
    rw [ofEntity, List.flatMap_cons, List.filter_append, ← ofEntity, ← ofEntity, hrest]
    by_cases he : e = name
    · subst he
      have hall : ofEntity (f e) e = f e :=
        List.filter_eq_self.mpr fun r hr => decide_eq_true (hf.1 r hr)
      rw [if_neg hnodup.1, hall, List.append_nil, if_pos List.mem_cons_self]
    · have hnone : ofEntity (f name) e = [] := by
        rw [ofEntity, List.filter_eq_nil_iff]
        intro r hr hre
        exact he ((of_decide_eq_true hre).symm.trans (hf.1 r hr))
      rw [hnone, List.nil_append]
      exact if_congr (by simp [he]) rfl rfl

/-- The groups of the rows that were added. -/
structure Grouped (done : List Record) (groups : Groups) : Prop where
  nodup : groups.keys.Nodup
  get : ∀ e, (groups.get e).getD [] = ofEntity done e

theorem grouped_nil : Grouped [] [] := ⟨List.nodup_nil, fun _ => rfl⟩

theorem addRow_of_notMem (h : Grouped done groups)
    (hrow : row.entity ∉ FieldDsl.objectPrototype) :
    ∃ groups', addRow groups row = some groups' ∧ Grouped (done ++ [row]) groups' := by
  refine ⟨_, if_neg hrow, KeyedList.nodup_keys_set h.nodup _ _, fun e => ?_⟩
  rw [KeyedList.get_set, ofEntity, List.filter_append, ← ofEntity]
  split_ifs with he
  · subst he
    rw [Option.getD_some, h.get]
    simp
  · rw [h.get]
    simp [he]

/-- The grouping goes through unless a name is one that objects inherit. -/
theorem foldlM_addRow (h : Grouped done groups) :
    if ∀ r ∈ records, r.entity ∉ FieldDsl.objectPrototype then
      ∃ groups', records.foldlM addRow groups = some groups' ∧ Grouped (done ++ records) groups'
    else records.foldlM addRow groups = none := by
  induction records generalizing done groups with
  | nil =>
    rw [if_pos (by simp)]
    exact ⟨groups, rfl, by rwa [List.append_nil]⟩
  | cons row records ih =>
    rw [List.foldlM_cons]
    by_cases hrow : row.entity ∈ FieldDsl.objectPrototype
    · rw [if_neg (by simp [hrow]), addRow, if_pos hrow]
      rfl
    · obtain ⟨groups', hadd, hgrouped⟩ := addRow_of_notMem h hrow
      have hrest := ih hgrouped
      rw [hadd, Option.bind_eq_bind, Option.bind_some]
      rw [List.append_assoc, List.singleton_append] at hrest
      exact (if_congr (by simp [hrow]) rfl rfl).mpr hrest

theorem objectKeys_perm (groups : Groups) : (objectKeys groups).Perm groups.keys := by
  rw [objectKeys, List.partition_eq_filter_filter]
  exact ((sortBy_perm _).append_right _).trans (List.filter_append_perm _ _)

/-- The samples of each entity are those of its rows. -/
theorem ofEntity_samples (h : Grouped records groups) (t : ℕ) (e : String) :
    ofEntity ((objectKeys groups).flatMap fun name =>
        sampleLoop ((groups.get name).getD []) t) e =
      pick (ofEntity records e) (positions (ofEntity records e).length t) := by
  have hkeys := objectKeys_perm groups
  rw [ofEntity_flatMap (hkeys.nodup_iff.mpr h.nodup)]
  · split_ifs with he
    · rw [sampleLoop_eq, h.get]
    · have hnone : ofEntity records e = [] := by
        rw [← h.get, KeyedList.get_of_notMem fun hmem => he (hkeys.mem_iff.mpr hmem)]
        rfl
      rw [hnone, List.length_nil, positions_of_le (Nat.zero_le t)]
      rfl
  · intro name _
    rw [sampleLoop_eq, h.get]
    exact entity_of_pick entity_of_mem

end Entities

/-! ## Interfaces -/

section Interfaces
variable {table : List Record} {interfaces : List String} {localeCompare : Comparator String}
  {since t : ℕ}

/-- `localeCompare` puts these names in an order. -/
structure OrdersNames (localeCompare : Comparator String) (names : List String) : Prop where
  swap : ∀ a b, localeCompare a b < 0 ↔ 0 < localeCompare b a
  zero : ∀ a ∈ names, ∀ b ∈ names, localeCompare a b = 0 → a = b
  trans : TransitiveOn localeCompare names

theorem compareTimes_swap (a b : Record) : compareTimes a b < 0 ↔ 0 < compareTimes b a := by
  unfold compareTimes
  omega

theorem transitiveOn_compareTimes (l : List Record) : TransitiveOn compareTimes l := by
  intro a _ b _ c _ hab hbc
  unfold compareTimes at *
  omega

theorem rowsOf_perm (table : List Record) (link : String) (since : ℕ) :
    (rowsOf table link since).Perm
      (table.filter fun row => row.entity = link ∧ since ≤ row.timestamp) := sortBy_perm _

theorem entity_of_rowsOf (link : String) : ∀ r ∈ rowsOf table link since, r.entity = link := by
  intro r hr
  have hfilter := List.of_mem_filter ((rowsOf_perm table link since).mem_iff.mp hr)
  exact (of_decide_eq_true hfilter).1

theorem pairwise_rowsOf (link : String) :
    (rowsOf table link since).Pairwise fun a b => a.timestamp ≤ b.timestamp := by
  have hsorted := pairwise_sortBy compareTimes_swap (transitiveOn_compareTimes
    (table.filter fun row => row.entity = link ∧ since ≤ row.timestamp))
  refine hsorted.imp fun {a b} h => ?_
  unfold compareTimes at h
  omega

theorem pairwise_pick {records : List Record} {ps : List ℕ} {R : Record → Record → Prop}
    (hrecords : records.Pairwise R) (hps : ps.Pairwise (· < ·)) : (pick records ps).Pairwise R := by
  rw [pick, List.pairwise_filterMap]
  refine hps.imp fun {i j} hij a ha b hb => ?_
  obtain ⟨hi, rfl⟩ := List.getElem?_eq_some_iff.mp ha
  obtain ⟨hj, rfl⟩ := List.getElem?_eq_some_iff.mp hb
  exact List.pairwise_iff_getElem.mp hrecords i j hi hj hij

theorem compareRows_of_eq {a b : Record} (h : a.entity = b.entity) :
    compareRows localeCompare a b = compareTimes a b := if_neg (not_not.mpr h)

theorem compareRows_of_ne {a b : Record} (h : a.entity ≠ b.entity) :
    compareRows localeCompare a b = localeCompare a.entity b.entity := if_pos h

theorem compareRows_swap (h : OrdersNames localeCompare interfaces) (a b : Record) :
    compareRows localeCompare a b < 0 ↔ 0 < compareRows localeCompare b a := by
  by_cases hab : a.entity = b.entity
  · rw [compareRows_of_eq hab, compareRows_of_eq hab.symm]
    exact compareTimes_swap a b
  · rw [compareRows_of_ne hab, compareRows_of_ne (Ne.symm hab)]
    exact h.swap _ _

theorem transitiveOn_compareRows (h : OrdersNames localeCompare interfaces) {l : List Record}
    (hl : ∀ r ∈ l, r.entity ∈ interfaces) : TransitiveOn (compareRows localeCompare) l := by
  intro a ha b hb c hc hab hbc
  by_cases hne : a.entity = b.entity
  · by_cases hne' : b.entity = c.entity
    · rw [compareRows_of_eq hne] at hab
      rw [compareRows_of_eq hne'] at hbc
      rw [compareRows_of_eq (hne.trans hne')]
      exact transitiveOn_compareTimes l a ha b hb c hc hab hbc
    · rw [compareRows_of_ne hne'] at hbc
      rwa [compareRows_of_ne (hne ▸ hne'), hne]
  · rw [compareRows_of_ne hne] at hab
    by_cases hne' : b.entity = c.entity
    · rwa [compareRows_of_ne (hne' ▸ hne), ← hne']
    · rw [compareRows_of_ne hne'] at hbc
      by_cases hac : a.entity = c.entity
      · -- names that compare alike both ways are one name
        have hzero : localeCompare a.entity b.entity = 0 := by
          rw [← hac] at hbc
          have := h.swap a.entity b.entity
          omega
        exact absurd (h.zero _ (hl a ha) _ (hl b hb) hzero) hne
      · rw [compareRows_of_ne hac]
        exact h.trans _ (hl a ha) _ (hl b hb) _ (hl c hc) hab hbc

/-- Sorting the samples of all interfaces keeps the samples of each. -/
theorem ofEntity_getFallbackSampledData (ht : 1 ≤ t) (h : OrdersNames localeCompare interfaces)
    (hnodup : interfaces.Nodup) {e : String} (he : e ∈ interfaces) :
    ofEntity (getFallbackSampledData localeCompare table interfaces since t) e =
      pick (rowsOf table e since) (positions (rowsOf table e since).length t) := by
  have hlink : ∀ link ∈ interfaces, ∀ r ∈ interfaceSamples table since t link,
      r.entity = link := by
    intro link _
    rw [interfaceSamples_eq table since link ht]
    exact entity_of_pick (entity_of_rowsOf link)
  have hflat : ofEntity (interfaces.flatMap (interfaceSamples table since t)) e =
      pick (rowsOf table e since) (positions (rowsOf table e since).length t) := by
    rw [ofEntity_flatMap hnodup hlink, if_pos he, interfaceSamples_eq table since e ht]
  have hnames : ∀ r ∈ interfaces.flatMap (interfaceSamples table since t),
      r.entity ∈ interfaces := by
    intro r hr
    obtain ⟨link, hmem, hr⟩ := List.mem_flatMap.mp hr
    rw [hlink link hmem r hr]
    exact hmem
  rw [getFallbackSampledData, ofEntity, filter_sortBy (compareRows_swap h)
    (transitiveOn_compareRows h hnames)]
  · exact hflat
  · have hsame : ∀ r ∈ ofEntity (interfaces.flatMap (interfaceSamples table since t)) e,
        r.entity = e := entity_of_mem
    change (ofEntity _ e).Pairwise _
    rw [hflat] at hsame ⊢
    refine (pairwise_pick (pairwise_rowsOf e) (pairwise_positions _ _)).imp_of_mem
      fun {a b} ha hb hab => ?_
    rw [compareRows_of_eq ((hsame a ha).trans (hsame b hb).symm), compareTimes]
    omega

end Interfaces

/-! ## Time spans -/

section Spans
variable {zone : TimeZone} {results : List Record}

theorem lawful_compareChars : Lawful fun a b : Char => (a.toNat : ℤ) - b.toNat where
  swap a b := by omega
  zero a b := by
    rw [sub_eq_zero, Nat.cast_inj]
    exact ⟨Char.toNat_inj.mp, congrArg _⟩

theorem transitiveOn_compareTexts {β : Type*} (f : β → List Char) (l : List β) :
    TransitiveOn (comap f compareTexts) l :=
  transitiveOn_lex lawful_compareChars (fun a b c hab hbc => by omega) f l

theorem compareTexts_swap {β : Type*} (f : β → List Char) (a b : β) :
    comap f compareTexts a b < 0 ↔ 0 < comap f compareTexts b a :=
  (lawful_lex lawful_compareChars).swap _ _

/-- Whether one date is written before another, or like it. -/
def WrittenBefore (zone : TimeZone) (a b : ℕ) : Prop :=
  compareTexts (dateText zone a) (dateText zone b) ≤ 0

instance (zone : TimeZone) (a b : ℕ) : Decidable (WrittenBefore zone a b) :=
  inferInstanceAs (Decidable (compareTexts (dateText zone a) (dateText zone b) ≤ 0))

/-- The first of the dates whose texts no other text comes before is not later than the last of
those whose texts come before no other. -/
def SpanForward (zone : TimeZone) (times : List ℕ) : Prop :=
  ∀ a ∈ (times.filter fun a => times.all fun b => WrittenBefore zone a b).head?,
    ∀ b ∈ (times.filter fun b => times.all fun a => WrittenBefore zone a b).getLast?, a ≤ b

theorem roundMinutes_nonneg {d : ℤ} (h : 0 ≤ d) : 0 ≤ roundMinutes d :=
  Int.ediv_nonneg (by omega) (by decide)

theorem calculateTimeSpan_forward_iff (zone : TimeZone) (results : List Record) :
    (∀ span ∈ calculateTimeSpan zone results,
      span.start ≤ span.stop ∧ 0 ≤ span.durationMinutes) ↔
      SpanForward zone (results.map Record.timestamp) := by
  unfold calculateTimeSpan
  split_ifs with hshort
  · refine iff_of_true (by simp) fun a ha b hb => ?_
    have hlength : (results.map Record.timestamp).length ≤ 1 := by
      rw [List.length_map]
      omega
    have hmem := List.mem_of_mem_filter (List.mem_of_mem_head? ha)
    have hmem' := List.mem_of_mem_filter (List.mem_of_mem_getLast? hb)
    generalize results.map Record.timestamp = times at *
    match times with
    | [] => cases hmem
    | [time] => rw [List.mem_singleton.mp hmem, List.mem_singleton.mp hmem']
    | _ :: _ :: _ => exact absurd hlength (by simp)
  · have hne : results.map Record.timestamp ≠ [] := by
      rintro hnil
      rw [List.map_eq_nil_iff.mp hnil] at hshort
      exact hshort (by decide)
    generalize results.map Record.timestamp = times at *
    have hhead := head?_sortBy_eq (compareTexts_swap (dateText zone))
      (transitiveOn_compareTexts (dateText zone) times)
    have hlast := getLast?_sortBy_eq (compareTexts_swap (dateText zone))
      (transitiveOn_compareTexts (dateText zone) times)
    have hperm : (sortBy (comap (dateText zone) compareTexts) times).Perm times := sortBy_perm times
    generalize sortBy (comap (dateText zone) compareTexts) times = sorted at *
    obtain ⟨first, rest, rfl⟩ := List.exists_cons_of_ne_nil fun hnil : sorted = [] =>
      hne (List.perm_nil.mp (hnil ▸ hperm.symm))
    obtain ⟨last, hlast'⟩ : ∃ last, (first :: rest).getLast? = some last :=
      ⟨_, List.getLast?_eq_some_getLast (List.cons_ne_nil first rest)⟩
    rw [List.head?_cons] at hhead
    rw [hlast'] at hlast
    have hforward : SpanForward zone times ↔ first ≤ last := by
      refine ⟨fun h => h first hhead.symm last hlast.symm, fun h a ha b hb => ?_⟩
      obtain rfl : first = a := Option.some.inj (hhead.trans ha)
      obtain rfl : last = b := Option.some.inj (hlast.trans hb)
      exact h
    rw [hforward]
    simp only [List.head?_cons, hlast']
    constructor
    · intro h
      exact (h _ rfl).1
    · intro hle span hspan
      cases hspan
      exact ⟨hle, roundMinutes_nonneg (by omega)⟩

end Spans

/-- How far the samples reach depends on the remainder of the number of records by the number of
samples. -/
theorem samples_cover_iff {t : ℕ} (ht : 1 ≤ t) (stop : End) (records : List Record)
    (hrecords : records.Nodup) {table : List Record} (htable : table.Nodup)
    {interfaces : List String} (hinterfaces : interfaces.Nodup)
    {localeCompare : Comparator String} (hlocale : OrdersNames localeCompare interfaces)
    (since : ℕ) (zone : TimeZone) :
    (SampledEvenly stop records (sampleByTime records t) t ↔ Covered stop records.length t) ∧
    ((∃ sampled, sampleByEntityAndTime records t = some sampled ∧
        ∀ e, SampledEvenly stop (ofEntity records e) (ofEntity sampled e) t) ↔
      (∀ r ∈ records, r.entity ∉ FieldDsl.objectPrototype) ∧
        ∀ e, Covered stop (ofEntity records e).length t) ∧
    (∀ e ∈ interfaces,
      SampledEvenly stop (rowsOf table e since)
          (ofEntity (getFallbackSampledData localeCompare table interfaces since t) e) t ↔
        Covered stop (rowsOf table e since).length t) ∧
    ∀ results, (∀ span ∈ calculateTimeSpan zone results,
        span.start ≤ span.stop ∧ 0 ≤ span.durationMinutes) ↔
      SpanForward zone (results.map Record.timestamp) := by
  refine ⟨?_, ?_, fun e he => ?_, calculateTimeSpan_forward_iff zone⟩
  · rw [sampleByTime_eq]
    exact sampledEvenly_iff stop hrecords ht
  · have hgroups := @foldlM_addRow records _ _ grouped_nil
    rw [List.nil_append] at hgroups
    by_cases hnames : ∀ r ∈ records, r.entity ∉ FieldDsl.objectPrototype
    · rw [if_pos hnames] at hgroups
      obtain ⟨groups, hfold, hgrouped⟩ := hgroups
      have hcover (e : String) := sampledEvenly_iff stop (hrecords.filter fun r => r.entity = e) ht
      simp only [sampleByEntityAndTime, hfold, Option.map_some, Option.some.injEq,
        exists_eq_left', ofEntity_samples hgrouped]
      exact ⟨fun h => ⟨hnames, fun e => (hcover e).mp (h e)⟩, fun h e => (hcover e).mpr (h.2 e)⟩
    · rw [if_neg hnames] at hgroups
      refine iff_of_false ?_ fun h => hnames h.1
      rintro ⟨sampled, hsome, -⟩
      rw [sampleByEntityAndTime, hgroups] at hsome
      cases hsome
  · have hrows : (rowsOf table e since).Nodup :=
      (rowsOf_perm table e since).nodup_iff.mpr (htable.filter _)
    rw [ofEntity_getFallbackSampledData ht hlocale hinterfaces he]
    exact sampledEvenly_iff stop hrows ht

def compareNames : Comparator String := comap String.toList compareTexts

theorem ordersNames_compareNames (names : List String) : OrdersNames compareNames names where
  swap := compareTexts_swap String.toList
  zero a _ b _ h := String.toList_injective (((lawful_lex lawful_compareChars).zero _ _).mp h)
  trans := transitiveOn_compareTexts String.toList names

def greenwich : TimeZone := ⟨fun _ => 0, fun _ => ['U', 'T', 'C']⟩

/-- Records of one interface, one a day. -/
def daily (n : ℕ) : List Record := (List.range n).map fun i => ⟨i, "net0", 86400000 * i⟩

theorem nodup_daily (n : ℕ) : (daily n).Nodup := by
  refine List.Nodup.map (fun i j h => ?_) List.nodup_range
  exact congrArg Record.id h

theorem samples_cover_small :
    (SampledEvenly .behind (daily 4) (sampleByTime (daily 4) 2) 2 ↔
      Covered .behind (daily 4).length 2) ∧
    ((∃ sampled, sampleByEntityAndTime (daily 4) 2 = some sampled ∧
        ∀ e, SampledEvenly .behind (ofEntity (daily 4) e) (ofEntity sampled e) 2) ↔
      (∀ r ∈ daily 4, r.entity ∉ FieldDsl.objectPrototype) ∧
        ∀ e, Covered .behind (ofEntity (daily 4) e).length 2) ∧
    (∀ e ∈ ["net0"],
      SampledEvenly .behind (rowsOf (daily 4) e 0)
          (ofEntity (getFallbackSampledData compareNames (daily 4) ["net0"] 0 2) e) 2 ↔
        Covered .behind (rowsOf (daily 4) e 0).length 2) ∧
    ∀ results, (∀ span ∈ calculateTimeSpan greenwich results,
        span.start ≤ span.stop ∧ 0 ≤ span.durationMinutes) ↔
      SpanForward greenwich (results.map Record.timestamp) :=
  samples_cover_iff (by decide) .behind (daily 4) (nodup_daily 4) (nodup_daily 4)
    (List.nodup_singleton _) (ordersNames_compareNames _) 0 greenwich

/-- Of nineteen records the first ten are sampled, and the sample of a Sunday and a Monday starts on
the Monday. -/
theorem samples_cover_fails :
    ¬SampledEvenly .lastRecord (daily 19) (sampleByTime (daily 19) 10) 10 ∧
    ¬SampledEvenly .behind (daily 19) (sampleByTime (daily 19) 10) 10 ∧
    (sampleByTime (daily 19) 10).map Record.id = List.range 10 ∧
    ¬∀ span ∈ calculateTimeSpan greenwich ((daily 5).drop 3),
      span.start ≤ span.stop ∧ 0 ≤ span.durationMinutes := by
  have hnot (stop : End) (h : ¬Covered stop (daily 19).length 10) :
      ¬SampledEvenly stop (daily 19) (sampleByTime (daily 19) 10) 10 := by
    rw [sampleByTime_eq, sampledEvenly_iff stop (nodup_daily 19) (by decide)]
    exact h
  refine ⟨hnot _ (by decide), hnot _ (by decide), by decide +kernel, fun h => ?_⟩
  rw [calculateTimeSpan_forward_iff] at h
  have hle := h 345600000 (by decide +kernel) 259200000 (by decide +kernel)
  exact absurd hle (by decide)

end ZoneweaverAgent.TimeSampling
