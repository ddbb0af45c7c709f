import Mathlib.Algebra.BigOperators.Group.List.Basic
import Mathlib.Algebra.GroupWithZero.Nat
import Mathlib.Data.List.Nodup
import ZoneweaverAgent.DecimalNumerals
import ZoneweaverAgent.JsonValue
import ZoneweaverAgent.PathScan
import ZoneweaverAgent.TextLines

/-!
# The lines of a disk I/O consumer

In every interval a DTrace consumer prints one line for each counter, machine and device path, and a
line that ends the interval. The collector adds the values up by machine and dataset, and stores the
rows at the end of the interval.
-/

namespace ZoneweaverAgent.ZvolIo

open DecimalNumerals PathScan TextLines

section Paths

/-- The characters that `.` does not match. -/
def isLineTerminator (c : Char) : Bool := c.toNat ∈ [0xA, 0xD, 0x2028, 0x2029]

def devWord : Text := ['d', 'e', 'v']

def zvolWord : Text := ['z', 'v', 'o', 'l', '/']

def dskWord : Text := ['d', 's', 'k', '/']

/-- `\/dev\/zvol\/r?dsk\/(?<dataset>.+)$` -/
def deviceHere (text : Text) : Option Text :=
  (behind ('/' :: devWord ++ '/' :: zvolWord) text).bind fun rest =>
    (behind dskWord ((behind ['r'] rest).getD rest)).filter fun dataset =>
      dataset ≠ [] && !dataset.any isLineTerminator

def datasetFromDevicePath (pathname : Text) : Option Text := search deviceHere pathname

/-- `root` has the segments before the device directory, and `raw` says which of the two. -/
inductive Path
  | device (root : List Text) (raw : Bool) (dataset : Text)
  | other (text : Text)
  deriving DecidableEq

namespace Path

def rawPart (raw : Bool) : Text := if raw then ['r'] else []

/-- A device path without the machine's root. -/
def tail (raw : Bool) (dataset : Text) : Text :=
  '/' :: devWord ++ '/' :: (zvolWord ++ (rawPart raw ++ (dskWord ++ dataset)))

def text : Path → Text
  | device root raw dataset => join root ++ tail raw dataset
  | other text => text

def dataset? : Path → Option Text
  | device _ _ dataset => some dataset
  | other _ => none

def WellFormed : Path → Prop
  | device root _ dataset => (∀ segment ∈ root, '/' ∉ segment ∧ segment ≠ devWord) ∧
      dataset ≠ [] ∧ ∀ c ∈ dataset, isLineTerminator c = false
  | other text => datasetFromDevicePath text = none

instance : DecidablePred WellFormed
  | device root _ dataset => decidable_of_iff ((∀ segment ∈ root, '/' ∉ segment ∧
      segment ≠ devWord) ∧ dataset ≠ [] ∧ dataset.any isLineTerminator = false) (by simp [WellFormed])
  | other text => inferInstanceAs (Decidable (datasetFromDevicePath text = none))

end Path

theorem leads_deviceHere : Leads devWord deviceHere := leads_behind _

theorem deviceHere_tail {raw : Bool} {dataset : Text} (hne : dataset ≠ [])
    (hline : ∀ c ∈ dataset, isLineTerminator c = false) :
    deviceHere (Path.tail raw dataset) = some dataset := by
  have hall : dataset.any isLineTerminator = false := List.any_eq_false.mpr fun c hc => by
    rw [hline c hc]
    exact Bool.false_ne_true
  have htail : Path.tail raw dataset = ('/' :: devWord ++ '/' :: zvolWord) ++
      (Path.rawPart raw ++ (dskWord ++ dataset)) := by
    simp [Path.tail]
  have hdsk : behind dskWord ((behind ['r'] (Path.rawPart raw ++ (dskWord ++ dataset))).getD
      (Path.rawPart raw ++ (dskWord ++ dataset))) = some dataset := by
    cases raw <;> simp [behind, Path.rawPart, dskWord]
  rw [deviceHere, htail, behind_append, Option.bind_some, hdsk]
  simp [hne, hall]

/-- No segment of the root is a place for the pattern. -/
theorem search_deviceHere_join {root : List Text}
    (hroot : ∀ segment ∈ root, '/' ∉ segment ∧ segment ≠ devWord) (rest : Text) :
    search deviceHere (join root ++ '/' :: rest) = search deviceHere ('/' :: rest) := by
  induction root with
  | nil => rfl
  | cons segment root ih =>
    obtain ⟨hslash, hdev⟩ := hroot segment List.mem_cons_self
    have hslashes : ∃ more, join root ++ '/' :: rest = '/' :: more := by
      rcases slash_of_join root with hnil | ⟨more, hmore⟩
      · exact ⟨rest, by rw [hnil, List.nil_append]⟩
      · exact ⟨more ++ '/' :: rest, by rw [hmore, List.cons_append]⟩
    obtain ⟨more, hmore⟩ := hslashes
    have hnone : deviceHere ('/' :: segment ++ '/' :: more) = none := by
      by_contra hsome
      obtain ⟨after, hafter⟩ := leads_deviceHere _ hsome
      exact hdev (segment_eq hslash (by decide) ((List.cons_inj_right _).mp hafter)).1
    have hrest := ih fun s hs => hroot s (List.mem_cons_of_mem _ hs)
    rw [hmore] at hrest
    rw [join_cons, List.append_assoc, hmore, leads_deviceHere.search_slash hslash, hnone,
      Option.none_or, hrest]

/-- The dataset is read off both device paths. -/
theorem datasetFromDevicePath_text {path : Path} (h : path.WellFormed) :
    datasetFromDevicePath path.text = path.dataset? := by
  cases path with
  | other text => exact h
  | device root raw dataset =>
    have hhere : deviceHere (Path.tail raw dataset) = some dataset := deviceHere_tail h.2.1 h.2.2
    have hsearch := search_deviceHere_join h.1 (devWord ++ '/' ::
      (zvolWord ++ (Path.rawPart raw ++ (dskWord ++ dataset))))
    rw [datasetFromDevicePath, Path.text, Path.tail, List.cons_append, hsearch, search]
    rw [Path.tail, List.cons_append] at hhere
    rw [hhere, Option.some_or, Path.dataset?]

end Paths

section Lines

inductive Counter
  | readOps
  | readBytes
  | writeOps
  | writeBytes
  deriving DecidableEq

def Counter.kind : Counter → Text
  | readOps => ['R', 'O']
  | readBytes => ['R', 'B']
  | writeOps => ['W', 'O']
  | writeBytes => ['W', 'B']

structure Metric where
  counter : Counter
  zone : Text
  path : Path
  value : ℕ
  deriving DecidableEq

inductive Line
  | metric (m : Metric)
  | finish (seconds : ℕ)
  deriving DecidableEq

def endWord : Text := ['E', 'N', 'D']

/-- The fields of a line but the last one, and the last one. -/
def Line.fields : Line → List Text × Text
  | metric m => ([m.counter.kind, m.zone, m.path.text], Nat.toDigits 10 m.value)
  | finish seconds => ([endWord], Nat.toDigits 10 seconds)

def Line.text (line : Line) : Text := written '\t' id line.fields.1 ++ line.fields.2

/-- A text that stays as it is between tabs, on one line, and trimmed. -/
def Plain (text : Text) : Prop := '\t' ∉ text ∧ '\n' ∉ text ∧ trim isTrimmed text = text

instance : DecidablePred Plain := fun text =>
  inferInstanceAs (Decidable ('\t' ∉ text ∧ '\n' ∉ text ∧ trim isTrimmed text = text))

def Line.Clean : Line → Prop
  | metric m => Plain m.zone ∧ Plain m.path.text ∧ m.path.WellFormed
  | finish _ => True

instance : DecidablePred Line.Clean
  | .metric m => inferInstanceAs (Decidable (Plain m.zone ∧ Plain m.path.text ∧ m.path.WellFormed))
  | .finish _ => inferInstanceAs (Decidable True)

/-- The intervals that have ended, and the one that has not. -/
def cut (lines : List Line) : List (List Metric) × List Metric :=
  lines.foldl (fun cut line =>
    match line with
    | .metric m => (cut.1, cut.2 ++ [m])
    | .finish _ => (cut.1 ++ [cut.2], [])) ([], [])

def Concerns (zone dataset : Text) (m : Metric) : Prop :=
  m.zone = zone ∧ m.path.dataset? = some dataset

instance (zone dataset : Text) (m : Metric) : Decidable (Concerns zone dataset m) :=
  inferInstanceAs (Decidable (m.zone = zone ∧ m.path.dataset? = some dataset))

def total (counter : Counter) (zone dataset : Text) (ms : List Metric) : ℕ :=
  ((ms.filter fun m => Concerns zone dataset m ∧ m.counter = counter).map Metric.value).sum

end Lines

section Rows

structure Row where
  host : Text
  zoneName : Text
  dataset : Text
  pool : Text
  device : Text
  readOps : ℚ
  readBytes : ℚ
  writeOps : ℚ
  writeBytes : ℚ
  deriving DecidableEq

def Row.get (row : Row) : Counter → ℚ
  | .readOps => row.readOps
  | .readBytes => row.readBytes
  | .writeOps => row.writeOps
  | .writeBytes => row.writeBytes

/-- `Number` of a text that is no run of digits or a very long one, where it is finite, and the
double nearest to a number that is not natural. -/
structure Numbers where
  number : Text → Option ℚ
  round : ℚ → ℚ

namespace Numbers
variable (numbers : Numbers)

def read (raw : Text) : Option ℚ :=
  if raw ≠ [] ∧ raw.all Char.isDigit ∧ raw.length ≤ 308 then some (double (digitsValue raw))
  else numbers.number raw

def nearest (q : ℚ) : ℚ := if q.den = 1 ∧ 0 ≤ q then double q.num.toNat else numbers.round q

end Numbers

/-- The collector's settings, with what `parseInt` makes of the interval. -/
structure Config where
  numbers : Numbers
  hostname : Text
  enabled : Option Json
  interval : Option ℤ
  maxConsecutiveErrors : ℕ

def Config.isEnabled (config : Config) : Bool :=
  match config.enabled with
  | some (.bool false) => false
  | _ => true

def Config.intervalSeconds (config : Config) : ℕ :=
  (max (match config.interval with
    | some n => if n = 0 then 10 else n
    | none => 10) 5).toNat

variable (config : Config)

def Row.add (counter : Counter) (value : ℚ) (row : Row) : Row :=
  match counter with
  | .readOps => { row with readOps := config.numbers.nearest (row.readOps + value) }
  | .readBytes => { row with readBytes := config.numbers.nearest (row.readBytes + value) }
  | .writeOps => { row with writeOps := config.numbers.nearest (row.writeOps + value) }
  | .writeBytes => { row with writeBytes := config.numbers.nearest (row.writeBytes + value) }

def rowKey (zoneName dataset : Text) : Text := zoneName ++ '\t' :: dataset

def emptyRow (zoneName dataset : Text) : Row where
  host := config.hostname
  zoneName := zoneName
  dataset := dataset
  pool := (split dataset).headD []
  device := (split dataset).getLastD []
  readOps := 0
  readBytes := 0
  writeOps := 0
  writeBytes := 0

/-- A stored row, without its time. -/
structure Stored where
  row : Row
  readBps : ℚ
  writeBps : ℚ
  readIops : ℚ
  writeIops : ℚ
  intervalSeconds : ℕ
  deriving DecidableEq

def persist (intervalSeconds : ℕ) (rows : List Row) : List Stored :=
  let seconds := if intervalSeconds = 0 then 10 else intervalSeconds
  rows.map fun row =>
    { row
      readBps := config.numbers.nearest (row.readBytes / seconds)
      writeBps := config.numbers.nearest (row.writeBytes / seconds)
      readIops := config.numbers.nearest (row.readOps / seconds)
      writeIops := config.numbers.nearest (row.writeOps / seconds)
      intervalSeconds := seconds }

/-- What reading a line changes; `persisted` are the rows stored so far, one list an interval. -/
structure Counting where
  interval : KeyedList Text Row
  consecutiveFailures : ℕ
  persisted : List (List Stored)
  deriving DecidableEq

/-- The names that every object has. -/
def inherited : List Text :=
  ["constructor", "hasOwnProperty", "isPrototypeOf", "propertyIsEnumerable", "toLocaleString",
    "toString", "valueOf", "__proto__", "__defineGetter__", "__defineSetter__", "__lookupGetter__",
    "__lookupSetter__"].map String.toList

/-- The counter of a kind; an inherited name has a value too, but none that is a counter. -/
def fieldByKind (kind : Text) : Option (Option Counter) :=
  match [Counter.readOps, .readBytes, .writeOps, .writeBytes].find? fun c => c.kind = kind with
  | some counter => some (some counter)
  | none => if kind ∈ inherited then some none else none

def count (field : Option Counter) (zoneName dataset : Text) (value : ℚ)
    (interval : KeyedList Text Row) : KeyedList Text Row :=
  let key := rowKey zoneName dataset
  let row := (interval.get key).getD (emptyRow config zoneName dataset)
  interval.set key (match field with
    | some counter => row.add config counter value
    | none => row)

def finishInterval (intervalSeconds : ℕ) (s : Counting) : Counting where
  interval := []
  consecutiveFailures := 0
  persisted :=
    let rows := s.interval.map Prod.snd
    if rows = [] then s.persisted else s.persisted ++ [persist config intervalSeconds rows]

def consumeLine (intervalSeconds : ℕ) (s : Counting) (line : Text) : Counting :=
  match (line.splitOn '\t').map (trim isTrimmed) with
  | [] => s
  | kind :: parts =>
    if kind = endWord then finishInterval config intervalSeconds s
    else
      match fieldByKind kind, parts with
      | some field, zoneName :: pathname :: rawValue :: _ =>
        match datasetFromDevicePath pathname, config.numbers.read rawValue with
        | some dataset, some value =>
          { s with interval := count config field zoneName dataset value s.interval }
        | _, _ => s
      | _, _ => s

end Rows

section Sums
variable {config : Config} {ms : List Metric} {m : Metric} {zone dataset : Text}
  {interval : KeyedList Text Row}

/-- The stored rows of an interval: one for each machine and dataset of it, with the sums. -/
structure Sums (ms : List Metric) (rows : List Stored) : Prop where
  nodup : (rows.map fun r => (r.row.zoneName, r.row.dataset)).Nodup
  covers : ∀ zone dataset, (∃ m ∈ ms, Concerns zone dataset m) ↔
    ∃ r ∈ rows, r.row.zoneName = zone ∧ r.row.dataset = dataset
  sum : ∀ r ∈ rows, ∀ counter,
    r.row.get counter = total counter r.row.zoneName r.row.dataset ms

theorem total_append (counter : Counter) (zone dataset : Text) (ms : List Metric) (m : Metric) :
    total counter zone dataset (ms ++ [m]) = total counter zone dataset ms +
      if Concerns zone dataset m ∧ m.counter = counter then m.value else 0 := by
  rw [total, List.filter_append, List.map_append, List.sum_append, ← total, List.filter_singleton]
  by_cases h : Concerns zone dataset m ∧ m.counter = counter <;> simp [h]

theorem total_of_forall_not {counter : Counter} (h : ∀ m ∈ ms, ¬Concerns zone dataset m) :
    total counter zone dataset ms = 0 := by
  have hnil : ms.filter (fun m => Concerns zone dataset m ∧ m.counter = counter) = [] := by
    rw [List.filter_eq_nil_iff]
    intro m hm hc
    exact h m hm (of_decide_eq_true hc).1
  rw [total, hnil, List.map_nil, List.sum_nil]

theorem read_toDigits (numbers : Numbers) {n : ℕ} (h : n < 2 ^ 53) :
    numbers.read (Nat.toDigits 10 n) = some (n : ℚ) := by
  have hdigits : (Nat.toDigits 10 n).all Char.isDigit = true :=
    List.all_eq_true.mpr isDigit_of_toDigits
  have hlength : (Nat.toDigits 10 n).length ≤ 308 := by
    have hshort : (Nat.toDigits 10 n).length ≤ 16 :=
      (Nat.length_toDigits_le_iff (by decide) (by decide)).mpr (h.trans (by decide))
    exact hshort.trans (by decide)
  rw [Numbers.read, if_pos ⟨Nat.toDigits_ne_nil, hdigits, hlength⟩, digitsValue_toDigits,
    double_of_lt h]

theorem nearest_natCast (numbers : Numbers) {n : ℕ} (h : n < 2 ^ 53) :
    numbers.nearest (n : ℚ) = n := by
  rw [Numbers.nearest, if_pos ⟨Rat.den_natCast n, Rat.natCast_nonneg⟩, Rat.num_natCast,
    Int.toNat_natCast, double_of_lt h]

def sumRow (config : Config) (zone dataset : Text) (ms : List Metric) : Row :=
  { emptyRow config zone dataset with
    readOps := total .readOps zone dataset ms
    readBytes := total .readBytes zone dataset ms
    writeOps := total .writeOps zone dataset ms
    writeBytes := total .writeBytes zone dataset ms }

theorem get_sumRow (counter : Counter) :
    (sumRow config zone dataset ms).get counter = total counter zone dataset ms := by
  cases counter <;> rfl

theorem sumRow_of_forall_not (h : ∀ m ∈ ms, ¬Concerns zone dataset m) :
    sumRow config zone dataset ms = emptyRow config zone dataset := by
  simp only [sumRow, total_of_forall_not h]
  rfl

theorem sumRow_append_of_not (h : ¬Concerns zone dataset m) :
    sumRow config zone dataset (ms ++ [m]) = sumRow config zone dataset ms := by
  simp only [sumRow, total_append, h, false_and, if_false, Nat.add_zero]

theorem sumRow_append (h : Concerns zone dataset m)
    (hlt : total m.counter zone dataset (ms ++ [m]) < 2 ^ 53) :
    sumRow config zone dataset (ms ++ [m]) =
      (sumRow config zone dataset ms).add config m.counter m.value := by
  rw [total_append, if_pos ⟨h, rfl⟩] at hlt
  have hnearest := nearest_natCast config.numbers hlt
  rw [Rat.natCast_add] at hnearest
  obtain ⟨counter, zone, path, value⟩ := m
  cases counter <;> simp only at hnearest <;>
    simp [sumRow, Row.add, total_append, h, hnearest]

end Sums

section Tallies
variable {config : Config} {ms : List Metric} {m : Metric} {zone dataset : Text}
  {interval : KeyedList Text Row}

theorem rowKey_inj {zone' dataset' : Text} (hzone : '\t' ∉ zone) (hzone' : '\t' ∉ zone')
    (h : rowKey zone dataset = rowKey zone' dataset') : zone = zone' ∧ dataset = dataset' :=
  append_cons_eq hzone hzone' h

/-- The rows of the interval that has not ended. -/
structure Tallies (config : Config) (ms : List Metric) (interval : KeyedList Text Row) : Prop where
  nodup : interval.keys.Nodup
  entry : ∀ e ∈ interval, '\t' ∉ e.2.zoneName ∧ e.1 = rowKey e.2.zoneName e.2.dataset ∧
    (∃ m ∈ ms, Concerns e.2.zoneName e.2.dataset m) ∧
      e.2 = sumRow config e.2.zoneName e.2.dataset ms
  covers : ∀ m ∈ ms, ∀ dataset ∈ m.path.dataset?,
    ∃ e ∈ interval, e.2.zoneName = m.zone ∧ e.2.dataset = dataset

theorem Tallies.nil : Tallies config [] [] := ⟨.nil, nofun, nofun⟩

theorem Tallies.getD (h : Tallies config ms interval) (hzone : '\t' ∉ zone) (dataset : Text) :
    (interval.get (rowKey zone dataset)).getD (emptyRow config zone dataset) =
      sumRow config zone dataset ms := by
  cases hget : interval.get (rowKey zone dataset) with
  | some row =>
    obtain ⟨htab, hkey, -, hrow⟩ := h.entry _ (KeyedList.mem_of_get hget)
    obtain ⟨hz, hd⟩ := rowKey_inj hzone htab hkey
    rw [Option.getD_some, hz, hd]
    exact hrow
  | none =>
    refine (sumRow_of_forall_not fun m hm hc => ?_).symm
    obtain ⟨e, he, hz, hd⟩ := h.covers m hm dataset hc.2
    have hmem : e.1 ∈ interval.keys := List.mem_map_of_mem he
    rw [(h.entry e he).2.1, hz, hc.1, hd, KeyedList.mem_keys_iff, hget] at hmem
    exact absurd hmem nofun

theorem Tallies.count (h : Tallies config ms interval) (hzone : '\t' ∉ m.zone)
    (hdataset : m.path.dataset? = some dataset)
    (hlt : total m.counter m.zone dataset (ms ++ [m]) < 2 ^ 53) :
    Tallies config (ms ++ [m])
      (count config (some m.counter) m.zone dataset m.value interval) := by
  have hconcerns : Concerns m.zone dataset m := ⟨rfl, hdataset⟩
  have hcount : ZvolIo.count config (some m.counter) m.zone dataset m.value interval =
      interval.set (rowKey m.zone dataset) (sumRow config m.zone dataset (ms ++ [m])) := by
    rw [sumRow_append hconcerns hlt, ← h.getD hzone]
    rfl
  rw [hcount]
  refine ⟨KeyedList.nodup_keys_set h.nodup _ _, fun e he => ?_, fun m' hm' dataset' hdataset' => ?_⟩
  · rcases KeyedList.mem_of_mem_set he with rfl | hold
    · exact ⟨hzone, rfl, ⟨m, by simp, hconcerns⟩, rfl⟩
    · obtain ⟨htab, hkey, ⟨m', hm', hc⟩, hrow⟩ := h.entry e hold
      refine ⟨htab, hkey, ⟨m', List.mem_append_left _ hm', hc⟩, ?_⟩
      by_cases hsame : Concerns e.2.zoneName e.2.dataset m
      · -- the key of `m` has one entry, and that is the new one
        have hname : e.2.dataset = dataset := Option.some.inj (hsame.2.symm.trans hdataset)
        have hget := KeyedList.get_of_mem (KeyedList.nodup_keys_set h.nodup _ _) (k := e.1) he
        rw [hkey, ← hsame.1, hname, KeyedList.get_set_self] at hget
        rw [← hsame.1, hname]
        exact (Option.some.inj hget).symm
      · rw [sumRow_append_of_not hsame]
        exact hrow
  · rcases List.mem_append.mp hm' with hold | hnew
    · obtain ⟨e, he, hz, hd⟩ := h.covers m' hold dataset' hdataset'
      have hget := KeyedList.get_set interval (rowKey m.zone dataset) e.1
        (sumRow config m.zone dataset (ms ++ [m]))
      rw [KeyedList.get_of_mem h.nodup (k := e.1) he] at hget
      split_ifs at hget with hkey
      · obtain ⟨htab, hname, -⟩ := h.entry e he
        obtain ⟨hz', hd'⟩ := rowKey_inj hzone htab (hkey.trans hname)
        exact ⟨_, KeyedList.mem_of_get hget, hz'.trans hz, hd'.trans hd⟩
      · exact ⟨_, KeyedList.mem_of_get hget, hz, hd⟩
    · rw [List.mem_singleton.mp hnew] at hdataset' ⊢
      have hsame : dataset = dataset' := Option.some.inj (hdataset.symm.trans hdataset')
      exact ⟨_, KeyedList.mem_of_get (KeyedList.get_set_self _ _ _), rfl, hsame⟩

theorem Tallies.skip (h : Tallies config ms interval) (hdataset : m.path.dataset? = none) :
    Tallies config (ms ++ [m]) interval := by
  have hnot : ∀ zone dataset, ¬Concerns zone dataset m := by
    intro zone dataset hc
    exact absurd (hdataset.symm.trans hc.2) nofun
  refine ⟨h.nodup, fun e he => ?_, fun m' hm' dataset' hdataset' => ?_⟩
  · obtain ⟨htab, hkey, ⟨m', hm', hc⟩, hrow⟩ := h.entry e he
    refine ⟨htab, hkey, ⟨m', List.mem_append_left _ hm', hc⟩, ?_⟩
    rw [sumRow_append_of_not (hnot _ _)]
    exact hrow
  · rcases List.mem_append.mp hm' with hold | hnew
    · exact h.covers m' hold dataset' hdataset'
    · rw [List.mem_singleton.mp hnew, hdataset] at hdataset'
      exact absurd hdataset' nofun

theorem map_row_persist (config : Config) (seconds : ℕ) (rows : List Row) :
    (persist config seconds rows).map Stored.row = rows := by
  simp [persist, Function.comp_def]

theorem Tallies.sums (h : Tallies config ms interval) (seconds : ℕ) :
    Sums ms (persist config seconds (interval.map Prod.snd)) := by
  have hrows := map_row_persist config seconds (interval.map Prod.snd)
  have hentry : ∀ r ∈ persist config seconds (interval.map Prod.snd),
      ∃ e ∈ interval, e.2 = r.row := by
    intro r hr
    exact List.mem_map.mp (hrows ▸ List.mem_map_of_mem hr)
  have hkeys : interval.keys = ((persist config seconds (interval.map Prod.snd)).map
      fun r => (r.row.zoneName, r.row.dataset)).map fun p => rowKey p.1 p.2 := by
    have hnames : ((persist config seconds (interval.map Prod.snd)).map
        fun r => (r.row.zoneName, r.row.dataset)).map (fun p => rowKey p.1 p.2) =
          ((persist config seconds (interval.map Prod.snd)).map Stored.row).map
            fun row => rowKey row.zoneName row.dataset := by
      rw [List.map_map, List.map_map]
      rfl
    rw [hnames, hrows, List.map_map, KeyedList.keys]
    exact List.map_congr_left fun e he => (h.entry e he).2.1
  refine ⟨?_, fun zone dataset => ⟨?_, ?_⟩, fun r hr counter => ?_⟩
  · exact List.Nodup.of_map _ (hkeys ▸ h.nodup)
  · rintro ⟨m, hm, rfl, hdataset⟩
    obtain ⟨e, he, hz, hd⟩ := h.covers m hm dataset hdataset
    have hmem : e.2 ∈ (persist config seconds (interval.map Prod.snd)).map Stored.row :=
      hrows.symm ▸ List.mem_map_of_mem he
    obtain ⟨r, hr, hrow⟩ := List.mem_map.mp hmem
    exact ⟨r, hr, by rw [hrow, hz], by rw [hrow, hd]⟩
  · rintro ⟨r, hr, rfl, rfl⟩
    obtain ⟨e, he, hrow⟩ := hentry r hr
    rw [← hrow]
    exact (h.entry e he).2.2.1
  · obtain ⟨e, he, hrow⟩ := hentry r hr
    rw [← hrow]
    conv_lhs => rw [(h.entry e he).2.2.2]
    exact get_sumRow counter

end Tallies

section Reading
variable {config : Config} {seconds : ℕ} {line : Line} {m : Metric} {s : Counting}

theorem plain_toDigits (n : ℕ) : Plain (Nat.toDigits 10 n) := by
  have hnot {c : Char} (hc : c.isDigit = false) : c ∉ Nat.toDigits 10 n := fun h => by
    rw [isDigit_of_toDigits c h] at hc
    exact absurd hc nofun
  have hdigit : ∀ c ∈ Nat.toDigits 10 n, isTrimmed c = false := by
    intro c hc
    have hrange := isDigit_of_toDigits c hc
    simp only [Char.isDigit, Bool.and_eq_true, decide_eq_true_eq, ge_iff_le,
      UInt32.le_iff_toNat_le] at hrange
    obtain ⟨hlow, hhigh⟩ : 48 ≤ c.toNat ∧ c.toNat ≤ 57 := hrange
    simp only [isTrimmed, List.mem_cons, List.not_mem_nil, or_false, Bool.or_eq_false_iff,
      decide_eq_false_iff_not, Bool.and_eq_false_iff]
    omega
  refine ⟨hnot (by decide), hnot (by decide), trim_eq_self ?_ ?_⟩
  · exact fun c hc => hdigit c (List.mem_of_head? hc)
  · exact fun c hc => hdigit c (List.mem_of_getLast? hc)

theorem plain_fields (h : line.Clean) :
    ∀ field ∈ line.fields.1 ++ [line.fields.2], Plain field := by
  intro field hfield
  cases line with
  | metric m =>
    simp only [Line.fields, List.cons_append, List.nil_append, List.mem_cons, List.not_mem_nil,
      or_false] at hfield
    rcases hfield with rfl | rfl | rfl | rfl
    · cases m.counter <;> decide
    · exact h.1
    · exact h.2.1
    · exact plain_toDigits m.value
  | finish n =>
    simp only [Line.fields, List.cons_append, List.nil_append, List.mem_cons, List.not_mem_nil,
      or_false] at hfield
    rcases hfield with rfl | rfl
    · decide
    · exact plain_toDigits n

theorem newline_notMem_text (h : line.Clean) : '\n' ∉ line.text := by
  have hplain := plain_fields h
  simp only [Line.text, written, id, List.mem_append, List.mem_flatMap, List.mem_singleton]
  rintro (⟨field, hfield, hmem | hmem⟩ | hmem)
  · exact (hplain field (List.mem_append_left _ hfield)).2.1 hmem
  · exact absurd hmem (by decide)
  · exact (hplain _ (by simp)).2.1 hmem

theorem parts_text (h : line.Clean) :
    (line.text.splitOn '\t').map (trim isTrimmed) = line.fields.1 ++ [line.fields.2] := by
  have hplain := plain_fields h
  have hsep : ∀ field ∈ line.fields.1, '\t' ∉ id field :=
    fun field hfield => (hplain field (List.mem_append_left _ hfield)).1
  rw [Line.text, splitOn_written hsep (hplain _ (by simp)).1, List.map_id]
  exact (List.map_congr_left fun field hfield => (hplain field hfield).2.2).trans (List.map_id _)

theorem consumeLine_finish (n : ℕ) :
    consumeLine config seconds s (Line.finish n).text = finishInterval config seconds s := by
  have hclean : (Line.finish n).Clean := trivial
  have hparts := parts_text hclean
  rw [consumeLine, hparts]
  rfl

theorem consumeLine_metric (h : (Line.metric m).Clean)
    (hlt : ∀ dataset ∈ m.path.dataset?, m.value < 2 ^ 53) :
    consumeLine config seconds s (Line.metric m).text =
      match m.path.dataset? with
      | some dataset =>
        { s with interval := count config (some m.counter) m.zone dataset m.value s.interval }
      | none => s := by
  have hparts := parts_text h
  have hkind : m.counter.kind ≠ endWord := by cases m.counter <;> decide
  have hfield : fieldByKind m.counter.kind = some (some m.counter) := by
    cases m.counter <;> decide
  rw [consumeLine, hparts]
  simp only [Line.fields, List.cons_append, List.nil_append, hkind, if_false, hfield,
    datasetFromDevicePath_text h.2.2]
  cases hdataset : m.path.dataset? with
  | none => rfl
  | some dataset => rw [read_toDigits config.numbers (hlt dataset hdataset)]

end Reading

end ZoneweaverAgent.ZvolIo
