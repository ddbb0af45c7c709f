import ZoneweaverAgent.ZvolIoCollector

/-!
# Every interval is stored once

As long as a consumer is only spawned when the earlier ones are over, only the last consumer can
live or write, a timer runs only when none lives, and the line buffer and the interval belong to the
last consumer: what it has sent is the lines that have arrived and the buffer.
-/

namespace ZoneweaverAgent.ZvolIo

open PathScan TextLines Transition

section Intervals
variable {config : Config} {seconds : ℕ} {past : List (List Metric)} {lines done more : List Line}
  {line : Line} {m : Metric} {s : Counting}

theorem cut_concat_metric (lines : List Line) (m : Metric) :
    cut (lines ++ [.metric m]) = ((cut lines).1, (cut lines).2 ++ [m]) := by
  rw [cut, List.foldl_append]
  rfl

theorem cut_concat_finish (lines : List Line) (n : ℕ) :
    cut (lines ++ [.finish n]) = ((cut lines).1 ++ [(cut lines).2], []) := by
  rw [cut, List.foldl_append]
  rfl

/-- No sum of an interval that has begun is too large for a double. -/
def Bounded (lines : List Line) : Prop :=
  ∀ begun, begun <+: lines → ∀ counter zone dataset,
    total counter zone dataset (cut begun).2 < 2 ^ 53

theorem bounded_nil : Bounded [] := by
  intro begun hbegun counter zone dataset
  rw [List.prefix_nil.mp hbegun]
  exact Nat.two_pow_pos 53

theorem Bounded.concat (h : Bounded lines)
    (hline : ∀ m, line = .metric m → ∀ dataset ∈ m.path.dataset?,
      total m.counter m.zone dataset ((cut lines).2 ++ [m]) < 2 ^ 53) :
    Bounded (lines ++ [line]) := by
  intro begun hbegun counter zone dataset
  rcases List.prefix_concat_iff.mp hbegun with rfl | hbegun
  · cases line with
    | metric m =>
      rw [cut_concat_metric]
      by_cases hm : Concerns zone dataset m ∧ m.counter = counter
      · obtain ⟨⟨rfl, hdataset⟩, rfl⟩ := hm
        exact hline m rfl dataset hdataset
      · rw [total_append, if_neg hm]
        exact h lines List.prefix_rfl counter zone dataset
    | finish n =>
      rw [cut_concat_finish]
      exact Nat.two_pow_pos 53
  · exact h begun hbegun counter zone dataset

/-- What the lines that have been read leave behind, `past` being the intervals before them. -/
structure Counts (config : Config) (past : List (List Metric)) (done : List Line) (s : Counting) :
    Prop where
  tallies : Tallies config (cut done).2 s.interval
  counted : List.Forall₂ Sums (past ++ (cut done).1.filter fun ms => HasZvol ms) s.persisted

theorem Tallies.map_eq_nil_iff {ms : List Metric} {interval : KeyedList Text Row}
    (h : Tallies config ms interval) : interval.map Prod.snd = [] ↔ ¬HasZvol ms := by
  rw [List.map_eq_nil_iff]
  constructor
  · rintro rfl ⟨m, hm, hsome⟩
    obtain ⟨dataset, hdataset⟩ := Option.isSome_iff_exists.mp hsome
    obtain ⟨e, he, -⟩ := h.covers m hm dataset hdataset
    exact absurd he List.not_mem_nil
  · intro hnot
    rw [List.eq_nil_iff_forall_not_mem]
    intro e he
    obtain ⟨-, -, ⟨m, hm, hc⟩, -⟩ := h.entry e he
    exact hnot ⟨m, hm, by rw [hc.2]; rfl⟩

theorem Counts.finish (h : Counts config past done s) (n : ℕ) :
    Counts config past (done ++ [.finish n]) (finishInterval config seconds s) := by
  have hnil := h.tallies.map_eq_nil_iff
  refine ⟨?_, ?_⟩
  · rw [cut_concat_finish]
    exact .nil
  · rw [cut_concat_finish, List.filter_append, List.filter_singleton, ← List.append_assoc]
    by_cases hzvol : HasZvol (cut done).2
    · rw [finishInterval, if_neg fun hrows => hnil.mp hrows hzvol]
      simp only [hzvol, decide_true, Bool.cond_true]
      exact List.rel_append h.counted (.cons (h.tallies.sums seconds) .nil)
    · rw [finishInterval, if_pos (hnil.mpr hzvol)]
      simp only [hzvol, decide_false, Bool.cond_false, List.append_nil]
      exact h.counted

theorem Counts.metric (h : Counts config past done s) (hclean : (Line.metric m).Clean)
    (hbounded : Bounded (done ++ [.metric m])) :
    Counts config past (done ++ [.metric m])
      (consumeLine config seconds s (Line.metric m).text) := by
  have hcut := cut_concat_metric done m
  have hlt : ∀ dataset ∈ m.path.dataset?,
      total m.counter m.zone dataset ((cut done).2 ++ [m]) < 2 ^ 53 := by
    intro dataset _
    have hall := hbounded _ List.prefix_rfl m.counter m.zone dataset
    rwa [hcut] at hall
  have hvalue : ∀ dataset ∈ m.path.dataset?, m.value < 2 ^ 53 := by
    intro dataset hdataset
    have hsum := hlt dataset hdataset
    rw [total_append, if_pos ⟨⟨rfl, hdataset⟩, rfl⟩] at hsum
    exact Nat.lt_of_le_of_lt (Nat.le_add_left _ _) hsum
  rw [consumeLine_metric hclean hvalue]
  cases hdataset : m.path.dataset? with
  | none =>
    refine ⟨?_, ?_⟩
    · rw [hcut]
      exact h.tallies.skip hdataset
    · rw [hcut]
      exact h.counted
  | some dataset =>
    refine ⟨?_, ?_⟩
    · rw [hcut]
      exact h.tallies.count hclean.1.1 hdataset (hlt dataset hdataset)
    · rw [hcut]
      exact h.counted

/-- The lines are counted one after the other. -/
theorem Counts.read (h : Counts config past done s) (hclean : ∀ line ∈ more, line.Clean)
    (hbounded : Bounded (done ++ more)) :
    Counts config past (done ++ more)
      ((more.map Line.text).foldl (consumeLine config seconds) s) := by
  induction more generalizing done s with
  | nil => rwa [List.append_nil]
  | cons line more ih =>
    have hsplit : done ++ line :: more = (done ++ [line]) ++ more := by simp
    rw [hsplit] at hbounded ⊢
    have hfirst : Bounded (done ++ [line]) := fun begun hbegun =>
      hbounded begun (hbegun.trans (List.prefix_append _ _))
    rw [List.map_cons, List.foldl_cons]
    refine ih ?_ (fun l hl => hclean l (List.mem_cons_of_mem _ hl)) hbounded
    cases line with
    | metric m => exact h.metric (hclean _ List.mem_cons_self) hfirst
    | finish n =>
      rw [consumeLine_finish]
      exact h.finish n

end Intervals

section Invariant
variable {config : Config} {s s' : State} {earlier : List Child} {c c' : Child} {k n : ℕ}
  {line : Line}

/-- The last consumer's lines that have arrived. -/
def lastDone (children : List Child) : List Line := (children.getLast?.map Child.done).getD []

def lastInput (children : List Child) : Text := (children.getLast?.map Child.input).getD []

structure Child.Fit (c : Child) : Prop where
  received : c.received ≤ c.output.length
  clean : ∀ line ∈ c.lines, line.Clean
  bounded : Bounded c.lines

structure Sound (config : Config) (s : State) : Prop where
  earlier : ∀ c ∈ s.children.dropLast, c.Gone
  timers : s.timers = [] ∨
    (∃ id, s.timers = [id] ∧ s.restartTimer = some id) ∧ ∀ c ∈ s.children, c.Gone
  fit : ∀ c ∈ s.children, c.Fit
  buffer : lastInput s.children =
    written '\n' Line.text (lastDone s.children) ++ s.stdoutBuffer
  counts : Counts config (s.children.dropLast.flatMap Child.reported) (lastDone s.children)
    s.counting

theorem sound_created : Sound config created where
  earlier := nofun
  timers := .inl rfl
  fit := nofun
  buffer := rfl
  counts := ⟨.nil, .nil⟩

theorem lastDone_concat (earlier : List Child) (c : Child) :
    lastDone (earlier ++ [c]) = c.done := by
  rw [lastDone, List.getLast?_concat]
  rfl

theorem lastInput_concat (earlier : List Child) (c : Child) :
    lastInput (earlier ++ [c]) = c.input := by
  rw [lastInput, List.getLast?_concat]
  rfl

/-- What has been stored are the intervals that all consumers have reported. -/
theorem Sound.counted (h : Sound config s) :
    List.Forall₂ Sums (s.children.flatMap Child.reported) s.counting.persisted := by
  have hcounted := h.counts.counted
  rcases List.eq_nil_or_concat' s.children with hnil | ⟨earlier, c, hchildren⟩
  · rw [hnil] at hcounted ⊢
    exact hcounted
  · rw [hchildren, lastDone_concat, List.dropLast_concat] at hcounted
    rw [hchildren, List.flatMap_append, List.flatMap_singleton]
    exact hcounted

theorem exists_concat {children : List Child} (hk : children[k]? = some c)
    (hlast : k + 1 = children.length) :
    ∃ earlier, children = earlier ++ [c] ∧ k = earlier.length := by
  rcases List.eq_nil_or_concat' children with hnil | ⟨earlier, last, hchildren⟩
  · rw [hnil] at hlast
    exact absurd hlast (Nat.succ_ne_zero k)
  · rw [hchildren, List.length_append, List.length_singleton] at hlast
    have hlength : k = earlier.length := Nat.succ.inj hlast
    rw [hchildren, hlength, List.getElem?_concat_length] at hk
    cases hk
    exact ⟨earlier, hchildren, hlength⟩

/-- A consumer that is not over is the last one. -/
theorem Sound.last (h : Sound config s) (hk : s.children[k]? = some c) (hc : ¬c.Gone) :
    ∃ earlier, s.children = earlier ++ [c] ∧ k = earlier.length := by
  refine exists_concat hk (Nat.le_antisymm (List.getElem?_eq_some_iff.mp hk).1 ?_)
  by_contra hlt
  refine hc (h.earlier c (List.mem_of_getElem? (i := k) ?_))
  rw [List.getElem?_dropLast, if_pos (by omega), hk]

/-- While the last consumer is not over, no timer is under way. -/
theorem Sound.timers_eq_nil (h : Sound config s) (hmem : c ∈ s.children) (hc : ¬c.Gone) :
    s.timers = [] := by
  rcases h.timers with hnil | ⟨-, hgone⟩
  · exact hnil
  · exact absurd (hgone c hmem) hc

/-- The last consumer is replaced by one with the same lines read. -/
theorem Sound.replace (h : Sound config s) (hchildren : s.children = earlier ++ [c])
    (hs' : s'.children = earlier ++ [c']) (hfit : c'.Fit) (hdone : c'.done = c.done)
    (hinput : c'.input = c.input) (hbuffer : s'.stdoutBuffer = s.stdoutBuffer)
    (hinterval : s'.counting.interval = s.counting.interval)
    (hpersisted : s'.counting.persisted = s.counting.persisted)
    (htimers : s'.timers = [] ∨
      (∃ id, s'.timers = [id] ∧ s'.restartTimer = some id) ∧ ∀ c ∈ s'.children, c.Gone) :
    Sound config s' where
  earlier := by
    have hearlier := h.earlier
    rw [hchildren, List.dropLast_concat] at hearlier
    rwa [hs', List.dropLast_concat]
  timers := htimers
  fit := by
    intro x hx
    rw [hs', List.mem_append, List.mem_singleton] at hx
    rcases hx with hx | rfl
    · exact h.fit x (hchildren ▸ List.mem_append_left _ hx)
    · exact hfit
  buffer := by
    have hold := h.buffer
    rw [hchildren, lastInput_concat, lastDone_concat] at hold
    rw [hs', lastInput_concat, lastDone_concat, hdone, hinput, hbuffer, hold]
  counts := by
    obtain ⟨htallies, hcounted⟩ := h.counts
    rw [hchildren, lastDone_concat] at htallies
    rw [hchildren, lastDone_concat, List.dropLast_concat] at hcounted
    refine ⟨?_, ?_⟩
    · rw [hs', lastDone_concat, hdone, hinterval]
      exact htallies
    · rw [hs', lastDone_concat, List.dropLast_concat, hdone, hpersisted]
      exact hcounted

theorem mem_find {p : Child → Prop} [DecidablePred p] (h : s.find k p = some c) :
    s.children[k]? = some c ∧ p c := by
  obtain ⟨hget, hp⟩ := Option.filter_eq_some_iff.mp h
  exact ⟨hget, of_decide_eq_true hp⟩

theorem set_concat (earlier : List Child) (c c' : Child) :
    (earlier ++ [c]).set earlier.length c' = earlier ++ [c'] := by
  rw [List.set_append_right _ _ le_rfl, Nat.sub_self]
  rfl

end Invariant

section Steps
variable {config : Config} {s s' : State} {earlier : List Child} {c : Child} {k n : ℕ}
  {line : Line} {spawned : Bool}

/-- Where the last consumer has stopped inside of its lines. -/
theorem Child.Fit.exists_more (h : c.Fit) : ∃ more tail, c.lines = c.done ++ more ∧
    c.input = written '\n' Line.text c.done ++ tail ∧ '\n' ∉ tail :=
  exists_arrived (List.take_append_drop c.received c.output)
    fun line hline => newline_notMem_text (h.clean line hline)

theorem Sound.write (h : Sound config s) (hchildren : s.children = earlier ++ [c])
    (hrunning : c.status = .running) (hclean : line.Clean)
    (hbounded : Bounded (c.lines ++ [line])) :
    Sound config { s with children := earlier ++ [{ c with lines := c.lines ++ [line] }] } := by
  have hfit : c.Fit := h.fit c (hchildren ▸ by simp)
  have hgone : ¬c.Gone := by simp [Child.Gone, hrunning]
  obtain ⟨more, tail, hlines, hinput, htail⟩ := hfit.exists_more
  have houtput : Child.output { c with lines := c.lines ++ [line] } =
      c.output ++ written '\n' Line.text [line] := written_append _ _
  have hinput' : Child.input { c with lines := c.lines ++ [line] } = c.input := by
    rw [Child.input, houtput, Child.input]
    exact List.take_append_of_le_length hfit.received
  refine h.replace hchildren rfl ⟨?_, ?_, hbounded⟩ ?_ hinput' rfl rfl rfl
    (.inl (h.timers_eq_nil (hchildren ▸ by simp) hgone))
  · rw [houtput, List.length_append]
    exact hfit.received.trans (Nat.le_add_right _ _)
  · intro l hl
    rcases List.mem_append.mp hl with hold | hnew
    · exact hfit.clean l hold
    · rwa [List.mem_singleton.mp hnew]
  · rw [Child.done, hinput', hinput]
    change arrived '\n' Line.text (c.lines ++ [line]) _ = _
    conv_lhs => rw [hlines, List.append_assoc]
    rw [arrived_append, arrived_of_notMem htail, List.append_nil]

/-- The buffer is what was there of the next line, so the chunk ends the lines that have arrived
with it. -/
theorem Sound.chunk (h : Sound config s) (hchildren : s.children = earlier ++ [c])
    (hn : c.received + n ≤ c.output.length) :
    Sound config (consumeStdout config ((c.output.drop c.received).take n)
      { s with children := earlier ++ [{ c with received := c.received + n }] }) := by
  have hfit : c.Fit := h.fit c (hchildren ▸ by simp)
  obtain ⟨more, -, hlines, -⟩ := hfit.exists_more
  have hbuffer := h.buffer
  rw [hchildren, lastInput_concat, lastDone_concat] at hbuffer
  have hinput : Child.input { c with received := c.received + n } =
      written '\n' Line.text c.done ++ (s.stdoutBuffer ++ (c.output.drop c.received).take n) := by
    rw [← List.append_assoc, ← hbuffer]
    exact List.take_add
  have hrest : (s.stdoutBuffer ++ (c.output.drop c.received).take n) ++
      c.output.drop (c.received + n) = written '\n' Line.text more := by
    have hwhole := List.take_append_drop (c.received + n) c.output
    have houtput : c.output = written '\n' Line.text c.done ++ written '\n' Line.text more := by
      rw [← written_append, ← hlines]
      rfl
    change Child.input { c with received := c.received + n } ++ _ = _ at hwhole
    rw [hinput, List.append_assoc] at hwhole
    exact List.append_cancel_left (hwhole.trans houtput)
  have hmore : ∀ line ∈ more, line.Clean := fun line hline =>
    hfit.clean line (hlines ▸ List.mem_append_right _ hline)
  obtain ⟨rest, tail, hsplit, hchunk, htail⟩ :=
    exists_arrived hrest fun line hline => newline_notMem_text (hmore line hline)
  generalize arrived '\n' Line.text more
    (s.stdoutBuffer ++ (c.output.drop c.received).take n) = new at hsplit hchunk
  have hnew : ∀ line ∈ new, line.Clean := fun line hline =>
    hmore line (hsplit ▸ List.mem_append_left _ hline)
  have hdone : Child.done { c with received := c.received + n } = c.done ++ new := by
    rw [Child.done, hinput, hchunk]
    change arrived '\n' Line.text c.lines _ = _
    conv_lhs => rw [hlines, hsplit, ← List.append_assoc, ← List.append_assoc, ← written_append,
      arrived_append, arrived_of_notMem htail, List.append_nil]
  have hpieces : (s.stdoutBuffer ++ (c.output.drop c.received).take n).splitOn '\n' =
      new.map Line.text ++ [tail] := by
    rw [hchunk]
    exact splitOn_written (fun line hline => newline_notMem_text (hnew line hline)) htail
  have hconsume : consumeStdout config ((c.output.drop c.received).take n)
      { s with children := earlier ++ [{ c with received := c.received + n }] } =
        { s with
          children := earlier ++ [{ c with received := c.received + n }]
          stdoutBuffer := tail
          counting :=
            (new.map Line.text).foldl (consumeLine config s.intervalSeconds) s.counting } := by
    simp only [consumeStdout, hpieces, List.dropLast_concat, List.getLastD_concat]
  have hprefix : c.done ++ new <+: c.lines := by
    rw [hlines, hsplit, ← List.append_assoc]
    exact List.prefix_append _ _
  have hcounts := h.counts
  rw [hchildren, lastDone_concat, List.dropLast_concat] at hcounts
  have hearlier := h.earlier
  rw [hchildren, List.dropLast_concat] at hearlier
  rw [hconsume]
  refine ⟨?_, ?_, ?_, ?_, ?_⟩
  · rwa [List.dropLast_concat]
  · refine h.timers.imp_right (And.imp_right fun hall x hx => ?_)
    rcases List.mem_append.mp hx with hx | hx
    · exact hearlier x hx
    · rw [List.mem_singleton.mp hx]
      exact hall c (hchildren ▸ by simp)
  · intro x hx
    rcases List.mem_append.mp hx with hx | hx
    · exact h.fit x (hchildren ▸ List.mem_append_left _ hx)
    · rw [List.mem_singleton.mp hx]
      exact ⟨hn, hfit.clean, hfit.bounded⟩
  · rw [lastInput_concat, lastDone_concat, hinput, hdone, hchunk, written_append,
      List.append_assoc]
  · rw [lastDone_concat, List.dropLast_concat, hdone]
    exact hcounts.read hnew fun begun hbegun => hfit.bounded begun (hbegun.trans hprefix)

/-- At most one more timer, and nothing of what has been read. -/
theorem scheduleRestart_cases (config : Config) (s : State) : ∃ failures disabled,
    scheduleRestart config s =
        { s with counting := { s.counting with consecutiveFailures := failures }, disabled } ∨
      scheduleRestart config s =
        { s with
          counting := { s.counting with consecutiveFailures := failures }
          restartTimer := some s.issued
          timers := s.timers ++ [s.issued]
          issued := s.issued + 1 } := by
  unfold scheduleRestart
  dsimp only
  split_ifs
  · exact ⟨s.counting.consecutiveFailures, s.disabled, .inl rfl⟩
  · exact ⟨_, true, .inl rfl⟩
  · exact ⟨_, s.disabled, .inr rfl⟩

/-- The last consumer fails or exits. -/
theorem Sound.scheduleRestart {status : Status} (h : Sound config s)
    (hchildren : s.children = earlier ++ [c]) (hc : ¬c.Gone)
    (hgone : status = .failed ∨ status = .over) :
    Sound config (scheduleRestart config
      { s with child := none, children := earlier ++ [{ c with status }] }) := by
  have hfit : c.Fit := h.fit c (hchildren ▸ by simp)
  have hfit' : Child.Fit { c with status } := ⟨hfit.received, hfit.clean, hfit.bounded⟩
  have htimers : s.timers = [] := h.timers_eq_nil (hchildren ▸ by simp) hc
  have hall : ∀ x ∈ earlier ++ [{ c with status }], x.Gone := by
    intro x hx
    rcases List.mem_append.mp hx with hx | hx
    · refine h.earlier x ?_
      rwa [hchildren, List.dropLast_concat]
    · rw [List.mem_singleton.mp hx]
      exact hgone
  obtain ⟨failures, disabled, hs' | hs'⟩ := scheduleRestart_cases config
    { s with child := none, children := earlier ++ [{ c with status }] }
  · rw [hs']
    exact h.replace hchildren rfl hfit' rfl rfl rfl rfl rfl (.inl htimers)
  · rw [hs']
    refine h.replace hchildren rfl hfit' rfl rfl rfl rfl rfl (.inr ⟨⟨s.issued, ?_, rfl⟩, hall⟩)
    change s.timers ++ [s.issued] = [s.issued]
    rw [htimers, List.nil_append]

/-- A consumer is spawned when the earlier ones are over. -/
theorem Sound.spawnConsumer (h : Sound config s) (hover : ∀ c ∈ s.children, c.Gone)
    (htimers : s.timers = []) (spawned : Bool) (seconds : ℕ) :
    Sound config (spawnConsumer spawned seconds s) where
  earlier := by
    rw [ZvolIo.spawnConsumer, List.dropLast_concat]
    exact hover
  timers := .inl htimers
  fit := by
    intro c hc
    rcases List.mem_append.mp hc with hold | hnew
    · exact h.fit c hold
    · rw [List.mem_singleton.mp hnew]
      exact ⟨Nat.zero_le _, nofun, bounded_nil⟩
  buffer := by
    rw [ZvolIo.spawnConsumer, lastInput_concat, lastDone_concat]
    rfl
  counts := by
    rw [ZvolIo.spawnConsumer, lastDone_concat, List.dropLast_concat]
    refine ⟨.nil, ?_⟩
    have hcounted := h.counted
    rwa [← List.append_nil (s.children.flatMap Child.reported)] at hcounted

theorem Sound.restart (h : Sound config s) {id : ℕ} (hid : id ∈ s.timers) (spawned : Bool) :
    Sound config (restart id spawned s) := by
  obtain ⟨hone, hgone⟩ := h.timers.resolve_left (List.ne_nil_of_mem hid)
  obtain ⟨other, htimers, -⟩ := hone
  have hnil : s.timers.erase id = [] := by
    rw [htimers, List.mem_singleton] at hid
    rw [htimers, hid, List.erase_cons_head]
  have hidle : Sound config { s with timers := s.timers.erase id, restartTimer := none } :=
    ⟨h.earlier, .inl hnil, h.fit, h.buffer, h.counts⟩
  unfold ZvolIo.restart
  dsimp only
  split_ifs
  · exact hidle.spawnConsumer hgone hnil _ _
  · exact hidle

theorem Sound.start (h : Sound config s) (hfits : Fits config s (.start spawned)) :
    Sound config (start config spawned s) := by
  unfold ZvolIo.start
  split_ifs with hstarts
  · obtain ⟨htimers, hover⟩ := hfits hstarts
    have hstarted : Sound config { s with stopping := false } :=
      ⟨h.earlier, h.timers, h.fit, h.buffer, h.counts⟩
    exact hstarted.spawnConsumer hover htimers _ _
  · exact h

theorem Sound.stop (h : Sound config s) : Sound config (stop s) := by
  have hnil : (ZvolIo.stop s).timers = [] := by
    rcases h.timers with hnil | ⟨⟨id, htimers, hid⟩, -⟩
    · cases hid : s.restartTimer <;> simp [ZvolIo.stop, hid, hnil]
    · simp [ZvolIo.stop, hid, htimers]
  exact ⟨h.earlier, .inl hnil, h.fit, h.buffer, h.counts⟩

theorem Sound.step {l : Label} (h : Sound config s) (hfits : Fits config s l)
    (hstep : step config s l = some s') : Sound config s' := by
  cases l with
  | start spawned =>
    cases hstep
    exact h.start hfits
  | stop =>
    cases hstep
    exact h.stop
  | timer id spawned =>
    rw [ZvolIo.step] at hstep
    split_ifs at hstep with hid
    cases hstep
    exact h.restart hid spawned
  | write k line =>
    obtain ⟨c, hfind, rfl⟩ := Option.map_eq_some_iff.mp hstep
    obtain ⟨hk, hrunning⟩ := mem_find hfind
    have hlive : ¬c.Gone := by simp [Child.Gone, hrunning]
    obtain ⟨earlier, hchildren, rfl⟩ := h.last hk hlive
    have hbounded := (h.fit c (hchildren ▸ by simp)).bounded
    rw [hchildren, set_concat]
    cases line with
    | metric m =>
      refine h.write hchildren hrunning hfits.1 (hbounded.concat ?_)
      rintro _ ⟨⟩
      exact hfits.2 c hk
    | finish seconds => exact h.write hchildren hrunning trivial (hbounded.concat nofun)
  | ended k =>
    obtain ⟨c, hfind, rfl⟩ := Option.map_eq_some_iff.mp hstep
    obtain ⟨hk, hrunning⟩ := mem_find hfind
    have hlive : ¬c.Gone := by simp [Child.Gone, hrunning]
    obtain ⟨earlier, hchildren, rfl⟩ := h.last hk hlive
    have hfit : c.Fit := h.fit c (hchildren ▸ by simp)
    rw [hchildren, set_concat]
    exact h.replace hchildren rfl ⟨hfit.received, hfit.clean, hfit.bounded⟩ rfl rfl rfl rfl rfl
      (.inl (h.timers_eq_nil (hchildren ▸ by simp) hlive))
  | chunk k n =>
    obtain ⟨c, hfind, rfl⟩ := Option.map_eq_some_iff.mp hstep
    obtain ⟨hk, -, hn⟩ := mem_find hfind
    obtain ⟨earlier, hchildren, rfl⟩ := exists_concat hk hfits
    rw [hchildren, set_concat]
    exact h.chunk hchildren hn
  | error k =>
    obtain ⟨c, hfind, rfl⟩ := Option.map_eq_some_iff.mp hstep
    obtain ⟨hk, hrefused⟩ := mem_find hfind
    have hlive : ¬c.Gone := by simp [Child.Gone, hrefused]
    obtain ⟨earlier, hchildren, rfl⟩ := h.last hk hlive
    rw [hchildren, set_concat]
    exact h.scheduleRestart hchildren hlive (.inl rfl)
  | exit k =>
    obtain ⟨c, hfind, rfl⟩ := Option.map_eq_some_iff.mp hstep
    have hk := (mem_find hfind).1
    have hlive : ¬c.Gone := by simp [Child.Gone, hfits c hk]
    obtain ⟨earlier, hchildren, rfl⟩ := h.last hk hlive
    rw [hchildren, set_concat]
    exact h.scheduleRestart hchildren hlive (.inr rfl)
  | denied k =>
    obtain ⟨c, -, rfl⟩ := Option.map_eq_some_iff.mp hstep
    exact ⟨h.earlier, h.timers, h.fit, h.buffer, h.counts⟩

theorem Sound.safe (h : Sound config s) : Safe s where
  single j k c c' hj hk hc hc' := by
    have hlive : ¬c.Gone := by simp [Child.Gone, hc]
    have hlive' : ¬c'.Gone := by simp [Child.Gone, hc']
    obtain ⟨earlier, hchildren, rfl⟩ := h.last hj hlive
    obtain ⟨earlier', hchildren', rfl⟩ := h.last hk hlive'
    have hlength := congrArg List.length (hchildren.symm.trans hchildren')
    simpa using hlength
  counted := ⟨_, .refl _, h.counted⟩

theorem intervals_stored_once (h : Reaches (ZvolIo.step config) (Fits config) created s) : Safe s :=
  (h.invariant sound_created fun _ _ _ hs hok hstep => hs.step hok hstep).safe

end Steps

section Given

def given : Config where
  numbers := ⟨fun _ => none, id⟩
  hostname := ['h']
  enabled := none
  interval := none
  maxConsecutiveErrors := 5

def boot (raw : Bool) : Path := .device [['z']] raw ['p', '/', 'b']

/-- Both paths of a dataset in one interval, whose lines arrive in two chunks. -/
theorem intervals_stored_once_small : ∃ s, Safe s ∧ s.counting.persisted.map
    (List.map fun r => (r.row.zoneName, r.row.dataset, r.row.readOps)) =
      [[(['z'], ['p', '/', 'b'], 7)]] := by
  obtain ⟨s, hs, hpersisted⟩ := exists_reaches_of_run (step given) (Fits given) created
    [.start true, .write 0 (.metric ⟨.readOps, ['z'], boot true, 3⟩),
      .write 0 (.metric ⟨.readOps, ['z'], boot false, 4⟩), .write 0 (.finish 17), .chunk 0 9,
      .ended 0, .exit 0, .chunk 0 53, .timer 0 true]
    (P := fun s => s.counting.persisted.map
      (List.map fun r => (r.row.zoneName, r.row.dataset, r.row.readOps)) =
        [[(['z'], ['p', '/', 'b'], 7)]]) (by decide +kernel)
  exact ⟨s, intervals_stored_once hs, hpersisted⟩

/-- The exit of a consumer that was stopped has another one spawned beside the one of the second
start. -/
theorem intervals_stored_once_fails : ¬∀ s,
    Reaches (step given) (fun _ _ => True) created s → Safe s := by
  intro hsafe
  obtain ⟨s, hs, hone, htwo⟩ := exists_reaches_of_run (step given) (fun _ _ => True) created
    [.start true, .stop, .start true, .ended 0, .exit 0, .timer 0 true]
    (P := fun s => s.children[1]?.map Child.status = some .running ∧
      s.children[2]?.map Child.status = some .running) (by decide +kernel)
  obtain ⟨c, hc, hrunning⟩ := Option.map_eq_some_iff.mp hone
  obtain ⟨c', hc', hrunning'⟩ := Option.map_eq_some_iff.mp htwo
  exact absurd ((hsafe s hs).single 1 2 c c' hc hc' hrunning hrunning') nofun

end Given

end ZoneweaverAgent.ZvolIo
