import Mathlib.Data.List.Chain
import Mathlib.Tactic.Linarith
import ZoneweaverAgent.SnapshotSchedule

/-!
# What the schedule creates

The flag that keeps ticks apart makes the query and the insert behind it one step as far as this
service is concerned, so that a zone never waits for two of its snapshots. Every task it creates is
one that the policy of the zone asks for at the minute of the tick.
-/

namespace ZoneweaverAgent.SnapshotSchedule
open Transition

variable {number : Json → Option ℚ} {parse : String → Option Json} {s s' : State} {t : Tick}
  {k : ℕ} {phase : Option Phase}

section Statement

/-- A snapshot of the zone that this service has created and that has not ended. -/
def mine (zoneName : String) (row : Row) : Bool :=
  row.rotation && row.zoneName = zoneName && live row.status

/-- What the policy of a zone asks for at the moment of a tick. -/
inductive Asked (number : Json → Option ℚ) (policy : Json) (reading : Reading) : Metadata → Prop
  | rotation {tier : Tier} : hasType policy "rotation" = true →
      tier ∈ dueRotationTiers reading.now → Asked number policy reading
        ⟨tier.name, tierRetention number policy tier, none,
          policy.field "quiesce" = some (.bool true)⟩
  | simple : hasType policy "simple" = true → reading.fireSimple = true →
      Asked number policy reading ⟨"auto", .num (numberOr number (policy.field "keep") 24), none,
        policy.field "quiesce" = some (.bool true)⟩
  | age : hasType policy "age" = true → reading.fireSimple = true →
      Asked number policy reading
        ⟨"auto", .num 0, some (numberOr number (policy.field "max_age_days") 14),
          policy.field "quiesce" = some (.bool true)⟩

/-- The job was asked for by the effective policy of the zone, as a tick has read it. -/
def Prescribed (number : Json → Option ℚ) (parse : String → Option Json) (s : State)
    (zoneName : String) (job : Metadata) : Prop :=
  ∃ reading ∈ s.readings, reading.zone.name = zoneName ∧
    (reading.fireSimple = true → ∃ interval, (interval, reading.ms) ∈ s.fires) ∧
    ∃ policy, effectivePolicy parse reading.zone reading.defaults = some policy ∧
      Asked number policy reading job

/-- A firing of the simple policies and the one before it. -/
def Spaced (newer older : ℚ × ℚ) : Prop := newer.1 * 60000 ≤ newer.2 - older.2

end Statement

section Exclusion

structure Exclusive (s : State) : Prop where
  single : s.ticks.length ≤ 1
  idle : s.running = false → s.ticks = []
  once : ∀ zoneName, s.rows.countP (mine zoneName) ≤ 1
  clear : ∀ t ∈ s.ticks, ∀ zone job jobs rest, t.phase = .creating zone job jobs rest →
    s.rows.countP (mine zone.name) = 0

theorem exclusive_initial : Exclusive .initial where
  single := Nat.zero_le 1
  idle _ := rfl
  once _ := Nat.zero_le 1
  clear t hmem := by cases hmem

theorem nextZone_ne_creating (zones : List Zone) {zone job jobs rest} :
    t.nextZone number parse zones ≠ some (.creating zone job jobs rest) := by
  induction zones with
  | nil => simp [Tick.nextZone]
  | cons first zones ih =>
    unfold Tick.nextZone
    split
    · simp
    · exact ih
    · simp

theorem nextJob_ne_creating (zone : Zone) (jobs : List Metadata) (rest : List Zone)
    {zone' job' jobs' rest'} :
    t.nextJob number parse zone jobs rest ≠ some (.creating zone' job' jobs' rest') := by
  cases jobs with
  | nil => exact nextZone_ne_creating rest
  | cons job jobs => simp [Tick.nextJob]

/-- The only tick moves on, or ends. -/
theorem exclusive_proceed (hsingle : s.ticks.length ≤ 1)
    (hidle : s.running = false → s.ticks = [])
    (honce : ∀ zoneName, s.rows.countP (mine zoneName) ≤ 1) (hk : s.ticks[k]? = some t)
    (hclear : ∀ zone job jobs rest, phase = some (.creating zone job jobs rest) →
      s.rows.countP (mine zone.name) = 0) : Exclusive (s.proceed k t phase) := by
  obtain ⟨only, honly⟩ : ∃ only, s.ticks = [only] := by
    have hlt := (List.getElem?_eq_some_iff.mp hk).1
    exact List.length_eq_one_iff.mp (by omega)
  obtain rfl : k = 0 := by
    have hlt := (List.getElem?_eq_some_iff.mp hk).1
    rw [honly, List.length_singleton] at hlt
    omega
  cases phase with
  | none =>
    have hnone : (s.proceed 0 t none).ticks = [] := by simp [State.proceed, honly]
    refine ⟨by simp [hnone], fun _ => hnone, honce, ?_⟩
    rw [hnone]
    simp
  | some phase =>
    have hsome : (s.proceed 0 t (some phase)).ticks = [{ t with phase := phase }] := by
      simp [State.proceed, honly]
    refine ⟨by simp [hsome], ?_, honce, ?_⟩
    · intro hrunning
      have hnone := hidle hrunning
      rw [honly] at hnone
      cases hnone
    · rw [hsome]
      rintro other hmem zone job jobs rest hphase
      rw [List.mem_singleton.mp hmem] at hphase
      exact hclear zone job jobs rest (congrArg some hphase)

theorem Exclusive.tick (h : Exclusive s) (ms : ℚ) (fireSimple : Bool) (now : Moment)
    (snapshots : Option Json) : Exclusive (tick number s ms fireSimple now snapshots) := by
  unfold SnapshotSchedule.tick
  split_ifs with hrunning
  · exact h
  · have hnone := h.idle (by simpa using hrunning)
    refine ⟨by simp [hnone], by rintro ⟨⟩, h.once, ?_⟩
    intro t hmem zone job jobs rest hphase
    rw [hnone, List.nil_append, List.mem_singleton] at hmem
    rw [hmem] at hphase
    cases hphase

theorem Exclusive.rows (h : Exclusive s) {rows : List Row}
    (hless : ∀ zoneName, rows.countP (mine zoneName) ≤ s.rows.countP (mine zoneName)) :
    Exclusive { s with rows := rows } where
  single := h.single
  idle := h.idle
  once zoneName := (hless zoneName).trans (h.once zoneName)
  clear t hmem zone job jobs rest hphase :=
    Nat.le_zero.mp ((hless zone.name).trans_eq (h.clear t hmem zone job jobs rest hphase))

theorem countP_set_le {rows : List Row} {i : ℕ} {row row' : Row} {p : Row → Bool}
    (hi : rows[i]? = some row) (hp : p row' = true → p row = true) :
    (rows.set i row').countP p ≤ rows.countP p := by
  obtain ⟨hlt, hrow⟩ := List.getElem?_eq_some_iff.mp hi
  have hpos : p row = true → 0 < rows.countP p := fun hrow' =>
    List.countP_pos_iff.mpr ⟨row, List.mem_of_getElem? hi, hrow'⟩
  rw [List.countP_set hlt, hrow]
  split_ifs with hold hnew hnew
  · have := hpos hold
    omega
  · omega
  · exact absurd (hp hnew) hold
  · omega

theorem Exclusive.step (h : Exclusive s) {l : Label} (hfits : Fits s l)
    (hstep : step number parse s l = some s') : Exclusive s' := by
  cases l with
  | startSnapshotRotation snapshots =>
    simp only [SnapshotSchedule.step] at hstep
    split_ifs at hstep
    · cases hstep
      exact h
    · cases hstep
      exact ⟨h.single, h.idle, h.once, h.clear⟩
  | stopSnapshotRotation =>
    cases hstep
    exact ⟨h.single, h.idle, h.once, h.clear⟩
  | fire ms now snapshots =>
    obtain ⟨interval, -, rfl⟩ := Option.map_eq_some_iff.mp hstep
    split_ifs
    · apply Exclusive.tick
      exact ⟨h.single, h.idle, h.once, h.clear⟩
    · exact h.tick ms false now snapshots
  | zonesRead k zones =>
    obtain ⟨t, hk, ht⟩ := Option.bind_eq_some_iff.mp hstep
    split at ht
    · cases ht
      refine exclusive_proceed h.single h.idle h.once hk ?_
      intro zone job jobs rest hphase
      exact absurd hphase (nextZone_ne_creating zones)
    · cases ht
  | found k =>
    obtain ⟨t, hk, ht⟩ := Option.bind_eq_some_iff.mp hstep
    split at ht
    case h_1 zone job jobs rest hphase =>
      cases ht
      refine exclusive_proceed h.single h.idle h.once hk ?_
      intro zone' job' jobs' rest' hnext
      split_ifs at hnext with hexisting
      · exact absurd hnext (nextJob_ne_creating zone jobs rest)
      · cases hnext
        rw [List.countP_eq_zero]
        intro row hrow hmine
        simp only [mine, Bool.and_eq_true, decide_eq_true_eq] at hmine
        apply hexisting
        exact List.any_eq_true.mpr ⟨row, hrow, by simp [hmine.1.2, hmine.2]⟩
    case h_2 => cases ht
  | created k =>
    obtain ⟨t, hk, ht⟩ := Option.bind_eq_some_iff.mp hstep
    split at ht
    case h_1 zone job jobs rest hphase =>
      cases ht
      have hclear := h.clear t (List.mem_of_getElem? hk) zone job jobs rest hphase
      refine exclusive_proceed h.single h.idle ?_ hk ?_
      · intro zoneName
        have honce := h.once zoneName
        rw [List.countP_append, List.countP_singleton]
        by_cases hname : zone.name = zoneName
        · subst hname
          rw [hclear]
          split_ifs <;> omega
        · simpa [mine, hname] using honce
      · intro zone' job' jobs' rest' hnext
        exact absurd hnext (nextJob_ne_creating zone jobs rest)
    case h_2 => cases ht
  | fails k =>
    obtain ⟨t, hk, rfl⟩ := Option.map_eq_some_iff.mp hstep
    exact exclusive_proceed h.single h.idle h.once hk (by rintro _ _ _ _ ⟨⟩)
  | other row =>
    cases hstep
    apply h.rows
    intro zoneName
    simp [mine]
  | status i status =>
    obtain ⟨row, hi, rfl⟩ := Option.map_eq_some_iff.mp hstep
    apply h.rows
    intro zoneName
    apply countP_set_le hi
    intro hmine
    simp only [mine, Bool.and_eq_true] at hmine ⊢
    exact ⟨hmine.1, hfits row hi hmine.2⟩
  | destroy i =>
    cases hstep
    apply h.rows
    intro zoneName
    exact (List.eraseIdx_sublist s.rows i).countP_le

/-- Enabled, with a rotation for the zones that have no policy of their own. -/
def rotating : Option Json :=
  some (.obj [("enabled", .bool true), ("default_policy", .obj [("type", .str "rotation")])])

/-- A tick at a full hour, up to its insert, and a minute later one that is not let in. -/
def hourLabels : List Label :=
  [.startSnapshotRotation rotating,
    .fire 0 ⟨⟨0, by decide⟩, ⟨5, by decide⟩, ⟨2, by decide⟩⟩ rotating,
    .zonesRead 0 [⟨"web", none⟩], .found 0, .other ⟨"web", false, .pending, none⟩,
    .fire 60000 ⟨⟨1, by decide⟩, ⟨5, by decide⟩, ⟨2, by decide⟩⟩ rotating, .created 0]

end Exclusion

section Provenance

/-- A job of a zone as the tick has read it. -/
def Due (number : Json → Option ℚ) (parse : String → Option Json) (t : Tick) (zone : Zone)
    (job : Metadata) : Prop :=
  ∃ policy, effectivePolicy parse zone t.defaults = some policy ∧
    Asked number policy (t.reading zone) job

theorem due_of_zoneJobs {zone : Zone} {jobs : List Metadata}
    (h : zoneJobs number parse t.defaults t.now t.fireSimple zone = some jobs) :
    ∀ job ∈ jobs, Due number parse t zone job := by
  obtain ⟨policy, hpolicy, rfl⟩ := Option.map_eq_some_iff.mp h
  intro job hmem
  refine ⟨policy, hpolicy, ?_⟩
  split_ifs at hmem with _ _ hsimple
  · cases hmem
  · cases hmem
  · cases hmem
  unfold runZonePolicy at hmem
  dsimp only at hmem
  split_ifs at hmem with hrotation hs ha
  · obtain ⟨tier, htier, rfl⟩ := List.mem_map.mp hmem
    exact .rotation hrotation htier
  · rw [List.mem_singleton.mp hmem]
    exact .simple hs (by simpa [hrotation, Tick.reading] using hsimple)
  · rw [List.mem_singleton.mp hmem]
    exact .age ha (by simpa [hrotation, Tick.reading] using hsimple)
  · cases hmem

/-- What a tick is still to do comes from what it has read. -/
def Phase.Backed (number : Json → Option ℚ) (parse : String → Option Json)
    (readings : List Reading) (t : Tick) : Phase → Prop
  | .zones => True
  | .finding zone job jobs rest | .creating zone job jobs rest =>
    t.reading zone ∈ readings ∧ (∀ j ∈ job :: jobs, Due number parse t zone j) ∧
      ∀ z ∈ rest, t.reading z ∈ readings

variable {readings : List Reading}

theorem backed_nextZone {zones : List Zone} (h : ∀ z ∈ zones, t.reading z ∈ readings)
    {phase : Phase} (hnext : t.nextZone number parse zones = some phase) :
    phase.Backed number parse readings t := by
  induction zones with
  | nil => cases hnext
  | cons zone zones ih =>
    obtain ⟨hzone, hrest⟩ := List.forall_mem_cons.mp h
    unfold Tick.nextZone at hnext
    split at hnext
    · cases hnext
    · exact ih hrest hnext
    case h_3 job jobs hjobs =>
      cases hnext
      exact ⟨hzone, due_of_zoneJobs hjobs, hrest⟩

theorem backed_nextJob {zone : Zone} {jobs : List Metadata} {rest : List Zone}
    (hzone : t.reading zone ∈ readings) (hjobs : ∀ j ∈ jobs, Due number parse t zone j)
    (hrest : ∀ z ∈ rest, t.reading z ∈ readings) {phase : Phase}
    (hnext : t.nextJob number parse zone jobs rest = some phase) :
    phase.Backed number parse readings t := by
  cases jobs with
  | nil => exact backed_nextZone hrest hnext
  | cons job jobs =>
    cases hnext
    exact ⟨hzone, hjobs, hrest⟩

theorem Phase.Backed.mono {phase : Phase} (h : phase.Backed number parse readings t)
    {more : List Reading} (hmore : readings ⊆ more) : phase.Backed number parse more t := by
  cases phase with
  | zones => trivial
  | finding | creating => exact ⟨hmore h.1, h.2.1, fun z hz => hmore (h.2.2 z hz)⟩

structure Accounted (number : Json → Option ℚ) (parse : String → Option Json) (s : State) :
    Prop where
  rows : ∀ row ∈ s.rows, row.rotation = true →
    ∃ job, row.metadata = some job ∧ Prescribed number parse s row.zoneName job
  backed : ∀ t ∈ s.ticks, t.phase.Backed number parse s.readings t
  fired : ∀ t ∈ s.ticks, t.fireSimple = true → ∃ interval, (interval, t.ms) ∈ s.fires
  read : ∀ reading ∈ s.readings, reading.fireSimple = true →
    ∃ interval, (interval, reading.ms) ∈ s.fires
  spaced : s.fires.IsChain Spaced
  last : ∀ fire ∈ s.fires.head?, fire.2 = s.lastSimpleFire

theorem accounted_initial : Accounted number parse .initial where
  rows row hmem := by cases hmem
  backed t hmem := by cases hmem
  fired t hmem := by cases hmem
  read reading hmem := by cases hmem
  spaced := .nil
  last fire hmem := by cases hmem

theorem Prescribed.mono {zoneName : String} {job : Metadata}
    (h : Prescribed number parse s zoneName job) (hreadings : s.readings ⊆ s'.readings)
    (hfires : s.fires ⊆ s'.fires) : Prescribed number parse s' zoneName job := by
  obtain ⟨reading, hmem, hname, hfire, hpolicy⟩ := h
  refine ⟨reading, hreadings hmem, hname, fun hsimple => ?_, hpolicy⟩
  obtain ⟨interval, hinterval⟩ := hfire hsimple
  exact ⟨interval, hfires hinterval⟩

theorem Accounted.proceed (h : Accounted number parse s) (hk : s.ticks[k]? = some t)
    (hphase : ∀ next, phase = some next → next.Backed number parse s.readings t) :
    Accounted number parse (s.proceed k t phase) := by
  cases phase with
  | none =>
    refine ⟨h.rows, fun t' hmem => ?_, fun t' hmem => ?_, h.read, h.spaced, h.last⟩
    · exact h.backed t' (List.mem_of_mem_eraseIdx hmem)
    · exact h.fired t' (List.mem_of_mem_eraseIdx hmem)
  | some next =>
    refine ⟨h.rows, fun t' hmem => ?_, fun t' hmem => ?_, h.read, h.spaced, h.last⟩
    · rcases List.mem_or_eq_of_mem_set hmem with hold | rfl
      · exact h.backed t' hold
      · have hbacked := hphase next rfl
        cases next <;> exact hbacked
    · rcases List.mem_or_eq_of_mem_set hmem with hold | rfl
      · exact h.fired t' hold
      · exact h.fired t (List.mem_of_getElem? hk)

theorem Accounted.tick (h : Accounted number parse s) {ms : ℚ} {fireSimple : Bool} (now : Moment)
    (snapshots : Option Json)
    (hfired : fireSimple = true → ∃ interval, (interval, ms) ∈ s.fires) :
    Accounted number parse (tick number s ms fireSimple now snapshots) := by
  unfold SnapshotSchedule.tick
  split_ifs
  · exact h
  · refine ⟨h.rows, fun t hmem => ?_, fun t hmem => ?_, h.read, h.spaced, h.last⟩
    · rcases List.mem_append.mp hmem with hold | hnew
      · exact h.backed t hold
      · rw [List.mem_singleton.mp hnew]
        trivial
    · rcases List.mem_append.mp hmem with hold | hnew
      · exact h.fired t hold
      · rw [List.mem_singleton.mp hnew]
        exact hfired

/-- A firing of the simple policies. -/
theorem Accounted.fire (h : Accounted number parse s) {interval ms : ℚ}
    (hdue : interval * 60000 ≤ ms - s.lastSimpleFire) : Accounted number parse
      { s with lastSimpleFire := ms, fires := (interval, ms) :: s.fires } := by
  have hmore : s.fires ⊆ (interval, ms) :: s.fires := fun _ hmem => List.mem_cons_of_mem _ hmem
  refine ⟨?_, h.backed, ?_, ?_, ?_, ?_⟩
  · intro row hmem hrotation
    obtain ⟨job, hjob, hprescribed⟩ := h.rows row hmem hrotation
    exact ⟨job, hjob, hprescribed.mono (fun _ hmem => hmem) hmore⟩
  · intro t hmem hsimple
    obtain ⟨interval', hfire⟩ := h.fired t hmem hsimple
    exact ⟨interval', hmore hfire⟩
  · intro reading hmem hsimple
    obtain ⟨interval', hfire⟩ := h.read reading hmem hsimple
    exact ⟨interval', hmore hfire⟩
  · cases hfires : s.fires with
    | nil => exact .singleton _
    | cons older fires =>
      have hlast := h.last older (by rw [hfires]; rfl)
      have hspaced := h.spaced
      rw [hfires] at hspaced
      refine .cons_cons ?_ hspaced
      unfold Spaced
      rw [hlast]
      exact hdue
  · rintro _ ⟨⟩
    rfl

theorem Accounted.rowsSubset (h : Accounted number parse s) {rows : List Row}
    (hrows : ∀ row ∈ rows, row.rotation = true →
      ∃ job, row.metadata = some job ∧ Prescribed number parse s row.zoneName job) :
    Accounted number parse { s with rows := rows } :=
  ⟨hrows, h.backed, h.fired, h.read, h.spaced, h.last⟩

theorem Accounted.step (h : Accounted number parse s) {l : Label}
    (hstep : step number parse s l = some s') : Accounted number parse s' := by
  cases l with
  | startSnapshotRotation snapshots =>
    simp only [SnapshotSchedule.step] at hstep
    split_ifs at hstep
    · cases hstep
      exact h
    · cases hstep
      exact ⟨h.rows, h.backed, h.fired, h.read, h.spaced, h.last⟩
  | stopSnapshotRotation =>
    cases hstep
    exact ⟨h.rows, h.backed, h.fired, h.read, h.spaced, h.last⟩
  | fire ms now snapshots =>
    obtain ⟨interval, -, rfl⟩ := Option.map_eq_some_iff.mp hstep
    split_ifs with hdue
    · exact (h.fire hdue).tick now snapshots fun _ => ⟨interval, List.mem_cons_self⟩
    · exact h.tick now snapshots (by rintro ⟨⟩)
  | zonesRead k zones =>
    obtain ⟨t, hk, ht⟩ := Option.bind_eq_some_iff.mp hstep
    split at ht
    · cases ht
      have hmore : s.readings ⊆ s.readings ++ zones.map t.reading :=
        List.subset_append_left _ _
      refine Accounted.proceed ⟨?_, ?_, h.fired, ?_, h.spaced, h.last⟩ hk ?_
      · intro row hmem hrotation
        obtain ⟨job, hjob, hprescribed⟩ := h.rows row hmem hrotation
        exact ⟨job, hjob, hprescribed.mono hmore fun _ hfire => hfire⟩
      · exact fun t' hmem => (h.backed t' hmem).mono hmore
      · intro reading hmem
        rcases List.mem_append.mp hmem with hold | hnew
        · exact h.read reading hold
        · obtain ⟨zone, -, rfl⟩ := List.mem_map.mp hnew
          exact h.fired t (List.mem_of_getElem? hk)
      · intro next hnext
        refine backed_nextZone (fun z hz => ?_) hnext
        exact List.mem_append_right _ (List.mem_map_of_mem hz)
    · cases ht
  | found k =>
    obtain ⟨t, hk, ht⟩ := Option.bind_eq_some_iff.mp hstep
    split at ht
    case h_1 zone job jobs rest hphase =>
      cases ht
      have hbacked := h.backed t (List.mem_of_getElem? hk)
      rw [hphase] at hbacked
      obtain ⟨hzone, hjobs, hrest⟩ := hbacked
      refine h.proceed hk fun next hnext => ?_
      split_ifs at hnext
      · exact backed_nextJob hzone (List.forall_mem_cons.mp hjobs).2 hrest hnext
      · cases hnext
        exact ⟨hzone, hjobs, hrest⟩
    case h_2 => cases ht
  | created k =>
    obtain ⟨t, hk, ht⟩ := Option.bind_eq_some_iff.mp hstep
    split at ht
    case h_1 zone job jobs rest hphase =>
      cases ht
      have hbacked := h.backed t (List.mem_of_getElem? hk)
      rw [hphase] at hbacked
      obtain ⟨hzone, hjobs, hrest⟩ := hbacked
      refine (h.rowsSubset ?_).proceed hk fun next hnext => ?_
      · intro row hmem hrotation
        rcases List.mem_append.mp hmem with hold | hnew
        · exact h.rows row hold hrotation
        · rw [List.mem_singleton.mp hnew]
          exact ⟨job, rfl, t.reading zone, hzone, rfl, h.fired t (List.mem_of_getElem? hk),
            hjobs job List.mem_cons_self⟩
      · exact backed_nextJob hzone (List.forall_mem_cons.mp hjobs).2 hrest hnext
    case h_2 => cases ht
  | fails k =>
    obtain ⟨t, hk, rfl⟩ := Option.map_eq_some_iff.mp hstep
    exact h.proceed hk (by rintro _ ⟨⟩)
  | other row =>
    cases hstep
    apply h.rowsSubset
    intro row' hmem hrotation
    rcases List.mem_append.mp hmem with hold | hnew
    · exact h.rows row' hold hrotation
    · rw [List.mem_singleton.mp hnew] at hrotation
      cases hrotation
  | status i status =>
    obtain ⟨row, hi, rfl⟩ := Option.map_eq_some_iff.mp hstep
    apply h.rowsSubset
    intro row' hmem hrotation
    rcases List.mem_or_eq_of_mem_set hmem with hold | rfl
    · exact h.rows row' hold hrotation
    · exact h.rows row (List.mem_of_getElem? hi) hrotation
  | destroy i =>
    cases hstep
    apply h.rowsSubset
    intro row hmem
    exact h.rows row (List.mem_of_mem_eraseIdx hmem)

/-- Every task of the service was asked for by the policy of its zone as a tick read it, at the
minute of that tick; ticks fire the simple policies an interval apart at least. -/
theorem rotation_prescribed
    (h : Reaches (SnapshotSchedule.step number parse) (fun _ _ => True) .initial s) :
    (∀ row ∈ s.rows, row.rotation = true →
      ∃ job, row.metadata = some job ∧ Prescribed number parse s row.zoneName job) ∧
    s.fires.IsChain Spaced := by
  have haccounted : Accounted number parse s :=
    h.invariant accounted_initial fun _ _ _ hs _ hstep => hs.step hstep
  exact ⟨haccounted.rows, haccounted.spaced⟩

theorem rotation_prescribed_hourly : ∃ s,
    Reaches (SnapshotSchedule.step (fun _ => none) (fun _ => none)) (fun _ _ => True) .initial s ∧
    (s.rows.map Row.metadata).getLast? = some (some ⟨"hourly", .num 24, none, false⟩) ∧
    (∀ row ∈ s.rows, row.rotation = true →
      ∃ job, row.metadata = some job ∧
        Prescribed (fun _ => none) (fun _ => none) s row.zoneName job) ∧
    s.fires.IsChain Spaced := by
  obtain ⟨s, hreach, hlast⟩ := exists_reaches_of_run
    (SnapshotSchedule.step (fun _ => none) (fun _ => none)) (fun _ _ => True) .initial hourLabels
    (P := fun s => (s.rows.map Row.metadata).getLast? = some (some ⟨"hourly", .num 24, none, false⟩))
    (by decide +kernel)
  exact ⟨s, hreach, hlast, rotation_prescribed hreach⟩

end Provenance

end ZoneweaverAgent.SnapshotSchedule
