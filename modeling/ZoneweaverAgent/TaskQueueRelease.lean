import ZoneweaverAgent.TaskQueueExclusion

/-!
# Every dispatch gives back what it took

A dispatch takes an entry of the in-flight map, a run control and a category, and gives them back at
three different places without a `finally`. `abandons` names the moves that skip one of these places:
an executor without a result, a rejected terminal update, a rejected end of the output. In a run
without them the three registries are exactly what the dispatches in progress hold, and no dispatch
touches what another one holds.
-/

namespace ZoneweaverAgent.TaskQueue
open EventLoop

/-! ## The property -/

/-- The registries are what the dispatches in progress account for, and nothing else. -/
structure Accounted (s : QState) : Prop where
  entry : ∀ id, (∀ q p t, s.procs.get q = some p → p.pc.entered = some t → t.id ≠ id) →
    s.world.runningTasks.get id = none
  control : ∀ id, (∀ q p t, s.procs.get q = some p → p.pc.registered = some t → t.id ≠ id) →
    s.world.taskControls.get id = none
  category : ∀ c, (∀ q p t, s.procs.get q = some p → p.pc.holding = some t →
    operationCategory t.operation ≠ some c) → c ∉ s.world.runningCategories
  registered : ∀ q p t, s.procs.get q = some p → p.pc.registered = some t →
    s.world.runningTasks.get t.id = some t ∧ s.world.taskControls.has t.id = true
  holding : ∀ q p t c, s.procs.get q = some p → p.pc.holding = some t →
    operationCategory t.operation = some c → c ∈ s.world.runningCategories

/-- The activation a step moves is not a cancel request reading or closing a row. -/
def NoCancel (s : QState) (l : QLabel) : Prop :=
  ∀ pid p, l = .resume pid → s.procs.get pid = some p →
    p.pc.closing = none ∧ ∀ id attempt, p.pc ≠ .cancelFind id attempt

/-- The entry, the control and the category of the dispatch `p` are the same in both worlds. -/
structure Untouched (w w' : World) (p : Activation Pc Ans) : Prop where
  entry : ∀ t, p.pc.entered = some t → w'.runningTasks.get t.id = w.runningTasks.get t.id
  control : ∀ t, p.pc.entered = some t → w'.taskControls.get t.id = w.taskControls.get t.id
  category : ∀ t c, p.pc.holding = some t → operationCategory t.operation = some c →
    (c ∈ w'.runningCategories ↔ c ∈ w.runningCategories)

/-- The activation that a step moves. -/
def mover : QLabel → Option ℕ
  | .serve pid _ | .fail pid | .resume pid => some pid
  | .enter _ => none

/-! ## The condition -/

/-- Resuming here leaves the dispatch without giving back what it holds. -/
def abandons (w : World) : Pc → Reply Ans → Bool
  | .execute t, r =>
    (endStatus ((w.taskControls.get t.id).elim false Control.cancelled) (executed r).1).isNone
  | .finish _ _ _, .answer _ => false
  | .finish _ _ _, _ => true
  | .finalize _ _, .answer _ => false
  | .finalize _ _, _ => true
  | _, _ => false

def abandoning (s : QState) : QLabel → Bool
  | .resume pid =>
    match s.procs.get pid with
    | some ⟨pc, .ready r, _⟩ => abandons s.world pc r
    | _ => false
  | _ => false

structure GivesBack (s : QState) (l : QLabel) : Prop extends CategoriesFree s l where
  stays : abandoning s l = false

theorem abandons_of_givesBack {s : QState} {pid : ℕ} {p : Activation Pc Ans} {r : Reply Ans}
    (hok : GivesBack s (.resume pid)) (hp : s.procs.get pid = some p) (hphase : p.phase = .ready r) :
    abandons s.world p.pc r = false := by
  obtain ⟨pc, phase, caller⟩ := p
  cases hphase
  have := hok.stays
  simpa only [abandoning, hp] using this

/-! ## The registries are covered -/

inductive Resource
  | entry (id : TaskId)
  | control (id : TaskId)
  | category (c : String)

def taken (w : World) : Resource → Prop
  | .entry id => w.runningTasks.get id ≠ none
  | .control id => w.taskControls.get id ≠ none
  | .category c => c ∈ w.runningCategories

def holds (x : Point Pc Ans) : Resource → Prop
  | .entry id => ∃ t, x.1.entered = some t ∧ t.id = id
  | .control id => ∃ t, x.1.registered = some t ∧ t.id = id
  | .category c => ∃ t, x.1.holding = some t ∧ operationCategory t.operation = some c

theorem get_of_erase {α : Type*} {m : KeyedList TaskId α} {id id' : TaskId}
    (h : (m.erase id).get id' ≠ none) : id ≠ id' ∧ m.get id' ≠ none := by
  rw [KeyedList.get_erase] at h
  split_ifs at h with heq
  · exact absurd rfl h
  · exact ⟨heq, h⟩

section Resume
variable {w w' : World} {pc : Pc} {r : Reply Ans} {nx : Next Pc}

/-- What a resumed activation takes, it holds afterwards. -/
theorem Resumed.taken_or_holds (h : Resumed w pc r w' nx) {res : Resource} (hres : taken w' res) :
    taken w res ∨ ∃ x ∈ nx.points, holds (x, none) res := by
  cases h with
  | @registered completed busy t =>
    cases res with
    | entry id =>
      by_cases hid : t.id = id
      · exact .inr ⟨_, List.mem_singleton_self _, t, rfl, hid⟩
      · simp only [taken, World.register, KeyedList.get_set_of_ne _ _ hid] at hres
        exact .inl hres
    | control id =>
      by_cases hid : t.id = id
      · exact .inr ⟨_, List.mem_singleton_self _, t, rfl, hid⟩
      · simp only [taken, World.register, KeyedList.get_set_of_ne _ _ hid] at hres
        exact .inl hres
    | category c => exact .inl hres
  | @started t a =>
    cases res with
    | entry id => exact .inl hres
    | control id => exact .inl hres
    | category c =>
      by_cases hc : operationCategory t.operation = some c
      · exact .inr ⟨_, List.mem_singleton_self _, t, rfl, hc⟩
      · refine .inl ?_
        cases hcat : operationCategory t.operation with
        | none => simpa [taken, World.acquire, World.record, hcat] using hres
        | some c' =>
          simp only [taken, World.acquire, World.record, hcat, List.mem_insert_iff] at hres
          exact hres.resolve_left fun heq => hc (hcat.trans (congrArg some heq.symm))
  | cancelMarked _ hhas =>
    cases res with
    | entry id => exact .inl hres
    | control id' =>
      refine .inl ?_
      simp only [taken, World.markCancelled, World.record, KeyedList.get_set] at hres ⊢
      split_ifs at hres with hid
      · subst hid
        simpa [KeyedList.has, Option.isSome_iff_ne_none] using hhas
      · exact hres
    | category c => exact .inl hres
  | unmarked =>
    cases res with
    | entry id => exact .inl (get_of_erase hres).2
    | control id => exact .inl (get_of_erase hres).2
    | category c => exact .inl hres
  | ended =>
    cases res with
    | entry id => exact .inl hres
    | control id => exact .inl (get_of_erase hres).2
    | category c => exact .inl hres
  | noResult =>
    cases res with
    | entry id => exact .inl hres
    | control id => exact .inl (get_of_erase hres).2
    | category c => exact .inl hres
  | finalized =>
    cases res with
    | entry id => exact .inl (get_of_erase hres).2
    | control id => exact .inl hres
    | category c => exact .inl hres
  | finalizedLast =>
    cases res with
    | entry id => exact .inl (get_of_erase hres).2
    | control id => exact .inl hres
    | category c => exact .inl (mem_release.mp hres).1
  | closed =>
    cases res with
    | entry id => exact .inl (get_of_erase hres).2
    | control id => exact .inl hres
    | category c => exact .inl hres
  | released =>
    cases res with
    | entry id => exact .inl hres
    | control id => exact .inl hres
    | category c => exact .inl (mem_release.mp hres).1
  | unlocked =>
    cases res with
    | entry id => exact .inl hres
    | control id => exact .inl hres
    | category c => exact .inl (mem_release.mp hres).1
  | _ => exact .inl hres

/-- A control is given back with the end of the executor, whatever that end is. -/
theorem Resumed.keeps_control (h : Resumed w pc r w' nx) {a : Option Ans} {id : TaskId}
    (hres : taken w' (.control id)) (hold : holds (pc, a) (.control id)) :
    ∃ x ∈ nx.points, holds (x, none) (.control id) := by
  obtain ⟨t, ht, rfl⟩ := hold
  have hpc := Pc.dispatched_of_registered ht
  cases h with
  | plain hidle =>
    rcases hidle with hidle | ⟨_, _, _, rfl, -⟩ | ⟨_, _, rfl, -⟩
    · rw [hidle] at hpc
      cases hpc
    · cases ht
    · cases ht
  | answered hidle =>
    rw [hidle] at hpc
    cases hpc
  | started => exact ⟨_, List.mem_singleton_self _, t, ht, rfl⟩
  | unmarked =>
    cases ht
    exact absurd rfl (get_of_erase hres).1
  | ended =>
    cases ht
    exact absurd rfl (get_of_erase hres).1
  | noResult =>
    cases ht
    exact absurd rfl (get_of_erase hres).1
  | _ => cases ht

theorem Resumed.keeps_entry (h : Resumed w pc r w' nx) (hstay : abandons w pc r = false)
    {a : Option Ans} {id : TaskId} (hres : taken w' (.entry id)) (hold : holds (pc, a) (.entry id)) :
    ∃ x ∈ nx.points, holds (x, none) (.entry id) := by
  obtain ⟨t, ht, rfl⟩ := hold
  have hpc := Pc.dispatched_of_entered ht
  cases h with
  | plain hidle =>
    rcases hidle with hidle | ⟨_, _, _, rfl, hr⟩ | ⟨_, _, rfl, hr⟩
    · rw [hidle] at hpc
      cases hpc
    · cases r <;> first | exact absurd rfl (hr _) | cases hstay
    · cases r <;> first | exact absurd rfl (hr _) | cases hstay
  | answered hidle =>
    rw [hidle] at hpc
    cases hpc
  | started => exact ⟨_, List.mem_singleton_self _, t, ht, rfl⟩
  | ended => exact ⟨_, List.mem_singleton_self _, t, ht, rfl⟩
  | noResult hend => simp [abandons, hend] at hstay
  | finished => exact ⟨_, List.mem_singleton_self _, t, ht, rfl⟩
  | unmarked =>
    cases ht
    exact absurd rfl (get_of_erase hres).1
  | finalized =>
    cases ht
    exact absurd rfl (get_of_erase hres).1
  | finalizedLast =>
    cases ht
    exact absurd rfl (get_of_erase hres).1
  | _ => cases ht

theorem Resumed.keeps_category (h : Resumed w pc r w' nx) (hstay : abandons w pc r = false)
    {a : Option Ans} {c : String} (hres : taken w' (.category c))
    (hold : holds (pc, a) (.category c)) : ∃ x ∈ nx.points, holds (x, none) (.category c) := by
  obtain ⟨t, ht, hc⟩ := hold
  have hpc := Pc.dispatched_of_holding ht
  cases h with
  | plain hidle =>
    rcases hidle with hidle | ⟨_, _, _, rfl, hr⟩ | ⟨_, _, rfl, hr⟩
    · rw [hidle] at hpc
      cases hpc
    · cases r <;> first | exact absurd rfl (hr _) | cases hstay
    · cases r <;> first | exact absurd rfl (hr _) | cases hstay
  | answered hidle =>
    rw [hidle] at hpc
    cases hpc
  | ended => exact ⟨_, List.mem_singleton_self _, t, ht, hc⟩
  | noResult hend => simp [abandons, hend] at hstay
  | finished => exact ⟨_, List.mem_singleton_self _, t, ht, hc⟩
  | finalized => exact ⟨_, List.mem_cons_self, t, ht, hc⟩
  | finalizedLast =>
    cases ht
    exact absurd hc (mem_release.mp hres).2
  | released =>
    cases ht
    exact absurd hc (mem_release.mp hres).2
  | _ => cases ht

/-- What a resumed activation held, it holds afterwards or has given back. -/
theorem Resumed.keeps (h : Resumed w pc r w' nx) (hstay : abandons w pc r = false)
    {a : Option Ans} {res : Resource} (hres : taken w' res) (hold : holds (pc, a) res) :
    ∃ x ∈ nx.points, holds (x, none) res := by
  cases res with
  | entry id => exact h.keeps_entry hstay hres hold
  | control id => exact h.keeps_control hres hold
  | category c => exact h.keeps_category hstay hres hold

end Resume

theorem taken_of_same {w w' : World} (h : SameRegistries w w') {res : Resource}
    (hres : taken w' res) : taken w res := by
  cases res <;> simpa [taken, h.runningTasks, h.taskControls, h.runningCategories] using hres

theorem release_covering (cfg : Config) : Covering (program cfg) GivesBack taken holds where
  serve _ _ _ _ _ _ hc hp _ _ h :=
    hc.passes hp (fun res hres => .inl (taken_of_same (serve_registries h) hres))
      fun res _ hold => ⟨_, List.mem_singleton_self _, by cases res <;> exact hold⟩
  resume _ _ _ _ _ _ hc hp hphase hok h := by
    have hres := resumed_of_eq h
    refine hc.passes hp (fun res ht => ?_) fun res ht hold => ?_
    · rcases hres.taken_or_holds ht with hold | ⟨x, hx, hx'⟩
      · exact .inl hold
      · exact .inr ⟨_, List.mem_map_of_mem hx, hx'⟩
    · obtain ⟨x, hx, hx'⟩ := hres.keeps (abandons_of_givesBack hok hp hphase) ht hold
      exact ⟨_, List.mem_map_of_mem hx, hx'⟩
  enter _ _ _ _ hc hfresh _ h :=
    hc.passes_enter hfresh fun _ hres => taken_of_same (enter_entered h).registries hres

/-! ## Every run -/

theorem release_covered {cfg : Config} {table : Table} {s : QState}
    (h : QReaches cfg GivesBack (boot table) s) : Covered taken holds s := by
  refine (release_covering cfg).reaches ?_ (fun u hu => ?_) h
  · intro res hres
    cases res <;> simp [taken, boot, start] at hres
  · exact (base_reaches (fun _ _ hok => hok.toCurrent) hu).fresh

theorem accounted {cfg : Config} {table : Table} {s : QState}
    (h : QReaches cfg GivesBack (boot table) s) : Accounted s := by
  have hc := release_covered h
  have hb : BaseInv s := base_reaches (fun _ _ hok => hok.toCurrent) h
  have hcat : CategoryInv s := category_reaches (fun _ _ hok => hok.toCategoriesFree) h
  refine ⟨?_, ?_, ?_, ?_, fun q p t c hp ht hc => hcat.here q p hp t c ht hc⟩
  · intro id hnone
    by_contra hne
    obtain ⟨q, p, hp, t, ht, hid⟩ := hc (.entry id) hne
    exact hnone q p t hp ht hid
  · intro id hnone
    by_contra hne
    obtain ⟨q, p, hp, t, ht, hid⟩ := hc (.control id) hne
    exact hnone q p t hp ht hid
  · intro c hnone hmem
    obtain ⟨q, p, hp, t, ht, hcat⟩ := hc (.category c) hmem
    exact hnone q p t hp ht hcat
  · exact fun q p t hp ht => ⟨(hb.here q p hp).running t ht, (hb.here q p hp).control t ht⟩

/-- A step of one activation leaves alone what the dispatch of another one holds. -/
theorem untouched {cfg : Config} {table : Table} {s t : QState} {l : QLabel}
    (h : QReaches cfg GivesBack (boot table) s) (hok : GivesBack s l) (hno : NoCancel s l)
    (hst : step (program cfg) s l = some t) {q : ℕ} {p : Activation Pc Ans}
    (hp : s.procs.get q = some p) (hq : mover l ≠ some q) : Untouched s.world t.world p := by
  have hb : BaseInv s := base_reaches (fun _ _ hok => hok.toCurrent) h
  have hcat : CategoryInv s := category_reaches (fun _ _ hok => hok.toCategoriesFree) h
  have of_same : SameRegistries s.world t.world → Untouched s.world t.world p := fun hsame =>
    ⟨fun _ _ => by rw [hsame.runningTasks], fun _ _ => by rw [hsame.taskControls],
      fun _ _ _ _ => by rw [hsame.runningCategories]⟩
  cases steps_of_step hst with
  | serve _ _ hserve => exact of_same (serve_registries hserve)
  | fail _ _ hw => exact of_same (hw ▸ ⟨rfl, rfl, rfl, rfl⟩)
  | enter hent => exact of_same (enter_entered hent).registries
  | @resume pid p₀ r nx hp₀ hphase hresume =>
    have hne : pid ≠ q := fun heq => hq (heq ▸ rfl)
    have hres := resumed_of_eq hresume
    obtain ⟨hclose, hcancel⟩ := hno pid p₀ rfl hp₀
    have hsep := hb.apart pid q p₀ p hne hp₀ hp
    have hnew : ∀ t', nx = .await (.markRunning t') → ∀ u, p.pc.entered = some u →
        t'.id ≠ u.id := by
      intro t' hnx u hu
      have hreg := registering_of_resumed (hnx ▸ hres) hp₀ hphase
      exact ne_of_entered (hb.here q p hp) (hok.pending t' hreg) (hok.unregistered t' hreg) hu
    refine ⟨fun u hu => ?_, fun u hu => ?_, fun u c hu hc => ?_⟩
    · exact hres.runningTasks_get (fun t' hnx => hnew t' hnx u hu)
        (fun t' ht' => hsep.1.entered t' u ht' hu) (by simp [hclose])
    · exact hres.taskControls_get (fun t' hnx => hnew t' hnx u hu)
        (fun t' ht' => hsep.1.entered t' u (Pc.entered_of_registered ht') hu) (hcancel u.id)
    · have hmem := hcat.here q p hp u c hu hc
      refine iff_of_true ?_ hmem
      refine (hcat.here q p hp).resumed_other hres (hcat.apart pid q p₀ p hne hp₀ hp) ?_ u c hu hc
      rintro t' u' hpc rfl hu'
      exact hok.unlock t' (mem_unlocking hp₀ hpc hphase) (q, p) (KeyedList.mem_of_get hp) u' hu'

theorem releases_exactly {cfg : Config} {table : Table} {s : QState}
    (h : QReaches cfg GivesBack (boot table) s) :
    Accounted s ∧ ∀ l t, GivesBack s l → NoCancel s l → step (program cfg) s l = some t →
      ∀ q p, s.procs.get q = some p → mover l ≠ some q → Untouched s.world t.world p :=
  ⟨accounted h, fun _ _ hok hno hst _ _ hp hq => untouched h hok hno hst hp hq⟩

instance (s : QState) (l : QLabel) : Decidable (GivesBack s l) :=
  decidable_of_iff (CategoriesFree s l ∧ abandoning s l = false)
    ⟨fun ⟨h₁, h₂⟩ => ⟨h₁, h₂⟩, fun h => ⟨h.toCategoriesFree, h.stays⟩⟩

/-- A whole dispatch, whose terminal update is accepted. -/
def completeLabels : List QLabel :=
  dispatchLabels 0 0 ++ [.serve 0 (.executed (some { success := true }) 0), .resume 0,
    .serve 0 .only, .resume 0, .serve 0 .only, .resume 0]

/-- The same dispatch with its terminal update rejected: the error handler finds the row still
running and releases its category, and nothing removes its in-flight entry. -/
def rejectedLabels : List QLabel :=
  dispatchLabels 0 0 ++ [.serve 0 (.executed (some { success := true }) 0), .resume 0,
    .fail 0, .resume 0, .serve 0 (.row (some 0)), .resume 0]

instance (s : QState) : Decidable (Quiescent s) := by
  unfold Quiescent
  exact decidable_of_iff (s.procs.isEmpty = true) List.isEmpty_iff

theorem accounted_fails : ¬∀ (cfg : Config) (table : Table) (s : QState),
    QReaches cfg (fun _ _ => True) (boot table) s → Accounted s := by
  intro h
  obtain ⟨s, hs, hquiet, hentry⟩ := Transition.exists_reaches_of_run (step (program {}))
    (fun _ _ => True) (boot onePending) rejectedLabels
    (P := fun s => Quiescent s ∧ (s.world.runningTasks.get 0).isSome) (by decide +kernel)
  have hnone := (h _ _ s hs).entry 0 fun q p t hp => by
    rw [hquiet] at hp
    cases hp
  rw [hnone] at hentry
  cases hentry

theorem releases_exactly_complete : ∃ s, QReaches {} GivesBack (boot onePending) s ∧ Quiescent s ∧
    startedIds s.world.history = [0] ∧ Accounted s := by
  obtain ⟨s, hs, hquiet, hids⟩ := Transition.exists_reaches_of_run (step (program {})) GivesBack
    (boot onePending) completeLabels
    (P := fun s => Quiescent s ∧ startedIds s.world.history = [0]) (by decide +kernel)
  exact ⟨s, hs, hquiet, hids, (releases_exactly hs).1⟩

end ZoneweaverAgent.TaskQueue
