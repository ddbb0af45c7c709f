import Mathlib.Data.List.Perm.Subperm
import ZoneweaverAgent.TaskQueueCategories

/-!
# Mutual exclusion of the tasks in flight

A tick checks the capacity, the busy zones and the category at three different moments and acts on
all of them when it registers the task it picked. `ChecksHold` says that none of these checks is out
of date by then, and that no error handler releases a category in use; then no two tasks in flight
share a category or a machine, none is started twice and the capacity is kept.
-/

namespace ZoneweaverAgent.TaskQueue
open EventLoop

/-! ## The property -/

/-- The activation `q` has dispatched `t`, whose executor is not back. -/
def InFlight (s : QState) (q : ℕ) (t : Task) : Prop :=
  ∃ p, s.procs.get q = some p ∧ p.pc.registered = some t

structure MutualExclusion (cfg : Config) (s : QState) : Prop where
  category : ∀ q q' t t', q ≠ q' → InFlight s q t → InFlight s q' t' → ¬ShareCategory t t'
  zone : ∀ q q' t t', q ≠ q' → InFlight s q t → InFlight s q' t' → t.zoneName = t'.zoneName →
    t.zoneName ∈ exclusivityExemptScopes
  once : (startedIds s.world.history).Nodup
  capacity : ∀ qs : List ℕ, qs.Nodup → (∀ q ∈ qs, ∃ t, InFlight s q t) →
    qs.length ≤ cfg.maxConcurrentTasks

/-- A registration whose checks still hold, and no release of a category in use. -/
structure ChecksHold (cfg : Config) (s : QState) (l : QLabel) : Prop extends CategoriesFree s l where
  capacity : ∀ t ∈ registering s l, s.world.runningTasks.length < cfg.maxConcurrentTasks
  zone : ∀ t ∈ registering s l, t.zoneName ∈ exclusivityExemptScopes ∨
    ∀ e ∈ s.world.runningTasks, e.2.zoneName ≠ t.zoneName

/-! ## The in-flight map -/

/-- The in-flight map stays within the capacity and holds one task per machine. -/
structure Bounded (cfg : Config) (w : World) : Prop where
  size : w.runningTasks.length ≤ cfg.maxConcurrentTasks
  zone : ∀ id id' t t', id ≠ id' → w.runningTasks.get id = some t →
    w.runningTasks.get id' = some t' → t.zoneName = t'.zoneName →
    t.zoneName ∈ exclusivityExemptScopes

theorem Bounded.of_eq {cfg : Config} {w w' : World} (h : Bounded cfg w)
    (heq : w'.runningTasks = w.runningTasks) : Bounded cfg w' := by
  refine ⟨?_, ?_⟩ <;> rw [heq]
  · exact h.size
  · exact h.zone

theorem Bounded.erase {cfg : Config} {w w' : World} {id : TaskId} (h : Bounded cfg w)
    (heq : w'.runningTasks = w.runningTasks.erase id) : Bounded cfg w' := by
  refine ⟨?_, ?_⟩ <;> rw [heq]
  · exact (KeyedList.length_erase_le _ _).trans h.size
  · intro i i' t t' hne ht ht'
    exact h.zone i i' t t' hne (KeyedList.get_erase_eq_some ht).2
      (KeyedList.get_erase_eq_some ht').2

theorem Bounded.register {cfg : Config} {w : World} {t : Task} (h : Bounded cfg w)
    (hcap : w.runningTasks.length < cfg.maxConcurrentTasks)
    (hzone : t.zoneName ∈ exclusivityExemptScopes ∨
      ∀ e ∈ w.runningTasks, e.2.zoneName ≠ t.zoneName) : Bounded cfg (w.register t) where
  size := (KeyedList.length_set_le _ _ _).trans hcap
  zone i i' t₁ t₂ hne h₁ h₂ heq := by
    have hfree : ∀ j t', w.runningTasks.get j = some t' → t'.zoneName = t.zoneName →
        t.zoneName ∈ exclusivityExemptScopes := by
      intro j t' hj hz
      rcases hzone with hexempt | hno
      · exact hexempt
      · exact absurd hz (hno _ (KeyedList.mem_of_get hj))
    simp only [World.register, KeyedList.get_set] at h₁ h₂
    split_ifs at h₁ h₂ with hi hi'
    · exact absurd (hi.symm.trans hi') hne
    · cases h₁
      exact hfree i' t₂ h₂ heq.symm
    · cases h₂
      exact heq ▸ hfree i t₁ h₁ heq
    · exact h.zone i i' t₁ t₂ hne h₁ h₂ heq

theorem Bounded.resumed {cfg : Config} {w w' : World} {pc : Pc} {r : Reply Ans} {nx : Next Pc}
    (hb : Bounded cfg w) (h : Resumed w pc r w' nx)
    (hok : ∀ t, nx = .await (.markRunning t) → w.runningTasks.length < cfg.maxConcurrentTasks ∧
      (t.zoneName ∈ exclusivityExemptScopes ∨
        ∀ e ∈ w.runningTasks, e.2.zoneName ≠ t.zoneName)) : Bounded cfg w' := by
  cases h with
  | registered => exact hb.register (hok _ rfl).1 (hok _ rfl).2
  | unmarked => exact hb.erase rfl
  | finalized => exact hb.erase rfl
  | finalizedLast => exact hb.erase rfl
  | closed => exact hb.erase rfl
  | _ => exact hb.of_eq rfl

theorem bounded_reaches {cfg : Config} {table : Table} {s : QState}
    (h : QReaches cfg (ChecksHold cfg) (boot table) s) : Bounded cfg s.world := by
  refine world_reaches (G := Bounded cfg) ⟨Nat.zero_le _, by simp [boot, start]⟩ ?_ ?_ ?_ h
  · intro s pid c p a w hb _ _ hserve
    exact hb.of_eq (serve_registries hserve).runningTasks
  · intro s pid p r w nx hb hp hphase hok hres
    refine hb.resumed (resumed_of_eq hres) fun t ht => ?_
    have hreg := registering_of_resumed (ht ▸ resumed_of_eq hres) hp hphase
    exact ⟨hok.capacity t hreg, hok.zone t hreg⟩
  · intro s e w nx hb _ hent
    exact hb.of_eq (enter_entered hent).registries.runningTasks

/-! ## Every run -/

/-- The in-flight map has an entry of its own for each task in flight. -/
theorem inFlight_le {s : QState} (hb : BaseInv s) {qs : List ℕ} (hqs : qs.Nodup)
    (hflight : ∀ q ∈ qs, ∃ t, InFlight s q t) : qs.length ≤ s.world.runningTasks.length := by
  let idOf : ℕ → TaskId := fun q =>
    ((s.procs.get q).bind fun p => p.pc.registered).elim 0 Task.id
  have hid : ∀ q t, InFlight s q t → idOf q = t.id := by
    rintro q t ⟨p, hp, ht⟩
    simp [idOf, hp, ht]
  have hnodup : (qs.map idOf).Nodup := by
    refine List.Nodup.map_on ?_ hqs
    intro q hq q' hq' heq
    by_contra hne
    obtain ⟨t, ht⟩ := hflight q hq
    obtain ⟨t', ht'⟩ := hflight q' hq'
    rw [hid q t ht, hid q' t' ht'] at heq
    obtain ⟨p, hp, hpt⟩ := ht
    obtain ⟨p', hp', hpt'⟩ := ht'
    exact (hb.apart q q' p p' hne hp hp').1.entered t t' (Pc.entered_of_registered hpt)
      (Pc.entered_of_registered hpt') heq
  have hsub : qs.map idOf ⊆ s.world.runningTasks.keys := by
    intro id hmem
    obtain ⟨q, hq, rfl⟩ := List.mem_map.mp hmem
    obtain ⟨t, ht⟩ := hflight q hq
    rw [hid q t ht, KeyedList.mem_keys_iff]
    obtain ⟨p, hp, hpt⟩ := ht
    exact ⟨t, (hb.here q p hp).running t hpt⟩
  calc qs.length = (qs.map idOf).length := (List.length_map idOf).symm
    _ ≤ s.world.runningTasks.keys.length := (List.subperm_of_subset hnodup hsub).length_le
    _ = s.world.runningTasks.length := KeyedList.length_keys _

instance (t t' : Task) : Decidable (ShareCategory t t') := inferInstanceAs (Decidable (_ ∧ _))

instance (s : QState) (l : QLabel) : Decidable (Current s l) :=
  decidable_of_iff
    ((∀ t ∈ registering s l, s.world.table.status t.id = some .pending) ∧
      (∀ t ∈ registering s l, s.world.runningTasks.get t.id = none) ∧
      ∀ t ∈ releasing s l, s.world.table.status t.id = some .prepared)
    ⟨fun h => ⟨h.1, h.2.1, h.2.2⟩, fun h => ⟨h.pending, h.unregistered, h.prepared⟩⟩

instance (s : QState) (l : QLabel) : Decidable (CategoriesFree s l) :=
  decidable_of_iff
    (Current s l ∧
      (∀ t ∈ registering s l, ∀ e ∈ s.procs, ∀ t' ∈ e.2.pc.registered, ¬ShareCategory t t') ∧
      ∀ t ∈ unlocking s l, ∀ e ∈ s.procs, ∀ t' ∈ e.2.pc.holding, ¬ShareCategory t t')
    ⟨fun ⟨h₁, h₂, h₃⟩ => ⟨h₁, h₂, h₃⟩, fun h => ⟨h.toCurrent, h.category, h.unlock⟩⟩

instance (cfg : Config) (s : QState) (l : QLabel) : Decidable (ChecksHold cfg s l) :=
  decidable_of_iff
    (CategoriesFree s l ∧
      (∀ t ∈ registering s l, s.world.runningTasks.length < cfg.maxConcurrentTasks) ∧
      ∀ t ∈ registering s l, t.zoneName ∈ exclusivityExemptScopes ∨
        ∀ e ∈ s.world.runningTasks, e.2.zoneName ≠ t.zoneName)
    ⟨fun ⟨h₁, h₂, h₃⟩ => ⟨h₁, h₂, h₃⟩, fun h => ⟨h.toCategoriesFree, h.capacity, h.zone⟩⟩

/-- A queue with one pending package installation. -/
def onePending : Table := Table.empty.create { id := 0, zoneName := "web", operation := "pkg_install" }

/-- A tick that dispatches the row: it enters, queries, registers and starts the executor. -/
def dispatchLabels (pid : ℕ) (id : TaskId) : List QLabel :=
  [.enter .tick, .serve pid .only, .resume pid, .serve pid (.row (some id)), .resume pid,
    .serve pid .only, .resume pid]

/-- Two ticks whose queries are answered before either has registered its task. -/
def overlapLabels : List QLabel :=
  [.enter .tick, .enter .tick, .serve 0 .only, .serve 1 .only, .resume 0, .resume 1,
    .serve 0 (.row (some 0)), .serve 1 (.row (some 0)), .resume 0, .resume 1, .serve 0 .only,
    .serve 1 .only, .resume 0, .resume 1]

instance (o : Option QState) (P : QState → Prop) [DecidablePred P] : Decidable (∃ s ∈ o, P s) :=
  match o with
  | none => isFalse (by simp)
  | some s => decidable_of_iff (P s) (by simp)

end ZoneweaverAgent.TaskQueue
