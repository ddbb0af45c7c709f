import ZoneweaverAgent.TaskQueueInvariant

/-!
# Who holds which category

A category is taken after the row was marked running, long after the tick found it free, and the
error handler of any tick releases the category of whatever row started last. `CategoriesFree` says
that a registration meets no other registration of its category and that no error handler releases
a category in use. Under it a dispatch holds its category from its start to its own release, and no
two dispatches have the same one.
-/

namespace ZoneweaverAgent.TaskQueue
open EventLoop

/-! ## The condition -/

def ShareCategory (t t' : Task) : Prop :=
  (operationCategory t.operation).isSome ∧
    operationCategory t.operation = operationCategory t'.operation

/-- The task that holds its category here. -/
def Pc.holding : Pc → Option Task
  | .execute t | .finish t _ _ | .finalize t _ | .taskParent t _ => some t
  | _ => none

/-- The row whose category this step releases: an error handler resumes with a running row. -/
def unlocking (s : QState) : QLabel → Option Task
  | .resume pid =>
    match s.procs.get pid with
    | some ⟨.lastRunningTask, .ready (.answer (.row (some t))), _⟩ => some t
    | _ => none
  | _ => none

theorem mem_unlocking {s : QState} {pid : ℕ} {p : Activation Pc Ans} {t : Task}
    (hp : s.procs.get pid = some p) (hpc : p.pc = .lastRunningTask)
    (hphase : p.phase = .ready (.answer (.row (some t)))) : t ∈ unlocking s (.resume pid) := by
  obtain ⟨pc, phase, caller⟩ := p
  cases hpc
  cases hphase
  simp [unlocking, hp]

/-- No registration of a category that another dispatch is about to take, and no release of one
that another dispatch holds. -/
structure CategoriesFree (s : QState) (l : QLabel) : Prop extends Current s l where
  category : ∀ t ∈ registering s l, ∀ e ∈ s.procs, ∀ t' ∈ e.2.pc.registered,
    ¬ShareCategory t t'
  unlock : ∀ t ∈ unlocking s l, ∀ e ∈ s.procs, ∀ t' ∈ e.2.pc.holding, ¬ShareCategory t t'

/-! ## The invariant -/

def HoldsCategory (w : World) (x : Point Pc Ans) : Prop :=
  ∀ t c, x.1.holding = some t → operationCategory t.operation = some c → c ∈ w.runningCategories

def CategoryApart (x y : Point Pc Ans) : Prop :=
  ∀ t t', x.1.dispatched = some t → y.1.dispatched = some t' → ¬ShareCategory t t'

abbrev CategoryInv : QState → Prop := Inv (fun _ => True) HoldsCategory CategoryApart

theorem ShareCategory.symm {t t' : Task} (h : ShareCategory t t') : ShareCategory t' t :=
  ⟨h.2 ▸ h.1, h.2.symm⟩

theorem CategoryApart.symm {x y : Point Pc Ans} (h : CategoryApart x y) : CategoryApart y x :=
  fun t t' ht ht' hs => h t' t ht' ht hs.symm

theorem Pc.dispatched_of_holding {pc : Pc} {t : Task} (h : pc.holding = some t) :
    pc.dispatched = some t := by
  cases pc <;> first | exact h | cases h

theorem Pc.dispatched_of_entered {pc : Pc} {t : Task} (h : pc.entered = some t) :
    pc.dispatched = some t := by
  cases pc <;> first | exact h | cases h

theorem Pc.dispatched_of_registered {pc : Pc} {t : Task} (h : pc.registered = some t) :
    pc.dispatched = some t := by
  cases pc <;> first | exact h | cases h

theorem Pc.registered_or_holding {pc : Pc} {t : Task} (h : pc.dispatched = some t) :
    pc.registered = some t ∨ pc.holding = some t := by
  cases pc <;> first | exact .inl h | exact .inr h

theorem apart_of_undispatched {pc : Pc} (h : pc.dispatched = none) (a : Option Ans)
    (y : Point Pc Ans) : CategoryApart (pc, a) y := by
  intro t t' ht
  simp [h] at ht

/-! ## One step -/

section Resume
variable {w w' : World} {pc : Pc} {r : Reply Ans} {nx : Next Pc}

/-- A dispatch found at a new point was there before, or has just been registered. -/
theorem Resumed.dispatched_points (h : Resumed w pc r w' nx) {x : Pc} (hx : x ∈ nx.points)
    {t : Task} (ht : x.dispatched = some t) :
    nx = .await (.markRunning t) ∨ pc.dispatched = some t := by
  have not_plain : (∀ x ∈ nx.points, x.Plain) → False := by
    intro hp
    rw [(hp x hx).1] at ht
    cases ht
  cases h with
  | plain _ hp => exact (not_plain hp).elim
  | answered _ hp => exact (not_plain hp).elim
  | finalizedLast hp => exact (not_plain hp).elim
  | released hp => exact (not_plain hp).elim
  | registered =>
    rw [List.mem_singleton.mp hx] at ht
    cases ht
    exact .inl rfl
  | started =>
    rw [List.mem_singleton.mp hx] at ht
    cases ht
    exact .inr rfl
  | ended =>
    rw [List.mem_singleton.mp hx] at ht
    cases ht
    exact .inr rfl
  | finished =>
    rw [List.mem_singleton.mp hx] at ht
    cases ht
    exact .inr rfl
  | finalized =>
    rcases List.mem_cons.mp hx with rfl | hx
    · cases ht
      exact .inr rfl
    · rw [List.mem_singleton.mp hx] at ht
      cases ht
  | unmarked =>
    rw [List.mem_singleton.mp hx] at ht
    cases ht
  | noResult =>
    rw [List.mem_singleton.mp hx] at ht
    cases ht
  | closing =>
    rw [List.mem_singleton.mp hx] at ht
    cases ht
  | closed =>
    rw [List.mem_singleton.mp hx] at ht
    cases ht
  | unlocked => cases hx
  | cancelMarked => cases hx

/-- A step leaves one dispatch behind at most. -/
theorem Resumed.one_dispatch (h : Resumed w pc r w' nx) :
    nx.points.Pairwise fun x y => x.dispatched = none ∨ y.dispatched = none := by
  have plain : (∀ x ∈ nx.points, x.Plain) →
      nx.points.Pairwise fun x y => x.dispatched = none ∨ y.dispatched = none :=
    fun hp => List.pairwise_of_forall_mem_list fun x hx _ _ => .inl (hp x hx).1
  cases h with
  | plain _ hp => exact plain hp
  | answered _ hp => exact plain hp
  | finalizedLast hp => exact plain hp
  | released hp => exact plain hp
  | finalized => simp [Next.points, Pc.dispatched]
  | unlocked => exact .nil
  | cancelMarked => exact .nil
  | _ => exact List.pairwise_singleton _ _

/-- The categories in use change when a marked task takes its own, when a dispatch that holds one
releases it, and when an error handler releases that of the row it found. -/
theorem Resumed.runningCategories_eq (h : Resumed w pc r w' nx) :
    w'.runningCategories = w.runningCategories ∨
      (∃ t a, pc = .markRunning t ∧ r = .answer a ∧
        w'.runningCategories = (w.acquire (operationCategory t.operation)).runningCategories) ∨
      ∃ t, (pc.holding = some t ∨ pc = .lastRunningTask ∧ r = .answer (.row (some t))) ∧
        w'.runningCategories = (w.release (operationCategory t.operation)).runningCategories := by
  cases h with
  | started => exact .inr (.inl ⟨_, _, rfl, rfl, rfl⟩)
  | finalizedLast => exact .inr (.inr ⟨_, .inl rfl, rfl⟩)
  | released => exact .inr (.inr ⟨_, .inl rfl, rfl⟩)
  | unlocked => exact .inr (.inr ⟨_, .inr ⟨rfl, rfl⟩, rfl⟩)
  | _ => exact .inl rfl

theorem mem_acquire {c : String} (category : Option String)
    (h : category = some c ∨ c ∈ w.runningCategories) :
    c ∈ (w.acquire category).runningCategories := by
  cases category with
  | none => simpa [World.acquire] using h
  | some c' =>
    simp only [World.acquire, List.mem_insert_iff]
    rcases h with h | h
    · exact .inl (Option.some.inj h).symm
    · exact .inr h

theorem mem_release {c : String} {category : Option String} :
    c ∈ (w.release category).runningCategories ↔
      c ∈ w.runningCategories ∧ category ≠ some c := by
  cases category with
  | none => simp [World.release]
  | some c' => simp [World.release, ne_comm]

/-- The categories others hold stay in use. -/
theorem HoldsCategory.resumed_other {y : Point Pc Ans} (hy : HoldsCategory w y)
    (h : Resumed w pc r w' nx)
    (hdis : ∀ t t', pc.dispatched = some t → y.1.dispatched = some t' → ¬ShareCategory t t')
    (hunlock : ∀ t t', pc = .lastRunningTask → r = .answer (.row (some t)) →
      y.1.holding = some t' → ¬ShareCategory t t') : HoldsCategory w' y := by
  intro t' c ht' hc
  have hmem := hy t' c ht' hc
  rcases h.runningCategories_eq with heq | ⟨t, a, -, -, heq⟩ | ⟨t, hpc, heq⟩
  · exact heq ▸ hmem
  · exact heq ▸ mem_acquire _ (.inr hmem)
  · rw [heq, mem_release]
    refine ⟨hmem, fun hcat => ?_⟩
    have hshare : ShareCategory t t' := ⟨by rw [hcat]; rfl, hcat.trans hc.symm⟩
    rcases hpc with hpc | ⟨hpc, hr⟩
    · exact hdis t t' (Pc.dispatched_of_holding hpc) (Pc.dispatched_of_holding ht') hshare
    · exact hunlock t t' hpc hr ht' hshare

/-- The mover holds its category as long as its dispatch has not released it. -/
theorem HoldsCategory.resumed_self {a : Option Ans} (hx : HoldsCategory w (pc, a))
    (h : Resumed w pc r w' nx) {x : Pc} (hmem : x ∈ nx.points) : HoldsCategory w' (x, none) := by
  intro t c ht hc
  have hsame : w'.runningCategories = w.runningCategories → pc.holding = some t →
      c ∈ w'.runningCategories := fun heq hpc => heq ▸ hx t c hpc hc
  have not_plain : (∀ x ∈ nx.points, x.Plain) → False := by
    intro hp
    have := Pc.dispatched_of_holding ht
    rw [(hp x hmem).1] at this
    cases this
  cases h with
  | plain _ hp => exact (not_plain hp).elim
  | answered _ hp => exact (not_plain hp).elim
  | finalizedLast hp => exact (not_plain hp).elim
  | released hp => exact (not_plain hp).elim
  | started =>
    rw [List.mem_singleton.mp hmem] at ht
    cases ht
    exact mem_acquire _ (.inl hc)
  | ended =>
    rw [List.mem_singleton.mp hmem] at ht
    exact hsame rfl ht
  | finished =>
    rw [List.mem_singleton.mp hmem] at ht
    exact hsame rfl ht
  | finalized =>
    rcases List.mem_cons.mp hmem with rfl | hmem
    · exact hsame rfl ht
    · rw [List.mem_singleton.mp hmem] at ht
      cases ht
  | unlocked => cases hmem
  | cancelMarked => cases hmem
  | _ =>
    rw [List.mem_singleton.mp hmem] at ht
    cases ht

end Resume

theorem held_of_registering {s : QState} {l : QLabel} {t : Task} (h : t ∈ registering s l) :
    s.world.held (operationCategory t.operation) = false := by
  unfold registering at h
  split at h
  · split at h
    · split_ifs at h with hheld
      · cases h
      · rw [Option.mem_some_iff.mp h] at hheld
        simpa using hheld
    · cases h
  · cases h

theorem category_registered {s : QState} {l : QLabel} {t : Task} (hi : CategoryInv s)
    (hok : CategoriesFree s l) (hreg : t ∈ registering s l) {q : ℕ} {p : Activation Pc Ans}
    (hp : s.procs.get q = some p) : CategoryApart (.markRunning t, none) p.point := by
  intro t₁ t' ht ht' hshare
  cases ht
  rcases Pc.registered_or_holding ht' with hmark | hheld
  · exact hok.category t hreg (q, p) (KeyedList.mem_of_get hp) t' hmark hshare
  · -- the other holds the category, so the tick found it taken
    obtain ⟨c, hc⟩ := Option.isSome_iff_exists.mp hshare.1
    have hmem := hi.here q p hp t' c hheld (hshare.2 ▸ hc)
    have hfree := held_of_registering hreg
    simp [World.held, hc, hmem] at hfree

theorem category_serve {s : QState} {pid : ℕ} {c : Choice} {p : Activation Pc Ans} {a : Ans}
    {w : World} (hi : CategoryInv s) (hp : s.procs.get pid = some p)
    (h : serve s.world p.pc c = some (a, w)) :
    Respects (fun _ => True) HoldsCategory CategoryApart s pid w [(p.pc, some a)] := by
  have holds : ∀ x, HoldsCategory s.world x → HoldsCategory w x := by
    intro x hx t c
    rw [(serve_registries h).runningCategories]
    exact hx t c
  refine ⟨trivial, ?_, List.pairwise_singleton _ _, ?_⟩
  · intro x hx
    rw [List.mem_singleton.mp hx]
    exact holds _ (hi.here pid p hp)
  · intro q p' hq hp'
    refine ⟨holds _ (hi.here q p' hp'), fun x hx => ?_⟩
    rw [List.mem_singleton.mp hx]
    exact hi.apart pid q p p' (Ne.symm hq) hp hp'

theorem category_enter {cfg : Config} {s : QState} {e : Entry} {w : World} {nx : Next Pc}
    (hi : CategoryInv s) (h : enter cfg s.world e = some (w, nx)) :
    Respects (fun _ => True) HoldsCategory CategoryApart s s.next w
      (nx.points.map (·, none)) := by
  have hent := enter_entered h
  have hidle : ∀ pc ∈ nx.points, pc.dispatched = none := by
    intro pc hpc
    obtain rfl | ⟨id, rfl | rfl⟩ := hent.points pc hpc <;> rfl
  refine ⟨trivial, ?_, ?_, ?_⟩
  · intro x hx t c ht
    obtain ⟨pc, hpc, rfl⟩ := List.mem_map.mp hx
    have hd := Pc.dispatched_of_holding ht
    rw [hidle pc hpc] at hd
    cases hd
  · refine List.pairwise_map.mpr (List.pairwise_of_forall_mem_list ?_)
    exact fun pc hpc pc' _ => apart_of_undispatched (hidle pc hpc) _ _
  · intro q p hq hp
    refine ⟨?_, fun x hx => ?_⟩
    · intro t c
      rw [hent.registries.runningCategories]
      exact hi.here q p hp t c
    · obtain ⟨pc, hpc, rfl⟩ := List.mem_map.mp hx
      exact apart_of_undispatched (hidle pc hpc) _ _

theorem category_resume {s : QState} {pid : ℕ} {p : Activation Pc Ans} {r : Reply Ans} {w : World}
    {nx : Next Pc} (hi : CategoryInv s) (hp : s.procs.get pid = some p) (hphase : p.phase = .ready r)
    (hok : CategoriesFree s (.resume pid)) (h : resume s.world p.pc r = (w, nx)) :
    Respects (fun _ => True) HoldsCategory CategoryApart s pid w (nx.points.map (·, none)) := by
  have hres := resumed_of_eq h
  refine ⟨trivial, ?_, ?_, ?_⟩
  · intro x hx
    obtain ⟨pc, hpc, rfl⟩ := List.mem_map.mp hx
    exact (hi.here pid p hp).resumed_self hres hpc
  · refine List.pairwise_map.mpr (hres.one_dispatch.imp ?_)
    rintro x y (hx | hy)
    · exact apart_of_undispatched hx _ _
    · exact (apart_of_undispatched hy _ _).symm
  · intro q p' hq hp'
    have hapart := hi.apart pid q p p' (Ne.symm hq) hp hp'
    refine ⟨(hi.here q p' hp').resumed_other hres hapart ?_, fun x hx => ?_⟩
    · rintro t t' hpc rfl ht'
      exact hok.unlock t (mem_unlocking hp hpc hphase) (q, p') (KeyedList.mem_of_get hp') t' ht'
    · obtain ⟨pc, hpc, rfl⟩ := List.mem_map.mp hx
      intro t t' ht
      rcases hres.dispatched_points hpc ht with hnx | hsame
      · exact category_registered hi hok (registering_of_resumed (hnx ▸ hres) hp hphase) hp' t t' rfl
      · exact hapart t t' hsame

theorem category_coherent (cfg : Config) :
    Coherent (program cfg) CategoriesFree (fun _ => True) HoldsCategory CategoryApart where
  symm _ _ := CategoryApart.symm
  serve _ _ _ _ _ _ hi hp _ _ h := category_serve hi hp h
  resume _ _ _ _ _ _ hi hp hphase hok h := category_resume hi hp hphase hok h
  enter _ _ _ _ hi _ h := category_enter hi h

theorem category_reaches {cfg : Config} {ok : QState → QLabel → Prop} {table : Table} {s : QState}
    (hok : ∀ s l, ok s l → CategoriesFree s l) (h : QReaches cfg ok (boot table) s) :
    CategoryInv s :=
  (category_coherent cfg).reaches (Inv.start trivial) (h.mono hok)

end ZoneweaverAgent.TaskQueue
