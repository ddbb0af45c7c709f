import Mathlib.Data.List.Pairwise
import Mathlib.Order.Fin.Basic
import ZoneweaverAgent.KeyedList
import ZoneweaverAgent.Transition

/-!
# A single-threaded event loop

A program is a set of asynchronous functions. An activation is suspended at a point `Pc`, where it
awaits an external call (`serve` says which answers that call may give and what it does to the
world) or the activations of the functions it called. Between two awaits an activation runs without
interruption (`resume`). The answer of a call and the continuation of the activation are separate
steps, so any other activation may run between them.

`Coherent` is the non-interference rule: what holds of the world, of each activation and of each
pair of activations is preserved if every move establishes it for the mover and respects the
others. `Covered` is the rule for obligations: every debt of the world is owed by an activation.
-/

namespace EventLoop
variable {World Pc Ans Choice Entry : Type*}

/-- What an activation is resumed with: the answer of its call, or the end of its callees. -/
inductive Reply (Ans : Type*)
  | answer (a : Ans)
  | returned
  | failed
  deriving DecidableEq

/-- How an uninterrupted stretch ends. `call` awaits the end of every callee. -/
inductive Next (Pc : Type*)
  | await (pc : Pc)
  | call (callees : List Pc) (pc : Pc)
  | finish (threw : Bool)

structure Program (World Pc Ans Choice Entry : Type*) where
  serve : World → Pc → Choice → Option (Ans × World)
  canFail : Pc → Bool
  resume : World → Pc → Reply Ans → World × Next Pc
  enter : World → Entry → Option (World × Next Pc)

inductive Phase (Ans : Type*)
  | waiting
  | joining (callees : ℕ) (threw : Bool)
  | ready (r : Reply Ans)

/-- The answer an activation has already received, and not yet acted on. -/
def Phase.seen : Phase Ans → Option Ans
  | .ready (.answer a) => some a
  | _ => none

structure Activation (Pc Ans : Type*) where
  pc : Pc
  phase : Phase Ans
  caller : Option ℕ

/-- Where an activation stands, with the answer it has received there. -/
abbrev Point (Pc Ans : Type*) := Pc × Option Ans

def Activation.point (p : Activation Pc Ans) : Point Pc Ans := (p.pc, p.phase.seen)

structure State (World Pc Ans : Type*) where
  world : World
  procs : KeyedList ℕ (Activation Pc Ans)
  next : ℕ

inductive Label (Choice Entry : Type*)
  | serve (pid : ℕ) (c : Choice)
  | fail (pid : ℕ)
  | resume (pid : ℕ)
  | enter (e : Entry)

/-- Tell the caller of an ended activation; the last callee to end makes the caller ready. -/
def settle (procs : KeyedList ℕ (Activation Pc Ans)) (caller : Option ℕ) (threw : Bool) :
    KeyedList ℕ (Activation Pc Ans) :=
  match caller with
  | none => procs
  | some q =>
    match procs.get q with
    | some ⟨pc, .joining n t, c⟩ =>
      if n ≤ 1 then
        procs.set q ⟨pc, .ready (if t || threw then .failed else .returned), c⟩
      else procs.set q ⟨pc, .joining (n - 1) (t || threw), c⟩
    | _ => procs

/-- Start one activation for every callee, under consecutive fresh names. -/
def spawn (procs : KeyedList ℕ (Activation Pc Ans)) (caller : ℕ) :
    ℕ → List Pc → KeyedList ℕ (Activation Pc Ans)
  | _, [] => procs
  | next, pc :: rest => spawn (procs.set next ⟨pc, .waiting, some caller⟩) caller (next + 1) rest

/-- The state after the activation `pid` ran up to `nx`, leaving the world at `w`. -/
def advance (s : State World Pc Ans) (w : World) (pid : ℕ) (caller : Option ℕ) (next : ℕ) :
    Next Pc → State World Pc Ans
  | .await pc => ⟨w, s.procs.set pid ⟨pc, .waiting, caller⟩, next⟩
  | .call [] pc => ⟨w, s.procs.set pid ⟨pc, .ready .returned, caller⟩, next⟩
  | .call (c :: cs) pc =>
    ⟨w, spawn (s.procs.set pid ⟨pc, .joining (cs.length + 1) false, caller⟩) pid next (c :: cs),
      next + (cs.length + 1)⟩
  | .finish threw => ⟨w, settle (s.procs.erase pid) caller threw, next⟩

def step (P : Program World Pc Ans Choice Entry) (s : State World Pc Ans) :
    Label Choice Entry → Option (State World Pc Ans)
  | .serve pid c =>
    match s.procs.get pid with
    | some ⟨pc, .waiting, caller⟩ =>
      (P.serve s.world pc c).map fun r =>
        ⟨r.2, s.procs.set pid ⟨pc, .ready (.answer r.1), caller⟩, s.next⟩
    | _ => none
  | .fail pid =>
    match s.procs.get pid with
    | some ⟨pc, .waiting, caller⟩ =>
      if P.canFail pc then
        some ⟨s.world, s.procs.set pid ⟨pc, .ready .failed, caller⟩, s.next⟩
      else none
    | _ => none
  | .resume pid =>
    match s.procs.get pid with
    | some ⟨pc, .ready r, caller⟩ =>
      let m := P.resume s.world pc r
      some (advance s m.1 pid caller s.next m.2)
    | _ => none
  | .enter e =>
    (P.enter s.world e).map fun m => advance s m.1 s.next none (s.next + 1) m.2

def start (w : World) : State World Pc Ans := ⟨w, [], 0⟩

/-- No activation is left: nothing is in progress. -/
def Quiescent (s : State World Pc Ans) : Prop := s.procs = []

/-- The points a stretch ending in `nx` leaves behind. -/
def Next.points : Next Pc → List Pc
  | .await pc => [pc]
  | .call callees pc => pc :: callees
  | .finish _ => []

/-! ## What a step can do to the activations -/

/-- The activations of `t` are those of `s` other than `pid`, standing where they stood, together
with one activation at each of the points `xs`; `pid` and names from `next` on are the new ones. -/
def Moved (s t : KeyedList ℕ (Activation Pc Ans)) (pid next : ℕ) (xs : List (Point Pc Ans)) :
    Prop :=
  ∀ q p, t.get q = some p →
    (q ≠ pid ∧ ∃ p₀, s.get q = some p₀ ∧ p₀.point = p.point) ∨
      ∃ i : Fin xs.length, p.point = xs.get i ∧ q = if i.val = 0 then pid else next + i.val - 1

theorem moved_set (s : KeyedList ℕ (Activation Pc Ans)) (pid next : ℕ) (p : Activation Pc Ans) :
    Moved s (s.set pid p) pid next [p.point] := by
  intro q p' h
  rw [KeyedList.get_set] at h
  split_ifs at h with hq
  · cases h
    exact .inr ⟨⟨0, by simp⟩, rfl, by simp [hq]⟩
  · exact .inl ⟨Ne.symm hq, p', h, rfl⟩

theorem get_spawn (procs : KeyedList ℕ (Activation Pc Ans)) (caller next : ℕ) (cs : List Pc)
    (q : ℕ) (p : Activation Pc Ans) (h : (spawn procs caller next cs).get q = some p) :
    procs.get q = some p ∨ ∃ i : Fin cs.length, q = next + i.val ∧
      p = ⟨cs.get i, .waiting, some caller⟩ := by
  induction cs generalizing procs next with
  | nil => exact .inl h
  | cons c cs ih =>
    rcases ih _ _ h with hq | ⟨i, hi, hp⟩
    · rw [KeyedList.get_set] at hq
      split_ifs at hq with hn
      · exact .inr ⟨⟨0, Nat.succ_pos _⟩, by simp [hn], (Option.some.inj hq).symm⟩
      · exact .inl hq
    · refine .inr ⟨i.succ, ?_, hp⟩
      rw [Fin.val_succ]
      omega

theorem moved_spawn (s : KeyedList ℕ (Activation Pc Ans)) (pid next : ℕ)
    (p : Activation Pc Ans) (cs : List Pc) :
    Moved s (spawn (s.set pid p) pid next cs) pid next (p.point :: cs.map (·, none)) := by
  intro q p' h
  rcases get_spawn _ _ _ _ _ _ h with hq | ⟨i, hi, hp⟩
  · rw [KeyedList.get_set] at hq
    split_ifs at hq with hn
    · cases hq
      exact .inr ⟨⟨0, Nat.succ_pos _⟩, rfl, by simp [hn]⟩
    · exact .inl ⟨Ne.symm hn, p', hq, rfl⟩
  · refine .inr ⟨⟨i.val + 1, by simp⟩, ?_, ?_⟩
    · subst hp
      simp [Activation.point, Phase.seen]
    · rw [if_neg (Nat.succ_ne_zero _)]
      change q = next + (i.val + 1) - 1
      omega

/-- Where the step took one old activation. -/
theorem Moved.follow {s t : KeyedList ℕ (Activation Pc Ans)} {pid next q : ℕ}
    {xs : List (Point Pc Ans)} {p : Activation Pc Ans} (h : Moved s t pid next xs) (hq : q < next)
    (hp : t.get q = some p) :
    (q ≠ pid ∧ ∃ p₀, s.get q = some p₀ ∧ p₀.point = p.point) ∨
      (q = pid ∧ xs.head? = some p.point) := by
  rcases h q p hp with hold | ⟨⟨i, hi⟩, hpoint, hq'⟩
  · exact .inl hold
  · dsimp only at hq'
    split_ifs at hq' with h0
    · subst h0
      exact .inr ⟨hq', by rw [List.head?_eq_getElem?, List.getElem?_eq_getElem hi, hpoint]; rfl⟩
    · omega

/-- Telling a caller that a callee has ended moves nobody. -/
theorem get_settle (procs : KeyedList ℕ (Activation Pc Ans)) (caller : Option ℕ) (threw : Bool)
    (q : ℕ) (p : Activation Pc Ans) (h : (settle procs caller threw).get q = some p) :
    ∃ p₀, procs.get q = some p₀ ∧ p₀.point = p.point := by
  cases caller with
  | none => exact ⟨p, h, rfl⟩
  | some c =>
    simp only [settle] at h
    split at h
    case h_1 pc n t cl hc =>
      have key : ∀ ph : Phase Ans, ph.seen = none →
          (procs.set c ⟨pc, ph, cl⟩).get q = some p →
          ∃ p₀, procs.get q = some p₀ ∧ p₀.point = p.point := by
        intro ph hph hq
        rw [KeyedList.get_set] at hq
        split_ifs at hq with hcq
        · subst hcq
          cases hq
          exact ⟨_, hc, congrArg (Prod.mk pc) hph.symm⟩
        · exact ⟨p, hq, rfl⟩
      by_cases hn : n ≤ 1
      · rw [if_pos hn] at h
        exact key _ (by cases t || threw <;> rfl) h
      · rw [if_neg hn] at h
        exact key _ rfl h
    case h_2 => exact ⟨p, h, rfl⟩

theorem moved_advance (s : State World Pc Ans) (w : World) (pid : ℕ) (caller : Option ℕ)
    (next : ℕ) (nx : Next Pc) :
    Moved s.procs (advance s w pid caller next nx).procs pid next (nx.points.map (·, none)) := by
  cases nx with
  | await pc => exact moved_set s.procs pid next ⟨pc, .waiting, caller⟩
  | call callees pc =>
    cases callees with
    | nil => exact moved_set s.procs pid next ⟨pc, .ready .returned, caller⟩
    | cons c cs =>
      exact moved_spawn s.procs pid next ⟨pc, .joining (cs.length + 1) false, caller⟩ (c :: cs)
  | finish threw =>
    intro q p h
    obtain ⟨p₀, h₀, hp⟩ := get_settle _ _ _ _ _ h
    obtain ⟨hq, h₁⟩ := KeyedList.get_erase_eq_some h₀
    exact .inl ⟨Ne.symm hq, p₀, h₁, hp⟩

@[simp] theorem advance_world (s : State World Pc Ans) (w : World) (pid : ℕ) (caller : Option ℕ)
    (next : ℕ) (nx : Next Pc) : (advance s w pid caller next nx).world = w := by
  cases nx with
  | await pc => rfl
  | call callees pc => cases callees <;> rfl
  | finish threw => rfl

theorem advance_next (s : State World Pc Ans) (w : World) (pid : ℕ) (caller : Option ℕ)
    (next : ℕ) (nx : Next Pc) :
    (advance s w pid caller next nx).next = next + (nx.points.length - 1) := by
  cases nx with
  | await pc => rfl
  | call callees pc => cases callees <;> simp [advance, Next.points]
  | finish threw => rfl

/-- Every name in use is older than the next one. -/
def Fresh (s : State World Pc Ans) : Prop := ∀ q p, s.procs.get q = some p → q < s.next

/-- The converse of `Moved`: in `t` the activations of `s` other than `pid` are still there, standing
where they stood, and each of the points `xs` is taken. -/
structure Kept (s t : State World Pc Ans) (pid : ℕ) (xs : List (Point Pc Ans)) : Prop where
  others : ∀ q p, q ≠ pid → s.procs.get q = some p →
    ∃ p', t.procs.get q = some p' ∧ p'.point = p.point
  news : ∀ x ∈ xs, ∃ q p, t.procs.get q = some p ∧ p.point = x

theorem kept_set (s : State World Pc Ans) (w : World) (pid : ℕ) (p : Activation Pc Ans)
    (next : ℕ) : Kept s ⟨w, s.procs.set pid p, next⟩ pid [p.point] where
  others _ p₀ hq hp := ⟨p₀, by rw [KeyedList.get_set_of_ne _ _ (Ne.symm hq), hp], rfl⟩
  news _ hx := ⟨pid, p, KeyedList.get_set_self _ _ _, (List.mem_singleton.mp hx).symm⟩

theorem get_spawn_of_lt (procs : KeyedList ℕ (Activation Pc Ans)) (caller : ℕ) {next q : ℕ}
    (cs : List Pc) (hq : q < next) : (spawn procs caller next cs).get q = procs.get q := by
  induction cs generalizing procs next with
  | nil => rfl
  | cons c cs ih =>
    rw [spawn, ih _ (hq.trans (Nat.lt_succ_self next)), KeyedList.get_set_of_ne _ _ hq.ne']

theorem get_spawn_new (procs : KeyedList ℕ (Activation Pc Ans)) (caller next : ℕ) {cs : List Pc}
    {c : Pc} (hc : c ∈ cs) :
    ∃ q, (spawn procs caller next cs).get q = some ⟨c, .waiting, some caller⟩ := by
  induction cs generalizing procs next with
  | nil => cases hc
  | cons c' cs ih =>
    rcases List.mem_cons.mp hc with rfl | hc
    · exact ⟨next, by rw [spawn, get_spawn_of_lt _ _ _ (Nat.lt_succ_self next),
        KeyedList.get_set_self]⟩
    · exact ih _ _ hc

theorem get_settle_of_get {procs : KeyedList ℕ (Activation Pc Ans)} (caller : Option ℕ)
    (threw : Bool) {q : ℕ} {p : Activation Pc Ans} (h : procs.get q = some p) :
    ∃ p', (settle procs caller threw).get q = some p' ∧ p'.point = p.point := by
  cases caller with
  | none => exact ⟨p, h, rfl⟩
  | some c =>
    simp only [settle]
    split
    case h_1 pc n t cl hc =>
      have key : ∀ ph : Phase Ans, ph.seen = none →
          ∃ p', (procs.set c ⟨pc, ph, cl⟩).get q = some p' ∧ p'.point = p.point := by
        intro ph hph
        rw [KeyedList.get_set]
        split_ifs with hcq
        · subst hcq
          cases hc.symm.trans h
          exact ⟨_, rfl, congrArg (Prod.mk pc) hph⟩
        · exact ⟨p, h, rfl⟩
      by_cases hn : n ≤ 1
      · rw [if_pos hn]
        exact key _ (by cases t || threw <;> rfl)
      · rw [if_neg hn]
        exact key _ rfl
    case h_2 => exact ⟨p, h, rfl⟩

theorem kept_advance (s : State World Pc Ans) (w : World) (pid : ℕ) (caller : Option ℕ)
    {next : ℕ} (nx : Next Pc) (hpid : pid < next) (hfresh : ∀ q p, s.procs.get q = some p → q < next) :
    Kept s (advance s w pid caller next nx) pid (nx.points.map (·, none)) := by
  cases nx with
  | await pc => exact kept_set s w pid ⟨pc, .waiting, caller⟩ next
  | call callees pc =>
    cases callees with
    | nil => exact kept_set s w pid ⟨pc, .ready .returned, caller⟩ next
    | cons c cs =>
      refine ⟨fun q p hq hp => ⟨p, ?_, rfl⟩, fun x hx => ?_⟩
      · change (spawn _ pid next (c :: cs)).get q = some p
        rw [get_spawn_of_lt _ _ _ (hfresh q p hp), KeyedList.get_set_of_ne _ _ (Ne.symm hq), hp]
      · obtain ⟨pc', hpc', rfl⟩ := List.mem_map.mp hx
        rcases List.mem_cons.mp hpc' with rfl | hmem
        · refine ⟨pid, ⟨pc', .joining (cs.length + 1) false, caller⟩, ?_, rfl⟩
          change (spawn _ pid next (c :: cs)).get pid = _
          rw [get_spawn_of_lt _ _ _ hpid, KeyedList.get_set_self]
        · obtain ⟨q, hq⟩ := get_spawn_new
            (s.procs.set pid ⟨pc, .joining (cs.length + 1) false, caller⟩) pid next hmem
          exact ⟨q, _, hq, rfl⟩
  | finish threw =>
    refine ⟨fun q p hq hp => ?_, fun x hx => by cases hx⟩
    refine get_settle_of_get caller threw ?_
    rw [KeyedList.get_erase_of_ne _ (Ne.symm hq), hp]

/-! ## The rules -/

/-- What one step does: an activation receives an answer or a failure, or is resumed, or a new one
is entered. -/
inductive Steps (P : Program World Pc Ans Choice Entry) (s t : State World Pc Ans) :
    Label Choice Entry → Prop
  | serve {pid : ℕ} {c : Choice} {p : Activation Pc Ans} {a : Ans} :
      s.procs.get pid = some p → p.phase.seen = none →
      P.serve s.world p.pc c = some (a, t.world) →
      Moved s.procs t.procs pid s.next [(p.pc, some a)] → t.next = s.next →
      Kept s t pid [(p.pc, some a)] → Steps P s t (.serve pid c)
  | fail {pid : ℕ} {p : Activation Pc Ans} :
      s.procs.get pid = some p → P.canFail p.pc = true → t.world = s.world →
      Moved s.procs t.procs pid s.next [p.point] → t.next = s.next → Kept s t pid [p.point] →
      Steps P s t (.fail pid)
  | resume {pid : ℕ} {p : Activation Pc Ans} {r : Reply Ans} {nx : Next Pc} :
      s.procs.get pid = some p → p.phase = .ready r →
      P.resume s.world p.pc r = (t.world, nx) →
      Moved s.procs t.procs pid s.next (nx.points.map (·, none)) →
      t.next = s.next + (nx.points.length - 1) →
      (Fresh s → Kept s t pid (nx.points.map (·, none))) → Steps P s t (.resume pid)
  | enter {e : Entry} {nx : Next Pc} :
      P.enter s.world e = some (t.world, nx) →
      Moved s.procs t.procs s.next (s.next + 1) (nx.points.map (·, none)) →
      t.next = s.next + 1 + (nx.points.length - 1) →
      (Fresh s → Kept s t s.next (nx.points.map (·, none))) → Steps P s t (.enter e)

theorem steps_of_step {P : Program World Pc Ans Choice Entry} {s t : State World Pc Ans}
    {l : Label Choice Entry} (h : step P s l = some t) : Steps P s t l := by
  cases l with
  | serve pid c =>
    simp only [step] at h
    split at h
    case h_1 pc caller hp =>
      obtain ⟨r, hr, rfl⟩ := Option.map_eq_some_iff.mp h
      exact .serve hp rfl hr (moved_set _ _ _ _) rfl
        (kept_set s r.2 pid ⟨pc, .ready (.answer r.1), caller⟩ s.next)
    case h_2 => cases h
  | fail pid =>
    simp only [step] at h
    split at h
    case h_1 pc caller hp =>
      split_ifs at h with hf
      cases h
      exact .fail hp hf rfl (moved_set _ _ _ _) rfl
        (kept_set s s.world pid ⟨pc, .ready .failed, caller⟩ s.next)
    case h_2 => cases h
  | resume pid =>
    simp only [step] at h
    split at h
    case h_1 pc r caller hp =>
      cases h
      exact .resume hp rfl (by rw [advance_world]) (moved_advance _ _ _ _ _ _)
        (advance_next _ _ _ _ _ _) fun hf => kept_advance _ _ _ _ _ (hf _ _ hp) hf
    case h_2 => cases h
  | enter e =>
    obtain ⟨m, hm, rfl⟩ := Option.map_eq_some_iff.mp h
    exact .enter (by rw [advance_world]; exact hm) (moved_advance _ _ _ _ _ _)
      (advance_next _ _ _ _ _ _)
      fun hf => kept_advance _ _ _ _ _ (Nat.lt_succ_self _) fun q p hp =>
        (hf q p hp).trans (Nat.lt_succ_self _)

section Rules
variable (P : Program World Pc Ans Choice Entry)
variable (ok : State World Pc Ans → Label Choice Entry → Prop)
variable (G : World → Prop) (L : World → Point Pc Ans → Prop)
variable (R : Point Pc Ans → Point Pc Ans → Prop)

/-- `G` holds of the world, `L` of every activation and `R` of every two of them. -/
structure Inv (s : State World Pc Ans) : Prop where
  world : G s.world
  here : ∀ q p, s.procs.get q = some p → L s.world p.point
  apart : ∀ q q' p p', q ≠ q' → s.procs.get q = some p → s.procs.get q' = some p' →
    R p.point p'.point
  fresh : Fresh s

/-- A move of `pid` to the points `xs` that leaves the world at `w` establishes the invariant for
these points and keeps it for every other activation. -/
structure Respects (s : State World Pc Ans) (pid : ℕ) (w : World) (xs : List (Point Pc Ans)) :
    Prop where
  world : G w
  here : ∀ x ∈ xs, L w x
  apart : xs.Pairwise R
  others : ∀ q p, q ≠ pid → s.procs.get q = some p →
    L w p.point ∧ ∀ x ∈ xs, R x p.point

/-- The non-interference rule: every kind of move respects the invariant. -/
structure Coherent : Prop where
  symm : ∀ x y, R x y → R y x
  serve : ∀ s pid c p a w, Inv G L R s → s.procs.get pid = some p → p.phase.seen = none →
    ok s (.serve pid c) → P.serve s.world p.pc c = some (a, w) →
    Respects G L R s pid w [(p.pc, some a)]
  resume : ∀ s pid p r w nx, Inv G L R s → s.procs.get pid = some p → p.phase = .ready r →
    ok s (.resume pid) → P.resume s.world p.pc r = (w, nx) →
    Respects G L R s pid w (nx.points.map (·, none))
  enter : ∀ s e w nx, Inv G L R s → ok s (.enter e) → P.enter s.world e = some (w, nx) →
    Respects G L R s s.next w (nx.points.map (·, none))

variable {P ok G L R}

theorem Inv.of_moved {s t : State World Pc Ans} {pid next : ℕ} {xs : List (Point Pc Ans)}
    (hsymm : ∀ x y, R x y → R y x) (hi : Inv G L R s)
    (hmoved : Moved s.procs t.procs pid next xs) (hr : Respects G L R s pid t.world xs)
    (hfresh : ∀ i : Fin xs.length, (if i.val = 0 then pid else next + i.val - 1) < t.next)
    (hnext : s.next ≤ t.next) : Inv G L R t where
  world := hr.world
  here := by
    intro q p hq
    rcases hmoved q p hq with ⟨hne, p₀, h₀, hp⟩ | ⟨i, hp, _⟩
    · rw [← hp]
      exact (hr.others q p₀ hne h₀).1
    · rw [hp]
      exact hr.here _ (List.get_mem _ _)
  apart := by
    intro q q' p p' hqq hq hq'
    rcases hmoved q p hq with ⟨hne, p₀, h₀, hp⟩ | ⟨i, hp, hi'⟩ <;>
      rcases hmoved q' p' hq' with ⟨hne', p₁, h₁, hp'⟩ | ⟨j, hp', hj'⟩
    · rw [← hp, ← hp']
      exact hi.apart q q' p₀ p₁ hqq h₀ h₁
    · rw [← hp, hp']
      exact hsymm _ _ ((hr.others q p₀ hne h₀).2 _ (List.get_mem _ _))
    · rw [hp, ← hp']
      exact (hr.others q' p₁ hne' h₁).2 _ (List.get_mem _ _)
    · rw [hp, hp']
      have hij : i ≠ j := by
        rintro rfl
        exact hqq (hi'.trans hj'.symm)
      rcases lt_or_gt_of_ne hij with hlt | hlt
      · exact List.pairwise_iff_get.mp hr.apart i j hlt
      · exact hsymm _ _ (List.pairwise_iff_get.mp hr.apart j i hlt)
  fresh := by
    intro q p hq
    rcases hmoved q p hq with ⟨_, p₀, h₀, _⟩ | ⟨i, _, hq'⟩
    · exact (hi.fresh q p₀ h₀).trans_le hnext
    · rw [hq']
      exact hfresh i

theorem Coherent.step (hc : Coherent P ok G L R) {s t : State World Pc Ans}
    {l : Label Choice Entry} (hi : Inv G L R s) (hok : ok s l)
    (h : EventLoop.step P s l = some t) :
    Inv G L R t := by
  cases steps_of_step h with
  | @serve pid c p a hp hseen hserve hmoved hnext _ =>
    have hr := hc.serve s pid c p a t.world hi hp hseen hok hserve
    refine hi.of_moved hc.symm hmoved hr ?_ hnext.ge
    intro i
    have hi0 : i.val = 0 := Nat.lt_one_iff.mp i.isLt
    rw [if_pos hi0, hnext]
    exact hi.fresh pid p hp
  | @fail pid p hp _ hw hmoved hnext _ =>
    have hr : Respects G L R s pid t.world [p.point] := by
      rw [hw]
      refine ⟨hi.world, ?_, List.pairwise_singleton _ _, ?_⟩
      · intro x hx
        rw [List.mem_singleton.mp hx]
        exact hi.here pid p hp
      · intro q p' hq hp'
        refine ⟨hi.here q p' hp', ?_⟩
        intro x hx
        rw [List.mem_singleton.mp hx]
        exact hi.apart pid q p p' (Ne.symm hq) hp hp'
    refine hi.of_moved hc.symm hmoved hr ?_ hnext.ge
    intro i
    have hi0 : i.val = 0 := Nat.lt_one_iff.mp i.isLt
    rw [if_pos hi0, hnext]
    exact hi.fresh pid p hp
  | @resume pid p r nx hp hphase hres hmoved hnext _ =>
    have hr := hc.resume s pid p r t.world nx hi hp hphase hok hres
    refine hi.of_moved hc.symm hmoved hr ?_ (by omega)
    intro i
    have hlt := i.isLt
    simp only [List.length_map] at hlt
    have hpid := hi.fresh pid p hp
    split_ifs <;> omega
  | @enter e nx hent hmoved hnext _ =>
    have hr := hc.enter s e t.world nx hi hok hent
    refine hi.of_moved hc.symm hmoved hr ?_ (by omega)
    intro i
    have hlt := i.isLt
    simp only [List.length_map] at hlt
    split_ifs <;> omega

theorem Inv.start {w : World} (hw : G w) : Inv G L R (start w : State World Pc Ans) where
  world := hw
  here := by intro q p h; cases h
  apart := by intro q q' p p' _ h; cases h
  fresh := by intro q p h; cases h

theorem Coherent.reaches (hc : Coherent P ok G L R) {s t : State World Pc Ans}
    (hi : Inv G L R s) (h : Transition.Reaches (EventLoop.step P) ok s t) : Inv G L R t :=
  h.invariant hi (fun _ _ _ hi hok hst => hc.step hi hok hst)

/-- An invariant of the world alone. -/
theorem world_reaches {s t : State World Pc Ans} (hs : G s.world)
    (hserve : ∀ s pid c p a w, G s.world → s.procs.get pid = some p → ok s (.serve pid c) →
      P.serve s.world p.pc c = some (a, w) → G w)
    (hresume : ∀ s pid p r w nx, G s.world → s.procs.get pid = some p → p.phase = .ready r →
      ok s (.resume pid) → P.resume s.world p.pc r = (w, nx) → G w)
    (henter : ∀ s e w nx, G s.world → ok s (.enter e) → P.enter s.world e = some (w, nx) → G w)
    (h : Transition.Reaches (EventLoop.step P) ok s t) : G t.world := by
  refine h.invariant (I := fun s => G s.world) hs fun a l b ha hok hst => ?_
  cases steps_of_step hst with
  | serve hp _ hserved => exact hserve _ _ _ _ _ _ ha hp hok hserved
  | fail _ _ hw => exact hw ▸ ha
  | resume hp hphase hres => exact hresume _ _ _ _ _ _ ha hp hphase hok hres
  | enter hent => exact henter _ _ _ _ ha hok hent

/-- What is established of one activation and kept by every step holds of it while it lives. -/
theorem follow_reaches {J : World → Point Pc Ans → Prop} {pid : ℕ}
    (hstable : ∀ s l t x, ok s l → step P s l = some t → J s.world x → J t.world x)
    (hserve : ∀ s c p a w, s.procs.get pid = some p → ok s (.serve pid c) →
      P.serve s.world p.pc c = some (a, w) → J s.world (p.pc, none) → J w (p.pc, some a))
    (hresume : ∀ w pc r w' nx x, P.resume w pc r = (w', nx) →
      J w (pc, (Phase.ready r).seen) → nx.points.head? = some x → J w' (x, none))
    {s t : State World Pc Ans} (h : Transition.Reaches (EventLoop.step P) ok s t)
    (hpid : pid < s.next) (hs : ∀ p, s.procs.get pid = some p → J s.world p.point) :
    ∀ p, t.procs.get pid = some p → J t.world p.point := by
  refine (h.invariant (I := fun u => pid < u.next ∧
    ∀ p, u.procs.get pid = some p → J u.world p.point) ⟨hpid, hs⟩ ?_).2
  intro u l v ⟨hlt, hu⟩ hok hst
  have old : ∀ {p p₀ : Activation Pc Ans}, u.procs.get pid = some p₀ → p₀.point = p.point →
      J v.world p.point := fun hp₀ hpoint => hstable u l v _ hok hst (hpoint ▸ hu _ hp₀)
  cases steps_of_step hst with
  | @serve q c p₁ a hp₁ hseen hserved hmoved hnext _ =>
    refine ⟨hnext ▸ hlt, fun p hp => ?_⟩
    rcases hmoved.follow hlt hp with ⟨-, p₀, hp₀, hpoint⟩ | ⟨rfl, hhead⟩
    · exact old hp₀ hpoint
    · rw [← Option.some.inj hhead]
      have := hu p₁ hp₁
      rw [Activation.point, hseen] at this
      exact hserve u c p₁ a _ hp₁ hok hserved this
  | @fail q p₁ hp₁ _ _ hmoved hnext _ =>
    refine ⟨hnext ▸ hlt, fun p hp => ?_⟩
    rcases hmoved.follow hlt hp with ⟨-, p₀, hp₀, hpoint⟩ | ⟨rfl, hhead⟩
    · exact old hp₀ hpoint
    · exact old hp₁ (Option.some.inj hhead)
  | @resume q p₁ r nx hp₁ hphase hres hmoved hnext _ =>
    refine ⟨by omega, fun p hp => ?_⟩
    rcases hmoved.follow hlt hp with ⟨-, p₀, hp₀, hpoint⟩ | ⟨rfl, hhead⟩
    · exact old hp₀ hpoint
    · rw [List.head?_map] at hhead
      obtain ⟨x, hx, hpoint⟩ := Option.map_eq_some_iff.mp hhead
      rw [← hpoint]
      refine hresume _ _ r _ nx x hres ?_ hx
      rw [← hphase]
      exact hu p₁ hp₁
  | @enter e nx _ hmoved hnext _ =>
    refine ⟨by omega, fun p hp => ?_⟩
    rcases hmoved.follow (Nat.lt_succ_of_lt hlt) hp with ⟨-, p₀, hp₀, hpoint⟩ | ⟨heq, -⟩
    · exact old hp₀ hpoint
    · exact absurd heq hlt.ne

end Rules

section Stands
variable {P : Program World Pc Ans Choice Entry} {L : Pc → Prop}

/-- Every activation stands at a point that meets `L`. -/
def Stands (L : Pc → Prop) (s : State World Pc Ans) : Prop :=
  ∀ q p, s.procs.get q = some p → L p.pc

theorem Stands.moved {s t : State World Pc Ans} {pid next : ℕ} {xs : List (Point Pc Ans)}
    (hs : Stands L s) (h : Moved s.procs t.procs pid next xs) (hxs : ∀ x ∈ xs, L x.1) :
    Stands L t := by
  intro q p hp
  rcases h q p hp with ⟨-, p₀, hp₀, hpoint⟩ | ⟨i, hpoint, -⟩
  · rw [show p.pc = p₀.pc from (congrArg Prod.fst hpoint).symm]
    exact hs q p₀ hp₀
  · rw [show p.pc = (xs.get i).1 from congrArg Prod.fst hpoint]
    exact hxs _ (List.get_mem xs i)

/-- A property of points alone is kept by the steps if the code keeps it. -/
theorem Stands.step {s t : State World Pc Ans} {l : Label Choice Entry} (hs : Stands L s)
    (hresume : ∀ w pc r, L pc → ∀ x ∈ (P.resume w pc r).2.points, L x)
    (henter : ∀ w e m, P.enter w e = some m → ∀ x ∈ m.2.points, L x)
    (h : EventLoop.step P s l = some t) : Stands L t := by
  have new : ∀ nx : Next Pc, (∀ x ∈ nx.points, L x) →
      ∀ x ∈ nx.points.map (fun pc => (pc, (none : Option Ans))), L x.1 := by
    intro nx hnx x hx
    obtain ⟨pc, hpc, rfl⟩ := List.mem_map.mp hx
    exact hnx pc hpc
  cases steps_of_step h with
  | @serve pid c p a hp _ _ hmoved =>
    apply hs.moved hmoved
    intro x hx
    rw [List.mem_singleton.mp hx]
    exact hs pid p hp
  | @fail pid p hp _ _ hmoved =>
    apply hs.moved hmoved
    intro x hx
    rw [List.mem_singleton.mp hx]
    exact hs pid p hp
  | @resume pid p r nx hp _ hres hmoved =>
    apply hs.moved hmoved
    apply new
    have hkept := hresume s.world p.pc r (hs pid p hp)
    rwa [hres] at hkept
  | @enter e nx hent hmoved =>
    apply hs.moved hmoved
    apply new
    exact henter s.world e _ hent

end Stands

section Answering
variable {P : Program World Pc Ans Choice Entry} {A : Pc → Prop}

/-- An activation at a point in `A` awaits its answer or has received one. -/
def Answering (A : Pc → Prop) (procs : KeyedList ℕ (Activation Pc Ans)) : Prop :=
  ∀ q p, procs.get q = some p → A p.pc →
    p.phase = .waiting ∨ ∃ a, p.phase = .ready (.answer a)

theorem Answering.set {procs : KeyedList ℕ (Activation Pc Ans)} (h : Answering A procs) (pid : ℕ)
    (p : Activation Pc Ans)
    (hp : A p.pc → p.phase = .waiting ∨ ∃ a, p.phase = .ready (.answer a)) :
    Answering A (procs.set pid p) := by
  intro q p' hq hA
  rw [KeyedList.get_set] at hq
  split_ifs at hq with hpq
  · cases hq
    exact hp hA
  · exact h q p' hq hA

theorem Answering.settle {procs : KeyedList ℕ (Activation Pc Ans)} (h : Answering A procs)
    (caller : Option ℕ) (threw : Bool) : Answering A (settle procs caller threw) := by
  cases caller with
  | none => exact h
  | some q =>
    simp only [EventLoop.settle]
    split
    case h_1 pc n t c hq =>
      -- who awaits the end of callees is at no such point
      have hnot : ¬A pc := by
        intro hA
        rcases h q _ hq hA with hwait | ⟨a, hready⟩
        · cases hwait
        · cases hready
      by_cases hn : n ≤ 1
      · rw [if_pos hn]
        exact h.set q _ fun hA => absurd hA hnot
      · rw [if_neg hn]
        exact h.set q _ fun hA => absurd hA hnot
    case h_2 => exact h

theorem Answering.advance {s : State World Pc Ans} (h : Answering A s.procs) (w : World) (pid : ℕ)
    (caller : Option ℕ) (next : ℕ) {nx : Next Pc} (hcall : ∀ cs pc, nx = .call cs pc → ¬A pc) :
    Answering A (advance s w pid caller next nx).procs := by
  cases nx with
  | await pc => exact h.set pid _ fun _ => .inl rfl
  | call cs pc =>
    have hnot : ¬A pc := hcall cs pc rfl
    cases cs with
    | nil => exact h.set pid _ fun hA => absurd hA hnot
    | cons c cs =>
      have hset := h.set pid ⟨pc, .joining (cs.length + 1) false, caller⟩ fun hA => absurd hA hnot
      intro q p hq hA
      rcases get_spawn _ _ _ _ _ _ hq with hold | ⟨i, -, rfl⟩
      · exact hset q p hold hA
      · exact .inl rfl
  | finish threw =>
    apply Answering.settle
    intro q p hq hA
    exact h q p (KeyedList.get_erase_eq_some hq).2 hA

/-- Points that await a call which cannot fail, and never the end of callees, get answers only. -/
theorem Answering.step {s t : State World Pc Ans} {l : Label Choice Entry}
    (h : Answering A s.procs) (hfail : ∀ pc, A pc → P.canFail pc = false)
    (hresume : ∀ w pc r cs pc', (P.resume w pc r).2 = .call cs pc' → ¬A pc')
    (henter : ∀ w e m cs pc', P.enter w e = some m → m.2 = .call cs pc' → ¬A pc')
    (hst : EventLoop.step P s l = some t) : Answering A t.procs := by
  cases l with
  | serve pid c =>
    simp only [EventLoop.step] at hst
    split at hst
    · obtain ⟨r, -, rfl⟩ := Option.map_eq_some_iff.mp hst
      exact h.set pid _ fun _ => .inr ⟨_, rfl⟩
    · cases hst
  | fail pid =>
    simp only [EventLoop.step] at hst
    split at hst
    · split_ifs at hst with hcan
      cases hst
      refine h.set pid _ fun hA => ?_
      rw [hfail _ hA] at hcan
      cases hcan
    · cases hst
  | resume pid =>
    simp only [EventLoop.step] at hst
    split at hst
    · cases hst
      exact h.advance _ _ _ _ fun cs pc hnx => hresume _ _ _ cs pc hnx
    · cases hst
  | enter e =>
    obtain ⟨m, hm, rfl⟩ := Option.map_eq_some_iff.mp hst
    exact h.advance _ _ _ _ fun cs pc hnx => henter _ _ m cs pc hm hnx

end Answering

section Debts
variable {Res : Type*} (P : Program World Pc Ans Choice Entry)
variable (ok : State World Pc Ans → Label Choice Entry → Prop)
variable (debt : World → Res → Prop) (owes : Point Pc Ans → Res → Prop)

/-- Every debt of the world is owed by some activation. -/
def Covered (s : State World Pc Ans) : Prop :=
  ∀ r, debt s.world r → ∃ q p, s.procs.get q = some p ∧ owes p.point r

/-- A move of `pid` to the points `xs` that leaves the world at `w` leaves no debt uncovered. -/
def Passes (s : State World Pc Ans) (pid : ℕ) (w : World) (xs : List (Point Pc Ans)) : Prop :=
  ∀ r, debt w r → (∃ q p, q ≠ pid ∧ s.procs.get q = some p ∧ owes p.point r) ∨ ∃ x ∈ xs, owes x r

/-- The rule for obligations: every kind of move passes its debts on. -/
structure Covering : Prop where
  serve : ∀ s pid c p a w, Covered debt owes s → s.procs.get pid = some p → p.phase.seen = none →
    ok s (.serve pid c) → P.serve s.world p.pc c = some (a, w) →
    Passes debt owes s pid w [(p.pc, some a)]
  resume : ∀ s pid p r w nx, Covered debt owes s → s.procs.get pid = some p →
    p.phase = .ready r → ok s (.resume pid) → P.resume s.world p.pc r = (w, nx) →
    Passes debt owes s pid w (nx.points.map (·, none))
  enter : ∀ s e w nx, Covered debt owes s → Fresh s → ok s (.enter e) →
    P.enter s.world e = some (w, nx) → Passes debt owes s s.next w (nx.points.map (·, none))

variable {P ok debt owes}

theorem Covered.of_passes {s t : State World Pc Ans} {pid : ℕ} {xs : List (Point Pc Ans)}
    (hkept : Kept s t pid xs) (h : Passes debt owes s pid t.world xs) : Covered debt owes t := by
  intro r hr
  rcases h r hr with ⟨q, p, hq, hp, howes⟩ | ⟨x, hx, howes⟩
  · obtain ⟨p', hp', hpoint⟩ := hkept.others q p hq hp
    exact ⟨q, p', hp', hpoint ▸ howes⟩
  · obtain ⟨q, p, hp, hpoint⟩ := hkept.news x hx
    exact ⟨q, p, hp, hpoint ▸ howes⟩

/-- Debts that were covered before the move stay so, if the mover passes on its own. -/
theorem Covered.passes {s : State World Pc Ans} {pid : ℕ} {p : Activation Pc Ans} {w : World}
    {xs : List (Point Pc Ans)} (hc : Covered debt owes s) (hp : s.procs.get pid = some p)
    (hold : ∀ r, debt w r → debt s.world r ∨ ∃ x ∈ xs, owes x r)
    (hself : ∀ r, debt w r → owes p.point r → ∃ x ∈ xs, owes x r) :
    Passes debt owes s pid w xs := by
  intro r hr
  rcases hold r hr with hr' | hx
  · obtain ⟨q, p', hp', howes⟩ := hc r hr'
    by_cases hq : q = pid
    · subst hq
      cases hp.symm.trans hp'
      exact .inr (hself r hr howes)
    · exact .inl ⟨q, p', hq, hp', howes⟩
  · exact .inr hx

/-- An entry that makes no debts of its own leaves the others covered. -/
theorem Covered.passes_enter {s : State World Pc Ans} {w : World} {xs : List (Point Pc Ans)}
    (hc : Covered debt owes s) (hfresh : Fresh s) (hold : ∀ r, debt w r → debt s.world r) :
    Passes debt owes s s.next w xs := by
  intro r hr
  obtain ⟨q, p, hp, howes⟩ := hc r (hold r hr)
  exact .inl ⟨q, p, (hfresh q p hp).ne, hp, howes⟩

theorem Covering.step (hc : Covering P ok debt owes) {s t : State World Pc Ans}
    {l : Label Choice Entry} (hs : Covered debt owes s) (hfresh : Fresh s) (hok : ok s l)
    (h : EventLoop.step P s l = some t) : Covered debt owes t := by
  cases steps_of_step h with
  | serve hp hseen hserve _ _ hkept =>
    exact .of_passes hkept (hc.serve _ _ _ _ _ _ hs hp hseen hok hserve)
  | @fail pid p hp _ hw _ _ hkept =>
    refine .of_passes hkept (hs.passes hp ?_ ?_)
    · exact fun r hr => .inl (hw ▸ hr)
    · exact fun r _ howes => ⟨_, List.mem_singleton_self _, howes⟩
  | resume hp hphase hres _ _ hkept =>
    exact .of_passes (hkept hfresh) (hc.resume _ _ _ _ _ _ hs hp hphase hok hres)
  | enter hent _ _ hkept => exact .of_passes (hkept hfresh) (hc.enter _ _ _ _ hs hfresh hok hent)

theorem Covering.reaches (hc : Covering P ok debt owes) {s t : State World Pc Ans}
    (hs : Covered debt owes s) (hfresh : ∀ u, Transition.Reaches (EventLoop.step P) ok s u → Fresh u)
    (h : Transition.Reaches (EventLoop.step P) ok s t) : Covered debt owes t :=
  (h.strengthen hfresh).invariant hs fun _ _ _ ha hok hst => hc.step ha hok.2 hok.1 hst

end Debts

end EventLoop
