import ZoneweaverAgent.EventLoop

/-!
# An activation that runs alone

`Alone` is the run of one activation, with the functions it awaits, while nothing else moves: a
big-step reading of a program, which lists the points whose calls were served. Such a run is a run
of the event loop (`Alone.reaches`), and where the calls leave no choice there is only one
(`Alone.unique`).
-/

namespace EventLoop
variable {World Pc Ans Choice Entry : Type*}

/-- From a point in a world, where the activation awaits its answer or has received a reply, to the
world in which it ends. The functions it calls are awaited one at a time, and no call fails. -/
inductive Alone (P : Program World Pc Ans Choice Entry) :
    World → Pc → Option (Reply Ans) → List Pc → World → Bool → Prop
  | serve {w w₁ w' : World} {pc : Pc} {c : Choice} {a : Ans} {trace : List Pc} {threw : Bool} :
      P.serve w pc c = some (a, w₁) → Alone P w₁ pc (some (.answer a)) trace w' threw →
      Alone P w pc none (pc :: trace) w' threw
  | await {w w₁ w' : World} {pc pc' : Pc} {r : Reply Ans} {trace : List Pc} {threw : Bool} :
      P.resume w pc r = (w₁, .await pc') → Alone P w₁ pc' none trace w' threw →
      Alone P w pc (some r) trace w' threw
  | call {w w₁ w₂ w' : World} {pc pc' callee : Pc} {r : Reply Ans} {inner trace : List Pc}
      {failed threw : Bool} :
      P.resume w pc r = (w₁, .call [callee] pc') → Alone P w₁ callee none inner w₂ failed →
      Alone P w₂ pc' (some (if failed then .failed else .returned)) trace w' threw →
      Alone P w pc (some r) (inner ++ trace) w' threw
  | finish {w w' : World} {pc : Pc} {r : Reply Ans} {threw : Bool} :
      P.resume w pc r = (w', .finish threw) → Alone P w pc (some r) [] w' threw

variable {P : Program World Pc Ans Choice Entry}

section Unique
variable {L : Pc → Prop}

/-- Where the calls leave no choice, the activation has one run. -/
theorem Alone.unique (hserve : ∀ w pc c c' x x', L pc → P.serve w pc c = some x →
      P.serve w pc c' = some x' → x = x')
    (hresume : ∀ w pc r, L pc → ∀ x ∈ (P.resume w pc r).2.points, L x)
    {w w₁ w₂ : World} {pc : Pc} {o : Option (Reply Ans)} {t₁ t₂ : List Pc} {b₁ b₂ : Bool}
    (h₁ : Alone P w pc o t₁ w₁ b₁) (hL : L pc) (h₂ : Alone P w pc o t₂ w₂ b₂) :
    t₁ = t₂ ∧ w₁ = w₂ ∧ b₁ = b₂ := by
  induction h₁ generalizing t₂ w₂ b₂ with
  | serve hs _ ih =>
    cases h₂ with
    | serve hs' h' =>
      cases hserve _ _ _ _ _ _ hL hs hs'
      obtain ⟨rfl, rfl, rfl⟩ := ih hL h'
      exact ⟨rfl, rfl, rfl⟩
  | @await w w₁ w' pc pc' r trace threw hr _ ih =>
    have hL' : L pc' := by
      have := hresume w pc r hL
      rw [hr] at this
      exact this pc' (List.mem_singleton_self _)
    cases h₂ with
    | await hr' h' =>
      cases hr.symm.trans hr'
      exact ih hL' h'
    | call hr' => cases hr.symm.trans hr'
    | finish hr' => cases hr.symm.trans hr'
  | @call w w₁ w₂ w' pc pc' callee r inner trace failed threw hr _ _ ih ih' =>
    have hpoints : ∀ x ∈ [pc', callee], L x := by
      have := hresume w pc r hL
      rwa [hr] at this
    cases h₂ with
    | await hr' => cases hr.symm.trans hr'
    | call hr' hc' h' =>
      cases hr.symm.trans hr'
      obtain ⟨rfl, rfl, rfl⟩ := ih (hpoints callee (by simp)) hc'
      obtain ⟨rfl, rfl, rfl⟩ := ih' (hpoints pc' (by simp)) h'
      exact ⟨rfl, rfl, rfl⟩
    | finish hr' => cases hr.symm.trans hr'
  | finish hr =>
    cases h₂ with
    | await hr' => cases hr.symm.trans hr'
    | call hr' => cases hr.symm.trans hr'
    | finish hr' =>
      cases hr.symm.trans hr'
      exact ⟨rfl, rfl, rfl⟩

end Unique

/-! ## The run in the loop -/

/-- The step moves the activation `pid`, or one that is entered from `next` on, and no call fails. -/
def MovesOnly (pid next : ℕ) (_ : State World Pc Ans) : Label Choice Entry → Prop
  | .serve q _ | .resume q => q = pid ∨ next ≤ q
  | .fail _ | .enter _ => False

/-- An activation that awaits an answer, or is ready with its reply. -/
def phaseOf : Option (Reply Ans) → Phase Ans
  | none => .waiting
  | some r => .ready r

theorem MovesOnly.mono {pid pid' next next' : ℕ} {s : State World Pc Ans}
    {l : Label Choice Entry} (hpid : pid' = pid ∨ next ≤ pid') (hnext : next ≤ next')
    (h : MovesOnly pid' next' s l) : MovesOnly pid next s l := by
  cases l with
  | serve q c | resume q =>
    rcases h with rfl | hq
    · exact hpid
    · exact .inr (hnext.trans hq)
  | fail q | enter e => exact h

theorem settle_congr {procs procs' : KeyedList ℕ (Activation Pc Ans)}
    (h : ∀ q, procs.get q = procs'.get q) (caller : Option ℕ) (threw : Bool) (q : ℕ) :
    (settle procs caller threw).get q = (settle procs' caller threw).get q := by
  cases caller with
  | none => exact h q
  | some c =>
    simp only [settle, h c]
    split
    · split_ifs <;> rw [KeyedList.get_set, KeyedList.get_set, h q]
    · exact h q

/-- The end of the only callee makes its caller ready, and moves nobody else. -/
theorem get_settle_joining {procs : KeyedList ℕ (Activation Pc Ans)} {pid : ℕ} {pc : Pc}
    {caller : Option ℕ} (h : procs.get pid = some ⟨pc, .joining 1 false, caller⟩) (threw : Bool)
    (q : ℕ) : (settle procs (some pid) threw).get q =
      if pid = q then some ⟨pc, .ready (if threw then .failed else .returned), caller⟩
      else procs.get q := by
  simp only [settle, h, le_refl, if_true, Bool.false_or]
  exact KeyedList.get_set _ _ _ _

theorem movesOnly_serve (pid next : ℕ) (s : State World Pc Ans) (c : Choice) :
    MovesOnly pid next s (.serve pid c : Label Choice Entry) := Or.inl rfl

theorem movesOnly_resume (pid next : ℕ) (s : State World Pc Ans) :
    MovesOnly pid next s (.resume pid : Label Choice Entry) := Or.inl rfl

section Own
variable {s : State World Pc Ans} {pid : ℕ} {p₀ : Activation Pc Ans}

theorem Fresh.set (h : Fresh s) (hp : s.procs.get pid = some p₀) (w : World)
    (p : Activation Pc Ans) : Fresh ⟨w, s.procs.set pid p, s.next⟩ := by
  intro q p' hq
  rw [KeyedList.get_set] at hq
  split_ifs at hq with hpq
  · exact hpq ▸ h _ _ hp
  · exact h _ _ hq

theorem get_settle_set (procs : KeyedList ℕ (Activation Pc Ans)) (pid : ℕ) (p : Activation Pc Ans)
    (caller : Option ℕ) (threw : Bool) (q : ℕ) :
    (settle ((procs.set pid p).erase pid) caller threw).get q =
      (settle (procs.erase pid) caller threw).get q := by
  apply settle_congr
  intro q'
  simp only [KeyedList.get_erase, KeyedList.get_set]
  split_ifs <;> rfl

end Own

/-- What an activation does alone it does in the loop, with all others standing still. -/
theorem Alone.reaches {w w' : World} {pc : Pc} {o : Option (Reply Ans)} {trace : List Pc}
    {threw : Bool} (h : Alone P w pc o trace w' threw) {s : State World Pc Ans} {pid : ℕ}
    {caller : Option ℕ} (hw : s.world = w) (hp : s.procs.get pid = some ⟨pc, phaseOf o, caller⟩)
    (hfresh : Fresh s) :
    ∃ t, Transition.Reaches (step P) (MovesOnly pid s.next) s t ∧ t.world = w' ∧
      s.next ≤ t.next ∧ ∀ q, t.procs.get q = (settle (s.procs.erase pid) caller threw).get q := by
  induction h generalizing s pid caller with
  | @serve w w₁ w' pc c a trace threw hs _ ih =>
    subst hw
    have hstep : step P s (.serve pid c) =
        some ⟨w₁, s.procs.set pid ⟨pc, .ready (.answer a), caller⟩, s.next⟩ := by
      simp only [step, hp, phaseOf, hs, Option.map_some]
    obtain ⟨t, ht, hworld, hnext, hprocs⟩ :=
      ih rfl (KeyedList.get_set_self _ _ _) (hfresh.set hp w₁ _)
    refine ⟨t, .head (movesOnly_serve pid s.next s c) hstep ht, hworld, hnext, fun q => ?_⟩
    rw [hprocs, get_settle_set]
  | @await w w₁ w' pc pc' r trace threw hr _ ih =>
    subst hw
    have hstep : step P s (.resume pid) =
        some ⟨w₁, s.procs.set pid ⟨pc', .waiting, caller⟩, s.next⟩ := by
      simp only [step, hp, phaseOf, hr, advance]
    obtain ⟨t, ht, hworld, hnext, hprocs⟩ :=
      ih rfl (KeyedList.get_set_self _ _ _) (hfresh.set hp w₁ _)
    refine ⟨t, .head (movesOnly_resume pid s.next s) hstep ht, hworld, hnext, fun q => ?_⟩
    rw [hprocs, get_settle_set]
  | @call w w₁ w₂ w' pc pc' callee r inner trace failed threw hr _ _ ih ih' =>
    subst hw
    have hlt : pid < s.next := hfresh _ _ hp
    let joined := s.procs.set pid ⟨pc', .joining 1 false, caller⟩
    let s₁ : State World Pc Ans :=
      ⟨w₁, joined.set s.next ⟨callee, .waiting, some pid⟩, s.next + 1⟩
    have hstep : step P s (.resume pid) = some s₁ := by
      simp only [step, hp, phaseOf, hr]
      rfl
    have hfresh₁ : Fresh s₁ := by
      intro q p hq
      rw [KeyedList.get_set] at hq
      split_ifs at hq with hqn
      · exact hqn ▸ Nat.lt_succ_self _
      · exact Nat.lt_succ_of_lt (hfresh.set hp w₁ _ q p hq)
    -- the callee runs and hands its end to the caller
    obtain ⟨t₁, ht₁, hworld₁, hnext₁, hprocs₁⟩ :=
      ih rfl (KeyedList.get_set_self _ _ _) hfresh₁
    have hget : ∀ q, (s₁.procs.erase s.next).get q =
        if q = s.next then none else joined.get q := by
      intro q
      simp only [s₁, KeyedList.get_erase, KeyedList.get_set, eq_comm]
      split_ifs <;> rfl
    have hown : (s₁.procs.erase s.next).get pid = some ⟨pc', .joining 1 false, caller⟩ := by
      rw [hget, if_neg hlt.ne, KeyedList.get_set_self]
    have hprocs : ∀ q, t₁.procs.get q = if pid = q then
        some ⟨pc', .ready (if failed then .failed else .returned), caller⟩ else s.procs.get q := by
      intro q
      rw [hprocs₁, get_settle_joining hown]
      by_cases hq : pid = q
      · rw [if_pos hq, if_pos hq]
      rw [if_neg hq, if_neg hq, hget]
      by_cases hqn : q = s.next
      · rw [if_pos hqn]
        cases hs : s.procs.get q with
        | none => rfl
        | some p => exact absurd hqn (hfresh q p hs).ne
      · rw [if_neg hqn]
        exact KeyedList.get_set_of_ne _ _ hq
    have hfresh₂ : Fresh t₁ := by
      intro q p hq
      rw [hprocs] at hq
      have hle : s.next ≤ t₁.next := (Nat.le_succ _).trans hnext₁
      by_cases hpq : pid = q
      · exact hpq ▸ hlt.trans_le hle
      · rw [if_neg hpq] at hq
        exact (hfresh q p hq).trans_le hle
    obtain ⟨t, ht, hworld, hnext, hprocs₂⟩ := ih' hworld₁ (by rw [hprocs, if_pos rfl]; rfl) hfresh₂
    have hle : s.next ≤ t₁.next := (Nat.le_succ _).trans hnext₁
    refine ⟨t, ?_, hworld, hle.trans hnext, fun q => ?_⟩
    · apply Transition.Reaches.head (movesOnly_resume pid s.next s) hstep
      apply (ht₁.mono fun _ _ hm => hm.mono (.inr le_rfl) (Nat.le_succ _)).trans
      exact ht.mono fun _ _ hm => hm.mono (.inl rfl) hle
    · rw [hprocs₂]
      apply settle_congr
      intro q'
      rw [KeyedList.get_erase, KeyedList.get_erase, hprocs]
      split_ifs <;> rfl
  | @finish w w' pc r threw hr =>
    subst hw
    have hstep : step P s (.resume pid) =
        some ⟨w', settle (s.procs.erase pid) caller threw, s.next⟩ := by
      simp only [step, hp, phaseOf, hr, advance]
    exact ⟨_, .head (movesOnly_resume pid s.next s) hstep .refl, rfl, le_rfl, fun _ => rfl⟩

end EventLoop
