import ZoneweaverAgent.CommandCancellation

/-!
# Commands of a cancelled task stop

The invariant: behind a cancel every child that still runs has been sent `SIGTERM`. What may replace
a child without breaking it is `Follows`.
-/

namespace ZoneweaverAgent.CommandCancellation
open Transition
variable {s s' : State} {c c' : Child}

structure Sound (s : State) : Prop where
  signalled : s.cancelled = true → ∀ c ∈ s.children, c.running = true → c.sentTerm = true
  graces : s.graces ≠ [] ∨ s.graceOver = true → s.cancelled = true
  cancels : Cancels s

theorem sound_started : Sound .started := by
  constructor
  · simp [State.started]
  · simp [State.started]
  · constructor <;> simp [State.started]

/-- One that runs no longer than the child it replaces, and has been sent all that it is owed. -/
structure Follows (c c' : Child) : Prop where
  running : c'.running = true → c.running = true
  sentTerm : c.sentTerm = true → c'.sentTerm = true
  owedTerm : c'.owedTerm = true → c.owedTerm = true ∨ c'.sentTerm = true
  owedKill : c'.owedKill = true → c.owedKill = true
  sentKill : c.sentKill = true → c'.sentKill = true

theorem Follows.refl (c : Child) : Follows c c :=
  ⟨id, id, .inl, id, id⟩

theorem follows_exited (c : Child) (code : Option ℕ) : Follows c (c.exited code) :=
  ⟨fun h => absurd h Bool.false_ne_true, id, .inl, id, id⟩

theorem follows_closed (c : Child) : Follows c c.closed :=
  ⟨id, id, .inl, id, id⟩

theorem follows_signal (c : Child) (signal : Signal) (refused : Bool) :
    Follows c (c.signal signal refused) := by
  cases hrunning : c.running <;> cases refused <;> cases signal <;>
    constructor <;> simp_all [Child.signal, Child.sent, Child.closed]

theorem follows_timedOut (c : Child) (refused : Bool) : Follows c (c.timedOut refused) :=
  have h := follows_signal { c with completed := true } .term refused
  ⟨h.running, h.sentTerm, h.owedTerm, h.owedKill, h.sentKill⟩

theorem sentTerm_signal (c : Child) (refused : Bool) :
    (c.signal .term refused).sentTerm = true := by
  cases hrunning : c.running <;> cases refused <;>
    simp [Child.signal, Child.sent, Child.closed, hrunning]

theorem oweKill_of_stopped (h : c.running = false) (signalled : Bool) :
    c.oweKill signalled = c := by
  rw [Child.oweKill, h, Bool.and_false, Bool.or_false, ← h]

/-- A signalled child is owed no more than it was sent. -/
theorem follows_terminated (c : Child) (refused : Bool) :
    Follows c ({ c with owedTerm := true }.signal .term refused) :=
  have h := follows_signal { c with owedTerm := true } .term refused
  ⟨h.running, h.sentTerm, fun _ => .inr (sentTerm_signal _ _), h.owedKill, h.sentKill⟩

section Steps
variable (h : Sound s)
include h

theorem Sound.follow {children : List Child}
    (hchildren : ∀ d ∈ children, ∃ c ∈ s.children, Follows c d) :
    Sound { s with children := children } := by
  refine ⟨fun hcancelled d hd hrunning => ?_, h.graces, ⟨fun d hd howed => ?_,
    fun d hd howed => ?_, fun hover d hd => ?_⟩⟩
  all_goals obtain ⟨c, hc, hfollows⟩ := hchildren d hd
  · exact hfollows.sentTerm (h.signalled hcancelled c hc (hfollows.running hrunning))
  · rcases hfollows.owedTerm howed with howedTerm | hsent
    · exact hfollows.sentTerm (h.cancels.terminated c hc howedTerm)
    · exact hsent
  · exact hfollows.sentKill (h.cancels.killed c hc (hfollows.owedKill howed))
  · by_contra hrunning
    have hran := hfollows.running (eq_true_of_ne_false hrunning)
    rw [h.cancels.stopped hover c hc] at hran
    cases hran

theorem Sound.set {k : ℕ} (hc : s.children[k]? = some c) (hfollows : Follows c c') :
    Sound { s with children := s.children.set k c' } := by
  apply h.follow
  intro d hd
  rcases List.mem_or_eq_of_mem_set hd with hold | rfl
  · exact ⟨d, hold, .refl d⟩
  · exact ⟨c, List.mem_of_getElem? hc, hfollows⟩

theorem Sound.spawn (hfits : s.cancelled = false) :
    Sound { s with children := s.children ++ [registerTaskChild s] } := by
  have hgraces : ¬ (s.graces ≠ [] ∨ s.graceOver = true) := by
    intro hgraces
    rw [h.graces hgraces] at hfits
    cases hfits
  refine ⟨fun hcancelled => ?_, h.graces, ⟨?_, ?_, fun hover => absurd (.inr hover) hgraces⟩⟩
  · rw [show s.cancelled = true from hcancelled] at hfits
    cases hfits
  · refine List.forall_mem_append.mpr ⟨h.cancels.terminated, ?_⟩
    simp [registerTaskChild, hfits]
  · refine List.forall_mem_append.mpr ⟨h.cancels.killed, ?_⟩
    simp [registerTaskChild]

theorem Sound.cancel {refused : List ℕ} (hfits : Fits s (.cancel refused)) (graces : List Grace) :
    Sound { s with
      children := killTaskChildren refused s.children, cancelled := true, graces := graces } := by
  have hcases : ∀ d ∈ killTaskChildren refused s.children, ∃ c ∈ s.children,
      Follows c d ∧ (c.running = true → d.sentTerm = true) := by
    intro d hd
    obtain ⟨k, hk, rfl⟩ := List.mem_mapIdx.mp hd
    refine ⟨s.children[k], List.getElem_mem hk, ?_⟩
    split_ifs with hregistered
    · exact ⟨follows_terminated _ _, fun _ => sentTerm_signal _ _⟩
    · refine ⟨.refl _, fun hrunning => ?_⟩
      exact absurd (hfits k hk _ (List.getElem?_eq_getElem hk) hrunning).1 hregistered
  have hfollow := h.follow fun d hd =>
    let ⟨c, hc, hfollows, _⟩ := hcases d hd
    ⟨c, hc, hfollows⟩
  refine ⟨fun _ d hd hrunning => ?_, fun _ => rfl, ⟨hfollow.cancels.terminated,
    hfollow.cancels.killed, hfollow.cancels.stopped⟩⟩
  obtain ⟨c, -, hfollows, hsent⟩ := hcases d hd
  exact hsent (hfollows.running hrunning)

theorem Sound.escalate {j : ℕ} {grace : Grace} {refused : List ℕ} (hj : s.graces[j]? = some grace)
    (hfits : ∀ c ∈ s.children, c.sentTerm = true → c.running = false) (graces : List Grace) :
    Sound { s with
      children := killSurvivors grace refused s.children, graces := graces, graceOver := true } := by
  have hcancelled : s.cancelled = true :=
    h.graces (.inl (List.ne_nil_of_mem (List.mem_of_getElem? hj)))
  have hstopped : ∀ c ∈ s.children, c.running = false := by
    intro c hc
    by_contra hrunning
    have hsent := h.signalled hcancelled c hc (eq_true_of_ne_false hrunning)
    exact hrunning (hfits c hc hsent)
  have hcases : ∀ d ∈ killSurvivors grace refused s.children, ∃ c ∈ s.children, Follows c d := by
    intro d hd
    obtain ⟨k, hk, rfl⟩ := List.mem_mapIdx.mp hd
    have hmem : s.children[k] ∈ s.children := List.getElem_mem hk
    refine ⟨s.children[k], hmem, ?_⟩
    simp only [oweKill_of_stopped (hstopped _ hmem)]
    split_ifs with hescalates
    · exact follows_signal _ _ _
    · exact .refl _
  have hfollow := h.follow hcases
  refine ⟨fun _ => hfollow.signalled hcancelled, fun _ => hcancelled, ⟨hfollow.cancels.terminated,
    hfollow.cancels.killed, fun _ d hd => ?_⟩⟩
  obtain ⟨c, hc, hfollows⟩ := hcases d hd
  by_contra hrunning
  have hran := hfollows.running (eq_true_of_ne_false hrunning)
  rw [hstopped c hc] at hran
  cases hran

end Steps

theorem Sound.step {l : Label} (h : Sound s) (hfits : Fits s l) (hs : step s l = some s') :
    Sound s' := by
  cases l with
  | spawn =>
    cases hs
    exact h.spawn hfits
  | exit k code =>
    obtain ⟨c, hc, hs⟩ := Option.bind_eq_some_iff.mp hs
    split_ifs at hs
    cases hs
    exact h.set hc (follows_exited c code)
  | close k =>
    obtain ⟨c, hc, hs⟩ := Option.bind_eq_some_iff.mp hs
    split_ifs at hs
    cases hs
    exact h.set hc (follows_closed c)
  | timeout k refused =>
    obtain ⟨c, hc, hs⟩ := Option.bind_eq_some_iff.mp hs
    split_ifs at hs
    cases hs
    exact h.set hc (follows_timedOut c refused)
  | cancel refused =>
    simp only [CommandCancellation.step] at hs
    split_ifs at hs
    cases hs
    exact h.cancel hfits _
  | escalate j refused =>
    obtain ⟨grace, hj, rfl⟩ := Option.map_eq_some_iff.mp hs
    exact h.escalate hj hfits _
  | finish =>
    simp only [CommandCancellation.step] at hs
    split_ifs at hs
    cases hs
    exact ⟨h.signalled, h.graces, ⟨h.cancels.terminated, h.cancels.killed, h.cancels.stopped⟩⟩

end ZoneweaverAgent.CommandCancellation
