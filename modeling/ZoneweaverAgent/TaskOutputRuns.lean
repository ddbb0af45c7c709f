import ZoneweaverAgent.TaskOutput

/-!
# Task output over a whole run

While nobody finalizes, only the session speaks for the output. From the final flush on no chunk is
accepted, so every update issued since then carries the whole output.
-/

namespace ZoneweaverAgent.TaskOutput
open Transition

variable {cfg : OutputConfig} {s s' : State}

theorem splice_kept (accepted : List Entry) (entry : Entry) :
    splice cfg (kept cfg accepted ++ [entry]) = kept cfg (accepted ++ [entry]) := by
  unfold splice kept
  by_cases hmode : cfg.mode = "circular"
  · simp only [hmode, if_true, true_and, List.length_append, List.length_drop,
      List.length_singleton]
    have hdrop : accepted.length - cfg.circularMaxLines ≤ accepted.length := Nat.sub_le _ _
    rw [← List.drop_append_of_le_length hdrop]
    split_ifs with hlong
    · rw [List.drop_drop]
      congr 1
      omega
    · congr 1
      omega
  · simp [hmode]

theorem kept_eq_nil_of_append {accepted : List Entry} {entry : Entry}
    (h : kept cfg (accepted ++ [entry]) = []) : kept cfg accepted = [] := by
  unfold kept at h ⊢
  split_ifs at h ⊢ with hmode
  · rw [List.drop_eq_nil_iff, List.length_append, List.length_singleton] at h
    rw [List.drop_eq_nil_iff]
    omega
  · simp at h

@[simp] theorem resolve_false (s : State) : s.resolve false = s := rfl

@[simp] theorem resolve_true (s : State) : s.resolve true = { s with flushed := s.flushed + 1 } :=
  rfl

variable (cfg) in
structure Sound (s : State) : Prop where
  buffered : ∀ session ∈ s.session, session.buffer = kept cfg s.accepted
  stored : s.session = none ∨ 0 < s.flushed → s.output.getD [] = kept cfg s.accepted ∧
    ∀ update ∈ s.updates, update.output = kept cfg s.accepted
  blank : kept cfg s.accepted = [] → s.output = none ∧ s.updates = []
  final : ∀ update ∈ s.updates, update.final = true → update.output = kept cfg s.accepted
  later : s.updates.Pairwise fun update update' =>
    update.final = true → update'.output = kept cfg s.accepted

theorem sound_initial : Sound cfg .initial where
  buffered _ h := by cases h
  stored _ := by simp [State.initial, kept]
  blank _ := ⟨rfl, rfl⟩
  final _ h := by cases h
  later := .nil

theorem Sound.complete (h : Sound cfg s) : Complete cfg s := by
  intro _
  unfold getOutput
  cases hsession : s.session with
  | none => exact (h.stored (.inl hsession)).1
  | some session => exact h.buffered session hsession

theorem Sound.create (h : Sound cfg s) (hfits : s.session = none → s.accepted = []) :
    Sound cfg (TaskOutput.create cfg s) := by
  unfold TaskOutput.create
  split_ifs with hkeep
  · exact h
  · have hnone : s.session = none := by
      cases hsession : s.session with
      | none => rfl
      | some session => simp [hsession] at hkeep
    have hstored := h.stored (.inl hnone)
    refine ⟨?_, fun _ => hstored, h.blank, h.final, h.later⟩
    rintro session hsession
    cases hsession
    simp [hfits hnone, kept]

theorem Sound.write (h : Sound cfg s) (entry : Entry)
    (hfits : s.session ≠ none → s.finalizing = false) :
    Sound cfg (TaskOutput.write cfg s entry) := by
  unfold TaskOutput.write
  cases hsession : s.session with
  | none => exact h
  | some session =>
    have hidle := hfits (by simp [hsession])
    simp only [State.finalizing, Bool.or_eq_false_iff, decide_eq_false_iff_not, List.any_eq_false,
      Bool.not_eq_true] at hidle
    have hnever : ∀ update ∈ s.updates, update.final ≠ true := by
      intro update hmem hfinal
      rw [hidle.2 update hmem] at hfinal
      cases hfinal
    refine ⟨?_, ?_, ?_, ?_, ?_⟩
    · rintro _ ⟨⟩
      rw [h.buffered session hsession]
      exact splice_kept s.accepted entry
    · rintro (hnone | hflushed)
      · cases hnone
      · exact absurd hflushed hidle.1
    · intro hblank
      exact h.blank (kept_eq_nil_of_append hblank)
    · intro update hmem hfinal
      exact absurd hfinal (hnever update hmem)
    · exact List.pairwise_of_forall_mem_list fun update hmem _ _ hfinal =>
        absurd hfinal (hnever update hmem)

/-- A flush reads the buffer as it is, and so does nothing that a chunk could be lost by. -/
theorem Sound.flushToDb (h : Sound cfg s) (final : Bool) :
    Sound cfg (TaskOutput.flushToDb final s) := by
  have hresolve : s.session = none ∨ kept cfg s.accepted = [] → Sound cfg (s.resolve final) := by
    intro hcase
    cases final with
    | false => exact h
    | true =>
      refine ⟨h.buffered, fun _ => ?_, h.blank, h.final, h.later⟩
      rcases hcase with hnone | hblank
      · exact h.stored (.inl hnone)
      · obtain ⟨houtput, hupdates⟩ := h.blank hblank
        simp [houtput, hupdates, hblank]
  cases hsession : s.session with
  | none =>
    have hflush : TaskOutput.flushToDb final s = s.resolve final := by
      simp only [TaskOutput.flushToDb, hsession]
    rw [hflush]
    exact hresolve (.inl hsession)
  | some session =>
    have hbuffer := h.buffered session hsession
    by_cases hempty : session.buffer = []
    · have hflush : TaskOutput.flushToDb final s = s.resolve final := by
        simp only [TaskOutput.flushToDb, hsession, hempty, if_true]
      rw [hflush]
      exact hresolve (.inr (hbuffer ▸ hempty))
    · have hflush : TaskOutput.flushToDb final s =
          { s with updates := s.updates ++ [⟨session.buffer, final⟩] } := by
        simp only [TaskOutput.flushToDb, hsession, hempty, if_false]
      rw [hflush]
      refine ⟨h.buffered, fun hcase => ?_, fun hblank => ?_, ?_, ?_⟩
      · obtain ⟨houtput, hupdates⟩ := h.stored hcase
        refine ⟨houtput, fun update hmem => ?_⟩
        rcases List.mem_append.mp hmem with hold | hnew
        · exact hupdates update hold
        · rw [List.mem_singleton.mp hnew, hbuffer]
      · exact absurd (hbuffer.trans hblank) hempty
      · intro update hmem hfinal
        rcases List.mem_append.mp hmem with hold | hnew
        · exact h.final update hold hfinal
        · rw [List.mem_singleton.mp hnew, hbuffer]
      · apply List.pairwise_append.mpr
        refine ⟨h.later, List.pairwise_singleton _ _, fun _ _ update hnew _ => ?_⟩
        rw [List.mem_singleton.mp hnew, hbuffer]

theorem Sound.quiet (h : Sound cfg s) {session : Session} (hsession : s.session = some session)
    (timers : ℕ) : Sound cfg { s with
      session := some { session with flushTimer := false }, looseTimers := timers } where
  buffered := by
    rintro _ ⟨⟩
    exact h.buffered session hsession
  stored hcase := by
    rcases hcase with hnone | hflushed
    · cases hnone
    · exact h.stored (.inr hflushed)
  blank := h.blank
  final := h.final
  later := h.later

theorem Sound.finalize (h : Sound cfg s) : Sound cfg (TaskOutput.finalize s) := by
  cases hsession : s.session with
  | none =>
    have hfinalize : TaskOutput.finalize s = { s with finalized := true } := by
      simp only [TaskOutput.finalize, hsession]
    rw [hfinalize]
    exact ⟨h.buffered, h.stored, h.blank, h.final, h.later⟩
  | some session =>
    have hfinalize : TaskOutput.finalize s = TaskOutput.flushToDb true
        { s with session := some { session with flushTimer := false } } := by
      simp only [TaskOutput.finalize, hsession]
    rw [hfinalize]
    exact (h.quiet hsession s.looseTimers).flushToDb true

theorem Sound.conclude (h : Sound cfg s) (hflushed : 0 < s.flushed) :
    Sound cfg (TaskOutput.conclude s) where
  buffered _ hnone := by cases hnone
  stored _ := h.stored (.inr hflushed)
  blank := h.blank
  final := h.final
  later := h.later

theorem Sound.erase (h : Sound cfg s) (k : ℕ) :
    Sound cfg { s with updates := s.updates.eraseIdx k } where
  buffered := h.buffered
  stored hcase := ⟨(h.stored hcase).1, fun update hmem =>
    (h.stored hcase).2 update (List.mem_of_mem_eraseIdx hmem)⟩
  blank hblank := by
    obtain ⟨houtput, hupdates⟩ := h.blank hblank
    exact ⟨houtput, by rw [hupdates]; rfl⟩
  final update hmem := h.final update (List.mem_of_mem_eraseIdx hmem)
  later := h.later.sublist (List.eraseIdx_sublist _ _)

theorem Sound.applied (h : Sound cfg s) {k : ℕ} {update : Update}
    (hupdate : s.updates[k]? = some update) (hfits : update.final = true → k = 0) :
    Sound cfg (State.resolve
      { s with updates := s.updates.eraseIdx k, output := some update.output } update.final) := by
  have hmem : update ∈ s.updates := List.mem_of_getElem? hupdate
  have herased := h.erase k
  have hblank : kept cfg s.accepted ≠ [] := by
    intro hblank
    rw [(h.blank hblank).2] at hmem
    cases hmem
  cases hfinal : update.final with
  | false =>
    refine ⟨h.buffered, fun hcase => ⟨?_, (herased.stored hcase).2⟩, fun hnil => absurd hnil hblank,
      herased.final, herased.later⟩
    exact (h.stored hcase).2 update hmem
  | true =>
    have houtput := h.final update hmem hfinal
    have hlater : ∀ update' ∈ s.updates.eraseIdx k, update'.output = kept cfg s.accepted := by
      rw [hfits hfinal] at hupdate ⊢
      obtain ⟨rest, hrest⟩ : ∃ rest, s.updates = update :: rest := by
        cases hupdates : s.updates with
        | nil => simp [hupdates] at hupdate
        | cons first rest =>
          rw [hupdates] at hupdate
          cases hupdate
          exact ⟨rest, rfl⟩
      have hpairwise := h.later
      rw [hrest] at hpairwise ⊢
      exact fun update' hmem' => (List.pairwise_cons.mp hpairwise).1 update' hmem' hfinal
    exact ⟨h.buffered, fun _ => ⟨houtput, hlater⟩, fun hnil => absurd hnil hblank,
      herased.final, herased.later⟩

theorem Sound.step (h : Sound cfg s) {l : Label} (hfits : Fits s l)
    (hstep : step cfg s l = some s') : Sound cfg s' := by
  cases l with
  | create =>
    cases hstep
    exact h.create hfits
  | write stream data now =>
    cases hstep
    exact h.write _ hfits
  | timer =>
    obtain ⟨session, hsession, rfl⟩ := Option.map_eq_some_iff.mp hstep
    exact (h.quiet (Option.filter_eq_some_iff.mp hsession).1 s.looseTimers).flushToDb false
  | looseTimer =>
    simp only [TaskOutput.step] at hstep
    split_ifs at hstep
    cases hstep
    apply Sound.flushToDb
    exact ⟨h.buffered, h.stored, h.blank, h.final, h.later⟩
  | finalize =>
    cases hstep
    exact h.finalize
  | applied k =>
    obtain ⟨update, hupdate, rfl⟩ := Option.map_eq_some_iff.mp hstep
    exact h.applied hupdate (hfits update hupdate)
  | failed k =>
    obtain ⟨update, hupdate, rfl⟩ := Option.map_eq_some_iff.mp hstep
    rw [hfits update hupdate]
    exact h.erase k
  | conclude =>
    simp only [TaskOutput.step] at hstep
    split_ifs at hstep with hflushed
    cases hstep
    exact h.conclude hflushed

theorem output_complete (h : Reaches (step cfg) Fits .initial s) : Complete cfg s :=
  (h.invariant sound_initial fun _ _ _ hs hfits hstep => hs.step hfits hstep).complete

/-- The last two of three chunks, the last of them after a flush that is applied late. -/
theorem output_complete_circular : ∃ s,
    Reaches (step (getOutputConfig none (some "circular") (some 2))) Fits .initial s ∧
      s.accepted.length = 3 ∧
      Complete (getOutputConfig none (some "circular") (some 2)) s ∧
      getOutput s true = [⟨"stderr", "b", 2⟩, ⟨"stdout", "c", 3⟩] := by
  obtain ⟨s, hreach, hlength, houtput⟩ := exists_reaches_of_run
    (step (getOutputConfig none (some "circular") (some 2))) Fits .initial
    [.create, .write "stdout" "a" 1, .write "stderr" "b" 2, .timer, .write "stdout" "c" 3,
      .finalize, .applied 0, .applied 0, .conclude]
    (P := fun s => s.accepted.length = 3 ∧
      getOutput s true = [⟨"stderr", "b", 2⟩, ⟨"stdout", "c", 3⟩]) (by decide +kernel)
  exact ⟨s, hreach, hlength, output_complete hreach, houtput⟩

/-- The final update fails, and the session is dropped all the same. -/
theorem output_complete_fails : ¬ ∀ (cfg : OutputConfig) (s : State),
    Reaches (step cfg) (fun _ _ => True) .initial s → Complete cfg s := by
  intro h
  obtain ⟨s, hreach, hlost⟩ := exists_reaches_of_run (step (getOutputConfig none none none))
    (fun _ _ => True) .initial [.create, .write "stdout" "a" 1, .finalize, .failed 0, .conclude]
    (P := fun s => ¬ (s.finalized = true →
      getOutput s true = kept (getOutputConfig none none none) s.accepted)) (by decide +kernel)
  exact hlost (h _ s hreach)

end ZoneweaverAgent.TaskOutput
