import ZoneweaverAgent.Transition
import ZoneweaverAgent.ZloginPty

/-!
# PTY sessions over whole runs

The exit of a process removes the entry of its zone, whichever session that entry holds. Where no
newer session is registered when an exit is handled, a session whose process runs stays registered
until it is destroyed.
-/

namespace ZoneweaverAgent.Zlogin

open Transition

section Properties
variable (s : Manager)

/-- A session that runs and was not destroyed is the one that its zone has. -/
def Registered : Prop :=
  ∀ n session, s.objects.get n = some session → session.stage = .running → n ∉ s.destroyed →
    s.sessions.get session.zoneName = some n

/-- Every other session keeps its entry, its subscribers and whatever else it has. -/
def RemovesOwn (n : ℕ) (t : Manager) : Prop :=
  ∀ zoneName m, s.sessions.get zoneName = some m → m ≠ n →
    t.sessions.get zoneName = some m ∧ t.objects.get m = s.objects.get m

/-- Where the event is the exit or the timer of a session, no other session loses anything. -/
def EndsOnlyItself (e : Event) : Prop :=
  ∀ n t, (e = .exit n ∨ ∃ due, e = .timer due n) → step s e = some t → RemovesOwn s n t

/-- No newer session is registered for the zone of a process whose exit is handled. -/
def noNewer : Event → Prop
  | .exit n => ∀ session ∈ s.objects.get n, ∀ m ∈ s.sessions.get session.zoneName, m = n
  | _ => True

instance (e : Event) : Decidable (noNewer s e) := by
  cases e <;> unfold noNewer <;> infer_instance

structure Invariant : Prop where
  registered : Registered s
  owner : ∀ zoneName n, s.sessions.get zoneName = some n →
    ∃ session, s.objects.get n = some session ∧ session.zoneName = zoneName
  fresh : ∀ n session, s.objects.get n = some session → n < s.next

end Properties

section Steps
variable {s t : Manager} {n : ℕ} {session session' : Session} {zoneName : String}

theorem sessionOf_eq_some {e : ℕ × Session} : sessionOf s zoneName = some e ↔
    s.sessions.get zoneName = some e.1 ∧ s.objects.get e.1 = some e.2 := by
  obtain ⟨n, session⟩ := e
  simp [sessionOf, Option.bind_eq_some_iff]

theorem isProcessAlive_of_running (hget : s.objects.get n = some session)
    (hrun : session.stage = .running) : isProcessAlive s session = true := by
  have hmem := KeyedList.mem_of_get hget
  unfold isProcessAlive inUse
  rw [Bool.or_eq_true, List.any_eq_true]
  exact .inr ⟨(n, session), hmem, by simp [hrun]⟩

/-- A session may change in anything but its zone and the start of its process. -/
theorem Invariant.update (h : Invariant s) (hget : s.objects.get n = some session)
    (hzone : session'.zoneName = session.zoneName)
    (hrun : session'.stage = .running → session.stage = .running) :
    Invariant (updateSession s n session') where
  registered m other hother hrunning hdestroyed := by
    change (s.objects.set n session').get m = some other at hother
    rw [KeyedList.get_set] at hother
    split_ifs at hother with hm
    · obtain rfl := Option.some.inj hother
      subst hm
      rw [hzone]
      exact h.registered _ session hget (hrun hrunning) hdestroyed
    · exact h.registered m other hother hrunning hdestroyed
  owner zoneName' m hm := by
    obtain ⟨other, hother, hname⟩ := h.owner zoneName' m hm
    change ∃ found, (s.objects.set n session').get m = some found ∧ _
    rw [KeyedList.get_set]
    split_ifs with hmn
    · subst hmn
      rw [hget] at hother
      obtain rfl := Option.some.inj hother
      exact ⟨session', rfl, hzone.trans hname⟩
    · exact ⟨other, hother, hname⟩
  fresh m other hother := by
    change (s.objects.set n session').get m = some other at hother
    rw [KeyedList.get_set] at hother
    split_ifs at hother with hm
    · subst hm
      exact h.fresh _ session hget
    · exact h.fresh m other hother

theorem Invariant.updateFound {e : ℕ × Session} (h : Invariant s)
    (hfound : sessionOf s zoneName = some e) (hzone : session'.zoneName = e.2.zoneName)
    (hrun : session'.stage = .running → e.2.stage = .running) :
    Invariant (updateSession s e.1 session') :=
  h.update (sessionOf_eq_some.mp hfound).2 hzone hrun

/-- The entry of a zone may go when its session does not run or was destroyed. -/
theorem Invariant.erase (h : Invariant s) (hout : t.objects = s.objects) (hnext : t.next = s.next)
    (hsessions : t.sessions = s.sessions.erase zoneName) (hdestroyed : s.destroyed ⊆ t.destroyed)
    (hgone : ∀ n session, s.sessions.get zoneName = some n → s.objects.get n = some session →
      session.stage = .running → n ∈ t.destroyed) : Invariant t where
  registered m other hother hrunning hkept := by
    rw [hout] at hother
    have hentry := h.registered m other hother hrunning fun hm => hkept (hdestroyed hm)
    rw [hsessions, KeyedList.get_erase]
    split_ifs with hzone
    · rw [← hzone] at hentry
      exact absurd (hgone m other hentry hother hrunning) hkept
    · exact hentry
  owner zoneName' m hm := by
    rw [hsessions, KeyedList.get_erase] at hm
    split_ifs at hm with hzone
    rw [hout]
    exact h.owner zoneName' m hm
  fresh m other hother := by
    rw [hout] at hother
    rw [hnext]
    exact h.fresh m other hother

theorem Invariant.spawn {cols rows spawned : Option ℕ} (h : Invariant s)
    (hnone : s.sessions.get zoneName = none)
    (hspawn : spawn s zoneName cols rows spawned = some t) : Invariant t := by
  unfold Zlogin.spawn at hspawn
  cases spawned with
  | none =>
    obtain rfl := Option.some.inj hspawn
    exact h
  | some pid =>
    simp only at hspawn
    split_ifs at hspawn
    obtain rfl := Option.some.inj hspawn
    constructor
    · intro m other hother hrunning hkept
      change (s.objects.set s.next _).get m = some other at hother
      change (s.sessions.set zoneName s.next).get other.zoneName = some m
      rw [KeyedList.get_set] at hother ⊢
      split_ifs at hother with hm
      · obtain rfl := Option.some.inj hother
        exact (if_pos rfl).trans (congrArg some hm)
      · have hentry := h.registered m other hother hrunning hkept
        split_ifs with hzone
        · rw [← hzone, hnone] at hentry
          cases hentry
        · exact hentry
    · intro zoneName' m hm
      change (s.sessions.set zoneName s.next).get zoneName' = some m at hm
      change ∃ found, (s.objects.set s.next _).get m = some found ∧ _
      rw [KeyedList.get_set] at hm ⊢
      split_ifs at hm with hzone
      · rw [if_pos (Option.some.inj hm)]
        exact ⟨_, rfl, hzone⟩
      · obtain ⟨other, hother, hname⟩ := h.owner zoneName' m hm
        have hless := h.fresh m other hother
        rw [if_neg (by omega)]
        exact ⟨other, hother, hname⟩
    · intro m other hother
      change (s.objects.set s.next _).get m = some other at hother
      change m < s.next + 1
      rw [KeyedList.get_set] at hother
      split_ifs at hother with hm
      · omega
      · have := h.fresh m other hother
        omega

theorem Invariant.getOrCreate {cols rows spawned : Option ℕ} (h : Invariant s)
    (hstep : getOrCreate s zoneName cols rows spawned = some t) : Invariant t := by
  unfold Zlogin.getOrCreate at hstep
  cases hfound : sessionOf s zoneName with
  | none =>
    rw [hfound] at hstep
    have hnone : s.sessions.get zoneName = none := by
      rw [Option.eq_none_iff_forall_ne_some]
      intro n hn
      obtain ⟨session, hget, -⟩ := h.owner zoneName n hn
      have hsome := (@sessionOf_eq_some s zoneName (n, session)).mpr ⟨hn, hget⟩
      rw [hfound] at hsome
      cases hsome
    exact h.spawn hnone hstep
  | some e =>
    obtain ⟨hentry, hget⟩ := sessionOf_eq_some.mp hfound
    rw [hfound] at hstep
    simp only at hstep
    split_ifs at hstep with halive
    · obtain rfl := Option.some.inj hstep
      exact h.update hget rfl id
    · -- the process of the entry that goes is dead
      refine Invariant.spawn ?_ (KeyedList.get_erase_self _ _) hstep
      refine h.erase rfl rfl rfl (List.Subset.refl _) ?_
      intro n session hn hsession hrun
      rw [hentry] at hn
      obtain rfl := Option.some.inj hn
      rw [hget] at hsession
      obtain rfl := Option.some.inj hsession
      exact absurd (isProcessAlive_of_running hget hrun) halive

theorem Invariant.exit (h : Invariant s) (hnewer : noNewer s (.exit n))
    (hstep : onExit s n = some t) : Invariant t := by
  obtain ⟨session, hget, hstep⟩ := Option.bind_eq_some_iff.mp hstep
  split_ifs at hstep with hended
  obtain rfl := Option.some.inj hstep
  have hupdated := @Invariant.update s n session { session with stage := .exited } h hget rfl
    (by simp)
  refine hupdated.erase rfl rfl rfl (List.Subset.refl _) ?_
  intro m other hm hother hrun
  obtain rfl := hnewer session hget m hm
  change (s.objects.set m _).get m = some other at hother
  rw [KeyedList.get_set_self] at hother
  obtain rfl := Option.some.inj hother
  cases hrun

theorem Invariant.destroy (h : Invariant s) (broken : List ℕ) (zoneName : String) :
    Invariant (destroy s broken zoneName) := by
  unfold Zlogin.destroy
  cases hfound : sessionOf s zoneName with
  | none => exact h
  | some e =>
    obtain ⟨hentry, -⟩ := sessionOf_eq_some.mp hfound
    refine h.erase rfl rfl rfl (List.subset_cons_self _ _) ?_
    intro n session hn _ _
    rw [hentry] at hn
    obtain rfl := Option.some.inj hn
    exact List.mem_cons_self

theorem Invariant.destroyEach (h : Invariant s) (broken : List ℕ) (zoneNames : List String) :
    Invariant (destroyEach s broken zoneNames) := by
  unfold Zlogin.destroyEach
  induction zoneNames generalizing s with
  | nil => exact h
  | cons zoneName zoneNames ih => exact ih (h.destroy broken zoneName)

/-- Whatever else changes. -/
theorem Invariant.same (h : Invariant s) (hobjects : t.objects = s.objects)
    (hnext : t.next = s.next) (hsessions : t.sessions = s.sessions)
    (hdestroyed : t.destroyed = s.destroyed) : Invariant t where
  registered := by
    unfold Registered
    rw [hobjects, hsessions, hdestroyed]
    exact h.registered
  owner := by
    rw [hobjects, hsessions]
    exact h.owner
  fresh := by
    rw [hobjects, hnext]
    exact h.fresh

theorem Invariant.withSession (h : Invariant s) {f : Session → Session}
    (hzone : ∀ session, (f session).zoneName = session.zoneName)
    (hstage : ∀ session, (f session).stage = session.stage) :
    Invariant (withSession s zoneName f) := by
  unfold Zlogin.withSession
  cases hfound : sessionOf s zoneName with
  | none => exact h
  | some e => exact h.updateFound hfound (hzone e.2) fun hrun => (hstage e.2) ▸ hrun

theorem Invariant.step (h : Invariant s) {e : Event} (hnewer : noNewer s e)
    (hstep : step s e = some t) : Invariant t := by
  cases e with
  | getOrCreate zoneName cols rows spawned => exact h.getOrCreate hstep
  | data n data =>
    obtain ⟨session, hget, hstep⟩ := Option.bind_eq_some_iff.mp hstep
    split_ifs at hstep
    obtain rfl := Option.some.inj hstep
    have hupdated := @Invariant.update s n session (session.onData s.now data) h hget rfl id
    exact hupdated.same rfl rfl rfl rfl
  | ended n =>
    obtain ⟨session, hget, hstep⟩ := Option.bind_eq_some_iff.mp hstep
    split_ifs at hstep
    obtain rfl := Option.some.inj hstep
    exact h.update hget rfl (by simp)
  | exit n => exact h.exit hnewer hstep
  | subscribe zoneName callback =>
    obtain rfl := Option.some.inj hstep
    exact h.withSession (fun _ => rfl) fun _ => rfl
  | unsubscribe n callback =>
    obtain ⟨session, hget, rfl⟩ := Option.map_eq_some_iff.mp hstep
    exact h.update hget rfl id
  | write zoneName data =>
    obtain rfl := Option.some.inj hstep
    unfold write
    cases hfound : sessionOf s zoneName with
    | none => exact h
    | some e =>
      have hupdated : Invariant (updateSession s e.1 { e.2 with lastActivity := s.now }) :=
        h.updateFound hfound rfl id
      simp only
      split_ifs
      · exact hupdated.same rfl rfl rfl rfl
      · exact h
  | clearBuffer zoneName =>
    obtain rfl := Option.some.inj hstep
    exact h.withSession (fun _ => rfl) fun _ => rfl
  | setAutomationActive zoneName active =>
    obtain rfl := Option.some.inj hstep
    unfold setAutomationActive
    cases hfound : sessionOf s zoneName with
    | none => exact h
    | some e =>
      have hupdated : Invariant (updateSession s e.1
          { e.2 with automationActive := active, lastActivity := s.now }) :=
        h.updateFound hfound rfl id
      exact hupdated.same rfl rfl rfl rfl
  | destroy zoneName broken =>
    obtain rfl := Option.some.inj hstep
    exact h.destroy broken zoneName
  | destroyAll broken =>
    obtain rfl := Option.some.inj hstep
    exact h.destroyEach broken _
  | timer due n =>
    change onTimer s due n = some t at hstep
    unfold onTimer at hstep
    split_ifs at hstep
    obtain ⟨session, -, rfl⟩ := Option.map_eq_some_iff.mp hstep
    exact h.same rfl rfl rfl rfl
  | cleanup broken =>
    obtain rfl := Option.some.inj hstep
    exact h.destroyEach broken _
  | elapse ms =>
    obtain rfl := Option.some.inj hstep
    exact h.same rfl rfl rfl rfl
  | others pids =>
    obtain rfl := Option.some.inj hstep
    exact h.same rfl rfl rfl rfl

theorem invariant_start (now : ℕ) : Invariant (start now) where
  registered _ _ h := by cases h
  owner _ _ h := by cases h
  fresh _ _ h := by cases h

/-- The timer of a destroy removes nothing, and an exit the entry of its own session. -/
theorem endsOnlyItself {e : Event} (h : noNewer s e) : EndsOnlyItself s e := by
  rintro n t (rfl | ⟨due, rfl⟩) hstep zoneName m hm hne
  · obtain ⟨session, hget, hstep⟩ := Option.bind_eq_some_iff.mp hstep
    split_ifs at hstep
    obtain rfl := Option.some.inj hstep
    constructor
    · change (s.sessions.erase session.zoneName).get zoneName = some m
      rw [KeyedList.get_erase]
      split_ifs with hzone
      · rw [← hzone] at hm
        exact absurd (h session hget m hm) hne
      · exact hm
    · exact KeyedList.get_set_of_ne _ _ (Ne.symm hne)
  · change onTimer s due n = some t at hstep
    unfold onTimer at hstep
    split_ifs at hstep
    obtain ⟨session, -, rfl⟩ := Option.map_eq_some_iff.mp hstep
    exact ⟨hm, rfl⟩

/-- Where every exit is handled before a newer session is registered for its zone, no running
session loses its entry but by a destroy, and no exit or timer takes anything from another. -/
theorem sessions_outlive {now : ℕ} (h : Reaches step noNewer (start now) s) :
    Registered s ∧ ∀ e, noNewer s e → EndsOnlyItself s e := by
  refine ⟨?_, fun e he => endsOnlyItself he⟩
  exact (h.invariant (invariant_start now) fun _ _ _ hi hok hstep => hi.step hok hstep).registered

/-- A session is destroyed, its exit handled, and another one created. -/
theorem sessions_outlive_again : ∃ s, Reaches step noNewer (start 0) s ∧
    s.sessions.get "web" = some 1 ∧ Registered s ∧ ∀ e, noNewer s e → EndsOnlyItself s e := by
  obtain ⟨s, hs, hentry⟩ := exists_reaches_of_run step noNewer (start 0)
    [.getOrCreate "web" none none (some 7), .subscribe "web" 4, .destroy "web" [], .elapse 1000,
      .timer 1000 0, .ended 0, .exit 0, .getOrCreate "web" none none (some 8)]
    (P := fun s => s.sessions.get "web" = some 1) (by decide +kernel)
  exact ⟨s, hs, hentry, sessions_outlive hs⟩

/-- A zone is connected again before the exit of its destroyed session is handled. -/
theorem sessions_outlive_fails : ¬∀ now s, Reaches step (fun _ _ => True) (start now) s →
    Registered s ∧ ∀ e, EndsOnlyItself s e := by
  intro h
  obtain ⟨s, hs, hlost, hkept, session, hget, hzone, hrun⟩ := exists_reaches_of_run step
    (fun _ _ => True) (start 0)
    [.getOrCreate "web" none none (some 7), .destroy "web" [],
      .getOrCreate "web" none none (some 8), .ended 0, .exit 0]
    (P := fun s => s.sessions.get "web" = none ∧ 1 ∉ s.destroyed ∧ ∃ session ∈ s.objects.get 1,
      session.zoneName = "web" ∧ session.stage = .running) (by decide +kernel)
  have hentry := (h 0 s hs).1 1 session hget hrun hkept
  rw [hzone, hlost] at hentry
  cases hentry

end Steps

end ZoneweaverAgent.Zlogin
