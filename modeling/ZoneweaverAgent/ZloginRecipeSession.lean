import ZoneweaverAgent.ZloginPtyRuns
import ZoneweaverAgent.ZloginRecipe

/-!
# The session under a recipe

The session that a run marks stays the session of its zone as long as its process runs: the cleanup
of idle sessions passes over it, and at the end of the run the mark is gone.
-/

namespace ZoneweaverAgent.ZloginRecipe

open CommandProgram CommandScript
open Zlogin (Manager Session sessionOf updateSession sessionOf_eq_some)

section Marks

/-- The zone of a session and whether an automation has marked it. -/
def mark (s : Manager) (n : ℕ) : Option (String × Bool) :=
  (s.objects.get n).map fun session => (session.zoneName, session.automationActive)

variable {s t : Manager} {zoneName : String} {clear : Prop} {held : Option ℕ} {n : ℕ}
  {session session' : Session}

theorem mark_updateSession (hget : s.objects.get n = some session)
    (hsame : (session'.zoneName, session'.automationActive) =
      (session.zoneName, session.automationActive)) (m : ℕ) :
    mark (updateSession s n session') m = mark s m := by
  unfold mark updateSession
  simp only [KeyedList.get_set]
  split_ifs with hm
  · subst hm
    rw [hget, Option.map_some, Option.map_some, hsame]
  · rfl

/-- The session that a run holds is marked and was not destroyed; where the run holds none and the
zone is `clear`, the session of the zone is not marked. -/
structure Keeps (zoneName : String) (clear : Prop) (held : Option ℕ) (s : Manager) : Prop where
  invariant : Zlogin.Invariant s
  entries : ∀ z m, s.sessions.get z = some m → m ∉ s.destroyed
  numbers : ∀ m ∈ s.destroyed, m < s.next
  holds : ∀ n ∈ held, mark s n = some (zoneName, true) ∧ n ∉ s.destroyed
  free : clear → held = none → ∀ m, s.sessions.get zoneName = some m →
    mark s m = some (zoneName, false)

/-- Nothing changed but the entry of a zone, which may be gone. -/
structure Loses (s t : Manager) : Prop where
  sessions : ∀ z m, t.sessions.get z = some m → s.sessions.get z = some m
  destroyed : t.destroyed = s.destroyed
  next : t.next = s.next
  mark : ∀ n, mark t n = mark s n

theorem Keeps.loses (h : Keeps zoneName clear held s) (hloses : Loses s t)
    (hinvariant : Zlogin.Invariant t) : Keeps zoneName clear held t where
  invariant := hinvariant
  entries z m hm := by
    rw [hloses.destroyed]
    exact h.entries z m (hloses.sessions z m hm)
  numbers := by
    rw [hloses.destroyed, hloses.next]
    exact h.numbers
  holds n hn := by
    rw [hloses.mark, hloses.destroyed]
    exact h.holds n hn
  free hclear hheld m hm := by
    rw [hloses.mark]
    exact h.free hclear hheld m (hloses.sessions zoneName m hm)

theorem loses_update (hget : s.objects.get n = some session)
    (hsame : (session'.zoneName, session'.automationActive) =
      (session.zoneName, session.automationActive)) : Loses s (updateSession s n session') where
  sessions _ _ hm := hm
  destroyed := rfl
  next := rfl
  mark := mark_updateSession hget hsame

theorem loses_erase (s : Manager) (z : String) :
    Loses s { s with sessions := s.sessions.erase z } where
  sessions _ _ hm := (KeyedList.get_erase_eq_some hm).2
  destroyed := rfl
  next := rfl
  mark _ := rfl

theorem Loses.trans {u : Manager} (h : Loses s t) (h' : Loses t u) : Loses s u where
  sessions z m hm := h.sessions z m (h'.sessions z m hm)
  destroyed := h'.destroyed.trans h.destroyed
  next := h'.next.trans h.next
  mark n := (h'.mark n).trans (h.mark n)

/-- A new session is not marked. -/
theorem Keeps.spawn {z : String} {cols rows spawned : Option ℕ} (h : Keeps zoneName clear held s)
    (hspawn : Zlogin.spawn s z cols rows spawned = some t) (hinvariant : Zlogin.Invariant t) :
    Keeps zoneName clear held t := by
  unfold Zlogin.spawn at hspawn
  cases spawned with
  | none =>
    obtain rfl := Option.some.inj hspawn
    exact h
  | some pid =>
    simp only at hspawn
    split_ifs at hspawn
    obtain rfl := Option.some.inj hspawn
    have hmark : ∀ m, mark { s with
        objects := s.objects.set s.next (Zlogin.newSession z cols rows pid s.now)
        next := s.next + 1
        sessions := s.sessions.set z s.next } m =
          if s.next = m then some (z, false) else mark s m := by
      intro m
      simp only [mark, KeyedList.get_set]
      split_ifs <;> rfl
    refine ⟨hinvariant, ?_, ?_, ?_, ?_⟩
    · intro z' m hm
      simp only [KeyedList.get_set] at hm
      split_ifs at hm
      · obtain rfl := Option.some.inj hm
        exact fun hmem => absurd (h.numbers _ hmem) (lt_irrefl _)
      · exact h.entries z' m hm
    · exact fun m hm => (h.numbers m hm).trans (Nat.lt_succ_self _)
    · intro n hn
      obtain ⟨hmarked, hkept⟩ := h.holds n hn
      refine ⟨?_, hkept⟩
      rw [hmark, if_neg]
      · exact hmarked
      · rintro rfl
        obtain ⟨session, hget, -⟩ := Option.map_eq_some_iff.mp hmarked
        exact absurd (h.invariant.fresh _ session hget) (lt_irrefl _)
    · intro hclear hheld m hm
      simp only [KeyedList.get_set] at hm
      rw [hmark]
      split_ifs at hm with hz
      · obtain rfl := Option.some.inj hm
        rw [if_pos rfl, hz]
      · obtain ⟨session, hget, -⟩ := h.invariant.owner zoneName m hm
        have hless := h.invariant.fresh m session hget
        rw [if_neg (by omega)]
        exact h.free hclear hheld m hm

theorem Keeps.getOrCreate {z : String} {cols rows spawned : Option ℕ}
    (h : Keeps zoneName clear held s)
    (hstep : Zlogin.getOrCreate s z cols rows spawned = some t) : Keeps zoneName clear held t := by
  have hinvariant := h.invariant.getOrCreate hstep
  unfold Zlogin.getOrCreate at hstep
  cases hfound : sessionOf s z with
  | none =>
    rw [hfound] at hstep
    exact h.spawn hstep hinvariant
  | some e =>
    obtain ⟨hentry, hget⟩ := sessionOf_eq_some.mp hfound
    rw [hfound] at hstep
    simp only at hstep
    split_ifs at hstep with halive
    · obtain rfl := Option.some.inj hstep
      exact h.loses (loses_update hget rfl) hinvariant
    · -- the process of the entry that goes is dead
      have herased : Zlogin.Invariant { s with sessions := s.sessions.erase z } := by
        refine h.invariant.erase rfl rfl rfl (List.Subset.refl _) ?_
        intro n session hn hsession hrun
        rw [hentry] at hn
        obtain rfl := Option.some.inj hn
        rw [hget] at hsession
        obtain rfl := Option.some.inj hsession
        exact absurd (Zlogin.isProcessAlive_of_running hget hrun) halive
      exact (h.loses (loses_erase s z) herased).spawn hstep hinvariant

/-- Another session than the one that is held may be destroyed. -/
theorem Keeps.destroy {z : String} (h : Keeps zoneName clear held s)
    (hother : ∀ n ∈ held, s.sessions.get z ≠ some n) (broken : List ℕ) :
    Keeps zoneName clear held (Zlogin.destroy s broken z) := by
  have hinvariant := h.invariant.destroy broken z
  unfold Zlogin.destroy at hinvariant ⊢
  cases hfound : sessionOf s z with
  | none => exact h
  | some e =>
    obtain ⟨hentry, hget⟩ := sessionOf_eq_some.mp hfound
    rw [hfound] at hinvariant
    refine ⟨hinvariant, ?_, ?_, ?_, ?_⟩
    · intro z' m hm hmem
      obtain ⟨hne, hm⟩ := KeyedList.get_erase_eq_some hm
      rcases List.mem_cons.mp hmem with rfl | hmem
      · obtain ⟨session, hsession, hname⟩ := h.invariant.owner z' _ hm
        obtain ⟨session', hsession', hname'⟩ := h.invariant.owner z _ hentry
        rw [hsession] at hsession'
        obtain rfl := Option.some.inj hsession'
        exact hne (hname'.symm.trans hname)
      · exact h.entries z' m hm hmem
    · intro m hm
      rcases List.mem_cons.mp hm with rfl | hm
      · exact h.invariant.fresh _ e.2 hget
      · exact h.numbers m hm
    · intro n hn
      obtain ⟨hmarked, hkept⟩ := h.holds n hn
      refine ⟨hmarked, fun hmem => ?_⟩
      rcases List.mem_cons.mp hmem with rfl | hmem
      · exact hother _ hn hentry
      · exact hkept hmem
    · exact fun hclear hheld m hm => h.free hclear hheld m (KeyedList.get_erase_eq_some hm).2

theorem get_of_destroy {broken : List ℕ} {z z' : String}
    (h : (Zlogin.destroy s broken z).sessions.get z' = some n) : s.sessions.get z' = some n := by
  unfold Zlogin.destroy at h
  cases hfound : sessionOf s z with
  | none => rwa [hfound] at h
  | some e =>
    rw [hfound] at h
    exact (KeyedList.get_erase_eq_some h).2

theorem Keeps.destroyEach {zs : List String} (h : Keeps zoneName clear held s)
    (hother : ∀ z ∈ zs, ∀ n ∈ held, s.sessions.get z ≠ some n) (broken : List ℕ) :
    Keeps zoneName clear held (Zlogin.destroyEach s broken zs) := by
  unfold Zlogin.destroyEach
  induction zs generalizing s with
  | nil => exact h
  | cons z zs ih =>
    refine ih (h.destroy (hother z List.mem_cons_self) broken) ?_
    intro z' hz' n hn hentry
    exact hother z' (List.mem_cons_of_mem z hz') n hn (get_of_destroy hentry)

/-- A marked session is not idle. -/
theorem Keeps.cleanup (h : Keeps zoneName clear held s) (broken : List ℕ) :
    Keeps zoneName clear held (Zlogin.cleanupIdleSessions s broken) := by
  refine h.destroyEach ?_ broken
  intro z hz n hn hentry
  obtain ⟨hmarked, -⟩ := h.holds n hn
  obtain ⟨session, hget, hmark⟩ := Option.map_eq_some_iff.mp hmarked
  have hidle := (List.mem_filter.mp hz).2
  rw [(@sessionOf_eq_some s z (n, session)).mpr ⟨hentry, hget⟩] at hidle
  have hactive : session.automationActive = true := congrArg Prod.snd hmark
  simp [Zlogin.isIdle, hactive] at hidle

theorem mark_setAutomationActive {z : String} {active : Bool} {e : ℕ × Session}
    (hfound : sessionOf s z = some e) (hname : e.2.zoneName = z) (m : ℕ) :
    mark (Zlogin.setAutomationActive s z active) m =
      if e.1 = m then some (z, active) else mark s m := by
  unfold Zlogin.setAutomationActive mark updateSession
  simp only [hfound, KeyedList.get_set]
  split_ifs
  · rw [Option.map_some, hname]
  · rfl

theorem invariant_setAutomationActive (h : Zlogin.Invariant s) (z : String) (active : Bool) :
    Zlogin.Invariant (Zlogin.setAutomationActive s z active) :=
  @Zlogin.Invariant.step _ _ h (.setAutomationActive z active) trivial rfl

/-- Whatever is marked, the entries, the numbers and what was destroyed stay. -/
theorem setAutomationActive_keeps (s : Manager) (z : String) (active : Bool) :
    (Zlogin.setAutomationActive s z active).sessions = s.sessions ∧
      (Zlogin.setAutomationActive s z active).destroyed = s.destroyed ∧
      (Zlogin.setAutomationActive s z active).next = s.next := by
  unfold Zlogin.setAutomationActive
  cases sessionOf s z <;> exact ⟨rfl, rfl, rfl⟩

theorem zoneName_of_found {z : String} {e : ℕ × Session} (h : Zlogin.Invariant s)
    (hfound : sessionOf s z = some e) : e.2.zoneName = z := by
  obtain ⟨hentry, hget⟩ := sessionOf_eq_some.mp hfound
  obtain ⟨session, hsession, hname⟩ := h.owner z _ hentry
  rw [hget] at hsession
  obtain rfl := Option.some.inj hsession
  exact hname

/-- Marks of the sessions of other zones do not matter. -/
theorem Keeps.setAutomationActive {z : String} (h : Keeps zoneName clear held s)
    (hz : z ≠ zoneName) (active : Bool) :
    Keeps zoneName clear held (Zlogin.setAutomationActive s z active) := by
  obtain ⟨hsessions, hdestroyed, hnext⟩ := setAutomationActive_keeps s z active
  have hmark : ∀ m b, mark s m = some (zoneName, b) →
      mark (Zlogin.setAutomationActive s z active) m = some (zoneName, b) := by
    intro m b hm
    cases hfound : sessionOf s z with
    | none =>
      unfold Zlogin.setAutomationActive
      rwa [hfound]
    | some e =>
      have hname := zoneName_of_found h.invariant hfound
      rw [mark_setAutomationActive hfound hname, if_neg]
      · exact hm
      · rintro rfl
        rw [mark, (sessionOf_eq_some.mp hfound).2] at hm
        exact hz (hname.symm.trans (congrArg Prod.fst (Option.some.inj hm)))
  refine ⟨invariant_setAutomationActive h.invariant z active, ?_, ?_, ?_, ?_⟩
  · rw [hsessions, hdestroyed]
    exact h.entries
  · rw [hdestroyed, hnext]
    exact h.numbers
  · intro n hn
    rw [hdestroyed]
    exact ⟨hmark n true (h.holds n hn).1, (h.holds n hn).2⟩
  · intro hclear hheld m hm
    rw [hsessions] at hm
    exact hmark m false (h.free hclear hheld m hm)

/-- The run marks the session that its zone has, and holds it from then on. -/
theorem Keeps.hold (h : Keeps zoneName clear held s) (active : Bool) :
    Keeps zoneName clear (if active then (sessionOf s zoneName).map Prod.fst else none)
      (Zlogin.setAutomationActive s zoneName active) := by
  obtain ⟨hsessions, hdestroyed, hnext⟩ := setAutomationActive_keeps s zoneName active
  refine ⟨invariant_setAutomationActive h.invariant zoneName active, ?_, ?_, ?_, ?_⟩
  · rw [hsessions, hdestroyed]
    exact h.entries
  · rw [hdestroyed, hnext]
    exact h.numbers
  · intro n hn
    cases active with
    | false => cases hn
    | true =>
      obtain ⟨e, hfound, rfl⟩ := Option.map_eq_some_iff.mp hn
      rw [hdestroyed, mark_setAutomationActive hfound (zoneName_of_found h.invariant hfound),
        if_pos rfl]
      exact ⟨rfl, h.entries zoneName _ (sessionOf_eq_some.mp hfound).1⟩
  · intro hclear hheld m hm
    rw [hsessions] at hm
    obtain ⟨session, hget, -⟩ := h.invariant.owner zoneName m hm
    have hfound : sessionOf s zoneName = some (m, session) :=
      (@sessionOf_eq_some s zoneName (m, session)).mpr ⟨hm, hget⟩
    cases active with
    | true =>
      rw [hfound] at hheld
      cases hheld
    | false =>
      rw [mark_setAutomationActive hfound (zoneName_of_found h.invariant hfound), if_pos rfl]

end Marks

section Events
variable {s t : Manager} {zoneName : String} {clear : Prop} {held : Option ℕ}

/-- What the other parties do to the zone of the run: all but destroying its session and marking
it. -/
def Calm (zoneName : String) : Zlogin.Event → Prop
  | .destroy z _ => z ≠ zoneName
  | .destroyAll _ => False
  | .setAutomationActive z _ => z ≠ zoneName
  | _ => True

instance (zoneName : String) : (e : Zlogin.Event) → Decidable (Calm zoneName e)
  | .destroy z _ | .setAutomationActive z _ => inferInstanceAs (Decidable (z ≠ zoneName))
  | .destroyAll _ => inferInstanceAs (Decidable False)
  | .getOrCreate _ _ _ _ | .data _ _ | .ended _ | .exit _ | .subscribe _ _ | .unsubscribe _ _
  | .write _ _ | .clearBuffer _ | .timer _ _ | .cleanup _ | .elapse _ | .others _ =>
    inferInstanceAs (Decidable True)

theorem loses_of_same (hobjects : t.objects = s.objects) (hnext : t.next = s.next)
    (hsessions : t.sessions = s.sessions) (hdestroyed : t.destroyed = s.destroyed) :
    Loses s t where
  sessions z m hm := by rwa [hsessions] at hm
  destroyed := hdestroyed
  next := hnext
  mark n := by rw [mark, mark, hobjects]

theorem loses_withSession {z : String} {f : Session → Session}
    (hf : ∀ session, ((f session).zoneName, (f session).automationActive) =
      (session.zoneName, session.automationActive)) : Loses s (Zlogin.withSession s z f) := by
  unfold Zlogin.withSession
  cases hfound : sessionOf s z with
  | none => exact loses_of_same rfl rfl rfl rfl
  | some e => exact loses_update (sessionOf_eq_some.mp hfound).2 (hf e.2)

theorem loses_write (z : String) (data : Zlogin.Text) : Loses s (Zlogin.write s z data) := by
  unfold Zlogin.write
  cases hfound : sessionOf s z with
  | none => exact loses_of_same rfl rfl rfl rfl
  | some e =>
    simp only
    split_ifs
    · have htouched : Loses s (updateSession s e.1 { e.2 with lastActivity := s.now }) :=
        loses_update (sessionOf_eq_some.mp hfound).2 rfl
      exact htouched.trans (loses_of_same rfl rfl rfl rfl)
    · exact loses_of_same rfl rfl rfl rfl

theorem Keeps.step {e : Zlogin.Event} (h : Keeps zoneName clear held s) (hcalm : Calm zoneName e)
    (hnewer : Zlogin.noNewer s e) (hstep : Zlogin.step s e = some t) :
    Keeps zoneName clear held t := by
  have hinvariant := h.invariant.step hnewer hstep
  cases e with
  | getOrCreate z cols rows spawned => exact h.getOrCreate hstep
  | data n data =>
    obtain ⟨session, hget, hstep⟩ := Option.bind_eq_some_iff.mp hstep
    split_ifs at hstep
    obtain rfl := Option.some.inj hstep
    have hloses : Loses s (updateSession s n (session.onData s.now data)) :=
      loses_update hget rfl
    exact h.loses (hloses.trans (loses_of_same rfl rfl rfl rfl)) hinvariant
  | ended n =>
    obtain ⟨session, hget, hstep⟩ := Option.bind_eq_some_iff.mp hstep
    split_ifs at hstep
    obtain rfl := Option.some.inj hstep
    exact h.loses (loses_update hget rfl) hinvariant
  | exit n =>
    obtain ⟨session, hget, hstep⟩ := Option.bind_eq_some_iff.mp hstep
    split_ifs at hstep
    obtain rfl := Option.some.inj hstep
    have hupdated : Loses s (updateSession s n { session with stage := .exited }) :=
      loses_update hget rfl
    have hloses := hupdated.trans (loses_erase _ session.zoneName)
    exact h.loses (hloses.trans (loses_of_same rfl rfl rfl rfl)) hinvariant
  | subscribe z callback =>
    obtain rfl := Option.some.inj hstep
    exact h.loses (loses_withSession fun _ => rfl) hinvariant
  | unsubscribe n callback =>
    obtain ⟨session, hget, rfl⟩ := Option.map_eq_some_iff.mp hstep
    exact h.loses (loses_update hget rfl) hinvariant
  | write z data =>
    obtain rfl := Option.some.inj hstep
    exact h.loses (loses_write z data) hinvariant
  | clearBuffer z =>
    obtain rfl := Option.some.inj hstep
    exact h.loses (loses_withSession fun _ => rfl) hinvariant
  | setAutomationActive z active =>
    obtain rfl := Option.some.inj hstep
    exact h.setAutomationActive hcalm active
  | destroy z broken =>
    obtain rfl := Option.some.inj hstep
    refine h.destroy ?_ broken
    intro n hn hentry
    obtain ⟨session, hget, hname⟩ := h.invariant.owner z n hentry
    have hmarked := (h.holds n hn).1
    rw [mark, hget] at hmarked
    exact hcalm (hname.symm.trans (congrArg Prod.fst (Option.some.inj hmarked)))
  | destroyAll broken => exact hcalm.elim
  | timer due n =>
    change Zlogin.onTimer s due n = some t at hstep
    unfold Zlogin.onTimer at hstep
    split_ifs at hstep
    obtain ⟨session, -, rfl⟩ := Option.map_eq_some_iff.mp hstep
    exact h.loses (loses_of_same rfl rfl rfl rfl) hinvariant
  | cleanup broken =>
    obtain rfl := Option.some.inj hstep
    exact h.cleanup broken
  | elapse ms =>
    obtain rfl := Option.some.inj hstep
    exact h.loses (loses_of_same rfl rfl rfl rfl) hinvariant
  | others pids =>
    obtain rfl := Option.some.inj hstep
    exact h.loses (loses_of_same rfl rfl rfl rfl) hinvariant

end Events

section Start
variable {s t : Manager} {zoneName : String}

/-- Where no run holds a session, there is no event that the zone has to be kept from. -/
theorem Keeps.any {e : Zlogin.Event} (h : Keeps zoneName False none s)
    (hnewer : Zlogin.noNewer s e) (hstep : Zlogin.step s e = some t) :
    Keeps zoneName False none t := by
  by_cases hcalm : Calm zoneName e
  · exact h.step hcalm hnewer hstep
  · cases e with
    | destroy z broken =>
      obtain rfl := Option.some.inj hstep
      exact h.destroy (by rintro n ⟨⟩) broken
    | destroyAll broken =>
      obtain rfl := Option.some.inj hstep
      exact h.destroyEach (by rintro z - n ⟨⟩) broken
    | setAutomationActive z active =>
      obtain rfl := Option.some.inj hstep
      obtain ⟨hsessions, hdestroyed, hnext⟩ := setAutomationActive_keeps s z active
      refine ⟨invariant_setAutomationActive h.invariant z active, ?_, ?_, ?_, ?_⟩
      · rw [hsessions, hdestroyed]
        exact h.entries
      · rw [hdestroyed, hnext]
        exact h.numbers
      · rintro n ⟨⟩
      · rintro ⟨⟩
    | _ => exact absurd trivial hcalm

theorem keeps_of_reaches {now : ℕ} (h : Transition.Reaches Zlogin.step Zlogin.noNewer
    (Zlogin.start now) s) (hfree : ∀ e ∈ sessionOf s zoneName, e.2.automationActive = false) :
    Keeps zoneName True none s := by
  have hkeeps : Keeps zoneName False none s := by
    refine h.invariant ?_ fun _ _ _ hi hok hstep => hi.any hok hstep
    refine ⟨Zlogin.invariant_start now, ?_, ?_, ?_, ?_⟩
    · rintro z m ⟨⟩
    · rintro m ⟨⟩
    · rintro n ⟨⟩
    · rintro ⟨⟩
  refine ⟨hkeeps.invariant, hkeeps.entries, hkeeps.numbers, hkeeps.holds, ?_⟩
  intro _ _ m hm
  obtain ⟨session, hget, hname⟩ := hkeeps.invariant.owner zoneName m hm
  have hfound : sessionOf s zoneName = some (m, session) :=
    (@sessionOf_eq_some s zoneName (m, session)).mpr ⟨hm, hget⟩
  rw [mark, hget, Option.map_some, hname, hfree _ hfound]

end Start

section Run
variable {zoneName : String} {w w' : World}

/-- The console with calm events only: no other party destroys or marks the session of the zone, the
engine is not destroyed, and every exit is handled before a newer session is there. -/
def calmConsole (zoneName : String) : System World Command Reply Choice Event where
  execute := call zoneName
  happen w
    | .pty e =>
    if Calm zoneName e ∧ Zlogin.noNewer w.pty e then happen zoneName w (.pty e) else none
    | .destroy => none

def Holds (zoneName : String) (w : World) : Prop := Keeps zoneName True w.held w.pty

theorem stable_holds (P : Option ℕ → Prop) :
    Stable (calmConsole zoneName) fun w => Holds zoneName w ∧ P w.held := by
  rintro w (e | _) w' ⟨hholds, hP⟩ hstep
  · change (if Calm zoneName e ∧ Zlogin.noNewer w.pty e then happen zoneName w (.pty e)
      else none) = some w' at hstep
    split_ifs at hstep with hcalm
    obtain ⟨pty, hpty, rfl⟩ := Option.map_eq_some_iff.mp hstep
    exact ⟨hholds.step hcalm.1 hcalm.2 hpty, hP⟩
  · cases hstep

theorem Holds.call {c : Command} {choice : Choice} {reply : Reply} (h : Holds zoneName w)
    (hstep : call zoneName w c choice = some (reply, w')) : Holds zoneName w' := by
  cases c with
  | write data =>
    cases choice with
    | spawned pid => cases hstep
    | failed error =>
      simp only [ZloginRecipe.call, write] at hstep
      split_ifs at hstep
      cases hstep
      exact h
    | plain =>
      simp only [ZloginRecipe.call, write] at hstep
      split_ifs at hstep
      · cases hstep
        exact h
      · cases hstep
        exact h
      · cases hstep
        exact Keeps.step (e := .write zoneName data) h trivial trivial rfl
  | getOrCreate cols rows =>
    cases choice <;>
    · simp only [ZloginRecipe.call, getOrCreate] at hstep
      split_ifs at hstep
      obtain ⟨pty, hpty, heq⟩ := Option.map_eq_some_iff.mp hstep
      cases heq
      exact Keeps.getOrCreate h hpty
  | setAutomationActive active =>
    cases choice <;> cases hstep
    exact Keeps.hold h active
  | destroy =>
    cases choice <;> cases hstep
    exact Keeps.hold h false
  | clearBuffer =>
    cases choice <;> cases hstep
    exact Keeps.step (e := .clearBuffer zoneName) h trivial trivial rfl
  | poll n needle deadline =>
    cases choice <;> try cases hstep
    obtain ⟨matched, -, heq⟩ := Option.map_eq_some_iff.mp hstep
    cases heq
    exact h
  | _ =>
    cases choice <;> cases hstep
    exact h

/-- The session that the run has marked was not destroyed, is still marked, and is the session of
the zone as long as its process runs. -/
def InHand (zoneName : String) (w : World) : Prop :=
  ∀ n ∈ w.held, n ∉ w.pty.destroyed ∧ ∃ session ∈ w.pty.objects.get n,
    session.automationActive = true ∧
      (session.stage = .running → w.pty.sessions.get zoneName = some n)

def Unmarked (zoneName : String) (s : Manager) : Prop :=
  ∀ e ∈ sessionOf s zoneName, e.2.automationActive = false

theorem Holds.inHand (h : Holds zoneName w) : InHand zoneName w := by
  intro n hn
  obtain ⟨hmarked, hkept⟩ := Keeps.holds h n hn
  obtain ⟨session, hget, hmark⟩ := Option.map_eq_some_iff.mp hmarked
  have hname : session.zoneName = zoneName := congrArg Prod.fst hmark
  refine ⟨hkept, session, hget, congrArg Prod.snd hmark, fun hrun => ?_⟩
  rw [← hname]
  exact (Keeps.invariant h).registered n session hget hrun hkept

theorem Holds.unmarked (h : Holds zoneName w) (hheld : w.held = none) :
    Unmarked zoneName w.pty := by
  rintro ⟨n, session⟩ hfound
  obtain ⟨hentry, hget⟩ := sessionOf_eq_some.mp hfound
  have hmark := Keeps.free h trivial hheld n hentry
  rw [mark, hget] at hmark
  exact congrArg Prod.snd (Option.some.inj hmark)

variable {engine : Engine} {shown : ℚ → Words} {recipe : Recipe}
  {zoneVars : Words → Option Words} {l : Locals} {α : Type}

theorem wp_keep {script : Script α} (h : Holds zoneName w) :
    Wp (calmConsole zoneName) (fun _ _ _ => True) (InHand zoneName) (fun _ _ => Holds zoneName)
      (fun _ _ => Holds zoneName) script l w := by
  have hstable : Stable (calmConsole zoneName) (Holds zoneName) := fun w e w' hw hstep =>
    (stable_holds (fun _ => True) w e w' ⟨hw, trivial⟩ hstep).1
  exact Wp.keep hstable (fun _ hw => hw.inHand) (fun w c choice reply w' hw _ hstep =>
    hw.call hstep) h

/-- The rule for one command, with what it makes of the session in hand and that it throws
nothing. -/
theorem wp_perform {c : Command} {Q : Reply → Locals → World → Prop}
    {E : Words → Locals → World → Prop} (P P' : Option ℕ → Prop)
    (hcall : ∀ w choice reply w', call zoneName w c choice = some (reply, w') → P w.held →
      P' w'.held ∧ ∀ e, reply ≠ .thrown e)
    (h : Holds zoneName w) (hP : P w.held)
    (hQ : ∀ reply w, (∀ e, reply ≠ .thrown e) → Holds zoneName w → P' w.held → Q reply l w) :
    Wp (calmConsole zoneName) (fun _ _ _ => True) (InHand zoneName) Q E (perform c) l w := by
  refine Wp.perform (stable_holds P) ⟨h, hP⟩ (fun _ hw => hw.1.inHand)
    (T := fun reply w => Holds zoneName w ∧ P' w.held ∧ ∀ e, reply ≠ .thrown e) ?_ ?_ ?_
  · exact fun w choice reply w' hw _ hstep => ⟨hw.1.call hstep, hcall _ _ _ _ hstep hw.2⟩
  · exact fun reply => stable_holds fun held => P' held ∧ ∀ e, reply ≠ .thrown e
  · exact fun reply w hw => ⟨hw.1.inHand, hQ reply w hw.2.2 hw.1 hw.2.1⟩

theorem wp_pure {a : α} {Q : α → Locals → World → Prop} {E : Words → Locals → World → Prop}
    (P : Option ℕ → Prop) (h : Holds zoneName w) (hP : P w.held)
    (hQ : ∀ w, Holds zoneName w → P w.held → Q a l w) :
    Wp (calmConsole zoneName) (fun _ _ _ => True) (InHand zoneName) Q E (pure a) l w :=
  Wp.pure (stable_holds P) ⟨h, hP⟩ fun w hw => ⟨hw.1.inHand, hQ w hw.1 hw.2⟩

/-- The flag is cleared at the end. -/
theorem wp_finish {completed : Bool} (h : Holds zoneName w) :
    Wp (calmConsole zoneName) (fun _ _ _ => True) (InHand zoneName)
      (fun _ _ w => w.held = none ∧ Unmarked zoneName w.pty) (fun _ _ _ => False)
      (finish completed) l w := by
  have hcall : ∀ w choice reply w', call zoneName w (.setAutomationActive false) choice =
      some (reply, w') → True → w'.held = none ∧ ∀ e, reply ≠ .thrown e := by
    rintro w (_ | pid | error) reply w' hstep - <;> cases hstep
    exact ⟨rfl, by rintro e ⟨⟩⟩
  have hclear : Wp (calmConsole zoneName) (fun _ _ _ => True) (InHand zoneName)
      (fun _ l' w => l' = l ∧ Holds zoneName w ∧ w.held = none) (fun _ _ _ => False)
      (effect (.setAutomationActive false)) l w := by
    refine Wp.bind (wp_perform (fun _ => True) (· = none) hcall h trivial ?_)
    intro reply w hreply hw hheld
    cases reply with
    | thrown e => exact absurd rfl (hreply e)
    | _ => exact wp_pure (· = none) hw hheld fun w hw hheld => ⟨rfl, hw, hheld⟩
  refine Wp.bind (hclear.mono ?_ fun _ _ _ h => h)
  rintro _ l w ⟨rfl, hw, hheld⟩
  refine Wp.bind (Wp.get (stable_holds (· = none)) ⟨hw, hheld⟩ ?_)
  rintro w ⟨hw, hheld⟩
  refine ⟨hw.inHand, ?_⟩
  cases completed <;>
    exact wp_pure (· = none) hw hheld fun w hw hheld => ⟨hheld, hw.unmarked hheld⟩

/-- Where the run marks nothing, it keeps what it has in hand. -/
theorem held_of_call {c : Command} {choice : Choice} {reply : Reply}
    (hc : c = .isDestroyed ∨ c = .now) (hstep : call zoneName w c choice = some (reply, w')) :
    w'.held = w.held ∧ ∀ e, reply ≠ .thrown e := by
  rcases hc with rfl | rfl <;> cases choice <;> cases hstep <;> exact ⟨rfl, by rintro e ⟨⟩⟩

theorem wp_isDestroyed {Q : Bool → Locals → World → Prop} {E : Words → Locals → World → Prop}
    (h : Holds zoneName w) (hheld : w.held = none)
    (hQ : ∀ b w, Holds zoneName w → w.held = none → Q b l w) :
    Wp (calmConsole zoneName) (fun _ _ _ => True) (InHand zoneName) Q E isDestroyed l w := by
  refine Wp.bind (wp_perform (· = none) (· = none) ?_ h hheld ?_)
  · intro w choice reply w' hstep hheld
    obtain ⟨hsame, hreply⟩ := held_of_call (.inl rfl) hstep
    exact ⟨hsame.trans hheld, hreply⟩
  · intro reply w _ hw hheld
    cases reply <;> exact wp_pure (· = none) hw hheld (hQ _)

theorem wp_now {Q : ℕ → Locals → World → Prop} {E : Words → Locals → World → Prop}
    (h : Holds zoneName w) (hQ : ∀ n w, Holds zoneName w → Q n l w) :
    Wp (calmConsole zoneName) (fun _ _ _ => True) (InHand zoneName) Q E now l w := by
  refine Wp.bind (wp_perform (fun _ => True) (fun _ => True) ?_ h trivial ?_)
  · intro w choice reply w' hstep _
    exact ⟨trivial, (held_of_call (.inr rfl) hstep).2⟩
  · intro reply w _ hw _
    cases reply <;> exact wp_pure (fun _ => True) hw trivial fun w hw _ => hQ _ w hw

theorem wp_execute {engine : Engine} {shown : ℚ → Words} {recipe : Recipe}
    {zoneVars : Words → Option Words} (h : Holds zoneName w) (hheld : w.held = none) :
    Wp (calmConsole zoneName) (fun _ _ _ => True) (InHand zoneName)
      (fun _ _ w => w.held = none ∧ Unmarked zoneName w.pty) (fun _ _ _ => False)
      (execute engine shown recipe zoneVars) l w := by
  refine Wp.bind (wp_isDestroyed h hheld fun b w hw hheld => ?_)
  cases b with
  | true => exact wp_pure (· = none) hw hheld fun w hw hheld => ⟨hheld, hw.unmarked hheld⟩
  | false =>
    refine Wp.bind (wp_now hw fun n w hw => ?_)
    refine Wp.bind (Wp.tryCatch ((wp_keep hw).mono ?_ ?_))
    · exact fun completed l w hw => wp_finish hw
    · intro error l w hw
      have hstable : Stable (calmConsole zoneName) fun w => Holds zoneName w ∧ True :=
        stable_holds fun _ => True
      refine Wp.bind (Wp.modify hstable ⟨hw, trivial⟩ ?_)
      rintro w ⟨hw, -⟩
      exact ⟨hw.inHand, wp_pure (fun _ => True) hw trivial fun w hw _ => wp_finish hw⟩

end Run

section Web

def loginRecipe : Recipe where
  steps := [.wait "login:".toList none, .send "root\n".toList,
    .command ⟨"uname -a".toList, none, none, none⟩]
  bootString := none
  loginPrompt := none
  shellPrompt := none
  defaultVars := fun _ => none
  timeoutSeconds := none

end Web

end ZoneweaverAgent.ZloginRecipe
