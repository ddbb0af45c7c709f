import Mathlib.Algebra.GroupWithZero.Nat
import Mathlib.Algebra.Order.BigOperators.Group.List
import Mathlib.Algebra.Order.Group.Nat
import ZoneweaverAgent.EventLoopAlone

/-!
# What an undisturbed activation leads to

The rules for `Leads` where only one activation and the functions it calls move. The activation goes
from await to await; the functions it calls at once run in any order, and it goes on when each of
them has come to its end.
-/

namespace EventLoop
open Transition (Leads)
variable {World Pc Ans Choice Entry : Type*}

section Sole

/-- The activation `pid` is `p`, and no other has a name from `base` on. -/
structure Sole (base pid : ℕ) (p : Activation Pc Ans) (s : State World Pc Ans) : Prop where
  own : s.procs.get pid = some p
  others : ∀ q, base ≤ q → q ≠ pid → s.procs.get q = none
  base_le : base ≤ s.next
  lt : pid < s.next

variable {P : Program World Pc Ans Choice Entry} {base pid : ℕ} {p p' : Activation Pc Ans}
variable {s t : State World Pc Ans} {l : Label Choice Entry} {pc pc' : Pc} {caller : Option ℕ}
variable {ok : State World Pc Ans → Label Choice Entry → Prop} {Q : State World Pc Ans → Prop}

theorem Sole.set (h : Sole base pid p s) (w : World) (p' : Activation Pc Ans) :
    Sole base pid p' ⟨w, s.procs.set pid p', s.next⟩ where
  own := KeyedList.get_set_self _ _ _
  others q hq hne := by
    rw [KeyedList.get_set_of_ne _ _ (Ne.symm hne)]
    exact h.others q hq hne
  base_le := h.base_le
  lt := h.lt

/-- Only the activation itself can move. -/
theorem Sole.moves (h : Sole base pid p s) (hl : MovesOnly pid base s l)
    (ht : step P s l = some t) : (∃ c, l = .serve pid c) ∨ l = .resume pid := by
  cases l with
  | serve q c =>
    by_cases hq : q = pid
    · exact .inl ⟨c, by rw [hq]⟩
    · simp only [step, h.others q (hl.resolve_left hq) hq] at ht
      cases ht
  | resume q =>
    by_cases hq : q = pid
    · exact .inr (by rw [hq])
    · simp only [step, h.others q (hl.resolve_left hq) hq] at ht
      cases ht
  | fail q | enter e => exact hl.elim

theorem Sole.step_serve (h : Sole base pid ⟨pc, .waiting, caller⟩ s) (c : Choice) :
    step P s (.serve pid c) = (P.serve s.world pc c).map fun r =>
      ⟨r.2, s.procs.set pid ⟨pc, .ready (.answer r.1), caller⟩, s.next⟩ := by
  simp only [step, h.own]

theorem Sole.step_resume {r : Reply Ans} (h : Sole base pid ⟨pc, .ready r, caller⟩ s) :
    step P s (.resume pid) =
      some (advance s (P.resume s.world pc r).1 pid caller s.next (P.resume s.world pc r).2) := by
  simp only [step, h.own]

/-- The call of the activation is served. -/
theorem leads_serve (h : Sole base pid ⟨pc, .waiting, caller⟩ s)
    (hok : ∀ l, ok s l ↔ MovesOnly pid base s l) (hex : ∃ c x, P.serve s.world pc c = some x)
    (hall : ∀ c a t, P.serve s.world pc c = some (a, t.world) →
      Sole base pid ⟨pc, .ready (.answer a), caller⟩ t → Leads (step P) ok Q t) :
    Leads (step P) ok Q s := by
  obtain ⟨c, x, hx⟩ := hex
  have hstep : step P s (.serve pid c) =
      some ⟨x.2, s.procs.set pid ⟨pc, .ready (.answer x.1), caller⟩, s.next⟩ := by
    rw [h.step_serve, hx, Option.map_some]
  apply Leads.later ((hok _).mpr (movesOnly_serve pid base s c)) hstep
  intro l t hl ht
  rcases h.moves ((hok l).mp hl) ht with ⟨c', rfl⟩ | rfl
  · rw [h.step_serve] at ht
    obtain ⟨y, hy, rfl⟩ := Option.map_eq_some_iff.mp ht
    exact hall c' y.1 _ hy (h.set y.2 _)
  · simp only [step, h.own] at ht
    cases ht

/-- The activation runs on to its next await. -/
theorem leads_await {r : Reply Ans} {w : World} (h : Sole base pid ⟨pc, .ready r, caller⟩ s)
    (hok : ∀ l, ok s l ↔ MovesOnly pid base s l) (hres : P.resume s.world pc r = (w, .await pc'))
    (hnext : ∀ t, t.world = w → Sole base pid ⟨pc', .waiting, caller⟩ t →
      Leads (step P) ok Q t) : Leads (step P) ok Q s := by
  have hstep : step P s (.resume pid) =
      some ⟨w, s.procs.set pid ⟨pc', .waiting, caller⟩, s.next⟩ := by
    rw [h.step_resume, hres]
    rfl
  apply Leads.later ((hok _).mpr (movesOnly_resume pid base s)) hstep
  intro l t hl ht
  rcases h.moves ((hok l).mp hl) ht with ⟨c, rfl⟩ | rfl
  · simp only [step, h.own] at ht
    cases ht
  · cases hstep.symm.trans ht
    exact hnext _ rfl (h.set w _)

/-- An activation that ends leads to nothing that did not hold by then. -/
theorem not_leads_of_finish {r : Reply Ans} {w : World} {threw : Bool}
    (h : Sole base pid ⟨pc, .ready r, none⟩ s)
    (hres : P.resume s.world pc r = (w, .finish threw)) (hQ : ¬ Q s)
    (hend : ∀ t, t.world = w → ¬ Q t) : ¬ Leads (step P) (MovesOnly pid base) Q s := by
  intro hleads
  have hstep : step P s (.resume pid) = some ⟨w, s.procs.erase pid, s.next⟩ := by
    rw [h.step_resume, hres]
    rfl
  have hgone : ∀ q, q = pid ∨ base ≤ q → (s.procs.erase pid).get q = none := by
    intro q hq
    by_cases hpid : q = pid
    · rw [hpid, KeyedList.get_erase_self]
    · rw [KeyedList.get_erase_of_ne _ (Ne.symm hpid)]
      exact h.others q (hq.resolve_left hpid) hpid
  have hstuck := hleads.next hQ (movesOnly_resume pid base s) hstep
  revert hstuck
  apply Transition.not_leads_of_stuck (hend _ rfl)
  intro l hl
  cases l with
  | serve q c | resume q => simp only [step, hgone q hl]
  | fail q | enter e => exact hl.elim

end Sole

section Join
variable (P : Program World Pc Ans Choice Entry) (G : World → Prop)
variable (C : Pc → Option (Reply Ans) → Prop) (m : World → Pc → Option (Reply Ans) → ℕ)

/-- Activations at `C` get served, call nobody, and go on or end with `m` going down: their own at
each of their moves, and that of no other going up. -/
structure Brief : Prop where
  served : ∀ w pc, G w → C pc none → ∃ c x, P.serve w pc c = some x
  serve : ∀ w pc c a w', G w → C pc none → P.serve w pc c = some (a, w') →
    G w' ∧ C pc (some (.answer a)) ∧ m w' pc (some (.answer a)) < m w pc none ∧
      ∀ pc' o, C pc' o → m w' pc' o ≤ m w pc' o
  resume : ∀ w pc r, G w → C pc (some r) → (∃ threw, P.resume w pc r = (w, .finish threw)) ∨
    ∃ pc', P.resume w pc r = (w, .await pc') ∧ C pc' none ∧ m w pc' none < m w pc (some r)

/-- The activation `pid` waits for the activations `live`, and nobody else has a name from `base`
on. -/
structure Forked (base pid : ℕ) (pc : Pc) (caller : Option ℕ) (live : List ℕ)
    (s : State World Pc Ans) : Prop where
  own : ∃ threw, s.procs.get pid = some ⟨pc, .joining live.length threw, caller⟩
  nodup : live.Nodup
  callee : ∀ q ∈ live, base ≤ q ∧ q ≠ pid ∧
    ∃ pc' o, s.procs.get q = some ⟨pc', phaseOf o, some pid⟩ ∧ C pc' o
  others : ∀ q, base ≤ q → q ≠ pid → q ∉ live → s.procs.get q = none
  base_le : base ≤ s.next
  lt : pid < s.next

/-- How far an activation is from its end. -/
def load (s : State World Pc Ans) (q : ℕ) : ℕ :=
  match s.procs.get q with
  | some ⟨pc, .waiting, _⟩ => m s.world pc none + 1
  | some ⟨pc, .ready r, _⟩ => m s.world pc (some r) + 1
  | _ => 0

variable {P G C m} {base pid : ℕ} {s t : State World Pc Ans} {pc : Pc} {caller : Option ℕ}
variable {live : List ℕ}

theorem load_of_get {q : ℕ} {pc' : Pc} {o : Option (Reply Ans)} {c : Option ℕ}
    (h : s.procs.get q = some ⟨pc', phaseOf o, c⟩) : load m s q = m s.world pc' o + 1 := by
  unfold load
  rw [h]
  cases o <;> rfl

/-- A move of one callee that does not end it. -/
theorem Forked.set (h : Forked C base pid pc caller live s) {q : ℕ} (hq : q ∈ live) {pc' : Pc}
    {o : Option (Reply Ans)} (hC : C pc' o) (w : World) :
    Forked C base pid pc caller live ⟨w, s.procs.set q ⟨pc', phaseOf o, some pid⟩, s.next⟩ where
  own := by
    obtain ⟨threw, hown⟩ := h.own
    refine ⟨threw, ?_⟩
    rw [KeyedList.get_set_of_ne _ _ (h.callee q hq).2.1]
    exact hown
  nodup := h.nodup
  callee q' hq' := by
    obtain ⟨hbase, hne, pc₀, o₀, hget, hC₀⟩ := h.callee q' hq'
    refine ⟨hbase, hne, ?_⟩
    by_cases hqq : q = q'
    · subst hqq
      exact ⟨pc', o, KeyedList.get_set_self _ _ _, hC⟩
    · refine ⟨pc₀, o₀, ?_, hC₀⟩
      rw [KeyedList.get_set_of_ne _ _ hqq]
      exact hget
  others q' hbase hne hlive := by
    rw [KeyedList.get_set_of_ne _ _ (by rintro rfl; exact hlive hq)]
    exact h.others q' hbase hne hlive
  base_le := h.base_le
  lt := h.lt

/-- Such a move brings the callees nearer to their end. -/
theorem Forked.load_set (h : Forked C base pid pc caller live s) {q : ℕ} (hq : q ∈ live) {pc' : Pc}
    {o : Option (Reply Ans)} {w : World} (hown : m w pc' o + 1 < load m s q)
    (hrest : ∀ pc' o, C pc' o → m w pc' o ≤ m s.world pc' o) :
    (live.map (load m ⟨w, s.procs.set q ⟨pc', phaseOf o, some pid⟩, s.next⟩)).sum <
      (live.map (load m s)).sum := by
  have hself : load m ⟨w, s.procs.set q ⟨pc', phaseOf o, some pid⟩, s.next⟩ q <
      load m s q := by
    rw [load_of_get (KeyedList.get_set_self _ _ _)]
    exact hown
  apply List.sum_lt_sum
  · intro q' hq'
    by_cases hqq : q = q'
    · subst hqq
      exact hself.le
    · obtain ⟨_, _, pc₀, o₀, hget, hC₀⟩ := h.callee q' hq'
      have hkept : (s.procs.set q ⟨pc', phaseOf o, some pid⟩).get q' = s.procs.get q' :=
        KeyedList.get_set_of_ne _ _ hqq
      have hload : load m ⟨w, s.procs.set q ⟨pc', phaseOf o, some pid⟩, s.next⟩ q' =
          m w pc₀ o₀ + 1 := load_of_get (hkept.trans hget)
      rw [load_of_get hget, hload]
      exact Nat.succ_le_succ (hrest pc₀ o₀ hC₀)
  · exact ⟨q, hq, hself⟩

theorem Forked.own_erase (h : Forked C base pid pc caller live s) {q : ℕ} (hq : q ∈ live) :
    ∃ threw, (s.procs.erase q).get pid = some ⟨pc, .joining live.length threw, caller⟩ := by
  obtain ⟨threw, hown⟩ := h.own
  refine ⟨threw, ?_⟩
  rw [KeyedList.get_erase_of_ne _ (h.callee q hq).2.1]
  exact hown

/-- The end of a callee that is not the last one. -/
theorem Forked.ended (h : Forked C base pid pc caller live s) {q : ℕ} (hq : q ∈ live)
    (hlast : 1 < live.length) (failed : Bool) :
    Forked C base pid pc caller (live.erase q)
      ⟨s.world, settle (s.procs.erase q) (some pid) failed, s.next⟩ := by
  obtain ⟨threw, hpid⟩ := h.own_erase hq
  have hget : ∀ q', q' ≠ pid →
      (settle (s.procs.erase q) (some pid) failed).get q' = (s.procs.erase q).get q' := by
    intro q' hne
    simp only [settle, hpid, if_neg (Nat.not_le.mpr hlast)]
    exact KeyedList.get_set_of_ne _ _ (Ne.symm hne)
  constructor
  · refine ⟨threw || failed, ?_⟩
    simp only [settle, hpid, if_neg (Nat.not_le.mpr hlast), List.length_erase_of_mem hq]
    exact KeyedList.get_set_self _ _ _
  · exact h.nodup.erase q
  · intro q' hq'
    obtain ⟨hqq, hlive⟩ := h.nodup.mem_erase_iff.mp hq'
    obtain ⟨hbase, hne, pc₀, o₀, hold, hC⟩ := h.callee q' hlive
    refine ⟨hbase, hne, pc₀, o₀, ?_, hC⟩
    rw [hget q' hne, KeyedList.get_erase_of_ne _ (Ne.symm hqq)]
    exact hold
  · intro q' hbase hne hlive
    rw [hget q' hne, KeyedList.get_erase]
    split_ifs with hqq
    · rfl
    · exact h.others q' hbase hne fun hold => hlive (h.nodup.mem_erase_iff.mpr ⟨Ne.symm hqq, hold⟩)
  · exact h.base_le
  · exact h.lt

/-- With its last callee the activation itself is ready. -/
theorem Forked.joined (h : Forked C base pid pc caller live s) {q : ℕ} (hq : q ∈ live)
    (hlast : live.length ≤ 1) (failed : Bool) : ∃ r, (r = .returned ∨ r = .failed) ∧
      Sole base pid ⟨pc, .ready r, caller⟩
        ⟨s.world, settle (s.procs.erase q) (some pid) failed, s.next⟩ := by
  obtain ⟨threw, hpid⟩ := h.own_erase hq
  refine ⟨if threw || failed then .failed else .returned, ?_, ?_⟩
  · split_ifs
    · exact .inr rfl
    · exact .inl rfl
  · simp only [settle, hpid, if_pos hlast]
    constructor
    · exact KeyedList.get_set_self _ _ _
    · intro q' hbase hne
      rw [KeyedList.get_set_of_ne _ _ (Ne.symm hne), KeyedList.get_erase]
      split_ifs with hqq
      · rfl
      · apply h.others q' hbase hne
        intro hlive
        have hone : live = [q] := by
          obtain ⟨x, hx⟩ := List.length_eq_one_iff.mp
            (le_antisymm hlast (List.length_pos_of_mem hq))
          rw [hx, List.mem_singleton] at hq
          rw [hx, hq]
        rw [hone, List.mem_singleton] at hlive
        exact hqq hlive.symm
    · exact h.base_le
    · exact h.lt

theorem Forked.load_ended (h : Forked C base pid pc caller live s) {q : ℕ} (hq : q ∈ live)
    (failed : Bool) :
    ((live.erase q).map
      (load m ⟨s.world, settle (s.procs.erase q) (some pid) failed, s.next⟩)).sum <
        (live.map (load m s)).sum := by
  obtain ⟨threw, hpid⟩ := h.own_erase hq
  have hsame : ∀ q' ∈ live.erase q,
      load m ⟨s.world, settle (s.procs.erase q) (some pid) failed, s.next⟩ q' = load m s q' := by
    intro q' hq'
    obtain ⟨hqq, hlive⟩ := h.nodup.mem_erase_iff.mp hq'
    obtain ⟨_, hne, pc₀, o₀, hget, _⟩ := h.callee q' hlive
    have hkept : (settle (s.procs.erase q) (some pid) failed).get q' = s.procs.get q' := by
      simp only [settle, hpid]
      split_ifs <;> rw [KeyedList.get_set_of_ne _ _ (Ne.symm hne),
        KeyedList.get_erase_of_ne _ (Ne.symm hqq)]
    have hload : load m ⟨s.world, settle (s.procs.erase q) (some pid) failed, s.next⟩ q' =
        m s.world pc₀ o₀ + 1 := load_of_get (hkept.trans hget)
    rw [load_of_get hget, hload]
  rw [List.map_congr_left hsame]
  have hsum := List.sum_map_erase (load m s) hq
  obtain ⟨_, _, pc', o, hget, _⟩ := h.callee q hq
  rw [load_of_get hget] at hsum
  omega

variable {l : Label Choice Entry}

/-- Only the callees can move. -/
theorem Forked.moves (h : Forked C base pid pc caller live s) (hl : MovesOnly pid base s l)
    (ht : step P s l = some t) : ∃ q ∈ live, (∃ c, l = .serve q c) ∨ l = .resume q := by
  obtain ⟨threw, hown⟩ := h.own
  cases l with
  | serve q c | resume q =>
    by_cases hlive : q ∈ live
    · exact ⟨q, hlive, by simp⟩
    · by_cases hpid : q = pid
      · simp only [step, hpid, hown] at ht
        cases ht
      · simp only [step, h.others q (hl.resolve_left hpid) hpid hlive] at ht
        cases ht
  | fail q | enter e => exact hl.elim

theorem Forked.exists_step (hbrief : Brief P G C m) (hG : G s.world) (hne : live ≠ [])
    (h : Forked C base pid pc caller live s) :
    ∃ l t, MovesOnly pid base s l ∧ step P s l = some t := by
  obtain ⟨q, hq⟩ := List.exists_mem_of_ne_nil live hne
  obtain ⟨hbase, _, pc', o, hget, hC⟩ := h.callee q hq
  cases o with
  | none =>
    obtain ⟨c, x, hx⟩ := hbrief.served _ _ hG hC
    exact ⟨.serve q c, _, .inr hbase, by simp only [step, hget, phaseOf, hx, Option.map_some]; rfl⟩
  | some r => exact ⟨.resume q, _, .inr hbase, by simp only [step, hget, phaseOf]; rfl⟩

/-- A step brings the callees nearer to their end or makes the activation itself ready. -/
theorem Forked.step (hbrief : Brief P G C m) (hG : G s.world)
    (h : Forked C base pid pc caller live s) (hl : MovesOnly pid base s l)
    (ht : EventLoop.step P s l = some t) :
    G t.world ∧
      ((∃ live', live' ≠ [] ∧ Forked C base pid pc caller live' t ∧
          (live'.map (load m t)).sum < (live.map (load m s)).sum) ∨
        ∃ r, (r = .returned ∨ r = .failed) ∧ Sole base pid ⟨pc, .ready r, caller⟩ t) := by
  obtain ⟨q, hq, hmove⟩ := h.moves hl ht
  have hne : live ≠ [] := List.ne_nil_of_mem hq
  obtain ⟨_, _, pc', o, hget, hC⟩ := h.callee q hq
  rcases hmove with ⟨c, rfl⟩ | rfl
  · cases o with
    | none =>
      simp only [EventLoop.step, hget, phaseOf] at ht
      obtain ⟨⟨a, w⟩, hx, rfl⟩ := Option.map_eq_some_iff.mp ht
      obtain ⟨hG', hC', hless, hrest⟩ := hbrief.serve _ _ _ _ _ hG hC hx
      refine ⟨hG', .inl ⟨live, hne, h.set (o := some (.answer a)) hq hC' w, ?_⟩⟩
      apply h.load_set (o := some (.answer a)) hq _ hrest
      rw [load_of_get hget]
      exact Nat.succ_lt_succ hless
    | some r =>
      simp only [EventLoop.step, hget, phaseOf] at ht
      cases ht
  · cases o with
    | none =>
      simp only [EventLoop.step, hget, phaseOf] at ht
      cases ht
    | some r =>
      simp only [EventLoop.step, hget, phaseOf] at ht
      rcases hbrief.resume _ _ _ hG hC with ⟨failed, hres⟩ | ⟨pc'', hres, hC', hless⟩
      · rw [hres] at ht
        cases ht
        refine ⟨hG, ?_⟩
        by_cases hlast : live.length ≤ 1
        · exact .inr (h.joined hq hlast failed)
        · have hmore := Nat.not_le.mp hlast
          refine .inl ⟨live.erase q, ?_, h.ended hq hmore failed, h.load_ended hq failed⟩
          apply List.ne_nil_of_length_pos
          rw [List.length_erase_of_mem hq]
          omega
      · rw [hres] at ht
        cases ht
        refine ⟨hG, .inl ⟨live, hne, h.set (o := none) hq hC' s.world, ?_⟩⟩
        apply h.load_set (o := none) hq _ fun _ _ _ => le_rfl
        rw [load_of_get hget]
        exact Nat.succ_lt_succ hless

variable {ok : State World Pc Ans → Label Choice Entry → Prop} {Q : State World Pc Ans → Prop}

/-- The functions an activation has called come to their ends, in whatever order they run. -/
theorem leads_join (hbrief : Brief P G C m)
    (hok : ∀ s, G s.world → ∀ l, ok s l ↔ MovesOnly pid base s l)
    (hnext : ∀ t r, G t.world → r = .returned ∨ r = .failed →
      Sole base pid ⟨pc, .ready r, caller⟩ t → Leads (EventLoop.step P) ok Q t)
    (hne : live ≠ []) (hG : G s.world) (h : Forked C base pid pc caller live s) :
    Leads (EventLoop.step P) ok Q s := by
  induction hn : (live.map (load m s)).sum using Nat.strong_induction_on
    generalizing s live with
  | _ n ih =>
  subst hn
  obtain ⟨l, t, hl, ht⟩ := h.exists_step hbrief hG hne
  apply Leads.later ((hok s hG l).mpr hl) ht
  intro l t hl ht
  obtain ⟨hG', ⟨live', hne', hforked, hless⟩ | ⟨r, hr, hsole⟩⟩ :=
    h.step hbrief hG ((hok s hG l).mp hl) ht
  · exact ih _ hless hne' hG' hforked rfl
  · exact hnext t r hG' hr hsole

end Join

section Call
variable {P : Program World Pc Ans Choice Entry} {G : World → Prop}
variable {C : Pc → Option (Reply Ans) → Prop} {m : World → Pc → Option (Reply Ans) → ℕ}
variable {base pid : ℕ} {s t : State World Pc Ans} {pc pc' : Pc} {caller : Option ℕ}
variable {ok : State World Pc Ans → Label Choice Entry → Prop} {Q : State World Pc Ans → Prop}

theorem get_spawn_of_le (procs : KeyedList ℕ (Activation Pc Ans)) (caller : ℕ) {next q : ℕ}
    (callees : List Pc) (hq : next ≤ q) : (spawn procs caller next callees).get q =
      match callees[q - next]? with
      | some c => some ⟨c, .waiting, some caller⟩
      | none => procs.get q := by
  induction callees generalizing procs next with
  | nil => rfl
  | cons c cs ih =>
    rw [spawn]
    rcases hq.eq_or_lt with rfl | hlt
    · rw [get_spawn_of_lt _ _ _ (Nat.lt_succ_self _), KeyedList.get_set_self]
      simp
    · rw [ih _ hlt, KeyedList.get_set_of_ne _ _ hlt.ne]
      obtain ⟨k, rfl⟩ := Nat.exists_eq_add_of_lt hlt
      have hk : next + k + 1 - next = k + 1 := by omega
      have hk' : next + k + 1 - (next + 1) = k := by omega
      rw [hk, hk', List.getElem?_cons_succ]

/-- The functions an activation calls are the only ones to move then. -/
theorem Sole.fork {r : Reply Ans} (h : Sole base pid ⟨pc, .ready r, caller⟩ s) (w : World)
    {callees : List Pc} (hC : ∀ c ∈ callees, C c none) :
    Forked C base pid pc' caller (List.range' s.next callees.length)
      ⟨w, spawn (s.procs.set pid ⟨pc', .joining callees.length false, caller⟩) pid s.next callees,
        s.next + callees.length⟩ := by
  constructor
  · refine ⟨false, ?_⟩
    rw [List.length_range']
    change (spawn _ _ _ _).get pid = _
    rw [get_spawn_of_lt _ _ _ h.lt, KeyedList.get_set_self]
  · exact List.nodup_range'
  · intro q hq
    obtain ⟨hle, hlt⟩ := List.mem_range'_1.mp hq
    have hindex : q - s.next < callees.length := by omega
    refine ⟨h.base_le.trans hle, (h.lt.trans_le hle).ne', callees[q - s.next], none, ?_, ?_⟩
    · change (spawn _ _ _ _).get q = _
      rw [get_spawn_of_le _ _ _ hle, List.getElem?_eq_getElem hindex]
      rfl
    · exact hC _ (List.getElem_mem hindex)
  · intro q hbase hne hq
    have hold : (s.procs.set pid ⟨pc', .joining callees.length false, caller⟩).get q = none := by
      rw [KeyedList.get_set_of_ne _ _ (Ne.symm hne)]
      exact h.others q hbase hne
    change (spawn _ _ _ _).get q = none
    rcases Nat.lt_or_ge q s.next with hlt | hge
    · rw [get_spawn_of_lt _ _ _ hlt]
      exact hold
    · have hindex : callees.length ≤ q - s.next := by
        by_contra hless
        exact hq (List.mem_range'_1.mpr ⟨hge, by omega⟩)
      rw [get_spawn_of_le _ _ _ hge, List.getElem?_eq_none hindex]
      exact hold
  · exact h.base_le.trans (Nat.le_add_right _ _)
  · exact h.lt.trans_le (Nat.le_add_right _ _)

/-- The activation calls functions and goes on when they have ended. -/
theorem leads_call (hbrief : Brief P G C m)
    (hok : ∀ s, G s.world → ∀ l, ok s l ↔ MovesOnly pid base s l) {r : Reply Ans} {w : World}
    {callees : List Pc} (h : Sole base pid ⟨pc, .ready r, caller⟩ s) (hG : G s.world)
    (hres : P.resume s.world pc r = (w, .call callees pc')) (hw : G w)
    (hC : ∀ c ∈ callees, C c none)
    (hnext : ∀ t r, G t.world → r = .returned ∨ r = .failed →
      Sole base pid ⟨pc', .ready r, caller⟩ t → Leads (step P) ok Q t) :
    Leads (step P) ok Q s := by
  have hmove := (hok s hG _).mpr (movesOnly_resume pid base s)
  have hstep := h.step_resume (P := P)
  rw [hres] at hstep
  apply Leads.later hmove hstep
  intro l t hl ht
  rcases h.moves ((hok s hG l).mp hl) ht with ⟨c, rfl⟩ | rfl
  · simp only [step, h.own] at ht
    cases ht
  · cases hstep.symm.trans ht
    cases callees with
    | nil => exact hnext _ .returned hw (.inl rfl) (h.set w _)
    | cons c cs =>
      apply leads_join hbrief hok hnext _ hw (h.fork w hC)
      simp

end Call

end EventLoop
