import ZoneweaverAgent.DatasetTree
import ZoneweaverAgent.ParallelCleanup
import Mathlib.Algebra.GroupWithZero.Nat

/-!
# The order of parallel dataset cleanups

A cleanup is orderly exactly when every dataset at or below an owned one carries a stamp of its own
and, unless some run throws, no two runs are for owned datasets of which one covers the other: with
both past their checks, the destruction of the upper one makes that of the lower one fail.
-/

namespace ZoneweaverAgent.ParallelCleanup
open ZoneDocument PathTree
open DatasetCleanup (isProtected)

section Ownership
variable (host : Host) (t : Tree)

def Owned (d : String) : Prop :=
  isProtected d host.protectedDatasets = some false ∧ t.has d = true ∧
    (readDatasetSource t d).isSome = true ∧ blocked host t d = false

def Careful (datasets : List String) : Prop :=
  (∀ d ∈ datasets, Owned host t d → ∀ q, t.has q = true → Covers d q → OwnStamp t q) ∧
  ((∀ d ∈ datasets, isProtected d host.protectedDatasets ≠ none) →
    datasets.Pairwise fun d e =>
      Owned host t d → Owned host t e → ¬Covers d e ∧ ¬Covers e d)

/-- The runs that fail in every order. -/
def Refused (d : String) : Prop :=
  isProtected d host.protectedDatasets = some false ∧ t.has d = true ∧
    (readDatasetSource t d).isSome = true ∧ blocked host t d = true

instance (d : String) : Decidable (Refused host t d) := inferInstanceAs (Decidable (_ ∧ _))

def expectedError (d : String) : Option String :=
  if Refused host t d then (destroyFailure host d .busy).error? else none

/-- The destroy that a deletion issues for a dataset is carried out or refused. -/
theorem issued_iff {system : DatasetCleanup.Host} (hpresent : ∀ d, system.present d = t.has d)
    (hstamp : ∀ d, system.stamp d = sourceProperty t d) (d : String) :
    DatasetCleanup.processSingleDataset system host.protectedDatasets d = true ↔
      Owned host t d ∨ Refused host t d := by
  have hsource : DatasetCleanup.readDatasetSource system d =
      (sourceProperty t d).filter isSource := by
    rw [DatasetCleanup.readDatasetSource, hstamp]
    congr 1
    funext value
    simp [isSource]
  rw [DatasetCleanup.processSingleDataset, DatasetCleanup.Host.owns, hpresent, hsource, Owned,
    Refused, readDatasetSource]
  by_cases hhas : t.has d = true
  · cases hblocked : blocked host t d <;> simp [hhas]
  · simp [hhas]

end Ownership

section Thinned
variable {host : Host} {t t₀ : Tree} {gone : List String} {d q : String}

theorem Covers.trans {x y z : String} (hxy : Covers x y) (hyz : Covers y z) : Covers x z :=
  AtOrBelow.trans hxy hyz

theorem blocked_iff : blocked host t d = true ↔
    ∃ q, t.has q = true ∧ Covers d q ∧ host.busy q = true := by
  simp only [blocked, List.any_eq_true, Bool.and_eq_true, decide_eq_true_eq,
    KeyedList.has_iff_mem_keys]

theorem destroy_eq_ok {t' : Tree} (h : destroy host t d = .ok t') :
    t.has d = true ∧ blocked host t d = false ∧
      ∀ q, t'.get q = if Covers d q then none else t.get q := by
  unfold destroy at h
  split_ifs at h with hhas hblocked
  cases h
  refine ⟨Bool.not_eq_false _ ▸ hhas, Bool.not_eq_true _ ▸ hblocked, fun q => ?_⟩
  have hget := KeyedList.get_filterKeys t (fun x => decide (¬Covers d x)) q
  by_cases hq : Covers d q
  · simpa [hq] using hget
  · simpa [hq] using hget

theorem destroy_eq_error {e : DestroyError} (h : destroy host t d = .error e) :
    (e = .notFound ∧ t.has d = false) ∨
      (e = .busy ∧ t.has d = true ∧ blocked host t d = true) := by
  unfold destroy at h
  split_ifs at h with hhas hblocked
  · cases h
    exact .inl ⟨rfl, hhas⟩
  · cases h
    exact .inr ⟨rfl, Bool.not_eq_false _ ▸ hhas, hblocked⟩

/-- `t` is what destructions of owned datasets have left of `t₀`. -/
structure Thinned (host : Host) (t₀ t : Tree) (gone : List String) : Prop where
  owned : ∀ e ∈ gone, Owned host t₀ e
  get : ∀ q, t.get q = if ∃ e ∈ gone, Covers e q then none else t₀.get q

theorem Thinned.refl : Thinned host t t [] where
  owned := fun e he => absurd he List.not_mem_nil
  get := fun q => by simp

theorem Thinned.get_eq (h : Thinned host t₀ t gone) (hd : t.has d = true) : t.get d = t₀.get d := by
  rw [KeyedList.has, h.get] at hd
  rw [h.get]
  split_ifs with hgone
  · rw [if_pos hgone] at hd
    cases hd
  · rfl

theorem Thinned.has (h : Thinned host t₀ t gone) (hd : t.has d = true) : t₀.has d = true := by
  rw [KeyedList.has, ← h.get_eq hd]
  exact hd

theorem Thinned.lost (h : Thinned host t₀ t gone) (h₀ : t₀.has d = true) (hd : t.has d = false) :
    ∃ e ∈ gone, Covers e d := by
  by_contra hno
  rw [KeyedList.has, h.get, if_neg hno] at hd
  exact Bool.false_ne_true (hd.symm.trans h₀)

/-- What is left of a tree has everything above it left. -/
theorem Thinned.get_above (h : Thinned host t₀ t gone) (hd : t.has d = true) {a : String}
    (ha : Covers a d) : t.get a = t₀.get a := by
  rw [h.get, if_neg]
  rintro ⟨e, he, hea⟩
  rw [KeyedList.has, h.get, if_pos ⟨e, he, hea.trans ha⟩] at hd
  cases hd

theorem Thinned.source_eq (h : Thinned host t₀ t gone) (hd : t.has d = true) :
    readDatasetSource t d = readDatasetSource t₀ d := by
  rw [readDatasetSource, readDatasetSource, if_pos hd, if_pos (h.has hd), sourceProperty,
    sourceProperty]
  congr 2
  apply List.map_congr_left
  intro a ha
  rw [List.mem_reverse, mem_ancestors] at ha
  rw [h.get_above hd]
  rw [Covers, String.toList_ofList]
  exact ha

theorem not_covers_busy {e : String} (he : Owned host t₀ e) (hq : t₀.has q = true)
    (hbusy : host.busy q = true) : ¬Covers e q := by
  intro hcovers
  have := blocked_iff.mpr ⟨q, hq, hcovers, hbusy⟩
  rw [he.2.2.2] at this
  cases this

theorem Thinned.blocked_eq (h : Thinned host t₀ t gone) :
    blocked host t d = true ↔ blocked host t₀ d = true := by
  rw [blocked_iff, blocked_iff]
  constructor
  · rintro ⟨q, hq, hcovers, hbusy⟩
    exact ⟨q, h.has hq, hcovers, hbusy⟩
  · rintro ⟨q, hq, hcovers, hbusy⟩
    refine ⟨q, ?_, hcovers, hbusy⟩
    rw [KeyedList.has, h.get, if_neg]
    · exact hq
    · rintro ⟨e, he, heq⟩
      exact not_covers_busy (h.owned e he) hq hbusy heq

/-- A run that fails in every order finds its dataset whatever was destroyed before. -/
theorem Thinned.refused (h : Thinned host t₀ t gone) (hd : Refused host t₀ d) :
    t.has d = true := by
  by_contra hlost
  obtain ⟨e, he, hed⟩ := h.lost hd.2.1 (Bool.not_eq_true _ ▸ hlost)
  obtain ⟨q, hq, hdq, hbusy⟩ := blocked_iff.mp hd.2.2.2
  exact not_covers_busy (h.owned e he) hq hbusy (hed.trans hdq)

theorem Thinned.destroy (h : Thinned host t₀ t gone) {t' : Tree}
    (hprot : isProtected d host.protectedDatasets = some false)
    (hsource : (readDatasetSource t₀ d).isSome = true)
    (hd : ParallelCleanup.destroy host t d = .ok t') :
    Owned host t₀ d ∧ Thinned host t₀ t' (d :: gone) := by
  obtain ⟨hhas, hfree, hget⟩ := destroy_eq_ok hd
  have howned : Owned host t₀ d := by
    refine ⟨hprot, h.has hhas, hsource, ?_⟩
    by_contra hblocked
    rw [h.blocked_eq.mpr (Bool.not_eq_false _ ▸ hblocked)] at hfree
    cases hfree
  refine ⟨howned, ⟨?_, fun q => ?_⟩⟩
  · intro e he
    rcases List.mem_cons.mp he with rfl | he
    · exact howned
    · exact h.owned e he
  · rw [hget, h.get]
    by_cases hq : Covers d q
    · rw [if_pos hq, if_pos ⟨d, List.mem_cons_self, hq⟩]
    · rw [if_neg hq]
      simp only [List.mem_cons, exists_eq_or_imp, hq, false_or]

end Thinned

section OneAfterAnother
variable {host : Host} {t t₀ : Tree} {gone : List String} {d : String}

/-- What a run must return whatever happened before. -/
def Expected (host : Host) (t₀ : Tree) (d : String) (result : Option Result) : Prop :=
  (result = none ↔ isProtected d host.protectedDatasets = none) ∧
    result.bind Result.error? = expectedError host t₀ d

theorem expected_of_not_refused {result : Result} (hnot : ¬Refused host t₀ d)
    (hprot : isProtected d host.protectedDatasets ≠ none) (hno : result.error? = none) :
    Expected host t₀ d (some result) := by
  refine ⟨by simp [hprot], ?_⟩
  rw [expectedError, if_neg hnot]
  exact hno

theorem expected_unprotected {result : Option Result}
    (hprot : isProtected d host.protectedDatasets ≠ some false)
    (hnone : result = none ↔ isProtected d host.protectedDatasets = none)
    (hno : result.bind Result.error? = none) : Expected host t₀ d result := by
  refine ⟨hnone, ?_⟩
  rw [hno, expectedError, if_neg fun h => hprot h.1]

theorem expected_absent (h : Thinned host t₀ t gone)
    (hprot : isProtected d host.protectedDatasets = some false) (hhas : t.has d = false) :
    Expected host t₀ d (some .null) := by
  refine expected_of_not_refused (fun hr => ?_) (by rw [hprot]; nofun) rfl
  rw [h.refused hr] at hhas
  cases hhas

theorem expected_unstamped (h : Thinned host t₀ t gone)
    (hprot : isProtected d host.protectedDatasets = some false)
    (hsource : readDatasetSource t d = none) :
    Expected host t₀ d (some (unstampedSkip d)) := by
  refine expected_of_not_refused (fun hr => ?_) (by rw [hprot]; nofun) rfl
  have := hr.2.2.1
  rw [← h.source_eq (h.refused hr), hsource] at this
  cases this

theorem expected_busy (h : Thinned host t₀ t gone)
    (hprot : isProtected d host.protectedDatasets = some false) (hhas : t.has d = true)
    (hsource : (readDatasetSource t₀ d).isSome = true) (hblocked : blocked host t d = true) :
    Expected host t₀ d (some (destroyFailure host d .busy)) := by
  have hr : Refused host t₀ d := ⟨hprot, h.has hhas, hsource, h.blocked_eq.mp hblocked⟩
  refine ⟨by simp [hprot], ?_⟩
  rw [expectedError, if_pos hr]
  rfl

theorem expected_destroyed (howned : Owned host t₀ d) : Expected host t₀ d (some .null) := by
  refine expected_of_not_refused (fun hr => ?_) (by rw [howned.1]; nofun) rfl
  have := hr.2.2.2
  rw [howned.2.2.2] at this
  cases this

/-- A run that nothing interferes with leaves a thinned tree and returns what it must. -/
theorem processSingleDataset_spec (h : Thinned host t₀ t gone) (d : String) :
    Expected host t₀ d (processSingleDataset host t d).1 ∧
      ∃ gone', Thinned host t₀ (processSingleDataset host t d).2 gone' := by
  unfold processSingleDataset
  cases hprot : isProtected d host.protectedDatasets with
  | none => exact ⟨expected_unprotected (by rw [hprot]; nofun) (by simp [hprot]) rfl, gone, h⟩
  | some isProt =>
    cases isProt with
    | true => exact ⟨expected_unprotected (by rw [hprot]; nofun) (by simp [hprot]) rfl, gone, h⟩
    | false =>
      simp only
      split_ifs with hhas
      · exact ⟨expected_absent h hprot hhas, gone, h⟩
      · have hthere : t.has d = true := Bool.not_eq_false _ ▸ hhas
        cases hsource : readDatasetSource t d with
        | none => exact ⟨expected_unstamped h hprot hsource, gone, h⟩
        | some value =>
          have hsome : (readDatasetSource t₀ d).isSome = true := by
            rw [← h.source_eq hthere, hsource]
            rfl
          cases hd : destroy host t d with
          | error e =>
            rcases destroy_eq_error hd with ⟨-, hgone⟩ | ⟨rfl, -, hblocked⟩
            · exact absurd hgone hhas
            · exact ⟨expected_busy h hprot hthere hsome hblocked, gone, h⟩
          | ok t' =>
            obtain ⟨howned, hthinned⟩ := h.destroy hprot hsome hd
            exact ⟨expected_destroyed howned, _, hthinned⟩

theorem oneAfterAnother_spec (datasets : List String) (h : Thinned host t₀ t gone) :
    List.Forall₂ (Expected host t₀) datasets (oneAfterAnother host t datasets) := by
  induction datasets generalizing t gone with
  | nil => exact .nil
  | cons d rest ih =>
    obtain ⟨hd, gone', hrest⟩ := processSingleDataset_spec h d
    exact .cons hd (ih hrest)

theorem throws_of_expected {datasets : List String} {results : List (Option Result)}
    (h : List.Forall₂ (Expected host t₀) datasets results) :
    results.any Option.isNone =
      datasets.any fun d => (isProtected d host.protectedDatasets).isNone := by
  induction h with
  | nil => rfl
  | cons hd _ ih =>
    rw [List.any_cons, List.any_cons, ih]
    congr 1
    rw [Bool.eq_iff_iff, Option.isNone_iff_eq_none, Option.isNone_iff_eq_none, hd.1]

theorem errors_of_expected {datasets : List String} {results : List (Option Result)}
    (h : List.Forall₂ (Expected host t₀) datasets results) :
    results.filterMap (fun result => result.bind Result.error?) =
      datasets.filterMap (expectedError host t₀) := by
  induction h with
  | nil => rfl
  | cons hd _ ih =>
    rw [List.filterMap_cons, List.filterMap_cons, hd.2]
    split
    · exact ih
    · rw [ih]

/-- What is reported once every run returned what it must. -/
theorem reported_of_expected {datasets : List String} {results : List (Option Result)}
    (h : List.Forall₂ (Expected host t₀) datasets results) :
    reported results =
      if datasets.any fun d => (isProtected d host.protectedDatasets).isNone then none
      else some (datasets.filterMap (expectedError host t₀)) := by
  rw [reported, throws_of_expected h, errors_of_expected h]

end OneAfterAnother

section Steps
variable {host : Host} {t₀ : Tree} {names : List String} {s s' : State} {i j : ℕ} {d : String}
variable {ph : Phase}

/-- How many commands a run still waits for, at most. -/
def Phase.rank : Phase → ℕ
  | .listing => 3
  | .reading => 2
  | .destroying => 1
  | .ended _ => 0

theorem step_runs (h : step host s i = some s') :
    ∃ d ph ph', s.runs[i]? = some ⟨d, ph⟩ ∧ ph.result? = none ∧ ph'.rank < ph.rank ∧
      s'.runs = s.runs.set i ⟨d, ph'⟩ := by
  unfold step at h
  split at h
  case h_1 => cases h
  case h_2 d hi =>
    cases h
    refine ⟨d, _, _, hi, rfl, ?_, rfl⟩
    split_ifs <;> decide
  case h_3 d hi =>
    split at h <;> cases h <;> exact ⟨d, _, _, hi, rfl, by simp [Phase.rank], rfl⟩
  case h_4 d hi =>
    split at h <;> cases h <;> exact ⟨d, _, _, hi, rfl, by simp [Phase.rank], rfl⟩
  case h_5 => cases h

theorem step_isSome (hi : s.runs[i]? = some ⟨d, ph⟩) (hph : ph.result? = none) :
    ∃ s', step host s i = some s' := by
  unfold step
  rw [hi]
  cases ph with
  | listing => exact ⟨_, rfl⟩
  | reading =>
    simp only
    split <;> exact ⟨_, rfl⟩
  | destroying =>
    simp only
    split <;> exact ⟨_, rfl⟩
  | ended result => cases hph

theorem ended_stays {result : Option Result} (h : Interleaves host s s')
    (hj : s.runs[j]? = some ⟨d, .ended result⟩) : s'.runs[j]? = some ⟨d, .ended result⟩ := by
  refine h.invariant (I := fun a => a.runs[j]? = some ⟨d, .ended result⟩) hj ?_
  intro a i b ha _ hst
  obtain ⟨d', ph, ph', hi, hph, -, hruns⟩ := step_runs hst
  have hne : i ≠ j := by
    rintro rfl
    rw [ha] at hi
    cases hi
    cases hph
  rw [hruns, List.getElem?_set_ne hne]
  exact ha

theorem sum_set_lt {α : Type*} (f : α → ℕ) {x y : α} {l : List α} (hi : l[i]? = some x)
    (hlt : f y < f x) : ((l.set i y).map f).sum < (l.map f).sum := by
  induction l generalizing i with
  | nil => cases hi
  | cons z rest ih =>
    cases i with
    | zero =>
      cases hi
      simp only [List.set_cons_zero, List.map_cons, List.sum_cons]
      omega
    | succ i =>
      have := ih hi
      simp only [List.set_cons_succ, List.map_cons, List.sum_cons]
      omega

/-- Every run can be brought to its end. -/
theorem completes (host : Host) (s : State) :
    ∃ s', Interleaves host s s' ∧ s'.Completed := by
  induction hn : (s.runs.map fun r => r.phase.rank).sum using Nat.strong_induction_on
    generalizing s with
  | _ n ih =>
    by_cases hdone : s.Completed
    · exact ⟨s, .refl, hdone⟩
    · simp only [State.Completed, not_forall] at hdone
      obtain ⟨⟨d, ph⟩, hmem, hph⟩ := hdone
      obtain ⟨i, hi⟩ := List.mem_iff_getElem?.mp hmem
      obtain ⟨s₁, hs₁⟩ := @step_isSome host _ _ _ _ hi (Option.not_isSome_iff_eq_none.mp hph)
      obtain ⟨d', ph₀, ph', hi', -, hrank, hruns⟩ := step_runs hs₁
      have hlt := sum_set_lt (fun r : Run => r.phase.rank) hi' (y := ⟨d', ph'⟩) hrank
      rw [← hruns, hn] at hlt
      obtain ⟨s', hreach, hs'⟩ := ih _ hlt s₁ rfl
      exact ⟨s', .head trivial hs₁ hreach, hs'⟩

end Steps

section Settled
variable {host : Host} {t₀ : Tree} {names : List String} {s s' : State} {i j : ℕ} {d : String}
variable {ph : Phase}

/-- Another run is for an owned dataset that covers the one of the `i`-th. -/
def Overtaken (host : Host) (t₀ : Tree) (names : List String) (i : ℕ) (d : String) : Prop :=
  Owned host t₀ d ∧ ∃ (j : ℕ) (e : String), j ≠ i ∧ names[j]? = some e ∧ Owned host t₀ e ∧ Covers e d

def Fits (host : Host) (t₀ : Tree) (names : List String) (i : ℕ) (d : String) : Phase → Prop
  | .listing => isProtected d host.protectedDatasets = some false
  | .reading => isProtected d host.protectedDatasets = some false ∧ t₀.has d = true
  | .destroying => isProtected d host.protectedDatasets = some false ∧ t₀.has d = true ∧
      (readDatasetSource t₀ d).isSome = true
  | .ended result => Expected host t₀ d result ∨
      (Overtaken host t₀ names i d ∧ result = some (destroyFailure host d .notFound))

structure Settled (host : Host) (t₀ : Tree) (names : List String) (s : State) : Prop where
  thinned : Thinned host t₀ s.tree s.destroyed
  named : s.runs.map Run.dataset = names
  place : ∀ e ∈ s.destroyed, ∃ j : ℕ, s.runs[j]? = some ⟨e, .ended (some .null)⟩
  fits : ∀ (i : ℕ) d ph, s.runs[i]? = some ⟨d, ph⟩ → Fits host t₀ names i d ph

theorem fits_begin (host : Host) (t₀ : Tree) (names : List String) (i : ℕ) (d : String) :
    Fits host t₀ names i d (begin host d).phase := by
  unfold begin
  cases hprot : isProtected d host.protectedDatasets with
  | none => exact .inl (expected_unprotected (by rw [hprot]; nofun) (by simp [hprot]) rfl)
  | some isProt =>
    cases isProt with
    | true => exact .inl (expected_unprotected (by rw [hprot]; nofun) (by simp [hprot]) rfl)
    | false => exact hprot

theorem dataset_begin (host : Host) (d : String) : (begin host d).dataset = d := by
  unfold begin
  split <;> rfl

theorem settled_start (host : Host) (t₀ : Tree) (datasets : List String) :
    Settled host t₀ (sortedDatasets datasets) (start host t₀ datasets) where
  thinned := .refl
  named := by
    rw [start, List.map_map]
    exact (List.map_congr_left fun d _ => dataset_begin host d).trans (List.map_id _)
  place := fun e he => absurd he List.not_mem_nil
  fits := by
    intro i d ph hi
    rw [start, List.getElem?_map] at hi
    obtain ⟨d', -, hd'⟩ := Option.map_eq_some_iff.mp hi
    have hname : d' = d := by rw [← dataset_begin host d', hd']
    have hphase : (begin host d').phase = ph := by rw [hd']
    rw [← hname, ← hphase]
    exact fits_begin host t₀ _ i d'

theorem map_dataset_set {runs : List Run} {ph' : Phase} (hi : runs[i]? = some ⟨d, ph⟩) :
    (runs.set i ⟨d, ph'⟩).map Run.dataset = runs.map Run.dataset := by
  rw [List.map_set]
  change (runs.map Run.dataset).set i d = _
  have hname : (runs.map Run.dataset)[i]? = some d := by
    rw [List.getElem?_map, hi]
    rfl
  obtain ⟨hlt, hget⟩ := List.getElem?_eq_some_iff.mp hname
  rw [← hget, List.set_getElem_self]

theorem Settled.move (h : Settled host t₀ names s) (hi : s.runs[i]? = some ⟨d, ph⟩)
    (hph : ph.result? = none) {t : Tree} {gone : List String} {ph' : Phase}
    (hthinned : Thinned host t₀ t gone)
    (hgone : ∀ e ∈ gone, e ∈ s.destroyed ∨ (e = d ∧ ph' = .ended (some .null)))
    (hfits : Fits host t₀ names i d ph') :
    Settled host t₀ names (State.put { s with tree := t, destroyed := gone } i ⟨d, ph'⟩) where
  thinned := hthinned
  named := (map_dataset_set hi).trans h.named
  place := by
    intro e he
    rcases hgone e he with hold | ⟨rfl, rfl⟩
    · obtain ⟨j, hj⟩ := h.place e hold
      have hne : i ≠ j := by
        rintro rfl
        rw [hi] at hj
        cases hj
        cases hph
      exact ⟨j, by rw [State.put, List.getElem?_set_ne hne]; exact hj⟩
    · have hlt := (List.getElem?_eq_some_iff.mp hi).1
      exact ⟨i, List.getElem?_set_self hlt⟩
  fits := by
    intro j d' ph'' hj
    simp only [State.put, List.getElem?_set] at hj
    split_ifs at hj with hij hlt
    · cases hj
      exact hij ▸ hfits
    · exact h.fits j d' ph'' hj

theorem Settled.put (h : Settled host t₀ names s) (hi : s.runs[i]? = some ⟨d, ph⟩)
    (hph : ph.result? = none) {ph' : Phase} (hfits : Fits host t₀ names i d ph') :
    Settled host t₀ names (s.put i ⟨d, ph'⟩) :=
  h.move hi hph h.thinned (fun _ he => .inl he) hfits

/-- A run past its checks whose dataset is gone was overtaken. -/
theorem Settled.overtaken (h : Settled host t₀ names s) (hi : s.runs[i]? = some ⟨d, .destroying⟩)
    (hd : s.tree.has d = false) : Overtaken host t₀ names i d := by
  obtain ⟨hprot, hhas, hsource⟩ := h.fits i d _ hi
  obtain ⟨e, he, hed⟩ := h.thinned.lost hhas hd
  obtain ⟨j, hj⟩ := h.place e he
  have howned := h.thinned.owned e he
  refine ⟨⟨hprot, hhas, hsource, ?_⟩, j, e, ?_, ?_, howned, hed⟩
  · by_contra hblocked
    rw [Bool.not_eq_false, blocked_iff] at hblocked
    obtain ⟨q, hq, hdq, hbusy⟩ := hblocked
    exact not_covers_busy howned hq hbusy (hed.trans hdq)
  · rintro rfl
    rw [hi] at hj
    cases hj
  · rw [← h.named, List.getElem?_map, hj]
    rfl

theorem Settled.step (h : Settled host t₀ names s) (hs : step host s i = some s') :
    Settled host t₀ names s' := by
  unfold ParallelCleanup.step at hs
  split at hs
  case h_1 => cases hs
  case h_2 d hi =>
    cases hs
    have hprot : isProtected d host.protectedDatasets = some false := h.fits i d _ hi
    apply h.put hi rfl
    split_ifs with hhas
    · exact ⟨hprot, h.thinned.has hhas⟩
    · exact .inl (expected_absent h.thinned hprot (Bool.not_eq_true _ ▸ hhas))
  case h_3 d hi =>
    obtain ⟨hprot, hhas⟩ := h.fits i d _ hi
    cases hsource : readDatasetSource s.tree d with
    | none =>
      rw [hsource] at hs
      cases hs
      exact h.put hi rfl (.inl (expected_unstamped h.thinned hprot hsource))
    | some value =>
      rw [hsource] at hs
      cases hs
      refine h.put hi rfl ⟨hprot, hhas, ?_⟩
      have hthere : s.tree.has d = true := by
        by_contra hno
        rw [readDatasetSource, if_neg hno] at hsource
        cases hsource
      rw [← h.thinned.source_eq hthere, hsource]
      rfl
  case h_4 d hi =>
    obtain ⟨hprot, hhas, hsource⟩ := h.fits i d _ hi
    cases hd : destroy host s.tree d with
    | error e =>
      rw [hd] at hs
      cases hs
      apply h.put hi rfl
      rcases destroy_eq_error hd with ⟨rfl, hgone⟩ | ⟨rfl, hthere, hblocked⟩
      · exact .inr ⟨h.overtaken hi hgone, rfl⟩
      · exact .inl (expected_busy h.thinned hprot hthere hsource hblocked)
    | ok t =>
      rw [hd] at hs
      cases hs
      obtain ⟨howned, hthinned⟩ := h.thinned.destroy hprot hsource hd
      refine h.move hi rfl hthinned ?_ (Or.inl (expected_destroyed howned))
      intro e he
      rcases List.mem_cons.mp he with rfl | he
      · exact .inr ⟨rfl, rfl⟩
      · exact .inl he
  case h_5 => cases hs

theorem settled_of_interleaves {datasets : List String}
    (h : Interleaves host (start host t₀ datasets) s) :
    Settled host t₀ (sortedDatasets datasets) s :=
  h.invariant (settled_start host t₀ datasets) fun _ _ _ ha _ hst => ha.step hst

end Settled

theorem perm_sorted (datasets : List String) : (sortedDatasets datasets).Perm datasets :=
  List.perm_insertionSort _ datasets

section Reached
variable {host : Host} {t₀ : Tree} {datasets : List String} {s : State} {i j : ℕ}
variable {d up low : String}

theorem start_listing (hi : (sortedDatasets datasets)[i]? = some d) (howned : Owned host t₀ d) :
    (start host t₀ datasets).runs[i]? = some ⟨d, .listing⟩ := by
  rw [start, List.getElem?_map, hi, Option.map_some, begin, howned.1]

theorem put_put (s : State) (i : ℕ) (r r' : Run) : (s.put i r).put i r' = s.put i r' := by
  rw [State.put, State.put, State.put, List.set_set]

theorem getElem?_put {r r' : Run} (hi : s.runs[i]? = some r) : (s.put i r').runs[i]? = some r' :=
  List.getElem?_set_self (List.getElem?_eq_some_iff.mp hi).1

/-- A run passes its checks with nothing between them. -/
theorem passes (hi : s.runs[i]? = some ⟨d, .listing⟩) (hhas : s.tree.has d = true)
    (hsource : (readDatasetSource s.tree d).isSome = true) :
    Interleaves host s (s.put i ⟨d, .destroying⟩) := by
  have hlisting : step host s i = some (s.put i ⟨d, .reading⟩) := by
    simp only [step, hi, hhas, if_true]
  have hreading : step host (s.put i ⟨d, .reading⟩) i = some (s.put i ⟨d, .destroying⟩) := by
    obtain ⟨value, hvalue⟩ := Option.isSome_iff_exists.mp hsource
    have htree : (s.put i ⟨d, .reading⟩).tree = s.tree := rfl
    simp only [step, getElem?_put hi, htree, hvalue, put_put]
  exact .head trivial hlisting (.head trivial hreading .refl)

theorem destroys (hi : s.runs[i]? = some ⟨d, .destroying⟩) (hhas : s.tree.has d = true)
    (hfree : blocked host s.tree d = false) :
    ∃ s', step host s i = some s' ∧ s'.runs = s.runs.set i ⟨d, .ended (some .null)⟩ ∧
      ∀ q, Covers d q → s'.tree.has q = false := by
  have hok : destroy host s.tree d = .ok (s.tree.filter fun e => decide (¬Covers d e.1)) := by
    rw [destroy, if_neg (by rw [hhas]; nofun), if_neg (by rw [hfree]; nofun)]
  refine ⟨_, by simp only [step, hi, hok]; rfl, rfl, fun q hq => ?_⟩
  rw [KeyedList.has]
  change (KeyedList.get _ q).isSome = false
  rw [State.put, (destroy_eq_ok hok).2.2, if_pos hq]
  rfl

/-- Whatever lies at or below an owned dataset may disappear. -/
theorem exists_removed (hd : d ∈ datasets) (howned : Owned host t₀ d) :
    ∃ s, Interleaves host (start host t₀ datasets) s ∧
      ∀ q, Covers d q → s.tree.has q = false := by
  have hsorted : d ∈ sortedDatasets datasets :=
    (perm_sorted datasets).mem_iff.mpr hd
  obtain ⟨i, hi⟩ := List.mem_iff_getElem?.mp hsorted
  have hstart := start_listing hi howned
  have hpass := @passes host _ _ _ hstart howned.2.1 howned.2.2.1
  obtain ⟨s, hs, -, hgone⟩ := destroys (getElem?_put hstart) howned.2.1 howned.2.2.2
  exact ⟨s, hpass.tail trivial hs, hgone⟩

/-- With both runs past their checks the upper destruction makes the lower one fail. -/
theorem exists_overtaken (hij : i ≠ j) (hi : (sortedDatasets datasets)[i]? = some up)
    (hj : (sortedDatasets datasets)[j]? = some low) (hup : Owned host t₀ up)
    (hlow : Owned host t₀ low) (hcovers : Covers up low) :
    ∃ s, Interleaves host (start host t₀ datasets) s ∧
      s.runs[j]? = some ⟨low, .ended (some (destroyFailure host low .notFound))⟩ := by
  have hstart := start_listing hj hlow
  have hpassLow := @passes host _ _ _ hstart hlow.2.1 hlow.2.2.1
  have hlisting : ((start host t₀ datasets).put j ⟨low, .destroying⟩).runs[i]? =
      some ⟨up, .listing⟩ := by
    rw [State.put, List.getElem?_set_ne hij.symm]
    exact start_listing hi hup
  have hpassUp := @passes host _ _ _ hlisting hup.2.1 hup.2.2.1
  obtain ⟨s, hs, hruns, hgone⟩ := destroys (getElem?_put hlisting) hup.2.1 hup.2.2.2
  have hwaits : s.runs[j]? = some ⟨low, .destroying⟩ := by
    rw [hruns, List.getElem?_set_ne hij, State.put, List.getElem?_set_ne hij]
    exact getElem?_put hstart
  have hfails : step host s j =
      some (s.put j ⟨low, .ended (some (destroyFailure host low .notFound))⟩) := by
    simp only [step, hwaits, destroy, hgone low hcovers, if_true]
  exact ⟨_, ((hpassLow.trans hpassUp).tail trivial hs).tail trivial hfails, getElem?_put hwaits⟩

end Reached

section Order
variable {host : Host} {t₀ : Tree} {datasets names : List String} {s : State} {i j : ℕ}
variable {d up low : String}

theorem countP_lt {α : Type*} {p q : α → Bool} {l : List α} {x : α}
    (hle : ∀ y ∈ l, p y = true → q y = true) (hx : x ∈ l) (hq : q x = true) (hp : p x = false) :
    l.countP p < l.countP q := by
  induction l with
  | nil => cases hx
  | cons y rest ih =>
    have hrest := List.countP_mono_left fun z hz => hle z (List.mem_cons_of_mem y hz)
    rcases List.mem_cons.mp hx with rfl | hx
    · rw [List.countP_cons_of_neg (by rw [hp]; nofun), List.countP_cons_of_pos hq]
      omega
    · have hlt := ih (fun z hz => hle z (List.mem_cons_of_mem y hz)) hx
      rw [List.countP_cons, List.countP_cons]
      have hy := hle y List.mem_cons_self
      split_ifs with h h' <;> first | omega | exact absurd (hy h) h'

theorem Expected.error_isSome {result : Option Result} (h : Expected host t₀ d result)
    (hsome : (expectedError host t₀ d).isSome = true) :
    (result.bind Result.error?).isSome = true := by
  rw [h.2]
  exact hsome

/-- Every completed run that had an overtaken run reports more than the sequential one. -/
theorem reported_ne (hs : Settled host t₀ names s) (hcompleted : s.Completed)
    (hj : s.runs[j]? = some ⟨d, .ended (some (destroyFailure host d .notFound))⟩)
    (howned : Owned host t₀ d) :
    s.results.filterMap (fun result => result.bind Result.error?) ≠
      names.filterMap (expectedError host t₀) := by
  intro heq
  have hlength := congrArg List.length heq
  rw [State.results, List.filterMap_filterMap, List.length_filterMap_eq_countP,
    List.length_filterMap_eq_countP, ← hs.named, List.countP_map] at hlength
  refine absurd hlength (Nat.ne_of_gt ?_)
  apply countP_lt _ (List.mem_of_getElem? hj)
  · rfl
  · have hnot : ¬Refused host t₀ d := by
      intro hr
      have := hr.2.2.2
      rw [howned.2.2.2] at this
      cases this
    rw [Function.comp_apply, expectedError, if_neg hnot]
    rfl
  · rintro ⟨e, ph⟩ hr hsome
    obtain ⟨result, hresult⟩ := Option.isSome_iff_exists.mp (hcompleted _ hr)
    obtain ⟨k, hk⟩ := List.mem_iff_getElem?.mp hr
    have hfits := hs.fits k e ph hk
    cases ph with
    | listing => cases hresult
    | reading => cases hresult
    | destroying => cases hresult
    | ended result =>
      rcases hfits with hexp | ⟨-, rfl⟩
      · exact hexp.error_isSome hsome
      · rfl

theorem Orderly.not_covers (h : Orderly host t₀ datasets)
    (hno : ∀ d ∈ datasets, isProtected d host.protectedDatasets ≠ none) (hij : i ≠ j)
    (hi : (sortedDatasets datasets)[i]? = some up) (hj : (sortedDatasets datasets)[j]? = some low)
    (hup : Owned host t₀ up) (hlow : Owned host t₀ low) : ¬Covers up low := by
  intro hcovers
  obtain ⟨s, hs, hfailed⟩ := exists_overtaken hij hi hj hup hlow hcovers
  obtain ⟨s', hs', hcompleted⟩ := completes host s
  have hreach := hs.trans hs'
  have hsame := (h s' hreach).2 hcompleted
  have hany : (sortedDatasets datasets).any
      (fun d => (isProtected d host.protectedDatasets).isNone) = false := by
    rw [List.any_eq_false]
    intro e he
    rw [Option.isNone_iff_eq_none]
    exact hno e ((perm_sorted datasets).mem_iff.mp he)
  rw [reported_of_expected (oneAfterAnother_spec _ .refl), hany, if_neg Bool.false_ne_true,
    reported] at hsame
  split_ifs at hsame
  exact reported_ne (settled_of_interleaves hreach) hcompleted (ended_stays hs' hfailed) hlow
    (Option.some.inj hsame)

theorem Orderly.careful (h : Orderly host t₀ datasets) : Careful host t₀ datasets := by
  constructor
  · intro d hd howned q hq hcovers
    obtain ⟨s, hs, hgone⟩ := exists_removed hd howned
    exact (h s hs).1 q hq (hgone q hcovers)
  · intro hno
    have hsymm : ∀ {d e}, (Owned host t₀ d → Owned host t₀ e → ¬Covers d e ∧ ¬Covers e d) →
        Owned host t₀ e → Owned host t₀ d → ¬Covers e d ∧ ¬Covers d e :=
      fun hde he hd => (hde hd he).symm
    apply (List.Perm.pairwise_iff hsymm (perm_sorted datasets)).mp
    rw [List.pairwise_iff_getElem]
    intro i j hi hj hlt hup hlow
    have hgeti := List.getElem?_eq_getElem hi
    have hgetj := List.getElem?_eq_getElem hj
    exact ⟨h.not_covers hno hlt.ne hgeti hgetj hup hlow,
      h.not_covers hno hlt.ne' hgetj hgeti hlow hup⟩

/-- With no two owned datasets covering one another, no run is overtaken. -/
theorem not_overtaken (hpair : (sortedDatasets datasets).Pairwise fun d e =>
      Owned host t₀ d → Owned host t₀ e → ¬Covers d e ∧ ¬Covers e d)
    (hi : (sortedDatasets datasets)[i]? = some d) :
    ¬Overtaken host t₀ (sortedDatasets datasets) i d := by
  rintro ⟨howned, j, e, hne, hj, he, hcovers⟩
  obtain ⟨hilt, rfl⟩ := List.getElem?_eq_some_iff.mp hi
  obtain ⟨hjlt, rfl⟩ := List.getElem?_eq_some_iff.mp hj
  rw [List.pairwise_iff_getElem] at hpair
  rcases Nat.lt_or_gt_of_ne hne with hlt | hlt
  · exact (hpair j i hjlt hilt hlt he howned).1 hcovers
  · exact (hpair i j hilt hjlt hlt howned he).2 hcovers

theorem forall₂_results {runs : List Run}
    (h : ∀ r ∈ runs, ∃ result, r.phase = .ended result ∧ Expected host t₀ r.dataset result) :
    List.Forall₂ (Expected host t₀) (runs.map Run.dataset)
      (runs.filterMap fun r => r.phase.result?) := by
  induction runs with
  | nil => exact .nil
  | cons r rest ih =>
    obtain ⟨result, hphase, hexp⟩ := h r List.mem_cons_self
    have hresult : r.phase.result? = some result := by rw [hphase, Phase.result?]
    rw [List.map_cons, @List.filterMap_cons_some _ _ (fun r => r.phase.result?) r rest _ hresult]
    exact .cons hexp (ih fun r' hr' => h r' (List.mem_cons_of_mem r hr'))

theorem Settled.ended (hs : Settled host t₀ names s) (hcompleted : s.Completed)
    (hi : names[i]? = some d) :
    ∃ result, s.runs[i]? = some ⟨d, .ended result⟩ ∧
      (Expected host t₀ d result ∨ Overtaken host t₀ names i d) := by
  rw [← hs.named, List.getElem?_map] at hi
  obtain ⟨⟨d', ph⟩, hget, rfl⟩ := Option.map_eq_some_iff.mp hi
  have hdone := hcompleted _ (List.mem_of_getElem? hget)
  cases ph with
  | listing => cases hdone
  | reading => cases hdone
  | destroying => cases hdone
  | ended result => exact ⟨result, hget, (hs.fits i d' _ hget).imp id And.left⟩

end Order

/-- A cleanup is orderly exactly when what it may destroy is stamped throughout and no destruction
can meet another one. -/
theorem cleanup_orderly (host : Host) (t : Tree) (datasets : List String) :
    Orderly host t datasets ↔ Careful host t datasets := by
  constructor
  · exact Orderly.careful
  · rintro ⟨hstamped, hpair⟩ s hreach
    have hs := settled_of_interleaves hreach
    have hperm := perm_sorted datasets
    constructor
    · intro q hq hlost
      obtain ⟨e, he, hcovers⟩ := hs.thinned.lost hq hlost
      obtain ⟨j, hj⟩ := hs.place e he
      have hmem : e ∈ sortedDatasets datasets := by
        rw [← hs.named]
        exact List.mem_map_of_mem (List.mem_of_getElem? hj)
      exact hstamped e (hperm.mem_iff.mp hmem) (hs.thinned.owned e he) q hq hcovers
    · intro hcompleted
      rw [reported_of_expected (oneAfterAnother_spec _ .refl)]
      by_cases hno : ∀ d ∈ datasets, isProtected d host.protectedDatasets ≠ none
      · have hsorted := (List.Perm.pairwise_iff (fun hde he hd => (hde hd he).symm) hperm).mpr
          (hpair hno)
        have hall := @forall₂_results host t s.runs ?_
        · rw [hs.named] at hall
          exact reported_of_expected hall
        · rintro ⟨d, ph⟩ hr
          obtain ⟨i, hi⟩ := List.mem_iff_getElem?.mp hr
          have hname : (sortedDatasets datasets)[i]? = some d := by
            rw [← hs.named, List.getElem?_map, hi]
            rfl
          obtain ⟨result, hget, hexp⟩ := hs.ended hcompleted hname
          rw [hi] at hget
          cases hget
          exact ⟨result, rfl, hexp.resolve_right (not_overtaken hsorted hname)⟩
      · simp only [not_forall, not_not] at hno
        obtain ⟨d, hd, hthrows⟩ := hno
        have hmem := hperm.mem_iff.mpr hd
        have hany : (sortedDatasets datasets).any
            (fun d => (isProtected d host.protectedDatasets).isNone) = true :=
          List.any_eq_true.mpr ⟨d, hmem, by rw [hthrows]; rfl⟩
        rw [if_pos hany, reported, if_pos]
        obtain ⟨i, hi⟩ := List.mem_iff_getElem?.mp hmem
        obtain ⟨result, hget, hexp | ⟨howned, -⟩⟩ := hs.ended hcompleted hi
        · rw [List.any_eq_true]
          refine ⟨result, ?_, by rw [hexp.1.mpr hthrows]; rfl⟩
          exact List.mem_filterMap.mpr ⟨_, List.mem_of_getElem? hget, rfl⟩
        · have := howned.1
          rw [hthrows] at this
          cases this

def quietHost : Host := ⟨[], fun _ => false, fun _ _ => "dataset does not exist"⟩

/-- A stamped root dataset with one more dataset below it. -/
def webTree (stamp : Option String) : Tree :=
  [("rpool/zones/web", some "zone"), ("rpool/zones/web/data", stamp)]

/-- An unstamped dataset goes with the stamped one above it; of two stamped ones past their checks
the lower is reported as failed once the upper is destroyed. -/
theorem cleanup_orderly_fails :
    ¬Orderly quietHost (webTree none) ["rpool/zones/web"] ∧
      ¬Orderly quietHost (webTree (some "blank")) ["rpool/zones/web", "rpool/zones/web/data"] := by
  constructor
  · intro h
    obtain ⟨s, hs, hgone⟩ := Transition.exists_reaches_of_run (step quietHost) (fun _ _ => True)
      (start quietHost (webTree none) ["rpool/zones/web"]) [0, 0, 0]
      (P := fun s => s.tree.has "rpool/zones/web/data" = false) (by decide +kernel)
    have hstamp := (h s hs).1 "rpool/zones/web/data" (by decide +kernel) hgone
    exact absurd hstamp (by decide +kernel)
  · intro h
    obtain ⟨s, hs, hdone, hmore⟩ :=
      Transition.exists_reaches_of_run (step quietHost) (fun _ _ => True)
      (start quietHost (webTree (some "blank")) ["rpool/zones/web", "rpool/zones/web/data"])
      [1, 1, 0, 0, 0, 1]
      (P := fun s => (∀ r ∈ s.runs, r.phase.result?.isSome = true) ∧
        (reported s.results).map List.length = some 1) (by decide +kernel)
    rw [(h s hs).2 hdone] at hmore
    exact absurd hmore (by decide +kernel)

end ZoneweaverAgent.ParallelCleanup
