import Mathlib.Data.List.Basic

/-!
# Runs of a labelled transition function

`Reaches` collects the states that a run leads to when every step of the run meets a side condition;
the invariant rule turns a fact about one step into a fact about every state of every such run.
`run` follows a list of labels as long as the condition is met. `Leads` says that every such run
comes to a state in the end, whichever steps it takes.
-/

namespace Transition
variable {σ ℓ : Type*}

/-- The states that runs from `s` lead to, when every step `t —l→ _` of the run meets `ok t l`. -/
inductive Reaches (step : σ → ℓ → Option σ) (ok : σ → ℓ → Prop) (s : σ) : σ → Prop
  | refl : Reaches step ok s s
  | tail {t u : σ} {l : ℓ} : Reaches step ok s t → ok t l → step t l = some u →
      Reaches step ok s u

variable {step : σ → ℓ → Option σ} {ok ok' : σ → ℓ → Prop} {s t u : σ}

theorem Reaches.invariant {I : σ → Prop} (h : Reaches step ok s t) (hs : I s)
    (hstep : ∀ a l b, I a → ok a l → step a l = some b → I b) : I t := by
  induction h with
  | refl => exact hs
  | tail _ hok hst ih => exact hstep _ _ _ ih hok hst

theorem Reaches.mono (h : Reaches step ok s t) (hok : ∀ a l, ok a l → ok' a l) :
    Reaches step ok' s t := by
  induction h with
  | refl => exact .refl
  | tail _ ho hst ih => exact .tail ih (hok _ _ ho) hst

/-- What holds of every state of the run may be added to the side condition of its steps. -/
theorem Reaches.strengthen {I : σ → Prop} (h : Reaches step ok s t)
    (hI : ∀ a, Reaches step ok s a → I a) : Reaches step (fun a l => ok a l ∧ I a) s t := by
  induction h with
  | refl => exact .refl
  | tail hr ho hst ih => exact .tail ih ⟨ho, hI _ hr⟩ hst

theorem Reaches.trans (h : Reaches step ok s t) (h' : Reaches step ok t u) :
    Reaches step ok s u := by
  induction h' with
  | refl => exact h
  | tail _ ho hst ih => exact .tail ih ho hst

/-- Every state of a run lies between its ends. -/
theorem Reaches.between (h : Reaches step ok s t) :
    Reaches step (fun a l => ok a l ∧ Reaches step ok s a ∧ Reaches step ok a t) s t := by
  induction h with
  | refl => exact .refl
  | tail hr ho hst ih =>
    refine .tail (ih.mono ?_) ⟨ho, hr, .tail .refl ho hst⟩ hst
    rintro a l ⟨hok, hsa, hat⟩
    exact ⟨hok, hsa, hat.tail ho hst⟩

theorem Reaches.head {l : ℓ} (hok : ok s l) (hst : step s l = some t) (h : Reaches step ok t u) :
    Reaches step ok s u :=
  (Reaches.tail .refl hok hst).trans h

section Run
variable (step ok) [∀ s l, Decidable (ok s l)]

def run : σ → List ℓ → Option σ
  | s, [] => some s
  | s, l :: ls => if ok s l then (step s l).bind fun t => run t ls else none

variable {step ok}

theorem reaches_of_run {ls : List ℓ} (h : run step ok s ls = some t) : Reaches step ok s t := by
  induction ls generalizing s with
  | nil =>
    cases h
    exact .refl
  | cons l ls ih =>
    simp only [run] at h
    split_ifs at h with hok
    obtain ⟨r, hr, hrun⟩ := Option.bind_eq_some_iff.mp h
    exact .head hok hr (ih hrun)

variable (step ok) in
/-- What a decision procedure computes about the end of a run. -/
theorem exists_reaches_of_run (s : σ) (ls : List ℓ) {P : σ → Prop}
    (h : ∃ t ∈ run step ok s ls, P t) : ∃ t, Reaches step ok s t ∧ P t := by
  obtain ⟨t, ht, hP⟩ := h
  exact ⟨t, reaches_of_run ht, hP⟩

end Run

section Leads

/-- Every run from `s` whose steps meet `ok` comes to a state of `Q`: it does not stop before, and
it cannot go on for ever. -/
inductive Leads (step : σ → ℓ → Option σ) (ok : σ → ℓ → Prop) (Q : σ → Prop) : σ → Prop
  | now {s : σ} : Q s → Leads step ok Q s
  | later {s t : σ} {l : ℓ} : ok s l → step s l = some t →
      (∀ l t, ok s l → step s l = some t → Leads step ok Q t) → Leads step ok Q s

variable {A I Q : σ → Prop}

theorem Leads.bind (h : Leads step ok A s) (hA : ∀ t, A t → Leads step ok Q t) :
    Leads step ok Q s := by
  induction h with
  | now ha => exact hA _ ha
  | later hok hst _ ih => exact .later hok hst ih

/-- What holds of every state before `A` may be left out of the side condition. -/
theorem Leads.weaken (h : Leads step (fun a l => ok a l ∧ I a) A s) : Leads step ok A s := by
  induction h with
  | now ha => exact .now ha
  | later hok hst _ ih => exact .later hok.1 hst fun l t hl ht => ih l t ⟨hl, hok.2⟩ ht

/-- Runs that lead to `A` without having met `Q`, and lead to `Q`, pass a state of `A`. -/
theorem Leads.meets (hA : Leads step (fun a l => ok a l ∧ I a) A s) (hI : ∀ a, I a → ¬ Q a)
    (hQ : Leads step ok Q s) : ∃ t, A t ∧ Leads step ok Q t := by
  induction hA with
  | now ha => exact ⟨_, ha, hQ⟩
  | later hok hst _ ih =>
    cases hQ with
    | now hq => exact absurd hq (hI _ hok.2)
    | later _ _ hall => exact ih _ _ hok hst (hall _ _ hok.1 hst)

/-- Where `Q` does not hold yet, the runs behind every step lead to it. -/
theorem Leads.next (h : Leads step ok Q s) (hQ : ¬ Q s) {l : ℓ} (hok : ok s l)
    (hst : step s l = some t) : Leads step ok Q t := by
  cases h with
  | now hq => exact absurd hq hQ
  | later _ _ hall => exact hall _ _ hok hst

theorem not_leads_of_stuck (hQ : ¬ Q s) (h : ∀ l, ok s l → step s l = none) :
    ¬ Leads step ok Q s := by
  intro hleads
  cases hleads with
  | now hq => exact hQ hq
  | later hok hst _ =>
    rw [h _ hok] at hst
    cases hst

end Leads

end Transition
