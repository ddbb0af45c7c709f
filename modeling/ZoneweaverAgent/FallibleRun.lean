import Mathlib.Control.Lawful

/-!
# Runs that may stop

A run passes a state on until it returns or stops. A run that stops answers the state it had
reached, so that its caller can undo what it did; `final` is the state either way.
-/

namespace FallibleRun
variable {σ α β : Type}

abbrev Run (σ α : Type) := StateT σ (Except σ) α

def stop : Run σ α := fun s => .error s

def require (cond : Bool) : Run σ Unit := fun s => if cond then .ok ((), s) else .error s

def update (f : σ → σ) : Run σ Unit := fun s => .ok ((), f s)

def final (m : Run σ α) (s : σ) : σ :=
  match m s with
  | .ok (_, t) => t
  | .error t => t

def returned (m : Run σ α) (s : σ) : Option α :=
  match m s with
  | .ok (a, _) => some a
  | .error _ => none

variable (m : Run σ α) (f : α → Run σ β) (s : σ)

theorem run_bind :
    (m >>= f) s = match m s with
      | .ok (a, t) => f a t
      | .error t => .error t := by
  change (Except.bind (m s) fun p => f p.1 p.2) = _
  cases m s <;> rfl

theorem final_bind :
    final (m >>= f) s = match m s with
      | .ok (a, t) => final (f a) t
      | .error t => t := by
  unfold final
  rw [run_bind]
  cases m s <;> rfl

@[simp] theorem final_stop : final (stop : Run σ α) s = s := rfl

@[simp] theorem final_stop_bind : final ((stop : Run σ α) >>= f) s = s := by
  rw [final_bind]
  rfl

@[simp] theorem final_pure (a : α) : final (pure a : Run σ α) s = s := rfl

@[simp] theorem final_require (cond : Bool) : final (require cond) s = s := by
  cases cond <;> rfl

@[simp] theorem final_require_bind (cond : Bool) (f : Unit → Run σ β) :
    final (require cond >>= f) s = if cond then final (f ()) s else s := by
  rw [final_bind]
  cases cond <;> rfl

@[simp] theorem final_update (g : σ → σ) : final (update g) s = g s := rfl

@[simp] theorem final_update_bind (g : σ → σ) (f : Unit → Run σ β) :
    final (update g >>= f) s = final (f ()) (g s) := by
  rw [final_bind]
  rfl

@[simp] theorem final_map (g : α → β) : final (g <$> m) s = final m s := by
  rw [map_eq_pure_bind, final_bind]
  unfold final
  cases m s <;> rfl

theorem final_of_error {t : σ} (h : m s = .error t) : final m s = t := by
  unfold final
  rw [h]

/-- What holds at the end of a run and is kept by its continuation holds at the end of both. -/
theorem final_bind_of {P : σ → Prop} {m : Run σ α} {f : α → Run σ β} {s : σ}
    (hm : P (final m s)) (hf : ∀ a t, P t → P (final (f a) t)) : P (final (m >>= f) s) := by
  rw [final_bind]
  unfold final at hm
  cases hrun : m s with
  | error t => simpa [hrun] using hm
  | ok p =>
    apply hf
    simpa [hrun] using hm

/-- A continuation that keeps the state can be left out. -/
theorem final_bind_of_keeps (h : ∀ a t, final (f a) t = t) : final (m >>= f) s = final m s := by
  rw [final_bind]
  unfold final
  cases m s with
  | error t => rfl
  | ok p => exact h p.1 p.2

section Checks
variable {P Q : Prop}

/-- A run that keeps the state and goes on exactly when `P`. -/
structure Checks (m : Run σ Unit) (P : Prop) : Prop where
  passes : P → ∀ s, m s = .ok ((), s)
  stops : ¬ P → ∀ s, m s = .error s

theorem checks_pure : Checks (pure () : Run σ Unit) True where
  passes _ _ := rfl
  stops h := absurd trivial h

theorem checks_stop : Checks (stop : Run σ Unit) False where
  passes h := h.elim
  stops _ _ := rfl

theorem checks_require (cond : Bool) : Checks (require cond : Run σ Unit) (cond = true) where
  passes h _ := if_pos h
  stops h _ := if_neg h

theorem Checks.bind {m n : Run σ Unit} (hm : Checks m P) (hn : Checks n Q) :
    Checks (m >>= fun _ => n) (P ∧ Q) where
  passes h s := by
    rw [run_bind, hm.passes h.1]
    exact hn.passes h.2 s
  stops h s := by
    rw [run_bind]
    by_cases hp : P
    · rw [hm.passes hp]
      exact hn.stops (fun hq => h ⟨hp, hq⟩) s
    · rw [hm.stops hp]

theorem Checks.congr {m : Run σ Unit} (h : Checks m P) (hiff : P ↔ Q) : Checks m Q where
  passes hq := h.passes (hiff.mpr hq)
  stops hq := h.stops (mt hiff.mp hq)

/-- A check that is left out where `c` holds. -/
theorem Checks.unless {m : Run σ Unit} (c : Prop) [Decidable c] (h : Checks m P) :
    Checks (if c then pure () else m) (¬ c → P) where
  passes hp s := by
    by_cases hc : c
    · rw [if_pos hc]
      rfl
    · rw [if_neg hc]
      exact h.passes (hp hc) s
  stops hp s := by
    have hc : ¬ c := fun hc => hp (absurd hc)
    rw [if_neg hc]
    exact h.stops (fun h => hp fun _ => h) s

/-- A check that is made only where `c` holds. -/
theorem Checks.ifNeeded {m : Run σ Unit} (c : Prop) [Decidable c] (h : Checks m P) :
    Checks (if c then m else pure ()) (c → P) where
  passes hp s := by
    by_cases hc : c
    · rw [if_pos hc]
      exact h.passes (hp hc) s
    · rw [if_neg hc]
      rfl
  stops hp s := by
    have hc : c := Decidable.of_not_not fun hc => hp fun h => absurd h hc
    rw [if_pos hc]
    exact h.stops (fun h => hp fun _ => h) s

end Checks

end FallibleRun
