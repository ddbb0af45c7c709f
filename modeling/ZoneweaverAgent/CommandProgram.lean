import Mathlib.Logic.Relation
import ZoneweaverAgent.Transition

/-!
# Programs of external commands

A program awaits commands one after another; what a command does and answers is a choice of the
world, and between two commands the world may drift by events of its own. `Safe` is the weakest
precondition of a program under a condition on the commands: an invariant holds at every moment and
the program ends in a postcondition. `safe_reaches` is the rule for runs of many programs, one at a
time.
-/

namespace CommandProgram

inductive Program (Cmd Reply α : Type)
  | done (a : α)
  | call (c : Cmd) (next : Reply → Program Cmd Reply α)

namespace Program
variable {Cmd Reply α β : Type}

def bind : Program Cmd Reply α → (α → Program Cmd Reply β) → Program Cmd Reply β
  | done a, f => f a
  | call c next, f => call c fun reply => (next reply).bind f

instance : Monad (Program Cmd Reply) where
  pure := done
  bind := bind

def command (c : Cmd) : Program Cmd Reply Reply := call c done

@[simp] theorem pure_eq (a : α) : (pure a : Program Cmd Reply α) = done a := rfl

@[simp] theorem bind_eq (p : Program Cmd Reply α) (f : α → Program Cmd Reply β) :
    p >>= f = p.bind f := rfl

@[simp] theorem done_bind (a : α) (f : α → Program Cmd Reply β) : (done a).bind f = f a := rfl

@[simp] theorem call_bind (c : Cmd) (next : Reply → Program Cmd Reply α)
    (f : α → Program Cmd Reply β) :
    (call c next).bind f = call c fun reply => (next reply).bind f := rfl

@[simp] theorem command_bind (c : Cmd) (f : Reply → Program Cmd Reply β) :
    (command c).bind f = call c f := rfl

/-- Every command the program can await is one of `A`. -/
def Calls (A : Cmd → Prop) : Program Cmd Reply α → Prop
  | done _ => True
  | call c next => A c ∧ ∀ reply, Calls A (next reply)

variable {A : Cmd → Prop}

theorem Calls.bind {p : Program Cmd Reply α} {f : α → Program Cmd Reply β} (hp : Calls A p)
    (hf : ∀ a, Calls A (f a)) : Calls A (p.bind f) := by
  induction p with
  | done a => exact hf a
  | call c next ih => exact ⟨hp.1, fun reply => ih reply (hp.2 reply)⟩

@[simp] theorem calls_done (a : α) : (done a : Program Cmd Reply α).Calls A := trivial

@[simp] theorem calls_call (c : Cmd) (next : Reply → Program Cmd Reply α) :
    (call c next).Calls A ↔ A c ∧ ∀ reply, (next reply).Calls A := Iff.rfl

@[simp] theorem calls_ite (b : Prop) [Decidable b] (p q : Program Cmd Reply α) :
    (if b then p else q).Calls A ↔ (b → p.Calls A) ∧ (¬b → q.Calls A) := by
  by_cases hb : b <;> simp [hb]

@[simp] theorem ite_bind (b : Prop) [Decidable b] (p q : Program Cmd Reply α)
    (f : α → Program Cmd Reply β) :
    (if b then p else q).bind f = if b then p.bind f else q.bind f := by
  by_cases hb : b <;> simp [hb]

end Program

structure System (World Cmd Reply Choice Event : Type) where
  execute : World → Cmd → Choice → Option (Reply × World)
  happen : World → Event → Option World

section Safe
variable {World Cmd Reply Choice Event α β : Type} (S : System World Cmd Reply Choice Event)

def Drifts : World → World → Prop :=
  Relation.ReflTransGen fun w w' => ∃ e, S.happen w e = some w'

def Stable (P : World → Prop) : Prop := ∀ w e w', P w → S.happen w e = some w' → P w'

variable (ok : World → Cmd → Choice → Prop) (I : World → Prop)

/-- As long as its commands meet `ok`, the program keeps `I` and ends with `Q`. -/
def Safe (Q : α → World → Prop) : Program Cmd Reply α → World → Prop
  | .done a, w => ∀ w', Drifts S w w' → I w' ∧ Q a w'
  | .call c next, w => ∀ w', Drifts S w w' → I w' ∧ ∀ choice reply w'', ok w' c choice →
      S.execute w' c choice = some (reply, w'') → Safe Q (next reply) w''

variable {S ok I} {P : World → Prop} {Q Q' : α → World → Prop} {w w' : World}

theorem Stable.drifts (h : Stable S P) (hP : P w) (hd : Drifts S w w') : P w' := by
  induction hd with
  | refl => exact hP
  | tail _ hstep ih =>
    obtain ⟨e, he⟩ := hstep
    exact h _ e _ ih he

theorem Safe.done (a : α) (hstable : Stable S P) (hP : P w) (h : ∀ w, P w → I w ∧ Q a w) :
    Safe S ok I Q (.done a) w :=
  fun _ hd => h _ (hstable.drifts hP hd)

/-- The rule for one command: what holds before it, and what each of its outcomes leaves to do. -/
theorem Safe.call {c : Cmd} {next : Reply → Program Cmd Reply α} (hstable : Stable S P) (hP : P w)
    (hI : ∀ w, P w → I w)
    (h : ∀ w choice reply w', P w → ok w c choice → S.execute w c choice = some (reply, w') →
      Safe S ok I Q (next reply) w') :
    Safe S ok I Q (.call c next) w := by
  intro w₁ hd
  have hP₁ := hstable.drifts hP hd
  exact ⟨hI _ hP₁, fun choice reply w₂ hok hstep => h _ choice reply w₂ hP₁ hok hstep⟩

theorem Safe.command {c : Cmd} {f : Reply → Program Cmd Reply α} (hstable : Stable S P) (hP : P w)
    (hI : ∀ w, P w → I w)
    (h : ∀ w choice reply w', P w → ok w c choice → S.execute w c choice = some (reply, w') →
      Safe S ok I Q (f reply) w') :
    Safe S ok I Q (Program.command c >>= f) w :=
  Safe.call hstable hP hI h

theorem Safe.mono {p : Program Cmd Reply α} (h : Safe S ok I Q p w)
    (hQ : ∀ a w, Q a w → Q' a w) : Safe S ok I Q' p w := by
  induction p generalizing w with
  | done a => exact fun w' hd => ⟨(h w' hd).1, hQ a w' (h w' hd).2⟩
  | call c next ih =>
    exact fun w' hd => ⟨(h w' hd).1, fun choice reply w'' hok hstep =>
      ih reply ((h w' hd).2 choice reply w'' hok hstep)⟩

theorem Safe.drift {p : Program Cmd Reply α} (h : Safe S ok I Q p w) (hd : Drifts S w w') :
    Safe S ok I Q p w' := by
  cases p with
  | done a => exact fun w'' hd' => h w'' (hd.trans hd')
  | call c next => exact fun w'' hd' => h w'' (hd.trans hd')

theorem Safe.invariant {p : Program Cmd Reply α} (h : Safe S ok I Q p w) : I w := by
  cases p with
  | done a => exact (h w .refl).1
  | call c next => exact (h w .refl).1

/-- A program keeps what each of its commands keeps. -/
theorem Safe.keep {A : Cmd → Prop} {p : Program Cmd Reply α} (hstable : Stable S P)
    (hI : ∀ w, P w → I w)
    (hkeep : ∀ w c choice reply w', A c → P w → ok w c choice →
      S.execute w c choice = some (reply, w') → P w')
    (hcalls : p.Calls A) (hP : P w) : Safe S ok I (fun _ => P) p w := by
  induction p generalizing w with
  | done a => exact Safe.done a hstable hP fun w hP => ⟨hI w hP, hP⟩
  | call c next ih =>
    apply Safe.call hstable hP hI
    intro w choice reply w' hP hok hstep
    exact ih reply (hcalls.2 reply) (hkeep w c choice reply w' hcalls.1 hP hok hstep)

theorem Safe.bind {p : Program Cmd Reply α} {f : α → Program Cmd Reply β}
    {R : β → World → Prop} (h : Safe S ok I (fun a => Safe S ok I R (f a)) p w) :
    Safe S ok I R (p.bind f) w := by
  induction p generalizing w with
  | done a => exact (h w .refl).2
  | call c next ih =>
    exact fun w' hd => ⟨(h w' hd).1, fun choice reply w'' hok hstep =>
      ih reply ((h w' hd).2 choice reply w'' hok hstep)⟩

end Safe

/-! ## Runs -/

section Runs
variable {World Cmd Reply Choice Event Op α : Type} (S : System World Cmd Reply Choice Event)
  (program : Op → Program Cmd Reply α)

structure State (World Cmd Reply Op α : Type) where
  world : World
  current : Option (Op × Program Cmd Reply α)

inductive Label (Choice Event Op : Type)
  | start (op : Op)
  | command (choice : Choice)
  | finish
  | event (e : Event)

def step (s : State World Cmd Reply Op α) :
    Label Choice Event Op → Option (State World Cmd Reply Op α)
  | .start op =>
    match s.current with
    | none => some { s with current := some (op, program op) }
    | some _ => none
  | .command choice =>
    match s.current with
    | some (op, .call c next) =>
      (S.execute s.world c choice).map fun r => ⟨r.2, some (op, next r.1)⟩
    | _ => none
  | .finish =>
    match s.current with
    | some (_, .done _) => some { s with current := none }
    | _ => none
  | .event e => (S.happen s.world e).map fun w => { s with world := w }

/-- A condition on the programs that start and on the outcomes of their commands. -/
structure Condition (World Cmd Choice Op : Type) where
  start : World → Op → Prop
  command : Op → World → Cmd → Choice → Prop

def Condition.Meets (C : Condition World Cmd Choice Op) (s : State World Cmd Reply Op α) :
    Label Choice Event Op → Prop
  | .start op => C.start s.world op
  | .command choice => ∀ op c next, s.current = some (op, .call c next) →
      C.command op s.world c choice
  | _ => True

def idle (w : World) : State World Cmd Reply Op α := ⟨w, none⟩

/-- What each program keeps from one start to the next end holds in every run of them. -/
theorem safe_reaches {C : Condition World Cmd Choice Op} {I J : World → Prop} {w : World}
    {s : State World Cmd Reply Op α} (hstable : Stable S J) (hJ : ∀ w, J w → I w)
    (hprogram : ∀ op w, J w → C.start w op →
      Safe S (C.command op) I (fun _ => J) (program op) w)
    (hw : J w) (h : Transition.Reaches (step S program) C.Meets (idle w) s) : I s.world := by
  let K : State World Cmd Reply Op α → Prop := fun s =>
    match s.current with
    | none => J s.world
    | some (op, p) => Safe S (C.command op) I (fun _ => J) p s.world
  have hK : K s := by
    refine h.invariant hw fun a l b hKa hmeets hstep => ?_
    obtain ⟨world, current⟩ := a
    cases l with
    | start op =>
      cases current with
      | none =>
        cases hstep
        exact hprogram op world hKa hmeets
      | some cur => cases hstep
    | command choice =>
      cases current with
      | none => cases hstep
      | some cur =>
        obtain ⟨op, p⟩ := cur
        cases p with
        | done a => cases hstep
        | call c next =>
          obtain ⟨⟨reply, w'⟩, hexecute, rfl⟩ := Option.map_eq_some_iff.mp hstep
          exact (hKa world .refl).2 choice reply w' (hmeets op c next rfl) hexecute
    | finish =>
      cases current with
      | none => cases hstep
      | some cur =>
        obtain ⟨op, p⟩ := cur
        cases p with
        | done a =>
          cases hstep
          exact (hKa world .refl).2
        | call c next => cases hstep
    | event e =>
      obtain ⟨w', hhappen, rfl⟩ := Option.map_eq_some_iff.mp hstep
      cases current with
      | none => exact hstable _ e _ hKa hhappen
      | some cur =>
        have hd : Drifts S world w' := .single ⟨e, hhappen⟩
        exact Safe.drift hKa hd
  obtain ⟨world, current⟩ := s
  cases current with
  | none => exact hJ _ hK
  | some cur => exact Safe.invariant hK

end Runs

end CommandProgram
