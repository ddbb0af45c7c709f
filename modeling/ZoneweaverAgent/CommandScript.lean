import ZoneweaverAgent.CommandProgram

/-!
# Scripts that throw

A script is a program with local variables that may throw; the variables keep what was assigned
before the throw. `Wp` is its weakest precondition, with one postcondition for a return and one for
a throw, and there is a rule for each construct.
-/

namespace CommandScript

open CommandProgram

abbrev Script (Cmd Reply ε L : Type) := ExceptT ε (StateT L (Program Cmd Reply))

section Scripts
variable {Cmd Reply ε L α β : Type}

def perform (c : Cmd) : Script Cmd Reply ε L Reply :=
  fun l => (Program.command c).bind fun reply => .done (.ok reply, l)

def run (script : Script Cmd Reply ε L α) (l : L) : Program Cmd Reply (Except ε α × L) := script l

theorem run_bind (script : Script Cmd Reply ε L α) (f : α → Script Cmd Reply ε L β) (l : L) :
    run (script >>= f) l = (run script l).bind fun r =>
      match r.1 with
      | .ok a => run (f a) r.2
      | .error e => .done (.error e, r.2) := by
  change Program.bind (script l) _ = Program.bind (script l) _
  congr 1
  funext r
  obtain ⟨a | e, l'⟩ := r <;> rfl

theorem run_tryCatch (script : Script Cmd Reply ε L α) (handler : ε → Script Cmd Reply ε L α)
    (l : L) :
    run (tryCatch script handler) l = (run script l).bind fun r =>
      match r.1 with
      | .ok a => .done (.ok a, r.2)
      | .error e => run (handler e) r.2 := by
  change Program.bind (script l) _ = Program.bind (script l) _
  congr 1
  funext r
  obtain ⟨a | e, l'⟩ := r <;> rfl

end Scripts

section Wp
variable {World Cmd Reply Choice Event ε L α β : Type} (S : System World Cmd Reply Choice Event)
  (ok : World → Cmd → Choice → Prop) (I : World → Prop)

/-- The postcondition that a script meets by its return or by its throw. -/
def Ends (Q : α → L → World → Prop) (E : ε → L → World → Prop) (r : Except ε α × L) (w : World) :
    Prop :=
  match r.1 with
  | .ok a => Q a r.2 w
  | .error e => E e r.2 w

def Wp (Q : α → L → World → Prop) (E : ε → L → World → Prop) (script : Script Cmd Reply ε L α)
    (l : L) (w : World) : Prop :=
  Safe S ok I (Ends Q E) (run script l) w

variable {S ok I} {P : World → Prop} {Q Q' : α → L → World → Prop} {E E' : ε → L → World → Prop}
  {R : β → L → World → Prop} {script : Script Cmd Reply ε L α} {l : L} {w : World}

/-- The postcondition of a program holds after any further drift. -/
theorem safe_settled {Q : α → World → Prop} {p : Program Cmd Reply α} (h : Safe S ok I Q p w) :
    Safe S ok I (fun a w => Safe S ok I Q (.done a : Program Cmd Reply α) w) p w := by
  induction p generalizing w with
  | done a => exact fun w' hd => ⟨(h w' hd).1, Safe.drift h hd⟩
  | call c next ih =>
    exact fun w' hd => ⟨(h w' hd).1, fun choice reply w'' hok hstep =>
      ih reply ((h w' hd).2 choice reply w'' hok hstep)⟩

theorem Wp.bind {f : α → Script Cmd Reply ε L β}
    (h : Wp S ok I (fun a l w => Wp S ok I R E (f a) l w) E script l w) :
    Wp S ok I R E (script >>= f) l w := by
  unfold Wp
  rw [run_bind]
  apply Safe.bind
  refine (safe_settled h).mono ?_
  rintro ⟨e | a, l'⟩ w hsettled
  · exact hsettled
  · exact (hsettled w .refl).2

theorem Wp.tryCatch {handler : ε → Script Cmd Reply ε L α}
    (h : Wp S ok I Q (fun e l w => Wp S ok I Q E (handler e) l w) script l w) :
    Wp S ok I Q E (tryCatch script handler) l w := by
  unfold Wp
  rw [run_tryCatch]
  apply Safe.bind
  refine (safe_settled h).mono ?_
  rintro ⟨e | a, l'⟩ w hsettled
  · exact (hsettled w .refl).2
  · exact hsettled

theorem Wp.mono (h : Wp S ok I Q E script l w) (hQ : ∀ a l w, Q a l w → Q' a l w)
    (hE : ∀ e l w, E e l w → E' e l w) : Wp S ok I Q' E' script l w := by
  refine Safe.mono h ?_
  rintro ⟨e | a, l'⟩ w hends
  · exact hE e l' w hends
  · exact hQ a l' w hends

theorem Wp.pure {a : α} (hstable : Stable S P) (hP : P w) (h : ∀ w, P w → I w ∧ Q a l w) :
    Wp S ok I Q E (pure a) l w :=
  Safe.done _ hstable hP h

theorem Wp.throw {e : ε} (hstable : Stable S P) (hP : P w) (h : ∀ w, P w → I w ∧ E e l w) :
    Wp S ok I Q E (throw e) l w :=
  Safe.done _ hstable hP h

theorem Wp.modify {Q : PUnit → L → World → Prop} {f : L → L} (hstable : Stable S P) (hP : P w)
    (h : ∀ w, P w → I w ∧ Q ⟨⟩ (f l) w) : Wp S ok I Q E (modify f) l w :=
  Safe.done _ hstable hP h

theorem Wp.get {Q : L → L → World → Prop} (hstable : Stable S P) (hP : P w)
    (h : ∀ w, P w → I w ∧ Q l l w) : Wp S ok I Q E (get) l w :=
  Safe.done _ hstable hP h

/-- The rule for one command: what holds before it, and what holds behind each of its outcomes. -/
theorem Wp.perform {c : Cmd} {Q : Reply → L → World → Prop} {T : Reply → World → Prop}
    (hstable : Stable S P) (hP : P w) (hI : ∀ w, P w → I w)
    (h : ∀ w choice reply w', P w → ok w c choice → S.execute w c choice = some (reply, w') →
      T reply w')
    (hstable' : ∀ reply, Stable S (T reply)) (hQ : ∀ reply w, T reply w → I w ∧ Q reply l w) :
    Wp S ok I Q E (perform c) l w := by
  apply Safe.call hstable hP hI
  intro w choice reply w' hPw hok hstep
  exact Safe.done _ (hstable' reply) (h w choice reply w' hPw hok hstep) (hQ reply)

/-- A script keeps what each of its commands keeps. -/
theorem Wp.keep (hstable : Stable S P) (hI : ∀ w, P w → I w)
    (hkeep : ∀ w c choice reply w', P w → ok w c choice → S.execute w c choice = some (reply, w') →
      P w') (hP : P w) : Wp S ok I (fun _ _ => P) (fun _ _ => P) script l w := by
  have hcalls : ∀ p : Program Cmd Reply (Except ε α × L), p.Calls fun _ => True := by
    intro p
    induction p with
    | done r => exact trivial
    | call c next ih => exact ⟨trivial, ih⟩
  refine (Safe.keep hstable hI (fun w c choice reply w' _ hP => hkeep w c choice reply w' hP)
    (hcalls _) hP).mono ?_
  rintro ⟨e | a, l'⟩ w hP
  · exact hP
  · exact hP

end Wp

section History
variable {World Cmd Reply Choice Event ε L α β τ : Type} (S : System World Cmd Reply Choice Event)
  (view : World → τ)

/-- What no event changes, such as a history of the commands. -/
def Steady : Prop := ∀ w e w', S.happen w e = some w' → view w' = view w

/-- From a world that looks like `t`, the script keeps what it looks like `Ok`, and ends as `Q` and
`E` say of that. -/
def Over (Ok : τ → Prop) (Q : α → L → τ → Prop) (E : ε → L → τ → Prop)
    (script : Script Cmd Reply ε L α) (l : L) (t : τ) : Prop :=
  ∀ w, view w = t → Wp S (fun _ _ _ => True) (fun w => Ok (view w)) (fun a l w => Q a l (view w))
    (fun e l w => E e l (view w)) script l w

variable {S view} {Ok : τ → Prop} {Q Q' : α → L → τ → Prop} {R : β → L → τ → Prop}
  {E E' : ε → L → τ → Prop} {script : Script Cmd Reply ε L α} {l : L} {t : τ}

theorem Steady.stable (h : Steady S view) (P : τ → Prop) : Stable S fun w => P (view w) := by
  intro w e w' hP hstep
  rwa [h w e w' hstep]

theorem Over.bind {f : α → Script Cmd Reply ε L β}
    (h : Over S view Ok (fun a l t => Over S view Ok R E (f a) l t) E script l t) :
    Over S view Ok R E (script >>= f) l t := by
  intro w hw
  apply Wp.bind
  exact (h w hw).mono (fun a l w h => h w rfl) fun _ _ _ h => h

theorem Over.tryCatch {handler : ε → Script Cmd Reply ε L α}
    (h : Over S view Ok Q (fun e l t => Over S view Ok Q E (handler e) l t) script l t) :
    Over S view Ok Q E (tryCatch script handler) l t := by
  intro w hw
  apply Wp.tryCatch
  exact (h w hw).mono (fun _ _ _ h => h) fun e l w h => h w rfl

theorem Over.mono (h : Over S view Ok Q E script l t) (hQ : ∀ a l t, Q a l t → Q' a l t)
    (hE : ∀ e l t, E e l t → E' e l t) : Over S view Ok Q' E' script l t :=
  fun w hw => (h w hw).mono (fun a l w => hQ a l (view w)) fun e l w => hE e l (view w)

theorem Over.pure {a : α} (hview : Steady S view) (hOk : Ok t) (h : Q a l t) :
    Over S view Ok Q E (pure a) l t := by
  intro w hw
  exact Wp.pure (hview.stable (· = t)) hw fun w hw => ⟨hw ▸ hOk, hw ▸ h⟩

theorem Over.throw {e : ε} (hview : Steady S view) (hOk : Ok t) (h : E e l t) :
    Over S view Ok Q E (throw e) l t := by
  intro w hw
  exact Wp.throw (hview.stable (· = t)) hw fun w hw => ⟨hw ▸ hOk, hw ▸ h⟩

theorem Over.modify {Q : PUnit → L → τ → Prop} {f : L → L} (hview : Steady S view) (hOk : Ok t)
    (h : Q ⟨⟩ (f l) t) : Over S view Ok Q E (modify f) l t := by
  intro w hw
  exact Wp.modify (hview.stable (· = t)) hw fun w hw => ⟨hw ▸ hOk, hw ▸ h⟩

theorem Over.get {Q : L → L → τ → Prop} (hview : Steady S view) (hOk : Ok t) (h : Q l l t) :
    Over S view Ok Q E (get) l t := by
  intro w hw
  exact Wp.get (hview.stable (· = t)) hw fun w hw => ⟨hw ▸ hOk, hw ▸ h⟩

/-- The rule for one command, with what each of its outcomes looks like. -/
theorem Over.command {c : Cmd} {Q : Reply → L → τ → Prop} {T : Reply → τ → Prop}
    (hview : Steady S view) (hOk : Ok t)
    (h : ∀ w choice reply w', view w = t → S.execute w c choice = some (reply, w') →
      T reply (view w'))
    (hQ : ∀ reply t, T reply t → Ok t ∧ Q reply l t) :
    Over S view Ok Q E (perform c) l t := by
  intro w hw
  exact Wp.perform (hview.stable (· = t)) hw (fun w hw => hw ▸ hOk)
    (fun w choice reply w' hw _ hstep => h w choice reply w' hw hstep)
    (fun reply => hview.stable (T reply)) fun reply w => hQ reply (view w)

end History

end CommandScript
