import ZoneweaverAgent.ZloginRecipe

/-!
# What a run of a recipe types and logs

Of the world only the texts that the run has typed matter here, so the rules are those of `Wp` for
conditions on these texts. A run is cut off at some step: what it typed before are the texts of the
steps behind one another, and of that step an initial piece.
-/

namespace ZoneweaverAgent.ZloginRecipe

open CommandProgram CommandScript
open ZloginTemplate (resolveVars echoWrites heredocWrites)

section Prescription
variable (vars : Words → Option Words)

/-- The texts that a step types where it is carried out; the time in a marker is that of the
clock. -/
def Types : Step → List Zlogin.Text → Prop
  | .send value, texts => texts = [utf16 (resolveVars vars value)]
  | .command step, texts =>
    if step.checkExitCode = some false then texts = [utf16 (resolveVars vars step.value) ++ crlf]
    else ∃ t, texts = [checkedCommand (resolveVars vars step.value) t]
  | .template step _ _, texts => ∃ t,
    texts = match ZloginTemplate.stepTemplate vars true t step with
      | .ok lines => lines.map utf16
      | .error _ => []
  | _, texts => texts = []

theorem exists_types (step : Step) : ∃ texts, Types vars step texts := by
  cases step with
  | send value => exact ⟨_, rfl⟩
  | command step =>
    by_cases hcheck : step.checkExitCode = some false
    · exact ⟨_, by rw [Types, if_pos hcheck]⟩
    · exact ⟨_, by rw [Types, if_neg hcheck]; exact ⟨0, rfl⟩⟩
  | template step expectPrompt timeout => exact ⟨_, 0, rfl⟩
  | wait pattern timeout => exact ⟨[], rfl⟩
  | delay seconds => exact ⟨[], rfl⟩
  | other type => exact ⟨[], rfl⟩

/-- What a step has typed when it is cut off. -/
def Partly (step : Step) (texts : List Zlogin.Text) : Prop :=
  ∃ all, Types vars step all ∧ texts <+: all

theorem partly_nil (step : Step) : Partly vars step [] :=
  (exists_types vars step).imp fun _ h => ⟨h, List.nil_prefix⟩

variable {vars}

theorem Types.partly {step : Step} {texts : List Zlogin.Text} (h : Types vars step texts) :
    Partly vars step texts :=
  ⟨texts, h, List.prefix_rfl⟩

end Prescription

section Typing
variable {zoneName : String} {Ok : List Zlogin.Text → Prop} {α : Type}

/-- What a script does to the texts that were typed. -/
abbrev Typing (zoneName : String) (Ok : List Zlogin.Text → Prop)
    (Q : α → Locals → List Zlogin.Text → Prop) (E : Words → Locals → List Zlogin.Text → Prop)
    (script : Script α) (l : Locals) (t : List Zlogin.Text) : Prop :=
  Over (console zoneName) World.typed Ok Q E script l t

variable {Q : α → Locals → List Zlogin.Text → Prop} {E : Words → Locals → List Zlogin.Text → Prop}
  {l : Locals} {t : List Zlogin.Text}

theorem steady_typed : Steady (console zoneName) World.typed := by
  rintro w (e | _) w' h
  · obtain ⟨pty, -, rfl⟩ := Option.map_eq_some_iff.mp h
    rfl
  · cases h
    rfl

/-- A command that types nothing and throws nothing. -/
def Command.quiet : Command → Bool
  | .write _ | .getOrCreate _ _ => false
  | _ => true

theorem call_quiet {c : Command} {choice : Choice} {reply : Reply} {w w' : World}
    (hc : c.quiet = true) (h : call zoneName w c choice = some (reply, w')) :
    w'.typed = w.typed ∧ ∀ e, reply ≠ .thrown e := by
  cases choice with
  | spawned pid => cases c <;> first | cases h | cases hc
  | failed error => cases c <;> first | cases h | cases hc
  | plain =>
    cases c with
    | write data => cases hc
    | getOrCreate cols rows => cases hc
    | poll n needle deadline =>
      obtain ⟨matched, -, heq⟩ := Option.map_eq_some_iff.mp h
      cases heq
      exact ⟨rfl, by rintro e ⟨⟩⟩
    | test needle =>
      cases h
      refine ⟨rfl, fun e => ?_⟩
      unfold test
      split
      · rintro ⟨⟩
      · split_ifs <;> rintro ⟨⟩
    | _ =>
      cases h
      exact ⟨rfl, by rintro e ⟨⟩⟩

theorem call_getOrCreate {cols rows : ℕ} {choice : Choice} {reply : Reply} {w w' : World}
    (h : call zoneName w (.getOrCreate cols rows) choice = some (reply, w')) :
    w'.typed = w.typed := by
  cases choice <;>
  · simp only [call, getOrCreate] at h
    split_ifs at h
    obtain ⟨pty, -, heq⟩ := Option.map_eq_some_iff.mp h
    cases heq
    rfl

theorem call_write {data : Zlogin.Text} {choice : Choice} {reply : Reply} {w w' : World}
    (h : call zoneName w (.write data) choice = some (reply, w')) :
    (w'.typed = w.typed ++ [data] ∧ reply = .nothing) ∨
      (w'.typed = w.typed ∧ ∃ e, reply = .thrown e) := by
  cases choice with
  | plain =>
    simp only [call, write] at h
    split_ifs at h
    · cases h
      exact .inr ⟨rfl, _, rfl⟩
    · cases h
      exact .inr ⟨rfl, _, rfl⟩
    · cases h
      exact .inl ⟨rfl, rfl⟩
  | spawned pid => cases h
  | failed error =>
    simp only [call, write] at h
    split_ifs at h
    cases h
    exact .inr ⟨rfl, _, rfl⟩

theorem typing_quiet {c : Command} {Q : Reply → Locals → List Zlogin.Text → Prop}
    (hc : c.quiet = true) (hOk : Ok t) (h : ∀ reply, (∀ e, reply ≠ .thrown e) → Q reply l t) :
    Typing zoneName Ok Q E (perform c) l t := by
  refine Over.command steady_typed hOk (T := fun reply t' => t' = t ∧ ∀ e, reply ≠ .thrown e) ?_ ?_
  · intro w choice reply w' hw hstep
    obtain ⟨htyped, hreply⟩ := call_quiet hc hstep
    exact ⟨htyped.trans hw, hreply⟩
  · rintro reply t ⟨rfl, hreply⟩
    exact ⟨hOk, h reply hreply⟩

end Typing

section Calls
variable {zoneName : String} {Ok : List Zlogin.Text → Prop}
  {E : Words → Locals → List Zlogin.Text → Prop} {l : Locals} {t : List Zlogin.Text}

theorem typing_isDestroyed {Q : Bool → Locals → List Zlogin.Text → Prop} (hOk : Ok t)
    (h : ∀ b, Q b l t) : Typing zoneName Ok Q E isDestroyed l t := by
  refine Over.bind (typing_quiet rfl hOk fun reply _ => ?_)
  cases reply <;> exact Over.pure steady_typed hOk (h _)

theorem typing_now {Q : ℕ → Locals → List Zlogin.Text → Prop} (hOk : Ok t)
    (h : ∀ n, Q n l t) : Typing zoneName Ok Q E now l t := by
  refine Over.bind (typing_quiet rfl hOk fun reply _ => ?_)
  cases reply <;> exact Over.pure steady_typed hOk (h _)

theorem typing_alive {Q : Bool → Locals → List Zlogin.Text → Prop} (hOk : Ok t)
    (h : ∀ b, Q b l t) : Typing zoneName Ok Q E alive l t := by
  refine Over.bind (typing_quiet rfl hOk fun reply _ => ?_)
  cases reply <;> exact Over.pure steady_typed hOk (h _)

theorem typing_strippedBuffer {Q : Zlogin.Text → Locals → List Zlogin.Text → Prop} (hOk : Ok t)
    (h : ∀ buffer, Q buffer l t) : Typing zoneName Ok Q E strippedBuffer l t := by
  refine Over.bind (typing_quiet rfl hOk fun reply _ => ?_)
  cases reply <;> exact Over.pure steady_typed hOk (h _)

theorem typing_waitForDelay {Q : Unit → Locals → List Zlogin.Text → Prop} {ms : ℚ} (hOk : Ok t)
    (h : Q () l t) : Typing zoneName Ok Q E (waitForDelay ms) l t :=
  Over.bind (typing_quiet rfl hOk fun _ _ => Over.pure steady_typed hOk h)

theorem typing_waitForPattern {Q : Bool → Locals → List Zlogin.Text → Prop} {needle : Needle}
    {timeout globalDeadline : ℚ} (hOk : Ok t) (h : ∀ b, Q b l t) :
    Typing zoneName Ok Q E (waitForPattern needle timeout globalDeadline) l t := by
  refine Over.bind (typing_quiet rfl hOk fun reply _ => ?_)
  cases reply with
  | pending n =>
    refine Over.bind (typing_now hOk fun start => ?_)
    refine Over.bind (typing_quiet rfl hOk fun reply _ => ?_)
    cases reply <;> exact Over.pure steady_typed hOk (h _)
  | _ => exact Over.pure steady_typed hOk (h _)

theorem typing_effect {Q : Unit → Locals → List Zlogin.Text → Prop} {c : Command}
    (hc : c.quiet = true) (hOk : Ok t) (h : Q () l t) :
    Typing zoneName Ok Q E (effect c) l t := by
  refine Over.bind (typing_quiet hc hOk fun reply hreply => ?_)
  cases reply with
  | thrown e => exact absurd rfl (hreply e)
  | _ => exact Over.pure steady_typed hOk h

theorem typing_getOrCreate {Q : Unit → Locals → List Zlogin.Text → Prop} {cols rows : ℕ}
    (hOk : Ok t) (h : Q () l t) (hE : ∀ e, E e l t) :
    Typing zoneName Ok Q E (effect (.getOrCreate cols rows)) l t := by
  refine Over.bind (Over.command steady_typed hOk (T := fun _ t' => t' = t) ?_ ?_)
  · intro w choice reply w' hw hstep
    exact (call_getOrCreate hstep).trans hw
  · rintro reply _ rfl
    refine ⟨hOk, ?_⟩
    cases reply with
    | thrown e => exact Over.throw steady_typed hOk (hE e)
    | _ => exact Over.pure steady_typed hOk h

theorem typing_write {Q : Unit → Locals → List Zlogin.Text → Prop} {data : Zlogin.Text}
    (hOk : Ok t) (hOk' : Ok (t ++ [data])) (h : Q () l (t ++ [data])) (hE : ∀ e, E e l t) :
    Typing zoneName Ok Q E (effect (.write data)) l t := by
  refine Over.bind (Over.command steady_typed hOk (T := fun reply t' =>
    (t' = t ++ [data] ∧ reply = .nothing) ∨ (t' = t ∧ ∃ e, reply = .thrown e)) ?_ ?_)
  · intro w choice reply w' hw hstep
    rw [← hw]
    exact call_write hstep
  · rintro reply _ (⟨rfl, rfl⟩ | ⟨rfl, e, rfl⟩)
    · exact ⟨hOk', Over.pure steady_typed hOk' h⟩
    · exact ⟨hOk, Over.throw steady_typed hOk (hE e)⟩

end Calls

section Steps
variable {zoneName : String} {Ok : List Zlogin.Text → Prop} {vars : Words → Option Words}
  {engine : Engine} {shown : ℚ → Words} {globalDeadline : ℚ} {l : Locals} {t : List Zlogin.Text}

/-- The step has returned this result from texts `t`. -/
def Returned (vars : Words → Option Words) (step : Step) (l : Locals) (t : List Zlogin.Text)
    (r : StepResult) (l' : Locals) (t' : List Zlogin.Text) : Prop :=
  l' = l ∧ ∃ texts, t' = t ++ texts ∧ Partly vars step texts ∧
    (r.success = true → Types vars step texts)

/-- The step has thrown from texts `t`. -/
def Thrown (vars : Words → Option Words) (step : Step) (l : Locals) (t : List Zlogin.Text)
    (_ : Words) (l' : Locals) (t' : List Zlogin.Text) : Prop :=
  l' = l ∧ ∃ texts, t' = t ++ texts ∧ Partly vars step texts

/-- The texts of the run may go on with those of the step. -/
def Allows (Ok : List Zlogin.Text → Prop) (vars : Words → Option Words) (step : Step)
    (t : List Zlogin.Text) : Prop :=
  ∀ texts, Partly vars step texts → Ok (t ++ texts)

variable {step : Step}

theorem Allows.start (h : Allows Ok vars step t) : Ok t := by
  simpa using h [] (partly_nil vars step)

theorem returned_start {r : StepResult} (h : r.success = true → Types vars step []) :
    Returned vars step l t r l t :=
  ⟨rfl, [], (List.append_nil t).symm, partly_nil vars step, h⟩

theorem returned_types {r : StepResult} {texts : List Zlogin.Text} (h : Types vars step texts) :
    Returned vars step l t r l (t ++ texts) :=
  ⟨rfl, texts, rfl, h.partly, fun _ => h⟩

theorem thrown_start {e : Words} : Thrown vars step l t e l t :=
  ⟨rfl, [], (List.append_nil t).symm, partly_nil vars step⟩

theorem typing_stepWait {pattern : Words} {timeout : Option ℚ}
    (h : Allows Ok vars (.wait pattern timeout) t) :
    Typing zoneName Ok (Returned vars (.wait pattern timeout) l t)
      (Thrown vars (.wait pattern timeout) l t)
      (stepWait engine vars globalDeadline pattern timeout) l t := by
  refine Over.bind (Over.bind (typing_now h.start fun n => Over.pure steady_typed h.start ?_))
  refine Over.bind (typing_waitForPattern h.start fun b => ?_)
  cases b <;> exact Over.pure steady_typed h.start (returned_start fun _ => rfl)

theorem typing_stepSend {value : Words} (h : Allows Ok vars (.send value) t) :
    Typing zoneName Ok (Returned vars (.send value) l t) (Thrown vars (.send value) l t)
      (stepSend vars value) l t := by
  have htypes : Types vars (.send value) [utf16 (resolveVars vars value)] := rfl
  refine Over.bind (typing_alive h.start fun b => ?_)
  cases b with
  | false => exact Over.pure steady_typed h.start (returned_start (by rintro ⟨⟩))
  | true =>
    refine Over.bind (typing_write h.start (h _ htypes.partly) ?_ fun e => thrown_start)
    exact Over.pure steady_typed (h _ htypes.partly) (returned_types htypes)

theorem typing_stepCommand {step : CommandStep} (h : Allows Ok vars (.command step) t) :
    Typing zoneName Ok (Returned vars (.command step) l t) (Thrown vars (.command step) l t)
      (stepCommand engine vars globalDeadline step) l t := by
  refine Over.bind (typing_alive h.start fun b => ?_)
  cases b with
  | false => exact Over.pure steady_typed h.start (returned_start (by rintro ⟨⟩))
  | true =>
    refine Over.bind (Over.bind (typing_now h.start fun n => Over.pure steady_typed h.start ?_))
    refine Over.bind (typing_effect rfl h.start ?_)
    split_ifs with hcheck
    · have htypes : Types vars (.command step) [utf16 (resolveVars vars step.value) ++ crlf] := by
        rw [Types, if_pos hcheck]
      have hOk := h _ htypes.partly
      refine Over.bind (typing_write h.start hOk ?_ fun e => thrown_start)
      refine Over.bind (typing_waitForPattern hOk fun b => ?_)
      cases b <;> exact Over.pure steady_typed hOk (returned_types htypes)
    · refine Over.bind (typing_now h.start fun n => ?_)
      have htypes : Types vars (.command step)
          [checkedCommand (resolveVars vars step.value) n] := by
        rw [Types, if_neg hcheck]
        exact ⟨n, rfl⟩
      have hOk := h _ htypes.partly
      refine Over.bind (typing_write h.start hOk ?_ fun e => thrown_start)
      refine Over.bind (typing_waitForPattern hOk fun b => ?_)
      cases b with
      | false => exact Over.pure steady_typed hOk (returned_types htypes)
      | true =>
        refine Over.bind (typing_strippedBuffer hOk fun buffer => ?_)
        change Typing _ _ _ _ (if exitCode? (utf16 (marker n)) buffer ≠ some 0 then _ else _) _ _
        split_ifs
        · exact Over.pure steady_typed hOk (returned_types htypes)
        · refine Over.bind (typing_waitForPattern hOk fun b => ?_)
          exact Over.pure steady_typed hOk (returned_types htypes)

theorem typing_writeEach {pause : Option ℚ} {lines : List Words}
    (h : ∀ texts, texts <+: lines.map utf16 → Ok (t ++ texts)) :
    Typing zoneName Ok (fun _ l' t' => l' = l ∧ t' = t ++ lines.map utf16)
      (fun _ l' t' => l' = l ∧ ∃ texts, texts <+: lines.map utf16 ∧ t' = t ++ texts)
      (writeEach pause lines) l t := by
  have hstart : Ok t := by simpa using h [] List.nil_prefix
  induction lines generalizing t with
  | nil => exact Over.pure steady_typed hstart ⟨rfl, (List.append_nil t).symm⟩
  | cons line lines ih =>
    have hline : Ok (t ++ [utf16 line]) := h [utf16 line] (List.prefix_append _ _)
    have hrest : ∀ texts, texts <+: lines.map utf16 → Ok (t ++ [utf16 line] ++ texts) := by
      intro texts htexts
      rw [List.append_assoc]
      exact h _ (List.prefix_cons_inj _ |>.mpr htexts)
    have hnext : Typing zoneName Ok (fun _ l' t' => l' = l ∧ t' = t ++ (line :: lines).map utf16)
        (fun _ l' t' => l' = l ∧ ∃ texts, texts <+: (line :: lines).map utf16 ∧ t' = t ++ texts)
        (writeEach pause lines) l (t ++ [utf16 line]) := by
      refine (ih hrest hline).mono ?_ ?_
      · rintro _ l' t' ⟨rfl, rfl⟩
        exact ⟨rfl, by simp⟩
      · rintro _ l' t' ⟨rfl, texts, htexts, rfl⟩
        exact ⟨rfl, utf16 line :: texts, List.prefix_cons_inj _ |>.mpr htexts, by simp⟩
    refine Over.bind (typing_write hstart hline ?_ fun e =>
      ⟨rfl, [], List.nil_prefix, (List.append_nil t).symm⟩)
    cases pause with
    | none => exact Over.bind (Over.pure steady_typed hline hnext)
    | some ms => exact Over.bind (typing_waitForDelay hline hnext)

/-- The template step once its lines are known: it types them, waits and succeeds. -/
theorem typing_template {step : Step} {pause : Option ℚ} {lines : List Words} {needle : Needle}
    {timeout : ℚ} {output : Words} (htypes : Types vars step (lines.map utf16))
    (h : Allows Ok vars step t) :
    Typing zoneName Ok (Returned vars step l t) (Thrown vars step l t)
      (do
        writeEach pause lines
        let _ ← waitForPattern needle timeout globalDeadline
        return succeed output) l t := by
  have hall : Ok (t ++ lines.map utf16) := h _ htypes.partly
  refine Over.bind ((typing_writeEach fun texts htexts => h _ ⟨_, htypes, htexts⟩).mono ?_ ?_)
  · rintro _ _ _ ⟨rfl, rfl⟩
    refine Over.bind (typing_waitForPattern hall fun b => ?_)
    exact Over.pure steady_typed hall (returned_types htypes)
  · rintro _ _ _ ⟨rfl, texts, htexts, rfl⟩
    exact ⟨rfl, texts, rfl, _, htypes, htexts⟩

theorem typing_stepTemplate {step : ZloginTemplate.Step} {expectPrompt : Option Words}
    {timeout : Option ℚ} (h : Allows Ok vars (.template step expectPrompt timeout) t) :
    Typing zoneName Ok (Returned vars (.template step expectPrompt timeout) l t)
      (Thrown vars (.template step expectPrompt timeout) l t)
      (stepTemplate vars globalDeadline step expectPrompt timeout) l t := by
  refine Over.bind (typing_alive h.start fun b => ?_)
  cases b with
  | false => exact Over.pure steady_typed h.start (returned_start (by rintro ⟨⟩))
  | true =>
    refine Over.bind (Over.bind (typing_now h.start fun n => Over.pure steady_typed h.start ?_))
    split_ifs with hecho hheredoc
    · apply typing_template _ h
      have hlines : ZloginTemplate.stepTemplate vars true 0 step = .ok (echoWrites
          (resolveVars vars step.content) (resolveVars vars step.dest)) :=
        (if_neg Bool.false_ne_true).trans (if_pos hecho)
      exact ⟨0, by rw [hlines]⟩
    · refine Over.bind (typing_now h.start fun n => ?_)
      apply typing_template _ h
      have hlines : ZloginTemplate.stepTemplate vars true n step = .ok (heredocWrites
          (resolveVars vars step.content) (resolveVars vars step.dest) n) :=
        (if_neg Bool.false_ne_true).trans ((if_neg hecho).trans (if_pos hheredoc))
      exact ⟨n, by rw [hlines]⟩
    · exact Over.pure steady_typed h.start (returned_start (by rintro ⟨⟩))

theorem typing_executeStep {step : Step} (h : Allows Ok vars step t) :
    Typing zoneName Ok (Returned vars step l t) (Thrown vars step l t)
      (executeStep engine vars globalDeadline shown step) l t := by
  cases step with
  | wait pattern timeout => exact typing_stepWait h
  | send value => exact typing_stepSend h
  | command step => exact typing_stepCommand h
  | template step expectPrompt timeout => exact typing_stepTemplate h
  | delay seconds =>
    refine Over.bind (typing_waitForDelay h.start ?_)
    exact Over.pure steady_typed h.start (returned_start fun _ => rfl)
  | other type => exact Over.pure steady_typed h.start (returned_start (by rintro ⟨⟩))

end Steps

section Runs
variable {zoneName : String} {Ok : List Zlogin.Text → Prop} {vars : Words → Option Words}
  {engine : Engine} {shown : ℚ → Words} {globalDeadline : ℚ} {l : Locals} {t : List Zlogin.Text}
  {index : ℕ} {steps : List Step}

/-- What a run of these steps logs and types: the steps in their order as long as they succeed,
and all of them or up to one that is not begun, not finished or failed. -/
inductive Ran (vars : Words → Option Words) :
    ℕ → List Step → List Entry → List Zlogin.Text → Bool → Prop
  | all (index : ℕ) : Ran vars index [] [] [] true
  | unbegun (index : ℕ) (steps : List Step) : Ran vars index steps [] [] false
  | unfinished {index : ℕ} {step : Step} {steps : List Step} {texts : List Zlogin.Text} :
      Partly vars step texts → Ran vars index (step :: steps) [] texts false
  | failed {index : ℕ} {step : Step} {steps : List Step} {texts : List Zlogin.Text}
      {result : StepResult} : Partly vars step texts → result.success = false →
      Ran vars index (step :: steps) [⟨index, step.type, result⟩] texts false
  | next {index : ℕ} {step : Step} {steps : List Step} {texts rest : List Zlogin.Text}
      {result : StepResult} {entries : List Entry} {complete : Bool} : Types vars step texts →
      result.success = true → Ran vars (index + 1) steps entries rest complete →
      Ran vars index (step :: steps) (⟨index, step.type, result⟩ :: entries) (texts ++ rest)
        complete

/-- What the steps of a run leave behind: an error exactly where the run is not complete. -/
def Left (vars : Words → Option Words) (index : ℕ) (steps : List Step) (l : Locals)
    (t : List Zlogin.Text) (l' : Locals) (t' : List Zlogin.Text) : Prop :=
  ∃ entries texts complete, Ran vars index steps entries texts complete ∧ t' = t ++ texts ∧
    l'.log = l.log ++ entries ∧
    if complete then l'.errors = l.errors else ∃ error, l'.errors = l.errors ++ [error]

/-- What is left when a step throws. -/
def Broken (vars : Words → Option Words) (index : ℕ) (steps : List Step) (l : Locals)
    (t : List Zlogin.Text) (l' : Locals) (t' : List Zlogin.Text) : Prop :=
  ∃ entries texts, Ran vars index steps entries texts false ∧ t' = t ++ texts ∧
    l'.log = l.log ++ entries ∧ l'.errors = l.errors

section Next
variable {step : Step} {texts : List Zlogin.Text} {result : StepResult} {l₁ l₂ : Locals}
  {t₂ : List Zlogin.Text}

theorem Left.next (h : Left vars (index + 1) steps l₁ (t ++ texts) l₂ t₂)
    (htypes : Types vars step texts) (hsuccess : result.success = true)
    (hlog : l₁.log = l.log ++ [⟨index, step.type, result⟩]) (herrors : l₁.errors = l.errors) :
    Left vars index (step :: steps) l t l₂ t₂ := by
  obtain ⟨entries, rest, complete, hran, rfl, hlog₂, herrors₂⟩ := h
  refine ⟨_, _, complete, Ran.next htypes hsuccess hran, List.append_assoc _ _ _, ?_, ?_⟩
  · rw [hlog₂, hlog, List.append_assoc, List.singleton_append]
  · rwa [herrors] at herrors₂

theorem Broken.next (h : Broken vars (index + 1) steps l₁ (t ++ texts) l₂ t₂)
    (htypes : Types vars step texts) (hsuccess : result.success = true)
    (hlog : l₁.log = l.log ++ [⟨index, step.type, result⟩]) (herrors : l₁.errors = l.errors) :
    Broken vars index (step :: steps) l t l₂ t₂ := by
  obtain ⟨entries, rest, hran, rfl, hlog₂, herrors₂⟩ := h
  refine ⟨_, _, Ran.next htypes hsuccess hran, List.append_assoc _ _ _, ?_, herrors₂.trans herrors⟩
  rw [hlog₂, hlog, List.append_assoc, List.singleton_append]

end Next

theorem typing_executeSteps
    (h : ∀ entries texts complete, Ran vars index steps entries texts complete → Ok (t ++ texts)) :
    Typing zoneName Ok (fun _ => Left vars index steps l t) (fun _ => Broken vars index steps l t)
      (executeSteps engine vars globalDeadline shown index steps) l t := by
  have hstart : Ok t := by simpa using h _ _ _ (.unbegun index steps)
  have hnothing : ∀ error, Left vars index steps l t
      { l with errors := l.errors ++ [error] } t := fun error =>
    ⟨[], [], false, .unbegun index steps, (List.append_nil t).symm, (List.append_nil _).symm,
      error, rfl⟩
  induction steps generalizing index l t with
  | nil => exact Over.pure steady_typed hstart ⟨[], [], true, .all index, by simp, by simp, rfl⟩
  | cons step steps ih =>
    refine Over.bind (typing_isDestroyed hstart fun b => ?_)
    cases b with
    | true => exact Over.modify steady_typed hstart (hnothing _)
    | false =>
      refine Over.bind (typing_now hstart fun n => ?_)
      split_ifs
      · exact Over.modify steady_typed hstart (hnothing _)
      · refine Over.bind ((typing_executeStep fun texts htexts =>
          h _ _ _ (.unfinished htexts)).mono ?_ ?_)
        · rintro result l _ ⟨rfl, texts, rfl, hpartly, htypes⟩
          have hOk : Ok (t ++ texts) := h _ _ _ (.unfinished hpartly)
          have hrest : ∀ l', l'.log = l.log ++ [⟨index, step.type, result⟩] →
              l'.errors = l.errors →
              Typing zoneName Ok (fun _ => Left vars index (step :: steps) l t)
                (fun _ => Broken vars index (step :: steps) l t)
                (if result.success then
                  executeSteps engine vars globalDeadline shown (index + 1) steps
                else pushError ((result.error.filter (· ≠ [])).getD (stepFailed index step)))
                l' (t ++ texts) := by
            intro l' hlog herrors
            split_ifs with hsuccess
            · have hallowed : ∀ entries rest complete,
                  Ran vars (index + 1) steps entries rest complete → Ok (t ++ texts ++ rest) := by
                intro entries rest complete hran
                rw [List.append_assoc]
                exact h _ _ _ (.next (htypes hsuccess) hsuccess hran)
              refine (ih hallowed hOk fun error => ⟨[], [], false, .unbegun _ _,
                (List.append_nil _).symm, (List.append_nil _).symm, error, rfl⟩).mono ?_ ?_
              · intro _ l₂ t₂ hleft
                exact hleft.next (htypes hsuccess) hsuccess hlog herrors
              · intro _ l₂ t₂ hbroken
                exact hbroken.next (htypes hsuccess) hsuccess hlog herrors
            · have hfailed : result.success = false := by simpa using hsuccess
              exact Over.modify steady_typed hOk
                ⟨_, texts, false, .failed hpartly hfailed, rfl, hlog, _, congrArg (· ++ [_]) herrors⟩
          refine Over.bind (Over.modify steady_typed hOk ?_)
          cases result.output.filter (· ≠ []) with
          | none => exact Over.bind (Over.pure steady_typed hOk (hrest ⟨_, _, _⟩ rfl rfl))
          | some output => exact Over.bind (Over.modify steady_typed hOk (hrest ⟨_, _, _⟩ rfl rfl))
        · rintro e _ _ ⟨rfl, texts, rfl, hpartly⟩
          exact ⟨[], texts, .unfinished hpartly, rfl, (List.append_nil _).symm, rfl⟩

end Runs

section Execute
variable {zoneName : String} {engine : Engine} {shown : ℚ → Words} {recipe : Recipe}
  {zoneVars : Words → Option Words} {globalDeadline : ℚ} {l : Locals}

/-- Line ends, at most two, and then the texts of a run of the steps. -/
def Prescribed (recipe : Recipe) (zoneVars : Words → Option Words) (typed : List Zlogin.Text) :
    Prop :=
  ∃ m ≤ 2, ∃ entries texts complete,
    Ran (mergedVars recipe zoneVars) 0 recipe.steps entries texts complete ∧
      typed = List.replicate m crlf ++ texts

theorem prescribed_replicate {m : ℕ} (hm : m ≤ 2) :
    Prescribed recipe zoneVars (List.replicate m crlf) :=
  ⟨m, hm, [], [], false, .unbegun _ _, (List.append_nil _).symm⟩

theorem typing_awaitBoot :
    Typing zoneName (Prescribed recipe zoneVars)
      (fun goesOn l' t' => ∃ m ≤ 1, t' = List.replicate m crlf ∧ l'.log = l.log ∧
        if goesOn then l'.errors = l.errors else ∃ error, l'.errors = l.errors ++ [error])
      (fun _ l' t' => t' = [] ∧ l' = l) (awaitBoot recipe zoneVars globalDeadline) l [] := by
  have hnone : Prescribed recipe zoneVars [] := prescribed_replicate (Nat.zero_le 2)
  have hone : Prescribed recipe zoneVars [crlf] := prescribed_replicate (m := 1) (by omega)
  change Typing _ _ _ _ (if bootString recipe zoneVars = [] then _ else _) _ _
  split_ifs
  · exact Over.pure steady_typed hnone ⟨0, zero_le_one, rfl, rfl, rfl⟩
  · refine Over.bind (typing_waitForPattern hnone fun matched => ?_)
    cases matched with
    | true =>
      refine Over.bind (Over.modify steady_typed hnone ?_)
      exact Over.pure steady_typed hnone ⟨0, zero_le_one, rfl, rfl, rfl⟩
    | false =>
      refine Over.bind (typing_effect rfl hnone ?_)
      refine Over.bind (typing_write hnone hone ?_ fun e => ⟨rfl, rfl⟩)
      refine Over.bind (typing_waitForDelay hone ?_)
      refine Over.bind (typing_strippedBuffer hone fun buffer => ?_)
      split_ifs
      · refine Over.bind (Over.modify steady_typed hone ?_)
        exact Over.pure steady_typed hone ⟨1, le_rfl, rfl, rfl, _, rfl⟩
      · refine Over.bind (Over.modify steady_typed hone ?_)
        exact Over.pure steady_typed hone ⟨1, le_rfl, rfl, rfl, rfl⟩
      · refine Over.bind (Over.modify steady_typed hone ?_)
        exact Over.pure steady_typed hone ⟨1, le_rfl, rfl, rfl, _, rfl⟩

/-- What an attempt leaves: the log and the errors of a run of the steps. -/
def Attempted (recipe : Recipe) (zoneVars : Words → Option Words) (l l' : Locals)
    (t' : List Zlogin.Text) (entries : List Entry) (complete : Bool) : Prop :=
  ∃ m ≤ 2, ∃ texts, Ran (mergedVars recipe zoneVars) 0 recipe.steps entries texts complete ∧
    t' = List.replicate m crlf ++ texts ∧ l'.log = l.log ++ entries

theorem attempted_unbegun {l l' : Locals} {m : ℕ} (hm : m ≤ 2) (hlog : l'.log = l.log) :
    Attempted recipe zoneVars l l' (List.replicate m crlf) [] false :=
  ⟨m, hm, [], .unbegun _ _, (List.append_nil _).symm, hlog.trans (List.append_nil _).symm⟩

theorem typing_attempt :
    Typing zoneName (Prescribed recipe zoneVars)
      (fun completed l' t' => ∃ entries complete,
        Attempted recipe zoneVars l l' t' entries complete ∧
        (if complete then l'.errors = l.errors else ∃ error, l'.errors = l.errors ++ [error]) ∧
        (completed = false → complete = false ∧ entries = []))
      (fun _ l' t' => ∃ entries, Attempted recipe zoneVars l l' t' entries false ∧
        l'.errors = l.errors)
      (attempt engine shown recipe zoneVars globalDeadline) l [] := by
  have hnone : Prescribed recipe zoneVars [] := prescribed_replicate (Nat.zero_le 2)
  have hnothing : Attempted recipe zoneVars l l [] [] false :=
    attempted_unbegun (Nat.zero_le 2) rfl
  refine Over.bind (typing_getOrCreate hnone ?_ fun e => ⟨[], hnothing, rfl⟩)
  refine Over.bind (typing_effect rfl hnone ?_)
  refine Over.bind (typing_effect rfl hnone ?_)
  refine Over.bind (typing_awaitBoot.mono ?_ ?_)
  · rintro goesOn l₁ _ ⟨m, hm, rfl, hlog, herrors⟩
    have hm₂ : Prescribed recipe zoneVars (List.replicate m crlf) :=
      prescribed_replicate (by omega)
    cases goesOn with
    | false =>
      exact Over.pure steady_typed hm₂ ⟨[], false, attempted_unbegun (by omega) hlog,
        herrors, fun _ => ⟨rfl, rfl⟩⟩
    | true =>
      -- the steps, behind one more line end or not
      have hsteps : ∀ k ≤ 2, Typing zoneName (Prescribed recipe zoneVars)
          (fun completed l' t' => ∃ entries complete,
            Attempted recipe zoneVars l l' t' entries complete ∧
            (if complete then l'.errors = l.errors
              else ∃ error, l'.errors = l.errors ++ [error]) ∧
            (completed = false → complete = false ∧ entries = []))
          (fun _ l' t' => ∃ entries, Attempted recipe zoneVars l l' t' entries false ∧
            l'.errors = l.errors)
          (do
            executeSteps engine (mergedVars recipe zoneVars) globalDeadline shown 0 recipe.steps
            return true) l₁ (List.replicate k crlf) := by
        intro k hk
        refine Over.bind ((typing_executeSteps fun entries texts complete hran =>
          ⟨k, hk, entries, texts, complete, hran, rfl⟩).mono ?_ ?_)
        · rintro _ l₂ _ ⟨entries, texts, complete, hran, rfl, hlog₂, herrors₂⟩
          rw [hlog] at hlog₂
          rw [herrors] at herrors₂
          exact Over.pure steady_typed ⟨k, hk, entries, texts, complete, hran, rfl⟩
            ⟨entries, complete, ⟨k, hk, texts, hran, rfl, hlog₂⟩, herrors₂, by rintro ⟨⟩⟩
        · rintro _ l₂ _ ⟨entries, texts, hran, rfl, hlog₂, herrors₂⟩
          rw [hlog] at hlog₂
          exact ⟨entries, ⟨k, hk, texts, hran, rfl, hlog₂⟩, herrors₂.trans herrors⟩
      refine Over.bind (typing_alive hm₂ fun b => ?_)
      cases b with
      | false => exact hsteps m (by omega)
      | true =>
        have hsucc : Prescribed recipe zoneVars (List.replicate (m + 1) crlf) :=
          prescribed_replicate (Nat.succ_le_succ hm)
        rw [List.replicate_succ'] at hsucc
        have hnext := hsteps (m + 1) (Nat.succ_le_succ hm)
        rw [List.replicate_succ'] at hnext
        refine Over.bind (typing_write hm₂ hsucc ?_ fun e =>
          ⟨[], attempted_unbegun (by omega) hlog, herrors⟩)
        exact Over.bind (typing_waitForDelay hsucc hnext)
  · rintro e _ _ ⟨rfl, rfl⟩
    exact ⟨[], hnothing, rfl⟩

/-- What a run answers, with what it typed. -/
structure Faithful (recipe : Recipe) (zoneVars : Words → Option Words) (log : List Entry)
    (outcome : Outcome) (typed : List Zlogin.Text) : Prop where
  verdict : outcome.success = true ↔ outcome.errors = []
  errors : outcome.errors.length ≤ 1
  trace : ∃ m ≤ 2, ∃ entries texts,
    Ran (mergedVars recipe zoneVars) 0 recipe.steps entries texts outcome.success ∧
      typed = List.replicate m crlf ++ texts ∧ outcome.log.getD log = log ++ entries

/-- The end of a run: the flag is cleared, and the answer is made of what the attempt left. -/
theorem typing_finish {log : List Entry} {completed complete : Bool} {l : Locals}
    {t : List Zlogin.Text} {entries : List Entry}
    (hrun : Attempted recipe zoneVars ⟨[], [], log⟩ l t entries complete)
    (herrors : if complete then l.errors = [] else ∃ error, l.errors = [error])
    (hearly : completed = false → complete = false ∧ entries = []) :
    Typing zoneName (Prescribed recipe zoneVars)
      (fun outcome _ typed => Faithful recipe zoneVars log outcome typed) (fun _ _ _ => False)
      (finish completed) l t := by
  obtain ⟨m, hm, texts, hran, ht, hlog⟩ := hrun
  have hOk : Prescribed recipe zoneVars t := ⟨m, hm, entries, texts, complete, hran, ht⟩
  refine Over.bind (typing_effect rfl hOk ?_)
  refine Over.bind (Over.get steady_typed hOk ?_)
  cases completed with
  | false =>
    obtain ⟨rfl, rfl⟩ := hearly rfl
    obtain ⟨error, herrors⟩ := herrors
    refine Over.pure steady_typed hOk
      ⟨?_, ?_, m, hm, [], texts, hran, ht, (List.append_nil log).symm⟩
    · simp [herrors]
    · simp [herrors]
  | true =>
    have hsuccess : l.errors.isEmpty = complete := by
      cases complete with
      | true => exact List.isEmpty_iff.mpr herrors
      | false =>
        obtain ⟨error, herrors⟩ := herrors
        rw [herrors]
        rfl
    refine Over.pure steady_typed hOk ⟨List.isEmpty_iff, ?_, m, hm, entries, texts, ?_, ht, hlog⟩
    · cases complete with
      | true =>
        rw [show l.errors = [] from herrors]
        exact Nat.zero_le 1
      | false =>
        obtain ⟨error, herrors⟩ := herrors
        rw [herrors]
        exact le_rfl
    · rwa [hsuccess]

theorem typing_execute (log : List Entry) :
    Typing zoneName (Prescribed recipe zoneVars)
      (fun outcome _ typed => Faithful recipe zoneVars log outcome typed) (fun _ _ _ => False)
      (execute engine shown recipe zoneVars) ⟨[], [], log⟩ [] := by
  have hnone : Prescribed recipe zoneVars [] := prescribed_replicate (Nat.zero_le 2)
  refine Over.bind (typing_isDestroyed hnone fun b => ?_)
  cases b with
  | true =>
    refine Over.pure steady_typed hnone
      ⟨?_, le_rfl, 0, Nat.zero_le 2, [], [], .unbegun _ _, rfl, ?_⟩
    · exact ⟨by rintro ⟨⟩, by rintro ⟨⟩⟩
    · exact (List.append_nil log).symm
  | false =>
    refine Over.bind (typing_now hnone fun n => ?_)
    refine Over.bind (Over.tryCatch (typing_attempt.mono ?_ ?_))
    · rintro completed l t ⟨entries, complete, hrun, herrors, hearly⟩
      exact typing_finish hrun herrors hearly
    · rintro e l t ⟨entries, hattempt, herrors⟩
      obtain ⟨m, hm, texts, hran, ht, hlog⟩ := hattempt
      have hOk : Prescribed recipe zoneVars t := ⟨m, hm, entries, texts, false, hran, ht⟩
      refine Over.bind (Over.modify steady_typed hOk ?_)
      have hrun : Attempted recipe zoneVars ⟨[], [], log⟩ _ t entries false :=
        ⟨m, hm, texts, hran, ht, hlog⟩
      refine Over.pure steady_typed hOk (typing_finish hrun ?_ (by rintro ⟨⟩))
      exact ⟨_, congrArg (· ++ [_]) herrors⟩

theorem safe_execution (log : List Entry) {w : World} (h : w.typed = []) :
    Safe (console zoneName) (fun _ _ _ => True) (fun w => Prescribed recipe zoneVars w.typed)
      (fun r w => ∃ outcome, r.1 = .ok outcome ∧ Faithful recipe zoneVars log outcome w.typed)
      (execution engine shown recipe zoneVars log) w := by
  refine Safe.mono (typing_execute log w h) ?_
  rintro ⟨e | outcome, l⟩ w hends
  · exact hends.elim
  · exact ⟨outcome, rfl, hends⟩

end Execute

end ZoneweaverAgent.ZloginRecipe
