import ZoneweaverAgent.TaskOutputRuns
import ZoneweaverAgent.TaskStreamRuns

/-!
# The whole output reaches the viewers

A row that has ended stays as it is, and no chunk is accepted behind it. A viewer that is connected
to a live session is sent the rest of its chunks, and the end of the session makes it read the row;
every other viewer reads what the task has left behind.
-/

namespace ZoneweaverAgent.TaskStream
open TaskOutput (Entry OutputConfig kept Sound)
open Transition

section Statement

def Stage.writes : Stage → Bool
  | .executing | .settling _ => true
  | _ => false

/-- The row has ended, or is gone. -/
def Over (s : State) : Prop := ∀ row ∈ s.status, row.terminal = true

/-- About to be connected to a task that has not ended. -/
def Viewer.attaches (zoneName : String) (v : Viewer) : Bool :=
  match v.phase with
  | .found (some status) => !scopeMismatch zoneName v.scope && !status.terminal
  | _ => false

/-- A viewer of a task under way finds its session; chunks come before the row has ended; the rest
of the agent ends a task before its dispatch alone; reads and the final flush succeed, and the row
outlives the reads of its status. -/
def Fits (zoneName : String) (s : State) : Label → Prop
  | .write stream data now => s.out.session.isSome →
      s.stage.writes = true ∧ isNotice ⟨stream, data, now⟩ = false
  | .applied k => TaskOutput.Fits s.out (.applied k)
  | .flushFails k => TaskOutput.Fits s.out (.failed k)
  | .overwrite status => ∀ row ∈ s.status,
      row.terminal = false ∧ (status.terminal = true → s.stage = .idle)
  | .destroy => Over s
  | .outputRead _ succeeds => succeeds = true
  | .proceed k => ∀ v ∈ s.viewers[k]?, v.attaches zoneName = true → s.out.session.isSome
  | .statusRead _ _ => s.status ≠ none
  | .statusFails _ _ => False
  | _ => True

instance (s : State) : Decidable (Over s) :=
  inferInstanceAs (Decidable (∀ row ∈ s.status, row.terminal = true))

instance (zoneName : String) (s : State) : (l : Label) → Decidable (Fits zoneName s l)
  | .write stream data now => inferInstanceAs (Decidable (s.out.session.isSome →
      s.stage.writes = true ∧ isNotice ⟨stream, data, now⟩ = false))
  | .applied k => inferInstanceAs (Decidable (TaskOutput.Fits s.out (.applied k)))
  | .flushFails k => inferInstanceAs (Decidable (TaskOutput.Fits s.out (.failed k)))
  | .overwrite status => inferInstanceAs (Decidable (∀ row ∈ s.status,
      row.terminal = false ∧ (status.terminal = true → s.stage = .idle)))
  | .destroy => inferInstanceAs (Decidable (Over s))
  | .outputRead _ succeeds => inferInstanceAs (Decidable (succeeds = true))
  | .proceed k => inferInstanceAs (Decidable
      (∀ v ∈ s.viewers[k]?, v.attaches zoneName = true → s.out.session.isSome))
  | .statusRead _ _ => inferInstanceAs (Decidable (s.status ≠ none))
  | .statusFails _ _ => .isFalse id
  | .pick | .mark | .markFails | .start | .returns _ _ | .throws | .settle | .settleFails
  | .finish | .conclude | .timer | .looseTimer | .upgrade _ | .rowRead _ | .rowFails _
  | .convey _ _ | .leave _ | .unsubscribe _ => .isTrue trivial

/-- What is left of the output when the viewer comes, the rest of it, and the status of the row. -/
def Viewer.Served (cfg : OutputConfig) (s : State) (v : Viewer) : Prop :=
  v.socket = .closed ∧ ∃ entries final,
    v.sent = entries.map .output ++ [.status final] ∧
    kept cfg s.out.accepted <:+ entries ∧ entries <:+ s.out.accepted ∧
    ∀ row ∈ s.status, row = final

end Statement

variable {cfg : OutputConfig} {zoneName : String} {s s' : State} {v v' : Viewer} {l : Label}
  {out out' : TaskOutput.State} {entry : Entry}

section Rows

/-- From the pick on the row is the dispatch's, until it ends. -/
def Stage.active : Stage → Bool
  | .picked | .marked | .executing | .settling _ | .thrown => true
  | _ => false

def Stage.early : Stage → Bool
  | .idle | .picked | .marked => true
  | _ => false

def Stage.late : Stage → Bool
  | .settled | .finalizing | .finished => true
  | _ => false

structure Sane (cfg : OutputConfig) (s : State) : Prop where
  sound : Sound cfg s.out
  early : s.stage.early = true → s.out.session = none ∧ s.out.accepted = []
  active : s.stage.active = true → ¬ Over s
  late : s.stage.late = true → Over s
  settling : ∀ status, s.stage = .settling status → status.terminal = true
  finished : s.stage = .finished → s.out.session = none
  unflushed : s.stage ≠ .finalizing → s.stage ≠ .finished → s.out.finalizing = false

theorem sane_initial (status : Status) : Sane cfg (.initial status) where
  sound := TaskOutput.sound_initial
  early _ := ⟨rfl, rfl⟩
  active h := by cases h
  late h := by cases h
  settling _ h := by cases h
  finished h := by cases h
  unflushed _ _ := rfl

/-- The steps of the output manager by itself. -/
def alone : TaskOutput.Label → Bool
  | .timer | .looseTimer | .applied _ | .failed _ => true
  | _ => false

theorem finalizing_eq_false_iff : out.finalizing = false ↔
    out.flushed = 0 ∧ ∀ update ∈ out.updates, update.final = false := by
  simp [TaskOutput.State.finalizing]

theorem flushToDb_session (final : Bool) :
    (TaskOutput.flushToDb final out).session = out.session := by
  unfold TaskOutput.flushToDb TaskOutput.State.resolve
  grind

theorem finalizing_flushToDb (h : out.finalizing = false) :
    (TaskOutput.flushToDb false out).finalizing = false := by
  obtain ⟨hflushed, hupdates⟩ := finalizing_eq_false_iff.mp h
  rw [finalizing_eq_false_iff]
  unfold TaskOutput.flushToDb
  split
  · exact ⟨hflushed, hupdates⟩
  · split_ifs
    · exact ⟨hflushed, hupdates⟩
    · refine ⟨hflushed, fun update hmem => ?_⟩
      rcases List.mem_append.mp hmem with hold | hnew
      · exact hupdates update hold
      · rw [List.mem_singleton.mp hnew]

theorem session_alone {l : TaskOutput.Label} (hl : alone l = true)
    (hstep : TaskOutput.step cfg out l = some out') :
    out'.session.isSome = out.session.isSome := by
  cases l with
  | timer =>
    obtain ⟨session, hsession, rfl⟩ := Option.map_eq_some_iff.mp hstep
    rw [flushToDb_session, (Option.filter_eq_some_iff.mp hsession).1]
    rfl
  | looseTimer =>
    obtain ⟨-, hsome⟩ := Option.ite_none_right_eq_some.mp hstep
    cases hsome
    rw [flushToDb_session]
  | applied k =>
    obtain ⟨update, -, rfl⟩ := Option.map_eq_some_iff.mp hstep
    cases hfinal : update.final <;> rfl
  | failed k =>
    obtain ⟨update, -, rfl⟩ := Option.map_eq_some_iff.mp hstep
    cases hfinal : update.final <;> rfl
  | _ => cases hl

theorem finalizing_alone {l : TaskOutput.Label} (hl : alone l = true)
    (hstep : TaskOutput.step cfg out l = some out') (h : out.finalizing = false) :
    out'.finalizing = false := by
  obtain ⟨hflushed, hupdates⟩ := finalizing_eq_false_iff.mp h
  cases l with
  | timer =>
    obtain ⟨session, -, rfl⟩ := Option.map_eq_some_iff.mp hstep
    exact finalizing_flushToDb h
  | looseTimer =>
    obtain ⟨-, hsome⟩ := Option.ite_none_right_eq_some.mp hstep
    cases hsome
    exact finalizing_flushToDb h
  | applied k =>
    obtain ⟨update, hget, rfl⟩ := Option.map_eq_some_iff.mp hstep
    rw [hupdates update (List.mem_of_getElem? hget), finalizing_eq_false_iff]
    exact ⟨hflushed, fun other hmem => hupdates other (List.mem_of_mem_eraseIdx hmem)⟩
  | failed k =>
    obtain ⟨update, hget, rfl⟩ := Option.map_eq_some_iff.mp hstep
    rw [hupdates update (List.mem_of_getElem? hget), finalizing_eq_false_iff]
    exact ⟨hflushed, fun other hmem => hupdates other (List.mem_of_mem_eraseIdx hmem)⟩
  | _ => cases hl

/-- A step that leaves the output as it is. -/
theorem Sane.aside (h : Sane cfg s) (hout : s'.out = s.out)
    (hearly : s'.stage.early = true → s.stage.early = true)
    (hactive : s'.stage.active = true → ¬ Over s') (hlate : s'.stage.late = true → Over s')
    (hsettling : ∀ status, s'.stage = .settling status → status.terminal = true)
    (hfinished : s'.stage = .finished → s.stage = .finished)
    (hunflushed : s'.stage ≠ .finalizing → s'.stage ≠ .finished →
      s.stage ≠ .finalizing ∧ s.stage ≠ .finished) : Sane cfg s' where
  sound := by rw [hout]; exact h.sound
  early hstage := by rw [hout]; exact h.early (hearly hstage)
  active := hactive
  late := hlate
  settling := hsettling
  finished hstage := by rw [hout]; exact h.finished (hfinished hstage)
  unflushed hfinalizing hfinished' := by
    obtain ⟨hstage, hstage'⟩ := hunflushed hfinalizing hfinished'
    rw [hout]
    exact h.unflushed hstage hstage'

theorem Sane.manage (h : Sane cfg s) {l : TaskOutput.Label} (hl : alone l = true)
    (hfits : TaskOutput.Fits s.out l) (hstep : s.manage cfg l = some s') : Sane cfg s' := by
  obtain ⟨out, hout, rfl⟩ := Option.map_eq_some_iff.mp hstep
  have hsession := session_alone hl hout
  have hwrite : ∀ stream data now, l ≠ .write stream data now := by
    rintro _ _ _ rfl
    cases hl
  refine ⟨h.sound.step hfits hout, ?_, h.active, h.late, h.settling, ?_, ?_⟩
  · intro hstage
    obtain ⟨hnone, hempty⟩ := h.early hstage
    refine ⟨?_, (accepted_step hout hwrite).trans hempty⟩
    rw [hnone] at hsession
    simpa using hsession
  · intro hstage
    rw [h.finished hstage] at hsession
    simpa using hsession
  · intro hfinalizing hfinished
    exact finalizing_alone hl hout (h.unflushed hfinalizing hfinished)

theorem not_over_of_pending (h : s.status = some .pending) : ¬ Over s := by
  intro hover
  exact absurd (hover .pending h) (by decide)

theorem not_over_update {status : Status} (hterminal : status.terminal = false)
    (hover : ¬ Over s) : ¬ Over (s.update status) := by
  intro hover'
  refine hover fun row hrow => ?_
  have hupdated : status ∈ (s.update status).status := by
    rw [State.update, Option.mem_def, Option.mem_def.mp hrow]
    rfl
  have := hover' status hupdated
  rw [hterminal] at this
  cases this

theorem over_update {status : Status} (hterminal : status.terminal = true) :
    Over (s.update status) := by
  intro row hrow
  obtain ⟨_, -, rfl⟩ := Option.map_eq_some_iff.mp hrow
  exact hterminal

theorem finalize_session : (TaskOutput.finalize out).session.isSome = out.session.isSome := by
  cases hsession : out.session with
  | none => simp [TaskOutput.finalize, hsession]
  | some session =>
    simp only [TaskOutput.finalize, hsession]
    rw [flushToDb_session]
    rfl

theorem finalizing_create : (TaskOutput.create cfg out).finalizing = out.finalizing := by
  unfold TaskOutput.create
  split_ifs <;> rfl

theorem Sane.dispatchStep (h : Sane cfg s) (hstep : dispatchStep cfg s l = some s') :
    Sane cfg s' := by
  cases l with
  | pick =>
    obtain ⟨⟨hstage, hrow⟩, hsome⟩ := Option.ite_none_right_eq_some.mp hstep
    cases hsome
    refine h.aside rfl ?_ (fun _ => not_over_of_pending hrow) ?_ ?_ ?_ ?_ <;>
      simp [hstage, Stage.early, Stage.late]
  | mark =>
    obtain ⟨hstage, hsome⟩ := Option.ite_none_right_eq_some.mp hstep
    cases hsome
    have hover := h.active (by rw [hstage]; rfl)
    refine h.aside rfl ?_ (fun _ => not_over_update rfl hover) ?_ ?_ ?_ ?_ <;>
      simp [hstage, Stage.early, Stage.late]
  | markFails =>
    obtain ⟨hstage, hsome⟩ := Option.ite_none_right_eq_some.mp hstep
    cases hsome
    refine h.aside rfl ?_ ?_ ?_ ?_ ?_ ?_ <;>
      simp [hstage, Stage.early, Stage.active, Stage.late]
  | start =>
    obtain ⟨hstage, hsome⟩ := Option.ite_none_right_eq_some.mp hstep
    cases hsome
    have hempty := (h.early (by rw [hstage]; rfl)).2
    have hover := h.active (by rw [hstage]; rfl)
    refine ⟨h.sound.create fun _ => hempty, ?_, fun _ => hover, ?_, ?_, ?_, ?_⟩
    · rintro ⟨⟩
    · rintro ⟨⟩
    · rintro _ ⟨⟩
    · rintro ⟨⟩
    · intro _ _
      exact finalizing_create.trans (h.unflushed (by simp [hstage]) (by simp [hstage]))
  | returns success cancelled =>
    obtain ⟨hstage, hsome⟩ := Option.ite_none_right_eq_some.mp hstep
    cases hsome
    have hover := h.active (by rw [hstage]; rfl)
    refine h.aside rfl ?_ (fun _ => hover) ?_ ?_ ?_ ?_ <;>
      simp [hstage, Stage.early, Stage.late]
    cases cancelled <;> cases success <;> rfl
  | throws =>
    obtain ⟨hstage, hsome⟩ := Option.ite_none_right_eq_some.mp hstep
    cases hsome
    have hover := h.active (by rw [hstage]; rfl)
    refine h.aside rfl ?_ (fun _ => hover) ?_ ?_ ?_ ?_ <;>
      simp [hstage, Stage.early, Stage.late]
  | settle =>
    simp only [TaskStream.dispatchStep] at hstep
    split at hstep
    case h_1 status hstage =>
      cases hstep
      have hterminal := h.settling status hstage
      refine h.aside rfl ?_ ?_ (fun _ => over_update hterminal) ?_ ?_ ?_ <;>
        simp [hstage, Stage.early, Stage.active]
    case h_2 => cases hstep
  | settleFails =>
    simp only [TaskStream.dispatchStep] at hstep
    split at hstep
    case h_1 status hstage =>
      cases hstep
      have hover := h.active (by rw [hstage]; rfl)
      refine h.aside rfl ?_ (fun _ => hover) ?_ ?_ ?_ ?_ <;>
        simp [hstage, Stage.early, Stage.late]
    case h_2 => cases hstep
  | finish =>
    obtain ⟨hstage, hsome⟩ := Option.ite_none_right_eq_some.mp hstep
    cases hsome
    have hover := h.late (by rw [hstage]; rfl)
    refine ⟨h.sound.finalize, ?_, ?_, fun _ => hover, ?_, ?_, ?_⟩
    · split_ifs <;> rintro ⟨⟩
    · split_ifs <;> rintro ⟨⟩
    · intro status
      split_ifs <;> rintro ⟨⟩
    · split_ifs with hsession
      · rintro ⟨⟩
      · intro _
        have hsame : (TaskOutput.finalize s.out).session.isSome = s.out.session.isSome :=
          finalize_session
        simpa [hsession] using hsame
    · split_ifs <;> simp
  | conclude =>
    obtain ⟨⟨hstage, hflushed⟩, hsome⟩ := Option.ite_none_right_eq_some.mp hstep
    cases hsome
    have hover := h.late (by rw [hstage]; rfl)
    refine ⟨h.sound.conclude hflushed, ?_, ?_, fun _ => hover, ?_, fun _ => rfl, ?_⟩
    · rintro ⟨⟩
    · rintro ⟨⟩
    · rintro _ ⟨⟩
    · intro _ hagain
      exact absurd rfl hagain
  | _ => cases hstep

theorem Stage.active_of_writes {stage : Stage} (h : stage.writes = true) :
    stage.active = true ∧ stage ≠ .finalizing ∧ stage ≠ .finished := by
  cases stage <;> simp_all [Stage.writes, Stage.active]

theorem Sane.write (h : Sane cfg s) (hsession : s.out.session.isSome)
    (hwrites : s.stage.writes = true) : Sane cfg
      (State.notify { s with out := TaskOutput.write cfg s.out entry } entry) := by
  obtain ⟨hactive, hfinalizing, hfinished⟩ := Stage.active_of_writes hwrites
  have hidle := h.unflushed hfinalizing hfinished
  refine ⟨h.sound.write entry fun _ => hidle, ?_, h.active, h.late, h.settling, ?_, ?_⟩
  · intro hearly
    rw [(h.early hearly).1] at hsession
    cases hsession
  · exact fun hagain => absurd hagain hfinished
  · intro _ _
    obtain ⟨session, hsome⟩ := Option.isSome_iff_exists.mp hsession
    have hsame : (TaskOutput.write cfg s.out entry).finalizing = s.out.finalizing := by
      simp only [TaskOutput.write, hsome]
      rfl
    exact hsame.trans hidle

theorem Sane.overwrite (h : Sane cfg s) {status : Status}
    (hfits : ∀ row ∈ s.status, row.terminal = false ∧ (status.terminal = true → s.stage = .idle)) :
    Sane cfg (s.update status) := by
  refine h.aside rfl id ?_ ?_ h.settling id fun hfinalizing hfinished => ⟨hfinalizing, hfinished⟩
  · intro hstage
    have hover := h.active hstage
    refine not_over_update ?_ hover
    by_contra hterminal
    refine hover fun row hrow => ?_
    have hidle := (hfits row hrow).2 (by simpa using hterminal)
    have hbusy : s.stage.active = true := hstage
    rw [hidle] at hbusy
    cases hbusy
  · intro hstage row hrow
    have hover := h.late hstage
    obtain ⟨old, hold, rfl⟩ := Option.map_eq_some_iff.mp hrow
    have hended := hover old hold
    rw [(hfits old hold).1] at hended
    cases hended

theorem Sane.outputStep (h : Sane cfg s) (hfits : Fits zoneName s l)
    (hstep : outputStep cfg s l = some s') : Sane cfg s' := by
  cases l with
  | write stream data now =>
    simp only [TaskStream.outputStep] at hstep
    split_ifs at hstep with hsession
    · cases hstep
      exact h.write hsession (hfits hsession).1
    · cases hstep
      exact h
  | timer => exact h.manage (l := .timer) rfl trivial hstep
  | looseTimer => exact h.manage (l := .looseTimer) rfl trivial hstep
  | applied k => exact h.manage (l := .applied k) rfl hfits hstep
  | flushFails k => exact h.manage (l := .failed k) rfl hfits hstep
  | overwrite status =>
    cases hstep
    exact h.overwrite hfits
  | destroy =>
    cases hstep
    have hgone : Over { s with status := none } := by rintro _ ⟨⟩
    refine h.aside rfl id (fun hactive => absurd hfits (h.active hactive)) (fun _ => hgone)
      h.settling id fun hfinalizing hfinished => ⟨hfinalizing, hfinished⟩
  | _ => cases hstep

theorem Sane.withViewers (h : Sane cfg s) (viewers : List Viewer) :
    Sane cfg { s with viewers := viewers } :=
  ⟨h.sound, h.early, h.active, h.late, h.settling, h.finished, h.unflushed⟩

theorem viewerStep_eq_some (hstep : viewerStep zoneName s l = some s') :
    s' = { s with viewers := s'.viewers } := by
  have hviewer : ∀ {k f}, s.onViewer k f = some s' → s' = { s with viewers := s'.viewers } := by
    intro k f hstep
    obtain ⟨v, v', -, -, rfl⟩ := onViewer_eq_some hstep
    rfl
  cases l with
  | upgrade scope =>
    cases hstep
    rfl
  | rowRead | rowFails | outputRead | proceed | statusRead | statusFails | convey | leave
  | unsubscribe => exact hviewer hstep
  | _ => cases hstep

theorem Sane.step (h : Sane cfg s) (hfits : Fits zoneName s l)
    (hstep : step cfg zoneName s l = some s') : Sane cfg s' := by
  rcases Option.or_eq_some_iff.mp hstep with hleft | ⟨-, hviewer⟩
  · rcases Option.or_eq_some_iff.mp hleft with hdispatch | ⟨-, houtput⟩
    · exact h.dispatchStep hdispatch
    · exact h.outputStep hfits houtput
  · rw [viewerStep_eq_some hviewer]
    exact h.withViewers s'.viewers

/-- A row that has ended stays until it is deleted, and no session follows it. -/
structure Stays (s s' : State) : Prop where
  row : ∀ row ∈ s'.status, row ∈ s.status
  session : s.out.session = none → s'.out.session = none

theorem stays_of_eq (hstatus : s'.status = s.status)
    (hsession : s.out.session = none → s'.out.session = none) : Stays s s' where
  row := by
    rw [hstatus]
    exact fun _ hrow => hrow
  session := hsession

theorem stays_manage {l : TaskOutput.Label} (hl : alone l = true)
    (hstep : s.manage cfg l = some s') : Stays s s' := by
  obtain ⟨out, hout, rfl⟩ := Option.map_eq_some_iff.mp hstep
  refine stays_of_eq rfl fun hnone => ?_
  have hsame := session_alone hl hout
  simpa [hnone] using hsame

theorem Sane.stays (h : Sane cfg s) (hfits : Fits zoneName s l)
    (hstep : TaskStream.step cfg zoneName s l = some s') (hover : Over s) : Stays s s' := by
  have hidle : s.stage.active = false := by
    by_contra hactive
    exact h.active (by simpa using hactive) hover
  rcases Option.or_eq_some_iff.mp hstep with hleft | ⟨-, hviewer⟩
  · rcases Option.or_eq_some_iff.mp hleft with hdispatch | ⟨-, houtput⟩
    · cases l with
      | mark =>
        obtain ⟨hstage, -⟩ := Option.ite_none_right_eq_some.mp hdispatch
        rw [hstage] at hidle
        cases hidle
      | settle =>
        simp only [TaskStream.dispatchStep] at hdispatch
        split at hdispatch
        case h_1 status hstage =>
          rw [hstage] at hidle
          cases hidle
        case h_2 => cases hdispatch
      | settleFails =>
        simp only [TaskStream.dispatchStep] at hdispatch
        split at hdispatch
        · cases hdispatch
          exact stays_of_eq rfl id
        · cases hdispatch
      | start =>
        obtain ⟨hstage, -⟩ := Option.ite_none_right_eq_some.mp hdispatch
        rw [hstage] at hidle
        cases hidle
      | finish =>
        obtain ⟨-, hsome⟩ := Option.ite_none_right_eq_some.mp hdispatch
        cases hsome
        refine stays_of_eq rfl fun hnone => ?_
        have hsame : (TaskOutput.finalize s.out).session.isSome = s.out.session.isSome :=
          finalize_session
        simpa [hnone] using hsame
      | conclude =>
        obtain ⟨-, hsome⟩ := Option.ite_none_right_eq_some.mp hdispatch
        cases hsome
        exact stays_of_eq rfl fun _ => rfl
      | pick | markFails | returns success cancelled | throws =>
        obtain ⟨-, hsome⟩ := Option.ite_none_right_eq_some.mp hdispatch
        cases hsome
        exact stays_of_eq rfl id
      | _ => cases hdispatch
    · cases l with
      | write stream data now =>
        simp only [TaskStream.outputStep] at houtput
        split_ifs at houtput with hsession
        · cases houtput
          refine stays_of_eq rfl fun hnone => ?_
          rw [hnone] at hsession
          cases hsession
        · cases houtput
          exact stays_of_eq rfl id
      | overwrite status =>
        cases houtput
        refine ⟨?_, id⟩
        intro row hrow
        obtain ⟨old, hold, -⟩ := Option.map_eq_some_iff.mp hrow
        have hended := hover old hold
        rw [(hfits old hold).1] at hended
        cases hended
      | destroy =>
        cases houtput
        refine ⟨?_, id⟩
        rintro _ ⟨⟩
      | timer => exact stays_manage (l := .timer) rfl houtput
      | looseTimer => exact stays_manage (l := .looseTimer) rfl houtput
      | applied k => exact stays_manage (l := .applied k) rfl houtput
      | flushFails k => exact stays_manage (l := .failed k) rfl houtput
      | _ => cases houtput
  · rw [viewerStep_eq_some hviewer]
    exact stays_of_eq rfl id

end Rows

section Viewers

/-- The row has ended in `status`. -/
def Final (s : State) (status : Status) : Prop := Over s ∧ ∀ row ∈ s.status, row = status

/-- What an upgrade between its reads holds. -/
def Phase.Ready (cfg : OutputConfig) (s : State) : Phase → Prop
  | .found (some status) => status.terminal = true → Final s status
  | .fetching status => Final s status ∧ s.out.session = none
  | .fetched status entries => Final s status ∧ entries = kept cfg s.out.accepted
  | _ => True

/-- The part of the output that was sent so far ends with the last chunk accepted. -/
def Current (cfg : OutputConfig) (s : State) (entries : List Entry) : Prop :=
  kept cfg s.out.accepted <:+ entries ∧ entries <:+ s.out.accepted

structure Serving (cfg : OutputConfig) (s : State) (v : Viewer) : Prop where
  ready : v.phase.Ready cfg s
  listening : v.phase = .connected → v.socket = .opened → ∃ entries,
    v.sent = entries.map .output ∧ Current cfg s entries ∧
    (v.reads = [] → v.subscribed = true ∧ s.out.session.isSome)
  answers : ∀ read ∈ v.reads, Over s ∧
    (read = .asked ∨ ∃ status, read = .answered (some status) ∧ Final s status)
  closed : v.phase = .connected → v.socket = .closed → ∃ entries final,
    v.sent = entries.map .output ++ [.status final] ∧ Current cfg s entries ∧ Final s final

theorem Final.frame {status : Status} (h : Final s status) (hstays : Over s → Stays s s') :
    Final s' status := by
  have hold := (hstays h.1).row
  exact ⟨fun row hmem => h.1 row (hold row hmem), fun row hmem => h.2 row (hold row hmem)⟩

theorem Phase.Ready.frame {phase : Phase} (h : phase.Ready cfg s)
    (haccepted : s'.out.accepted = s.out.accepted) (hstays : Over s → Stays s s') :
    phase.Ready cfg s' := by
  cases phase with
  | found status =>
    cases status with
    | none => trivial
    | some status => exact fun hterminal => (h hterminal).frame hstays
  | fetching status => exact ⟨h.1.frame hstays, (hstays h.1.1).session h.2⟩
  | fetched status entries => exact ⟨h.1.frame hstays, by rw [h.2, haccepted]⟩
  | _ => trivial

/-- While the accepted chunks stay and the row does once it has ended, a viewer is served as it
was. -/
theorem Serving.frame (h : Serving cfg s v) (haccepted : s'.out.accepted = s.out.accepted)
    (hsession : s.out.session.isSome → s'.out.session.isSome)
    (hstays : Over s → Stays s s') : Serving cfg s' v where
  ready := h.ready.frame haccepted hstays
  listening hphase hopened := by
    obtain ⟨entries, hsent, hcurrent, hlive⟩ := h.listening hphase hopened
    refine ⟨entries, hsent, ?_, fun hreads => ⟨(hlive hreads).1, hsession (hlive hreads).2⟩⟩
    unfold Current
    rw [haccepted]
    exact hcurrent
  answers read hmem := by
    obtain ⟨hover, hread⟩ := h.answers read hmem
    refine ⟨fun row hrow => hover row ((hstays hover).row row hrow), ?_⟩
    rcases hread with hasked | ⟨status, hstatus, hfinal⟩
    · exact .inl hasked
    · exact .inr ⟨status, hstatus, hfinal.frame hstays⟩
  closed hphase hclosed := by
    obtain ⟨entries, final, hsent, hcurrent, hfinal⟩ := h.closed hphase hclosed
    refine ⟨entries, final, hsent, ?_, hfinal.frame hstays⟩
    unfold Current
    rw [haccepted]
    exact hcurrent

theorem Final.self {status : Status} (hrow : s.status = some status)
    (hterminal : status.terminal = true) : Final s status := by
  refine ⟨?_, ?_⟩
  · rintro row hmem
    rw [Option.mem_def, hrow] at hmem
    cases hmem
    exact hterminal
  · rintro row hmem
    rw [Option.mem_def, hrow] at hmem
    cases hmem
    rfl

theorem serving_early (hphase : v.phase ≠ .connected) (hreads : v.reads = [])
    (hready : v.phase.Ready cfg s) : Serving cfg s v where
  ready := hready
  listening hconnected := absurd hconnected hphase
  answers read hmem := by simp [hreads] at hmem
  closed hconnected := absurd hconnected hphase

theorem Serving.withSocket (h : Serving cfg s v) {socket : Socket} (hopened : socket ≠ .opened)
    (hclosed : socket ≠ .closed) : Serving cfg s { v with socket := socket } where
  ready := h.ready
  listening _ hagain := absurd hagain hopened
  answers := h.answers
  closed _ hagain := absurd hagain hclosed

theorem Serving.unsubscribe (h : Serving cfg s v) (hsocket : v.socket ≠ .opened) :
    Serving cfg s { v with subscribed := false } where
  ready := h.ready
  listening _ hopened := absurd hopened hsocket
  answers := h.answers
  closed := h.closed

theorem current_kept : Current cfg s (kept cfg s.out.accepted) := by
  refine ⟨List.suffix_refl _, ?_⟩
  unfold kept
  split_ifs
  · exact List.drop_suffix _ _
  · exact List.suffix_refl _

theorem buffer_eq_kept (h : Sane cfg s) {entries : List Entry} (hbuffer : s.buffer = some entries) :
    entries = kept cfg s.out.accepted := by
  obtain ⟨session, hsession, rfl⟩ := Option.map_eq_some_iff.mp hbuffer
  exact h.sound.buffered session hsession

theorem Serving.handleUpgrade (hsent : v.sent = []) (hreads : v.reads = [])
    {buffer historicalOutput : Option (List Entry)} {taskStatus : Status}
    (hlive : taskStatus.terminal = false → historicalOutput = none ∧ s.out.session.isSome ∧
      buffer = some (kept cfg s.out.accepted))
    (hended : taskStatus.terminal = true → Final s taskStatus ∧
      historicalOutput = some (kept cfg s.out.accepted)) :
    Serving cfg s (handleUpgrade buffer taskStatus historicalOutput v) := by
  unfold TaskStream.handleUpgrade
  split_ifs with hopened
  · rw [handleTaskStreamConnection_eq (by exact hopened)]
    cases hterminal : taskStatus.terminal with
    | true =>
      obtain ⟨hfinal, rfl⟩ := hended hterminal
      refine ⟨trivial, ?_, ?_, ?_⟩
      · rintro _ ⟨⟩
      · simp [hreads]
      · intro _ _
        refine ⟨kept cfg s.out.accepted, taskStatus, ?_, current_kept, hfinal⟩
        simp [hsent]
    | false =>
      obtain ⟨rfl, hsession, rfl⟩ := hlive hterminal
      refine ⟨trivial, ?_, ?_, ?_⟩
      · intro _ _
        refine ⟨kept cfg s.out.accepted, ?_, current_kept, fun _ => ⟨rfl, hsession⟩⟩
        simp [hsent]
      · simp [hreads]
      · intro _ hclosed
        have hsocket : v.socket = .closed := hclosed
        rw [hopened] at hsocket
        cases hsocket
  · exact serving_early (by rintro ⟨⟩) hreads trivial

theorem Serving.proceed (h : Serving cfg s v) (hsane : Sane cfg s)
    (htraced : Traced zoneName s.out.accepted v)
    (hfits : v.attaches zoneName = true → s.out.session.isSome)
    (hproceed : handleTaskStreamUpgrade zoneName s.buffer v = some v') : Serving cfg s v' := by
  have hready := h.ready
  unfold handleTaskStreamUpgrade at hproceed
  split at hproceed
  case h_1 hphase =>
    cases hproceed
    exact serving_early (by rintro ⟨⟩) (htraced.early (by simp [hphase])).2.2 trivial
  case h_2 status hphase =>
    rw [hphase] at hready
    obtain ⟨hsent, -, hreads⟩ := htraced.early (by simp [hphase])
    split_ifs at hproceed with hmismatch hterminal
    · cases hproceed
      exact serving_early (by rintro ⟨⟩) hreads trivial
    · have hfinal := hready hterminal
      cases hbuffer : s.buffer with
      | some entries =>
        rw [hbuffer] at hproceed
        cases hproceed
        exact serving_early (by rintro ⟨⟩) hreads ⟨hfinal, buffer_eq_kept hsane hbuffer⟩
      | none =>
        rw [hbuffer] at hproceed
        cases hproceed
        have hnone : s.out.session = none := Option.map_eq_none_iff.mp hbuffer
        exact serving_early (by rintro ⟨⟩) hreads ⟨hfinal, hnone⟩
    · cases hproceed
      have hattaches : v.attaches zoneName = true := by
        simp [Viewer.attaches, hphase, hmismatch, hterminal]
      obtain ⟨session, hsession⟩ := Option.isSome_iff_exists.mp (hfits hattaches)
      have hbuffer : s.buffer = some session.buffer := by rw [State.buffer, hsession]; rfl
      refine Serving.handleUpgrade hsent hreads (fun _ => ⟨rfl, ?_, ?_⟩) ?_
      · rw [hsession]
        rfl
      · rw [hbuffer, buffer_eq_kept hsane hbuffer]
      · exact fun hagain => absurd hagain hterminal
  case h_3 status entries hphase =>
    cases hproceed
    rw [hphase] at hready
    have hfetched := htraced.fetched
    rw [hphase] at hfetched
    obtain ⟨hsent, -, hreads⟩ := htraced.early (by simp [hphase])
    refine Serving.handleUpgrade hsent hreads ?_ fun _ => ⟨hready.1, ?_⟩
    · intro hlive
      rw [hfetched.1] at hlive
      cases hlive
    · rw [hready.2]
  case h_4 => cases hproceed

theorem Serving.statusRead (h : Serving cfg s v) {k : ℕ} (hrow : s.status ≠ none)
    (hread : onRead k (fun read => if read = .asked then some (.answered s.status) else none) v =
      some v') : Serving cfg s v' := by
  obtain ⟨read, read', hget, hasked, rfl⟩ := onRead_eq_some hread
  obtain ⟨-, hsome⟩ := Option.ite_none_right_eq_some.mp hasked
  cases hsome
  obtain ⟨status, hstatus⟩ := Option.ne_none_iff_exists'.mp hrow
  have hover := (h.answers read (List.mem_of_getElem? hget)).1
  have hfinal : Final s status := Final.self hstatus (hover status hstatus)
  refine ⟨h.ready, ?_, ?_, h.closed⟩
  · intro hphase hopened
    obtain ⟨entries, hsent, hcurrent, -⟩ := h.listening hphase hopened
    refine ⟨entries, hsent, hcurrent, fun hreads => ?_⟩
    have hnone : v.reads = [] := by simpa using hreads
    simp [hnone] at hget
  · intro other hmem
    rcases List.mem_or_eq_of_mem_set hmem with hold | rfl
    · exact h.answers other hold
    · exact ⟨hover, .inr ⟨status, by rw [hstatus], hfinal⟩⟩

theorem Serving.convey (h : Serving cfg s v) {k : ℕ}
    (hconvey : v.reads[k]?.bind { v with reads := v.reads.eraseIdx k }.convey = some v') :
    Serving cfg s v' := by
  obtain ⟨read, hget, hread⟩ := Option.bind_eq_some_iff.mp hconvey
  obtain ⟨-, rfl | ⟨status, rfl, hfinal⟩⟩ := h.answers read (List.mem_of_getElem? hget)
  · cases hread
  cases hread
  have hrest : ∀ read ∈ v.reads.eraseIdx k, Over s ∧
      (read = .asked ∨ ∃ status, read = .answered (some status) ∧ Final s status) :=
    fun read hmem => h.answers read (List.mem_of_mem_eraseIdx hmem)
  by_cases hopened : v.socket = .opened
  · rw [Viewer.send_of_opened (by exact hopened), Viewer.close_of_opened (by exact hopened)]
    refine ⟨h.ready, ?_, hrest, ?_⟩
    · rintro _ ⟨⟩
    · intro hphase _
      obtain ⟨entries, hsent, hcurrent, -⟩ := h.listening hphase hopened
      refine ⟨entries, status, ?_, hcurrent, hfinal⟩
      rw [hsent]
      rfl
  · simp only [Viewer.send, Viewer.close, hopened, if_false]
    exact ⟨h.ready, fun _ hagain => absurd hagain hopened, hrest, h.closed⟩

/-- A chunk comes while the row has not ended, and finds every open viewer subscribed. -/
theorem Serving.write (h : Serving cfg s v) (hover : ¬ Over s) (hnotice : isNotice entry = false)
    (haccepted : s'.out.accepted = s.out.accepted ++ [entry])
    (hsession : s.out.session.isSome → s'.out.session.isSome) :
    Serving cfg s' (if v.subscribed then v.hear entry else v) := by
  have hreads : v.reads = [] := by
    by_contra hreads
    obtain ⟨read, hmem⟩ := List.exists_mem_of_ne_nil _ hreads
    exact hover (h.answers read hmem).1
  have hready : v.phase.Ready cfg s' := by
    have hready := h.ready
    cases hphase : v.phase with
    | found status =>
      rw [hphase] at hready
      cases status with
      | none => trivial
      | some status => exact fun hterminal => absurd (hready hterminal).1 hover
    | fetching status =>
      rw [hphase] at hready
      exact absurd hready.1.1 hover
    | fetched status entries =>
      rw [hphase] at hready
      exact absurd hready.1.1 hover
    | _ => trivial
  have hclosed : v.phase = .connected → v.socket ≠ .closed := by
    intro hphase hclosed
    obtain ⟨_, _, _, _, hfinal⟩ := h.closed hphase hclosed
    exact hover hfinal.1
  cases hsubscribed : v.subscribed with
  | false =>
    refine ⟨hready, ?_, by simp [hreads], fun hphase hagain => absurd hagain (hclosed hphase)⟩
    intro hphase hopened
    obtain ⟨-, -, -, hlive⟩ := h.listening hphase hopened
    rw [(hlive hreads).1] at hsubscribed
    cases hsubscribed
  | true =>
    rw [if_pos rfl]
    refine ⟨by rwa [Viewer.hear_phase], ?_, ?_, ?_⟩
    · rw [Viewer.hear_phase, Viewer.hear_socket]
      intro hphase hopened
      obtain ⟨entries, hsent, ⟨hkept, hpart⟩, hlive⟩ := h.listening hphase hopened
      have hhear : v.hear entry = { v with sent := v.sent ++ [.output entry] } := by
        simp [Viewer.hear, Viewer.send, hopened, hnotice]
      rw [hhear]
      refine ⟨entries ++ [entry], by simp [hsent], ?_, fun _ => ?_⟩
      · unfold Current
        rw [haccepted, ← TaskOutput.splice_kept]
        exact ⟨(splice_suffix _).trans (List.suffix_append_self_iff.mpr hkept),
          List.suffix_append_self_iff.mpr hpart⟩
      · exact ⟨hsubscribed, hsession (hlive hreads).2⟩
    · have hhear : (v.hear entry).reads = v.reads := by
        by_cases hopened : v.socket = .opened <;>
          simp [Viewer.hear, Viewer.send, hopened, hnotice]
      rw [hhear, hreads]
      simp
    · rw [Viewer.hear_phase, Viewer.hear_socket]
      exact fun hphase hagain => absurd hagain (hclosed hphase)

/-- The notice that ends the session. -/
theorem Serving.conclude (h : Serving cfg s v) (hover : Over s) (hnotice : isNotice entry = true)
    (haccepted : s'.out.accepted = s.out.accepted) (hrow : s'.status = s.status)
    (hnone : s'.out.session = none) :
    Serving cfg s' { (if v.subscribed then v.hear entry else v) with subscribed := false } := by
  have hstays : Over s → Stays s s' := fun _ => stays_of_eq hrow fun _ => hnone
  have hover' : Over s' := by
    unfold Over
    rw [hrow]
    exact hover
  have hframe : Serving cfg { s' with out := { s'.out with session := s.out.session } } v :=
    h.frame haccepted id fun _ => stays_of_eq hrow id
  rw [unsubscribed_notice hnotice]
  refine ⟨h.ready.frame haccepted hstays, ?_, ?_, hframe.closed⟩
  · intro hphase hopened
    obtain ⟨entries, hsent, hcurrent, hlive⟩ := hframe.listening hphase hopened
    refine ⟨entries, hsent, hcurrent, fun hreads => ?_⟩
    have hopened' : v.socket = .opened := hopened
    by_cases hsubscribed : v.subscribed = true
    · simp [hsubscribed, hopened'] at hreads
    · simp only [hsubscribed] at hreads
      exact absurd (hlive hreads).1 hsubscribed
  · intro read hmem
    dsimp only at hmem
    split_ifs at hmem
    · rcases List.mem_append.mp hmem with hold | hnew
      · exact hframe.answers read hold
      · exact ⟨hover', .inl (List.mem_singleton.mp hnew)⟩
    · exact hframe.answers read hmem

end Viewers

section Runs

structure Delivering (cfg : OutputConfig) (zoneName : String) (s : State) : Prop where
  sane : Sane cfg s
  tracked : Tracked zoneName s
  serving : ∀ v ∈ s.viewers, Serving cfg s v

/-- What a step does to the viewers when it is none of theirs. -/
theorem serving_aside (h : ∀ v ∈ s.viewers, Serving cfg s v) (hviewers : s'.viewers = s.viewers)
    (haccepted : s'.out.accepted = s.out.accepted)
    (hsession : s.out.session.isSome → s'.out.session.isSome)
    (hstays : Over s → Stays s s') : ∀ v ∈ s'.viewers, Serving cfg s' v := by
  rw [hviewers]
  exact fun v hmem => (h v hmem).frame haccepted hsession hstays

theorem accepted_create : (TaskOutput.create cfg out).accepted = out.accepted := by
  unfold TaskOutput.create
  split_ifs <;> rfl

theorem session_create (h : out.session.isSome) :
    (TaskOutput.create cfg out).session.isSome := by
  unfold TaskOutput.create
  split_ifs
  · exact h
  · rfl

theorem accepted_finalize : (TaskOutput.finalize out).accepted = out.accepted := by
  have hstep : TaskOutput.step ⟨true, "", 0⟩ out .finalize = some (TaskOutput.finalize out) := rfl
  exact accepted_step hstep (by rintro _ _ _ ⟨⟩)

theorem Delivering.dispatchStep (h : Delivering cfg zoneName s)
    (hstays : Over s → Stays s s')
    (hstep : dispatchStep cfg s l = some s') : ∀ v ∈ s'.viewers, Serving cfg s' v := by
  cases l with
  | conclude =>
    obtain ⟨⟨hstage, -⟩, hsome⟩ := Option.ite_none_right_eq_some.mp hstep
    cases hsome
    have hover := h.sane.late (by rw [hstage]; rfl)
    intro v' hmem
    obtain ⟨_, hnotified, rfl⟩ := List.mem_map.mp hmem
    obtain ⟨v, hv, rfl⟩ := List.mem_map.mp hnotified
    exact (h.serving v hv).conclude hover (by decide) rfl rfl rfl
  | start =>
    obtain ⟨-, hsome⟩ := Option.ite_none_right_eq_some.mp hstep
    cases hsome
    exact serving_aside h.serving rfl accepted_create session_create hstays
  | finish =>
    obtain ⟨-, hsome⟩ := Option.ite_none_right_eq_some.mp hstep
    cases hsome
    refine serving_aside h.serving rfl accepted_finalize (fun hsession => ?_) hstays
    exact finalize_session.trans hsession
  | settle =>
    simp only [TaskStream.dispatchStep] at hstep
    split at hstep
    · cases hstep
      exact serving_aside h.serving rfl rfl id hstays
    · cases hstep
  | settleFails =>
    simp only [TaskStream.dispatchStep] at hstep
    split at hstep
    · cases hstep
      exact serving_aside h.serving rfl rfl id hstays
    · cases hstep
  | pick | mark | markFails | returns success cancelled | throws =>
    obtain ⟨-, hsome⟩ := Option.ite_none_right_eq_some.mp hstep
    cases hsome
    exact serving_aside h.serving rfl rfl id hstays
  | _ => cases hstep

theorem Delivering.manage (h : Delivering cfg zoneName s) {l : TaskOutput.Label}
    (hl : alone l = true) (hstep : s.manage cfg l = some s') :
    ∀ v ∈ s'.viewers, Serving cfg s' v := by
  obtain ⟨out, hout, rfl⟩ := Option.map_eq_some_iff.mp hstep
  have hwrite : ∀ stream data now, l ≠ .write stream data now := by
    rintro _ _ _ rfl
    cases hl
  refine serving_aside h.serving rfl (accepted_step hout hwrite) (fun hsession => ?_) ?_
  · exact (session_alone hl hout).trans hsession
  · exact fun _ => stays_manage hl hstep

theorem Delivering.outputStep (h : Delivering cfg zoneName s) (hfits : Fits zoneName s l)
    (hstays : Over s → Stays s s')
    (hstep : outputStep cfg s l = some s') : ∀ v ∈ s'.viewers, Serving cfg s' v := by
  cases l with
  | write stream data now =>
    simp only [TaskStream.outputStep] at hstep
    split_ifs at hstep with hsession
    · cases hstep
      obtain ⟨hwrites, hnotice⟩ := hfits hsession
      have hover := h.sane.active (Stage.active_of_writes hwrites).1
      obtain ⟨session, hsome⟩ := Option.isSome_iff_exists.mp hsession
      intro v' hmem
      obtain ⟨v, hv, rfl⟩ := List.mem_map.mp hmem
      refine (h.serving v hv).write hover hnotice ?_ fun _ => ?_
      · simp only [State.notify, TaskOutput.write, hsome]
      · simp only [State.notify, TaskOutput.write, hsome]
        rfl
    · cases hstep
      exact h.serving
  | timer => exact h.manage (l := .timer) rfl hstep
  | looseTimer => exact h.manage (l := .looseTimer) rfl hstep
  | applied k => exact h.manage (l := .applied k) rfl hstep
  | flushFails k => exact h.manage (l := .failed k) rfl hstep
  | overwrite status =>
    cases hstep
    exact serving_aside h.serving rfl rfl id hstays
  | destroy =>
    cases hstep
    exact serving_aside h.serving rfl rfl id hstays
  | _ => cases hstep

theorem Delivering.onViewer (h : Delivering cfg zoneName s) {k : ℕ} {f : Viewer → Option Viewer}
    (hstep : s.onViewer k f = some s')
    (hf : ∀ v v', s.viewers[k]? = some v → f v = some v' → Serving cfg s v →
      Traced zoneName s.out.accepted v → Serving cfg s v') :
    ∀ v ∈ s'.viewers, Serving cfg s' v := by
  obtain ⟨v, v', hget, hfv, rfl⟩ := onViewer_eq_some hstep
  have hmem := List.mem_of_getElem? hget
  have hstays : Over s → Stays s { s with viewers := s.viewers.set k v' } :=
    fun _ => stays_of_eq rfl id
  intro other hother
  rcases List.mem_or_eq_of_mem_set hother with hold | rfl
  · exact (h.serving other hold).frame rfl id hstays
  · exact (hf v other hget hfv (h.serving v hmem) (h.tracked.viewers v hmem)).frame rfl id hstays

theorem Delivering.viewerStep (h : Delivering cfg zoneName s) (hfits : Fits zoneName s l)
    (hstep : viewerStep zoneName s l = some s') : ∀ v ∈ s'.viewers, Serving cfg s' v := by
  cases l with
  | upgrade scope =>
    cases hstep
    intro v hmem
    rcases List.mem_append.mp hmem with hold | hnew
    · exact (h.serving v hold).frame rfl id fun _ => stays_of_eq rfl id
    · rw [List.mem_singleton.mp hnew]
      exact serving_early (by rintro ⟨⟩) rfl trivial
  | rowRead k =>
    refine h.onViewer hstep fun v v' _ hf _ htraced => ?_
    obtain ⟨hphase, hsome⟩ := Option.ite_none_right_eq_some.mp hf
    cases hsome
    refine serving_early (by rintro ⟨⟩) (htraced.early (by simp [hphase])).2.2 ?_
    cases hstatus : s.status with
    | none => trivial
    | some status => exact Final.self hstatus
  | rowFails k =>
    refine h.onViewer hstep fun v v' _ hf _ htraced => ?_
    obtain ⟨hphase, hsome⟩ := Option.ite_none_right_eq_some.mp hf
    cases hsome
    exact serving_early (by rintro ⟨⟩) (htraced.early (by simp [hphase])).2.2 trivial
  | outputRead k succeeds =>
    refine h.onViewer hstep fun v v' _ hf hserving htraced => ?_
    split at hf
    case h_1 status hphase =>
      cases hf
      have hready := hserving.ready
      rw [hphase] at hready
      refine serving_early (by rintro ⟨⟩) (htraced.early (by simp [hphase])).2.2 ⟨hready.1, ?_⟩
      have hsucceeds : succeeds = true := hfits
      rw [if_pos hsucceeds]
      exact (h.sane.sound.stored (.inl hready.2)).1
    case h_2 => cases hf
  | proceed k =>
    exact h.onViewer hstep fun v v' hget hf hserving htraced =>
      hserving.proceed h.sane htraced (hfits v hget) hf
  | statusRead k r =>
    exact h.onViewer hstep fun v v' _ hf hserving _ => hserving.statusRead hfits hf
  | statusFails k r => exact hfits.elim
  | convey k r => exact h.onViewer hstep fun v v' _ hf hserving _ => hserving.convey hf
  | leave k =>
    refine h.onViewer hstep fun v v' _ hf hserving _ => ?_
    obtain ⟨-, hsome⟩ := Option.ite_none_right_eq_some.mp hf
    cases hsome
    exact hserving.withSocket (by decide) (by decide)
  | unsubscribe k =>
    refine h.onViewer hstep fun v v' _ hf hserving _ => ?_
    split_ifs at hf with hopened
    cases hf
    exact hserving.unsubscribe hopened
  | _ => cases hstep

theorem Delivering.step (h : Delivering cfg zoneName s) (hfits : Fits zoneName s l)
    (hstep : step cfg zoneName s l = some s') : Delivering cfg zoneName s' := by
  refine ⟨h.sane.step hfits hstep, h.tracked.step hstep, ?_⟩
  have hstays := h.sane.stays hfits hstep
  rcases Option.or_eq_some_iff.mp hstep with hleft | ⟨-, hviewer⟩
  · rcases Option.or_eq_some_iff.mp hleft with hdispatch | ⟨-, houtput⟩
    · exact h.dispatchStep hstays hdispatch
    · exact h.outputStep hfits hstays houtput
  · exact h.viewerStep hfits hviewer

end Runs

end ZoneweaverAgent.TaskStream
