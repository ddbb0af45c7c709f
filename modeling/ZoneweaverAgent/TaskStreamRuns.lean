import ZoneweaverAgent.TaskStream
import Mathlib.Data.List.Infix

/-!
# What a viewer has been sent

Whatever the task, the output manager and the other viewers do between the awaits of an upgrade,
a viewer is sent one contiguous piece of the accepted chunks, in their order and none twice.
-/

namespace ZoneweaverAgent.TaskStream
open TaskOutput (Entry OutputConfig)
open Transition
open WsStreams (Scope)

variable {cfg : OutputConfig} {zoneName : String} {s s' : State} {v v' : Viewer}
  {out out' : TaskOutput.State} {accepted : List Entry} {entry : Entry}

section Statement

/-- What the messages were made of: the entries that were replayed, those the callback was called
with since, and the status that ends the stream. -/
structure Transcript (accepted : List Entry) (v : Viewer) (replay heard : List Entry)
    (final : Option Status) : Prop where
  sent : v.sent = (replay ++ heard.filter (fun entry => !isNotice entry)).map .output ++
    final.toList.map .status
  piece : replay ++ heard <:+: accepted
  ended : final.isSome → v.socket ≠ .opened
  current : v.socket = .opened → v.subscribed = true → replay ++ heard <:+ accepted

def Viewer.Faithful (accepted : List Entry) (v : Viewer) : Prop :=
  ∃ replay heard final, Transcript accepted v replay heard final

end Statement

section Output

/-- Every copy of the output is a piece of what was accepted. -/
structure Pieces (out : TaskOutput.State) : Prop where
  buffered : ∀ session ∈ out.session, session.buffer <:+ out.accepted
  issued : ∀ update ∈ out.updates, update.output <:+: out.accepted
  stored : out.output.getD [] <:+: out.accepted

theorem splice_suffix (buffer : List Entry) : TaskOutput.splice cfg buffer <:+ buffer := by
  unfold TaskOutput.splice
  split_ifs
  · exact List.drop_suffix _ _
  · exact List.suffix_refl _

theorem pieces_initial : Pieces .initial where
  buffered _ h := by cases h
  issued _ h := by cases h
  stored := List.infix_refl _

theorem Pieces.create (h : Pieces out) : Pieces (TaskOutput.create cfg out) := by
  unfold TaskOutput.create
  split_ifs
  · exact h
  · refine ⟨?_, h.issued, h.stored⟩
    rintro session hsession
    cases hsession
    exact List.nil_suffix

theorem Pieces.write (h : Pieces out) : Pieces (TaskOutput.write cfg out entry) := by
  unfold TaskOutput.write
  cases hsession : out.session with
  | none => exact h
  | some session =>
    have hmore : out.accepted <:+: out.accepted ++ [entry] := List.infix_append_left
    refine ⟨?_, fun update hmem => (h.issued update hmem).trans hmore, h.stored.trans hmore⟩
    rintro _ ⟨⟩
    exact (splice_suffix _).trans
      (List.suffix_append_self_iff.mpr (h.buffered session hsession))

theorem Pieces.resolve (h : Pieces out) (final : Bool) : Pieces (out.resolve final) := by
  cases final with
  | false => exact h
  | true => exact ⟨h.buffered, h.issued, h.stored⟩

theorem Pieces.flushToDb (h : Pieces out) (final : Bool) :
    Pieces (TaskOutput.flushToDb final out) := by
  cases hsession : out.session with
  | none =>
    simp only [TaskOutput.flushToDb, hsession]
    exact h.resolve final
  | some session =>
    by_cases hempty : session.buffer = []
    · simp only [TaskOutput.flushToDb, hsession, hempty, if_true]
      exact h.resolve final
    · have hflush : TaskOutput.flushToDb final out =
          { out with updates := out.updates ++ [⟨session.buffer, final⟩] } := by
        simp only [TaskOutput.flushToDb, hsession, hempty, if_false]
      rw [hflush]
      refine ⟨h.buffered, fun update hmem => ?_, h.stored⟩
      rcases List.mem_append.mp hmem with hold | hnew
      · exact h.issued update hold
      · rw [List.mem_singleton.mp hnew]
        exact (h.buffered session hsession).isInfix

theorem Pieces.quiet (h : Pieces out) {session : TaskOutput.Session}
    (hsession : out.session = some session) (timers : ℕ) : Pieces { out with
      session := some { session with flushTimer := false }, looseTimers := timers } where
  buffered := by
    rintro _ ⟨⟩
    exact h.buffered session hsession
  issued := h.issued
  stored := h.stored

theorem Pieces.finalize (h : Pieces out) : Pieces (TaskOutput.finalize out) := by
  cases hsession : out.session with
  | none =>
    have hfinalize : TaskOutput.finalize out = { out with finalized := true } := by
      simp only [TaskOutput.finalize, hsession]
    rw [hfinalize]
    exact ⟨h.buffered, h.issued, h.stored⟩
  | some session =>
    have hfinalize : TaskOutput.finalize out = TaskOutput.flushToDb true
        { out with session := some { session with flushTimer := false } } := by
      simp only [TaskOutput.finalize, hsession]
    rw [hfinalize]
    exact (h.quiet hsession out.looseTimers).flushToDb true

theorem Pieces.erase (h : Pieces out) (k : ℕ) :
    Pieces { out with updates := out.updates.eraseIdx k } where
  buffered := h.buffered
  issued update hmem := h.issued update (List.mem_of_mem_eraseIdx hmem)
  stored := h.stored

theorem Pieces.conclude (h : Pieces out) : Pieces (TaskOutput.conclude out) where
  buffered _ hnone := by cases hnone
  issued := h.issued
  stored := h.stored

theorem Pieces.step (h : Pieces out) {l : TaskOutput.Label}
    (hstep : TaskOutput.step cfg out l = some out') : Pieces out' := by
  cases l with
  | create =>
    cases hstep
    exact h.create
  | write stream data now =>
    cases hstep
    exact h.write
  | timer =>
    obtain ⟨session, hsession, rfl⟩ := Option.map_eq_some_iff.mp hstep
    exact (h.quiet (Option.filter_eq_some_iff.mp hsession).1 out.looseTimers).flushToDb false
  | looseTimer =>
    simp only [TaskOutput.step] at hstep
    split_ifs at hstep
    cases hstep
    apply Pieces.flushToDb
    exact ⟨h.buffered, h.issued, h.stored⟩
  | finalize =>
    cases hstep
    exact h.finalize
  | applied k =>
    obtain ⟨update, hupdate, rfl⟩ := Option.map_eq_some_iff.mp hstep
    have herased := h.erase k
    apply Pieces.resolve
    exact ⟨herased.buffered, herased.issued, h.issued update (List.mem_of_getElem? hupdate)⟩
  | failed k =>
    obtain ⟨update, -, rfl⟩ := Option.map_eq_some_iff.mp hstep
    exact (h.erase k).resolve update.final
  | conclude =>
    simp only [TaskOutput.step] at hstep
    split_ifs at hstep
    cases hstep
    exact h.conclude

theorem accepted_flushToDb (final : Bool) :
    (TaskOutput.flushToDb final out).accepted = out.accepted := by
  unfold TaskOutput.flushToDb TaskOutput.State.resolve
  grind

theorem accepted_resolve (final : Bool) : (out.resolve final).accepted = out.accepted := by
  cases final <;> rfl

/-- Only a chunk adds to what was accepted. -/
theorem accepted_step {l : TaskOutput.Label} (hstep : TaskOutput.step cfg out l = some out')
    (hwrite : ∀ stream data now, l ≠ .write stream data now) : out'.accepted = out.accepted := by
  cases l with
  | create =>
    cases hstep
    unfold TaskOutput.create
    split_ifs <;> rfl
  | write stream data now => exact absurd rfl (hwrite stream data now)
  | timer =>
    obtain ⟨session, -, rfl⟩ := Option.map_eq_some_iff.mp hstep
    exact accepted_flushToDb false
  | looseTimer =>
    simp only [TaskOutput.step] at hstep
    split_ifs at hstep
    cases hstep
    exact accepted_flushToDb false
  | finalize =>
    cases hstep
    unfold TaskOutput.finalize
    cases out.session with
    | none => rfl
    | some session => exact accepted_flushToDb true
  | applied k =>
    obtain ⟨update, -, rfl⟩ := Option.map_eq_some_iff.mp hstep
    exact accepted_resolve update.final
  | failed k =>
    obtain ⟨update, -, rfl⟩ := Option.map_eq_some_iff.mp hstep
    exact accepted_resolve update.final
  | conclude =>
    simp only [TaskOutput.step] at hstep
    split_ifs at hstep
    cases hstep
    rfl

end Output

section Viewers

@[simp] theorem filter_notice_append (heard : List Entry) :
    (heard ++ [entry]).filter (fun entry => !isNotice entry) =
      heard.filter (fun entry => !isNotice entry) ++ if isNotice entry then [] else [entry] := by
  rw [List.filter_append]
  cases hnotice : isNotice entry <;> simp [hnotice]

theorem Viewer.send_of_opened (h : v.socket = .opened) (messages : List Message) :
    v.send messages = { v with sent := v.sent ++ messages } := if_pos h

theorem Viewer.close_of_opened (h : v.socket = .opened) :
    v.close = { v with socket := .closed } := if_pos h

theorem handleTaskStreamConnection_eq (h : v.socket = .opened) (buffer : Option (List Entry))
    (taskStatus : Status) (historicalOutput : Option (List Entry)) :
    handleTaskStreamConnection buffer taskStatus historicalOutput v =
      if taskStatus.terminal then
        { v with
          sent := v.sent ++ (historicalOutput.getD (buffer.getD [])).map .output ++
            [.status taskStatus]
          socket := .closed }
      else
        { v with
          sent := v.sent ++ (historicalOutput.getD (buffer.getD [])).map .output
          subscribed := buffer.isSome } := by
  simp only [handleTaskStreamConnection, Viewer.send, Viewer.close, h, if_true]

/-- Past the comparison of the ticket's scope with the row. -/
def Phase.authorized : Phase → Bool
  | .fetching _ | .fetched _ _ | .connected => true
  | _ => false

/-- Stored output is read for a task that has ended. -/
def Phase.Holds (accepted : List Entry) : Phase → Prop
  | .fetching status => status.terminal = true
  | .fetched status entries => status.terminal = true ∧ entries <:+: accepted
  | _ => True

theorem Phase.Holds.append {phase : Phase} (h : phase.Holds accepted) :
    phase.Holds (accepted ++ [entry]) := by
  cases phase with
  | fetched status entries => exact ⟨h.1, h.2.trans List.infix_append_left⟩
  | _ => exact h

/-- What a viewer holds of the output, on its way to the connection and behind it. -/
structure Traced (zoneName : String) (accepted : List Entry) (v : Viewer) : Prop where
  fetched : v.phase.Holds accepted
  early : v.phase ≠ .connected → v.sent = [] ∧ v.subscribed = false ∧ v.reads = []
  faithful : v.Faithful accepted
  admitted : v.phase.authorized = true → scopeMismatch zoneName v.scope = false

theorem faithful_nil (hsent : v.sent = []) (hsubscribed : v.subscribed = false) :
    v.Faithful accepted := by
  refine ⟨[], [], none, ?_, List.nil_infix, ?_, ?_⟩
  · simpa using hsent
  · simp
  · simp [hsubscribed]

theorem traced_arriving (scope : Scope) : Traced zoneName accepted (.arriving scope) where
  fetched := trivial
  early _ := ⟨rfl, rfl, rfl⟩
  faithful := faithful_nil rfl rfl
  admitted h := by cases h

/-- A step of the upgrade before the connection. -/
theorem Traced.toPhase (h : Traced zoneName accepted v) (hearly : v.phase ≠ .connected)
    {phase : Phase} (hfetched : phase.Holds accepted)
    (hadmitted : phase.authorized = true → scopeMismatch zoneName v.scope = false) :
    Traced zoneName accepted { v with phase := phase } where
  fetched := hfetched
  early _ := h.early hearly
  faithful := faithful_nil (h.early hearly).1 (h.early hearly).2.1
  admitted := hadmitted

theorem Transcript.write {replay heard : List Entry} {final : Option Status}
    (h : Transcript accepted v replay heard final)
    (hunheard : v.socket = .opened → v.subscribed = false) :
    Transcript (accepted ++ [entry]) v replay heard final where
  sent := h.sent
  piece := h.piece.trans List.infix_append_left
  ended := h.ended
  current hopened hsubscribed := by
    rw [hunheard hopened] at hsubscribed
    cases hsubscribed

theorem Transcript.unsubscribe {replay heard : List Entry} {final : Option Status}
    (h : Transcript accepted v replay heard final) (reads : List Read) :
    Transcript accepted { v with subscribed := false, reads := reads } replay heard final where
  sent := h.sent
  piece := h.piece
  ended := h.ended
  current _ hsubscribed := by cases hsubscribed

/-- The callback, called with the entry that was accepted last. -/
theorem Transcript.hear {replay heard : List Entry} {final : Option Status}
    (h : Transcript accepted v replay heard final) (hopened : v.socket = .opened)
    (hsubscribed : v.subscribed = true) :
    Transcript (accepted ++ [entry]) (v.hear entry) replay (heard ++ [entry]) final := by
  have hfinal : final = none := by
    cases hfinal : final with
    | none => rfl
    | some status => exact absurd hopened (h.ended (by rw [hfinal]; rfl))
  have hcurrent : replay ++ (heard ++ [entry]) <:+ accepted ++ [entry] := by
    rw [← List.append_assoc]
    exact List.suffix_append_self_iff.mpr (h.current hopened hsubscribed)
  have hsent := h.sent
  subst hfinal
  rw [Viewer.hear, if_neg (not_not.mpr hopened)]
  split_ifs with hnotice
  · refine ⟨?_, hcurrent.isInfix, by simp, fun _ _ => hcurrent⟩
    simp [hsent, hnotice]
  · rw [Viewer.send_of_opened hopened]
    refine ⟨?_, hcurrent.isInfix, by simp, fun _ _ => hcurrent⟩
    simp [hsent, hnotice]

theorem Viewer.hear_phase : (v.hear entry).phase = v.phase := by
  unfold Viewer.hear Viewer.send
  split_ifs <;> rfl

theorem Viewer.hear_scope : (v.hear entry).scope = v.scope := by
  unfold Viewer.hear Viewer.send
  split_ifs <;> rfl

theorem Viewer.hear_socket : (v.hear entry).socket = v.socket := by
  unfold Viewer.hear Viewer.send
  split_ifs <;> rfl

theorem Traced.write (h : Traced zoneName accepted v) :
    Traced zoneName (accepted ++ [entry]) (if v.subscribed then v.hear entry else v) := by
  obtain ⟨replay, heard, final, htranscript⟩ := h.faithful
  cases hsubscribed : v.subscribed with
  | false =>
    refine ⟨?_, h.early, ⟨replay, heard, final, ?_⟩, h.admitted⟩
    · exact h.fetched.append
    · exact htranscript.write fun _ => hsubscribed
  | true =>
    have hphase : v.phase = .connected := by
      by_contra hearly
      rw [(h.early hearly).2.1] at hsubscribed
      cases hsubscribed
    rw [if_pos rfl]
    refine ⟨?_, ?_, ?_, ?_⟩
    · rw [Viewer.hear_phase, hphase]
      trivial
    · rw [Viewer.hear_phase]
      exact fun hearly => absurd hphase hearly
    · by_cases hopened : v.socket = .opened
      · exact ⟨replay, heard ++ [entry], final, htranscript.hear hopened hsubscribed⟩
      · rw [Viewer.hear, if_pos hopened]
        refine ⟨replay, heard, final, ?_⟩
        exact (htranscript.unsubscribe v.reads).write fun hagain => absurd hagain hopened
    · rw [Viewer.hear_phase, Viewer.hear_scope]
      exact h.admitted

/-- The end of the session makes an open subscriber read the row. -/
theorem unsubscribed_notice (hnotice : isNotice entry = true) :
    { (if v.subscribed then v.hear entry else v) with subscribed := false } =
      { v with
        subscribed := false
        reads := if v.subscribed = true ∧ v.socket = .opened then v.reads ++ [.asked]
          else v.reads } := by
  cases hsubscribed : v.subscribed with
  | false => simp
  | true =>
    unfold Viewer.hear
    by_cases hopened : v.socket = .opened <;> simp [hopened, hnotice]

theorem Traced.unsubscribe (h : Traced zoneName accepted v) {reads : List Read}
    (hreads : v.subscribed = false → reads = v.reads) :
    Traced zoneName accepted { v with subscribed := false, reads := reads } where
  fetched := h.fetched
  early hearly := by
    obtain ⟨hsent, hsubscribed, hnone⟩ := h.early hearly
    exact ⟨hsent, rfl, (hreads hsubscribed).trans hnone⟩
  faithful := by
    obtain ⟨replay, heard, final, htranscript⟩ := h.faithful
    exact ⟨replay, heard, final, htranscript.unsubscribe reads⟩
  admitted := h.admitted

theorem Traced.withReads (h : Traced zoneName accepted v) {reads : List Read}
    (hreads : v.reads = [] → reads = []) :
    Traced zoneName accepted { v with reads := reads } where
  fetched := h.fetched
  early hearly := by
    obtain ⟨hsent, hsubscribed, hnone⟩ := h.early hearly
    exact ⟨hsent, hsubscribed, hreads hnone⟩
  faithful := by
    obtain ⟨replay, heard, final, htranscript⟩ := h.faithful
    exact ⟨replay, heard, final,
      htranscript.sent, htranscript.piece, htranscript.ended, htranscript.current⟩
  admitted := h.admitted

theorem Traced.withSocket (h : Traced zoneName accepted v) {socket : Socket}
    (hsocket : socket ≠ .opened) : Traced zoneName accepted { v with socket := socket } where
  fetched := h.fetched
  early := h.early
  faithful := by
    obtain ⟨replay, heard, final, htranscript⟩ := h.faithful
    exact ⟨replay, heard, final, htranscript.sent, htranscript.piece, fun _ => hsocket,
      fun hopened => absurd hopened hsocket⟩
  admitted := h.admitted

theorem Traced.close (h : Traced zoneName accepted v) : Traced zoneName accepted v.close := by
  unfold Viewer.close
  split_ifs
  · exact h.withSocket (by decide)
  · exact h

theorem Traced.handleUpgrade (h : Traced zoneName accepted v) (hearly : v.phase ≠ .connected)
    (hadmitted : scopeMismatch zoneName v.scope = false) {buffer historicalOutput}
    {taskStatus : Status} (hbuffer : ∀ entries ∈ buffer, entries <:+ accepted)
    (hhistorical : ∀ entries ∈ historicalOutput,
      entries <:+: accepted ∧ taskStatus.terminal = true) :
    Traced zoneName accepted (handleUpgrade buffer taskStatus historicalOutput v) := by
  obtain ⟨hsent, -⟩ := h.early hearly
  unfold TaskStream.handleUpgrade
  split_ifs with hopened
  · have hpiece : historicalOutput.getD (buffer.getD []) <:+: accepted := by
      cases historicalOutput with
      | some entries => exact (hhistorical entries rfl).1
      | none =>
        cases buffer with
        | none => exact List.nil_infix
        | some entries => exact (hbuffer entries rfl).isInfix
    rw [handleTaskStreamConnection_eq (by exact hopened)]
    split_ifs with hterminal
    · refine ⟨trivial, fun hagain => absurd rfl hagain, ?_, fun _ => hadmitted⟩
      refine ⟨historicalOutput.getD (buffer.getD []), [], some taskStatus, ?_, ?_, ?_, ?_⟩
      · simp [hsent]
      · rwa [List.append_nil]
      · simp
      · simp
    · refine ⟨trivial, fun hagain => absurd rfl hagain, ?_, fun _ => hadmitted⟩
      refine ⟨historicalOutput.getD (buffer.getD []), [], none, ?_, ?_, ?_, ?_⟩
      · simp [hsent]
      · rwa [List.append_nil]
      · simp
      · intro _ hsession
        obtain ⟨entries, rfl⟩ := Option.isSome_iff_exists.mp hsession
        have hnone : historicalOutput = none := by
          by_contra hsome
          obtain ⟨stored, hstored⟩ := Option.ne_none_iff_exists'.mp hsome
          exact hterminal (hhistorical stored hstored).2
        subst hnone
        simpa using hbuffer entries rfl
  · exact h.toPhase hearly trivial (by rintro ⟨⟩)

end Viewers

section Runs

theorem onViewer_eq_some {k : ℕ} {f : Viewer → Option Viewer} (h : s.onViewer k f = some s') :
    ∃ v v', s.viewers[k]? = some v ∧ f v = some v' ∧
      s' = { s with viewers := s.viewers.set k v' } := by
  obtain ⟨v', hbind, rfl⟩ := Option.map_eq_some_iff.mp h
  obtain ⟨v, hget, hf⟩ := Option.bind_eq_some_iff.mp hbind
  exact ⟨v, v', hget, hf, rfl⟩

theorem onRead_eq_some {k : ℕ} {f : Read → Option Read} (h : onRead k f v = some v') :
    ∃ read read', v.reads[k]? = some read ∧ f read = some read' ∧
      v' = { v with reads := v.reads.set k read' } := by
  obtain ⟨read', hbind, rfl⟩ := Option.map_eq_some_iff.mp h
  obtain ⟨read, hget, hf⟩ := Option.bind_eq_some_iff.mp hbind
  exact ⟨read, read', hget, hf, rfl⟩

structure Tracked (zoneName : String) (s : State) : Prop where
  pieces : Pieces s.out
  viewers : ∀ v ∈ s.viewers, Traced zoneName s.out.accepted v

theorem tracked_initial (status : Status) : Tracked zoneName (.initial status) where
  pieces := pieces_initial
  viewers _ hmem := by cases hmem

/-- A step of the output manager that accepts no chunk. -/
theorem Tracked.output (h : Tracked zoneName s) {l : TaskOutput.Label}
    (hstep : TaskOutput.step cfg s.out l = some s'.out)
    (hwrite : ∀ stream data now, l ≠ .write stream data now) (hviewers : s'.viewers = s.viewers) :
    Tracked zoneName s' where
  pieces := h.pieces.step hstep
  viewers := by
    rw [hviewers, accepted_step hstep hwrite]
    exact h.viewers

theorem Tracked.aside (h : Tracked zoneName s) (hout : s'.out = s.out)
    (hviewers : s'.viewers = s.viewers) : Tracked zoneName s' where
  pieces := by rw [hout]; exact h.pieces
  viewers := by rw [hviewers, hout]; exact h.viewers

theorem Tracked.onViewer (h : Tracked zoneName s) {k : ℕ} {f : Viewer → Option Viewer}
    (hstep : s.onViewer k f = some s')
    (hf : ∀ v v', f v = some v' → Traced zoneName s.out.accepted v →
      Traced zoneName s.out.accepted v') : Tracked zoneName s' := by
  obtain ⟨v, v', hget, hfv, rfl⟩ := onViewer_eq_some hstep
  refine ⟨h.pieces, ?_⟩
  intro other hmem
  rcases List.mem_or_eq_of_mem_set hmem with hold | rfl
  · exact h.viewers other hold
  · exact hf v other hfv (h.viewers v (List.mem_of_getElem? hget))

theorem Tracked.write (h : Tracked zoneName s) (hsession : s.out.session.isSome) :
    Tracked zoneName
      (State.notify { s with out := TaskOutput.write cfg s.out entry } entry) := by
  refine ⟨h.pieces.write, ?_⟩
  obtain ⟨session, hsession⟩ := Option.isSome_iff_exists.mp hsession
  have haccepted : (TaskOutput.write cfg s.out entry).accepted = s.out.accepted ++ [entry] := by
    simp only [TaskOutput.write, hsession]
  intro v' hmem
  obtain ⟨v, hv, rfl⟩ := List.mem_map.mp hmem
  change Traced zoneName (TaskOutput.write cfg s.out entry).accepted _
  rw [haccepted]
  exact (h.viewers v hv).write

theorem Tracked.conclude (h : Tracked zoneName s) (hnotice : isNotice entry = true) :
    Tracked zoneName
      { (s.notify entry).unsubscribeAll with
        stage := .finished
        out := TaskOutput.conclude s.out } := by
  refine ⟨h.pieces.conclude, ?_⟩
  intro v' hmem
  obtain ⟨_, hnotified, rfl⟩ := List.mem_map.mp hmem
  obtain ⟨v, hv, rfl⟩ := List.mem_map.mp hnotified
  rw [unsubscribed_notice hnotice]
  apply (h.viewers v hv).unsubscribe
  intro hsubscribed
  simp [hsubscribed]

/-- The session is there while the upgrade reads its buffer. -/
theorem Pieces.buffer (h : Pieces s.out) : ∀ entries ∈ s.buffer, entries <:+ s.out.accepted := by
  intro entries hbuffer
  obtain ⟨session, hsession, rfl⟩ := Option.map_eq_some_iff.mp hbuffer
  exact h.buffered session hsession

theorem Traced.proceed (h : Traced zoneName s.out.accepted v) (hpieces : Pieces s.out)
    (hproceed : handleTaskStreamUpgrade zoneName s.buffer v = some v') :
    Traced zoneName s.out.accepted v' := by
  unfold handleTaskStreamUpgrade at hproceed
  split at hproceed
  case h_1 hphase =>
    cases hproceed
    exact h.toPhase (by simp [hphase]) trivial (by rintro ⟨⟩)
  case h_2 status hphase =>
    have hearly : v.phase ≠ .connected := by simp [hphase]
    split_ifs at hproceed with hmismatch hterminal
    · cases hproceed
      exact h.toPhase hearly trivial (by rintro ⟨⟩)
    · have hadmitted := Bool.eq_false_iff.mpr hmismatch
      cases hbuffer : s.buffer with
      | some entries =>
        rw [hbuffer] at hproceed
        cases hproceed
        have hpiece := (hpieces.buffer entries hbuffer).isInfix
        exact h.toPhase hearly ⟨hterminal, hpiece⟩ fun _ => hadmitted
      | none =>
        rw [hbuffer] at hproceed
        cases hproceed
        exact h.toPhase hearly hterminal fun _ => hadmitted
    · cases hproceed
      exact h.handleUpgrade hearly (Bool.eq_false_iff.mpr hmismatch) hpieces.buffer
        (by rintro _ ⟨⟩)
  case h_3 status entries hphase =>
    cases hproceed
    have hfetched := h.fetched
    rw [hphase] at hfetched
    refine h.handleUpgrade (by simp [hphase]) (h.admitted (by rw [hphase]; rfl)) hpieces.buffer ?_
    rintro _ ⟨⟩
    exact hfetched.symm
  case h_4 => cases hproceed

theorem Traced.convey (h : Traced zoneName accepted v) (hphase : v.phase = .connected)
    {read : Read} (hconvey : v.convey read = some v') : Traced zoneName accepted v' := by
  cases read with
  | asked => cases hconvey
  | failed =>
    cases hconvey
    exact h.close
  | answered status =>
    cases hconvey
    by_cases hopened : v.socket = .opened
    · rw [Viewer.send_of_opened hopened, Viewer.close_of_opened (by exact hopened)]
      obtain ⟨replay, heard, final, htranscript⟩ := h.faithful
      have hfinal : final = none := by
        cases hfinal : final with
        | none => rfl
        | some status => exact absurd hopened (htranscript.ended (by rw [hfinal]; rfl))
      refine ⟨h.fetched, fun hearly => absurd hphase hearly, ?_, h.admitted⟩
      refine ⟨replay, heard, some (status.getD .completed), ?_, htranscript.piece, by simp, by simp⟩
      simp [htranscript.sent, hfinal]
    · have hsame : v.send [.status (status.getD .completed)] = v := if_neg hopened
      rw [hsame]
      exact h.close

theorem Traced.onRead (h : Traced zoneName accepted v) {k : ℕ} {f : Read → Option Read}
    (hread : onRead k f v = some v') : Traced zoneName accepted v' := by
  obtain ⟨read, read', hget, -, rfl⟩ := onRead_eq_some hread
  apply h.withReads
  intro hnone
  simp [hnone] at hget

theorem Traced.conveyed (h : Traced zoneName accepted v) {k : ℕ}
    (hconvey : v.reads[k]?.bind { v with reads := v.reads.eraseIdx k }.convey = some v') :
    Traced zoneName accepted v' := by
  obtain ⟨read, hget, hread⟩ := Option.bind_eq_some_iff.mp hconvey
  have hphase : v.phase = .connected := by
    by_contra hearly
    simp [(h.early hearly).2.2] at hget
  have hrest : Traced zoneName accepted { v with reads := v.reads.eraseIdx k } := by
    apply h.withReads
    intro hnone
    rw [hnone, List.eraseIdx_nil]
  exact hrest.convey hphase hread

theorem Tracked.dispatchStep (h : Tracked zoneName s) {l : Label}
    (hstep : dispatchStep cfg s l = some s') : Tracked zoneName s' := by
  cases l with
  | start =>
    obtain ⟨-, hsome⟩ := Option.ite_none_right_eq_some.mp hstep
    cases hsome
    have hcreate : TaskOutput.step cfg s.out .create = some (TaskOutput.create cfg s.out) := rfl
    exact h.output hcreate (by rintro _ _ _ ⟨⟩) rfl
  | finish =>
    obtain ⟨-, hsome⟩ := Option.ite_none_right_eq_some.mp hstep
    cases hsome
    have hfinalize : TaskOutput.step cfg s.out .finalize = some (TaskOutput.finalize s.out) := rfl
    exact h.output hfinalize (by rintro _ _ _ ⟨⟩) rfl
  | conclude =>
    obtain ⟨-, hsome⟩ := Option.ite_none_right_eq_some.mp hstep
    cases hsome
    exact h.conclude (by decide)
  | settle =>
    simp only [TaskStream.dispatchStep] at hstep
    split at hstep
    · cases hstep
      exact h.aside rfl rfl
    · cases hstep
  | settleFails =>
    simp only [TaskStream.dispatchStep] at hstep
    split at hstep
    · cases hstep
      exact h.aside rfl rfl
    · cases hstep
  | pick | mark | markFails | returns success cancelled | throws =>
    obtain ⟨-, hsome⟩ := Option.ite_none_right_eq_some.mp hstep
    cases hsome
    exact h.aside rfl rfl
  | _ => cases hstep

theorem Tracked.manage (h : Tracked zoneName s) {l : TaskOutput.Label}
    (hwrite : ∀ stream data now, l ≠ .write stream data now) (hstep : s.manage cfg l = some s') :
    Tracked zoneName s' := by
  obtain ⟨out, hout, rfl⟩ := Option.map_eq_some_iff.mp hstep
  exact h.output hout hwrite rfl

theorem Tracked.outputStep (h : Tracked zoneName s) {l : Label}
    (hstep : outputStep cfg s l = some s') : Tracked zoneName s' := by
  cases l with
  | write stream data now =>
    simp only [TaskStream.outputStep] at hstep
    split_ifs at hstep with hsession
    · cases hstep
      exact h.write hsession
    · cases hstep
      exact h
  | timer => exact h.manage (by rintro _ _ _ ⟨⟩) hstep
  | looseTimer => exact h.manage (by rintro _ _ _ ⟨⟩) hstep
  | applied k => exact h.manage (by rintro _ _ _ ⟨⟩) hstep
  | flushFails k => exact h.manage (by rintro _ _ _ ⟨⟩) hstep
  | overwrite status =>
    cases hstep
    exact h.aside rfl rfl
  | destroy =>
    cases hstep
    exact h.aside rfl rfl
  | _ => cases hstep

theorem Tracked.viewerStep (h : Tracked zoneName s) {l : Label}
    (hstep : viewerStep zoneName s l = some s') : Tracked zoneName s' := by
  cases l with
  | upgrade scope =>
    cases hstep
    refine ⟨h.pieces, fun v hmem => ?_⟩
    rcases List.mem_append.mp hmem with hold | hnew
    · exact h.viewers v hold
    · rw [List.mem_singleton.mp hnew]
      exact traced_arriving scope
  | rowRead k =>
    refine h.onViewer hstep fun v v' hf hv => ?_
    split_ifs at hf with hphase
    cases hf
    exact hv.toPhase (by simp [hphase]) trivial (by rintro ⟨⟩)
  | rowFails k =>
    refine h.onViewer hstep fun v v' hf hv => ?_
    split_ifs at hf with hphase
    cases hf
    exact hv.toPhase (by simp [hphase]) trivial (by rintro ⟨⟩)
  | outputRead k succeeds =>
    refine h.onViewer hstep fun v v' hf hv => ?_
    split at hf
    case h_1 status hphase =>
      cases hf
      have hfetched := hv.fetched
      rw [hphase] at hfetched
      refine hv.toPhase (by simp [hphase]) ⟨hfetched, ?_⟩ fun _ => hv.admitted (by rw [hphase]; rfl)
      split_ifs
      · exact h.pieces.stored
      · exact List.nil_infix
    case h_2 => cases hf
  | proceed k => exact h.onViewer hstep fun v v' hf hv => hv.proceed h.pieces hf
  | statusRead v k => exact h.onViewer hstep fun v v' hf hv => hv.onRead hf
  | statusFails v k => exact h.onViewer hstep fun v v' hf hv => hv.onRead hf
  | convey v k => exact h.onViewer hstep fun v v' hf hv => hv.conveyed hf
  | leave k =>
    refine h.onViewer hstep fun v v' hf hv => ?_
    split_ifs at hf
    cases hf
    exact hv.withSocket (by decide)
  | unsubscribe k =>
    refine h.onViewer hstep fun v v' hf hv => ?_
    split_ifs at hf
    cases hf
    exact hv.unsubscribe fun _ => rfl
  | _ => cases hstep

theorem Tracked.step (h : Tracked zoneName s) {l : Label}
    (hstep : step cfg zoneName s l = some s') : Tracked zoneName s' := by
  rcases Option.or_eq_some_iff.mp hstep with hleft | ⟨-, hviewer⟩
  · rcases Option.or_eq_some_iff.mp hleft with hdispatch | ⟨-, houtput⟩
    · exact h.dispatchStep hdispatch
    · exact h.outputStep houtput
  · exact h.viewerStep hviewer

/-- Whatever happens between the awaits of the upgrades, a viewer has been sent one piece of the
accepted chunks, up to the last of them while it is subscribed, and nothing behind a status. -/
theorem viewer_faithful {status : Status}
    (h : Reaches (step cfg zoneName) (fun _ _ => True) (.initial status) s) :
    ∀ v ∈ s.viewers, v.Faithful s.out.accepted ∧
      (v.sent ≠ [] → scopeMismatch zoneName v.scope = false) := by
  have htracked : Tracked zoneName s :=
    h.invariant (tracked_initial status) fun _ _ _ hs _ hstep => hs.step hstep
  intro v hmem
  have htraced := htracked.viewers v hmem
  refine ⟨htraced.faithful, fun hsent => htraced.admitted ?_⟩
  have hphase : v.phase = .connected := by
    by_contra hearly
    exact hsent (htraced.early hearly).1
  rw [hphase]
  rfl

/-- A viewer that came between two chunks, and one with a ticket for another machine. -/
theorem viewer_faithful_two : ∃ s,
    Reaches (step (TaskOutput.getOutputConfig none none none) "web") (fun _ _ => True)
      (.initial .pending) s ∧
    s.viewers.map Viewer.sent =
      [[.output ⟨"stdout", "a", 1⟩, .output ⟨"stderr", "b", 2⟩], []] ∧
    ∀ v ∈ s.viewers, v.Faithful s.out.accepted ∧
      (v.sent ≠ [] → scopeMismatch "web" v.scope = false) := by
  obtain ⟨s, hreach, hsent⟩ := exists_reaches_of_run
    (step (TaskOutput.getOutputConfig none none none) "web") (fun _ _ => True) (.initial .pending)
    [.pick, .mark, .start, .write "stdout" "a" 1, .upgrade (some "web"), .upgrade (some "db"),
      .rowRead 0, .rowRead 1, .proceed 0, .proceed 1, .write "stderr" "b" 2]
    (P := fun s => s.viewers.map Viewer.sent =
      [[.output ⟨"stdout", "a", 1⟩, .output ⟨"stderr", "b", 2⟩], []]) (by decide +kernel)
  exact ⟨s, hreach, hsent, viewer_faithful hreach⟩

end Runs

end ZoneweaverAgent.TaskStream
