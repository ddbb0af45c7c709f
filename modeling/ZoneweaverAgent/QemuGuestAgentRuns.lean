import ZoneweaverAgent.QemuGuestAgent

/-!
# Every order of events on the guest-agent channel

Reading on after one chunk is reading the two chunks at once, so an exchange depends on the bytes
alone. What a live exchange has read of them is its stage and its buffer.
-/

namespace ZoneweaverAgent.QemuGuestAgent

theorem splitAt_eq_none_iff {mark : UInt8} {bytes : List UInt8} :
    splitAt mark bytes = none ↔ mark ∉ bytes := by
  simp [splitAt]

theorem splitAt_cons (mark byte : UInt8) (bytes : List UInt8) :
    splitAt mark (byte :: bytes) =
      if byte = mark then some ([], bytes)
      else (splitAt mark bytes).map fun parts => (byte :: parts.1, parts.2) := by
  by_cases hb : byte = mark
  · simp [splitAt, hb]
  · by_cases hmem : mark ∈ bytes <;> simp [splitAt, hb, hmem, Ne.symm hb]

theorem splitAt_append_of_none {mark : UInt8} {bytes : List UInt8} (more : List UInt8)
    (h : splitAt mark bytes = none) :
    splitAt mark (bytes ++ more) =
      (splitAt mark more).map fun parts => (bytes ++ parts.1, parts.2) := by
  induction bytes with
  | nil => simp
  | cons byte bytes ih =>
    rw [splitAt_eq_none_iff, List.mem_cons, not_or] at h
    rw [List.cons_append, splitAt_cons, if_neg (Ne.symm h.1), ih (splitAt_eq_none_iff.mpr h.2)]
    cases splitAt mark more <;> rfl

theorem splitAt_append_of_some {mark : UInt8} {bytes line rest : List UInt8} (more : List UInt8)
    (h : splitAt mark bytes = some (line, rest)) :
    splitAt mark (bytes ++ more) = some (line, rest ++ more) := by
  induction bytes generalizing line with
  | nil => simp [splitAt] at h
  | cons byte bytes ih =>
    rw [splitAt_cons] at h
    rw [List.cons_append, splitAt_cons]
    split_ifs at h ⊢ with hb
    · cases h
      rfl
    · obtain ⟨⟨first, last⟩, hsplit, heq⟩ := Option.map_eq_some_iff.mp h
      cases heq
      rw [ih hsplit]
      rfl

theorem syncSplit_append {bytes line rest : List UInt8} (more : List UInt8)
    (h : syncSplit bytes = some (line, rest)) :
    syncSplit (bytes ++ more) = some (line, rest ++ more) := by
  obtain ⟨⟨stale, behind⟩, hsplit, hline⟩ := Option.bind_eq_some_iff.mp h
  rw [syncSplit, splitAt_append_of_some more hsplit]
  exact splitAt_append_of_some more hline

theorem replySplit_append {bytes line rest : List UInt8} (more : List UInt8)
    (h : replySplit bytes = some (line, rest)) :
    replySplit (bytes ++ more) = some (line, rest ++ more) := by
  obtain ⟨⟨first, behind⟩, hsplit, hline⟩ := Option.bind_eq_some_iff.mp h
  rw [replySplit, syncSplit_append more hsplit]
  exact splitAt_append_of_some more hline

section Lines
variable (rt : Runtime) (syncId : ℤ)

theorem Synced.append {rt : Runtime} {syncId : ℤ} {bytes : List UInt8}
    (h : Synced rt syncId bytes) (more : List UInt8) : Synced rt syncId (bytes ++ more) := by
  obtain ⟨⟨line, rest⟩, hsplit, hanswer⟩ := h
  exact ⟨(line, rest ++ more), syncSplit_append more hsplit, hanswer⟩

theorem Justified.append {rt : Runtime} {syncId : ℤ} {bytes : List UInt8} {outcome : Outcome}
    (h : Justified rt syncId bytes outcome) (more : List UInt8) :
    Justified rt syncId (bytes ++ more) outcome := by
  cases outcome with
  | reply value =>
    obtain ⟨hsync, ⟨line, rest⟩, hsplit, hparsed⟩ := h
    exact ⟨hsync.append more, (line, rest ++ more), replySplit_append more hsplit, hparsed⟩
  | noReply => exact Synced.append h more
  | failed message => trivial

/-- The bytes seen so far decide what is read: more of them cannot undo a line that throws. -/
theorem Harmless.of_append {rt : Runtime} {syncId : ℤ} {bytes more : List UInt8}
    (h : Harmless rt syncId (bytes ++ more)) : Harmless rt syncId bytes := by
  constructor
  · rintro ⟨line, rest⟩ hsplit
    exact h.1 (line, rest ++ more) (syncSplit_append more hsplit)
  · rintro hsync ⟨line, rest⟩ hsplit
    exact h.2 (hsync.append more) (line, rest ++ more) (replySplit_append more hsplit)

/-- The failure of a line that does not answer the sync request, unless it throws. -/
def syncRefusal (line : List UInt8) : Option String :=
  match rt.parse (rt.decode line) with
  | .error _ => some ("guest-sync answered unparseable line: " ++ trim (rt.decode line))
  | .ok .null => none
  | .ok _ =>
    some ("guest-sync answered " ++ trim (rt.decode line) ++ " (want id " ++ toString syncId ++ ")")

/-- What an answer settles that is no `null`, unless the text of its error throws. -/
def answerOutcome (parsed : Json) : Option Outcome :=
  match (parsed.field "error").filter Json.truthy with
  | none => some (.reply (parsed.field "return"))
  | some error =>
    match rt.templateText (error.field "class"), rt.templateText (error.field "desc") with
    | some errorClass, some desc =>
      some (.failed ("guest agent error (" ++ errorClass ++ "): " ++ desc))
    | _, _ => none

def replyOutcome (line : List UInt8) : Option Outcome :=
  match rt.parse (rt.decode line) with
  | .error message =>
    some (.failed ("parse guest answer " ++ trim (rt.decode line) ++ ": " ++ message))
  | .ok .null => none
  | .ok parsed => answerOutcome rt parsed

def Exchange.conclude (x : Exchange) : Option Outcome → Exchange
  | none => x.crash
  | some outcome => x.finish outcome

def Exchange.proceed (x : Exchange) : Exchange :=
  { x with sent := x.sent ++ [.command], delivered := true, stage := .reply }

theorem handleSyncLine_eq (x : Exchange) (line : List UInt8) :
    handleSyncLine rt syncId x line =
      if answersSync rt syncId line = true then x.proceed
      else x.conclude ((syncRefusal rt syncId line).map .failed) := by
  unfold handleSyncLine answersSync syncRefusal
  cases hparse : rt.parse (rt.decode line) with
  | error message => simp [Exchange.conclude]
  | ok parsed =>
    simp only [decide_eq_true_eq]
    cases parsed with
    | null => simp [Exchange.conclude, Json.field]
    | _ => rfl

theorem conclude_answerOutcome (x : Exchange) (parsed : Json) :
    x.conclude (answerOutcome rt parsed) =
      match (parsed.field "error").filter Json.truthy with
      | none => x.finish (.reply (parsed.field "return"))
      | some error =>
        match rt.templateText (error.field "class"), rt.templateText (error.field "desc") with
        | some errorClass, some desc =>
          x.finish (.failed ("guest agent error (" ++ errorClass ++ "): " ++ desc))
        | _, _ => x.crash := by
  unfold answerOutcome
  cases (parsed.field "error").filter Json.truthy with
  | none => rfl
  | some error =>
    cases herror : rt.templateText (error.field "class") with
    | none => simp only [herror, Exchange.conclude]
    | some errorClass =>
      cases hdesc : rt.templateText (error.field "desc") <;>
        simp only [herror, hdesc, Exchange.conclude]

theorem handleReplyLine_eq (x : Exchange) (line : List UInt8) :
    handleReplyLine rt x line = x.conclude (replyOutcome rt line) := by
  unfold handleReplyLine replyOutcome
  cases hparse : rt.parse (rt.decode line) with
  | error message => rfl
  | ok parsed =>
    have hanswer := (conclude_answerOutcome rt x parsed).symm
    cases parsed with
    | null => rfl
    | _ => exact hanswer

theorem replyOutcome_of_parse {line : List UInt8} {parsed : Json}
    (hparse : rt.parse (rt.decode line) = .ok parsed) (hne : parsed ≠ .null) :
    replyOutcome rt line = answerOutcome rt parsed := by
  unfold replyOutcome
  rw [hparse]
  cases parsed <;> first | rfl | exact absurd rfl hne

theorem syncRefusal_eq_none_iff (line : List UInt8) :
    syncRefusal rt syncId line = none ↔ rt.parse (rt.decode line) = .ok .null := by
  unfold syncRefusal
  cases rt.parse (rt.decode line) with
  | error message => simp
  | ok parsed => cases parsed <;> simp

theorem answerOutcome_eq_none_iff (parsed : Json) :
    answerOutcome rt parsed = none ↔
      (match (parsed.field "error").filter Json.truthy with
        | none => false
        | some error => (rt.templateText (error.field "class")).isNone ||
            (rt.templateText (error.field "desc")).isNone) = true := by
  unfold answerOutcome
  cases (parsed.field "error").filter Json.truthy with
  | none => simp
  | some error =>
    cases herror : rt.templateText (error.field "class") with
    | none => simp [herror]
    | some errorClass => cases hdesc : rt.templateText (error.field "desc") <;> simp [herror, hdesc]

theorem replyOutcome_eq_none_iff (line : List UInt8) :
    replyOutcome rt line = none ↔ replyThrows rt line = true := by
  unfold replyOutcome replyThrows
  cases rt.parse (rt.decode line) with
  | error message => simp
  | ok parsed =>
    cases parsed with
    | null => simp
    | _ => exact answerOutcome_eq_none_iff rt _

theorem answersSync_parse_ne_null {line : List UInt8} (h : answersSync rt syncId line = true) :
    rt.parse (rt.decode line) ≠ .ok .null := by
  intro hnull
  simp [answersSync, hnull, Json.field] at h

theorem answerOutcome_eq_some {parsed : Json} {outcome : Outcome}
    (h : answerOutcome rt parsed = some outcome) :
    outcome = .reply (parsed.field "return") ∨ ∃ message, outcome = .failed message := by
  unfold answerOutcome at h
  cases herror : (parsed.field "error").filter Json.truthy with
  | none =>
    rw [herror] at h
    exact .inl (Option.some.inj h).symm
  | some error =>
    simp only [herror] at h
    split at h
    · exact .inr ⟨_, (Option.some.inj h).symm⟩
    · cases h

theorem replyOutcome_eq_some {line : List UInt8} {outcome : Outcome}
    (h : replyOutcome rt line = some outcome) :
    (∃ parsed, rt.parse (rt.decode line) = .ok parsed ∧
      outcome = .reply (parsed.field "return")) ∨ ∃ message, outcome = .failed message := by
  cases hparse : rt.parse (rt.decode line) with
  | error message =>
    simp only [replyOutcome, hparse, Option.some.injEq] at h
    exact .inr ⟨_, h.symm⟩
  | ok parsed =>
    by_cases hnull : parsed = .null
    · subst hnull
      simp [replyOutcome, hparse] at h
    · rw [replyOutcome_of_parse rt hparse hnull] at h
      obtain hreply | hfailed := answerOutcome_eq_some rt h
      · exact .inl ⟨parsed, rfl, hreply⟩
      · exact .inr hfailed

end Lines

namespace Exchange
variable {x y z : Exchange}

theorem live_iff : x.live = true ↔ x.settled = false ∧ x.crashed = false := by
  simp [live]

theorem live_conclude (x : Exchange) (outcome : Option Outcome) :
    (x.conclude outcome).live = false := by
  cases outcome with
  | none => simp [conclude, crash, live]
  | some outcome =>
    unfold conclude finish live
    split_ifs with hsettled
    · simp [hsettled]
    · rfl

theorem stage_conclude (x : Exchange) (outcome : Option Outcome) :
    (x.conclude outcome).stage = x.stage := by
  cases outcome with
  | none => rfl
  | some outcome =>
    unfold conclude finish
    split_ifs <;> rfl

theorem conclude_of_live (hx : x.live = true) (outcome : Outcome) :
    x.conclude (some outcome) =
      { x with settled := true, settlements := x.settlements ++ [outcome] } := by
  simp [conclude, finish, (live_iff.mp hx).1]

/-- No event tells the two exchanges apart. -/
structure Same (x y : Exchange) : Prop where
  observe : x.observe = y.observe
  settled : x.settled = y.settled
  live : x.live = true → x = y

theorem Same.refl (x : Exchange) : Same x x := ⟨rfl, rfl, fun _ => rfl⟩

theorem Same.live_eq (h : Same x y) : x.live = y.live := by
  have hcrashed : x.crashed = y.crashed := congrArg Observation.crashed h.observe
  rw [Exchange.live, Exchange.live, h.settled, hcrashed]

theorem Same.trans (h : Same x y) (h' : Same y z) : Same x z where
  observe := h.observe.trans h'.observe
  settled := h.settled.trans h'.settled
  live hx := by
    have hxy := h.live hx
    subst hxy
    exact h'.live hx

theorem Same.symm (h : Same x y) : Same y x where
  observe := h.observe.symm
  settled := h.settled.symm
  live hy := (h.live (h.live_eq.trans hy)).symm

theorem same_conclude (x : Exchange) (more : List UInt8) (outcome : Option Outcome) :
    Same (x.conclude outcome) (({ x with buffer := more } : Exchange).conclude outcome) where
  observe := by
    cases outcome with
    | none => rfl
    | some outcome =>
      unfold conclude finish
      split_ifs <;> rfl
  settled := by
    cases outcome with
    | none => rfl
    | some outcome =>
      unfold conclude finish
      split_ifs <;> rfl
  live hx := by
    rw [live_conclude] at hx
    cases hx

end Exchange

section Reading
variable (rt : Runtime) (syncId : ℤ) {x y : Exchange}

theorem handle_of_not_live (hx : x.live = false) (e : Event) : handle rt syncId x e = x := by
  have hfinish : ∀ outcome, x.crashed = false → x.finish outcome = x := by
    intro outcome hcrashed
    have hsettled : x.settled = true := by simpa [Exchange.live, hcrashed] using hx
    simp [Exchange.finish, hsettled]
  have hclose : ∀ message, x.crashed = false → closeOut message x = x := by
    intro message hcrashed
    simp [closeOut, hfinish _ hcrashed]
  cases e with
  | error message =>
    by_cases hcrashed : x.crashed = true
    · simp [handle, hcrashed]
    · simp [handle, hcrashed, hclose _ (Bool.not_eq_true _ ▸ hcrashed)]
  | close =>
    by_cases hcrashed : x.crashed = true
    · simp [handle, hcrashed]
    · simp [handle, hcrashed, hclose _ (Bool.not_eq_true _ ▸ hcrashed)]
  | _ => simp [handle, hx]

theorem foldl_handle_of_not_live (hx : x.live = false) (events : List Event) :
    events.foldl (handle rt syncId) x = x := by
  induction events with
  | nil => rfl
  | cons e events ih => rw [List.foldl_cons, handle_of_not_live rt syncId hx, ih]

theorem same_handle (h : Exchange.Same x y) (e : Event) :
    Exchange.Same (handle rt syncId x e) (handle rt syncId y e) := by
  cases hx : x.live with
  | true =>
    rw [h.live hx]
    exact .refl _
  | false =>
    rw [handle_of_not_live rt syncId hx, handle_of_not_live rt syncId (h.live_eq ▸ hx)]
    exact h

theorem same_foldl_handle (h : Exchange.Same x y) (events : List Event) :
    Exchange.Same (events.foldl (handle rt syncId) x) (events.foldl (handle rt syncId) y) := by
  induction events generalizing x y with
  | nil => exact h
  | cons e events ih => exact ih (same_handle rt syncId h e)

theorem handle_data (hx : x.live = true) (chunk : List UInt8) :
    handle rt syncId x (.data chunk) = onData rt syncId x chunk := by
  simp [handle, hx]

theorem readSync_of_line {line rest : List UInt8} (hstage : x.stage = .syncLine)
    (hline : takeLine x.buffer = some (line, rest)) :
    readSync rt syncId x =
      if answersSync rt syncId line = true then
        readReply rt ({ x with buffer := rest } : Exchange).proceed
      else ({ x with buffer := rest } : Exchange).conclude
        ((syncRefusal rt syncId line).map .failed) := by
  simp only [readSync, hline, handleSyncLine_eq]
  by_cases hanswer : answersSync rt syncId line = true
  · rw [if_pos hanswer, if_pos hanswer]
    exact if_pos rfl
  · rw [if_neg hanswer, if_neg hanswer, if_neg]
    rw [Exchange.stage_conclude, hstage]
    simp

theorem readReply_append (hx : x.live = true) (hstage : x.stage = .reply) (more : List UInt8) :
    Exchange.Same (handle rt syncId (readReply rt x) (.data more))
      (readReply rt { x with buffer := x.buffer ++ more }) := by
  cases hline : takeLine x.buffer with
  | none =>
    have hwaits : readReply rt x = x := by simp [readReply, hline]
    rw [hwaits, handle_data rt syncId hx, onData]
    simp only [hstage]
    exact .refl _
  | some parts =>
    obtain ⟨line, rest⟩ := parts
    have hmore : takeLine (x.buffer ++ more) = some (line, rest ++ more) :=
      splitAt_append_of_some more hline
    simp only [readReply, hline, hmore, handleReplyLine_eq]
    rw [handle_of_not_live rt syncId (Exchange.live_conclude _ _)]
    exact Exchange.same_conclude { x with buffer := rest } (rest ++ more) _

theorem readSync_append (hx : x.live = true) (hstage : x.stage = .syncLine) (more : List UInt8) :
    Exchange.Same (handle rt syncId (readSync rt syncId x) (.data more))
      (readSync rt syncId { x with buffer := x.buffer ++ more }) := by
  cases hline : takeLine x.buffer with
  | none =>
    have hwaits : readSync rt syncId x = x := by simp [readSync, hline]
    rw [hwaits, handle_data rt syncId hx, onData]
    simp only [hstage]
    exact .refl _
  | some parts =>
    obtain ⟨line, rest⟩ := parts
    have hmore : takeLine (x.buffer ++ more) = some (line, rest ++ more) :=
      splitAt_append_of_some more hline
    rw [readSync_of_line rt syncId hstage hline,
      readSync_of_line rt syncId (x := { x with buffer := x.buffer ++ more }) hstage hmore]
    by_cases hanswer : answersSync rt syncId line = true
    · rw [if_pos hanswer, if_pos hanswer]
      exact readReply_append rt syncId (x := ({ x with buffer := rest } : Exchange).proceed)
        hx rfl more
    · rw [if_neg hanswer, if_neg hanswer,
        handle_of_not_live rt syncId (Exchange.live_conclude _ _)]
      exact Exchange.same_conclude { x with buffer := rest } (rest ++ more) _

theorem readSentinel_append (hx : x.live = true) (hstage : x.stage = .syncSentinel)
    (more : List UInt8) :
    Exchange.Same (handle rt syncId (readSentinel rt syncId x) (.data more))
      (readSentinel rt syncId { x with buffer := x.buffer ++ more }) := by
  cases hmark : splitAt sentinel x.buffer with
  | none =>
    have hdrops : readSentinel rt syncId x = { x with buffer := [] } := by
      simp [readSentinel, hmark]
    rw [hdrops, handle_data rt syncId (x := { x with buffer := [] }) hx, onData]
    simp only [hstage, List.nil_append, readSentinel, splitAt_append_of_none more hmark]
    cases splitAt sentinel more <;> exact .refl _
  | some parts =>
    obtain ⟨stale, rest⟩ := parts
    simp only [readSentinel, hmark, splitAt_append_of_some more hmark]
    exact readSync_append rt syncId (x := { x with buffer := rest, stage := .syncLine }) hx rfl more

theorem onData_append (hx : x.live = true) (chunk more : List UInt8) :
    Exchange.Same (handle rt syncId (onData rt syncId x chunk) (.data more))
      (onData rt syncId x (chunk ++ more)) := by
  cases hstage : x.stage with
  | syncSentinel =>
    simpa only [onData, hstage, List.append_assoc] using
      readSentinel_append rt syncId (x := { x with buffer := x.buffer ++ chunk }) hx hstage more
  | syncLine =>
    simpa only [onData, hstage, List.append_assoc] using
      readSync_append rt syncId (x := { x with buffer := x.buffer ++ chunk }) hx hstage more
  | reply =>
    simpa only [onData, hstage, List.append_assoc] using
      readReply_append rt syncId (x := { x with buffer := x.buffer ++ chunk }) hx hstage more

theorem handle_data_append (x : Exchange) (chunk more : List UInt8) :
    Exchange.Same (handle rt syncId (handle rt syncId x (.data chunk)) (.data more))
      (handle rt syncId x (.data (chunk ++ more))) := by
  cases hx : x.live with
  | true =>
    rw [handle_data rt syncId hx, handle_data rt syncId hx]
    exact onData_append rt syncId hx chunk more
  | false =>
    rw [handle_of_not_live rt syncId hx, handle_of_not_live rt syncId hx,
      handle_of_not_live rt syncId hx]
    exact .refl _

end Reading

section Invariant
variable (rt : Runtime) (syncId : ℤ)

/-- Where a live exchange stands in the bytes it has received. -/
def Waiting (x : Exchange) (bytes : List UInt8) : Prop :=
  match x.stage with
  | .syncSentinel => x.buffer = [] ∧ splitAt sentinel bytes = none ∧ x.delivered = false
  | .syncLine => (∃ stale, splitAt sentinel bytes = some (stale, x.buffer)) ∧
      takeLine x.buffer = none ∧ x.delivered = false
  | .reply => (∃ line, syncSplit bytes = some (line, x.buffer) ∧
      answersSync rt syncId line = true) ∧ takeLine x.buffer = none ∧ x.delivered = true

structure Tracks (x : Exchange) (bytes : List UInt8) : Prop where
  waiting : x.live = true → Waiting rt syncId x bytes
  count : x.settlements.length = if x.settled then 1 else 0
  justified : ∀ outcome ∈ x.settlements, Justified rt syncId bytes outcome
  crash : x.crashed = true → ¬ Harmless rt syncId bytes

variable {rt syncId} {x : Exchange} {bytes : List UInt8}

theorem Tracks.settlements_eq_nil (h : Tracks rt syncId x bytes) (hx : x.live = true) :
    x.settlements = [] := by
  have hcount := h.count
  rw [(Exchange.live_iff.mp hx).1] at hcount
  exact List.length_eq_zero_iff.mp hcount

theorem Tracks.append (h : Tracks rt syncId x bytes) (hx : x.live = false) (more : List UInt8) :
    Tracks rt syncId x (bytes ++ more) where
  waiting hlive := by
    rw [hx] at hlive
    cases hlive
  count := h.count
  justified outcome hmem := (h.justified outcome hmem).append more
  crash hcrashed hharmless := h.crash hcrashed hharmless.of_append

theorem tracks_waiting (hx : x.live = true) (hnil : x.settlements = [])
    (hwaits : Waiting rt syncId x bytes) : Tracks rt syncId x bytes where
  waiting _ := hwaits
  count := by simp [hnil, (Exchange.live_iff.mp hx).1]
  justified := by simp [hnil]
  crash hcrashed := by
    rw [(Exchange.live_iff.mp hx).2] at hcrashed
    cases hcrashed

/-- A line that concludes the exchange, with what it is worth in the bytes received. -/
theorem tracks_conclude (hx : x.live = true) (hnil : x.settlements = []) (outcome : Option Outcome)
    (hjustified : ∀ o ∈ outcome, Justified rt syncId bytes o)
    (hthrows : outcome = none → ¬ Harmless rt syncId bytes) :
    Tracks rt syncId (x.conclude outcome) bytes := by
  obtain ⟨hsettled, hcrashed⟩ := Exchange.live_iff.mp hx
  have hwaits : (x.conclude outcome).live = true →
      Waiting rt syncId (x.conclude outcome) bytes := by
    simp [Exchange.live_conclude]
  cases outcome with
  | none =>
    refine ⟨hwaits, ?_, ?_, fun _ => hthrows rfl⟩
    · simp [Exchange.conclude, Exchange.crash, hnil, hsettled]
    · simp [Exchange.conclude, Exchange.crash, hnil]
  | some outcome =>
    rw [Exchange.conclude_of_live hx] at hwaits ⊢
    refine ⟨hwaits, by simp [hnil], ?_, fun h => ?_⟩
    · intro o ho
      rw [hnil, List.nil_append, List.mem_singleton] at ho
      exact ho ▸ hjustified outcome rfl
    · rw [hcrashed] at h
      cases h

theorem tracks_readReply (hx : x.live = true) (hnil : x.settlements = [])
    (hstage : x.stage = .reply) (hdelivered : x.delivered = true) {line : List UInt8}
    (hsync : syncSplit bytes = some (line, x.buffer))
    (hanswer : answersSync rt syncId line = true) :
    Tracks rt syncId (readReply rt x) bytes := by
  have hsynced : Synced rt syncId bytes := ⟨(line, x.buffer), hsync, hanswer⟩
  cases hline : takeLine x.buffer with
  | none =>
    rw [show readReply rt x = x by simp [readReply, hline]]
    apply tracks_waiting hx hnil
    simp only [Waiting, hstage]
    exact ⟨⟨line, hsync, hanswer⟩, hline, hdelivered⟩
  | some parts =>
    obtain ⟨answer, rest⟩ := parts
    have hreply : replySplit bytes = some (answer, rest) := by simp [replySplit, hsync, hline]
    simp only [readReply, hline, handleReplyLine_eq]
    apply tracks_conclude (x := { x with buffer := rest }) hx hnil
    · intro outcome hsome
      obtain ⟨parsed, hparse, rfl⟩ | ⟨message, rfl⟩ := replyOutcome_eq_some rt hsome
      · exact ⟨hsynced, (answer, rest), hreply, parsed, hparse, rfl⟩
      · trivial
    · intro hnone hharmless
      have hquiet := hharmless.2 hsynced (answer, rest) hreply
      rw [(replyOutcome_eq_none_iff rt answer).mp hnone] at hquiet
      cases hquiet

theorem tracks_readSync (hx : x.live = true) (hnil : x.settlements = [])
    (hstage : x.stage = .syncLine) (hdelivered : x.delivered = false) {stale : List UInt8}
    (hmark : splitAt sentinel bytes = some (stale, x.buffer)) :
    Tracks rt syncId (readSync rt syncId x) bytes := by
  cases hline : takeLine x.buffer with
  | none =>
    rw [show readSync rt syncId x = x by simp [readSync, hline]]
    apply tracks_waiting hx hnil
    simp only [Waiting, hstage]
    exact ⟨⟨stale, hmark⟩, hline, hdelivered⟩
  | some parts =>
    obtain ⟨line, rest⟩ := parts
    have hsync : syncSplit bytes = some (line, rest) := by simp [syncSplit, hmark, hline]
    rw [readSync_of_line rt syncId hstage hline]
    split_ifs with hanswer
    · exact tracks_readReply (x := ({ x with buffer := rest } : Exchange).proceed) hx hnil rfl rfl
        hsync hanswer
    · apply tracks_conclude (x := { x with buffer := rest }) hx hnil
      · intro outcome hsome
        obtain ⟨message, -, rfl⟩ := Option.map_eq_some_iff.mp hsome
        trivial
      · intro hnone hharmless
        rw [Option.map_eq_none_iff, syncRefusal_eq_none_iff] at hnone
        exact hharmless.1 (line, rest) hsync hnone

theorem tracks_readSentinel (hx : x.live = true) (hnil : x.settlements = [])
    (hstage : x.stage = .syncSentinel) (hdelivered : x.delivered = false) {stale : List UInt8}
    (hstale : splitAt sentinel stale = none) (hbytes : bytes = stale ++ x.buffer) :
    Tracks rt syncId (readSentinel rt syncId x) bytes := by
  have hmark := splitAt_append_of_none x.buffer hstale
  rw [← hbytes] at hmark
  cases hbuffer : splitAt sentinel x.buffer with
  | none =>
    rw [show readSentinel rt syncId x = { x with buffer := [] } by simp [readSentinel, hbuffer]]
    apply tracks_waiting (x := { x with buffer := [] }) hx hnil
    simp only [Waiting, hstage]
    exact ⟨trivial, by rw [hmark, hbuffer]; rfl, hdelivered⟩
  | some parts =>
    obtain ⟨more, rest⟩ := parts
    rw [hbuffer] at hmark
    simp only [readSentinel, hbuffer]
    exact tracks_readSync (x := { x with buffer := rest, stage := .syncLine }) hx hnil rfl
      hdelivered hmark

theorem Tracks.onData (h : Tracks rt syncId x bytes) (hx : x.live = true) (chunk : List UInt8) :
    Tracks rt syncId (QemuGuestAgent.onData rt syncId x chunk) (bytes ++ chunk) := by
  have hnil := h.settlements_eq_nil hx
  have hwaits := h.waiting hx
  cases hstage : x.stage with
  | syncSentinel =>
    have hread : QemuGuestAgent.onData rt syncId x chunk =
        readSentinel rt syncId { x with buffer := x.buffer ++ chunk } := by
      simp only [QemuGuestAgent.onData, hstage]
    simp only [Waiting, hstage] at hwaits
    obtain ⟨hbuffer, hmark, hdelivered⟩ := hwaits
    rw [hread]
    apply tracks_readSentinel (x := { x with buffer := x.buffer ++ chunk }) hx hnil hstage
      hdelivered hmark
    rw [hbuffer, List.nil_append]
  | syncLine =>
    have hread : QemuGuestAgent.onData rt syncId x chunk =
        readSync rt syncId { x with buffer := x.buffer ++ chunk } := by
      simp only [QemuGuestAgent.onData, hstage]
    simp only [Waiting, hstage] at hwaits
    obtain ⟨⟨stale, hmark⟩, -, hdelivered⟩ := hwaits
    rw [hread]
    exact tracks_readSync (x := { x with buffer := x.buffer ++ chunk }) hx hnil hstage
      hdelivered (splitAt_append_of_some chunk hmark)
  | reply =>
    have hread : QemuGuestAgent.onData rt syncId x chunk =
        readReply rt { x with buffer := x.buffer ++ chunk } := by
      simp only [QemuGuestAgent.onData, hstage]
    simp only [Waiting, hstage] at hwaits
    obtain ⟨⟨line, hsync, hanswer⟩, -, hdelivered⟩ := hwaits
    rw [hread]
    exact tracks_readReply (x := { x with buffer := x.buffer ++ chunk }) hx hnil hstage
      hdelivered (syncSplit_append chunk hsync) hanswer

theorem Waiting.synced (h : Waiting rt syncId x bytes) (hdelivered : x.delivered = true) :
    Synced rt syncId bytes := by
  unfold Waiting at h
  cases hstage : x.stage with
  | syncSentinel => simp [hstage, hdelivered] at h
  | syncLine => simp [hstage, hdelivered] at h
  | reply =>
    simp only [hstage] at h
    obtain ⟨⟨line, hsync, hanswer⟩, -⟩ := h
    exact ⟨(line, x.buffer), hsync, hanswer⟩

theorem closeOut_eq_conclude (x : Exchange) (message : String) :
    closeOut message x =
      x.conclude (if x.delivered then some .noReply else some (.failed message)) := by
  unfold closeOut
  split_ifs <;> rfl

theorem Tracks.closeOut (h : Tracks rt syncId x bytes) (hx : x.live = true) (message : String) :
    Tracks rt syncId (QemuGuestAgent.closeOut message x) bytes := by
  rw [closeOut_eq_conclude]
  apply tracks_conclude hx (h.settlements_eq_nil hx)
  · intro outcome hsome
    split_ifs at hsome with hdelivered
    · cases hsome
      exact (h.waiting hx).synced hdelivered
    · cases hsome
      trivial
  · intro hnone
    split_ifs at hnone

theorem Tracks.handle (h : Tracks rt syncId x bytes) (e : Event) :
    Tracks rt syncId (QemuGuestAgent.handle rt syncId x e) (bytes ++ received [e]) := by
  cases hx : x.live with
  | false =>
    rw [handle_of_not_live rt syncId hx]
    exact h.append hx _
  | true =>
    have hcrashed := (Exchange.live_iff.mp hx).2
    cases e with
    | connect =>
      simp only [QemuGuestAgent.handle, hx, if_true, received, List.append_nil]
      exact ⟨fun _ => h.waiting hx, h.count, h.justified, h.crash⟩
    | data chunk =>
      rw [handle_data rt syncId hx, received, received, List.append_nil]
      exact h.onData hx chunk
    | error message =>
      simp only [QemuGuestAgent.handle, hcrashed, received, List.append_nil]
      exact h.closeOut hx _
    | close =>
      simp only [QemuGuestAgent.handle, hcrashed, received, List.append_nil]
      exact h.closeOut hx _
    | timeout =>
      simp only [QemuGuestAgent.handle, hx, if_true, received, List.append_nil]
      exact h.closeOut hx _

theorem received_cons (e : Event) (events : List Event) :
    received (e :: events) = received [e] ++ received events := by
  cases e <;> simp [received]

theorem Tracks.foldl (h : Tracks rt syncId x bytes) (events : List Event) :
    Tracks rt syncId (events.foldl (QemuGuestAgent.handle rt syncId) x)
      (bytes ++ received events) := by
  induction events generalizing x bytes with
  | nil => simpa [received] using h
  | cons e events ih =>
    rw [received_cons, ← List.append_assoc]
    exact ih (h.handle e)

variable (rt syncId) in
theorem tracks_opened : Tracks rt syncId .opened [] where
  waiting _ := ⟨rfl, rfl, rfl⟩
  count := rfl
  justified := by simp [Exchange.opened]
  crash h := by cases h

variable (rt syncId) in
theorem tracks_run (events : List Event) :
    Tracks rt syncId (run rt syncId events) (received events) := by
  simpa [run] using (tracks_opened rt syncId).foldl events

theorem Tracks.handle_data_nil (h : Tracks rt syncId x bytes) :
    QemuGuestAgent.handle rt syncId x (.data []) = x := by
  cases hx : x.live with
  | false => exact handle_of_not_live rt syncId hx _
  | true =>
    rw [handle_data rt syncId hx, QemuGuestAgent.onData, List.append_nil]
    have hwaits := h.waiting hx
    cases hstage : x.stage with
    | syncSentinel =>
      simp only [Waiting, hstage] at hwaits
      have hmark : splitAt sentinel x.buffer = none := by
        rw [hwaits.1]
        rfl
      simp only [readSentinel, hmark]
      rw [← hwaits.1, ← hstage]
    | syncLine =>
      simp only [Waiting, hstage] at hwaits
      simp only [readSync, hwaits.2.1]
      rw [← hstage]
    | reply =>
      simp only [Waiting, hstage] at hwaits
      simp only [readReply, hwaits.2.1]
      rw [← hstage]

theorem Tracks.same_flatten (h : Tracks rt syncId x bytes) (chunks : List (List UInt8)) :
    Exchange.Same ((chunks.map Event.data).foldl (QemuGuestAgent.handle rt syncId) x)
      (QemuGuestAgent.handle rt syncId x (.data chunks.flatten)) := by
  induction chunks generalizing x bytes with
  | nil =>
    rw [List.flatten_nil, h.handle_data_nil]
    exact .refl _
  | cons chunk chunks ih =>
    rw [List.flatten_cons]
    exact (ih (h.handle _)).trans (handle_data_append rt syncId x chunk chunks.flatten)

theorem live_handle_of_ends {e : Event} (he : e.ends = true) :
    (QemuGuestAgent.handle rt syncId x e).live = false := by
  cases hx : x.live with
  | false => rw [handle_of_not_live rt syncId hx, hx]
  | true =>
    have hcrashed := (Exchange.live_iff.mp hx).2
    cases e with
    | connect => cases he
    | data chunk => cases he
    | _ =>
      simp [QemuGuestAgent.handle, hx, hcrashed, closeOut_eq_conclude, Exchange.live_conclude]

theorem live_run_of_ends {events : List Event} {e : Event} (hmem : e ∈ events)
    (he : e.ends = true) : (run rt syncId events).live = false := by
  obtain ⟨past, future, rfl⟩ := List.append_of_mem hmem
  rw [run, List.foldl_append, List.foldl_cons,
    foldl_handle_of_not_live rt syncId (live_handle_of_ends he)]
  exact live_handle_of_ends he

end Invariant

section Channel
variable (rt : Runtime) (syncId : ℤ)

theorem exchanged_of_harmless {events : List Event}
    (h : Harmless rt syncId (received events)) : Exchanged rt syncId events := by
  have htracks := tracks_run rt syncId events
  have hcrashed : (run rt syncId events).crashed = false := by
    by_contra hne
    exact htracks.crash (Bool.not_eq_false _ ▸ hne) h
  refine ⟨hcrashed, ?_, ?_, ?_, htracks.justified⟩
  · rw [htracks.count]
    split_ifs <;> omega
  · rintro ⟨e, hmem, he⟩
    have hlive : (run rt syncId events).live = false := live_run_of_ends hmem he
    have hsettled : (run rt syncId events).settled = true := by
      simpa [Exchange.live, hcrashed] using hlive
    rw [htracks.count, hsettled, if_pos rfl]
  · intro past chunks chunks' future hevents hflatten
    have hpast := tracks_run rt syncId past
    have hsame := (hpast.same_flatten chunks').symm
    rw [← hflatten] at hsame
    have hchunks := same_foldl_handle rt syncId ((hpast.same_flatten chunks).trans hsame) future
    rw [hevents]
    simpa [run, List.foldl_append] using hchunks.observe.symm

theorem crashed_conclude {x : Exchange} (hx : x.crashed = false) (outcome : Option Outcome) :
    (x.conclude outcome).crashed = outcome.isNone := by
  cases outcome with
  | none => rfl
  | some outcome =>
    unfold Exchange.conclude Exchange.finish
    split_ifs <;> exact hx

/-- The bytes in one chunk already show whether a line throws. -/
theorem harmless_of_noThrow {bytes : List UInt8}
    (h : (run rt syncId [.data bytes]).crashed = false) : Harmless rt syncId bytes := by
  have hread : run rt syncId [.data bytes] =
      readSentinel rt syncId { Exchange.opened with buffer := bytes } := rfl
  rw [hread] at h
  cases hmark : splitAt sentinel bytes with
  | none =>
    have hsync : syncSplit bytes = none := by simp [syncSplit, hmark]
    constructor <;> simp [replySplit, hsync]
  | some parts =>
    obtain ⟨stale, rest⟩ := parts
    simp only [readSentinel, hmark] at h
    cases hline : takeLine rest with
    | none =>
      have hsync : syncSplit bytes = none := by simp [syncSplit, hmark, hline]
      constructor <;> simp [replySplit, hsync]
    | some parts =>
      obtain ⟨line, behind⟩ := parts
      have hsync : syncSplit bytes = some (line, behind) := by simp [syncSplit, hmark, hline]
      rw [readSync_of_line rt syncId (x := { Exchange.opened with buffer := rest, stage := _ })
        rfl hline] at h
      split_ifs at h with hanswer
      · refine ⟨?_, fun _ => ?_⟩
        · rintro parts hparts
          cases hsync.symm.trans hparts
          exact answersSync_parse_ne_null rt syncId hanswer
        · rintro ⟨answer, last⟩ hreply
          have htake : takeLine behind = some (answer, last) := by
            simpa [replySplit, hsync] using hreply
          simp only [readReply, Exchange.proceed, htake, handleReplyLine_eq] at h
          rw [crashed_conclude rfl, Option.isNone_eq_false_iff] at h
          have hsome : replyOutcome rt answer ≠ none := Option.isSome_iff_ne_none.mp h
          rw [Ne, replyOutcome_eq_none_iff] at hsome
          exact Bool.not_eq_true _ ▸ hsome
      · rw [crashed_conclude rfl, Option.isNone_map, Option.isNone_eq_false_iff] at h
        have hsome := Option.isSome_iff_ne_none.mp h
        refine ⟨?_, ?_⟩
        · rintro parts hparts
          cases hsync.symm.trans hparts
          rwa [Ne, syncRefusal_eq_none_iff] at hsome
        · rintro ⟨parts, hparts, hsynced⟩
          cases hsync.symm.trans hparts
          exact absurd hsynced hanswer

theorem exchanged_iff (bytes : List UInt8) :
    (∀ events, received events = bytes → Exchanged rt syncId events) ↔
      Harmless rt syncId bytes := by
  constructor
  · intro hevery
    have hsingle : received [.data bytes] = bytes := by simp [received]
    exact harmless_of_noThrow rt syncId (hevery [.data bytes] hsingle).noThrow
  · rintro hharmless events rfl
    exact exchanged_of_harmless rt syncId hharmless

end Channel

/-- One byte is one character, and `null` is the only text that parses. -/
def asciiRuntime : Runtime where
  decode bytes := String.ofList (bytes.map fun byte => Char.ofNat byte.toNat)
  parse text := if text = "null" then .ok .null else .error "Unexpected token"
  toText _ := ""

/-- The sync request is answered with `null`. -/
theorem exchange_throws :
    ¬ ∀ (rt : Runtime) (syncId : ℤ) (events : List Event), Exchanged rt syncId events := by
  intro h
  have hcrash : (run asciiRuntime 7
      [.connect, .data [0xff, 0x6e, 0x75, 0x6c, 0x6c, 0x0a]]).crashed = true := by
    decide +kernel
  rw [(h asciiRuntime 7 _).noThrow] at hcrash
  cases hcrash

end ZoneweaverAgent.QemuGuestAgent
