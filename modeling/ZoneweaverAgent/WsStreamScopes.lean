import ZoneweaverAgent.WsStreams

/-!
# Tickets and the streams they open

A ticket should open a stream exactly when its scope is the stream's owner. The upgrade compares
scopes with the zone names of task rows, so this fails for the tasks that a zone name files under
the wrong owner: those of the `filesystem` pseudo-scope, and those of a machine named `system` or
`artifact`.
-/

namespace ZoneweaverAgent.WsStreams
open PathScan

section Ownership
variable (t : Tables)

/-- The stream a path asks for. -/
def requested (path : Text) : Option Stream :=
  match termMatch path with
  | some id => some (.terminal id)
  | none =>
  match zloginMatch path with
  | some id => some (.zlogin id)
  | none =>
  match sshMatch path with
  | some id => some (.ssh id)
  | none =>
  match logStreamMatch path with
  | some _ => (logSessionId path).map .log
  | none =>
  match taskStreamMatch path with
  | some id => some (.task id)
  | none => (vncMatch path).bind fun name => (decode name).map fun name => .vnc (String.ofList name)

/-- Whether the row or the session behind a stream is there to be streamed. -/
def available : Stream → Bool
  | .terminal id => (t.terminals.get id).any isLive
  | .zlogin id => (t.zlogins.get id).any (isLive ·.status)
  | .ssh id => (t.sshs.get id).any (isLive ·.status)
  | .log id => id ∈ t.logs
  | .task id => (t.tasks.get id).isSome
  | .vnc zoneName => zoneName ∈ t.vncs

def Origin.owner : Origin → Scope
  | .machine name => some name.val
  | .pseudo _ _ => none

def ownerOf : Stream → Scope
  | .terminal _ => none
  | .zlogin id => (t.zlogins.get id).map (·.zoneName.val)
  | .ssh id => (t.sshs.get id).map (·.zoneName.val)
  | .log _ => none
  | .task id => (t.tasks.get id).bind Origin.owner
  | .vnc zoneName => some zoneName

/-- The path a stream is served at. -/
def url : Stream → Text
  | .terminal id => join ["term".toList, id]
  | .zlogin id => join ["zlogin".toList, id]
  | .ssh id => join ["ssh".toList, id]
  | .log id => join ["logs".toList, "stream".toList, id]
  | .task id => join ["tasks".toList, id, "stream".toList]
  | .vnc zoneName =>
    join ["machines".toList, zoneName.toList, "vnc".toList, "websockify".toList]

def WellNamed : Stream → Prop
  | .terminal id | .zlogin id | .ssh id | .log id | .task id => IsId id
  | .vnc zoneName => validateZoneName zoneName = true

/-- Tickets open the streams their scope owns and no others, every stream has a path that asks for
it, and a task's stream opens to the tickets its owner can mint and to no others. -/
structure ScopesExact : Prop where
  exact : ∀ (tickets : KeyedList String Ticket) (now : ℕ) (path : Text) (ticket : Option String)
    (scope : Scope), verifyTicket tickets now ticket = some scope → ∀ stream,
      handleWebSocketUpgrade t tickets now path ticket = some stream ↔
        requested path = some stream ∧ available t stream = true ∧ ownerOf t stream = scope
  addressed : ∀ stream, WellNamed stream → requested (url stream) = some stream
  ownerOnly : ∀ id task, t.tasks.get id = some task →
    ∀ (tickets : KeyedList String Ticket) (now : ℕ) (token : String) (machine : Option String),
      token ≠ "" → (handleWebSocketUpgrade t (mintTicket tickets now token machine) now
        (url (.task id)) (some token) = some (.task id) ↔ machine.filter (· ≠ "") = task.owner)

/-- A task whose zone name tells the wrong owner. -/
def Misfiled : Origin → Prop
  | .machine name => name.val = "system" ∨ name.val = "artifact"
  | .pseudo scope _ => scope = "filesystem"

end Ownership

section Tickets

/-- A minted ticket verifies to its machine until it expires. -/
theorem verifyTicket_mintTicket (tickets : KeyedList String Ticket) {minted now : ℕ}
    {token : String} (machine : Option String) (htoken : token ≠ "")
    (hnow : now ≤ minted + ticketTtlMs) :
    verifyTicket (mintTicket tickets minted token machine) now (some token) =
      some (machine.filter (· ≠ "")) := by
  have hget : (mintTicket tickets minted token machine).get token =
      some ⟨minted + ticketTtlMs, machine.filter (· ≠ "")⟩ :=
    KeyedList.get_set_self _ _ _
  have hfilter : (some token).filter (· ≠ "") = some token := by simp [Option.filter, htoken]
  simp only [verifyTicket, hfilter, hget, if_neg (Nat.not_lt.mpr hnow)]

end Tickets

section Patterns
variable {id : Text}

theorem leads_sessionPattern (family : String) :
    Leads family.toList (sessionPattern family) := leads_behind _

theorem leads_logStream : Leads "logs".toList (sessionPattern "logs/stream") := leads_behind _

theorem leads_taskPattern : Leads "tasks".toList taskPattern := leads_behind _

theorem IsId.no_slash (h : IsId id) : '/' ∉ id := by
  intro hmem
  exact absurd (h.2 _ hmem) (by decide)

theorem sessionPattern_join {family : String} (h : IsId id) :
    sessionPattern family (join [family.toList, id]) = some id := by
  have hjoin : join [family.toList, id] = '/' :: family.toList ++ ['/'] ++ id := by
    simp [join]
  have hrun : PathScan.run isIdChar (id ++ []) = some (id, []) := run_append h.1 h.2 (by simp)
  rw [List.append_nil] at hrun
  rw [hjoin, sessionPattern, behind_append, Option.bind_some, hrun]
  rfl

theorem taskPattern_join (h : IsId id) :
    taskPattern (join ["tasks".toList, id, "stream".toList]) = some id := by
  have hjoin : join ["tasks".toList, id, "stream".toList] =
      "/tasks/".toList ++ (id ++ "/stream".toList) := by
    simp [join]
  have hrun : PathScan.run isIdChar (id ++ "/stream".toList) = some (id, "/stream".toList) :=
    run_append h.1 h.2 (by simp [isIdChar])
  have hstream : behind "/stream".toList "/stream".toList = some [] := by decide
  rw [hjoin, taskPattern, behind_append, Option.bind_some, hrun]
  change (behind "/stream".toList "/stream".toList).map (fun _ => id) = some id
  rw [hstream]
  rfl

theorem vncPattern_join {name : Text} (hne : name ≠ []) (hslash : '/' ∉ name) :
    vncPattern (join ["machines".toList, name, "vnc".toList, "websockify".toList]) =
      some name := by
  have hjoin : join ["machines".toList, name, "vnc".toList, "websockify".toList] =
      "/machines/".toList ++ (name ++ "/vnc/websockify".toList) := by
    simp [join]
  have hmember : ∀ c ∈ name, decide (c ≠ '/') = true := by
    intro c hc
    simp only [decide_eq_true_eq]
    rintro rfl
    exact hslash hc
  have hrun : PathScan.run (· ≠ '/') (name ++ "/vnc/websockify".toList) =
      some (name, "/vnc/websockify".toList) := run_append hne hmember (by simp)
  have hbehind : behind "/vnc/websockify".toList "/vnc/websockify".toList = some [] := by decide
  rw [hjoin, vncPattern, behind_append, Option.bind_some, hrun]
  change (behind "/vnc/websockify".toList "/vnc/websockify".toList).map (fun _ => name) = some name
  rw [hbehind]
  rfl

/-- No id is a word with a letter beyond `f`. -/
theorem IsId.ne_word (h : IsId id) {word : Text} {c : Char} (hc : c ∈ word)
    (hnot : isIdChar c = false) : word ≠ id := by
  rintro rfl
  exact absurd (h.2 c hc) (by simp [hnot])

/-- A pattern of another family does not match the path of a VNC stream, whatever the machine's
name is. -/
theorem search_vnc {here : Text → Option Text} {first name : Text} (h : Leads first here)
    (hfirst : '/' ∉ first) (hname : '/' ∉ name)
    (hwords : first ∉ ["machines".toList, "vnc".toList, "websockify".toList])
    (hat : here (join [first, "vnc".toList, "websockify".toList]) = none) :
    search here (join ["machines".toList, name, "vnc".toList, "websockify".toList]) = none := by
  simp only [List.mem_cons, List.not_mem_nil, or_false, not_or] at hwords
  obtain ⟨hmachines, hvnc, hwebsockify⟩ := hwords
  have hslashes : ∀ word ∈ ["vnc".toList, "websockify".toList], '/' ∉ word := by simp
  have hnot : first ∉ ["vnc".toList, "websockify".toList] := by
    simp only [List.mem_cons, List.not_mem_nil, or_false, not_or]
    exact ⟨hvnc, hwebsockify⟩
  have htail : search here (join ["vnc".toList, "websockify".toList]) = none :=
    h.search_join hfirst hslashes hnot
  rw [join_cons, h.search_slash (by simp), h.eq_none hfirst (by simp) (Ne.symm hmachines),
    Option.none_or]
  by_cases heq : name = first
  · rw [heq, join_cons, h.search_slash hfirst, ← join_cons, hat, Option.none_or, htail]
  · rw [join_cons, h.search_slash hname, h.eq_none hfirst hname heq, Option.none_or, htail]

end Patterns

section Exactness
variable {t : Tables} {path : Text} {scope : Scope} {stream : Stream}

/-- The task comparison of an upgrade, against the owner of the task. -/
theorem task_opens_iff {task : Origin} (h : ¬ Misfiled task) :
    ¬ (if hostLevelTask task.zoneName then scope ≠ none else some task.zoneName ≠ scope) ↔
      task.owner = scope := by
  cases task with
  | machine name =>
    have hlevel : hostLevelTask name.val = false := by
      simpa [Misfiled, hostLevelTask, not_or] using h
    simp [Origin.zoneName, Origin.owner, hlevel]
  | pseudo pseudoScope hexempt =>
    have hlevel : hostLevelTask pseudoScope = true := by
      simp only [exclusivityExemptScopes, List.mem_cons, List.not_mem_nil, or_false] at hexempt
      rcases hexempt with rfl | rfl | rfl
      · rfl
      · rfl
      · exact absurd rfl h
    simp [Origin.zoneName, Origin.owner, hlevel, eq_comm]

section Handlers
variable {id : Text}

theorem terminal_eq_some_iff :
    (if scope ≠ none then none else handleTerminalWsUpgrade t id) = some stream ↔
      Stream.terminal id = stream ∧ available t stream = true ∧ ownerOf t stream = scope := by
  unfold handleTerminalWsUpgrade
  cases hrow : t.terminals.get id with
  | none =>
    simp only [ite_self, reduceCtorEq, false_iff]
    rintro ⟨rfl, h, -⟩
    simp [available, hrow] at h
  | some status =>
    constructor
    · intro h
      simp only at h
      split_ifs at h with hscope hlive
      cases h
      simp [available, ownerOf, hrow, hlive, not_not.mp hscope]
    · rintro ⟨rfl, h, rfl⟩
      have hlive : isLive status = true := by simpa [available, hrow] using h
      simp [ownerOf, hlive]

theorem session_eq_some_iff {sessions : KeyedList Text Session} {make : Text → Stream} :
    handleSessionUpgrade sessions make id scope = some stream ↔
      make id = stream ∧ (sessions.get id).any (isLive ·.status) = true ∧
        (sessions.get id).map (·.zoneName.val) = scope := by
  unfold handleSessionUpgrade
  cases hrow : sessions.get id with
  | none => simp
  | some session =>
    constructor
    · intro h
      simp only at h
      split_ifs at h with hlive hscope
      cases h
      exact ⟨rfl, hlive, hscope⟩
    · rintro ⟨rfl, hlive, rfl⟩
      have hlive : isLive session.status = true := hlive
      simp [hlive]

theorem zlogin_eq_some_iff :
    handleZloginWsUpgrade t id scope = some stream ↔
      Stream.zlogin id = stream ∧ available t stream = true ∧ ownerOf t stream = scope := by
  rw [handleZloginWsUpgrade, session_eq_some_iff]
  apply and_congr_right
  rintro rfl
  rfl

theorem ssh_eq_some_iff :
    handleSSHWsUpgrade t id scope = some stream ↔
      Stream.ssh id = stream ∧ available t stream = true ∧ ownerOf t stream = scope := by
  rw [handleSSHWsUpgrade, session_eq_some_iff]
  apply and_congr_right
  rintro rfl
  rfl

theorem log_eq_some_iff :
    (if scope ≠ none then none else handleLogStreamUpgrade t path) = some stream ↔
      (logSessionId path).map .log = some stream ∧ available t stream = true ∧
        ownerOf t stream = scope := by
  unfold handleLogStreamUpgrade
  cases logSessionId path with
  | none => simp
  | some id =>
    simp only [Option.bind_some, Option.map_some, Option.some.injEq]
    constructor
    · intro h
      split_ifs at h with hscope hrow
      cases h
      simp [available, ownerOf, hrow, not_not.mp hscope]
    · rintro ⟨rfl, h, rfl⟩
      have hrow : id ∈ t.logs := by simpa [available] using h
      simp [ownerOf, hrow]

theorem task_eq_some_iff
    (hfiled : ∀ task, t.tasks.get id = some task → ¬ Misfiled task) :
    handleTaskStreamUpgrade t id scope = some stream ↔
      Stream.task id = stream ∧ available t stream = true ∧ ownerOf t stream = scope := by
  unfold handleTaskStreamUpgrade
  cases hrow : t.tasks.get id with
  | none =>
    simp only [reduceCtorEq, false_iff]
    rintro ⟨rfl, h, -⟩
    simp [available, hrow] at h
  | some task =>
    have hopens := @task_opens_iff scope task (hfiled task hrow)
    simp only
    by_cases hscope : task.owner = scope
    · rw [if_neg (hopens.mpr hscope), Option.some.injEq]
      constructor
      · rintro rfl
        simp [available, ownerOf, hrow, hscope]
      · exact And.left
    · rw [if_pos (not_not.mp (mt hopens.mp hscope))]
      simp only [reduceCtorEq, false_iff]
      rintro ⟨rfl, -, h⟩
      apply hscope
      simpa [ownerOf, hrow] using h

theorem vnc_eq_some_iff {zoneName : String} :
    (if some zoneName ≠ scope then none else setupVncConnection t zoneName) = some stream ↔
      Stream.vnc zoneName = stream ∧ available t stream = true ∧ ownerOf t stream = scope := by
  unfold setupVncConnection
  constructor
  · intro h
    split_ifs at h with hscope hlive
    cases h
    simp [available, ownerOf, hlive, not_not.mp hscope]
  · rintro ⟨rfl, h, rfl⟩
    have hlive : zoneName ∈ t.vncs := by simpa [available] using h
    simp [ownerOf, hlive]

end Handlers

theorem dispatchUpgrade_eq_some_iff
    (hfiled : ∀ id task, t.tasks.get id = some task → ¬ Misfiled task) :
    dispatchUpgrade t path scope = some stream ↔
      requested path = some stream ∧ available t stream = true ∧ ownerOf t stream = scope := by
  unfold dispatchUpgrade requested
  cases termMatch path with
  | some id => simpa only [Option.some.injEq] using terminal_eq_some_iff
  | none =>
  cases zloginMatch path with
  | some id => simpa only [Option.some.injEq] using zlogin_eq_some_iff
  | none =>
  cases sshMatch path with
  | some id => simpa only [Option.some.injEq] using ssh_eq_some_iff
  | none =>
  cases logStreamMatch path with
  | some id => exact log_eq_some_iff
  | none =>
  cases taskStreamMatch path with
  | some id => simpa only [Option.some.injEq] using task_eq_some_iff (hfiled id)
  | none =>
  cases vncMatch path with
  | none => simp
  | some name =>
    cases hdecode : decode name with
    | none => simp [hdecode]
    | some name =>
      simp only [hdecode, Option.bind_some, Option.map_some, Option.some.injEq]
      exact vnc_eq_some_iff

end Exactness

section Addresses
variable {id : Text}

theorem termMatch_of_not_mem {segments : List Text} (h : ∀ segment ∈ segments, '/' ∉ segment)
    (hnot : "term".toList ∉ segments) : termMatch (join segments) = none :=
  (leads_sessionPattern "term").search_join (by simp) h hnot

theorem zloginMatch_of_not_mem {segments : List Text} (h : ∀ segment ∈ segments, '/' ∉ segment)
    (hnot : "zlogin".toList ∉ segments) : zloginMatch (join segments) = none :=
  (leads_sessionPattern "zlogin").search_join (by simp) h hnot

theorem sshMatch_of_not_mem {segments : List Text} (h : ∀ segment ∈ segments, '/' ∉ segment)
    (hnot : "ssh".toList ∉ segments) : sshMatch (join segments) = none :=
  (leads_sessionPattern "ssh").search_join (by simp) h hnot

theorem logStreamMatch_of_not_mem {segments : List Text}
    (h : ∀ segment ∈ segments, '/' ∉ segment) (hnot : "logs".toList ∉ segments) :
    logStreamMatch (join segments) = none :=
  leads_logStream.search_join (by simp) h hnot

theorem requested_terminal (h : IsId id) :
    requested (url (.terminal id)) = some (.terminal id) := by
  have hterm : termMatch (url (.terminal id)) = some id :=
    search_join_of_some (sessionPattern_join h)
  simp only [requested, hterm]

theorem requested_zlogin (h : IsId id) : requested (url (.zlogin id)) = some (.zlogin id) := by
  have hslashes : ∀ word ∈ ["zlogin".toList, id], '/' ∉ word := by simp [h.no_slash]
  have hne : "term".toList ≠ id := h.ne_word (c := 't') (by simp) (by decide)
  have hterm : termMatch (url (.zlogin id)) = none :=
    termMatch_of_not_mem hslashes (by simpa using hne)
  have hzlogin : zloginMatch (url (.zlogin id)) = some id :=
    search_join_of_some (sessionPattern_join h)
  simp only [requested, hterm, hzlogin]

theorem requested_ssh (h : IsId id) : requested (url (.ssh id)) = some (.ssh id) := by
  have hslashes : ∀ word ∈ ["ssh".toList, id], '/' ∉ word := by simp [h.no_slash]
  have hterm : "term".toList ≠ id := h.ne_word (c := 't') (by simp) (by decide)
  have hzlogin : "zlogin".toList ≠ id := h.ne_word (c := 'z') (by simp) (by decide)
  have htermMatch : termMatch (url (.ssh id)) = none :=
    termMatch_of_not_mem hslashes (by simpa using hterm)
  have hzloginMatch : zloginMatch (url (.ssh id)) = none :=
    zloginMatch_of_not_mem hslashes (by simpa using hzlogin)
  have hsshMatch : sshMatch (url (.ssh id)) = some id :=
    search_join_of_some (sessionPattern_join h)
  simp only [requested, htermMatch, hzloginMatch, hsshMatch]

theorem requested_log (h : IsId id) : requested (url (.log id)) = some (.log id) := by
  have hslashes : ∀ word ∈ ["logs".toList, "stream".toList, id], '/' ∉ word := by
    simp [h.no_slash]
  have hterm : "term".toList ≠ id := h.ne_word (c := 't') (by simp) (by decide)
  have hzlogin : "zlogin".toList ≠ id := h.ne_word (c := 'z') (by simp) (by decide)
  have hssh : "ssh".toList ≠ id := h.ne_word (c := 's') (by simp) (by decide)
  have htermMatch : termMatch (url (.log id)) = none :=
    termMatch_of_not_mem hslashes (by simpa using hterm)
  have hzloginMatch : zloginMatch (url (.log id)) = none :=
    zloginMatch_of_not_mem hslashes (by simpa using hzlogin)
  have hsshMatch : sshMatch (url (.log id)) = none :=
    sshMatch_of_not_mem hslashes (by simpa using hssh)
  have hpattern : sessionPattern "logs/stream" (url (.log id)) = some id := by
    have hjoin : url (.log id) = '/' :: "logs/stream".toList ++ ['/'] ++ id := by
      simp [url, join]
    have hrun : PathScan.run isIdChar (id ++ []) = some (id, []) := run_append h.1 h.2 (by simp)
    rw [List.append_nil] at hrun
    rw [hjoin, sessionPattern, behind_append, Option.bind_some, hrun]
    rfl
  have hlogMatch : logStreamMatch (url (.log id)) = some id := search_join_of_some hpattern
  have hsplit : split (url (.log id)) = [[], "logs".toList, "stream".toList, id] := by
    have hurl : url (.log id) =
        [] ++ '/' :: ("logs".toList ++ '/' :: ("stream".toList ++ '/' :: id)) := by
      simp [url, join]
    rw [hurl, split_append (by simp), split_append (by simp), split_append (by simp),
      split_segment h.no_slash]
  have hid : logSessionId (url (.log id)) = some id := by simp [logSessionId, hsplit]
  simp only [requested, htermMatch, hzloginMatch, hsshMatch, hlogMatch, hid, Option.map_some]

/-- Which families match the path of a task's stream. -/
theorem matches_task (h : IsId id) :
    termMatch (url (.task id)) = none ∧ zloginMatch (url (.task id)) = none ∧
      sshMatch (url (.task id)) = none ∧ logStreamMatch (url (.task id)) = none ∧
        taskStreamMatch (url (.task id)) = some id := by
  have hslashes : ∀ word ∈ ["tasks".toList, id, "stream".toList], '/' ∉ word := by
    simp [h.no_slash]
  have hterm : "term".toList ≠ id := h.ne_word (c := 't') (by simp) (by decide)
  have hzlogin : "zlogin".toList ≠ id := h.ne_word (c := 'z') (by simp) (by decide)
  have hssh : "ssh".toList ≠ id := h.ne_word (c := 's') (by simp) (by decide)
  have hlogs : "logs".toList ≠ id := h.ne_word (c := 'l') (by simp) (by decide)
  refine ⟨?_, ?_, ?_, ?_, ?_⟩
  · exact termMatch_of_not_mem hslashes (by simpa using hterm)
  · exact zloginMatch_of_not_mem hslashes (by simpa using hzlogin)
  · exact sshMatch_of_not_mem hslashes (by simpa using hssh)
  · exact logStreamMatch_of_not_mem hslashes (by simpa using hlogs)
  · exact search_join_of_some (taskPattern_join h)

theorem requested_task (h : IsId id) : requested (url (.task id)) = some (.task id) := by
  obtain ⟨hterm, hzlogin, hssh, hlogs, htask⟩ := matches_task h
  simp only [requested, hterm, hzlogin, hssh, hlogs, htask]

theorem dispatchUpgrade_task {t : Tables} (h : IsId id) (scope : Scope) :
    dispatchUpgrade t (url (.task id)) scope = handleTaskStreamUpgrade t id scope := by
  obtain ⟨hterm, hzlogin, hssh, hlogs, htask⟩ := matches_task h
  simp only [dispatchUpgrade, hterm, hzlogin, hssh, hlogs, htask]

theorem mem_nameChars {zoneName : String} (h : validateZoneName zoneName = true) :
    zoneName.toList ≠ [] ∧ ∀ c ∈ zoneName.toList, isNameChar c = true := by
  simp only [validateZoneName, Bool.and_eq_true, decide_eq_true_eq, List.all_eq_true] at h
  exact ⟨h.1.1.1.1, h.1.2⟩

theorem requested_vnc {zoneName : String} (h : validateZoneName zoneName = true) :
    requested (url (.vnc zoneName)) = some (.vnc zoneName) := by
  obtain ⟨hne, hchars⟩ := mem_nameChars h
  have hslash : '/' ∉ zoneName.toList := by
    intro hmem
    exact absurd (hchars _ hmem) (by decide)
  have hpercent : '%' ∉ zoneName.toList := by
    intro hmem
    exact absurd (hchars _ hmem) (by decide)
  have htermMatch : termMatch (url (.vnc zoneName)) = none :=
    search_vnc (leads_sessionPattern "term") (by simp) hslash (by simp) (by decide)
  have hzloginMatch : zloginMatch (url (.vnc zoneName)) = none :=
    search_vnc (leads_sessionPattern "zlogin") (by simp) hslash (by simp) (by decide)
  have hsshMatch : sshMatch (url (.vnc zoneName)) = none :=
    search_vnc (leads_sessionPattern "ssh") (by simp) hslash (by simp) (by decide)
  have hlogMatch : logStreamMatch (url (.vnc zoneName)) = none :=
    search_vnc leads_logStream (by simp) hslash (by simp) (by decide)
  have htaskMatch : taskStreamMatch (url (.vnc zoneName)) = none :=
    search_vnc leads_taskPattern (by simp) hslash (by simp) (by decide)
  have hvncMatch : vncMatch (url (.vnc zoneName)) = some zoneName.toList :=
    search_join_of_some (vncPattern_join hne hslash)
  simp only [requested, htermMatch, hzloginMatch, hsshMatch, hlogMatch, htaskMatch, hvncMatch,
    Option.bind_some, decode_plain hpercent, Option.map_some, String.ofList_toList]

/-- The path of every stream asks for that stream. -/
theorem requested_url {stream : Stream} (h : WellNamed stream) :
    requested (url stream) = some stream := by
  cases stream with
  | terminal id => exact requested_terminal h
  | zlogin id => exact requested_zlogin h
  | ssh id => exact requested_ssh h
  | log id => exact requested_log h
  | task id => exact requested_task h
  | vnc zoneName => exact requested_vnc h

end Addresses

section Main
variable {t : Tables} {id : Text} {task : Origin}

/-- A ticket minted for the owner of a task has its scope. -/
theorem filter_owner (task : Origin) : task.owner.filter (· ≠ "") = task.owner := by
  cases task with
  | pseudo _ _ => rfl
  | machine name =>
    have hne : name.val ≠ "" := by
      intro hnil
      exact (mem_nameChars name.property).1 (by simp [hnil])
    simp [Origin.owner, Option.filter, hne]

/-- The upgrade to a misfiled task refuses its owner. -/
theorem handleTaskStreamUpgrade_misfiled (hrow : t.tasks.get id = some task)
    (h : Misfiled task) : handleTaskStreamUpgrade t id task.owner = none := by
  unfold handleTaskStreamUpgrade
  rw [hrow]
  cases task with
  | machine name =>
    have hlevel : hostLevelTask name.val = true := by
      simpa [Misfiled, hostLevelTask] using h
    simp [Origin.zoneName, Origin.owner, hlevel]
  | pseudo scope hexempt =>
    have hscope : scope = "filesystem" := h
    have hlevel : hostLevelTask scope = false := by
      rw [hscope]
      decide
    simp [Origin.zoneName, Origin.owner, hlevel]

theorem scopes_exact_iff (t : Tables) :
    ScopesExact t ↔ ∀ id task, t.tasks.get id = some task → ¬ Misfiled task := by
  constructor
  · intro h id task hrow hmisfiled
    have hopens := (h.ownerOnly id task hrow [] 0 "ticket" task.owner (by decide)).mpr
      (filter_owner task)
    rw [handleWebSocketUpgrade,
      verifyTicket_mintTicket [] task.owner (by decide) (Nat.zero_le _), filter_owner] at hopens
    change dispatchUpgrade t (url (.task id)) task.owner = some (.task id) at hopens
    rw [dispatchUpgrade_task (t.taskIds id task hrow),
      handleTaskStreamUpgrade_misfiled hrow hmisfiled] at hopens
    cases hopens
  · intro hfiled
    constructor
    · intro tickets now path ticket scope hticket stream
      rw [handleWebSocketUpgrade, hticket]
      exact dispatchUpgrade_eq_some_iff hfiled
    · intro stream hstream
      exact requested_url hstream
    · intro id task hrow tickets now token machine htoken
      have hid : WellNamed (.task id) := t.taskIds id task hrow
      rw [handleWebSocketUpgrade,
        verifyTicket_mintTicket tickets machine htoken (Nat.le_add_right _ _)]
      change dispatchUpgrade t (url (.task id)) (machine.filter (· ≠ "")) = _ ↔ _
      rw [dispatchUpgrade_eq_some_iff hfiled, requested_url hid]
      simp [available, ownerOf, hrow, eq_comm]

/-- A host with one task, a file operation of the host. -/
def filesystemTables : Tables where
  terminals := []
  zlogins := []
  sshs := []
  logs := []
  tasks := [("a1".toList, .pseudo "filesystem" (by decide))]
  vncs := []
  taskIds := by
    intro id task h
    have hid := (KeyedList.mem_keys_iff _ id).mpr ⟨task, h⟩
    simp only [KeyedList.keys, List.map_cons, List.map_nil, List.mem_singleton] at hid
    rw [hid]
    exact ⟨by decide, by simp [isIdChar]⟩

theorem scopes_exact_fails : ¬ ScopesExact filesystemTables := by
  intro h
  have hopens := (h.ownerOnly "a1".toList (.pseudo "filesystem" (by decide)) rfl
    [] 0 "ticket" none (by decide)).mpr rfl
  exact absurd hopens (by decide +kernel)

end Main

end ZoneweaverAgent.WsStreams
