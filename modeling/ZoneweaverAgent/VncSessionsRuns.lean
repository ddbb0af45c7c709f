import ZoneweaverAgent.VncSessions

/-!
# Sessions keep their identity

In a run whose steps are `Careful` (a process is spawned only when its port is free of live
processes and its zone has none, and a process is adopted only by its own zone) ports are distinct,
a zone has one process at most, and a PID file names it.
-/

namespace ZoneweaverAgent.Vnc
open EventLoop

/-! ## The properties and the condition -/

/-- An older exit removes no newer file, nothing is adopted or killed for another zone. -/
def Event.Harmless : Event → Prop
  | .adopted zone _ owner => owner = some zone
  | .killed zone _ owner => owner = zone
  | .unlinked pid named => named = pid

structure Identity (w : World) : Prop where
  ports : ∀ q q' p p', w.processes.get q = some p → w.processes.get q' = some p' → q ≠ q' →
    p.port ≠ p'.port
  one : ∀ q q' p p', w.processes.get q = some p → w.processes.get q' = some p' →
    p.zone = p'.zone → q = q'
  /-- what a reader gets of a PID file is the newest live process of the zone, with its port -/
  info : ∀ zone info, (w.getSessionInfo zone).1 = some info →
    ∃ p, w.processes.get info.pid = some p ∧ p.zone = zone ∧ info.port = some p.port ∧
      ∀ q p', w.processes.get q = some p' → p'.zone = zone → q ≤ info.pid
  /-- a file whose process has just died stands for no other process -/
  file : ∀ zone f, w.pidFiles.get zone = some f → ∀ q p, w.processes.get q = some p →
    p.zone = zone → q = f.pid
  history : ∀ e ∈ w.history, e.Harmless

/-- What a spawn finds: the port is free, and the zone has neither a live process nor an exit that
has not been handled. -/
def Fits (w : World) (plan : Plan) (port : ℕ) : Prop :=
  (∀ e ∈ w.processes, e.2.port ≠ port ∧ e.2.zone ≠ plan.zone) ∧
    (∀ e ∈ w.exited, e.2.1 ≠ plan.zone) ∧ ':' ∉ plan.host.toList

instance (w : World) (plan : Plan) (port : ℕ) : Decidable (Fits w plan port) :=
  inferInstanceAs (Decidable (_ ∧ _ ∧ _))

def CarefulPoint (w : World) : Point Pc Ans → Prop
  | (.probeBind plan port, some (.found true)) => Fits w plan port
  | (.orphans zone, some (.lines lines)) =>
    ∀ l ∈ findOrphan zone lines, ∃ p ∈ w.processes.get l.pid, p.zone = zone
  | _ => True

/-- The condition on one step. -/
def Careful (s : VState) : VLabel → Prop
  | .resume pid => ∀ p ∈ s.procs.get pid, CarefulPoint s.world p.point
  | _ => True

instance (w : World) : (x : Point Pc Ans) → Decidable (CarefulPoint w x) := by
  intro x
  unfold CarefulPoint
  split <;> infer_instance

instance (s : VState) : (l : VLabel) → Decidable (Careful s l)
  | .resume pid => inferInstanceAs
    (Decidable (∀ p ∈ s.procs.get pid, CarefulPoint s.world p.point))
  | .serve _ _ | .fail _ | .enter _ => inferInstanceAs (Decidable True)

/-- A world left behind by an earlier agent: no child of this one, nothing handled yet. -/
structure Boots (w : World) : Prop where
  identity : Identity w
  known : ∀ q p, w.processes.get q = some p → q < w.nextPid
  files : ∀ zone f, w.pidFiles.get zone = some f → f.pid < w.nextPid
  exited : w.exited = []

/-! ## The invariant -/

/-- A live process of the zone, or one whose exit has not been handled. -/
def Present (w : World) (q : ℕ) (zone : String) : Prop :=
  (∃ p, w.processes.get q = some p ∧ p.zone = zone) ∨ ∃ code, w.exited.get q = some (zone, code)

structure Names (w : World) (zone : String) (f : PidFile) : Prop where
  known : f.pid < w.nextPid
  only : ∀ q, Present w q zone → q = f.pid
  live : ∀ p, w.processes.get f.pid = some p → p.zone = zone ∧ portOf f.netport = some p.port

structure Keeps (w : World) : Prop where
  known : ∀ q p, w.processes.get q = some p → q < w.nextPid
  knownExit : ∀ q e, w.exited.get q = some e → q < w.nextPid
  ports : ∀ q q' p p', w.processes.get q = some p → w.processes.get q' = some p' → q ≠ q' →
    p.port ≠ p'.port
  one : ∀ zone q q', Present w q zone → Present w q' zone → q = q'
  file : ∀ zone f, w.pidFiles.get zone = some f → Names w zone f
  history : ∀ e ∈ w.history, e.Harmless

/-- What an activation knows: the process it kills is of its zone, and what it has been listed. -/
structure Here (w : World) (x : Point Pc Ans) : Prop where
  kill : ∀ zone pid after, x.1 = .kill zone pid after →
    pid < w.nextPid ∧ ∀ p, w.processes.get pid = some p → p.zone = zone
  lines : ∀ zone ls, x = (.orphans zone, some (.lines ls)) → ∀ l ∈ ls,
    l.pid < w.nextPid ∧ ∀ p, w.processes.get l.pid = some p → l.port = p.port

variable {w w' : World} {x : Point Pc Ans} {zone : String}

theorem isSome_getSessionInfo {info : SessionInfo} (h : (w.getSessionInfo zone).1 = some info) :
    ∃ f p, w.pidFiles.get zone = some f ∧ w.processes.get f.pid = some p ∧ info.pid = f.pid ∧
      info.port = portOf f.netport := by
  unfold World.getSessionInfo at h
  split at h
  · cases h
  · rename_i f hf
    split_ifs at h with hrunning
    obtain ⟨p, hp⟩ := Option.isSome_iff_exists.mp hrunning
    cases h
    exact ⟨f, p, hf, hp, rfl, rfl⟩

theorem Keeps.identity (h : Keeps w) : Identity w where
  ports := h.ports
  one q q' p p' hq hq' hzone :=
    h.one p.zone q q' (.inl ⟨p, hq, rfl⟩) (.inl ⟨p', hq', hzone.symm⟩)
  info zone info hinfo := by
    obtain ⟨f, p, hf, hp, hpid, hport⟩ := isSome_getSessionInfo hinfo
    obtain ⟨hzone, hportOf⟩ := (h.file zone f hf).live p hp
    refine ⟨p, by rw [hpid, hp], hzone, hport.trans hportOf, fun q p' hq hz => ?_⟩
    rw [hpid]
    exact ((h.file zone f hf).only q (.inl ⟨p', hq, hz⟩)).le
  file zone f hf q p hq hz := (h.file zone f hf).only q (.inl ⟨p, hq, hz⟩)
  history := h.history

theorem Boots.keeps (h : Boots w) : Keeps w := by
  have present : ∀ {q zone}, Present w q zone → ∃ p, w.processes.get q = some p ∧ p.zone = zone := by
    rintro q zone (hlive | ⟨code, hcode⟩)
    · exact hlive
    · rw [h.exited] at hcode
      cases hcode
  refine ⟨h.known, fun q e he => ?_, h.identity.ports, fun zone q q' hq hq' => ?_,
    fun zone f hf => ⟨h.files zone f hf, fun q hq => ?_, fun p hp => ?_⟩, h.identity.history⟩
  · rw [h.exited] at he
    cases he
  · obtain ⟨p, hp, hz⟩ := present hq
    obtain ⟨p', hp', hz'⟩ := present hq'
    exact h.identity.one q q' p p' hp hp' (hz.trans hz'.symm)
  · obtain ⟨p, hp, hz⟩ := present hq
    exact h.identity.file zone f hf q p hp hz
  · have hinfo : (w.getSessionInfo zone).1 =
        some ⟨f.pid, f.command, f.timestamp, f.vmname, f.netport, portOf f.netport⟩ := by
      have hrunning : w.isProcessRunning f.pid = true := by
        rw [World.isProcessRunning, hp]
        rfl
      simp only [World.getSessionInfo, hf, if_pos hrunning]
    obtain ⟨p', hp', hz, hport, -⟩ := h.identity.info zone _ hinfo
    cases hp.symm.trans hp'
    exact ⟨hz, hport⟩

/-! ## Moves -/

/-- The processes of the later world were there before, or are new. -/
structure Later (w w' : World) : Prop where
  next : w.nextPid ≤ w'.nextPid
  old : ∀ q p', q < w.nextPid → w'.processes.get q = some p' →
    ∃ p, w.processes.get q = some p ∧ p.zone = p'.zone ∧ p.port = p'.port

theorem Here.later (h : Here w x) (hl : Later w w') : Here w' x where
  kill zone pid after hx := by
    obtain ⟨hlt, hzone⟩ := h.kill zone pid after hx
    refine ⟨hlt.trans_le hl.next, fun p' hp' => ?_⟩
    obtain ⟨p, hp, hz, -⟩ := hl.old pid p' hlt hp'
    exact hz ▸ hzone p hp
  lines zone ls hx l hl' := by
    obtain ⟨hlt, hport⟩ := h.lines zone ls hx l hl'
    refine ⟨hlt.trans_le hl.next, fun p' hp' => ?_⟩
    obtain ⟨p, hp, -, hport'⟩ := hl.old l.pid p' hlt hp'
    exact (hport p hp).trans hport'

/-- Some PID files have been removed; rows, clock and exit codes may differ. -/
structure Trimmed (w w' : World) : Prop where
  processes : w'.processes = w.processes
  nextPid : w'.nextPid = w.nextPid
  exited : w'.exited = w.exited
  history : w'.history = w.history
  files : ∀ zone f, w'.pidFiles.get zone = some f → w.pidFiles.get zone = some f

theorem Trimmed.refl (w : World) : Trimmed w w := ⟨rfl, rfl, rfl, rfl, fun _ _ h => h⟩

theorem Trimmed.trans {w'' : World} (h : Trimmed w w') (h' : Trimmed w' w'') : Trimmed w w'' :=
  ⟨h'.processes.trans h.processes, h'.nextPid.trans h.nextPid, h'.exited.trans h.exited,
    h'.history.trans h.history, fun zone f hf => h.files zone f (h'.files zone f hf)⟩

theorem Trimmed.later (h : Trimmed w w') : Later w w' := by
  refine ⟨h.nextPid.ge, fun q p' _ hp' => ⟨p', ?_, rfl, rfl⟩⟩
  rw [← h.processes]
  exact hp'

theorem Trimmed.present (h : Trimmed w w') {q : ℕ} : Present w' q zone ↔ Present w q zone := by
  rw [Present, Present, h.processes, h.exited]

theorem Trimmed.keeps (h : Trimmed w w') (hw : Keeps w) : Keeps w' := by
  refine ⟨?_, ?_, ?_, fun zone q q' hq hq' => ?_, fun zone f hf => ?_, ?_⟩
  · rw [h.processes, h.nextPid]
    exact hw.known
  · rw [h.exited, h.nextPid]
    exact hw.knownExit
  · rw [h.processes]
    exact hw.ports
  · exact hw.one zone q q' (h.present.mp hq) (h.present.mp hq')
  · obtain ⟨hknown, honly, hlive⟩ := hw.file zone f (h.files zone f hf)
    refine ⟨h.nextPid ▸ hknown, fun q hq => honly q (h.present.mp hq), ?_⟩
    rw [h.processes]
    exact hlive
  · rw [h.history]
    exact hw.history

theorem trimmed_removePidFile (w : World) (zone : String) : Trimmed w (w.removePidFile zone) :=
  ⟨rfl, rfl, rfl, rfl, fun _ _ h => (KeyedList.get_erase_eq_some h).2⟩

theorem trimmed_getSessionInfo (w : World) (zone : String) :
    Trimmed w (w.getSessionInfo zone).2 := by
  unfold World.getSessionInfo
  split
  · exact .refl w
  · split
    · exact .refl w
    · exact trimmed_removePidFile w zone

/-- A point that is no kill, with no list of processes. -/
theorem here_plain {pc : Pc} (h : ∀ zone pid after, pc ≠ .kill zone pid after) :
    Here w (pc, none) :=
  ⟨fun zone pid after hx => absurd hx (h zone pid after), fun zone ls hx => by cases hx⟩

/-- `killSession` turns to a process of its zone. -/
theorem killSession_spec (hw : Keeps w) (zone : String) (after : AfterKill) :
    Trimmed w (killSession w zone after).1 ∧
      ∀ pc ∈ (killSession w zone after).2, Here (killSession w zone after).1 (pc, none) := by
  have htrim := trimmed_getSessionInfo w zone
  unfold killSession
  split
  case h_1 info w₁ heq =>
    rw [heq] at htrim
    refine ⟨htrim, fun pc hpc => ?_⟩
    cases Option.some.inj hpc
    obtain ⟨f, p, hf, hp, hpid, -⟩ := @isSome_getSessionInfo w zone info (by rw [heq])
    obtain ⟨hknown, -, hlive⟩ := hw.file zone f hf
    refine ⟨fun z pid a hx => ?_, fun z ls hx => by cases hx⟩
    cases hx
    rw [hpid, htrim.nextPid, htrim.processes]
    exact ⟨hknown, fun p' hp' => (hlive p' hp').1⟩
  case h_2 w₁ heq =>
    rw [heq] at htrim
    refine ⟨htrim, fun pc hpc => here_plain ?_⟩
    cases after <;> cases hpc <;> simp

theorem killSessions_spec (hw : Keeps w) (rs : List Row) :
    Trimmed w (killSessions w rs).1 ∧
      ∀ pc ∈ (killSessions w rs).2, Here (killSessions w rs).1 (pc, none) := by
  induction rs generalizing w with
  | nil => exact ⟨.refl w, fun pc h => by cases h⟩
  | cons r rs ih =>
    obtain ⟨htrim, hhere⟩ := killSession_spec hw r.zoneName (.cleanup r.id)
    obtain ⟨htrim', hhere'⟩ := ih (htrim.keeps hw)
    refine ⟨htrim.trans htrim', fun pc hpc => ?_⟩
    rcases List.mem_append.mp hpc with hfirst | hrest
    · exact (hhere pc (Option.mem_toList.mp hfirst)).later htrim'.later
    · exact hhere' pc hrest

theorem trimmed_cleanFiles (w : World) (zones : List String) : Trimmed w (cleanFiles w zones) := by
  induction zones generalizing w with
  | nil => exact .refl w
  | cons zone zones ih => exact (trimmed_getSessionInfo w zone).trans (ih _)

/-! ### Deaths, spawns and adoptions -/

theorem present_die {pid : ℕ} {p : Process} {code : Option ℕ} (hp : w.processes.get pid = some p)
    {q : ℕ} (h : Present (w.die pid p code) q zone) : Present w q zone := by
  rcases h with ⟨p', hp', hz⟩ | ⟨c, hc⟩
  · exact .inl ⟨p', (KeyedList.get_erase_eq_some hp').2, hz⟩
  · simp only [World.die] at hc
    split_ifs at hc with hchild
    · rw [KeyedList.get_set] at hc
      split_ifs at hc with hq
      · cases hq
        cases hc
        exact .inl ⟨p, hp, rfl⟩
      · exact .inr ⟨c, hc⟩
    · exact .inr ⟨c, hc⟩

theorem later_die (w : World) (pid : ℕ) (p : Process) (code : Option ℕ) :
    Later w (w.die pid p code) :=
  ⟨le_rfl, fun q p' _ hp' => ⟨p', (KeyedList.get_erase_eq_some hp').2, rfl, rfl⟩⟩

theorem Keeps.die {pid : ℕ} {p : Process} (hw : Keeps w) (hp : w.processes.get pid = some p)
    (code : Option ℕ) : Keeps (w.die pid p code) := by
  have old : ∀ {q p'}, (w.die pid p code).processes.get q = some p' →
      w.processes.get q = some p' := fun h => (KeyedList.get_erase_eq_some h).2
  refine ⟨fun q p' h => hw.known q p' (old h), fun q e he => ?_,
    fun q q' p p' h h' => hw.ports q q' p p' (old h) (old h'), fun zone q q' h h' =>
      hw.one zone q q' (present_die hp h) (present_die hp h'), fun zone f hf => ?_, hw.history⟩
  · simp only [World.die] at he
    split_ifs at he
    · rw [KeyedList.get_set] at he
      split_ifs at he with hq
      · exact hq ▸ hw.known pid p hp
      · exact hw.knownExit q e he
    · exact hw.knownExit q e he
  · obtain ⟨hknown, honly, hlive⟩ := hw.file zone f hf
    exact ⟨hknown, fun q hq => honly q (present_die hp hq), fun p' hp' => hlive p' (old hp')⟩

theorem Keeps.record {e : Event} (hw : Keeps w) (he : e.Harmless) : Keeps (w.record e) := by
  refine ⟨hw.known, hw.knownExit, hw.ports, hw.one, fun zone f hf => ?_, fun e' he' => ?_⟩
  · obtain ⟨hknown, honly, hlive⟩ := hw.file zone f hf
    exact ⟨hknown, honly, hlive⟩
  · rcases List.mem_cons.mp he' with rfl | hold
    · exact he
    · exact hw.history e' hold

/-- The exit handler removes the file of its own process. -/
theorem Keeps.onExit {pid : ℕ} {code : Option ℕ} (hw : Keeps w)
    (hexit : w.exited.get pid = some (zone, code)) : Keeps (w.onExit pid zone code) := by
  let w₁ : World := { w with
    exited := w.exited.erase pid
    exitCodes := w.exitCodes.set pid code }
  have present : ∀ {q z}, Present w₁ q z → Present w q z := by
    rintro q z (hlive | ⟨c, hc⟩)
    · exact .inl hlive
    · exact .inr ⟨c, (KeyedList.get_erase_eq_some hc).2⟩
  have hw₁ : Keeps w₁ := by
    refine ⟨hw.known, fun q e he => hw.knownExit q e (KeyedList.get_erase_eq_some he).2, hw.ports,
      fun z q q' h h' => hw.one z q q' (present h) (present h'), fun z f hf => ?_, hw.history⟩
    obtain ⟨hknown, honly, hlive⟩ := hw.file z f hf
    exact ⟨hknown, fun q hq => honly q (present hq), hlive⟩
  unfold World.onExit
  dsimp only
  cases hf : w.pidFiles.get zone with
  | none => exact hw₁
  | some f =>
    apply ((trimmed_removePidFile w₁ zone).keeps hw₁).record
    exact ((hw.file zone f hf).only pid (.inr ⟨code, hexit⟩)).symm

/-- Processes that differ in neither zone nor port. -/
theorem Keeps.alike (hw : Keeps w) (hnext : w'.nextPid = w.nextPid)
    (hexited : w'.exited = w.exited) (hfiles : w'.pidFiles = w.pidFiles)
    (hhistory : w'.history = w.history)
    (halike : ∀ q p', w'.processes.get q = some p' →
      ∃ p, w.processes.get q = some p ∧ p.zone = p'.zone ∧ p.port = p'.port) : Keeps w' := by
  have present : ∀ {q z}, Present w' q z → Present w q z := by
    rintro q z (⟨p', hp', hz⟩ | hcode)
    · obtain ⟨p, hp, hzone, -⟩ := halike q p' hp'
      exact .inl ⟨p, hp, hzone.trans hz⟩
    · rw [hexited] at hcode
      exact .inr hcode
  refine ⟨fun q p' hp' => ?_, ?_, fun q q' p p' hp hp' hqq => ?_,
    fun z q q' h h' => hw.one z q q' (present h) (present h'), fun z f hf => ?_, ?_⟩
  · obtain ⟨p, hp, -⟩ := halike q p' hp'
    rw [hnext]
    exact hw.known q p hp
  · rw [hexited, hnext]
    exact hw.knownExit
  · obtain ⟨p₁, hp₁, -, hport₁⟩ := halike q p hp
    obtain ⟨p₂, hp₂, -, hport₂⟩ := halike q' p' hp'
    rw [← hport₁, ← hport₂]
    exact hw.ports q q' p₁ p₂ hp₁ hp₂ hqq
  · rw [hfiles] at hf
    obtain ⟨hknown, honly, hlive⟩ := hw.file z f hf
    refine ⟨hnext ▸ hknown, fun q hq => honly q (present hq), fun p' hp' => ?_⟩
    obtain ⟨p, hp, hzone, hport⟩ := halike f.pid p' hp'
    rw [← hzone, ← hport]
    exact hlive p hp
  · rw [hhistory]
    exact hw.history

theorem later_onExit (w : World) (pid : ℕ) (zone : String) (code : Option ℕ) :
    Later w (w.onExit pid zone code) := by
  have hsame : (w.onExit pid zone code).processes = w.processes ∧
      (w.onExit pid zone code).nextPid = w.nextPid := by
    simp only [World.onExit]
    split <;> exact ⟨rfl, rfl⟩
  refine ⟨hsame.2.ge, fun q p' _ hp' => ⟨p', ?_, rfl, rfl⟩⟩
  rwa [hsame.1] at hp'

/-! ### Netports -/

theorem not_isWhitespace {c : Char} (h : c.isDigit = true) : c.isWhitespace = false := by
  by_contra hspace
  simp only [Char.isWhitespace, Bool.not_eq_false, Bool.or_eq_true, decide_eq_true_eq] at hspace
  rcases hspace with ((rfl | rfl) | rfl) | rfl <;> exact absurd h (by decide)

theorem parseInt_toDigits (n : ℕ) : parseInt (Nat.toDigits 10 n) = some n := by
  have hdigits : ∀ c ∈ Nat.toDigits 10 n, c.isDigit = true := fun c hc =>
    Nat.isDigit_of_mem_toDigits (by decide) (by decide) hc
  have hdrop : (Nat.toDigits 10 n).dropWhile Char.isWhitespace = Nat.toDigits 10 n := by
    cases hds : Nat.toDigits 10 n with
    | nil => rfl
    | cons c cs =>
      have hc : c.isDigit = true := hdigits c (hds ▸ List.mem_cons_self)
      rw [List.dropWhile_cons_of_neg]
      rw [not_isWhitespace hc]
      exact Bool.false_ne_true
  have htake : (Nat.toDigits 10 n).takeWhile Char.isDigit = Nat.toDigits 10 n := by
    simpa using @List.takeWhile_append_of_pos Char Char.isDigit (Nat.toDigits 10 n) [] hdigits
  have hne : (Nat.toDigits 10 n).isEmpty = false := by
    rw [List.isEmpty_eq_false_iff]
    exact Nat.toDigits_ne_nil
  simp only [parseInt, hdrop, htake, hne, Bool.false_eq_true, if_false,
    Nat.ofDigitChars_ten_toDigits]

/-- The port of a netport is read back unless the host has a colon. -/
theorem portOf_netport {host : String} (h : ':' ∉ host.toList) (port : ℕ) :
    portOf (netportText host port) = some port := by
  have htext : (netportText host port).toList =
      host.toList ++ ':' :: Nat.toDigits 10 port := by
    simp [netportText]
  have hhost : ∀ c ∈ host.toList, (c != ':') = true := by
    intro c hc
    rw [bne_iff_ne]
    rintro rfl
    exact h hc
  have hdigits : ∀ c ∈ Nat.toDigits 10 port, (c != ':') = true := by
    intro c hc
    have hdigit : c.isDigit = true := Nat.isDigit_of_mem_toDigits (by decide) (by decide) hc
    rw [bne_iff_ne]
    rintro rfl
    exact absurd hdigit (by decide)
  have hdrop : (host.toList ++ ':' :: Nat.toDigits 10 port).dropWhile (· != ':') =
      ':' :: Nat.toDigits 10 port := by
    rw [List.dropWhile_append_of_pos hhost, List.dropWhile_cons_of_neg]
    decide
  have htake : (Nat.toDigits 10 port).takeWhile (· != ':') = Nat.toDigits 10 port := by
    simpa using @List.takeWhile_append_of_pos Char (· != ':') (Nat.toDigits 10 port) [] hdigits
  rw [portOf, htext, secondPart, hdrop]
  simp only [htake, Option.bind_some, parseInt_toDigits]

theorem keeps_launch {plan : Plan} {port : ℕ} (hw : Keeps w) (hfits : Fits w plan port) :
    Keeps (launch w plan port).1 := by
  obtain ⟨hlive, hexited, hhost⟩ := hfits
  have hprocesses : ∀ q, (launch w plan port).1.processes.get q =
      if w.nextPid = q then some (plan.process port) else w.processes.get q :=
    fun q => KeyedList.get_set _ _ _ _
  have hnew : ∀ q p, w.processes.get q = some p → p.port ≠ port ∧ p.zone ≠ plan.zone :=
    fun q p hp => hlive (q, p) (KeyedList.mem_of_get hp)
  have hne : ∀ q p, w.processes.get q = some p → w.nextPid ≠ q :=
    fun q p hp => (hw.known q p hp).ne'
  have hself : ∀ q, Present (launch w plan port).1 q plan.zone → q = w.nextPid := by
    rintro q (⟨p, hp, hz⟩ | ⟨code, hcode⟩)
    · rw [hprocesses] at hp
      split_ifs at hp with hq
      · exact hq.symm
      · exact absurd hz (hnew q p hp).2
    · exact absurd rfl (hexited (q, plan.zone, code) (KeyedList.mem_of_get hcode))
  have hother : ∀ q z, z ≠ plan.zone → Present (launch w plan port).1 q z → Present w q z := by
    rintro q z hz (⟨p, hp, rfl⟩ | hcode)
    · rw [hprocesses] at hp
      split_ifs at hp with hq
      · cases hp
        exact absurd rfl hz
      · exact .inl ⟨p, hp, rfl⟩
    · exact .inr hcode
  refine ⟨fun q p hp => ?_, fun q e he => (hw.knownExit q e he).trans (Nat.lt_succ_self _),
    fun q q' p p' hp hp' hqq => ?_, fun z q q' h h' => ?_, fun z f hf => ?_, hw.history⟩
  · rw [hprocesses] at hp
    split_ifs at hp with hq
    · exact hq ▸ Nat.lt_succ_self _
    · exact (hw.known q p hp).trans (Nat.lt_succ_self _)
  · rw [hprocesses] at hp hp'
    split_ifs at hp hp' with hq hq' hq'
    · exact absurd (hq.symm.trans hq') hqq
    · cases hp
      exact (hnew q' p' hp').1.symm
    · cases hp'
      exact (hnew q p hp).1
    · exact hw.ports q q' p p' hp hp' hqq
  · by_cases hz : z = plan.zone
    · subst hz
      exact (hself q h).trans (hself q' h').symm
    · exact hw.one z q q' (hother q z hz h) (hother q' z hz h')
  · change (w.pidFiles.set plan.zone _).get z = some f at hf
    rw [KeyedList.get_set] at hf
    split_ifs at hf with hz
    · cases hf
      subst hz
      refine ⟨Nat.lt_succ_self _, hself, fun p hp => ?_⟩
      have heq := (hprocesses w.nextPid).symm.trans hp
      rw [if_pos rfl] at heq
      cases heq
      exact ⟨rfl, portOf_netport hhost port⟩
    · obtain ⟨hknown, honly, hzone⟩ := hw.file z f hf
      refine ⟨hknown.trans (Nat.lt_succ_self _),
        fun q hq => honly q (hother q z (Ne.symm hz) hq), fun p hp => ?_⟩
      rw [hprocesses, if_neg hknown.ne'] at hp
      exact hzone p hp

theorem later_launch (w : World) (plan : Plan) (port : ℕ) : Later w (launch w plan port).1 := by
  refine ⟨Nat.le_succ _, fun q p' hq hp' => ⟨p', ?_, rfl, rfl⟩⟩
  change (w.processes.set w.nextPid _).get q = some p' at hp'
  rwa [KeyedList.get_set, if_neg hq.ne'] at hp'

theorem keeps_adopt {l : PsLine} {p : Process} (hw : Keeps w)
    (hp : w.processes.get l.pid = some p) (hzone : p.zone = zone) (hport : l.port = p.port) :
    Keeps (adopt w zone l) := by
  have hfile : Keeps (w.writeSessionInfo zone l.pid "webvnc" (netportText anyHost l.port)) := by
    refine ⟨hw.known, hw.knownExit, hw.ports, hw.one, fun z f hf => ?_, hw.history⟩
    change (w.pidFiles.set zone _).get z = some f at hf
    rw [KeyedList.get_set] at hf
    split_ifs at hf with hz
    · cases hf
      subst hz
      refine ⟨hw.known l.pid p hp, fun q hq => ?_, fun p' hp' => ?_⟩
      · exact hw.one zone q l.pid hq (.inl ⟨p, hp, hzone⟩)
      · cases hp.symm.trans hp'
        refine ⟨hzone, ?_⟩
        rw [hport]
        exact portOf_netport (by decide) p.port
    · obtain ⟨hknown, honly, hlive⟩ := hw.file z f hf
      exact ⟨hknown, honly, hlive⟩
  apply hfile.record
  rw [hp, ← hzone]
  rfl

theorem later_adopt (w : World) (zone : String) (l : PsLine) : Later w (adopt w zone l) :=
  ⟨le_rfl, fun _ p' _ hp' => ⟨p', hp', rfl, rfl⟩⟩

/-! ## The steps -/

variable {cfg : Config} {columns : ℕ → String} {s : VState} {pid : ℕ} {p : Activation Pc Ans}

abbrev VInv (s : VState) : Prop := Inv Keeps Here (fun _ _ => True) s

theorem respects_later {xs : List (Point Pc Ans)} (hi : VInv s) (hl : Later s.world w)
    (hw : Keeps w) (hxs : ∀ x ∈ xs, Here w x) :
    Respects Keeps Here (fun _ _ => True) s pid w xs where
  world := hw
  here := hxs
  apart := List.pairwise_of_forall fun _ _ => trivial
  others q p _ hp := ⟨(hi.here q p hp).later hl, fun _ _ => trivial⟩

theorem trimmed_updateRows (w : World) (which : Row → Bool) (f : Row → Row) :
    Trimmed w (w.updateRows which f) := ⟨rfl, rfl, rfl, rfl, fun _ _ h => h⟩

theorem trimmed_destroyRows (w : World) (which : Row → Bool) : Trimmed w (w.destroyRows which) :=
  ⟨rfl, rfl, rfl, rfl, fun _ _ h => h⟩

theorem trimmed_createRow (w : World) (row : Row) : Trimmed w (w.createRow row) :=
  ⟨rfl, rfl, rfl, rfl, fun _ _ h => h⟩

/-- Only a kill that works changes the processes. -/
theorem serve_trimmed {pc : Pc} {c : Choice} {a : Ans}
    (hkill : ∀ zone pid after, pc = .kill zone pid after → c ≠ .yes)
    (h : serve cfg columns w pc c = some (a, w')) : Trimmed w w' := by
  unfold serve at h
  split at h
  case h_20 => exact absurd rfl (hkill _ _ _ rfl)
  all_goals first
    | cases h; done
    | (cases h; exact .refl _)
    | (cases h; exact trimmed_updateRows _ _ _)
    | (cases h; exact trimmed_destroyRows _ _)
    | (split_ifs at h; cases h; exact .refl _)
    | (split_ifs at h; cases h; exact trimmed_createRow _ _)

/-- The list of a later `ps` shows what the processes are. -/
theorem here_served {pc : Pc} {c : Choice} {a : Ans} (hw : Keeps w) (hx : Here w (pc, none))
    (h : serve cfg columns w pc c = some (a, w)) : Here w (pc, some a) := by
  refine ⟨hx.kill, ?_⟩
  rintro zone ls ⟨⟩ l hl
  cases c <;> simp only [serve, reduceCtorEq] at h
  split_ifs at h with hperm
  simp only [Option.some.injEq, Prod.mk.injEq, Ans.lines.injEq, and_true] at h
  rw [← h] at hl
  obtain ⟨q, -, hq⟩ := List.mem_filterMap.mp hl
  obtain ⟨p, hp, rfl⟩ := Option.map_eq_some_iff.mp hq
  refine ⟨hw.known q p hp, fun p' hp' => ?_⟩
  cases hp.symm.trans hp'
  rfl

theorem vnc_serve {c : Choice} {a : Ans} (hi : VInv s) (hp : s.procs.get pid = some p)
    (hseen : p.phase.seen = none) (h : serve cfg columns s.world p.pc c = some (a, w)) :
    Respects Keeps Here (fun _ _ => True) s pid w [(p.pc, some a)] := by
  have hx : Here s.world (p.pc, none) := by
    have := hi.here pid p hp
    rwa [Activation.point, hseen] at this
  by_cases hkill : ∃ zone victim after, p.pc = .kill zone victim after ∧ c = .yes
  · obtain ⟨zone, victim, after, hpc, rfl⟩ := hkill
    rw [hpc] at h hx ⊢
    obtain ⟨proc, hproc, heq⟩ := Option.map_eq_some_iff.mp h
    cases heq
    have hzone := (hx.kill zone victim after rfl).2 proc hproc
    have hlater : Later s.world ((s.world.die victim proc none).record
        (.killed zone victim proc.zone)) :=
      ⟨(later_die s.world victim proc none).next, (later_die s.world victim proc none).old⟩
    apply respects_later hi hlater ((hi.world.die hproc none).record hzone)
    intro x hxs
    rw [List.mem_singleton.mp hxs]
    have hstays := hx.later hlater
    exact ⟨hstays.kill, fun z ls hx => by cases hx⟩
  · have htrim : Trimmed s.world w :=
      serve_trimmed (fun z v after hpc hc => hkill ⟨z, v, after, hpc, hc⟩) h
    apply respects_later hi htrim.later (htrim.keeps hi.world)
    intro x hxs
    rw [List.mem_singleton.mp hxs]
    refine ⟨(hx.later htrim.later).kill, fun z ls heq => ?_⟩
    have hpc : p.pc = .orphans z := congrArg Prod.fst heq
    have ha : a = .lines ls := Option.some.inj (congrArg Prod.snd heq)
    have hsame : w = s.world := by
      rw [hpc] at h
      cases c <;> simp only [serve, reduceCtorEq] at h
      split_ifs at h
      cases h
      rfl
    rw [hsame] at h ⊢
    exact (here_served hi.world hx h).lines z ls heq

/-- A move behind which some files are gone. -/
theorem respects_trimmed {pcs : List Pc} (hi : VInv s) (htrim : Trimmed s.world w)
    (hpcs : ∀ pc ∈ pcs, Here w (pc, none)) :
    Respects Keeps Here (fun _ _ => True) s pid w (pcs.map (·, none)) := by
  apply respects_later hi htrim.later (htrim.keeps hi.world)
  intro x hx
  obtain ⟨pc, hpc, rfl⟩ := List.mem_map.mp hx
  exact hpcs pc hpc

/-- What a resumed activation does, where it neither launches nor adopts. -/
structure Tidies (w : World) (m : World × Next Pc) : Prop where
  trim : Trimmed w m.1
  here : ∀ pc ∈ m.2.points, Here m.1 (pc, none)

theorem tidies_plain {nx : Next Pc} (h : ∀ pc ∈ nx.points, ∀ z q a, pc ≠ .kill z q a) :
    Tidies w (w, nx) := ⟨.refl w, fun pc hpc => here_plain (h pc hpc)⟩

theorem points_orFinish (pc : Option Pc) : (orFinish pc).points = pc.toList := by
  cases pc <;> rfl

theorem tidies_kill (hw : Keeps w) (zone : String) (after : AfterKill) :
    Tidies w ((killSession w zone after).1, orFinish (killSession w zone after).2) := by
  obtain ⟨htrim, hhere⟩ := killSession_spec hw zone after
  refine ⟨htrim, fun pc hpc => hhere pc ?_⟩
  rw [points_orFinish] at hpc
  exact Option.mem_toList.mp hpc

theorem tidies_next {m : World × Next Pc} (h : Trimmed w m.1)
    (hpoints : ∀ pc ∈ m.2.points, ∀ z q a, pc ≠ .kill z q a) : Tidies w m :=
  ⟨h, fun pc hpc => here_plain (hpoints pc hpc)⟩

theorem points_findAvailablePort (plan : Plan) (port : ℕ) :
    ∀ pc ∈ (findAvailablePort cfg plan port).points, ∀ z q a, pc ≠ .kill z q a := by
  unfold findAvailablePort
  split <;> simp [Next.points]

theorem points_refused (plan : Plan) (port : ℕ) :
    ∀ pc ∈ (refused cfg plan port).points, ∀ z q a, pc ≠ .kill z q a := by
  unfold refused
  split
  · simp [Next.points]
  · exact points_findAvailablePort plan (port + 1)

theorem resume_tidies {pc : Pc} {r : Reply Ans} (hw : Keeps w)
    (hlaunch : ∀ plan port, pc = .probeBind plan port → r ≠ .answer (.found true))
    (hadopt : ∀ zone ls l, pc = .orphans zone → r = .answer (.lines ls) →
      findOrphan zone ls ≠ some l) : Tidies w (resume cfg w pc r) := by
  unfold resume
  split
  all_goals first
    | exact absurd rfl (hlaunch _ _ rfl)
    | exact tidies_kill hw _ _
    | (apply tidies_plain; simp [Next.points]; done)
    | exact tidies_plain (points_refused _ _)
    | skip
  case h_1 zone =>
    have htrim := trimmed_getSessionInfo w zone
    split
    case h_1 info w₁ heq =>
      rw [heq] at htrim
      exact tidies_next htrim (by simp [Next.points])
    case h_2 w₁ heq =>
      rw [heq] at htrim
      exact tidies_next htrim (by simp [Next.points])
  case h_5 zone port host =>
    unfold startPlan
    split
    · split
      · exact tidies_plain (by simp [Next.points])
      · exact tidies_plain (by simp [Next.points])
    · exact tidies_plain (points_findAvailablePort _ _)
  case h_13 _ plan q port =>
    split
    · exact tidies_kill hw plan.zone .nothing
    · exact tidies_plain (by simp [Next.points])
  case h_14 =>
    split <;> exact tidies_plain (by simp [Next.points])
  case h_18 _ zone q after =>
    apply tidies_next (trimmed_removePidFile w zone)
    rw [points_orFinish]
    cases after <;> simp
  case h_19 zone ls =>
    split
    case h_1 l hfound => exact absurd hfound (hadopt zone ls l rfl rfl)
    case h_2 => exact tidies_plain (by simp [Next.points])
  case h_20 rs =>
    obtain ⟨htrim, hhere⟩ := killSessions_spec hw rs
    refine ⟨htrim, fun pc hpc => ?_⟩
    rcases List.mem_cons.mp hpc with rfl | hcallee
    · exact here_plain (by simp)
    · exact hhere pc hcallee
  case h_23 rs =>
    apply tidies_plain
    intro pc hpc z q a
    rcases List.mem_cons.mp hpc with rfl | hcallee
    · simp
    · obtain ⟨r, -, rfl⟩ := List.mem_map.mp hcallee
      simp
  case h_24 | h_25 =>
    exact tidies_next (trimmed_cleanFiles w w.pidFiles.keys) (by simp [Next.points])

theorem vnc_launch {plan : Plan} {port : ℕ} (hi : VInv s) (hfits : Fits s.world plan port) :
    Respects Keeps Here (fun _ _ => True) s pid
      (resume cfg s.world (.probeBind plan port) (.answer (.found true))).1
      ((resume cfg s.world (.probeBind plan port) (.answer (.found true))).2.points.map
        (·, none)) := by
  have hworld : (resume cfg s.world (.probeBind plan port) (.answer (.found true))).1 =
      (launch s.world plan port).1 := by
    simp only [resume]
    split <;> rfl
  rw [hworld]
  apply respects_later hi (later_launch s.world plan port) (keeps_launch hi.world hfits)
  intro x hx
  obtain ⟨pc, hpc, rfl⟩ := List.mem_map.mp hx
  apply here_plain
  simp only [resume] at hpc
  split at hpc <;> simp only [Next.points, List.mem_singleton] at hpc <;> simp [hpc]

theorem vnc_adopt {zone : String} {ls : List PsLine} {l : PsLine} (hi : VInv s)
    (hx : Here s.world (.orphans zone, some (.lines ls))) (hfound : findOrphan zone ls = some l)
    (hzone : ∃ p ∈ s.world.processes.get l.pid, p.zone = zone) :
    Respects Keeps Here (fun _ _ => True) s pid
      (resume cfg s.world (.orphans zone) (.answer (.lines ls))).1
      ((resume cfg s.world (.orphans zone) (.answer (.lines ls))).2.points.map (·, none)) := by
  simp only [resume, hfound]
  split
  · exact respects_trimmed hi (.refl _) fun pc hpc => by cases hpc
  · obtain ⟨p, hp, hz⟩ := hzone
    have hport : l.port = p.port :=
      (hx.lines zone ls rfl l (List.mem_of_find?_eq_some hfound)).2 p hp
    apply respects_later hi (later_adopt s.world zone l) (keeps_adopt hi.world hp hz hport)
    intro x hx
    obtain ⟨pc, hpc, rfl⟩ := List.mem_map.mp hx
    rw [List.mem_singleton.mp hpc]
    exact here_plain (by simp)

theorem vnc_resume {r : Reply Ans} {nx : Next Pc} (hi : VInv s) (hok : Careful s (.resume pid))
    (hp : s.procs.get pid = some p) (hphase : p.phase = .ready r)
    (h : resume cfg s.world p.pc r = (w, nx)) :
    Respects Keeps Here (fun _ _ => True) s pid w (nx.points.map (·, none)) := by
  have hpoint : p.point = (p.pc, (Phase.ready r).seen) := by rw [Activation.point, hphase]
  have hcareful : CarefulPoint s.world (p.pc, (Phase.ready r).seen) := hpoint ▸ hok p hp
  have hx : Here s.world (p.pc, (Phase.ready r).seen) := hpoint ▸ hi.here pid p hp
  obtain rfl : (resume cfg s.world p.pc r).1 = w := congrArg Prod.fst h
  obtain rfl : (resume cfg s.world p.pc r).2 = nx := congrArg Prod.snd h
  by_cases hlaunch : ∃ plan port, p.pc = .probeBind plan port ∧ r = .answer (.found true)
  · obtain ⟨plan, port, hpc, rfl⟩ := hlaunch
    rw [hpc] at hcareful ⊢
    exact vnc_launch hi hcareful
  · by_cases hadopt : ∃ zone ls l, p.pc = .orphans zone ∧ r = .answer (.lines ls) ∧
        findOrphan zone ls = some l
    · obtain ⟨zone, ls, l, hpc, rfl, hfound⟩ := hadopt
      rw [hpc] at hcareful hx ⊢
      exact vnc_adopt hi hx hfound (hcareful l hfound)
    · have htidies : Tidies s.world (resume cfg s.world p.pc r) := by
        apply resume_tidies hi.world
        · exact fun plan port hpc hr => hlaunch ⟨plan, port, hpc, hr⟩
        · exact fun zone ls l hpc hr hfound => hadopt ⟨zone, ls, l, hpc, hr, hfound⟩
      exact respects_trimmed hi htidies.trim htidies.here

theorem vnc_enter {e : Entry} {nx : Next Pc} (hi : VInv s)
    (h : enter cfg s.world e = some (w, nx)) :
    Respects Keeps Here (fun _ _ => True) s s.next w (nx.points.map (·, none)) := by
  have tidy : ∀ {m : World × Next Pc}, Tidies s.world m → m = (w, nx) →
      Respects Keeps Here (fun _ _ => True) s s.next w (nx.points.map (·, none)) := by
    rintro m htidies rfl
    exact respects_trimmed hi htidies.trim htidies.here
  have idle : ∀ {w₁}, Later s.world w₁ → Keeps w₁ → (w₁, Next.finish false) = (w, nx) →
      Respects Keeps Here (fun _ _ => True) s s.next w (nx.points.map (·, none)) := by
    rintro w₁ hlater hkeeps heq
    cases heq
    exact respects_later hi hlater hkeeps fun x hx => by cases hx
  cases e with
  | start zone => exact tidy (tidies_plain (by simp [Next.points])) (Option.some.inj h)
  | auto zone | info zone =>
    have htrim := trimmed_getSessionInfo s.world zone
    simp only [enter] at h
    split at h
    all_goals
      rename_i heq
      rw [heq] at htrim
      refine tidy (tidies_next htrim ?_) (Option.some.inj h)
      first
        | exact points_findAvailablePort _ _
        | simp [Next.points]
  | stop zone => exact tidy (tidies_kill hi.world zone .stop) (Option.some.inj h)
  | cleanup | startup => exact tidy (tidies_plain (by simp [Next.points])) (Option.some.inj h)
  | look zone =>
    exact tidy (tidies_next (trimmed_getSessionInfo s.world zone) (by simp [Next.points]))
      (Option.some.inj h)
  | exit pid code =>
    obtain ⟨proc, hproc, heq⟩ := Option.map_eq_some_iff.mp h
    exact idle (later_die _ _ _ _) (hi.world.die hproc code) heq
  | reap pid =>
    obtain ⟨⟨zone, code⟩, hexit, heq⟩ := Option.map_eq_some_iff.mp h
    exact idle (later_onExit _ _ _ _) (hi.world.onExit hexit) heq
  | listen pid =>
    obtain ⟨proc, hproc, heq⟩ := Option.bind_eq_some_iff.mp h
    split_ifs at heq
    let w₁ : World :=
      { s.world with processes := s.world.processes.set pid { proc with listening := true } }
    have halike : ∀ q p', w₁.processes.get q = some p' → ∃ p,
        s.world.processes.get q = some p ∧ p.zone = p'.zone ∧ p.port = p'.port := by
      intro q p' hp'
      change (s.world.processes.set pid _).get q = some p' at hp'
      rw [KeyedList.get_set] at hp'
      split_ifs at hp' with hq
      · cases hp'
        exact ⟨proc, hq ▸ hproc, rfl, rfl⟩
      · exact ⟨p', hp', rfl, rfl⟩
    have hlater : Later s.world w₁ := ⟨le_rfl, fun q p' _ hp' => halike q p' hp'⟩
    exact idle hlater (hi.world.alike rfl rfl rfl rfl halike) (Option.some.inj heq)
  | elapse ms =>
    have htrim : Trimmed s.world { s.world with clock := s.world.clock + ms } :=
      ⟨rfl, rfl, rfl, rfl, fun _ _ h => h⟩
    exact idle htrim.later (htrim.keeps hi.world) (Option.some.inj h)

theorem vnc_coherent (cfg : Config) (columns : ℕ → String) :
    Coherent (program cfg columns) Careful Keeps Here (fun _ _ => True) where
  symm _ _ _ := trivial
  serve _ _ _ _ _ _ hi hp hseen _ h := vnc_serve hi hp hseen h
  resume _ _ _ _ _ _ hi hp hphase hok h := vnc_resume hi hok hp hphase h
  enter _ _ _ _ hi _ h := vnc_enter hi h

def noSessions : World := ⟨[], 0, [], [], [], [], 0, 0, []⟩

theorem boots_noSessions : Boots noSessions := by
  refine ⟨⟨fun q q' p p' h => (by cases h), fun q q' p p' h => (by cases h), fun zone info h => ?_,
    fun zone f h => (by cases h), fun e h => (by cases h)⟩, fun q p h => (by cases h),
    fun zone f h => (by cases h), rfl⟩
  obtain ⟨f, p, hf, -⟩ := isSome_getSessionInfo h
  cases hf

/-- A start up to the spawn, with a dynamic port. -/
def startLabels (pid : ℕ) (zone : String) : List VLabel :=
  [.enter (.start zone), .serve pid .yes, .resume pid, .serve pid .only, .resume pid,
    .serve pid (.attrs none none), .resume pid, .serve pid .only, .resume pid, .serve pid .only,
    .resume pid, .serve pid .yes, .resume pid]

end ZoneweaverAgent.Vnc
