import ZoneweaverAgent.SettingsSerial

/-!
# No settings change is lost

While somebody copies or is about to reload, the file and the configuration in memory may differ and
a commit may lack its answer; otherwise neither is the case. Together with the files and the ledger
this gives the serial order of an orderly run that has come to rest.
-/

namespace ZoneweaverAgent.Settings
open EventLoop

variable {Text : Type}

section Debts
variable (y : Yaml Text)

/-- What somebody still has to do. -/
inductive Task
  | fill
  | reload
  | answer (id : ℕ)

def Unfinished (w : World Text) : Task → Prop
  | .fill => ∃ f, w.configFile = some f ∧ f.whole = false
  | .reload => ¬Reloaded y w
  | .answer id => (∃ c, .committed id c ∈ w.history) ∧ .answered id true ∉ w.history

def Finishes (x : Point (Pc Text) (Ans Text)) : Task → Prop
  | .fill => (copying x).isSome = true
  | .reload => (copying x).isSome = true ∨ (hasReplaced x).isSome = true
  | .answer id => (hasReplaced x).isSome = true ∧ x.1.requestId = some id

variable {y}
variable {text₀ : Text} {w w' : World Text} {x : Point (Pc Text) (Ans Text)} {s : SState Text}
  {pid : ℕ} {p : Activation (Pc Text) (Ans Text)}

/-- The conditions of a step, with what is known of the state before it. -/
structure SettingsStep (y : Yaml Text) (text₀ : Text) (s : SState Text) (l : SLabel) : Prop
    extends LedgerStep y text₀ s l where
  ledger : LedgerInv s

theorem unfinished_of_same (hconfig : w'.configFile = w.configFile)
    (hloaded : w'.loadedConfig = w.loadedConfig)
    (hcommitted : ∀ id c, .committed id c ∈ w'.history → .committed id c ∈ w.history)
    (hkept : ∀ e ∈ w.history, e ∈ w'.history) (r : Task) (h : Unfinished y w' r) :
    Unfinished y w r := by
  cases r with
  | fill => rwa [Unfinished, hconfig] at h
  | reload => rwa [Unfinished, Reloaded, hconfig, hloaded] at h
  | answer id =>
    obtain ⟨⟨c, hc⟩, hanswered⟩ := h
    exact ⟨⟨c, hcommitted id c hc⟩, fun hmem => hanswered (hkept _ hmem)⟩

/-- A call that is not about the configuration file leaves it alone. -/
theorem configFile_silent {pc : Pc Text} {c : Choice} {a : Ans Text}
    (hw : FilesHold y text₀ s.world) (hx : FilesHere y s.world (pc, none)) (hpc : pc.silent = true)
    (h : serve y s.world pc c = some (a, w)) :
    w.configFile = s.world.configFile ∧ w.loadedConfig = s.world.loadedConfig := by
  have of_tempSet : ∀ {i f}, TempSet s.world w i f → w.configFile = s.world.configFile := by
    intro i f hset
    obtain ⟨c, g, hc, -, -⟩ := hw.config
    rw [World.configFile, World.configFile, hset.config, hc, Option.bind_some, Option.bind_some,
      hset.get_of_config hc]
  cases pc with
  | openCopy | renameTemp | writeCopy => cases hpc
  | backedUp | restoring => cases c <;> cases h
  | openTemp id newSettings read text =>
    cases c <;> cases h
    refine ⟨of_tempSet (tempSet_openTemp hw text), ?_⟩
    unfold World.openTemp World.openInode
    cases s.world.temp <;> rfl
  | writeTemp id newSettings read text fd =>
    obtain ⟨i, htemp, hget, hfd⟩ := hx.temp _ rfl
    cases hfd fd rfl
    cases c with
    | sees | reload => cases h
    | only =>
      cases h
      have hset := @tempSet_write Text y text₀ s.world hw fd ⟨text, false⟩ ⟨text, true⟩ htemp hget
      rw [← finishWrite_eq hget] at hset
      exact ⟨of_tempSet hset, rfl⟩
    | breaks n =>
      cases h
      exact ⟨of_tempSet (tempSet_write hw htemp hget), rfl⟩
  | mkdir | backupWrite => cases c <;> cases h <;> exact ⟨rfl, rfl⟩
  | backupOpen | readConfig | access =>
    cases c <;> simp only [serve, Option.map_eq_some_iff, reduceCtorEq] at h
    obtain ⟨f, -, heq⟩ := h
    cases heq
    exact ⟨rfl, rfl⟩

/-- The mover keeps a debt that it had, or takes on those it has made. -/
theorem debts_serve {c : Choice} {a : Ans Text} (hs : Covered (Unfinished y) Finishes s)
    (hok : SettingsStep y text₀ s (.serve pid c)) (hp : s.procs.get pid = some p)
    (hseen : p.phase.seen = none) (h : serve y s.world p.pc c = some (a, w)) :
    Passes (Unfinished y) Finishes s pid w [(p.pc, some a)] := by
  have hpoint : p.point = (p.pc, none) := by rw [Activation.point, hseen]
  have hx : FilesHere y s.world (p.pc, none) := hpoint ▸ hok.files.here pid p hp
  have hreplaced : hasReplaced p.point = none := by
    rw [hpoint]
    cases p.pc <;> rfl
  -- a request that has not replaced the file yet has made no commit to answer for
  have hsome : ∀ id, ¬Finishes p.point (.answer id) := by
    rintro id ⟨hrepl, -⟩
    rw [hreplaced] at hrepl
    cases hrepl
  have horderly := hok.orderly
  by_cases hsilent : p.pc.silent = true
  · obtain ⟨hconfig, hloaded⟩ := configFile_silent hok.files.world hx hsilent h
    obtain ⟨hhistory, -⟩ := serve_silent hsilent h
    have hcopy : ¬(copying p.point).isSome = true := by
      rw [hpoint]
      cases hpc : p.pc <;> rw [hpc] at hsilent <;> intro hr <;> cases hr
      cases hsilent
    have hfinishes : ∀ r, ¬Finishes p.point r := by
      intro r hr
      cases r with
      | fill => exact hcopy hr
      | reload =>
        rcases hr with hr | hr
        · exact hcopy hr
        · rw [hreplaced] at hr
          cases hr
      | answer id => exact hsome id hr
    apply hs.passes hp
    · exact fun r hr => .inl (unfinished_of_same hconfig hloaded
        (fun id c hc => hhistory ▸ hc) (fun e he => hhistory ▸ he) r hr)
    · exact fun r _ hr => absurd hr (hfinishes r)
  · -- the commit of a replacement is answered for by the point after it
    have takes : ∀ id (_ : p.pc.requestId = some id)
        (_ : Unfinished y w .fill → (copying (p.pc, some a)).isSome = true)
        (_ : Finishes (p.pc, some a) .reload)
        (_ : ∀ i c, .committed i c ∈ w.history → .committed i c ∈ s.world.history ∨
          i = id ∧ (hasReplaced (p.pc, some a)).isSome = true)
        (_ : ∀ e ∈ s.world.history, e ∈ w.history),
        Passes (Unfinished y) Finishes s pid w [(p.pc, some a)] := by
      intro id hid hfill hnew hcommits hkept
      apply hs.passes hp
      · intro d hd
        cases d with
        | fill => exact .inr ⟨_, List.mem_singleton_self _, hfill hd⟩
        | reload => exact .inr ⟨_, List.mem_singleton_self _, hnew⟩
        | answer i =>
          obtain ⟨⟨c, hc⟩, hanswered⟩ := hd
          rcases hcommits i c hc with hold | ⟨rfl, hrepl⟩
          · exact .inl ⟨⟨c, hold⟩, fun hmem => hanswered (hkept _ hmem)⟩
          · exact .inr ⟨_, List.mem_singleton_self _, hrepl, hid⟩
      · intro d hd howes
        cases d with
        | fill => exact ⟨_, List.mem_singleton_self _, hfill hd⟩
        | reload => exact ⟨_, List.mem_singleton_self _, hnew⟩
        | answer i => exact absurd howes (hsome i)
    obtain ⟨pc, phase, caller⟩ := p
    cases pc with
    | openCopy id filename =>
      cases c <;> simp only [serve, Option.map_eq_some_iff, reduceCtorEq] at h
      obtain ⟨f, -, heq⟩ := h
      cases heq
      rename_i n
      obtain ⟨hhistory, -⟩ := history_openConfig s.world (World.seen y f n)
      apply takes id rfl (fun _ => rfl) (.inl rfl)
      · intro i c hc
        simp only [World.record, List.mem_cons, reduceCtorEq, false_or, hhistory] at hc
        exact .inl hc
      · intro e he
        simp only [World.record, List.mem_cons, hhistory]
        exact .inr (.inr he)
    | renameTemp id newSettings read text =>
      cases c <;> simp only [serve, Option.map_eq_some_iff, reduceCtorEq] at h
      obtain ⟨i, htemp, heq⟩ := h
      cases heq
      obtain ⟨j, hj, hget, -⟩ := hx.temp _ rfl
      cases htemp.symm.trans hj
      have hfilled : ¬Unfinished y (renamed s.world id i newSettings) .fill := by
        rintro ⟨f, hf, hwhole⟩
        cases hget.symm.trans hf
        cases hwhole
      apply takes id rfl (fun hd => absurd hd hfilled) (.inr rfl)
      · intro i c hc
        simp only [World.record, List.mem_cons, reduceCtorEq, false_or,
          Event.committed.injEq] at hc
        exact hc.symm.imp_right fun h => ⟨h.1, rfl⟩
      · exact fun e he => List.mem_cons_of_mem _ (List.mem_cons_of_mem _ he)
    | writeCopy id text fd =>
      have hreloads : c.reloads = true := horderly _ hp
      cases c with
      | only | sees | breaks => cases hreloads
      | reload view =>
        cases h
        obtain ⟨i, hconfig, hget, hfd, -⟩ := hx.copy _ rfl
        cases hfd
        have hset := configSet_finish hok.files.world hconfig hget
        have hfilled : ¬Unfinished y ((s.world.finishWrite y fd text).record
            (.committed id (.copy text))) .fill := by
          rintro ⟨f, hf, hwhole⟩
          change (s.world.finishWrite y fd text).configFile = some f at hf
          rw [World.configFile, hset.config, Option.bind_some, hset.get, if_pos rfl] at hf
          cases hf
          cases hwhole
        apply takes id rfl (fun hd => absurd hd hfilled) (.inr rfl)
        · intro i c hc
          rcases List.mem_cons.mp hc with heq | hold
          · cases heq
            exact .inr ⟨rfl, rfl⟩
          · exact .inl hold
        · exact fun e he => List.mem_cons_of_mem _ he
    | _ => exact absurd rfl hsilent

/-- Between two points of a request that has not replaced the file, a copy in progress goes on. -/
theorem copying_resume (pc : Pc Text) (r : Reply (Ans Text)) (w : World Text)
    (hanswered : ∀ id text fd, pc = .writeCopy id text fd → ∃ a, r = .answer a)
    (hcopy : (copying (pc, (Phase.ready r).seen)).isSome = true) :
    ∃ x ∈ (resume y w pc r).2.points,
      (copying ((x, none) : Point (Pc Text) (Ans Text))).isSome = true := by
  cases pc with
  | openCopy id filename =>
    cases r with
    | answer a =>
      cases a with
      | opened fd t => exact ⟨_, List.mem_singleton_self _, rfl⟩
      | done | text | replaced | ioError => cases hcopy
    | returned | failed => cases hcopy
  | writeCopy id text fd =>
    obtain ⟨a, rfl⟩ := hanswered id text fd rfl
    cases a <;> cases hcopy
  | _ => cases r with
    | answer a => cases a <;> cases hcopy
    | returned | failed => cases hcopy

/-- An answer of an error changes nothing that is unfinished. -/
theorem unfinished_answer (w : World Text) (id : ℕ) (d : Task)
    (hd : Unfinished y (w.record (.answered id false)) d) : Unfinished y w d := by
  have hcommits : ∀ i c, .committed i c ∈ (w.record (.answered id false)).history →
      .committed i c ∈ w.history := by
    intro i c hc
    rcases List.mem_cons.mp hc with heq | hold
    · cases heq
    · exact hold
  exact @unfinished_of_same Text y w (w.record (.answered id false)) rfl rfl hcommits
    (fun e he => List.mem_cons_of_mem _ he) d hd

/-- What a resumed activation that has not replaced the file does to world and history. -/
theorem unfinished_resume (pc : Pc Text) (r : Reply (Ans Text)) (w : World Text)
    (hrepl : hasReplaced (pc, (Phase.ready r).seen) = none) (d : Task)
    (hd : Unfinished y (resume y w pc r).1 d) : Unfinished y w d := by
  have hanswer : ∀ id, Unfinished y (answer w id false).1 d → Unfinished y w d :=
    fun id => unfinished_answer w id d
  unfold resume at hd
  split at hd
  case h_7 =>
    split at hd
    · exact hd
    · exact hanswer _ hd
  case h_10 | h_14 => cases hrepl
  all_goals first
    | exact hd
    | exact hanswer _ hd

/-- An activation that has replaced the file reloads it. -/
theorem resume_replaced (y : Yaml Text) (w : World Text) {pc : Pc Text} {r : Reply (Ans Text)}
    {view : Option ℕ} (h : hasReplaced (pc, (Phase.ready r).seen) = some view) :
    ∃ id, pc.requestId = some id ∧ resume y w pc r = reload y w id view := by
  cases r with
  | returned | failed => cases pc <;> cases h
  | answer a =>
    cases a with
    | replaced view' =>
      cases pc with
      | renameTemp id newSettings read text =>
        cases h
        exact ⟨id, rfl, rfl⟩
      | writeCopy id text fd =>
        cases h
        exact ⟨id, rfl, rfl⟩
      | _ => cases h
    | _ => cases pc <;> cases h

/-- The reload pays the debts of its request. -/
theorem debts_reload {id : ℕ} {view : Option ℕ} (hs : Covered (Unfinished y) Finishes s)
    (hok : SettingsStep y text₀ s (.resume pid)) (hp : s.procs.get pid = some p)
    (hid : p.pc.requestId = some id) (hrepl : hasReplaced p.point = some view) :
    Passes (Unfinished y) Finishes s pid (reload y s.world id view).1 [] := by
  obtain ⟨f, hf, hwhole⟩ : ∃ f ∈ s.world.configFile, f.whole = true :=
    hok.orderly p hp (by rw [hrepl]; rfl)
  obtain ⟨config, hconfig, heq⟩ := hok.ledger.reload_eq hp hid hrepl hok.files.world hf hwhole
  rw [heq]
  have hcommits : ∀ i c, .committed i c ∈ (reloaded s.world id config).history →
      .committed i c ∈ s.world.history := by
    intro i c hc
    simpa only [reloaded, World.record, List.mem_cons, reduceCtorEq, false_or] using hc
  have hreloaded : Reloaded y (reloaded s.world id config) := ⟨f, hf, hwhole, hconfig⟩
  have hfilled : ¬Unfinished y (reloaded s.world id config) .fill := by
    rintro ⟨g, hg, hg'⟩
    cases hf.symm.trans hg
    cases hwhole.symm.trans hg'
  apply hs.passes hp
  · intro d hd
    cases d with
    | fill => exact absurd hd hfilled
    | reload => exact absurd hreloaded hd
    | answer i =>
      obtain ⟨⟨c, hc⟩, hanswered⟩ := hd
      refine .inl ⟨⟨c, hcommits i c hc⟩, fun hmem => hanswered ?_⟩
      exact List.mem_cons_of_mem _ (List.mem_cons_of_mem _ hmem)
  · intro d hd howes
    cases d with
    | fill => exact absurd hd hfilled
    | reload => exact absurd hreloaded hd
    | answer i =>
      cases hid.symm.trans howes.2
      exact absurd List.mem_cons_self hd.2

theorem debts_resume {r : Reply (Ans Text)} {nx : Next (Pc Text)}
    (hs : Covered (Unfinished y) Finishes s) (hok : SettingsStep y text₀ s (.resume pid))
    (hp : s.procs.get pid = some p) (hphase : p.phase = .ready r)
    (h : resume y s.world p.pc r = (w, nx)) :
    Passes (Unfinished y) Finishes s pid w (nx.points.map (·, none)) := by
  have hpoint : p.point = (p.pc, (Phase.ready r).seen) := by rw [Activation.point, hphase]
  obtain rfl : (resume y s.world p.pc r).1 = w := congrArg Prod.fst h
  obtain rfl : (resume y s.world p.pc r).2 = nx := congrArg Prod.snd h
  cases hrepl : hasReplaced p.point with
  | some view =>
    obtain ⟨id, hid, heq⟩ := resume_replaced y s.world (hpoint ▸ hrepl)
    rw [heq, points_reload]
    exact debts_reload hs hok hp hid hrepl
  | none =>
    rw [hpoint] at hrepl
    apply hs.passes hp
    · exact fun d hd => .inl (unfinished_resume p.pc r s.world hrepl d hd)
    · intro d _ howes
      rw [hpoint] at howes
      have goes : (copying (p.pc, (Phase.ready r).seen)).isSome = true →
          ∃ x ∈ (resume y s.world p.pc r).2.points.map (·, none), (copying x).isSome = true := by
        intro hcopy
        have hanswered : ∀ id text fd, p.pc = .writeCopy id text fd → ∃ a, r = .answer a := by
          intro id text fd hpc
          rcases hok.answering pid p hp ⟨id, text, fd, hpc⟩ with hwait | ⟨a, hready⟩
          · cases hphase.symm.trans hwait
          · exact ⟨a, Phase.ready.inj (hphase.symm.trans hready)⟩
        obtain ⟨x, hx, hgoes⟩ := @copying_resume Text y p.pc r s.world hanswered hcopy
        exact ⟨_, List.mem_map_of_mem hx, hgoes⟩
      cases d with
      | fill => exact goes howes
      | reload =>
        obtain ⟨x, hx, hgoes⟩ := goes (howes.resolve_right (by rw [hrepl]; simp))
        exact ⟨x, hx, .inl hgoes⟩
      | answer id =>
        rw [Finishes, hrepl] at howes
        cases howes.1

theorem debts_enter {e : Entry} {nx : Next (Pc Text)} (hs : Covered (Unfinished y) Finishes s)
    (hfresh : Fresh s) (h : enter s.world e = some (w, nx)) :
    Passes (Unfinished y) Finishes s s.next w (nx.points.map (·, none)) := by
  apply hs.passes_enter hfresh
  have hbegan : ∀ r d, Unfinished y (began s.world r) d → Unfinished y s.world d := by
    intro r d
    have hcommits : ∀ i c, .committed i c ∈ (began s.world r).history →
        .committed i c ∈ s.world.history := by
      intro i c hc
      simpa only [began, World.record, List.mem_cons, reduceCtorEq, false_or] using hc
    exact @unfinished_of_same Text y s.world (began s.world r) rfl rfl hcommits
      (fun e he => List.mem_cons_of_mem _ he) d
  intro d hd
  cases e with
  | elapse ms =>
    cases h
    exact @unfinished_of_same Text y s.world _ rfl rfl (fun _ _ h => h) (fun _ h => h) d hd
  | request r =>
    cases r with
    | update newSettings =>
      cases h
      exact hbegan (.update newSettings) d hd
    | restore filename =>
      simp only [enter] at h
      by_cases hclimbs : climbs filename = true
      · rw [if_pos hclimbs] at h
        cases h
        exact hbegan (.restore filename) d (unfinished_answer _ _ d hd)
      · rw [if_neg hclimbs] at h
        cases h
        exact hbegan (.restore filename) d hd

theorem debts_covering (y : Yaml Text) (text₀ : Text) :
    Covering (program y) (SettingsStep y text₀) (Unfinished y) Finishes where
  serve _ _ _ _ _ _ hs hp hseen hok h := debts_serve hs hok hp hseen h
  resume _ _ _ _ _ _ hs hp hphase hok h := debts_resume hs hok hp hphase h
  enter _ _ _ _ hs hfresh _ h := debts_enter hs hfresh h

end Debts

/-! ## Orderly runs -/

section Runs
variable {y : Yaml Text} {text₀ : Text} {s t : SState Text}

/-- What holds of every state of an orderly run. -/
structure Sound (y : Yaml Text) (text₀ : Text) (s : SState Text) : Prop where
  files : FilesInv y text₀ s
  ledger : LedgerInv s
  answering : Answering (fun pc => ∃ id text fd, pc = .writeCopy id text fd) s.procs
  covered : Covered (Unfinished y) Finishes s

theorem Sound.step {l : SLabel} (hy : y.RoundTrips) (hs : Sound y text₀ s) (hok : Orderly y s l)
    (hst : step (program y) s l = some t) : Sound y text₀ t := by
  have hledger : LedgerStep y text₀ s l := ⟨hok, hs.files, hs.answering⟩
  have hsettings : SettingsStep y text₀ s l := ⟨hledger, hs.ledger⟩
  exact ⟨(files_coherent hy text₀).step hs.files hok hst,
    (ledger_coherent y text₀).step hs.ledger hledger hst, answering_step hs.answering hst,
    (debts_covering y text₀).step hs.covered hs.files.fresh hsettings hst⟩

theorem sound_boot {loadedConfig : Json} (hload : loadConfig y text₀ = some loadedConfig)
    (leftover : Option (File Text)) (backups : KeyedList String (File Text)) :
    Sound y text₀ (boot text₀ leftover backups loadedConfig) := by
  have hfiles := files_boot hload leftover backups
  refine ⟨hfiles, .start ⟨?_, ?_, ?_, ?_, ?_, ?_⟩, fun q p hp => (by cases hp), fun d hd => ?_⟩
  · intro id hid
    cases hid
  · intro e he
    cases he
  · intro id hid
    cases hid
  · exact .nil
  · exact .nil
  · intro id c hc
    cases hc
  · have hreloaded : Reloaded y (boot text₀ leftover backups loadedConfig).world :=
      ⟨⟨text₀, true⟩, rfl, rfl, hload⟩
    cases d with
    | fill =>
      obtain ⟨f, hf, hwhole⟩ := hd
      cases hf
      cases hwhole
    | reload => exact absurd hreloaded hd
    | answer id =>
      obtain ⟨⟨c, hc⟩, -⟩ := hd
      cases hc

theorem Sound.reaches (hy : y.RoundTrips) (hs : Sound y text₀ s)
    (h : Transition.Reaches (EventLoop.step (program y)) (Orderly y) s t) : Sound y text₀ t :=
  h.invariant hs fun _ _ _ ha hok hst => ha.step hy hok hst

/-- A configuration file that holds the fold of the commits is a complete document. -/
theorem load_of_loadConfig {text : Text} (h : (loadConfig y text).isSome = true) :
    (y.load text).isSome = true := by
  unfold loadConfig at h
  cases hload : y.load text with
  | none =>
    rw [hload] at h
    cases h
  | some v => rfl

/-- The file is a complete document unless a restore is copying over it. -/
theorem Sound.complete_iff (hs : Sound y text₀ s) :
    Complete y s.world ↔ ∀ q p, s.procs.get q = some p → copying p.point = none := by
  obtain ⟨c, f, hc, hf, hwhole⟩ := hs.files.world.config
  have hconfig : s.world.configFile = some f := by
    rw [World.configFile, hc, Option.bind_some, hf]
  constructor
  · rintro ⟨g, hg, hgwhole, -⟩ q p hp
    by_contra hcopy
    rw [(hs.files.here q p hp).not_whole hcopy hg] at hgwhole
    cases hgwhole
  · intro hnone
    cases hfw : f.whole with
    | true => exact ⟨f, hconfig, hfw, load_of_loadConfig (hwhole hfw).2⟩
    | false =>
      obtain ⟨q, p, hp, hcopy⟩ := hs.covered .fill ⟨f, hconfig, hfw⟩
      rw [Finishes, hnone q p hp] at hcopy
      cases hcopy

/-- At rest nothing is left unfinished. -/
theorem Sound.finished (hs : Sound y text₀ s) (hq : Quiescent s) (d : Task) :
    ¬Unfinished y s.world d := by
  intro hd
  obtain ⟨q, p, hp, -⟩ := hs.covered d hd
  rw [hq] at hp
  cases hp

theorem Sound.serial (hs : Sound y text₀ s) (hq : Quiescent s) : Serial y text₀ s.world := by
  refine ⟨s.world.commits, ?_, fun e he => hs.ledger.world.matched _ _ (mem_commits.mp he), ?_⟩
  · apply (List.perm_ext_iff_of_nodup hs.ledger.world.commitsOnce
      hs.ledger.world.successesOnce).mpr
    intro id
    rw [mem_successes, List.mem_map]
    constructor
    · rintro ⟨⟨id, c⟩, hmem, rfl⟩
      by_contra hanswered
      exact hs.finished hq (.answer id) ⟨⟨c, mem_commits.mp hmem⟩, hanswered⟩
    · intro hanswered
      obtain ⟨c, hc⟩ := hs.ledger.world.committed id hanswered
      exact ⟨(id, c), mem_commits.mpr hc, rfl⟩
  · obtain ⟨f, hf, hwhole, -⟩ : Reloaded y s.world := not_not.mp (hs.finished hq .reload)
    exact ⟨f, hf, hwhole, (hs.files.world.text_eq hf hwhole).1⟩

theorem settings_none_lost {loadedConfig : Json} (hy : y.RoundTrips)
    (hload : loadConfig y text₀ = some loadedConfig) (leftover : Option (File Text))
    (backups : KeyedList String (File Text))
    (h : Transition.Reaches (step (program y)) (Orderly y)
      (boot text₀ leftover backups loadedConfig) s) :
    NoneLost y text₀ s ∧
      (Complete y s.world ↔ ∀ q p, s.procs.get q = some p → copying p.point = none) := by
  have hs : Sound y text₀ s := (sound_boot hload leftover backups).reaches hy h
  exact ⟨⟨hs.ledger.world.errors, hs.serial,
    fun hq => not_not.mp (hs.finished hq .reload)⟩, hs.complete_iff⟩

end Runs

/-! ## Two updates of different keys -/

/-- Texts that are their own documents. -/
def plainYaml : Yaml Json where
  load := some
  dump := id
  part t _ := t
  overlay t _ := t
  spread _ := []
  overlay_self _ := rfl

def portConfig : Json := .obj [("server", .obj [("http_port", .num 5001)])]

def setting (key : String) : Json := .obj [(key, .bool true)]

/-- An update up to the text it has read; its backup fails. -/
def readLabels (pid : ℕ) (key : String) : List SLabel :=
  [.enter (.request (.update (setting key))), .fail (pid + 1), .resume (pid + 1), .resume pid,
    .serve pid (.sees 0), .resume pid]

def writeLabels (pid : ℕ) : List SLabel :=
  [.serve pid .only, .resume pid, .serve pid .only, .resume pid, .serve pid (.reload (some 0)),
    .resume pid]

/-- Both updates have read before either has renamed. -/
def overlapping : List SLabel :=
  readLabels 0 "a" ++ readLabels 2 "b" ++ writeLabels 0 ++ writeLabels 2

def overlappingHistory : List (Event Json) :=
  [.answered 1 true, .loaded 1, .committed 1 (.merge (setting "b")), .replaced 1,
    .answered 0 true, .loaded 0, .committed 0 (.merge (setting "a")), .replaced 0,
    .began 1 (.update (setting "b")), .began 0 (.update (setting "a"))]

/-- No order of the two updates leaves only the key of the second. -/
theorem overlapping_not_serial {w : World Json} (hhistory : w.history = overlappingHistory)
    (hfile : w.configFile = some ⟨.obj [("server", .obj [("http_port", .num 5001)]),
      ("b", .bool true)], true⟩) : ¬Serial plainYaml portConfig w := by
  rintro ⟨order, hperm, hmatches, f, hf, -, htext⟩
  cases hfile.symm.trans hf
  have hsuccesses : w.successes = [0, 1] := by
    rw [World.successes, hhistory]
    rfl
  have merges : ∀ i c, (i, c) ∈ order → i = 0 ∧ c = .merge (setting "a") ∨
      i = 1 ∧ c = .merge (setting "b") := by
    intro i c hmem
    have hm := hmatches (i, c) hmem
    rw [hhistory] at hm
    cases c with
    | merge newSettings =>
      have : Event.began i (.update newSettings) ∈ overlappingHistory := hm
      simp [overlappingHistory] at this
      rcases this with h | h
      · exact .inr ⟨h.1, by rw [h.2]⟩
      · exact .inl ⟨h.1, by rw [h.2]⟩
    | copy text =>
      obtain ⟨filename, -, hopened⟩ := hm
      simp [overlappingHistory] at hopened
  have hpair : order = [(0, .merge (setting "a")), (1, .merge (setting "b"))] ∨
      order = [(1, .merge (setting "b")), (0, .merge (setting "a"))] := by
    have hlength : order.length = 2 := by
      have := hperm.length_eq
      rwa [hsuccesses, List.length_map] at this
    have hnodup : (order.map Prod.fst).Nodup := hperm.nodup_iff.mpr (by simp [hsuccesses])
    obtain ⟨⟨i, c⟩, ⟨j, d⟩, rfl⟩ := List.length_eq_two.mp hlength
    have hne : i ≠ j := by simpa using hnodup
    rcases merges i c (by simp) with ⟨rfl, rfl⟩ | ⟨rfl, rfl⟩ <;>
      rcases merges j d (by simp) with ⟨rfl, rfl⟩ | ⟨rfl, rfl⟩
    · exact absurd rfl hne
    · exact .inl rfl
    · exact .inr rfl
    · exact absurd rfl hne
  rcases hpair with rfl | rfl
  · exact absurd htext (by decide +kernel)
  · exact absurd htext (by decide +kernel)

theorem settings_none_lost_fails : ¬∀ (Text : Type) (y : Yaml Text) (text₀ : Text)
    (loadedConfig : Json) (leftover : Option (File Text)) (backups : KeyedList String (File Text))
    (s : SState Text), y.RoundTrips → loadConfig y text₀ = some loadedConfig →
      Transition.Reaches (step (program y)) (fun _ _ => True)
        (boot text₀ leftover backups loadedConfig) s →
      NoneLost y text₀ s ∧ Complete y s.world := by
  intro h
  obtain ⟨s, hs, hquiet, hhistory, hfile⟩ := Transition.exists_reaches_of_run
    (step (program plainYaml)) (fun _ _ => True) (boot portConfig none [] portConfig) overlapping
    (P := fun s => s.procs = [] ∧ s.world.history = overlappingHistory ∧
      s.world.configFile = some ⟨.obj [("server", .obj [("http_port", .num 5001)]),
        ("b", .bool true)], true⟩)
    (by decide +kernel)
  have hlost := (h Json plainYaml portConfig portConfig none [] s (fun _ => rfl) rfl hs).1
  exact overlapping_not_serial hhistory hfile (hlost.serial hquiet)

/-- The second update begins when the first has ended. -/
theorem settings_none_lost_sequence : ∃ s, Transition.Reaches (step (program plainYaml))
    (Orderly plainYaml) (boot portConfig none [] portConfig) s ∧ s.world.successes = [0, 1] ∧
    NoneLost plainYaml portConfig s ∧
    (Complete plainYaml s.world ↔ ∀ q p, s.procs.get q = some p → copying p.point = none) := by
  obtain ⟨s, hs, hsuccesses⟩ := Transition.exists_reaches_of_run
    (step (program plainYaml)) (Orderly plainYaml) (boot portConfig none [] portConfig)
    (readLabels 0 "a" ++ writeLabels 0 ++ readLabels 2 "b" ++ writeLabels 2)
    (P := fun s => s.world.successes = [0, 1]) (by decide +kernel)
  exact ⟨s, hs, hsuccesses, settings_none_lost (fun _ => rfl) rfl none [] hs⟩

end ZoneweaverAgent.Settings
