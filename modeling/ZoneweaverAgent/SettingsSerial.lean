import ZoneweaverAgent.SettingsRuns

/-!
# Settings changes in sequence

The ledger of the requests: each commits at most once, answers once, and answers an error only if it
has changed nothing. With the files of `SettingsRuns` this makes an orderly run serial.
-/

namespace ZoneweaverAgent.Settings
open EventLoop

variable {Text : Type}

def Pc.requestId : Pc Text → Option ℕ
  | .mkdir | .backupOpen _ | .backupWrite _ _ => none
  | .backedUp id _ | .readConfig id _ | .openTemp id _ _ _ | .writeTemp id _ _ _ _
  | .renameTemp id _ _ _ | .access id _ | .restoring id _ | .openCopy id _ | .writeCopy id _ _ =>
    some id

def Event.requestId : Event Text → ℕ
  | .began id _ | .opened id _ _ | .replaced id | .committed id _ | .loaded id | .answered id _ => id

/-- What an activation carries of its request is what the request said. -/
def Pc.Recalls (history : List (Event Text)) : Pc Text → Prop
  | .backedUp id newSettings | .readConfig id newSettings | .openTemp id newSettings _ _
  | .writeTemp id newSettings _ _ _ | .renameTemp id newSettings _ _ =>
    .began id (.update newSettings) ∈ history
  | .access id filename | .restoring id filename | .openCopy id filename =>
    .began id (.restore filename) ∈ history
  | .writeCopy id text _ => ∃ filename, .began id (.restore filename) ∈ history ∧
      .opened id filename text ∈ history
  | .mkdir | .backupOpen _ | .backupWrite _ _ => True

theorem Pc.Recalls.mono {history history' : List (Event Text)} {pc : Pc Text}
    (h : pc.Recalls history) (hsub : ∀ e ∈ history, e ∈ history') : pc.Recalls history' := by
  cases pc with
  | writeCopy id text fd =>
    obtain ⟨filename, hbegan, hopened⟩ := h
    exact ⟨filename, hsub _ hbegan, hsub _ hopened⟩
  | mkdir | backupOpen | backupWrite => trivial
  | _ => exact hsub _ h

theorem mem_successes {w : World Text} {id : ℕ} :
    id ∈ w.successes ↔ .answered id true ∈ w.history := by
  simp only [World.successes, List.mem_filterMap, List.mem_reverse]
  constructor
  · rintro ⟨e, he, heq⟩
    split at heq
    · cases heq
      exact he
    · cases heq
  · exact fun h => ⟨_, h, rfl⟩

theorem mem_commits {w : World Text} {id : ℕ} {c : Commit Text} :
    (id, c) ∈ w.commits ↔ .committed id c ∈ w.history := by
  simp only [World.commits, List.mem_filterMap, List.mem_reverse]
  constructor
  · rintro ⟨e, he, heq⟩
    split at heq
    · cases heq
      exact he
    · cases heq
  · exact fun h => ⟨_, h, rfl⟩

theorem Matches.mono {history history' : List (Event Text)} {id : ℕ} {c : Commit Text}
    (h : Matches history id c) (hsub : ∀ e ∈ history, e ∈ history') : Matches history' id c := by
  cases c with
  | merge newSettings => exact hsub _ h
  | copy text =>
    obtain ⟨filename, hbegan, hopened⟩ := h
    exact ⟨filename, hsub _ hbegan, hsub _ hopened⟩

structure LedgerHolds (w : World Text) : Prop where
  errors : ErrorsHarmless w
  known : ∀ e ∈ w.history, e.requestId < w.nextRequest
  committed : ∀ id, .answered id true ∈ w.history → ∃ c, .committed id c ∈ w.history
  commitsOnce : (w.commits.map Prod.fst).Nodup
  successesOnce : w.successes.Nodup
  matched : ∀ id c, .committed id c ∈ w.history → Matches w.history id c

structure LedgerHere (w : World Text) (x : Point (Pc Text) (Ans Text)) : Prop where
  recalls : x.1.Recalls w.history
  known : ∀ id, x.1.requestId = some id → id < w.nextRequest
  unanswered : ∀ id, x.1.requestId = some id → ∀ success, .answered id success ∉ w.history
  unloaded : ∀ id, x.1.requestId = some id → .loaded id ∉ w.history
  untouched : ∀ id, x.1.requestId = some id → copying x = none → hasReplaced x = none →
    .replaced id ∉ w.history
  uncommitted : ∀ id, x.1.requestId = some id → hasReplaced x = none →
    ∀ c, .committed id c ∉ w.history
  replaced : ∀ id view, x.1.requestId = some id → hasReplaced x = some view →
    view.isSome = true ∧ ∃ c, .committed id c ∈ w.history
  opened : ∀ id filename fd text, x = (.openCopy id filename, some (.opened fd text)) →
    .opened id filename text ∈ w.history
  intact : ∀ id text fd a, x = (.writeCopy id text fd, some a) → ∃ view, a = .replaced view

/-- Two activations of the requests serve different ones. -/
def LedgerApart (x x' : Point (Pc Text) (Ans Text)) : Prop :=
  ∀ id, x.1.requestId = some id → x'.1.requestId ≠ some id

theorem ledgerApart_symm (x x' : Point (Pc Text) (Ans Text)) (h : LedgerApart x x') :
    LedgerApart x' x := fun id hx' hx => h id hx hx'

section Grow
variable {w w' : World Text} {x : Point (Pc Text) (Ans Text)}

/-- The history has grown by entries of the request `id`. -/
structure GrowsBy (id : ℕ) (w w' : World Text) : Prop where
  kept : ∀ e ∈ w.history, e ∈ w'.history
  new : ∀ e ∈ w'.history, e ∈ w.history ∨ e.requestId = id
  next : w.nextRequest ≤ w'.nextRequest

/-- Entries of another request do not concern an activation. -/
theorem LedgerHere.grow (h : LedgerHere w x) {id : ℕ} (hgrow : GrowsBy id w w')
    (hid : x.1.requestId ≠ some id) : LedgerHere w' x := by
  have old : ∀ i, x.1.requestId = some i → ∀ e : Event Text, e.requestId = i → e ∈ w'.history →
      e ∈ w.history := by
    intro i hi e he hmem
    rcases hgrow.new e hmem with hold | hnew
    · exact hold
    · rw [← he, hnew] at hi
      exact absurd hi hid
  refine ⟨h.recalls.mono hgrow.kept, fun i hi => (h.known i hi).trans_le hgrow.next,
    fun i hi b hmem => h.unanswered i hi b (old i hi _ rfl hmem),
    fun i hi hmem => h.unloaded i hi (old i hi _ rfl hmem),
    fun i hi hcopy hrepl hmem => h.untouched i hi hcopy hrepl (old i hi _ rfl hmem),
    fun i hi hrepl c hmem => h.uncommitted i hi hrepl c (old i hi _ rfl hmem),
    fun i view hi hrepl => ?_, fun i f fd t hx => hgrow.kept _ (h.opened i f fd t hx), h.intact⟩
  obtain ⟨hview, c, hc⟩ := h.replaced i view hi hrepl
  exact ⟨hview, c, hgrow.kept _ hc⟩

/-- createBackup belongs to no request. -/
theorem ledgerHere_backup (h : x.1.requestId = none) (hrecalls : x.1.Recalls w.history) :
    LedgerHere w x := by
  have no : ∀ {i}, x.1.requestId ≠ some i := by
    intro i hi
    cases h.symm.trans hi
  refine ⟨hrecalls, fun i hi => absurd hi no, fun i hi => absurd hi no, fun i hi => absurd hi no,
    fun i hi => absurd hi no, fun i hi => absurd hi no, fun i _ hi => absurd hi no, ?_, ?_⟩
  · rintro i f fd t rfl
    cases h
  · rintro i t fd a rfl
    cases h

/-- An activation of a request that has changed nothing yet. -/
theorem ledgerHere_early {id : ℕ} (hid : x.1.requestId = some id)
    (hrecalls : x.1.Recalls w.history) (hknown : id < w.nextRequest)
    (hfresh : ∀ e ∈ w.history, e.requestId = id → ∃ r, e = .began id r)
    (hcopy : ∀ i f fd t, x ≠ (.openCopy i f, some (.opened fd t)))
    (hwrite : ∀ i t fd a, x ≠ (.writeCopy i t fd, some a)) (hrepl : hasReplaced x = none) :
    LedgerHere w x := by
  have no : ∀ i, x.1.requestId = some i → ∀ e : Event Text, e.requestId = i →
      (∀ r, e ≠ .began id r) → e ∉ w.history := by
    intro i hi e he hne hmem
    cases hid.symm.trans hi
    obtain ⟨r, hr⟩ := hfresh e hmem he
    exact hne r hr
  refine ⟨hrecalls, ?_, fun i hi b => no i hi _ rfl (by simp), fun i hi => no i hi _ rfl (by simp),
    fun i hi _ _ => no i hi _ rfl (by simp), fun i hi _ c => no i hi _ rfl (by simp), ?_,
    fun i f fd t hx => absurd hx (hcopy i f fd t), fun i t fd a hx => absurd hx (hwrite i t fd a)⟩
  · intro i hi
    cases hid.symm.trans hi
    exact hknown
  · intro i view _ hview
    cases hrepl.symm.trans hview

end Grow

/-! ## One entry more -/

/-- When an entry may be made. -/
def Admits (history : List (Event Text)) : Event Text → Prop
  | .began _ _ | .opened _ _ _ => True
  | .replaced id | .loaded id => .answered id false ∉ history
  | .committed id c => (∀ c', .committed id c' ∉ history) ∧ Matches history id c
  | .answered id true => .answered id true ∉ history ∧ ∃ c, .committed id c ∈ history
  | .answered id false => .replaced id ∉ history ∧ .loaded id ∉ history

section Record
variable {w w' : World Text} {e : Event Text} {id : ℕ}

theorem growsBy_record (w : World Text) (he : e.requestId = id) : GrowsBy id w (w.record e) := by
  refine ⟨fun e' h => List.mem_cons_of_mem e h, fun e' h => ?_, le_rfl⟩
  rcases List.mem_cons.mp h with rfl | hold
  · exact .inr he
  · exact .inl hold

theorem GrowsBy.trans {w'' : World Text} (h : GrowsBy id w w') (h' : GrowsBy id w' w'') :
    GrowsBy id w w'' := by
  refine ⟨fun e he => h'.kept e (h.kept e he), fun e he => ?_, h.next.trans h'.next⟩
  rcases h'.new e he with hold | hnew
  · exact h.new e hold
  · exact .inr hnew

theorem growsBy_of_eq (hhistory : w'.history = w.history)
    (hnext : w'.nextRequest = w.nextRequest) : GrowsBy id w w' := by
  refine ⟨fun e he => hhistory ▸ he, fun e he => .inl (hhistory ▸ he), hnext.ge⟩

theorem LedgerHolds.of_eq (h : LedgerHolds w) (hhistory : w'.history = w.history)
    (hnext : w.nextRequest ≤ w'.nextRequest) : LedgerHolds w' := by
  obtain ⟨herrors, hknown, hcommitted, hcommits, hsuccesses, hmatched⟩ := h
  refine ⟨?_, ?_, ?_, ?_, ?_, ?_⟩
  · rwa [ErrorsHarmless, hhistory]
  · rw [hhistory]
    exact fun e he => (hknown e he).trans_le hnext
  · rwa [hhistory]
  · rwa [World.commits, hhistory]
  · rwa [World.successes, hhistory]
  · rwa [hhistory]

theorem successes_record (w : World Text) (e : Event Text) : (w.record e).successes =
    w.successes ++ (match e with
      | .answered id true => [id]
      | _ => []) := by
  simp only [World.successes, World.record, List.reverse_cons, List.filterMap_append]
  congr 1
  cases e with
  | answered i success => cases success <;> rfl
  | _ => rfl

theorem LedgerHolds.record (h : LedgerHolds w) (hid : e.requestId < w.nextRequest)
    (he : Admits w.history e) : LedgerHolds (w.record e) := by
  have hsub : ∀ e' ∈ w.history, e' ∈ (w.record e).history := fun _ => List.mem_cons_of_mem e
  refine ⟨?_, ?_, ?_, ?_, ?_, ?_⟩
  · intro i hi
    rcases List.mem_cons.mp hi with rfl | hold
    · exact ⟨by simpa [World.record] using he.1, by simpa [World.record] using he.2⟩
    · obtain ⟨hreplaced, hloaded⟩ := h.errors i hold
      constructor <;> intro hmem <;> rcases List.mem_cons.mp hmem with rfl | hold'
      · exact he hold
      · exact hreplaced hold'
      · exact he hold
      · exact hloaded hold'
  · intro e' he'
    rcases List.mem_cons.mp he' with rfl | hold
    · exact hid
    · exact h.known e' hold
  · intro i hi
    rcases List.mem_cons.mp hi with rfl | hold
    · exact he.2.imp fun c hc => hsub _ hc
    · exact (h.committed i hold).imp fun c hc => hsub _ hc
  · rw [commits_record, List.map_append, List.nodup_append]
    refine ⟨h.commitsOnce, ?_, ?_⟩
    · cases e <;> simp [Event.commits]
    · cases e with
      | committed i c =>
        intro a ha b hb hab
        subst hab
        obtain ⟨⟨i', c'⟩, hmem, rfl⟩ := List.mem_map.mp ha
        obtain rfl : i' = i := by simpa [Event.commits] using hb
        exact he.1 c' (mem_commits.mp hmem)
      | _ => simp [Event.commits]
  · rw [successes_record, List.nodup_append]
    refine ⟨h.successesOnce, ?_, ?_⟩
    · split <;> simp
    · split
      · intro a ha b hb hab
        rw [List.mem_singleton.mp hb] at hab
        rw [hab] at ha
        exact he.1 (mem_successes.mp ha)
      · simp
  · intro i c hc
    rcases List.mem_cons.mp hc with rfl | hold
    · exact he.2.mono hsub
    · exact (h.matched i c hold).mono hsub

end Record

/-! ## The steps -/

section Steps
variable {y : Yaml Text} {text₀ : Text} {w w' : World Text} {x : Point (Pc Text) (Ans Text)}
  {s : SState Text} {pid : ℕ} {p : Activation (Pc Text) (Ans Text)}

theorem LedgerHere.of_eq (h : LedgerHere w x) (hhistory : w'.history = w.history)
    (hnext : w'.nextRequest = w.nextRequest) : LedgerHere w' x := by
  obtain ⟨hrecalls, hknown, h₁, h₂, h₃, h₄, h₅, h₆, h₇⟩ := h
  rw [← hhistory] at hrecalls h₁ h₂ h₃ h₄ h₅ h₆
  rw [← hnext] at hknown
  exact ⟨hrecalls, hknown, h₁, h₂, h₃, h₄, h₅, h₆, h₇⟩

/-- The answer of a call that neither opens the configuration nor replaces it. -/
theorem LedgerHere.answer {pc : Pc Text} {a : Ans Text} (h : LedgerHere w (pc, none))
    (hcopy : copying ((pc, none) : Point (Pc Text) (Ans Text)) = none)
    (hrepl : hasReplaced (pc, some a) = none)
    (hopen : ∀ i f fd t, (pc, some a) ≠ (.openCopy i f, some (.opened fd t)))
    (hwrite : ∀ i t fd, pc ≠ .writeCopy i t fd) : LedgerHere w (pc, some a) := by
  have hnone : hasReplaced ((pc, none) : Point (Pc Text) (Ans Text)) = none := by
    cases pc <;> rfl
  refine ⟨h.recalls, h.known, h.unanswered, h.unloaded, fun i hi _ _ => h.untouched i hi hcopy hnone,
    fun i hi _ => h.uncommitted i hi hnone, fun i view _ hview => ?_,
    fun i f fd t hx => absurd hx (hopen i f fd t), fun i t fd a' hx => ?_⟩
  · cases hrepl.symm.trans hview
  · cases hx
    exact absurd rfl (hwrite i t fd)

abbrev LedgerInv (s : SState Text) : Prop := Inv LedgerHolds LedgerHere LedgerApart s

/-- What the ledger needs of the files: the condition, and that they are in order. -/
structure LedgerStep (y : Yaml Text) (text₀ : Text) (s : SState Text) (l : SLabel) : Prop where
  orderly : Orderly y s l
  files : FilesInv y text₀ s
  answering : Answering (fun pc => ∃ id text fd, pc = .writeCopy id text fd) s.procs

/-- A move that makes no entry. -/
theorem respects_sameLedger (hi : LedgerInv s) (hhistory : w.history = s.world.history)
    (hnext : w.nextRequest = s.world.nextRequest) (hx : LedgerHere w x)
    (hid : ∀ q p', q ≠ pid → s.procs.get q = some p' → LedgerApart x p'.point) :
    Respects LedgerHolds LedgerHere LedgerApart s pid w [x] where
  world := hi.world.of_eq hhistory hnext.ge
  here := by
    intro x' hx'
    rw [List.mem_singleton.mp hx']
    exact hx
  apart := List.pairwise_singleton _ _
  others q p' hq hp' := by
    refine ⟨(hi.here q p' hp').of_eq hhistory hnext, fun x' hx' => ?_⟩
    rw [List.mem_singleton.mp hx']
    exact hid q p' hq hp'

/-- A move that makes entries of its own request. -/
theorem respects_grow (hi : LedgerInv s) {id : ℕ} (hgrow : GrowsBy id s.world w)
    (hw : LedgerHolds w) (hx : LedgerHere w x) (hxid : x.1.requestId = some id)
    (hid : ∀ q p', q ≠ pid → s.procs.get q = some p' → LedgerApart x p'.point) :
    Respects LedgerHolds LedgerHere LedgerApart s pid w [x] where
  world := hw
  here := by
    intro x' hx'
    rw [List.mem_singleton.mp hx']
    exact hx
  apart := List.pairwise_singleton _ _
  others q p' hq hp' := by
    refine ⟨(hi.here q p' hp').grow hgrow (hid q p' hq hp' id hxid), fun x' hx' => ?_⟩
    rw [List.mem_singleton.mp hx']
    exact hid q p' hq hp'

theorem history_openConfig (w : World Text) (text : Text) :
    (w.openConfig text).1.history = w.history ∧
      (w.openConfig text).1.nextRequest = w.nextRequest := by
  unfold World.openConfig World.openInode
  cases w.config <;> exact ⟨rfl, rfl⟩

theorem history_openTemp (w : World Text) (text : Text) :
    (w.openTemp text).1.history = w.history ∧
      (w.openTemp text).1.nextRequest = w.nextRequest := by
  unfold World.openTemp World.openInode
  cases w.temp <;> exact ⟨rfl, rfl⟩

/-- An activation that has replaced the file and is about to reload. -/
theorem ledgerHere_replaced {id : ℕ} {view : Option ℕ} (hrepl : hasReplaced x = some view)
    (hid : x.1.requestId = some id) (hview : view.isSome = true) (hrecalls : x.1.Recalls w.history)
    (hknown : id < w.nextRequest) (hanswered : ∀ success, .answered id success ∉ w.history)
    (hloaded : .loaded id ∉ w.history) (hcommitted : ∃ c, .committed id c ∈ w.history) :
    LedgerHere w x := by
  have own : ∀ i, x.1.requestId = some i → i = id := by
    intro i hi
    cases hid.symm.trans hi
    rfl
  refine ⟨hrecalls, fun i hi => own i hi ▸ hknown, fun i hi => own i hi ▸ hanswered,
    fun i hi => own i hi ▸ hloaded, fun i _ _ hnone => ?_, fun i _ hnone => ?_, fun i v hi hv => ?_,
    fun i f fd t hx => ?_, fun i t fd a hx => ?_⟩
  · cases hnone.symm.trans hrepl
  · cases hnone.symm.trans hrepl
  · cases hv.symm.trans hrepl
    exact ⟨hview, own i hi ▸ hcommitted⟩
  · subst hx
    cases hrepl
  · subst hx
    cases a <;> cases hrepl
    exact ⟨_, rfl⟩

/-- The commit of a request that had not committed yet. -/
theorem ledger_commit {id : ℕ} {c : Commit Text} (hw : LedgerHolds w) (hknown : id < w.nextRequest)
    (hnone : ∀ c, .committed id c ∉ w.history) (hmatches : Matches w.history id c) :
    LedgerHolds (w.record (.committed id c)) := hw.record hknown ⟨hnone, hmatches⟩

theorem not_mem_record {e e' : Event Text} (hne : e' ≠ e) (h : e' ∉ w.history) :
    e' ∉ (w.record e).history := by
  intro hmem
  rcases List.mem_cons.mp hmem with heq | hold
  · exact hne heq
  · exact h hold

theorem ledger_rename (hi : LedgerInv s) {id i : ℕ} {newSettings : Json} {read text : Text}
    {view : Option ℕ} (hx : LedgerHere s.world (.renameTemp id newSettings read text, none))
    (hview : view.isSome = true)
    (hid : ∀ q p', q ≠ pid → s.procs.get q = some p' →
      LedgerApart (.renameTemp id newSettings read text, some (.replaced view)) p'.point) :
    Respects LedgerHolds LedgerHere LedgerApart s pid (renamed s.world id i newSettings)
      [(.renameTemp id newSettings read text, some (.replaced view))] := by
  let w₀ : World Text := { s.world with
    config := some i
    temp := none }
  let w₁ := w₀.record (.replaced id)
  have hknown : id < s.world.nextRequest := hx.known id rfl
  have hgrow : GrowsBy id s.world (renamed s.world id i newSettings) :=
    ((growsBy_of_eq rfl rfl : GrowsBy id s.world w₀).trans (growsBy_record w₀ rfl)).trans
      (growsBy_record w₁ rfl)
  have hw₀ : LedgerHolds w₀ := hi.world.of_eq rfl le_rfl
  have hw₁ : LedgerHolds w₁ := hw₀.record hknown (hx.unanswered id rfl false)
  have hw : LedgerHolds (renamed s.world id i newSettings) :=
    ledger_commit hw₁ hknown
      (fun c => not_mem_record (by simp) (hx.uncommitted id rfl rfl c))
      (List.mem_cons_of_mem _ hx.recalls)
  apply respects_grow hi hgrow hw _ rfl hid
  exact ledgerHere_replaced rfl rfl hview (hx.recalls.mono hgrow.kept) hknown
    (fun b => not_mem_record (by simp) (not_mem_record (by simp) (hx.unanswered id rfl b)))
    (not_mem_record (by simp) (not_mem_record (by simp) (hx.unloaded id rfl)))
    ⟨.merge newSettings, List.mem_cons_self⟩

theorem ledger_writeCopy (hi : LedgerInv s) {id fd : ℕ} {text : Text} {view : Option ℕ}
    (hx : LedgerHere s.world (.writeCopy id text fd, none)) (hview : view.isSome = true)
    (hid : ∀ q p', q ≠ pid → s.procs.get q = some p' →
      LedgerApart (.writeCopy id text fd, some (.replaced view)) p'.point) :
    Respects LedgerHolds LedgerHere LedgerApart s pid
      ((s.world.finishWrite y fd text).record (.committed id (.copy text)))
      [(.writeCopy id text fd, some (.replaced view))] := by
  let w₀ := s.world.finishWrite y fd text
  have hknown : id < s.world.nextRequest := hx.known id rfl
  have hgrow : GrowsBy id s.world (w₀.record (.committed id (.copy text))) :=
    (growsBy_of_eq rfl rfl : GrowsBy id s.world w₀).trans (growsBy_record w₀ rfl)
  have hw₀ : LedgerHolds w₀ := hi.world.of_eq rfl le_rfl
  have hw : LedgerHolds (w₀.record (.committed id (.copy text))) :=
    ledger_commit hw₀ hknown (hx.uncommitted id rfl rfl) hx.recalls
  apply respects_grow hi hgrow hw _ rfl hid
  exact ledgerHere_replaced rfl rfl hview (hx.recalls.mono hgrow.kept) hknown
    (fun b => not_mem_record (by simp) (hx.unanswered id rfl b))
    (not_mem_record (by simp) (hx.unloaded id rfl)) ⟨.copy text, List.mem_cons_self⟩

theorem ledger_openCopy (hi : LedgerInv s) {id fd : ℕ} {filename : String} {text : Text}
    (hx : LedgerHere s.world (.openCopy id filename, none))
    (hid : ∀ q p', q ≠ pid → s.procs.get q = some p' →
      LedgerApart (.openCopy id filename, some (.opened fd text)) p'.point) :
    Respects LedgerHolds LedgerHere LedgerApart s pid
      (((s.world.openConfig text).1.record (.replaced id)).record (.opened id filename text))
      [(.openCopy id filename, some (.opened fd text))] := by
  obtain ⟨w₀, hw₀⟩ : ∃ w₀, w₀ = (s.world.openConfig text).1 := ⟨_, rfl⟩
  obtain ⟨hhistory, hnext⟩ := history_openConfig s.world text
  rw [← hw₀] at hhistory hnext ⊢
  let w₁ := w₀.record (.replaced id)
  have hknown : id < w₀.nextRequest := by
    rw [hnext]
    exact hx.known id rfl
  have hopen : GrowsBy id s.world w₁ :=
    (growsBy_of_eq hhistory hnext).trans (growsBy_record w₀ rfl)
  have hgrow : GrowsBy id s.world (w₁.record (.opened id filename text)) :=
    hopen.trans (growsBy_record w₁ rfl)
  have hledger₀ : LedgerHolds w₀ := hi.world.of_eq hhistory hnext.ge
  have hx₀ : LedgerHere w₀ (.openCopy id filename, none) := hx.of_eq hhistory hnext
  have hledger₁ : LedgerHolds w₁ := hledger₀.record hknown (hx₀.unanswered id rfl false)
  have hledger : LedgerHolds (w₁.record (.opened id filename text)) :=
    hledger₁.record hknown trivial
  apply respects_grow hi hgrow hledger _ rfl hid
  have later : ∀ e : Event Text, e ≠ .replaced id → e ≠ .opened id filename text →
      e ∉ w₀.history → e ∉ (w₁.record (.opened id filename text)).history :=
    fun e hrepl hopened hold => not_mem_record hopened (not_mem_record hrepl hold)
  refine ⟨hx.recalls.mono hgrow.kept, hx₀.known, fun i hi' b => ?_, fun i hi' => ?_,
    fun i _ hcopy => (by cases hcopy), fun i hi' _ c => ?_, fun i v _ hv => (by cases hv),
    fun i f fd' t h => ?_, fun _ _ _ _ h => (by cases h)⟩
  · exact later _ (by simp) (by simp) (hx₀.unanswered i hi' b)
  · exact later _ (by simp) (by simp) (hx₀.unloaded i hi')
  · exact later _ (by simp) (by simp) (hx₀.uncommitted i hi' rfl c)
  · cases h
    exact List.mem_cons_self

/-- A call that makes no entry. -/
def Pc.silent : Pc Text → Bool
  | .openCopy _ _ | .renameTemp _ _ _ _ | .writeCopy _ _ _ => false
  | _ => true

theorem serve_silent {pc : Pc Text} {c : Choice} {a : Ans Text} (hpc : pc.silent = true)
    (h : serve y w pc c = some (a, w')) :
    w'.history = w.history ∧ w'.nextRequest = w.nextRequest := by
  cases pc with
  | openCopy | renameTemp | writeCopy => cases hpc
  | backedUp | restoring => cases c <;> cases h
  | openTemp id newSettings read text =>
    cases c <;> cases h
    exact history_openTemp w text
  | mkdir | backupWrite | writeTemp => cases c <;> cases h <;> exact ⟨rfl, rfl⟩
  | backupOpen | readConfig | access =>
    cases c <;> simp only [serve, Option.map_eq_some_iff, reduceCtorEq] at h
    obtain ⟨f, -, heq⟩ := h
    cases heq
    exact ⟨rfl, rfl⟩

theorem LedgerHere.silent {pc : Pc Text} {a : Ans Text} (hpc : pc.silent = true)
    (h : LedgerHere w (pc, none)) : LedgerHere w (pc, some a) := by
  cases pc with
  | openCopy | renameTemp | writeCopy => cases hpc
  | _ => exact h.answer rfl rfl (by simp) (by simp)

theorem ledger_serve {c : Choice} {a : Ans Text} (hi : LedgerInv s)
    (hok : LedgerStep y text₀ s (.serve pid c)) (hp : s.procs.get pid = some p)
    (hseen : p.phase.seen = none) (h : serve y s.world p.pc c = some (a, w)) :
    Respects LedgerHolds LedgerHere LedgerApart s pid w [(p.pc, some a)] := by
  have hpoint : p.point = (p.pc, none) := by rw [Activation.point, hseen]
  have hx : LedgerHere s.world (p.pc, none) := hpoint ▸ hi.here pid p hp
  have hid : ∀ q p', q ≠ pid → s.procs.get q = some p' → LedgerApart (p.pc, some a) p'.point := by
    intro q p' hq hp' id hmine
    exact (hpoint ▸ hi.apart pid q p p' (Ne.symm hq) hp hp') id hmine
  have horderly := hok.orderly
  obtain ⟨pc, phase, caller⟩ := p
  cases pc with
  | backedUp | restoring => cases c <;> cases h
  | openCopy id filename =>
    cases c <;> simp only [serve, Option.map_eq_some_iff, reduceCtorEq] at h
    obtain ⟨f, -, heq⟩ := h
    cases heq
    exact ledger_openCopy hi hx hid
  | renameTemp id newSettings read text =>
    have hreloads : c.reloads = true := (horderly _ hp).2
    cases c <;> simp only [serve, Option.map_eq_some_iff, reduceCtorEq] at h
    obtain ⟨i, -, heq⟩ := h
    cases heq
    exact ledger_rename hi hx hreloads hid
  | writeCopy id text fd =>
    have hreloads : c.reloads = true := horderly _ hp
    cases c with
    | only | sees n | breaks n => cases hreloads
    | reload view =>
      cases h
      exact ledger_writeCopy hi hx hreloads hid
  | _ =>
    obtain ⟨hhistory, hnext⟩ := serve_silent rfl h
    exact respects_sameLedger hi hhistory hnext ((hx.silent rfl).of_eq hhistory hnext) hid

/-- The mover goes on without an entry. -/
theorem respects_onward (hi : LedgerInv s) (hp : s.procs.get pid = some p) {nx : Next (Pc Text)}
    (hx : ∀ x ∈ nx.points, LedgerHere s.world (x, none) ∧
      ∀ id, x.requestId = some id → p.pc.requestId = some id)
    (hpairwise : nx.points.Pairwise fun x x' => x.requestId = none ∨ x'.requestId = none) :
    Respects LedgerHolds LedgerHere LedgerApart s pid s.world (nx.points.map (·, none)) where
  world := hi.world
  here := by
    intro x hxs
    obtain ⟨pc, hpc, rfl⟩ := List.mem_map.mp hxs
    exact (hx pc hpc).1
  apart := by
    refine List.pairwise_map.mpr (hpairwise.imp ?_)
    rintro a b (hnone | hnone) id ha hb
    · cases hnone.symm.trans ha
    · cases hnone.symm.trans hb
  others q p' hq hp' := by
    refine ⟨hi.here q p' hp', fun x hxs => ?_⟩
    obtain ⟨pc, hpc, rfl⟩ := List.mem_map.mp hxs
    intro id hid
    exact hi.apart pid q p p' (Ne.symm hq) hp hp' id ((hx pc hpc).2 id hid)

/-- The mover answers, after entries of its own. -/
theorem respects_end (hi : LedgerInv s) (hp : s.procs.get pid = some p) {id : ℕ}
    (hid : p.pc.requestId = some id) (hgrow : GrowsBy id s.world w) (hw : LedgerHolds w) :
    Respects LedgerHolds LedgerHere LedgerApart s pid w [] where
  world := hw
  here _ h := by cases h
  apart := .nil
  others q p' hq hp' := by
    refine ⟨(hi.here q p' hp').grow hgrow ?_, fun _ h => by cases h⟩
    exact hi.apart pid q p p' (Ne.symm hq) hp hp' id hid

theorem ledger_error (hi : LedgerInv s) (hp : s.procs.get pid = some p) {id : ℕ}
    (hid : p.pc.requestId = some id) (hcopy : copying p.point = none)
    (hrepl : hasReplaced p.point = none) :
    Respects LedgerHolds LedgerHere LedgerApart s pid (s.world.record (.answered id false)) [] := by
  have hx := hi.here pid p hp
  apply respects_end hi hp hid (growsBy_record _ rfl)
  exact hi.world.record (hx.known id hid) ⟨hx.untouched id hid hcopy hrepl, hx.unloaded id hid⟩

/-- From one point of a request to the next, before it has committed. -/
theorem LedgerHere.onward {pc' : Pc Text} (h : LedgerHere w x)
    (hid : pc'.requestId = x.1.requestId) (hrecalls : pc'.Recalls w.history)
    (hrepl : hasReplaced x = none)
    (hcopy : copying ((pc', none) : Point (Pc Text) (Ans Text)) = none → copying x = none) :
    LedgerHere w (pc', none) := by
  refine ⟨hrecalls, fun i hi => h.known i (hid.symm.trans hi),
    fun i hi => h.unanswered i (hid.symm.trans hi), fun i hi => h.unloaded i (hid.symm.trans hi),
    fun i hi hc _ => h.untouched i (hid.symm.trans hi) (hcopy hc) hrepl,
    fun i hi _ => h.uncommitted i (hid.symm.trans hi) hrepl, fun i v _ hv => ?_,
    fun i f fd t hx => (by cases hx), fun i t fd a hx => (by cases hx)⟩
  cases pc' <;> cases hv

/-- The world after the reload that finds a whole file of this configuration. -/
def reloaded (w : World Text) (id : ℕ) (config : Json) : World Text :=
  ({ w with loadedConfig := config }.record (.loaded id)).record (.answered id true)

/-- The reload of a request that has replaced a file which is whole and loads. -/
theorem LedgerInv.reload_eq (hi : LedgerInv s) (hp : s.procs.get pid = some p) {id : ℕ}
    {view : Option ℕ} (hid : p.pc.requestId = some id) (hrepl : hasReplaced p.point = some view)
    (hfiles : FilesHold y text₀ s.world) {f : File Text} (hf : s.world.configFile = some f)
    (hwhole : f.whole = true) :
    ∃ config, loadConfig y f.text = some config ∧
      (reload y s.world id view).1 = reloaded s.world id config := by
  obtain ⟨hview, -⟩ := (hi.here pid p hp).replaced id view hid hrepl
  obtain ⟨n, rfl⟩ := Option.isSome_iff_exists.mp hview
  obtain ⟨config, hconfig⟩ := Option.isSome_iff_exists.mp (hfiles.text_eq hf hwhole).2
  have hsees : World.seen y f n = f.text := by rw [World.seen, if_pos hwhole]
  refine ⟨config, hconfig, ?_⟩
  rw [reload, Option.bind_some, hf, Option.bind_some, hsees, hconfig]
  rfl

theorem ledger_reload (hi : LedgerInv s) (hp : s.procs.get pid = some p) {id : ℕ}
    {view : Option ℕ} (hid : p.pc.requestId = some id) (hrepl : hasReplaced p.point = some view)
    (hfiles : FilesHold y text₀ s.world) {f : File Text} (hf : s.world.configFile = some f)
    (hwhole : f.whole = true) :
    Respects LedgerHolds LedgerHere LedgerApart s pid (reload y s.world id view).1 [] := by
  obtain ⟨config, -, heq⟩ := hi.reload_eq hp hid hrepl hfiles hf hwhole
  rw [heq]
  have hx := hi.here pid p hp
  obtain ⟨-, c, hc⟩ := hx.replaced id view hid hrepl
  let w₀ : World Text := { s.world with loadedConfig := config }
  let w₁ := w₀.record (.loaded id)
  have hknown := hx.known id hid
  have hw₀ : LedgerHolds w₀ := hi.world.of_eq rfl le_rfl
  have hw₁ : LedgerHolds w₁ := hw₀.record hknown (hx.unanswered id hid false)
  have hgrow : GrowsBy id s.world (w₁.record (.answered id true)) :=
    ((growsBy_of_eq rfl rfl : GrowsBy id s.world w₀).trans (growsBy_record w₀ rfl)).trans
      (growsBy_record w₁ rfl)
  apply respects_end hi hp hid hgrow
  exact hw₁.record hknown
    ⟨not_mem_record (by simp) (hx.unanswered id hid true), c, List.mem_cons_of_mem _ hc⟩

theorem ledger_resume {r : Reply (Ans Text)} {nx : Next (Pc Text)} (hi : LedgerInv s)
    (hok : LedgerStep y text₀ s (.resume pid)) (hp : s.procs.get pid = some p)
    (hphase : p.phase = .ready r) (h : resume y s.world p.pc r = (w, nx)) :
    Respects LedgerHolds LedgerHere LedgerApart s pid w (nx.points.map (·, none)) := by
  obtain ⟨pc, phase, caller⟩ := p
  cases hphase
  have hx : LedgerHere s.world (pc, (Phase.ready r).seen) := hi.here pid _ hp
  have hreload : ∀ id view, pc.requestId = some id →
      hasReplaced (pc, (Phase.ready r).seen) = some view → (w, nx) = reload y s.world id view →
      Respects LedgerHolds LedgerHere LedgerApart s pid w (nx.points.map (·, none)) := by
    intro id view hid hrepl heq
    have hwhole : ∃ f ∈ s.world.configFile, f.whole = true :=
      hok.orderly _ hp (by rw [Activation.point, hrepl]; rfl)
    obtain ⟨f, hf, hwhole⟩ := hwhole
    have hpoints : nx.points = [] := by
      rw [show nx = (reload y s.world id view).2 from congrArg Prod.snd heq, points_reload]
    rw [hpoints, show w = (reload y s.world id view).1 from congrArg Prod.fst heq]
    exact ledger_reload hi hp hid hrepl hok.files.world hf hwhole
  have hone : ∀ pc', pc'.requestId = pc.requestId → pc'.Recalls s.world.history →
      hasReplaced (pc, (Phase.ready r).seen) = none →
      (copying ((pc', none) : Point (Pc Text) (Ans Text)) = none →
        copying (pc, (Phase.ready r).seen) = none) →
      Respects LedgerHolds LedgerHere LedgerApart s pid s.world [(pc', none)] := by
    intro pc' hid hrecalls hrepl hcopy
    apply @respects_onward Text s pid _ hi hp (.await pc')
    · intro x hxs
      rw [List.mem_singleton.mp hxs]
      exact ⟨hx.onward hid hrecalls hrepl hcopy, fun id h => hid.symm.trans h⟩
    · exact List.pairwise_singleton _ _
  have hnone : Respects LedgerHolds LedgerHere LedgerApart s pid s.world [] :=
    @respects_onward Text s pid _ hi hp (.finish false) (fun _ h => by cases h) .nil
  cases pc with
  | mkdir =>
    cases r with
    | answer a =>
      cases h
      have hplain : hasReplaced (.mkdir, (Phase.ready (.answer a)).seen) = none := by
        cases a <;> rfl
      have hidle : copying (.mkdir, (Phase.ready (.answer a)).seen) = none := by
        cases a <;> rfl
      exact hone (.backupOpen (backupName s.world.clock)) rfl trivial hplain fun _ => hidle
    | returned | failed =>
      cases h
      exact hnone
  | backupOpen name =>
    cases r with
    | answer a =>
      cases a with
      | text t =>
        cases h
        exact hone (.backupWrite name t) rfl trivial rfl fun _ => rfl
      | done | opened | replaced | ioError =>
        cases h
        exact hnone
    | returned | failed =>
      cases h
      exact hnone
  | backupWrite name text =>
    cases r <;> cases h <;> exact hnone
  | backedUp id newSettings =>
    have hmove : (w, nx) = (s.world, .await (.readConfig id newSettings)) := by
      rw [← h]
      cases r <;> rfl
    cases hmove
    apply hone (.readConfig id newSettings) rfl hx.recalls
    · cases r with
      | answer a => cases a <;> rfl
      | returned | failed => rfl
    · intro _
      cases r with
      | answer a => cases a <;> rfl
      | returned | failed => rfl
  | readConfig id newSettings =>
    cases r with
    | answer a =>
      cases a with
      | text read =>
        simp only [resume] at h
        cases htext : updatedText y read newSettings with
        | some text =>
          rw [htext] at h
          cases h
          exact hone (.openTemp id newSettings read text) rfl hx.recalls rfl fun _ => rfl
        | none =>
          rw [htext] at h
          cases h
          exact ledger_error hi hp rfl rfl rfl
      | done | opened | replaced | ioError =>
        cases h
        exact ledger_error hi hp rfl rfl rfl
    | returned | failed =>
      cases h
      exact ledger_error hi hp rfl rfl rfl
  | openTemp id newSettings read text =>
    cases r with
    | answer a =>
      cases a with
      | opened fd t =>
        cases h
        exact hone (.writeTemp id newSettings read text fd) rfl hx.recalls rfl fun _ => rfl
      | done | text | replaced | ioError =>
        cases h
        exact ledger_error hi hp rfl rfl rfl
    | returned | failed =>
      cases h
      exact ledger_error hi hp rfl rfl rfl
  | writeTemp id newSettings read text fd =>
    cases r with
    | answer a =>
      cases a with
      | done =>
        cases h
        exact hone (.renameTemp id newSettings read text) rfl hx.recalls rfl fun _ => rfl
      | opened | text | replaced | ioError =>
        cases h
        exact ledger_error hi hp rfl rfl rfl
    | returned | failed =>
      cases h
      exact ledger_error hi hp rfl rfl rfl
  | renameTemp id newSettings read text =>
    cases r with
    | answer a =>
      cases a with
      | replaced view => exact hreload id view rfl rfl h.symm
      | done | opened | text | ioError =>
        cases h
        exact ledger_error hi hp rfl rfl rfl
    | returned | failed =>
      cases h
      exact ledger_error hi hp rfl rfl rfl
  | access id filename =>
    cases r with
    | answer a =>
      cases h
      apply @respects_onward Text s pid _ hi hp (.call [.mkdir] (.restoring id filename))
      · intro x hxs
        have hmem : x = .restoring id filename ∨ x = .mkdir := by
          simpa [Next.points] using hxs
        rcases hmem with rfl | rfl
        · have hrecalls : Pc.Recalls s.world.history (.restoring id filename) := hx.recalls
          have hrest : LedgerHere s.world (.restoring id filename, none) := by
            apply @LedgerHere.onward Text _ _ (.restoring id filename) hx rfl hrecalls
            · cases a <;> rfl
            · intro _
              cases a <;> rfl
          exact ⟨hrest, fun _ h => h⟩
        · refine ⟨ledgerHere_backup rfl trivial, fun i h => ?_⟩
          cases h
      · exact List.pairwise_pair.mpr (.inr rfl)
    | returned | failed =>
      cases h
      exact ledger_error hi hp rfl rfl rfl
  | restoring id filename =>
    have hmove : (w, nx) = (s.world, .await (.openCopy id filename)) := by
      rw [← h]
      cases r <;> rfl
    cases hmove
    apply hone (.openCopy id filename) rfl hx.recalls
    · cases r with
      | answer a => cases a <;> rfl
      | returned | failed => rfl
    · intro _
      cases r with
      | answer a => cases a <;> rfl
      | returned | failed => rfl
  | openCopy id filename =>
    cases r with
    | answer a =>
      cases a with
      | opened fd t =>
        cases h
        have hopened : .opened id filename t ∈ s.world.history := hx.opened id filename fd t rfl
        exact hone (.writeCopy id t fd) rfl ⟨filename, hx.recalls, hopened⟩ rfl
          fun hcopy => by cases hcopy
      | done | text | replaced | ioError =>
        cases h
        exact ledger_error hi hp rfl rfl rfl
    | returned | failed =>
      cases h
      exact ledger_error hi hp rfl rfl rfl
  | writeCopy id text fd =>
    cases r with
    | answer a =>
      obtain ⟨view, rfl⟩ := hx.intact id text fd a rfl
      exact hreload id view rfl rfl h.symm
    | returned | failed =>
      rcases hok.answering pid _ hp ⟨id, text, fd, rfl⟩ with hwait | ⟨a, hready⟩
      · cases hwait
      · cases hready

/-- The world after the arrival of a request. -/
def began (w : World Text) (r : Request) : World Text :=
  { w with nextRequest := w.nextRequest + 1 }.record (.began w.nextRequest r)

theorem growsBy_began (w : World Text) (r : Request) : GrowsBy w.nextRequest w (began w r) := by
  refine ⟨fun e he => List.mem_cons_of_mem _ he, fun e he => ?_, Nat.le_succ _⟩
  rcases List.mem_cons.mp he with rfl | hold
  · exact .inr rfl
  · exact .inl hold

theorem ledgerHolds_began (hw : LedgerHolds w) (r : Request) : LedgerHolds (began w r) := by
  let w₀ : World Text := { w with nextRequest := w.nextRequest + 1 }
  have hw₀ : LedgerHolds w₀ := hw.of_eq rfl (Nat.le_succ _)
  exact @LedgerHolds.record Text w₀ (.began w.nextRequest r) hw₀ (Nat.lt_succ_self w.nextRequest)
    trivial

/-- Nothing is known of the next request. -/
theorem LedgerHolds.unknown (hw : LedgerHolds w) {e : Event Text}
    (he : e.requestId = w.nextRequest) : e ∉ w.history := by
  intro hmem
  exact (he ▸ hw.known e hmem).false

theorem fresh_began (hw : LedgerHolds w) (r : Request) (e : Event Text)
    (he : e ∈ (began w r).history) (hid : e.requestId = w.nextRequest) :
    ∃ r, e = .began w.nextRequest r := by
  rcases List.mem_cons.mp he with rfl | hold
  · exact ⟨r, rfl⟩
  · exact absurd hold (hw.unknown hid)

/-- Those already running do not concern a new request. -/
theorem LedgerInv.elsewhere (hi : LedgerInv s) {q : ℕ} {p' : Activation (Pc Text) (Ans Text)}
    (hp' : s.procs.get q = some p') : p'.point.1.requestId ≠ some s.world.nextRequest :=
  fun h => ((hi.here q p' hp').known _ h).false

/-- A request arrives, and goes on to points of its own and of createBackup. -/
theorem respects_began (hi : LedgerInv s) (r : Request) {pcs : List (Pc Text)}
    (hpcs : ∀ pc ∈ pcs, (pc.requestId = none ∨ pc.requestId = some s.world.nextRequest ∧
      copying ((pc, none) : Point (Pc Text) (Ans Text)) = none) ∧
      pc.Recalls (began s.world r).history)
    (hpairwise : pcs.Pairwise fun pc pc' => pc.requestId = none ∨ pc'.requestId = none) :
    Respects LedgerHolds LedgerHere LedgerApart s s.next (began s.world r)
      (pcs.map (·, none)) where
  world := ledgerHolds_began hi.world r
  here := by
    intro x hx
    obtain ⟨pc, hpc, rfl⟩ := List.mem_map.mp hx
    obtain ⟨hnone | ⟨hid, hcopy⟩, hrecalls⟩ := hpcs pc hpc
    · exact ledgerHere_backup hnone hrecalls
    · have hrepl : hasReplaced ((pc, none) : Point (Pc Text) (Ans Text)) = none := by
        cases pc <;> rfl
      exact ledgerHere_early hid hrecalls (Nat.lt_succ_self _) (fresh_began hi.world r)
        (by simp) (by simp) hrepl
  apart := by
    refine List.pairwise_map.mpr (hpairwise.imp ?_)
    rintro a b (hnone | hnone) id ha hb
    · cases hnone.symm.trans ha
    · cases hnone.symm.trans hb
  others q p' _ hp' := by
    refine ⟨(hi.here q p' hp').grow (growsBy_began s.world r) (hi.elsewhere hp'), ?_⟩
    intro x hx id hid hother
    obtain ⟨pc, hpc, rfl⟩ := List.mem_map.mp hx
    obtain ⟨hnone | ⟨hnew, -⟩, -⟩ := hpcs pc hpc
    · cases hnone.symm.trans hid
    · cases hnew.symm.trans hid
      exact hi.elsewhere hp' hother

/-- A restore whose file name climbs is answered at once. -/
theorem ledger_refused (hi : LedgerInv s) (r : Request) :
    Respects LedgerHolds LedgerHere LedgerApart s s.next
      ((began s.world r).record (.answered s.world.nextRequest false)) [] where
  world := by
    have hknown : s.world.nextRequest < (began s.world r).nextRequest := Nat.lt_succ_self _
    have hreplaced : .replaced s.world.nextRequest ∉ (began s.world r).history :=
      not_mem_record (by simp) (hi.world.unknown rfl)
    have hloaded : .loaded s.world.nextRequest ∉ (began s.world r).history :=
      not_mem_record (by simp) (hi.world.unknown rfl)
    exact (ledgerHolds_began hi.world r).record hknown ⟨hreplaced, hloaded⟩
  here _ h := by cases h
  apart := .nil
  others q p' _ hp' := by
    refine ⟨(hi.here q p' hp').grow ?_ (hi.elsewhere hp'), fun _ h => by cases h⟩
    exact (growsBy_began s.world r).trans (growsBy_record _ rfl)

theorem ledger_enter {e : Entry} {nx : Next (Pc Text)} (hi : LedgerInv s)
    (h : enter s.world e = some (w, nx)) :
    Respects LedgerHolds LedgerHere LedgerApart s s.next w (nx.points.map (·, none)) := by
  cases e with
  | elapse ms =>
    cases h
    refine ⟨hi.world.of_eq rfl le_rfl, fun _ h => (by cases h), .nil, fun q p' hq hp' => ?_⟩
    exact ⟨(hi.here q p' hp').of_eq rfl rfl, fun _ h => by cases h⟩
  | request r =>
    cases r with
    | update newSettings =>
      cases h
      apply respects_began hi (.update newSettings)
      · intro pc hpc
        obtain rfl | rfl : pc = .backedUp s.world.nextRequest newSettings ∨ pc = .mkdir := by
          simpa [Next.points] using hpc
        · exact ⟨.inr ⟨rfl, rfl⟩, List.mem_cons_self⟩
        · exact ⟨.inl rfl, trivial⟩
      · exact List.pairwise_pair.mpr (.inr rfl)
    | restore filename =>
      simp only [enter] at h
      by_cases hclimbs : climbs filename = true
      · rw [if_pos hclimbs] at h
        cases h
        exact ledger_refused hi (.restore filename)
      · rw [if_neg hclimbs] at h
        cases h
        apply respects_began hi (.restore filename)
        · intro pc hpc
          obtain rfl : pc = .access s.world.nextRequest filename := by
            simpa [Next.points] using hpc
          exact ⟨.inr ⟨rfl, rfl⟩, List.mem_cons_self⟩
        · exact List.pairwise_singleton _ _

theorem ledger_coherent (y : Yaml Text) (text₀ : Text) :
    Coherent (program y) (LedgerStep y text₀) LedgerHolds LedgerHere LedgerApart where
  symm := ledgerApart_symm
  serve _ _ _ _ _ _ hi hp hseen hok h := ledger_serve hi hok hp hseen h
  resume _ _ _ _ _ _ hi hp hphase hok h := ledger_resume hi hok hp hphase h
  enter _ _ _ _ hi _ h := ledger_enter hi h

/-- Only the backup before a restore is awaited as a function. -/
theorem call_resume {pc pc' : Pc Text} {r : Reply (Ans Text)} {cs : List (Pc Text)}
    (h : (resume y w pc r).2 = .call cs pc') : ∃ id filename, pc' = .restoring id filename := by
  unfold resume at h
  split at h
  case h_7 => split at h <;> cases h
  case h_11 id filename _ =>
    cases h
    exact ⟨id, filename, rfl⟩
  case h_10 | h_14 =>
    unfold reload at h
    split at h <;> cases h
  all_goals cases h

theorem call_enter {e : Entry} {pc' : Pc Text} {cs : List (Pc Text)}
    (h : enter w e = some (w', .call cs pc')) :
    ∃ id newSettings, pc' = .backedUp id newSettings := by
  unfold enter at h
  split at h
  · split at h
    · cases h
      exact ⟨_, _, rfl⟩
    · split at h <;> cases h
  · cases h

/-- The copy over the configuration always answers. -/
theorem answering_step {s t : SState Text} {l : SLabel}
    (h : Answering (fun pc => ∃ id text fd, pc = .writeCopy id text fd) s.procs)
    (hst : step (program y) s l = some t) :
    Answering (fun pc => ∃ id text fd, pc = .writeCopy id text fd) t.procs := by
  apply h.step _ _ _ hst
  · rintro _ ⟨id, text, fd, rfl⟩
    rfl
  · rintro w pc r cs pc' hnx ⟨id, text, fd, rfl⟩
    obtain ⟨id', filename, heq⟩ := call_resume hnx
    cases heq
  · rintro w e ⟨w', nx⟩ cs pc' hent hnx ⟨id, text, fd, rfl⟩
    have hcall : enter w e = some (w', .call cs (.writeCopy id text fd)) :=
      hent.trans (congrArg (fun nx => some (w', nx)) hnx)
    obtain ⟨id', newSettings, heq⟩ := call_enter hcall
    cases heq

end Steps

end ZoneweaverAgent.Settings
