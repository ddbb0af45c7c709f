import ZoneweaverAgent.SettingsFiles

/-!
# Orderly settings changes

In a run whose steps are `Orderly` (nobody writes the temporary file of another update, nothing has
replaced the configuration since an update read it, restores copy one at a time, and the copies and
the reloads get through) the configuration file is the fold of the commits over the first text.
-/

namespace ZoneweaverAgent.Settings
open EventLoop

section Points
variable {Text : Type}

/-- The state of the temporary file as the activation that owns it has left it. -/
def tempFile : Point (Pc Text) (Ans Text) → Option (File Text)
  | (.openTemp _ _ _ text, some (.opened _ _)) => some ⟨text, false⟩
  | (.writeTemp _ _ _ text _, none) => some ⟨text, false⟩
  | (.writeTemp _ _ _ text _, some .done) => some ⟨text, true⟩
  | (.renameTemp _ _ _ text, none) => some ⟨text, true⟩
  | _ => none

/-- The text that is being copied over the configuration file. -/
def copying : Point (Pc Text) (Ans Text) → Option Text
  | (.openCopy _ _, some (.opened _ text)) => some text
  | (.writeCopy _ text _, none) => some text
  | _ => none

/-- The file an activation has open for writing. -/
def openFile : Point (Pc Text) (Ans Text) → Option ℕ
  | (.openTemp _ _ _ _, some (.opened fd _)) => some fd
  | (.writeTemp _ _ _ _ fd, _) => some fd
  | (.openCopy _ _, some (.opened fd _)) => some fd
  | (.writeCopy _ _ fd, _) => some fd
  | _ => none

/-- An update's settings, the text it has read and the text it writes. -/
def Pc.plan : Pc Text → Option (Json × Text × Text)
  | .openTemp _ newSettings read text | .writeTemp _ newSettings read text _
  | .renameTemp _ newSettings read text => some (newSettings, read, text)
  | _ => none

/-- The activation has replaced the file and is about to reload. -/
def hasReplaced : Point (Pc Text) (Ans Text) → Option (Option ℕ)
  | (.renameTemp _ _ _ _, some (.replaced view)) => some view
  | (.writeCopy _ _ _, some (.replaced view)) => some view
  | _ => none

end Points

section Conditions
variable {Text : Type} (y : Yaml Text)

def Choice.reloads : Choice → Bool
  | .reload view => view.isSome
  | _ => false

/-- What the serving of a call finds when nothing interferes, and that copy and reload get through. -/
def OrderlyCall (s : SState Text) (choice : Choice) : Pc Text → Prop
  | .openTemp _ _ _ _ => ∀ e ∈ s.procs, tempFile e.2.point = none
  | .renameTemp _ _ read _ => s.world.configFile = some ⟨read, true⟩ ∧ choice.reloads = true
  | .openCopy _ filename => (∀ e ∈ s.procs, copying e.2.point = none) ∧
    ∀ f ∈ s.world.backups.get filename, f.whole = true ∧ (loadConfig y f.text).isSome = true
  | .writeCopy _ _ _ => choice.reloads = true
  | _ => True

/-- The condition on one step; whoever reloads finds a whole file. -/
def Orderly (s : SState Text) : SLabel → Prop
  | .serve pid choice => ∀ p ∈ s.procs.get pid, OrderlyCall y s choice p.pc
  | .resume pid => ∀ p ∈ s.procs.get pid, (hasReplaced p.point).isSome = true →
    ∃ f ∈ s.world.configFile, f.whole = true
  | _ => True

instance [DecidableEq Text] (s : SState Text) (choice : Choice) :
    (pc : Pc Text) → Decidable (OrderlyCall y s choice pc)
  | .openTemp _ _ _ _ => inferInstanceAs (Decidable (∀ e ∈ s.procs, tempFile e.2.point = none))
  | .renameTemp _ _ read _ => inferInstanceAs
    (Decidable (s.world.configFile = some ⟨read, true⟩ ∧ choice.reloads = true))
  | .openCopy _ filename => inferInstanceAs
    (Decidable ((∀ e ∈ s.procs, copying e.2.point = none) ∧
      ∀ f ∈ s.world.backups.get filename, f.whole = true ∧ (loadConfig y f.text).isSome = true))
  | .writeCopy _ _ _ => inferInstanceAs (Decidable (choice.reloads = true))
  | .mkdir | .backupOpen _ | .backupWrite _ _ | .backedUp _ _ | .readConfig _ _
  | .writeTemp _ _ _ _ _ | .access _ _ | .restoring _ _ => inferInstanceAs (Decidable True)

instance [DecidableEq Text] (s : SState Text) : (l : SLabel) → Decidable (Orderly y s l)
  | .serve pid choice => inferInstanceAs
    (Decidable (∀ p ∈ s.procs.get pid, OrderlyCall y s choice p.pc))
  | .resume pid => inferInstanceAs
    (Decidable (∀ p ∈ s.procs.get pid, (hasReplaced p.point).isSome = true →
      ∃ f ∈ s.world.configFile, f.whole = true))
  | .enter _ | .fail _ => inferInstanceAs (Decidable True)

end Conditions

section Properties
variable {Text : Type} (y : Yaml Text)

namespace World

def commits (w : World Text) : List (ℕ × Commit Text) :=
  w.history.reverse.filterMap fun
    | .committed id commit => some (id, commit)
    | _ => none

def successes (w : World Text) : List ℕ :=
  w.history.reverse.filterMap fun
    | .answered id true => some id
    | _ => none

end World

def Commit.apply : Commit Text → Text → Text
  | .merge newSettings, text => (updatedText y text newSettings).getD text
  | .copy text, _ => text

def applyAll (commits : List (ℕ × Commit Text)) (text : Text) : Text :=
  commits.foldl (fun t e => e.2.apply y t) text

/-- The commit is what the request asks for; a restore's text is the one it found in its backup. -/
def Matches (history : List (Event Text)) (id : ℕ) : Commit Text → Prop
  | .merge newSettings => .began id (.update newSettings) ∈ history
  | .copy text => ∃ filename, .began id (.restore filename) ∈ history ∧
      .opened id filename text ∈ history

/-- The configuration file is a complete document. -/
def Complete (w : World Text) : Prop :=
  ∃ f, w.configFile = some f ∧ f.whole = true ∧ (y.load f.text).isSome = true

/-- A request that answers an error has touched neither the file nor the loaded configuration. -/
def ErrorsHarmless (w : World Text) : Prop :=
  ∀ id, .answered id false ∈ w.history → .replaced id ∉ w.history ∧ .loaded id ∉ w.history

/-- The file is the result of the successful requests in some sequential order. -/
def Serial (text₀ : Text) (w : World Text) : Prop :=
  ∃ order : List (ℕ × Commit Text), (order.map Prod.fst).Perm w.successes ∧
    (∀ e ∈ order, Matches w.history e.1 e.2) ∧
    ∃ f, w.configFile = some f ∧ f.whole = true ∧ f.text = applyAll y order text₀

/-- The loaded configuration is that of the file. -/
def Reloaded (w : World Text) : Prop :=
  ∃ f, w.configFile = some f ∧ f.whole = true ∧ loadConfig y f.text = some w.loadedConfig

/-- Nothing has been lost: errors do no harm, and when no request is in progress the file is that of
some sequential order and the loaded configuration is that of the file. -/
structure NoneLost (text₀ : Text) (s : SState Text) : Prop where
  errors : ErrorsHarmless s.world
  serial : Quiescent s → Serial y text₀ s.world
  reloaded : Quiescent s → Reloaded y s.world

end Properties

/-! ## The files -/

section Files
variable {Text : Type} (y : Yaml Text) (text₀ : Text)

structure FilesHold (w : World Text) : Prop where
  config : ∃ c f, w.config = some c ∧ w.inodes.get c = some f ∧
    (f.whole = true → f.text = applyAll y w.commits text₀ ∧ (loadConfig y f.text).isSome = true)
  apart : ∀ i, w.temp = some i → w.config ≠ some i
  known : ∀ i f, w.inodes.get i = some f → i < w.nextInode
  named : ∀ i, w.temp = some i → ∃ f, w.inodes.get i = some f
  torn : ∀ f, w.configFile = some f → f.whole = false →
    ∃ id filename text, .opened id filename text ∈ w.history

structure FilesHere (w : World Text) (x : Point (Pc Text) (Ans Text)) : Prop where
  temp : ∀ f, tempFile x = some f → ∃ i, w.temp = some i ∧ w.inodes.get i = some f ∧
    ∀ fd, openFile x = some fd → fd = i
  copy : ∀ text, copying x = some text → ∃ c, w.config = some c ∧
    w.inodes.get c = some ⟨text, false⟩ ∧ openFile x = some c ∧
      (loadConfig y text).isSome = true
  plan : ∀ newSettings read text, x.1.plan = some (newSettings, read, text) →
    updatedText y read newSettings = some text

/-- No two activations own the temporary file, and no two copy. -/
def FilesApart (x x' : Point (Pc Text) (Ans Text)) : Prop :=
  (tempFile x = none ∨ tempFile x' = none) ∧ (copying x = none ∨ copying x' = none)

variable {y text₀} {w w' : World Text} {x : Point (Pc Text) (Ans Text)}

theorem filesApart_symm (x x' : Point (Pc Text) (Ans Text)) (h : FilesApart x x') :
    FilesApart x' x := ⟨h.1.symm, h.2.symm⟩

/-- What an owner relies on is kept if its file is. -/
theorem FilesHere.keep (h : FilesHere y w x)
    (htemp : tempFile x ≠ none → w'.temp = w.temp ∧
      ∀ i, w.temp = some i → w'.inodes.get i = w.inodes.get i)
    (hcopy : copying x ≠ none → w'.config = w.config ∧
      ∀ i, w.config = some i → w'.inodes.get i = w.inodes.get i) : FilesHere y w' x where
  temp f hf := by
    obtain ⟨i, hi, hget, hfd⟩ := h.temp f hf
    obtain ⟨hname, hfile⟩ := htemp (by rw [hf]; simp)
    exact ⟨i, hname.trans hi, (hfile i hi).trans hget, hfd⟩
  copy text ht := by
    obtain ⟨c, hc, hget, hrest⟩ := h.copy text ht
    obtain ⟨hname, hfile⟩ := hcopy (by rw [ht]; simp)
    exact ⟨c, hname.trans hc, (hfile c hc).trans hget, hrest⟩
  plan := h.plan

/-- The worlds differ in the backups, the clock, the loaded configuration and such entries of the
history as are no commits. -/
structure SameFiles (w w' : World Text) : Prop where
  inodes : w'.inodes = w.inodes
  nextInode : w'.nextInode = w.nextInode
  config : w'.config = w.config
  temp : w'.temp = w.temp
  commits : w'.commits = w.commits
  history : ∀ e ∈ w.history, e ∈ w'.history

theorem SameFiles.configFile (h : SameFiles w w') : w'.configFile = w.configFile := by
  rw [World.configFile, World.configFile, h.config, h.inodes]

theorem SameFiles.hold (h : SameFiles w w') (hw : FilesHold y text₀ w) : FilesHold y text₀ w' where
  config := by
    rw [h.config, h.inodes, h.commits]
    exact hw.config
  apart := by
    rw [h.config, h.temp]
    exact hw.apart
  known := by
    rw [h.inodes, h.nextInode]
    exact hw.known
  named := by
    rw [h.inodes, h.temp]
    exact hw.named
  torn := by
    intro f hf hwhole
    rw [h.configFile] at hf
    obtain ⟨id, filename, text, hmem⟩ := hw.torn f hf hwhole
    exact ⟨id, filename, text, h.history _ hmem⟩

theorem SameFiles.here (h : SameFiles w w') (hx : FilesHere y w x) : FilesHere y w' x :=
  hx.keep (fun _ => ⟨h.temp, fun _ _ => by rw [h.inodes]⟩)
    (fun _ => ⟨h.config, fun _ _ => by rw [h.inodes]⟩)

def Event.commits : Event Text → List (ℕ × Commit Text)
  | .committed id commit => [(id, commit)]
  | _ => []

theorem commits_record (w : World Text) (e : Event Text) :
    (w.record e).commits = w.commits ++ e.commits := by
  simp only [World.commits, World.record, List.reverse_cons, List.filterMap_append]
  cases e <;> rfl

theorem sameFiles_record (w : World Text) {e : Event Text} (h : e.commits = []) :
    SameFiles w (w.record e) := by
  refine ⟨rfl, rfl, rfl, rfl, ?_, fun _ => List.mem_cons_of_mem e⟩
  rw [commits_record, h, List.append_nil]

theorem SameFiles.refl (w : World Text) : SameFiles w w := ⟨rfl, rfl, rfl, rfl, rfl, fun _ => id⟩

theorem SameFiles.trans {w₁ w₂ w₃ : World Text} (h : SameFiles w₁ w₂) (h' : SameFiles w₂ w₃) :
    SameFiles w₁ w₃ :=
  ⟨h'.inodes.trans h.inodes, h'.nextInode.trans h.nextInode, h'.config.trans h.config,
    h'.temp.trans h.temp, h'.commits.trans h.commits, fun e he => h'.history e (h.history e he)⟩

/-- The temporary name has the inode `i` with the content `f`; the configuration is another file. -/
structure TempSet (w w' : World Text) (i : ℕ) (f : File Text) : Prop where
  config : w'.config = w.config
  temp : w'.temp = some i
  apart : w.config ≠ some i
  get : ∀ j, w'.inodes.get j = if i = j then some f else w.inodes.get j
  lt : i < w'.nextInode
  next : w.nextInode ≤ w'.nextInode
  history : w'.history = w.history

theorem TempSet.get_of_config {i c : ℕ} {f : File Text} (h : TempSet w w' i f)
    (hc : w.config = some c) : w'.inodes.get c = w.inodes.get c := by
  have hne : i ≠ c := by
    rintro rfl
    exact h.apart hc
  rw [h.get, if_neg hne]

theorem TempSet.hold {i : ℕ} {f : File Text} (h : TempSet w w' i f) (hw : FilesHold y text₀ w) :
    FilesHold y text₀ w' where
  config := by
    obtain ⟨c, g, hc, hg, hwhole⟩ := hw.config
    refine ⟨c, g, h.config.trans hc, (h.get_of_config hc).trans hg, ?_⟩
    rwa [World.commits, h.history]
  apart j hj := by
    cases h.temp.symm.trans hj
    rw [h.config]
    exact h.apart
  known j g hg := by
    rw [h.get] at hg
    split_ifs at hg with hij
    · exact hij ▸ h.lt
    · exact (hw.known j g hg).trans_le h.next
  named j hj := by
    cases h.temp.symm.trans hj
    exact ⟨f, by rw [h.get, if_pos rfl]⟩
  torn g hg hwhole := by
    obtain ⟨c, g', hc, -, -⟩ := hw.config
    have hconfig : w'.configFile = w.configFile := by
      simp only [World.configFile, h.config, hc, Option.bind_some, h.get_of_config hc]
    rw [h.history]
    exact hw.torn g (hconfig ▸ hg) hwhole

/-- Only the owner of the temporary file feels a change of it. -/
theorem TempSet.here {i : ℕ} {f : File Text} (h : TempSet w w' i f) (hx : FilesHere y w x)
    (hnone : tempFile x = none) : FilesHere y w' x :=
  hx.keep (fun hne => absurd hnone hne) fun _ => ⟨h.config, fun _ hc => h.get_of_config hc⟩

/-- The configuration name has the inode `c` with the content `f`. -/
structure ConfigSet (w w' : World Text) (c : ℕ) (f : File Text) : Prop where
  config : w'.config = some c
  apart : w.temp ≠ some c
  temp : w'.temp = w.temp
  get : ∀ j, w'.inodes.get j = if c = j then some f else w.inodes.get j
  lt : c < w'.nextInode
  next : w.nextInode ≤ w'.nextInode

theorem ConfigSet.get_of_temp {c i : ℕ} {f : File Text} (h : ConfigSet w w' c f)
    (hi : w.temp = some i) : w'.inodes.get i = w.inodes.get i := by
  have hne : c ≠ i := by
    rintro rfl
    exact h.apart hi
  rw [h.get, if_neg hne]

theorem ConfigSet.hold {c : ℕ} {f : File Text} (h : ConfigSet w w' c f)
    (hw : FilesHold y text₀ w)
    (hf : f.whole = true → f.text = applyAll y w'.commits text₀ ∧
      (loadConfig y f.text).isSome = true)
    (htorn : f.whole = false → ∃ id filename text, .opened id filename text ∈ w'.history) :
    FilesHold y text₀ w' where
  config := ⟨c, f, h.config, by rw [h.get, if_pos rfl], hf⟩
  apart i hi := by
    rw [h.temp] at hi
    rw [h.config]
    rintro ⟨⟩
    exact h.apart hi
  known j g hg := by
    rw [h.get] at hg
    split_ifs at hg with hcj
    · exact hcj ▸ h.lt
    · exact (hw.known j g hg).trans_le h.next
  named i hi := by
    rw [h.temp] at hi
    obtain ⟨g, hg⟩ := hw.named i hi
    exact ⟨g, (h.get_of_temp hi).trans hg⟩
  torn g hg hwhole := by
    rw [World.configFile, h.config, Option.bind_some, h.get, if_pos rfl] at hg
    cases hg
    exact htorn hwhole

theorem ConfigSet.here {c : ℕ} {f : File Text} (h : ConfigSet w w' c f) (hx : FilesHere y w x)
    (hnone : copying x = none) : FilesHere y w' x :=
  hx.keep (fun _ => ⟨h.temp, fun _ hi => h.get_of_temp hi⟩) fun hne => absurd hnone hne

/-! ### The operations -/

theorem tempSet_openTemp (hw : FilesHold y text₀ w) (text : Text) :
    TempSet w (w.openTemp text).1 (w.openTemp text).2 ⟨text, false⟩ := by
  obtain ⟨c, g, hc, hg, -⟩ := hw.config
  cases htemp : w.temp with
  | none =>
    simp only [World.openTemp, World.openInode, htemp]
    refine ⟨rfl, rfl, ?_, fun j => KeyedList.get_set _ _ _ _, Nat.lt_succ_self _, Nat.le_succ _, rfl⟩
    rw [hc]
    rintro ⟨⟩
    exact (hw.known _ g hg).false
  | some i =>
    obtain ⟨f, hf⟩ := hw.named i htemp
    simp only [World.openTemp, World.openInode, htemp]
    exact ⟨rfl, rfl, hw.apart i htemp, fun j => KeyedList.get_set _ _ _ _, hw.known i f hf, le_rfl,
      rfl⟩

theorem tempSet_write (hw : FilesHold y text₀ w) {i : ℕ} {f f' : File Text}
    (htemp : w.temp = some i) (hf : w.inodes.get i = some f) :
    TempSet w { w with inodes := w.inodes.set i f' } i f' :=
  ⟨rfl, htemp, hw.apart i htemp, fun j => KeyedList.get_set _ _ _ _, hw.known i f hf, le_rfl, rfl⟩

theorem configSet_openConfig (hw : FilesHold y text₀ w) (text : Text) :
    ConfigSet w (w.openConfig text).1 (w.openConfig text).2 ⟨text, false⟩ ∧
      (w.openConfig text).1.history = w.history := by
  obtain ⟨c, g, hc, hg, -⟩ := hw.config
  simp only [World.openConfig, World.openInode, hc]
  exact ⟨⟨rfl, fun htemp => hw.apart c htemp hc, rfl, fun j => KeyedList.get_set _ _ _ _,
    hw.known c g hg, le_rfl⟩, trivial⟩

theorem finishWrite_eq {fd : ℕ} {text : Text} {whole : Bool}
    (hf : w.inodes.get fd = some ⟨text, whole⟩) :
    w.finishWrite y fd text = { w with inodes := w.inodes.set fd ⟨text, true⟩ } := by
  simp only [World.finishWrite, hf, Option.elim_some, y.overlay_self]

theorem configSet_finish (hw : FilesHold y text₀ w) {c : ℕ} {text : Text} {whole : Bool}
    (hc : w.config = some c) (hf : w.inodes.get c = some ⟨text, whole⟩) :
    ConfigSet w (w.finishWrite y c text) c ⟨text, true⟩ := by
  rw [finishWrite_eq hf]
  exact ⟨hc, fun htemp => hw.apart c htemp hc, rfl, fun j => KeyedList.get_set _ _ _ _,
    hw.known c _ hf, le_rfl⟩

theorem applyAll_append (commits : List (ℕ × Commit Text)) (e : ℕ × Commit Text) (text : Text) :
    applyAll y (commits ++ [e]) text = e.2.apply y (applyAll y commits text) := by
  simp only [applyAll, List.foldl_append, List.foldl_cons, List.foldl_nil]

/-! ### The steps -/

variable {s : SState Text} {pid : ℕ} {p : Activation (Pc Text) (Ans Text)}

abbrev FilesInv (y : Yaml Text) (text₀ : Text) (s : SState Text) : Prop :=
  Inv (FilesHold y text₀) (FilesHere y) FilesApart s

theorem filesHere_plain (hx : tempFile x = none) (hcopy : copying x = none)
    (hplan : x.1.plan = none) : FilesHere y w x := by
  refine ⟨fun f hf => ?_, fun t ht => ?_, fun b r t ht => ?_⟩
  · cases hx.symm.trans hf
  · cases hcopy.symm.trans ht
  · cases hplan.symm.trans ht

/-- A move that leaves the files alone, to points that own none. -/
theorem respects_sameFiles (hi : FilesInv y text₀ s) (h : SameFiles s.world w)
    {xs : List (Point (Pc Text) (Ans Text))} (hhere : ∀ x ∈ xs, FilesHere y w x)
    (hxs : ∀ x ∈ xs, tempFile x = none ∧ copying x = none) :
    Respects (FilesHold y text₀) (FilesHere y) FilesApart s pid w xs where
  world := h.hold hi.world
  here := hhere
  apart := List.pairwise_of_forall_mem_list fun x hx x' _ => ⟨.inl (hxs x hx).1, .inl (hxs x hx).2⟩
  others q p hq hp :=
    ⟨h.here (hi.here q p hp), fun x hx => ⟨.inl (hxs x hx).1, .inl (hxs x hx).2⟩⟩

/-- The owner of the temporary file passes it on from one of its points to the next. -/
theorem respects_tempSet (hi : FilesInv y text₀ s) {i : ℕ} {f : File Text}
    (h : TempSet s.world w i f) (hx : FilesHere y w x) (hcopy : copying x = none)
    (hothers : ∀ q p, q ≠ pid → s.procs.get q = some p → tempFile p.point = none) :
    Respects (FilesHold y text₀) (FilesHere y) FilesApart s pid w [x] where
  world := h.hold hi.world
  here := by
    intro x' hx'
    rw [List.mem_singleton.mp hx']
    exact hx
  apart := List.pairwise_singleton _ _
  others q p hq hp := by
    refine ⟨h.here (hi.here q p hp) (hothers q p hq hp), fun x' hx' => ?_⟩
    rw [List.mem_singleton.mp hx']
    exact ⟨.inr (hothers q p hq hp), .inl hcopy⟩

/-- The one that copies does so alone. -/
theorem respects_configSet (hi : FilesInv y text₀ s) {c : ℕ} {f : File Text}
    (h : ConfigSet s.world w c f) (hw : FilesHold y text₀ w) (hx : FilesHere y w x)
    (htemp : tempFile x = none)
    (hothers : ∀ q p, q ≠ pid → s.procs.get q = some p → copying p.point = none) :
    Respects (FilesHold y text₀) (FilesHere y) FilesApart s pid w [x] where
  world := hw
  here := by
    intro x' hx'
    rw [List.mem_singleton.mp hx']
    exact hx
  apart := List.pairwise_singleton _ _
  others q p hq hp := by
    refine ⟨h.here (hi.here q p hp) (hothers q p hq hp), fun x' hx' => ?_⟩
    rw [List.mem_singleton.mp hx']
    exact ⟨.inl htemp, .inr (hothers q p hq hp)⟩

/-- Where the mover owns the temporary file nobody else does. -/
theorem FilesInv.temp_others (hi : FilesInv y text₀ s) (hp : s.procs.get pid = some p)
    (hown : tempFile p.point ≠ none) {q : ℕ} {p' : Activation (Pc Text) (Ans Text)}
    (hq : q ≠ pid) (hp' : s.procs.get q = some p') : tempFile p'.point = none :=
  (hi.apart pid q p p' (Ne.symm hq) hp hp').1.resolve_left hown

theorem FilesInv.copy_others (hi : FilesInv y text₀ s) (hp : s.procs.get pid = some p)
    (hown : copying p.point ≠ none) {q : ℕ} {p' : Activation (Pc Text) (Ans Text)}
    (hq : q ≠ pid) (hp' : s.procs.get q = some p') : copying p'.point = none :=
  (hi.apart pid q p p' (Ne.symm hq) hp hp').2.resolve_left hown

/-- While someone copies, the configuration file is not whole. -/
theorem FilesHere.not_whole (hx : FilesHere y w x) (hcopy : copying x ≠ none) {f : File Text}
    (hf : w.configFile = some f) : f.whole = false := by
  obtain ⟨text, ht⟩ := Option.ne_none_iff_exists'.mp hcopy
  obtain ⟨c, hc, hget, -⟩ := hx.copy text ht
  rw [World.configFile, hc, Option.bind_some, hget] at hf
  cases hf
  rfl

/-- What an update writes is loaded again. -/
theorem loadConfig_updated (hy : y.RoundTrips) {read text : Text} {newSettings : Json}
    (h : updatedText y read newSettings = some text) : (loadConfig y text).isSome = true := by
  obtain ⟨updatedConfig, -, hdump⟩ := Option.bind_eq_some_iff.mp h
  split_ifs at hdump with hport
  cases hdump
  rw [loadConfig, hy, Option.bind_some]
  rfl

theorem Commit.apply_merge {read text : Text} {newSettings : Json}
    (h : updatedText y read newSettings = some text) :
    (Commit.merge newSettings).apply y read = text := by
  rw [Commit.apply, h, Option.getD_some]

/-- A whole configuration file holds the fold of the commits. -/
theorem FilesHold.text_eq (hw : FilesHold y text₀ w) {f : File Text} (hf : w.configFile = some f)
    (hwhole : f.whole = true) :
    f.text = applyAll y w.commits text₀ ∧ (loadConfig y f.text).isSome = true := by
  obtain ⟨c, g, hc, hg, hgwhole⟩ := hw.config
  rw [World.configFile, hc, Option.bind_some, hg] at hf
  cases hf
  exact hgwhole hwhole

/-- The rename, with the entries of the history it makes. -/
def renamed (w : World Text) (id i : ℕ) (newSettings : Json) : World Text :=
  (({ w with
    config := some i
    temp := none } : World Text).record (.replaced id)).record (.committed id (.merge newSettings))

theorem commits_renamed (w : World Text) (id i : ℕ) (newSettings : Json) :
    (renamed w id i newSettings).commits = w.commits ++ [(id, .merge newSettings)] := by
  rw [renamed, commits_record, commits_record]
  change (w.commits ++ []) ++ _ = _
  rw [List.append_nil]
  rfl

theorem files_rename (hy : y.RoundTrips) (hi : FilesInv y text₀ s) {id i : ℕ} {newSettings : Json}
    {read text : Text} (hfile : s.world.configFile = some ⟨read, true⟩)
    (htemp : s.world.temp = some i) (hget : s.world.inodes.get i = some ⟨text, true⟩)
    (hupdated : updatedText y read newSettings = some text)
    (hothers : ∀ q p, q ≠ pid → s.procs.get q = some p → tempFile p.point = none)
    (hx : tempFile x = none) (hcopy : copying x = none)
    (hhere : FilesHere y (renamed s.world id i newSettings) x) :
    Respects (FilesHold y text₀) (FilesHere y) FilesApart s pid
      (renamed s.world id i newSettings) [x] := by
  obtain ⟨hread, -⟩ := hi.world.text_eq hfile rfl
  have hnone : ∀ q p, q ≠ pid → s.procs.get q = some p → copying p.point = none := by
    intro q p _ hp
    by_contra hcopying
    cases (hi.here q p hp).not_whole hcopying hfile
  refine ⟨⟨⟨i, ⟨text, true⟩, rfl, hget, fun _ => ⟨?_, loadConfig_updated hy hupdated⟩⟩, ?_, ?_, ?_,
    ?_⟩, ?_, List.pairwise_singleton _ _, fun q p hq hp => ⟨?_, ?_⟩⟩
  · change text = _
    rw [commits_renamed, applyAll_append, ← hread]
    exact (Commit.apply_merge hupdated).symm
  · rintro j ⟨⟩
  · exact hi.world.known
  · rintro j ⟨⟩
  · intro f hf hwhole
    change s.world.inodes.get i = some f at hf
    rw [hget] at hf
    cases hf
    cases hwhole
  · intro x' hx'
    rw [List.mem_singleton.mp hx']
    exact hhere
  · exact (hi.here q p hp).keep (fun hne => absurd (hothers q p hq hp) hne)
      fun hne => absurd (hnone q p hq hp) hne
  · intro x' hx'
    rw [List.mem_singleton.mp hx']
    exact ⟨.inl hx, .inl hcopy⟩

theorem files_serve {c : Choice} {a : Ans Text} (hy : y.RoundTrips) (hi : FilesInv y text₀ s)
    (hp : s.procs.get pid = some p) (hseen : p.phase.seen = none)
    (hok : Orderly y s (.serve pid c)) (h : serve y s.world p.pc c = some (a, w)) :
    Respects (FilesHold y text₀) (FilesHere y) FilesApart s pid w [(p.pc, some a)] := by
  have hx : FilesHere y s.world (p.pc, none) := by
    have := hi.here pid p hp
    rwa [Activation.point, hseen] at this
  have hpoint : p.point = (p.pc, none) := by rw [Activation.point, hseen]
  obtain ⟨pc, phase, caller⟩ := p
  -- a call that leaves the files alone
  have quiet : SameFiles s.world w → tempFile (pc, some a) = none → copying (pc, some a) = none →
      (∀ plan, pc.plan = some plan → FilesHere y w (pc, some a)) →
      Respects (FilesHold y text₀) (FilesHere y) FilesApart s pid w [(pc, some a)] := by
    intro hsame htemp hcopy hplan
    apply respects_sameFiles hi hsame
    · intro x hxs
      rw [List.mem_singleton.mp hxs]
      cases hpc : pc.plan with
      | none => exact filesHere_plain htemp hcopy hpc
      | some plan => exact hplan plan hpc
    · intro x hxs
      rw [List.mem_singleton.mp hxs]
      exact ⟨htemp, hcopy⟩
  cases pc with
  | mkdir =>
    cases c <;> cases h
    exact quiet (.refl _) rfl rfl (by simp [Pc.plan])
  | backupOpen name =>
    cases c <;> simp only [serve, Option.map_eq_some_iff, reduceCtorEq] at h
    obtain ⟨f, -, hf⟩ := h
    cases hf
    exact quiet ⟨rfl, rfl, rfl, rfl, rfl, fun _ => id⟩ rfl rfl (by simp [Pc.plan])
  | backupWrite name text =>
    cases c <;> cases h
    · exact quiet ⟨rfl, rfl, rfl, rfl, rfl, fun _ => id⟩ rfl rfl (by simp [Pc.plan])
    · exact quiet ⟨rfl, rfl, rfl, rfl, rfl, fun _ => id⟩ rfl rfl (by simp [Pc.plan])
  | readConfig id newSettings =>
    cases c <;> simp only [serve, Option.map_eq_some_iff, reduceCtorEq] at h
    obtain ⟨f, -, hf⟩ := h
    cases hf
    exact quiet (.refl _) rfl rfl (by simp [Pc.plan])
  | access id filename =>
    cases c <;> simp only [serve, Option.map_eq_some_iff, reduceCtorEq] at h
    obtain ⟨f, -, hf⟩ := h
    cases hf
    exact quiet (.refl _) rfl rfl (by simp [Pc.plan])
  | backedUp | restoring => cases c <;> cases h
  | openTemp id newSettings read text =>
    cases c <;> cases h
    have hset := tempSet_openTemp hi.world text
    apply respects_tempSet hi hset _ rfl
    · intro q p' _ hp'
      have hall : ∀ e ∈ s.procs, tempFile e.2.point = none := hok _ hp
      exact hall (q, p') (KeyedList.mem_of_get hp')
    · refine ⟨fun f hf => ?_, fun t ht => (by cases ht), hx.plan⟩
      cases hf
      refine ⟨_, hset.temp, by rw [hset.get, if_pos rfl], ?_⟩
      rintro fd ⟨⟩
      rfl
  | writeTemp id newSettings read text fd =>
    obtain ⟨i, htemp, hget, hfd⟩ := hx.temp _ rfl
    cases hfd fd rfl
    have hown : tempFile (Activation.point (⟨.writeTemp id newSettings read text fd, phase, caller⟩ :
        Activation (Pc Text) (Ans Text))) ≠ none := by
      rw [hpoint]
      simp [tempFile]
    have hothers : ∀ q p', q ≠ pid → s.procs.get q = some p' → tempFile p'.point = none :=
      fun q p' hq hp' => FilesInv.temp_others hi hp hown hq hp'
    cases c <;> cases h
    · rw [finishWrite_eq hget]
      have hset := @tempSet_write Text y text₀ s.world hi.world fd ⟨text, false⟩ ⟨text, true⟩ htemp hget
      apply respects_tempSet hi hset _ rfl hothers
      refine ⟨fun f hf => ?_, fun t ht => (by cases ht), hx.plan⟩
      cases hf
      refine ⟨_, hset.temp, by rw [hset.get, if_pos rfl], ?_⟩
      rintro fd ⟨⟩
      rfl
    · rename_i n
      have hset := @tempSet_write Text y text₀ s.world hi.world fd ⟨text, false⟩ ⟨y.part text n, false⟩ htemp hget
      apply respects_tempSet hi hset _ rfl hothers
      exact ⟨fun f hf => (by cases hf), fun t ht => (by cases ht), hx.plan⟩
  | renameTemp id newSettings read text =>
    obtain ⟨hfile, -⟩ : s.world.configFile = some ⟨read, true⟩ ∧ c.reloads = true := hok _ hp
    obtain ⟨i, htemp, hget, -⟩ := hx.temp _ rfl
    have hupdated := hx.plan newSettings read text rfl
    have hown : tempFile (Activation.point (⟨.renameTemp id newSettings read text, phase, caller⟩ :
        Activation (Pc Text) (Ans Text))) ≠ none := by
      rw [hpoint]
      simp [tempFile]
    cases c <;> simp only [serve, htemp, Option.map_some, Option.some.injEq, reduceCtorEq] at h
    cases h
    exact files_rename hy hi hfile htemp hget hupdated
      (fun q p' hq hp' => FilesInv.temp_others hi hp hown hq hp') rfl rfl
      ⟨fun f hf => (by cases hf), fun t ht => (by cases ht), hx.plan⟩
  | openCopy id filename =>
    obtain ⟨halone, hbackup⟩ : (∀ e ∈ s.procs, copying e.2.point = none) ∧
        ∀ f ∈ s.world.backups.get filename,
          f.whole = true ∧ (loadConfig y f.text).isSome = true := hok _ hp
    have hothers : ∀ q p', q ≠ pid → s.procs.get q = some p' → copying p'.point = none :=
      fun q p' _ hp' => halone (q, p') (KeyedList.mem_of_get hp')
    cases c <;> simp only [serve, Option.map_eq_some_iff, reduceCtorEq] at h
    rename_i n
    obtain ⟨f, hf, heq⟩ := h
    cases heq
    obtain ⟨hwhole, hloads⟩ := hbackup f hf
    have hsees : World.seen y f n = f.text := by rw [World.seen, if_pos hwhole]
    rw [hsees]
    obtain ⟨hset, hhistory⟩ := configSet_openConfig hi.world f.text
    obtain ⟨r, hr⟩ : ∃ r, r = s.world.openConfig f.text := ⟨_, rfl⟩
    rw [← hr] at hset hhistory ⊢
    have hset' : ConfigSet s.world ((r.1.record (.replaced id)).record (.opened id filename f.text))
        r.2 ⟨f.text, false⟩ := ⟨hset.config, hset.apart, hset.temp, hset.get, hset.lt, hset.next⟩
    apply respects_configSet hi hset' _ _ rfl hothers
    · apply hset'.hold hi.world
      · intro hfalse
        cases hfalse
      · exact fun _ => ⟨id, filename, f.text, List.mem_cons_self⟩
    · refine ⟨fun g hg => (by cases hg), fun t ht => ?_, fun b r t ht => (by cases ht)⟩
      cases ht
      exact ⟨r.2, hset'.config, by rw [hset'.get, if_pos rfl], rfl, hloads⟩
  | writeCopy id text fd =>
    have hreloads : c.reloads = true := hok _ hp
    obtain ⟨i, hconfig, hget, hfd, hloads⟩ := hx.copy _ rfl
    cases hfd
    have hown : copying (Activation.point (⟨.writeCopy id text fd, phase, caller⟩ :
        Activation (Pc Text) (Ans Text))) ≠ none := by
      rw [hpoint]
      simp [copying]
    have hothers : ∀ q p', q ≠ pid → s.procs.get q = some p' → copying p'.point = none :=
      fun q p' hq hp' => FilesInv.copy_others hi hp hown hq hp'
    cases c with
    | only | sees n | breaks n => cases hreloads
    | reload view =>
      cases h
      have hset := configSet_finish hi.world hconfig hget
      have hset' : ConfigSet s.world ((s.world.finishWrite y fd text).record
          (.committed id (.copy text))) fd ⟨text, true⟩ :=
        ⟨hset.config, hset.apart, hset.temp, hset.get, hset.lt, hset.next⟩
      apply respects_configSet hi hset' _ _ rfl hothers
      · apply hset'.hold hi.world
        · intro _
          refine ⟨?_, hloads⟩
          rw [commits_record]
          exact (applyAll_append _ (id, .copy text) _).symm
        · intro hfalse
          cases hfalse
      · exact ⟨fun g hg => (by cases hg), fun t ht => (by cases ht), fun b r t ht => (by cases ht)⟩

theorem sameFiles_answer (w : World Text) (id : ℕ) (success : Bool) :
    SameFiles w (answer w id success).1 := sameFiles_record w rfl

theorem sameFiles_reload (w : World Text) (id : ℕ) (sees : Option ℕ) :
    SameFiles w (reload y w id sees).1 := by
  unfold reload
  split
  · rename_i config _
    let w₁ := { w with loadedConfig := config }
    have hload : SameFiles w w₁ := ⟨rfl, rfl, rfl, rfl, rfl, fun _ h => h⟩
    have hrecord : SameFiles w₁ (w₁.record (.loaded id)) := sameFiles_record w₁ rfl
    exact (hload.trans hrecord).trans (sameFiles_answer (w₁.record (.loaded id)) id true)
  · exact sameFiles_answer w id false

theorem points_reload (w : World Text) (id : ℕ) (sees : Option ℕ) :
    (reload y w id sees).2.points = [] := by
  unfold reload
  split <;> rfl

theorem sameFiles_resume (w : World Text) (pc : Pc Text) (r : Reply (Ans Text)) :
    SameFiles w (resume y w pc r).1 := by
  unfold resume
  split
  case h_7 =>
    split
    · exact .refl w
    · exact sameFiles_answer w _ _
  all_goals first
    | exact .refl w
    | exact sameFiles_answer w _ _
    | exact sameFiles_reload w _ _

/-- A file passes from one point of its owner to the next, and nothing is owned that was not. -/
structure Inherits (x x' : Point (Pc Text) (Ans Text)) : Prop where
  temp : tempFile x' = none ∨ tempFile x' = tempFile x ∧
    ∀ fd, openFile x' = some fd → openFile x = some fd
  copy : copying x' = none ∨ copying x' = copying x ∧ openFile x' = openFile x

theorem Inherits.here {x' : Point (Pc Text) (Ans Text)} (h : Inherits x x') (hx : FilesHere y w x)
    (hplan : ∀ newSettings read text, x'.1.plan = some (newSettings, read, text) →
      updatedText y read newSettings = some text) : FilesHere y w x' where
  temp f hf := by
    rcases h.temp with hnone | ⟨heq, hfd⟩
    · cases hnone.symm.trans hf
    · obtain ⟨i, hi, hget, hopen⟩ := hx.temp f (heq.symm.trans hf)
      exact ⟨i, hi, hget, fun fd h' => hopen fd (hfd fd h')⟩
  copy text ht := by
    rcases h.copy with hnone | ⟨heq, hopen⟩
    · cases hnone.symm.trans ht
    · rw [hopen]
      exact hx.copy text (heq.symm.trans ht)
  plan := hplan

theorem inherits_plain {x' : Point (Pc Text) (Ans Text)} (htemp : tempFile x' = none)
    (hcopy : copying x' = none) : Inherits x x' := ⟨.inl htemp, .inl hcopy⟩

theorem resume_points (w : World Text) (pc : Pc Text) (r : Reply (Ans Text))
    (hx : FilesHere y w (pc, (Phase.ready r).seen)) :
    ∀ x ∈ (resume y w pc r).2.points, Inherits (pc, (Phase.ready r).seen) (x, none) ∧
      ∀ newSettings read text, x.plan = some (newSettings, read, text) →
        updatedText y read newSettings = some text := by
  unfold resume
  split
  case h_7 id newSettings read =>
    split
    case h_1 text hupdated =>
      intro x hxs
      rw [List.mem_singleton.mp hxs]
      refine ⟨inherits_plain rfl rfl, ?_⟩
      rintro _ _ _ ⟨⟩
      exact hupdated
    case h_2 =>
      intro x hxs
      cases hxs
  case h_8 id newSettings read text fd t =>
    intro x hxs
    rw [List.mem_singleton.mp hxs]
    exact ⟨⟨.inr ⟨rfl, fun _ h => h⟩, .inl rfl⟩, hx.plan⟩
  case h_9 id newSettings read text fd =>
    intro x hxs
    rw [List.mem_singleton.mp hxs]
    exact ⟨⟨.inr ⟨rfl, fun _ h => by cases h⟩, .inl rfl⟩, hx.plan⟩
  case h_13 id filename fd text =>
    intro x hxs
    rw [List.mem_singleton.mp hxs]
    exact ⟨⟨.inl rfl, .inr ⟨rfl, rfl⟩⟩, fun _ _ _ h => by cases h⟩
  case h_10 => simp [points_reload]
  case h_14 => simp [points_reload]
  case h_11 id filename a =>
    intro x hxs
    have hmem : x = .restoring id filename ∨ x = .mkdir := by simpa [Next.points] using hxs
    rcases hmem with rfl | rfl <;>
    · refine ⟨inherits_plain rfl rfl, ?_⟩
      rintro _ _ _ ⟨⟩
  all_goals first
    | (intro x hxs; cases hxs; done)
    | (intro x hxs
       rw [List.mem_singleton.mp hxs]
       exact ⟨inherits_plain rfl rfl, fun _ _ _ h => by cases h⟩)

theorem resume_pairwise (w : World Text) (pc : Pc Text) (r : Reply (Ans Text)) :
    ((resume y w pc r).2.points.map fun x => ((x, none) : Point (Pc Text) (Ans Text))).Pairwise
      FilesApart := by
  unfold resume
  split
  case h_7 => split <;> simp [answer, Next.points]
  case h_10 => simp [points_reload]
  case h_14 => simp [points_reload]
  case h_11 => simp [Next.points, FilesApart, tempFile, copying]
  all_goals simp [answer, Next.points]

theorem files_resume {r : Reply (Ans Text)} {nx : Next (Pc Text)} (hi : FilesInv y text₀ s)
    (hp : s.procs.get pid = some p) (hphase : p.phase = .ready r)
    (h : resume y s.world p.pc r = (w, nx)) :
    Respects (FilesHold y text₀) (FilesHere y) FilesApart s pid w (nx.points.map (·, none)) := by
  have hpoint : p.point = (p.pc, (Phase.ready r).seen) := by rw [Activation.point, hphase]
  have hx : FilesHere y s.world (p.pc, (Phase.ready r).seen) := hpoint ▸ hi.here pid p hp
  have hsame : SameFiles s.world w := by
    have := sameFiles_resume (y := y) s.world p.pc r
    rwa [h] at this
  have hpoints := resume_points s.world p.pc r hx
  rw [h] at hpoints
  refine ⟨hsame.hold hi.world, ?_, ?_, ?_⟩
  · intro x hxs
    obtain ⟨pc, hpc, rfl⟩ := List.mem_map.mp hxs
    obtain ⟨hinherits, hplan⟩ := hpoints pc hpc
    exact hsame.here (hinherits.here hx hplan)
  · have hpairwise := resume_pairwise (y := y) s.world p.pc r
    rwa [h] at hpairwise
  · intro q p' hq hp'
    refine ⟨hsame.here (hi.here q p' hp'), fun x hxs => ?_⟩
    obtain ⟨pc, hpc, rfl⟩ := List.mem_map.mp hxs
    have hinherits := (hpoints pc hpc).1
    have hold : FilesApart (p.pc, (Phase.ready r).seen) p'.point :=
      hpoint ▸ hi.apart pid q p p' (Ne.symm hq) hp hp'
    constructor
    · rcases hinherits.temp with hnone | ⟨heq, -⟩
      · exact .inl hnone
      · rw [heq]
        exact hold.1
    · rcases hinherits.copy with hnone | ⟨heq, -⟩
      · exact .inl hnone
      · rw [heq]
        exact hold.2

theorem enter_points {e : Entry} {nx : Next (Pc Text)} (h : enter w e = some (w', nx)) :
    SameFiles w w' ∧ ∀ x ∈ nx.points, tempFile ((x, none) : Point (Pc Text) (Ans Text)) = none ∧
      copying ((x, none) : Point (Pc Text) (Ans Text)) = none ∧ x.plan = none := by
  have hbegan : ∀ r, SameFiles w
      ({ w with nextRequest := w.nextRequest + 1 }.record (.began w.nextRequest r)) := fun r =>
    (⟨rfl, rfl, rfl, rfl, rfl, fun _ h => h⟩ :
      SameFiles w { w with nextRequest := w.nextRequest + 1 }).trans (sameFiles_record _ rfl)
  cases e with
  | request r =>
    cases r with
    | update newSettings =>
      cases h
      exact ⟨hbegan _, by simp [Next.points, tempFile, copying, Pc.plan]⟩
    | restore filename =>
      simp only [enter] at h
      split_ifs at h
      · cases h
        exact ⟨(hbegan _).trans (sameFiles_answer _ _ _), by simp [Next.points]⟩
      · cases h
        exact ⟨hbegan _, by simp [Next.points, tempFile, copying, Pc.plan]⟩
  | elapse ms =>
    cases h
    exact ⟨⟨rfl, rfl, rfl, rfl, rfl, fun _ h => h⟩, by simp [Next.points]⟩

theorem files_enter {e : Entry} {nx : Next (Pc Text)} (hi : FilesInv y text₀ s)
    (h : enter s.world e = some (w, nx)) :
    Respects (FilesHold y text₀) (FilesHere y) FilesApart s s.next w
      (nx.points.map (·, none)) := by
  obtain ⟨hsame, hpoints⟩ := enter_points h
  apply respects_sameFiles hi hsame
  · intro x hxs
    obtain ⟨pc, hpc, rfl⟩ := List.mem_map.mp hxs
    obtain ⟨htemp, hcopy, hplan⟩ := hpoints pc hpc
    exact filesHere_plain htemp hcopy hplan
  · intro x hxs
    obtain ⟨pc, hpc, rfl⟩ := List.mem_map.mp hxs
    obtain ⟨htemp, hcopy, -⟩ := hpoints pc hpc
    exact ⟨htemp, hcopy⟩

theorem files_coherent (hy : y.RoundTrips) (text₀ : Text) :
    Coherent (program y) (Orderly y) (FilesHold y text₀) (FilesHere y) FilesApart where
  symm := filesApart_symm
  serve _ _ _ _ _ _ hi hp hseen hok h := files_serve hy hi hp hseen hok h
  resume _ _ _ _ _ _ hi hp hphase _ h := files_resume hi hp hphase h
  enter _ _ _ _ hi _ h := files_enter hi h

theorem files_boot {loadedConfig : Json} (hload : loadConfig y text₀ = some loadedConfig)
    (leftover : Option (File Text)) (backups : KeyedList String (File Text)) :
    FilesInv y text₀ (boot text₀ leftover backups loadedConfig) := by
  apply Inv.start
  cases leftover with
  | none =>
    refine ⟨⟨0, ⟨text₀, true⟩, rfl, rfl, fun _ => ⟨rfl, by rw [hload]; rfl⟩⟩, ?_, ?_, ?_, ?_⟩
    · rintro i ⟨⟩
    · intro i f hf
      have hmem : (i, f) ∈ [(0, (⟨text₀, true⟩ : File Text))] := KeyedList.mem_of_get hf
      obtain ⟨rfl, -⟩ : i = 0 ∧ f = ⟨text₀, true⟩ := by simpa using hmem
      exact Nat.succ_pos 1
    · rintro i ⟨⟩
    · intro f hf hwhole
      cases hf
      cases hwhole
  | some g =>
    refine ⟨⟨0, ⟨text₀, true⟩, rfl, rfl, fun _ => ⟨rfl, by rw [hload]; rfl⟩⟩, ?_, ?_, ?_, ?_⟩
    · rintro i ⟨⟩ ⟨⟩
    · intro i f hf
      have hmem : (i, f) ∈ [(0, (⟨text₀, true⟩ : File Text)), (1, g)] := KeyedList.mem_of_get hf
      have hi : i = 0 ∧ f = ⟨text₀, true⟩ ∨ i = 1 ∧ f = g := by simpa using hmem
      change i < 2
      omega
    · rintro i ⟨⟩
      exact ⟨g, rfl⟩
    · intro f hf hwhole
      cases hf
      cases hwhole

end Files

end ZoneweaverAgent.Settings
