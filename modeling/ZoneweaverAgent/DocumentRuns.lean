import ZoneweaverAgent.DocumentWriters
import ZoneweaverAgent.EventLoop

/-!
# The document writers on the event loop

Each writer reads the row, works on its own copy and saves the whole column. The requests and tasks
that start a writer enter at any moment. Where the source skips the wait for the suspend checkpoint
the wait is over at once. The history keeps the writers whose save was carried out, oldest first.
-/

namespace ZoneweaverAgent.ZoneDocument
open EventLoop

inductive Writer
  | mutation (m : Mutation)
  | refresh (zadm : Document)

structure Store where
  configuration : Document
  completed : List Writer

inductive Pc
  -- saveConfiguration, updateZoneHostsYaml, executeZoneCreateFinalizeTask
  | find (m : Mutation)
  -- syncZoneToDatabase
  | zadmShow
  | list (zadm : Document)
  | findExisting (zadm : Document)
  -- executeDiscoverTask
  | zadmShowAll
  | findAll (zadm : Document)
  | listExisting (zadm existing : Document)
  -- both refreshes
  | suspendCheckpoint (zadm existing : Document)
  -- zone.save, existing.update, dbZone.update
  | save (writer : Writer) (read written : Document)

inductive Ans
  | row (configuration : Document)
  | zadm (configuration : Document)
  | done

inductive Choice
  | answer
  | zadm (configuration : Document)

inductive Entry
  | mutation (m : Mutation)
  | sync
  | discovery

variable (parse : String → Option Json)

/-- What a writer stores over the configuration it has read; nothing if it throws. -/
def Writer.write : Writer → Document → Option Document
  | mutation m, read => m.mutate read
  | refresh zadm, read => some (preserveUserConfig parse (some (.obj read)) zadm)

def serve (store : Store) : Pc → Choice → Option (Ans × Store)
  | .find _, .answer => some (.row store.configuration, store)
  | .zadmShow, .zadm configuration => some (.zadm configuration, store)
  | .list _, .answer => some (.done, store)
  | .findExisting _, .answer => some (.row store.configuration, store)
  | .zadmShowAll, .zadm configuration => some (.zadm configuration, store)
  | .findAll _, .answer => some (.row store.configuration, store)
  | .listExisting _ _, .answer => some (.done, store)
  | .suspendCheckpoint _ _, .answer => some (.done, store)
  | .save writer _ written, .answer => some (.done, ⟨written, store.completed ++ [writer]⟩)
  | _, _ => none

/-- The save of what the writer makes of `read`, unless it throws. -/
def saveWritten (writer : Writer) (read : Document) : Next Pc :=
  match writer.write parse read with
  | some written => .await (.save writer read written)
  | none => .finish true

def resume (store : Store) : Pc → Reply Ans → Store × Next Pc
  | .find m, .answer (.row read) => (store, saveWritten parse (.mutation m) read)
  | .zadmShow, .answer (.zadm configuration) => (store, .await (.list configuration))
  | .list zadm, .answer .done => (store, .await (.findExisting zadm))
  | .findExisting zadm, .answer (.row existing) =>
    (store, .await (.suspendCheckpoint zadm existing))
  | .zadmShowAll, .answer (.zadm configuration) => (store, .await (.findAll configuration))
  | .findAll zadm, .answer (.row existing) => (store, .await (.listExisting zadm existing))
  | .listExisting zadm existing, .answer .done => (store, .await (.suspendCheckpoint zadm existing))
  | .suspendCheckpoint zadm existing, .answer .done =>
    (store, saveWritten parse (.refresh zadm) existing)
  | .save _ _ _, .answer .done => (store, .finish false)
  | _, _ => (store, .finish true)

/-- `executeCommand` and the probe of the checkpoint file answer failures as results. -/
def canFail : Pc → Bool
  | .list _ => false
  | .listExisting _ _ => false
  | .suspendCheckpoint _ _ => false
  | _ => true

def enter (store : Store) : Entry → Option (Store × Next Pc)
  | .mutation m => some (store, .await (.find m))
  | .sync => some (store, .await .zadmShow)
  | .discovery => some (store, .await .zadmShowAll)

def documentProgram : Program Store Pc Ans Choice Entry where
  serve := serve
  canFail := canFail
  resume := resume parse
  enter := enter

abbrev StoreState := State Store Pc Ans
abbrev StoreLabel := Label Choice Entry

def boot (initial : Document) : StoreState := start ⟨initial, []⟩

/-! ## What the document owes its writers -/

/-- What a writer does to the document sections; a refresh from `zadm` does nothing to them. -/
def Writer.effect : Writer → Document → Document
  | mutation m, doc => m.effect doc
  | refresh _, doc => doc

def Writer.sections : Writer → List String
  | mutation m => m.sections
  | refresh _ => []

/-- The writers of one section, one after another. -/
def replay (initial : Document) (key : String) (writers : List Writer) : Document :=
  (writers.filter (key ∈ ·.sections)).foldl (fun doc w => w.effect doc) initial

/-- Each section is what the completed writers of that section have made of it. -/
def NothingLost (initial : Document) (store : Store) : Prop :=
  ∀ key ∈ documentSections,
    store.configuration.get key = (replay initial key store.completed).get key

/-- The save that a step carries out, with what its writer has read. -/
def saving (s : StoreState) : StoreLabel → Option (Writer × Document)
  | .serve pid _ =>
    match s.procs.get pid with
    | some ⟨.save writer read _, _, _⟩ => some (writer, read)
    | _ => none
  | _ => none

/-- A save finds the document still as its writer has read it, and a refresh brings no section that
the document lacks. -/
structure Serial (s : StoreState) (l : StoreLabel) : Prop where
  current : ∀ x ∈ saving s l, ∀ key ∈ documentSections,
    s.world.configuration.get key = x.2.get key
  absent : ∀ x ∈ saving s l, ∀ zadm, x.1 = .refresh zadm → ∀ key ∈ documentSections,
    x.2.get key = none → zadm.get key = none

variable {parse} {initial : Document}

theorem Writer.effect_get_congr (w : Writer) {doc doc' : Document} {key : String}
    (h : doc.get key = doc'.get key) : (w.effect doc).get key = (w.effect doc').get key := by
  cases w with
  | mutation m => exact m.effect_get_congr h
  | refresh zadm => exact h

theorem Writer.effect_get_of_notMem (w : Writer) {key : String} (h : key ∉ w.sections)
    (doc : Document) : (w.effect doc).get key = doc.get key := by
  cases w with
  | mutation m => exact m.effect_get_of_notMem h doc
  | refresh zadm => rfl

/-- What is written carries the effect of the writer on what it has read. -/
theorem Writer.write_get {w : Writer} {read written : Document} {key : String}
    (h : w.write parse read = some written) (hkey : key ∈ documentSections)
    (habsent : ∀ zadm, w = .refresh zadm → read.get key = none → zadm.get key = none) :
    written.get key = (w.effect read).get key := by
  cases w with
  | mutation m =>
    change written.get key = ((m.mutate read).getD read).get key
    rw [show m.mutate read = some written from h, Option.getD_some]
  | refresh zadm =>
    have hstored : storedDocument parse (.obj read) = some read := rfl
    rw [← Option.some.inj h, preserve_get hstored zadm, if_pos hkey]
    cases hread : read.get key with
    | none => exact (habsent zadm rfl hread).trans hread.symm
    | some v => exact hread.symm

theorem replay_append_get (key : String) (writers : List Writer) (w : Writer) :
    (replay initial key (writers ++ [w])).get key =
      (w.effect (replay initial key writers)).get key := by
  unfold replay
  rw [List.filter_append, List.foldl_append]
  by_cases h : key ∈ w.sections
  · simp [h]
  · simp [h, w.effect_get_of_notMem h]

theorem NothingLost.save {store : Store} {w : Writer} {read written : Document}
    (hkept : NothingLost initial store) (h : w.write parse read = some written)
    (hcurrent : ∀ key ∈ documentSections, store.configuration.get key = read.get key)
    (habsent : ∀ zadm, w = .refresh zadm → ∀ key ∈ documentSections,
      read.get key = none → zadm.get key = none) :
    NothingLost initial ⟨written, store.completed ++ [w]⟩ := by
  intro key hkey
  calc written.get key
      = (w.effect read).get key :=
        Writer.write_get h hkey fun zadm hw => habsent zadm hw key hkey
    _ = (w.effect (replay initial key store.completed)).get key :=
        w.effect_get_congr ((hcurrent key hkey).symm.trans (hkept key hkey))
    _ = (replay initial key (store.completed ++ [w])).get key :=
        (replay_append_get key store.completed w).symm

/-- A pending save holds what its writer makes of what it has read. -/
def Pends (parse : String → Option Json) (_ : Store) (x : Point Pc Ans) : Prop :=
  ∀ w read written, x.1 = .save w read written → w.write parse read = some written

theorem saveWritten_pends {store : Store} {w : Writer} {read : Document} {pc : Pc}
    (h : pc ∈ (saveWritten parse w read).points) : Pends parse store (pc, none) := by
  unfold saveWritten at h
  cases hw : w.write parse read with
  | none => simp [hw, Next.points] at h
  | some written =>
    simp only [hw, Next.points, List.mem_singleton] at h
    rintro w' read' written' rfl
    cases h
    exact hw

theorem resume_world (store : Store) (pc : Pc) (r : Reply Ans) :
    (resume parse store pc r).1 = store := by
  unfold resume
  split <;> rfl

theorem resume_pends {store store' : Store} {pc pc' : Pc} {r : Reply Ans}
    (h : pc' ∈ (resume parse store pc r).2.points) : Pends parse store' (pc', none) := by
  unfold resume at h
  split at h
  case h_1 => exact saveWritten_pends h
  case h_8 zadm existing =>
    change pc' ∈ (saveWritten parse (.refresh zadm) existing).points at h
    exact saveWritten_pends h
  all_goals
    intro w read written hpc
    change pc' = _ at hpc
    subst hpc
    simp [Next.points] at h

theorem serve_store {store store' : Store} {pc : Pc} {c : Choice} {a : Ans}
    (h : serve store pc c = some (a, store')) :
    store' = store ∨ ∃ w read written, pc = .save w read written ∧
      store' = ⟨written, store.completed ++ [w]⟩ := by
  unfold serve at h
  split at h
  case h_9 w read written => exact .inr ⟨w, read, written, rfl, by cases h; rfl⟩
  case h_10 => cases h
  all_goals
    cases h
    exact .inl rfl

theorem document_coherent (parse : String → Option Json) (initial : Document) :
    Coherent (documentProgram parse) Serial (NothingLost initial) (Pends parse)
      (fun _ _ => True) where
  symm _ _ _ := trivial
  serve s pid c p a w hi hp hseen hok h := by
    have hothers : ∀ q p', q ≠ pid → s.procs.get q = some p' →
        Pends parse w p'.point ∧ ∀ x ∈ [(p.pc, some a)], True :=
      fun q p' _ hp' => ⟨hi.here q p' hp', fun _ _ => trivial⟩
    have hhere : ∀ x ∈ [(p.pc, some a)], Pends parse w x := by
      intro x hx
      rw [List.mem_singleton.mp hx]
      exact hi.here pid p hp
    refine ⟨?_, hhere, List.pairwise_singleton _ _, hothers⟩
    rcases serve_store h with rfl | ⟨writer, read, written, hpc, rfl⟩
    · exact hi.world
    · have hsaving : saving s (.serve pid c) = some (writer, read) := by
        obtain ⟨pc, phase, caller⟩ := p
        subst hpc
        simp only [saving, hp]
      refine hi.world.save (hi.here pid p hp writer read written hpc) ?_ ?_
      · exact hok.current (writer, read) hsaving
      · exact hok.absent (writer, read) hsaving
  resume s pid p r w nx hi hp hphase hok h := by
    obtain ⟨rfl, rfl⟩ : s.world = w ∧ (resume parse s.world p.pc r).2 = nx :=
      ⟨(resume_world s.world p.pc r).symm.trans (congrArg Prod.fst h), congrArg Prod.snd h⟩
    refine ⟨hi.world, ?_, List.pairwise_of_forall fun _ _ => trivial, ?_⟩
    · intro x hx
      obtain ⟨pc', hpc', rfl⟩ := List.mem_map.mp hx
      exact resume_pends hpc'
    · exact fun q p' _ hp' => ⟨hi.here q p' hp', fun _ _ => trivial⟩
  enter s e w nx hi hok h := by
    have hinert : s.world = w ∧ ∀ pc ∈ nx.points, Pends parse w (pc, none) := by
      cases e <;> cases h <;> refine ⟨rfl, fun pc hpc => ?_⟩ <;>
        rw [List.mem_singleton.mp hpc] <;> exact fun _ _ _ heq => by cases heq
    obtain ⟨rfl, hpends⟩ := hinert
    refine ⟨hi.world, ?_, List.pairwise_of_forall fun _ _ => trivial, ?_⟩
    · intro x hx
      obtain ⟨pc, hpc, rfl⟩ := List.mem_map.mp hx
      exact hpends pc hpc
    · exact fun q p' _ hp' => ⟨hi.here q p' hp', fun _ _ => trivial⟩

/-- In every run whose saves are serial, every section of the stored document carries the effects of
the completed writers of that section, in the order of their saves. -/
theorem nothing_lost {s : StoreState}
    (h : Transition.Reaches (step (documentProgram parse)) Serial (boot initial) s) :
    NothingLost initial s.world := by
  have hstart : NothingLost initial ⟨initial, []⟩ := fun _ _ => rfl
  exact ((document_coherent parse initial).reaches (.start hstart) h).world

section Instances

def guestInfo : Mutation := .setGuestInfo (.obj [("hostname", .str "web")])

def retention : Mutation := .setSnapshotPolicy (.obj [("keep", .num 7)])

/-- Two writers of different sections, both of which read the row before either saves. -/
def interleavedLabels : List StoreLabel :=
  [.enter (.mutation guestInfo), .serve 0 .answer, .enter (.mutation retention), .serve 1 .answer,
    .resume 0, .serve 0 .answer, .resume 0, .resume 1, .serve 1 .answer, .resume 1]

theorem nothing_lost_fails : ¬∀ (parse : String → Option Json) (initial : Document) (s : StoreState),
    Transition.Reaches (step (documentProgram parse)) (fun _ _ => True) (boot initial) s →
      Quiescent s → NothingLost initial s.world := by
  intro h
  let P : StoreState → Prop := fun s => s.procs.isEmpty ∧
    s.world.configuration.has "guest_info" = false ∧
      (replay [] "guest_info" s.world.completed).has "guest_info" = true
  obtain ⟨s, hs, hquiet, hlost, heffect⟩ := Transition.exists_reaches_of_run
    (step (documentProgram fun _ => none)) (fun _ _ => True) (boot []) interleavedLabels (P := P)
    ⟨_, rfl, by decide +kernel⟩
  have hkept := h _ _ s hs (List.isEmpty_iff.mp hquiet) "guest_info" (by decide)
  rw [KeyedList.has, hkept] at hlost
  rw [KeyedList.has, hlost] at heffect
  cases heffect

theorem serial_of_saving_none {s : StoreState} {l : StoreLabel} (h : saving s l = none) :
    Serial s l := by
  constructor <;> intro x hx <;> rw [h] at hx <;> cases hx

theorem serial_of_saving {s : StoreState} {l : StoreLabel} {m : Mutation}
    (h : saving s l = some (.mutation m, s.world.configuration)) : Serial s l := by
  constructor <;> intro x hx <;> rw [h] at hx <;> cases hx
  · exact fun _ _ => rfl
  · exact fun _ hzadm => by cases hzadm

theorem nothing_lost_serial : ∃ s : StoreState,
    s.world.completed = [.mutation guestInfo, .mutation retention] ∧
      NothingLost [] s.world := by
  have h : Transition.Reaches (step (documentProgram fun _ => none)) Serial (boot []) _ :=
    ((((((((Transition.Reaches.refl
    |>.tail (l := .enter (.mutation guestInfo)) (serial_of_saving_none rfl) rfl)
    |>.tail (l := .serve 0 .answer) (serial_of_saving_none rfl) rfl)
    |>.tail (l := .resume 0) (serial_of_saving_none rfl) rfl)
    |>.tail (l := .serve 0 .answer) (serial_of_saving rfl) rfl)
    |>.tail (l := .enter (.mutation retention)) (serial_of_saving_none rfl) rfl)
    |>.tail (l := .serve 1 .answer) (serial_of_saving_none rfl) rfl)
    |>.tail (l := .resume 1) (serial_of_saving_none rfl) rfl)
    |>.tail (l := .serve 1 .answer) (serial_of_saving rfl) rfl)
  exact ⟨_, rfl, nothing_lost h⟩

end Instances

end ZoneweaverAgent.ZoneDocument
