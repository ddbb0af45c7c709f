import ZoneweaverAgent.DocumentWriters
import ZoneweaverAgent.EventLoop

/-!
# Accrued changes

The accrue contract of one machine as activations of the event loop: modify requests, power
actions, cancels and the modify executor. A pending value carries the number of the accrual it came
with, which the source does not store, so that the history can tell the accruals apart.
-/

namespace ZoneweaverAgent.PendingChanges
open EventLoop ZoneDocument

structure Accrued where
  accrual : ℕ
  value : Json
  deriving DecidableEq

abbrev Pending := KeyedList String Accrued

def accrue (accrual : ℕ) (body : Document) : Pending := body.map fun e => (e.1, ⟨accrual, e.2⟩)

def Pending.plain (pending : Pending) : Document := pending.map fun e => (e.1, e.2.value)

structure ModifyTask where
  metadata : Pending
  applyPending : Bool

/-! ## The stages of the executor -/

def attributeKeys : List String :=
  ["ram", "vcpus", "cpu_configuration", "bootrom", "hostbridge", "diskif", "netif", "os_type",
    "vnc", "acpi", "xhci", "uefivars", "rng", "bootorder", "bootnext"]

def resourceKeys : List String :=
  ["capped_cpu", "capped_memory", "dedicated_cpu", "security_flags", "virtfs", "ppt",
    "fs_allowed"]

def resourceListKeys : List String := ["remove_rctls", "rctls", "remove_admins", "admins"]

def listKeys : List String :=
  ["add_nics", "update_nics", "remove_nics", "add_disks", "remove_disks", "add_cdroms",
    "remove_cdroms", "add_filesystems", "remove_filesystems"]

/-- The keys that one command sequence of the executor handles, in the executor's order. -/
def stageGroups : List (List String) :=
  [attributeKeys, ["autoboot"], resourceKeys ++ resourceListKeys] ++ listKeys.map ([·]) ++
    [["cloud_init"]]

/-- `value?.length > 0` -/
def hasLength : Json → Bool
  | .arr items => !items.isEmpty
  | .str s => !s.isEmpty
  | .obj entries =>
    match KeyedList.get entries "length" with
    | some (.num n) => 0 < n
    | _ => false
  | _ => false

/-- Whether the executor has anything to do for a key: an attribute that is null, an empty list and a
falsy `cloud_init` ask for nothing, and `complex_cpu_conf` is read with `cpu_configuration` only. -/
def asks (key : String) (value : Json) : Bool :=
  if key ∈ attributeKeys then
    match value with
    | .null => false
    | _ => true
  else if key = "autoboot" ∨ key ∈ resourceKeys then true
  else if key ∈ resourceListKeys then
    match value with
    | .arr items => !items.isEmpty
    | _ => false
  else if key ∈ listKeys then hasLength value
  else key = "cloud_init" && value.truthy

/-- The changes that one command sequence applies. -/
abbrev Stage := List (String × Accrued)

def stages (metadata : Pending) : List Stage :=
  (stageGroups.map fun group =>
    metadata.filter fun e => e.1 ∈ group && asks e.1 e.2.value).filter (!·.isEmpty)

/-- How often a stage saves the document: the disk stages record their disks first, and every stage
syncs the machine. -/
def documentSaves (stage : Stage) : ℕ :=
  if stage.any fun e => e.1 = "add_disks" || e.1 = "remove_disks" then 2 else 1

/-! ## The machine -/

inductive Event
  | accrued (accrual : ℕ) (body : Document) (earlier : Pending)
  | cancelled (dropped : Pending)
  | applied (accrual : ℕ) (key : String)
  | completed (metadata : Pending)

/-- `pending` is the section of the stored document, `queue` the modify tasks that wait. -/
structure Machine where
  pending : Pending
  queue : List ModifyTask
  accruals : ℕ
  /-- The applies that are queued or running. -/
  openApplies : ℕ
  history : List Event

inductive Pc
  -- the modify request
  | systemStatus (body : Document)
  | findForMerge (body : Document)
  | saveMerge (body : Document) (read : Pending)
  | createModify (body : Document)
  -- the cancel
  | findForClear
  | saveClear
  -- a power action or apply-now, whose pending set is that of the row it found first
  | findZone
  | checks (read : Pending)
  | createApply (read : Pending)
  -- the executor; no `rest` is left once the modification is finalized
  | zadmShow (task : ModifyTask)
  | command (task : ModifyTask) (stage : Stage) (rest : List Stage)
  | findForSync (task : ModifyTask) (saves : ℕ) (rest : Option (List Stage))
  | saveSync (task : ModifyTask) (read : Pending) (saves : ℕ) (rest : Option (List Stage))
  | findForDone (task : ModifyTask)
  | saveDone (task : ModifyTask)

inductive Ans
  | row (pending : Pending)
  | poweredOff (answer : Bool)
  | goesOn (answer : Bool)
  | success (answer : Bool)
  | done

inductive Choice
  | answer
  | poweredOff (answer : Bool)
  | goesOn (answer : Bool)
  /-- A command that is reported as failed may have taken effect. -/
  | command (took success : Bool)

inductive Entry
  | modify (body : Document)
  | cancel
  | power
  | dispatch (index : ℕ)
  /-- A queued task is cancelled, or the task it depends on fails. -/
  | drop (index : ℕ)

def serve (w : Machine) : Pc → Choice → Option (Ans × Machine)
  | .systemStatus _, .poweredOff answer => some (.poweredOff answer, w)
  | .findForMerge _, .answer => some (.row w.pending, w)
  | .saveMerge body read, .answer =>
    some (.done, { w with
      pending := read.setAll (accrue w.accruals body)
      accruals := w.accruals + 1
      history := w.history ++ [.accrued w.accruals body read] })
  | .createModify body, .answer =>
    some (.done, { w with queue := w.queue ++ [⟨accrue 0 body, false⟩] })
  | .findForClear, .answer => some (.row w.pending, w)
  | .saveClear, .answer =>
    some (.done, { w with pending := [], history := w.history ++ [.cancelled w.pending] })
  | .findZone, .answer => some (.row w.pending, w)
  | .checks _, .goesOn answer => some (.goesOn answer, w)
  | .createApply read, .answer =>
    some (.done, { w with
      queue := w.queue ++ [⟨read, true⟩]
      openApplies := w.openApplies + 1 })
  | .zadmShow _, .answer => some (.done, w)
  | .command task stage _, .command took success =>
    let applied := if took && task.applyPending then
      stage.map fun e => Event.applied e.2.accrual e.1 else []
    some (.success (took && success), { w with history := w.history ++ applied })
  | .findForSync _ _ _, .answer => some (.row w.pending, w)
  | .saveSync _ read _ _, .answer => some (.done, { w with pending := read })
  | .findForDone _, .answer => some (.row w.pending, w)
  | .saveDone task, .answer =>
    some (.done, { w with pending := [], history := w.history ++ [.completed task.metadata] })
  | _, _ => none

/-- `executeCommand` answers its failures. -/
def canFail : Pc → Bool
  | .systemStatus _ => false
  | .command _ _ _ => false
  | _ => true

def endTask (w : Machine) (task : ModifyTask) (threw : Bool) : Machine × Next Pc :=
  (if task.applyPending then { w with openApplies := w.openApplies - 1 } else w, .finish threw)

def proceed (w : Machine) (task : ModifyTask) : Option (List Stage) → Machine × Next Pc
  | some (stage :: rest) => (w, .await (.command task stage rest))
  | some [] => (w, .await (.findForSync task 1 none))
  | none => if task.applyPending then (w, .await (.findForDone task)) else endTask w task false

/-- The task of an executor. -/
def Pc.task? : Pc → Option ModifyTask
  | .zadmShow task => some task
  | .command task _ _ => some task
  | .findForSync task _ _ => some task
  | .saveSync task _ _ _ => some task
  | .findForDone task => some task
  | .saveDone task => some task
  | _ => none

def resume (w : Machine) : Pc → Reply Ans → Machine × Next Pc
  | .systemStatus body, .answer (.poweredOff true) => (w, .await (.createModify body))
  | .systemStatus body, .answer (.poweredOff false) => (w, .await (.findForMerge body))
  | .findForMerge body, .answer (.row read) => (w, .await (.saveMerge body read))
  | .saveMerge _ _, .answer .done => (w, .finish false)
  | .createModify _, .answer .done => (w, .finish false)
  | .findForClear, .answer (.row _) => (w, .await .saveClear)
  | .saveClear, .answer .done => (w, .finish false)
  | .findZone, .answer (.row read) => (w, .await (.checks read))
  -- queuePendingApply queues nothing when nothing is pending
  | .checks read, .answer (.goesOn answer) =>
    (w, if answer && !read.isEmpty then .await (.createApply read) else .finish false)
  | .createApply _, .answer .done => (w, .finish false)
  | .zadmShow task, .answer .done => proceed w task (some (stages task.metadata))
  | .command task stage rest, .answer (.success true) =>
    (w, .await (.findForSync task (documentSaves stage) (some rest)))
  | .findForSync task saves rest, .answer (.row read) =>
    (w, .await (.saveSync task read saves rest))
  | .saveSync task _ saves rest, .answer .done =>
    if saves ≤ 1 then proceed w task rest else (w, .await (.findForSync task (saves - 1) rest))
  | .findForDone task, .answer (.row _) => (w, .await (.saveDone task))
  | .saveDone task, .answer .done => endTask w task false
  -- a clear that throws is narrated only
  | pc, _ =>
    match pc.task? with
    | some task => endTask w task true
    | none => (w, .finish true)

def enter (w : Machine) : Entry → Option (Machine × Next Pc)
  -- an object holds a key once; nothing accrues when the body has no infrastructure key
  | .modify body =>
    if body.keys.Nodup then
      some (w, .await (if body.isEmpty then .createModify body else .systemStatus body))
    else none
  | .cancel => some (w, .await .findForClear)
  | .power => some (w, .await .findZone)
  | .dispatch index =>
    w.queue[index]?.map fun task =>
      ({ w with queue := w.queue.eraseIdx index }, .await (.zadmShow task))
  | .drop index =>
    w.queue[index]?.map fun task => endTask { w with queue := w.queue.eraseIdx index } task false

def pendingProgram : Program Machine Pc Ans Choice Entry := ⟨serve, canFail, resume, enter⟩

abbrev PendingState := State Machine Pc Ans
abbrev PendingLabel := Label Choice Entry

def boot : PendingState := start ⟨[], [], 0, 0, []⟩

/-! ## The stored section -/

theorem plain_set (pending : Pending) (key : String) (a : Accrued) :
    Pending.plain (KeyedList.set pending key a) =
      KeyedList.set (Pending.plain pending) key a.value := by
  induction pending with
  | nil => rfl
  | cons e rest ih =>
    obtain ⟨key', a'⟩ := e
    by_cases hkey : key' = key
    · simp [KeyedList.set, Pending.plain, hkey]
    · simpa [KeyedList.set, Pending.plain, hkey] using ih

/-- The merge of the model is the source's writer, on values with their accruals. -/
theorem mergePendingChanges_plain (read : Pending) (accrual : ℕ) (body zoneConfig : Document)
    (h : zoneConfig.get "pending_changes" = some (.obj read.plain)) :
    mergePendingChanges body zoneConfig = some (zoneConfig.set "pending_changes"
      (.obj (Pending.plain (KeyedList.setAll read (accrue accrual body))))) := by
  have hset : ∀ (read : Pending), Pending.plain (KeyedList.setAll read (accrue accrual body)) =
      KeyedList.setAll (Pending.plain read) body := by
    induction body with
    | nil => exact fun _ => rfl
    | cons e rest ih =>
      intro read
      obtain ⟨key, value⟩ := e
      change Pending.plain (KeyedList.setAll (KeyedList.set read key ⟨accrual, value⟩)
        (accrue accrual rest)) = KeyedList.setAll (KeyedList.set (Pending.plain read) key value) rest
      rw [ih, plain_set]
  simp [mergePendingChanges, editSection, h, spread, hset]

end ZoneweaverAgent.PendingChanges
