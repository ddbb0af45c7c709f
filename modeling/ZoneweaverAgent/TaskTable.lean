import Mathlib.Data.Int.Order.Basic
import Mathlib.Data.List.Nodup

/-!
# The tasks table

The rows of the task queue and the statements the queue runs against them. A row's identifier is
minted by the table, so no two inserts ever share one and a deleted identifier does not come back.
Dates are readings of a clock that never goes back.
-/

namespace ZoneweaverAgent

abbrev TaskId := ℕ

inductive Status
  | pending
  | prepared
  | running
  | completed
  | completedWithErrors
  | failed
  | cancelled
  deriving DecidableEq, Repr

namespace Status

/-- The statuses the retention cleanup deletes. -/
def terminal : Status → Bool
  | pending | prepared | running => false
  | completed | completedWithErrors | failed | cancelled => true

/-- How far a row is on its way to a dispatch. -/
def rank : Status → ℕ
  | prepared => 0
  | pending => 1
  | _ => 2

end Status

/-- What `progress_info` holds: the rollup's counts, or the note of a completed task. -/
inductive ProgressInfo
  | rollup (completedTasks failedTasks totalTasks : ℕ) (status : Status)
  | done (completedAt : ℕ)
  deriving DecidableEq

structure Task where
  id : TaskId
  zoneName : String
  operation : String
  status : Status := .pending
  priority : ℤ := 60
  dependsOn : Option TaskId := none
  parentTaskId : Option TaskId := none
  errorMessage : Option String := none
  createdAt : ℕ := 0
  startedAt : Option ℕ := none
  completedAt : Option ℕ := none
  progressPercent : ℕ := 0
  progressInfo : Option ProgressInfo := none
  deriving DecidableEq

/-- The assignments of an `UPDATE`; a column that is `none` keeps its value. -/
structure Patch where
  status : Option Status := none
  errorMessage : Option (Option String) := none
  startedAt : Option ℕ := none
  completedAt : Option ℕ := none
  progressPercent : Option ℕ := none
  progressInfo : Option ProgressInfo := none
  deriving DecidableEq

def Task.patch (t : Task) (u : Patch) : Task :=
  { t with
    status := u.status.getD t.status
    errorMessage := u.errorMessage.getD t.errorMessage
    startedAt := u.startedAt.orElse fun _ => t.startedAt
    completedAt := u.completedAt.orElse fun _ => t.completedAt
    progressPercent := u.progressPercent.getD t.progressPercent
    progressInfo := u.progressInfo.orElse fun _ => t.progressInfo }

@[simp] theorem Task.patch_id (t : Task) (u : Patch) : (t.patch u).id = t.id := rfl

@[simp] theorem Task.patch_zoneName (t : Task) (u : Patch) : (t.patch u).zoneName = t.zoneName :=
  rfl

@[simp] theorem Task.patch_operation (t : Task) (u : Patch) :
    (t.patch u).operation = t.operation := rfl

@[simp] theorem Task.patch_dependsOn (t : Task) (u : Patch) :
    (t.patch u).dependsOn = t.dependsOn := rfl

@[simp] theorem Task.patch_parentTaskId (t : Task) (u : Patch) :
    (t.patch u).parentTaskId = t.parentTaskId := rfl

@[simp] theorem Task.patch_status (t : Task) (u : Patch) :
    (t.patch u).status = u.status.getD t.status := rfl

/-- The references of a row, which no status write touches. -/
def Task.links (t : Task) : Option TaskId × Option TaskId := (t.dependsOn, t.parentTaskId)

structure Table where
  rows : List Task
  next : TaskId
  fresh : ∀ t ∈ rows, t.id < next
  unique : (rows.map Task.id).Nodup

namespace Table

def empty : Table := ⟨[], 0, by simp, by simp⟩

def find (tb : Table) (id : TaskId) : Option Task := tb.rows.find? (fun t => t.id = id)

def status (tb : Table) (id : TaskId) : Option Status := (tb.find id).map Task.status

/-- The rank of a row, and that of a row not inserted yet. -/
def rank (tb : Table) (id : TaskId) : ℕ := (tb.status id).elim 0 Status.rank

/-- `findAll`. -/
def select (tb : Table) (p : Task → Bool) : List Task := tb.rows.filter p

def update (tb : Table) (p : Task → Bool) (u : Patch) : Table where
  rows := tb.rows.map (fun t => if p t then t.patch u else t)
  next := tb.next
  fresh := by
    intro t ht
    obtain ⟨t₀, h₀, rfl⟩ := List.mem_map.mp ht
    have := tb.fresh t₀ h₀
    split_ifs <;> simpa using this
  unique := by
    rw [List.map_map]
    convert tb.unique using 2
    funext t
    by_cases h : p t <;> simp [h]

/-- Insert `d` under the next identifier. -/
def create (tb : Table) (d : Task) : Table where
  rows := tb.rows ++ [{ d with id := tb.next }]
  next := tb.next + 1
  fresh := by
    intro t ht
    rcases List.mem_append.mp ht with h | h
    · exact Nat.lt_succ_of_lt (tb.fresh t h)
    · rw [List.mem_singleton.mp h]
      exact Nat.lt_succ_self _
  unique := by
    rw [List.map_append, List.nodup_append]
    refine ⟨tb.unique, by simp, ?_⟩
    intro i hi j hj
    obtain ⟨t, ht, rfl⟩ := List.mem_map.mp hi
    have hj' : j = tb.next := by simpa using hj
    rw [hj']
    exact Nat.ne_of_lt (tb.fresh t ht)

def destroy (tb : Table) (p : Task → Bool) : Table where
  rows := tb.rows.filter (fun t => !p t)
  next := tb.next
  fresh := fun t ht => tb.fresh t (List.mem_of_mem_filter ht)
  unique := tb.unique.sublist (List.filter_sublist.map _)

/-- Forget the references to rows that no longer exist: the self references of the table are
declared as associations, and the foreign keys made from them are set to null when the row they
name is deleted. -/
def unlink (tb : Table) : Table where
  rows := tb.rows.map (fun t =>
    { t with
      dependsOn := t.dependsOn.filter (fun d => (tb.find d).isSome)
      parentTaskId := t.parentTaskId.filter (fun d => (tb.find d).isSome) })
  next := tb.next
  fresh := by
    intro t ht
    obtain ⟨t₀, h₀, rfl⟩ := List.mem_map.mp ht
    exact tb.fresh t₀ h₀
  unique := by
    rw [List.map_map]
    exact tb.unique

theorem find_id {tb : Table} {id : TaskId} {t : Task} (h : tb.find id = some t) : t.id = id := by
  simpa using List.find?_some h

theorem find_mem {tb : Table} {id : TaskId} {t : Task} (h : tb.find id = some t) : t ∈ tb.rows :=
  List.mem_of_find?_eq_some h

theorem find_lt {tb : Table} {id : TaskId} {t : Task} (h : tb.find id = some t) : id < tb.next := by
  rw [← find_id h]
  exact tb.fresh t (find_mem h)

theorem status_lt {tb : Table} {id : TaskId} {x : Status} (h : tb.status id = some x) :
    id < tb.next := by
  obtain ⟨t, ht, _⟩ := Option.map_eq_some_iff.mp h
  exact find_lt ht

theorem status_of_find {tb : Table} {id : TaskId} {t : Task} (h : tb.find id = some t) :
    tb.status id = some t.status := by
  simp only [status, h, Option.map_some]

@[simp] theorem update_next (tb : Table) (p : Task → Bool) (u : Patch) :
    (tb.update p u).next = tb.next := rfl

@[simp] theorem unlink_next (tb : Table) : tb.unlink.next = tb.next := rfl

@[simp] theorem destroy_next (tb : Table) (p : Task → Bool) : (tb.destroy p).next = tb.next := rfl

@[simp] theorem create_next (tb : Table) (d : Task) : (tb.create d).next = tb.next + 1 := rfl

theorem find_update (tb : Table) (p : Task → Bool) (u : Patch) (id : TaskId) :
    (tb.update p u).find id =
      (tb.find id).map (fun t => if p t then t.patch u else t) := by
  have hid : (fun t => decide (t.id = id)) ∘ (fun t : Task => if p t then t.patch u else t) =
      fun t => decide (t.id = id) := by
    funext t
    by_cases h : p t <;> simp [h]
  simp only [find, update, List.find?_map, hid]

theorem status_update (tb : Table) (p : Task → Bool) (u : Patch) (id : TaskId) :
    (tb.update p u).status id =
      (tb.find id).map (fun t => if p t then u.status.getD t.status else t.status) := by
  simp only [status, find_update, Option.map_map]
  congr 1
  funext t
  by_cases h : p t <;> simp [h]

theorem links_update (tb : Table) (p : Task → Bool) (u : Patch) (id : TaskId) :
    ((tb.update p u).find id).map Task.links = (tb.find id).map Task.links := by
  rw [find_update, Option.map_map]
  congr 1
  funext t
  by_cases h : p t <;> simp [Task.links, h]

/-- An update of the row `id` alone. -/
def updateId (tb : Table) (id : TaskId) (u : Patch) : Table := tb.update (fun t => t.id = id) u

@[simp] theorem updateId_next (tb : Table) (id : TaskId) (u : Patch) :
    (tb.updateId id u).next = tb.next := rfl

theorem status_updateId (tb : Table) (id id' : TaskId) (u : Patch) :
    (tb.updateId id u).status id' =
      if id' = id then (tb.status id').map u.status.getD else tb.status id' := by
  rw [updateId, status_update, status]
  cases h : tb.find id' with
  | none => simp
  | some t => by_cases hid : id' = id <;> simp [find_id h, hid]

theorem find_create_of_lt (tb : Table) (d : Task) {id : TaskId} (h : id < tb.next) :
    (tb.create d).find id = tb.find id := by
  have hne : tb.next ≠ id := Nat.ne_of_gt h
  simp [find, create, List.find?_append, hne]

theorem find_create_self (tb : Table) (d : Task) :
    (tb.create d).find tb.next = some { d with id := tb.next } := by
  have hnone : tb.rows.find? (fun t => t.id = tb.next) = none := by
    apply List.find?_eq_none.mpr
    intro t ht
    simpa using Nat.ne_of_lt (tb.fresh t ht)
  simp [find, create, List.find?_append, hnone]

theorem status_create_of_lt (tb : Table) (d : Task) {id : TaskId} (h : id < tb.next) :
    (tb.create d).status id = tb.status id := by
  rw [status, find_create_of_lt tb d h, status]

theorem find_eq_some_iff {tb : Table} {id : TaskId} {t : Task} :
    tb.find id = some t ↔ t ∈ tb.rows ∧ t.id = id := by
  refine ⟨fun h => ⟨find_mem h, find_id h⟩, ?_⟩
  rintro ⟨hmem, hid⟩
  cases hf : tb.find id with
  | none =>
    have := List.find?_eq_none.mp hf t hmem
    simp [hid] at this
  | some t' =>
    have heq : t'.id = t.id := (find_id hf).trans hid.symm
    rw [List.inj_on_of_nodup_map tb.unique (find_mem hf) hmem heq]

/-- Deleting rows leaves a row as it was or takes it away. -/
theorem find_destroy {tb : Table} {p : Task → Bool} {id : TaskId} {t : Task} :
    (tb.destroy p).find id = some t ↔ tb.find id = some t ∧ p t = false := by
  simp only [find_eq_some_iff, destroy, List.mem_filter, Bool.not_eq_true']
  tauto

theorem find_unlink (tb : Table) (id : TaskId) :
    tb.unlink.find id = (tb.find id).map (fun t =>
      { t with
        dependsOn := t.dependsOn.filter (fun d => (tb.find d).isSome)
        parentTaskId := t.parentTaskId.filter (fun d => (tb.find d).isSome) }) := by
  simp only [find, unlink, List.find?_map]
  rfl

@[simp] theorem status_unlink (tb : Table) (id : TaskId) : tb.unlink.status id = tb.status id := by
  simp only [status, find_unlink, Option.map_map]
  rfl

end Table
end ZoneweaverAgent
