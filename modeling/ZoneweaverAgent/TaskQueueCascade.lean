import Mathlib.Data.Finset.Card
import Mathlib.Logic.Relation
import ZoneweaverAgent.EventLoopAlone
import ZoneweaverAgent.TaskQueueSteps

/-!
# The cascade of a cancel request

A cancel request for an anchor closes the anchor first and then calls itself for the children it
finds pending or running. The cascade is a depth-first walk that changes the tree it walks: `Sweep`
says that a child with work left under a closed anchor is still to be called, and that only rows
that hang from the root through running anchors are touched.
-/

namespace ZoneweaverAgent.TaskQueue
open EventLoop

section Rows
variable (w : World) (id root : TaskId)

/-- Running in the database but not in this process. -/
def Anchored : Prop := w.table.status id = some .running ∧ w.taskControls.has id = false

/-- Running in this process. -/
def Dispatched : Prop := w.table.status id = some .running ∧ w.taskControls.has id = true

/-- A cancellation still has something to do here. -/
def Todo : Prop :=
  w.table.status id = some .pending ∨
    w.table.status id = some .running ∧ w.taskControls.get id ≠ some ⟨true⟩

instance : Decidable (Anchored w id) := inferInstanceAs (Decidable (_ ∧ _))

instance : Decidable (Dispatched w id) := inferInstanceAs (Decidable (_ ∧ _))

instance : Decidable (Todo w id) := inferInstanceAs (Decidable (_ ∨ _))

def ChildOf (tb : Table) (c a : TaskId) : Prop :=
  (tb.find c).map Task.parentTaskId = some (some a)

instance (tb : Table) (c a : TaskId) : Decidable (ChildOf tb c a) :=
  inferInstanceAs (Decidable (_ = _))

def Descendant (tb : Table) (q root : TaskId) : Prop := Relation.TransGen (ChildOf tb) q root

/-- Below the root, with nothing but running anchors in between. -/
inductive Hangs : TaskId → Prop
  | child {c : TaskId} : ChildOf w.table c root → Hangs c
  | under {a c : TaskId} : Hangs a → Anchored w a → ChildOf w.table c a → Hangs c

end Rows

section
variable {w w' w'' : World} {id root : TaskId}

theorem Anchored.todo (h : Anchored w id) : Todo w id := by
  refine .inr ⟨h.1, fun hget => ?_⟩
  have hhas := h.2
  rw [KeyedList.has, hget] at hhas
  cases hhas

theorem Anchored.lt (h : Anchored w id) : id < w.table.next := Table.status_lt h.1

/-- Every row is as it was or has been cancelled while it waited or as a running anchor, and every
control is as it was or has been marked. -/
structure Lowers (w w' : World) : Prop where
  next : w'.table.next = w.table.next
  parents : ∀ q, (w'.table.find q).map Task.parentTaskId = (w.table.find q).map Task.parentTaskId
  status : ∀ q, w'.table.status q = w.table.status q ∨ w'.table.status q = some .cancelled ∧
    (w.table.status q = some .pending ∨ w.table.status q = some .prepared ∨ Anchored w q)
  control : ∀ q, w'.taskControls.get q = w.taskControls.get q ∨
    w.taskControls.has q = true ∧ w'.taskControls.get q = some ⟨true⟩

namespace Lowers

theorem refl (w : World) : Lowers w w :=
  ⟨rfl, fun _ => rfl, fun _ => .inl rfl, fun _ => .inl rfl⟩

theorem record (w : World) (e : Event) : Lowers w (w.record e) :=
  ⟨rfl, fun _ => rfl, fun _ => .inl rfl, fun _ => .inl rfl⟩

theorem has (h : Lowers w w') (q : TaskId) : w'.taskControls.has q = w.taskControls.has q := by
  rcases h.control q with heq | ⟨hhas, hget⟩
  · rw [KeyedList.has, KeyedList.has, heq]
  · rw [hhas, KeyedList.has, hget]
    rfl

theorem childOf (h : Lowers w w') {c a : TaskId} : ChildOf w'.table c a ↔ ChildOf w.table c a := by
  rw [ChildOf, ChildOf, h.parents]

theorem anchored (h : Lowers w w') (ha : Anchored w' id) : Anchored w id := by
  refine ⟨?_, (h.has id).symm.trans ha.2⟩
  rcases h.status id with heq | ⟨hc, -⟩
  · exact heq ▸ ha.1
  · cases hc.symm.trans ha.1

theorem pending (h : Lowers w w') (hp : w'.table.status id = some .pending) :
    w.table.status id = some .pending := by
  rcases h.status id with heq | ⟨hc, -⟩
  · exact heq ▸ hp
  · cases hc.symm.trans hp

theorem running (h : Lowers w w') (hr : w'.table.status id = some .running) :
    w.table.status id = some .running := by
  rcases h.status id with heq | ⟨hc, -⟩
  · exact heq ▸ hr
  · cases hc.symm.trans hr

theorem cancelled (h : Lowers w w') (hc : w.table.status id = some .cancelled) :
    w'.table.status id = some .cancelled := by
  rcases h.status id with heq | ⟨hc', -⟩
  · rw [heq, hc]
  · exact hc'

theorem todo (h : Lowers w w') (ht : Todo w' id) : Todo w id := by
  rcases ht with hp | ⟨hr, hget⟩
  · exact .inl (h.pending hp)
  · refine .inr ⟨h.running hr, ?_⟩
    rcases h.control id with heq | ⟨-, hmarked⟩
    · rwa [← heq]
    · exact absurd hmarked hget

theorem trans (h : Lowers w w') (h' : Lowers w' w'') : Lowers w w'' where
  next := h'.next.trans h.next
  parents q := (h'.parents q).trans (h.parents q)
  status q := by
    rcases h'.status q with heq | ⟨hc, hold⟩
    · rcases h.status q with heq' | ⟨hc', hold⟩
      · exact .inl (heq.trans heq')
      · exact .inr ⟨heq.trans hc', hold⟩
    · rcases h.status q with heq' | ⟨hc', hold'⟩
      · refine .inr ⟨hc, ?_⟩
        rw [← heq']
        exact hold.imp id (Or.imp id h.anchored)
      · exact .inr ⟨hc, hold'⟩
  control q := by
    rcases h'.control q with heq | ⟨hhas, hmarked⟩
    · rcases h.control q with heq' | ⟨hhas', hmarked'⟩
      · exact .inl (heq.trans heq')
      · exact .inr ⟨hhas', heq.trans hmarked'⟩
    · exact .inr ⟨(h.has q).symm.trans hhas, hmarked⟩

end Lowers

/-- The anchors that are still running; a cascade ends because it closes them. -/
def openAnchors (w : World) : Finset TaskId :=
  (Finset.range w.table.next).filter (Anchored w)

theorem mem_openAnchors : id ∈ openAnchors w ↔ Anchored w id := by
  simp only [openAnchors, Finset.mem_filter, Finset.mem_range, and_iff_right_iff_imp]
  exact Anchored.lt

theorem Lowers.openAnchors_subset (h : Lowers w w') : openAnchors w' ⊆ openAnchors w := by
  intro q hq
  rw [mem_openAnchors] at hq ⊢
  exact h.anchored hq

/-- The row `id` is cancelled and nothing else. -/
structure RowCancelled (w : World) (id : TaskId) (w' : World) : Prop where
  next : w'.table.next = w.table.next
  parents : ∀ q, (w'.table.find q).map Task.parentTaskId = (w.table.find q).map Task.parentTaskId
  status : ∀ q, w'.table.status q = if q = id then some .cancelled else w.table.status q
  control : ∀ q, w'.taskControls.get q = w.taskControls.get q

theorem RowCancelled.lowers (h : RowCancelled w id w') (hid : w.table.status id = some .pending ∨
    w.table.status id = some .prepared ∨ Anchored w id) : Lowers w w' := by
  refine ⟨h.next, h.parents, fun q => ?_, fun q => .inl (h.control q)⟩
  rw [h.status]
  by_cases hq : q = id
  · subst hq
    rw [if_pos rfl]
    exact .inr ⟨rfl, hid⟩
  · rw [if_neg hq]
    exact .inl rfl

theorem RowCancelled.cancelled (h : RowCancelled w id w') :
    w'.table.status id = some .cancelled := by
  rw [h.status, if_pos rfl]

theorem not_todo_of_cancelled (h : w.table.status id = some .cancelled) : ¬Todo w id := by
  rintro (hp | ⟨hr, -⟩)
  · cases h.symm.trans hp
  · cases h.symm.trans hr

theorem RowCancelled.openAnchors_lt (h : RowCancelled w id w') (hid : Anchored w id) :
    (openAnchors w').card < (openAnchors w).card := by
  apply Finset.card_lt_card
  apply (h.lowers (.inr (.inr hid))).openAnchors_subset.ssubset_of_mem_notMem
    (mem_openAnchors.mpr hid)
  intro hmem
  exact not_todo_of_cancelled h.cancelled (mem_openAnchors.mp hmem).todo

end

/-! ## What a walk in progress keeps -/

/-- A row that the cascade calls itself for. -/
def Reached (w : World) (root q : TaskId) : Prop :=
  Hangs w root q ∧ (w.table.status q = some .pending ∨ w.table.status q = some .running)

/-- A cascade that started from `root` in the world `w₀` and still has to call the rows `left`. -/
structure Sweep (w₀ : World) (root : TaskId) (left : TaskId → Prop) (w : World) : Prop where
  lowers : Lowers w₀ w
  untouched : ∀ q, q ≠ root → ¬Reached w₀ root q → w.table.status q = w₀.table.status q ∧
    w.taskControls.get q = w₀.taskControls.get q
  swept : ∀ a c, Anchored w₀ a → w.table.status a = some .cancelled → ChildOf w₀.table c a →
    Todo w c → left c

section
variable {w₀ w w' : World} {root id : TaskId} {left left' : TaskId → Prop}

theorem Sweep.mono (h : Sweep w₀ root left w) (hleft : ∀ q, left q → left' q) :
    Sweep w₀ root left' w :=
  ⟨h.lowers, h.untouched, fun a c ha hcancelled hc htodo =>
    hleft c (h.swept a c ha hcancelled hc htodo)⟩

theorem Sweep.record (h : Sweep w₀ root left w) (e : Event) : Sweep w₀ root left (w.record e) :=
  ⟨h.lowers.trans (.record w e), h.untouched, h.swept⟩

theorem Sweep.skip (h : Sweep w₀ root (fun q => q = id ∨ left q) w) (hid : ¬Todo w id) :
    Sweep w₀ root left w := by
  refine ⟨h.lowers, h.untouched, fun a c ha hcancelled hc htodo => ?_⟩
  rcases h.swept a c ha hcancelled hc htodo with rfl | hleft
  · exact absurd htodo hid
  · exact hleft

theorem Sweep.cancelRow (h : Sweep w₀ root (fun q => q = id ∨ left q) w)
    (hid : id = root ∨ Reached w₀ root id) (hrow : RowCancelled w id w')
    (hopen : w.table.status id = some .pending ∨ w.table.status id = some .prepared ∨
      Anchored w id)
    (hleft : ∀ q, left q → left' q)
    (hchildren : Anchored w₀ id → ∀ c, ChildOf w₀.table c id → Todo w' c → left' c) :
    Sweep w₀ root left' w' := by
  have hlowers := hrow.lowers hopen
  refine ⟨h.lowers.trans hlowers, fun q hroot hreached => ?_, fun a c ha hcancelled hc htodo => ?_⟩
  · have hne : q ≠ id := by
      rintro rfl
      exact hid.elim hroot hreached
    rw [hrow.status, if_neg hne, hrow.control]
    exact h.untouched q hroot hreached
  · by_cases haid : a = id
    · subst haid
      exact hchildren ha c hc htodo
    · rw [hrow.status, if_neg haid] at hcancelled
      rcases h.swept a c ha hcancelled hc (hlowers.todo htodo) with rfl | hc'
      · exact absurd htodo (not_todo_of_cancelled hrow.cancelled)
      · exact hleft c hc'

/-- The control of the row is marked and nothing else. -/
structure ControlMarked (w : World) (id : TaskId) (w' : World) : Prop where
  table : w'.table = w.table
  control : ∀ q, w'.taskControls.get q = if id = q then some ⟨true⟩ else w.taskControls.get q

theorem ControlMarked.lowers (h : ControlMarked w id w') (hid : w.taskControls.has id = true) :
    Lowers w w' := by
  refine ⟨by rw [h.table], fun q => by rw [h.table], fun q => .inl (by rw [h.table]), fun q => ?_⟩
  rw [h.control]
  by_cases hq : id = q
  · subst hq
    rw [if_pos rfl]
    exact .inr ⟨hid, rfl⟩
  · rw [if_neg hq]
    exact .inl rfl

theorem Sweep.mark (h : Sweep w₀ root (fun q => q = id ∨ left q) w)
    (hid : id = root ∨ Reached w₀ root id) (hmark : ControlMarked w id w')
    (hrun : w.table.status id = some .running) (hhas : w.taskControls.has id = true) :
    Sweep w₀ root left w' := by
  have hlowers := hmark.lowers hhas
  refine ⟨h.lowers.trans hlowers, fun q hroot hreached => ?_, fun a c ha hcancelled hc htodo => ?_⟩
  · have hne : id ≠ q := by
      rintro rfl
      exact hid.elim hroot hreached
    rw [hmark.table, hmark.control, if_neg hne]
    exact h.untouched q hroot hreached
  · rw [hmark.table] at hcancelled
    rcases h.swept a c ha hcancelled hc (hlowers.todo htodo) with rfl | hleft
    · rcases htodo with hp | ⟨-, hget⟩
      · rw [hmark.table, hrun] at hp
        cases hp
      · exact absurd (by rw [hmark.control, if_pos rfl]) hget
    · exact hleft

end

end ZoneweaverAgent.TaskQueue
