import ZoneweaverAgent.TextLines
import ZoneweaverAgent.Transition

/-!
# The buffer of a console session

The writer of a session keeps the last lines of the console output in memory and writes them to the
session's row on a timer and on close. The dirty flag is cleared before the row is updated; an
update is under way for a while, may fail, and may land after one that was issued later.
-/

namespace ZoneweaverAgent.SessionBuffer
open TextLines Transition

abbrev Text := List Char

@[irreducible] def maxLines : ℕ := 1000

theorem maxLines_pos : 0 < maxLines := by
  unfold maxLines
  exact Nat.succ_pos _

/-- An update of the row under way, and whether `close` awaits it. -/
structure Update where
  buffer : Text
  closing : Bool
deriving DecidableEq

/-- `stored` is the column of the row. `resolved` says that a `close` is over, and `appended`
records the output of the session. -/
structure State where
  buffer : Text
  dirty : Bool
  timer : Bool
  closed : Bool
  updates : List Update
  stored : Text
  resolved : Bool
  appended : Text
deriving DecidableEq

/-- A writer for a session whose output so far is `earlier`, written by a writer before this one. -/
def createSessionBufferWriter (earlier : Text) : State where
  buffer := lastLines '\n' maxLines earlier
  dirty := false
  timer := false
  closed := false
  updates := []
  stored := lastLines '\n' maxLines earlier
  resolved := false
  appended := earlier

inductive Label
  | append (text : Text)
  | touch
  | timer
  | close
  | applied (k : ℕ)
  | failed (k : ℕ)
deriving DecidableEq

def schedule (s : State) : State := { s with dirty := true, timer := s.timer || !s.closed }

def append (s : State) (text : Text) : State :=
  schedule { s with
    buffer := lastLines '\n' maxLines (s.buffer ++ text)
    appended := s.appended ++ text }

def flush (closing : Bool) (s : State) : State :=
  if s.dirty then
    { s with timer := false, dirty := false, updates := s.updates ++ [⟨s.buffer, closing⟩] }
  else { s with timer := false, resolved := s.resolved || closing }

def close (s : State) : State := flush true { s with closed := true, timer := false }

/-- The update number `k` is over; `close` goes on after its own, whether it failed or not. -/
def settle (s : State) (k : ℕ) (update : Update) : State :=
  { s with updates := s.updates.eraseIdx k, resolved := s.resolved || update.closing }

def step (s : State) : Label → Option State
  | .append text => some (append s text)
  | .touch => some (schedule s)
  | .timer => if s.timer then some (flush false s) else none
  | .close => some (close s)
  | .applied k => s.updates[k]?.map fun update =>
    { settle s k update with stored := update.buffer }
  | .failed k => s.updates[k]?.map fun update => settle s k update

/-- The database works from the close on. -/
def Working (s : State) : Label → Prop
  | .failed _ => s.closed = false
  | _ => True

instance (s : State) : (l : Label) → Decidable (Working s l)
  | .append _ => .isTrue trivial
  | .touch => .isTrue trivial
  | .timer => .isTrue trivial
  | .close => .isTrue trivial
  | .applied _ => .isTrue trivial
  | .failed _ => inferInstanceAs (Decidable (s.closed = false))

structure LossFree (s : State) : Prop where
  window : s.buffer = lastLines '\n' maxLines s.appended
  persisted : s.resolved = true → s.stored = s.buffer

/-- An update that fails is not the last word about the buffer, and not the one of the close;
updates land in the order they were issued in; the writer is closed when it has something to write
or nothing under way, and gets no output later. -/
def Fits (s : State) : Label → Prop
  | .append _ => s.closed = false
  | .close => s.dirty = true ∨ s.updates = []
  | .applied k => k = 0
  | .failed k => (s.dirty = true ∨ k + 1 < s.updates.length) ∧
      ∀ update ∈ s.updates[k]?, update.closing = false
  | _ => True

instance (s : State) : (l : Label) → Decidable (Fits s l)
  | .append _ => inferInstanceAs (Decidable (s.closed = false))
  | .touch => .isTrue trivial
  | .timer => .isTrue trivial
  | .close => inferInstanceAs (Decidable (s.dirty = true ∨ s.updates = []))
  | .applied k => inferInstanceAs (Decidable (k = 0))
  | .failed k => inferInstanceAs (Decidable ((s.dirty = true ∨ k + 1 < s.updates.length) ∧
      ∀ update ∈ s.updates[k]?, update.closing = false))

/-- What the updates under way will have made of the column in the end. -/
def State.written (s : State) : Text := (s.updates.getLast?.map Update.buffer).getD s.stored

structure Truthful (s : State) : Prop where
  window : s.buffer = lastLines '\n' maxLines s.appended
  clean : s.dirty = false → s.written = s.buffer
  closing : ∀ update ∈ s.updates, update.closing = true →
    s.closed = true ∧ update.buffer = s.buffer
  later : s.updates.Pairwise fun update update' =>
    update.closing = true → update'.buffer = s.buffer
  resolved : s.resolved = true →
    s.closed = true ∧ s.stored = s.buffer ∧ ∀ update ∈ s.updates, update.buffer = s.buffer

variable {s s' : State}

theorem truthful_create (earlier : Text) : Truthful (createSessionBufferWriter earlier) where
  window := rfl
  clean _ := rfl
  closing _ h := by cases h
  later := .nil
  resolved h := by cases h

theorem Truthful.schedule (h : Truthful s) : Truthful (schedule s) :=
  ⟨h.window, nofun, h.closing, h.later, h.resolved⟩

/-- While the writer is open no update is the one of the close. -/
theorem Truthful.open (h : Truthful s) (hopen : s.closed = false) :
    s.resolved = false ∧ ∀ update ∈ s.updates, update.closing = false := by
  constructor
  · by_contra hresolved
    have hclosed := (h.resolved (by simpa using hresolved)).1
    rw [hopen] at hclosed
    cases hclosed
  · intro update hmem
    by_contra hclosing
    have hclosed := (h.closing update hmem (by simpa using hclosing)).1
    rw [hopen] at hclosed
    cases hclosed

theorem Truthful.append (h : Truthful s) (text : Text) (hopen : s.closed = false) :
    Truthful (append s text) := by
  obtain ⟨hresolved, hnever⟩ := h.open hopen
  constructor
  · change lastLines '\n' maxLines (s.buffer ++ text) = lastLines '\n' maxLines (s.appended ++ text)
    rw [h.window]
    exact lastLines_append maxLines_pos _ _
  · nofun
  · intro update hmem hclosing
    rw [hnever update hmem] at hclosing
    cases hclosing
  · refine List.pairwise_of_forall_mem_list fun update hmem _ _ hclosing => ?_
    rw [hnever update hmem] at hclosing
    cases hclosing
  · intro hover
    cases hresolved.symm.trans hover

/-- A flush that closes finds the writer closed, and nothing of the row left to others unless it
writes the row itself. -/
theorem Truthful.flush (h : Truthful s) (closing : Bool) (hclosed : closing = true → s.closed = true)
    (hidle : closing = true → s.dirty = true ∨ s.updates = []) :
    Truthful (flush closing s) := by
  unfold SessionBuffer.flush
  split_ifs with hdirty
  · refine ⟨h.window, ?_, ?_, ?_, ?_⟩
    · intro _
      simp [State.written]
    · intro update hmem hclosing
      rcases List.mem_append.mp hmem with hold | hnew
      · exact h.closing update hold hclosing
      · rw [List.mem_singleton.mp hnew] at hclosing ⊢
        exact ⟨hclosed hclosing, rfl⟩
    · refine List.pairwise_append.mpr ⟨h.later, List.pairwise_singleton _ _, ?_⟩
      intro _ _ update hnew _
      rw [List.mem_singleton.mp hnew]
    · intro hresolved
      obtain ⟨hclosed', hstored, hrest⟩ := h.resolved hresolved
      refine ⟨hclosed', hstored, fun update hmem => ?_⟩
      rcases List.mem_append.mp hmem with hold | hnew
      · exact hrest update hold
      · rw [List.mem_singleton.mp hnew]
  · refine ⟨h.window, h.clean, h.closing, h.later, ?_⟩
    intro hresolved
    cases closing with
    | false => exact h.resolved (by simpa using hresolved)
    | true =>
      have hnone := (hidle rfl).resolve_left hdirty
      have hstored := h.clean (by simpa using hdirty)
      rw [State.written, hnone] at hstored
      exact ⟨hclosed rfl, hstored, by simp [hnone]⟩

theorem Truthful.close (h : Truthful s) (hidle : s.dirty = true ∨ s.updates = []) :
    Truthful (close s) := by
  apply Truthful.flush
  · exact ⟨h.window, h.clean, fun update hmem hclosing => ⟨rfl, (h.closing update hmem hclosing).2⟩,
      h.later, fun hresolved => ⟨rfl, (h.resolved hresolved).2⟩⟩
  · exact fun _ => rfl
  · exact fun _ => hidle

theorem Truthful.applied (h : Truthful s) {update : Update} {rest : List Update}
    (hupdates : s.updates = update :: rest) :
    Truthful { settle s 0 update with stored := update.buffer } := by
  have herase : s.updates.eraseIdx 0 = rest := by rw [hupdates, List.eraseIdx_cons_zero]
  have hlater := h.later
  rw [hupdates] at hlater
  obtain ⟨hfirst, hlater⟩ := List.pairwise_cons.mp hlater
  have hmem : update ∈ s.updates := by
    rw [hupdates]
    exact List.mem_cons_self
  have hrest : ∀ update' ∈ rest, update' ∈ s.updates := by
    rw [hupdates]
    exact fun _ => List.mem_cons_of_mem update
  refine ⟨h.window, ?_, ?_, ?_, ?_⟩
  · intro hclean
    have hwritten := h.clean hclean
    rw [State.written, hupdates] at hwritten
    simp only [State.written, settle, herase]
    cases rest with
    | nil => exact hwritten
    | cons next rest =>
      rw [List.getLast?_cons_cons, List.getLast?_eq_some_getLast (List.cons_ne_nil next rest)]
        at hwritten
      rw [List.getLast?_eq_some_getLast (List.cons_ne_nil next rest)]
      exact hwritten
  · intro update' hmem'
    simp only [settle, herase] at hmem'
    exact h.closing update' (hrest update' hmem')
  · simpa only [settle, herase] using hlater
  · intro hresolved
    simp only [settle, herase, Bool.or_eq_true] at hresolved ⊢
    rcases hresolved with hresolved | hclosing
    · obtain ⟨hclosed, _, hall⟩ := h.resolved hresolved
      exact ⟨hclosed, hall update hmem, fun update' hmem' => hall update' (hrest update' hmem')⟩
    · obtain ⟨hclosed, hbuffer⟩ := h.closing update hmem hclosing
      exact ⟨hclosed, hbuffer, fun update' hmem' => hfirst update' hmem' hclosing⟩

theorem Truthful.failed (h : Truthful s) {k : ℕ} {update : Update}
    (hlast : s.dirty = true ∨ k + 1 < s.updates.length) (hclosing : update.closing = false) :
    Truthful (settle s k update) := by
  have hresolved : (settle s k update).resolved = s.resolved := by
    simp [settle, hclosing]
  refine ⟨h.window, ?_, ?_, ?_, ?_⟩
  · intro hclean
    have hmore := hlast.resolve_left (by
      rw [show s.dirty = false from hclean]
      nofun)
    have hgetLast : (s.updates.eraseIdx k).getLast? = s.updates.getLast? := by
      rw [List.getLast?_eq_getElem?, List.getLast?_eq_getElem?, List.length_eraseIdx_of_lt (by omega),
        List.getElem?_eraseIdx_of_ge (by omega), Nat.sub_add_cancel (by omega)]
    rw [State.written, settle, hgetLast]
    exact h.clean hclean
  · exact fun update' hmem => h.closing update' (List.mem_of_mem_eraseIdx hmem)
  · exact h.later.sublist (List.eraseIdx_sublist _ _)
  · rw [hresolved]
    intro hresolved
    obtain ⟨hclosed, hstored, hall⟩ := h.resolved hresolved
    exact ⟨hclosed, hstored, fun update' hmem => hall update' (List.mem_of_mem_eraseIdx hmem)⟩

theorem Truthful.step (h : Truthful s) {l : Label} (hfits : Fits s l) (hstep : step s l = some s') :
    Truthful s' := by
  cases l with
  | append text =>
    cases hstep
    exact h.append text hfits
  | touch =>
    cases hstep
    exact h.schedule
  | timer =>
    simp only [SessionBuffer.step] at hstep
    split_ifs at hstep
    cases hstep
    exact h.flush false nofun nofun
  | close =>
    cases hstep
    exact h.close hfits
  | applied k =>
    obtain ⟨update, hupdate, rfl⟩ := Option.map_eq_some_iff.mp hstep
    cases (show k = 0 from hfits)
    obtain ⟨rest, hrest⟩ : ∃ rest, s.updates = update :: rest := by
      obtain ⟨_, hget⟩ := List.head?_eq_some_iff.mp (List.head?_eq_getElem?.trans hupdate)
      exact ⟨_, hget⟩
    exact h.applied hrest
  | failed k =>
    obtain ⟨update, hupdate, rfl⟩ := Option.map_eq_some_iff.mp hstep
    exact h.failed hfits.1 (hfits.2 update hupdate)

theorem loss_free {earlier : Text} (h : Reaches step Fits (createSessionBufferWriter earlier) s) :
    LossFree s := by
  have hs := h.invariant (truthful_create earlier) fun _ _ _ hs hfits hstep => hs.step hfits hstep
  exact ⟨hs.window, fun hresolved => (hs.resolved hresolved).2.1⟩

/-- A flush fails while later output waits for the next one. -/
theorem loss_free_retried : ∃ s, Reaches step Fits (createSessionBufferWriter "x\n".toList) s ∧
    LossFree s ∧ s.resolved = true ∧ s.stored = "x\nab".toList := by
  obtain ⟨s, hreach, hresolved⟩ := exists_reaches_of_run step Fits
    (createSessionBufferWriter "x\n".toList)
    [.append ['a'], .timer, .append ['b'], .failed 0, .close, .applied 0]
    (P := fun s => s.resolved = true ∧ s.stored = "x\nab".toList) (by decide +kernel)
  exact ⟨s, hreach, loss_free hreach, hresolved⟩

/-- The only flush of the output fails, and the close finds nothing left to write. -/
theorem loss_free_fails : ¬ ∀ (earlier : Text) (s : State),
    Reaches step Working (createSessionBufferWriter earlier) s → LossFree s := by
  intro h
  obtain ⟨s, hreach, hresolved, hlost⟩ := exists_reaches_of_run step Working
    (createSessionBufferWriter []) [.append ['a'], .timer, .failed 0, .close]
    (P := fun s => s.resolved = true ∧ s.stored ≠ s.buffer) (by decide +kernel)
  exact hlost ((h _ s hreach).persisted hresolved)

end ZoneweaverAgent.SessionBuffer
