import Mathlib.Algebra.BigOperators.Group.List.Basic
import Mathlib.Algebra.GroupWithZero.Nat
import ZoneweaverAgent.JsonValue
import ZoneweaverAgent.Transition

/-!
# Resizing the disks of a machine

The entries of a request are applied one after the other, and the first refusal ends the batch. A
volume grows if its pool has the difference available, and shrinks on request while the machine is
off. A thick volume reserves its size in the pool; a sparse one reserves nothing.
-/

namespace ZoneweaverAgent.MachineDiskResize
open Transition

abbrev Text := List Char

section Sizes

def isDigit (c : Char) : Bool := '0' ≤ c && c ≤ '9'

def digitsValue (digits : Text) : ℕ :=
  digits.foldl (fun value c => value * 10 + (c.toNat - '0'.toNat)) 0

/-- `SIZE_FACTORS`, upper or lower case -/
def sizeFactor (unit : Char) : Option ℕ :=
  match unit.toUpper with
  | 'K' => some 1024
  | 'M' => some (1024 ^ 2)
  | 'G' => some (1024 ^ 3)
  | 'T' => some (1024 ^ 4)
  | 'P' => some (1024 ^ 5)
  | _ => none

/-- `[KMGTP]?B?$` -/
def suffixFactor : Text → Option ℕ
  | [] => some 1
  | [c] => if c.toUpper = 'B' then some 1 else sizeFactor c
  | [c, b] => if b.toUpper = 'B' then sizeFactor c else none
  | _ => none

/-- The digits before and after the point, and what follows the number. -/
def number? (text : Text) : Option (Text × Text × Text) :=
  let whole := text.takeWhile isDigit
  if whole = [] then none
  else
    match text.dropWhile isDigit with
    | '.' :: rest =>
      let decimals := rest.takeWhile isDigit
      if decimals = [] then none else some (whole, decimals, rest.dropWhile isDigit)
    | rest => some (whole, [], rest)

/-- The bytes, rounded half up. -/
def parseSizeToBytes (size : String) : Option ℕ := do
  let text := ((size.toList.dropWhile isTrimmed).reverse.dropWhile isTrimmed).reverse
  let (whole, decimals, suffix) ← number? text
  let factor ← suffixFactor suffix
  let scale := 10 ^ decimals.length
  return (2 * digitsValue (whole ++ decimals) * factor + scale) / (2 * scale)

end Sizes

section Zfs

structure Volume where
  volsize : ℕ
  sparse : Bool

structure World where
  volumes : String → Option Volume
  available : Text → ℕ

/-- What a thick volume of a given size takes from the pool: its size and some more. -/
structure Reservation where
  reserve : ℕ → ℕ
  grows : ∀ {a b : ℕ}, a ≤ b → reserve a + (b - a) ≤ reserve b

/-- `dataset.split('/')[0]` -/
def poolOf (dataset : String) : Text := dataset.toList.takeWhile (· ≠ '/')

/-- `zfs set volsize`; ZFS reads the size as the agent does. -/
def zfsSetVolsize (zfs : Reservation) (w : World) (dataset : String) (size : ℕ) : Option World :=
  match w.volumes dataset with
  | none => none
  | some volume =>
    let volumes := Function.update w.volumes dataset (some { volume with volsize := size })
    let pool := poolOf dataset
    if volume.sparse then some { w with volumes }
    else if zfs.reserve size ≤ zfs.reserve volume.volsize + w.available pool then
      some ⟨volumes, Function.update w.available pool
        (zfs.reserve volume.volsize + w.available pool - zfs.reserve size)⟩
    else none

end Zfs

/-- `name` and `size` are absent when falsy. -/
structure Entry where
  name : Option String
  size : Option String
  allowShrink : Bool
  allowOverprovision : Bool

/-- What the commands of one entry answer: whether the properties can be read, whether ZFS takes the
size where nothing else speaks against it, the text of an error, and the attributes of the zone. -/
structure Answers where
  volsizeRead : Bool
  availableRead : Bool
  availableIsNumber : Bool
  sizeTaken : Bool
  documentSaved : Bool
  error : String
  attr : String → Option String

structure Context where
  attrs : List (String × String)
  poweredOff : Bool

structure Result where
  name : String
  dataset : String
  skipped : Bool
  previousBytes : ℕ
  resizedTo : String
  diskif : String
  shrunk : Bool
  requiresRestart : Bool

/-- A `zfs set volsize` that was taken. -/
structure Change where
  entry : Entry
  dataset : String
  sparse : Bool
  before : ℕ
  after : ℕ

def datasetForDisk (ctx : Context) (disk : String) : Except String String :=
  match (ctx.attrs.find? fun attr => attr.1 = disk).map Prod.snd with
  | some dataset =>
    if dataset = "" then .error s!"{disk} is not a disk on this machine" else .ok dataset
  | none => .error s!"{disk} is not a disk on this machine"

def liveResizeDiskifs : List String := ["virtio", "virtio-blk", "nvme"]

def brandDefaultDiskif : String := "virtio-blk"

/-- `/^disk(?<index>\d+)$/` -/
def diskIndex? (disk : String) : Option String :=
  match disk.toList with
  | 'd' :: 'i' :: 's' :: 'k' :: index =>
    if index ≠ [] ∧ index.all isDigit then some (String.ofList index) else none
  | _ => none

def effectiveDiskif (attr : String → Option String) (disk : String) : String :=
  let override := (diskIndex? disk).bind fun index => attr ("diskif" ++ index)
  match override.filter (· ≠ "") with
  | some diskif => diskif
  | none => ((attr "diskif").filter (· ≠ "")).getD brandDefaultDiskif

def assertPoolCanBack (w : World) (answers : Answers) (dataset : String) (delta : ℕ)
    (allowOverprovision : Bool) : Except String Unit :=
  let pool := poolOf dataset
  if allowOverprovision then .ok ()
  else if !answers.availableRead then
    .error s!"Cannot read available of {String.ofList pool}: {answers.error}"
  else if !answers.availableIsNumber || delta ≤ w.available pool then .ok ()
  else
    .error (s!"Refusing to grow {dataset}: it needs {delta} more bytes but pool " ++
      s!"{String.ofList pool} has only {w.available pool} available. " ++
      "Growing anyway would over-provision the pool and the guest would hit ENOSPC (and likely " ++
      "corrupt) once it filled the space. Free space in the pool, or set allow_overprovision: " ++
      "true on this entry if you thin-provision deliberately.")

/-- The refusals of a shrink and of a grow. -/
def guardResize (w : World) (ctx : Context) (entry : Entry) (answers : Answers)
    (name size dataset : String) (current target : ℕ) : Except String Unit :=
  if target < current then
    if !entry.allowShrink then
      .error (s!"{name} ({dataset}): {size} is SMALLER than the current {current} bytes. " ++
        "Shrinking TRUNCATES the volume — the guest filesystem loses everything past the new end " ++
        "and will most likely not boot. Set allow_shrink: true on this entry to proceed anyway.")
    else if !ctx.poweredOff then
      .error (s!"{name} ({dataset}): refusing to shrink a RUNNING machine — truncating a mounted " ++
        "volume corrupts it. Power the machine off first.")
    else .ok ()
  else assertPoolCanBack w answers dataset (target - current) entry.allowOverprovision

section Batch
variable (zfs : Reservation) (ctx : Context)

/-- The pools and volumes after the entry, the change it made, and its result. -/
def resizeOne (w : World) (entry : Entry) (answers : Answers) :
    World × List Change × Except String Result :=
  match entry.name, entry.size with
  | some name, some size =>
    match datasetForDisk ctx name with
    | .error reason => (w, [], .error reason)
    | .ok dataset =>
    match (parseSizeToBytes size).filter (· ≠ 0) with
    | none => (w, [], .error s!"resize_disks size '{size}' is not a valid ZFS size")
    | some target =>
    match (w.volumes dataset).filter fun _ => answers.volsizeRead with
    | none => (w, [], .error s!"Cannot read volsize of {dataset}: {answers.error}")
    | some volume =>
    let current := volume.volsize
    if target = current then
      (w, [], .ok ⟨name, dataset, true, current, size, "", false, false⟩)
    else
    match guardResize w ctx entry answers name size dataset current target with
    | .error reason => (w, [], .error reason)
    | .ok () =>
    match (zfsSetVolsize zfs w dataset target).filter fun _ => answers.sizeTaken with
    | none => (w, [], .error s!"Failed to resize {name} ({dataset}): {answers.error}")
    | some w' =>
    let change : Change := ⟨entry, dataset, volume.sparse, current, target⟩
    if !answers.documentSaved then (w', [change], .error answers.error)
    else
    let diskif := effectiveDiskif answers.attr name
    (w', [change], .ok ⟨name, dataset, false, current, size, diskif, target < current,
      !ctx.poweredOff && diskif ∉ liveResizeDiskifs⟩)
  | _, _ =>
    (w, [], .error "resize_disks entries need name (the disk, e.g. bootdisk or disk0) and size")

/-- `changes` records what the batch has done. -/
structure Batch where
  world : World
  changes : List Change
  results : Except String (List Result)

def Batch.start (w : World) : Batch := ⟨w, [], .ok []⟩

def step (b : Batch) (e : Entry × Answers) : Option Batch :=
  match b.results with
  | .error _ => none
  | .ok results =>
    let r := resizeOne zfs ctx b.world e.1 e.2
    some ⟨r.1, b.changes ++ r.2.1, r.2.2.map fun result => results ++ [result]⟩

def resizeMachineDisks (w : World) (entries : List (Entry × Answers)) : Batch :=
  entries.foldl (fun b e => (step zfs ctx b e).getD b) (.start w)

/-- The growth on a pool that was not allowed to over-provision it. -/
def guardedGrowth (changes : List Change) (pool : Text) : ℕ :=
  ((changes.filter fun change => poolOf change.dataset = pool && !change.entry.allowOverprovision).map
    fun change => change.after - change.before).sum

/-- What the pool's `available` does not show, or shows as free again. -/
def Change.unaccounted (change : Change) : Bool :=
  if change.sparse then
    !change.entry.allowOverprovision && decide (change.before < change.after)
  else decide (change.after < change.before)

structure Safe (w : World) (b : Batch) : Prop where
  kept : ∀ change ∈ b.changes, change.after < change.before →
    change.entry.allowShrink = true ∧ ctx.poweredOff = true
  backed : ∀ pool, guardedGrowth b.changes pool ≤ w.available pool

/-- The volume that the entry would grow if its pool can back the growth. -/
def guardedGrow? (w : World) (entry : Entry) : Option String := do
  let name ← entry.name
  let size ← entry.size
  let dataset ← (datasetForDisk ctx name).toOption
  let target ← parseSizeToBytes size
  let volume ← w.volumes dataset
  if volume.volsize < target ∧ entry.allowOverprovision = false then some dataset else none

/-- Before a guarded growth the batch has grown no sparse volume of the pool under the guard and
shrunk no thick one, and what the pool has available is read as a number. -/
def Fits (b : Batch) (e : Entry × Answers) : Prop :=
  ∀ dataset ∈ guardedGrow? ctx b.world e.1, e.2.availableIsNumber = true ∧
    ∀ change ∈ b.changes, poolOf change.dataset = poolOf dataset → change.unaccounted = false

instance (b : Batch) (e : Entry × Answers) : Decidable (Fits ctx b e) :=
  inferInstanceAs (Decidable (∀ dataset ∈ guardedGrow? ctx b.world e.1,
    e.2.availableIsNumber = true ∧
      ∀ change ∈ b.changes, poolOf change.dataset = poolOf dataset → change.unaccounted = false))

end Batch

section Runs
variable {zfs : Reservation} {ctx : Context} {w w₀ w' : World} {b b' : Batch} {entry : Entry}
  {answers : Answers}

/-- What an entry that changes something has been checked for. -/
structure Checked (zfs : Reservation) (ctx : Context) (w : World) (answers : Answers)
    (change : Change) (w' : World) : Prop where
  set : zfsSetVolsize zfs w change.dataset change.after = some w'
  volume : w.volumes change.dataset = some ⟨change.before, change.sparse⟩
  shrink : change.after < change.before →
    change.entry.allowShrink = true ∧ ctx.poweredOff = true
  grow : change.before < change.after → change.entry.allowOverprovision = false →
    guardedGrow? ctx w change.entry = some change.dataset ∧
      (answers.availableIsNumber = true →
        change.after - change.before ≤ w.available (poolOf change.dataset))

theorem guardResize_ok {name size dataset : String} {current target : ℕ}
    (h : guardResize w ctx entry answers name size dataset current target = .ok ()) :
    (target < current → entry.allowShrink = true ∧ ctx.poweredOff = true) ∧
      (current ≤ target → entry.allowOverprovision = false → answers.availableIsNumber = true →
        target - current ≤ w.available (poolOf dataset)) := by
  unfold guardResize assertPoolCanBack at h
  constructor
  · intro hless
    simp only [hless, if_true] at h
    split_ifs at h with hallowed hoff
    exact ⟨by simpa using hallowed, by simpa using hoff⟩
  · intro hle hguarded hnumber
    simp only [Nat.not_lt.mpr hle, if_false, hguarded, hnumber, Bool.false_eq_true] at h
    split_ifs at h with hread hroom
    simpa using hroom

theorem resizeOne_cases (zfs : Reservation) (ctx : Context) (w : World) (entry : Entry)
    (answers : Answers) :
    ((resizeOne zfs ctx w entry answers).1 = w ∧ (resizeOne zfs ctx w entry answers).2.1 = []) ∨
      ∃ change, change.entry = entry ∧ (resizeOne zfs ctx w entry answers).2.1 = [change] ∧
        Checked zfs ctx w answers change (resizeOne zfs ctx w entry answers).1 := by
  cases hname : entry.name with
  | none => exact .inl (by simp [resizeOne, hname])
  | some name =>
  cases hsize : entry.size with
  | none => exact .inl (by simp [resizeOne, hname, hsize])
  | some size =>
  cases hdataset : datasetForDisk ctx name with
  | error reason => exact .inl (by simp [resizeOne, hname, hsize, hdataset])
  | ok dataset =>
  cases htarget : (parseSizeToBytes size).filter (· ≠ 0) with
  | none => exact .inl (by simp only [resizeOne, hname, hsize, hdataset, htarget, and_self])
  | some target =>
  cases hvolume : (w.volumes dataset).filter fun _ => answers.volsizeRead with
  | none => exact .inl (by simp only [resizeOne, hname, hsize, hdataset, htarget, hvolume, and_self])
  | some volume =>
  by_cases hsame : target = volume.volsize
  · exact .inl (by simp only [resizeOne, hname, hsize, hdataset, htarget, hvolume, hsame, if_true,
      and_self])
  cases hguard : guardResize w ctx entry answers name size dataset volume.volsize target with
  | error reason =>
    exact .inl (by simp only [resizeOne, hname, hsize, hdataset, htarget, hvolume, hsame, if_false,
      hguard, and_self])
  | ok _ =>
  cases hset : (zfsSetVolsize zfs w dataset target).filter fun _ => answers.sizeTaken with
  | none =>
    exact .inl (by simp only [resizeOne, hname, hsize, hdataset, htarget, hvolume, hsame, if_false,
      hguard, hset, and_self])
  | some w' =>
    have hfind := (Option.filter_eq_some_iff.mp hvolume).1
    obtain ⟨hshrink, hgrow⟩ := guardResize_ok hguard
    have hworld : (resizeOne zfs ctx w entry answers).1 = w' := by
      simp only [resizeOne, hname, hsize, hdataset, htarget, hvolume, hsame, if_false, hguard, hset]
      split_ifs <;> rfl
    have hchanges : (resizeOne zfs ctx w entry answers).2.1 =
        [⟨entry, dataset, volume.sparse, volume.volsize, target⟩] := by
      simp only [resizeOne, hname, hsize, hdataset, htarget, hvolume, hsame, if_false, hguard, hset]
      split_ifs <;> rfl
    refine .inr ⟨_, rfl, hchanges, ?_, ?_, hshrink, ?_⟩
    · rw [hworld]
      exact (Option.filter_eq_some_iff.mp hset).1
    · exact hfind
    · intro (hless : volume.volsize < target) (hguarded : entry.allowOverprovision = false)
      refine ⟨?_, hgrow hless.le hguarded⟩
      have hparse := (Option.filter_eq_some_iff.mp htarget).1
      simp [guardedGrow?, hname, hsize, hdataset, hparse, hfind, hless, hguarded, Except.toOption]

theorem step_cases {e : Entry × Answers} (h : step zfs ctx b e = some b') :
    (b'.world = b.world ∧ b'.changes = b.changes) ∨
      ∃ change, change.entry = e.1 ∧ b'.changes = b.changes ++ [change] ∧
        Checked zfs ctx b.world e.2 change b'.world := by
  have hstep : b'.world = (resizeOne zfs ctx b.world e.1 e.2).1 ∧
      b'.changes = b.changes ++ (resizeOne zfs ctx b.world e.1 e.2).2.1 := by
    unfold step at h
    generalize resizeOne zfs ctx b.world e.1 e.2 = r at h
    cases hresults : b.results with
    | error reason => simp [hresults] at h
    | ok results =>
      rw [hresults] at h
      cases h
      exact ⟨rfl, rfl⟩
  rcases resizeOne_cases zfs ctx b.world e.1 e.2 with ⟨hworld, hnone⟩ | ⟨change, hentry, hone, hchecked⟩
  · left
    rw [hstep.1, hstep.2, hworld, hnone, List.append_nil]
    exact ⟨rfl, rfl⟩
  · right
    refine ⟨change, hentry, ?_, ?_⟩
    · rw [hstep.2, hone]
    · rw [hstep.1]
      exact hchecked

/-- The pool gives what a thick volume takes, and nothing else. -/
theorem zfsSet_available {dataset : String} {volume : Volume} {size : ℕ}
    (hvolume : w.volumes dataset = some volume)
    (h : zfsSetVolsize zfs w dataset size = some w') :
    (∀ pool ≠ poolOf dataset, w'.available pool = w.available pool) ∧
      (volume.sparse = true → w'.available = w.available) ∧
      (volume.sparse = false → w'.available (poolOf dataset) + zfs.reserve size =
        zfs.reserve volume.volsize + w.available (poolOf dataset)) := by
  simp only [zfsSetVolsize, hvolume] at h
  split_ifs at h with hsparse hroom
  · cases h
    exact ⟨fun _ _ => rfl, fun _ => rfl, fun hthick => absurd (hsparse.symm.trans hthick) nofun⟩
  · cases h
    refine ⟨fun pool hpool => Function.update_of_ne hpool _ _, fun h => absurd h hsparse, fun _ => ?_⟩
    simp only [Function.update_self]
    omega

theorem guardedGrowth_append (changes : List Change) (change : Change) (pool : Text) :
    guardedGrowth (changes ++ [change]) pool = guardedGrowth changes pool +
      if poolOf change.dataset = pool ∧ change.entry.allowOverprovision = false then
        change.after - change.before else 0 := by
  unfold guardedGrowth
  rw [List.filter_append, List.map_append, List.sum_append]
  congr 1
  by_cases h : poolOf change.dataset = pool ∧ change.entry.allowOverprovision = false
  · rw [if_pos h]
    simp [h.1, h.2]
  · rw [if_neg h]
    have hfalse : (decide (poolOf change.dataset = pool) &&
        !change.entry.allowOverprovision) = false := by
      simpa using h
    simp [hfalse]

/-- As long as `available` shows everything, what a pool has left and what was grown under the guard
stay within what it had; the growth alone always does. -/
structure Backed (w₀ : World) (b : Batch) : Prop where
  within : ∀ pool, guardedGrowth b.changes pool ≤ w₀.available pool
  shown : ∀ pool, (∀ change ∈ b.changes, poolOf change.dataset = pool →
    change.unaccounted = false) →
      guardedGrowth b.changes pool + b.world.available pool ≤ w₀.available pool

theorem backed_start (w : World) : Backed w (.start w) where
  within _ := Nat.zero_le _
  shown pool _ := by
    change 0 + w.available pool ≤ w.available pool
    rw [Nat.zero_add]

/-- The change of an entry whose guarded growth finds the pool's `available` in order. -/
theorem Backed.change (h : Backed w₀ b) {change : Change}
    (hchecked : Checked zfs ctx b.world answers change b'.world)
    (hfits : Fits ctx b (change.entry, answers)) (hchanges : b'.changes = b.changes ++ [change]) :
    Backed w₀ b' := by
  obtain ⟨hother, hsparse, hthick⟩ := zfsSet_available hchecked.volume hchecked.set
  have hreserve := @zfs.grows change.before change.after
  have hreserve' := @zfs.grows change.after change.before
  have hgrow : change.before < change.after → change.entry.allowOverprovision = false →
      (∀ change' ∈ b.changes, poolOf change'.dataset = poolOf change.dataset →
        change'.unaccounted = false) ∧
      change.after - change.before ≤ b.world.available (poolOf change.dataset) := by
    intro hless hguarded
    obtain ⟨hgrow?, hroom⟩ := hchecked.grow hless hguarded
    obtain ⟨hnumber, hshown⟩ := hfits change.dataset hgrow?
    exact ⟨hshown, hroom hnumber⟩
  constructor
  · intro pool
    rw [hchanges, guardedGrowth_append]
    split_ifs with hcounts
    · obtain ⟨rfl, hguarded⟩ := hcounts
      by_cases hless : change.before < change.after
      · obtain ⟨hshown, hroom⟩ := hgrow hless hguarded
        exact (Nat.add_le_add_left hroom _).trans (h.shown _ hshown)
      · rw [Nat.sub_eq_zero_of_le (Nat.le_of_not_lt hless)]
        exact h.within _
    · exact h.within pool
  · rw [hchanges]
    intro pool hshown
    have hold := h.shown pool fun change' hmem => hshown change' (List.mem_append_left _ hmem)
    rw [guardedGrowth_append]
    by_cases hpool : poolOf change.dataset = pool
    · subst hpool
      have hnew := hshown change (List.mem_append_right _ List.mem_cons_self) rfl
      unfold Change.unaccounted at hnew
      cases hkind : change.sparse with
      | true =>
        rw [hsparse hkind]
        simp only [hkind, if_true, Bool.and_eq_false_iff, Bool.not_eq_false', decide_eq_false_iff_not]
          at hnew
        split_ifs with hcounts
        · rcases hnew with hallowed | hnotless
          · exact absurd (hallowed.symm.trans hcounts.2) nofun
          · rw [Nat.sub_eq_zero_of_le (Nat.le_of_not_lt hnotless)]
            exact hold
        · exact hold
      | false =>
        simp only [hkind, Bool.false_eq_true, if_false, decide_eq_false_iff_not] at hnew
        have hle := hreserve (Nat.le_of_not_lt hnew)
        have hgives : b'.world.available (poolOf change.dataset) + zfs.reserve change.after =
            zfs.reserve change.before + b.world.available (poolOf change.dataset) := hthick hkind
        split_ifs <;> omega
    · rw [if_neg fun hcounts => hpool hcounts.1, hother pool (Ne.symm hpool)]
      exact hold

theorem Backed.step (h : Backed w₀ b) {e : Entry × Answers} (hfits : Fits ctx b e)
    (hstep : step zfs ctx b e = some b') : Backed w₀ b' := by
  rcases step_cases hstep with ⟨hworld, hchanges⟩ | ⟨change, hentry, hchanges, hchecked⟩
  · constructor
    · rw [hchanges]
      exact h.within
    · rw [hworld, hchanges]
      exact h.shown
  · refine h.change hchecked ?_ hchanges
    rw [hentry]
    exact hfits

theorem kept_step (h : ∀ change ∈ b.changes, change.after < change.before →
      change.entry.allowShrink = true ∧ ctx.poweredOff = true)
    {e : Entry × Answers} (hstep : step zfs ctx b e = some b') :
    ∀ change ∈ b'.changes, change.after < change.before →
      change.entry.allowShrink = true ∧ ctx.poweredOff = true := by
  rcases step_cases hstep with ⟨_, hchanges⟩ | ⟨change, _, hchanges, hchecked⟩
  · rw [hchanges]
    exact h
  · rw [hchanges]
    intro change' hmem
    rcases List.mem_append.mp hmem with hold | hnew
    · exact h change' hold
    · rw [List.mem_singleton.mp hnew]
      exact hchecked.shrink

/-- What the request leaves behind is a state of such a run. -/
theorem reaches_resizeMachineDisks (zfs : Reservation) (ctx : Context) (w : World)
    (entries : List (Entry × Answers)) :
    Reaches (step zfs ctx) (fun _ _ => True) (.start w) (resizeMachineDisks zfs ctx w entries) := by
  have hfold : ∀ b, Reaches (step zfs ctx) (fun _ _ => True) b
      (entries.foldl (fun b e => (step zfs ctx b e).getD b) b) := by
    induction entries with
    | nil => exact fun _ => .refl
    | cons e rest ih =>
      intro b
      rw [List.foldl_cons]
      cases hstep : step zfs ctx b e with
      | none => exact ih b
      | some b' => exact .head trivial hstep (ih b')
  exact hfold _

/-- A reservation of just the size. -/
def exactReservation : Reservation := ⟨id, fun h => (Nat.add_sub_cancel' h).le⟩

/-- Two volumes of 10 bytes in a pool that has 100 available. -/
def twoVolumes (sparse : Bool) : World where
  volumes dataset := if dataset ∈ ["tank/a", "tank/b"] then some ⟨10, sparse⟩ else none
  available _ := 100

def twoDisks (poweredOff : Bool) : Context := ⟨[("disk0", "tank/a"), ("disk1", "tank/b")], poweredOff⟩

/-- Every command of the entry succeeds, and the zone has no diskif attributes. -/
def answered (entry : Entry) : Entry × Answers := (entry, ⟨true, true, true, true, true, "", fun _ => none⟩)

end Runs

end ZoneweaverAgent.MachineDiskResize
