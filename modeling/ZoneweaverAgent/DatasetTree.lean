import Mathlib.Data.List.Nodup
import ZoneweaverAgent.KeyedList
import ZoneweaverAgent.PathTree

/-!
# Datasets, snapshots and clones

A tree of datasets with their snapshots, oldest first, and the origins of the clones among them.
Promoting a clone moves its origin and all older snapshots to it and turns the siblings over; a
recursive destruction takes a subtree and fails while a dataset outside is a clone of one inside.
An operation that fails answers `none` and changes nothing.
-/

namespace KeyedList
variable {κ α : Type*} [DecidableEq κ]

theorem get_mapEntries (m : KeyedList κ α) (f : κ → α → α) (k : κ) :
    get (m.map fun e => (e.1, f e.1 e.2)) k = (m.get k).map (f k) := by
  induction m with
  | nil => rfl
  | cons e rest ih =>
    obtain ⟨k₀, v₀⟩ := e
    rw [List.map_cons, get_cons, get_cons, ih]
    split_ifs with h
    · rw [h]
      rfl
    · rfl

theorem get_filterKeys (m : KeyedList κ α) (p : κ → Bool) (k : κ) :
    get (m.filter fun e => p e.1) k = if p k then m.get k else none := by
  induction m with
  | nil => simp
  | cons e rest ih =>
    obtain ⟨k₀, v₀⟩ := e
    have hcons : ((k₀, v₀) :: rest).filter (fun e => p e.1) =
        if p k₀ then (k₀, v₀) :: rest.filter (fun e => p e.1) else rest.filter fun e => p e.1 :=
      List.filter_cons
    rw [hcons, get_cons]
    by_cases h : k₀ = k
    · subst h
      by_cases hp : p k₀ = true
      · rw [if_pos hp, get_cons, if_pos rfl, if_pos rfl, if_pos hp]
      · rw [if_neg hp, ih, if_neg hp, if_neg hp]
    · rw [if_neg h]
      split_ifs with hp hk hk
      · rw [get_cons, if_neg h, ih, if_pos hk]
      · rw [get_cons, if_neg h, ih, if_neg hk]
      · rw [ih, if_pos hk]
      · rw [ih, if_neg hk]

end KeyedList

namespace PathTree
variable {α : Type*} {sep : α} {x y p : List α}

/-- What lies above one path is ordered. -/
theorem AtOrBelow.total (hx : AtOrBelow sep x p) (hy : AtOrBelow sep y p) :
    AtOrBelow sep x y ∨ AtOrBelow sep y x := by
  have below : ∀ {u v : List α}, AtOrBelow sep u p → AtOrBelow sep v p → u <+: v →
      AtOrBelow sep u v := by
    intro u v hu hv hpre
    rcases hu with rfl | hu
    · exact .inl (hv.isPrefix.eq_of_length_le hpre.length_le)
    · by_cases heq : u = v
      · exact .inl heq.symm
      · refine .inr (List.prefix_of_prefix_length_le hu hv.isPrefix ?_)
        have hlt : u.length < v.length := by
          by_contra hle
          exact heq (hpre.eq_of_length_le (not_lt.mp hle))
        rw [List.length_append]
        exact hlt
  rcases List.prefix_or_prefix_of_prefix hx.isPrefix hy.isPrefix with h | h
  · exact .inl (below hx hy h)
  · exact .inr (below hy hx h)

/-- The rest of a path behind one it lies below. -/
theorem AtOrBelow.eq_append (h : AtOrBelow sep x p) : p = x ++ p.drop x.length := by
  obtain ⟨rest, rfl⟩ := h.isPrefix
  simp

theorem atOrBelow_append (x y : List α) (h : AtOrBelow sep x p) :
    AtOrBelow sep y (y ++ p.drop x.length) := by
  rcases h with rfl | ⟨rest, rfl⟩
  · simp [AtOrBelow]
  · refine .inr ⟨rest, ?_⟩
    simp

end PathTree

namespace DatasetTree
open PathTree (AtOrBelow)
variable {α ν δ : Type*}

structure Snapshot (ν δ : Type*) where
  name : ν
  data : δ
  deriving DecidableEq

structure Dataset (α ν δ : Type*) where
  data : δ
  snapshots : List (Snapshot ν δ)
  /-- the dataset and the snapshot this one is a clone of -/
  origin : Option (List α × ν)
  deriving DecidableEq

abbrev Tree (α ν δ : Type*) := KeyedList (List α) (Dataset α ν δ)

/-! ## The operations -/

section Operations
variable [DecidableEq α] [DecidableEq ν] (sep : α) (blank : δ)

def Dataset.find (d : Dataset α ν δ) (s : ν) : Option (Snapshot ν δ) :=
  d.snapshots.find? fun x => x.name = s

def hasSnapshot (t : Tree α ν δ) (p : List α) (s : ν) : Bool :=
  ((t.get p).bind fun d => d.find s).isSome

def clones (t : Tree α ν δ) (p : List α) (s : ν) : List (List α) :=
  (t.filter fun e => e.2.origin = some (p, s)).map Prod.fst

def pool (p : List α) : List α := p.takeWhile fun c => c ≠ sep

def ensure (t : Tree α ν δ) (p : List α) : Tree α ν δ :=
  if t.has p then t else t ++ [(p, ⟨blank, [], none⟩)]

/-- A dataset with all its ancestors; the pool must be there. -/
def create (t : Tree α ν δ) (p : List α) : Option (Tree α ν δ) :=
  if t.has (pool sep p) then some ((PathTree.ancestors sep p).foldl (ensure blank) t) else none

/-- The snapshots up to and including `s`, and the younger ones. -/
def through (s : ν) : List (Snapshot ν δ) → List (Snapshot ν δ) × List (Snapshot ν δ)
  | [] => ([], [])
  | x :: xs => if x.name = s then ([x], xs) else (x :: (through s xs).1, (through s xs).2)

/-- What the promotion of `c`, a clone of `o` at `s`, makes of the dataset at `p`. -/
def promoted (c o : List α) (s : ν) (parent : Dataset α ν δ) (p : List α) (d : Dataset α ν δ) :
    Dataset α ν δ :=
  let moved := (through s parent.snapshots).1
  if p = c then
    { d with
      snapshots := moved ++ d.snapshots
      origin := parent.origin }
  else if p = o then
    { d with
      snapshots := (through s parent.snapshots).2
      origin := some (c, s) }
  else
    match d.origin with
    | some (o', s') => if o' = o ∧ ∃ x ∈ moved, x.name = s' then { d with origin := some (c, s') }
      else d
    | none => d

/-- Fails when a moved snapshot has the name of one of the clone's own. -/
def promote (t : Tree α ν δ) (c : List α) : Option (Tree α ν δ) :=
  match t.get c with
  | some ⟨_, own, some (o, s)⟩ =>
    match t.get o with
    | some parent =>
      if ∃ x ∈ (through s parent.snapshots).1, ∃ y ∈ own, y.name = x.name then none
      else some (t.map fun e => (e.1, promoted c o s parent e.1 e.2))
    | none => none
  | _ => none

/-- A full stream becomes a new dataset below one that is there. -/
def receive (t : Tree α ν δ) (parent p : List α) (x : Snapshot ν δ) : Option (Tree α ν δ) :=
  if !t.has p && t.has parent then some (t ++ [(p, ⟨x.data, [x], none⟩)]) else none

def takeSnapshot (t : Tree α ν δ) (p : List α) (s : ν) : Option (Tree α ν δ) :=
  (t.get p).bind fun d =>
    if (d.find s).isSome then none
    else some (t.set p { d with snapshots := d.snapshots ++ [⟨s, d.data⟩] })

def destroy (t : Tree α ν δ) (p : List α) : Option (Tree α ν δ) :=
  if t.has p && !t.any (fun e => decide (¬AtOrBelow sep p e.1) &&
      e.2.origin.any fun o => decide (AtOrBelow sep p o.1)) then
    some (t.filter fun e => decide (¬AtOrBelow sep p e.1))
  else none

def relocate (p q x : List α) : List α :=
  if AtOrBelow sep p x then q ++ x.drop p.length else x

/-- A dataset moves within its pool with all that is below it; the ancestors are created. -/
def rename (t : Tree α ν δ) (parent p q : List α) : Option (Tree α ν δ) :=
  if t.has p ∧ t.has q = false ∧ ¬AtOrBelow sep p q ∧ pool sep p = pool sep q then
    some (((PathTree.ancestors sep parent).foldl (ensure blank) t).map fun e =>
      (relocate sep p q e.1,
        { e.2 with origin := e.2.origin.map fun o => (relocate sep p q o.1, o.2) }))
  else none

end Operations

/-! ## What the operations keep -/

/-- A later state of a dataset that has lost neither its data nor a snapshot. -/
def Holds (d d' : Dataset α ν δ) : Prop := d'.data = d.data ∧ ∀ x ∈ d.snapshots, x ∈ d'.snapshots

theorem Holds.refl (d : Dataset α ν δ) : Holds d d := ⟨rfl, fun _ h => h⟩

theorem Holds.trans {d d' d'' : Dataset α ν δ} (h : Holds d d') (h' : Holds d' d'') :
    Holds d d'' := ⟨h'.1.trans h.1, fun x hx => h'.2 x (h.2 x hx)⟩

section Laws
variable [DecidableEq α] {sep : α} {blank : δ}
variable {t t' : Tree α ν δ} {p q x : List α} {d : Dataset α ν δ}

structure WellFormed (sep : α) (t : Tree α ν δ) : Prop where
  nodup : t.keys.Nodup
  nonempty : t.has [] = false
  rooted : ∀ p, t.has p = true → ∀ x, AtOrBelow sep x p → t.has x = true
  named : ∀ p d, t.get p = some d → (d.snapshots.map Snapshot.name).Nodup
  notSelf : ∀ p d s, t.get p = some d → d.origin ≠ some (p, s)

theorem has_of_get (h : t.get p = some d) : t.has p = true := by
  rw [KeyedList.has, h]
  rfl

theorem get_of_has (h : t.has p = true) : ∃ d, t.get p = some d := Option.isSome_iff_exists.mp h

theorem get_of_not_has (h : t.has p = false) : t.get p = none := by
  rwa [KeyedList.has, Option.isSome_eq_false_iff, Option.isNone_iff_eq_none] at h

theorem has_eq_false (h : t.get p = none) : t.has p = false := by
  rw [KeyedList.has, h]
  rfl

/-! ### Creation -/

theorem get_ensure (t : Tree α ν δ) (p q : List α) :
    (ensure blank t p).get q = (t.get q).or (if p = q then some ⟨blank, [], none⟩ else none) := by
  unfold ensure
  by_cases hp : t.has p = true
  · rw [if_pos hp]
    split_ifs with hpq
    · subst hpq
      obtain ⟨d, hd⟩ := get_of_has hp
      rw [hd]
      rfl
    · rw [Option.or_none]
  · rw [if_neg hp, KeyedList.get_append, KeyedList.get_cons, KeyedList.get_nil]

theorem get_ensureAll (ps : List (List α)) (t : Tree α ν δ) (q : List α) :
    (ps.foldl (ensure blank) t).get q =
      (t.get q).or (if q ∈ ps then some ⟨blank, [], none⟩ else none) := by
  induction ps generalizing t with
  | nil => simp
  | cons p ps ih =>
    rw [List.foldl_cons, ih, get_ensure]
    by_cases hpq : p = q
    · subst hpq
      cases t.get p <;> simp
    · rw [if_neg hpq, Option.or_none]
      simp [Ne.symm hpq]

theorem nodup_ensureAll (ps : List (List α)) (h : t.keys.Nodup) :
    (KeyedList.keys (ps.foldl (ensure blank) t)).Nodup := by
  induction ps generalizing t with
  | nil => exact h
  | cons p ps ih =>
    apply ih
    unfold ensure
    by_cases hp : t.has p = true
    · rwa [if_pos hp]
    · rw [if_neg hp, KeyedList.keys, List.map_append, List.nodup_append]
      refine ⟨h, by simp, ?_⟩
      intro a ha b hb
      obtain rfl : b = p := by simpa using hb
      rintro rfl
      exact hp ((KeyedList.has_iff_mem_keys t a).mpr ha)

/-- `t'` is `t` with further datasets above `q`, or `q` itself, which are no clones. -/
structure Extends (sep : α) (q : List α) (t t' : Tree α ν δ) : Prop where
  old : ∀ p d, t.get p = some d → t'.get p = some d
  new : ∀ p d, t'.get p = some d → t.get p = some d ∨ t.get p = none ∧ AtOrBelow sep p q
  kept : ∀ e ∈ t, e ∈ t'
  entries : ∀ e ∈ t', e ∈ t ∨ e.2.origin = none

theorem Extends.refl (sep : α) (q : List α) (t : Tree α ν δ) : Extends sep q t t :=
  ⟨fun _ _ h => h, fun _ _ h => .inl h, fun _ h => h, fun _ h => .inl h⟩

theorem Extends.trans {t'' : Tree α ν δ} (h : Extends sep q t t') (h' : Extends sep q t' t'') :
    Extends sep q t t'' where
  old p d hd := h'.old p d (h.old p d hd)
  new p d hd := by
    rcases h'.new p d hd with hmid | ⟨hnone, hq⟩
    · exact h.new p d hmid
    · cases ht : t.get p with
      | none => exact .inr ⟨rfl, hq⟩
      | some d' => cases hnone.symm.trans (h.old p d' ht)
  kept e he := h'.kept e (h.kept e he)
  entries e he := by
    rcases h'.entries e he with hmid | hnone
    · exact h.entries e hmid
    · exact .inr hnone

theorem Extends.has (h : Extends sep q t t') (hp : t.has p = true) : t'.has p = true := by
  obtain ⟨d, hd⟩ := get_of_has hp
  exact has_of_get (h.old p d hd)

theorem Extends.mono {r : List α} (h : Extends sep q t t') (hr : AtOrBelow sep q r) :
    Extends sep r t t' where
  old := h.old
  new p d hd := (h.new p d hd).imp_right fun hnew => ⟨hnew.1, hnew.2.trans hr⟩
  kept := h.kept
  entries := h.entries

/-- A new dataset at the end of the list. -/
theorem extends_append (hq : AtOrBelow sep p q) (hd : d.origin = none) :
    Extends sep q t (t ++ [(p, d)]) where
  old x dx hx := by rw [KeyedList.get_append, hx, Option.some_or]
  new x dx hx := by
    rw [KeyedList.get_append, KeyedList.get_cons, KeyedList.get_nil] at hx
    cases ht : t.get x with
    | some dx' =>
      rw [ht, Option.some_or] at hx
      exact .inl hx
    | none =>
      rw [ht, Option.none_or] at hx
      split_ifs at hx with hpx
      exact .inr ⟨rfl, hpx ▸ hq⟩
  kept e he := List.mem_append_left _ he
  entries e he := by
    rcases List.mem_append.mp he with hold | hnew
    · exact .inl hold
    · rw [List.mem_singleton.mp hnew]
      exact .inr hd

theorem extends_ensureAll {ps : List (List α)} (hps : ∀ p ∈ ps, AtOrBelow sep p q) :
    Extends sep q t (ps.foldl (ensure blank) t) := by
  induction ps generalizing t with
  | nil => exact .refl sep q t
  | cons p ps ih =>
    have hrest := fun t => @ih t fun p' hp' => hps p' (List.mem_cons_of_mem _ hp')
    apply Extends.trans _ (hrest _)
    unfold ensure
    by_cases hp : t.has p = true
    · rw [if_pos hp]
      exact .refl sep q t
    · rw [if_neg hp]
      exact extends_append (hps p List.mem_cons_self) rfl

theorem extends_create (h : create sep blank t p = some t') : Extends sep p t t' := by
  unfold create at h
  split_ifs at h
  cases h
  exact extends_ensureAll fun x hx => PathTree.mem_ancestors.mp hx

theorem has_create (h : create sep blank t p = some t') : t'.has p = true := by
  unfold create at h
  split_ifs at h
  cases h
  rw [KeyedList.has, get_ensureAll, if_pos (PathTree.mem_ancestors.mpr (.refl p))]
  cases t.get p <;> rfl

/-! ### Pools -/

theorem pool_append (sep : α) (p rest : List α) : pool sep (p ++ sep :: rest) = pool sep p := by
  unfold pool
  induction p with
  | nil => simp
  | cons c p ih => rw [List.cons_append, List.takeWhile_cons, List.takeWhile_cons, ih]

theorem pool_eq_of_below (h : AtOrBelow sep p q) : pool sep p = pool sep q := by
  rcases h with rfl | ⟨rest, rfl⟩
  · rfl
  · rw [List.append_assoc]
    exact (pool_append sep p rest).symm

theorem pool_of_not_mem (h : sep ∉ p) : pool sep p = p := by
  have hall : ∀ c ∈ p, decide (c ≠ sep) = true := by
    intro c hc
    rw [decide_eq_true_eq]
    rintro rfl
    exact h hc
  have := @List.takeWhile_append_of_pos _ _ _ [] hall
  rw [List.append_nil, List.takeWhile_nil, List.append_nil] at this
  exact this

/-- That a tree is well formed is seen from its entries. -/
theorem wellFormed_of_entries (hnodup : t.keys.Nodup) (hnonempty : t.has [] = false)
    (hrooted : ∀ e ∈ t, ∀ x ∈ PathTree.ancestors sep e.1, t.has x = true)
    (hnamed : ∀ e ∈ t, (e.2.snapshots.map Snapshot.name).Nodup)
    (hself : ∀ e ∈ t, ∀ o ∈ e.2.origin, o.1 ≠ e.1) : WellFormed sep t := by
  constructor
  case nodup => exact hnodup
  case nonempty => exact hnonempty
  case rooted =>
    intro p hp x hx
    obtain ⟨d, hd⟩ := get_of_has hp
    exact hrooted _ (KeyedList.mem_of_get hd) x (PathTree.mem_ancestors.mpr hx)
  case named => exact fun p d hd => hnamed _ (KeyedList.mem_of_get hd)
  case notSelf =>
    intro p d s hd horigin
    exact hself _ (KeyedList.mem_of_get hd) (p, s) horigin rfl

/-- A tree stays well formed when a dataset is created with its ancestors. -/
theorem WellFormed.create (hw : WellFormed sep t) (h : create sep blank t p = some t') :
    WellFormed sep t' := by
  unfold DatasetTree.create at h
  split_ifs at h with hpool
  cases h
  constructor
  case nodup => exact nodup_ensureAll _ hw.nodup
  case nonempty =>
    apply has_eq_false
    rw [get_ensureAll, get_of_not_has hw.nonempty, Option.none_or, if_neg]
    intro hmem
    have := pool_eq_of_below (PathTree.mem_ancestors.mp hmem)
    rw [← this] at hpool
    exact absurd (hw.nonempty.symm.trans hpool) Bool.false_ne_true
  case rooted =>
    intro q hq x hx
    obtain ⟨d, hd⟩ := get_of_has hq
    rw [get_ensureAll] at hd
    cases hq : t.get q with
    | some d' =>
      obtain ⟨d'', hd''⟩ := get_of_has (hw.rooted q (has_of_get hq) x hx)
      apply has_of_get (d := d'')
      rw [get_ensureAll, hd'', Option.some_or]
    | none =>
      rw [hq, Option.none_or] at hd
      split_ifs at hd with hmem
      have hmem' := PathTree.mem_ancestors.mpr (hx.trans (PathTree.mem_ancestors.mp hmem))
      rw [KeyedList.has, get_ensureAll, if_pos hmem']
      cases t.get x <;> rfl
  case named =>
    intro q d hd
    rw [get_ensureAll] at hd
    cases hq : t.get q with
    | some d' =>
      rw [hq, Option.some_or] at hd
      exact hw.named q d (hq.trans hd)
    | none =>
      rw [hq, Option.none_or] at hd
      split_ifs at hd
      cases hd
      exact List.nodup_nil
  case notSelf =>
    intro q d s hd
    rw [get_ensureAll] at hd
    cases hq : t.get q with
    | some d' =>
      rw [hq, Option.some_or] at hd
      exact hw.notSelf q d s (hq.trans hd)
    | none =>
      rw [hq, Option.none_or] at hd
      split_ifs at hd
      cases hd
      intro horigin
      cases horigin

end Laws

section Snapshots
variable [DecidableEq α] [DecidableEq ν] {sep : α} {blank : δ}
variable {t t' : Tree α ν δ} {p q c o : List α} {d parent : Dataset α ν δ} {s : ν}

theorem clones_ensureAll (ps : List (List α)) (t : Tree α ν δ) (p : List α) (s : ν) :
    clones (ps.foldl (ensure blank) t) p s = clones t p s := by
  induction ps generalizing t with
  | nil => rfl
  | cons p' ps ih =>
    rw [List.foldl_cons, ih]
    unfold ensure
    split_ifs
    · rfl
    · simp [clones]

theorem clones_create (h : create sep blank t q = some t') (p : List α) (s : ν) :
    clones t' p s = clones t p s := by
  unfold create at h
  split_ifs at h
  cases h
  exact clones_ensureAll _ t p s

theorem mem_clones (h : c ∈ clones t p s) : ∃ d, (c, d) ∈ t ∧ d.origin = some (p, s) := by
  obtain ⟨⟨c', d⟩, hmem, rfl⟩ := List.mem_map.mp h
  obtain ⟨hmem, horigin⟩ := List.mem_filter.mp hmem
  exact ⟨d, hmem, by simpa using horigin⟩

/-! ### Promotion -/

theorem through_append (s : ν) (xs : List (Snapshot ν δ)) :
    (through s xs).1 ++ (through s xs).2 = xs := by
  induction xs with
  | nil => rfl
  | cons x xs ih =>
    unfold through
    split_ifs
    · rfl
    · rw [List.cons_append, ih]

theorem exists_through {xs : List (Snapshot ν δ)} (h : ∃ x ∈ xs, x.name = s) :
    ∃ x ∈ (through s xs).1, x.name = s := by
  induction xs with
  | nil =>
    obtain ⟨x, hx, -⟩ := h
    cases hx
  | cons y ys ih =>
    unfold through
    split_ifs with hname
    · exact ⟨y, List.mem_singleton_self y, hname⟩
    · obtain ⟨x, hx, hxs⟩ := h
      rcases List.mem_cons.mp hx with rfl | hys
      · exact absurd hxs hname
      · obtain ⟨z, hz, hzs⟩ := ih ⟨x, hys, hxs⟩
        exact ⟨z, List.mem_cons_of_mem _ hz, hzs⟩

omit [DecidableEq α] in
theorem find_eq_some {x : Snapshot ν δ} (h : d.find s = some x) :
    x ∈ d.snapshots ∧ x.name = s := by
  refine ⟨List.mem_of_find?_eq_some h, ?_⟩
  simpa using List.find?_some h

omit [DecidableEq α] in
theorem find_moved {x : Snapshot ν δ} (h : parent.find s = some x) (own : List (Snapshot ν δ)) :
    ((through s parent.snapshots).1 ++ own).find? (fun y => y.name = s) = some x := by
  have hmoved : ∃ y ∈ (through s parent.snapshots).1, y.name = s :=
    exists_through ⟨x, find_eq_some h⟩
  have hsplit : (through s parent.snapshots).1.find? (fun y => y.name = s) = some x := by
    rw [Dataset.find, ← through_append s parent.snapshots, List.find?_append] at h
    cases hfirst : (through s parent.snapshots).1.find? (fun y => y.name = s) with
    | some y =>
      rw [hfirst] at h
      exact h
    | none =>
      obtain ⟨y, hy, hname⟩ := hmoved
      exact absurd (by simpa using hname) (List.find?_eq_none.mp hfirst y hy)
  rw [List.find?_append, hsplit, Option.some_or]

omit [DecidableEq α] in
/-- The parent has lost the snapshot of its promoted clone. -/
theorem find_left (hnodup : (parent.snapshots.map Snapshot.name).Nodup)
    (h : ∃ x ∈ parent.snapshots, x.name = s) :
    (through s parent.snapshots).2.find? (fun y => y.name = s) = none := by
  obtain ⟨x, hx, hxs⟩ := exists_through h
  rw [← through_append s parent.snapshots, List.map_append] at hnodup
  rw [List.find?_eq_none]
  intro y hy hys
  have hys' : y.name = s := by simpa using hys
  exact (List.nodup_append.mp hnodup).2.2 x.name (List.mem_map_of_mem hx) y.name
    (List.mem_map_of_mem hy) (hxs.trans hys'.symm)

/-- What there is to know of a promotion. -/
structure Promotion (t t' : Tree α ν δ) (c o : List α) (s : ν) (parent : Dataset α ν δ) :
    Prop where
  clone : ∃ d, t.get c = some d ∧ d.origin = some (o, s)
  source : t.get o = some parent
  get : ∀ p, t'.get p = (t.get p).map (promoted c o s parent p)
  entries : t' = t.map fun e => (e.1, promoted c o s parent e.1 e.2)

theorem promotion_of_eq_some (h : promote t c = some t') :
    ∃ o s parent, Promotion t t' c o s parent := by
  unfold promote at h
  split at h
  case h_1 data own o s hc =>
    split at h
    case h_1 parent ho =>
      split_ifs at h
      cases h
      exact ⟨o, s, parent, ⟨_, hc, rfl⟩, ho, KeyedList.get_mapEntries t _, rfl⟩
    case h_2 => cases h
  case h_2 => cases h

theorem holds_promoted (hp : p ≠ o) (d : Dataset α ν δ) :
    Holds d (promoted c o s parent p d) := by
  unfold promoted
  simp only
  split_ifs with hc
  · exact ⟨rfl, fun x hx => List.mem_append_right _ hx⟩
  · cases horigin : d.origin with
    | none => exact .refl d
    | some o' =>
      simp only
      split_ifs
      · exact ⟨rfl, fun x hx => hx⟩
      · exact .refl d

theorem Promotion.keeps (h : Promotion t t' c o s parent) (hp : p ≠ o) (hd : t.get p = some d) :
    ∃ d', t'.get p = some d' ∧ Holds d d' :=
  ⟨_, by rw [h.get, hd]; rfl, holds_promoted hp d⟩

theorem Promotion.has (h : Promotion t t' c o s parent) (p : List α) : t'.has p = t.has p := by
  rw [KeyedList.has, KeyedList.has, h.get]
  cases t.get p <;> rfl

/-- Whether a clone can be promoted is seen from it and its parent. -/
theorem Extends.isSome_promote (hext : Extends sep q t t') (h : (promote t c).isSome = true) :
    (promote t' c).isSome = true := by
  obtain ⟨u, hu⟩ := Option.isSome_iff_exists.mp h
  unfold promote at hu ⊢
  split at hu
  case h_1 data own o s hc =>
    rw [hext.old c _ hc]
    split at hu
    case h_1 parent ho =>
      simp only [hext.old o _ ho]
      split_ifs at hu ⊢
      rfl
    case h_2 => cases hu
  case h_2 => cases hu

end Snapshots

/-! ### Destruction and renaming -/

section Subtrees
variable [DecidableEq α] {sep : α} {blank : δ} {t t' : Tree α ν δ} {p q : List α}

theorem get_destroy (h : destroy sep t p = some t') (q : List α) :
    t'.get q = if AtOrBelow sep p q then none else t.get q := by
  unfold destroy at h
  split_ifs at h
  cases h
  have hget := KeyedList.get_filterKeys t (fun x => decide (¬AtOrBelow sep p x)) q
  by_cases hq : AtOrBelow sep p q
  · simpa [hq] using hget
  · simpa [hq] using hget

/-- Nothing outside the subtree is a clone of something inside. -/
def Detached (sep : α) (t : Tree α ν δ) (p : List α) : Prop :=
  ∀ e ∈ t, ¬AtOrBelow sep p e.1 → ∀ o ∈ e.2.origin, ¬AtOrBelow sep p o.1

theorem Extends.detached (h : Extends sep q t t') : Detached sep t' p ↔ Detached sep t p := by
  constructor
  · exact fun hd e he => hd e (h.kept e he)
  · intro hd e he hout o ho
    rcases h.entries e he with hold | hnone
    · exact hd e hold hout o ho
    · rw [hnone] at ho
      cases ho

theorem isSome_destroy (hp : t.has p = true) :
    (destroy sep t p).isSome = true ↔ Detached sep t p := by
  unfold destroy Detached
  simp only [hp, Bool.true_and]
  split_ifs with h
  · simp only [Option.isSome_some, true_iff]
    intro e he hout o ho hin
    simp only [Bool.not_eq_true', List.any_eq_false, Bool.and_eq_true, decide_eq_true_eq,
      Option.any_eq_true] at h
    exact h e he ⟨hout, o, ho, hin⟩
  · simp only [Option.isSome_none, Bool.false_eq_true, false_iff]
    intro hall
    apply h
    simp only [Bool.not_eq_true', List.any_eq_false, Bool.and_eq_true, decide_eq_true_eq,
      Option.any_eq_true, not_and, not_exists]
    intro e he hout o ho
    exact hall e he hout o ho

theorem relocate_below (h : AtOrBelow sep p q) (x : List α) :
    AtOrBelow sep x (relocate sep p x q) := by
  rw [relocate, if_pos h]
  exact PathTree.atOrBelow_append p x h

section Rename
variable {up : List α}

theorem rename_spec (h : rename sep blank t up p q = some t') :
    t.has p = true ∧ t.has q = false ∧ ¬AtOrBelow sep p q ∧ pool sep p = pool sep q ∧
      t' = (((PathTree.ancestors sep up).foldl (ensure blank) t).map fun e =>
        (relocate sep p q e.1,
          { e.2 with origin := e.2.origin.map fun o => (relocate sep p q o.1, o.2) })) := by
  unfold rename at h
  split_ifs at h with hcond
  cases h
  exact ⟨hcond.1, hcond.2.1, hcond.2.2.1, hcond.2.2.2, rfl⟩

/-- No key of the tree that is renamed lies at or below the new name. -/
theorem not_below_target (hw : WellFormed sep t) (hq : t.has q = false)
    (hup : ¬AtOrBelow sep q up) {x : List α}
    (hx : KeyedList.has ((PathTree.ancestors sep up).foldl (ensure blank) t) x = true) :
    ¬AtOrBelow sep q x := by
  intro hbelow
  obtain ⟨d, hd⟩ := get_of_has hx
  rw [get_ensureAll] at hd
  cases ht : t.get x with
  | some d' =>
    have := hw.rooted x (has_of_get ht) q hbelow
    rw [hq] at this
    cases this
  | none =>
    rw [ht, Option.none_or] at hd
    split_ifs at hd with hmem
    exact hup (hbelow.trans (PathTree.mem_ancestors.mp hmem))

theorem relocate_injective {x x' : List α} (hx : ¬AtOrBelow sep q x) (hx' : ¬AtOrBelow sep q x')
    (h : relocate sep p q x = relocate sep p q x') : x = x' := by
  by_cases hp : AtOrBelow sep p x <;> by_cases hp' : AtOrBelow sep p x'
  · rw [relocate, relocate, if_pos hp, if_pos hp'] at h
    rw [hp.eq_append, hp'.eq_append, List.append_cancel_left h]
  · have hbelow := relocate_below hp q
    rw [h, relocate, if_neg hp'] at hbelow
    exact absurd hbelow hx'
  · have hbelow := relocate_below hp' q
    rw [← h, relocate, if_neg hp] at hbelow
    exact absurd hbelow hx
  · rwa [relocate, relocate, if_neg hp, if_neg hp'] at h

theorem get_rename (hw : WellFormed sep t) (hup : ¬AtOrBelow sep q up)
    (h : rename sep blank t up p q = some t') {x : List α} {d : Dataset α ν δ}
    (hd : t.get x = some d) :
    ∃ d', t'.get (relocate sep p q x) = some d' ∧ Holds d d' := by
  obtain ⟨-, hq, -, -, rfl⟩ := rename_spec h
  have hnodup := @nodup_ensureAll α ν δ _ blank t (PathTree.ancestors sep up) hw.nodup
  have hget : KeyedList.get ((PathTree.ancestors sep up).foldl (ensure blank) t) x = some d := by
    rw [get_ensureAll, hd, Option.some_or]
  refine ⟨_, KeyedList.get_of_mem ?_ (List.mem_map_of_mem (KeyedList.mem_of_get hget)), ?_⟩
  · rw [KeyedList.keys, List.map_map]
    have hkeys : (KeyedList.keys ((PathTree.ancestors sep up).foldl (ensure blank) t)).map
        (relocate sep p q) = ((PathTree.ancestors sep up).foldl (ensure blank) t).map
          (relocate sep p q ∘ Prod.fst) := by rw [KeyedList.keys, List.map_map]
    change (List.map (relocate sep p q ∘ Prod.fst) _).Nodup
    rw [← hkeys]
    refine List.Nodup.map_on (fun y hy z hz heq => ?_) hnodup
    have hout : ∀ k ∈ KeyedList.keys ((PathTree.ancestors sep up).foldl (ensure blank) t),
        ¬AtOrBelow sep q k :=
      fun k hk => not_below_target hw hq hup ((KeyedList.has_iff_mem_keys _ k).mpr hk)
    exact relocate_injective (hout y hy) (hout z hz) heq
  · exact ⟨rfl, fun y hy => hy⟩

/-- Nothing is left of the old subtree. -/
theorem get_rename_old (hw : WellFormed sep t) (h : rename sep blank t up p q = some t') {x : List α}
    (hx : AtOrBelow sep p x) : t'.get x = none := by
  obtain ⟨hp, hq, hpq, -, rfl⟩ := rename_spec h
  by_contra hne
  obtain ⟨d, hd⟩ := Option.ne_none_iff_exists'.mp hne
  obtain ⟨⟨y, dy⟩, hy, heq⟩ := List.mem_map.mp (KeyedList.mem_of_get hd)
  have hkey : relocate sep p q y = x := congrArg Prod.fst heq
  have hy' : KeyedList.has ((PathTree.ancestors sep up).foldl (ensure blank) t) y = true :=
    (KeyedList.has_iff_mem_keys _ y).mpr (List.mem_map_of_mem hy)
  by_cases hin : AtOrBelow sep p y
  · have hqx : AtOrBelow sep q x := hkey ▸ relocate_below hin q
    rcases hqx.total hx with hqp | hpq'
    · have := hw.rooted p hp q hqp
      rw [hq] at this
      cases this
    · exact hpq hpq'
  · rw [relocate, if_neg hin] at hkey
    exact hin (hkey ▸ hx)

end Rename

end Subtrees

end DatasetTree
