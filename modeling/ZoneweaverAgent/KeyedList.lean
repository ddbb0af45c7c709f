import Mathlib.Data.List.Basic

/-!
# Keyed lists

A finite map kept as the list of its entries, in the order in which the keys were first written.
Writing a present key replaces its value in place, writing a new one appends it, and erasing
removes every entry of the key: the behaviour of a JavaScript `Map` and of the own properties of
an object.
-/

/-- A finite map as a list of entries; a lookup answers the first entry of the key. -/
abbrev KeyedList (κ α : Type*) := List (κ × α)

namespace KeyedList

/-- Lists of texts, and of optional names, are searched with one instance. -/
instance : LawfulBEq (List Char) := inferInstance

instance : LawfulBEq (Option String) := inferInstance

variable {κ α : Type*}

def keys (m : KeyedList κ α) : List κ := m.map Prod.fst

theorem nodup_eraseDups [BEq α] [LawfulBEq α] (l : List α) : l.eraseDups.Nodup := by
  induction hn : l.length using Nat.strongRecOn generalizing l with
  | ind n ih =>
    cases l with
    | nil => exact List.nodup_nil
    | cons a rest =>
      rw [List.eraseDups_cons, List.nodup_cons, List.mem_eraseDups]
      refine ⟨by simp, ih _ ?_ _ rfl⟩
      have := List.length_filter_le (fun b => !b == a) rest
      rw [List.length_cons] at hn
      omega

theorem length_keys (m : KeyedList κ α) : m.keys.length = m.length := by simp [keys]

variable [DecidableEq κ]

def get (m : KeyedList κ α) (k : κ) : Option α := (m.find? (fun e => e.1 = k)).map Prod.snd

def set (m : KeyedList κ α) (k : κ) (v : α) : KeyedList κ α :=
  match m with
  | [] => [(k, v)]
  | e :: rest => if e.1 = k then (k, v) :: rest else e :: set rest k v

def erase (m : KeyedList κ α) (k : κ) : KeyedList κ α := m.filter (fun e => e.1 ≠ k)

def has (m : KeyedList κ α) (k : κ) : Bool := (m.get k).isSome

/-- Every entry of `m'` written over `m`, in order: the spread of `m'` after `m`. -/
def setAll (m m' : KeyedList κ α) : KeyedList κ α := m'.foldl (fun acc e => acc.set e.1 e.2) m

@[simp] theorem get_nil (k : κ) : get ([] : KeyedList κ α) k = none := rfl

theorem get_cons (k' : κ) (v : α) (m : KeyedList κ α) (k : κ) :
    get ((k', v) :: m) k = if k' = k then some v else m.get k := by
  by_cases h : k' = k <;> simp [get, h]

theorem get_append (m m' : KeyedList κ α) (k : κ) :
    get (m ++ m') k = (m.get k).or (m'.get k) := by
  induction m with
  | nil => rfl
  | cons e rest ih =>
    obtain ⟨k₀, v₀⟩ := e
    rw [List.cons_append, get_cons, get_cons, ih]
    split_ifs <;> rfl

theorem get_set (m : KeyedList κ α) (k k' : κ) (v : α) :
    (m.set k v).get k' = if k = k' then some v else m.get k' := by
  induction m with
  | nil => simp [set, get_cons]
  | cons e rest ih =>
    obtain ⟨k₀, v₀⟩ := e
    by_cases h : k₀ = k
    · subst h
      simp only [set, ↓reduceIte, get_cons]
      split_ifs <;> rfl
    · simp only [set, if_neg h, get_cons, ih]
      by_cases hk : k = k'
      · subst hk
        simp [h]
      · simp [hk]

@[simp] theorem get_set_self (m : KeyedList κ α) (k : κ) (v : α) : (m.set k v).get k = some v := by
  rw [get_set, if_pos rfl]

theorem get_set_of_ne (m : KeyedList κ α) {k k' : κ} (v : α) (h : k ≠ k') :
    (m.set k v).get k' = m.get k' := by
  rw [get_set, if_neg h]

theorem get_erase (m : KeyedList κ α) (k k' : κ) :
    (m.erase k).get k' = if k = k' then none else m.get k' := by
  induction m with
  | nil => simp [erase]
  | cons e rest ih =>
    obtain ⟨k₀, v₀⟩ := e
    have hcons : erase ((k₀, v₀) :: rest) k =
        if k₀ = k then erase rest k else (k₀, v₀) :: erase rest k := by
      by_cases h : k₀ = k <;> simp [erase, h]
    rw [hcons, get_cons]
    by_cases h : k₀ = k
    · subst h
      rw [if_pos rfl, ih]
      split_ifs <;> rfl
    · rw [if_neg h, get_cons, ih]
      by_cases hk : k = k'
      · subst hk
        simp [h]
      · simp [hk]

@[simp] theorem get_erase_self (m : KeyedList κ α) (k : κ) : (m.erase k).get k = none := by
  rw [get_erase, if_pos rfl]

theorem get_erase_of_ne (m : KeyedList κ α) {k k' : κ} (h : k ≠ k') :
    (m.erase k).get k' = m.get k' := by
  rw [get_erase, if_neg h]

theorem get_erase_eq_some {m : KeyedList κ α} {k k' : κ} {v : α}
    (h : (m.erase k).get k' = some v) : k ≠ k' ∧ m.get k' = some v := by
  rw [get_erase] at h
  split_ifs at h with hk
  exact ⟨hk, h⟩

/-- For each of the listed keys, the entry `f` gives it, if it gives one, written over `m`. -/
def copyKeys (m : KeyedList κ α) (ks : List κ) (f : κ → Option α) : KeyedList κ α :=
  ks.foldl (fun acc k => match f k with
    | some v => acc.set k v
    | none => acc) m

/-- Each of the listed keys made what `f` says: written, or erased where `f` gives nothing. -/
def replaceKeys (m : KeyedList κ α) (ks : List κ) (f : κ → Option α) : KeyedList κ α :=
  ks.foldl (fun acc k => match f k with
    | some v => acc.set k v
    | none => acc.erase k) m

theorem get_copyKeys (m : KeyedList κ α) (ks : List κ) (f : κ → Option α) (k : κ) :
    (m.copyKeys ks f).get k = if k ∈ ks then (f k).or (m.get k) else m.get k := by
  induction ks generalizing m with
  | nil => simp [copyKeys]
  | cons j rest ih =>
    have hcons : m.copyKeys (j :: rest) f =
        copyKeys (match f j with | some v => m.set j v | none => m) rest f := rfl
    rw [hcons, ih]
    by_cases hj : j = k
    · subst hj
      cases hf : f j <;> simp
    · have hget : get (match f j with | some v => m.set j v | none => m) k = m.get k := by
        cases f j with
        | none => rfl
        | some v => exact get_set_of_ne m v hj
      simp [hget, Ne.symm hj]

theorem get_replaceKeys (m : KeyedList κ α) (ks : List κ) (f : κ → Option α) (k : κ) :
    (m.replaceKeys ks f).get k = if k ∈ ks then f k else m.get k := by
  induction ks generalizing m with
  | nil => simp [replaceKeys]
  | cons j rest ih =>
    have hcons : m.replaceKeys (j :: rest) f =
        replaceKeys (match f j with | some v => m.set j v | none => m.erase j) rest f := rfl
    rw [hcons, ih]
    by_cases hj : j = k
    · subst hj
      cases hf : f j <;> simp
    · have hget : get (match f j with | some v => m.set j v | none => m.erase j) k = m.get k := by
        cases f j with
        | none => exact get_erase_of_ne m hj
        | some v => exact get_set_of_ne m v hj
      simp [hget, Ne.symm hj]

theorem mem_of_get {m : KeyedList κ α} {k : κ} {v : α} (h : m.get k = some v) : (k, v) ∈ m := by
  unfold get at h
  obtain ⟨e, he, hv⟩ := Option.map_eq_some_iff.mp h
  have hk : e.1 = k := by simpa using List.find?_some he
  have hmem := List.mem_of_find?_eq_some he
  rw [← hk, ← hv]
  exact hmem

theorem mem_of_mem_set {m : KeyedList κ α} {k : κ} {v : α} {e : κ × α} (h : e ∈ m.set k v) :
    e = (k, v) ∨ e ∈ m := by
  induction m with
  | nil => exact .inl (List.mem_singleton.mp h)
  | cons e' rest ih =>
    simp only [set] at h
    split_ifs at h
    · exact (List.mem_cons.mp h).imp_right (List.mem_cons_of_mem _)
    · rcases List.mem_cons.mp h with rfl | hrest
      · exact .inr List.mem_cons_self
      · exact (ih hrest).imp_right (List.mem_cons_of_mem _)

theorem keys_set (m : KeyedList κ α) (k : κ) (v : α) :
    (m.set k v).keys = if k ∈ m.keys then m.keys else m.keys ++ [k] := by
  induction m with
  | nil => rfl
  | cons e rest ih =>
    obtain ⟨k₀, v₀⟩ := e
    have hcons : keys ((k₀, v₀) :: rest) = k₀ :: keys rest := rfl
    by_cases h : k₀ = k
    · subst h
      simp [set, keys]
    · have hset : set ((k₀, v₀) :: rest) k v = (k₀, v₀) :: set rest k v := by simp [set, h]
      have hmem : k ∈ k₀ :: keys rest ↔ k ∈ keys rest := by simp [Ne.symm h]
      rw [hset, hcons]
      change k₀ :: keys (set rest k v) = _
      rw [ih]
      by_cases hk : k ∈ keys rest
      · rw [if_pos hk, if_pos (hmem.mpr hk)]
      · rw [if_neg hk, if_neg (fun hc => hk (hmem.mp hc))]
        rfl

theorem keys_copyKeys (m : KeyedList κ α) (ks : List κ) (f : κ → Option α) {k : κ}
    (h : k ∈ (m.copyKeys ks f).keys) : k ∈ m.keys ∨ k ∈ ks := by
  induction ks generalizing m with
  | nil => exact .inl h
  | cons j rest ih =>
    have hcons : m.copyKeys (j :: rest) f =
        copyKeys (match f j with | some v => m.set j v | none => m) rest f := rfl
    rw [hcons] at h
    rcases ih _ h with hm | hrest
    · cases hf : f j with
      | none =>
        rw [hf] at hm
        exact .inl hm
      | some v =>
        rw [hf, keys_set] at hm
        split_ifs at hm with hmem
        · exact .inl hm
        · rcases List.mem_append.mp hm with hold | hnew
          · exact .inl hold
          · exact .inr (List.mem_singleton.mp hnew ▸ List.mem_cons_self)
    · exact .inr (List.mem_cons_of_mem j hrest)

theorem nodup_keys_set {m : KeyedList κ α} (h : m.keys.Nodup) (k : κ) (v : α) :
    (m.set k v).keys.Nodup := by
  rw [keys_set]
  split_ifs with hk
  · exact h
  · refine List.nodup_append.mpr ⟨h, List.pairwise_singleton _ k, fun a ha b hb => ?_⟩
    rw [List.mem_singleton.mp hb]
    exact fun heq => hk (heq ▸ ha)

theorem nodup_keys_erase {m : KeyedList κ α} (h : m.keys.Nodup) (k : κ) :
    (m.erase k).keys.Nodup :=
  h.sublist ((List.filter_sublist (l := m)).map Prod.fst)

theorem get_of_notMem {m : KeyedList κ α} {k : κ} (h : k ∉ m.keys) : m.get k = none := by
  cases hget : m.get k with
  | none => rfl
  | some v => exact absurd (List.mem_map_of_mem (mem_of_get hget)) h

theorem get_setAll {m' : KeyedList κ α} (h : m'.keys.Nodup) (m : KeyedList κ α) (k : κ) :
    (m.setAll m').get k = (m'.get k).or (m.get k) := by
  induction m' generalizing m with
  | nil => rfl
  | cons e rest ih =>
    obtain ⟨k₀, v₀⟩ := e
    have hnodup : k₀ ∉ keys rest ∧ (keys rest).Nodup := List.nodup_cons.mp h
    have hcons : m.setAll ((k₀, v₀) :: rest) = (m.set k₀ v₀).setAll rest := rfl
    rw [hcons, ih hnodup.2, get_cons, get_set]
    by_cases hk : k₀ = k
    · subst hk
      simp [get_of_notMem hnodup.1]
    · simp [hk]

theorem mem_keys_iff (m : KeyedList κ α) (k : κ) : k ∈ m.keys ↔ ∃ v, m.get k = some v := by
  induction m with
  | nil => simp [keys]
  | cons e rest ih =>
    obtain ⟨k₀, v₀⟩ := e
    have hmem : k ∈ keys ((k₀, v₀) :: rest) ↔ k = k₀ ∨ k ∈ keys rest := by simp [keys]
    rw [hmem, ih, get_cons]
    by_cases h : k₀ = k
    · simp [h]
    · simp [h, Ne.symm h]

theorem has_iff_mem_keys (m : KeyedList κ α) (k : κ) : m.has k = true ↔ k ∈ m.keys := by
  rw [has, Option.isSome_iff_exists, mem_keys_iff]

theorem get_of_mem {m : KeyedList κ α} (h : m.keys.Nodup) {k : κ} {v : α} (hmem : (k, v) ∈ m) :
    m.get k = some v := by
  induction m with
  | nil => cases hmem
  | cons e rest ih =>
    obtain ⟨k₀, v₀⟩ := e
    have hnodup : k₀ ∉ keys rest ∧ (keys rest).Nodup := List.nodup_cons.mp h
    rw [get_cons]
    rcases List.mem_cons.mp hmem with heq | hrest
    · cases heq
      rw [if_pos rfl]
    · have hne : k₀ ≠ k := by
        rintro rfl
        exact hnodup.1 (List.mem_map_of_mem hrest)
      rw [if_neg hne]
      exact ih hnodup.2 hrest

theorem erase_of_notMem {m : KeyedList κ α} {k : κ} (h : k ∉ m.keys) : m.erase k = m := by
  refine List.filter_eq_self.mpr fun e he => ?_
  have hne : e.1 ≠ k := by
    rintro rfl
    exact h (List.mem_map_of_mem he)
  simp [hne]

/-- A present entry and the rest of the map. -/
theorem perm_cons_erase {m : KeyedList κ α} (h : m.keys.Nodup) {k : κ} {v : α}
    (hv : m.get k = some v) : m.Perm ((k, v) :: m.erase k) := by
  induction m with
  | nil => cases hv
  | cons e rest ih =>
    obtain ⟨k₀, v₀⟩ := e
    have hnodup : k₀ ∉ keys rest ∧ (keys rest).Nodup := List.nodup_cons.mp h
    rw [get_cons] at hv
    by_cases hk : k₀ = k
    · subst hk
      rw [if_pos rfl, Option.some.injEq] at hv
      have herase : erase ((k₀, v₀) :: rest) k₀ = rest := by
        have hrest : erase rest k₀ = rest := erase_of_notMem hnodup.1
        simpa [erase] using hrest
      rw [herase, hv]
    · rw [if_neg hk] at hv
      have herase : erase ((k₀, v₀) :: rest) k = (k₀, v₀) :: erase rest k := by simp [erase, hk]
      rw [herase]
      exact ((ih hnodup.2 hv).cons _).trans (.swap _ _ _)

theorem length_erase_le (m : KeyedList κ α) (k : κ) : (m.erase k).length ≤ m.length :=
  List.length_filter_le _ _

theorem length_set_le (m : KeyedList κ α) (k : κ) (v : α) : (m.set k v).length ≤ m.length + 1 := by
  induction m with
  | nil => simp [set]
  | cons e rest ih =>
    by_cases h : e.1 = k
    · simp [set, h]
    · simp only [set, if_neg h, List.length_cons]
      omega

end KeyedList
