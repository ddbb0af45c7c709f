import Mathlib.Data.List.Sort
import Mathlib.Order.Defs.LinearOrder

/-!
# Comparators

A comparator says with the sign of a number which of two values comes first. It orders a list where
it is transitive on its members; a lexicographic comparator is so where no three members run in a
cycle at the place where they first differ.
-/

namespace Comparators
variable {α β : Type*}

abbrev Comparator (α : Type*) := α → α → ℤ

/-- Two values compare with opposite signs, and alike only if they are the same. -/
structure Lawful (cmp : Comparator α) : Prop where
  swap : ∀ a b, cmp a b < 0 ↔ 0 < cmp b a
  zero : ∀ a b, cmp a b = 0 ↔ a = b

def TransitiveOn (cmp : Comparator α) (l : List α) : Prop :=
  ∀ a ∈ l, ∀ b ∈ l, ∀ c ∈ l, cmp a b ≤ 0 → cmp b c ≤ 0 → cmp a c ≤ 0

def Cycle (cmp : Comparator α) (a b c : α) : Prop := cmp a b < 0 ∧ cmp b c < 0 ∧ cmp c a < 0

/-- Values compared by what `f` gives of them. -/
def comap (f : β → α) (cmp : Comparator α) : Comparator β := fun x y => cmp (f x) (f y)

section Laws
variable {cmp : Comparator α} {a b c : α}

theorem Lawful.self (h : Lawful cmp) (a : α) : cmp a a = 0 := (h.zero a a).mpr rfl

theorem Lawful.asymm (h : Lawful cmp) (hab : cmp a b < 0) : ¬cmp b a < 0 := by
  have := (h.swap a b).mp hab
  omega

/-- Without transitivity three members run in a cycle. -/
theorem Lawful.transitiveOn_iff (h : Lawful cmp) (f : β → α) (l : List β) :
    TransitiveOn (comap f cmp) l ↔ ∀ x ∈ l, ∀ y ∈ l, ∀ z ∈ l, ¬Cycle cmp (f x) (f y) (f z) := by
  constructor
  · intro htrans x hx y hy z hz ⟨hxy, hyz, hzx⟩
    have hxz := htrans x hx y hy z hz (le_of_lt hxy) (le_of_lt hyz)
    have hpos := (h.swap (f z) (f x)).mp hzx
    unfold comap at hxz
    omega
  · intro hcycle x hx y hy z hz hxy hyz
    unfold comap at hxy hyz ⊢
    by_contra hxz
    have hzx : cmp (f z) (f x) < 0 := (h.swap _ _).mpr (by omega)
    rcases lt_or_eq_of_le hxy with hxy | hxy
    · rcases lt_or_eq_of_le hyz with hyz | hyz
      · exact hcycle x hx y hy z hz ⟨hxy, hyz, hzx⟩
      · rw [(h.zero _ _).mp hyz] at hxy
        omega
    · rw [(h.zero _ _).mp hxy] at hxz
      omega

end Laws

section Lexicographic

/-- The first difference decides, then the lengths. -/
def lex (cmp : Comparator α) : Comparator (List α)
  | a :: as, b :: bs => if cmp a b = 0 then lex cmp as bs else cmp a b
  | as, bs => as.length - bs.length

variable {cmp : Comparator α} {a b : α} {as bs x y z : List α}

theorem lex_cons_cons : lex cmp (a :: as) (b :: bs) =
    if cmp a b = 0 then lex cmp as bs else cmp a b := rfl

theorem lex_nil_left : lex cmp [] bs = -bs.length := by
  cases bs <;> simp [lex]

theorem lex_nil_right : lex cmp as [] = as.length := by
  cases as <;> simp [lex]

theorem lawful_lex (h : Lawful cmp) : Lawful (lex cmp) where
  swap x y := by
    induction x generalizing y with
    | nil => rw [lex_nil_left, lex_nil_right]; omega
    | cons a as ih =>
      cases y with
      | nil => rw [lex_nil_left, lex_nil_right]; omega
      | cons b bs =>
        rw [lex_cons_cons, lex_cons_cons]
        by_cases hab : a = b
        · subst hab
          rw [if_pos (h.self a), if_pos (h.self a)]
          exact ih bs
        · rw [if_neg (fun hc => hab ((h.zero a b).mp hc)),
            if_neg (fun hc => hab ((h.zero b a).mp hc).symm)]
          exact h.swap a b
  zero x y := by
    induction x generalizing y with
    | nil =>
      rw [lex_nil_left]
      cases y with
      | nil => simp
      | cons b bs => simp only [List.length_cons, reduceCtorEq, iff_false]; omega
    | cons a as ih =>
      cases y with
      | nil =>
        rw [lex_nil_right]
        simp only [List.length_cons, reduceCtorEq, iff_false]
        omega
      | cons b bs =>
        rw [lex_cons_cons, List.cons.injEq]
        split_ifs with hab
        · rw [ih bs, ← h.zero a b]
          simp [hab]
        · rw [← h.zero a b]
          simp [hab]

theorem lex_append (h : Lawful cmp) (common : List α) :
    lex cmp (common ++ x) (common ++ y) = lex cmp x y := by
  induction common with
  | nil => rfl
  | cons a common ih => rw [List.cons_append, List.cons_append, lex_cons_cons, if_pos (h.self a), ih]

/-- Three lists run in a cycle where they do so at their first difference. -/
theorem lex_cycle_iff (h : Lawful cmp) : Cycle (lex cmp) x y z ↔
    ∃ common a b c x' y' z', x = common ++ a :: x' ∧ y = common ++ b :: y' ∧
      z = common ++ c :: z' ∧ Cycle cmp a b c := by
  constructor
  · intro ⟨hxy, hyz, hzx⟩
    induction x generalizing y z with
    | nil =>
      rw [lex_nil_right] at hzx
      omega
    | cons a x ih =>
      cases y with
      | nil =>
        rw [lex_nil_right] at hxy
        omega
      | cons b y =>
        cases z with
        | nil =>
          rw [lex_nil_right] at hyz
          omega
        | cons c z =>
          rw [lex_cons_cons] at hxy hyz hzx
          by_cases hab : a = b
          · subst hab
            rw [if_pos (h.self a)] at hxy
            by_cases hac : a = c
            · subst hac
              rw [if_pos (h.self a)] at hyz hzx
              obtain ⟨common, a', b', c', x', y', z', rfl, rfl, rfl, hcycle⟩ := ih hxy hyz hzx
              exact ⟨a :: common, a', b', c', x', y', z', rfl, rfl, rfl, hcycle⟩
            · rw [if_neg (fun hc => hac ((h.zero _ _).mp hc))] at hyz
              rw [if_neg (fun hc => hac ((h.zero _ _).mp hc).symm)] at hzx
              exact absurd hzx (h.asymm hyz)
          · rw [if_neg (fun hc => hab ((h.zero _ _).mp hc))] at hxy
            by_cases hbc : b = c
            · subst hbc
              rw [if_neg (fun hc => hab ((h.zero _ _).mp hc).symm)] at hzx
              exact absurd hzx (h.asymm hxy)
            · rw [if_neg (fun hc => hbc ((h.zero _ _).mp hc))] at hyz
              by_cases hca : c = a
              · subst hca
                exact absurd hyz (h.asymm hxy)
              · rw [if_neg (fun hc => hca ((h.zero _ _).mp hc))] at hzx
                exact ⟨[], a, b, c, x, y, z, rfl, rfl, rfl, hxy, hyz, hzx⟩
  · rintro ⟨common, a, b, c, x', y', z', rfl, rfl, rfl, hab, hbc, hca⟩
    unfold Cycle
    rw [lex_append h, lex_append h, lex_append h, lex_cons_cons, lex_cons_cons, lex_cons_cons,
      if_neg (ne_of_lt hab), if_neg (ne_of_lt hbc), if_neg (ne_of_lt hca)]
    exact ⟨hab, hbc, hca⟩

theorem transitiveOn_lex (h : Lawful cmp)
    (htrans : ∀ a b c, cmp a b < 0 → cmp b c < 0 → cmp a c < 0) (f : β → List α) (l : List β) :
    TransitiveOn (comap f (lex cmp)) l := by
  rw [(lawful_lex h).transitiveOn_iff]
  intro x _ y _ z _ hcycle
  obtain ⟨_, a, b, c, _, _, _, _, _, _, hab, hbc, hca⟩ := (lex_cycle_iff h).mp hcycle
  exact h.asymm hca (htrans a b c hab hbc)

end Lexicographic

section Sorting
variable {cmp : Comparator α} {l l' : List α} {a b : α}

def leads (cmp : Comparator α) (a b : α) : Bool := decide (cmp a b ≤ 0)

@[simp] theorem leads_iff : leads cmp a b = true ↔ cmp a b ≤ 0 := by simp [leads]

/-- A stable sort. -/
def sortBy (cmp : Comparator α) (l : List α) : List α := l.mergeSort (leads cmp)

theorem sortBy_perm (l : List α) : (sortBy cmp l).Perm l := List.mergeSort_perm _ _

/-- The sort of a list is a sort of its members, on which alone the comparator has to be lawful. -/
theorem sortBy_eq_attach (cmp : Comparator α) (l : List α) :
    sortBy cmp l = (sortBy (comap Subtype.val cmp) l.attach).map Subtype.val := by
  have h := List.map_mergeSort (r := leads (comap Subtype.val cmp)) (s := leads cmp)
    (f := Subtype.val) (l := l.attach) (fun _ _ _ _ => rfl)
  rw [List.attach_map_subtype_val] at h
  exact h.symm

variable (hswap : ∀ a b, cmp a b < 0 ↔ 0 < cmp b a) (htrans : TransitiveOn cmp l)
include hswap htrans

omit htrans in
theorem leads_total (a b : α) : leads cmp a b || leads cmp b a := by
  have := hswap b a
  simp only [Bool.or_eq_true, leads_iff]
  omega

omit hswap in
theorem leads_trans_attach (a b c : {x // x ∈ l}) (hab : leads (comap Subtype.val cmp) a b)
    (hbc : leads (comap Subtype.val cmp) b c) : leads (comap Subtype.val cmp) a c := by
  rw [leads_iff] at hab hbc ⊢
  exact htrans a a.2 b b.2 c c.2 hab hbc

theorem pairwise_sortBy : (sortBy cmp l).Pairwise fun a b => cmp a b ≤ 0 := by
  rw [sortBy_eq_attach, List.pairwise_map]
  have hsorted := List.pairwise_mergeSort (leads_trans_attach htrans)
    (fun a b => leads_total hswap a.val b.val) l.attach
  exact hsorted.imp fun h => leads_iff.mp h

/-- What stands before another member and does not come after it stays there. -/
theorem pair_sublist_sortBy (hab : cmp a b ≤ 0) (h : [a, b].Sublist l) :
    [a, b].Sublist (sortBy cmp l) := by
  rw [sortBy_eq_attach]
  obtain ⟨pair, hpair, hval⟩ : ∃ pair : List {x // x ∈ l}, pair.Sublist l.attach ∧
      pair.map Subtype.val = [a, b] := by
    have h' : [a, b].Sublist (l.attach.map Subtype.val) := by
      rwa [List.attach_map_subtype_val]
    obtain ⟨pair, hpair, heq⟩ := List.sublist_map_iff.mp h'
    exact ⟨pair, hpair, heq.symm⟩
  have hmap : (pair.map Subtype.val).Pairwise fun a b => cmp a b ≤ 0 := by
    rw [hval, List.pairwise_pair]
    exact hab
  rw [← hval]
  apply List.Sublist.map
  apply List.sublist_mergeSort (leads_trans_attach htrans)
    (fun a b => leads_total hswap a.val b.val) _ hpair
  exact (List.pairwise_map.mp hmap).imp fun h => leads_iff.mpr h

/-- Members that none of the others among them come after keep their order. -/
theorem filter_sortBy {p : α → Bool} (h : (l.filter p).Pairwise fun a b => cmp a b ≤ 0) :
    (sortBy cmp l).filter p = l.filter p := by
  have hsub : (l.filter p).Sublist (sortBy cmp l) := by
    rw [sortBy_eq_attach]
    obtain ⟨part, hpart, heq⟩ := List.sublist_map_iff.mp
      (show (l.filter p).Sublist (l.attach.map Subtype.val) by
        rw [List.attach_map_subtype_val]
        exact List.filter_sublist)
    rw [heq] at h ⊢
    apply List.Sublist.map
    apply List.sublist_mergeSort (leads_trans_attach htrans)
      (fun a b => leads_total hswap a.val b.val) _ hpart
    exact (List.pairwise_map.mp h).imp fun h => leads_iff.mpr h
  have hfilter : (l.filter p).Sublist ((sortBy cmp l).filter p) := by
    simpa only [List.filter_filter, Bool.and_self] using hsub.filter p
  exact (hfilter.eq_of_length ((sortBy_perm l).filter p).length_eq.symm).symm

/-- Members that all compare unlike are sorted in one way. -/
theorem sortBy_eq_of_perm (hzero : ∀ a ∈ l, ∀ b ∈ l, cmp a b = 0 → a = b) (h : l'.Perm l) :
    sortBy cmp l' = sortBy cmp l := by
  have htrans' : TransitiveOn cmp l' := fun a ha b hb c hc =>
    htrans a (h.mem_iff.mp ha) b (h.mem_iff.mp hb) c (h.mem_iff.mp hc)
  apply List.Perm.eq_of_pairwise _ (pairwise_sortBy hswap htrans') (pairwise_sortBy hswap htrans)
    (((sortBy_perm l').trans h).trans (sortBy_perm l).symm)
  intro a b ha hb hab hba
  apply hzero a (h.mem_iff.mp ((sortBy_perm l').mem_iff.mp ha)) b ((sortBy_perm l).mem_iff.mp hb)
  have := hswap a b
  omega

/-- The first member of a sorted list comes after none. -/
theorem exists_head?_sortBy (hne : l ≠ []) :
    ∃ a, (sortBy cmp l).head? = some a ∧ a ∈ l ∧ ∀ b ∈ l, cmp a b ≤ 0 := by
  have hsorted := pairwise_sortBy hswap htrans
  have hmem : ∀ b, b ∈ sortBy cmp l ↔ b ∈ l := fun b => (sortBy_perm l).mem_iff
  have hself : ∀ a, cmp a a = 0 := by
    intro a
    have := hswap a a
    omega
  cases hlist : sortBy cmp l with
  | nil =>
    have hperm := (@sortBy_perm _ cmp l).symm
    rw [hlist] at hperm
    exact absurd hperm.eq_nil hne
  | cons a rest =>
    rw [hlist] at hsorted hmem
    refine ⟨a, rfl, (hmem a).mp List.mem_cons_self, fun b hb => ?_⟩
    rcases List.mem_cons.mp ((hmem b).mpr hb) with rfl | hrest
    · exact le_of_eq (hself b)
    · exact (List.pairwise_cons.mp hsorted).1 b hrest

omit hswap htrans in
/-- Two members stand in one order. -/
theorem eq_of_pair_sublists (h : l.Nodup) (hab : [a, b].Sublist l) (hba : [b, a].Sublist l) :
    a = b := by
  induction l with
  | nil => cases hab
  | cons c l ih =>
    obtain ⟨hc, hl⟩ := List.nodup_cons.mp h
    cases hab with
    | cons _ hab =>
      cases hba with
      | cons _ hba => exact ih hl hab hba
      | cons_cons _ _ => exact absurd (hab.subset (by simp)) hc
    | cons_cons _ hb =>
      cases hba with
      | cons _ hba => exact absurd (hba.subset (by simp)) hc
      | cons_cons _ _ => rfl

omit hswap htrans in
/-- Nothing stands before the first member. -/
theorem not_pair_of_head? {L : List α} (hnodup : L.Nodup) (hhead : L.head? = some a) {b : α} :
    ¬[b, a].Sublist L := by
  intro hpair
  cases L with
  | nil => cases hhead
  | cons x rest =>
    obtain rfl : x = a := Option.some.inj hhead
    cases hpair with
    | cons _ hrest => exact (List.nodup_cons.mp hnodup).1 (hrest.subset (by simp))
    | cons_cons _ hrest => exact (List.nodup_cons.mp hnodup).1 (hrest.subset (by simp))

/-- The first member of a sorted list comes before those that stand before it in the list. -/
theorem head?_sortBy_iff (hnodup : l.Nodup) : (sortBy cmp l).head? = some a ↔
    ∃ before after, l = before ++ a :: after ∧ (∀ b ∈ before, cmp a b < 0) ∧
      ∀ b ∈ after, cmp a b ≤ 0 := by
  have hsorted : (sortBy cmp l).Nodup := (sortBy_perm l).nodup_iff.mpr hnodup
  constructor
  · intro ha
    have hne : l ≠ [] := by
      rintro rfl
      simp [sortBy] at ha
    obtain ⟨first, hfirst, hmem, hleast⟩ := exists_head?_sortBy hswap htrans hne
    obtain rfl : first = a := Option.some.inj (hfirst.symm.trans ha)
    obtain ⟨before, after, rfl⟩ := List.append_of_mem hmem
    refine ⟨before, after, rfl, fun b hb => ?_, fun b hb => hleast b (by simp [hb])⟩
    by_contra hlt
    have hba : cmp b first ≤ 0 := by
      have := hswap first b
      have := hswap b first
      have := hleast b (by simp [hb])
      omega
    have hpair : [b, first].Sublist (before ++ first :: after) :=
      (List.singleton_sublist.mpr hb).append (List.singleton_sublist.mpr List.mem_cons_self)
    exact not_pair_of_head? hsorted hfirst (pair_sublist_sortBy hswap htrans hba hpair)
  · rintro ⟨before, after, rfl, hbefore, hafter⟩
    obtain ⟨first, hfirst, hmem, hleast⟩ := exists_head?_sortBy hswap htrans (by simp)
    have hle := hleast a (by simp)
    rcases List.mem_append.mp hmem with hmem | hmem
    · have := hbefore first hmem
      have := (hswap a first).mp this
      omega
    · rcases List.mem_cons.mp hmem with rfl | hmem
      · exact hfirst
      · have hpair : [a, first].Sublist (before ++ a :: after) :=
          ((List.singleton_sublist.mpr hmem).cons_cons a).trans (List.sublist_append_right _ _)
        have hstays := pair_sublist_sortBy hswap htrans (hafter first hmem) hpair
        exact absurd hstays (not_pair_of_head? hsorted hfirst)

/-- A sorted list begins with the first of the least members. -/
theorem head?_sortBy_eq :
    (sortBy cmp l).head? = (l.filter fun a => l.all fun b => cmp a b ≤ 0).head? := by
  rcases eq_or_ne l [] with rfl | hne
  · simp [sortBy]
  · have hleast : ∀ a ∈ l.filter fun a => l.all fun b => cmp a b ≤ 0, ∀ b ∈ l, cmp a b ≤ 0 := by
      simp
    obtain ⟨a, hhead, -, ha⟩ := exists_head?_sortBy hswap htrans hne
    have hfilter := filter_sortBy (p := fun a => l.all fun b => cmp a b ≤ 0) hswap htrans
      (List.pairwise_of_forall_mem_list fun a ha b hb => hleast a ha b (List.mem_of_mem_filter hb))
    rw [← hfilter, hhead]
    obtain ⟨rest, hrest⟩ := List.head?_eq_some_iff.mp hhead
    rw [hrest, List.filter_cons_of_pos (by simpa using ha), List.head?_cons]

/-- A sorted list ends with the last of the greatest members. -/
theorem getLast?_sortBy_eq :
    (sortBy cmp l).getLast? = (l.filter fun a => l.all fun b => cmp b a ≤ 0).getLast? := by
  have hgreatest : ∀ a ∈ l.filter fun a => l.all fun b => cmp b a ≤ 0, ∀ b ∈ l, cmp b a ≤ 0 := by
    simp
  have hfilter := filter_sortBy (p := fun a => l.all fun b => cmp b a ≤ 0) hswap htrans
    (List.pairwise_of_forall_mem_list fun a ha b hb => hgreatest b hb a (List.mem_of_mem_filter ha))
  rw [← hfilter]
  rcases List.eq_nil_or_concat' (sortBy cmp l) with hnil | ⟨before, a, hsort⟩
  · rw [hnil, List.filter_nil]
  · have hsorted := pairwise_sortBy hswap htrans
    rw [hsort, List.pairwise_append] at hsorted
    have ha : ∀ b ∈ l, cmp b a ≤ 0 := by
      intro b hb
      have hperm : (sortBy cmp l).Perm l := sortBy_perm l
      rw [← hperm.mem_iff, hsort, List.mem_append, List.mem_singleton] at hb
      rcases hb with hb | rfl
      · exact hsorted.2.2 b hb a (List.mem_singleton_self a)
      · have := hswap b b
        omega
    rw [hsort, List.filter_append, List.filter_cons_of_pos (by simpa using ha), List.filter_nil,
      List.getLast?_concat, List.getLast?_concat]

end Sorting

end Comparators
