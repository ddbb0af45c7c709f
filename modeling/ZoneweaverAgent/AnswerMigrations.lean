import ZoneweaverAgent.FieldVisibility
import ZoneweaverAgent.HostsTemplate

/-!
# Answer migrations

A package version may rename fields of an older one. `applyAnswerMigrations` moves the recorded
answers one entry after the other, in place; what is meant is to move them all at once. An answer
may become a member of the object prototype, which is why the values here are operands.
-/

namespace ZoneweaverAgent.AnswerMigrations

open FieldDsl
open HostsTemplate (isIn)

abbrev Source := KeyedList String Operand

abbrev Renames := KeyedList String String

/-- `source[key]` of a key that is in `source`. -/
def valueOf (source : Source) (key : String) : Operand := (source.get key).getD (.inherited key)

def renameEntry (source : Source) (e : String × String) : Source :=
  if isIn source e.1 then
    (if isIn source e.2 then source else assign source e.2 (valueOf source e.1)).erase e.1
  else source

/-- `{ ...answers }` -/
def copied (answers : Values) : Source := answers.map fun e => (e.1, .value e.2)

/-- The entries of `renames` in the order in which `Object.entries` lists them. -/
def applyAnswerMigrations (renames : Renames) (answers : Values) : Source :=
  renames.foldl renameEntry (copied answers)

section Simultaneous

/-- The answer whose new name is `k`. -/
def movedTo (renames : Renames) (answers : Values) (k : String) : Option Json :=
  renames.findSome? fun e => if e.2 = k then answers.get e.1 else none

/-- All answers renamed at once; one that keeps its name wins. -/
def renamed (renames : Renames) (answers : Values) (k : String) : Option Json :=
  if k ∈ renames.keys then movedTo renames answers k
  else (answers.get k).or (movedTo renames answers k)

/-- Whatever the order of the entries, every answer is found under its new name. -/
def MovedAtOnce (renames : Renames) (answers : Values) : Prop :=
  ∀ order : Renames, order.Perm renames → ∀ k,
    (applyAnswerMigrations order answers).get k = (renamed renames answers k).map .value

/-- No answer is renamed to a name that is renamed itself, or to a name that only the object
prototype has. And no name that only the object prototype has is renamed to a vacant one. -/
def Independent (renames : Renames) (answers : Values) : Prop :=
  ∀ e ∈ renames,
    (answers.has e.1 = true →
      e.2 ∉ renames.keys ∧ (e.2 ∈ objectPrototype → answers.has e.2 = true)) ∧
    (answers.has e.1 = false → e.1 ∈ objectPrototype →
      e.2 ∈ objectPrototype ∨ answers.has e.2 = true ∧ e.2 ∉ renames.keys)

end Simultaneous

section Steps
variable {source : Source} {answers : Values} {renames order : Renames} {old new k : String}

theorem get_copied (answers : Values) (k : String) :
    (copied answers).get k = (answers.get k).map .value := by
  induction answers with
  | nil => rfl
  | cons e rest ih =>
    obtain ⟨key, v⟩ := e
    change KeyedList.get ((key, Operand.value v) :: copied rest) k = _
    rw [KeyedList.get_cons, KeyedList.get_cons, ih]
    split_ifs <;> rfl

theorem isIn_iff {α : Type*} (m : KeyedList String α) (key : String) :
    isIn m key = true ↔ (m.get key).isSome = true ∨ key ∈ objectPrototype := by
  simp [isIn, KeyedList.has]

theorem get_renameEntry (source : Source) (old new k : String) :
    (renameEntry source (old, new)).get k =
      if isIn source old = true then
        if old = k then none
        else if new = k ∧ isIn source new = false then some (valueOf source old)
        else source.get k
      else source.get k := by
  unfold renameEntry
  by_cases hold : isIn source old = true
  · rw [if_pos hold, if_pos hold, KeyedList.get_erase]
    apply if_congr Iff.rfl rfl
    by_cases hin : isIn source new = true
    · simp [hin]
    · have hproto : new ≠ "__proto__" := by
        rintro rfl
        exact hin ((isIn_iff _ _).mpr (.inr (by decide)))
      rw [if_neg hin, get_assign]
      simp [hin, hproto]
  · rw [if_neg hold, if_neg hold]

@[simp] theorem get_renameEntry_self (source : Source) (old new : String) :
    (renameEntry source (old, new)).get old = none := by
  rw [get_renameEntry]
  by_cases hold : isIn source old = true
  · rw [if_pos hold, if_pos rfl]
  · rw [if_neg hold]
    rw [isIn_iff, not_or] at hold
    simpa using hold.1

theorem get_renameEntry_of_some {x : Operand} (hold : source.get old = some x) (k : String) :
    (renameEntry source (old, new)).get k =
      if old = k then none
      else if new = k ∧ isIn source new = false then some x
      else source.get k := by
  have hin : isIn source old = true := (isIn_iff _ _).mpr (.inl (by rw [hold]; rfl))
  rw [get_renameEntry, if_pos hin, valueOf, hold]
  rfl

theorem get_renameEntry_of_none (hold : source.get old = none)
    (hnew : old ∈ objectPrototype → isIn source new = true) (k : String) :
    (renameEntry source (old, new)).get k = source.get k := by
  rw [get_renameEntry]
  split_ifs with hin hk hset
  · rw [← hk, hold]
  · have hproto : old ∈ objectPrototype := by
      rw [isIn_iff, hold] at hin
      simpa using hin
    rw [hnew hproto] at hset
    cases hset.2
  · rfl
  · rfl

theorem movedTo_append (pre : Renames) (old new : String) (answers : Values) (k : String) :
    movedTo (pre ++ [(old, new)]) answers k =
      (movedTo pre answers k).or (if new = k then answers.get old else none) := by
  unfold movedTo
  rw [List.findSome?_append]
  cases h : (if new = k then answers.get old else none) <;> simp [h]

theorem exists_of_movedTo {v : Json} (h : movedTo renames answers k = some v) :
    ∃ old, (old, k) ∈ renames ∧ answers.get old = some v := by
  obtain ⟨⟨old, new⟩, hmem, hv⟩ := List.exists_of_findSome?_eq_some h
  split_ifs at hv with hk
  exact ⟨old, hk ▸ hmem, hv⟩

theorem movedTo_of_mem (htargets : (renames.map Prod.snd).Nodup) (hmem : (old, k) ∈ renames) :
    movedTo renames answers k = answers.get old := by
  induction renames with
  | nil => cases hmem
  | cons e rest ih =>
    obtain ⟨old', new'⟩ := e
    rw [List.map_cons, List.nodup_cons] at htargets
    unfold movedTo at ih ⊢
    rcases List.mem_cons.mp hmem with heq | hrest
    · obtain ⟨rfl, rfl⟩ := Prod.mk.inj heq
      have hnone : movedTo rest answers k = none := by
        by_contra hsome
        obtain ⟨v, hv⟩ := Option.ne_none_iff_exists'.mp hsome
        obtain ⟨other, hother, -⟩ := exists_of_movedTo hv
        exact htargets.1 (List.mem_map.mpr ⟨_, hother, rfl⟩)
      unfold movedTo at hnone
      rw [List.findSome?_cons, hnone]
      cases answers.get old <;> simp
    · have hne : new' ≠ k := by
        rintro rfl
        exact htargets.1 (List.mem_map.mpr ⟨_, hrest, rfl⟩)
      simp only [List.findSome?_cons, if_neg hne]
      exact ih htargets.2 hrest

theorem movedTo_perm (htargets : (renames.map Prod.snd).Nodup) (hperm : order.Perm renames) :
    movedTo order answers k = movedTo renames answers k := by
  by_cases hmem : ∃ old, (old, k) ∈ renames
  · obtain ⟨old, hmem⟩ := hmem
    rw [movedTo_of_mem htargets hmem, movedTo_of_mem
      ((hperm.map Prod.snd).nodup_iff.mpr htargets) (hperm.mem_iff.mpr hmem)]
  · have hnone : ∀ renames' : Renames, renames'.Perm renames →
        movedTo renames' answers k = none := by
      intro renames' hperm'
      by_contra hsome
      obtain ⟨v, hv⟩ := Option.ne_none_iff_exists'.mp hsome
      obtain ⟨old, hold, -⟩ := exists_of_movedTo hv
      exact hmem ⟨old, hperm'.mem_iff.mp hold⟩
    rw [hnone order hperm, hnone renames (List.Perm.refl _)]

theorem renamed_perm (htargets : (renames.map Prod.snd).Nodup) (hperm : order.Perm renames) :
    renamed order answers k = renamed renames answers k := by
  have hkeys : k ∈ order.keys ↔ k ∈ renames.keys := (hperm.map Prod.fst).mem_iff
  unfold renamed
  simp only [movedTo_perm htargets hperm, hkeys]

end Steps

section Runs
variable {answers : Values} {renames order pre rest : Renames} {old new k : String}

theorem Independent.of_subset (h : Independent renames answers) (hsub : order ⊆ renames) :
    Independent order answers := by
  have hkeys : ∀ k, k ∉ renames.keys → k ∉ order.keys :=
    fun k hk hmem => hk (List.map_subset _ hsub hmem)
  intro e he
  obtain ⟨hanswered, hinherited⟩ := h e (hsub he)
  constructor
  · intro hhas
    exact ⟨hkeys _ (hanswered hhas).1, (hanswered hhas).2⟩
  · intro hhas hproto
    exact (hinherited hhas hproto).imp_right fun hwins => ⟨hwins.1, hkeys _ hwins.2⟩

/-- Nothing is moved to a name that is renamed. -/
theorem Independent.movedTo_eq_none (h : Independent renames answers) (hk : k ∈ renames.keys) :
    movedTo renames answers k = none := by
  by_contra hsome
  obtain ⟨v, hv⟩ := Option.ne_none_iff_exists'.mp hsome
  obtain ⟨old, hold, hanswer⟩ := exists_of_movedTo hv
  exact ((h _ hold).1 (by simp [KeyedList.has, hanswer])).1 hk

theorem movedTo_eq_none (h : ∀ e ∈ renames, e.2 ≠ k) : movedTo renames answers k = none := by
  by_contra hsome
  obtain ⟨v, hv⟩ := Option.ne_none_iff_exists'.mp hsome
  obtain ⟨old, hold, -⟩ := exists_of_movedTo hv
  exact h _ hold rfl

/-- One entry more: what it adds to the renaming is what it moves. -/
theorem renamed_snoc (h : Independent (pre ++ [(old, new)]) answers) (k : String) :
    renamed (pre ++ [(old, new)]) answers k =
      if old = k then none
      else (renamed pre answers k).or (if new = k then answers.get old else none) := by
  have hkeys : ∀ k, k ∈ (pre ++ [(old, new)]).keys ↔ k ∈ pre.keys ∨ old = k := by
    intro k
    simp [KeyedList.keys, eq_comm]
  unfold renamed
  by_cases hold : old = k
  · rw [if_pos hold, if_pos ((hkeys k).mpr (.inr hold)),
      h.movedTo_eq_none ((hkeys k).mpr (.inr hold))]
  · rw [if_neg hold, movedTo_append]
    simp only [hkeys k, hold, or_false]
    split_ifs
    · rfl
    · rfl
    · rw [Option.or_assoc]
    · rw [Option.or_assoc]

theorem applied_of_independent (hkeys : renames.keys.Nodup)
    (htargets : (renames.map Prod.snd).Nodup) (h : Independent renames answers) (k : String) :
    (applyAnswerMigrations renames answers).get k = (renamed renames answers k).map .value := by
  induction renames using List.reverseRecOn generalizing k with
  | nil => simp [applyAnswerMigrations, get_copied, renamed, movedTo, KeyedList.keys]
  | append_singleton pre e ih =>
    obtain ⟨old, new⟩ := e
    have hpre : Independent pre answers := h.of_subset (List.subset_append_left _ _)
    have hnodup : (KeyedList.keys pre).Nodup ∧ old ∉ KeyedList.keys pre := by
      simp only [KeyedList.keys, List.map_append, List.map_cons, List.map_nil] at hkeys ⊢
      exact ⟨(List.nodup_append.mp hkeys).1, fun hmem => (List.nodup_append.mp hkeys).2.2 old hmem old
        (List.mem_singleton_self old) rfl⟩
    have hfresh : (pre.map Prod.snd).Nodup ∧ ∀ e ∈ pre, e.2 ≠ new := by
      simp only [List.map_append, List.map_cons, List.map_nil] at htargets
      refine ⟨(List.nodup_append.mp htargets).1, fun e he heq => ?_⟩
      exact (List.nodup_append.mp htargets).2.2 _ (List.mem_map_of_mem he) new
        (List.mem_singleton_self new) heq
    have ih := ih hnodup.1 hfresh.1 hpre
    -- before its entry comes up an answer is where it was
    have hbefore : renamed pre answers old = answers.get old := by
      have hnone : movedTo pre answers old = none := by
        have hnone := h.movedTo_eq_none (k := old) (by simp [KeyedList.keys])
        rw [movedTo_append] at hnone
        exact (Option.or_eq_none_iff.mp hnone).1
      rw [renamed, if_neg hnodup.2, hnone, Option.or_none]
    have hvacant : movedTo pre answers new = none := movedTo_eq_none hfresh.2
    have hlast : applyAnswerMigrations (pre ++ [(old, new)]) answers =
        renameEntry (applyAnswerMigrations pre answers) (old, new) := by
      simp [applyAnswerMigrations]
    obtain ⟨hanswered, hinherited⟩ := h (old, new) (by simp)
    have hnew : new ∉ KeyedList.keys (pre ++ [(old, new)]) → renamed pre answers new =
        answers.get new := by
      intro hn
      rw [renamed, if_neg (fun hmem => hn (by simp [KeyedList.keys] at hmem ⊢; exact .inl hmem)),
        hvacant, Option.or_none]
    rw [hlast, renamed_snoc h]
    cases hanswer : answers.get old with
    | some v =>
      obtain ⟨hkey, hproto⟩ := hanswered (by simp [KeyedList.has, hanswer])
      have hnewIn : isIn (applyAnswerMigrations pre answers) new = answers.has new := by
        rw [Bool.eq_iff_iff, isIn_iff, ih, hnew hkey, Option.isSome_map, KeyedList.has]
        exact ⟨fun hor => hor.elim id hproto, .inl⟩
      rw [get_renameEntry_of_some (by rw [ih, hbefore, hanswer]; rfl), hnewIn]
      by_cases hold : old = k
      · rw [if_pos hold, if_pos hold]
        rfl
      · rw [if_neg hold, if_neg hold]
        by_cases hk : new = k
        · subst hk
          rw [ih, hnew hkey, KeyedList.has]
          cases answers.get new <;> simp
        · rw [if_neg (fun hc => hk hc.1), if_neg hk, ih, Option.or_none]
    | none =>
      have hgone : (applyAnswerMigrations pre answers).get old = none := by
        rw [ih, hbefore, hanswer]
        rfl
      rw [get_renameEntry_of_none hgone]
      · have hsame : (if new = k then (none : Option Json) else none) = none := by
          split_ifs <;> rfl
        rw [hsame, Option.or_none]
        split_ifs with hold
        · rw [← hold, hgone]
          rfl
        · exact ih k
      · intro hproto
        apply (isIn_iff _ _).mpr
        rcases hinherited (by simp [KeyedList.has, hanswer]) hproto with hnewProto | ⟨hwins, hkey⟩
        · exact .inr hnewProto
        · rw [ih, hnew hkey, Option.isSome_map]
          exact .inl hwins

theorem get_foldl_none {source : Source} (hrest : ∀ e ∈ rest, e.2 ≠ k) (h : source.get k = none) :
    (rest.foldl renameEntry source).get k = none := by
  induction rest generalizing source with
  | nil => exact h
  | cons e rest ih =>
    obtain ⟨old, new⟩ := e
    apply ih (fun e he => hrest e (List.mem_cons_of_mem _ he))
    have hne : new ≠ k := hrest _ List.mem_cons_self
    rw [get_renameEntry, if_neg (fun hc : new = k ∧ _ => hne hc.1), h]
    split_ifs <;> rfl

theorem isSome_get_foldl {source : Source} (hrest : k ∉ KeyedList.keys rest)
    (h : (source.get k).isSome = true) : ((rest.foldl renameEntry source).get k).isSome = true := by
  induction rest generalizing source with
  | nil => exact h
  | cons e rest ih =>
    obtain ⟨old, new⟩ := e
    obtain ⟨hne, hrest⟩ := not_or.mp (fun hc => hrest (List.mem_cons.mpr hc))
    apply ih hrest
    rw [get_renameEntry]
    split_ifs with _ hk
    · exact absurd hk.symm hne
    · rfl
    · exact h
    · exact h

theorem get_applied_none (pre : Renames) {e : String × String} (hrest : ∀ e ∈ rest, e.2 ≠ k)
    (h : (renameEntry (applyAnswerMigrations pre answers) e).get k = none) :
    (applyAnswerMigrations (pre ++ e :: rest) answers).get k = none := by
  rw [applyAnswerMigrations, List.foldl_append, List.foldl_cons]
  exact get_foldl_none hrest h

theorem isSome_get_applied (pre : Renames) {e : String × String} (hrest : k ∉ KeyedList.keys rest)
    (h : ((renameEntry (applyAnswerMigrations pre answers) e).get k).isSome = true) :
    ((applyAnswerMigrations (pre ++ e :: rest) answers).get k).isSome = true := by
  rw [applyAnswerMigrations, List.foldl_append, List.foldl_cons]
  exact isSome_get_foldl hrest h

/-- Two entries of the renaming that go first. -/
theorem exists_order {e f : String × String} (he : e ∈ renames) (hf : f ∈ renames) (hne : e ≠ f) :
    ∃ rest, (e :: f :: rest).Perm renames := by
  have herase : f ∈ List.erase renames e := (List.mem_erase_of_ne hne.symm).mpr hf
  exact ⟨List.erase (List.erase renames e) f, (((List.perm_cons_erase herase).symm.cons e).trans
    (List.perm_cons_erase he).symm)⟩

theorem renamed_of_mem (htargets : (renames.map Prod.snd).Nodup) (hmem : (old, new) ∈ renames)
    (hvacant : new ∈ renames.keys ∨ answers.get new = none) :
    renamed renames answers new = answers.get old := by
  unfold renamed
  split_ifs with hkey
  · exact movedTo_of_mem htargets hmem
  · rw [hvacant.resolve_left hkey, Option.none_or, movedTo_of_mem htargets hmem]

/-- No other entry moves to the target of this one. -/
theorem target_ne {e e' : String × String} (htargets : (renames.map Prod.snd).Nodup)
    (hperm : (e :: rest).Perm renames) (he' : e' ∈ rest) : e'.2 ≠ e.2 := by
  intro heq
  exact (List.nodup_cons.mp ((hperm.map Prod.snd).nodup_iff.mpr htargets)).1
    (List.mem_map.mpr ⟨e', he', heq⟩)

/-- An answer whose new name is renamed is lost when its entry comes first. -/
theorem vacated_of_movedAtOnce (htargets : (renames.map Prod.snd).Nodup)
    (h : MovedAtOnce renames answers) (hmem : (old, new) ∈ renames)
    (hkey : new ∈ renames.keys) : answers.get old = none := by
  obtain ⟨⟨new', next⟩, hnext, rfl⟩ := List.mem_map.mp hkey
  simp only at h hmem hkey
  have hlost : ∃ order : Renames, order.Perm renames ∧
      (applyAnswerMigrations order answers).get new' = none := by
    by_cases hsame : (old, new') = (new', next)
    · obtain ⟨rfl, rfl⟩ := Prod.mk.inj hsame
      have hperm := (List.perm_cons_erase hmem).symm
      exact ⟨_, hperm, get_applied_none [] (fun e he => target_ne htargets hperm he)
        (get_renameEntry_self _ _ _)⟩
    · obtain ⟨rest, hperm⟩ := exists_order hmem hnext hsame
      refine ⟨_, hperm, get_applied_none [(old, new')] ?_ (get_renameEntry_self _ _ _)⟩
      exact fun e he => target_ne htargets hperm (List.mem_cons_of_mem _ he)
  obtain ⟨order, hperm, hnone⟩ := hlost
  rw [h order hperm new', renamed_of_mem htargets hmem (.inl hkey)] at hnone
  simpa using hnone

/-- Where there is nothing to move, a name of the prototype is taken for an answer and is gone. -/
theorem exists_order_lost (htargets : (renames.map Prod.snd).Nodup) (hmem : (old, new) ∈ renames)
    (hproto : new ∈ objectPrototype) (hnone : answers.get new = none) :
    ∃ order : Renames, order.Perm renames ∧ (applyAnswerMigrations order answers).get new = none := by
  have hperm := (List.perm_cons_erase hmem).symm
  refine ⟨_, hperm, get_applied_none [] (fun e he => target_ne htargets hperm he) ?_⟩
  have hin : isIn (copied answers) new = true := (isIn_iff _ _).mpr (.inr hproto)
  change (renameEntry (copied answers) (old, new)).get new = none
  rw [get_renameEntry, hin, get_copied, hnone]
  simp

/-- A member of the prototype is moved to a name that is free. -/
theorem renameEntry_inherited (hproto : old ∈ objectPrototype) (hnewProto : new ∉ objectPrototype)
    {source : Source} (hsource : source.get new = none) :
    ((renameEntry source (old, new)).get new).isSome = true := by
  have hold : isIn source old = true := (isIn_iff _ _).mpr (.inr hproto)
  have hnew : isIn source new = false := by
    rw [Bool.eq_false_iff]
    intro hin
    rcases (isIn_iff _ _).mp hin with hsome | hmem
    · rw [hsource] at hsome
      cases hsome
    · exact hnewProto hmem
  have hne : old ≠ new := by
    rintro rfl
    exact hnewProto hproto
  rw [get_renameEntry, if_pos hold, if_neg hne, if_pos ⟨rfl, hnew⟩]
  rfl

/-- The name is free by then, for its own entry may come first. -/
theorem exists_order_inherited (hkeys : renames.keys.Nodup) (hmem : (old, new) ∈ renames)
    (hproto : old ∈ objectPrototype) (hnewProto : new ∉ objectPrototype)
    (hvacant : new ∈ renames.keys ∨ answers.get new = none) :
    ∃ order : Renames, order.Perm renames ∧
      ((applyAnswerMigrations order answers).get new).isSome = true := by
  by_cases hkey : new ∈ renames.keys
  · obtain ⟨⟨new', next⟩, hnext, rfl⟩ := List.mem_map.mp hkey
    simp only at hmem hnewProto
    have hne : (new', next) ≠ (old, new') := by
      intro heq
      obtain ⟨rfl, -⟩ := Prod.mk.inj heq
      exact hnewProto hproto
    obtain ⟨rest, hperm⟩ := exists_order hnext hmem hne
    refine ⟨_, hperm, isSome_get_applied [(new', next)] ?_
      (renameEntry_inherited hproto hnewProto (get_renameEntry_self _ _ _))⟩
    intro hrest
    exact (List.nodup_cons.mp ((hperm.map Prod.fst).nodup_iff.mpr hkeys)).1
      (List.mem_cons_of_mem _ hrest)
  · have hfree : (copied answers).get new = none := by
      rw [get_copied, hvacant.resolve_left hkey]
      rfl
    refine ⟨_, (List.perm_cons_erase hmem).symm, isSome_get_applied [] ?_
      (renameEntry_inherited hproto hnewProto hfree)⟩
    intro hrest
    exact hkey (List.map_subset _ (List.erase_subset) hrest)

theorem independent_of_movedAtOnce (hkeys : renames.keys.Nodup)
    (htargets : (renames.map Prod.snd).Nodup) (h : MovedAtOnce renames answers) :
    Independent renames answers := by
  rintro ⟨old, new⟩ hmem
  constructor
  · intro hhas
    obtain ⟨v, hanswer⟩ := Option.isSome_iff_exists.mp hhas
    have hkey : new ∉ renames.keys := by
      intro hkey
      rw [vacated_of_movedAtOnce htargets h hmem hkey] at hanswer
      cases hanswer
    refine ⟨hkey, fun hproto => ?_⟩
    by_contra hvacant
    have hnew : answers.get new = none := by simpa [KeyedList.has] using hvacant
    obtain ⟨order, hperm, hlost⟩ := exists_order_lost htargets hmem hproto hnew
    rw [h order hperm new, renamed_of_mem htargets hmem (.inr hnew), hanswer] at hlost
    cases hlost
  · intro hhas hproto
    have hanswer : answers.get old = none := by simpa [KeyedList.has] using hhas
    by_contra hnot
    obtain ⟨hnewProto, hoccupied⟩ := not_or.mp hnot
    have hvacant : new ∈ renames.keys ∨ answers.get new = none := by
      by_cases hkey : new ∈ renames.keys
      · exact .inl hkey
      · exact .inr (by simpa [KeyedList.has, hkey] using hoccupied)
    obtain ⟨order, hperm, hsome⟩ := exists_order_inherited hkeys hmem hproto hnewProto hvacant
    rw [h order hperm new, renamed_of_mem htargets hmem hvacant, hanswer] at hsome
    cases hsome

end Runs

section Ordinary
variable (env : HostsTemplate.TemplateEnvironment) {answers : Values}

theorem copied_set (answers : Values) (k : String) (v : Json) :
    copied (answers.set k v) = (copied answers).set k (.value v) := by
  induction answers with
  | nil => rfl
  | cons e rest ih =>
    simp only [copied, KeyedList.set, List.map_cons] at ih ⊢
    split_ifs
    · rfl
    · rw [List.map_cons, ih]

theorem copied_erase (answers : Values) (k : String) :
    copied (answers.erase k) = (copied answers).erase k := by
  simp [copied, KeyedList.erase, List.filter_map, Function.comp_def]

theorem renameEntry_copied {e : String × Json} (hold : e.1 ∉ objectPrototype)
    (hnew : propertyKey env.toCoercions e.2 ∉ objectPrototype) :
    renameEntry (copied answers) (e.1, propertyKey env.toCoercions e.2) =
      copied (HostsTemplate.renameAnswer env answers e) := by
  have hin : ∀ k, k ∉ objectPrototype → isIn (copied answers) k = answers.has k := by
    intro k hk
    rw [Bool.eq_iff_iff, isIn_iff, get_copied, Option.isSome_map, KeyedList.has]
    simp [hk]
  unfold renameEntry HostsTemplate.renameAnswer
  simp only [hin _ hold, hin _ hnew, KeyedList.has, valueOf, get_copied]
  cases answers.get e.1 with
  | none => rfl
  | some v =>
    have hproto : propertyKey env.toCoercions e.2 ≠ "__proto__" := by
      intro heq
      rw [heq] at hnew
      exact hnew (by decide)
    simp only [Option.isSome_some, if_true, Option.map_some, Option.getD_some, assign,
      if_neg hproto]
    rw [copied_erase]
    split_ifs
    · rfl
    · rw [copied_set]

/-- On names that the object prototype does not have, this is the migration of the template
context. -/
theorem applyAnswerMigrations_ordinary (version : HostsTemplate.PackageVersion)
    (fromVersion : String) (answers : Values)
    (h : ∀ e ∈ version.renames fromVersion, e.1 ∉ objectPrototype ∧
      propertyKey env.toCoercions e.2 ∉ objectPrototype) :
    applyAnswerMigrations ((version.renames fromVersion).map fun e =>
        (e.1, propertyKey env.toCoercions e.2)) answers =
      copied (HostsTemplate.applyAnswerMigrations env version fromVersion answers) := by
  unfold applyAnswerMigrations HostsTemplate.applyAnswerMigrations
  generalize version.renames fromVersion = renames at h
  induction renames generalizing answers with
  | nil => rfl
  | cons e rest ih =>
    obtain ⟨hold, hnew⟩ := h e List.mem_cons_self
    rw [List.map_cons, List.foldl_cons, List.foldl_cons, renameEntry_copied env hold hnew]
    exact ih _ fun e he => h e (List.mem_cons_of_mem _ he)

end Ordinary

/-- For every answers and every renames with distinct targets, moving in place is moving at once, in
every order of the entries, exactly where the entries do not interact. -/
theorem migration_simultaneous_iff (renames : Renames) (answers : Values)
    (hkeys : renames.keys.Nodup) (htargets : (renames.map Prod.snd).Nodup) :
    MovedAtOnce renames answers ↔ Independent renames answers := by
  constructor
  · exact independent_of_movedAtOnce hkeys htargets
  · intro h order hperm k
    rw [applied_of_independent ((hperm.map Prod.fst).nodup_iff.mpr hkeys)
      ((hperm.map Prod.snd).nodup_iff.mpr htargets) (h.of_subset hperm.subset),
      renamed_perm htargets hperm]

theorem migration_simultaneous_apart :
    MovedAtOnce [("host", "hostname"), ("ram", "memory")] [("host", .str "web"), ("memory", .num 2)] ↔
      Independent [("host", "hostname"), ("ram", "memory")]
        [("host", .str "web"), ("memory", .num 2)] :=
  migration_simultaneous_iff _ _ (by decide) (by decide)

/-- A swap loses one of the two answers. -/
theorem migration_simultaneous_fails :
    ¬∀ (renames : Renames) (answers : Values), answers.keys.Nodup → renames.keys.Nodup →
      (renames.map Prod.snd).Nodup → MovedAtOnce renames answers := by
  intro h
  have hmoved := h [("a", "b"), ("b", "a")] [("a", .num 1), ("b", .num 2)] (by decide) (by decide)
    (by decide) [("a", "b"), ("b", "a")] (List.Perm.refl _) "b"
  revert hmoved
  decide

end ZoneweaverAgent.AnswerMigrations
