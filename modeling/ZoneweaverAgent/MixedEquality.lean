import Mathlib.Data.Option.Basic

/-!
# Equality by numbers or by texts

Values that have a text, and some of them a number, are compared by their numbers where both have
one and by their texts elsewhere. Such a comparison is reflexive and symmetric; it is transitive up
to values with a number that share their text with a value without one.
-/

namespace MixedEquality
variable {α N T : Type*} [DecidableEq N] [DecidableEq T]

section Definitions
variable (number : α → Option N) (text : α → T)

def mixedEq (a b : α) : Bool :=
  match number a, number b with
  | some x, some y => x = y
  | _, _ => text a = text b

/-- A value with a number and a value without one have the same text. -/
def Crosses (a b : α) : Prop := (number a).isSome ∧ number b = none ∧ text a = text b

/-- The outer values are each equal to the middle one and not to each other. -/
def Breaks (a b c : α) : Prop :=
  Crosses number text b a ∧ number c = number b ∧ text c ≠ text b ∨
    Crosses number text b c ∧ number a = number b ∧ text a ≠ text b ∨
    Crosses number text a b ∧ Crosses number text c b ∧ number a ≠ number c

end Definitions

variable {number : α → Option N} {text : α → T} {a b c : α}

theorem mixedEq_of_none (h : number a = none ∨ number b = none) :
    mixedEq number text a b = true ↔ text a = text b := by
  unfold mixedEq
  rcases h with h | h
  · rw [h]
    exact decide_eq_true_iff
  · rw [h]
    cases number a <;> exact decide_eq_true_iff

theorem mixedEq_of_isSome (ha : (number a).isSome) (hb : (number b).isSome) :
    mixedEq number text a b = true ↔ number a = number b := by
  obtain ⟨x, hx⟩ := Option.isSome_iff_exists.mp ha
  obtain ⟨y, hy⟩ := Option.isSome_iff_exists.mp hb
  rw [mixedEq, hx, hy, Option.some.injEq]
  exact decide_eq_true_iff

theorem mixedEq_refl (a : α) : mixedEq number text a a = true := by
  cases ha : number a with
  | none => exact (mixedEq_of_none (.inl ha)).mpr rfl
  | some x =>
    have hsome : (number a).isSome := by rw [ha]; rfl
    exact (mixedEq_of_isSome hsome hsome).mpr rfl

theorem mixedEq_comm (a b : α) : mixedEq number text a b = mixedEq number text b a := by
  rw [Bool.eq_iff_iff]
  by_cases h : number a = none ∨ number b = none
  · rw [mixedEq_of_none h, mixedEq_of_none h.symm]
    exact eq_comm
  · obtain ⟨ha, hb⟩ := not_or.mp h
    rw [← ne_eq, Option.ne_none_iff_isSome] at ha hb
    rw [mixedEq_of_isSome ha hb, mixedEq_of_isSome hb ha]
    exact eq_comm

omit [DecidableEq N] [DecidableEq T] in
theorem breaks_comm : Breaks number text c b a ↔ Breaks number text a b c := by
  unfold Breaks
  rw [or_left_comm, and_left_comm (a := Crosses number text c b), ne_comm (a := number c)]

/-- Equal to a value without a number is what has its text. -/
theorem trans_of_none (hb : number b = none) (hnot : ¬Breaks number text a b c)
    (hab : mixedEq number text a b = true) (hbc : mixedEq number text b c = true) :
    mixedEq number text a c = true := by
  have hab' := (mixedEq_of_none (.inr hb)).mp hab
  have hbc' := (mixedEq_of_none (.inl hb)).mp hbc
  by_cases hnone : number a = none ∨ number c = none
  · exact (mixedEq_of_none hnone).mpr (hab'.trans hbc')
  · obtain ⟨ha, hc⟩ := not_or.mp hnone
    rw [← ne_eq, Option.ne_none_iff_isSome] at ha hc
    rw [mixedEq_of_isSome ha hc]
    by_contra hne
    exact hnot (.inr (.inr ⟨⟨ha, hb, hab'⟩, ⟨hc, hb, hbc'.symm⟩, hne⟩))

/-- A value with a number stands between another one and a value without. -/
theorem trans_of_isSome (ha : (number a).isSome) (hb : (number b).isSome) (hc : number c = none)
    (hnot : ¬Breaks number text a b c) (hab : mixedEq number text a b = true)
    (hbc : mixedEq number text b c = true) : mixedEq number text a c = true := by
  have hab' := (mixedEq_of_isSome ha hb).mp hab
  have hbc' := (mixedEq_of_none (.inr hc)).mp hbc
  rw [mixedEq_of_none (.inr hc)]
  by_contra hne
  exact hnot (.inr (.inl ⟨⟨hb, hc, hbc'⟩, hab', fun heq => hne (heq.trans hbc')⟩))

theorem mixedEq_trans_iff :
    (mixedEq number text a b = true → mixedEq number text b c = true →
      mixedEq number text a c = true) ↔ ¬Breaks number text a b c := by
  constructor
  · rintro htrans (⟨⟨hb, ha, hba⟩, hc, hne⟩ | ⟨⟨hb, hc, hbc⟩, ha, hne⟩ |
      ⟨⟨ha, hb, hab⟩, ⟨hc, -, hcb⟩, hne⟩)
    · have hac := htrans ((mixedEq_of_none (.inl ha)).mpr hba.symm)
        ((mixedEq_of_isSome hb (by rwa [hc])).mpr hc.symm)
      exact hne (((mixedEq_of_none (.inl ha)).mp hac).symm.trans hba.symm)
    · have hac := htrans ((mixedEq_of_isSome (by rwa [ha]) hb).mpr ha)
        ((mixedEq_of_none (.inr hc)).mpr hbc)
      exact hne (((mixedEq_of_none (.inr hc)).mp hac).trans hbc.symm)
    · have hac := htrans ((mixedEq_of_none (.inr hb)).mpr hab)
        ((mixedEq_of_none (.inl hb)).mpr hcb.symm)
      exact hne ((mixedEq_of_isSome ha hc).mp hac)
  · intro hnot hab hbc
    rcases Option.eq_none_or_eq_some (number b) with hb | ⟨y, hy⟩
    · exact trans_of_none hb hnot hab hbc
    have hb : (number b).isSome := by rw [hy]; rfl
    cases ha : number a with
    | none =>
      cases hc : number c with
      | none =>
        have hab' := (mixedEq_of_none (.inl ha)).mp hab
        have hbc' := (mixedEq_of_none (.inr hc)).mp hbc
        exact (mixedEq_of_none (.inl ha)).mpr (hab'.trans hbc')
      | some z =>
        rw [mixedEq_comm] at hab hbc ⊢
        exact trans_of_isSome (by rw [hc]; rfl) hb ha (mt breaks_comm.mp hnot) hbc hab
    | some x =>
      cases hc : number c with
      | none => exact trans_of_isSome (by rw [ha]; rfl) hb hc hnot hab hbc
      | some z =>
        have hab' := (mixedEq_of_isSome (by rw [ha]; rfl) hb).mp hab
        have hbc' := (mixedEq_of_isSome hb (by rw [hc]; rfl)).mp hbc
        exact (mixedEq_of_isSome (by rw [ha]; rfl) (by rw [hc]; rfl)).mpr (hab'.trans hbc')

end MixedEquality
