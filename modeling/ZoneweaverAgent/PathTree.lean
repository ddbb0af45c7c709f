import Mathlib.Data.List.Infix

/-!
# Paths and their subtrees

A path is a list over any type whose parts a separator divides. A path lies at or below another one
if it is that path or continues it behind a separator. A pool is a list of paths; removing the tree
at a path removes every path at or below it, and a path's ancestors are the paths it lies at or
below.
-/

namespace PathTree
variable {α : Type*} (sep : α)

def AtOrBelow (x p : List α) : Prop := p = x ∨ x ++ [sep] <+: p

instance [DecidableEq α] (x p : List α) : Decidable (AtOrBelow sep x p) :=
  inferInstanceAs (Decidable (p = x ∨ x ++ [sep] <+: p))

variable {sep} {x y p : List α} {pool : List (List α)}

theorem AtOrBelow.refl (p : List α) : AtOrBelow sep p p := Or.inl rfl

theorem AtOrBelow.isPrefix (h : AtOrBelow sep x p) : x <+: p := by
  rcases h with rfl | h
  · exact List.prefix_rfl
  · exact (List.prefix_append x [sep]).trans h

theorem AtOrBelow.trans (hxy : AtOrBelow sep x y) (hyp : AtOrBelow sep y p) :
    AtOrBelow sep x p := by
  rcases hxy with rfl | hxy
  · exact hyp
  · exact Or.inr (hxy.trans hyp.isPrefix)

theorem AtOrBelow.antisymm (hxp : AtOrBelow sep x p) (hpx : AtOrBelow sep p x) : x = p :=
  hxp.isPrefix.eq_of_length_le hpx.isPrefix.length_le

theorem atOrBelow_child (x rest : List α) : AtOrBelow sep x (x ++ sep :: rest) :=
  Or.inr ⟨rest, by simp⟩

section Trees
variable [DecidableEq α] (sep)

/-- The pool without the tree at `x`. -/
def removeTree (x : List α) (pool : List (List α)) : List (List α) :=
  pool.filter fun p => ¬ AtOrBelow sep x p

def removeTrees (xs pool : List (List α)) : List (List α) :=
  xs.foldl (fun pool x => removeTree sep x pool) pool

def ancestors (p : List α) : List (List α) := p.inits.filter fun x => AtOrBelow sep x p

variable {sep}

theorem mem_removeTree : p ∈ removeTree sep x pool ↔ p ∈ pool ∧ ¬ AtOrBelow sep x p := by
  simp [removeTree]

theorem mem_removeTrees {xs : List (List α)} :
    p ∈ removeTrees sep xs pool ↔ p ∈ pool ∧ ∀ x ∈ xs, ¬ AtOrBelow sep x p := by
  induction xs generalizing pool with
  | nil => simp [removeTrees]
  | cons x xs ih =>
    have hstep : removeTrees sep (x :: xs) pool = removeTrees sep xs (removeTree sep x pool) := rfl
    rw [hstep, ih, mem_removeTree]
    simp only [List.mem_cons, forall_eq_or_imp, and_assoc]

theorem mem_ancestors : x ∈ ancestors sep p ↔ AtOrBelow sep x p := by
  simp only [ancestors, List.mem_filter, List.mem_inits, decide_eq_true_eq]
  exact ⟨fun h => h.2, fun h => ⟨h.isPrefix, h⟩⟩

end Trees

end PathTree
