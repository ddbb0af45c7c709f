import Mathlib.Data.List.Infix

/-!
# SQL patterns

The `LIKE` of SQLite: `%` stands for any text, `_` for any character, and a letter for itself in
either case.
-/

namespace LikePattern

/-- A character of a pattern other than `%`. -/
def single (p c : Char) : Bool := p = '_' || p.toLower = c.toLower

def like : List Char → List Char → Bool
  | [], text => text.isEmpty
  | p :: pattern, text =>
    if p = '%' then text.tails.any (like pattern)
    else
      match text with
      | [] => false
      | c :: rest => single p c && like pattern rest

/-- The text begins with something that matches the pattern, which has no `%`. -/
def leads : List Char → List Char → Bool
  | [], _ => true
  | _ :: _, [] => false
  | p :: pattern, c :: rest => single p c && leads pattern rest

theorem like_percent (text : List Char) : like ['%'] text = true := by
  rw [like.eq_def]
  simp only [if_true, List.any_eq_true]
  refine ⟨[], (List.mem_tails _ _).mpr List.nil_suffix, rfl⟩

/-- A name with an open end. -/
theorem like_append_percent {pattern : List Char} (h : '%' ∉ pattern) (text : List Char) :
    like (pattern ++ ['%']) text = leads pattern text := by
  induction pattern generalizing text with
  | nil => exact like_percent text
  | cons p pattern ih =>
    have hp : p ≠ '%' := fun heq => h (heq ▸ List.mem_cons_self)
    have hrest : '%' ∉ pattern := fun hmem => h (List.mem_cons_of_mem p hmem)
    rw [List.cons_append, like.eq_def]
    simp only [if_neg hp]
    cases text with
    | nil => rfl
    | cons c rest =>
      rw [leads]
      simp only [ih hrest]

end LikePattern
