import Mathlib.Data.List.TakeWhile

/-!
# Route patterns

A router compares a path with the segments of a pattern: literals up to the case of their letters,
one segment for a parameter, anything for a wildcard, and one slash at the end if there is one. A
prefix test compares the path itself. `covers` and `clash` decide from the pattern what the prefix
test says of its paths.
-/

namespace RoutePattern

abbrev Text := List Char

inductive Segment
  | literal (text : String)
  | param
  | splat
deriving DecidableEq

instance : Coe String Segment := ⟨.literal⟩

def sameLetters (t u : Text) : Bool := t.map Char.toLower == u.map Char.toLower

/-- The values of parameters and wildcards; a wildcard takes as much as it can. -/
def capture : List Segment → Text → Option (List Text)
  | [], path => if path = [] ∨ path = ['/'] then some [] else none
  | .literal t :: pattern, '/' :: path =>
    if sameLetters t.toList (path.take t.length) then capture pattern (path.drop t.length)
    else none
  | .param :: pattern, '/' :: path =>
    let value := path.takeWhile (· ≠ '/')
    if value = [] then none
    else (capture pattern (path.dropWhile (· ≠ '/'))).map (value :: ·)
  | .splat :: pattern, '/' :: path =>
    (List.range path.length).reverse.findSome? fun n =>
      (capture pattern (path.drop (n + 1))).map (path.take (n + 1) :: ·)
  | _ :: _, _ => none

/-- The path as the pattern spells it. -/
def fill : List Segment → List Text → Text
  | [], _ => []
  | .literal t :: pattern, values => '/' :: t.toList ++ fill pattern values
  | _ :: pattern, value :: values => '/' :: value ++ fill pattern values
  | _ :: _, [] => []

/-- What it is for a path to be a spelling of a pattern with given values. -/
inductive Spells : List Segment → List Text → Text → Prop
  | nil : Spells [] [] []
  | slash : Spells [] [] ['/']
  | literal {t : String} {u path : Text} {pattern : List Segment} {values : List Text} :
      sameLetters t.toList u = true → Spells pattern values path →
      Spells (.literal t :: pattern) values ('/' :: u ++ path)
  | param {value path : Text} {pattern : List Segment} {values : List Text} :
      value ≠ [] → '/' ∉ value → Spells pattern values path →
      Spells (.param :: pattern) (value :: values) ('/' :: value ++ path)
  | splat {value path : Text} {pattern : List Segment} {values : List Text} :
      value ≠ [] → Spells pattern values path →
      Spells (.splat :: pattern) (value :: values) ('/' :: value ++ path)

variable {pattern : List Segment} {values : List Text} {path t u : Text}

theorem spells_of_capture (h : capture pattern path = some values) :
    Spells pattern values path := by
  induction pattern generalizing path values with
  | nil =>
    simp only [capture] at h
    split_ifs at h with hpath
    cases h
    rcases hpath with rfl | rfl
    · exact .nil
    · exact .slash
  | cons s pattern ih =>
    rcases path with _ | ⟨c, path⟩
    · cases s <;> cases h
    have hc : c = '/' := by
      by_contra hc
      cases s <;> simp [capture, hc] at h
    subst hc
    cases s with
    | literal t =>
      simp only [capture] at h
      split_ifs at h with hletters
      have hspells := Spells.literal hletters (ih h)
      rwa [List.cons_append, List.take_append_drop] at hspells
    | param =>
      simp only [capture] at h
      split_ifs at h with hvalue
      obtain ⟨rest, hrest, rfl⟩ := Option.map_eq_some_iff.mp h
      have hslash : '/' ∉ path.takeWhile (· ≠ '/') := by
        intro hmem
        simpa using List.mem_takeWhile_imp hmem
      have hspells := Spells.param hvalue hslash (ih hrest)
      rwa [List.cons_append, List.takeWhile_append_dropWhile] at hspells
    | splat =>
      simp only [capture] at h
      obtain ⟨n, hn, hsome⟩ := List.exists_of_findSome?_eq_some h
      obtain ⟨rest, hrest, rfl⟩ := Option.map_eq_some_iff.mp hsome
      have hlt : n < path.length := by simpa using hn
      have hvalue : path.take (n + 1) ≠ [] := by
        intro hnil
        rw [List.take_eq_nil_iff] at hnil
        rcases hnil with hzero | rfl
        · omega
        · simp at hlt
      have hspells := Spells.splat hvalue (ih hrest)
      rwa [List.cons_append, List.take_append_drop] at hspells

theorem Spells.fill (h : Spells pattern values path) :
    Spells pattern values (fill pattern values) := by
  induction h with
  | nil => exact .nil
  | slash => exact .nil
  | literal _ _ ih => exact .literal (by simp [sameLetters]) ih
  | param hvalue hslash _ ih => exact .param hvalue hslash ih
  | splat hvalue _ ih => exact .splat hvalue ih

/-- A segment of a path ends where the path does, or at a slash. -/
def Ended (path : Text) : Prop := path = [] ∨ ['/'] <+: path

theorem Spells.ended (h : Spells pattern values path) : Ended path := by
  cases h with
  | nil => exact .inl rfl
  | slash => exact .inr (List.prefix_refl _)
  | literal => exact .inr (by simp)
  | param => exact .inr (by simp)
  | splat => exact .inr (by simp)

section Under

/-- The path lies under these segments. -/
def Under : List String → Text → Prop
  | [], path => Ended path
  | s :: ss, path => ∃ rest, path = '/' :: s.toList ++ rest ∧ Under ss rest

def join (ss : List String) : Text := ss.flatMap ('/' :: ·.toList)

theorem under_iff {ss : List String} :
    Under ss path ↔ path = join ss ∨ join ss ++ ['/'] <+: path := by
  induction ss generalizing path with
  | nil => simp [Under, Ended, join]
  | cons s ss ih =>
    simp only [Under, ih, join, List.flatMap_cons, List.append_assoc]
    constructor
    · rintro ⟨rest, rfl, rfl | hprefix⟩
      · exact .inl rfl
      · exact .inr ((List.prefix_append_right_inj _).mpr hprefix)
    · rintro (rfl | ⟨rest, rfl⟩)
      · exact ⟨_, rfl, .inl rfl⟩
      · exact ⟨join ss ++ (['/'] ++ rest), by simp only [join, List.append_assoc],
          .inr (by rw [← List.append_assoc]; exact List.prefix_append _ _)⟩

def covers (ss : List String) (pattern : List Segment) : Bool :=
  (ss.map Segment.literal).isPrefixOf pattern

/-- Neither slashes nor capitals. -/
def plain (t : String) : Bool := t.toList.all fun c => c ≠ '/' ∧ c.toLower = c

/-- No spelling of the pattern lies under these segments. -/
def clash : List Segment → List String → Bool
  | [], s :: _ => s ≠ ""
  | .literal t :: pattern, s :: ss => plain t && plain s && (t ≠ s || clash pattern ss)
  | _, _ => false

theorem Spells.under_fill {ss : List String} (h : Spells pattern values path)
    (hcovers : covers ss pattern = true) : Under ss (RoutePattern.fill pattern values) := by
  induction ss generalizing pattern values path with
  | nil => exact h.fill.ended
  | cons s ss ih =>
    obtain ⟨rest, rfl⟩ := List.isPrefixOf_iff_prefix.mp hcovers
    cases h with
    | literal hletters h =>
      exact ⟨_, rfl, ih h (List.isPrefixOf_iff_prefix.mpr (List.prefix_append _ _))⟩

theorem Under.ended {ss : List String} (h : Under ss path) : Ended path := by
  cases ss with
  | nil => exact h
  | cons s ss =>
    obtain ⟨rest, rfl, -⟩ := h
    exact .inr (by simp)

theorem slash_of_plain {s : String} (h : plain s = true) : '/' ∉ s.toList := by
  intro hmem
  simpa using List.all_eq_true.mp h _ hmem

theorem toLower_of_plain {s : String} (h : plain s = true) : ∀ c ∈ s.toList, c.toLower = c := by
  intro c hc
  have hplain := List.all_eq_true.mp h c hc
  exact (of_decide_eq_true hplain).2

theorem eq_slash_of_toLower {c : Char} (h : c.toLower = '/') : c = '/' := by
  unfold Char.toLower at h
  split_ifs at h with hupper
  · have hval : c.val + 32 = 47 := congrArg Char.val h
    have hlow : (65 : UInt32) ≤ c.val := hupper.1
    grind
  · exact h

theorem slash_of_sameLetters (h : sameLetters t u = true) (ht : '/' ∉ t) : '/' ∉ u := by
  intro hu
  have hmem : '/' ∈ t.map Char.toLower := by
    rw [eq_of_beq h]
    exact List.mem_map_of_mem (f := Char.toLower) hu
  obtain ⟨c, hc, hlower⟩ := List.mem_map.mp hmem
  rw [eq_slash_of_toLower hlower] at hc
  exact ht hc

theorem sameLetters_lowercase (h : sameLetters t u = true) (ht : ∀ c ∈ t, c.toLower = c)
    (hu : ∀ c ∈ u, c.toLower = c) : t = u := by
  calc t = t.map Char.toLower := by rw [List.map_congr_left ht, List.map_id']
    _ = u.map Char.toLower := eq_of_beq h
    _ = u := by rw [List.map_congr_left hu, List.map_id']

theorem takeWhile_append_of_ended (ht : '/' ∉ t) (h : Ended path) :
    (t ++ path).takeWhile (· ≠ '/') = t := by
  have hall : ∀ c ∈ t, decide (c ≠ '/') = true := by
    intro c hc
    simpa using fun heq : c = '/' => ht (heq ▸ hc)
  rw [List.takeWhile_append_of_pos hall]
  rcases h with rfl | ⟨rest, rfl⟩
  · simp
  · simp

theorem Ended.append_inj {p q : Text} (hp : Ended p) (hq : Ended q) (ht : '/' ∉ t) (hu : '/' ∉ u)
    (h : t ++ p = u ++ q) : t = u ∧ p = q := by
  have htext : t = u := by
    rw [← takeWhile_append_of_ended ht hp, h, takeWhile_append_of_ended hu hq]
  subst htext
  exact ⟨rfl, List.append_cancel_left h⟩

theorem Spells.not_under {ss : List String} (h : Spells pattern values path)
    (hclash : clash pattern ss = true) : ¬ Under ss path := by
  induction ss generalizing pattern values path with
  | nil => cases pattern with
    | nil => cases hclash
    | cons s _ => cases s <;> cases hclash
  | cons s ss ih =>
    rintro ⟨rest, hpath, hunder⟩
    cases h with
    | nil => cases hpath
    | slash =>
      have hs : s ≠ "" := of_decide_eq_true hclash
      have hnil : s.toList = [] := (List.append_eq_nil_iff.mp (List.cons_inj_right _ |>.mp hpath).symm).1
      exact hs (String.toList_eq_nil_iff.mp hnil)
    | param => cases hclash
    | splat => cases hclash
    | @literal t u path pattern values hletters h =>
      simp only [clash, Bool.and_eq_true, Bool.or_eq_true] at hclash
      obtain ⟨⟨ht, hs⟩, hclash⟩ := hclash
      obtain ⟨rfl, rfl⟩ := h.ended.append_inj hunder.ended
        (slash_of_sameLetters hletters (slash_of_plain ht)) (slash_of_plain hs)
        (List.cons_inj_right _ |>.mp hpath)
      have hsame : t = s := String.toList_inj.mp
        (sameLetters_lowercase hletters (toLower_of_plain ht) (toLower_of_plain hs))
      rcases hclash with hdifferent | hclash
      · exact of_decide_eq_true hdifferent hsame
      · exact ih h hclash hunder

end Under

section Plain

def plainPattern (pattern : List Segment) : Bool :=
  pattern.all fun
    | .literal t => plain t
    | _ => true

/-- A path without capitals is spelled as its pattern is, but for the slash at its end. -/
theorem Spells.eq_fill (h : Spells pattern values path) (hpattern : plainPattern pattern = true)
    (hpath : ∀ c ∈ path, c.toLower = c) :
    path = RoutePattern.fill pattern values ∨ path = RoutePattern.fill pattern values ++ ['/'] := by
  induction h with
  | nil => exact .inl rfl
  | slash => exact .inr rfl
  | @literal t u path pattern values hletters h ih =>
    simp only [plainPattern, List.all_cons, Bool.and_eq_true] at hpattern
    have hpieces := List.forall_mem_append.mp (List.forall_mem_cons.mp hpath).2
    obtain rfl := sameLetters_lowercase hletters (toLower_of_plain hpattern.1) hpieces.1
    rcases ih hpattern.2 hpieces.2 with heq | heq
    · exact .inl (congrArg ('/' :: t.toList ++ ·) heq)
    · exact .inr (by rw [heq]; simp [RoutePattern.fill])
  | @param value path pattern values hvalue hslash h ih =>
    simp only [plainPattern, List.all_cons, Bool.true_and] at hpattern
    have hpieces := List.forall_mem_append.mp (List.forall_mem_cons.mp hpath).2
    rcases ih hpattern hpieces.2 with heq | heq
    · exact .inl (congrArg ('/' :: value ++ ·) heq)
    · exact .inr (by rw [heq]; simp [RoutePattern.fill])
  | @splat value path pattern values hvalue h ih =>
    simp only [plainPattern, List.all_cons, Bool.true_and] at hpattern
    have hpieces := List.forall_mem_append.mp (List.forall_mem_cons.mp hpath).2
    rcases ih hpattern hpieces.2 with heq | heq
    · exact .inl (congrArg ('/' :: value ++ ·) heq)
    · exact .inr (by rw [heq]; simp [RoutePattern.fill])

end Plain

end RoutePattern
