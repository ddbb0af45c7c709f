import ZoneweaverAgent.TextLines

/-!
# The words of a text

Words are separated by runs of white space. A comment begins at a mark, inside a word too, and goes
to the end of the text; the words before it can be read off the words of the whole.
-/

namespace TextWords

open TextLines

variable {α : Type*}

section Words
variable (p : α → Bool)

def words (text : List α) : List (List α) := (text.splitOnP p).filter fun word => !word.isEmpty

structure IsWord (word : List α) : Prop where
  ne_nil : word ≠ []
  plain : ∀ c ∈ word, p c = false

variable {p} {c : α} {text a b : List α}

@[simp] theorem words_nil : words p [] = [] := rfl

theorem words_append_cons (hc : p c = true) (a b : List α) :
    words p (a ++ c :: b) = words p a ++ words p b := by
  rw [words, List.splitOnP_append_cons _ _ hc, List.filter_append, words, words]

theorem words_cons (hc : p c = true) (text : List α) : words p (c :: text) = words p text :=
  words_append_cons hc [] text

theorem words_plain (h : ∀ c ∈ text, p c = false) :
    words p text = if text = [] then [] else [text] := by
  rw [words, List.splitOnP_eq_singleton h]
  cases text <;> rfl

theorem IsWord.words (h : IsWord p text) : words p text = [text] := by
  rw [words_plain h.plain, if_neg h.ne_nil]

/-- A text without white space, or its part before the first of it. -/
theorem plain_or_split (p : α → Bool) (text : List α) :
    (∀ c ∈ text, p c = false) ∨
      ∃ a c b, text = a ++ c :: b ∧ (∀ d ∈ a, p d = false) ∧ p c = true := by
  induction text with
  | nil => exact Or.inl (by simp)
  | cons d text ih =>
    cases hd : p d with
    | true => exact Or.inr ⟨[], d, text, rfl, by simp, hd⟩
    | false =>
      rcases ih with h | ⟨a, c, b, rfl, ha, hc⟩
      · exact Or.inl (List.forall_mem_cons.mpr ⟨hd, h⟩)
      · exact Or.inr ⟨d :: a, c, b, rfl, List.forall_mem_cons.mpr ⟨hd, ha⟩, hc⟩

/-- What holds of a text without white space, and with a part in front of a white space, holds of
every text. -/
theorem words_induction {P : List α → Prop} (hplain : ∀ a, (∀ c ∈ a, p c = false) → P a)
    (hsplit : ∀ a c b, (∀ d ∈ a, p d = false) → p c = true → P b → P (a ++ c :: b))
    (text : List α) : P text := by
  obtain ⟨n, hn⟩ : ∃ n, text.length = n := ⟨_, rfl⟩
  induction n using Nat.strong_induction_on generalizing text with
  | _ n ih =>
    rcases plain_or_split p text with h | ⟨a, c, b, rfl, ha, hc⟩
    · exact hplain text h
    · refine hsplit a c b ha hc (ih b.length ?_ b rfl)
      rw [← hn, List.length_append, List.length_cons]
      omega

theorem isWord_of_mem {word : List α} (h : word ∈ words p text) : IsWord p word := by
  induction text using words_induction (p := p) with
  | hplain a ha =>
    rw [words_plain ha] at h
    split_ifs at h with hnil
    · cases h
    · rw [List.mem_singleton.mp h]
      exact ⟨hnil, ha⟩
  | hsplit a c b ha hc ih =>
    rw [words_append_cons hc, List.mem_append, words_plain ha] at h
    rcases h with h | h
    · split_ifs at h with hnil
      · cases h
      · rw [List.mem_singleton.mp h]
        exact ⟨hnil, ha⟩
    · exact ih h

theorem words_of_forall (h : ∀ c ∈ a, p c = true) (b : List α) : words p (a ++ b) = words p b := by
  induction a with
  | nil => rfl
  | cons c a ih =>
    rw [List.forall_mem_cons] at h
    rw [List.cons_append, words_cons h.1, ih h.2]

theorem words_concat_of_forall (h : ∀ c ∈ b, p c = true) (a : List α) :
    words p (a ++ b) = words p a := by
  cases b with
  | nil => rw [List.append_nil]
  | cons c b =>
    rw [List.forall_mem_cons] at h
    rw [words_append_cons h.1, ← List.append_nil b, words_of_forall h.2, words_nil, List.append_nil]

theorem words_trim (p : α → Bool) (text : List α) : words p (trim p text) = words p text := by
  obtain ⟨before, after, htext, hbefore, hafter⟩ := exists_trim p text
  conv_rhs => rw [htext, List.append_assoc, words_of_forall hbefore, words_concat_of_forall hafter]

theorem words_intercalate (hc : p c = true) {ws : List (List α)} (h : ∀ w ∈ ws, IsWord p w) :
    words p ([c].intercalate ws) = ws := by
  induction ws with
  | nil => rfl
  | cons w ws ih =>
    rw [List.forall_mem_cons] at h
    cases ws with
    | nil => rw [List.intercalate_singleton, h.1.words]
    | cons next ws =>
      rw [List.intercalate_cons_cons, List.append_assoc, List.singleton_append,
        words_append_cons hc, h.1.words, ih h.2, List.singleton_append]

theorem exists_words (hc : p c = false) (text : List α) :
    ∃ word others, words p (c :: text) = (c :: word) :: others := by
  rcases plain_or_split p text with h | ⟨a, d, b, rfl, ha, hd⟩
  · refine ⟨text, [], ?_⟩
    rw [words_plain (List.forall_mem_cons.mpr ⟨hc, h⟩), if_neg (List.cons_ne_nil _ _)]
  · refine ⟨a, words p b, ?_⟩
    rw [← List.cons_append, words_append_cons hd, words_plain (List.forall_mem_cons.mpr ⟨hc, ha⟩),
      if_neg (List.cons_ne_nil _ _), List.singleton_append]

/-- A text that begins with a word still does when it is trimmed. -/
theorem head?_trim (h : IsWord p a) (b : List α) : (trim p (a ++ b)).head? = a.head? := by
  obtain ⟨c, a, rfl⟩ := List.exists_cons_of_ne_nil h.ne_nil
  have hc : p c = false := h.plain c List.mem_cons_self
  obtain ⟨rest, hrest⟩ : trim p (c :: a ++ b) <+: c :: (a ++ b) :=
    trim_prefix (by simpa using hc)
  have hne : trim p (c :: a ++ b) ≠ [] := by
    rw [trim, List.cons_append, List.dropWhile_cons_of_neg (by simp [hc]), Ne,
      List.rdropWhile_eq_nil_iff]
    intro hall
    rw [hall c List.mem_cons_self] at hc
    cases hc
  obtain ⟨d, front, hfront⟩ := List.exists_cons_of_ne_nil hne
  rw [hfront, List.cons_append] at hrest
  rw [hfront, List.head?_cons, List.head?_cons, (List.cons.inj hrest).1]

end Words

section Comments
variable [DecidableEq α] (mark : α)

/-- The text in front of a comment. -/
def uncommented (text : List α) : List α := text.takeWhile (· ≠ mark)

/-- The words in front of a comment, from the words of the whole text. -/
def cut : List (List α) → List (List α)
  | [] => []
  | word :: others =>
    if mark ∈ word then [uncommented mark word].filter fun word => !word.isEmpty
    else word :: cut others

variable {mark} {p : α → Bool} {text a b : List α}

theorem uncommented_of_notMem (h : mark ∉ text) : uncommented mark text = text :=
  List.takeWhile_eq_self_iff.mpr fun _ hc => decide_eq_true (ne_of_mem_of_not_mem hc h)

theorem uncommented_append_of_mem (h : mark ∈ a) (b : List α) :
    uncommented mark (a ++ b) = uncommented mark a := by
  obtain ⟨front, back, rfl, hfront⟩ := List.eq_append_cons_of_mem h
  have hplain : ∀ c ∈ front, decide (c ≠ mark) = true := fun _ hc =>
    decide_eq_true (ne_of_mem_of_not_mem hc hfront)
  rw [uncommented, uncommented, List.append_assoc, List.takeWhile_append_of_pos hplain,
    List.takeWhile_append_of_pos hplain]
  simp

theorem uncommented_append_of_notMem (h : mark ∉ a) (b : List α) :
    uncommented mark (a ++ b) = a ++ uncommented mark b :=
  List.takeWhile_append_of_pos fun _ hc => decide_eq_true (ne_of_mem_of_not_mem hc h)

theorem words_uncommented (hmark : p mark = false) (text : List α) :
    words p (uncommented mark text) = cut mark (words p text) := by
  have hplain (a : List α) (ha : ∀ c ∈ a, p c = false) (hmem : mark ∈ a) (others : List (List α)) :
      words p (uncommented mark a) = cut mark (words p a ++ others) := by
    have hne : a ≠ [] := List.ne_nil_of_mem hmem
    have hsub : ∀ c ∈ uncommented mark a, p c = false := fun c hc =>
      ha c ((List.takeWhile_prefix _).subset hc)
    rw [words_plain ha, if_neg hne, List.singleton_append, cut, if_pos hmem, words_plain hsub]
    cases uncommented mark a <;> rfl
  have hkeep (a : List α) (ha : ∀ c ∈ a, p c = false) (hmem : mark ∉ a) (others : List (List α)) :
      cut mark (words p a ++ others) = words p a ++ cut mark others := by
    rw [words_plain ha]
    split_ifs with hnil
    · rfl
    · rw [List.singleton_append, cut, if_neg hmem, List.singleton_append]
  induction text using words_induction (p := p) with
  | hplain a ha =>
    by_cases hmem : mark ∈ a
    · simpa using hplain a ha hmem []
    · have hcut := hkeep a ha hmem []
      rw [List.append_nil] at hcut
      rw [uncommented_of_notMem hmem, hcut]
      simp [cut]
  | hsplit a c b ha hc ih =>
    rw [words_append_cons hc]
    by_cases hmem : mark ∈ a
    · rw [uncommented_append_of_mem hmem, hplain a ha hmem]
    · have hne : c ≠ mark := by
        rintro rfl
        rw [hc] at hmark
        cases hmark
      have hcons : uncommented mark (c :: b) = c :: uncommented mark b :=
        List.takeWhile_cons_of_pos (decide_eq_true hne)
      rw [uncommented_append_of_notMem hmem, hcons, words_append_cons hc, ih, hkeep a ha hmem]

end Comments

end TextWords
