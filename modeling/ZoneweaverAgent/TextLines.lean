import Mathlib.Data.List.DropRight
import Mathlib.Data.String.Basic

/-!
# Texts read line by line

A text is split at a separator, every line is trimmed, and a reader makes a list of its contents.
Such a reading does not see whether the whole text was trimmed, and it reads a text joined from
pieces piece by piece. A window on the last lines of a growing text can be kept without the rest of
the text. A text that a writer makes of whole lines arrives in chunks: the lines that have arrived,
and the beginning of the next one.
-/

namespace TextLines
variable {α β : Type*}

section Trim
variable (p : α → Bool)

def trim (text : List α) : List α := (text.dropWhile p).rdropWhile p

@[simp] theorem trim_nil : trim p [] = [] := rfl

variable {p} {c : α} {text : List α}

theorem trim_cons (hc : p c = true) : trim p (c :: text) = trim p text := by
  rw [trim, List.dropWhile_cons_of_pos hc, trim]

theorem trim_concat (hc : p c = true) : trim p (text ++ [c]) = trim p text := by
  rw [trim, trim, List.dropWhile_append]
  split_ifs with hall
  · rw [List.dropWhile_cons_of_pos hc, List.isEmpty_iff.mp hall, List.dropWhile_nil]
  · exact List.rdropWhile_concat_pos p _ c hc

/-- A text is its trimmed part between what was trimmed off. -/
theorem exists_trim (p : α → Bool) (text : List α) :
    ∃ before after, text = before ++ trim p text ++ after ∧ (∀ c ∈ before, p c = true) ∧
      ∀ c ∈ after, p c = true := by
  refine ⟨text.takeWhile p, (text.dropWhile p).rtakeWhile p, ?_, ?_, ?_⟩
  · rw [trim, List.append_assoc]
    conv_lhs => rw [← List.takeWhile_append_dropWhile (p := p) (l := text)]
    congr 1
    rw [List.rdropWhile, List.rtakeWhile, ← List.reverse_append, List.takeWhile_append_dropWhile,
      List.reverse_reverse]
  · exact fun c hc => List.mem_takeWhile_imp hc
  · intro c hc
    rw [List.rtakeWhile, List.mem_reverse] at hc
    exact List.mem_takeWhile_imp hc

theorem trim_head (c : α) (hc : c ∈ (trim p text).head?) : p c = false := by
  obtain ⟨rest, hrest⟩ := List.rdropWhile_prefix p (text.dropWhile p)
  have hhead : (text.dropWhile p).head? = some c := by
    cases htrim : trim p text with
    | nil =>
      rw [htrim] at hc
      cases hc
    | cons x xs =>
      rw [htrim] at hc
      rw [← hrest, ← trim, htrim]
      exact hc
  have hstays := List.head?_dropWhile_not p text
  rwa [hhead] at hstays

/-- Nothing is trimmed off the front of a text that starts with what stays. -/
theorem trim_prefix (hhead : ∀ c ∈ text.head?, p c = false) : trim p text <+: text := by
  cases text with
  | nil => exact List.prefix_rfl
  | cons c rest =>
    rw [trim, List.dropWhile_cons_of_neg (by rw [hhead c rfl]; nofun)]
    exact List.rdropWhile_prefix p _

/-- Nothing is trimmed off a text whose ends stay. -/
theorem trim_eq_self (hhead : ∀ c ∈ text.head?, p c = false)
    (hlast : ∀ c ∈ text.getLast?, p c = false) : trim p text = text := by
  cases text with
  | nil => rfl
  | cons c rest =>
    rw [trim, List.dropWhile_cons_of_neg (by rw [hhead c rfl]; nofun), List.rdropWhile_eq_self_iff]
    intro hne
    rw [hlast _ (List.getLast?_eq_some_getLast hne)]
    nofun

theorem trim_padded {before after : List α} (hbefore : ∀ c ∈ before, p c = true)
    (hafter : ∀ c ∈ after, p c = true) : trim p (before ++ text ++ after) = trim p text := by
  induction before with
  | cons c before ih =>
    rw [List.cons_append, List.cons_append, trim_cons (hbefore c List.mem_cons_self)]
    exact ih fun d hd => hbefore d (List.mem_cons_of_mem _ hd)
  | nil =>
    induction after using List.reverseRecOn with
    | nil => rw [List.nil_append, List.append_nil]
    | append_singleton after c ih =>
      rw [← List.append_assoc, trim_concat (hafter c (by simp))]
      exact ih fun d hd => hafter d (List.mem_append_left _ hd)

end Trim

theorem notMem_intercalate {c d : α} {pieces : List (List α)} (hne : c ≠ d)
    (h : ∀ piece ∈ pieces, c ∉ piece) : c ∉ [d].intercalate pieces := by
  induction pieces with
  | nil => exact List.not_mem_nil
  | cons piece pieces ih =>
    rw [List.forall_mem_cons] at h
    cases pieces with
    | nil =>
      rw [List.intercalate_singleton]
      exact h.1
    | cons next pieces =>
      rw [List.intercalate_cons_cons, List.mem_append, List.mem_append, List.mem_singleton, not_or,
        not_or]
      exact ⟨⟨h.1, hne⟩, ih h.2⟩

section Reading
variable [DecidableEq α] (p : α → Bool) (sep : α) (read : List α → List β)

def readLines (text : List α) : List β := (text.splitOn sep).flatMap fun line => read (trim p line)

variable {p sep read} {c : α} {text : List α}

theorem flatMap_splitOn (text : List α) :
    (text.splitOn sep).flatMap (· ++ [sep]) = text ++ [sep] := by
  induction text with
  | nil => rfl
  | cons c text ih =>
    rw [List.splitOn_cons_eq_if_modifyHead]
    by_cases hc : c = sep
    · subst hc
      simp [ih]
    · obtain ⟨first, others, hlines⟩ := List.exists_cons_of_ne_nil (List.splitOn_ne_nil sep text)
      rw [hlines] at ih ⊢
      simp only [beq_iff_eq, hc, if_false, List.modifyHead_cons, List.flatMap_cons] at ih ⊢
      rw [List.cons_append, List.cons_append, ih, List.cons_append]

theorem notMem_of_mem_splitOn {line : List α} (h : line ∈ text.splitOn sep) : sep ∉ line := by
  induction text generalizing line with
  | nil =>
    rw [List.splitOn_nil, List.mem_singleton] at h
    simp [h]
  | cons c text ih =>
    obtain ⟨first, others, hlines⟩ := List.exists_cons_of_ne_nil (List.splitOn_ne_nil sep text)
    rw [List.splitOn_cons_eq_if_modifyHead, hlines] at h
    rw [hlines] at ih
    by_cases hc : c = sep
    · simp only [hc, beq_self_eq_true, if_true, List.mem_cons] at h
      rcases h with rfl | h
      · simp
      · exact ih (List.mem_cons.mpr h)
    · simp only [beq_iff_eq, hc, if_false, List.modifyHead_cons, List.mem_cons] at h
      rcases h with rfl | h
      · simp [Ne.symm hc, ih List.mem_cons_self]
      · exact ih (List.mem_cons_of_mem _ h)

theorem mem_of_mem_splitOn {line : List α} (hline : line ∈ text.splitOn sep) (hc : c ∈ line) :
    c ∈ text := by
  have hmem : c ∈ text ++ [sep] := by
    rw [← flatMap_splitOn]
    exact List.mem_flatMap.mpr ⟨line, hline, List.mem_append_left _ hc⟩
  rcases List.mem_append.mp hmem with h | h
  · exact h
  · rw [List.mem_singleton.mp h] at hc
    exact absurd hc (notMem_of_mem_splitOn hline)

theorem readLines_append_cons (before after : List α) :
    readLines p sep read (before ++ sep :: after) =
      readLines p sep read before ++ readLines p sep read after := by
  rw [readLines, List.splitOn_eq_splitOnP, List.splitOnP_append_cons _ _ (by simp),
    List.flatMap_append, ← List.splitOn_eq_splitOnP, ← List.splitOn_eq_splitOnP, readLines,
    readLines]

theorem readLines_single (h : sep ∉ text) : readLines p sep read text = read (trim p text) := by
  rw [readLines, List.splitOn_eq_singleton h, List.flatMap_singleton]

theorem readLines_cons (hnil : read [] = []) (hc : p c = true) :
    readLines p sep read (c :: text) = readLines p sep read text := by
  by_cases hsep : c = sep
  · have hsplit := @readLines_append_cons α β _ p sep read [] text
    rw [readLines_single List.not_mem_nil, trim_nil, hnil, List.nil_append, List.nil_append]
      at hsplit
    rw [hsep, hsplit]
  · have hfirst : ∀ line, sep ∉ line →
        readLines p sep read (c :: line) = readLines p sep read line := by
      intro line hline
      rw [readLines_single hline, readLines_single, trim_cons hc]
      exact List.not_mem_cons_of_ne_of_not_mem (Ne.symm hsep) hline
    by_cases hmem : sep ∈ text
    · obtain ⟨before, after, rfl, hbefore⟩ := List.eq_append_cons_of_mem hmem
      rw [← List.cons_append, readLines_append_cons, readLines_append_cons, hfirst before hbefore]
    · exact hfirst text hmem

theorem readLines_concat (hnil : read [] = []) (hc : p c = true) :
    readLines p sep read (text ++ [c]) = readLines p sep read text := by
  by_cases hsep : c = sep
  · rw [hsep, readLines_append_cons, readLines_single List.not_mem_nil, trim_nil, hnil,
      List.append_nil]
  · have hlast : ∀ line, sep ∉ line →
        readLines p sep read (line ++ [c]) = readLines p sep read line := by
      intro line hline
      rw [readLines_single hline, readLines_single, trim_concat hc]
      rw [List.mem_append, List.mem_singleton]
      rintro (h | h)
      · exact hline h
      · exact hsep h.symm
    by_cases hmem : sep ∈ text
    · obtain ⟨after, before, hrev, hafter⟩ :=
        List.eq_append_cons_of_mem (List.mem_reverse.mpr hmem)
      have htext : text = before.reverse ++ sep :: after.reverse := by
        rw [← List.reverse_reverse text, hrev]
        simp
      rw [htext, List.append_assoc, List.cons_append, readLines_append_cons,
        readLines_append_cons, hlast]
      rwa [List.mem_reverse]
    · exact hlast text hmem

/-- The reading does not see whether the whole text was trimmed. -/
theorem readLines_trim (hnil : read [] = []) (text : List α) :
    readLines p sep read (trim p text) = readLines p sep read text := by
  obtain ⟨before, after, htext, hbefore, hafter⟩ := exists_trim p text
  have hafter' : readLines p sep read (trim p text ++ after) =
      readLines p sep read (trim p text) := by
    clear htext
    induction after using List.reverseRecOn with
    | nil => rw [List.append_nil]
    | append_singleton after c ih =>
      rw [← List.append_assoc, readLines_concat hnil (hafter c (by simp))]
      exact ih fun x hx => hafter x (by simp [hx])
  have hbefore' : readLines p sep read (before ++ (trim p text ++ after)) =
      readLines p sep read (trim p text ++ after) := by
    clear htext hafter'
    induction before with
    | nil => rfl
    | cons c before ih =>
      rw [List.cons_append, readLines_cons hnil (hbefore c List.mem_cons_self)]
      exact ih fun x hx => hbefore x (List.mem_cons_of_mem c hx)
  conv_rhs => rw [htext, List.append_assoc, hbefore', hafter']

/-- A text joined from pieces is read piece by piece. -/
theorem readLines_intercalate (hnil : read [] = []) (pieces : List (List α)) :
    readLines p sep read (List.intercalate [sep] pieces) =
      pieces.flatMap (readLines p sep read) := by
  induction pieces with
  | nil => rw [List.flatMap_nil, List.intercalate_nil, readLines_single List.not_mem_nil, trim_nil,
      hnil]
  | cons piece rest ih =>
    cases rest with
    | nil => rw [List.flatMap_singleton, List.intercalate_singleton]
    | cons next rest =>
      rw [List.intercalate_cons_cons, List.append_assoc, List.singleton_append,
        readLines_append_cons, ih, List.flatMap_cons, List.flatMap_cons, List.flatMap_cons]

end Reading

section LastLines
variable [DecidableEq α] (sep : α)

def lastLines (n : ℕ) (text : List α) : List α :=
  [sep].intercalate ((text.splitOn sep).drop ((text.splitOn sep).length - n))

variable {sep}

theorem length_splitOn (text : List α) : (text.splitOn sep).length = text.count sep + 1 := by
  induction text with
  | nil => rfl
  | cons c text ih =>
    by_cases hc : c = sep
    · rw [hc, List.count_cons_self, ← ih, ← List.nil_append (sep :: text),
        List.splitOn_append_cons_self, List.length_append]
      exact Nat.add_comm _ _
    · rw [List.count_cons_of_ne hc, ← ih, List.splitOn_eq_splitOnP, List.splitOn_eq_splitOnP,
        List.splitOnP_cons_eq_if_modifyHead, if_neg (by simpa using hc), List.length_modifyHead]

theorem lastLines_of_le {n : ℕ} {text : List α} (h : (text.splitOn sep).length ≤ n) :
    lastLines sep n text = text := by
  rw [lastLines, Nat.sub_eq_zero_of_le h, List.drop_zero, List.intercalate_splitOn]

/-- Lines before the last ones are not seen. -/
theorem lastLines_append_cons {n : ℕ} (before : List α) {after : List α}
    (h : n ≤ (after.splitOn sep).length) :
    lastLines sep n (before ++ sep :: after) = lastLines sep n after := by
  rw [lastLines, lastLines, List.splitOn_append_cons_self, List.length_append, Nat.add_sub_assoc h,
    List.drop_append, Nat.add_sub_cancel_left, List.drop_of_length_le (Nat.le_add_right _ _),
    List.nil_append]

/-- A text of more than `n` lines ends in one of `n` lines. -/
theorem exists_lastLines {n : ℕ} (hn : 0 < n) {text : List α} (h : n < (text.splitOn sep).length) :
    ∃ before after, text = before ++ sep :: after ∧ (after.splitOn sep).length = n := by
  simp only [length_splitOn] at h ⊢
  induction text with
  | nil =>
    rw [List.count_nil] at h
    omega
  | cons c text ih =>
    by_cases hc : c = sep
    · rw [hc, List.count_cons_self] at h
      by_cases hmore : n < text.count sep + 1
      · obtain ⟨before, after, htext, hafter⟩ := ih hmore
        exact ⟨c :: before, after, by rw [htext, List.cons_append], hafter⟩
      · exact ⟨[], text, by rw [hc, List.nil_append], by omega⟩
    · rw [List.count_cons_of_ne hc] at h
      obtain ⟨before, after, htext, hafter⟩ := ih h
      exact ⟨c :: before, after, by rw [htext, List.cons_append], hafter⟩

/-- The last lines of a text that grows are those of its last lines grown. -/
theorem lastLines_append {n : ℕ} (hn : 0 < n) (text more : List α) :
    lastLines sep n (lastLines sep n text ++ more) = lastLines sep n (text ++ more) := by
  by_cases hshort : (text.splitOn sep).length ≤ n
  · rw [lastLines_of_le hshort]
  · obtain ⟨before, after, rfl, hafter⟩ := exists_lastLines hn (Nat.lt_of_not_le hshort)
    rw [lastLines_append_cons before hafter.ge, lastLines_of_le hafter.le, List.append_assoc,
      List.cons_append, lastLines_append_cons]
    rw [← hafter, length_splitOn, length_splitOn, List.count_append]
    exact Nat.succ_le_succ (Nat.le_add_right _ _)

end LastLines

section Arrival
variable [DecidableEq α] (sep : α) (text : β → List α)

def written (lines : List β) : List α := lines.flatMap fun line => text line ++ [sep]

/-- The lines that a text has whole. -/
def arrived : List β → List α → List β
  | [], _ => []
  | line :: lines, u =>
    if text line ++ [sep] <+: u then line :: arrived lines (u.drop (text line).length.succ) else []

variable {sep text} {lines done more : List β} {tail u v rest : List α}

@[simp] theorem written_nil : written sep text [] = [] := rfl

theorem written_cons (line : β) (lines : List β) :
    written sep text (line :: lines) = text line ++ sep :: written sep text lines := by
  simp [written]

theorem written_append (lines more : List β) :
    written sep text (lines ++ more) = written sep text lines ++ written sep text more :=
  List.flatMap_append

theorem arrived_of_notMem (h : sep ∉ u) : arrived sep text lines u = [] := by
  cases lines with
  | nil => rfl
  | cons line lines =>
    rw [arrived, if_neg]
    intro hline
    exact h (hline.subset (by simp))

theorem arrived_append (done more : List β) (u : List α) :
    arrived sep text (done ++ more) (written sep text done ++ u) =
      done ++ arrived sep text more u := by
  induction done with
  | nil => rfl
  | cons line done ih =>
    have hsplit : written sep text (line :: done) ++ u =
        (text line ++ [sep]) ++ (written sep text done ++ u) := by
      simp [written_cons]
    rw [hsplit, List.cons_append, arrived, if_pos (List.prefix_append _ _),
      List.drop_left' (by simp), ih, List.cons_append]

/-- The beginning of a written text is the lines that have arrived and a piece of the next one. -/
theorem exists_arrived (h : u ++ rest = written sep text lines)
    (hsep : ∀ line ∈ lines, sep ∉ text line) : ∃ more tail,
      lines = arrived sep text lines u ++ more ∧
        u = written sep text (arrived sep text lines u) ++ tail ∧ sep ∉ tail := by
  induction lines generalizing u with
  | nil =>
    obtain ⟨rfl, -⟩ := List.append_eq_nil_iff.mp h
    exact ⟨[], [], rfl, rfl, List.not_mem_nil⟩
  | cons line lines ih =>
    rw [written_cons] at h
    rw [arrived]
    split_ifs with hwhole
    · obtain ⟨u', rfl⟩ := hwhole
      have hrest : u' ++ rest = written sep text lines := by simpa using h
      obtain ⟨more, tail, hlines, hu, htail⟩ :=
        ih hrest fun l hl => hsep l (List.mem_cons_of_mem _ hl)
      rw [List.drop_left' (by simp)]
      refine ⟨more, tail, by rw [List.cons_append, ← hlines], ?_, htail⟩
      rw [written_cons, List.append_assoc, List.append_assoc, List.singleton_append,
        List.cons_append, ← hu]
    · refine ⟨line :: lines, u, rfl, rfl, ?_⟩
      have hline := hsep line List.mem_cons_self
      rcases List.append_eq_append_iff.mp h with ⟨x, hx, -⟩ | ⟨x, hx, hx'⟩
      · exact fun hmem => hline (hx ▸ List.mem_append_left x hmem)
      · cases x with
        | nil => rwa [hx, List.append_nil]
        | cons c x =>
          obtain ⟨rfl, -⟩ := List.cons.inj hx'
          exact absurd ⟨x, by rw [hx]; simp⟩ hwhole

theorem splitOn_written (hsep : ∀ line ∈ lines, sep ∉ text line) (htail : sep ∉ tail) :
    (written sep text lines ++ tail).splitOn sep = lines.map text ++ [tail] := by
  induction lines with
  | nil => exact List.splitOn_eq_singleton htail
  | cons line lines ih =>
    rw [written_cons, List.append_assoc, List.cons_append, List.splitOn_append_cons_self,
      List.splitOn_eq_singleton (hsep line List.mem_cons_self),
      ih fun l hl => hsep l (List.mem_cons_of_mem _ hl)]
    rfl

/-- Written lines are read line by line. -/
theorem readLines_written {γ : Type*} {p : α → Bool} {read : List α → List γ} (hnil : read [] = [])
    (hsep : ∀ line ∈ lines, sep ∉ text line) :
    readLines p sep read (written sep text lines) =
      lines.flatMap fun line => read (trim p (text line)) := by
  have hsplit := splitOn_written hsep (List.not_mem_nil (a := sep))
  rw [List.append_nil] at hsplit
  rw [readLines, hsplit, List.flatMap_append, List.flatMap_map, List.flatMap_singleton, trim_nil,
    hnil, List.append_nil]

end Arrival

section Strings
open String

variable (c : Char)

theorem splitOnAux_ofList (l m r : List Char) (acc : List String) :
    splitOnAux (ofList (l ++ m ++ r)) (ofList [c]) ⟨utf8Len l⟩ ⟨utf8Len l + utf8Len m⟩ 0 acc =
      acc.reverse ++ (List.splitOnPPrepend (· == c) r m.reverse).map ofList := by
  induction r generalizing l m acc with
  | nil =>
    have hend := atEnd_of_valid (l ++ m) []
    rw [utf8Len_append] at hend
    unfold splitOnAux
    rw [if_pos (hend.mpr rfl), extract_of_valid l m []]
    simp
  | cons d r ih =>
    have hend := atEnd_of_valid (l ++ m) (d :: r)
    have hget := get_of_valid (l ++ m) (d :: r)
    have hnext := next_of_valid (l ++ m) d r
    rw [utf8Len_append] at hend hget hnext
    have hsepget : Pos.Raw.get (ofList [c]) 0 = c := get_of_valid [] [c]
    have hsepnext : Pos.Raw.next (ofList [c]) 0 = ⟨utf8Len [c]⟩ := by
      simpa using next_of_valid [] c []
    have hsepend : Pos.Raw.atEnd (ofList [c]) ⟨utf8Len [c]⟩ = true :=
      (atEnd_of_valid [c] []).mpr rfl
    have hzero (p : Pos.Raw) : p.unoffsetBy 0 = p := rfl
    unfold splitOnAux
    rw [if_neg (mt hend.mp (List.cons_ne_nil d r)), hget, hsepget, hsepnext, hzero, hnext,
      List.headD_cons, List.splitOnPPrepend_cons_eq_if]
    by_cases hd : (d == c) = true
    · have hback : (Pos.Raw.mk (utf8Len l + utf8Len m + d.utf8Size)).unoffsetBy ⟨utf8Len [c]⟩ =
          ⟨utf8Len l + utf8Len m⟩ := by
        rw [eq_of_beq hd]
        simp [Pos.Raw.unoffsetBy]
      have hrec := ih (l ++ m ++ [d]) [] (ofList m :: acc)
      simp only [if_pos hd, hsepend, if_true, hback, extract_of_valid]
      simpa [-ofList_append, Nat.add_assoc] using hrec
    · have hrec := ih l (m ++ [d]) acc
      simp only [if_neg hd]
      simpa [-ofList_append, Nat.add_assoc] using hrec

/-- Splitting a string at a character, in terms of its characters. -/
theorem string_splitOn (s : String) : s.splitOn (ofList [c]) = (s.toList.splitOn c).map ofList := by
  have hsplit := splitOnAux_ofList c [] [] s.toList []
  have hne : (ofList [c] == "") = false := by simp
  rw [List.nil_append, List.nil_append, ofList_toList] at hsplit
  rw [String.splitOn, hne]
  exact hsplit

end Strings

end TextLines
