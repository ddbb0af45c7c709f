import Mathlib.Data.List.TakeWhile

/-!
# Unanchored patterns over paths

A pattern without anchors takes the leftmost place of a text where it matches. The patterns here
begin with a slash, so their places are the segments of the text. `split` divides a text at its
slashes, and `decode` reads percent-encoded UTF-8.
-/

namespace PathScan

abbrev Text := List Char

section Search
variable {β : Type} (here : Text → Option β)

/-- The match at the leftmost place, `here` being the pattern tied to the start of a text. -/
def search : Text → Option β
  | [] => none
  | c :: rest => (here (c :: rest)).or (search rest)

def behind (literal text : Text) : Option Text :=
  if literal.isPrefixOf text then some (text.drop literal.length) else none

/-- `\w` -/
def isWord (c : Char) : Bool := c.isAlphanum || c = '_'

/-- A non-empty run of characters, as long as possible, and what follows it. -/
def run (member : Char → Bool) (text : Text) : Option (Text × Text) :=
  if text.takeWhile member = [] then none
  else some (text.takeWhile member, text.dropWhile member)

variable {here} {segment rest literal text first : Text}

theorem behind_append (literal text : Text) : behind literal (literal ++ text) = some text := by
  simp [behind]

theorem behind_eq_some (h : behind literal text = some rest) : text = literal ++ rest := by
  unfold behind at h
  split_ifs at h with hprefix
  cases h
  obtain ⟨tail, rfl⟩ := List.isPrefixOf_iff_prefix.mp hprefix
  simp

theorem takeWhile_append_stop {member : Char → Bool} {taken : Text}
    (htaken : ∀ c ∈ taken, member c = true) (hrest : ∀ c ∈ rest.head?, member c = false) :
    (taken ++ rest).takeWhile member = taken := by
  rw [List.takeWhile_append_of_pos htaken]
  cases rest with
  | nil => simp
  | cons c rest => simp [hrest c (by simp)]

theorem dropWhile_append_stop {member : Char → Bool} {taken : Text}
    (htaken : ∀ c ∈ taken, member c = true) (hrest : ∀ c ∈ rest.head?, member c = false) :
    (taken ++ rest).dropWhile member = rest := by
  rw [List.dropWhile_append_of_pos htaken]
  cases rest with
  | nil => rfl
  | cons c rest => simp [hrest c (by simp)]

theorem run_append {member : Char → Bool} {taken : Text} (hne : taken ≠ [])
    (htaken : ∀ c ∈ taken, member c = true) (hrest : ∀ c ∈ rest.head?, member c = false) :
    run member (taken ++ rest) = some (taken, rest) := by
  rw [run, takeWhile_append_stop htaken hrest, dropWhile_append_stop htaken hrest, if_neg hne]

/-- Two texts that agree up to the first place of a character agree before and behind it. -/
theorem append_cons_eq {c : Char} {a b s t : Text} (ha : c ∉ a) (hb : c ∉ b)
    (h : a ++ c :: s = b ++ c :: t) : a = b ∧ s = t := by
  induction a generalizing b with
  | nil =>
    cases b with
    | nil => exact ⟨rfl, List.cons_inj_right _ |>.mp h⟩
    | cons d b =>
      simp only [List.nil_append, List.cons_append, List.cons.injEq] at h
      exact absurd (h.1 ▸ List.mem_cons_self) hb
  | cons d a ih =>
    cases b with
    | nil =>
      simp only [List.nil_append, List.cons_append, List.cons.injEq] at h
      exact absurd (h.1 ▸ List.mem_cons_self) ha
    | cons e b =>
      simp only [List.cons_append, List.cons.injEq] at h
      simp only [List.mem_cons, not_or] at ha hb
      obtain ⟨rfl, rfl⟩ := ih ha.2 hb.2 h.2
      exact ⟨by rw [h.1], rfl⟩

theorem prefix_of_notMem {word a b : Text} {c : Char} (hc : c ∉ word) (h : word <+: a ++ c :: b) :
    word <+: a := by
  rcases List.prefix_or_prefix_of_prefix h (List.prefix_append a (c :: b)) with h' | h'
  · exact h'
  · obtain ⟨tail, rfl⟩ := h'
    rw [List.prefix_append_right_inj] at h
    cases tail with
    | nil => simp
    | cons d tail =>
      rw [(List.cons_prefix_cons.mp h).1] at hc
      simp at hc

theorem not_infix_append {word a b : Text} (hne : word ≠ []) {c : Char} (hc : c ∉ word)
    (ha : ¬word <:+: a) (hb : ¬word <:+: b) : ¬word <:+: a ++ c :: b := by
  induction a with
  | nil =>
    rw [List.nil_append, List.infix_cons_iff, not_or]
    refine ⟨fun h => ?_, hb⟩
    have hnil : word <+: [] := prefix_of_notMem hc (a := []) h
    exact hne (List.prefix_nil.mp hnil)
  | cons d a ih =>
    rw [List.cons_append, List.infix_cons_iff, not_or]
    rw [List.infix_cons_iff, not_or] at ha
    exact ⟨fun h => ha.1 (prefix_of_notMem hc (a := d :: a) h), ih ha.2⟩

theorem not_infix_intercalate {word : Text} (hne : word ≠ []) {c : Char} (hc : c ∉ word)
    {pieces : List Text} (h : ∀ piece ∈ pieces, ¬word <:+: piece) :
    ¬word <:+: [c].intercalate pieces := by
  induction pieces with
  | nil => exact fun hinfix => hne (List.infix_nil.mp hinfix)
  | cons piece pieces ih =>
    rw [List.forall_mem_cons] at h
    cases pieces with
    | nil =>
      rw [List.intercalate_singleton]
      exact h.1
    | cons next pieces =>
      rw [List.intercalate_cons_cons, List.append_assoc, List.singleton_append]
      exact not_infix_append hne hc h.1 (ih h.2)

/-- Two texts that agree up to their first slash agree in that segment. -/
theorem segment_eq {a b s t : Text} (ha : '/' ∉ a) (hb : '/' ∉ b)
    (h : a ++ '/' :: s = b ++ '/' :: t) : a = b ∧ s = t :=
  append_cons_eq ha hb h

/-- A pattern whose matches begin with this segment and a slash. -/
def Leads (first : Text) (here : Text → Option β) : Prop :=
  ∀ text, here text ≠ none → ∃ rest, text = '/' :: first ++ '/' :: rest

theorem leads_behind {tail : Text} (f : Text → Option β) :
    Leads first fun text => (behind ('/' :: first ++ '/' :: tail) text).bind f := by
  intro text h
  cases hbehind : behind ('/' :: first ++ '/' :: tail) text with
  | none =>
    simp only [hbehind] at h
    exact absurd rfl h
  | some rest =>
    refine ⟨tail ++ rest, ?_⟩
    rw [behind_eq_some hbehind]
    simp

/-- A segment is no place for such a pattern. -/
theorem Leads.search_append (h : Leads first here) (hsegment : '/' ∉ segment) (rest : Text) :
    search here (segment ++ rest) = search here rest := by
  induction segment with
  | nil => rfl
  | cons c segment ih =>
    simp only [List.mem_cons, not_or] at hsegment
    have hnone : here (c :: (segment ++ rest)) = none := by
      by_contra hsome
      obtain ⟨tail, htail⟩ := h _ hsome
      simp only [List.cons_append, List.cons.injEq] at htail
      exact hsegment.1 htail.1.symm
    rw [List.cons_append, search, hnone, Option.none_or, ih hsegment.2]

theorem Leads.search_slash (h : Leads first here) (hsegment : '/' ∉ segment) (rest : Text) :
    search here ('/' :: segment ++ rest) =
      (here ('/' :: segment ++ rest)).or (search here rest) := by
  rw [List.cons_append, search, h.search_append hsegment]

/-- The text with these segments. -/
def join (segments : List Text) : Text := segments.flatMap ('/' :: ·)

theorem join_cons (segment : Text) (segments : List Text) :
    join (segment :: segments) = '/' :: segment ++ join segments := rfl

theorem search_join_of_some {segment : Text} {segments : List Text} {found : β}
    (h : here (join (segment :: segments)) = some found) :
    search here (join (segment :: segments)) = some found := by
  rw [join_cons, List.cons_append] at h ⊢
  rw [search, h, Option.some_or]

theorem slash_of_join (segments : List Text) :
    join segments = [] ∨ ∃ rest, join segments = '/' :: rest := by
  cases segments with
  | nil => exact Or.inl rfl
  | cons segment segments => exact Or.inr ⟨_, rfl⟩

theorem Leads.eq_none (h : Leads first here) (hfirst : '/' ∉ first) (hsegment : '/' ∉ segment)
    (hne : segment ≠ first) (segments : List Text) :
    here ('/' :: segment ++ join segments) = none := by
  by_contra hsome
  obtain ⟨tail, htail⟩ := h _ hsome
  rcases slash_of_join segments with hnil | ⟨rest, hrest⟩
  · rw [hnil, List.append_nil] at htail
    apply hsegment
    rw [(List.cons_inj_right _).mp htail]
    simp
  · rw [hrest] at htail
    exact hne (segment_eq hsegment hfirst ((List.cons_inj_right _).mp htail)).1

/-- Without its first segment a path has no match. -/
theorem Leads.search_join (h : Leads first here) (hfirst : '/' ∉ first) {segments : List Text}
    (hsegments : ∀ segment ∈ segments, '/' ∉ segment) (hnot : first ∉ segments) :
    search here (join segments) = none := by
  induction segments with
  | nil => rfl
  | cons segment segments ih =>
    simp only [List.mem_cons, forall_eq_or_imp, not_or] at hsegments hnot
    rw [join_cons, h.search_slash hsegments.1, h.eq_none hfirst hsegments.1 (Ne.symm hnot.1),
      Option.none_or, ih hsegments.2 hnot.2]

end Search

section Split

/-- `text.split('/')` -/
def split : Text → List Text
  | [] => [[]]
  | c :: rest =>
    if c = '/' then [] :: split rest
    else
      match split rest with
      | [] => [[c]]
      | first :: others => (c :: first) :: others

variable {segment : Text}

theorem split_segment (h : '/' ∉ segment) : split segment = [segment] := by
  induction segment with
  | nil => rfl
  | cons c rest ih =>
    simp only [List.mem_cons, not_or] at h
    rw [split, if_neg (Ne.symm h.1), ih h.2]

theorem split_append (h : '/' ∉ segment) (rest : Text) :
    split (segment ++ '/' :: rest) = segment :: split rest := by
  induction segment with
  | nil => rfl
  | cons c segment ih =>
    simp only [List.mem_cons, not_or] at h
    rw [List.cons_append, split, if_neg (Ne.symm h.1), ih h.2]

end Split

section Decode

def hexDigit? (c : Char) : Option ℕ :=
  if '0' ≤ c ∧ c ≤ '9' then some (c.toNat - 48)
  else if 'a' ≤ c ∧ c ≤ 'f' then some (c.toNat - 87)
  else if 'A' ≤ c ∧ c ≤ 'F' then some (c.toNat - 55)
  else none

def byte? : Text → Option (ℕ × Text)
  | '%' :: a :: b :: rest => do
    let high ← hexDigit? a
    let low ← hexDigit? b
    return (16 * high + low, rest)
  | _ => none

/-- The code point of a lead byte's bits and the continuation bytes behind it. -/
def codePoint? : ℕ → ℕ → Text → Option (ℕ × Text)
  | 0, code, text => some (code, text)
  | n + 1, code, text => do
    let (byte, rest) ← byte? text
    if 0x80 ≤ byte ∧ byte < 0xC0 then codePoint? n (64 * code + (byte - 0x80)) rest else none

def char? (text : Text) : Option (Char × Text) := do
  let (byte, rest) ← byte? text
  let (least, code, rest) ←
    if byte < 0x80 then some (0, byte, rest)
    else if 0xC0 ≤ byte ∧ byte < 0xE0 then
      (codePoint? 1 (byte - 0xC0) rest).map (Prod.mk 0x80)
    else if 0xE0 ≤ byte ∧ byte < 0xF0 then
      (codePoint? 2 (byte - 0xE0) rest).map (Prod.mk 0x800)
    else if 0xF0 ≤ byte ∧ byte < 0xF8 then
      (codePoint? 3 (byte - 0xF0) rest).map (Prod.mk 0x10000)
    else none
  if least ≤ code ∧ code.isValidChar then return (Char.ofNat code, rest) else none

/-- Decoding of at most `n` characters. -/
def decodeUpTo : ℕ → Text → Option Text
  | _, [] => some []
  | 0, _ => none
  | n + 1, c :: rest =>
    if c = '%' then do
      let (decoded, rest) ← char? (c :: rest)
      (decodeUpTo n rest).map (decoded :: ·)
    else (decodeUpTo n rest).map (c :: ·)

/-- The decoded text, `none` if the text is malformed; no text decodes to more characters than it
has. -/
def decode (text : Text) : Option Text := decodeUpTo text.length text

theorem decode_plain {text : Text} (h : '%' ∉ text) : decode text = some text := by
  unfold decode
  induction text with
  | nil => rfl
  | cons c rest ih =>
    simp only [List.mem_cons, not_or] at h
    rw [List.length_cons, decodeUpTo, if_neg (Ne.symm h.1), ih h.2]
    rfl

end Decode

end PathScan
