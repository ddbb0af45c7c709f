import Mathlib.Data.List.Infix
import Mathlib.Tactic.SplitIfs

/-!
# Patterns in texts

A pattern lists the ways in which it matches at the front of a text, each by what it leaves, in the
order in which a backtracking matcher tries them. `scan` goes through a text from the left and takes
the first way of each leftmost match. A pattern is local when it looks at nothing behind its match;
where a text is cut between two pieces of its scan, the parts are scanned like the whole.
-/

namespace TextPatterns
variable {γ : Type*}

abbrev Pattern (γ : Type*) := List γ → List (List γ)

section Combinators

def one (p : γ → Bool) : Pattern γ
  | [] => []
  | c :: text => if p c then [text] else []

def seq (m n : Pattern γ) : Pattern γ := fun text => (m text).flatMap n

/-- A greedy `m?`. -/
def maybe (m : Pattern γ) : Pattern γ := fun text => m text ++ [text]

/-- A greedy `m{0,k}`. -/
def upTo (m : Pattern γ) : ℕ → Pattern γ
  | 0 => fun text => [text]
  | k + 1 => maybe (seq m (upTo m k))

/-- A greedy `m*`, where every `m` takes a part of the text. -/
def many (m : Pattern γ) : Pattern γ := fun text => upTo m text.length text

/-- The ways that leave `b`, without it. -/
def leaving (b : List γ) (ways : List (List γ)) : List (List γ) :=
  (ways.filter fun rest => b.length ≤ rest.length).map fun rest =>
    rest.take (rest.length - b.length)

/-- What stands behind a match is left, and does not count. -/
structure Local (m : Pattern γ) : Prop where
  suffix : ∀ text rest, rest ∈ m text → rest <:+ text
  cut : ∀ a b, leaving b (m (a ++ b)) = m a

/-- Every match takes a part of the text. -/
def Consuming (m : Pattern γ) : Prop := ∀ text rest, rest ∈ m text → rest.length < text.length

variable {m n : Pattern γ} {a b text rest : List γ}

theorem leaving_append (b : List γ) (ways ways' : List (List γ)) :
    leaving b (ways ++ ways') = leaving b ways ++ leaving b ways' := by
  simp [leaving]

@[simp] theorem leaving_singleton (a b : List γ) : leaving b [a ++ b] = [a] := by
  simp [leaving]

theorem leaving_of_short {ways : List (List γ)} (h : ∀ rest ∈ ways, rest.length < b.length) :
    leaving b ways = [] := by
  have hnone : (ways.filter fun rest => b.length ≤ rest.length) = [] := by
    simpa using h
  rw [leaving, hnone, List.map_nil]

/-- What is left of a text that ends with `b`, unless it is shorter. -/
theorem exists_eq_append (hsuffix : rest <:+ a ++ b) (hlength : b.length ≤ rest.length) :
    ∃ left, rest = left ++ b := by
  obtain ⟨left, hleft⟩ := List.suffix_of_suffix_length_le (List.suffix_append a b) hsuffix hlength
  exact ⟨left, hleft.symm⟩

theorem mem_one {p : γ → Bool} (h : rest ∈ one p text) : ∃ c, p c = true ∧ text = c :: rest := by
  cases text with
  | nil => cases h
  | cons c text =>
    simp only [one] at h
    split_ifs at h with hc
    · rw [List.mem_singleton.mp h]
      exact ⟨c, hc, rfl⟩
    · cases h

theorem consuming_one (p : γ → Bool) : Consuming (one p) := by
  intro text rest h
  obtain ⟨c, -, rfl⟩ := mem_one h
  exact Nat.lt_succ_self _

theorem local_one (p : γ → Bool) : Local (one p) where
  suffix text rest h := by
    obtain ⟨c, -, rfl⟩ := mem_one h
    exact List.suffix_cons c rest
  cut a b := by
    cases a with
    | nil => exact leaving_of_short fun rest h => consuming_one p b rest h
    | cons c a =>
      simp only [List.cons_append, one]
      split_ifs with hc
      · exact leaving_singleton a b
      · rfl

theorem Local.seq (hm : Local m) (hn : Local n) : Local (seq m n) where
  suffix text rest h := by
    obtain ⟨between, hbetween, hrest⟩ := List.mem_flatMap.mp h
    exact (hn.suffix _ _ hrest).trans (hm.suffix _ _ hbetween)
  cut a b := by
    have key : ∀ ways : List (List γ), (∀ rest ∈ ways, rest <:+ a ++ b) →
        leaving b (ways.flatMap n) = (leaving b ways).flatMap n := by
      intro ways hways
      induction ways with
      | nil => rfl
      | cons rest ways ih =>
        rw [List.flatMap_cons, leaving_append, ih (List.forall_mem_cons.mp hways).2,
          ← List.singleton_append, leaving_append, List.flatMap_append]
        congr 1
        by_cases hlength : b.length ≤ rest.length
        · obtain ⟨left, rfl⟩ := exists_eq_append (List.forall_mem_cons.mp hways).1 hlength
          rw [hn.cut, leaving_singleton, List.flatMap_singleton]
        · have hshort : leaving b [rest] = [] := leaving_of_short (by simpa using hlength)
          rw [hshort, List.flatMap_nil]
          apply leaving_of_short
          intro rest' hrest'
          have hle := (hn.suffix _ _ hrest').length_le
          omega
    unfold TextPatterns.seq
    rw [key _ (hm.suffix _), hm.cut]

theorem Local.maybe (hm : Local m) : Local (maybe m) where
  suffix text rest h := by
    rcases List.mem_append.mp h with h | h
    · exact hm.suffix _ _ h
    · rw [List.mem_singleton.mp h]
  cut a b := by
    unfold TextPatterns.maybe
    rw [leaving_append, hm.cut, leaving_singleton]

theorem Local.upTo (hm : Local m) (k : ℕ) : Local (upTo m k) := by
  induction k with
  | zero =>
    constructor
    · intro text rest h
      rw [List.mem_singleton.mp h]
    · exact fun a b => leaving_singleton a b
  | succ k ih => exact (hm.seq ih).maybe

theorem Consuming.nil (hm : Consuming m) : m [] = [] := by
  apply List.eq_nil_iff_forall_not_mem.mpr
  exact fun rest hrest => absurd (hm _ _ hrest) (Nat.not_lt_zero _)

/-- Further rounds find nothing where the text has ended. -/
theorem upTo_of_le (hm : Consuming m) {k : ℕ} (h : text.length ≤ k) :
    upTo m k text = many m text := by
  have key : ∀ i j (text : List γ), text.length ≤ i → text.length ≤ j →
      upTo m i text = upTo m j text := by
    intro i
    induction i with
    | zero =>
      intro j text hi _
      obtain rfl := List.length_eq_zero_iff.mp (Nat.le_zero.mp hi)
      cases j with
      | zero => rfl
      | succ j => simp [upTo, maybe, seq, hm.nil]
    | succ i ih =>
      intro j text hi hj
      cases j with
      | zero =>
        obtain rfl := List.length_eq_zero_iff.mp (Nat.le_zero.mp hj)
        simp [upTo, maybe, seq, hm.nil]
      | succ j =>
        have hrounds : ∀ rest ∈ m text, upTo m i rest = upTo m j rest := by
          intro rest hrest
          have hless := hm _ _ hrest
          exact ih j rest (by omega) (by omega)
        simp only [upTo, maybe, seq, List.flatMap_congr hrounds]
  exact key _ _ _ h le_rfl

theorem Local.many (hm : Local m) (hconsuming : Consuming m) : Local (many m) where
  suffix text rest h := (hm.upTo _).suffix _ _ h
  cut a b := by
    have hcut := (hm.upTo (a ++ b).length).cut a b
    rw [upTo_of_le hconsuming le_rfl, upTo_of_le hconsuming (by simp)] at hcut
    exact hcut

theorem Consuming.seq (hm : Consuming m) (hn : Local n) : Consuming (seq m n) := by
  intro text rest h
  obtain ⟨between, hbetween, hrest⟩ := List.mem_flatMap.mp h
  exact lt_of_le_of_lt (hn.suffix _ _ hrest).length_le (hm _ _ hbetween)

/-- Every match is made of characters that meet `p`. -/
def Within (p : γ → Bool) (m : Pattern γ) : Prop :=
  ∀ text rest, rest ∈ m text → ∃ word, text = word ++ rest ∧ ∀ c ∈ word, p c = true

variable {p q : γ → Bool}

theorem within_one (h : ∀ c, q c = true → p c = true) : Within p (one q) := by
  intro text rest hrest
  obtain ⟨c, hc, rfl⟩ := mem_one hrest
  exact ⟨[c], rfl, by simpa using h c hc⟩

theorem Within.seq (hm : Within p m) (hn : Within p n) : Within p (seq m n) := by
  intro text rest h
  obtain ⟨between, hbetween, hrest⟩ := List.mem_flatMap.mp h
  obtain ⟨first, rfl, hfirst⟩ := hm _ _ hbetween
  obtain ⟨second, rfl, hsecond⟩ := hn _ _ hrest
  refine ⟨first ++ second, (List.append_assoc _ _ _).symm, ?_⟩
  intro c hc
  rcases List.mem_append.mp hc with hc | hc
  · exact hfirst c hc
  · exact hsecond c hc

theorem Within.maybe (hm : Within p m) : Within p (maybe m) := by
  intro text rest h
  rcases List.mem_append.mp h with h | h
  · exact hm _ _ h
  · rw [List.mem_singleton.mp h]
    exact ⟨[], rfl, by simp⟩

theorem Within.upTo (hm : Within p m) (k : ℕ) : Within p (upTo m k) := by
  induction k with
  | zero =>
    intro text rest h
    rw [List.mem_singleton.mp h]
    exact ⟨[], rfl, by simp⟩
  | succ k ih => exact (hm.seq ih).maybe

theorem Within.many (hm : Within p m) : Within p (many m) := fun text => hm.upTo _ text

end Combinators

section Scan

/-- What a scan comes across: a character where nothing matches, or a match. -/
inductive Piece (γ : Type*)
  | char (c : γ)
  | found (matched : List γ)
  deriving DecidableEq

def Piece.text : Piece γ → List γ
  | .char c => [c]
  | .found matched => matched

def Piece.unmatched : Piece γ → List γ
  | .char c => [c]
  | .found _ => []

def texts (pieces : List (Piece γ)) : List γ := pieces.flatMap Piece.text

variable (m : Pattern γ)

def scanFrom : ℕ → List γ → List (Piece γ)
  | 0, _ => []
  | _ + 1, [] => []
  | k + 1, c :: text =>
    match (m (c :: text)).head? with
    | some rest => .found ((c :: text).take (text.length + 1 - rest.length)) :: scanFrom k rest
    | none => .char c :: scanFrom k text

def scan (text : List γ) : List (Piece γ) := scanFrom m text.length text

/-- A global `replace` of the matches by nothing. -/
def removeAll (text : List γ) : List γ := (scan m text).flatMap Piece.unmatched

/-- No match of the whole text lies across the place between the two parts. -/
def Boundary (a b : List γ) : Prop := ∃ before after, scan m (a ++ b) = before ++ after ∧
  texts before = a

variable {m} {a b c text rest matched : List γ} {pieces before after : List (Piece γ)}

theorem texts_append (before after : List (Piece γ)) :
    texts (before ++ after) = texts before ++ texts after := List.flatMap_append

theorem scanFrom_of_le (hm : Consuming m) {k : ℕ} (hk : text.length ≤ k) :
    scanFrom m k text = scan m text := by
  have key : ∀ i j (text : List γ), text.length ≤ i → text.length ≤ j →
      scanFrom m i text = scanFrom m j text := by
    intro i
    induction i with
    | zero =>
      intro j text hi _
      obtain rfl := List.length_eq_zero_iff.mp (Nat.le_zero.mp hi)
      cases j <;> rfl
    | succ i ih =>
      intro j text hi hj
      cases text with
      | nil => cases j <;> rfl
      | cons x text =>
        cases j with
        | zero => simp at hj
        | succ j =>
          simp only [List.length_cons, Nat.add_le_add_iff_right] at hi hj
          simp only [scanFrom]
          cases hhead : (m (x :: text)).head? with
          | none => simp only [ih j text hi hj]
          | some rest =>
            have hless := hm _ _ (List.mem_of_mem_head? hhead)
            rw [List.length_cons] at hless
            simp only [ih j rest (by omega) (by omega)]
  exact key _ _ _ hk le_rfl

@[simp] theorem scan_nil : scan m [] = [] := rfl

theorem scan_cons_of_none {x : γ} (h : m (x :: text) = []) :
    scan m (x :: text) = .char x :: scan m text := by
  simp only [scan, List.length_cons, scanFrom, h, List.head?_nil]

theorem scan_of_match (hm : Consuming m) (h : (m (matched ++ rest)).head? = some rest) :
    scan m (matched ++ rest) = .found matched :: scan m rest := by
  have hless := hm _ _ (List.mem_of_mem_head? h)
  generalize htext : matched ++ rest = text at h hless
  cases text with
  | nil => simp at hless
  | cons x text =>
    have htake : (x :: text).take (text.length + 1 - rest.length) = matched := by
      have hlength := congrArg List.length htext
      simp only [List.length_append, List.length_cons] at hlength
      rw [← htext, ← hlength]
      simp
    rw [List.length_cons] at hless
    simp only [scan, List.length_cons, scanFrom, h, htake, scanFrom_of_le hm
      (Nat.le_of_lt_succ hless)]

/-- How a text that is not empty is scanned. -/
theorem scan_cases (hm : Consuming m) (hlocal : Local m) (hne : text ≠ []) :
    (∃ x rest, text = x :: rest ∧ m text = [] ∧ scan m text = .char x :: scan m rest) ∨
    ∃ matched rest, text = matched ++ rest ∧ matched ≠ [] ∧ (m text).head? = some rest ∧
      scan m text = .found matched :: scan m rest := by
  cases hhead : (m text).head? with
  | none =>
    obtain ⟨x, rest, rfl⟩ := List.exists_cons_of_ne_nil hne
    have hnone := List.head?_eq_none_iff.mp hhead
    exact .inl ⟨x, rest, rfl, hnone, scan_cons_of_none hnone⟩
  | some rest =>
    have hmem := List.mem_of_mem_head? hhead
    obtain ⟨matched, rfl⟩ := hlocal.suffix _ _ hmem
    have hless := hm _ _ hmem
    refine .inr ⟨matched, rest, rfl, ?_, rfl, scan_of_match hm hhead⟩
    rintro rfl
    simp at hless

theorem Local.none (hlocal : Local m) (h : m (a ++ b) = []) : m a = [] := by
  rw [← hlocal.cut a b, h]
  rfl

theorem Local.head? (hlocal : Local m) (h : (m (a ++ b)).head? = some (rest ++ b)) :
    (m a).head? = some rest := by
  obtain ⟨ways, hways⟩ := List.head?_eq_some_iff.mp h
  rw [← hlocal.cut a b, hways, ← List.singleton_append, leaving_append, leaving_singleton]
  rfl

/-- Where a text ends at the end of a piece, the pieces before are those of any longer text. -/
theorem scan_append (hm : Consuming m) (hlocal : Local m)
    (h : scan m (a ++ (b ++ c)) = before ++ after) (ha : texts before = a) :
    scan m (a ++ b) = before ++ scan m b := by
  induction before generalizing a with
  | nil =>
    obtain rfl : [] = a := ha
    rfl
  | cons piece before ih =>
    have hne : a ++ (b ++ c) ≠ [] := by
      intro hnil
      rw [hnil] at h
      cases h
    have hwhole : a ++ (b ++ c) = (a ++ b) ++ c := (List.append_assoc _ _ _).symm
    rcases scan_cases hm hlocal hne with ⟨x, rest, htext, hnone, hscan⟩ |
      ⟨matched, rest, htext, -, hhead, hscan⟩
    · rw [hscan, List.cons_append] at h
      obtain ⟨rfl, hrest⟩ := List.cons.inj h
      obtain rfl : x :: texts before = a := ha
      obtain rfl := (List.cons.inj htext).2
      rw [hwhole] at hnone
      have hhere : m (x :: (texts before ++ b)) = [] := hlocal.none hnone
      change scan m (x :: (texts before ++ b)) = _
      rw [scan_cons_of_none hhere, ih hrest rfl, List.cons_append]
    · rw [hscan, List.cons_append] at h
      obtain ⟨rfl, hrest⟩ := List.cons.inj h
      obtain rfl : matched ++ texts before = a := ha
      rw [List.append_assoc] at htext
      obtain rfl := List.append_cancel_left htext
      rw [hwhole, ← List.append_assoc (texts before)] at hhead
      have hhere := hlocal.head? hhead
      rw [List.append_assoc] at hhere ⊢
      rw [scan_of_match hm hhere, ih hrest rfl, List.cons_append]

theorem texts_scan (hm : Consuming m) (hlocal : Local m) (text : List γ) :
    texts (scan m text) = text := by
  induction hlength : text.length using Nat.strong_induction_on generalizing text with
  | _ k ih =>
    by_cases hne : text = []
    · rw [hne]
      rfl
    · rcases scan_cases hm hlocal hne with ⟨x, rest, rfl, -, hscan⟩ |
        ⟨matched, rest, rfl, -, hhead, hscan⟩
      · rw [List.length_cons] at hlength
        have hrest := ih rest.length (by omega) rest rfl
        rw [hscan]
        exact congrArg (x :: ·) hrest
      · have hless := hm _ _ (List.mem_of_mem_head? hhead)
        rw [hlength] at hless
        have hrest := ih rest.length hless rest rfl
        rw [hscan]
        exact congrArg (matched ++ ·) hrest

/-- The pieces on either side of a boundary are those of the two parts. -/
theorem scan_of_split (hm : Consuming m) (hlocal : Local m)
    (h : scan m (a ++ b) = before ++ after) (ha : texts before = a) :
    before = scan m a ∧ after = scan m b := by
  have hleft := @scan_append _ m a [] b before after hm hlocal h ha
  have hright := @scan_append _ m a b [] before after hm hlocal (by rwa [List.append_nil]) ha
  rw [List.append_nil, scan_nil, List.append_nil] at hleft
  rw [h] at hright
  exact ⟨hleft.symm, List.append_cancel_left hright⟩

theorem Boundary.scan (hm : Consuming m) (hlocal : Local m) (h : Boundary m a b) :
    scan m (a ++ b) = scan m a ++ scan m b := by
  obtain ⟨before, after, hscan, ha⟩ := h
  obtain ⟨rfl, rfl⟩ := scan_of_split hm hlocal hscan ha
  exact hscan

theorem Boundary.removeAll (hm : Consuming m) (hlocal : Local m) (h : Boundary m a b) :
    removeAll m (a ++ b) = removeAll m a ++ removeAll m b := by
  unfold TextPatterns.removeAll
  rw [h.scan hm hlocal, List.flatMap_append]

/-- A place that is no boundary lies within a match. -/
theorem boundary_or_within (hm : Consuming m) (hlocal : Local m) (a b : List γ) :
    Boundary m a b ∨ ∃ before after u v, scan m (a ++ b) = before ++ .found (u ++ v) :: after ∧
      v ≠ [] ∧ a = texts before ++ u ∧ b = v ++ texts after := by
  have key : ∀ (pieces : List (Piece γ)) (a : List γ), texts pieces = a ++ b →
      (∃ before after, pieces = before ++ after ∧ texts before = a) ∨
      ∃ before after u v, pieces = before ++ .found (u ++ v) :: after ∧ v ≠ [] ∧
        a = texts before ++ u ∧ b = v ++ texts after := by
    intro pieces
    induction pieces with
    | nil =>
      intro a h
      obtain ⟨rfl, -⟩ := List.nil_eq_append_iff.mp h
      exact .inl ⟨[], [], rfl, rfl⟩
    | cons piece pieces ih =>
      intro a h
      rcases List.append_eq_append_iff.mp h with ⟨w, rfl, hrest⟩ | ⟨w, hpiece, hb⟩
      · rcases ih w hrest with ⟨before, after, rfl, rfl⟩ |
          ⟨before, after, u, v, rfl, hv, rfl, hb⟩
        · exact .inl ⟨piece :: before, after, rfl, rfl⟩
        · exact .inr ⟨piece :: before, after, u, v, rfl, hv, (List.append_assoc _ _ _).symm, hb⟩
      · by_cases ha : a = []
        · exact .inl ⟨[], piece :: pieces, rfl, ha.symm⟩
        · by_cases hw : w = []
          · rw [hw, List.append_nil] at hpiece
            exact .inl ⟨[piece], pieces, rfl, by rw [← hpiece]; exact List.append_nil _⟩
          · cases piece with
            | char x =>
              have hlength := congrArg List.length hpiece
              have hapos := List.length_pos_of_ne_nil ha
              have hwpos := List.length_pos_of_ne_nil hw
              simp only [Piece.text, List.length_append, List.length_cons,
                List.length_nil] at hlength
              omega
            | found matched =>
              obtain rfl : matched = a ++ w := hpiece
              exact .inr ⟨[], pieces, a, w, rfl, hw, rfl, hb⟩
  exact key _ a (texts_scan hm hlocal (a ++ b))

/-- Where nothing matches a scan passes by. -/
theorem scan_append_of_none {p : γ → Bool} (hnone : ∀ c text, p c = false → m (c :: text) = [])
    (ha : ∀ c ∈ a, p c = false) : scan m (a ++ b) = a.map .char ++ scan m b := by
  induction a with
  | nil => rfl
  | cons c a ih =>
    have hrest := ih (List.forall_mem_cons.mp ha).2
    have hhere := hnone c (a ++ b) (List.forall_mem_cons.mp ha).1
    rw [List.cons_append, scan_cons_of_none hhere, hrest]
    rfl

/-- A match starts with a character of `p`, and no other of its characters is one. -/
structure Opens (p : γ → Bool) (m : Pattern γ) : Prop where
  none : ∀ c text, p c = false → m (c :: text) = []
  rest : ∀ c text rest, rest ∈ m (c :: text) →
    ∃ word, text = word ++ rest ∧ ∀ c ∈ word, p c = false

/-- Where the place between two parts lies within a match, the second part keeps the rest of it. -/
theorem length_removeAll_lt {p : γ → Bool} (hm : Consuming m) (hlocal : Local m) (hp : Opens p m)
    (h : ¬Boundary m a b) :
    (removeAll m (a ++ b)).length < (removeAll m a).length + (removeAll m b).length := by
  obtain ⟨before, after, u, v, hscan, hv, rfl, rfl⟩ :=
    (boundary_or_within hm hlocal a b).resolve_left h
  have hu : u ≠ [] := by
    rintro rfl
    exact h ⟨before, _, hscan, by rw [List.append_nil]⟩
  rw [List.append_assoc] at hscan ⊢
  have hleft := scan_append hm hlocal hscan rfl
  have hmatch := (scan_of_split hm hlocal hscan rfl).2
  have hright : after = scan m (texts after) := by
    have hsplit : scan m ((texts before ++ (u ++ v)) ++ texts after) =
        (before ++ [.found (u ++ v)]) ++ after := by
      rw [List.append_assoc, List.append_assoc, hscan, List.append_assoc]
      rfl
    refine (scan_of_split hm hlocal hsplit ?_).2
    rw [texts_append]
    exact congrArg (texts before ++ ·) (List.append_nil _)
  have hclosed : ∀ c ∈ v, p c = false := by
    rw [← List.append_assoc] at hmatch
    rcases scan_cases hm hlocal (by simp [hu] : u ++ v ++ texts after ≠ []) with
      ⟨x, rest, -, -, hfirst⟩ | ⟨matched, rest, htext, -, hhead, hfirst⟩
    · rw [← hmatch] at hfirst
      cases hfirst
    · rw [← hmatch] at hfirst
      obtain rfl := Piece.found.inj (List.cons.inj hfirst).1
      obtain rfl := List.append_cancel_left htext
      obtain ⟨c, u, rfl⟩ := List.exists_cons_of_ne_nil hu
      obtain ⟨word, hword, hall⟩ := hp.rest c _ _ (List.mem_of_mem_head? hhead)
      obtain rfl := List.append_cancel_right hword
      exact fun x hx => hall x (List.mem_append_right _ hx)
  have hpassed := @scan_append_of_none _ m v (texts after) p hp.none hclosed
  have hkept : (v.map Piece.char).flatMap Piece.unmatched = v := by
    rw [List.flatMap_map]
    exact List.flatMap_singleton' v
  have hvpos := List.length_pos_of_ne_nil hv
  unfold removeAll
  rw [hscan, hleft, hpassed, ← hright, List.flatMap_append, List.flatMap_append,
    List.flatMap_append, hkept, List.flatMap_cons]
  simp only [List.length_append, Piece.unmatched, List.length_nil]
  omega

/-- The parts of a text make at least what the whole makes. -/
theorem length_removeAll_le {p : γ → Bool} (hm : Consuming m) (hlocal : Local m) (hp : Opens p m)
    (a b : List γ) :
    (removeAll m (a ++ b)).length ≤ (removeAll m a).length + (removeAll m b).length := by
  by_cases h : Boundary m a b
  · rw [h.removeAll hm hlocal, List.length_append]
  · exact le_of_lt (length_removeAll_lt hm hlocal hp h)

/-- Behind a boundary the boundaries are those of the rest. -/
theorem boundary_append_iff (hm : Consuming m) (hlocal : Local m) (h : Boundary m a (b ++ c)) :
    Boundary m (a ++ b) c ↔ Boundary m b c := by
  have hwhole := h.scan hm hlocal
  constructor
  · rintro ⟨before, after, hscan, htexts⟩
    rw [List.append_assoc, hwhole] at hscan
    rcases List.append_eq_append_iff.mp hscan with ⟨w, rfl, hw⟩ | ⟨w, ha, hw⟩
    · rw [texts_append, texts_scan hm hlocal] at htexts
      exact ⟨w, after, hw, List.append_cancel_left htexts⟩
    · have hlength : texts w = [] ∧ b = [] := by
        have htext := texts_scan hm hlocal a
        rw [ha, texts_append, htexts, List.append_assoc] at htext
        exact (List.append_eq_nil_iff.mp (List.append_right_eq_self.mp htext)).symm
      obtain ⟨-, rfl⟩ := hlength
      exact ⟨[], scan m ([] ++ c), rfl, rfl⟩
  · rintro ⟨before, after, hscan, rfl⟩
    refine ⟨scan m a ++ before, after, ?_, ?_⟩
    · rw [List.append_assoc, hwhole, hscan, List.append_assoc]
    · rw [texts_append, texts_scan hm hlocal]

end Scan

section Parts
variable (m : Pattern γ)

/-- No match of the whole lies across the end of a part. -/
def Whole (parts : List (List γ)) : Prop :=
  ∀ before after, parts = before ++ after → Boundary m before.flatten after.flatten

variable {m} {part : List γ} {parts before after : List (List γ)} {p : γ → Bool}

theorem whole_cons_iff (hm : Consuming m) (hlocal : Local m) :
    Whole m (part :: parts) ↔ Boundary m part parts.flatten ∧ Whole m parts := by
  constructor
  · intro h
    have hfirst : Boundary m part parts.flatten := by
      have hboundary := h [part] parts rfl
      rwa [List.flatten_singleton] at hboundary
    refine ⟨hfirst, ?_⟩
    rintro before after rfl
    rw [List.flatten_append] at hfirst
    exact (boundary_append_iff hm hlocal hfirst).mp (h (part :: before) after rfl)
  · rintro ⟨hfirst, hrest⟩ before after hsplit
    cases before with
    | nil =>
      obtain rfl : part :: parts = after := hsplit
      exact ⟨[], _, rfl, rfl⟩
    | cons part' before =>
      obtain rfl := (List.cons.inj hsplit).1
      have hparts : parts = before ++ after := (List.cons.inj hsplit).2
      rw [hparts, List.flatten_append] at hfirst
      exact (boundary_append_iff hm hlocal hfirst).mpr (hrest before after hparts)

theorem removeAll_of_whole (hm : Consuming m) (hlocal : Local m) (h : Whole m parts) :
    parts.flatMap (removeAll m) = removeAll m parts.flatten := by
  induction parts with
  | nil => rfl
  | cons part parts ih =>
    obtain ⟨hfirst, hrest⟩ := (whole_cons_iff hm hlocal).mp h
    rw [List.flatMap_cons, List.flatten_cons, hfirst.removeAll hm hlocal, ih hrest]

theorem length_flatMap_removeAll_le (hm : Consuming m) (hlocal : Local m) (hp : Opens p m)
    (parts : List (List γ)) :
    (removeAll m parts.flatten).length ≤ (parts.flatMap (removeAll m)).length := by
  induction parts with
  | nil => exact le_rfl
  | cons part parts ih =>
    have hfirst := length_removeAll_le hm hlocal hp part parts.flatten
    rw [List.flatten_cons, List.flatMap_cons, List.length_append]
    omega

theorem length_flatMap_removeAll_lt (hm : Consuming m) (hlocal : Local m) (hp : Opens p m)
    (h : ¬Whole m parts) :
    (removeAll m parts.flatten).length < (parts.flatMap (removeAll m)).length := by
  induction parts with
  | nil =>
    refine absurd ?_ h
    intro before after hsplit
    obtain ⟨rfl, rfl⟩ := List.nil_eq_append_iff.mp hsplit
    exact ⟨[], [], rfl, rfl⟩
  | cons part parts ih =>
    rw [whole_cons_iff hm hlocal, not_and_or] at h
    rw [List.flatten_cons, List.flatMap_cons, List.length_append]
    by_cases hfirst : Boundary m part parts.flatten
    · have hrest := ih (h.resolve_left (not_not_intro hfirst))
      rw [hfirst.removeAll hm hlocal, List.length_append]
      omega
    · have hcut := length_removeAll_lt hm hlocal hp hfirst
      have hrest := length_flatMap_removeAll_le hm hlocal hp parts
      omega

end Parts

end TextPatterns
