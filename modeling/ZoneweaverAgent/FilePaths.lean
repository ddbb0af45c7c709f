import Mathlib.Data.List.DropRight
import ZoneweaverAgent.PathTree

/-!
# Validating the paths of the file browser

A request is refused for a traversal, for a forbidden directory that its path begins with, or for a
forbidden pattern whose stars, read as `.*`, make a regular expression that finds a match in it.
The rules these tests stand for go by components: a `..` or a home directory, a directory that is
the path or contains it, a glob that covers the path or its file name. `RegExp` is a parameter.
-/

namespace ZoneweaverAgent.FilePaths

open PathTree

abbrev Text := List Char

section Resolve

/-- The components of a path, `.` and empty ones left out and `..` applied. -/
def components (path : Text) : List Text :=
  (path.splitOn '/').foldl (fun found piece =>
    if piece = [] ∨ piece = ['.'] then found
    else if piece = ['.', '.'] then found.dropLast
    else found ++ [piece]) []

def render (found : List Text) : Text :=
  if found = [] then ['/'] else found.flatMap fun piece => '/' :: piece

/-- `path.resolve`, in the working directory `cwd`. -/
def resolve (cwd path : Text) : Text :=
  render (components (if path.head? = some '/' then path else cwd ++ '/' :: path))

end Resolve

/-- `RegExp` of a pattern: a test, or the message of the error it throws. -/
abbrev RegExp := Text → Except String (Text → Bool)

structure Security where
  preventTraversal : Bool
  forbiddenPaths : List Text
  forbiddenPatterns : List Text

inductive Verdict
  | valid (normalizedPath : Text)
  | invalid (error : String)
  deriving DecidableEq

section Validate
variable (regExp : RegExp) (cwd : Text) (security : Security)

/-- `filePath.includes('..') || filePath.includes('~')` -/
def mentionsTraversal (filePath : Text) : Bool :=
  ['.', '.'] <:+: filePath || filePath.contains '~'

/-- `pattern.replace(/\*/g, '.*')` -/
def expandStars (pattern : Text) : Text := pattern.flatMap fun c => if c = '*' then ['.', '*'] else [c]

/-- The first pattern that matches. -/
def matchingPattern (path : Text) : List Text → Except String (Option Text)
  | [] => .ok none
  | pattern :: patterns => do
    let test ← regExp (expandStars pattern)
    if test path then return some pattern else matchingPattern path patterns

/-- `enabled` is that of the file browser. -/
def validatePath (enabled : Bool) (filePath : Text) : Verdict :=
  if !enabled then .invalid "File browser is disabled"
  else
    let normalizedPath := resolve cwd filePath
    if security.preventTraversal && mentionsTraversal filePath then
      .invalid "Directory traversal not allowed"
    else
      match security.forbiddenPaths.find? (·.isPrefixOf normalizedPath) with
      | some forbiddenPath =>
        .invalid ("Access to " ++ String.ofList forbiddenPath ++ " is forbidden")
      | none =>
        match matchingPattern regExp normalizedPath security.forbiddenPatterns with
        | .error message => .invalid ("Path validation error: " ++ message)
        | .ok (some pattern) =>
          .invalid ("Path matches forbidden pattern: " ++ String.ofList pattern)
        | .ok none => .valid normalizedPath

end Validate

section Rules
variable (security : Security) (filePath path : Text)

/-- A component `..`, or one that names a home directory. -/
def Traverses : Prop :=
  ∃ piece ∈ filePath.splitOn '/', piece = ['.', '.'] ∨ piece.head? = some '~'

instance : Decidable (Traverses filePath) := inferInstanceAs (Decidable (∃ piece ∈ _, _))

/-- The path is the directory or lies in it; slashes at the end of a directory mean nothing. -/
def Inside (directory : Text) : Prop := AtOrBelow '/' (directory.rdropWhile (· = '/')) path

instance (directory : Text) : Decidable (Inside path directory) :=
  inferInstanceAs (Decidable (AtOrBelow _ _ _))

/-- A star stands for any run of characters, every other character for itself. -/
def globMatches : Text → Text → Bool
  | [], text => text.isEmpty
  | c :: pattern, text =>
    if c = '*' then text.tails.any fun rest => globMatches pattern rest
    else
      match text with
      | [] => false
      | d :: text => c = d && globMatches pattern text

def fileName : Text := path.rtakeWhile (· ≠ '/')

/-- The glob covers the whole path or the whole file name. -/
def Covers (pattern : Text) : Prop :=
  globMatches pattern path = true ∨ globMatches pattern (fileName path) = true

/-- What a request is to be refused for. -/
inductive Broken : Prop
  | traversal (hon : security.preventTraversal = true) (h : Traverses filePath)
  | directory {directory : Text} (hmem : directory ∈ security.forbiddenPaths)
      (h : Inside path directory)
  | pattern {pattern : Text} (hmem : pattern ∈ security.forbiddenPatterns) (h : Covers path pattern)

end Rules

section Tests
variable (regExp : RegExp) (security : Security) (filePath path : Text)

def Finds (pattern : Text) : Prop := ∀ test, regExp (expandStars pattern) = .ok test → test path = true

/-- What a request is refused for; a pattern that is no regular expression refuses every path. -/
inductive Fires : Prop
  | traversal (hon : security.preventTraversal = true) (h : mentionsTraversal filePath = true)
  | directory {directory : Text} (hmem : directory ∈ security.forbiddenPaths)
      (h : directory <+: path)
  | pattern {pattern : Text} (hmem : pattern ∈ security.forbiddenPatterns)
      (h : Finds regExp path pattern)

/-- The characters of a pattern, besides the star and the dot, mean themselves in it. -/
def Simple (pattern : Text) : Prop :=
  ∀ c ∈ pattern, c ∉ ['\\', '^', '$', '+', '?', '(', ')', '[', ']', '\x7b', '\x7d', '|']

/-- What `.` does not match. -/
def endsLine (c : Char) : Bool :=
  c = '\n' || c = '\r' || c = Char.ofNat 0x2028 || c = Char.ofNat 0x2029

/-- The regular expression of a simple pattern, tied to the start of a text. -/
def matchesHere : Text → Text → Bool
  | [], _ => true
  | c :: pattern, text =>
    if c = '*' then (List.range (text.length + 1)).any fun n =>
      (text.take n).all (!endsLine ·) && matchesHere pattern (text.drop n)
    else
      match text with
      | [] => false
      | d :: text => (c = d || c = '.' && !endsLine d) && matchesHere pattern text

/-- `RegExp` finds a simple pattern anywhere in a text. -/
def Lawful : Prop := ∀ pattern, Simple pattern → ∃ test, regExp (expandStars pattern) = .ok test ∧
  ∀ text, test text = text.tails.any (matchesHere pattern)

/-- Directories without a slash at the end, simple patterns and a path of one line. -/
structure PlainLists : Prop where
  directory : ∀ directory ∈ security.forbiddenPaths, directory.getLast? ≠ some '/'
  pattern : ∀ pattern ∈ security.forbiddenPatterns, Simple pattern
  path : ∀ c ∈ path, endsLine c = false

end Tests

section Accepted
variable {regExp : RegExp} {cwd : Text} {security : Security} {filePath path : Text}

theorem matchingPattern_eq_none {patterns : List Text} :
    matchingPattern regExp path patterns = .ok none ↔
      ∀ pattern ∈ patterns, ¬Finds regExp path pattern := by
  induction patterns with
  | nil => simp [matchingPattern]
  | cons pattern patterns ih =>
    rw [List.forall_mem_cons, ← ih, matchingPattern, Finds]
    cases htest : regExp (expandStars pattern) with
    | error message => simp [bind, Except.bind]
    | ok test => cases hpath : test path <;> simp [bind, Except.bind, pure, Except.pure, hpath]

/-- A path is accepted where no test fires, and the tests were made on it. -/
theorem validatePath_eq_valid :
    validatePath regExp cwd security true filePath = .valid path ↔
      path = resolve cwd filePath ∧ ¬Fires regExp security filePath (resolve cwd filePath) := by
  have hfires : ¬Fires regExp security filePath (resolve cwd filePath) ↔
      ¬(security.preventTraversal && mentionsTraversal filePath) = true ∧
        (∀ directory ∈ security.forbiddenPaths, ¬directory <+: resolve cwd filePath) ∧
        ∀ pattern ∈ security.forbiddenPatterns, ¬Finds regExp (resolve cwd filePath) pattern := by
    constructor
    · intro h
      refine ⟨fun hon => ?_, fun d hd hprefix => h (.directory hd hprefix),
        fun p hp hfinds => h (.pattern hp hfinds)⟩
      rw [Bool.and_eq_true] at hon
      exact h (.traversal hon.1 hon.2)
    · rintro ⟨htraversal, hdirectory, hpattern⟩ (⟨hon, h⟩ | ⟨hmem, h⟩ | ⟨hmem, h⟩)
      · exact htraversal (by rw [hon, h]; rfl)
      · exact hdirectory _ hmem h
      · exact hpattern _ hmem h
  rw [hfires, ← matchingPattern_eq_none, validatePath, Bool.not_true, if_neg Bool.false_ne_true]
  by_cases htraversal : (security.preventTraversal && mentionsTraversal filePath) = true
  · rw [if_pos htraversal]
    exact iff_of_false nofun fun h => h.2.1 htraversal
  · rw [if_neg htraversal]
    cases hfind : security.forbiddenPaths.find? (·.isPrefixOf (resolve cwd filePath)) with
    | some directory =>
      refine iff_of_false nofun fun h => h.2.2.1 directory (List.mem_of_find?_eq_some hfind) ?_
      have hprefix := List.find?_some hfind
      exact List.isPrefixOf_iff_prefix.mp hprefix
    | none =>
      have hdirectory : ∀ d ∈ security.forbiddenPaths, ¬d <+: resolve cwd filePath :=
        fun d hd hprefix => absurd (List.isPrefixOf_iff_prefix.mpr hprefix)
          (List.find?_eq_none.mp hfind d hd)
      cases hmatch : matchingPattern regExp (resolve cwd filePath) security.forbiddenPatterns with
      | error message => exact iff_of_false nofun fun h => nomatch h.2.2.2
      | ok found =>
        cases found with
        | some pattern => exact iff_of_false nofun fun h => nomatch h.2.2.2
        | none =>
          constructor
          · intro h
            cases h
            exact ⟨rfl, htraversal, hdirectory, rfl⟩
          · rintro ⟨rfl, -⟩
            rfl

/-- A traversing request mentions what the test looks for. -/
theorem mentionsTraversal_of_traverses (h : Traverses filePath) :
    mentionsTraversal filePath = true := by
  have hinfix : ∀ pieces : List Text, ∀ piece ∈ pieces, piece <:+: ['/'].intercalate pieces := by
    intro pieces
    induction pieces with
    | nil => simp
    | cons first pieces ih =>
      intro piece hpiece
      by_cases hne : pieces = []
      · subst hne
        rw [List.mem_singleton.mp hpiece, List.intercalate_singleton]
      · rw [List.intercalate_cons_of_ne_nil hne, List.append_assoc]
        rcases List.mem_cons.mp hpiece with rfl | hpiece
        · exact (List.prefix_append _ _).isInfix
        · exact (ih piece hpiece).trans
            ((List.suffix_append _ _).trans (List.suffix_append _ _)).isInfix
  obtain ⟨piece, hpiece, h⟩ := h
  have hpart := hinfix _ piece hpiece
  rw [List.intercalate_splitOn] at hpart
  rw [mentionsTraversal, Bool.or_eq_true, decide_eq_true_iff, List.contains_iff_mem]
  rcases h with rfl | h
  · exact .inl hpart
  · exact .inr (hpart.subset (List.mem_of_head? h))

/-- Every test answers what its rule says. -/
structure Agrees (regExp : RegExp) (security : Security) (filePath path : Text) : Prop where
  traversal : security.preventTraversal = true → mentionsTraversal filePath = true →
    Traverses filePath
  directory : ∀ directory ∈ security.forbiddenPaths, directory <+: path ↔ Inside path directory
  pattern : ∀ pattern ∈ security.forbiddenPatterns, Finds regExp path pattern ↔ Covers path pattern

theorem Agrees.fires_iff (h : Agrees regExp security filePath path) :
    Fires regExp security filePath path ↔ Broken security filePath path := by
  constructor
  · rintro (⟨hon, hmentions⟩ | ⟨hmem, hprefix⟩ | ⟨hmem, hfinds⟩)
    · exact .traversal hon (h.traversal hon hmentions)
    · exact .directory hmem ((h.directory _ hmem).mp hprefix)
    · exact .pattern hmem ((h.pattern _ hmem).mp hfinds)
  · rintro (⟨hon, htraverses⟩ | ⟨hmem, hinside⟩ | ⟨hmem, hcovers⟩)
    · exact .traversal hon (mentionsTraversal_of_traverses htraverses)
    · exact .directory hmem ((h.directory _ hmem).mpr hinside)
    · exact .pattern hmem ((h.pattern _ hmem).mpr hcovers)

theorem agrees_of_none (hfires : ¬Fires regExp security filePath path)
    (hbroken : ¬Broken security filePath path) : Agrees regExp security filePath path where
  traversal hon h := absurd (.traversal hon h) hfires
  directory _ hmem :=
    iff_of_false (fun h => hfires (.directory hmem h)) fun h => hbroken (.directory hmem h)
  pattern _ hmem :=
    iff_of_false (fun h => hfires (.pattern hmem h)) fun h => hbroken (.pattern hmem h)

theorem matchesHere_of_globMatches {pattern text : Text} (htext : ∀ c ∈ text, endsLine c = false)
    (h : globMatches pattern text = true) : matchesHere pattern text = true := by
  induction pattern generalizing text with
  | nil => rfl
  | cons c pattern ih =>
    unfold globMatches at h
    unfold matchesHere
    by_cases hc : c = '*'
    · rw [if_pos hc, List.any_eq_true] at h
      rw [if_pos hc, List.any_eq_true]
      obtain ⟨rest, hrest, h⟩ := h
      obtain ⟨taken, rfl⟩ := (List.mem_tails _ _).mp hrest
      refine ⟨taken.length, ?_, ?_⟩
      · rw [List.mem_range, List.length_append]
        omega
      · have hmatch := ih (fun d hd => htext d (List.mem_append_right _ hd)) h
        have htaken : ∀ d ∈ taken, endsLine d = false :=
          fun d hd => htext d (List.mem_append_left _ hd)
        simpa [hmatch] using htaken
    · rw [if_neg hc] at h ⊢
      cases text with
      | nil => exact h
      | cons d text =>
        rw [Bool.and_eq_true, decide_eq_true_iff] at h
        obtain ⟨rfl, h⟩ := h
        simp [ih (fun e he => htext e (List.mem_cons_of_mem _ he)) h]

/-- With plain lists a test fires for every broken rule: nothing forbidden is accepted. -/
theorem fires_of_broken (hlawful : Lawful regExp) (hplain : PlainLists security path)
    (h : Broken security filePath path) : Fires regExp security filePath path := by
  obtain ⟨hon, htraverses⟩ | ⟨hmem, hinside⟩ | ⟨hmem, hcovers⟩ := h
  · exact .traversal hon (mentionsTraversal_of_traverses htraverses)
  · rename_i directory
    have hsame : directory.rdropWhile (· = '/') = directory := by
      rw [List.rdropWhile_eq_self_iff]
      intro hne hslash
      apply hplain.directory directory hmem
      rw [List.getLast?_eq_some_getLast hne, of_decide_eq_true hslash]
    rw [Inside, hsame] at hinside
    exact .directory hmem hinside.isPrefix
  · rename_i pattern
    obtain ⟨test, htest, hsearch⟩ := hlawful pattern (hplain.pattern pattern hmem)
    refine .pattern hmem fun test' htest' => ?_
    obtain rfl := Except.ok.inj (htest.symm.trans htest')
    rw [hsearch, List.any_eq_true]
    rcases hcovers with h | h
    · exact ⟨path, (List.mem_tails _ _).mpr List.suffix_rfl, matchesHere_of_globMatches hplain.path h⟩
    · have hsuffix : fileName path <:+ path := List.rtakeWhile_suffix _ _
      exact ⟨fileName path, (List.mem_tails _ _).mpr hsuffix,
        matchesHere_of_globMatches (fun c hc => hplain.path c (hsuffix.subset hc)) h⟩

/-- With plain lists only a refusal can be wrong. -/
theorem confined_iff_of_plain (hlawful : Lawful regExp)
    (hplain : PlainLists security (resolve cwd filePath)) :
    (∀ path, validatePath regExp cwd security true filePath = .valid path ↔
        path = resolve cwd filePath ∧ ¬Broken security filePath (resolve cwd filePath)) ↔
      (Fires regExp security filePath (resolve cwd filePath) →
        Broken security filePath (resolve cwd filePath)) := by
  have hbroken : Broken security filePath (resolve cwd filePath) →
      Fires regExp security filePath (resolve cwd filePath) := fires_of_broken hlawful hplain
  simp only [validatePath_eq_valid]
  constructor
  · intro h hfires
    by_contra hnot
    exact ((h _).mpr ⟨rfl, hnot⟩).2 hfires
  · intro h path
    exact and_congr_right fun _ => not_congr ⟨h, hbroken⟩

end Accepted

end ZoneweaverAgent.FilePaths
