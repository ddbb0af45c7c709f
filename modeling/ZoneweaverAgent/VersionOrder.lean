import Mathlib.Algebra.Order.Ring.Int
import Mathlib.Data.List.SplitOn
import Mathlib.Data.String.Basic
import ZoneweaverAgent.Comparators
import ZoneweaverAgent.JsonValue

/-!
# The order of package versions

`compareVersions` compares two segments as numbers where both are integers in their usual spelling,
and as texts otherwise. `readCollection` sorts the versions of a package with it, the newest first.
`Number`, the text of a number and `localeCompare` are parameters.
-/

namespace ZoneweaverAgent.VersionOrder

open Comparators

structure Numbers where
  /-- `Number(segment)`, where that is an integer. -/
  number : String → Option ℤ
  text : ℤ → String

section Definitions
variable (numbers : Numbers) (localeCompare : String → String → ℤ)

/-- The number a segment is the text of. -/
def canonical (segment : String) : Option ℤ :=
  (numbers.number segment).filter fun n => numbers.text n = segment

def isSeparator (c : Char) : Bool := c == '.' || c == '-'

/-- `String(s).split(/[.-]/u)` -/
def segments (version : String) : List String :=
  (version.toList.splitOnP isSeparator).map String.ofList

def compareSegments : Comparator String := fun a b =>
  match canonical numbers a, canonical numbers b with
  | some an, some bn => if an = bn then 0 else if an < bn then -1 else 1
  | _, _ => localeCompare a b

def compareVersions (a b : String) : ℤ :=
  lex (compareSegments numbers localeCompare) (segments a) (segments b)

/-- An entry of the directory of a package, with what its manifest reads as, if it can be read. -/
structure Dirent where
  name : String
  isDirectory : Bool
  manifest : Option Json

structure VersionEntry where
  version : String
  dir : String
  name : String
  description : String
  metadata : Json
  deriving DecidableEq

/-- `/^[A-Za-z0-9][A-Za-z0-9._-]{0,127}$/u` -/
def isValidPackageName (name : String) : Bool :=
  match name.toList with
  | [] => false
  | first :: rest =>
    first.isAlphanum && rest.length ≤ 127 &&
      rest.all fun c => c.isAlphanum || c == '.' || c == '_' || c == '-'

def metaString (doc : Json) (key : String) : String := ((doc.field key).bind Json.text?).getD ""

def versionEntry (entry : Dirent) : Option VersionEntry :=
  if entry.isDirectory && isValidPackageName entry.name then
    (entry.manifest.filter Json.isObject).map fun versionDoc =>
      { version := if metaString versionDoc "version" = "" then entry.name
          else metaString versionDoc "version"
        dir := entry.name
        name := metaString versionDoc "name"
        description := metaString versionDoc "description"
        metadata := versionDoc }
  else none

def entries (listing : List Dirent) : List VersionEntry := listing.filterMap versionEntry

/-- `collection.versions`, of a directory that is listed in this order. -/
def readVersions (listing : List Dirent) : List VersionEntry :=
  sortBy (fun x y => compareVersions numbers localeCompare y.version x.version) (entries listing)

/-- The comparison is a total preorder of the versions, and so the list of versions is one and the
same for every order of the directory, a greatest version first. -/
structure OrderConsistent (listing : List Dirent) : Prop where
  antisymmetric : ∀ a b, compareVersions numbers localeCompare a b < 0 ↔
    0 < compareVersions numbers localeCompare b a
  transitive : ∀ a ∈ entries listing, ∀ b ∈ entries listing, ∀ c ∈ entries listing,
    compareVersions numbers localeCompare a.version b.version ≤ 0 →
    compareVersions numbers localeCompare b.version c.version ≤ 0 →
      compareVersions numbers localeCompare a.version c.version ≤ 0
  alike : ∀ a b, compareVersions numbers localeCompare a b = 0 → ∀ c,
    compareVersions numbers localeCompare a c = compareVersions numbers localeCompare b c
  independent : ∀ listing' : List Dirent, listing'.Perm listing →
    readVersions numbers localeCompare listing' = readVersions numbers localeCompare listing
  greatest : ∀ first ∈ (readVersions numbers localeCompare listing).head?,
    ∀ x ∈ entries listing, compareVersions numbers localeCompare x.version first.version ≤ 0

/-- Two integers between which, as texts, a third segment stands the other way round. -/
structure MixedSegments (i j s : String) : Prop where
  numeric : ∃ m n, canonical numbers i = some m ∧ canonical numbers j = some n ∧ m < n
  text : canonical numbers s = none
  between : localeCompare j s < 0 ∧ localeCompare s i < 0

/-- Three versions that first differ, all at once, in such segments. -/
def Mixed (x y z : String) : Prop :=
  ∃ common i j s x' y' z', segments x = common ++ i :: x' ∧ segments y = common ++ j :: y' ∧
    segments z = common ++ s :: z' ∧ MixedSegments numbers localeCompare i j s

/-- No three versions are mixed, and no two are spelled alike but for their separators. -/
structure Unmixed (listing : List Dirent) : Prop where
  unmixed : ∀ x ∈ entries listing, ∀ y ∈ entries listing, ∀ z ∈ entries listing,
    ¬Mixed numbers localeCompare x.version y.version z.version
  distinct : ((entries listing).map fun x => segments x.version).Nodup

end Definitions

/-- `localeCompare` is a total order. -/
structure TotalOrder (localeCompare : String → String → ℤ) : Prop extends Lawful localeCompare where
  trans : ∀ a b c, localeCompare a b < 0 → localeCompare b c < 0 → localeCompare a c < 0

theorem TotalOrder.le_trans {localeCompare : String → String → ℤ} (h : TotalOrder localeCompare)
    {a b c : String} (hab : localeCompare a b ≤ 0) (hbc : localeCompare b c ≤ 0) :
    localeCompare a c ≤ 0 := by
  rcases lt_or_eq_of_le hab with hab | hab
  · rcases lt_or_eq_of_le hbc with hbc | hbc
    · exact le_of_lt (h.trans _ _ _ hab hbc)
    · exact (h.zero _ _).mp hbc ▸ le_of_lt hab
  · exact (h.zero _ _).mp hab ▸ hbc

theorem TotalOrder.antisymm {localeCompare : String → String → ℤ} (h : TotalOrder localeCompare)
    {a b : String} (hab : localeCompare a b ≤ 0) (hba : localeCompare b a ≤ 0) : a = b := by
  apply (h.zero a b).mp
  have := h.swap a b
  omega

section Segments
variable {numbers : Numbers} {localeCompare : String → String → ℤ} {a b c : String}

theorem canonical_inj {n : ℤ} (ha : canonical numbers a = some n)
    (hb : canonical numbers b = some n) : a = b := by
  unfold canonical at ha hb
  rw [Option.filter_eq_some_iff] at ha hb
  have hta : numbers.text n = a := by simpa using ha.2
  have htb : numbers.text n = b := by simpa using hb.2
  rw [← hta, htb]

theorem compareSegments_of_numeric {m n : ℤ} (ha : canonical numbers a = some m)
    (hb : canonical numbers b = some n) :
    compareSegments numbers localeCompare a b = if m = n then 0 else if m < n then -1 else 1 := by
  simp only [compareSegments, ha, hb]

theorem compareSegments_of_text_left (ha : canonical numbers a = none) :
    compareSegments numbers localeCompare a b = localeCompare a b := by
  simp only [compareSegments, ha]

theorem compareSegments_of_text_right (hb : canonical numbers b = none) :
    compareSegments numbers localeCompare a b = localeCompare a b := by
  unfold compareSegments
  rw [hb]
  cases canonical numbers a <;> rfl

theorem lawful_compareSegments (h : TotalOrder localeCompare) :
    Lawful (compareSegments numbers localeCompare) where
  swap a b := by
    cases ha : canonical numbers a with
    | none =>
      rw [compareSegments_of_text_left ha, compareSegments_of_text_right ha]
      exact h.swap a b
    | some m =>
      cases hb : canonical numbers b with
      | none =>
        rw [compareSegments_of_text_right hb, compareSegments_of_text_left hb]
        exact h.swap a b
      | some n =>
        rw [compareSegments_of_numeric ha hb, compareSegments_of_numeric hb ha]
        split_ifs <;> omega
  zero a b := by
    cases ha : canonical numbers a with
    | none =>
      rw [compareSegments_of_text_left ha]
      exact h.zero a b
    | some m =>
      cases hb : canonical numbers b with
      | none =>
        rw [compareSegments_of_text_right hb]
        exact h.zero a b
      | some n =>
        rw [compareSegments_of_numeric ha hb]
        constructor
        · intro hzero
          have hmn : m = n := by
            by_contra hne
            rw [if_neg hne] at hzero
            split_ifs at hzero <;> omega
          exact canonical_inj (hmn ▸ ha) hb
        · rintro rfl
          rw [ha] at hb
          rw [if_pos (Option.some.inj hb)]

theorem MixedSegments.cycle {i j s : String} (h : MixedSegments numbers localeCompare i j s) :
    Cycle (compareSegments numbers localeCompare) i j s := by
  obtain ⟨⟨m, n, hi, hj, hmn⟩, hs, hjs, hsi⟩ := h
  refine ⟨?_, ?_, ?_⟩
  · rw [compareSegments_of_numeric hi hj, if_neg (by omega), if_pos hmn]
    omega
  · rwa [compareSegments_of_text_right hs]
  · rwa [compareSegments_of_text_left hs]

/-- Three segments run in a cycle only if two of them are integers. -/
theorem mixed_of_cycle (h : TotalOrder localeCompare)
    (hcycle : Cycle (compareSegments numbers localeCompare) a b c) :
    MixedSegments numbers localeCompare a b c ∨ MixedSegments numbers localeCompare b c a ∨
      MixedSegments numbers localeCompare c a b := by
  obtain ⟨hab, hbc, hca⟩ := hcycle
  have hless : ∀ {x y : String} {m n : ℤ}, canonical numbers x = some m →
      canonical numbers y = some n → compareSegments numbers localeCompare x y < 0 → m < n := by
    intro x y m n hx hy hxy
    rw [compareSegments_of_numeric hx hy] at hxy
    split_ifs at hxy <;> omega
  cases ha : canonical numbers a with
  | none =>
    rw [compareSegments_of_text_left ha] at hab
    rw [compareSegments_of_text_right ha] at hca
    cases hb : canonical numbers b with
    | none =>
      rw [compareSegments_of_text_left hb] at hbc
      exact absurd (h.trans _ _ _ hab hbc) (h.toLawful.asymm hca)
    | some n =>
      cases hc : canonical numbers c with
      | none =>
        rw [compareSegments_of_text_right hc] at hbc
        exact absurd (h.trans _ _ _ hab hbc) (h.toLawful.asymm hca)
      | some p => exact .inr (.inl ⟨⟨n, p, hb, hc, hless hb hc hbc⟩, ha, hca, hab⟩)
  | some m =>
    cases hb : canonical numbers b with
    | none =>
      rw [compareSegments_of_text_right hb] at hab
      rw [compareSegments_of_text_left hb] at hbc
      cases hc : canonical numbers c with
      | none =>
        rw [compareSegments_of_text_left hc] at hca
        exact absurd (h.trans _ _ _ hab hbc) (h.toLawful.asymm hca)
      | some p => exact .inr (.inr ⟨⟨p, m, hc, ha, hless hc ha hca⟩, hb, hab, hbc⟩)
    | some n =>
      cases hc : canonical numbers c with
      | none =>
        rw [compareSegments_of_text_right hc] at hbc
        rw [compareSegments_of_text_left hc] at hca
        exact .inl ⟨⟨m, n, ha, hb, hless ha hb hab⟩, hc, hbc, hca⟩
      | some p =>
        have h₁ := hless ha hb hab
        have h₂ := hless hb hc hbc
        have h₃ := hless hc ha hca
        omega

end Segments

section Versions
variable {numbers : Numbers} {localeCompare : String → String → ℤ} {listing : List Dirent}
  (h : TotalOrder localeCompare)
include h

theorem lawful_lex_segments : Lawful (lex (compareSegments numbers localeCompare)) :=
  lawful_lex (lawful_compareSegments h)

/-- The versions of a directory run in no cycle exactly where no three of them are mixed. -/
theorem transitive_iff (l : List VersionEntry) :
    TransitiveOn (comap (fun x : VersionEntry => segments x.version)
        (lex (compareSegments numbers localeCompare))) l ↔
      ∀ x ∈ l, ∀ y ∈ l, ∀ z ∈ l, ¬Mixed numbers localeCompare x.version y.version z.version := by
  rw [(lawful_lex_segments h).transitiveOn_iff]
  constructor
  · rintro hcycle x hx y hy z hz ⟨common, i, j, s, x', y', z', hxs, hys, hzs, hmixed⟩
    apply hcycle x hx y hy z hz
    exact (lex_cycle_iff (lawful_compareSegments h)).mpr
      ⟨common, i, j, s, x', y', z', hxs, hys, hzs, hmixed.cycle⟩
  · intro hmixed x hx y hy z hz hcycle
    obtain ⟨common, a, b, c, x', y', z', hxs, hys, hzs, hsegments⟩ :=
      (lex_cycle_iff (lawful_compareSegments h)).mp hcycle
    rcases mixed_of_cycle h hsegments with habc | hbca | hcab
    · exact hmixed x hx y hy z hz ⟨common, a, b, c, x', y', z', hxs, hys, hzs, habc⟩
    · exact hmixed y hy z hz x hx ⟨common, b, c, a, y', z', x', hys, hzs, hxs, hbca⟩
    · exact hmixed z hz x hx y hy ⟨common, c, a, b, z', x', y', hzs, hxs, hys, hcab⟩

theorem compareVersions_eq_zero {a b : String} :
    compareVersions numbers localeCompare a b = 0 ↔ segments a = segments b :=
  (lawful_lex_segments h).zero _ _

omit h in
theorem dirs_entries (listing : List Dirent) :
    ((entries listing).map VersionEntry.dir).Sublist (listing.map Dirent.name) := by
  unfold entries
  induction listing with
  | nil => exact List.Sublist.slnil
  | cons entry rest ih =>
    cases hentry : versionEntry entry with
    | none =>
      rw [List.filterMap_cons_none hentry]
      exact ih.trans (List.sublist_cons_self _ _)
    | some x =>
      have hdir : x.dir = entry.name := by
        unfold versionEntry at hentry
        split_ifs at hentry
        obtain ⟨doc, -, rfl⟩ := Option.map_eq_some_iff.mp hentry
        rfl
      rw [List.filterMap_cons_some hentry, List.map_cons, List.map_cons, hdir]
      exact ih.cons_cons _

/-- Two versions spelled alike stand in the order of the directory. -/
theorem distinct_of_independent (hdirs : (listing.map Dirent.name).Nodup)
    (htrans : ∀ l : List VersionEntry, (∀ x ∈ l, x ∈ entries listing) →
      TransitiveOn (fun x y : VersionEntry =>
        compareVersions numbers localeCompare y.version x.version) l)
    (hsame : readVersions numbers localeCompare listing.reverse =
      readVersions numbers localeCompare listing) :
    ((entries listing).map fun x => segments x.version).Nodup := by
  have hnodup : (entries listing).Nodup :=
    List.Nodup.of_map _ (hdirs.sublist (dirs_entries listing))
  have hswap : ∀ x y : VersionEntry, compareVersions numbers localeCompare y.version x.version < 0 ↔
      0 < compareVersions numbers localeCompare x.version y.version :=
    fun x y => (lawful_lex_segments h).swap _ _
  have hreverse : entries listing.reverse = (entries listing).reverse := List.filterMap_reverse
  rw [List.Nodup, List.pairwise_map]
  by_contra hpair
  obtain ⟨x, y, hxy, hsegments⟩ : ∃ x y, [x, y].Sublist (entries listing) ∧
      segments x.version = segments y.version := by
    rw [List.pairwise_iff_forall_sublist] at hpair
    push Not at hpair
    obtain ⟨x, y, hxy, heq⟩ := hpair
    exact ⟨x, y, hxy, heq⟩
  have hne : x ≠ y := by
    have := hnodup.sublist hxy
    simpa using this
  have hforth : [x, y].Sublist (readVersions numbers localeCompare listing) :=
    pair_sublist_sortBy hswap (htrans _ fun _ hx => hx)
      (le_of_eq ((compareVersions_eq_zero h).mpr hsegments.symm)) hxy
  have hback : [y, x].Sublist (readVersions numbers localeCompare listing.reverse) := by
    apply pair_sublist_sortBy hswap (htrans _ fun z hz => by rw [hreverse] at hz; simpa using hz)
      (le_of_eq ((compareVersions_eq_zero h).mpr hsegments))
    rw [hreverse]
    simpa using hxy.reverse
  rw [hsame] at hback
  have hsorted : (readVersions numbers localeCompare listing).Nodup :=
    (sortBy_perm _).nodup_iff.mpr hnodup
  exact hne (eq_of_pair_sublists hsorted hforth hback)

end Versions

/-- For every package directory, the versions are in a consistent order exactly where no integers
and other segments are mixed and no two versions are spelled alike. -/
theorem order_consistent_iff (numbers : Numbers) (localeCompare : String → String → ℤ)
    (h : TotalOrder localeCompare) (listing : List Dirent)
    (hdirs : (listing.map Dirent.name).Nodup) :
    OrderConsistent numbers localeCompare listing ↔ Unmixed numbers localeCompare listing := by
  have hswap : ∀ x y : VersionEntry, compareVersions numbers localeCompare y.version x.version < 0 ↔
      0 < compareVersions numbers localeCompare x.version y.version :=
    fun x y => (lawful_lex_segments h).swap _ _
  -- the list is sorted the other way round
  have hdescending : ∀ l : List VersionEntry, TransitiveOn (comap (fun x : VersionEntry =>
      segments x.version) (lex (compareSegments numbers localeCompare))) l →
      TransitiveOn (fun x y : VersionEntry =>
        compareVersions numbers localeCompare y.version x.version) l :=
    fun l htrans x hx y hy z hz hxy hyz => htrans z hz y hy x hx hyz hxy
  constructor
  · intro ⟨_, htrans, _, hindependent, _⟩
    constructor
    · exact (transitive_iff h _).mp htrans
    · apply distinct_of_independent h hdirs
      · intro l hl
        exact hdescending l fun x hx y hy z hz =>
          htrans x (hl x hx) y (hl y hy) z (hl z hz)
      · exact hindependent _ (List.reverse_perm _)
  · intro ⟨hmixed, hdistinct⟩
    have htrans := (transitive_iff h _).mpr hmixed
    have hsorted := pairwise_sortBy hswap (hdescending _ htrans)
    constructor
    · exact fun a b => (lawful_lex_segments h).swap _ _
    · exact htrans
    · intro a b hab c
      have hsegments := (compareVersions_eq_zero h).mp hab
      simp only [compareVersions, hsegments]
    · intro listing' hperm
      apply sortBy_eq_of_perm hswap (hdescending _ htrans)
      · intro x hx y hy hxy
        exact List.inj_on_of_nodup_map hdistinct hx hy ((compareVersions_eq_zero h).mp hxy).symm
      · exact hperm.filterMap _
    · intro first hfirst x hx
      have hmem : x ∈ readVersions numbers localeCompare listing := (sortBy_perm _).mem_iff.mpr hx
      unfold readVersions at hfirst hmem
      cases hlist : sortBy (fun x y : VersionEntry =>
          compareVersions numbers localeCompare y.version x.version) (entries listing) with
      | nil =>
        rw [hlist] at hmem
        cases hmem
      | cons y rest =>
        rw [hlist] at hfirst hmem hsorted
        obtain rfl : y = first := by simpa using hfirst
        rcases List.mem_cons.mp hmem with rfl | hrest
        · exact le_of_eq ((compareVersions_eq_zero h).mpr rfl)
        · exact (List.pairwise_cons.mp hsorted).1 x hrest

/-- Two integers, and texts by their code points. -/
def plainNumbers : Numbers where
  number segment := if segment = "9" then some 9 else if segment = "10" then some 10 else none
  text n := if n = 9 then "9" else "10"

def byCodePoints (a b : String) : ℤ := if a = b then 0 else if a < b then -1 else 1

theorem totalOrder_byCodePoints : TotalOrder byCodePoints where
  swap a b := by
    unfold byCodePoints
    rcases lt_trichotomy a b with hab | hab | hab
    · simp [hab, ne_of_lt hab, ne_of_gt hab, not_lt_of_gt hab]
    · simp [hab]
    · simp [hab, ne_of_lt hab, ne_of_gt hab, not_lt_of_gt hab]
  zero a b := by
    unfold byCodePoints
    split_ifs <;> simp_all
  trans a b c hab hbc := by
    unfold byCodePoints at *
    have hless : ∀ x y : String, (if x = y then (0 : ℤ) else if x < y then -1 else 1) < 0 →
        x < y := by
      intro x y hxy
      split_ifs at hxy
      · omega
      · assumption
      · omega
    have hac := lt_trans (hless a b hab) (hless b c hbc)
    rw [if_neg (ne_of_lt hac), if_pos hac]
    omega

/-- A directory with a manifest that names no version. -/
def versionDir (name : String) : Dirent := ⟨name, true, some (.obj [])⟩

theorem order_consistent_plain :
    OrderConsistent plainNumbers byCodePoints [versionDir "1.9", versionDir "1.10"] ↔
      Unmixed plainNumbers byCodePoints [versionDir "1.9", versionDir "1.10"] :=
  order_consistent_iff plainNumbers byCodePoints totalOrder_byCodePoints
    [versionDir "1.9", versionDir "1.10"] (by decide)

/-- 9 is less than 10, 10 than 1a, and 1a than 9. -/
theorem order_consistent_fails :
    ¬∀ (numbers : Numbers) (localeCompare : String → String → ℤ), TotalOrder localeCompare →
      ∀ listing : List Dirent, (listing.map Dirent.name).Nodup →
        OrderConsistent numbers localeCompare listing := by
  intro h
  have htrans := (h plainNumbers byCodePoints totalOrder_byCodePoints
    [versionDir "1.9", versionDir "1.10", versionDir "1.1a"] (by decide)).transitive
  revert htrans
  decide +kernel

end ZoneweaverAgent.VersionOrder
