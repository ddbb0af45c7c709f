import ZoneweaverAgent.ZloginRecipe

/-!
# The exit code behind a marker

A checked command prints its exit code behind a marker, and the engine reads the buffer as soon as
one digit is there. The console may have shown only some of the digits by then.
-/

namespace ZoneweaverAgent.ZloginRecipe

section Digits

/-- No digit is a white space. -/
theorem isSpace_of_isDigit {u : UInt16} (h : Zlogin.isDigit u = true) : isSpace u = false := by
  have hlow : Zlogin.unit '0' = 48 := rfl
  have hhigh : Zlogin.unit '9' = 57 := rfl
  simp only [Zlogin.isDigit, Zlogin.between, hlow, hhigh, Bool.and_eq_true, decide_eq_true_eq,
    UInt16.le_iff_toNat_le, UInt16.reduceToNat] at h
  rw [Bool.eq_false_iff]
  simp only [isSpace, List.contains_eq_mem, List.mem_cons, List.not_mem_nil, or_false, ne_eq,
    Bool.or_eq_true, Bool.and_eq_true, decide_eq_true_eq, UInt16.le_iff_toNat_le,
    ← UInt16.toNat_inj, UInt16.reduceToNat]
  omega

theorem le_number (digits : Zlogin.Text) (n : ℕ) :
    n ≤ digits.foldl (fun n u => 10 * n + (u.toNat - 48)) n := by
  induction digits generalizing n with
  | nil => exact le_rfl
  | cons u digits ih =>
    rw [List.foldl_cons]
    have hrest := ih (10 * n + (u.toNat - 48))
    omega

/-- A number above 0 does not start with a 0. -/
theorem head_decimal {n : ℕ} (hn : 0 < n) : ∃ c rest, decimal n = c :: rest ∧ 48 < c.toNat := by
  induction n using Nat.strong_induction_on with
  | _ n ih =>
    by_cases hlt : n < 10
    · refine ⟨n.digitChar, [], Nat.toDigits_of_lt_base hlt, ?_⟩
      rw [Nat.toNat_digitChar_of_lt_ten hlt]
      omega
    · obtain ⟨c, rest, hhead, hc⟩ := ih (n / 10) (by omega) (by omega)
      refine ⟨c, rest ++ [(n % 10).digitChar], ?_, hc⟩
      rw [decimal, Nat.toDigits_of_base_le (by omega) (by omega), ← decimal, hhead,
        List.cons_append]

/-- A piece of the digits of a number, from the first on, reads as 0 exactly when the number is. -/
theorem number_eq_zero_iff {n : ℕ} {piece : Zlogin.Text} (hne : piece ≠ [])
    (hpiece : piece <+: utf16 (decimal n)) : number piece = 0 ↔ n = 0 := by
  obtain ⟨u, tail, rfl⟩ := List.exists_cons_of_ne_nil hne
  rcases Nat.eq_zero_or_pos n with rfl | hn
  · have hzero : utf16 (decimal 0) = [48] := rfl
    rw [hzero] at hpiece
    obtain ⟨rfl, htail⟩ := List.cons_prefix_cons.mp hpiece
    rw [List.prefix_nil.mp htail]
    exact ⟨fun _ => rfl, fun _ => rfl⟩
  · obtain ⟨c, rest, hdecimal, hc⟩ := head_decimal hn
    have hdigit : c.isDigit = true :=
      Nat.isDigit_of_mem_toDigits (by decide) (by decide) (hdecimal ▸ List.mem_cons_self)
    have hbound : c.toNat ≤ 57 := (Char.isDigit_iff_toNat.mp hdigit).2
    rw [hdecimal, utf16, List.flatMap_cons, if_pos (by omega), List.singleton_append] at hpiece
    obtain ⟨rfl, -⟩ := List.cons_prefix_cons.mp hpiece
    have hle := le_number tail (10 * 0 + ((UInt16.ofNat c.toNat).toNat - 48))
    have hvalue : (UInt16.ofNat c.toNat).toNat = c.toNat := by
      rw [UInt16.toNat_ofNat']
      omega
    rw [hvalue] at hle
    constructor
    · intro hzero
      rw [number, List.foldl_cons, hvalue] at hzero
      omega
    · rintro rfl
      exact absurd hn (lt_irrefl 0)

end Digits

section Search
variable {marker buffer before rest text : Zlogin.Text} {code : ℕ}

theorem exitCodeHere_marked (marker : Zlogin.Text) {spaces piece : Zlogin.Text} {u : UInt16}
    (hspaces : ∀ v ∈ spaces, isSpace v = true) (hu : Zlogin.isDigit u = true) :
    exitCodeHere marker ((marker ++ [58]) ++ (spaces ++ u :: piece)) =
      some (number ((u :: piece).takeWhile Zlogin.isDigit)) := by
  have hmarked : (marker ++ [58]).isPrefixOf ((marker ++ [58]) ++ (spaces ++ u :: piece)) = true :=
    List.isPrefixOf_iff_prefix.mpr (List.prefix_append _ _)
  have hspace : (spaces ++ u :: piece).dropWhile isSpace = u :: piece := by
    rw [List.dropWhile_append_of_pos hspaces, List.dropWhile_cons_of_neg]
    rw [isSpace_of_isDigit hu]
    exact Bool.false_ne_true
  have hne : (u :: piece).takeWhile Zlogin.isDigit ≠ [] := by
    rw [List.takeWhile_cons_of_pos hu]
    exact List.cons_ne_nil _ _
  rw [exitCodeHere, if_pos hmarked, List.drop_left]
  simp only [hspace]
  exact if_neg hne

/-- A match stays one when the text goes on. -/
theorem exitCodeHere_mono {longer : Zlogin.Text} (h : exitCodeHere marker longer = none)
    (hstart : text <+: longer) : exitCodeHere marker text = none := by
  obtain ⟨more, rfl⟩ := hstart
  by_cases hmarked : (marker ++ [58]).isPrefixOf text = true
  · obtain ⟨tail, rfl⟩ := List.isPrefixOf_iff_prefix.mp hmarked
    rw [exitCodeHere, if_pos hmarked, List.drop_left]
    refine if_pos ?_
    by_contra hdigits
    cases hdrop : tail.dropWhile isSpace with
    | nil =>
      rw [hdrop] at hdigits
      exact hdigits rfl
    | cons u piece =>
      have hu : Zlogin.isDigit u = true := by
        by_contra hu
        rw [hdrop, List.takeWhile_cons_of_neg hu] at hdigits
        exact hdigits rfl
      have htail : tail = tail.takeWhile isSpace ++ u :: piece := by
        rw [← hdrop, List.takeWhile_append_dropWhile]
      rw [List.append_assoc (marker ++ [58]) tail, htail,
        List.append_assoc (tail.takeWhile isSpace), List.cons_append,
        exitCodeHere_marked marker (fun v hv => List.mem_takeWhile_imp hv) hu] at h
      cases h
  · exact if_neg hmarked

theorem exitCode?_of_here {n : ℕ} (h : exitCodeHere marker text = some n) :
    exitCode? marker text = some n := by
  cases text with
  | nil =>
    rw [exitCodeHere, if_neg (by simp)] at h
    cases h
  | cons u text =>
    rw [exitCode?, h]
    rfl

/-- Where nothing before matches, the first match is looked for behind it. -/
theorem exitCode?_append (h : ∀ a b, before = a ++ b → b ≠ [] →
    exitCodeHere marker (b ++ rest) = none) :
    exitCode? marker (before ++ rest) = exitCode? marker rest := by
  induction before with
  | nil => rfl
  | cons u before ih =>
    have hhere : exitCodeHere marker (u :: (before ++ rest)) = none :=
      h [] (u :: before) rfl (List.cons_ne_nil _ _)
    rw [List.cons_append, exitCode?, hhere, Option.none_or]
    exact ih fun a b hsplit hne => h (u :: a) b (by rw [hsplit]; rfl) hne

theorem exists_of_test (h : (Needle.digitBehind marker).test buffer = true) :
    ∃ front u piece, buffer = front ++ ((marker ++ [58]) ++ u :: piece) ∧
      Zlogin.isDigit u = true := by
  obtain ⟨tail, htail, hmatch⟩ := List.any_eq_true.mp h
  obtain ⟨front, rfl⟩ := (List.mem_tails _ _).mp htail
  rw [Bool.and_eq_true, List.isPrefixOf_iff_prefix] at hmatch
  obtain ⟨⟨piece, rfl⟩, hdigit⟩ := hmatch
  rw [List.drop_left] at hdigit
  cases piece with
  | nil => cases hdigit
  | cons u piece => exact ⟨front, u, piece, rfl, hdigit⟩

/-- Behind a checked command the console shows nothing that reads as an exit code, then the marker
and the exit code, and no further digit. -/
structure Shows (marker : Zlogin.Text) (code : ℕ) (before rest : Zlogin.Text) : Prop where
  first : ∀ a b, before = a ++ b → b ≠ [] →
    exitCodeHere marker (b ++ ((marker ++ [58]) ++ (utf16 (decimal code) ++ rest))) = none
  ended : ∀ u ∈ rest.head?, Zlogin.isDigit u = false

theorem isDigit_utf16_decimal {n : ℕ} : ∀ u ∈ utf16 (decimal n), Zlogin.isDigit u = true := by
  intro u hu
  obtain ⟨c, hc, hu⟩ := List.mem_flatMap.mp hu
  have hdigit := Char.isDigit_iff_toNat.mp
    (Nat.isDigit_of_mem_toDigits (by decide) (by decide) hc)
  have hlow : '0'.toNat = 48 := rfl
  have hhigh : '9'.toNat = 57 := rfl
  rw [hlow, hhigh] at hdigit
  rw [if_pos (by omega), List.mem_singleton] at hu
  have hvalue : (UInt16.ofNat c.toNat).toNat = c.toNat := by
    rw [UInt16.toNat_ofNat']
    omega
  rw [hu, Zlogin.isDigit, Zlogin.between, show Zlogin.unit '0' = 48 from rfl,
    show Zlogin.unit '9' = 57 from rfl]
  simp only [Bool.and_eq_true, decide_eq_true_eq, UInt16.le_iff_toNat_le, hvalue,
    UInt16.reduceToNat]
  exact hdigit

theorem utf16_decimal_ne_nil (n : ℕ) : utf16 (decimal n) ≠ [] := by
  obtain ⟨c, rest, hdecimal⟩ := List.exists_cons_of_ne_nil (Nat.toDigits_ne_nil (n := n) (b := 10))
  rw [decimal, hdecimal, utf16, List.flatMap_cons]
  intro hnil
  have hhead := (List.append_eq_nil_iff.mp hnil).1
  split_ifs at hhead

/-- The digits at the start of a piece of the digits of a number and what follows them. -/
theorem takeWhile_piece {n : ℕ} {piece : Zlogin.Text} (hrest : ∀ u ∈ rest.head?,
    Zlogin.isDigit u = false) (hpiece : piece <+: utf16 (decimal n) ++ rest) :
    piece.takeWhile Zlogin.isDigit <+: utf16 (decimal n) := by
  rcases Nat.le_total piece.length (utf16 (decimal n)).length with hle | hle
  · exact (List.takeWhile_prefix _).trans
      (List.prefix_of_prefix_length_le hpiece (List.prefix_append _ _) hle)
  · obtain ⟨more, rfl⟩ := List.prefix_of_prefix_length_le (List.prefix_append _ _) hpiece hle
    rw [List.takeWhile_append_of_pos isDigit_utf16_decimal]
    cases more with
    | nil => simp
    | cons u more =>
      obtain ⟨x, hx⟩ := hpiece
      rw [List.append_assoc, List.append_cancel_left_eq] at hx
      rw [List.takeWhile_cons_of_neg, List.append_nil]
      rw [hrest u (by rw [← hx]; rfl)]
      exact Bool.false_ne_true

end Search

section Cut

/-- The echo of a checked command, and the first digit of its exit code 127. -/
def echoed : Zlogin.Text := checkedCommand "ls".toList 7

end Cut

end ZoneweaverAgent.ZloginRecipe
