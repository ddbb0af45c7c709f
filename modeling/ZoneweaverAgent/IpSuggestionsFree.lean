import Mathlib.Data.Finset.Card
import ZoneweaverAgent.IpSuggestions

/-!
# What is suggested, and what counts as used

Where every address of the subnet is written in its plain spelling, the suggestions are the first
free addresses and every taken address counts once. Any other spelling, with a prefix length or a
leading zero, is counted but keeps no address from being suggested.
-/

namespace ZoneweaverAgent.IpSuggestions

open PathScan ZoneDocument Comparators DecimalNumerals

section FirstFree

/-- The first `count` numbers strictly between two bounds that are not taken, ascending. -/
structure FirstFree (taken : ℕ → Prop) (low high count : ℕ) (found : List ℕ) : Prop where
  ascending : found.Pairwise (· < ·)
  free : ∀ n ∈ found, low < n ∧ n < high ∧ ¬taken n
  length_le : found.length ≤ count
  first : ∀ n, low < n → n < high → ¬taken n → n ∉ found → found.length = count ∧ ∀ m ∈ found, m < n

variable {taken : ℕ → Prop} {low high candidate count : ℕ} {found : List ℕ}

theorem FirstFree.nil (h : high ≤ low + 1) : FirstFree taken low high count [] where
  ascending := .nil
  free := by simp
  length_le := Nat.zero_le _
  first n hlow hhigh := by omega

theorem FirstFree.skip (h : FirstFree taken low candidate count found) (htaken : taken candidate) :
    FirstFree taken low (candidate + 1) count found where
  ascending := h.ascending
  free n hn := by
    have := h.free n hn
    exact ⟨this.1, by omega, this.2.2⟩
  length_le := h.length_le
  first n hlow hhigh hfree hn := by
    rcases Nat.lt_succ_iff_lt_or_eq.mp hhigh with hlt | rfl
    · exact h.first n hlow hlt hfree hn
    · exact absurd htaken hfree

theorem FirstFree.push (h : FirstFree taken low candidate count found)
    (hfree : ¬taken candidate) (hlow : low < candidate) (hlength : found.length < count) :
    FirstFree taken low (candidate + 1) count (found ++ [candidate]) where
  ascending := by
    rw [List.pairwise_append]
    refine ⟨h.ascending, List.pairwise_singleton _ _, ?_⟩
    intro n hn m hm
    rw [List.mem_singleton.mp hm]
    exact (h.free n hn).2.1
  free n hn := by
    rcases List.mem_append.mp hn with hn | hn
    · have := h.free n hn
      exact ⟨this.1, by omega, this.2.2⟩
    · rw [List.mem_singleton.mp hn]
      exact ⟨hlow, by omega, hfree⟩
  length_le := by
    rw [List.length_append, List.length_singleton]
    exact hlength
  first n hlow' hhigh hfree' hn := by
    simp only [List.mem_append, List.mem_singleton, not_or] at hn
    have hlt : n < candidate := by omega
    have := (h.first n hlow' hlt hfree' hn.1).1
    omega

/-- Once the count is reached, later numbers make no difference. -/
theorem FirstFree.complete (h : FirstFree taken low candidate count found)
    (hlength : found.length = count) (hhigh : candidate ≤ high) :
    FirstFree taken low high count found where
  ascending := h.ascending
  free n hn := by
    have := h.free n hn
    exact ⟨this.1, by omega, this.2.2⟩
  length_le := h.length_le
  first n hlow _ hfree hn := by
    refine ⟨hlength, fun m hm => ?_⟩
    rcases Nat.lt_or_ge n candidate with hlt | hge
    · exact (h.first n hlow hlt hfree hn).2 m hm
    · have := (h.free m hm).2.1
      omega

variable {bound : ℚ} {used : List Text} {broadcast : BitVec 32}

/-- The loop goes on from what it has found below the candidate. -/
theorem suggest_firstFree
    (hused : ∀ n, low < n → n < broadcast.toNat → (intToIp (.ofNat 32 n) ∈ used ↔ taken n))
    {fuel : ℕ} (hfuel : broadcast.toNat ≤ candidate + fuel) (hlow : low < candidate)
    (hhigh : candidate ≤ broadcast.toNat) (hlength : found.length < ⌈bound⌉₊)
    (h : FirstFree taken low candidate ⌈bound⌉₊ found) :
    ∃ all, FirstFree taken low broadcast.toNat ⌈bound⌉₊ all ∧
      suggest bound used broadcast fuel candidate (found.map fun n => intToIp (.ofNat 32 n)) =
        all.map fun n => intToIp (.ofNat 32 n) := by
  induction fuel generalizing candidate found with
  | zero =>
    have hend : candidate = broadcast.toNat := by omega
    exact ⟨found, hend ▸ h, rfl⟩
  | succ fuel ih =>
    rw [suggest]
    rcases Nat.lt_or_ge candidate broadcast.toNat with hlt | hge
    · rw [if_neg (Nat.not_le.mpr hlt)]
      have hiff := hused candidate hlow hlt
      by_cases htaken : taken candidate
      · simp only [hiff.mpr htaken, if_true]
        exact ih (by omega) (by omega) (by omega) hlength (h.skip htaken)
      · have hmem : intToIp (.ofNat 32 candidate) ∉ used := fun hin => htaken (hiff.mp hin)
        have hpush := h.push htaken hlow hlength
        have hmap : (found.map fun n => intToIp (.ofNat 32 n)) ++ [intToIp (.ofNat 32 candidate)] =
            (found ++ [candidate]).map fun n => intToIp (.ofNat 32 n) := by simp
        have hcount : bound ≤ ((found ++ [candidate]).length : ℚ) ↔
            ⌈bound⌉₊ ≤ (found ++ [candidate]).length := Nat.ceil_le.symm
        simp only [hmem, if_false, hmap, List.length_map]
        by_cases hdone : bound ≤ ((found ++ [candidate]).length : ℚ)
        · rw [if_pos hdone]
          have hfull : (found ++ [candidate]).length = ⌈bound⌉₊ :=
            le_antisymm hpush.length_le (hcount.mp hdone)
          exact ⟨_, hpush.complete hfull hlt, rfl⟩
        · rw [if_neg hdone]
          have hmore : (found ++ [candidate]).length < ⌈bound⌉₊ :=
            Nat.lt_of_not_le fun hle => hdone (hcount.mpr hle)
          exact ih (by omega) (by omega) (by omega) hmore hpush
    · rw [if_pos hge]
      have hend : candidate = broadcast.toNat := by omega
      exact ⟨found, hend ▸ h, rfl⟩

end FirstFree

section Subnet
variable {number : Text → ℕ} {ip bits : Text}

/-- The number of addresses with the same first `bits` bits. -/
def subnetSize (bits : Text) : ℕ := 2 ^ (32 - digitsValue bits)

theorem networkOf_toNat (hbits : digitsValue bits ≤ 32) : (networkOf number ip bits).toNat =
    (ipToInt number ip).toNat / subnetSize bits * subnetSize bits := by
  rw [networkOf, prefixToMask_of_le hbits, and_shiftLeft_allOnes, subnetSize]

theorem broadcastOf_toNat (hbits : digitsValue bits ≤ 32) : (broadcastOf number ip bits).toNat =
    (ipToInt number ip).toNat / subnetSize bits * subnetSize bits + (subnetSize bits - 1) := by
  rw [broadcastOf, networkOf, prefixToMask_of_le hbits,
    or_not_shiftLeft_allOnes _ (Nat.sub_le _ _), subnetSize]

/-- The mask comparison tells whether two addresses are of one subnet. -/
theorem inSubnet_iff (hbits : digitsValue bits ≤ 32) (text : Text) :
    inSubnet number ip bits text = true ↔
      (ipToInt number text).toNat / subnetSize bits =
        (ipToInt number ip).toNat / subnetSize bits := by
  have hpos : 0 < subnetSize bits := Nat.two_pow_pos _
  rw [inSubnet, decide_eq_true_iff, ← BitVec.toNat_inj, networkOf_toNat hbits,
    prefixToMask_of_le hbits, and_shiftLeft_allOnes]
  exact Nat.mul_left_inj hpos.ne'

end Subnet

section Suggested
variable {parse : String → Option Json} {toText : Json → String} {number : Text → ℕ}
  {answers : Answers} {iface ip bits : Text} {pinned : List Text}

/-- What the ARP table, the machine documents, the route and the host say. -/
def addressTexts (answers : Answers) (iface : Text) (pinned : List Text) : List Text :=
  readArpNeighbors answers ++ pinned ++ (gatewayToken answers).toList ++
    (readHostAddresses answers iface).hostAddresses

/-- What the handler keeps of it. -/
def readTexts (answers : Answers) (iface : Text) (pinned : List Text) : List Text :=
  readArpNeighbors answers ++ (pinned.filter fun text => (ipv4Match text).isSome) ++
    (readDefaultRoute answers).gateway.toList ++ (readHostAddresses answers iface).hostAddresses

/-- One of the texts holds the address. -/
def Taken (texts : List Text) (address : ℕ) : Prop := ∃ text ∈ texts, Holds text address

/-- Every text that is read into the subnet, or holds an address of it, is that address in its
plain spelling. -/
def PlainlySpelled (number : Text → ℕ) (ip bits : Text) (texts : List Text) : Prop :=
  ∀ text ∈ texts, (inSubnet number ip bits text = true ∨ ∃ address, Holds text address ∧
    address / subnetSize bits = (ipToInt number ip).toNat / subnetSize bits) → Plain text

theorem mem_addressTexts {text : Text} (h : text ∈ readTexts answers iface pinned) :
    text ∈ addressTexts answers iface pinned := by
  simp only [readTexts, readDefaultRoute, addressTexts, List.mem_append, List.mem_filter,
    Option.mem_toList, Option.filter_eq_some_iff] at h ⊢
  tauto

theorem mem_readTexts {text : Text} {address : ℕ} (hholds : Holds text address)
    (h : text ∈ addressTexts answers iface pinned) : text ∈ readTexts answers iface pinned := by
  have hmatch := hholds.ipv4Match
  simp only [readTexts, readDefaultRoute, addressTexts, List.mem_append, List.mem_filter,
    Option.mem_toList, Option.filter_eq_some_iff] at h ⊢
  tauto

/-- The address of the interface is one of the host. -/
def OwnCidr (found : HostAddresses) : Prop := ∀ cidr ∈ found.cidr, cidr.1 ∈ found.hostAddresses

theorem readHostAddress_own {found : HostAddresses} (h : OwnCidr found) (line : Text) :
    OwnCidr (readHostAddress iface found line) := by
  rw [readHostAddress]
  split
  · split
    · next ip bits _ =>
      intro cidr hcidr
      rw [Option.mem_def, Option.or_eq_some_iff] at hcidr
      rcases hcidr with hcidr | ⟨-, hcidr⟩
      · exact List.mem_append_left _ (h cidr hcidr)
      · split_ifs at hcidr
        cases hcidr
        simp
    · exact h
  · exact h

theorem readHostAddresses_own : OwnCidr (readHostAddresses answers iface) := by
  have hnone : OwnCidr ⟨none, []⟩ := fun _ h => nomatch h
  rw [readHostAddresses]
  split
  · exact hnone
  · next output _ =>
    generalize output.splitOn '\n' = lines
    generalize (⟨none, []⟩ : HostAddresses) = found at hnone ⊢
    induction lines generalizing found with
    | nil => exact hnone
    | cons line lines ih => exact ih _ (readHostAddress_own hnone line)

theorem mem_used_iff (hbits : digitsValue bits ≤ 32)
    (hplain : PlainlySpelled number ip bits (readTexts answers iface pinned)) {address : ℕ}
    (hsame : address / subnetSize bits = (ipToInt number ip).toNat / subnetSize bits)
    (hlt : address < 2 ^ 32) :
    intToIp (.ofNat 32 address) ∈ usedOf number ip bits (readTexts answers iface pinned) ↔
      Taken (addressTexts answers iface pinned) address := by
  have hnat : (BitVec.ofNat 32 address).toNat = address := Nat.mod_eq_of_lt hlt
  rw [usedOf, List.mem_eraseDups, List.mem_filter]
  constructor
  · rintro ⟨hmem, -⟩
    have hholds := holds_intToIp (.ofNat 32 address)
    rw [hnat] at hholds
    exact ⟨_, mem_addressTexts hmem, hholds⟩
  · rintro ⟨text, hmem, hholds⟩
    have hread := mem_readTexts hholds hmem
    obtain ⟨value, rfl⟩ := hplain text hread (.inr ⟨address, hholds, hsame⟩)
    obtain rfl := hholds.eq_of_plain
    have hvalue : BitVec.ofNat 32 value.toNat = value := by simp
    rw [hvalue]
    refine ⟨hread, (inSubnet_iff hbits _).mpr ?_⟩
    rw [ipToInt_intToIp, hsame]

theorem usedOf_plain (hplain : PlainlySpelled number ip bits (readTexts answers iface pinned)) :
    ∀ text ∈ usedOf number ip bits (readTexts answers iface pinned), Plain text := by
  intro text htext
  rw [usedOf, List.mem_eraseDups, List.mem_filter] at htext
  exact hplain text htext.1 (.inl htext.2)

/-- The entries of the set and the taken addresses of the subnet correspond. -/
theorem exists_finset_used (hbits : digitsValue bits ≤ 32)
    (hplain : PlainlySpelled number ip bits (readTexts answers iface pinned)) :
    ∃ s : Finset ℕ, (∀ n, n ∈ s ↔ n / subnetSize bits = (ipToInt number ip).toNat / subnetSize bits ∧
        Taken (addressTexts answers iface pinned) n) ∧
      (usedOf number ip bits (readTexts answers iface pinned)).length = s.card := by
  have hall := usedOf_plain hplain
  have hnodup : ((usedOf number ip bits (readTexts answers iface pinned)).map
      fun text => (ipToInt number text).toNat).Nodup := by
    refine List.Nodup.map_on ?_ (KeyedList.nodup_eraseDups _)
    intro a ha b hb hab
    obtain ⟨a, rfl⟩ := hall a ha
    obtain ⟨b, rfl⟩ := hall b hb
    simp only [ipToInt_intToIp, BitVec.toNat_inj] at hab
    rw [hab]
  refine ⟨_, fun n => ?_, ((List.toFinset_card_of_nodup hnodup).trans (List.length_map _)).symm⟩
  rw [List.mem_toFinset, List.mem_map]
  constructor
  · rintro ⟨text, htext, rfl⟩
    obtain ⟨value, rfl⟩ := hall text htext
    have hsubnet := htext
    rw [usedOf, List.mem_eraseDups, List.mem_filter, inSubnet_iff hbits] at hsubnet
    refine ⟨hsubnet.2, intToIp value, mem_addressTexts hsubnet.1, ?_⟩
    rw [ipToInt_intToIp]
    exact holds_intToIp value
  · rintro ⟨hsame, htaken⟩
    have hlt : n < 2 ^ 32 := by
      obtain ⟨text, hmem, hholds⟩ := htaken
      obtain ⟨value, rfl⟩ := hplain text (mem_readTexts hholds hmem) (.inr ⟨n, hholds, hsame⟩)
      rw [hholds.eq_of_plain]
      exact value.isLt
    refine ⟨_, (mem_used_iff hbits hplain hsame hlt).mpr htaken, ?_⟩
    rw [ipToInt_intToIp]
    exact Nat.mod_eq_of_lt hlt

theorem one_le_clampCount (requested : Option ℚ) : 1 ≤ clampCount requested :=
  le_min (le_max_right _ _) (by norm_num)

/-- Between the network and the broadcast address, subnet and code agree on what is taken. -/
theorem suggest_exact (hbits : digitsValue bits ≤ 32)
    (hplain : PlainlySpelled number ip bits (readTexts answers iface pinned)) {count : ℚ}
    (hcount : 1 ≤ count) :
    ∃ all, FirstFree (Taken (addressTexts answers iface pinned)) (networkOf number ip bits).toNat
        (broadcastOf number ip bits).toNat ⌈count⌉₊ all ∧
      suggest count (usedOf number ip bits (readTexts answers iface pinned))
        (broadcastOf number ip bits)
        ((broadcastOf number ip bits).toNat - (networkOf number ip bits).toNat)
        ((networkOf number ip bits).toNat + 1) [] = all.map fun n => intToIp (.ofNat 32 n) := by
  have hpos : 0 < subnetSize bits := Nat.two_pow_pos _
  have hnetwork : (networkOf number ip bits).toNat =
      (ipToInt number ip).toNat / subnetSize bits * subnetSize bits := networkOf_toNat hbits
  have hbroadcast : (broadcastOf number ip bits).toNat = (ipToInt number ip).toNat /
      subnetSize bits * subnetSize bits + (subnetSize bits - 1) := broadcastOf_toNat hbits
  have hzero : ([] : List ℕ).length < ⌈count⌉₊ :=
    Nat.ceil_pos.mpr (lt_of_lt_of_le one_pos hcount)
  rcases Nat.lt_or_ge (networkOf number ip bits).toNat (broadcastOf number ip bits).toNat
    with hlt | hge
  · refine suggest_firstFree (fun n hlow hhigh => mem_used_iff hbits hplain ?_ ?_) (by omega)
      (Nat.lt_succ_self _) hlt hzero (.nil le_rfl)
    · rw [hnetwork] at hlow
      rw [hbroadcast] at hhigh
      apply Nat.div_eq_of_lt_le
      · exact hlow.le
      · rw [Nat.succ_mul]
        omega
    · exact hhigh.trans (BitVec.isLt _)
  · have hfuel : (broadcastOf number ip bits).toNat - (networkOf number ip bits).toNat = 0 := by omega
    rw [hfuel]
    exact ⟨[], .nil (by omega), rfl⟩

theorem getIpSuggestions_eq (number : Text → ℕ) (requested : Option ℚ)
    (hroute : (readDefaultRoute answers).iface = some iface)
    (hcidr : (readHostAddresses answers iface).cidr = some (ip, bits))
    (hpins : pinnedTexts parse toText answers = some pinned) :
    ∃ response, getIpSuggestions parse toText number answers requested = .ok response ∧
      response.suggestions = suggest (clampCount requested)
        (usedOf number ip bits (readTexts answers iface pinned)) (broadcastOf number ip bits)
        ((broadcastOf number ip bits).toNat - (networkOf number ip bits).toNat)
        ((networkOf number ip bits).toNat + 1) [] ∧
      response.totalUsed = (usedOf number ip bits (readTexts answers iface pinned)).length := by
  have hread : readDocumentAddressPins parse toText answers =
      some (pinned.filter fun text => (ipv4Match text).isSome) := by
    rw [readDocumentAddressPins, hpins]
    rfl
  simp only [getIpSuggestions, hroute, hcidr, hread]
  exact ⟨_, rfl, rfl, rfl⟩

/-- With every address of the subnet in its plain spelling, the suggestions are the first free
addresses and every taken address counts once. -/
theorem suggestions_are_first_free {requested : Option ℚ}
    (hroute : (readDefaultRoute answers).iface = some iface)
    (hcidr : (readHostAddresses answers iface).cidr = some (ip, bits)) (hbits : digitsValue bits ≤ 32)
    (hpins : pinnedTexts parse toText answers = some pinned)
    (hplain : PlainlySpelled number ip bits (readTexts answers iface pinned)) :
    ∃ response address, getIpSuggestions parse toText number answers requested = .ok response ∧
      Holds ip address ∧
      (∃ found, FirstFree (Taken (addressTexts answers iface pinned))
          (address / subnetSize bits * subnetSize bits)
          (address / subnetSize bits * subnetSize bits + (subnetSize bits - 1))
          ⌈clampCount requested⌉₊ found ∧ List.Forall₂ Holds response.suggestions found) ∧
      ∃ s : Finset ℕ, (∀ n, n ∈ s ↔ n / subnetSize bits = address / subnetSize bits ∧
          Taken (addressTexts answers iface pinned) n) ∧ response.totalUsed = s.card := by
  have hmem : ip ∈ (readHostAddresses answers iface).hostAddresses :=
    readHostAddresses_own _ hcidr
  obtain ⟨value, hip⟩ : Plain ip :=
    hplain ip (List.mem_append_right _ hmem) (.inl (by simp [inSubnet, networkOf]))
  have hholds : Holds ip (ipToInt number ip).toNat := by
    rw [hip, ipToInt_intToIp]
    exact holds_intToIp value
  obtain ⟨found, hfound, hsuggest⟩ := suggest_exact hbits hplain (one_le_clampCount requested)
  obtain ⟨response, hresponse, hsuggestions, htotal⟩ :=
    getIpSuggestions_eq number requested hroute hcidr hpins
  refine ⟨response, (ipToInt number ip).toNat, hresponse, hholds, ⟨found, ?_, ?_⟩, ?_⟩
  · rwa [networkOf_toNat hbits, broadcastOf_toNat hbits] at hfound
  · rw [hsuggestions, hsuggest, List.forall₂_map_left_iff, List.forall₂_same]
    intro n hn
    have hlt : n < 2 ^ 32 := (hfound.free n hn).2.1.trans (BitVec.isLt _)
    have hplainly := holds_intToIp (.ofNat 32 n)
    rwa [show (BitVec.ofNat 32 n).toNat = n from Nat.mod_eq_of_lt hlt] at hplainly
  · rw [htotal]
    exact exists_finset_used hbits hplain

/-- A host on `10.0.0.2/29` with one neighbour, and one machine document with this address. -/
def smallHost (address : String) : Answers where
  route := some "    gateway: 10.0.0.1\n  interface: e1000g0\n".toList
  addresses := some "lo0/v4:127.0.0.1/8\ne1000g0/v4:10.0.0.2/29\n".toList
  arp := some "e1000g0 10.0.0.3 255.255.255.255 00:0c:29:01:02:03\n".toList
  zones := some
    [{ name := "web", zoneId := .null, status := "running", brand := .str "bhyve",
       configuration := .obj [("networks", .arr [.obj [("address", .str address)]])],
       autoDiscovered := false, isOrphaned := false }]

theorem suggestions_are_first_free_small :
    ∃ response address, getIpSuggestions (fun _ => none) (fun _ => "") (fun _ => 0)
        (smallHost "10.0.0.4") (some 2) = .ok response ∧ Holds "10.0.0.2".toList address ∧
      (∃ found, FirstFree (Taken (addressTexts (smallHost "10.0.0.4") "e1000g0".toList
            ["10.0.0.4".toList]))
          (address / subnetSize "29".toList * subnetSize "29".toList)
          (address / subnetSize "29".toList * subnetSize "29".toList +
            (subnetSize "29".toList - 1))
          ⌈clampCount (some 2)⌉₊ found ∧ List.Forall₂ Holds response.suggestions found) ∧
      ∃ s : Finset ℕ,
        (∀ n, n ∈ s ↔ n / subnetSize "29".toList = address / subnetSize "29".toList ∧
          Taken (addressTexts (smallHost "10.0.0.4") "e1000g0".toList ["10.0.0.4".toList]) n) ∧
        response.totalUsed = s.card := by
  have hread : readTexts (smallHost "10.0.0.4") "e1000g0".toList ["10.0.0.4".toList] =
      [0x0a000003, 0x0a000004, 0x0a000001, 0x7f000001, 0x0a000002].map intToIp := by
    decide +kernel
  have hplain : PlainlySpelled (fun _ => 0) "10.0.0.2".toList "29".toList
      (readTexts (smallHost "10.0.0.4") "e1000g0".toList ["10.0.0.4".toList]) := by
    intro text htext _
    rw [hread] at htext
    obtain ⟨value, -, rfl⟩ := List.mem_map.mp htext
    exact ⟨value, rfl⟩
  exact suggestions_are_first_free (by decide +kernel) (by decide +kernel) (by decide +kernel)
    (by decide +kernel) hplain

/-- The address of a document that carries its prefix length is suggested. -/
theorem suggestions_are_first_free_fails :
    ¬∃ response address, getIpSuggestions (fun _ => none) (fun _ => "") (fun _ => 0)
        (smallHost "10.0.0.4/29") (some 2) = .ok response ∧ Holds "10.0.0.2".toList address ∧
      ∃ found, FirstFree (Taken (addressTexts (smallHost "10.0.0.4/29") "e1000g0".toList
            ["10.0.0.4/29".toList]))
          (address / subnetSize "29".toList * subnetSize "29".toList)
          (address / subnetSize "29".toList * subnetSize "29".toList +
            (subnetSize "29".toList - 1))
          ⌈clampCount (some 2)⌉₊ found ∧ List.Forall₂ Holds response.suggestions found := by
  rintro ⟨response, address, hresponse, -, found, hfound, hholds⟩
  have hsuggestions : response.suggestions = [0x0a000004, 0x0a000005].map intToIp := by
    have hrun : (getIpSuggestions (fun _ => none) (fun _ => "") (fun _ => 0)
        (smallHost "10.0.0.4/29") (some 2)).toOption.map Suggestions.suggestions =
        some ([0x0a000004, 0x0a000005].map intToIp) := by
      decide +kernel
    rw [hresponse] at hrun
    exact Option.some.inj hrun
  rw [hsuggestions] at hholds
  obtain ⟨n, hn, hfour⟩ : ∃ n ∈ found, Holds (intToIp 0x0a000004) n := by
    cases hholds with
    | cons h _ => exact ⟨_, List.mem_cons_self, h⟩
  apply (hfound.free n hn).2.2
  rw [hfour.eq_of_plain]
  refine ⟨"10.0.0.4/29".toList, by decide +kernel, [],
    ["10".toList, "0".toList, "0".toList, "4".toList], "/29".toList, by decide +kernel, rfl, ?_,
    by simp, by simp [isWord], by decide +kernel⟩
  have hoctet (byte : ℕ) (h : byte < 256) := isOctet_toDigits h
  intro octet hoctets
  simp only [List.mem_cons, List.not_mem_nil, or_false] at hoctets
  rcases hoctets with rfl | rfl | rfl | rfl
  · exact hoctet 10 (by decide)
  · exact hoctet 0 (by decide)
  · exact hoctet 0 (by decide)
  · exact hoctet 4 (by decide)

end Suggested

end ZoneweaverAgent.IpSuggestions
