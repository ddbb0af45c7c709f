import ZoneweaverAgent.DhcpLeases
import ZoneweaverAgent.Transition

/-!
# The provisioning transport of a guest

The transport is the address recorded in the document's provisional entry, or else the last lease of
the guest's MAC, which is then recorded. The server goes on assigning addresses: to the guest, which
may get another one, and to other machines, which may get one the guest had.
-/

namespace ZoneweaverAgent.ProvisioningTransport

open DhcpLeases Transition
open PathScan (Text)

/-- The candidates for the leases file, in the order in which they are tried. -/
inductive LeasesFile
  | dhcpd4
  | dhcpd
  deriving DecidableEq

/-- What the server has written, in order. -/
abbrev History := List (LeasesFile × Lease)

/-- An empty address counts as none. -/
structure Network where
  provisional : Bool
  address : Text
  deriving DecidableEq

section Definitions

def leasesOf (file : LeasesFile) (history : History) : List Lease :=
  (history.filter fun e => e.1 = file).map Prod.snd

/-- The outputs of the files that exist and can be read. -/
def results (readable : LeasesFile → Bool) (history : History) : List (Option Text) :=
  [.dhcpd4, .dhcpd].map fun file =>
    if readable file then some (renderAll (leasesOf file history)) else none

def setDocumentNetworkAddress (index : ℕ) (address : Text) (networks : List Network) :
    List Network :=
  networks.modify index fun entry => { entry with address }

/-- The transport and the document's networks afterwards; `mac` is that of the provisional VNIC, if
it can be read. -/
def resolveProvisionalTransport (results : List (Option Text)) (mac : Option Text)
    (networks : List Network) : Option Text × List Network :=
  match networks.find? (·.provisional) with
  | none => (none, networks)
  | some entry =>
    if entry.address ≠ [] then (some entry.address, networks)
    else
      match mac.bind (readLeaseByMac results) with
      | none => (none, networks)
      | some leased =>
        (some leased,
          setDocumentNetworkAddress (networks.findIdx (·.provisional)) leased networks)

structure State where
  history : History
  networks : List Network

inductive Label
  | append (file : LeasesFile) (lease : Lease)
  | resolve (readable : LeasesFile → Bool) (mac : Option Text)

def step (s : State) : Label → Option State
  | .append file lease => some { s with history := s.history ++ [(file, lease)] }
  | .resolve readable mac =>
    some { s with
      networks := (resolveProvisionalTransport (results readable s.history) mac s.networks).2 }

end Definitions

section Property
variable (wanted : Text)

/-- The leases of a MAC. -/
def leasesFor (history : History) : History := history.filter fun e => e.2.mac = some wanted

def mostRecent (history : History) : Option Text :=
  ((leasesFor wanted history).getLast?).map fun e => e.2.ip

/-- The MAC that an address was last given to. -/
def holder (history : History) (ip : Text) : Option Text :=
  ((history.filter fun e => e.2.ip = ip && e.2.mac.isSome).getLast?).bind fun e => e.2.mac

def recorded (networks : List Network) : Option Text :=
  ((networks.find? (·.provisional)).map Network.address).filter (· ≠ [])

/-- The first file can be read if it has leases of the MAC. -/
def Readable (history : History) (readable : LeasesFile → Bool) : Prop :=
  (∃ lease ∈ leasesOf .dhcpd4 history, lease.mac = some wanted) → readable .dhcpd4 = true

instance (history : History) (readable : LeasesFile → Bool) :
    Decidable (Readable wanted history readable) := inferInstanceAs (Decidable (_ → _))

/-- A lookup answers the most recent lease of the MAC, which is still its own, and the transport is
no address that the server has since given to another machine. -/
structure Safe (s : State) : Prop where
  lookup : ∀ readable mac a, Readable wanted s.history readable → normalizeMac mac = wanted →
    readLeaseByMac (results readable s.history) mac = some a →
      mostRecent wanted s.history = some a ∧ holder s.history a = some wanted
  transport : ∀ readable mac a, Readable wanted s.history readable →
    (∀ m ∈ mac, normalizeMac m = wanted) →
    (resolveProvisionalTransport (results readable s.history) mac s.networks).1 = some a →
      ∀ other ∈ holder s.history a, other = wanted

/-- Strings that are read as they are meant, leases of the MAC in the first file as long as it has
one, and no address given to another machine while it is the guest's. -/
def Fits (s : State) : Label → Prop
  | .append file lease => lease.Clean ∧
      (lease.mac = some wanted → file = .dhcpd →
        ∀ earlier ∈ leasesOf .dhcpd4 s.history, earlier.mac ≠ some wanted) ∧
      ∀ other ∈ lease.mac, other ≠ wanted →
        mostRecent wanted s.history ≠ some lease.ip ∧ recorded s.networks ≠ some lease.ip
  | .resolve readable mac =>
      Readable wanted s.history readable ∧ ∀ m ∈ mac, normalizeMac m = wanted

instance (s : State) : DecidablePred (Fits wanted s)
  | .append _ _ => inferInstanceAs (Decidable (_ ∧ _ ∧ _))
  | .resolve _ _ => inferInstanceAs (Decidable (_ ∧ _))

end Property

section Runs
variable {wanted : Text} {s s' : State} {history : History} {file : LeasesFile} {lease : Lease}

theorem leasesFor_append : leasesFor wanted (history ++ [(file, lease)]) =
    leasesFor wanted history ++ if lease.mac = some wanted then [(file, lease)] else [] := by
  rw [leasesFor, leasesFor, List.filter_append, List.filter_singleton]
  by_cases h : lease.mac = some wanted <;> simp [h]

theorem mostRecent_append : mostRecent wanted (history ++ [(file, lease)]) =
    if lease.mac = some wanted then some lease.ip else mostRecent wanted history := by
  rw [mostRecent, leasesFor_append]
  split_ifs with h
  · simp
  · simp [mostRecent]

theorem holder_append (ip : Text) : holder (history ++ [(file, lease)]) ip =
    if lease.ip = ip ∧ lease.mac.isSome then lease.mac else holder history ip := by
  rw [holder, List.filter_append, List.filter_singleton]
  by_cases h : lease.ip = ip ∧ lease.mac.isSome
  · simp [h]
  · have hfalse : (lease.ip = ip && lease.mac.isSome) = false := by simpa using h
    simp only [hfalse, h, if_false, Bool.cond_false]
    simp [holder]

structure Sound (wanted : Text) (s : State) : Prop where
  clean : ∀ e ∈ s.history, e.2.Clean
  first : ∀ e ∈ ((leasesFor wanted s.history).filter fun e => e.1 = .dhcpd4).getLast?,
    (leasesFor wanted s.history).getLast? = some e
  holds : ∀ a, mostRecent wanted s.history = some a → holder s.history a = some wanted
  document : ∀ a, recorded s.networks = some a → ∀ other ∈ holder s.history a, other = wanted

theorem mem_leasesOf {lease : Lease} : lease ∈ leasesOf file history ↔ (file, lease) ∈ history := by
  simp only [leasesOf, List.mem_map, List.mem_filter, decide_eq_true_eq, Prod.exists]
  constructor
  · rintro ⟨f, l, ⟨hmem, rfl⟩, rfl⟩
    exact hmem
  · intro h
    exact ⟨file, lease, ⟨h, rfl⟩, rfl⟩

/-- What the reader finds in one clean file. -/
theorem lastMatch_leasesOf (hclean : ∀ e ∈ history, e.2.Clean) (wanted : Text) (file : LeasesFile) :
    lastMatch wanted (renderAll (leasesOf file history)) =
      (((leasesFor wanted history).filter fun e => e.1 = file).getLast?).map fun e => e.2.ip := by
  rw [lastMatch_renderAll fun l hl => hclean _ (mem_leasesOf.mp hl), leasesOf, leasesFor,
    List.filter_map, List.filter_filter, List.filter_filter, List.getLast?_map, Option.map_map]
  have hfilter : history.filter (fun e =>
      ((fun l : Lease => decide (l.mac = some wanted)) ∘ Prod.snd) e && decide (e.1 = file)) =
      history.filter fun e => decide (e.1 = file) && decide (e.2.mac = some wanted) :=
    List.filter_congr fun e _ => Bool.and_comm _ _
  rw [hfilter]
  rfl

theorem readLeaseByMac_results (readable : LeasesFile → Bool) (mac : Text) :
    readLeaseByMac (results readable history) mac =
      ((if readable .dhcpd4 then
          lastMatch (normalizeMac mac) (renderAll (leasesOf .dhcpd4 history)) else none).or
        (if readable .dhcpd then
          lastMatch (normalizeMac mac) (renderAll (leasesOf .dhcpd history)) else none)) := by
  have hfile (file : LeasesFile) : ((if readable file then
      some (renderAll (leasesOf file history)) else none).bind (lastMatch (normalizeMac mac))) =
      if readable file then lastMatch (normalizeMac mac) (renderAll (leasesOf file history))
        else none := by
    split_ifs <;> rfl
  rw [readLeaseByMac, results, List.map_cons, List.map_singleton, List.findSome?_cons,
    List.findSome?_singleton, hfile, hfile]
  cases (if readable .dhcpd4 then
    lastMatch (normalizeMac mac) (renderAll (leasesOf .dhcpd4 history)) else none) <;> rfl

/-- A lookup answers the most recent lease. -/
theorem Sound.lookup (h : Sound wanted s) {readable : LeasesFile → Bool}
    (hreadable : Readable wanted s.history readable) {mac a : Text}
    (hmac : normalizeMac mac = wanted)
    (hread : readLeaseByMac (results readable s.history) mac = some a) :
    mostRecent wanted s.history = some a := by
  rw [readLeaseByMac_results, hmac, lastMatch_leasesOf h.clean, lastMatch_leasesOf h.clean] at hread
  cases hlast : ((leasesFor wanted s.history).filter fun e => e.1 = .dhcpd4).getLast? with
  | some e =>
    have hmem := List.mem_filter.mp (List.mem_of_getLast? hlast)
    have he := List.mem_filter.mp hmem.1
    have hon : readable .dhcpd4 = true := by
      refine hreadable ⟨e.2, mem_leasesOf.mpr ?_, by simpa using he.2⟩
      rw [← of_decide_eq_true hmem.2]
      exact he.1
    rw [hlast, if_pos hon] at hread
    rw [mostRecent, h.first e hlast]
    exact hread
  | none =>
    have hnone := List.getLast?_eq_none_iff.mp hlast
    have hall : (leasesFor wanted s.history).filter (fun e => e.1 = .dhcpd) =
        leasesFor wanted s.history := by
      rw [List.filter_eq_self]
      intro e he
      have hnot := List.filter_eq_nil_iff.mp hnone e he
      cases hfile : e.1 with
      | dhcpd4 => exact absurd (by simp [hfile]) hnot
      | dhcpd => rfl
    rw [hlast, hall] at hread
    cases hon : readable .dhcpd with
    | false => simp [hon] at hread
    | true => simpa [hon, mostRecent] using hread

theorem Sound.append (h : Sound wanted s) (hfits : Fits wanted s (.append file lease)) :
    Sound wanted { s with history := s.history ++ [(file, lease)] } := by
  obtain ⟨hclean, hfile, hother⟩ := hfits
  have hkeeps : ∀ a, (∀ other ∈ lease.mac, other ≠ wanted → a ≠ lease.ip) →
      (∀ other ∈ holder s.history a, other = wanted) →
      ∀ other ∈ holder (s.history ++ [(file, lease)]) a, other = wanted := by
    intro a hne hold other hmem
    rw [holder_append] at hmem
    split_ifs at hmem with hgiven
    · by_contra hnot
      exact hne other hmem hnot hgiven.1.symm
    · exact hold other hmem
  refine ⟨?_, ?_, ?_, ?_⟩
  · intro e he
    rcases List.mem_append.mp he with he | he
    · exact h.clean e he
    · rw [List.mem_singleton.mp he]
      exact hclean
  · rw [leasesFor_append]
    split_ifs with hmac
    · cases file with
      | dhcpd4 =>
        intro e he
        simp only [List.filter_append, List.filter_singleton, decide_true, Bool.cond_true,
          List.getLast?_concat] at he ⊢
        exact he
      | dhcpd =>
        intro e he
        exfalso
        have hmem := List.mem_filter.mp (List.mem_of_getLast? he)
        rcases List.mem_append.mp hmem.1 with hold | hnew
        · have hearlier := List.mem_filter.mp hold
          refine hfile hmac rfl e.2 (mem_leasesOf.mpr ?_) (by simpa using hearlier.2)
          rw [← of_decide_eq_true hmem.2]
          exact hearlier.1
        · rw [List.mem_singleton.mp hnew] at hmem
          exact absurd (of_decide_eq_true hmem.2) nofun
    · rw [List.append_nil]
      exact h.first
  · intro a ha
    rw [mostRecent_append] at ha
    rw [holder_append]
    split_ifs at ha with hmac
    · rw [if_pos ⟨Option.some.inj ha, by simp [hmac]⟩, hmac]
    · have hnot : ¬(lease.ip = a ∧ lease.mac.isSome = true) := by
        rintro ⟨rfl, hsome⟩
        obtain ⟨other, hmem⟩ := Option.isSome_iff_exists.mp hsome
        refine (hother other hmem ?_).1 ha
        rintro rfl
        exact hmac hmem
      rw [if_neg hnot]
      exact h.holds a ha
  · intro a ha
    refine hkeeps a (fun other hmem hne => ?_) (h.document a ha)
    rintro rfl
    exact (hother other hmem hne).2 ha

theorem find?_setDocumentNetworkAddress (address : Text) (networks : List Network) :
    (setDocumentNetworkAddress (networks.findIdx (·.provisional)) address networks).find?
        (·.provisional) =
      (networks.find? (·.provisional)).map fun entry => { entry with address } := by
  induction networks with
  | nil => rfl
  | cons entry networks ih =>
    cases hentry : entry.provisional with
    | true => simp [setDocumentNetworkAddress, List.findIdx_cons, hentry]
    | false =>
      simp only [setDocumentNetworkAddress, List.findIdx_cons, hentry, Bool.cond_false,
        List.modify_succ_cons, List.find?_cons] at ih ⊢
      exact ih

theorem Sound.resolve (h : Sound wanted s) {readable : LeasesFile → Bool} {mac : Option Text}
    (hfits : Fits wanted s (.resolve readable mac)) :
    (∀ a, (resolveProvisionalTransport (results readable s.history) mac s.networks).1 = some a →
        ∀ other ∈ holder s.history a, other = wanted) ∧
      Sound wanted { s with networks :=
        (resolveProvisionalTransport (results readable s.history) mac s.networks).2 } := by
  obtain ⟨hreadable, hmac⟩ := hfits
  have hsame : Sound wanted { s with networks := s.networks } := h
  cases hfind : s.networks.find? (·.provisional) with
  | none => simpa [resolveProvisionalTransport, hfind] using hsame
  | some entry =>
    by_cases haddress : entry.address = []
    · cases hread : mac.bind (readLeaseByMac (results readable s.history)) with
      | none => simpa [resolveProvisionalTransport, hfind, haddress, hread] using hsame
      | some leased =>
        obtain ⟨m, hm, hleased⟩ := Option.bind_eq_some_iff.mp hread
        have hholder := h.holds leased (h.lookup hreadable (hmac m hm) hleased)
        have hown : ∀ other ∈ holder s.history leased, other = wanted := by
          intro other hother
          exact Option.some.inj (hother.symm.trans hholder)
        simp only [resolveProvisionalTransport, hfind, haddress, hread, ne_eq, not_true_eq_false,
          if_false, Option.some.injEq]
        refine ⟨fun a ha => ha ▸ hown, h.clean, h.first, h.holds, fun a ha => ?_⟩
        rw [recorded, find?_setDocumentNetworkAddress, hfind] at ha
        have : leased = a := Option.some.inj (Option.filter_eq_some_iff.mp ha).1
        exact this ▸ hown
    · have hrecorded : recorded s.networks = some entry.address := by
        simp [recorded, hfind, haddress]
      simp only [resolveProvisionalTransport, hfind, ne_eq, haddress, not_false_eq_true, if_true,
        Option.some.injEq]
      exact ⟨fun a ha => ha ▸ h.document _ hrecorded, hsame⟩

theorem Sound.safe (h : Sound wanted s) : Safe wanted s where
  lookup _ _ a hreadable hmac hread :=
    have hrecent := h.lookup hreadable hmac hread
    ⟨hrecent, h.holds a hrecent⟩
  transport _ _ a hreadable hmac := (h.resolve ⟨hreadable, hmac⟩).1 a

theorem transport_safe {networks : List Network}
    (h : Reaches step (Fits wanted) ⟨[], networks⟩ s) : Safe wanted s := by
  refine Sound.safe (h.invariant (I := Sound wanted) ⟨nofun, nofun, nofun, nofun⟩ ?_)
  intro s l s' hs hok hstep
  cases l with
  | append file lease =>
    cases hstep
    exact hs.append hok
  | resolve readable mac =>
    cases hstep
    exact (hs.resolve hok).2

section Given

def guestMac : Text := "02:08:20:00:00:01".toList

def otherMac : Text := "02:08:20:00:00:02".toList

def address (host : Char) : Text := ['1', '0', '.', '0', '.', '0', '.', host]

def given (host : {c : Char // c.isDigit = true}) (mac : {m // m = guestMac ∨ m = otherMac}) :
    Lease where
  ip := address host
  statements := [.plain "binding state active".toList, .hardware mac,
    .quoted "client-hostname".toList "web".toList]
  isAddress := ⟨['1', '0'], ['0'], ['0'], [host], rfl, by simp [host.2]⟩
  wellFormed := by
    obtain ⟨_, rfl | rfl⟩ := mac <;> decide +kernel

def toGuest : {m // m = guestMac ∨ m = otherMac} := ⟨guestMac, .inl rfl⟩

def toOther : {m // m = guestMac ∨ m = otherMac} := ⟨otherMac, .inr rfl⟩

/-- The guest gets an address that is recorded, and another machine gets another one. -/
theorem transport_safe_small : ∃ s, Safe guestMac s ∧
    (resolveProvisionalTransport (results (fun _ => true) s.history) (some guestMac) s.networks).1 =
      some (address '1') := by
  obtain ⟨s, hs, htransport⟩ := exists_reaches_of_run step (Fits guestMac) ⟨[], [⟨true, []⟩]⟩
    [.append .dhcpd4 (given ⟨'1', rfl⟩ toGuest), .resolve (fun _ => true) (some guestMac),
      .append .dhcpd4 (given ⟨'2', rfl⟩ toOther)]
    (P := fun s => (resolveProvisionalTransport (results (fun _ => true) s.history) (some guestMac)
      s.networks).1 = some (address '1')) (by decide +kernel)
  exact ⟨s, transport_safe hs, htransport⟩

/-- The address that is recorded for the guest is given to another machine. -/
theorem transport_safe_fails : ¬∀ s,
    Reaches step (fun _ _ => True) ⟨[], [⟨true, []⟩]⟩ s → Safe guestMac s := by
  intro hsafe
  obtain ⟨s, hs, htransport, hholder⟩ := exists_reaches_of_run step (fun _ _ => True)
    ⟨[], [⟨true, []⟩]⟩
    [.append .dhcpd4 (given ⟨'1', rfl⟩ toGuest), .resolve (fun _ => true) (some guestMac),
      .append .dhcpd4 (given ⟨'1', rfl⟩ toOther)]
    (P := fun s => (resolveProvisionalTransport (results (fun _ => true) s.history) (some guestMac)
      s.networks).1 = some (address '1') ∧ holder s.history (address '1') = some otherMac)
    (by decide +kernel)
  have hsame := (hsafe s hs).transport (fun _ => true) (some guestMac) (address '1')
    (fun _ => rfl) (by decide +kernel) htransport otherMac hholder
  exact absurd hsame (by decide +kernel)

end Given

end Runs

end ZoneweaverAgent.ProvisioningTransport
