import ZoneweaverAgent.NetworkPairing
import ZoneweaverAgent.StoredDocumentsRuns
import ZoneweaverAgent.VnicNamesRuns
import Mathlib.Data.List.Forall2

/-!
# The pairing of networks and net resources over runs

Create puts one net resource beside each network, and the removal of the transport takes one of each
at the same index, so the two lists stay paired as long as `zone_modify` edits no net.
-/

namespace ZoneweaverAgent.NetworkPairing
open ZoneDocument DiskSpec StoredDocuments Transition

section Lists
variable {α β γ : Type*}

theorem forall₂_eraseIdx {R : α → β → Prop} {l : List α} {l' : List β} (h : List.Forall₂ R l l')
    (i : ℕ) : List.Forall₂ R (l.eraseIdx i) (l'.eraseIdx i) := by
  induction h generalizing i with
  | nil => exact .nil
  | cons hr htail ih =>
    cases i with
    | zero => exact htail
    | succ i => exact .cons hr (ih i)

theorem filter_eq_eraseIdx [DecidableEq γ] (f : α → γ) {l : List α}
    (h : l.Pairwise fun a b => f a ≠ f b) {i : ℕ} {a : α} (ha : l[i]? = some a) :
    l.filter (fun b => f b ≠ f a) = l.eraseIdx i := by
  induction l generalizing i with
  | nil => cases ha
  | cons b rest ih =>
    obtain ⟨hhead, htail⟩ := List.pairwise_cons.mp h
    cases i with
    | zero =>
      obtain rfl := Option.some.inj ha
      have hkept : rest.filter (fun c => f c ≠ f b) = rest :=
        List.filter_eq_self.mpr fun c hc => by simpa using (hhead c hc).symm
      simpa using hkept
    | succ i =>
      have hmem : a ∈ rest := List.mem_of_getElem? (by simpa using ha)
      have hne : f b ≠ f a := hhead a hmem
      rw [List.filter_cons_of_pos (by simpa using hne), List.eraseIdx_cons_succ]
      congr 1
      exact ih htail (by simpa using ha)

end Lists

section Creation
variable {toNumber : Json → Option ℚ} {metadata : VnicNames.Metadata} {c : Creation}

theorem configureNics_described (start : ℕ) (networks : List Json) :
    List.Forall₂ (Describes toNumber metadata) networks
      (configureNics metadata start (networks.map (deriveNic toNumber))) := by
  induction networks generalizing start with
  | nil => exact .nil
  | cons entry rest ih => exact .cons ⟨start, rfl⟩ (ih (start + 1))

theorem physical_of_mem_configureNics {start : ℕ} {networks : List Json} {net : Net}
    (h : net ∈ configureNics metadata start (networks.map (deriveNic toNumber))) :
    ∃ nic index, start ≤ index ∧ net.physical = metadata.generateVnicName nic index := by
  induction networks generalizing start with
  | nil => cases h
  | cons entry rest ih =>
    rcases List.mem_cons.mp h with rfl | hrest
    · exact ⟨_, start, le_rfl, rfl⟩
    · obtain ⟨nic, index, hle, hphysical⟩ := ih hrest
      exact ⟨nic, index, by omega, hphysical⟩

theorem configureNics_distinct (start : ℕ) (networks : List Json) :
    (configureNics metadata start (networks.map (deriveNic toNumber))).Pairwise
      fun net net' => net.physical ≠ net'.physical := by
  induction networks generalizing start with
  | nil => exact .nil
  | cons entry rest ih =>
    refine List.pairwise_cons.mpr ⟨fun net hnet heq => ?_, ih (start + 1)⟩
    obtain ⟨nic, index, hle, hphysical⟩ := physical_of_mem_configureNics hnet
    have hindex : start = index := (VnicNames.vnicName_inj (heq.trans hphysical)).2
    omega

theorem nics_eq (h : c.Derived) : c.nics = (networkList c.prepared).map (deriveNic c.toNumber) := by
  unfold Creation.nics deriveNicsFromNetworks
  split_ifs with hempty
  · rw [hempty, h hempty]
    rfl
  · rfl

theorem networkList_storeDocument {document zadm : Document} (hzadm : PlainOutput zadm) :
    networkList (storeDocument document zadm) = networkList document := by
  unfold networkList
  rw [get_storeDocument hzadm (by decide)]
  have hitems : ∀ value : Json, ((some value).filter Json.truthy).bind Json.items? =
      value.items? := by
    intro value
    by_cases htruthy : value.truthy = true
    · simp [Option.filter, htruthy]
    · cases value <;> simp_all [Option.filter, Json.items?, Json.truthy]
  cases document.get "networks" with
  | none => rfl
  | some networks => rw [hitems, Option.bind_some]

end Creation

section Machines
variable {toNumber : Json → Option ℚ} {m m' : Machine}

structure Coherent (toNumber : Json → Option ℚ) (m : Machine) : Prop where
  paired : Paired toNumber m
  distinct : m.nets.Pairwise fun net net' => net.physical ≠ net'.physical

theorem created_coherent {c : Creation} (hderived : c.Derived) (hzadm : PlainOutput c.zadm) :
    Coherent c.toNumber c.created := by
  constructor
  · unfold Paired Machine.networks
    rw [show c.created.document = storeDocument c.prepared c.zadm from rfl,
      networkList_storeDocument hzadm,
      show c.created.nets = configureNics c.metadata 0 c.nics from rfl, nics_eq hderived]
    exact configureNics_described 0 _
  · rw [show c.created.nets = configureNics c.metadata 0 c.nics from rfl, nics_eq hderived]
    exact configureNics_distinct 0 _

/-- The control flag is no part of what a nic is derived from. -/
theorem deriveNic_setProperty {entry entry' value : Json}
    (h : setProperty "is_control" value entry = some entry') :
    deriveNic toNumber entry' = deriveNic toNumber entry := by
  cases entry with
  | obj entries =>
    obtain rfl := Option.some.inj h
    have hfield : ∀ key, "is_control" ≠ key →
        (Json.obj (KeyedList.set entries "is_control" value)).field key =
          (Json.obj entries).field key :=
      fun key hne => KeyedList.get_set_of_ne entries value hne
    simp only [deriveNic, vlanOf, truthyField, textField, hfield "type" (by decide),
      hfield "bridge" (by decide), hfield "vlan" (by decide), hfield "mac" (by decide)]
    rfl
  | arr items =>
    obtain rfl := Option.some.inj h
    rfl
  | null => cases h
  | bool => cases h
  | num => cases h
  | str => cases h

theorem setProperty_isSome {key : String} {entry value : Json} (h : entry.isObject = true) :
    ∃ entry', setProperty key value entry = some entry' := by
  cases entry with
  | obj entries => exact ⟨_, rfl⟩
  | arr items => exact ⟨_, rfl⟩
  | _ => cases h

theorem networks_items {index : ℕ} {entry : Json} (h : m.networks[index]? = some entry) :
    m.document.get "networks" = some (.arr m.networks) := by
  unfold Machine.networks networkList at *
  cases hget : m.document.get "networks" with
  | none =>
    rw [hget] at h
    cases h
  | some networks =>
    cases networks with
    | arr items => rfl
    | _ =>
      rw [hget] at h
      cases h

theorem truthy_of_isProvisional {entry : Json} (h : isProvisional entry = true) :
    entry.truthy = true := by
  cases entry <;> simp_all [isProvisional, Json.field, Json.truthy]

/-- The document loses the entry, and what is left derives the same nics. -/
theorem removeDocumentNetworkEntry_networks {index : ℕ} {entry : Json}
    (hentry : m.networks[index]? = some entry) (hprovisional : isProvisional entry = true)
    (hfirst : ∀ first ∈ (m.networks.eraseIdx index).head?, first.isObject = true) :
    List.Forall₂ (fun entry entry' => deriveNic toNumber entry' = deriveNic toNumber entry)
      (m.networks.eraseIdx index)
      (networkList ((removeDocumentNetworkEntry index m.document).getD m.document)) := by
  have hitems := networks_items hentry
  have htruthy : (!(m.networks[index]?.map Json.truthy).getD false) = false := by
    simp [hentry, truthy_of_isProvisional hprovisional]
  have hremove : ∃ networks, removeDocumentNetworkEntry index m.document =
      some (m.document.set "networks" (.arr networks)) ∧
      List.Forall₂ (fun entry entry' => deriveNic toNumber entry' = deriveNic toNumber entry)
        (m.networks.eraseIdx index) networks := by
    unfold removeDocumentNetworkEntry editSection
    simp only [hitems, htruthy, Bool.false_eq_true, if_false]
    cases hrest : m.networks.eraseIdx index with
    | nil => exact ⟨[], rfl, .nil⟩
    | cons first rest =>
      have hsame : List.Forall₂ (fun entry entry' => deriveNic toNumber entry' =
          deriveNic toNumber entry) rest rest := List.forall₂_same.mpr fun _ _ => rfl
      simp only
      split_ifs
      · exact ⟨_, rfl, .cons rfl hsame⟩
      · obtain ⟨first', hset⟩ := @setProperty_isSome "is_control" first (.bool true)
          (hfirst first (by simp [hrest]))
        rw [hset]
        exact ⟨_, rfl, .cons (deriveNic_setProperty hset) hsame⟩
  obtain ⟨networks, hdocument, hsame⟩ := hremove
  rw [hdocument, Option.getD_some, networkList, KeyedList.get_set_self]
  exact hsame

theorem described_of_same {metadata : VnicNames.Metadata} {networks networks' : List Json}
    {nets : List Net}
    (hsame : List.Forall₂ (fun entry entry' => deriveNic toNumber entry' =
      deriveNic toNumber entry) networks networks')
    (h : List.Forall₂ (Describes toNumber metadata) networks nets) :
    List.Forall₂ (Describes toNumber metadata) networks' nets := by
  induction hsame generalizing nets with
  | nil => exact h
  | cons heq _ ih =>
    cases h with
    | cons hnet hrest =>
      obtain ⟨index, rfl⟩ := hnet
      exact .cons ⟨index, by rw [heq]⟩ (ih hrest)

theorem exists_provisional {index : ℕ} (h : m.provisionalIndex = some index) :
    ∃ entry, m.networks[index]? = some entry ∧ isProvisional entry = true := by
  obtain ⟨hlt, hprovisional, -⟩ := List.findIdx?_eq_some_iff_getElem.mp h
  exact ⟨m.networks[index], List.getElem?_eq_getElem hlt, hprovisional⟩

theorem transportRemove_removesPair (h : Coherent toNumber m) {saved : Bool}
    (hfits : Fits m (.transportRemove saved)) :
    RemovesPair toNumber m (transportRemove m saved) := by
  unfold RemovesPair transportRemove
  cases hindex : m.provisionalIndex with
  | none => exact ⟨rfl, rfl⟩
  | some index =>
    obtain ⟨entry, hentry, hprovisional⟩ := exists_provisional hindex
    obtain ⟨rfl, hfirst⟩ := hfits index hindex
    have hlt : index < m.nets.length := by
      rw [← h.paired.length_eq]
      exact (List.getElem?_eq_some_iff.mp hentry).1
    have hnet : m.nets[index]? = some m.nets[index] := List.getElem?_eq_getElem hlt
    simp only [hnet, if_true]
    exact ⟨filter_eq_eraseIdx Net.physical h.distinct hnet,
      removeDocumentNetworkEntry_networks hentry hprovisional hfirst⟩

theorem Coherent.transportRemove (h : Coherent toNumber m) {saved : Bool}
    (hfits : Fits m (.transportRemove saved)) : Coherent toNumber (transportRemove m saved) := by
  have hremoves := transportRemove_removesPair h hfits
  have hmetadata : (NetworkPairing.transportRemove m saved).metadata = m.metadata := by
    unfold NetworkPairing.transportRemove
    cases m.provisionalIndex with
    | none => rfl
    | some index => cases hnet : m.nets[index]? <;> simp [hnet]
  unfold RemovesPair at hremoves
  cases hindex : m.provisionalIndex with
  | none =>
    rw [hindex] at hremoves
    constructor
    · rw [Paired, hmetadata, hremoves.1, hremoves.2]
      exact h.paired
    · rw [hremoves.2]
      exact h.distinct
  | some index =>
    rw [hindex] at hremoves
    constructor
    · rw [Paired, hmetadata, hremoves.1]
      exact described_of_same hremoves.2 (forall₂_eraseIdx h.paired index)
    · rw [hremoves.1]
      exact h.distinct.sublist (List.eraseIdx_sublist _ _)

theorem Coherent.withNets (h : Coherent toNumber m) : Coherent toNumber (m.withNets m.nets) :=
  ⟨h.paired, h.distinct⟩

theorem Coherent.step (h : Coherent toNumber m) {l : Label} (hfits : Fits m l)
    (hstep : step m l = some m') : Coherent toNumber m' := by
  cases l with
  | addNics nics =>
    obtain rfl : nics = [] := hfits
    obtain rfl := Option.some.inj hstep
    rw [addedNets, List.append_nil]
    exact h.withNets
  | removeNics nicNames =>
    obtain rfl : nicNames = [] := hfits
    obtain rfl := Option.some.inj hstep
    exact h.withNets
  | transportRemove saved =>
    obtain rfl := Option.some.inj hstep
    exact h.transportRemove hfits

end Machines

/-- As long as no net is added or removed by itself, networks and net resources stay paired, and the
removal of the transport takes a pair. -/
theorem networks_paired {c : Creation} {m : Machine} (hderived : c.Derived)
    (hzadm : PlainOutput c.zadm) (h : Reaches step Fits c.created m) :
    Paired c.toNumber m ∧ ∀ saved, Fits m (.transportRemove saved) →
      RemovesPair c.toNumber m (transportRemove m saved) := by
  have hcoherent : Coherent c.toNumber m :=
    h.invariant (created_coherent hderived hzadm) fun _ _ _ ha hfits hstep => ha.step hfits hstep
  exact ⟨hcoherent.paired, fun _ hfits => transportRemove_removesPair hcoherent hfits⟩

section Runs

def numberOf : Json → Option ℚ
  | .num q => some q
  | _ => none

/-- A packaged create with one network of its own; the transport is attached behind it. -/
def packaged : Creation where
  toNumber := numberOf
  network := ⟨true, "zwestub_0", "255.255.255.0", "10.190.190.1"⟩
  zoneName := "web"
  metadata := ⟨some "1", none, none, none⟩
  body := [("networks", .arr [.obj [("type", .str "external"), ("bridge", .str "igb0")]]),
    ("provisioner_ref", .obj [("name", .str "base")])]
  bodyNics := []
  zadm := []

theorem plainOutput_nil : PlainOutput [] := fun _ _ => rfl

theorem networks_paired_removed : ∃ m, (Reaches step Fits packaged.created m ∧
    m.nets.length = 1) ∧ Paired packaged.toNumber m := by
  obtain ⟨m, hrun, hlength⟩ := exists_reaches_of_run step Fits packaged.created
    [.transportRemove true] (P := fun m => m.nets.length = 1) (by decide +kernel)
  exact ⟨m, ⟨hrun, hlength⟩, (networks_paired (fun _ => rfl) plainOutput_nil hrun).1⟩

/-- An added nic has no entry beside it. -/
theorem networks_paired_fails : ¬ ∀ (c : Creation) (m : Machine), c.Derived →
    PlainOutput c.zadm → Reaches step (fun _ _ => True) c.created m →
      Paired c.toNumber m ∧ ∀ saved, RemovesPair c.toNumber m (transportRemove m saved) := by
  intro hclaim
  obtain ⟨m, hrun, hlength⟩ := exists_reaches_of_run step (fun _ _ => True) packaged.created
    [.addNics [⟨none, some "external", none, none, none⟩]]
    (P := fun m => m.networks.length = 2 ∧ m.nets.length = 3) (by decide +kernel)
  have hpaired := (hclaim packaged m (fun _ => rfl) plainOutput_nil hrun).1
  have heq := hpaired.length_eq
  omega

end Runs

end ZoneweaverAgent.NetworkPairing
