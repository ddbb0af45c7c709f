import ZoneweaverAgent.VnicNames
import ZoneweaverAgent.Transition

/-!
# Generated VNIC names differ where every machine has an id and no index comes back

A generated name gives back the padded server id and the index in it. With one id for each machine
and one NIC for each index of a machine, the names differ, and modify names a NIC as create would.
-/

namespace ZoneweaverAgent.VnicNames
open MachineDisks Transition

section Names
variable {t t' v v' : Char} {id id' : String} {i i' : ℕ}

theorem toList_toString (i : ℕ) : (toString i).toList = Nat.toDigits 10 i := Nat.toList_repr

theorem underscore_notMem_toString (i : ℕ) : '_' ∉ (toString i).toList := by
  rw [toList_toString]
  intro hmem
  have hdigit : Char.isDigit '_' = true :=
    Nat.isDigit_of_mem_toDigits (b := 10) (by decide) (by decide) hmem
  cases hdigit

theorem toString_inj (h : (toString i).toList = (toString i').toList) : i = i' := by
  rw [toList_toString, toList_toString] at h
  have hnumber := congrArg (fun digits => Nat.ofDigitChars 10 digits 0) h
  simpa using hnumber

/-- The last separator of a name is found from the end. -/
theorem append_underscore_inj {a a' d d' : List Char} (hd : '_' ∉ d) (hd' : '_' ∉ d')
    (h : a ++ '_' :: d = a' ++ '_' :: d') : a = a' ∧ d = d' := by
  rcases List.append_eq_append_iff.mp h with ⟨e, ha, he⟩ | ⟨e, ha, he⟩
  · cases e with
    | nil => simp_all
    | cons c e =>
      have hmem : '_' ∈ d := by
        rw [(List.cons.inj he).2]
        simp
      exact absurd hmem hd
  · cases e with
    | nil => simp_all
    | cons c e =>
      have hmem : '_' ∈ d' := by
        rw [(List.cons.inj he).2]
        simp
      exact absurd hmem hd'

theorem vnicName_inj (h : vnicName t v id i = vnicName t' v' id' i') : id = id' ∧ i = i' := by
  have hlist := congrArg String.toList h
  simp only [vnicName, String.toList_append, String.toList_ofList] at hlist
  have hsplit : ("vnic".toList ++ [t, v] ++ "_".toList ++ id.toList) ++ '_' :: (toString i).toList =
      ("vnic".toList ++ [t', v'] ++ "_".toList ++ id'.toList) ++ '_' :: (toString i').toList := by
    simpa using hlist
  obtain ⟨hleft, hindex⟩ := append_underscore_inj (underscore_notMem_toString i)
    (underscore_notMem_toString i') hsplit
  have hparts : t = t' ∧ v = v' ∧ id.toList = id'.toList := by simpa using hleft
  exact ⟨String.toList_injective hparts.2.2, toString_inj hindex⟩

end Names

section Machines
variable {metadata : Metadata} {name : Nic → ℕ → String} {vmChar : Char} {id : String}

/-- The net's name, where it was generated, is the name of its index under the id. -/
def NamedAfter (id : String) (net : Net) : Prop :=
  ∀ i, net.index = some i → ∃ t v, net.physical = vnicName t v id i

def DifferentIndex (net net' : Net) : Prop := ∀ i, net.index = some i → net'.index ≠ some i

theorem mem_netsOf {offset start : ℕ} {nics : List Nic} {net : Net}
    (h : net ∈ netsOf name offset start nics) {i : ℕ} (hi : net.index = some i) :
    ∃ nic index, start ≤ index ∧ index < start + nics.length ∧ i = offset + index ∧
      net.physical = name nic index := by
  induction nics generalizing start with
  | nil => cases h
  | cons nic rest ih =>
    rw [netsOf] at h
    rcases List.mem_cons.mp h with rfl | hrest
    · cases hphysical : nic.physical with
      | some physical => simp [hphysical] at hi
      | none =>
        simp only [hphysical, Option.some.injEq] at hi
        exact ⟨nic, start, le_rfl, by simp, hi.symm, by simp⟩
    · obtain ⟨nic', index, hle, hlt, hindex, hname⟩ := ih hrest
      exact ⟨nic', index, by omega, by rw [List.length_cons]; omega, hindex, hname⟩

theorem pairwise_netsOf (offset start : ℕ) (nics : List Nic) :
    (netsOf name offset start nics).Pairwise DifferentIndex := by
  induction nics generalizing start with
  | nil => exact .nil
  | cons nic rest ih =>
    rw [netsOf]
    refine List.pairwise_cons.mpr ⟨fun net' hnet' i hi hi' => ?_, ih (start + 1)⟩
    obtain ⟨-, index, hle, -, hindex, -⟩ := mem_netsOf hnet' hi'
    cases hphysical : nic.physical with
    | some physical => simp [hphysical] at hi
    | none =>
      simp only [hphysical, Option.some.injEq] at hi
      omega

/-- What a machine keeps: one id, under which its generated names count without repetition. -/
structure Named (m : Machine) : Prop where
  agrees : m.metadata.Agrees
  row : ∀ row, m.row = some row →
    row.serverId = m.metadata.recordedId ∧ row.vmType = m.metadata.recordedVmType
  nets : ∀ net ∈ m.nets, NamedAfter m.metadata.paddedId net
  indexes : m.nets.Pairwise DifferentIndex

theorem Metadata.Agrees.paddedId_eq (h : metadata.Agrees) :
    ∃ serverId, metadata.recordedId = some serverId ∧ metadata.paddedId = padStart4 serverId := by
  obtain ⟨serverId, hid⟩ := Option.isSome_iff_exists.mp h.1
  exact ⟨serverId, h.2.1.trans hid, by rw [Metadata.paddedId, hid]; rfl⟩

/-- Modify names a NIC by the id and the digit that create uses. -/
theorem addedName_eq {m : Machine} (h : Named m) {row : Row} (hrow : m.row = some row)
    (zoneName : String) (nic : Nic) (count index : ℕ) :
    addedName zoneName { row with netCount := count } nic index =
      m.metadata.generateVnicName nic (count + index) := by
  obtain ⟨serverId, hid, hpadded⟩ := h.agrees.paddedId_eq
  have hserver : row.serverId = some serverId := (h.row row hrow).1.trans hid
  rw [addedName, hserver, Metadata.generateVnicName, hpadded, h.agrees.2.2, (h.row row hrow).2]

theorem offset_eq {m : Machine} (h : Named m) {row : Row} (hrow : m.row = some row) :
    row.offset = row.netCount := by
  obtain ⟨serverId, hid, -⟩ := h.agrees.paddedId_eq
  have hserver : row.serverId = some serverId := (h.row row hrow).1.trans hid
  simp [Row.offset, hserver]

theorem named_configured (h : metadata.Agrees) (nics : List Nic) :
    Named ⟨metadata, configureNics metadata nics, none⟩ := by
  refine ⟨h, fun row hrow => ?_, fun net hnet i hi => ?_, pairwise_netsOf 0 0 nics⟩
  · cases hrow
  obtain ⟨nic, index, -, -, hindex, hname⟩ := mem_netsOf hnet hi
  rw [Nat.zero_add] at hindex
  subst hindex
  exact ⟨_, _, hname⟩

theorem Named.finalize {m : Machine} (h : Named m) : Named (finalize m) := by
  refine ⟨h.agrees, fun row hrow => ?_, h.nets, h.indexes⟩
  obtain rfl := Option.some.inj hrow
  exact ⟨rfl, rfl⟩

theorem Named.withNets {m : Machine} (h : Named m) {nets : List Net}
    (hnets : ∀ net ∈ nets, NamedAfter m.metadata.paddedId net)
    (hindexes : nets.Pairwise DifferentIndex) : Named (m.withNets nets) := by
  refine ⟨h.agrees, fun row hrow => ?_, hnets, hindexes⟩
  obtain ⟨row₀, hrow₀, rfl⟩ := Option.map_eq_some_iff.mp hrow
  exact h.row row₀ hrow₀

theorem Named.addNics {m : Machine} (h : Named m) {row : Row} (hrow : m.row = some row)
    (zoneName : String) (nics : List Nic)
    (hfree : ∀ net ∈ m.nets, net.reused row.offset nics.length = false) :
    Named (m.withNets (m.nets ++ addNics zoneName row nics)) := by
  have hoffset := offset_eq h hrow
  refine h.withNets (fun net hnet i hi => ?_) ?_
  · rcases List.mem_append.mp hnet with hold | hnew
    · exact h.nets net hold i hi
    · obtain ⟨nic, index, -, -, hindex, hname⟩ := mem_netsOf hnew hi
      rw [hname, addedName_eq h hrow zoneName nic row.netCount index, hindex, hoffset]
      exact ⟨_, _, rfl⟩
  · refine List.pairwise_append.mpr ⟨h.indexes, pairwise_netsOf _ 0 nics, ?_⟩
    intro net hold net' hnew i hi hi'
    obtain ⟨nic, index, -, hlt, hindex, -⟩ := mem_netsOf hnew hi'
    have hnotReused := hfree net hold
    simp only [Net.reused, hi, Option.any_some, Bool.and_eq_false_iff, decide_eq_false_iff_not]
      at hnotReused
    omega

theorem Named.removeNics {m : Machine} (h : Named m) {nicNames : List String} {nets : List Net}
    (hnets : removeNics m.nets nicNames = some nets) : Named (m.withNets nets) := by
  have hsub : ∀ (names : List String) (before after : List Net),
      VnicNames.removeNics before names = some after → after.Sublist before := by
    intro names
    induction names with
    | nil =>
      intro before after heq
      rw [Option.some.inj heq]
    | cons nicName rest ih =>
      intro before after heq
      rw [VnicNames.removeNics] at heq
      split_ifs at heq
      exact (ih _ _ heq).trans List.filter_sublist
  have hsublist := hsub nicNames m.nets nets hnets
  exact h.withNets (fun net hnet => h.nets net (hsublist.subset hnet)) (h.indexes.sublist hsublist)

end Machines

section Fleet
variable {w w' : World}

structure Coherent (w : World) : Prop where
  named : ∀ z m, w.get z = some m → Named m
  ids : ∀ z z' m m', w.get z = some m → w.get z' = some m' →
    m.metadata.paddedId = m'.metadata.paddedId → z = z'

theorem Coherent.set (h : Coherent w) (z : String) {m : Machine} (hm : Named m)
    (hid : ∀ z' m', w.get z' = some m' → m.metadata.paddedId = m'.metadata.paddedId → z = z') :
    Coherent (w.set z m) := by
  constructor
  · intro z' m' hm'
    rw [KeyedList.get_set] at hm'
    split_ifs at hm'
    · obtain rfl := Option.some.inj hm'
      exact hm
    · exact h.named z' m' hm'
  · intro z₁ z₂ m₁ m₂ hm₁ hm₂ heq
    rw [KeyedList.get_set] at hm₁ hm₂
    split_ifs at hm₁ with h₁ <;> split_ifs at hm₂ with h₂
    · exact h₁.symm.trans h₂
    · obtain rfl := Option.some.inj hm₁
      exact h₁.symm.trans (hid z₂ m₂ hm₂ heq)
    · obtain rfl := Option.some.inj hm₂
      exact (hid z₁ m₁ hm₁ heq.symm).symm.trans h₂
    · exact h.ids z₁ z₂ m₁ m₂ hm₁ hm₂ heq

/-- A machine changes and keeps its metadata. -/
theorem Coherent.change (h : Coherent w) {z : String} {m m' : Machine} (hm : w.get z = some m)
    (hm' : Named m') (hmetadata : m'.metadata = m.metadata) : Coherent (w.set z m') :=
  h.set z hm' fun z' n hn heq => h.ids z z' m n hm hn (hmetadata ▸ heq)

theorem Coherent.step (h : Coherent w) {l : Label} (hfits : Fits w l)
    (hw : step w l = some w') : Coherent w' := by
  cases l with
  | configure z metadata nics =>
    simp only [VnicNames.step] at hw
    split_ifs at hw
    obtain rfl := Option.some.inj hw
    refine h.set z (named_configured hfits.1 nics) fun z' m' hm' heq => ?_
    exact absurd heq.symm (hfits.2 (z', m') (KeyedList.mem_of_get hm'))
  | finalize z =>
    obtain ⟨m, hm, hrest⟩ := Option.bind_eq_some_iff.mp hw
    split_ifs at hrest
    obtain rfl := Option.some.inj hrest
    exact h.change hm (h.named z m hm).finalize rfl
  | addNics z nics =>
    obtain ⟨m, hm, hrest⟩ := Option.bind_eq_some_iff.mp hw
    obtain ⟨row, hrow, rfl⟩ := Option.map_eq_some_iff.mp hrest
    exact h.change hm ((h.named z m hm).addNics hrow z nics (hfits m hm row hrow)) rfl
  | removeNics z nicNames =>
    obtain ⟨m, hm, hrest⟩ := Option.bind_eq_some_iff.mp hw
    obtain ⟨row, -, hremoved⟩ := Option.bind_eq_some_iff.mp hrest
    obtain ⟨nets, hnets, rfl⟩ := Option.map_eq_some_iff.mp hremoved
    exact h.change hm ((h.named z m hm).removeNics hnets) rfl

theorem Coherent.distinct (h : Coherent w) : Distinct w := by
  constructor
  · intro z m hm
    have hnamed := h.named z m hm
    refine hnamed.indexes.imp_of_mem fun {n n'} hn hn' hdifferent hgenerated hgenerated' heq => ?_
    obtain ⟨i, hi⟩ := Option.isSome_iff_exists.mp hgenerated
    obtain ⟨i', hi'⟩ := Option.isSome_iff_exists.mp hgenerated'
    obtain ⟨t, v, hname⟩ := hnamed.nets n hn i hi
    obtain ⟨t', v', hname'⟩ := hnamed.nets n' hn' i' hi'
    have hindex : i = i' := (vnicName_inj (hname.symm.trans (heq.trans hname'))).2
    exact hdifferent i hi (hindex ▸ hi')
  · intro z z' m m' hne hm hm' n hn n' hn' hgenerated hgenerated' heq
    obtain ⟨i, hi⟩ := Option.isSome_iff_exists.mp hgenerated
    obtain ⟨i', hi'⟩ := Option.isSome_iff_exists.mp hgenerated'
    obtain ⟨t, v, hname⟩ := (h.named z m hm).nets n hn i hi
    obtain ⟨t', v', hname'⟩ := (h.named z' m' hm').nets n' hn' i' hi'
    have hid := (vnicName_inj (hname.symm.trans (heq.trans hname'))).1
    exact hne (h.ids z z' m m' hm hm' hid)

theorem Coherent.sameNames (h : Coherent w) : SameNames w := by
  intro z m row hm hrow nic count index
  exact (addedName_eq (h.named z m hm) hrow z nic count index).symm

end Fleet

/-- In a run from an empty host, generated names differ and create and modify agree on them, as long
as every create has a server id of its own and every addition counts from free indexes on. -/
theorem vnic_names_distinct {w' : World} (h : Reaches step Fits [] w') :
    Distinct w' ∧ SameNames w' := by
  have hempty : Coherent [] := by
    refine ⟨fun z m hm => ?_, fun z z' m m' hm => ?_⟩ <;> cases hm
  have hcoherent := h.invariant hempty fun _ _ _ ha hfits hstep => ha.step hfits hstep
  exact ⟨hcoherent.distinct, hcoherent.sameNames⟩

section Runs

def external : Nic := ⟨none, some "external"⟩

def stated (serverId : String) : Metadata := ⟨some serverId, none, none, none⟩

/-- Two machines with ids; the last NIC of the first is replaced. -/
def replacedLast : List Label :=
  [.configure "web" (stated "1") [external, external], .finalize "web",
    .configure "db" (stated "2") [external], .finalize "db",
    .removeNics "web" ["vnice3_0001_1"], .addNics "web" [external, external]]

theorem vnic_names_distinct_replaced : ∃ w', (Reaches step Fits [] w' ∧
    (w'.get "web").map (fun m => m.nets.length) = some 3) ∧ Distinct w' ∧ SameNames w' := by
  obtain ⟨w', hrun, hlength⟩ := exists_reaches_of_run step Fits [] replacedLast
    (P := fun w' => (w'.get "web").map (fun m => m.nets.length) = some 3) (by decide +kernel)
  exact ⟨w', ⟨hrun, hlength⟩, vnic_names_distinct hrun⟩

/-- Machines without a server id are all named after `0000`. -/
def withoutIds : List Label :=
  [.configure "web" ⟨none, none, none, none⟩ [external],
    .configure "db" ⟨none, none, none, none⟩ [external]]

theorem vnic_names_distinct_fails : ¬ ∀ w', Reaches step (fun _ _ => True) [] w' →
    Distinct w' ∧ SameNames w' := by
  intro hclaim
  obtain ⟨w', hrun, m, hm, m', hm', n, hn, n', hn', hgenerated, hgenerated', heq⟩ :=
    exists_reaches_of_run step (fun _ _ => True) [] withoutIds
      (P := fun w' => ∃ m ∈ w'.get "web", ∃ m' ∈ w'.get "db", ∃ n ∈ m.nets, ∃ n' ∈ m'.nets,
        n.index.isSome = true ∧ n'.index.isSome = true ∧ n.physical = n'.physical)
      (by decide +kernel)
  exact (hclaim w' hrun).1.across "web" "db" m m' (by decide) hm hm' n hn n' hn' hgenerated
    hgenerated' heq

def physicalsAfter (zoneName : String) (labels : List Label) : Option (List String) :=
  (run step (fun _ _ => True) [] labels).bind fun w =>
    (w.get zoneName).map fun m => m.nets.map Net.physical

-- a removal before the last NIC lets modify count to a live index
example : physicalsAfter "web" [.configure "web" (stated "1") [external, external],
    .finalize "web", .removeNics "web" ["vnice3_0001_0"], .addNics "web" [external]] =
    some ["vnice3_0001_1", "vnice3_0001_1"] := by decide +kernel

-- the row records the vm type of the zones section, create does not read it
example : physicalsAfter "web" [.configure "web" ⟨some "1", none, none, some "template"⟩ [external],
    .finalize "web", .addNics "web" [external]] =
    some ["vnice3_0001_0", "vnice1_0001_1"] := by decide +kernel

end Runs

end ZoneweaverAgent.VnicNames
