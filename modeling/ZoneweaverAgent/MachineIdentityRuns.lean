import ZoneweaverAgent.MachineIdentity
import ZoneweaverAgent.Transition

/-!
# Machine identity is unique where the checks see what they look for

A run keeps the machines' names and server ids apart as long as no check is overtaken: every other
holder of the number has its row, in the same spelling, every other holder of the name has its zone,
and no second request stands between its checks and its task rows with the same identity.
-/

namespace ZoneweaverAgent.MachineIdentity
open MachineDisks Transition

theorem sameNumber_comm (id id' : Option String) : sameNumber id id' = sameNumber id' id := by
  unfold sameNumber
  cases id.bind idNumber <;> cases id'.bind idNumber <;> simp [eq_comm]

section Requests
variable {prefixZoneNames : Bool} {rows : Rows} {zones : List String} {q q' : Request}

theorem checkServerId_eq (h : Request.checkServerId prefixZoneNames rows q = some q') :
    (∃ problem, q' = .refuse problem) ∨ ∃ entry rest name, q.todo = entry :: rest ∧
      q.progress = .start ∧ resolveCloneName prefixZoneNames rows entry.explicitName
        entry.host.baseName entry.host.settingsId = .ok name ∧
      q' = { q with progress := .named name } := by
  unfold Request.checkServerId at h
  split at h
  · next entry rest htodo hprogress =>
    split at h
    · next name hname =>
      exact .inr ⟨entry, rest, name, htodo, hprogress, hname, (Option.some.inj h).symm⟩
    · next problem _ => exact .inl ⟨problem, (Option.some.inj h).symm⟩
  · cases h

theorem checkRow_eq (h : Request.checkRow rows q = some q') :
    (∃ problem, q' = .refuse problem) ∨
      ∃ name, q.progress = .named name ∧ q' = { q with progress := .rowFree name } := by
  unfold Request.checkRow at h
  split at h
  · next name hprogress =>
    split at h
    · next problem _ => exact .inl ⟨problem, (Option.some.inj h).symm⟩
    · exact .inr ⟨name, hprogress, (Option.some.inj h).symm⟩
  · cases h

theorem zoneConflict_eq_none {name : String} : zoneConflict zones name = none ↔ name ∉ zones := by
  unfold zoneConflict
  split_ifs with hzone <;> simp [hzone]

theorem checkZone_eq (h : Request.checkZone zones q = some q') :
    (∃ problem, q' = .refuse problem) ∨ ∃ entry rest name, q.todo = entry :: rest ∧
      q.progress = .rowFree name ∧ name ∉ zones ∧ (∀ p ∈ q.prepared, p.finalZoneName ≠ name) ∧
      q' = ⟨rest, .start, q.prepared ++ [⟨name, entry.recordedId⟩]⟩ := by
  unfold Request.checkZone at h
  split at h
  · next entry rest name htodo hprogress =>
    split at h
    · next problem _ => exact .inl ⟨problem, (Option.some.inj h).symm⟩
    · next hzone =>
      split_ifs at h with hseen
      · exact .inl ⟨_, (Option.some.inj h).symm⟩
      · refine .inr ⟨entry, rest, name, htodo, hprogress, zoneConflict_eq_none.mp hzone, ?_,
          (Option.some.inj h).symm⟩
        simpa using hseen
  · cases h

/-- A prefixed name stands for an id that no row carries in that spelling. -/
theorem resolveCloneName_fresh {entry : Entry} {name id : String}
    (h : resolveCloneName true rows entry.explicitName entry.host.baseName
      entry.host.settingsId = .ok name)
    (hid : entry.checkedId = some id) : ∀ row ∈ rows, row.2 ≠ some id := by
  unfold Entry.checkedId at hid
  split_ifs at hid with hexplicit
  obtain ⟨settingsId, hsettings, rfl⟩ := Option.map_eq_some_iff.mp hid
  have hnone : entry.explicitName = none := by simpa using hexplicit
  rw [hnone, hsettings] at h
  simp only [resolveCloneName, resolveZoneName, Bool.not_true, Bool.false_eq_true, if_false] at h
  split_ifs at h with hnumeric
  cases hrow : rowWithId rows (padStart4 settingsId) with
  | some owner =>
    rw [hrow] at h
    cases h
  | none =>
    intro row hmem hcarries
    rw [rowWithId, Option.map_eq_none_iff, List.find?_eq_none] at hrow
    exact hrow row hmem (by simpa using hcarries)

end Requests

section Invariant
variable {prefixZoneNames : Bool} {machines machines' : KeyedList ℕ Machine} {q : Request}

/-- What a request in flight still owns: names and ids that no machine has. -/
structure Pending (prefixZoneNames : Bool) (machines : KeyedList ℕ Machine) (q : Request) :
    Prop where
  names : q.prepared.Pairwise fun p p' => p.finalZoneName ≠ p'.finalZoneName
  freshNames : ∀ p ∈ q.prepared, ∀ t m, machines.get t = some m →
    m.finalZoneName ≠ p.finalZoneName
  plain : prefixZoneNames = true → ∀ e ∈ q.todo, e.recordedId = e.checkedId
  ids : prefixZoneNames = true → (q.prepared.map Prepared.serverId ++
    q.todo.map Entry.recordedId).Pairwise fun id id' => sameNumber id id' = false
  freshIds : prefixZoneNames = true → ∀ id ∈ q.checkedIds, ∀ t m, machines.get t = some m →
    sameNumber m.serverId id = false

/-- Every identity of the one fleet is one of the other, under the same key. -/
def IdentitiesIn (machines' machines : KeyedList ℕ Machine) : Prop :=
  ∀ t m', machines'.get t = some m' → ∃ m, machines.get t = some m ∧
    m.finalZoneName = m'.finalZoneName ∧ m.serverId = m'.serverId

theorem Pending.mono (h : Pending prefixZoneNames machines q)
    (hsub : IdentitiesIn machines' machines) : Pending prefixZoneNames machines' q := by
  refine ⟨h.names, fun p hp t m' hm' => ?_, h.plain, h.ids, fun hpfx id hid t m' hm' => ?_⟩
  · obtain ⟨m, hm, hname, -⟩ := hsub t m' hm'
    rw [← hname]
    exact h.freshNames p hp t m hm
  · obtain ⟨m, hm, -, hserver⟩ := hsub t m' hm'
    rw [← hserver]
    exact h.freshIds hpfx id hid t m hm

theorem identitiesIn_set {t : ℕ} {m : Machine} (h : machines.get t = some m) (stage : Stage) :
    IdentitiesIn (machines.set t { m with stage }) machines := by
  intro t' m' hm'
  rw [KeyedList.get_set] at hm'
  split_ifs at hm' with heq
  · subst heq
    obtain rfl := Option.some.inj hm'
    exact ⟨m, h, rfl, rfl⟩
  · exact ⟨m', hm', rfl, rfl⟩

theorem identitiesIn_erase (t : ℕ) : IdentitiesIn (machines.erase t) machines :=
  fun _ m' hm' => ⟨m', (KeyedList.get_erase_eq_some hm').2, rfl, rfl⟩

theorem Pending.refuse (problem : Refusal) :
    Pending prefixZoneNames machines (.refuse problem) := by
  refine ⟨.nil, ?_, ?_, fun _ => .nil, ?_⟩
  · intro p hp
    cases hp
  · intro _ e he
    cases he
  · intro _ id hid
    cases hid

structure Coherent (w : World) : Prop where
  unique : Unique w
  live : ∀ t m, w.machines.get t = some m → m.stage ≠ .queued → m.finalZoneName ∈ w.zones
  recorded : ∀ t m, w.machines.get t = some m → m.stage = .finalized →
    w.rows.get m.finalZoneName = some m.serverId
  requests : ∀ r q, w.requests.get r = some q → Pending w.prefixZoneNames w.machines q

end Invariant

section Steps
variable {w w' : World}

theorem Unique.mono (h : Unique w) (hpfx : w'.prefixZoneNames = w.prefixZoneNames)
    (hsub : IdentitiesIn w'.machines w.machines) : Unique w' := by
  constructor
  · intro t t' m m' hm hm' hname
    obtain ⟨n, hn, hnameₙ, -⟩ := hsub t m hm
    obtain ⟨n', hn', hnameₙ', -⟩ := hsub t' m' hm'
    exact h.names t t' n n' hn hn' (by rw [hnameₙ, hnameₙ', hname])
  · intro hp t t' m m' hm hm' hid
    obtain ⟨n, hn, -, hidₙ⟩ := hsub t m hm
    obtain ⟨n', hn', -, hidₙ'⟩ := hsub t' m' hm'
    exact h.ids (hpfx ▸ hp) t t' n n' hn hn' (by rw [hidₙ, hidₙ', hid])

theorem Settled.coherent (h : Settled w) : Coherent w := by
  refine ⟨h.unique, fun t m hm _ => (h.recorded t m hm).2.1,
    fun t m hm _ => (h.recorded t m hm).2.2, fun r q hq => ?_⟩
  rw [h.noRequests] at hq
  cases hq

theorem Coherent.setRequest (h : Coherent w) (r : ℕ) {q : Request}
    (hq : Pending w.prefixZoneNames w.machines q) : Coherent (w.setRequest r q) := by
  refine ⟨⟨h.unique.names, h.unique.ids⟩, h.live, h.recorded, fun r' q' hq' => ?_⟩
  change (w.requests.set r q).get r' = some q' at hq'
  rw [KeyedList.get_set] at hq'
  split_ifs at hq'
  · obtain rfl := Option.some.inj hq'
    exact hq
  · exact h.requests r' q' hq'

theorem pending_submitted {submission : Submission}
    (h : w.prefixZoneNames = true → submission.Plain) :
    Pending w.prefixZoneNames w.machines (.submitted submission) := by
  refine ⟨.nil, fun p hp => ?_, fun hpfx => (h hpfx).1, fun hpfx => ?_,
    fun _ id hid => ?_⟩
  · cases hp
  · exact List.pairwise_map.mpr (h hpfx).2
  · have hnone : (Request.submitted submission).checkedIds = [] := by
      cases hentries : submission.entries <;>
        simp [Request.checkedIds, Request.inCheck, Request.submitted, hentries]
    rw [hnone] at hid
    cases hid

/-- The check refuses an id whose number a machine already has. -/
theorem checkServerId_pending (h : Coherent w) {q q' : Request}
    (hq : Pending w.prefixZoneNames w.machines q)
    (hseen : w.prefixZoneNames = true → ∀ entry ∈ q.todo.head?, IdSeen w entry.recordedId)
    (hq' : Request.checkServerId w.prefixZoneNames w.rows q = some q') :
    Pending w.prefixZoneNames w.machines q' := by
  obtain ⟨problem, rfl⟩ | ⟨entry, rest, name, htodo, hprogress, hname, rfl⟩ := checkServerId_eq hq'
  · exact .refuse problem
  refine ⟨hq.names, hq.freshNames, hq.plain, hq.ids, fun hpfx id hid t m hm => ?_⟩
  have hcases : id ∈ q.checkedIds ∨ id = entry.recordedId := by
    simpa [Request.checkedIds, Request.inCheck, htodo, hprogress] using hid
  rcases hcases with hold | rfl
  · exact hq.freshIds hpfx id hold t m hm
  by_contra hclash
  have hsame : sameNumber m.serverId entry.recordedId = true := by simpa using hclash
  obtain ⟨hfinal, hspelling⟩ := hseen hpfx entry (by simp [htodo]) (t, m)
    (KeyedList.mem_of_get hm) hsame
  have hrow : (m.finalZoneName, m.serverId) ∈ w.rows :=
    KeyedList.mem_of_get (h.recorded t m hm hfinal)
  have hchecked : entry.recordedId = entry.checkedId :=
    hq.plain hpfx entry (by simp [htodo])
  cases hid : m.serverId with
  | none => simp [sameNumber, hid] at hsame
  | some id =>
    rw [hpfx] at hname
    have hcheckedId : entry.checkedId = some id := by rw [← hchecked, ← hspelling, hid]
    exact resolveCloneName_fresh hname hcheckedId _ hrow hid

theorem checkRow_pending {q q' : Request} (hq : Pending w.prefixZoneNames w.machines q)
    (hq' : Request.checkRow w.rows q = some q') : Pending w.prefixZoneNames w.machines q' := by
  obtain ⟨problem, rfl⟩ | ⟨name, hprogress, rfl⟩ := checkRow_eq hq'
  · exact .refuse problem
  refine ⟨hq.names, hq.freshNames, hq.plain, hq.ids, fun hpfx id hid => ?_⟩
  refine hq.freshIds hpfx id ?_
  cases htodo : q.todo <;>
    simpa [Request.checkedIds, Request.inCheck, htodo, hprogress] using hid

theorem checkZone_pending (h : Coherent w) {q q' : Request}
    (hq : Pending w.prefixZoneNames w.machines q)
    (hlive : ∀ tm ∈ w.machines, q.progress = .rowFree tm.2.finalZoneName → tm.2.stage ≠ .queued)
    (hq' : Request.checkZone w.zones q = some q') :
    Pending w.prefixZoneNames w.machines q' := by
  obtain ⟨problem, rfl⟩ | ⟨entry, rest, name, htodo, hprogress, hzone, hseen, rfl⟩ :=
    checkZone_eq hq'
  · exact .refuse problem
  refine ⟨?_, fun p hp t m hm => ?_, fun hpfx e he => ?_, fun hpfx => ?_,
    fun hpfx id hid t m hm => ?_⟩
  · rw [List.pairwise_append]
    refine ⟨hq.names, List.pairwise_singleton _ _, fun p hp p' hp' => ?_⟩
    rw [List.mem_singleton.mp hp']
    exact hseen p hp
  · rcases List.mem_append.mp hp with hold | hnew
    · exact hq.freshNames p hold t m hm
    · rw [List.mem_singleton.mp hnew]
      intro (hname : m.finalZoneName = name)
      have hstage := hlive (t, m) (KeyedList.mem_of_get hm) (by rw [hprogress, hname])
      exact hzone (hname ▸ h.live t m hm hstage)
  · exact hq.plain hpfx e (by simp [htodo, he])
  · have hids := hq.ids hpfx
    rw [htodo] at hids
    simpa using hids
  · refine hq.freshIds hpfx id ?_ t m hm
    have hnone : Request.inCheck ⟨rest, .start, q.prepared ++ [⟨name, entry.recordedId⟩]⟩ = [] := by
      cases rest <;> rfl
    simpa [Request.checkedIds, Request.inCheck, hnone, htodo, hprogress] using hid

theorem Coherent.advance (h : Coherent w) {r : ℕ} {f : Request → Option Request}
    (hf : ∀ q q', w.requests.get r = some q → Pending w.prefixZoneNames w.machines q →
      f q = some q' → Pending w.prefixZoneNames w.machines q')
    (hw : w.advance r f = some w') : Coherent w' := by
  obtain ⟨q, hq, hrest⟩ := Option.bind_eq_some_iff.mp hw
  obtain ⟨q', hq', rfl⟩ := Option.map_eq_some_iff.mp hrest
  exact h.setRequest r (hf q q' hq (h.requests r q hq) hq')

/-- Task rows are created for an identity that no machine has. -/
theorem Coherent.queue (h : Coherent w) {r t : ℕ}
    (hfree : ∀ request ∈ w.requests.get r, ∀ p ∈ request.prepared.head?, NotPending w r p)
    (hw : w.queue r t = some w') : Coherent w' := by
  unfold World.queue at hw
  split at hw
  case h_2 => cases hw
  next progress p rest hq =>
  split_ifs at hw with hhas
  obtain rfl := Option.some.inj hw
  have hpending := h.requests r _ hq
  have hfreeₚ : NotPending w r p := hfree _ hq p rfl
  have hp : p ∈ p :: rest := List.mem_cons_self
  have hmachine : ∀ t' m,
      (w.machines.set t ⟨p.finalZoneName, p.serverId, .queued⟩).get t' = some m →
      (t = t' ∧ m = ⟨p.finalZoneName, p.serverId, .queued⟩) ∨ w.machines.get t' = some m := by
    intro t' m hm
    rw [KeyedList.get_set] at hm
    split_ifs at hm with heq
    · exact .inl ⟨heq, (Option.some.inj hm).symm⟩
    · exact .inr hm
  refine ⟨⟨?_, ?_⟩, ?_, ?_, ?_⟩
  · intro t₁ t₂ m₁ m₂ hm₁ hm₂ hname
    obtain ⟨rfl, rfl⟩ | hold₁ := hmachine t₁ m₁ hm₁ <;>
      obtain ⟨rfl, rfl⟩ | hold₂ := hmachine t₂ m₂ hm₂
    · rfl
    · exact absurd hname.symm (hpending.freshNames p hp t₂ m₂ hold₂)
    · exact absurd hname (hpending.freshNames p hp t₁ m₁ hold₁)
    · exact h.unique.names t₁ t₂ m₁ m₂ hold₁ hold₂ hname
  · intro hpfx t₁ t₂ m₁ m₂ hm₁ hm₂ hid
    have hfreshId := hpending.freshIds hpfx p.serverId (by simp [Request.checkedIds])
    obtain ⟨rfl, rfl⟩ | hold₁ := hmachine t₁ m₁ hm₁ <;>
      obtain ⟨rfl, rfl⟩ | hold₂ := hmachine t₂ m₂ hm₂
    · rfl
    · rw [sameNumber_comm] at hid
      simp [hfreshId t₂ m₂ hold₂] at hid
    · simp [hfreshId t₁ m₁ hold₁] at hid
    · exact h.unique.ids hpfx t₁ t₂ m₁ m₂ hold₁ hold₂ hid
  · intro t' m hm hstage
    obtain ⟨-, rfl⟩ | hold := hmachine t' m hm
    · exact absurd rfl hstage
    · exact h.live t' m hold hstage
  · intro t' m hm hstage
    obtain ⟨-, rfl⟩ | hold := hmachine t' m hm
    · cases hstage
    · exact h.recorded t' m hold hstage
  · intro r' q' hq'
    change (w.requests.set r ⟨[], progress, rest⟩).get r' = some q' at hq'
    rw [KeyedList.get_set] at hq'
    split_ifs at hq' with heq
    · obtain rfl := Option.some.inj hq'
      have hnames := List.pairwise_cons.mp hpending.names
      refine ⟨hnames.2, fun p' hp' t' m hm => ?_, fun _ e he => ?_, fun hpfx => ?_,
        fun hpfx id hid t' m hm => ?_⟩
      · obtain ⟨-, rfl⟩ | hold := hmachine t' m hm
        · exact hnames.1 p' hp'
        · exact hpending.freshNames p' (List.mem_cons_of_mem _ hp') t' m hold
      · cases he
      · exact (List.pairwise_cons.mp (hpending.ids hpfx)).2
      · have hrest : id ∈ rest.map Prepared.serverId := by
          simpa [Request.checkedIds, Request.inCheck] using hid
        obtain ⟨-, rfl⟩ | hold := hmachine t' m hm
        · exact (List.pairwise_cons.mp (hpending.ids hpfx)).1 id (List.mem_append_left _ hrest)
        · refine hpending.freshIds hpfx id ?_ t' m hold
          exact List.mem_append_left _ (List.mem_cons_of_mem _ hrest)
    · have hold := h.requests r' q' hq'
      have hother := hfreeₚ (r', q') (KeyedList.mem_of_get hq') (Ne.symm heq)
      refine ⟨hold.names, fun p' hp' t' m hm => ?_, hold.plain, hold.ids,
        fun hpfx id hid t' m hm => ?_⟩
      · obtain ⟨-, rfl⟩ | holdₘ := hmachine t' m hm
        · exact (hother.1 p' hp').symm
        · exact hold.freshNames p' hp' t' m holdₘ
      · obtain ⟨-, rfl⟩ | holdₘ := hmachine t' m hm
        · exact hother.2 hpfx id hid
        · exact hold.freshIds hpfx id hid t' m holdₘ

theorem onMachine_eq {t : ℕ} {stage : Stage} {f : Machine → Option World}
    (h : w.onMachine t stage f = some w') :
    ∃ m, w.machines.get t = some m ∧ m.stage = stage ∧ f m = some w' := by
  obtain ⟨m, hm, hrest⟩ := Option.bind_eq_some_iff.mp h
  split_ifs at hrest with hstage
  exact ⟨m, hm, hstage, hrest⟩

theorem Coherent.dropMachine (h : Coherent w) (t : ℕ) : Coherent (w.dropMachine t) := by
  have hsub : IdentitiesIn (w.dropMachine t).machines w.machines := identitiesIn_erase t
  refine ⟨h.unique.mono rfl hsub, fun t' m hm => ?_, fun t' m hm => ?_,
    fun r q hq => (h.requests r q hq).mono hsub⟩
  · exact h.live t' m (KeyedList.get_erase_eq_some hm).2
  · exact h.recorded t' m (KeyedList.get_erase_eq_some hm).2

/-- A sub-task that moves its machine on, the others' zones and rows kept. -/
theorem Coherent.moveOn (h : Coherent w) {t : ℕ} {m : Machine} (hm : w.machines.get t = some m)
    (stage : Stage) {rows : Rows} {zones : List String} (hzones : ∀ z ∈ w.zones, z ∈ zones)
    (hlive : stage ≠ .queued → m.finalZoneName ∈ zones)
    (hrecorded : stage = .finalized → rows.get m.finalZoneName = some m.serverId)
    (hrows : ∀ t' m', t ≠ t' → w.machines.get t' = some m' → m'.stage = .finalized →
      rows.get m'.finalZoneName = w.rows.get m'.finalZoneName) :
    Coherent { w.setMachine t { m with stage } with rows, zones } := by
  have hsub : IdentitiesIn (w.machines.set t { m with stage }) w.machines :=
    identitiesIn_set hm stage
  have hmachine : ∀ t' m', (w.machines.set t { m with stage }).get t' = some m' →
      m' = { m with stage } ∨ (t ≠ t' ∧ w.machines.get t' = some m') := by
    intro t' m' hm'
    rw [KeyedList.get_set] at hm'
    split_ifs at hm' with heq
    · exact .inl (Option.some.inj hm').symm
    · exact .inr ⟨heq, hm'⟩
  refine ⟨h.unique.mono rfl hsub, fun t' m' hm' hstage => ?_, fun t' m' hm' hstage => ?_,
    fun r q hq => (h.requests r q hq).mono hsub⟩
  · obtain rfl | ⟨-, hold⟩ := hmachine t' m' hm'
    · exact hlive hstage
    · exact hzones _ (h.live t' m' hold hstage)
  · obtain rfl | ⟨hne, hold⟩ := hmachine t' m' hm'
    · exact hrecorded hstage
    · exact (hrows t' m' hne hold hstage).trans (h.recorded t' m' hold hstage)

theorem Coherent.configure (h : Coherent w) {t : ℕ} {m : Machine}
    (hm : w.machines.get t = some m) : Coherent (w.configure t m) := by
  unfold World.configure
  split_ifs with hzone
  · exact h.dropMachine t
  · exact h.moveOn hm .configured (fun z hz => List.mem_append_left _ hz)
      (fun _ => List.mem_append_right _ List.mem_cons_self) (fun hstage => by cases hstage)
      (fun _ _ _ _ _ => rfl)

theorem Coherent.sync (h : Coherent w) {t : ℕ} {m : Machine}
    (hm : w.machines.get t = some m) (hstage : m.stage = .configured) :
    Coherent (w.sync t m) := by
  refine h.moveOn hm .synced (fun z hz => hz) (fun _ => h.live t m hm (by simp [hstage]))
    (fun hfinal => by cases hfinal) fun t' m' hne hm' hfinal => ?_
  split_ifs with hhas
  · rfl
  · refine KeyedList.get_set_of_ne _ _ fun hname => hne ?_
    exact h.unique.names t t' m m' hm hm' hname

theorem Coherent.record (h : Coherent w) {t : ℕ} {m : Machine}
    (hm : w.machines.get t = some m) (hstage : m.stage = .synced)
    (hw : w.record t m = some w') : Coherent w' := by
  unfold World.record at hw
  split_ifs at hw
  obtain rfl := Option.some.inj hw
  refine h.moveOn hm .finalized (fun z hz => hz) (fun _ => h.live t m hm (by simp [hstage]))
    (fun _ => KeyedList.get_set_self _ _ _) fun t' m' hne hm' hfinal => ?_
  refine KeyedList.get_set_of_ne _ _ fun hname => hne ?_
  exact h.unique.names t t' m m' hm hm' hname

theorem Coherent.step (h : Coherent w) {l : Label} (hfits : Fits w l)
    (hw : step w l = some w') : Coherent w' := by
  cases l with
  | submit r submission =>
    simp only [MachineIdentity.step] at hw
    split_ifs at hw
    obtain rfl := Option.some.inj hw
    exact h.setRequest r (pending_submitted hfits)
  | checkServerId r =>
    refine h.advance (fun q q' hget hq hq' => ?_) hw
    exact checkServerId_pending h hq (fun hpfx => hfits hpfx q hget) hq'
  | checkRow r => exact h.advance (fun _ _ _ hq hq' => checkRow_pending hq hq') hw
  | checkZone r =>
    exact h.advance (fun q q' hget hq hq' => checkZone_pending h hq (hfits q hget) hq') hw
  | refuse r problem =>
    refine h.advance (fun q q' _ _ hq' => ?_) hw
    obtain rfl := Option.some.inj hq'
    exact .refuse problem
  | queue r t => exact h.queue hfits hw
  | storageFails t =>
    obtain ⟨m, -, -, hm⟩ := onMachine_eq hw
    obtain rfl := Option.some.inj hm
    exact h.dropMachine t
  | configure t =>
    obtain ⟨m, hget, -, hm⟩ := onMachine_eq hw
    obtain rfl := Option.some.inj hm
    exact h.configure hget
  | sync t =>
    obtain ⟨m, hget, hstage, hm⟩ := onMachine_eq hw
    obtain rfl := Option.some.inj hm
    exact h.sync hget hstage
  | record t =>
    obtain ⟨m, hget, hstage, hm⟩ := onMachine_eq hw
    exact h.record hget hstage hm

end Steps

/-- No two machines of a run share a name, nor a number where names are prefixed, as long as every
check sees the identities it looks for. -/
theorem identity_unique {w w' : World} (h : Settled w) (hrun : Reaches step Fits w w') :
    Unique w' :=
  (hrun.invariant h.coherent fun _ _ _ ha hfits hstep => ha.step hfits hstep).unique

section Runs

def emptyHost : World := ⟨true, [], [], [], []⟩

/-- All the steps of one request for one machine. -/
def createdAlone (r : ℕ) (submission : Submission) : List Label :=
  [.submit r submission, .checkServerId r, .checkRow r, .checkZone r, .queue r r, .configure r,
    .sync r, .record r]

theorem settled_emptyHost : Settled emptyHost := by
  refine ⟨rfl, fun t m hm => ?_, ⟨fun t t' m m' hm => ?_, fun _ t t' m m' hm => ?_⟩⟩ <;> cases hm

/-- A create, a clone and a multi-host document, one after the other. -/
def threeMachines : List Label :=
  createdAlone 0 (.create ⟨"web.example.com", some "42", none⟩) ++
    createdAlone 1 (.clone none "db.example.com" (some "0043")) ++
    createdAlone 2 (.multiHost [⟨"mail.example.com", some "44", none⟩])

theorem identity_unique_three : ∃ w', (Reaches step Fits emptyHost w' ∧
    w'.machines.length = 3) ∧ Unique w' := by
  obtain ⟨w', hrun, hlength⟩ := exists_reaches_of_run step Fits emptyHost threeMachines
    (P := fun w' => w'.machines.length = 3) (by decide +kernel)
  exact ⟨w', ⟨hrun, hlength⟩, identity_unique settled_emptyHost hrun⟩

/-- `00042` is not the spelling under which the first machine's row carries 42. -/
def spelledTwice : List Label :=
  createdAlone 0 (.create ⟨"web.example.com", some "42", none⟩) ++
    createdAlone 1 (.create ⟨"db.example.com", some "00042", none⟩)

theorem identity_unique_fails : ¬ ∀ w w', Settled w →
    Reaches step (fun _ _ => True) w w' → Unique w' := by
  intro hclaim
  obtain ⟨w', hrun, hpfx, m, hm, m', hm', hid⟩ :=
    exists_reaches_of_run step (fun _ _ => True) emptyHost spelledTwice
      (P := fun w' => w'.prefixZoneNames = true ∧ ∃ m ∈ w'.machines.get 0,
        ∃ m' ∈ w'.machines.get 1, sameNumber m.serverId m'.serverId = true)
      (by decide +kernel)
  have heq := (hclaim _ _ settled_emptyHost hrun).ids hpfx 0 1 m m' hm hm' hid
  cases heq

def namesAfter (labels : List Label) : Option (List String) :=
  (run step (fun _ _ => True) emptyHost labels).map fun w =>
    w.machines.map fun tm => tm.2.finalZoneName

-- two creates of one machine, both checked before either is queued
example : namesAfter [.submit 0 (.create ⟨"web", some "42", none⟩),
    .submit 1 (.create ⟨"web", some "42", none⟩), .checkServerId 0, .checkServerId 1, .checkRow 0,
    .checkRow 1, .checkZone 0, .checkZone 1, .queue 0 0, .queue 1 1] =
    some ["0042--web", "0042--web"] := by decide +kernel

-- two hosts of one document with one server id
example : namesAfter [.submit 0 (.multiHost [⟨"web", some "42", none⟩, ⟨"db", some "42", none⟩]),
    .checkServerId 0, .checkRow 0, .checkZone 0, .checkServerId 0, .checkRow 0, .checkZone 0,
    .queue 0 0, .queue 0 1] = some ["0042--web", "0042--db"] := by decide +kernel

end Runs

end ZoneweaverAgent.MachineIdentity
