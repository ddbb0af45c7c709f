import ZoneweaverAgent.ApiKeys

/-!
# Revocation of API keys

Behind an answered removal the key of the entity opens nothing, as long as no verification is under
way when the cache is purged. The invariant: what the cache holds and what is about to enter it is
usable, that is active or still to be purged.
-/

namespace ZoneweaverAgent.ApiKeys
open RoutePattern RolePolicy Transition

section Definitions
variable (crypto : Crypto) (s : State)

def Entity.owns (e : Entity) (key : Text) : Prop :=
  apiKeyPattern key = some e.keyId ∧ crypto.compare key e.hash = true

/-- No request that came behind an answered removal got through with the key of the entity, and
between requests the cache holds active entities only. -/
structure RevocationFinal : Prop where
  refused : ∀ p ∈ s.passed, ∀ e ∈ s.entities, e.id ∈ p.since → ¬ e.owns crypto p.key
  purged : s.requests = [] → ∀ x ∈ s.cache, ∃ e ∈ s.rows, e.id = x.2.id ∧ e.active = true

/-- The request is about to cache the entity. -/
def Request.verifies (id : ℕ) : Request → Bool
  | .comparing p _ entity => entity.id = id ∧ crypto.compare p.key entity.hash
  | _ => false

def Request.purges : Request → Option ℕ
  | .written id => some id
  | _ => none

/-- A purge comes while no verification of the entity is between its row and the cache. -/
def Undisturbed : Label → Prop
  | .proceed i => ∀ purge ∈ s.requests[i]?, ∀ id ∈ purge.purges, ∀ r ∈ s.requests,
      r.verifies crypto id = false
  | _ => True

instance (e : Entity) (key : Text) : Decidable (e.owns crypto key) :=
  inferInstanceAs (Decidable (apiKeyPattern key = some e.keyId ∧ crypto.compare key e.hash = true))

instance : (l : Label) → Decidable (Undisturbed crypto s l)
  | .proceed i => inferInstanceAs (Decidable (∀ purge ∈ s.requests[i]?, ∀ id ∈ purge.purges,
      ∀ r ∈ s.requests, r.verifies crypto id = false))
  | .present _ => .isTrue trivial
  | .remove _ _ => .isTrue trivial
  | .bootstrap _ _ => .isTrue trivial
  | .generate _ _ => .isTrue trivial
  | .fail _ => .isTrue trivial

def Active (id : ℕ) : Prop := ∃ e ∈ s.rows, e.id = id ∧ e.active = true

def Usable (id : ℕ) : Prop := Active s id ∨ .written id ∈ s.requests

def Known (e : Entity) : Prop :=
  ∃ e' ∈ s.entities, e'.id = e.id ∧ e'.keyId = e.keyId ∧ e'.hash = e.hash

def RequestSound : Request → Prop
  | .reading p keyId since => apiKeyPattern p.key = some keyId ∧ since ⊆ s.answered
  | .comparing p since e => apiKeyPattern p.key = some e.keyId ∧ since ⊆ s.answered ∧ Known s e ∧
      (crypto.compare p.key e.hash = true → e.id ∉ s.answered ∧ Usable s e.id)
  | .counting _ e => e.id < s.nextId
  | .writing _ e => e.id < s.nextId
  | .written id => id < s.nextId ∧ ¬ Active s id
  | _ => True

def CachedSound (x : Text × Cached) : Prop :=
  (∃ key, ∃ e ∈ s.entities, crypto.sha256 key = x.1 ∧ e.owns crypto key ∧ e.id = x.2.id) ∧
    x.2.id ∉ s.answered ∧ Usable s x.2.id

structure Sound : Prop where
  rows : ∀ e ∈ s.rows, Known s e
  ids : ∀ e ∈ s.entities, e.id < s.nextId
  keyIds : ∀ e ∈ s.entities, ∀ e' ∈ s.entities, e.keyId = e'.keyId → e = e'
  answered : ∀ id ∈ s.answered, id < s.nextId ∧ ¬ Active s id
  requests : ∀ r ∈ s.requests, RequestSound crypto s r
  cache : ∀ x ∈ s.cache, CachedSound crypto s x
  passed : ∀ p ∈ s.passed, (∀ id ∈ p.since, id < s.nextId) ∧
    ∀ e ∈ s.entities, e.id ∈ p.since → ¬ e.owns crypto p.key

end Definitions

variable {crypto : Crypto} {config : Config} {s s' : State}

theorem Sound.final (h : Sound crypto s) : RevocationFinal crypto s := by
  refine ⟨fun p hp => (h.passed p hp).2, fun hquiet x hx => ?_⟩
  rcases (h.cache x hx).2.2 with hactive | hwritten
  · exact hactive
  · rw [hquiet] at hwritten
    cases hwritten

theorem sound_started (t : Table) : Sound crypto (.started t) :=
  ⟨fun e he => ⟨e, he, rfl, rfl, rfl⟩, t.ids, t.keyIds, fun _ h => absurd h List.not_mem_nil,
    fun _ h => absurd h List.not_mem_nil, fun _ h => absurd h List.not_mem_nil,
    fun _ h => absurd h List.not_mem_nil⟩

/-- What the requests, the cache and the record of passes need of a step that purges nothing. -/
structure Keeps (s s' : State) : Prop where
  entities : ∀ e ∈ s.entities, e ∈ s'.entities
  nextId : s.nextId ≤ s'.nextId
  answered : s'.answered = s.answered
  usable : ∀ id, Usable s id → Usable s' id
  active : ∀ id < s.nextId, Active s' id → Active s id

section Keeps
variable (h : Keeps s s')
include h

theorem Keeps.known {e : Entity} (he : Known s e) : Known s' e := by
  obtain ⟨e', hmem, hsame⟩ := he
  exact ⟨e', h.entities e' hmem, hsame⟩

theorem Keeps.requestSound {r : Request} (hr : RequestSound crypto s r) :
    RequestSound crypto s' r := by
  cases r with
  | reading p keyId since => exact ⟨hr.1, h.answered ▸ hr.2⟩
  | comparing p since e =>
    obtain ⟨hpattern, hsince, hknown, hvalid⟩ := hr
    refine ⟨hpattern, h.answered ▸ hsince, h.known hknown, fun hcompare => ?_⟩
    obtain ⟨hanswered, husable⟩ := hvalid hcompare
    exact ⟨h.answered ▸ hanswered, h.usable _ husable⟩
  | counting kind e => exact lt_of_lt_of_le hr h.nextId
  | writing kind e => exact lt_of_lt_of_le hr h.nextId
  | written id => exact ⟨lt_of_lt_of_le hr.1 h.nextId, fun hactive => hr.2 (h.active id hr.1 hactive)⟩
  | finding kind id => trivial
  | claiming token credentials => trivial
  | creating bootstrap role credentials => trivial

theorem Keeps.cachedSound {x : Text × Cached} (hx : CachedSound crypto s x) :
    CachedSound crypto s' x := by
  obtain ⟨⟨key, e, he, howner⟩, hanswered, husable⟩ := hx
  exact ⟨⟨key, e, h.entities e he, howner⟩, h.answered ▸ hanswered, h.usable _ husable⟩

end Keeps

section Requests
variable {i : ℕ} {r r' : Request}

theorem keeps_request (s : State) (r : Request) : Keeps s (s.request r) :=
  ⟨fun _ he => he, le_rfl, rfl, fun _ husable => husable.imp_right (List.mem_append_left _),
    fun _ _ hactive => hactive⟩

/-- A request that has no purge before it may go on without changing what is usable. -/
theorem usable_of_mem {id : ℕ} {requests : List Request} (husable : Usable s id)
    (hi : s.requests[i]? = some r) (hr : ∀ id, r ≠ .written id)
    (hrequests : ∀ r' j, j ≠ i → s.requests[j]? = some r' → r' ∈ requests) :
    Usable { s with requests := requests } id := by
  rcases husable with hactive | hwritten
  · exact .inl hactive
  · obtain ⟨j, hj⟩ := List.mem_iff_getElem?.mp hwritten
    refine .inr (hrequests _ j ?_ hj)
    rintro rfl
    exact hr id (Option.some.inj (hi.symm.trans hj))

theorem keeps_settle (hi : s.requests[i]? = some r) (hr : ∀ id, r ≠ .written id) :
    Keeps s (s.settle i) := by
  refine ⟨fun _ he => he, le_rfl, rfl, fun id husable => ?_, fun _ _ hactive => hactive⟩
  refine usable_of_mem husable hi hr fun r' j hj hget => ?_
  exact List.mem_eraseIdx_iff_getElem?.mpr ⟨j, hj, hget⟩

theorem mem_set_of_ne {r'' : Request} {j : ℕ} (hj : j ≠ i) (hget : s.requests[j]? = some r'') :
    r'' ∈ s.requests.set i r' := by
  apply List.mem_of_getElem? (i := j)
  rw [List.getElem?_set_ne hj.symm, hget]

theorem keeps_advance (hi : s.requests[i]? = some r) (hr : ∀ id, r ≠ .written id) :
    Keeps s (s.advance i r') := by
  refine ⟨fun _ he => he, le_rfl, rfl, fun id husable => ?_, fun _ _ hactive => hactive⟩
  exact usable_of_mem husable hi hr fun _ _ hj hget => mem_set_of_ne hj hget

theorem keeps_write {kind : Removal} {e : Entity} (hi : s.requests[i]? = some (.writing kind e)) :
    Keeps s { s.advance i (.written e.id) with rows := removeEntity kind e.id s.rows } := by
  refine ⟨fun _ he => he, le_rfl, rfl, fun id husable => ?_, fun id _ hactive => ?_⟩
  · rcases husable with ⟨e', he', rfl, hactive⟩ | hwritten
    · by_cases hid : e'.id = e.id
      · rw [hid]
        exact .inr (List.mem_set (by simpa using (List.getElem?_eq_some_iff.mp hi).1) _)
      · exact .inl ⟨e', mem_removeEntity_of_ne he' hid, rfl, hactive⟩
    · obtain ⟨j, hj⟩ := List.mem_iff_getElem?.mp hwritten
      refine .inr (mem_set_of_ne ?_ hj)
      rintro rfl
      cases hi.symm.trans hj
  · obtain ⟨e', he', rfl, hactive⟩ := hactive
    obtain ⟨e'', he'', hid, -, -, -, hwas⟩ := mem_removeEntity he'
    exact ⟨e'', he'', hid.symm, (hwas hactive).1⟩

theorem usable_settle {id id' : ℕ} (hi : s.requests[i]? = some (.written id))
    (husable : Usable s id') (hne : id' ≠ id) : Usable (s.settle i) id' := by
  rcases husable with hactive | hwritten
  · exact .inl hactive
  · obtain ⟨j, hj⟩ := List.mem_iff_getElem?.mp hwritten
    refine .inr (List.mem_eraseIdx_iff_getElem?.mpr ⟨j, ?_, hj⟩)
    rintro rfl
    cases hi.symm.trans hj
    exact hne rfl

end Requests

section Steps
variable (h : Sound crypto s)
include h

theorem Sound.keep (hk : Keeps s s') (hentities : s'.entities = s.entities)
    (hnext : s'.nextId = s.nextId) (hpassed : s'.passed = s.passed)
    (hrows : ∀ e ∈ s'.rows, Known s e)
    (hrequests : ∀ r ∈ s'.requests, r ∈ s.requests ∨ RequestSound crypto s' r)
    (hcache : ∀ x ∈ s'.cache, x ∈ s.cache ∨ CachedSound crypto s' x) : Sound crypto s' := by
  refine ⟨fun e he => hk.known (hrows e he), ?_, ?_, fun id hid => ?_, fun r hr => ?_,
    fun x hx => ?_, ?_⟩
  · rw [hentities, hnext]
    exact h.ids
  · rw [hentities]
    exact h.keyIds
  · rw [hk.answered] at hid
    obtain ⟨hlt, hactive⟩ := h.answered id hid
    exact ⟨hnext ▸ hlt, fun hactive' => hactive (hk.active id hlt hactive')⟩
  · rcases hrequests r hr with hold | hnew
    · exact hk.requestSound (h.requests r hold)
    · exact hnew
  · rcases hcache x hx with hold | hnew
    · exact hk.cachedSound (h.cache x hold)
    · exact hnew
  · rw [hpassed, hentities, hnext]
    exact h.passed

theorem Sound.request {r : Request} (hr : RequestSound crypto (s.request r) r) :
    Sound crypto (s.request r) := by
  refine h.keep (keeps_request s r) rfl rfl rfl h.rows (fun r' hr' => ?_) fun _ hx => .inl hx
  rcases List.mem_append.mp hr' with hold | hnew
  · exact .inl hold
  · rw [List.mem_singleton.mp hnew]
    exact .inr hr

theorem Sound.settle {i : ℕ} {r : Request} (hi : s.requests[i]? = some r)
    (hr : ∀ id, r ≠ .written id) : Sound crypto (s.settle i) :=
  h.keep (keeps_settle hi hr) rfl rfl rfl h.rows (fun _ hr' => .inl (List.mem_of_mem_eraseIdx hr'))
    fun _ hx => .inl hx

theorem Sound.advance {i : ℕ} {r r' : Request} (hi : s.requests[i]? = some r)
    (hr : ∀ id, r ≠ .written id) (hr' : RequestSound crypto (s.advance i r') r') :
    Sound crypto (s.advance i r') := by
  refine h.keep (keeps_advance hi hr) rfl rfl rfl h.rows (fun r'' hr'' => ?_) fun _ hx => .inl hx
  rcases List.mem_or_eq_of_mem_set hr'' with hold | rfl
  · exact .inl hold
  · exact .inr hr'

/-- A request gets through with a key whose entity has not been removed. -/
theorem Sound.enforce {p : Presented} {since : List ℕ} {e : Entity} (hsince : since ⊆ s.answered)
    (he : e ∈ s.entities) (howns : e.owns crypto p.key) (hanswered : e.id ∉ s.answered)
    (entry : Cached) : Sound crypto (enforceRole s p since entry) := by
  unfold enforceRole
  split_ifs
  · refine ⟨h.rows, h.ids, h.keyIds, h.answered, h.requests, h.cache, fun q hq => ?_⟩
    rcases List.mem_append.mp hq with hold | hnew
    · exact h.passed q hold
    · rw [List.mem_singleton.mp hnew]
      refine ⟨fun id hid => (h.answered id (hsince hid)).1, fun e' he' hid howns' => ?_⟩
      have hkeyId : e.keyId = e'.keyId := Option.some.inj (howns.1.symm.trans howns'.1)
      rw [h.keyIds e he e' he' hkeyId] at hanswered
      exact hanswered (hsince hid)
  · exact h

theorem Sound.write {i : ℕ} {kind : Removal} {e : Entity}
    (hi : s.requests[i]? = some (.writing kind e)) :
    Sound crypto
      { s.advance i (.written e.id) with rows := removeEntity kind e.id s.rows } := by
  refine h.keep (keeps_write hi) rfl rfl rfl (fun e' he' => ?_) (fun r hr => ?_) fun _ hx => .inl hx
  · obtain ⟨e'', he'', hid, hkeyId, hhash, -, -⟩ := mem_removeEntity he'
    obtain ⟨e₀, he₀, hsame⟩ := h.rows e'' he''
    exact ⟨e₀, he₀, hid ▸ hkeyId ▸ hhash ▸ hsame⟩
  · rcases List.mem_or_eq_of_mem_set hr with hold | rfl
    · exact .inl hold
    · refine .inr ⟨h.requests _ (List.mem_of_getElem? hi), ?_⟩
      rintro ⟨e', he', hid, hactive⟩
      obtain ⟨_, _, _, _, _, _, hwas⟩ := mem_removeEntity he'
      exact (hwas hactive).2 hid

/-- The purge: nothing usable is left of an entity that no verification is about to cache. -/
theorem Sound.purge {i id : ℕ} (hi : s.requests[i]? = some (.written id))
    (hquiet : ∀ r ∈ s.requests, r.verifies crypto id = false) :
    Sound crypto { s.settle i with
      cache := purgeApiKeyCacheEntry s.cache id, answered := s.answered ++ [id] } := by
  have hwritten : RequestSound crypto s (.written id) := h.requests _ (List.mem_of_getElem? hi)
  have hanswered : ∀ id' ∉ s.answered, id' ≠ id → id' ∉ s.answered ++ [id] := by
    intro id' hold hne hmem
    rcases List.mem_append.mp hmem with hmem | hmem
    · exact hold hmem
    · exact hne (List.mem_singleton.mp hmem)
  refine ⟨h.rows, h.ids, h.keyIds, fun id' hid' => ?_, fun r hr => ?_, fun x hx => ?_, h.passed⟩
  · rcases List.mem_append.mp hid' with hold | hnew
    · exact h.answered id' hold
    · rw [List.mem_singleton.mp hnew]
      exact hwritten
  · have hmem := List.mem_of_mem_eraseIdx hr
    have hsound := h.requests r hmem
    cases r with
    | reading p keyId since => exact ⟨hsound.1, List.subset_append_of_subset_left _ hsound.2⟩
    | comparing p since e =>
      obtain ⟨hpattern, hsince, hknown, hvalid⟩ := hsound
      refine ⟨hpattern, List.subset_append_of_subset_left _ hsince, hknown, fun hcompare => ?_⟩
      have hne : e.id ≠ id := by
        intro heq
        have hverifies := hquiet _ hmem
        simp [Request.verifies, heq, hcompare] at hverifies
      obtain ⟨hold, husable⟩ := hvalid hcompare
      exact ⟨hanswered _ hold hne, usable_settle hi husable hne⟩
    | finding kind id => trivial
    | counting kind e => exact hsound
    | writing kind e => exact hsound
    | written id => exact hsound
    | claiming token credentials => trivial
    | creating bootstrap role credentials => trivial
  · obtain ⟨hmem, hid⟩ := List.mem_filter.mp hx
    have hne : x.2.id ≠ id := of_decide_eq_true hid
    obtain ⟨howner, hold, husable⟩ := h.cache x hmem
    exact ⟨howner, hanswered _ hold hne, usable_settle hi husable hne⟩

theorem Sound.create {bootstrap : Bool} {role : String} {credentials : Credentials}
    (hcreate : createEntity s bootstrap role credentials = some s') : Sound crypto s' := by
  unfold createEntity at hcreate
  by_cases hfresh : credentials.keyId ∈ s.entities.map Entity.keyId
  · rw [if_pos hfresh] at hcreate
    cases hcreate
  rw [if_neg hfresh] at hcreate
  cases hcreate
  have hk : Keeps s { s with
      rows := s.rows ++ [⟨s.nextId, credentials.keyId, credentials.hash, some role, true⟩]
      entities := s.entities ++ [⟨s.nextId, credentials.keyId, credentials.hash, some role, true⟩]
      nextId := s.nextId + 1
      created := true
      claims := if bootstrap then s.claims ++ [s.created] else s.claims } := by
    refine ⟨fun _ he => List.mem_append_left _ he, Nat.le_succ _, rfl, fun id husable => ?_,
      fun id hlt hactive => ?_⟩
    · refine husable.imp_left fun ⟨e, he, hactive⟩ => ?_
      exact ⟨e, List.mem_append_left _ he, hactive⟩
    · obtain ⟨e, he, rfl, hactive⟩ := hactive
      rcases List.mem_append.mp he with hold | hnew
      · exact ⟨e, hold, rfl, hactive⟩
      · rw [List.mem_singleton.mp hnew] at hlt
        exact absurd hlt (lt_irrefl _)
  refine ⟨fun e he => ?_, fun e he => ?_, fun e he e' he' hkeyId => ?_, fun id hid => ?_,
    fun r hr => hk.requestSound (h.requests r hr), fun x hx => hk.cachedSound (h.cache x hx),
    fun p hp => ?_⟩
  · rcases List.mem_append.mp he with hold | hnew
    · exact hk.known (h.rows e hold)
    · exact ⟨e, List.mem_append_right _ hnew, rfl, rfl, rfl⟩
  · rcases List.mem_append.mp he with hold | hnew
    · exact Nat.lt_succ_of_lt (h.ids e hold)
    · rw [List.mem_singleton.mp hnew]
      exact Nat.lt_succ_self _
  · rcases List.mem_append.mp he with hold | hnew <;>
      rcases List.mem_append.mp he' with hold' | hnew'
    · exact h.keyIds e hold e' hold' hkeyId
    · rw [List.mem_singleton.mp hnew'] at hkeyId
      exact absurd (List.mem_map.mpr ⟨e, hold, hkeyId⟩) hfresh
    · rw [List.mem_singleton.mp hnew] at hkeyId
      exact absurd (List.mem_map.mpr ⟨e', hold', hkeyId.symm⟩) hfresh
    · rw [List.mem_singleton.mp hnew, List.mem_singleton.mp hnew']
  · obtain ⟨hlt, hactive⟩ := h.answered id hid
    exact ⟨Nat.lt_succ_of_lt hlt, fun hactive' => hactive (hk.active id hlt hactive')⟩
  · obtain ⟨hsince, hrefused⟩ := h.passed p hp
    refine ⟨fun id hid => Nat.lt_succ_of_lt (hsince id hid), fun e he hid => ?_⟩
    rcases List.mem_append.mp he with hold | hnew
    · exact hrefused e hold hid
    · rw [List.mem_singleton.mp hnew] at hid
      exact absurd (hsince _ hid) (lt_irrefl _)

end Steps

/-- One await of one request. -/
theorem Sound.proceed (h : Sound crypto s) {i : ℕ} {r : Request} (hi : s.requests[i]? = some r)
    (hquiet : Undisturbed crypto s (.proceed i)) (hs : proceed crypto config s i r = some s') :
    Sound crypto s' := by
  have hr := h.requests r (List.mem_of_getElem? hi)
  cases r with
  | reading p keyId since =>
    simp only [ApiKeys.proceed] at hs
    split at hs
    · cases hs
      exact h.settle hi fun _ => nofun
    · rename_i entity hfind
      cases hs
      have hentity := List.find?_some hfind
      have hmem := List.mem_of_find?_eq_some hfind
      obtain ⟨hkeyId, hactive⟩ := of_decide_eq_true hentity
      refine h.advance hi (fun _ => nofun) ⟨hkeyId ▸ hr.1, hr.2, h.rows entity hmem, fun _ => ?_⟩
      have husable : Active s entity.id := ⟨entity, hmem, rfl, hactive⟩
      exact ⟨fun hanswered => (h.answered _ hanswered).2 husable, .inl husable⟩
  | comparing p since entity =>
    obtain ⟨hpattern, hsince, ⟨e, he, hid, hkeyId, hhash⟩, hvalid⟩ := hr
    simp only [ApiKeys.proceed] at hs
    split_ifs at hs with hcompare
    · cases hs
      obtain ⟨hanswered, husable⟩ := hvalid hcompare
      have howns : e.owns crypto p.key := ⟨hkeyId ▸ hpattern, hhash ▸ hcompare⟩
      have hk := keeps_settle hi fun _ => nofun
      have hcached : Sound crypto { s.settle i with
          cache := s.cache.set (crypto.sha256 p.key) ⟨entity.id, roleOrAdmin entity.role⟩ } := by
        refine h.keep ⟨hk.entities, hk.nextId, hk.answered, hk.usable, hk.active⟩ rfl rfl rfl
          h.rows (fun _ hr' => .inl (List.mem_of_mem_eraseIdx hr')) fun x hx => ?_
        rcases KeyedList.mem_of_mem_set hx with rfl | hold
        · exact .inr ⟨⟨p.key, e, he, rfl, howns, hid⟩, hanswered, hk.usable _ husable⟩
        · exact .inl hold
      exact hcached.enforce hsince he howns (hid ▸ hanswered) _
    · cases hs
      exact h.settle hi fun _ => nofun
  | finding kind id =>
    simp only [ApiKeys.proceed] at hs
    split at hs
    · cases hs
      exact h.settle hi fun _ => nofun
    · rename_i entity hfind
      obtain ⟨e, he, hid, -⟩ := h.rows entity (List.mem_of_find?_eq_some hfind)
      have hlt : entity.id < s.nextId := hid ▸ h.ids e he
      split_ifs at hs
      · cases hs
        exact h.advance hi (fun _ => nofun) hlt
      · cases hs
        exact h.advance hi (fun _ => nofun) hlt
  | counting kind entity =>
    simp only [ApiKeys.proceed] at hs
    split_ifs at hs
    · cases hs
      exact h.settle hi fun _ => nofun
    · cases hs
      exact h.advance hi (fun _ => nofun) hr
  | writing kind entity =>
    cases hs
    exact h.write hi
  | written id =>
    cases hs
    exact h.purge hi (hquiet _ hi id rfl)
  | claiming token credentials =>
    simp only [ApiKeys.proceed] at hs
    split_ifs at hs
    · cases hs
      exact h.settle hi fun _ => nofun
    · cases hs
      exact h.settle hi fun _ => nofun
    · cases hs
      exact h.advance hi (fun _ => nofun) trivial
  | creating bootstrap role credentials =>
    exact (h.settle hi fun _ => nofun).create hs

theorem Sound.step (hsha256 : Function.Injective crypto.sha256) (h : Sound crypto s) {l : Label}
    (hquiet : Undisturbed crypto s l) (hs : step crypto config s l = some s') :
    Sound crypto s' := by
  cases l with
  | present p =>
    simp only [ApiKeys.step] at hs
    split at hs
    · rename_i entry hget
      cases hs
      obtain ⟨⟨key, e, he, hdigest, howns, hid⟩, hanswered, -⟩ :=
        h.cache _ (KeyedList.mem_of_get hget)
      rw [hsha256 hdigest] at howns
      exact h.enforce (List.Subset.refl _) he howns (hid ▸ hanswered) entry
    · split at hs
      · cases hs
        exact h
      · rename_i keyId hpattern
        cases hs
        exact h.request ⟨hpattern, List.Subset.refl _⟩
  | remove kind id =>
    cases hs
    exact h.request trivial
  | bootstrap token credentials =>
    simp only [ApiKeys.step] at hs
    split_ifs at hs
    · cases hs
      exact h.request trivial
    · cases hs
      exact h
  | generate role credentials =>
    simp only [ApiKeys.step] at hs
    split_ifs at hs
    · cases hs
      exact h.request trivial
    · cases hs
      exact h
  | proceed i =>
    obtain ⟨r, hi, hs⟩ := Option.bind_eq_some_iff.mp hs
    exact h.proceed hi hquiet hs
  | fail i =>
    simp only [ApiKeys.step] at hs
    split at hs
    · cases hs
    · cases hs
    · rename_i r hi hr
      cases hs
      exact h.settle hr hi

/-- Whatever the table, revocation is final in a run whose purges are undisturbed. -/
theorem revocation_final (hsha256 : Function.Injective crypto.sha256) (t : Table)
    (h : Reaches (step crypto config) (Undisturbed crypto) (.started t) s) :
    RevocationFinal crypto s :=
  (h.invariant (sound_started t) fun _ _ _ hsound hquiet hs =>
    hsound.step hsha256 hquiet hs).final

section Instances

/-- Digests that are the text itself. -/
def plainCrypto : Crypto := ⟨id, fun key hash => key = hash⟩

def viewerKey : Text := "hw_aaaaaaaaaaaaaaaa.b".toList

def viewerTable : Table :=
  ⟨[⟨0, "aaaaaaaaaaaaaaaa".toList, viewerKey, some "viewer", true⟩], 1, by simp, by simp⟩

def viewerRequest : Presented := ⟨viewerKey, .get, "/version".toList⟩

/-- A key that opened the door, is revoked and is refused. -/
theorem revocation_final_revoked : ∃ s,
    Reaches (step plainCrypto ⟨true, true, true⟩) (Undisturbed plainCrypto) (.started viewerTable) s ∧
      (s.answered = [0] ∧ s.passed.length = 1) ∧ RevocationFinal plainCrypto s := by
  obtain ⟨s, hs, hend⟩ := exists_reaches_of_run (step plainCrypto ⟨true, true, true⟩)
    (Undisturbed plainCrypto) (.started viewerTable)
    [.present viewerRequest, .proceed 0, .proceed 0, .remove .revoke 0, .proceed 0, .proceed 0,
      .proceed 0, .present viewerRequest, .proceed 0]
    (P := fun s => s.answered = [0] ∧ s.passed.length = 1) (by decide +kernel)
  exact ⟨s, hs, hend, revocation_final Function.injective_id viewerTable hs⟩

/-- The row is read before the revocation and the key cached behind the purge. -/
theorem revocation_final_fails : ¬ ∀ (crypto : Crypto) (config : Config) (t : Table) (s : State),
    Function.Injective crypto.sha256 →
    Reaches (step crypto config) (fun _ _ => True) (.started t) s → RevocationFinal crypto s := by
  intro h
  obtain ⟨s, hs, p, hp, e, he, hsince, howns⟩ :=
    exists_reaches_of_run (step plainCrypto ⟨true, true, true⟩) (fun _ _ => True)
      (.started viewerTable)
      [.present viewerRequest, .proceed 0, .remove .revoke 0, .proceed 1, .proceed 1, .proceed 1,
        .proceed 0, .present viewerRequest]
      (P := fun s => ∃ p ∈ s.passed, ∃ e ∈ s.entities, e.id ∈ p.since ∧ e.owns plainCrypto p.key)
      (by decide +kernel)
  exact (h _ _ _ s Function.injective_id hs).refused p hp e he hsince howns

end Instances

end ZoneweaverAgent.ApiKeys
