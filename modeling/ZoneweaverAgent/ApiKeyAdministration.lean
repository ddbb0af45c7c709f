import ZoneweaverAgent.ApiKeys

/-!
# Administration by API keys

An admin key that no removal is about to take stays behind every count that is taken with the other
removals in mind; the bootstrap is over with the first key, as long as the table is never emptied and
no key is created between a bootstrap's count and its row.
-/

namespace ZoneweaverAgent.ApiKeys
open Transition
variable {crypto : Crypto} {config : Config} {s s' t : State}

section Definitions
variable (config : Config) (s : State)

/-- An active admin key; a missing role is an admin's. -/
def HasAdmin : Prop := ∃ e ∈ s.rows, isAdmin e = true

instance : Decidable (HasAdmin s) := inferInstanceAs (Decidable (∃ e ∈ s.rows, isAdmin e = true))

/-- The entity that a removal past its checks will take. -/
def Request.target : Request → Option ℕ
  | .writing _ e => some e.id
  | _ => none

def targets (requests : List Request) : List ℕ := requests.filterMap Request.target

/-- A bootstrap past its count. -/
def Request.claims : Request → Bool
  | .creating bootstrap _ _ => bootstrap
  | _ => false

/-- A count finds an admin that no other removal is about to take; no key is created while another
bootstrap is past its count, and no deletion empties the table. -/
def ProceedGuarded (i : ℕ) : Request → Prop
  | .counting _ entity => otherAdmins s.rows entity = [] ∨
      ∃ e ∈ otherAdmins s.rows entity, e.id ∉ targets s.requests
  | .creating _ _ _ => config.bootstrapAutoDisable = true →
      ∀ r ∈ s.requests.eraseIdx i, r.claims = false
  | .writing kind entity => config.bootstrapAutoDisable = true →
      s.rows = [] ∨ removeEntity kind entity.id s.rows ≠ []
  | _ => True

def Guarded : Label → Prop
  | .proceed i => ∀ r ∈ s.requests[i]?, ProceedGuarded config s i r
  | _ => True

instance (i : ℕ) : (r : Request) → Decidable (ProceedGuarded config s i r)
  | .counting _ entity => inferInstanceAs (Decidable (otherAdmins s.rows entity = [] ∨
      ∃ e ∈ otherAdmins s.rows entity, e.id ∉ targets s.requests))
  | .creating _ _ _ => inferInstanceAs (Decidable (config.bootstrapAutoDisable = true →
      ∀ r ∈ s.requests.eraseIdx i, r.claims = false))
  | .writing kind entity => inferInstanceAs (Decidable (config.bootstrapAutoDisable = true →
      s.rows = [] ∨ removeEntity kind entity.id s.rows ≠ []))
  | .reading _ _ _ => .isTrue trivial
  | .comparing _ _ _ => .isTrue trivial
  | .finding _ _ => .isTrue trivial
  | .written _ => .isTrue trivial
  | .claiming _ _ => .isTrue trivial

instance : (l : Label) → Decidable (Guarded config s l)
  | .proceed i => inferInstanceAs (Decidable (∀ r ∈ s.requests[i]?, ProceedGuarded config s i r))
  | .present _ => .isTrue trivial
  | .remove _ _ => .isTrue trivial
  | .bootstrap _ _ => .isTrue trivial
  | .generate _ _ => .isTrue trivial
  | .fail _ => .isTrue trivial

/-- An admin that stays. -/
def KeepsAdmin : Prop := ∃ e ∈ s.rows, isAdmin e = true ∧ e.id ∉ targets s.requests

/-- With the first key the bootstrap is over. -/
structure Claimed : Prop where
  shut : s.created = true → s.rows ≠ [] ∧ ∀ r ∈ s.requests, r.claims = false
  claims : s.claims = [] ∨ s.claims = [false] ∧ s.created = true

structure Administered : Prop where
  ids : ∀ e ∈ s.rows, e.id < s.nextId
  unique : ∀ e ∈ s.rows, ∀ e' ∈ s.rows, e.id = e'.id → e = e'
  taken : ∀ id ∈ targets s.requests, id < s.nextId
  counting : ∀ kind entity, .counting kind entity ∈ s.requests → entity.id < s.nextId
  admin : HasAdmin s → KeepsAdmin s
  claimed : config.bootstrapAutoDisable = true → Claimed s

end Definitions

theorem administered_started : Administered config (.started .empty) :=
  ⟨by simp [State.started, Table.empty], by simp [State.started, Table.empty],
    by simp [State.started, targets], by simp [State.started],
    by simp [HasAdmin, State.started, Table.empty],
    fun _ => ⟨by simp [State.started], .inl rfl⟩⟩

theorem mem_targets {requests : List Request} {id : ℕ} :
    id ∈ targets requests ↔ ∃ kind e, .writing kind e ∈ requests ∧ e.id = id := by
  simp only [targets, List.mem_filterMap]
  constructor
  · rintro ⟨r, hr, htarget⟩
    cases r with
    | writing kind e => exact ⟨kind, e, hr, Option.some.inj htarget⟩
    | _ => cases htarget
  · rintro ⟨kind, e, hr, rfl⟩
    exact ⟨_, hr, rfl⟩

/-- A step keeps the administration, and the keys it rests on. -/
def Preserves (config : Config) (s s' : State) : Prop :=
  Administered config s' ∧ (HasAdmin s → HasAdmin s')

section Requests
variable (h : Administered config s)
include h

theorem Administered.of_requests (hrows : s'.rows = s.rows) (hnext : s'.nextId = s.nextId)
    (hcreated : s'.created = s.created) (hclaims : s'.claims = s.claims)
    (htargets : ∀ kind e, .writing kind e ∈ s'.requests → e.id < s.nextId)
    (hcounting : ∀ kind e, .counting kind e ∈ s'.requests → e.id < s.nextId)
    (hadmin : KeepsAdmin s → KeepsAdmin s')
    (hover : config.bootstrapAutoDisable = true → s.created = true →
      ∀ r ∈ s'.requests, r.claims = false) : Preserves config s s' := by
  refine ⟨⟨?_, ?_, fun id hid => ?_, ?_, fun hhas => ?_, fun hdisable => ⟨fun hkey => ?_, ?_⟩⟩,
    fun hhas => ?_⟩
  · rw [hrows, hnext]
    exact h.ids
  · rw [hrows]
    exact h.unique
  · obtain ⟨kind, e, hmem, rfl⟩ := mem_targets.mp hid
    rw [hnext]
    exact htargets kind e hmem
  · rw [hnext]
    exact hcounting
  · rw [HasAdmin, hrows] at hhas
    exact hadmin (h.admin hhas)
  · rw [hcreated] at hkey
    rw [hrows]
    exact ⟨((h.claimed hdisable).shut hkey).1, hover hdisable hkey⟩
  · rw [hclaims, hcreated]
    exact (h.claimed hdisable).claims
  · rw [HasAdmin, hrows]
    exact hhas

/-- Requests that are no nearer to a removal or to a bootstrap change nothing. -/
theorem Administered.of_harmless (hrows : s'.rows = s.rows) (hnext : s'.nextId = s.nextId)
    (hcreated : s'.created = s.created) (hclaims : s'.claims = s.claims)
    (hrequests : ∀ r ∈ s'.requests, r ∈ s.requests ∨ r.target = none ∧ r.claims = false ∧
      ∀ kind e, r = .counting kind e → e.id < s.nextId) : Preserves config s s' := by
  have htargets : ∀ kind e, .writing kind e ∈ s'.requests → .writing kind e ∈ s.requests := by
    intro kind e hmem
    rcases hrequests _ hmem with hold | hnew
    · exact hold
    · cases hnew.1
  refine h.of_requests hrows hnext hcreated hclaims (fun kind e hmem => ?_) (fun kind e hmem => ?_)
    (fun ⟨e, he, hadmin, hsafe⟩ => ?_) fun hdisable hkey r hr => ?_
  · exact h.taken _ (mem_targets.mpr ⟨kind, e, htargets kind e hmem, rfl⟩)
  · rcases hrequests _ hmem with hold | hnew
    · exact h.counting kind e hold
    · exact hnew.2.2 kind e rfl
  · refine ⟨e, hrows ▸ he, hadmin, fun hid => hsafe ?_⟩
    obtain ⟨kind, e', hmem, heq⟩ := mem_targets.mp hid
    exact mem_targets.mpr ⟨kind, e', htargets kind e' hmem, heq⟩
  · rcases hrequests _ hr with hold | hnew
    · exact ((h.claimed hdisable).shut hkey).2 r hold
    · exact hnew.2.1

theorem Administered.request {r : Request} (htarget : r.target = none) (hclaims : r.claims = false)
    (hcounting : ∀ kind e, r = .counting kind e → e.id < s.nextId) :
    Preserves config s (s.request r) := by
  refine h.of_harmless rfl rfl rfl rfl fun r' hr' => ?_
  rcases List.mem_append.mp hr' with hold | hnew
  · exact .inl hold
  · rw [List.mem_singleton.mp hnew]
    exact .inr ⟨htarget, hclaims, hcounting⟩

theorem Administered.settle (i : ℕ) : Preserves config s (s.settle i) :=
  h.of_harmless rfl rfl rfl rfl fun _ hr => .inl (List.mem_of_mem_eraseIdx hr)

theorem Administered.advance (i : ℕ) {r : Request} (htarget : r.target = none)
    (hclaims : r.claims = false) (hcounting : ∀ kind e, r = .counting kind e → e.id < s.nextId) :
    Preserves config s (s.advance i r) := by
  refine h.of_harmless rfl rfl rfl rfl fun r' hr' => ?_
  rcases List.mem_or_eq_of_mem_set hr' with hold | rfl
  · exact .inl hold
  · exact .inr ⟨htarget, hclaims, hcounting⟩

/-- A removal past its checks, when another admin stays. -/
theorem Administered.take (i : ℕ) {kind : Removal} {entity : Entity}
    (hid : entity.id < s.nextId) (hadmin : KeepsAdmin s →
      ∃ e ∈ s.rows, isAdmin e = true ∧ e.id ∉ targets s.requests ∧ e.id ≠ entity.id) :
    Preserves config s (s.advance i (.writing kind entity)) := by
  have hmem : ∀ r ∈ s.requests.set i (.writing kind entity),
      r ∈ s.requests ∨ r = .writing kind entity :=
    fun r hr => List.mem_or_eq_of_mem_set hr
  refine h.of_requests rfl rfl rfl rfl (fun kind' e hr => ?_) (fun kind' e hr => ?_)
    (fun hkeeps => ?_) fun hdisable hkey r hr => ?_
  · rcases hmem _ hr with hold | hnew
    · exact h.taken _ (mem_targets.mpr ⟨kind', e, hold, rfl⟩)
    · cases hnew
      exact hid
  · rcases hmem _ hr with hold | hnew
    · exact h.counting kind' e hold
    · cases hnew
  · obtain ⟨e, he, hisAdmin, hsafe, hne⟩ := hadmin hkeeps
    refine ⟨e, he, hisAdmin, fun htarget => ?_⟩
    obtain ⟨kind', e', hr, heq⟩ := mem_targets.mp htarget
    rcases hmem _ hr with hold | hnew
    · exact hsafe (mem_targets.mpr ⟨kind', e', hold, heq⟩)
    · cases hnew
      exact hne heq.symm
  · rcases hmem _ hr with hold | rfl
    · exact ((h.claimed hdisable).shut hkey).2 r hold
    · rfl

/-- A bootstrap past its count; the table is empty, so no key has been created. -/
theorem Administered.claim (i : ℕ) (role : String) (credentials : Credentials)
    (hempty : config.bootstrapAutoDisable = true → s.rows = []) :
    Preserves config s (s.advance i (.creating true role credentials)) := by
  have hmem : ∀ r ∈ s.requests.set i (.creating true role credentials),
      r ∈ s.requests ∨ r = .creating true role credentials :=
    fun r hr => List.mem_or_eq_of_mem_set hr
  have htargets : ∀ kind e, .writing kind e ∈ s.requests.set i (.creating true role credentials) →
      .writing kind e ∈ s.requests :=
    fun kind e hr => (hmem _ hr).resolve_right nofun
  refine h.of_requests rfl rfl rfl rfl (fun kind e hr => ?_) (fun kind e hr => ?_)
    (fun ⟨e, he, hadmin, hsafe⟩ => ?_) fun hdisable hkey => ?_
  · exact h.taken _ (mem_targets.mpr ⟨kind, e, htargets kind e hr, rfl⟩)
  · exact h.counting kind e ((hmem _ hr).resolve_right nofun)
  · refine ⟨e, he, hadmin, fun hid => hsafe ?_⟩
    obtain ⟨kind, e', hr, heq⟩ := mem_targets.mp hid
    exact mem_targets.mpr ⟨kind, e', htargets kind e' hr, heq⟩
  · exact absurd (hempty hdisable) ((h.claimed hdisable).shut hkey).1

end Requests

/-- A deletion or a revocation takes no admin that stays. -/
theorem Administered.write (h : Administered config s) {i : ℕ} {kind : Removal} {entity : Entity}
    (hi : s.requests[i]? = some (.writing kind entity))
    (hguard : ProceedGuarded config s i (.writing kind entity)) : Preserves config s
      { s.advance i (.written entity.id) with rows := removeEntity kind entity.id s.rows } := by
  have hmem : ∀ r ∈ s.requests.set i (.written entity.id),
      r ∈ s.requests ∨ r = .written entity.id := fun r hr => List.mem_or_eq_of_mem_set hr
  have hset : Administered config (s.advance i (.written entity.id)) :=
    (h.advance (r := .written entity.id) i rfl rfl nofun).1
  have htarget : entity.id ∈ targets s.requests :=
    mem_targets.mpr ⟨kind, entity, List.mem_of_getElem? hi, rfl⟩
  have hkeeps : KeepsAdmin s → KeepsAdmin
      { s.advance i (.written entity.id) with rows := removeEntity kind entity.id s.rows } := by
    rintro ⟨e, he, hadmin, hsafe⟩
    refine ⟨e, mem_removeEntity_of_ne he fun hid => hsafe (hid ▸ htarget), hadmin, fun hid => ?_⟩
    obtain ⟨kind', e', hr, heq⟩ := mem_targets.mp hid
    exact hsafe (mem_targets.mpr ⟨kind', e', (hmem _ hr).resolve_right nofun, heq⟩)
  have hhad : HasAdmin
      { s.advance i (.written entity.id) with rows := removeEntity kind entity.id s.rows } →
      HasAdmin s := by
    rintro ⟨e, he, hadmin⟩
    obtain ⟨e', he', -, -, -, hrole, hactive⟩ := mem_removeEntity he
    obtain ⟨hrole', hactive'⟩ := of_decide_eq_true hadmin
    exact ⟨e', he', decide_eq_true ⟨hrole ▸ hrole', (hactive hactive').1⟩⟩
  refine ⟨⟨fun e he => ?_, fun e he e' he' hid => ?_, hset.taken, hset.counting,
    fun hhas => hkeeps (h.admin (hhad hhas)), fun hdisable => ⟨fun hkey => ?_,
      (hset.claimed hdisable).claims⟩⟩, fun hhas => ?_⟩
  · obtain ⟨e', he', hid, -⟩ := mem_removeEntity he
    exact hid ▸ h.ids e' he'
  · cases kind with
    | delete => exact h.unique e (List.mem_of_mem_filter he) e' (List.mem_of_mem_filter he') hid
    | revoke =>
      obtain ⟨e₀, he₀, rfl⟩ := List.mem_map.mp he
      obtain ⟨e₁, he₁, rfl⟩ := List.mem_map.mp he'
      have hsame : e₀ = e₁ := h.unique e₀ he₀ e₁ he₁ (by split_ifs at hid <;> exact hid)
      rw [hsame]
  · obtain ⟨hrows, -⟩ := (h.claimed hdisable).shut hkey
    exact ⟨(hguard hdisable).resolve_left hrows, ((hset.claimed hdisable).shut hkey).2⟩
  · obtain ⟨e, he, hadmin, -⟩ := hkeeps (h.admin hhas)
    exact ⟨e, he, hadmin⟩

/-- A key is created while no other bootstrap is past its count. -/
theorem Administered.create (h : Administered config s) {i : ℕ} {bootstrap : Bool} {role : String}
    {credentials : Credentials} (hi : s.requests[i]? = some (.creating bootstrap role credentials))
    (hguard : ProceedGuarded config s i (.creating bootstrap role credentials))
    (hcreate : createEntity (s.settle i) bootstrap role credentials = some s') :
    Preserves config s s' := by
  have hset := (h.settle i).1
  unfold createEntity at hcreate
  by_cases hfresh : credentials.keyId ∈ (s.settle i).entities.map Entity.keyId
  · rw [if_pos hfresh] at hcreate
    cases hcreate
  rw [if_neg hfresh] at hcreate
  cases hcreate
  refine ⟨⟨fun e he => ?_, fun e he e' he' hid => ?_, fun id hid => Nat.lt_succ_of_lt
    (hset.taken id hid), fun kind e hr => Nat.lt_succ_of_lt (hset.counting kind e hr),
    fun ⟨e, he, hadmin⟩ => ?_, fun hdisable => ⟨fun _ => ⟨by simp, hguard hdisable⟩, ?_⟩⟩,
    fun ⟨e, he, hadmin⟩ => ⟨e, List.mem_append_left _ he, hadmin⟩⟩
  · rcases List.mem_append.mp he with hold | hnew
    · exact Nat.lt_succ_of_lt (h.ids e hold)
    · rw [List.mem_singleton.mp hnew]
      exact Nat.lt_succ_self _
  · rcases List.mem_append.mp he with hold | hnew <;>
      rcases List.mem_append.mp he' with hold' | hnew'
    · exact h.unique e hold e' hold' hid
    · rw [List.mem_singleton.mp hnew'] at hid
      exact absurd (h.ids e hold) (hid ▸ lt_irrefl _)
    · rw [List.mem_singleton.mp hnew] at hid
      exact absurd (h.ids e' hold') (hid ▸ lt_irrefl _)
    · rw [List.mem_singleton.mp hnew, List.mem_singleton.mp hnew']
  · by_cases hhas : HasAdmin s
    · obtain ⟨e', he', hadmin', hsafe⟩ := hset.admin hhas
      exact ⟨e', List.mem_append_left _ he', hadmin', hsafe⟩
    · rcases List.mem_append.mp he with hold | hnew
      · exact absurd ⟨e, hold, hadmin⟩ hhas
      · refine ⟨e, he, hadmin, fun hid => ?_⟩
        rw [List.mem_singleton.mp hnew] at hid
        exact absurd (hset.taken _ hid) (lt_irrefl _)
  · have hclaimed := h.claimed hdisable
    cases bootstrap with
    | false => exact hclaimed.claims.imp_right fun hclaims => ⟨hclaims.1, rfl⟩
    | true =>
      -- a bootstrap past its count: no key has been created
      have hcreated : s.created = false := by
        by_contra hkey
        have hquiet := (hclaimed.shut (eq_true_of_ne_false hkey)).2 _ (List.mem_of_getElem? hi)
        cases hquiet
      have hnone : s.claims = [] := by
        rcases hclaimed.claims with hnone | ⟨-, hkey⟩
        · exact hnone
        · rw [hkey] at hcreated
          cases hcreated
      refine .inr ⟨?_, rfl⟩
      show s.claims ++ [s.created] = [false]
      rw [hnone, hcreated, List.nil_append]

/-- One await of one request. -/
theorem Administered.proceed (h : Administered config s) {i : ℕ} {r : Request}
    (hi : s.requests[i]? = some r) (hguard : ProceedGuarded config s i r)
    (hs : proceed crypto config s i r = some s') : Preserves config s s' := by
  cases r with
  | reading p keyId since =>
    simp only [ApiKeys.proceed] at hs
    split at hs
    · cases hs
      exact h.settle i
    · cases hs
      exact h.advance i rfl rfl nofun
  | comparing p since entity =>
    simp only [ApiKeys.proceed, enforceRole] at hs
    split_ifs at hs
    · cases hs
      exact h.of_harmless rfl rfl rfl rfl fun _ hr => .inl (List.mem_of_mem_eraseIdx hr)
    · cases hs
      exact h.of_harmless rfl rfl rfl rfl fun _ hr => .inl (List.mem_of_mem_eraseIdx hr)
    · cases hs
      exact h.settle i
  | finding kind id =>
    simp only [ApiKeys.proceed] at hs
    split at hs
    · cases hs
      exact h.settle i
    · rename_i entity hfind
      have hmem := List.mem_of_find?_eq_some hfind
      split_ifs at hs with hadmin
      · cases hs
        refine h.advance i rfl rfl fun kind' e heq => ?_
        cases heq
        exact h.ids _ hmem
      · cases hs
        refine h.take i (h.ids _ hmem) fun ⟨e, he, hisAdmin, hsafe⟩ => ⟨e, he, hisAdmin, hsafe, ?_⟩
        intro hid
        rw [h.unique e he entity hmem hid] at hisAdmin
        exact hadmin hisAdmin
  | counting kind entity =>
    simp only [ApiKeys.proceed] at hs
    split_ifs at hs with hnone
    · cases hs
      exact h.settle i
    · cases hs
      obtain ⟨e, he, hsafe⟩ := hguard.resolve_left hnone
      obtain ⟨hmem, hother⟩ := List.mem_filter.mp he
      obtain ⟨hactive, hrole, hne⟩ := of_decide_eq_true hother
      refine h.take i (h.counting kind entity (List.mem_of_getElem? hi)) fun _ =>
        ⟨e, hmem, decide_eq_true ⟨?_, hactive⟩, hsafe, hne⟩
      rw [hrole]
      rfl
  | writing kind entity =>
    cases hs
    exact h.write hi hguard
  | written id =>
    cases hs
    exact h.of_harmless rfl rfl rfl rfl fun _ hr => .inl (List.mem_of_mem_eraseIdx hr)
  | claiming token credentials =>
    simp only [ApiKeys.proceed] at hs
    split_ifs at hs with hopen
    · cases hs
      exact h.settle i
    · cases hs
      exact h.settle i
    · cases hs
      refine h.claim i _ _ fun hdisable => ?_
      by_contra hrows
      exact hopen ⟨hrows, hdisable⟩
  | creating bootstrap role credentials => exact h.create hi hguard hs

theorem Administered.step (h : Administered config s) {l : Label} (hguard : Guarded config s l)
    (hs : step crypto config s l = some s') : Preserves config s s' := by
  have hsame : Preserves config s s := ⟨h, id⟩
  cases l with
  | present p =>
    simp only [ApiKeys.step, enforceRole] at hs
    split at hs
    · split_ifs at hs
      · cases hs
        exact h.of_harmless rfl rfl rfl rfl fun _ hr => .inl hr
      · cases hs
        exact hsame
    · split at hs
      · cases hs
        exact hsame
      · cases hs
        exact h.request rfl rfl (by rintro _ _ ⟨⟩)
  | remove kind id =>
    cases hs
    exact h.request rfl rfl (by rintro _ _ ⟨⟩)
  | bootstrap token credentials =>
    simp only [ApiKeys.step] at hs
    split_ifs at hs
    · cases hs
      exact h.request rfl rfl (by rintro _ _ ⟨⟩)
    · cases hs
      exact hsame
  | generate role credentials =>
    simp only [ApiKeys.step] at hs
    split_ifs at hs
    · cases hs
      exact h.request rfl rfl (by rintro _ _ ⟨⟩)
    · cases hs
      exact hsame
  | proceed i =>
    obtain ⟨r, hi, hs⟩ := Option.bind_eq_some_iff.mp hs
    exact h.proceed hi (hguard r hi) hs
  | fail i =>
    simp only [ApiKeys.step] at hs
    split at hs
    · cases hs
    · cases hs
    · cases hs
      exact h.settle i

theorem administered_of_reaches
    (h : Reaches (step crypto config) (Guarded config) (.started .empty) s) :
    Administered config s :=
  h.invariant administered_started fun _ _ _ hs hguard hstep => (hs.step hguard hstep).1

/-- Administration is neither lost nor claimed twice in a run whose steps are guarded. -/
theorem administration_kept
    (h : Reaches (step crypto config) (Guarded config) (.started .empty) s)
    (h' : Reaches (step crypto config) (Guarded config) s t) :
    (HasAdmin s → HasAdmin t) ∧
    (config.bootstrapAutoDisable = true → t.claims.length ≤ 1 ∧ ∀ c ∈ t.claims, c = false) := by
  have hkept : Administered config t ∧ (HasAdmin s → HasAdmin t) := by
    refine h'.invariant (I := fun a => Administered config a ∧ (HasAdmin s → HasAdmin a))
      ⟨administered_of_reaches h, id⟩ fun a l b ⟨ha, hadmin⟩ hguard hstep => ?_
    obtain ⟨hb, hstays⟩ := ha.step hguard hstep
    exact ⟨hb, fun hhas => hstays (hadmin hhas)⟩
  refine ⟨hkept.2, fun hdisable => ?_⟩
  rcases (hkept.1.claimed hdisable).claims with hnone | ⟨hone, -⟩
  · rw [hnone]
    simp
  · rw [hone]
    simp

section Instances

/-- No digest is ever compared in these runs. -/
def noCrypto : Crypto := ⟨id, fun _ _ => false⟩

def defaults : Config := ⟨true, true, true⟩

def keyOf (c : Char) : Credentials := ⟨List.replicate 16 c, [c]⟩

/-- Two admins, one of which removes the other; the bootstrap stays shut. -/
def twoAdmins : List Label :=
  [.bootstrap true (keyOf 'a'), .proceed 0, .proceed 0, .generate none (keyOf 'b'), .proceed 0]

theorem administration_kept_removed : ∃ s t,
    Reaches (step noCrypto defaults) (Guarded defaults) (.started .empty) s ∧
    Reaches (step noCrypto defaults) (Guarded defaults) s t ∧
    (HasAdmin s ∧ t.rows.length = 1) ∧ (HasAdmin s → HasAdmin t) ∧
    (defaults.bootstrapAutoDisable = true → t.claims.length ≤ 1 ∧ ∀ c ∈ t.claims, c = false) := by
  obtain ⟨s, hs, hadmin, t, ht, hrows⟩ := exists_reaches_of_run
    (step noCrypto defaults) (Guarded defaults) (.started .empty) twoAdmins
    (P := fun s => HasAdmin s ∧ ∃ t ∈ run (step noCrypto defaults)
      (Guarded defaults) s [.remove .delete 0, .proceed 0, .proceed 0, .proceed 0,
        .proceed 0, .bootstrap true (keyOf 'c'), .proceed 0], t.rows.length = 1)
    (by decide +kernel)
  exact ⟨s, t, hs, reaches_of_run ht, ⟨hadmin, hrows⟩, administration_kept hs (reaches_of_run ht)⟩

/-- Two admins are deleted at once, each while the other is still counted. -/
theorem administration_kept_fails : ¬ ∀ (crypto : Crypto) (config : Config) (s t : State),
    Reaches (step crypto config) (fun _ _ => True) (.started .empty) s →
    Reaches (step crypto config) (fun _ _ => True) s t →
    (HasAdmin s → HasAdmin t) ∧
    (config.bootstrapAutoDisable = true → t.claims.length ≤ 1 ∧ ∀ c ∈ t.claims, c = false) := by
  intro h
  obtain ⟨s, hs, hadmin, t, ht, hnone⟩ := exists_reaches_of_run
    (step noCrypto defaults) (fun _ _ => True) (.started .empty) twoAdmins
    (P := fun s => HasAdmin s ∧ ∃ t ∈ run (step noCrypto defaults) (fun _ _ => True) s
      [.remove .delete 0, .remove .delete 1, .proceed 0, .proceed 1, .proceed 0, .proceed 1,
        .proceed 0, .proceed 1], ¬ HasAdmin t)
    (by decide +kernel)
  exact hnone ((h _ _ s t hs (reaches_of_run ht)).1 hadmin)

end Instances

end ZoneweaverAgent.ApiKeys
