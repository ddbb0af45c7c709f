import ZoneweaverAgent.RolePolicy

/-!
# Where the role policy agrees with the router

Every registered route either lies under a prefix of the policy or clashes with it, so the pattern
decides what the policy says of the registered spelling, and of the others all but the spelling.
-/

namespace ZoneweaverAgent.RolePolicy
open RoutePattern

def policyPrefixes : List (List String) :=
  adminAlwaysPrefixes ++ [wsTicket] ++ filesystemPrefixes ++ adminWritePrefixes

/-- What the proofs use of a registered route. -/
def shaped (r : Route) : Bool :=
  policyPrefixes.all (fun pre => covers pre r.pattern || clash r.pattern pre) &&
  (!r.under adminAlwaysPrefixes || plainPattern r.pattern) &&
  (!r.spells apiKeysInfo || r.method = some .get) &&
  (!covers wsTicket r.pattern || r.spells wsTicket) &&
  (!r.under filesystemPrefixes || !r.spells wsTicket) &&
  (!r.under adminWritePrefixes ||
    !r.under adminAlwaysPrefixes && !r.spells wsTicket && !r.under filesystemPrefixes) &&
  (r.verified || clash r.pattern apiKeysInfo)

theorem all_shaped_ite {c : Prop} [Decidable c] {rs rs' : List Route} (h : rs.all shaped = true)
    (h' : rs'.all shaped = true) : (if c then rs else rs').all shaped = true := by
  split_ifs
  · exact h
  · exact h'

theorem coreRoutes_shaped (config : Config) : (registerCoreRoutes config).all shaped = true := by
  simp only [registerCoreRoutes, List.all_append, Bool.and_eq_true]
  refine ⟨⟨⟨⟨⟨⟨?_, ?_⟩, ?_⟩, ?_⟩, ?_⟩, ?_⟩, ?_⟩
  · decide +kernel
  · decide +kernel
  · exact all_shaped_ite (by decide +kernel) rfl
  · exact all_shaped_ite (by decide +kernel) (by decide +kernel)
  · decide +kernel
  · exact all_shaped_ite (by decide +kernel) (by decide +kernel)
  · decide +kernel

theorem routes_shaped (config : Config) : (routes config).all shaped = true := by
  have hrest : (registerMachineRoutes ++ registerMonitoringRoutes ++ registerNetworkRoutes ++
    registerSystemRoutes ++ registerStorageRoutes ++
    registerSystemAdminRoutes).all shaped = true := by decide +kernel
  have hdocs : (setupSwaggerDocs config).all shaped = true := all_shaped_ite (by decide +kernel) rfl
  simp only [List.all_append, Bool.and_eq_true] at hrest
  simp only [routes, List.all_append, coreRoutes_shaped, hrest, hdocs, Bool.and_self]

section Prefixes
variable {r : Route} {values : List Text} {path : Text}

theorem underPrefix_iff {prefixes : List (List String)} :
    underPrefix path prefixes = true ↔ ∃ pre ∈ prefixes, Under pre path := by
  simp only [underPrefix, List.any_eq_true, decide_eq_true_eq, under_iff]

theorem underPrefix_fill {prefixes : List (List String)} (h : Spells r.pattern values path)
    (hunder : r.under prefixes = true) :
    underPrefix (fill r.pattern values) prefixes = true := by
  obtain ⟨pre, hpre, hcovers⟩ := List.any_eq_true.mp hunder
  exact underPrefix_iff.mpr ⟨pre, hpre, h.under_fill hcovers⟩

/-- No spelling of a route comes under prefixes that the route is not registered under. -/
theorem underPrefix_eq_false {prefixes : List (List String)} (h : Spells r.pattern values path)
    (hshaped : shaped r = true) (hprefixes : prefixes ⊆ policyPrefixes)
    (hunder : r.under prefixes = false) : underPrefix path prefixes = false := by
  by_contra hpath
  obtain ⟨pre, hpre, hpath⟩ := underPrefix_iff.mp (eq_true_of_ne_false hpath)
  simp only [shaped, Bool.and_eq_true, List.all_eq_true, Bool.or_eq_true] at hshaped
  rcases hshaped.1.1.1.1.1.1 pre (hprefixes hpre) with hcovers | hclash
  · have hany : r.under prefixes = true := List.any_eq_true.mpr ⟨pre, hpre, hcovers⟩
    rw [hany] at hunder
    cases hunder
  · exact h.not_under hclash hpath

theorem fill_of_spells {ss : List String} (hspells : r.spells ss = true) :
    fill r.pattern values = join ss := by
  have hpattern : r.pattern = ss.map .literal := of_decide_eq_true hspells
  rw [hpattern]
  clear hspells hpattern
  induction ss with
  | nil => rfl
  | cons s ss ih => exact congrArg ('/' :: s.toList ++ ·) ih

end Prefixes

section Roles
variable {m : Method} {path : Text}

theorem ne_info_of_outside (h : underPrefix path adminAlwaysPrefixes = false) :
    path ≠ join apiKeysInfo := by
  rintro rfl
  have hunder : Under ["api-keys"] (join apiKeysInfo) := ⟨_, rfl, .inr ⟨"info".toList, rfl⟩⟩
  have hmem : ["api-keys"] ∈ adminAlwaysPrefixes := List.mem_cons_self
  rw [underPrefix_iff.mpr ⟨_, hmem, hunder⟩] at h
  cases h

theorem toLower_info : ∀ c ∈ join apiKeysInfo, c.toLower = c := by
  have hall : (join apiKeysInfo).all (fun c => c.toLower = c) = true := by decide +kernel
  intro c hc
  exact of_decide_eq_true (List.all_eq_true.mp hall c hc)

theorem requiredRole_of_always (hinfo : path ≠ join apiKeysInfo)
    (h : underPrefix path adminAlwaysPrefixes = true) : requiredRole m path = .admin := by
  rw [requiredRole, if_neg hinfo, if_pos h]

theorem requiredRole_of_operator (halways : underPrefix path adminAlwaysPrefixes = false)
    (h : path = join wsTicket ∨ underPrefix path filesystemPrefixes = true) :
    requiredRole m path = .operator := by
  rw [requiredRole, if_neg (ne_info_of_outside halways), if_neg (by simp [halways]), if_pos h]

theorem requiredRole_of_clear (halways : underPrefix path adminAlwaysPrefixes = false)
    (hticket : path ≠ join wsTicket) (hfiles : underPrefix path filesystemPrefixes = false) :
    requiredRole m path = if m.reads then .viewer
      else if underPrefix path adminWritePrefixes then .admin else .operator := by
  rw [requiredRole, if_neg (ne_info_of_outside halways), if_neg (by simp [halways]),
    if_neg (by simp [hticket, hfiles])]

theorem requiredRole_ne_admin (halways : underPrefix path adminAlwaysPrefixes = false)
    (hwrites : underPrefix path adminWritePrefixes = false) : requiredRole m path ≠ .admin := by
  rw [requiredRole, if_neg (ne_info_of_outside halways), if_neg (by simp [halways])]
  split_ifs with h hreads hunder
  · decide
  · decide
  · rw [hunder] at hwrites
    cases hwrites
  · decide

theorem floor_iff {k : ℕ} : (∀ role, authorized role m path = true → k ≤ roleLevel role) ↔
    k ≤ (requiredRole m path).level := by
  constructor
  · intro h
    exact h (some (requiredRole m path)) (by simp [authorized, roleLevel])
  · intro h role hrole
    have hlevel := of_decide_eq_true hrole
    omega

end Roles

section Cases
variable {m : Method} {path : Text} {r : Route} {values : List Text}

theorem agrees_iff : Agrees m path r values ↔
    requiredRole m path = requiredRole m (fill r.pattern values) ∧
    (r.verified = true → r.under adminAlwaysPrefixes = true → r.spells apiKeysInfo = false →
      3 ≤ (requiredRole m path).level) ∧
    (r.verified = true → r.spells wsTicket = true ∨ r.under filesystemPrefixes = true →
      2 ≤ (requiredRole m path).level) ∧
    (r.verified = true → m.reads = false → r.under adminWritePrefixes = true →
      3 ≤ (requiredRole m path).level) :=
  ⟨fun h => ⟨h.same, fun hv hu hs => floor_iff.mp (h.keys hv hu hs),
      fun hv hu => floor_iff.mp (h.operators hv hu), fun hv hm hu => floor_iff.mp (h.writes hv hm hu)⟩,
    fun ⟨h, hkeys, hoperators, hwrites⟩ => ⟨h, fun hv hu hs => floor_iff.mpr (hkeys hv hu hs),
      fun hv hu => floor_iff.mpr (hoperators hv hu), fun hv hm hu => floor_iff.mpr (hwrites hv hm hu)⟩⟩

/-- What the table says of one of its routes. -/
structure Shaped (r : Route) : Prop where
  outside : ∀ prefixes ⊆ policyPrefixes, r.under prefixes = false → ∀ {values path},
    Spells r.pattern values path → underPrefix path prefixes = false
  plain : r.under adminAlwaysPrefixes = true → plainPattern r.pattern = true
  info : r.spells apiKeysInfo = true → r.method = some .get
  ticket : r.spells wsTicket = false → r.under [wsTicket] = false
  files : r.under filesystemPrefixes = true → r.spells wsTicket = false
  writes : r.under adminWritePrefixes = true → r.under adminAlwaysPrefixes = false ∧
    r.spells wsTicket = false ∧ r.under filesystemPrefixes = false
  verified : r.verified = false → clash r.pattern apiKeysInfo = true

theorem shaped_of_mem {config : Config} (h : r ∈ routes config) : Shaped r := by
  have hshaped := List.all_eq_true.mp (routes_shaped config) r h
  have hconditions := hshaped
  simp only [shaped, Bool.and_eq_true, Bool.or_eq_true, Bool.not_eq_true',
    decide_eq_true_eq] at hconditions
  obtain ⟨⟨⟨⟨⟨⟨-, hplain⟩, hinfo⟩, hticket⟩, hfiles⟩, hwrites⟩, hverified⟩ := hconditions
  constructor
  · intro prefixes hprefixes hunder values path hspells
    exact underPrefix_eq_false hspells hshaped hprefixes hunder
  · intro h
    exact hplain.resolve_left (by simp [h])
  · intro h
    exact hinfo.resolve_left (by simp [h])
  · intro h
    have hcovers := hticket.resolve_right (by simp [h])
    simp [Route.under, hcovers]
  · intro h
    exact hfiles.resolve_left (by simp [h])
  · intro h
    have hall := hwrites.resolve_left (by simp [h])
    exact ⟨hall.1.1, hall.1.2, hall.2⟩
  · intro h
    exact hverified.resolve_left (by simp [h])

theorem always_subset : adminAlwaysPrefixes ⊆ policyPrefixes := by
  intro pre hpre
  simp only [policyPrefixes, List.mem_append]
  exact .inl (.inl (.inl hpre))

theorem ticket_subset : [wsTicket] ⊆ policyPrefixes := by
  intro pre hpre
  simp only [policyPrefixes, List.mem_append]
  exact .inl (.inl (.inr hpre))

theorem filesystem_subset : filesystemPrefixes ⊆ policyPrefixes := by
  intro pre hpre
  simp only [policyPrefixes, List.mem_append]
  exact .inl (.inr hpre)

theorem write_subset : adminWritePrefixes ⊆ policyPrefixes := by
  intro pre hpre
  simp only [policyPrefixes, List.mem_append]
  exact .inr hpre

variable (hshaped : Shaped r) (h : Spells r.pattern values path)
include hshaped h

theorem ne_ticket (hticket : r.spells wsTicket = false) : path ≠ join wsTicket := by
  rintro rfl
  have hunder : underPrefix (join wsTicket) [wsTicket] = true :=
    underPrefix_iff.mpr ⟨_, List.mem_cons_self, under_iff.mpr (.inl rfl)⟩
  rw [hshaped.outside _ ticket_subset (hshaped.ticket hticket) h] at hunder
  cases hunder

/-- A spelling of a route that no surface of the policy claims. -/
theorem requiredRole_of_free (halways : r.under adminAlwaysPrefixes = false)
    (hticket : r.spells wsTicket = false) (hfiles : r.under filesystemPrefixes = false) :
    requiredRole m path = if m.reads then .viewer
      else if underPrefix path adminWritePrefixes then .admin else .operator :=
  requiredRole_of_clear (hshaped.outside _ always_subset halways h) (ne_ticket hshaped h hticket)
    (hshaped.outside _ filesystem_subset hfiles h)

theorem agrees_info (hinfo : r.spells apiKeysInfo = true) (hhandles : r.handles m = true) :
    Agrees m path r values ↔
      path = join apiKeysInfo ∨ underPrefix path adminAlwaysPrefixes = false := by
  have hreads : m.reads = true := by
    rw [Route.handles, hshaped.info hinfo] at hhandles
    rcases of_decide_eq_true hhandles with hget | ⟨hhead, -⟩
    · simp [Method.reads, ← hget]
    · simp [Method.reads, hhead]
  have hpattern : r.pattern = apiKeysInfo.map .literal := of_decide_eq_true hinfo
  have hticket : r.spells wsTicket = false := by
    rw [Route.spells, hpattern]
    decide
  have hfiles : r.under filesystemPrefixes = false := by
    rw [Route.under, hpattern]
    decide
  have hfill : requiredRole m (fill r.pattern values) = .viewer := by
    rw [fill_of_spells hinfo, requiredRole, if_pos rfl]
  rw [agrees_iff, hfill]
  simp only [hinfo, hticket, hfiles, hreads, Bool.true_eq_false, Bool.false_eq_true, or_self,
    false_implies, implies_true, and_true]
  constructor
  · intro hrole
    by_contra hspelled
    obtain ⟨hpath, hunder⟩ := not_or.mp hspelled
    rw [requiredRole_of_always hpath (eq_true_of_ne_false hunder)] at hrole
    cases hrole
  · rintro (rfl | hunder)
    · rw [requiredRole, if_pos rfl]
    · rw [requiredRole_of_clear hunder (ne_ticket hshaped h hticket)
        (hshaped.outside _ filesystem_subset hfiles h), if_pos hreads]

theorem agrees_always (hinfo : r.spells apiKeysInfo = false)
    (halways : r.under adminAlwaysPrefixes = true) :
    Agrees m path r values ↔ underPrefix path adminAlwaysPrefixes = true ∧
      fill r.pattern values ≠ join apiKeysInfo := by
  have hfillUnder := underPrefix_fill h halways
  have hwrites : r.under adminWritePrefixes = false := by
    by_contra hwrites
    rw [(hshaped.writes (eq_true_of_ne_false hwrites)).1] at halways
    cases halways
  rw [agrees_iff]
  constructor
  · rintro ⟨hsame, hkeys, -, -⟩
    have hfill : fill r.pattern values ≠ join apiKeysInfo := by
      intro hfill
      have hverified : r.verified = true := by
        by_contra hverified
        exact h.fill.not_under (hshaped.verified (eq_false_of_ne_true hverified))
          (under_iff.mpr (.inl hfill))
      have hlevel := hkeys hverified halways hinfo
      rw [hsame, hfill, requiredRole, if_pos rfl] at hlevel
      exact absurd hlevel (by decide)
    refine ⟨?_, hfill⟩
    rw [requiredRole_of_always hfill hfillUnder] at hsame
    by_contra hunder
    exact requiredRole_ne_admin (eq_false_of_ne_true hunder)
      (hshaped.outside _ write_subset hwrites h) hsame
  · rintro ⟨hunder, hfill⟩
    have hpath : path ≠ join apiKeysInfo := by
      rintro rfl
      rcases h.eq_fill (hshaped.plain halways) toLower_info with heq | heq
      · exact hfill heq.symm
      · have hlast := congrArg List.getLast? heq
        rw [List.getLast?_concat] at hlast
        exact absurd hlast (by decide +kernel)
    rw [requiredRole_of_always hpath hunder, requiredRole_of_always hfill hfillUnder]
    exact ⟨rfl, fun _ _ _ => le_rfl, fun _ _ => by decide, fun _ _ _ => le_rfl⟩

theorem agrees_ticket (hticket : r.spells wsTicket = true)
    (halways : r.under adminAlwaysPrefixes = false) :
    Agrees m path r values ↔ m.reads = false ∨ path = join wsTicket := by
  have houtside := hshaped.outside _ always_subset halways h
  have hfiles : r.under filesystemPrefixes = false := by
    by_contra hfiles
    rw [hshaped.files (eq_true_of_ne_false hfiles)] at hticket
    cases hticket
  have hwrites : r.under adminWritePrefixes = false := by
    by_contra hwrites
    rw [(hshaped.writes (eq_true_of_ne_false hwrites)).2.1] at hticket
    cases hticket
  have hfill : requiredRole m (fill r.pattern values) = .operator :=
    requiredRole_of_operator (hshaped.outside _ always_subset halways h.fill)
      (.inl (fill_of_spells hticket))
  rw [agrees_iff, hfill]
  simp only [halways, hwrites, Bool.false_eq_true, false_implies, implies_true, and_true]
  constructor
  · rintro ⟨hsame, -⟩
    by_contra hspelled
    obtain ⟨hreads, hpath⟩ := not_or.mp hspelled
    rw [requiredRole_of_clear houtside hpath (hshaped.outside _ filesystem_subset hfiles h),
      if_pos (eq_true_of_ne_false hreads)] at hsame
    cases hsame
  · intro hspelled
    have hrole : requiredRole m path = .operator := by
      by_cases hpath : path = join wsTicket
      · exact requiredRole_of_operator houtside (.inl hpath)
      · rw [requiredRole_of_clear houtside hpath (hshaped.outside _ filesystem_subset hfiles h),
          if_neg (by simp [hspelled.resolve_right hpath]),
          if_neg (by simp [hshaped.outside _ write_subset hwrites h])]
    rw [hrole]
    exact ⟨rfl, trivial, fun _ _ => le_rfl⟩

theorem agrees_files (hfiles : r.under filesystemPrefixes = true)
    (halways : r.under adminAlwaysPrefixes = false) :
    Agrees m path r values ↔ m.reads = false ∨ underPrefix path filesystemPrefixes = true := by
  have houtside := hshaped.outside _ always_subset halways h
  have hpath := ne_ticket hshaped h (hshaped.files hfiles)
  have hwrites : r.under adminWritePrefixes = false := by
    by_contra hwrites
    rw [(hshaped.writes (eq_true_of_ne_false hwrites)).2.2] at hfiles
    cases hfiles
  have hfill : requiredRole m (fill r.pattern values) = .operator :=
    requiredRole_of_operator (hshaped.outside _ always_subset halways h.fill)
      (.inr (underPrefix_fill h hfiles))
  rw [agrees_iff, hfill]
  simp only [halways, hwrites, Bool.false_eq_true, false_implies, implies_true, and_true]
  constructor
  · rintro ⟨hsame, -⟩
    by_contra hspelled
    obtain ⟨hreads, hunder⟩ := not_or.mp hspelled
    rw [requiredRole_of_clear houtside hpath (eq_false_of_ne_true hunder),
      if_pos (eq_true_of_ne_false hreads)] at hsame
    cases hsame
  · intro hspelled
    have hrole : requiredRole m path = .operator := by
      by_cases hunder : underPrefix path filesystemPrefixes = true
      · exact requiredRole_of_operator houtside (.inr hunder)
      · rw [requiredRole_of_clear houtside hpath (eq_false_of_ne_true hunder),
          if_neg (by simp [hspelled.resolve_right hunder]),
          if_neg (by simp [hshaped.outside _ write_subset hwrites h])]
    rw [hrole]
    exact ⟨rfl, trivial, fun _ _ => le_rfl⟩

theorem agrees_writes (hwrites : r.under adminWritePrefixes = true) :
    Agrees m path r values ↔ m.reads = true ∨ underPrefix path adminWritePrefixes = true := by
  obtain ⟨halways, hticket, hfiles⟩ := hshaped.writes hwrites
  rw [agrees_iff, requiredRole_of_free hshaped h halways hticket hfiles,
    requiredRole_of_free hshaped h.fill halways hticket hfiles,
    if_pos (underPrefix_fill h hwrites)]
  simp only [halways, hticket, hfiles, Bool.false_eq_true, or_self, false_implies, implies_true,
    true_and]
  cases hreads : m.reads with
  | true => simp
  | false =>
    cases hunder : underPrefix path adminWritePrefixes with
    | true => simp [Role.level]
    | false => simp

theorem agrees_rest (hticket : r.spells wsTicket = false)
    (halways : r.under adminAlwaysPrefixes = false) (hfiles : r.under filesystemPrefixes = false)
    (hwrites : r.under adminWritePrefixes = false) : Agrees m path r values := by
  have hwrite := hshaped.outside _ write_subset hwrites h
  have hwrite' := hshaped.outside _ write_subset hwrites h.fill
  rw [agrees_iff, requiredRole_of_free hshaped h halways hticket hfiles,
    requiredRole_of_free hshaped h.fill halways hticket hfiles, hwrite, hwrite']
  simp [halways, hticket, hfiles, hwrites]

theorem agrees_iff_wellSpelled (hhandles : r.handles m = true) :
    Agrees m path r values ↔ WellSpelled m path r values := by
  unfold WellSpelled
  split_ifs with hinfo halways hticket hfiles hwrites
  · exact agrees_info hshaped h hinfo hhandles
  · exact agrees_always hshaped h (eq_false_of_ne_true hinfo) halways
  · exact agrees_ticket hshaped h hticket (eq_false_of_ne_true halways)
  · exact agrees_files hshaped h hfiles (eq_false_of_ne_true halways)
  · exact agrees_writes hshaped h hwrites
  · exact iff_of_true (agrees_rest hshaped h (eq_false_of_ne_true hticket)
      (eq_false_of_ne_true halways) (eq_false_of_ne_true hfiles)
      (eq_false_of_ne_true hwrites)) trivial

end Cases

/-- A dispatched request spells a registered route. -/
theorem spells_of_dispatch {decodes : Text → Bool} {m : Method} {path : Text} {rs : List Route}
    {r : Route} {values : List Text} (h : dispatch decodes m path rs = some (r, values)) :
    r ∈ rs ∧ r.handles m = true ∧ Spells r.pattern values path := by
  induction rs with
  | nil => cases h
  | cons r' rs ih =>
    simp only [dispatch] at h
    split at h
    · obtain ⟨hmem, hrest⟩ := ih h
      exact ⟨List.mem_cons_of_mem _ hmem, hrest⟩
    · rename_i values' hcapture
      split_ifs at h with hdecodes hhandles
      · cases h
        exact ⟨List.mem_cons_self, hhandles, spells_of_capture hcapture⟩
      · obtain ⟨hmem, hrest⟩ := ih h
        exact ⟨List.mem_cons_of_mem _ hmem, hrest⟩

/-- The policy agrees with the router on exactly the paths that spell its prefixes as registered. -/
theorem policy_agrees_iff (config : Config) (decodes : Text → Bool) (m : Method) (path : Text) :
    PolicyAgrees config decodes m path ↔ PathWellSpelled config decodes m path := by
  refine forall₂_congr fun ⟨r, values⟩ hrouted => ?_
  obtain ⟨hmem, hhandles, hspells⟩ := spells_of_dispatch hrouted
  exact agrees_iff_wellSpelled (shaped_of_mem hmem) hspells hhandles

/-- `GET /Settings` asks for a viewer only. -/
theorem policy_agrees_fails : ¬ ∀ (config : Config) (decodes : Text → Bool) (m : Method)
    (path : Text), PolicyAgrees config decodes m path := by
  intro h
  have hagrees := h ⟨true, true, false, true⟩ (fun _ => true) .get "/Settings".toList
    (get ["settings"], []) (by decide +kernel)
  have hlevel := hagrees.keys rfl (by decide +kernel) (by decide +kernel) (some .viewer)
    (by decide +kernel)
  exact absurd hlevel (by decide)

end ZoneweaverAgent.RolePolicy
