import ZoneweaverAgent.JsonValue

/-!
# The machine document and its refresh from zadm

A row of the `zones` table carries in its `configuration` column both what `zadm show` printed and
the machine document, the sections a user and the agent wrote. A refresh, after a task or on a
discovery tick, writes a new `zadm` configuration over the column and overlays the stored sections.
The parser of serialized configurations is a parameter: nothing depends on it.
-/

namespace ZoneweaverAgent.ZoneDocument

abbrev Document := KeyedList String Json

def documentSections : List String :=
  ["settings", "zones", "vbox", "utm", "networks", "disks", "provisioner", "provisioner_ref",
    "provisioner_state", "pending_changes", "guest_info", "snapshots", "metadata"]

/-- The key, outside the sections, that the agent stores on a configuration and reads back. -/
def hostHooksConfirmed : String := "host_hooks_confirmed"

structure ZoneRow where
  name : String
  zoneId : Json
  status : String
  brand : Json
  configuration : Json
  autoDiscovered : Bool
  isOrphaned : Bool

section Parse
variable (parse : String → Option Json)

def parseStored : Json → Option Json
  | .str s => parse s
  | v => some v

def overlayDocumentSections (dbConfiguration : Json) (zoneConfig : Document) : Document :=
  match parseStored parse dbConfiguration with
  | none => zoneConfig
  | some dbConfig =>
    if !dbConfig.truthy || !dbConfig.isObject then zoneConfig
    else zoneConfig.copyKeys documentSections (fun key => dbConfig.field key)

/-- `existing` is the configuration of the stored row, if there is one. -/
def preserveUserConfig (existing : Option Json) (zoneConfig : Document) : Document :=
  match existing with
  | none => zoneConfig
  | some configuration =>
    if !configuration.truthy then zoneConfig
    else overlayDocumentSections parse configuration zoneConfig

def parseConfiguration (zone : ZoneRow) : Json :=
  if zone.configuration.truthy then (parseStored parse zone.configuration).getD (.obj [])
  else .obj []

/-- What the host answers besides the configurations: the output of `zoneadm -z <name> list -p`, if
the command succeeds, and whether a suspend checkpoint lies under a zonepath. -/
structure HostAnswers where
  list : String → Option String
  hasSuspendCheckpoint : Option Json → Bool

variable (host : HostAnswers)

def listedStatus (name fallback : String) : String :=
  match host.list name with
  | none => fallback
  | some output =>
    match (output.splitOn ":")[2]? with
    | some part => if part = "" then fallback else part
    | none => fallback

def syncZoneToDatabase (zoneName : String) (statusOverride : Option String) (zoneConfig : Document)
    (existing : Option ZoneRow) : ZoneRow :=
  let override := statusOverride.getD ""
  let status := if override = "" then listedStatus host zoneName "configured" else override
  let status :=
    if override = "" ∧ status ≠ "running" ∧ existing.map (·.status) = some "suspended" ∧
      host.hasSuspendCheckpoint (zoneConfig.get "zonepath") then "suspended" else status
  let zoneId := orElseTruthy (zoneConfig.get "uuid") (.str zoneName)
  let brand := orElseTruthy (zoneConfig.get "brand") (.str "unknown")
  let stored := existing.map (·.configuration)
  let configuration := Json.obj (preserveUserConfig parse stored zoneConfig)
  match existing with
  | some row => { row with name := zoneName, zoneId, status, brand, configuration }
  | none =>
    { name := zoneName, zoneId, status, brand, configuration,
      autoDiscovered := false, isOrphaned := false }

def discoverNew (zoneName : String) (zoneConfig : Document) : ZoneRow where
  name := zoneName
  zoneId := orElseTruthy (zoneConfig.get "zonename") (.str zoneName)
  status := listedStatus host zoneName "configured"
  brand := orElseTruthy (zoneConfig.get "brand") (.str "unknown")
  configuration := .obj zoneConfig
  autoDiscovered := true
  isOrphaned := false

def discoverExisting (dbZone : ZoneRow) (zoneConfig : Document) : ZoneRow :=
  let status := listedStatus host dbZone.name dbZone.status
  let status :=
    if status ≠ "running" ∧ dbZone.status = "suspended" ∧
      host.hasSuspendCheckpoint (zoneConfig.get "zonepath") then "suspended" else status
  { dbZone with
    status
    brand := orElseTruthy (zoneConfig.get "brand") dbZone.brand
    configuration := .obj (preserveUserConfig parse (some dbZone.configuration) zoneConfig)
    isOrphaned := false }

def executeDiscoverTask (systemZones : KeyedList String Document) (dbZones : List ZoneRow) :
    List ZoneRow :=
  let refreshed := dbZones.map fun dbZone =>
    match systemZones.get dbZone.name with
    | some zoneConfig => discoverExisting parse host dbZone zoneConfig
    | none => { dbZone with isOrphaned := true }
  let new := systemZones.filter fun e => e.1 ∉ dbZones.map (·.name)
  refreshed ++ new.map fun e => discoverNew host e.1 e.2

structure Hook where
  script : String
  target : String
  onFailure : String
  run : String
  deriving DecidableEq

/-- The hook that an entry of a phase declares, if it names a script. -/
def hookOfEntry (entry : Json) : Option Hook :=
  match entry.field "script" with
  | some (.str script) =>
    let keyword (key word fallback : String) : String :=
      if (entry.field key).bind Json.text? = some word then word else fallback
    if isBlank script then none
    else some
      { script, target := keyword "target" "host" "guest",
        onFailure := keyword "on_failure" "continue" "abort", run := keyword "run" "once" "always" }
  | _ => none

def extractHooks (provisioner : Json) (phase : String) : List Hook :=
  match ((provisioner.field "provisioning").bind (·.field phase)).bind Json.items? with
  | some entries => entries.filterMap hookOfEntry
  | none => []

inductive Refusal
  | hostHooksDisabled (hostHooks : List (String × String))
  | needsConfirmation (reason : String)
  deriving DecidableEq

def Refusal.status : Refusal → Nat
  | hostHooksDisabled _ => 400
  | needsConfirmation _ => 409

def confirmationReason (hostHooks : List (String × String)) : String :=
  "This document runs " ++ toString hostHooks.length ++ " script(s) ON THE AGENT HOST (" ++
    String.intercalate ", " (hostHooks.map fun h => h.2 ++ ": " ++ h.1) ++
    ") — one-time confirmation required"

/-- The refusal, if any, and the row afterwards, on which a confirmation is recorded; nothing where
the stored configuration is a scalar that throws. -/
def hostHookPreflight (hostHooksEnabled : Bool) (zone : ZoneRow) (provisioning body : Json) :
    Option (Option Refusal × ZoneRow) :=
  let hostHooks := ["pre", "post"].flatMap fun phase =>
    ((extractHooks provisioning phase).filter (fun hook => hook.target = "host")).map
      fun hook => (hook.script, phase)
  if hostHooks = [] then some (none, zone)
  else if !hostHooksEnabled then some (some (.hostHooksDisabled hostHooks), zone)
  else
    match parseConfiguration parse zone with
    | .null => none
    | zoneConfig =>
      if ((zoneConfig.field hostHooksConfirmed).map Json.isTrue).getD false then some (none, zone)
      else if !((body.field "confirm_host_hooks").map Json.isTrue).getD false then
        some (some (.needsConfirmation (confirmationReason hostHooks)), zone)
      else
        match zoneConfig with
        | .obj entries =>
          let freshConfig := KeyedList.set entries hostHooksConfirmed (.bool true)
          some (none, { zone with configuration := .obj freshConfig })
        | .arr items => some (none, { zone with configuration := .arr items })
        | _ => none

section Refresh

/-- The document in a `configuration` column, where that is readable. -/
def storedDocument (configuration : Json) : Option Document :=
  if configuration.truthy then
    match parseStored parse configuration with
    | some (.obj doc) => some doc
    | _ => none
  else none

/-- The two refreshes of a row that exists. -/
inductive Refresh
  | sync (statusOverride : Option String)
  | discovery

def Refresh.write (refresh : Refresh) (row : ZoneRow) (zoneConfig : Document) : ZoneRow :=
  match refresh with
  | sync statusOverride =>
    syncZoneToDatabase parse host row.name statusOverride zoneConfig (some row)
  | discovery => discoverExisting parse host row zoneConfig

/-- What a refresh owes the stored document `doc`: each section present exactly as it is there, each
other key that of `zadm`, and the keys of the agent kept. -/
structure DatabaseWins (doc zadm written : Document) : Prop where
  sections : ∀ key ∈ documentSections, written.get key = doc.get key
  others : ∀ key, key ∉ documentSections → key ≠ hostHooksConfirmed →
    written.get key = zadm.get key
  confirmed : ∀ v, doc.get hostHooksConfirmed = some v → written.get hostHooksConfirmed = some v

variable {parse} {host} {row : ZoneRow} {stored : Json} {doc : Document}

theorem hostHooksConfirmed_notMem : hostHooksConfirmed ∉ documentSections := by decide

theorem storedDocument_eq_some (h : storedDocument parse stored = some doc) :
    stored.truthy = true ∧ parseStored parse stored = some (.obj doc) := by
  unfold storedDocument at h
  split_ifs at h with htruthy
  split at h
  · next doc' heq =>
    rw [heq, Option.some.inj h]
    exact ⟨htruthy, rfl⟩
  · cases h

theorem preserve_get (h : storedDocument parse stored = some doc) (zadm : Document)
    (key : String) : (preserveUserConfig parse (some stored) zadm).get key =
      if key ∈ documentSections then (doc.get key).or (zadm.get key) else zadm.get key := by
  obtain ⟨htruthy, hstored⟩ := storedDocument_eq_some h
  simp only [preserveUserConfig, htruthy, overlayDocumentSections, hstored, Json.truthy_obj,
    Json.isObject_obj, Json.field_obj]
  exact KeyedList.get_copyKeys zadm documentSections _ key

theorem write_configuration (refresh : Refresh) (zadm : Document) :
    (refresh.write parse host row zadm).configuration =
      .obj (preserveUserConfig parse (some row.configuration) zadm) := by
  cases refresh <;> rfl

theorem preserve_wins_iff (h : storedDocument parse stored = some doc) (zadm : Document) :
    DatabaseWins doc zadm (preserveUserConfig parse (some stored) zadm) ↔
      (∀ key ∈ documentSections, doc.get key = none → zadm.get key = none) ∧
        ∀ v, doc.get hostHooksConfirmed = some v → zadm.get hostHooksConfirmed = some v := by
  have hget := preserve_get h zadm
  have hconfirmed : (preserveUserConfig parse (some stored) zadm).get hostHooksConfirmed =
      zadm.get hostHooksConfirmed := by
    rw [hget, if_neg hostHooksConfirmed_notMem]
  constructor
  · intro wins
    refine ⟨fun key hkey hnone => ?_, fun v hv => hconfirmed ▸ wins.confirmed v hv⟩
    have hsec := wins.sections key hkey
    rwa [hget, if_pos hkey, hnone, Option.none_or] at hsec
  · rintro ⟨habsent, hkept⟩
    refine ⟨fun key hkey => ?_, fun key hkey _ => ?_, fun v hv => hconfirmed.trans (hkept v hv)⟩
    · rw [hget, if_pos hkey]
      cases hdoc : doc.get key with
      | none => exact habsent key hkey hdoc
      | some v => rfl
    · rw [hget, if_neg hkey]

/-- The discovery tick refreshes the configuration of every row whose machine `zadm` lists, and of
no other. -/
theorem executeDiscoverTask_configuration (systemZones : KeyedList String Document)
    {dbZones : List ZoneRow} (hrow : row ∈ dbZones) :
    ∃ row' ∈ executeDiscoverTask parse host systemZones dbZones, row'.name = row.name ∧
      row'.configuration = match systemZones.get row.name with
        | some zadm => .obj (preserveUserConfig parse (some row.configuration) zadm)
        | none => row.configuration := by
  refine ⟨_, List.mem_append_left _ (List.mem_map_of_mem hrow), ?_⟩
  cases systemZones.get row.name <;> exact ⟨rfl, rfl⟩

end Refresh

/-- What a refresh writes over a readable document is that document over `zadm`'s output exactly
when `zadm` carries no section the document lacks and the recorded confirmation, if any, is `zadm`'s
own. -/
theorem database_wins (refresh : Refresh) (row : ZoneRow) (doc zadm : Document)
    (h : storedDocument parse row.configuration = some doc) :
    (∃ written, (refresh.write parse host row zadm).configuration = .obj written ∧
        DatabaseWins doc zadm written) ↔
      (∀ key ∈ documentSections, doc.get key = none → zadm.get key = none) ∧
        ∀ v, doc.get hostHooksConfirmed = some v → zadm.get hostHooksConfirmed = some v := by
  rw [← preserve_wins_iff h, write_configuration]
  constructor
  · rintro ⟨written, heq, wins⟩
    cases heq
    exact wins
  · exact fun wins => ⟨_, rfl, wins⟩

section Instances

def webRow (configuration : Json) : ZoneRow where
  name := "web"
  zoneId := .str "web"
  status := "running"
  brand := .str "bhyve"
  configuration := configuration
  autoDiscovered := false
  isOrphaned := false

def webZadm : Document := [("zonename", .str "web"), ("brand", .str "bhyve")]

def hookedProvisioning : Json :=
  .obj [("provisioning", .obj [("pre", .arr [.obj [("script", .str "open.sh"),
    ("target", .str "host")]])])]

def quietHost : HostAnswers where
  list _ := none
  hasSuspendCheckpoint _ := false

theorem database_wins_settings :
    ∃ written, (Refresh.discovery.write (fun _ => none) quietHost
        (webRow (.obj [("settings", .obj [])])) webZadm).configuration = .obj written ∧
      DatabaseWins [("settings", .obj [])] webZadm written :=
  (database_wins (fun _ => none) quietHost .discovery (webRow (.obj [("settings", .obj [])]))
    [("settings", .obj [])] webZadm rfl).mpr
    ⟨fun key hkey _ => by revert key; decide, fun v hv => by cases hv⟩

/-- A confirmation recorded by the preflight is gone after the next refresh, so the user is asked
again; and a section that only `zadm` prints enters the document. -/
theorem database_wins_fails :
    let unread : String → Option Json := fun _ => none
    let confirmed := webRow (.obj [(hostHooksConfirmed, .bool true)])
    let refreshed := Refresh.discovery.write unread quietHost confirmed webZadm
    hostHookPreflight unread true (webRow (.obj [])) hookedProvisioning
        (.obj [("confirm_host_hooks", .bool true)]) = some (none, confirmed) ∧
      storedDocument unread confirmed.configuration = some [(hostHooksConfirmed, .bool true)] ∧
      (¬ ∃ written : Document, refreshed.configuration = .obj written ∧
        DatabaseWins [(hostHooksConfirmed, .bool true)] webZadm written) ∧
      (hostHookPreflight unread true refreshed hookedProvisioning (.obj [])).map
        (fun r => r.1.map Refusal.status) = some (some 409) ∧
      ¬ ∃ written : Document, (Refresh.discovery.write unread quietHost confirmed
          (webZadm.set "provisioner" (.obj []))).configuration = .obj written ∧
        DatabaseWins [(hostHooksConfirmed, .bool true)] (webZadm.set "provisioner" (.obj []))
          written := by
  refine ⟨rfl, rfl, ?_, rfl, ?_⟩
  · rintro ⟨written, heq, wins⟩
    have hnone : KeyedList.get written hostHooksConfirmed = none := by
      cases heq
      rfl
    rw [wins.confirmed (.bool true) rfl] at hnone
    cases hnone
  · rintro ⟨written, heq, wins⟩
    have hsome : KeyedList.get written "provisioner" = some (.obj []) := by
      cases heq
      rfl
    rw [wins.sections "provisioner" (by decide)] at hsome
    cases hsome

end Instances

end Parse

end ZoneweaverAgent.ZoneDocument
