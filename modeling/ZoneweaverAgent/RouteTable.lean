import ZoneweaverAgent.RoutePattern

/-!
# The registered routes

The routes of the application router in the order of their registration, and which of them run
`verifyApiKey`. `express.static` answers `GET` and `HEAD` only, on the mount and whatever is under
it.
-/

namespace ZoneweaverAgent.RolePolicy
open RoutePattern

inductive Method
  | get
  | head
  | post
  | put
  | patch
  | delete
  | other (name : String)
deriving DecidableEq

/-- A route without a method takes every method. -/
structure Route where
  method : Option Method
  pattern : List Segment
  verified : Bool
deriving DecidableEq

def Route.handles (r : Route) (m : Method) : Bool :=
  match r.method with
  | none => true
  | some method => method = m ∨ (m = .head ∧ method = .get)

def get (pattern : List Segment) : Route := ⟨some .get, pattern, true⟩
def post (pattern : List Segment) : Route := ⟨some .post, pattern, true⟩
def put (pattern : List Segment) : Route := ⟨some .put, pattern, true⟩
def patch (pattern : List Segment) : Route := ⟨some .patch, pattern, true⟩
def delete (pattern : List Segment) : Route := ⟨some .delete, pattern, true⟩

def unverified (r : Route) : Route := { r with verified := false }

structure Config where
  docsEnabled : Bool
  uiEnabled : Bool
  statsPublicAccess : Bool
  apiDocsEnabled : Bool

def registerProvisioningRoutes : List Route :=
  [get ["provisioning", "status"], get ["provisioning", "bridged-interfaces"],
    get ["provisioning", "network", "status"], post ["provisioning", "network", "setup"],
    delete ["provisioning", "network", "teardown"], get ["provisioning", "recipes"],
    post ["provisioning", "recipes"], get ["provisioning", "recipes", .param],
    put ["provisioning", "recipes", .param], delete ["provisioning", "recipes", .param],
    post ["provisioning", "recipes", .param, "test"], get ["provisioning", "provisioners"],
    post ["provisioning", "provisioners", "import"],
    post ["provisioning", "provisioners", "import-upload"],
    post ["provisioning", "provisioners", "refresh-specs"], get ["provisioning", "catalog"],
    get ["provisioning", "catalog", "sources"], post ["provisioning", "catalog", "install"],
    get ["provisioning", "provisioners", .param], delete ["provisioning", "provisioners", .param],
    post ["provisioning", "provisioners", .param, "refresh-from-source"],
    get ["provisioning", "provisioners", .param, "versions", .param],
    delete ["provisioning", "provisioners", .param, "versions", .param],
    post ["provisioning", "provisioners", .param, "versions", .param, "export"]]

def registerCoreRoutes (config : Config) : List Route :=
  registerProvisioningRoutes ++
  [get ["version"], get ["app", "updates", "check"]] ++
  (if config.docsEnabled then
    [unverified (get ["docs"]), unverified (get ["docs", .splat])] else []) ++
  (if config.uiEnabled then
    [unverified (get ["ui"]), unverified (get ["ui", .splat]), unverified (get [""])]
  else [unverified (get [""])]) ++
  [unverified (get ["status"]), unverified (get ["api", "status"]),
    unverified (get ["api", "config", "ticket"]), unverified (post ["api-keys", "bootstrap"])] ++
  (if config.statsPublicAccess then [unverified (get ["stats"])] else [get ["stats"]]) ++
  [post ["api-keys", "generate"], get ["api-keys"], get ["api-keys", "info"],
    delete ["api-keys", .param], put ["api-keys", .param, "revoke"], get ["ws-ticket"],
    get ["secrets"], put ["secrets"], get ["settings"], get ["settings", "schema"],
    put ["settings"], post ["settings", "backup"], get ["settings", "backups"],
    delete ["settings", "backups", .param], post ["settings", "restore", .param],
    post ["server", "restart"]]

def registerLifecycleRoutes : List Route :=
  [get ["machines", "orchestration", "status"], post ["machines", "orchestration", "enable"],
    post ["machines", "orchestration", "disable"], get ["machines", "priorities"],
    post ["machines", "orchestration", "test"], post ["machines", "bulk", "start"],
    post ["machines", "bulk", "stop"], get ["machines", "ids", "next"], get ["machines", "ids"],
    get ["machines", "defaults"], get ["machines", "ostypes"], post ["machines"],
    put ["machines", .param], delete ["machines", .param, "pending-changes"],
    post ["machines", .param, "pending-changes", "apply"], get ["machines", .param, "snapshots"],
    post ["machines", .param, "snapshots"],
    post ["machines", .param, "snapshots", .param, "restore"],
    put ["machines", .param, "snapshots", .param], delete ["machines", .param, "snapshots", .param],
    get ["machines", .param, "guest", "ping"], get ["machines", .param, "guest", "osinfo"],
    get ["machines", .param, "guest", "network"], post ["machines", .param, "guest", "exec"],
    get ["machines", .param, "guest", "exec", .param],
    post ["machines", .param, "guest", "shutdown"],
    post ["machines", .param, "guest-agent", "setup"], get ["machines"], get ["machines", .param],
    get ["machines", .param, "config"], get ["machines", .param, "hosts-yml"],
    put ["machines", .param, "hosts-yml"], get ["machines", .param, "notes"],
    put ["machines", .param, "notes"], get ["machines", .param, "tags"],
    put ["machines", .param, "tags"], post ["machines", .param, "start"],
    post ["machines", .param, "stop"], post ["machines", .param, "restart"],
    post ["machines", .param, "reset"], post ["machines", .param, "suspend"],
    post ["machines", .param, "resume"], post ["machines", .param, "nmi"],
    delete ["machines", .param], post ["machines", .param, "clone"],
    post ["machines", .param, "provision"], get ["machines", .param, "provision", "status"],
    post ["machines", .param, "sync"], post ["machines", .param, "run-provisioners"]]

def registerZoneAdminRoutes : List Route :=
  [post ["machines", .param, "ready"], post ["machines", .param, "verify"],
    post ["machines", .param, "mark-incomplete"], post ["machines", .param, "attach"],
    post ["machines", .param, "detach"], post ["machines", .param, "move"]]

def registerTaskRoutes : List Route :=
  [get ["tasks"], get ["tasks", "stats"], delete ["tasks", "completed"], get ["tasks", .param],
    get ["tasks", .param, "output"], delete ["tasks", .param]]

def registerConsoleRoutes : List Route :=
  [post ["machines", .param, "vnc", "start"], get ["machines", .param, "vnc", "info"],
    delete ["machines", .param, "vnc", "stop"], get ["machines", .param, "vnc", "screenshot"],
    get ["vnc", "sessions"], post ["term", "start"], get ["term", "sessions"],
    get ["term", "sessions", .param], delete ["term", "sessions", .param, "stop"],
    post ["machines", .param, "zlogin", "start"], get ["zlogin", "sessions"],
    get ["zlogin", "sessions", .param], delete ["zlogin", "sessions", .param, "stop"],
    post ["machines", .param, "ssh", "start"], get ["ssh", "sessions"],
    get ["ssh", "sessions", .param], delete ["ssh", "sessions", .param, "stop"]]

def registerMachineRoutes : List Route :=
  registerLifecycleRoutes ++ registerZoneAdminRoutes ++ registerTaskRoutes ++ registerConsoleRoutes

def registerMonitoringRoutes : List Route :=
  [get ["monitoring", "status"], get ["monitoring", "health"], get ["monitoring", "summary"],
    post ["monitoring", "collect"], get ["monitoring", "host"],
    get ["monitoring", "network", "interfaces"], get ["monitoring", "network", "usage"],
    get ["monitoring", "network", "ipaddresses"], get ["monitoring", "network", "routes"],
    get ["monitoring", "storage", "pools"], get ["monitoring", "storage", "datasets"],
    get ["monitoring", "storage", "disks"], get ["monitoring", "storage", "disk-io"],
    get ["monitoring", "storage", "pool-io"], get ["monitoring", "storage", "arc"],
    get ["monitoring", "system", "cpu"], get ["monitoring", "system", "memory"],
    get ["monitoring", "system", "load"], get ["monitoring", "zones", "usage"],
    get ["monitoring", "zones", "diskio"], get ["system", "swap", "areas"],
    get ["system", "swap", "summary"], get ["monitoring", "hosts", "low-swap"],
    post ["system", "swap", "add"], delete ["system", "swap", "remove"], get ["host", "devices"],
    get ["host", "devices", "available"], get ["host", "devices", "categories"],
    get ["host", "devices", .param], get ["host", "ppt-status"],
    post ["host", "devices", "refresh"]]

def registerNetworkRoutes : List Route :=
  [get ["network", "hostname"], put ["network", "hostname"], get ["network", "ip-suggestions"],
    get ["network", "addresses"], post ["network", "addresses"],
    delete ["network", "addresses", .splat], put ["network", "addresses", .splat, "enable"],
    put ["network", "addresses", .splat, "disable"], get ["network", "vnics"],
    get ["network", "vnics", .param], post ["network", "vnics"],
    delete ["network", "vnics", .param], get ["network", "vnics", .param, "stats"],
    get ["network", "vnics", .param, "properties"], put ["network", "vnics", .param, "properties"],
    get ["network", "aggregates"], get ["network", "aggregates", .param],
    post ["network", "aggregates"], delete ["network", "aggregates", .param],
    put ["network", "aggregates", .param, "links"], get ["network", "aggregates", .param, "stats"],
    get ["network", "etherstubs"], get ["network", "etherstubs", .param],
    post ["network", "etherstubs"], delete ["network", "etherstubs", .param],
    get ["network", "vlans"], get ["network", "vlans", .param], post ["network", "vlans"],
    delete ["network", "vlans", .param], get ["network", "bridges"],
    get ["network", "bridges", .param], post ["network", "bridges"],
    delete ["network", "bridges", .param], put ["network", "bridges", .param, "links"],
    get ["network", "nat", "rules"], post ["network", "nat", "rules"],
    delete ["network", "nat", "rules", .param], get ["network", "nat", "status"],
    get ["network", "forwarding"], put ["network", "forwarding"], get ["network", "dhcp", "config"],
    put ["network", "dhcp", "config"], get ["network", "dhcp", "hosts"],
    post ["network", "dhcp", "hosts"], delete ["network", "dhcp", "hosts", .param],
    get ["network", "dhcp", "status"], put ["network", "dhcp", "status"]]

def registerSoftwareRoutes : List Route :=
  [get ["services"], post ["services", "action"], get ["services", .param, "properties"],
    get ["services", .param], get ["system", "packages"], get ["system", "packages", "search"],
    get ["system", "packages", "info"], post ["system", "packages", "install"],
    post ["system", "packages", "uninstall"], get ["system", "updates", "check"],
    post ["system", "updates", "install"], get ["system", "updates", "history"],
    post ["system", "updates", "refresh"], get ["system", "boot-environments"],
    post ["system", "boot-environments"], delete ["system", "boot-environments", .param],
    post ["system", "boot-environments", .param, "activate"],
    post ["system", "boot-environments", .param, "mount"],
    post ["system", "boot-environments", .param, "unmount"], get ["system", "repositories"],
    post ["system", "repositories"], delete ["system", "repositories", .param],
    put ["system", "repositories", .param], post ["system", "repositories", .param, "enable"],
    post ["system", "repositories", .param, "disable"]]

def registerTimeFaultRoutes : List Route :=
  [get ["system", "time-sync", "status"], get ["system", "time-sync", "config"],
    put ["system", "time-sync", "config"], post ["system", "time-sync", "sync"],
    get ["system", "time-sync", "available-systems"], post ["system", "time-sync", "switch"],
    get ["system", "timezone"], put ["system", "timezone"], get ["system", "timezones"],
    get ["system", "fault-management", "faults"],
    get ["system", "fault-management", "faults", .param],
    get ["system", "fault-management", "config"],
    post ["system", "fault-management", "actions", "acquit"],
    post ["system", "fault-management", "actions", "repaired"],
    post ["system", "fault-management", "actions", "replaced"]]

def registerLogProcessRoutes : List Route :=
  [get ["system", "logs", "list"], get ["system", "logs", .param],
    get ["system", "logs", "fault-manager", .param],
    post ["system", "logs", .param, "stream", "start"],
    get ["system", "logs", "stream", "sessions"], get ["system", "logs", "stream", .param],
    delete ["system", "logs", "stream", .param, "stop"], get ["system", "syslog", "config"],
    put ["system", "syslog", "config"], get ["system", "syslog", "facilities"],
    post ["system", "syslog", "validate"], post ["system", "syslog", "reload"],
    post ["system", "syslog", "switch"], get ["system", "processes"],
    get ["system", "processes", "find"], get ["system", "processes", "stats"],
    post ["system", "processes", "batch-kill"], post ["system", "processes", "trace", "start"],
    get ["system", "processes", .param], post ["system", "processes", .param, "signal"],
    post ["system", "processes", .param, "kill"], get ["system", "processes", .param, "files"],
    get ["system", "processes", .param, "stack"], get ["system", "processes", .param, "limits"]]

def registerSystemRoutes : List Route :=
  registerSoftwareRoutes ++ registerTimeFaultRoutes ++ registerLogProcessRoutes

def registerZfsRoutes : List Route :=
  [get ["system", "zfs", "arc", "config"], put ["system", "zfs", "arc", "config"],
    post ["system", "zfs", "arc", "validate"], post ["system", "zfs", "arc", "reset"],
    get ["storage", "datasets"], post ["storage", "datasets"], get ["storage", "dataset"],
    delete ["storage", "dataset"], put ["storage", "dataset", "properties"],
    post ["storage", "dataset", "clone"], post ["storage", "dataset", "promote"],
    post ["storage", "dataset", "rename"], post ["storage", "dataset", "snapshots"],
    delete ["storage", "snapshot"], post ["storage", "snapshot", "rollback"],
    post ["storage", "snapshot", "holds"], delete ["storage", "snapshot", "holds"],
    get ["storage", "snapshot", "holds"], get ["storage", "pools"],
    get ["storage", "pools", "importable"], post ["storage", "pools", "import"],
    get ["storage", "pools", .param], get ["storage", "pools", .param, "status"],
    post ["storage", "pools"], delete ["storage", "pools", .param],
    put ["storage", "pools", .param, "properties"], post ["storage", "pools", .param, "vdevs"],
    post ["storage", "pools", .param, "vdevs", "remove"],
    post ["storage", "pools", .param, "devices", "replace"],
    post ["storage", "pools", .param, "devices", "online"],
    post ["storage", "pools", .param, "devices", "offline"],
    post ["storage", "pools", .param, "scrub"], post ["storage", "pools", .param, "scrub", "stop"],
    post ["storage", "pools", .param, "export"], post ["storage", "pools", .param, "upgrade"]]

def registerTemplateArtifactRoutes : List Route :=
  [get ["templates", "sources"], get ["templates", "remote", .param],
    get ["templates", "remote", .param, .param, .param], post ["templates", "pull"],
    post ["templates", "publish"], post ["templates", "export"], get ["templates"],
    get ["templates", .param], delete ["templates", .param], post ["templates", .param, "move"],
    get ["artifacts", "storage", "paths"], post ["artifacts", "storage", "paths"],
    put ["artifacts", "storage", "paths", .param], delete ["artifacts", "storage", "paths", .param],
    get ["artifacts"], get ["artifacts", "iso"], get ["artifacts", "image"],
    get ["artifacts", "stats"], get ["artifacts", "service", "status"], get ["artifacts", .param],
    post ["artifacts", .param, "move"], post ["artifacts", .param, "copy"],
    post ["artifacts", "download"], post ["artifacts", "upload", "prepare"],
    post ["artifacts", "upload", .param], get ["artifacts", .param, "download"],
    post ["artifacts", "scan"], delete ["artifacts", "files"]]

def registerFilesystemRoutes : List Route :=
  [get ["filesystem"], post ["filesystem", "folder"], post ["filesystem", "upload"],
    get ["filesystem", "download"], get ["filesystem", "content"], put ["filesystem", "content"],
    put ["filesystem", "move"], post ["filesystem", "copy"], patch ["filesystem", "rename"],
    delete ["filesystem"], patch ["filesystem", "permissions"],
    post ["filesystem", "archive", "create"], post ["filesystem", "archive", "extract"]]

def registerStorageRoutes : List Route :=
  registerZfsRoutes ++ registerTemplateArtifactRoutes ++ registerFilesystemRoutes

def registerSystemAdminRoutes : List Route :=
  [get ["system", "user-info"], get ["system", "users"], post ["system", "users"],
    put ["system", "users", .param], delete ["system", "users", .param],
    post ["system", "users", .param, "password"], post ["system", "users", .param, "lock"],
    post ["system", "users", .param, "unlock"], get ["system", "users", .param, "attributes"],
    get ["system", "groups"], post ["system", "groups"], put ["system", "groups", .param],
    delete ["system", "groups", .param], get ["system", "roles"], post ["system", "roles"],
    put ["system", "roles", .param], delete ["system", "roles", .param],
    get ["system", "rbac", "authorizations"], get ["system", "rbac", "profiles"],
    get ["system", "rbac", "roles"], get ["system", "user-lookup"], get ["system", "group-lookup"],
    get ["system", "host", "status"], get ["system", "host", "uptime"],
    get ["system", "host", "reboot-status"], delete ["system", "host", "reboot-status"],
    get ["system", "hosts"], put ["system", "hosts"], get ["system", "dns"], put ["system", "dns"],
    get ["database", "stats"], post ["database", "vacuum"], post ["database", "analyze"],
    post ["database", "cleanup"], get ["database", .param, "tables"],
    get ["database", .param, "tables", .param, "rows"], post ["system", "host", "restart"],
    post ["system", "host", "reboot"], post ["system", "host", "reboot", "fast"],
    post ["system", "host", "shutdown"], post ["system", "host", "poweroff"],
    post ["system", "host", "halt"], get ["system", "host", "runlevel"],
    post ["system", "host", "runlevel"], post ["system", "host", "single-user"],
    post ["system", "host", "multi-user"]]

/-- The mounts of the API documentation, behind the router. -/
def setupSwaggerDocs (config : Config) : List Route :=
  if config.apiDocsEnabled then
    [unverified (get ["api-docs", "swagger.json"]), ⟨none, ["api-docs"], false⟩,
      ⟨none, ["api-docs", .splat], false⟩]
  else []

def routes (config : Config) : List Route :=
  registerCoreRoutes config ++ registerMachineRoutes ++ registerMonitoringRoutes ++
    registerNetworkRoutes ++ registerSystemRoutes ++ registerStorageRoutes ++
    registerSystemAdminRoutes ++ setupSwaggerDocs config

/-- The first route that takes the path and the method; a value that `decodeURIComponent` does not
take ends the search. -/
def dispatch (decodes : Text → Bool) (m : Method) (path : Text) :
    List Route → Option (Route × List Text)
  | [] => none
  | r :: rs => match capture r.pattern path with
    | none => dispatch decodes m path rs
    | some values =>
      if !values.all decodes then none
      else if r.handles m then some (r, values)
      else dispatch decodes m path rs

end ZoneweaverAgent.RolePolicy
