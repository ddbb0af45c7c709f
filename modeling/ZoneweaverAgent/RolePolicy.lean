import ZoneweaverAgent.RouteTable

/-!
# The role policy of the agent

`requiredRole` reads the path as it was sent; the router reads it up to case and a slash at its end.
-/

namespace ZoneweaverAgent.RolePolicy
open RoutePattern

inductive Role
  | viewer
  | operator
  | admin
deriving DecidableEq

def Role.level : Role → ℕ
  | .viewer => 1
  | .operator => 2
  | .admin => 3

/-- A role that `ROLE_LEVELS` does not know counts as 0. -/
def roleLevel (role : Option Role) : ℕ := (role.map Role.level).getD 0

/-- Prefixes and paths are given by their segments: `/system/host` is `join ["system", "host"]`. -/
def adminWritePrefixes : List (List String) :=
  [["server"], ["system", "host"], ["system", "users"], ["system", "groups"], ["system", "roles"],
    ["database"]]

def adminAlwaysPrefixes : List (List String) := [["api-keys"], ["settings"]]

def filesystemPrefixes : List (List String) := [["filesystem"]]

def apiKeysInfo : List String := ["api-keys", "info"]

def wsTicket : List String := ["ws-ticket"]

def underPrefix (path : Text) (prefixes : List (List String)) : Bool :=
  prefixes.any fun pre => path = join pre ∨ join pre ++ ['/'] <+: path

def Method.reads (m : Method) : Bool := m = .get ∨ m = .head

def requiredRole (m : Method) (path : Text) : Role :=
  if path = join apiKeysInfo then .viewer
  else if underPrefix path adminAlwaysPrefixes then .admin
  else if path = join wsTicket ∨ underPrefix path filesystemPrefixes then .operator
  else if m.reads then .viewer
  else if underPrefix path adminWritePrefixes then .admin
  else .operator

/-- The role check of `verifyApiKey`. -/
def authorized (role : Option Role) (m : Method) (path : Text) : Bool :=
  ¬ roleLevel role < (requiredRole m path).level

/-- The route is registered under one of the prefixes. -/
def Route.under (r : Route) (prefixes : List (List String)) : Bool :=
  prefixes.any fun pre => covers pre r.pattern

def Route.spells (r : Route) (path : List String) : Bool := r.pattern = path.map .literal

/-- What the policy owes to a request for the route: the role of the registered spelling, and no
lower role on the surfaces that it names. -/
structure Agrees (m : Method) (path : Text) (r : Route) (values : List Text) : Prop where
  same : requiredRole m path = requiredRole m (fill r.pattern values)
  keys : r.verified = true → r.under adminAlwaysPrefixes = true → r.spells apiKeysInfo = false →
    ∀ role, authorized role m path = true → Role.admin.level ≤ roleLevel role
  operators : r.verified = true → r.spells wsTicket = true ∨ r.under filesystemPrefixes = true →
    ∀ role, authorized role m path = true → Role.operator.level ≤ roleLevel role
  writes : r.verified = true → m.reads = false → r.under adminWritePrefixes = true →
    ∀ role, authorized role m path = true → Role.admin.level ≤ roleLevel role

/-- The request spells what the policy compares as the route does. -/
def WellSpelled (m : Method) (path : Text) (r : Route) (values : List Text) : Prop :=
  if r.spells apiKeysInfo then
    path = join apiKeysInfo ∨ underPrefix path adminAlwaysPrefixes = false
  else if r.under adminAlwaysPrefixes then
    underPrefix path adminAlwaysPrefixes = true ∧ fill r.pattern values ≠ join apiKeysInfo
  else if r.spells wsTicket then m.reads = false ∨ path = join wsTicket
  else if r.under filesystemPrefixes then
    m.reads = false ∨ underPrefix path filesystemPrefixes = true
  else if r.under adminWritePrefixes then
    m.reads = true ∨ underPrefix path adminWritePrefixes = true
  else True

def PolicyAgrees (config : Config) (decodes : Text → Bool) (m : Method) (path : Text) : Prop :=
  ∀ routed ∈ dispatch decodes m path (routes config), Agrees m path routed.1 routed.2

def PathWellSpelled (config : Config) (decodes : Text → Bool) (m : Method) (path : Text) : Prop :=
  ∀ routed ∈ dispatch decodes m path (routes config), WellSpelled m path routed.1 routed.2

end ZoneweaverAgent.RolePolicy
