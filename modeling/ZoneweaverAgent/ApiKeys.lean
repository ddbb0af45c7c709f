import ZoneweaverAgent.KeyedList
import ZoneweaverAgent.RolePolicy
import ZoneweaverAgent.Transition

/-!
# API keys: verification, bootstrap, creation and removal

One process, one table, any number of requests. Each await of a request is a point where the others
may go on; what was awaited comes to its end in any order, or fails.
-/

namespace ZoneweaverAgent.ApiKeys
open RoutePattern RolePolicy

/-- The hash functions of the platform. -/
structure Crypto where
  sha256 : Text → Text
  compare : Text → Text → Bool

structure Config where
  bootstrapEnabled : Bool
  bootstrapAutoDisable : Bool
  requireClaimToken : Bool

structure Entity where
  id : ℕ
  keyId : Text
  hash : Text
  role : Option String
  active : Bool
deriving DecidableEq

/-- `role || 'admin'` -/
def roleOrAdmin (role : Option String) : String :=
  match role with
  | none => "admin"
  | some text => if text = "" then "admin" else text

def validRoles : List String := ["admin", "operator", "viewer"]

def roleOfText (text : String) : Option Role :=
  if text = "viewer" then some .viewer
  else if text = "operator" then some .operator
  else if text = "admin" then some .admin
  else none

def keyChar (c : Char) : Bool := c.isAlphanum || c = '_' || c = '-'

/-- `API_KEY_PATTERN`: `hw_`, the sixteen characters of the key id, a dot and the secret. -/
def apiKeyPattern (key : Text) : Option Text :=
  let keyId := (key.drop 3).take 16
  let secret := key.drop 20
  if key.take 3 = "hw_".toList ∧ keyId.length = 16 ∧ keyId.all keyChar ∧
      (key.drop 19).take 1 = ['.'] ∧ secret ≠ [] ∧ secret.all keyChar then some keyId
  else none

structure Cached where
  id : ℕ
  role : String
deriving DecidableEq

/-- A request that carries a key. -/
structure Presented where
  key : Text
  method : Method
  path : Text
deriving DecidableEq

structure Credentials where
  keyId : Text
  hash : Text
deriving DecidableEq

inductive Removal
  | delete
  | revoke
deriving DecidableEq

/-- A request at one of its awaits; `since` are the removals that had been answered when it came. -/
inductive Request
  | reading (p : Presented) (keyId : Text) (since : List ℕ)
  | comparing (p : Presented) (since : List ℕ) (entity : Entity)
  | finding (kind : Removal) (id : ℕ)
  | counting (kind : Removal) (entity : Entity)
  | writing (kind : Removal) (entity : Entity)
  | written (id : ℕ)
  | claiming (token : Bool) (credentials : Credentials)
  | creating (bootstrap : Bool) (role : String) (credentials : Credentials)
deriving DecidableEq

/-- A request that reached `next()`. -/
structure Pass where
  key : Text
  since : List ℕ
deriving DecidableEq

/-- `entities` are all that the table ever held, `claims` says of each successful bootstrap whether a
key had been created before. -/
structure State where
  rows : List Entity
  entities : List Entity
  nextId : ℕ
  cache : KeyedList Text Cached
  requests : List Request
  answered : List ℕ
  passed : List Pass
  created : Bool
  claims : List Bool

/-- A table as the database keeps it: ids below the next one, key ids unique. -/
structure Table where
  entities : List Entity
  nextId : ℕ
  ids : ∀ e ∈ entities, e.id < nextId
  keyIds : ∀ e ∈ entities, ∀ e' ∈ entities, e.keyId = e'.keyId → e = e'

def Table.empty : Table := ⟨[], 0, by simp, by simp⟩

def State.started (t : Table) : State :=
  ⟨t.entities, t.entities, t.nextId, [], [], [], [], false, []⟩

inductive Label
  | present (p : Presented)
  | remove (kind : Removal) (id : ℕ)
  | bootstrap (token : Bool) (credentials : Credentials)
  | generate (role : Option String) (credentials : Credentials)
  | proceed (i : ℕ)
  | fail (i : ℕ)

def State.request (s : State) (r : Request) : State := { s with requests := s.requests ++ [r] }

def State.settle (s : State) (i : ℕ) : State := { s with requests := s.requests.eraseIdx i }

def State.advance (s : State) (i : ℕ) (r : Request) : State :=
  { s with requests := s.requests.set i r }

/-- The role check behind a verification; a role that suffices reaches `next()`. -/
def enforceRole (s : State) (p : Presented) (since : List ℕ) (entry : Cached) : State :=
  if authorized (roleOfText entry.role) p.method p.path then
    { s with passed := s.passed ++ [⟨p.key, since⟩] }
  else s

def purgeApiKeyCacheEntry (cache : KeyedList Text Cached) (id : ℕ) : KeyedList Text Cached :=
  cache.filter fun entry => entry.2.id ≠ id

def isAdmin (e : Entity) : Bool := roleOrAdmin e.role = "admin" ∧ e.active

/-- The count of `isLastActiveAdmin`. -/
def otherAdmins (rows : List Entity) (entity : Entity) : List Entity :=
  rows.filter fun e => e.active ∧ e.role = some "admin" ∧ e.id ≠ entity.id

def removeEntity (kind : Removal) (id : ℕ) (rows : List Entity) : List Entity :=
  match kind with
  | .delete => rows.filter fun e => e.id ≠ id
  | .revoke => rows.map fun e => if e.id = id then { e with active := false } else e

theorem mem_removeEntity {kind : Removal} {id : ℕ} {rows : List Entity} {e : Entity}
    (he : e ∈ removeEntity kind id rows) : ∃ e' ∈ rows, e.id = e'.id ∧ e.keyId = e'.keyId ∧
      e.hash = e'.hash ∧ e.role = e'.role ∧
      (e.active = true → e'.active = true ∧ e.id ≠ id) := by
  cases kind with
  | delete =>
    obtain ⟨hmem, hid⟩ := List.mem_filter.mp he
    exact ⟨e, hmem, rfl, rfl, rfl, rfl, fun hactive => ⟨hactive, of_decide_eq_true hid⟩⟩
  | revoke =>
    obtain ⟨e', hmem, rfl⟩ := List.mem_map.mp he
    split_ifs with hid
    · exact ⟨e', hmem, rfl, rfl, rfl, rfl, fun hactive => hactive.elim⟩
    · exact ⟨e', hmem, rfl, rfl, rfl, rfl, fun hactive => ⟨hactive, hid⟩⟩

theorem mem_removeEntity_of_ne {kind : Removal} {id : ℕ} {rows : List Entity} {e : Entity}
    (he : e ∈ rows) (hid : e.id ≠ id) : e ∈ removeEntity kind id rows := by
  cases kind with
  | delete => exact List.mem_filter.mpr ⟨he, decide_eq_true hid⟩
  | revoke => exact List.mem_map.mpr ⟨e, he, if_neg hid⟩

/-- A new row; its key id has never been drawn before. -/
def createEntity (s : State) (bootstrap : Bool) (role : String) (credentials : Credentials) :
    Option State :=
  let entity : Entity := ⟨s.nextId, credentials.keyId, credentials.hash, some role, true⟩
  if credentials.keyId ∈ s.entities.map Entity.keyId then none
  else some { s with
    rows := s.rows ++ [entity]
    entities := s.entities ++ [entity]
    nextId := s.nextId + 1
    created := true
    claims := if bootstrap then s.claims ++ [s.created] else s.claims }

section Step
variable (crypto : Crypto) (config : Config)

/-- What follows the await of the `i`-th request. -/
def proceed (s : State) (i : ℕ) : Request → Option State
  | .reading p keyId since => match s.rows.find? fun e => e.keyId = keyId ∧ e.active with
    | none => some (s.settle i)
    | some entity => some (s.advance i (.comparing p since entity))
  | .comparing p since entity =>
    if crypto.compare p.key entity.hash then
      let entry : Cached := ⟨entity.id, roleOrAdmin entity.role⟩
      some (enforceRole { s.settle i with cache := s.cache.set (crypto.sha256 p.key) entry }
        p since entry)
    else some (s.settle i)
  | .finding kind id => match s.rows.find? fun e => e.id = id with
    | none => some (s.settle i)
    | some entity =>
      if isAdmin entity then some (s.advance i (.counting kind entity))
      else some (s.advance i (.writing kind entity))
  | .counting kind entity =>
    if otherAdmins s.rows entity = [] then some (s.settle i)
    else some (s.advance i (.writing kind entity))
  | .writing kind entity =>
    some { s.advance i (.written entity.id) with rows := removeEntity kind entity.id s.rows }
  | .written id =>
    some { s.settle i with
      cache := purgeApiKeyCacheEntry s.cache id
      answered := s.answered ++ [id] }
  | .claiming token credentials =>
    if s.rows ≠ [] ∧ config.bootstrapAutoDisable then some (s.settle i)
    else if config.requireClaimToken ∧ ¬ token then some (s.settle i)
    else some (s.advance i (.creating true "admin" credentials))
  | .creating bootstrap role credentials =>
    createEntity (s.settle i) bootstrap role credentials

def step (s : State) : Label → Option State
  | .present p => match s.cache.get (crypto.sha256 p.key) with
    | some entry => some (enforceRole s p s.answered entry)
    | none => match apiKeyPattern p.key with
      | none => some s
      | some keyId => some (s.request (.reading p keyId s.answered))
  | .remove kind id => some (s.request (.finding kind id))
  | .bootstrap token credentials =>
    if config.bootstrapEnabled then some (s.request (.claiming token credentials)) else some s
  | .generate role credentials =>
    if roleOrAdmin role ∈ validRoles then
      some (s.request (.creating false (roleOrAdmin role) credentials))
    else some s
  | .proceed i => s.requests[i]?.bind (proceed crypto config s i)
  | .fail i => match s.requests[i]? with
    | none => none
    | some (.written _) => none
    | some _ => some (s.settle i)

end Step

end ZoneweaverAgent.ApiKeys
