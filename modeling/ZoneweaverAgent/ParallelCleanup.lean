import ZoneweaverAgent.DatasetCleanup
import ZoneweaverAgent.Transition

/-!
# Dataset cleanups in parallel

`cleanupZoneDatasets` processes every collected dataset in a run of its own: the run asks whether
the dataset exists, reads its stamp and destroys its subtree, and between two of these commands any
other run may execute one. The stamp zfs reports is the nearest one set at or above the dataset.
-/

namespace ZoneweaverAgent.ParallelCleanup
open ZoneDocument PathTree
open DatasetCleanup (isProtected)

/-- The datasets that exist, each with the stamp set on itself, as `zfs get` prints it. -/
abbrev Tree := KeyedList String (Option String)

def Covers (x d : String) : Prop := AtOrBelow '/' x.toList d.toList

instance (x d : String) : Decidable (Covers x d) :=
  inferInstanceAs (Decidable (AtOrBelow '/' x.toList d.toList))

inductive DestroyError
  | notFound
  | busy

/-- What `cleanupZoneDatasets` reads besides the tree: the protected values, the datasets that a
destroy fails on, and the errors a failing destroy prints. -/
structure Host where
  protectedDatasets : List Json
  busy : String → Bool
  message : DestroyError → String → String

section Commands

/-- The value of the property at `d`, set there or inherited. -/
def sourceProperty (t : Tree) (d : String) : Option String :=
  ((ancestors '/' d.toList).reverse.map fun a => (t.get (String.ofList a)).join).findSome? id

def isSource (value : String) : Bool := value ≠ "" && value ≠ "-"

def readDatasetSource (t : Tree) (d : String) : Option String :=
  if t.has d then (sourceProperty t d).filter isSource else none

def OwnStamp (t : Tree) (d : String) : Prop := ((t.get d).join.filter isSource).isSome = true

instance (t : Tree) (d : String) : Decidable (OwnStamp t d) :=
  inferInstanceAs (Decidable (_ = true))

/-- Whether something at or below `d` cannot be destroyed. -/
def blocked (host : Host) (t : Tree) (d : String) : Bool :=
  t.keys.any fun q => Covers d q && host.busy q

/-- `zfs destroy -r` -/
def destroy (host : Host) (t : Tree) (d : String) : Except DestroyError Tree :=
  if t.has d = false then .error .notFound
  else if blocked host t d then .error .busy
  else .ok (t.filter fun e => decide (¬Covers d e.1))

end Commands

section Processing
variable (host : Host)

inductive Result
  | null
  | skipped (text : String)
  | error (text : String)

def Result.error? : Result → Option String
  | .error text => some text
  | _ => none

def protectedSkip (d : String) : Result := .skipped (d ++ " — used by another machine")

def unstampedSkip (d : String) : Result :=
  .skipped (d ++ " — no zoneweaver:source stamp (attached or pre-spec); " ++
    "destroy manually if intended")

def destroyFailure (d : String) (e : DestroyError) : Result :=
  .error ("Failed to destroy " ++ d ++ ": " ++ host.message e d)

/-- A run that nothing interferes with; a protected value that is no text makes it throw. -/
def processSingleDataset (t : Tree) (d : String) : Option Result × Tree :=
  match isProtected d host.protectedDatasets with
  | none => (none, t)
  | some true => (some (protectedSkip d), t)
  | some false =>
    if t.has d = false then (some .null, t)
    else
      match readDatasetSource t d with
      | none => (some (unstampedSkip d), t)
      | some _ =>
        match destroy host t d with
        | .error e => (some (destroyFailure host d e), t)
        | .ok t' => (some .null, t')

/-- The results of the runs when each one ends before the next one starts. -/
def oneAfterAnother : Tree → List String → List (Option Result)
  | _, [] => []
  | t, d :: rest =>
    (processSingleDataset host t d).1 :: oneAfterAnother (processSingleDataset host t d).2 rest

/-- The errors `cleanupZoneDatasets` returns; it throws if a run does. -/
def reported (results : List (Option Result)) : Option (List String) :=
  if results.any Option.isNone then none
  else some (results.filterMap fun result => result.bind Result.error?)

def sortedDatasets (datasets : List String) : List String :=
  datasets.insertionSort fun a b => a.length ≤ b.length

end Processing

section Parallel
variable (host : Host)

/-- Where a run stands: what it asks next, or what it returned. -/
inductive Phase
  | listing
  | reading
  | destroying
  | ended (result : Option Result)

structure Run where
  dataset : String
  phase : Phase

/-- `destroyed` are the datasets whose destruction was logged. -/
structure State where
  tree : Tree
  destroyed : List String
  runs : List Run

/-- Every run goes up to its first command before any command is executed. -/
def begin (d : String) : Run :=
  match isProtected d host.protectedDatasets with
  | none => ⟨d, .ended none⟩
  | some true => ⟨d, .ended (some (protectedSkip d))⟩
  | some false => ⟨d, .listing⟩

def start (t : Tree) (datasets : List String) : State :=
  ⟨t, [], (sortedDatasets datasets).map (begin host)⟩

def State.put (s : State) (i : ℕ) (r : Run) : State := { s with runs := s.runs.set i r }

/-- The command the `i`-th run waits for is executed. -/
def step (s : State) (i : ℕ) : Option State :=
  match s.runs[i]? with
  | none => none
  | some ⟨d, .listing⟩ =>
    some (s.put i ⟨d, if s.tree.has d then .reading else .ended (some .null)⟩)
  | some ⟨d, .reading⟩ =>
    match readDatasetSource s.tree d with
    | none => some (s.put i ⟨d, .ended (some (unstampedSkip d))⟩)
    | some _ => some (s.put i ⟨d, .destroying⟩)
  | some ⟨d, .destroying⟩ =>
    match destroy host s.tree d with
    | .error e => some (s.put i ⟨d, .ended (some (destroyFailure host d e))⟩)
    | .ok t =>
      some ({ s with tree := t, destroyed := d :: s.destroyed }.put i ⟨d, .ended (some .null)⟩)
  | some ⟨_, .ended _⟩ => none

def Phase.result? : Phase → Option (Option Result)
  | .ended result => some result
  | _ => none

def State.Completed (s : State) : Prop := ∀ r ∈ s.runs, r.phase.result?.isSome = true

def State.results (s : State) : List (Option Result) := s.runs.filterMap fun r => r.phase.result?

abbrev Interleaves (s s' : State) : Prop := Transition.Reaches (step host) (fun _ _ => True) s s'

/-- Whatever the order of the commands, only datasets with a stamp of their own disappear, and the
errors are those of the runs one after another. -/
def Orderly (t : Tree) (datasets : List String) : Prop :=
  ∀ s, Interleaves host (start host t datasets) s →
    (∀ q, t.has q = true → s.tree.has q = false → OwnStamp t q) ∧
    (s.Completed →
      reported s.results = reported (oneAfterAnother host t (sortedDatasets datasets)))

end Parallel

end ZoneweaverAgent.ParallelCleanup
