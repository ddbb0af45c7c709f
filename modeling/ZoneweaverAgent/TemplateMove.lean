import ZoneweaverAgent.DatasetTree

/-!
# Moving a template

`executeTemplateMoveTask` over a tree of ZFS datasets: a rename within the pool, or a promotion, a
transfer and a destruction across pools, and then the row. A command works, fails, or reports a
failure after it has taken effect.
-/

namespace ZoneweaverAgent.TemplateMove
open DatasetTree
open PathTree (AtOrBelow)

abbrev Path := List Char
abbrev ZfsTree (Data : Type) := Tree Char String Data

inductive Outcome
  | works
  | fails
  | late
  deriving DecidableEq

structure Outcomes where
  poolCheck : Outcome
  rename : Outcome
  snapCheck : Outcome
  getClones : Outcome
  promote : Outcome
  createParent : Outcome
  /-- the error of `zfs create` includes 'already exists' -/
  parentExists : Bool
  sendRecv : Outcome
  targetSnapCheck : Outcome
  createSnap : Outcome
  verify : Outcome
  destroy : Outcome
  update : Outcome
  deriving DecidableEq

def allWork : Outcomes :=
  ⟨.works, .works, .works, .works, .works, .works, false, .works, .works, .works, .works, .works,
    .works⟩

/-- The tree and the `dataset_path` of the template's row. -/
structure Store (Data : Type) where
  tree : ZfsTree Data
  row : Path
  deriving DecidableEq

variable {Data : Type}

/-- A command that changes the tree to `effect`, `none` when ZFS refuses it. -/
def exec (o : Outcome) (tree : ZfsTree Data) (effect : Option (ZfsTree Data)) :
    Bool × ZfsTree Data :=
  match o, effect with
  | .works, some tree' => (true, tree')
  | .late, some tree' => (false, tree')
  | _, _ => (false, tree)

/-- A command that only reads. -/
def reads (o : Outcome) (answer : Bool) : Bool := o == .works && answer

/-- `template.update({ dataset_path: targetPath })`; false when it throws. -/
def updateRow (o : Outcome) (s : Store Data) (target : Path) : Bool × Store Data :=
  match o with
  | .works => (true, { s with row := target })
  | .late => (false, { s with row := target })
  | .fails => (false, s)

def ready : String := "ready"

/-! ## The clones of the snapshot -/

/-- What `zfs get -H -o value clones` prints. -/
def clonesText (names : List Path) : List Char :=
  if names = [] then ['-'] else List.intercalate [','] names

def trim (text : List Char) : List Char :=
  ((text.dropWhile Char.isWhitespace).reverse.dropWhile Char.isWhitespace).reverse

def parseDependentClones (clonesValue : List Char) : List Path :=
  if clonesValue = [] ∨ trim clonesValue = ['-'] ∨ trim clonesValue = [] then []
  else (((trim clonesValue).splitOn ',').map trim).filter (· ≠ [])

/-! ## The task -/

/-- `path.substring(0, path.lastIndexOf('/'))` -/
def parent (path : Path) : Path := ((path.reverse.dropWhile (· ≠ '/')).drop 1).reverse

section Task
variable (blank : Data) (target : Path)

def executeSamePoolMove (o : Outcomes) (s : Store Data) : Bool × Store Data :=
  let renamed := exec o.rename s.tree (rename '/' blank s.tree (parent target) s.row target)
  let s' : Store Data := { s with tree := renamed.2 }
  if renamed.1 then
    if reads o.verify (s'.tree.has target) then updateRow o.update s' target else (false, s')
  else (false, s')

/-- The dataset whose @ready snapshot is sent, `none` when the move is refused. -/
def resolveCloneDependencies (forcePromote : Bool) (o : Outcomes) (s : Store Data) :
    Option Path × ZfsTree Data :=
  if reads o.snapCheck (hasSnapshot s.tree s.row ready) then
    let output := if o.getClones = .fails then [] else clonesText (clones s.tree s.row ready)
    match parseDependentClones output with
    | [] => (some s.row, s.tree)
    | cloneToPromote :: _ =>
      if forcePromote then
        let promotion := exec o.promote s.tree (promote s.tree cloneToPromote)
        (if promotion.1 then some cloneToPromote else none, promotion.2)
      else (none, s.tree)
  else (none, s.tree)

/-- The parents of the target; the error that they exist already is passed over. -/
def createParents (o : Outcomes) (tree : ZfsTree Data) : Bool × ZfsTree Data :=
  if parent target = [] then (true, tree)
  else
    let created := exec o.createParent tree (create '/' blank tree (parent target))
    (created.1 || o.parentExists, created.2)

/-- `zfs send -c source@ready | zfs recv target` -/
def sendRecv (o : Outcomes) (tree : ZfsTree Data) (source : Path) : Bool × ZfsTree Data :=
  exec o.sendRecv tree (((tree.get source).bind fun d => d.find ready).bind fun snapshot =>
    receive tree (parent target) target snapshot)

/-- The target has its snapshot from the stream; a failure is only logged. -/
def ensureReady (o : Outcomes) (tree : ZfsTree Data) : ZfsTree Data :=
  if reads o.targetSnapCheck (hasSnapshot tree target ready) then tree
  else (exec o.createSnap tree (takeSnapshot tree target ready)).2

def executeCrossPoolMove (forcePromote : Bool) (o : Outcomes) (s : Store Data) :
    Bool × Store Data :=
  let resolved := resolveCloneDependencies forcePromote o s
  match resolved.1 with
  | none => (false, { s with tree := resolved.2 })
  | some sendSource =>
    let parents := createParents blank target o resolved.2
    if parents.1 then
      let received := sendRecv target o parents.2 sendSource
      if received.1 then
        let tree := ensureReady target o received.2
        if reads o.verify (tree.has target) then
          let destroyed := exec o.destroy tree (destroy '/' tree s.row)
          updateRow o.update { s with tree := destroyed.2 } target
        else (false, { s with tree := tree })
      else (false, { s with tree := received.2 })
    else (false, { s with tree := parents.2 })

/-- The task reports success, or it reports a failure or throws. -/
def executeTemplateMoveTask (forcePromote : Bool) (o : Outcomes) (s : Store Data) :
    Bool × Store Data :=
  if reads o.poolCheck (s.tree.has (pool '/' target)) then
    if pool '/' s.row = pool '/' target then executeSamePoolMove blank target o s
    else executeCrossPoolMove blank target forcePromote o s
  else (false, s)

end Task

end ZoneweaverAgent.TemplateMove
