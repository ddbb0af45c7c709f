import ZoneweaverAgent.EventLoop
import ZoneweaverAgent.JsonValue
import Mathlib.Data.List.Infix

/-!
# Settings updates and restores

`updateSettings` and `restoreBackup` as activations of the event loop, cut at their awaits, over the
configuration file, the one temporary name beside it, the backups and the configuration in memory. A
file is opened and filled in two steps, so that others find it in between; an open file follows its
inode when the name it was opened under is renamed.
-/

namespace ZoneweaverAgent.Settings
open EventLoop

/-- The YAML library and the texts it reads and writes: what a reader sees of a text of which only
the beginning is there, and what a shorter text written over a longer one leaves. -/
structure Yaml (Text : Type) where
  /-- `none` when `yaml.load` throws -/
  load : Text → Option Json
  dump : Json → Text
  part : Text → ℕ → Text
  overlay : Text → Text → Text
  /-- the own properties of a text that is spread -/
  spread : String → List (String × Json)
  overlay_self : ∀ t, overlay t t = t

/-- What is dumped is loaded again as it was. -/
def Yaml.RoundTrips {Text : Type} (y : Yaml Text) : Prop := ∀ v, y.load (y.dump v) = some v

/-! ## The merge -/

mutual
/-- `output[key] = value` for the entries of the source, plain objects merged into plain objects. -/
def mergeEntries : List (String × Json) → List (String × Json) → List (String × Json)
  | output, [] => output
  | output, (key, value) :: rest =>
    mergeEntries (KeyedList.set output key (mergeValue (KeyedList.get output key) value)) rest

def mergeValue : Option Json → Json → Json
  | some (.obj target), .obj source => .obj (mergeEntries target source)
  | _, value => value
end

section Merge
variable {Text : Type} (y : Yaml Text)

/-- The own enumerable properties of a value. -/
def ownEntries : Json → List (String × Json)
  | .str s => y.spread s
  | .arr items => items.zipIdx.map fun e => (toString e.2, e.1)
  | .obj entries => entries
  | _ => []

/-- `none` when reading the entries of the source throws. -/
def deepMerge (target : Json) : Json → Option (List (String × Json))
  | .null => none
  | source => some (mergeEntries (ownEntries y target) (ownEntries y source))

def givesPort (config : Json) : Bool :=
  (config.field "server").any fun server =>
    server.truthy && (server.field "http_port").any Json.truthy

/-- What an update writes over the text it has read, `none` when it throws. -/
def updatedText (read : Text) (newSettings : Json) : Option Text :=
  ((y.load read).bind fun currentConfig => deepMerge y currentConfig newSettings).bind
    fun updatedConfig =>
      if givesPort (.obj updatedConfig) then some (y.dump (.obj updatedConfig)) else none

/-- The configuration that `load` keeps of a document, `none` when it throws. -/
def configOf : Json → Option Json
  | .null => none
  | fullConfig => some (orElseTruthy (fullConfig.field "zoneweaver_api_backend") fullConfig)

def loadConfig (text : Text) : Option Json := (y.load text).bind configOf

end Merge

/-! ## Files -/

variable {Text : Type}

/-- A file that is not whole holds an unknown beginning of its text. -/
structure File (Text : Type) where
  text : Text
  whole : Bool
  deriving DecidableEq

inductive Request
  | update (newSettings : Json)
  | restore (filename : String)
  deriving DecidableEq

/-- How a request changes the configuration file. -/
inductive Commit (Text : Type)
  | merge (newSettings : Json)
  | copy (text : Text)
  deriving DecidableEq

/-- A history variable: what the requests did and answered, newest first. -/
inductive Event (Text : Type)
  | began (id : ℕ) (request : Request)
  /-- the restore has found this text in the backup and opened the configuration file -/
  | opened (id : ℕ) (filename : String) (text : Text)
  /-- the configuration file has the request's content, or has been lost to it -/
  | replaced (id : ℕ)
  | committed (id : ℕ) (commit : Commit Text)
  | loaded (id : ℕ)
  | answered (id : ℕ) (success : Bool)
  deriving DecidableEq

structure World (Text : Type) where
  inodes : KeyedList ℕ (File Text)
  nextInode : ℕ
  config : Option ℕ
  temp : Option ℕ
  backups : KeyedList String (File Text)
  clock : ℕ
  loadedConfig : Json
  nextRequest : ℕ
  history : List (Event Text)

namespace World

def record (w : World Text) (e : Event Text) : World Text := { w with history := e :: w.history }

def configFile (w : World Text) : Option (File Text) := w.config.bind w.inodes.get

/-- What a reader gets of a file; of one that is not whole, some first characters. -/
def seen (y : Yaml Text) (f : File Text) (n : ℕ) : Text := if f.whole then f.text else y.part f.text n

/-- Open a name for writing: its inode, or a new one, is emptied and will receive the text. -/
def openInode (w : World Text) (name : Option ℕ) (text : Text) : World Text × ℕ :=
  match name with
  | some i => ({ w with inodes := w.inodes.set i ⟨text, false⟩ }, i)
  | none =>
    ({ w with
        inodes := w.inodes.set w.nextInode ⟨text, false⟩
        nextInode := w.nextInode + 1 }, w.nextInode)

def openTemp (w : World Text) (text : Text) : World Text × ℕ :=
  let r := w.openInode w.temp text
  ({ r.1 with temp := some r.2 }, r.2)

def openConfig (w : World Text) (text : Text) : World Text × ℕ :=
  let r := w.openInode w.config text
  ({ r.1 with config := some r.2 }, r.2)

/-- The open file has received its text; what a longer text has left behind it stays. -/
def finishWrite (y : Yaml Text) (w : World Text) (fd : ℕ) (text : Text) : World Text :=
  { w with
    inodes := w.inodes.set fd
      ⟨(w.inodes.get fd).elim text fun f => y.overlay text f.text, true⟩ }

end World

/-! ## The program -/

inductive Pc (Text : Type)
  -- createBackup
  | mkdir
  | backupOpen (name : String)
  | backupWrite (name : String) (text : Text)
  -- updateSettings
  | backedUp (id : ℕ) (newSettings : Json)
  | readConfig (id : ℕ) (newSettings : Json)
  | openTemp (id : ℕ) (newSettings : Json) (read text : Text)
  | writeTemp (id : ℕ) (newSettings : Json) (read text : Text) (fd : ℕ)
  | renameTemp (id : ℕ) (newSettings : Json) (read text : Text)
  -- restoreBackup
  | access (id : ℕ) (filename : String)
  | restoring (id : ℕ) (filename : String)
  | openCopy (id : ℕ) (filename : String)
  | writeCopy (id : ℕ) (text : Text) (fd : ℕ)
  deriving DecidableEq

inductive Ans (Text : Type)
  | done
  | text (t : Text)
  | opened (fd : ℕ) (t : Text)
  /-- the file has been replaced; what the read of the reload will see of it, `none` if it fails -/
  | replaced (sees : Option ℕ)
  | ioError
  deriving DecidableEq

/-- What is left open about a file operation: how much a reader sees of a file that is being
written, where a write breaks off, and what the synchronous read behind the answer will see. -/
inductive Choice
  | only
  | sees (n : ℕ)
  | reload (sees : Option ℕ)
  | breaks (n : ℕ)
  deriving DecidableEq

inductive Entry
  | request (r : Request)
  | elapse (ms : ℕ)
  deriving DecidableEq

/-- `config-${Date.now()}.yaml` -/
def backupName (timestamp : ℕ) : String := "config-" ++ toString timestamp ++ ".yaml"

def serve (y : Yaml Text) (w : World Text) (pc : Pc Text) (choice : Choice) :
    Option (Ans Text × World Text) :=
  match pc, choice with
  | .mkdir, .only => some (.done, w)
  | .backupOpen name, .sees n => w.configFile.map fun f =>
    (.text (World.seen y f n), { w with backups := w.backups.set name ⟨World.seen y f n, false⟩ })
  | .backupWrite name text, .only =>
    some (.done, { w with backups := w.backups.set name ⟨text, true⟩ })
  | .backupWrite name _, .breaks _ => some (.ioError, { w with backups := w.backups.erase name })
  | .readConfig _ _, .sees n => w.configFile.map fun f => (.text (World.seen y f n), w)
  | .openTemp _ _ _ text, .only =>
    some (.opened (w.openTemp text).2 text, (w.openTemp text).1)
  | .writeTemp _ _ _ text fd, .only => some (.done, w.finishWrite y fd text)
  | .writeTemp _ _ _ text fd, .breaks n =>
    some (.ioError, { w with inodes := w.inodes.set fd ⟨y.part text n, false⟩ })
  | .renameTemp id newSettings _ _, .reload sees => w.temp.map fun i =>
    (.replaced sees, (({ w with
      config := some i
      temp := none } : World Text).record (.replaced id)).record
        (.committed id (.merge newSettings)))
  | .access _ filename, .only => (w.backups.get filename).map fun _ => (.done, w)
  | .openCopy id filename, .sees n => (w.backups.get filename).map fun f =>
    (.opened (w.openConfig (World.seen y f n)).2 (World.seen y f n),
      ((w.openConfig (World.seen y f n)).1.record (.replaced id)).record
        (.opened id filename (World.seen y f n)))
  | .writeCopy id text fd, .reload sees =>
    some (.replaced sees, (w.finishWrite y fd text).record (.committed id (.copy text)))
  -- a copy that fails tries to remove its destination
  | .writeCopy _ _ _, .breaks _ => some (.ioError, { w with config := none })
  | _, _ => none

/-- A write that breaks off leaves something behind and is an answer of its own. -/
def canFail : Pc Text → Bool
  | .backupWrite _ _ | .writeTemp _ _ _ _ _ | .writeCopy _ _ _ => false
  | _ => true

def answer (w : World Text) (id : ℕ) (success : Bool) : World Text × Next (Pc Text) :=
  (w.record (.answered id success), .finish false)

/-- `config.load()` and the answer. -/
def reload (y : Yaml Text) (w : World Text) (id : ℕ) (sees : Option ℕ) :
    World Text × Next (Pc Text) :=
  match sees.bind fun n => w.configFile.bind fun f => loadConfig y (World.seen y f n) with
  | some config => answer ({ w with loadedConfig := config }.record (.loaded id)) id true
  | none => answer w id false

def resume (y : Yaml Text) (w : World Text) (pc : Pc Text) (reply : Reply (Ans Text)) :
    World Text × Next (Pc Text) :=
  match pc, reply with
  | .mkdir, .answer _ => (w, .await (.backupOpen (backupName w.clock)))
  | .backupOpen name, .answer (.text t) => (w, .await (.backupWrite name t))
  -- createBackup catches its errors
  | .mkdir, _ | .backupOpen _, _ | .backupWrite _ _, _ => (w, .finish false)
  | .backedUp id newSettings, _ => (w, .await (.readConfig id newSettings))
  | .readConfig id newSettings, .answer (.text read) =>
    match updatedText y read newSettings with
    | some text => (w, .await (.openTemp id newSettings read text))
    | none => answer w id false
  | .openTemp id newSettings read text, .answer (.opened fd _) =>
    (w, .await (.writeTemp id newSettings read text fd))
  | .writeTemp id newSettings read text _, .answer .done =>
    (w, .await (.renameTemp id newSettings read text))
  | .renameTemp id _ _ _, .answer (.replaced sees) => reload y w id sees
  | .access id filename, .answer _ => (w, .call [.mkdir] (.restoring id filename))
  | .restoring id filename, _ => (w, .await (.openCopy id filename))
  | .openCopy id _, .answer (.opened fd t) => (w, .await (.writeCopy id t fd))
  | .writeCopy id _ _, .answer (.replaced sees) => reload y w id sees
  | .writeCopy id _ _, .answer _ => answer w id false
  | .readConfig id _, _ | .openTemp id _ _ _, _ | .writeTemp id _ _ _ _, _
  | .renameTemp id _ _ _, _ | .access id _, _ | .openCopy id _, _ => answer w id false
  -- a copy that breaks off has an answer, so nothing else arrives
  | .writeCopy _ _ _, _ => (w, .finish true)

def climbs (filename : String) : Bool := decide (['.', '.'] <:+: filename.toList)

def enter (w : World Text) : Entry → Option (World Text × Next (Pc Text))
  | .request r =>
    let id := w.nextRequest
    let w := { w with nextRequest := id + 1 }.record (.began id r)
    match r with
    | .update newSettings => some (w, .call [.mkdir] (.backedUp id newSettings))
    | .restore filename =>
      if climbs filename then some (answer w id false) else some (w, .await (.access id filename))
  | .elapse ms => some ({ w with clock := w.clock + ms }, .finish false)

def program (y : Yaml Text) : Program (World Text) (Pc Text) (Ans Text) Choice Entry where
  serve := serve y
  canFail := canFail
  resume := resume y
  enter := enter

abbrev SState (Text : Type) := State (World Text) (Pc Text) (Ans Text)
abbrev SLabel := Label Choice Entry

/-- A process that has loaded its configuration file; a temporary file may have been left behind. -/
def boot (text : Text) (leftover : Option (File Text)) (backups : KeyedList String (File Text))
    (loadedConfig : Json) : SState Text :=
  start
    { inodes := (0, ⟨text, true⟩) :: leftover.toList.map fun f => (1, f)
      nextInode := 2
      config := some 0
      temp := leftover.map fun _ => 1
      backups
      clock := 0
      loadedConfig
      nextRequest := 0
      history := [] }

end ZoneweaverAgent.Settings
