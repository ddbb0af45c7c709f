import ZoneweaverAgent.DatasetCleanup
import ZoneweaverAgent.TextLines

/-!
# NAT rules

`executeCreateNatRuleTask` and `executeDeleteNatRuleTask` synchronise the table with `ipnat.conf`,
change one row and write the file anew from the table. A row is kept when some line of the file
starts with its rule; a line becomes a row when it has four parts at least.
-/

namespace ZoneweaverAgent.NatRules
open DatasetCleanup (isLineTerminator)
open TextLines (trim readLines)

abbrev Text := List Char

structure NatRule where
  type : Text
  bridge : Text
  subnet : Text
  target : Option Text
  protocol : Text
  rawRule : Text
  description : Option Text
  createdBy : Option Text
  deriving DecidableEq

structure Row where
  id : ℕ
  rule : NatRule
  deriving DecidableEq

def rawRules (table : List Row) : List Text := table.map fun row => row.rule.rawRule

structure State where
  file : Option Text
  table : List Row
  deriving DecidableEq

/-- The id the database gives a new row, the order in which a query returns the rows, and the text
that ends up in the file when the shell does not take the content literally. -/
structure Host where
  uuid : Text → ℕ
  findAll : List Row → List Row
  shell : Text → Text
  error : String

/-- Whether `cat` and the writing work, and the error the refresh of ipfilter ends with. -/
structure Outcomes where
  reads : Bool
  writes : Bool
  refreshError : Option String

section Parsing

def ruleLine (line : Text) : List Text := if line = [] ∨ line.head? = some '#' then [] else [line]

/-- The trimmed lines that are neither empty nor a comment. -/
def ruleLines (text : Text) : List Text := readLines isTrimmed '\n' ruleLine text

/-- `rule.replace(/#.*$/, '')` -/
def stripComment : Text → Text
  | [] => []
  | c :: rest =>
    if c = '#' ∧ rest.all (!isLineTerminator ·) then [] else c :: stripComment rest

/-- `/#\s*(?<comment>.*)$/` -/
def comment? : Text → Option Text
  | [] => none
  | c :: rest =>
    if c = '#' ∧ (rest.dropWhile isTrimmed).all (!isLineTerminator ·) then
      some (trim isTrimmed (rest.dropWhile isTrimmed))
    else comment? rest

def cleanRule (rule : Text) : Text := trim isTrimmed (stripComment rule)

/-- `cleanRule.split(/\s+/)` of a trimmed text. -/
def parts (cleanRule : Text) : List Text := (cleanRule.splitOnP isTrimmed).filter (· ≠ [])

def parseNatRule (rule : Text) : Option NatRule :=
  match parts (cleanRule rule) with
  | type :: bridge :: subnet :: _ :: rest =>
    some
      { type, bridge, subnet
        target := rest.head?
        protocol := if "tcp/udp".toList <:+: cleanRule rule then "tcp/udp".toList else "any".toList
        rawRule := cleanRule rule
        description := comment? rule
        createdBy := none }
  | _ => none

end Parsing

section Sync
variable (host : Host)

/-- The lines of the file, each once; a file that cannot be read has none. -/
def fileRules (o : Outcomes) (file : Option Text) : List Text :=
  match file with
  | some text => if o.reads then (ruleLines (trim isTrimmed text)).eraseDups else []
  | none => []

/-- A rule without a target and a rule that the table has already are rejected. -/
def create (table : List Row) (rule : NatRule) : Option (List Row) :=
  if rule.target = none ∨ rule.rawRule ∈ rawRules table then none
  else some (table ++ [⟨host.uuid rule.rawRule, rule⟩])

/-- What is imported: the parsed lines whose rule is not in the table. -/
def imports (lines : List Text) (table : List Row) : List NatRule :=
  ((lines.filterMap parseNatRule).filter fun rule => rule.rawRule ∉ rawRules table).map fun rule =>
    { rule with createdBy := some "system_import".toList }

/-- Every creation is attempted; whether all of them went through. -/
def importAll : List Row → List NatRule → Bool × List Row
  | table, [] => (true, table)
  | table, rule :: rest =>
    match create host table rule with
    | none => (false, (importAll table rest).2)
    | some table' => importAll table' rest

def foundInFile (lines : List Text) (row : Row) : Bool :=
  lines.any fun line => row.rule.rawRule.isPrefixOf line

/-- The rows read before that no line starts with are destroyed. -/
def prune (lines : List Text) (dbRules table : List Row) : List Row :=
  table.filter fun row => row.id ∉ dbRules.map Row.id || foundInFile lines row

def syncDatabaseWithSystem (o : Outcomes) (s : State) : Bool × List Row :=
  let imported := importAll host s.table (imports (fileRules o s.file) s.table)
  if imported.1 then (true, prune (fileRules o s.file) s.table imported.2)
  else (false, imported.2)

end Sync

section Writing
variable (host : Host)

/-- The line of a row. -/
def ruleText (row : Row) : Text :=
  match row.rule.description with
  | some (c :: rest) => row.rule.rawRule ++ " # ".toList ++ c :: rest
  | _ => row.rule.rawRule

def configContent (rows : List Row) : Text := List.intercalate ['\n'] (rows.map ruleText)

/-- A quote ends the argument of `bash -c` and the delimiter ends the here-document. -/
def literal (content : Text) : Bool :=
  '\'' ∉ content && "IPNATEOF".toList ∉ content.splitOn '\n'

def written (content : Text) : Text :=
  if literal content then content ++ ['\n'] else host.shell content

inductive Ending
  | failed (error : String)
  | unwritten (error : String)
  | succeeded (message : String)
  deriving DecidableEq

def regenerate (o : Outcomes) (file : Option Text) (table : List Row) (error : String)
    (message : Option String → String) : Ending × State :=
  if o.writes then
    (.succeeded (message o.refreshError), ⟨some (written host (configContent (host.findAll table))),
      table⟩)
  else (.unwritten (error ++ host.error), ⟨file, table⟩)

end Writing

section Tasks
variable (host : Host) (o : Outcomes)

structure Metadata where
  bridge : Option Text
  subnet : Option Text
  target : Option Text
  protocol : Option Text
  type : Option Text
  description : Option Text
  createdBy : Option Text

def Metadata.targetOr (m : Metadata) : Text := m.target.getD "0/32".toList

def Metadata.protocolOr (m : Metadata) : Text := m.protocol.getD "tcp/udp".toList

def Metadata.typeOr (m : Metadata) : Text := m.type.getD "portmap".toList

def newRule (m : Metadata) : Except String NatRule :=
  match m.bridge.filter (· ≠ []), m.subnet.filter (· ≠ []) with
  | some bridge, some subnet =>
    let build (rule : Text) : NatRule :=
      ⟨m.typeOr, bridge, subnet, some m.targetOr, m.protocolOr, rule, m.description, m.createdBy⟩
    let between := bridge ++ " ".toList ++ subnet ++ " -> ".toList ++ m.targetOr
    if m.typeOr = "portmap".toList then
      .ok (build ("map ".toList ++ between ++ " portmap ".toList ++ m.protocolOr ++ " auto".toList))
    else if m.typeOr = "bimap".toList then .ok (build ("bimap ".toList ++ between))
    else if m.typeOr = "rdr".toList then .ok (build ("rdr ".toList ++ between))
    else .error ("Unsupported NAT type: " ++ String.ofList m.typeOr)
  | _, _ => .error "bridge and subnet are required"

def createdMessage (rule : Text) : Option String → String
  | none => "NAT rule created: " ++ String.ofList rule
  | some error => "NAT rule added but ipfilter refresh failed: " ++ error

def executeCreateNatRuleTask (m : Metadata) (s : State) : Ending × State :=
  match newRule m with
  | .error error => (.failed error, s)
  | .ok rule =>
    let synced := syncDatabaseWithSystem host o s
    if synced.1 = false then
      (.failed ("NAT rule creation failed: " ++ host.error), { s with table := synced.2 })
    else if rule.rawRule ∈ rawRules synced.2 then
      (.succeeded ("NAT rule already exists: " ++ String.ofList rule.rawRule),
        { s with table := synced.2 })
    else
      regenerate host o s.file (synced.2 ++ [⟨host.uuid rule.rawRule, rule⟩])
        "Failed to write NAT config: " (createdMessage rule.rawRule)

def executeDeleteNatRuleTask (ruleId : ℕ) (s : State) : Ending × State :=
  let synced := syncDatabaseWithSystem host o s
  if synced.1 = false then
    (.failed ("NAT rule deletion failed: " ++ host.error), { s with table := synced.2 })
  else
    match synced.2.find? fun row => row.id = ruleId with
    | none => (.failed ("NAT rule not found: " ++ toString ruleId), { s with table := synced.2 })
    | some row =>
      regenerate host o s.file (synced.2.filter fun other => other.id ≠ ruleId)
        "Failed to update NAT config: "
        fun _ => "NAT rule deleted: " ++ String.ofList row.rule.rawRule

inductive Task
  | create (m : Metadata)
  | delete (ruleId : ℕ)

def Task.execute (task : Task) (s : State) : Ending × State :=
  match task with
  | .create m => executeCreateNatRuleTask host o m s
  | .delete ruleId => executeDeleteNatRuleTask host o ruleId s

end Tasks

section Property

def rulesOf (text : Text) : List Text := (ruleLines text).map cleanRule

/-- The rules of the file, in its order and without their comments. -/
def State.rules (s : State) : List Text := (s.file.map rulesOf).getD []

/-- `after` is `before` with one more rule. -/
def Inserted (rule : Text) (before after : List Text) : Prop :=
  rule ∉ before ∧ ∃ front back, before = front ++ back ∧ after = front ++ rule :: back

/-- The rule a task adds to, or takes out of, the rules of the file. -/
def Task.Changes (task : Task) (s s' : State) : Prop :=
  match task with
  | .create m => ∃ rule, newRule m = .ok rule ∧
      Inserted rule.rawRule s.rules.eraseDups s'.rules
  | .delete ruleId => ∃ row ∈ s.table, row.id = ruleId ∧
      Inserted row.rule.rawRule s'.rules s.rules.eraseDups

def Preserves (host : Host) (o : Outcomes) (task : Task) (s : State) : Prop :=
  match task.execute host o s with
  | (.failed _, _) => True
  | (.unwritten _, s') => s'.table = s.table
  | (.succeeded _, s') =>
    task.Changes s s' ∧ ∀ rule, rule ∈ rawRules s'.table ↔ rule ∈ s'.rules

end Property

end ZoneweaverAgent.NatRules
