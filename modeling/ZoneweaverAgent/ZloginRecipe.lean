import Mathlib.Algebra.Order.Ring.Unbundled.Rat
import Mathlib.Data.List.Infix
import Mathlib.Data.Rat.Lemmas
import ZoneweaverAgent.CommandScript
import ZoneweaverAgent.ZloginPty
import ZoneweaverAgent.ZloginTemplate

/-!
# Recipes typed into a zone console

The automation engine runs the steps of a recipe against the shared PTY session of a zone. Between
any two of its calls the console speaks, processes end, and other parties write, destroy and
reconnect. Texts of a recipe are lists of characters, those of a console lists of UTF-16 code units.
-/

namespace ZoneweaverAgent.ZloginRecipe

open CommandProgram CommandScript
open ZloginTemplate (resolveVars echoWrites heredocWrites)

abbrev Words := List Char

section Texts

def utf16 (words : Words) : Zlogin.Text :=
  words.flatMap fun c =>
    if c.toNat < 0x10000 then [UInt16.ofNat c.toNat]
    else [UInt16.ofNat (0xD800 + (c.toNat - 0x10000) / 0x400),
      UInt16.ofNat (0xDC00 + (c.toNat - 0x10000) % 0x400)]

def crlf : Zlogin.Text := [13, 10]

def decimal (n : ℕ) : Words := Nat.toDigits 10 n

/-- `replace(/\r?\n/g, '\\n')` -/
def showLineEnds : Words → Words
  | [] => []
  | '\r' :: '\n' :: rest => '\\' :: 'n' :: showLineEnds rest
  | '\n' :: rest => '\\' :: 'n' :: showLineEnds rest
  | c :: rest => c :: showLineEnds rest

/-- What a wait looks for: a text, or a marker, a colon and a digit. -/
inductive Needle
  | literal (pattern : Zlogin.Text)
  | digitBehind (marker : Zlogin.Text)

def Needle.test : Needle → Zlogin.Text → Bool
  | .literal pattern, buffer => decide (pattern <:+: buffer)
  | .digitBehind marker, buffer =>
    buffer.tails.any fun rest =>
      (marker ++ [58]).isPrefixOf rest &&
        (rest.drop (marker ++ [58]).length).head?.any Zlogin.isDigit

/-- `\s` -/
def isSpace (u : UInt16) : Bool :=
  (9 ≤ u && u ≤ 13) || (8192 ≤ u && u ≤ 8202) ||
    ([32, 160, 5760, 8232, 8233, 8239, 8287, 12288, 65279] : List UInt16).contains u

def number (digits : Zlogin.Text) : ℕ := digits.foldl (fun n u => 10 * n + (u.toNat - 48)) 0

/-- `${marker}:\s*(\d+)` at the start of a text. -/
def exitCodeHere (marker text : Zlogin.Text) : Option ℕ :=
  if (marker ++ [58]).isPrefixOf text then
    let digits := ((text.drop (marker ++ [58]).length).dropWhile isSpace).takeWhile Zlogin.isDigit
    if digits = [] then none else some (number digits)
  else none

/-- The number of the first match. -/
def exitCode? (marker : Zlogin.Text) : Zlogin.Text → Option ℕ
  | [] => none
  | u :: rest => (exitCodeHere marker (u :: rest)).or (exitCode? marker rest)

end Texts

section World

/-- What the run has written, in its order, and the session that it has marked are kept as
history. -/
structure World where
  pty : Zlogin.Manager
  destroyed : Bool
  typed : List Zlogin.Text
  held : Option ℕ

inductive Command
  | isDestroyed
  | now
  | sleep (ms : ℚ)
  | getOrCreate (cols rows : ℕ)
  | setAutomationActive (active : Bool)
  | clearBuffer
  | isAlive
  | write (data : Zlogin.Text)
  | getStrippedBuffer
  | test (needle : Needle)
  | poll (n : ℕ) (needle : Needle) (deadline : ℚ)
  | destroy

inductive Reply
  | nothing
  | thrown (error : Words)
  | truth (b : Bool)
  | time (now : ℕ)
  | text (buffer : Zlogin.Text)
  | pending (n : ℕ)

/-- The process id of a spawned PTY process, or the error of a call outside the program. -/
inductive Choice
  | plain
  | spawned (pid : ℕ)
  | failed (error : Words)

/-- An event of the PTY manager, by any party, or the `destroy` of the engine. -/
inductive Event
  | pty (e : Zlogin.Event)
  | destroy

variable (zoneName : String)

def isAlive (s : Zlogin.Manager) : Bool :=
  (Zlogin.sessionOf s zoneName).any fun e => Zlogin.isProcessAlive s e.2

def write (w : World) (data : Zlogin.Text) : Choice → Option (Reply × World)
  | .plain =>
    if (Zlogin.sessionOf w.pty zoneName).isNone then
      some (.thrown ("No PTY session for zone '".toList ++ zoneName.toList ++ "'".toList), w)
    else if !isAlive zoneName w.pty then
      some (.thrown ("PTY process for zone '".toList ++ zoneName.toList ++
        "' is not alive".toList), w)
    else
      some (.nothing, { w with
        pty := Zlogin.write w.pty zoneName data
        typed := w.typed ++ [data] })
  | .failed error => if isAlive zoneName w.pty then some (.thrown error, w) else none
  | .spawned _ => none

def getOrCreate (w : World) (cols rows : ℕ) : Choice → Option (Reply × World)
  | .plain =>
    if isAlive zoneName w.pty then
      (Zlogin.getOrCreate w.pty zoneName (some cols) (some rows) none).map fun pty =>
        (.nothing, { w with pty := pty })
    else none
  | .spawned pid =>
    if isAlive zoneName w.pty then none
    else (Zlogin.getOrCreate w.pty zoneName (some cols) (some rows) (some pid)).map fun pty =>
      (.nothing, { w with pty := pty })
  | .failed error =>
    if isAlive zoneName w.pty then none
    else (Zlogin.getOrCreate w.pty zoneName (some cols) (some rows) none).map fun pty =>
      (.thrown error, { w with pty := pty })

/-- The first look of a wait; `pending` is the session that the wait keeps. -/
def test (w : World) (needle : Needle) : Reply :=
  match Zlogin.sessionOf w.pty zoneName with
  | none => .truth false
  | some (n, session) => if needle.test session.strippedBuffer then .truth true else .pending n

/-- A look at an interval; as long as nothing is decided, the wait goes on. -/
def poll (w : World) (n : ℕ) (needle : Needle) (deadline : ℚ) : Option Bool :=
  match w.pty.objects.get n with
  | none => none
  | some session =>
    if (w.pty.sessions.get zoneName).isNone || !Zlogin.isProcessAlive w.pty session then some false
    else if needle.test session.strippedBuffer then some true
    else if deadline ≤ (w.pty.now : ℚ) then some false
    else none

def call (w : World) (c : Command) (choice : Choice) : Option (Reply × World) :=
  match c, choice with
  | .write data, choice => write zoneName w data choice
  | .getOrCreate cols rows, choice => getOrCreate zoneName w cols rows choice
  | .isDestroyed, .plain => some (.truth w.destroyed, w)
  | .now, .plain => some (.time w.pty.now, w)
  -- a timer fires at some later moment
  | .sleep _, .plain => some (.nothing, w)
  | .setAutomationActive active, .plain =>
    some (.nothing, { w with
      pty := Zlogin.setAutomationActive w.pty zoneName active
      held := if active then (Zlogin.sessionOf w.pty zoneName).map Prod.fst else none })
  | .clearBuffer, .plain => some (.nothing, { w with pty := Zlogin.clearBuffer w.pty zoneName })
  | .isAlive, .plain => some (.truth (isAlive zoneName w.pty), w)
  | .getStrippedBuffer, .plain =>
    some (.text (((Zlogin.sessionOf w.pty zoneName).map fun e => e.2.strippedBuffer).getD []), w)
  | .test needle, .plain => some (test zoneName w needle, w)
  | .poll n needle deadline, .plain =>
    (poll zoneName w n needle deadline).map fun matched => (.truth matched, w)
  | .destroy, .plain => some (.nothing, { w with
      destroyed := true
      pty := Zlogin.setAutomationActive w.pty zoneName false
      held := none })
  | _, _ => none

def happen (w : World) : Event → Option World
  | .pty e => (Zlogin.step w.pty e).map fun pty => { w with pty := pty }
  | .destroy => some { w with
      destroyed := true
      pty := Zlogin.setAutomationActive w.pty zoneName false }

def console : System World Command Reply Choice Event := ⟨call zoneName, happen zoneName⟩

end World

section Recipes

structure CommandStep where
  value : Words
  expectPrompt : Option Words
  timeout : Option ℚ
  checkExitCode : Option Bool

inductive Step
  | wait (pattern : Words) (timeout : Option ℚ)
  | send (value : Words)
  | command (step : CommandStep)
  | template (step : ZloginTemplate.Step) (expectPrompt : Option Words) (timeout : Option ℚ)
  | delay (seconds : Option ℚ)
  | other (type : Words)

def Step.type : Step → Words
  | .wait _ _ => "wait".toList
  | .send _ => "send".toList
  | .command _ => "command".toList
  | .template _ _ _ => "template".toList
  | .delay _ => "delay".toList
  | .other type => type

/-- Prompts are falsy when they are empty, and a timeout when it is 0. -/
structure Recipe where
  steps : List Step
  bootString : Option Words
  loginPrompt : Option Words
  shellPrompt : Option Words
  defaultVars : Words → Option Words
  timeoutSeconds : Option ℚ

structure StepResult where
  success : Bool
  output : Option Zlogin.Text := none
  error : Option Zlogin.Text := none

structure Entry where
  step : ℕ
  type : Words
  result : StepResult

/-- The arrays of a run and the log of the engine. -/
structure Locals where
  output : List Zlogin.Text
  errors : List Zlogin.Text
  log : List Entry

/-- `log` is missing where the run returns early. -/
structure Outcome where
  success : Bool
  output : List Zlogin.Text
  errors : List Zlogin.Text
  log : Option (List Entry)

structure Engine where
  cols : ℕ
  rows : ℕ
  defaultTimeout : ℚ
  globalTimeout : ℚ

def orDefault (value : Option ℚ) (default : ℚ) : ℚ := (value.filter (· ≠ 0)).getD default

def orElse (value : Option Words) (default : Words) : Words := (value.filter (· ≠ [])).getD default

def newEngine (cols rows : Option ℕ) (defaultTimeout globalTimeout : Option ℚ) : Engine where
  cols := (cols.filter (· ≠ 0)).getD 80
  rows := (rows.filter (· ≠ 0)).getD 30
  defaultTimeout := orDefault defaultTimeout 30000
  globalTimeout := orDefault globalTimeout 300000

def bootString (recipe : Recipe) (zoneVars : Words → Option Words) : Words :=
  (zoneVars "boot_string".toList).getD (orElse recipe.bootString [])

def loginPrompt (recipe : Recipe) (zoneVars : Words → Option Words) : Words :=
  orElse (zoneVars "login_prompt".toList) (orElse recipe.loginPrompt "login:".toList)

def shellPrompt (recipe : Recipe) (zoneVars : Words → Option Words) : Words :=
  orElse (zoneVars "shell_prompt".toList) (orElse recipe.shellPrompt ":~$".toList)

def mergedVars (recipe : Recipe) (zoneVars : Words → Option Words) (name : Words) :
    Option Words :=
  if name = "boot_string".toList then some (bootString recipe zoneVars)
  else if name = "shell_prompt".toList then some (shellPrompt recipe zoneVars)
  else if name = "login_prompt".toList then some (loginPrompt recipe zoneVars)
  else (zoneVars name).or (recipe.defaultVars name)

end Recipes

section Calls

abbrev Script := CommandScript.Script Command Reply Words Locals

def isDestroyed : Script Bool := do
  match ← perform .isDestroyed with
  | .truth b => return b
  | _ => return false

def now : Script ℕ := do
  match ← perform .now with
  | .time t => return t
  | _ => return 0

def waitForDelay (ms : ℚ) : Script Unit := do
  let _ ← perform (.sleep ms)

/-- A call that may throw. -/
def effect (c : Command) : Script Unit := do
  match ← perform c with
  | .thrown error => throw error
  | _ => return ()

def alive : Script Bool := do
  match ← perform .isAlive with
  | .truth b => return b
  | _ => return false

def strippedBuffer : Script Zlogin.Text := do
  match ← perform .getStrippedBuffer with
  | .text buffer => return buffer
  | _ => return []

def waitForPattern (needle : Needle) (timeout globalDeadline : ℚ) : Script Bool := do
  match ← perform (.test needle) with
  | .pending n =>
    let start ← now
    match ← perform (.poll n needle (min (start + timeout) globalDeadline)) with
    | .truth b => return b
    | _ => return false
  | .truth b => return b
  | _ => return false

end Calls

section Steps
variable (engine : Engine) (vars : Words → Option Words) (globalDeadline : ℚ)

def fail (error : Words) (output : Option Zlogin.Text := none) : StepResult where
  success := false
  output := output
  error := some (utf16 error)

def succeed (output : Words) : StepResult where
  success := true
  output := some (utf16 output)

def notAvailable : StepResult := fail "PTY process not available".toList

def stepTimeout (timeout : Option ℚ) (default : ℚ) : Script ℚ := do
  let t ← now
  return min (orDefault timeout default * 1000) (globalDeadline - t)

def stepWait (pattern : Words) (timeout : Option ℚ) : Script StepResult := do
  let pattern := resolveVars vars pattern
  let timeout ← stepTimeout globalDeadline timeout (engine.defaultTimeout / 1000)
  if ← waitForPattern (.literal (utf16 pattern)) timeout globalDeadline then
    return succeed ("Matched pattern: ".toList ++ pattern)
  else return fail ("Timeout waiting for pattern: ".toList ++ pattern)

def stepSend (value : Words) : Script StepResult := do
  if !(← alive) then return notAvailable
  let value := resolveVars vars value
  effect (.write (utf16 value))
  return succeed ("Sent: ".toList ++ showLineEnds value)

def marker (t : ℕ) : Words := "ZWEC_".toList ++ decimal t

/-- `${command}; echo "${marker}:$?"` -/
def checkedCommand (command : Words) (t : ℕ) : Zlogin.Text :=
  utf16 (command ++ "; echo \"".toList ++ marker t ++ ":$?\"".toList) ++ crlf

def shownExitCode : Option ℕ → Words
  | some n => decimal n
  | none => "-1".toList

def stepCommand (step : CommandStep) : Script StepResult := do
  if !(← alive) then return notAvailable
  let command := resolveVars vars step.value
  let expectPrompt :=
    resolveVars vars (orElse step.expectPrompt "\x7b\x7bshell_prompt\x7d\x7d".toList)
  let timeout ← stepTimeout globalDeadline step.timeout (engine.defaultTimeout / 1000)
  effect .clearBuffer
  if step.checkExitCode = some false then
    effect (.write (utf16 command ++ crlf))
    if ← waitForPattern (.literal (utf16 expectPrompt)) timeout globalDeadline then
      return succeed ("Command executed: ".toList ++ command)
    else return fail ("Timeout waiting for prompt: ".toList ++ expectPrompt)
  else
    let t ← now
    effect (.write (checkedCommand command t))
    if !(← waitForPattern (.digitBehind (utf16 (marker t))) timeout globalDeadline) then
      return fail ("Command timed out: ".toList ++ command)
    let buffer ← strippedBuffer
    let exitCode := exitCode? (utf16 (marker t)) buffer
    if exitCode ≠ some 0 then
      return fail ("Command failed with exit code ".toList ++ shownExitCode exitCode ++
        ": ".toList ++ command) (some buffer)
    let _ ← waitForPattern (.literal (utf16 expectPrompt)) 5000 globalDeadline
    return succeed ("Command executed (exit 0): ".toList ++ command)

/-- The lines are written one after another, with a pause behind each or without. -/
def writeEach (pause : Option ℚ) : List Words → Script Unit
  | [] => return ()
  | line :: lines => do
    effect (.write (utf16 line))
    if let some ms := pause then waitForDelay ms
    writeEach pause lines

def stepTemplate (step : ZloginTemplate.Step) (expectPrompt : Option Words)
    (timeout : Option ℚ) : Script StepResult := do
  if !(← alive) then return notAvailable
  let content := resolveVars vars step.content
  let dest := resolveVars vars step.dest
  let method := (step.method.filter (· ≠ "")).getD "echo_redirect"
  let timeout ← stepTimeout globalDeadline timeout 30
  let prompt := resolveVars vars (orElse expectPrompt "\x7b\x7bshell_prompt\x7d\x7d".toList)
  if method = "echo_redirect" then
    writeEach (some 200) (echoWrites content dest)
    let _ ← waitForPattern (.literal (utf16 prompt)) timeout globalDeadline
    return succeed ("Template written to ".toList ++ dest)
  else if method = "heredoc" then
    let t ← now
    writeEach none (heredocWrites content dest t)
    let _ ← waitForPattern (.literal (utf16 prompt)) timeout globalDeadline
    return succeed ("Template written to ".toList ++ dest ++ " (heredoc)".toList)
  else return fail ("Unknown template method: ".toList ++ method.toList)

/-- `shown` is the text of a number in a template literal. -/
def stepDelay (shown : ℚ → Words) (seconds : Option ℚ) : Script StepResult := do
  let seconds := orDefault seconds 1
  waitForDelay (seconds * 1000)
  return succeed ("Delayed ".toList ++ shown seconds ++ "s".toList)

variable (shown : ℚ → Words)

def executeStep : Step → Script StepResult
  | .wait pattern timeout => stepWait engine vars globalDeadline pattern timeout
  | .send value => stepSend vars value
  | .command step => stepCommand engine vars globalDeadline step
  | .template step expectPrompt timeout =>
    stepTemplate vars globalDeadline step expectPrompt timeout
  | .delay seconds => stepDelay shown seconds
  | .other type => return fail ("Unknown step type: ".toList ++ type)

def pushError (error : Zlogin.Text) : Script Unit :=
  modify fun l => { l with errors := l.errors ++ [error] }

def pushOutput (output : Zlogin.Text) : Script Unit :=
  modify fun l => { l with output := l.output ++ [output] }

def pushEntry (entry : Entry) : Script Unit :=
  modify fun l => { l with log := l.log ++ [entry] }

def stepFailed (index : ℕ) (step : Step) : Zlogin.Text :=
  utf16 ("Step ".toList ++ decimal index ++ " (".toList ++ step.type ++ ") failed".toList)

def executeSteps : ℕ → List Step → Script Unit
  | _, [] => return ()
  | index, step :: steps => do
    if ← isDestroyed then pushError (utf16 "Automation was cancelled".toList)
    else if globalDeadline ≤ ((← now) : ℚ) then
      pushError (utf16 "Global timeout exceeded".toList)
    else
      let result ← executeStep engine vars globalDeadline shown step
      pushEntry ⟨index, step.type, result⟩
      if let some output := result.output.filter (· ≠ []) then pushOutput output
      if result.success then executeSteps (index + 1) steps
      else pushError ((result.error.filter (· ≠ [])).getD (stepFailed index step))

end Steps

section Execute
variable (engine : Engine) (shown : ℚ → Words) (recipe : Recipe)
  (zoneVars : Words → Option Words)

/-- Whether the run goes on behind the wait for the boot string. -/
def awaitBoot (globalDeadline : ℚ) : Script Bool := do
  let pattern := bootString recipe zoneVars
  if pattern = [] then return true
  let timeout := orDefault recipe.timeoutSeconds 300 * 1000
  if ← waitForPattern (.literal (utf16 pattern)) timeout globalDeadline then
    pushOutput (utf16 ("Boot detected: ".toList ++ pattern))
    return true
  effect .clearBuffer
  effect (.write crlf)
  waitForDelay 2000
  let buffer ← strippedBuffer
  if (Needle.literal (utf16 "grub>".toList)).test buffer then
    pushError (utf16 "Zone stuck at GRUB prompt - manual intervention required".toList)
    return false
  if (Needle.literal (utf16 (loginPrompt recipe zoneVars))).test buffer then
    pushOutput (utf16 "Boot string missed, but zone is at login prompt".toList)
    return true
  pushError (utf16 "Boot wait timed out and could not detect zone state".toList)
  return false

/-- What stands between `try` and `catch`; the answer is whether the run comes to its end. -/
def attempt (globalDeadline : ℚ) : Script Bool := do
  effect (.getOrCreate engine.cols engine.rows)
  effect (.setAutomationActive true)
  effect .clearBuffer
  if !(← awaitBoot recipe zoneVars globalDeadline) then return false
  if ← alive then
    effect (.write crlf)
    waitForDelay 1000
  executeSteps engine (mergedVars recipe zoneVars) globalDeadline shown 0 recipe.steps
  return true

/-- `finally`, and what is answered behind it. -/
def finish (completed : Bool) : Script Outcome := do
  effect (.setAutomationActive false)
  let l ← get
  if completed then return ⟨l.errors.isEmpty, l.output, l.errors, some l.log⟩
  else return ⟨false, l.output, l.errors, none⟩

def execute : Script Outcome := do
  if ← isDestroyed then
    return ⟨false, [], [utf16 "Automation engine has been destroyed".toList], none⟩
  let globalDeadline := ((← now) : ℚ) + engine.globalTimeout
  let completed ← tryCatch (attempt engine shown recipe zoneVars globalDeadline) fun error => do
    pushError (utf16 ("Execution error: ".toList ++ error))
    return true
  finish completed

/-- A run of `execute` on an engine that has logged these entries before. -/
def execution (log : List Entry) :
    Program Command Reply (Except Words Outcome × Locals) :=
  run (execute engine shown recipe zoneVars) ⟨[], [], log⟩

end Execute

end ZoneweaverAgent.ZloginRecipe
