import ZoneweaverAgent.JsonValue
import ZoneweaverAgent.TextLines
import ZoneweaverAgent.Transition
import ZoneweaverAgent.Utf8Decoding

/-!
# The output of a command

`executeCommand` decodes every chunk of a pipe by itself and puts the texts together. Data, timeout,
error and close come in any order, but no data comes after the close.
-/

namespace ZoneweaverAgent.ExecuteCommand

open TextLines (trim)
open Transition
open Utf8Decoding

abbrev Text := List Char

inductive Stream
  | stdout
  | stderr
  deriving DecidableEq

/-- What the promise resolves to. -/
structure Result where
  success : Bool
  error : Option Text
  output : Text
  deriving DecidableEq

inductive Event
  | data (stream : Stream) (bytes : List UInt8)
  | timeout
  | error (message : Text)
  | close (code : Option ℤ)
  deriving DecidableEq

/-- `timer` while the timeout is set, `received` and `closed` for what came from the child, `passed`
for the calls of `onData`, `settled` for those of `resolve`, the last one first. -/
structure Command where
  stdout : Text
  stderr : Text
  completed : Bool
  timer : Bool
  registered : Bool
  terminated : Bool
  closed : Bool
  received : List (Stream × List UInt8)
  passed : List (Stream × Text)
  settled : List Result
  deriving DecidableEq

def spawned : Command := ⟨[], [], false, true, true, false, false, [], [], []⟩

section Handlers
variable (timeout : ℕ) (onData : Bool) (s : Command)

def onChunk (stream : Stream) (bytes : List UInt8) : Command :=
  let chunk := decode bytes
  { s with
    stdout := if stream = .stdout then s.stdout ++ chunk else s.stdout
    stderr := if stream = .stderr then s.stderr ++ chunk else s.stderr
    received := s.received ++ [(stream, bytes)]
    passed := if onData then s.passed ++ [(stream, chunk)] else s.passed }

def settle (result : Result) : Command :=
  { s with completed := true, timer := false, settled := result :: s.settled }

def timedOut : Text := ("Command timed out after " ++ toString timeout ++ "ms").toList

def onTimeout : Command :=
  if s.completed then { s with timer := false }
  else { settle s ⟨false, some (timedOut timeout), s.stdout⟩ with terminated := true }

def exited (code : Option ℤ) : Text :=
  ("Command exited with code " ++ (code.map toString).getD "null").toList

def closeResult (code : Option ℤ) : Result :=
  if code = some 0 then ⟨true, none, trim isTrimmed s.stdout⟩
  else
    let error := trim isTrimmed s.stderr
    ⟨false, some (if error = [] then exited code else error), trim isTrimmed s.stdout⟩

def onClose (code : Option ℤ) : Command :=
  let s := { s with registered := false, closed := true }
  if s.completed then s else settle s (closeResult s code)

def onError (message : Text) : Command :=
  let s := { s with registered := false }
  if s.completed then s else settle s ⟨false, some message, s.stdout⟩

def step : Event → Option Command
  | .data stream bytes => if s.closed then none else some (onChunk onData s stream bytes)
  | .timeout => if s.timer then some (onTimeout timeout s) else none
  | .error message => some (onError s message)
  | .close code => if s.closed then none else some (onClose s code)

end Handlers

section Properties
variable (onData : Bool) (s : Command)

/-- The stdout data events. -/
def chunks : List (List UInt8) :=
  (s.received.filter (·.1 = .stdout)).map Prod.snd

/-- What `onData` was given of stdout. -/
def passedText : Text := ((s.passed.filter (·.1 = .stdout)).map Prod.snd).flatten

/-- The promise is never settled twice, and it is settled when the command is closed or its timeout
is over. -/
structure SettlesOnce : Prop where
  once : s.settled.length ≤ 1
  closed : s.closed = true → s.settled.length = 1
  timer : s.timer = false → s.settled.length = 1

/-- The output is the trimmed decoding of all of stdout, and `onData` was given that decoding. -/
def Whole (result : Result) : Prop :=
  result.output = trim isTrimmed (decode (chunks s).flatten) ∧
    (onData = true → passedText s = decode (chunks s).flatten)

structure Invariant : Prop where
  settled : s.settled.length = if s.completed then 1 else 0
  closed : s.closed = true → s.completed = true
  timer : s.completed = false → s.timer = true
  stdout : s.stdout = (chunks s).flatMap decode
  passed : onData = true → passedText s = (chunks s).flatMap decode
  success : ∀ result ∈ s.settled, result.success = true →
    s.closed = true ∧ result.output = trim isTrimmed s.stdout

end Properties

section Runs
variable {timeout : ℕ} {onData : Bool} {s t : Command}

theorem count_trim (text : Text) :
    (trim isTrimmed text).count replacement = text.count replacement := by
  obtain ⟨before, after, htext, hbefore, hafter⟩ := TextLines.exists_trim isTrimmed text
  have hnone : ∀ blank : Text, (∀ c ∈ blank, isTrimmed c = true) → blank.count replacement = 0 := by
    intro blank hblank
    rw [List.count_eq_zero]
    intro hmem
    have htrimmed := hblank _ hmem
    revert htrimmed
    decide
  conv_rhs => rw [htext, List.count_append, List.count_append, hnone _ hbefore, hnone _ hafter]
  omega

theorem chunks_onChunk (stream : Stream) (bytes : List UInt8) :
    chunks (onChunk onData s stream bytes) =
      if stream = .stdout then chunks s ++ [bytes] else chunks s := by
  change ((s.received ++ [(stream, bytes)]).filter _).map Prod.snd = _
  rw [List.filter_append, List.map_append]
  cases stream with
  | stdout => rfl
  | stderr => exact List.append_nil _

theorem passedText_onChunk (stream : Stream) (bytes : List UInt8) :
    passedText (onChunk true s stream bytes) =
      if stream = .stdout then passedText s ++ decode bytes else passedText s := by
  change (((s.passed ++ [(stream, decode bytes)]).filter _).map Prod.snd).flatten = _
  rw [List.filter_append, List.map_append, List.flatten_append]
  cases stream with
  | stdout => exact congrArg (passedText s ++ ·) (List.append_nil _)
  | stderr => exact List.append_nil _

theorem Invariant.settlesOnce (h : Invariant onData s) : SettlesOnce s := by
  have hsettled := h.settled
  constructor
  · split_ifs at hsettled <;> omega
  · intro hclosed
    rwa [if_pos (h.closed hclosed)] at hsettled
  · intro htimer
    cases hcompleted : s.completed with
    | true => rwa [if_pos hcompleted] at hsettled
    | false =>
      rw [h.timer hcompleted] at htimer
      cases htimer

theorem invariant_spawned : Invariant onData spawned where
  settled := rfl
  closed h := by cases h
  timer _ := rfl
  stdout := rfl
  passed _ := rfl
  success _ h := by cases h

theorem Invariant.onChunk (h : Invariant onData s) (hopen : s.closed = false) (stream : Stream)
    (bytes : List UInt8) : Invariant onData (onChunk onData s stream bytes) where
  settled := h.settled
  closed := h.closed
  timer := h.timer
  stdout := by
    rw [chunks_onChunk]
    change (if stream = .stdout then s.stdout ++ decode bytes else s.stdout) = _
    split_ifs with hstream
    · rw [List.flatMap_append, List.flatMap_singleton, ← h.stdout]
    · exact h.stdout
  passed honData := by
    subst honData
    rw [chunks_onChunk, passedText_onChunk]
    split_ifs with hstream
    · rw [List.flatMap_append, List.flatMap_singleton, h.passed rfl]
    · exact h.passed rfl
  success result hresult hsuccess := by
    have hclosed := (h.success result hresult hsuccess).1
    rw [hopen] at hclosed
    cases hclosed

/-- Whatever settles the promise, only a close reports success. -/
theorem Invariant.settle (h : Invariant onData s) {result : Result}
    (hcompleted : s.completed = false) (hdone : t.completed = true)
    (hsettled : t.settled = result :: s.settled) (hstdout : t.stdout = s.stdout)
    (hreceived : t.received = s.received) (hpassed : t.passed = s.passed)
    (hresult : result.success = true → t.closed = true ∧ result.output = trim isTrimmed s.stdout) :
    Invariant onData t := by
  have hnone : s.settled = [] := by
    have hlength := h.settled
    rw [hcompleted] at hlength
    exact List.length_eq_zero_iff.mp hlength
  rw [hnone] at hsettled
  constructor
  · rw [hsettled, if_pos hdone]
    rfl
  · exact fun _ => hdone
  · intro hnot
    rw [hdone] at hnot
    cases hnot
  · rw [hstdout, chunks, hreceived]
    exact h.stdout
  · intro honData
    rw [passedText, hpassed, chunks, hreceived]
    exact h.passed honData
  · intro other hother hsuccess
    rw [hsettled] at hother
    obtain rfl := List.mem_singleton.mp hother
    rw [hstdout]
    exact hresult hsuccess

/-- Whatever else changes. -/
theorem Invariant.same (h : Invariant onData s) (hcompleted : t.completed = s.completed)
    (htimer : t.completed = false → t.timer = true) (hstdout : t.stdout = s.stdout)
    (hreceived : t.received = s.received) (hpassed : t.passed = s.passed)
    (hsettled : t.settled = s.settled) (hclosed : t.closed = true → t.completed = true)
    (hlater : s.closed = true → t.closed = true) : Invariant onData t where
  settled := by
    rw [hsettled, hcompleted]
    exact h.settled
  closed := hclosed
  timer := htimer
  stdout := by
    rw [hstdout, chunks, hreceived]
    exact h.stdout
  passed honData := by
    rw [passedText, hpassed, chunks, hreceived]
    exact h.passed honData
  success result hresult hsuccess := by
    rw [hsettled] at hresult
    rw [hstdout]
    exact (h.success result hresult hsuccess).imp_left hlater

theorem closeResult_success {code : Option ℤ} (h : (closeResult s code).success = true) :
    (closeResult s code).output = trim isTrimmed s.stdout := by
  unfold closeResult at h ⊢
  by_cases hcode : code = some 0
  · rw [if_pos hcode]
  · rw [if_neg hcode] at h
    cases h

theorem Invariant.step {e : Event} (h : Invariant onData s)
    (hstep : step timeout onData s e = some t) : Invariant onData t := by
  cases e with
  | data stream bytes =>
    simp only [ExecuteCommand.step] at hstep
    split_ifs at hstep with hclosed
    obtain rfl := Option.some.inj hstep
    exact h.onChunk (by simpa using hclosed) stream bytes
  | timeout =>
    simp only [ExecuteCommand.step] at hstep
    split_ifs at hstep
    obtain rfl := Option.some.inj hstep
    unfold onTimeout
    split_ifs with hcompleted
    · refine h.same rfl ?_ rfl rfl rfl rfl h.closed id
      exact fun hnot => absurd hcompleted (ne_true_of_eq_false hnot)
    · exact h.settle (by simpa using hcompleted) rfl rfl rfl rfl rfl nofun
  | error message =>
    obtain rfl := Option.some.inj hstep
    unfold onError
    simp only
    split_ifs with hcompleted
    · exact h.same rfl h.timer rfl rfl rfl rfl h.closed id
    · exact h.settle (by simpa using hcompleted) rfl rfl rfl rfl rfl nofun
  | close code =>
    simp only [ExecuteCommand.step] at hstep
    split_ifs at hstep
    obtain rfl := Option.some.inj hstep
    unfold onClose
    simp only
    split_ifs with hcompleted
    · exact h.same rfl h.timer rfl rfl rfl rfl (fun _ => hcompleted) fun _ => rfl
    · exact h.settle (by simpa using hcompleted) rfl rfl rfl rfl rfl
        fun hsuccess => ⟨rfl, closeResult_success hsuccess⟩

/-- The promise is settled exactly once; and where it reports success, its output and what `onData`
was given are the decoding of stdout exactly where no data event of stdout ends inside a
character. -/
theorem output_of_command
    (h : Reaches (step timeout onData) (fun _ _ => True) spawned s) :
    SettlesOnce s ∧ ∀ result ∈ s.settled, result.success = true →
      (Whole onData s result ↔ Apart (chunks s)) := by
  have hinv : Invariant onData s :=
    h.invariant invariant_spawned fun _ _ _ hi _ hstep => hi.step hstep
  refine ⟨hinv.settlesOnce, ?_⟩
  intro result hresult hsuccess
  have houtput := (hinv.success result hresult hsuccess).2
  rw [hinv.stdout] at houtput
  constructor
  · intro hwhole
    by_contra hcut
    have hless := count_decode_parts hcut
    have hcount := congrArg (List.count replacement) (houtput.symm.trans hwhole.1)
    rw [count_trim, count_trim] at hcount
    omega
  · intro hapart
    have hparts := decode_parts hapart
    constructor
    · rw [houtput, hparts]
    · intro honData
      rw [hinv.passed honData, hparts]

/-- `é` in one data event, and a line end. -/
theorem output_of_command_whole : ∃ s, Reaches (step 1000 true) (fun _ _ => True) spawned s ∧
    ⟨true, none, ['é']⟩ ∈ s.settled ∧ SettlesOnce s ∧
    ∀ result ∈ s.settled, result.success = true → (Whole true s result ↔ Apart (chunks s)) := by
  obtain ⟨s, hs, hresult⟩ := exists_reaches_of_run (step 1000 true) (fun _ _ => True) spawned
    [.data .stdout [0xC3, 0xA9], .data .stdout [0x0A], .close (some 0)]
    (P := fun s => ⟨true, none, ['é']⟩ ∈ s.settled) (by decide +kernel)
  exact ⟨s, hs, hresult, output_of_command hs⟩

/-- `é` cut in two is read as two replacement characters. -/
theorem output_of_command_fails : ¬∀ timeout onData s,
    Reaches (step timeout onData) (fun _ _ => True) spawned s →
    SettlesOnce s ∧ ∀ result ∈ s.settled, result.success = true → Whole onData s result := by
  intro h
  obtain ⟨s, hs, hresult, hbytes⟩ := exists_reaches_of_run (step 1000 true) (fun _ _ => True)
    spawned [.data .stdout [0xC3], .data .stdout [0xA9], .close (some 0)]
    (P := fun s => ⟨true, none, [replacement, replacement]⟩ ∈ s.settled ∧
      (chunks s).flatten = [0xC3, 0xA9]) (by decide +kernel)
  have hwhole := ((h 1000 true s hs).2 _ hresult rfl).1
  rw [hbytes] at hwhole
  revert hwhole
  decide +kernel

end Runs

end ZoneweaverAgent.ExecuteCommand
