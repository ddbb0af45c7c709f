import ZoneweaverAgent.PathScan
import ZoneweaverAgent.PosixShell
import ZoneweaverAgent.TextLines

/-!
# Template files typed into a guest console

The template step of a console automation types commands that write a file: an `echo` for each line
or one `cat` with a here-document. A terminal makes lines of what is typed, where the carriage return
before each line feed is a line end of its own or is dropped.
-/

namespace ZoneweaverAgent.ZloginTemplate

open PosixShell
open PathScan (behind run isWord)
open TextLines (flatMap_splitOn mem_of_mem_splitOn notMem_of_mem_splitOn splitOn_written)

section Typed

/-- `\{\{(?<varname>\w+)\}\}` at the start of a text. -/
def placeholder? (text : Text) : Option (Text × Text) := do
  let rest ← behind ['{', '{'] text
  let (varname, rest) ← run isWord rest
  let rest ← behind ['}', '}'] rest
  return (varname, rest)

def resolveFrom (vars : Text → Option Text) : ℕ → Text → Text
  | 0, text => text
  | _ + 1, [] => []
  | fuel + 1, c :: rest =>
    match placeholder? (c :: rest) with
    | some (varname, after) =>
      (vars varname).getD (['{', '{'] ++ varname ++ ['}', '}']) ++ resolveFrom vars fuel after
    | none => c :: resolveFrom vars fuel rest

def resolveVars (vars : Text → Option Text) (str : Text) : Text := resolveFrom vars str.length str

def escapeShell (str : Text) : Text :=
  str.flatMap fun c => if c = '\'' then ['\'', '\\', '\'', '\''] else [c]

def crlf : Text := ['\r', '\n']

def echoLine (append : Bool) (line dest : Text) : Text :=
  ['e', 'c', 'h', 'o', ' ', '\''] ++ escapeShell line ++
    '\'' :: (if append then [' ', '>', '>', ' '] else [' ', '>', ' ']) ++ dest

/-- The first line creates or truncates the file, the others append. -/
def echoWrites (content dest : Text) : List Text :=
  match content.splitOn '\n' with
  | [] => []
  | first :: others =>
    (echoLine false first dest ++ crlf) :: others.map fun line => echoLine true line dest ++ crlf

/-- `now` is `Date.now()`. -/
def marker (now : ℕ) : Text := ['Z', 'W', 'E', 'O', 'D', '_'] ++ Nat.toDigits 10 now

def heredocOpening (dest : Text) (now : ℕ) : Text :=
  ['c', 'a', 't', ' ', '>', ' '] ++ dest ++ [' ', '<', '<', ' ', '\''] ++ marker now ++ ['\'']

def heredocWrites (content dest : Text) (now : ℕ) : List Text :=
  [heredocOpening dest now ++ crlf, content ++ crlf, marker now ++ crlf]

structure Step where
  content : Text
  dest : Text
  method : Option String

/-- What is typed before the step waits for the prompt. -/
def stepTemplate (vars : Text → Option Text) (alive : Bool) (now : ℕ) (step : Step) :
    Except String (List Text) :=
  if !alive then .error "PTY process not available"
  else
    let content := resolveVars vars step.content
    let dest := resolveVars vars step.dest
    let method := (step.method.filter (· ≠ "")).getD "echo_redirect"
    if method = "echo_redirect" then .ok (echoWrites content dest)
    else if method = "heredoc" then .ok (heredocWrites content dest now)
    else .error ("Unknown template method: " ++ method)

end Typed

section Terminal

/-- What a terminal makes of a typed character: a carriage return is a line end or dropped. -/
def received (crEnds : Bool) (c : Char) : Text :=
  if c = '\r' then if crEnds then ['\n'] else [] else [c]

/-- The complete lines. -/
def terminal (crEnds : Bool) (typed : List Text) : List Text :=
  ((typed.flatten.flatMap (received crEnds)).splitOn '\n').dropLast

end Terminal

section Exact

/-- A path that the shell reads as it stands. -/
def PlainPath (dest : Text) : Prop := dest ≠ [] ∧ ∀ c ∈ dest, isPlain c = true

instance (dest : Text) : Decidable (PlainPath dest) :=
  decidable_of_iff (dest ≠ [] ∧ dest.all isPlain = true) (and_congr_right' List.all_eq_true)

/-- The commands by which a method is to write the file. -/
def commands (content dest : Text) : List Command :=
  match content.splitOn '\n' with
  | [] => []
  | first :: others => .echo first false dest :: others.map fun line => .echo line true dest

/-- The file is the content and a line feed, and these were all the commands. -/
def Wrote (content dest : Text) (commands : List Command) (s : Shell) : Prop :=
  s.files dest = some (content ++ ['\n']) ∧ s.executed = commands

/-- So it ends in every conforming shell, whatever files it has. -/
def Exact (crEnds : Bool) (content dest : Text) (typed : List Text) (commands : List Command) :
    Prop :=
  ∀ echo other, Conforming echo → (∀ s lines, Extends s (other s lines)) → ∀ files,
    Wrote content dest commands
      (PosixShell.run echo other ⟨files, [], none⟩ (terminal crEnds typed))

end Exact

section Lines
variable {crEnds : Bool} {text line dest content : Text} {typed : List Text}

/-- The empty lines that the carriage return of a line end adds. -/
def added (crEnds : Bool) : List Text := if crEnds then [[]] else []

theorem flatMap_received (h : '\r' ∉ text) : text.flatMap (received crEnds) = text := by
  induction text with
  | nil => rfl
  | cons c text ih =>
    simp only [List.mem_cons, not_or] at h
    rw [List.flatMap_cons, ih h.2, received, if_neg (Ne.symm h.1)]
    rfl

theorem terminal_cons (h : '\r' ∉ text) (typed : List Text) :
    terminal crEnds ((text ++ crlf) :: typed) =
      text.splitOn '\n' ++ added crEnds ++ terminal crEnds typed := by
  have hends : crlf.flatMap (received crEnds) = (if crEnds then ['\n'] else []) ++ ['\n'] := by
    cases crEnds <;> rfl
  rw [terminal, List.flatten_cons, List.flatMap_append, List.flatMap_append, flatMap_received h,
    hends]
  cases crEnds with
  | false =>
    rw [if_neg Bool.false_ne_true, List.nil_append, List.append_assoc, List.singleton_append,
      List.splitOn_append_cons_self, List.dropLast_append_of_ne_nil (List.splitOn_ne_nil _ _)]
    simp [terminal, added]
  | true =>
    rw [if_pos rfl, List.append_assoc, List.append_assoc, List.singleton_append,
      List.splitOn_append_cons_self, List.singleton_append, ← List.nil_append ('\n' :: _),
      List.splitOn_append_cons_self,
      List.dropLast_append_of_ne_nil (by simp),
      List.dropLast_append_of_ne_nil (List.splitOn_ne_nil _ _)]
    simp [terminal, added]

theorem splitOn_flatMap {lines : List Text} (h : ∀ line ∈ lines, '\n' ∉ line) :
    (lines.flatMap (· ++ ['\n'])).splitOn '\n' = lines ++ [[]] := by
  have hsplit := @splitOn_written _ _ _ '\n' id lines [] h List.not_mem_nil
  rwa [List.append_nil, List.map_id] at hsplit

end Lines

section Tokens
variable {line dest : Text}

theorem foldlM_escapeShell {l : Lexer} {w : Word} (hmode : l.mode = .quoted)
    (hcurrent : l.current = some w) (hquoted : w.quoted = true) (line : Text) :
    (escapeShell line).foldlM Lexer.step l =
      some { l with current := some { w with text := w.text ++ line } } := by
  induction line generalizing l w with
  | nil =>
    rw [escapeShell, List.flatMap_nil, List.foldlM_nil, List.append_nil]
    exact congrArg some (by rw [← hcurrent])
  | cons c line ih =>
    obtain ⟨tokens, current, mode⟩ := l
    obtain ⟨text, quoted⟩ := w
    simp only at hmode hcurrent hquoted
    subst hmode hcurrent hquoted
    have hchar : (if c = '\'' then ['\'', '\\', '\'', '\''] else [c]).foldlM Lexer.step
        ⟨tokens, some ⟨text, true⟩, .quoted⟩ =
          some ⟨tokens, some ⟨text ++ [c], true⟩, .quoted⟩ := by
      by_cases hc : c = '\''
      · subst hc
        rfl
      · simp [hc, Lexer.step, Lexer.push, Lexer.word]
    rw [escapeShell, List.flatMap_cons, foldlM_append hchar, ← escapeShell, ih rfl rfl rfl]
    simp

/-- The line typed for a line of the file is the `echo` of just that line. -/
theorem lexLine_echo (hdest : PlainPath dest) (append : Bool) :
    (lexLine (echoLine append line dest)).bind parse =
      some (.simple (.echo line append dest)) := by
  have hopen : ['e', 'c', 'h', 'o', ' ', '\''].foldlM Lexer.step Lexer.start =
      some ⟨[.word ⟨['e', 'c', 'h', 'o'], false⟩], some ⟨[], true⟩, .quoted⟩ := by decide
  have hclose : ('\'' :: (if append then [' ', '>', '>', ' '] else [' ', '>', ' '])).foldlM
      Lexer.step ⟨[.word ⟨['e', 'c', 'h', 'o'], false⟩], some ⟨[] ++ line, true⟩, .quoted⟩ =
        some ⟨[.word ⟨['e', 'c', 'h', 'o'], false⟩, .word ⟨line, true⟩,
          if append then .append else .truncate], none, .plain⟩ := by
    cases append <;> rfl
  have hline := foldlM_escapeShell rfl rfl rfl line
    (l := ⟨[.word ⟨['e', 'c', 'h', 'o'], false⟩], some ⟨[], true⟩, .quoted⟩)
  rw [lexLine, echoLine, List.append_assoc, List.append_assoc, foldlM_append hopen, foldlM_append hline,
    foldlM_append hclose, foldlM_plain rfl hdest.1 hdest.2]
  cases append <;> rfl

theorem apostrophe_notMem_marker (now : ℕ) : '\'' ∉ marker now := by
  rw [marker, List.mem_append, not_or]
  refine ⟨by decide, fun h => ?_⟩
  exact absurd (Nat.isDigit_of_mem_toDigits (by decide) (by decide) h) (by decide)

theorem lexLine_heredoc (hdest : PlainPath dest) (now : ℕ) :
    (lexLine (heredocOpening dest now)).bind parse = some (.document dest (marker now)) := by
  have hopen : ['c', 'a', 't', ' ', '>', ' '].foldlM Lexer.step Lexer.start =
      some ⟨[.word ⟨['c', 'a', 't'], false⟩, .truncate], none, .plain⟩ := by decide
  have hdocument : [' ', '<', '<', ' ', '\''].foldlM Lexer.step
      ⟨[.word ⟨['c', 'a', 't'], false⟩, .truncate], some ⟨dest, false⟩, .plain⟩ =
        some ⟨[.word ⟨['c', 'a', 't'], false⟩, .truncate, .word ⟨dest, false⟩, .hereDocument],
          some ⟨[], true⟩, .quoted⟩ := by
    rfl
  have hpath : dest.foldlM Lexer.step ⟨[.word ⟨['c', 'a', 't'], false⟩, .truncate], none, .plain⟩ =
      some ⟨[.word ⟨['c', 'a', 't'], false⟩, .truncate], some ⟨dest, false⟩, .plain⟩ :=
    foldlM_plain rfl hdest.1 hdest.2
  have hmarker := foldlM_quoted rfl rfl (apostrophe_notMem_marker now) (w := ⟨[], true⟩)
    (l := ⟨[.word ⟨['c', 'a', 't'], false⟩, .truncate, .word ⟨dest, false⟩, .hereDocument],
      some ⟨[], true⟩, .quoted⟩)
  rw [lexLine, heredocOpening, List.append_assoc, List.append_assoc, List.append_assoc,
    foldlM_append hopen, foldlM_append hpath, foldlM_append hdocument, foldlM_append hmarker]
  rfl

end Tokens

section Echo
variable {crEnds : Bool} {echo : Text → Text} {other : Shell → List Text → Shell} {s : Shell}
  {dest content : Text}

theorem run_added (h : s.document = none) (lines : List Text) :
    PosixShell.run echo other s (added crEnds ++ lines) = PosixShell.run echo other s lines := by
  cases crEnds with
  | false => rfl
  | true => exact run_cons (readLine_blank h)

/-- One typed line of the echo method. -/
theorem run_echoLine (h : s.document = none) (hdest : PlainPath dest) (append : Bool) (line : Text)
    (lines : List Text) :
    PosixShell.run echo other s (echoLine append line dest :: (added crEnds ++ lines)) =
      PosixShell.run echo other (execute echo s (.echo line append dest)) lines := by
  have hread : readLine echo s (echoLine append line dest) =
      some (execute echo s (.echo line append dest)) := by
    simp only [readLine, h, lexLine_echo hdest, Option.map_some]
  rw [run_cons hread, run_added]
  exact h

/-- The typed appends of the further lines. -/
theorem run_appends (h : s.document = none) (hdest : PlainPath dest) {before : Text}
    (hfile : s.files dest = some before) (others : List Text) :
    (PosixShell.run echo other s
        (others.flatMap fun line => echoLine true line dest :: added crEnds)).files dest =
        some (before ++ others.flatMap echo) ∧
      (PosixShell.run echo other s
        (others.flatMap fun line => echoLine true line dest :: added crEnds)).executed =
        s.executed ++ others.map fun line => .echo line true dest := by
  induction others generalizing s before with
  | nil => simp [PosixShell.run, hfile]
  | cons line others ih =>
    have hnext : (execute echo s (.echo line true dest)).files dest =
        some (before ++ echo line) := by
      simp [execute, hfile]
    have hrest := ih (s := execute echo s (.echo line true dest)) h hnext
    simp only [List.flatMap_cons, List.cons_append, run_echoLine h hdest, List.map_cons] at hrest ⊢
    refine ⟨hrest.1.trans (by rw [List.append_assoc]), hrest.2.trans ?_⟩
    simp [execute]

theorem PlainPath.notMem_lineEnd {c : Char} (hdest : PlainPath dest) (hc : c = '\r' ∨ c = '\n') :
    c ∉ dest := by
  intro h
  have hplain := hdest.2 c h
  rcases hc with rfl | rfl <;> exact absurd hplain (by decide)

theorem notMem_echoLine {c : Char} {line : Text} (hc : c = '\r' ∨ c = '\n') (hline : c ∉ line)
    (hdest : PlainPath dest) (append : Bool) : c ∉ echoLine append line dest := by
  have hescape : c ∉ escapeShell line := by
    intro h
    obtain ⟨d, hd, hmem⟩ := List.mem_flatMap.mp h
    split_ifs at hmem
    · rcases hc with rfl | rfl <;> exact absurd hmem (by decide)
    · rw [List.mem_singleton.mp hmem] at hline
      exact hline hd
  have hpath := hdest.notMem_lineEnd hc
  simp only [echoLine, List.mem_append, List.mem_cons, not_or]
  rcases hc with rfl | rfl <;> cases append <;> simp [hescape, hpath]

theorem terminal_echoLine {line : Text} (hcr : '\r' ∉ line) (hlf : '\n' ∉ line)
    (hdest : PlainPath dest) (append : Bool) (typed : List Text) :
    terminal crEnds ((echoLine append line dest ++ crlf) :: typed) =
      echoLine append line dest :: (added crEnds ++ terminal crEnds typed) := by
  rw [terminal_cons (notMem_echoLine (.inl rfl) hcr hdest append),
    List.splitOn_eq_singleton (notMem_echoLine (.inr rfl) hlf hdest append)]
  rfl

theorem terminal_echoLines {lines : List Text} (hlines : ∀ line ∈ lines, '\r' ∉ line ∧ '\n' ∉ line)
    (hdest : PlainPath dest) :
    terminal crEnds (lines.map fun line => echoLine true line dest ++ crlf) =
      lines.flatMap fun line => echoLine true line dest :: added crEnds := by
  induction lines with
  | nil => rfl
  | cons line lines ih =>
    obtain ⟨hcr, hlf⟩ := hlines line List.mem_cons_self
    rw [List.map_cons, terminal_echoLine hcr hlf hdest,
      ih fun l hl => hlines l (List.mem_cons_of_mem _ hl)]
    rfl

/-- What a shell has done after the typed lines of the echo method. -/
theorem run_echoWrites (hcontent : '\r' ∉ content) (hdest : PlainPath dest) (h : s.document = none) :
    (PosixShell.run echo other s (terminal crEnds (echoWrites content dest))).files dest =
        some ((content.splitOn '\n').flatMap echo) ∧
      (PosixShell.run echo other s (terminal crEnds (echoWrites content dest))).executed =
        s.executed ++ commands content dest := by
  have hlines : ∀ line ∈ content.splitOn '\n', '\r' ∉ line ∧ '\n' ∉ line := fun line hline =>
    ⟨fun hc => hcontent (mem_of_mem_splitOn hline hc), notMem_of_mem_splitOn hline⟩
  rw [echoWrites, commands]
  obtain ⟨first, others, hsplit⟩ := List.exists_cons_of_ne_nil (List.splitOn_ne_nil '\n' content)
  rw [hsplit] at hlines ⊢
  obtain ⟨hcr, hlf⟩ := hlines first List.mem_cons_self
  have hfile : (execute echo s (.echo first false dest)).files dest = some (echo first) := by
    simp [execute]
  simp only [terminal_echoLine hcr hlf hdest, run_echoLine h hdest,
    terminal_echoLines (fun l hl => hlines l (List.mem_cons_of_mem _ hl)) hdest]
  refine ⟨(run_appends (s := execute echo s (.echo first false dest)) h hdest hfile others).1,
    (run_appends (s := execute echo s (.echo first false dest)) h hdest hfile others).2.trans ?_⟩
  simp [execute]

end Echo

section Methods
variable {crEnds : Bool} {content dest : Text}

/-- An `echo` that writes nothing where the standard leaves it open. -/
def sparseEcho (operand : Text) : Text := if Portable operand then operand ++ ['\n'] else []

theorem conforming_sparseEcho : Conforming sparseEcho := fun _ h => if_pos h

/-- Only portable lines come out of every `echo` as they are. -/
theorem portable_of_sparse {lines : List Text}
    (h : lines.flatMap sparseEcho = lines.flatMap (· ++ ['\n'])) : ∀ line ∈ lines, Portable line := by
  have hle : ∀ lines : List Text,
      (lines.flatMap sparseEcho).length ≤ (lines.flatMap (· ++ ['\n'])).length := by
    intro lines
    induction lines with
    | nil => exact le_rfl
    | cons line lines ih =>
      have hline : (sparseEcho line).length ≤ (line ++ ['\n']).length := by
        rw [sparseEcho]
        split_ifs
        · exact le_rfl
        · exact Nat.zero_le _
      simp only [List.flatMap_cons, List.length_append] at ih hline ⊢
      omega
  induction lines with
  | nil => simp
  | cons line lines ih =>
    have hportable : Portable line := by
      by_contra hnot
      have hlength := congrArg List.length h
      have := hle lines
      simp only [List.flatMap_cons, sparseEcho, if_neg hnot, List.nil_append, List.length_append,
        List.length_singleton] at hlength this
      omega
    rw [List.flatMap_cons, List.flatMap_cons, sparseEcho, if_pos hportable] at h
    have hrest := ih (List.append_cancel_left h)
    intro l hl
    rcases List.mem_cons.mp hl with rfl | hl
    · exact hportable
    · exact hrest l hl

theorem echo_exact_iff (hcontent : '\r' ∉ content) (hdest : PlainPath dest) :
    Exact crEnds content dest (echoWrites content dest) (commands content dest) ↔
      ∀ line ∈ content.splitOn '\n', Portable line := by
  constructor
  · intro h
    have hrun := h sparseEcho (fun s _ => s) conforming_sparseEcho (fun s _ => Extends.refl s)
      fun _ => none
    rw [Wrote, (run_echoWrites hcontent hdest rfl).1, ← flatMap_splitOn] at hrun
    exact portable_of_sparse (Option.some.inj hrun.1)
  · intro h echo other hecho hother files
    refine ⟨?_, ?_⟩
    · rw [(run_echoWrites hcontent hdest rfl).1, ← flatMap_splitOn]
      refine congrArg some (List.flatMap_congr fun line hline => hecho line (h line hline))
    · rw [(run_echoWrites hcontent hdest rfl).2]
      rfl

theorem marker_ne_nil (now : ℕ) : marker now ≠ [] := by simp [marker]

theorem notMem_marker {c : Char} (hc : c = '\r' ∨ c = '\n') (now : ℕ) : c ∉ marker now := by
  rw [marker, List.mem_append, not_or]
  refine ⟨by rcases hc with rfl | rfl <;> decide, fun h => ?_⟩
  have hdigit := Nat.isDigit_of_mem_toDigits (by decide) (by decide) h
  rcases hc with rfl | rfl <;> exact absurd hdigit (by decide)

theorem notMem_heredocOpening {c : Char} (hc : c = '\r' ∨ c = '\n') (hdest : PlainPath dest)
    (now : ℕ) : c ∉ heredocOpening dest now := by
  have hpath := hdest.notMem_lineEnd hc
  have hmarker := notMem_marker hc now
  simp only [heredocOpening, List.mem_append, not_or]
  rcases hc with rfl | rfl <;> simp [hpath, hmarker]

/-- What the terminal makes of the here-document. -/
def heredocBody (crEnds : Bool) (content : Text) : List Text :=
  added crEnds ++ content.splitOn '\n' ++ added crEnds

theorem terminal_heredocWrites (hcontent : '\r' ∉ content) (hdest : PlainPath dest) (now : ℕ) :
    terminal crEnds (heredocWrites content dest now) =
      heredocOpening dest now :: (heredocBody crEnds content ++ marker now :: added crEnds) := by
  have hnil : terminal crEnds [] = [] := rfl
  rw [heredocWrites, terminal_cons (notMem_heredocOpening (.inl rfl) hdest now),
    terminal_cons hcontent, terminal_cons (notMem_marker (.inl rfl) now),
    List.splitOn_eq_singleton (notMem_heredocOpening (.inr rfl) hdest now),
    List.splitOn_eq_singleton (notMem_marker (.inr rfl) now), hnil]
  simp [heredocBody]

variable {echo : Text → Text} {other : Shell → List Text → Shell} {s : Shell}

/-- The shell up to the first line that is the marker. -/
theorem run_heredoc (h : s.document = none) (hdest : PlainPath dest) (now : ℕ) {before : List Text}
    (hbefore : marker now ∉ before) (rest : List Text) :
    PosixShell.run echo other s (heredocOpening dest now :: (before ++ marker now :: rest)) =
      PosixShell.run echo other
        (execute echo s (.cat dest (before.flatMap (· ++ ['\n'])))) rest := by
  have hread : readLine echo s (heredocOpening dest now) =
      some { s with document := some ⟨dest, marker now, []⟩ } := by
    simp only [readLine, h, lexLine_heredoc hdest, Option.map_some]
  have hdocument : ({ s with document := some ⟨dest, marker now, []⟩ } : Shell).document =
      some ⟨dest, marker now, []⟩ := rfl
  rw [run_cons hread, run_document hdocument hbefore]
  simp [h.symm]

theorem heredoc_exact_iff (hcontent : '\r' ∉ content) (hdest : PlainPath dest) (now : ℕ) :
    Exact crEnds content dest (heredocWrites content dest now) [.cat dest (content ++ ['\n'])] ↔
      marker now ∉ content.splitOn '\n' ∧ crEnds = false := by
  constructor
  · intro h
    have hrun := h sparseEcho (fun s _ => s) conforming_sparseEcho (fun s _ => Extends.refl s)
      fun _ => none
    rw [terminal_heredocWrites hcontent hdest] at hrun
    obtain ⟨before, rest, hsplit, hbefore⟩ := List.eq_append_cons_of_mem
      (show marker now ∈ heredocBody crEnds content ++ marker now :: added crEnds by simp)
    rw [hsplit, run_heredoc rfl hdest now hbefore] at hrun
    have hlines : ∀ line ∈ content.splitOn '\n', '\n' ∉ line := fun _ => notMem_of_mem_splitOn
    have hclean : ∀ line ∈ before, '\n' ∉ line := by
      intro line hline
      have hmem : line ∈ heredocBody crEnds content ++ marker now :: added crEnds :=
        hsplit ▸ List.mem_append_left _ hline
      have hadded : ∀ line ∈ added crEnds, '\n' ∉ line := by cases crEnds <;> simp [added]
      simp only [heredocBody, List.mem_append, List.mem_cons] at hmem
      rcases hmem with ((h | h) | h) | rfl | h
      · exact hadded line h
      · exact hlines line h
      · exact hadded line h
      · exact notMem_marker (.inr rfl) now
      · exact hadded line h
    -- the first command is the `cat` of these lines, so they are those of the content
    have hfirst : before.flatMap (· ++ ['\n']) = content ++ ['\n'] := by
      have hextends : ∀ s lines, Extends s (PosixShell.run sparseEcho (fun s _ => s) s lines) :=
        extends_run fun s _ => Extends.refl s
      have hprefix := (hextends (execute sparseEcho ⟨fun _ => none, [], none⟩
        (.cat dest (before.flatMap (· ++ ['\n'])))) rest).1
      rw [hrun.2] at hprefix
      simpa [execute] using hprefix
    have hsame : before = content.splitOn '\n' := by
      have hboth := splitOn_flatMap hclean
      rw [hfirst, ← flatMap_splitOn, splitOn_flatMap hlines] at hboth
      exact (List.append_cancel_right hboth).symm
    subst hsame
    refine ⟨hbefore, ?_⟩
    have hadded : marker now ∉ added crEnds := by
      cases crEnds <;> simp [added, marker_ne_nil]
    have hbody : marker now ∉ heredocBody crEnds content := by
      simp [heredocBody, hbefore, hadded]
    have hlength := congrArg List.length
      ((List.append_cons_inj_of_notMem hbody hadded).mp hsplit).1
    cases crEnds with
    | false => rfl
    | true =>
      simp only [heredocBody, added, if_true, List.length_append, List.length_singleton] at hlength
      omega
  · rintro ⟨hmarker, rfl⟩ echo other hecho hother files
    have hbody : heredocBody false content = content.splitOn '\n' := by simp [heredocBody, added]
    rw [terminal_heredocWrites hcontent hdest, hbody, run_heredoc rfl hdest now hmarker,
      flatMap_splitOn]
    exact ⟨by simp [added, PosixShell.run, execute], rfl⟩

/-- Both methods write the content exactly where every `echo` writes its lines as they are, none of
them is the marker and the carriage return is no line end of its own. -/
theorem template_exact_iff {vars : Text → Option Text} {step : Step}
    (hcontent : '\r' ∉ resolveVars vars step.content)
    (hdest : PlainPath (resolveVars vars step.dest)) (now : ℕ) :
    ((∃ typed, stepTemplate vars true now { step with method := some "echo_redirect" } = .ok typed ∧
        Exact crEnds (resolveVars vars step.content) (resolveVars vars step.dest) typed
          (commands (resolveVars vars step.content) (resolveVars vars step.dest))) ∧
      ∃ typed, stepTemplate vars true now { step with method := some "heredoc" } = .ok typed ∧
        Exact crEnds (resolveVars vars step.content) (resolveVars vars step.dest) typed
          [.cat (resolveVars vars step.dest) (resolveVars vars step.content ++ ['\n'])]) ↔
      (∀ line ∈ (resolveVars vars step.content).splitOn '\n', Portable line) ∧
        marker now ∉ (resolveVars vars step.content).splitOn '\n' ∧ crEnds = false := by
  have hecho : stepTemplate vars true now { step with method := some "echo_redirect" } =
      .ok (echoWrites (resolveVars vars step.content) (resolveVars vars step.dest)) := rfl
  have hheredoc : stepTemplate vars true now { step with method := some "heredoc" } =
      .ok (heredocWrites (resolveVars vars step.content) (resolveVars vars step.dest) now) := rfl
  simp only [hecho, hheredoc, Except.ok.injEq, exists_eq_left']
  exact and_congr (echo_exact_iff hcontent hdest) (heredoc_exact_iff hcontent hdest now)

def motdStep : Step := ⟨['h', 'i'], ['/', 'e', 't', 'c', '/', 'm', 'o', 't', 'd'], none⟩

theorem template_exact_iff_motd :
    ((∃ typed, stepTemplate (fun _ => none) true 7 { motdStep with method := some "echo_redirect" } =
          .ok typed ∧
        Exact false (resolveVars (fun _ => none) motdStep.content)
          (resolveVars (fun _ => none) motdStep.dest) typed
          (commands (resolveVars (fun _ => none) motdStep.content)
            (resolveVars (fun _ => none) motdStep.dest))) ∧
      ∃ typed, stepTemplate (fun _ => none) true 7 { motdStep with method := some "heredoc" } =
          .ok typed ∧
        Exact false (resolveVars (fun _ => none) motdStep.content)
          (resolveVars (fun _ => none) motdStep.dest) typed
          [.cat (resolveVars (fun _ => none) motdStep.dest)
            (resolveVars (fun _ => none) motdStep.content ++ ['\n'])]) ↔
      (∀ line ∈ (resolveVars (fun _ => none) motdStep.content).splitOn '\n', Portable line) ∧
        marker 7 ∉ (resolveVars (fun _ => none) motdStep.content).splitOn '\n' ∧ false = false :=
  template_exact_iff (by decide) (by decide) 7

/-- A terminal that ends a line at each of the two characters puts an empty line before the content
of the here-document and one behind it. -/
theorem template_exact_fails :
    stepTemplate (fun _ => none) true 7 { motdStep with method := some "heredoc" } =
        .ok (heredocWrites motdStep.content motdStep.dest 7) ∧
      (PosixShell.run (· ++ ['\n']) (fun s _ => s) ⟨fun _ => none, [], none⟩
        (terminal true (heredocWrites motdStep.content motdStep.dest 7))).files motdStep.dest =
        some ['\n', 'h', 'i', '\n', '\n'] ∧
      ¬Exact true motdStep.content motdStep.dest (heredocWrites motdStep.content motdStep.dest 7)
        [.cat motdStep.dest (motdStep.content ++ ['\n'])] := by
  have hfile : (PosixShell.run (· ++ ['\n']) (fun s _ => s) ⟨fun _ => none, [], none⟩
      (terminal true (heredocWrites motdStep.content motdStep.dest 7))).files motdStep.dest =
      some ['\n', 'h', 'i', '\n', '\n'] := by
    decide +kernel
  refine ⟨by rfl, hfile, fun h => ?_⟩
  have hexact := (h (· ++ ['\n']) (fun s _ => s) (fun _ _ => rfl) (fun s _ => Extends.refl s)
    fun _ => none).1
  rw [hfile] at hexact
  exact absurd hexact (by decide)

end Methods

end ZoneweaverAgent.ZloginTemplate
