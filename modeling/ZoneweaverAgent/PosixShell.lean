import Mathlib.Data.List.Basic
import Mathlib.Logic.Function.Basic

/-!
# A fragment of the POSIX shell

Words of plain characters, single quotes and backslashes, the redirections of output and
here-documents with a quoted delimiter; `echo` of one operand and `cat`, both into a file. What a
line outside this fragment does, and with it the lines after it, is a parameter, and so is `echo`,
which the standard leaves open where the operand is `-n` or has a backslash.
-/

namespace PosixShell

abbrev Text := List Char

section Lexer

structure Word where
  text : Text
  quoted : Bool
  deriving DecidableEq

inductive Token
  | word (word : Word)
  | truncate
  | append
  | hereDocument
  deriving DecidableEq

/-- The last three: behind `>`, behind `<`, behind `<<`. -/
inductive Mode
  | plain
  | quoted
  | escaped
  | greater
  | less
  | lessLess
  deriving DecidableEq

structure Lexer where
  tokens : List Token
  current : Option Word
  mode : Mode
  deriving DecidableEq

/-- A character that means itself everywhere in a word. -/
def isPlain (c : Char) : Bool :=
  c.isAlphanum || c ∈ ['_', '.', '/', '-', '+', ',', ':', '@', '%']

namespace Lexer

def start : Lexer := ⟨[], none, .plain⟩

def word (l : Lexer) : Word := l.current.getD ⟨[], false⟩

def finish (l : Lexer) : List Token := l.tokens ++ (l.current.map Token.word).toList

def push (l : Lexer) (c : Char) : Lexer :=
  { l with current := some { l.word with text := l.word.text ++ [c] } }

def quote (l : Lexer) (mode : Mode) : Lexer :=
  { l with current := some { l.word with quoted := true }, mode }

def operator (l : Lexer) (token : Token) : Lexer := ⟨l.tokens ++ [token], none, .plain⟩

/-- A redirection right behind a word might have a file descriptor, and is outside the fragment. -/
def plainStep (l : Lexer) (c : Char) : Option Lexer :=
  if c = ' ' then some ⟨l.finish, none, .plain⟩
  else if c = '\'' then some (l.quote .quoted)
  else if c = '\\' then some (l.quote .escaped)
  else if c = '>' ∧ l.current = none then some { l with mode := .greater }
  else if c = '<' ∧ l.current = none then some { l with mode := .less }
  else if isPlain c then some (l.push c)
  else none

def step (l : Lexer) (c : Char) : Option Lexer :=
  match l.mode with
  | .plain => l.plainStep c
  | .quoted => some (if c = '\'' then { l with mode := .plain } else l.push c)
  | .escaped => some { l.push c with mode := .plain }
  | .greater =>
    if c = '>' then some (l.operator .append) else (l.operator .truncate).plainStep c
  | .less => if c = '<' then some { l with mode := .lessLess } else none
  | .lessLess => if c = '-' then none else (l.operator .hereDocument).plainStep c

end Lexer

/-- The tokens of a complete line. -/
def lexLine (line : Text) : Option (List Token) := do
  let l ← line.foldlM Lexer.step Lexer.start
  if l.mode = .plain then return l.finish else none

end Lexer

section Shell

inductive Command
  | echo (operand : Text) (append : Bool) (path : Text)
  | cat (path document : Text)
  | other (line : Text)
  deriving DecidableEq

inductive Input
  | blank
  | simple (command : Command)
  | document (path delimiter : Text)
  deriving DecidableEq

/-- A complete command of the fragment, or the opening of a here-document. -/
def parse : List Token → Option Input
  | [] => some .blank
  | [.word name, .word operand, .truncate, .word path] =>
    if name.text = ['e', 'c', 'h', 'o'] then some (.simple (.echo operand.text false path.text))
    else none
  | [.word name, .word operand, .append, .word path] =>
    if name.text = ['e', 'c', 'h', 'o'] then some (.simple (.echo operand.text true path.text))
    else none
  | [.word name, .truncate, .word path, .hereDocument, .word delimiter] =>
    if name.text = ['c', 'a', 't'] ∧ delimiter.quoted then some (.document path.text delimiter.text)
    else none
  | _ => none

structure Document where
  path : Text
  delimiter : Text
  body : Text

/-- `executed` records the commands in order; `document` is the here-document being read. -/
structure Shell where
  files : Text → Option Text
  executed : List Command
  document : Option Document

variable (echo : Text → Text) (other : Shell → List Text → Shell)

def execute (s : Shell) (command : Command) : Shell :=
  let files :=
    match command with
    | .echo operand append path =>
      let before := if append then (s.files path).getD [] else []
      Function.update s.files path (some (before ++ echo operand))
    | .cat path document => Function.update s.files path (some document)
    | .other _ => s.files
  { s with files, executed := s.executed ++ [command] }

/-- A line inside the fragment. -/
def readLine (s : Shell) (line : Text) : Option Shell :=
  match s.document with
  | some d =>
    some (if line = d.delimiter then execute echo { s with document := none } (.cat d.path d.body)
      else { s with document := some { d with body := d.body ++ line ++ ['\n'] } })
  | none =>
    ((lexLine line).bind parse).map fun
      | .blank => s
      | .simple command => execute echo s command
      | .document path delimiter => { s with document := some ⟨path, delimiter, []⟩ }

def run : Shell → List Text → Shell
  | s, [] => s
  | s, line :: lines =>
    match readLine echo s line with
    | some s' => run s' lines
    | none => other s (line :: lines)

/-- The operands for which the standard says what `echo` writes. -/
def Portable (operand : Text) : Prop := operand ≠ ['-', 'n'] ∧ '\\' ∉ operand

instance (operand : Text) : Decidable (Portable operand) := inferInstanceAs (Decidable (_ ∧ _))

def Conforming (echo : Text → Text) : Prop :=
  ∀ operand, Portable operand → echo operand = operand ++ ['\n']

/-- Commands are only added, and without one no file changes. -/
def Extends (s s' : Shell) : Prop :=
  s.executed <+: s'.executed ∧ (s'.executed = s.executed → s'.files = s.files)

end Shell

section Lexing
open Lexer
variable {l : Lexer} {text : Text} {c : Char}

theorem plainStep_of_isPlain (h : isPlain c = true) (l : Lexer) :
    l.plainStep c = some (l.push c) := by
  have hne : ∀ d, isPlain d = false → c ≠ d := by
    rintro d hd rfl
    exact absurd h (by simp [hd])
  rw [plainStep, if_neg (hne ' ' (by decide)), if_neg (hne '\'' (by decide)),
    if_neg (hne '\\' (by decide)), if_neg fun h => hne '>' (by decide) h.1,
    if_neg fun h => hne '<' (by decide) h.1, if_pos h]

theorem foldlM_append {l' : Lexer} (h : text.foldlM step l = some l') (rest : Text) :
    (text ++ rest).foldlM step l = rest.foldlM step l' := by
  rw [List.foldlM_append, h, Option.bind_eq_bind, Option.bind_some]

/-- A run of plain characters goes into the word. -/
theorem foldlM_plain (hmode : l.mode = .plain) (hne : text ≠ [])
    (h : ∀ c ∈ text, isPlain c = true) : text.foldlM step l =
      some { l with current := some { l.word with text := l.word.text ++ text } } := by
  induction text generalizing l with
  | nil => exact absurd rfl hne
  | cons c text ih =>
    have hstep : l.step c = some (l.push c) := by
      simp only [step, hmode]
      exact plainStep_of_isPlain (h c List.mem_cons_self) l
    rw [List.foldlM_cons, hstep, Option.bind_eq_bind, Option.bind_some]
    by_cases htext : text = []
    · subst htext
      rfl
    · rw [ih (l := l.push c) hmode htext fun d hd => h d (List.mem_cons_of_mem _ hd)]
      simp [push, word]

/-- Between quotes every other character goes into the word. -/
theorem foldlM_quoted {w : Word} (hmode : l.mode = .quoted) (hcurrent : l.current = some w)
    (h : '\'' ∉ text) :
    text.foldlM step l = some { l with current := some { w with text := w.text ++ text } } := by
  induction text generalizing l w with
  | nil =>
    rw [List.foldlM_nil, List.append_nil]
    exact congrArg some (by rw [← hcurrent])
  | cons c text ih =>
    simp only [List.mem_cons, not_or] at h
    have hstep : l.step c = some (l.push c) := by
      simp only [step, hmode, if_neg (Ne.symm h.1)]
    rw [List.foldlM_cons, hstep, Option.bind_eq_bind, Option.bind_some,
      ih (l := l.push c) hmode rfl h.2]
    simp [push, word, hcurrent]

end Lexing

section Laws
variable {echo : Text → Text} {other : Shell → List Text → Shell} {s s' s'' : Shell} {line : Text}

theorem Extends.refl (s : Shell) : Extends s s := ⟨List.prefix_rfl, fun _ => rfl⟩

theorem Extends.trans (h : Extends s s') (h' : Extends s' s'') : Extends s s'' := by
  refine ⟨h.1.trans h'.1, fun heq => ?_⟩
  have hmiddle : s'.executed = s.executed :=
    (h.1.eq_of_length_le (heq ▸ h'.1.length_le)).symm
  rw [h'.2 (heq.trans hmiddle.symm), h.2 hmiddle]

theorem extends_execute (s : Shell) (command : Command) : Extends s (execute echo s command) := by
  refine ⟨List.prefix_append _ _, fun h => ?_⟩
  exact absurd h (by simp [execute])

theorem extends_readLine (h : readLine echo s line = some s') : Extends s s' := by
  rw [readLine] at h
  split at h
  · next d _ =>
    obtain rfl := Option.some.inj h
    split
    · exact extends_execute { s with document := none } _
    · exact Extends.refl s
  · obtain ⟨input, -, rfl⟩ := Option.map_eq_some_iff.mp h
    cases input with
    | blank => exact Extends.refl s
    | simple command => exact extends_execute s command
    | document path delimiter => exact Extends.refl s

theorem extends_run (hother : ∀ s lines, Extends s (other s lines)) (s : Shell) (lines : List Text) :
    Extends s (run echo other s lines) := by
  induction lines generalizing s with
  | nil => exact Extends.refl s
  | cons line lines ih =>
    rw [run]
    cases h : readLine echo s line with
    | none => exact hother s _
    | some s' => exact (extends_readLine h).trans (ih s')

theorem run_cons {lines : List Text} (h : readLine echo s line = some s') :
    run echo other s (line :: lines) = run echo other s' lines := by
  rw [run, h]

theorem readLine_blank (h : s.document = none) : readLine echo s [] = some s := by
  simp [readLine, h, lexLine, Lexer.start, Lexer.finish, parse]

/-- The body of a here-document up to its delimiter. -/
theorem run_document {d : Document} (hd : s.document = some d) {body : List Text}
    (hbody : d.delimiter ∉ body) (lines : List Text) :
    run echo other s (body ++ d.delimiter :: lines) =
      run echo other
        (execute echo { s with document := none }
          (.cat d.path (d.body ++ body.flatMap (· ++ ['\n'])))) lines := by
  induction body generalizing s d with
  | nil =>
    have hline : readLine echo s d.delimiter =
        some (execute echo { s with document := none } (.cat d.path d.body)) := by
      simp [readLine, hd]
    rw [List.nil_append, run_cons hline, List.flatMap_nil, List.append_nil]
  | cons line body ih =>
    simp only [List.mem_cons, not_or] at hbody
    have hline : readLine echo s line =
        some { s with document := some { d with body := d.body ++ line ++ ['\n'] } } := by
      simp [readLine, hd, Ne.symm hbody.1]
    have hnext : ({ s with document := some { d with body := d.body ++ line ++ ['\n'] } } :
        Shell).document = some { d with body := d.body ++ line ++ ['\n'] } := rfl
    rw [List.cons_append, run_cons hline, ih hnext hbody.2]
    simp

end Laws

end PosixShell
