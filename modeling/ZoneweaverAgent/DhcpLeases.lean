import Mathlib.Data.List.Infix
import ZoneweaverAgent.JsonValue
import ZoneweaverAgent.PathScan

/-!
# The leases of a DHCP server

A leases file is a sequence of blocks, one for each assignment, of which the last one for an address
or a MAC counts. The reader looks for the blocks with a regular expression that ends a block at its
first closing brace, and in a block for the first hardware address. Quoted strings come from the
guests.
-/

namespace ZoneweaverAgent.DhcpLeases

open PathScan

section Blocks

def isHexColon (c : Char) : Bool :=
  c.isDigit || ('a' ≤ c && c ≤ 'f') || ('A' ≤ c && c ≤ 'F') || c = ':'

def hardwareWord : Text := ['h', 'a', 'r', 'd', 'w', 'a', 'r', 'e']

def ethernetWord : Text := ['e', 't', 'h', 'e', 'r', 'n', 'e', 't']

def leaseWord : Text := ['l', 'e', 'a', 's', 'e']

/-- `plain` is any statement without strings, such as the times or the binding state. -/
inductive Statement
  | hardware (mac : Text)
  | quoted (keyword value : Text)
  | plain (text : Text)
  deriving DecidableEq

namespace Statement

def text : Statement → Text
  | hardware mac => hardwareWord ++ ' ' :: (ethernetWord ++ ' ' :: mac)
  | quoted keyword value => keyword ++ ' ' :: '"' :: (value ++ ['"'])
  | plain text => text

def render (s : Statement) : Text := ' ' :: ' ' :: (s.text ++ [';', '\n'])

def WellFormed : Statement → Prop
  | hardware mac => mac ≠ [] ∧ ∀ c ∈ mac, isHexColon c = true
  | quoted keyword _ => '}' ∉ keyword ∧ ¬hardwareWord <:+: keyword
  | plain text => '}' ∉ text ∧ ¬hardwareWord <:+: text

instance : DecidablePred WellFormed
  | hardware mac => decidable_of_iff (mac ≠ [] ∧ mac.all isHexColon = true)
    (and_congr_right' List.all_eq_true)
  | quoted keyword _ => inferInstanceAs (Decidable ('}' ∉ keyword ∧ ¬hardwareWord <:+: keyword))
  | plain text => inferInstanceAs (Decidable ('}' ∉ text ∧ ¬hardwareWord <:+: text))

/-- A string without what the reader takes for the end of the block or a hardware address. -/
def Clean : Statement → Prop
  | quoted _ value => '}' ∉ value ∧ ¬hardwareWord <:+: value
  | _ => True

instance : DecidablePred Clean
  | quoted _ value => inferInstanceAs (Decidable ('}' ∉ value ∧ ¬hardwareWord <:+: value))
  | hardware _ => inferInstanceAs (Decidable True)
  | plain _ => inferInstanceAs (Decidable True)

end Statement

/-- Four runs of digits with dots between them. -/
def IsAddress (ip : Text) : Prop :=
  ∃ a b c d, ip = a ++ '.' :: (b ++ '.' :: (c ++ '.' :: d)) ∧
    ∀ run ∈ [a, b, c, d], run ≠ [] ∧ ∀ c ∈ run, Char.isDigit c = true

structure Lease where
  ip : Text
  statements : List Statement
  isAddress : IsAddress ip
  wellFormed : ∀ s ∈ statements, s.WellFormed

/-- Canonical MAC spelling: lower case, octets padded to two digits. -/
def normalizeMac (mac : Text) : Text :=
  [':'].intercalate (((mac.map Char.toLower).splitOn ':').map fun octet =>
    List.replicate (2 - octet.length) '0' ++ octet)

namespace Lease

def body (l : Lease) : Text := '\n' :: l.statements.flatMap Statement.render

def render (l : Lease) : Text := leaseWord ++ ' ' :: (l.ip ++ ' ' :: '{' :: (l.body ++ ['}', '\n']))

/-- Whom the lease gives the address to. -/
def mac (l : Lease) : Option Text :=
  l.statements.findSome? fun
    | .hardware mac => some (normalizeMac mac)
    | _ => none

def Clean (l : Lease) : Prop := ∀ s ∈ l.statements, s.Clean

instance (l : Lease) : Decidable l.Clean :=
  inferInstanceAs (Decidable (∀ s ∈ l.statements, s.Clean))

end Lease

def renderAll (leases : List Lease) : Text := leases.flatMap Lease.render

end Blocks

section Reader

structure Match where
  ip : Text
  block : Text
  deriving DecidableEq

/-- `lease\s+(?<ip>\d+\.\d+\.\d+\.\d+)\s*\{(?<block>[^}]*)\}`, and what follows. -/
def leaseHere (text : Text) : Option (Match × Text) := do
  let rest ← behind leaseWord text
  let (_, rest) ← run isTrimmed rest
  let (a, rest) ← run Char.isDigit rest
  let rest ← behind ['.'] rest
  let (b, rest) ← run Char.isDigit rest
  let rest ← behind ['.'] rest
  let (c, rest) ← run Char.isDigit rest
  let rest ← behind ['.'] rest
  let (d, rest) ← run Char.isDigit rest
  let rest ← behind ['{'] (rest.dropWhile isTrimmed)
  let block := rest.takeWhile (· ≠ '}')
  let rest ← behind ['}'] (rest.dropWhile (· ≠ '}'))
  return (⟨a ++ '.' :: (b ++ '.' :: (c ++ '.' :: d)), block⟩, rest)

/-- All matches, one after the other. -/
def findLeases : ℕ → Text → List Match
  | 0, _ => []
  | _ + 1, [] => []
  | fuel + 1, c :: rest =>
    match leaseHere (c :: rest) with
    | some (found, after) => found :: findLeases fuel after
    | none => findLeases fuel rest

/-- `hardware\s+ethernet\s+(?<mac>[0-9a-fA-F:]+);` -/
def macHere (text : Text) : Option Text := do
  let rest ← behind hardwareWord text
  let (_, rest) ← run isTrimmed rest
  let rest ← behind ethernetWord rest
  let (_, rest) ← run isTrimmed rest
  let (mac, rest) ← run isHexColon rest
  let _ ← behind [';'] rest
  return mac

/-- The last match of a file for a MAC. -/
def lastMatch (wanted : Text) (output : Text) : Option Text :=
  (((findLeases output.length output).filter fun found =>
    (search macHere found.block).map normalizeMac = some wanted).getLast?).map Match.ip

/-- `results` are the outputs of the files, nothing where a file is missing or unreadable. -/
def readLeaseByMac (results : List (Option Text)) (mac : Text) : Option Text :=
  results.findSome? fun result => result.bind (lastMatch (normalizeMac mac))

end Reader

section Search
variable {β : Type} {here : Text → Option β} {text more : Text}

/-- A text in which no match begins is passed over. -/
theorem search_skip
    (h : ∀ front back, text = front ++ back → back ≠ [] → here (back ++ more) = none) :
    search here (text ++ more) = search here more := by
  induction text with
  | nil => rfl
  | cons c text ih =>
    have hhere : here (c :: (text ++ more)) = none := h [] (c :: text) rfl (List.cons_ne_nil c text)
    rw [List.cons_append, search, hhere, Option.none_or]
    exact ih fun front back heq => h (c :: front) back (by rw [heq]; rfl)

/-- A word does not begin in a text that ends a line and does not have it. -/
theorem behind_skip {word line : Text} (hword : '\n' ∉ word) (hline : ¬word <:+: line)
    {front back : Text} (heq : line ++ ['\n'] = front ++ back) (hne : back ≠ []) :
    behind word (back ++ more) = none := by
  by_contra hsome
  obtain ⟨rest, hrest⟩ := Option.ne_none_iff_exists'.mp hsome
  have hprefix : word <+: back ++ more := ⟨rest, (behind_eq_some hrest).symm⟩
  obtain ⟨stem, rfl⟩ : ∃ stem, back = stem ++ ['\n'] := by
    have hlast := congrArg List.getLast? heq
    rw [List.getLast?_concat, List.getLast?_append_of_ne_nil _ hne] at hlast
    exact ⟨back.dropLast, (List.dropLast_append_getLast? '\n' hlast.symm).symm⟩
  rw [← List.append_assoc] at heq
  have hstem : line = front ++ stem := List.append_cancel_right heq
  rw [List.append_assoc, List.singleton_append] at hprefix
  exact hline (hstem ▸ (prefix_of_notMem hword hprefix).isInfix.trans
    (List.suffix_append front stem).isInfix)

/-- A statement without the word is passed over. -/
theorem search_macHere_skip {line : Text} (hline : ¬hardwareWord <:+: line) :
    search macHere (line ++ '\n' :: more) = search macHere more := by
  have hlines : line ++ '\n' :: more = (line ++ ['\n']) ++ more := by simp
  rw [hlines]
  refine search_skip fun front back heq hne => ?_
  rw [macHere, behind_skip (by decide) hline heq hne]
  rfl

end Search

section Rendered
variable {s : Statement} {l : Lease} {more : Text}

theorem run_space (rest : Text) (hrest : ∀ c ∈ rest.head?, isTrimmed c = false) :
    run isTrimmed (' ' :: rest) = some ([' '], rest) :=
  run_append (List.cons_ne_nil ' ' []) (by simp [isTrimmed]) hrest

theorem isTrimmed_of_isHexColon {c : Char} (h : isHexColon c = true) : isTrimmed c = false := by
  have hrange : 48 ≤ c.toNat ∧ c.toNat ≤ 102 := by
    simp only [isHexColon, Char.isDigit, Bool.or_eq_true, Bool.and_eq_true, decide_eq_true_eq,
      ge_iff_le, Char.le_def, UInt32.le_iff_toNat_le] at h
    rcases h with ((⟨h, h'⟩ | ⟨h, h'⟩) | ⟨h, h'⟩) | rfl
    · exact ⟨h, h'.trans (by decide)⟩
    · exact ⟨le_trans (by decide) h, h'⟩
    · exact ⟨le_trans (by decide) h, h'.trans (by decide)⟩
    · decide
  exact isTrimmed_of_visible (by omega) (by omega)

theorem macHere_hardware {mac : Text} (hne : mac ≠ []) (hmac : ∀ c ∈ mac, isHexColon c = true)
    (rest : Text) :
    macHere (hardwareWord ++ ' ' :: (ethernetWord ++ ' ' :: (mac ++ ';' :: rest))) = some mac := by
  have hspace : ∀ c ∈ (mac ++ ';' :: rest).head?, isTrimmed c = false := by
    obtain ⟨c, mac, rfl⟩ := List.exists_cons_of_ne_nil hne
    simpa using isTrimmed_of_isHexColon (hmac c List.mem_cons_self)
  have hrun : run isHexColon (mac ++ ';' :: rest) = some (mac, ';' :: rest) :=
    run_append hne hmac (by simp [isHexColon])
  have hsemicolon : behind [';'] (';' :: rest) = some rest := behind_append [';'] rest
  have hword : ∀ c ∈ (ethernetWord ++ ' ' :: (mac ++ ';' :: rest)).head?, isTrimmed c = false := by
    simp [ethernetWord, isTrimmed]
  simp only [macHere, behind_append, run_space _ hword, run_space _ hspace, hrun, hsemicolon,
    Option.bind_eq_bind, Option.bind_some]
  rfl

theorem search_of_some {β : Type} {here : Text → Option β} {text : Text} {found : β}
    (hne : text ≠ []) (h : here text = some found) : search here text = some found := by
  obtain ⟨c, text, rfl⟩ := List.exists_cons_of_ne_nil hne
  rw [search, h, Option.some_or]

theorem not_infix_render {text : Text} (h : ¬hardwareWord <:+: text) :
    ¬hardwareWord <:+: ' ' :: ' ' :: (text ++ [';']) := by
  have hnil : ¬hardwareWord <:+: [] := by decide
  have hsemicolon := not_infix_append (by decide) (c := ';') (by decide) h hnil
  have hspace := not_infix_append (by decide) (c := ' ') (by decide) hnil hsemicolon
  exact not_infix_append (by decide) (c := ' ') (by decide) hnil hspace

theorem search_macHere_render (hwell : s.WellFormed) (hclean : s.Clean) :
    search macHere (s.render ++ more) =
      match s with
      | .hardware mac => some mac
      | _ => search macHere more := by
  have hskip {text : Text} (h : ¬hardwareWord <:+: text) :
      search macHere (' ' :: ' ' :: (text ++ [';', '\n']) ++ more) = search macHere more := by
    have hline : search macHere ((' ' :: ' ' :: (text ++ [';'])) ++ '\n' :: more) =
        search macHere more := search_macHere_skip (not_infix_render h)
    simpa using hline
  cases s with
  | hardware mac =>
    have hhere := macHere_hardware hwell.1 hwell.2 ('\n' :: more)
    have hfound := search_of_some (by simp [hardwareWord]) hhere
    have hsearch : search macHere ((Statement.hardware mac).render ++ more) =
        search macHere
          (hardwareWord ++ ' ' :: (ethernetWord ++ ' ' :: (mac ++ ';' :: '\n' :: more))) := by
      simp [Statement.render, Statement.text, search, macHere, behind, hardwareWord]
    rw [hsearch, hfound]
  | quoted keyword value =>
    refine hskip (not_infix_append (by decide) (c := ' ') (by decide) hwell.2 ?_)
    refine not_infix_append (by decide) (c := '"') (by decide) (a := []) (by decide) ?_
    exact not_infix_append (by decide) (c := '"') (by decide) hclean.2 (by decide)
  | plain text => exact hskip hwell.2

theorem brace_notMem_render (hwell : s.WellFormed) (hclean : s.Clean) : '}' ∉ s.render := by
  cases s with
  | hardware mac =>
    have hmac : '}' ∉ mac := fun h => absurd (hwell.2 _ h) (by decide)
    simp [Statement.render, Statement.text, hardwareWord, ethernetWord, hmac]
  | quoted keyword value => simp [Statement.render, Statement.text, hwell.1, hclean.1]
  | plain text => simp [Statement.render, Statement.text, hwell.1]

theorem search_macHere_renders {statements : List Statement}
    (hwell : ∀ s ∈ statements, s.WellFormed) (hclean : ∀ s ∈ statements, s.Clean) :
    search macHere (statements.flatMap Statement.render) =
      statements.findSome? fun
        | .hardware mac => some mac
        | _ => none := by
  induction statements with
  | nil => rfl
  | cons s statements ih =>
    rw [List.flatMap_cons, search_macHere_render (hwell s List.mem_cons_self)
      (hclean s List.mem_cons_self), List.findSome?_cons]
    cases s with
    | hardware mac => rfl
    | quoted keyword value =>
      exact ih (fun s hs => hwell s (List.mem_cons_of_mem _ hs))
        fun s hs => hclean s (List.mem_cons_of_mem _ hs)
    | plain text =>
      exact ih (fun s hs => hwell s (List.mem_cons_of_mem _ hs))
        fun s hs => hclean s (List.mem_cons_of_mem _ hs)

/-- The reader finds the hardware address that the lease states. -/
theorem macHere_body (hclean : l.Clean) : (search macHere l.body).map normalizeMac = l.mac := by
  have hbody : search macHere l.body = search macHere (l.statements.flatMap Statement.render) :=
    search_macHere_skip (by decide : ¬hardwareWord <:+: [])
  rw [hbody, search_macHere_renders l.wellFormed hclean, Lease.mac, List.map_findSome?]
  congr 1
  funext s
  cases s <;> rfl

theorem brace_notMem_body (hclean : l.Clean) : '}' ∉ l.body := by
  intro h
  rw [Lease.body, List.mem_cons] at h
  rcases h with h | h
  · exact absurd h (by decide)
  · obtain ⟨s, hs, hmem⟩ := List.mem_flatMap.mp h
    exact brace_notMem_render (l.wellFormed s hs) (hclean s hs) hmem

theorem run_digits {digits : Text} (h : digits ≠ [] ∧ ∀ c ∈ digits, Char.isDigit c = true)
    {c : Char} (hc : c.isDigit = false) (rest : Text) :
    run Char.isDigit (digits ++ c :: rest) = some (digits, c :: rest) :=
  run_append h.1 h.2 (by simpa using hc)

theorem leaseHere_render (hclean : l.Clean) (more : Text) :
    leaseHere (l.render ++ more) = some (⟨l.ip, l.body⟩, '\n' :: more) := by
  obtain ⟨a, b, c, d, hip, hruns⟩ := l.isAddress
  simp only [List.mem_cons, List.not_mem_nil, or_false, forall_eq_or_imp, forall_eq] at hruns
  obtain ⟨ha, hb, hc, hd⟩ := hruns
  have hbody := brace_notMem_body hclean
  have htext : l.render ++ more = leaseWord ++ ' ' :: (a ++ '.' :: (b ++ '.' :: (c ++ '.' :: (d ++
      ' ' :: '{' :: (l.body ++ '}' :: '\n' :: more))))) := by
    simp [Lease.render, hip]
  have hspace : run isTrimmed (' ' :: (a ++ '.' :: (b ++ '.' :: (c ++ '.' :: (d ++
      ' ' :: '{' :: (l.body ++ '}' :: '\n' :: more)))))) = some ([' '], a ++ '.' :: (b ++ '.' ::
        (c ++ '.' :: (d ++ ' ' :: '{' :: (l.body ++ '}' :: '\n' :: more))))) := by
    apply run_space
    obtain ⟨digit, a, rfl⟩ := List.exists_cons_of_ne_nil ha.1
    simpa using isTrimmed_of_isHexColon (by simp [isHexColon, ha.2 digit List.mem_cons_self])
  have hrun {digits : Text} (h : digits ≠ [] ∧ ∀ c ∈ digits, Char.isDigit c = true) (rest : Text) :
      run Char.isDigit (digits ++ '.' :: rest) = some (digits, '.' :: rest) :=
    run_digits h (by decide) rest
  have hlast (rest : Text) : run Char.isDigit (d ++ ' ' :: rest) = some (d, ' ' :: rest) :=
    run_digits hd (by decide) rest
  have hdot (rest : Text) : behind ['.'] ('.' :: rest) = some rest := behind_append ['.'] rest
  have hopen : (' ' :: '{' :: (l.body ++ '}' :: '\n' :: more)).dropWhile isTrimmed =
      '{' :: (l.body ++ '}' :: '\n' :: more) := by
    simp [isTrimmed]
  have hbrace (rest : Text) : behind ['{'] ('{' :: rest) = some rest := behind_append ['{'] rest
  have hclose (rest : Text) : behind ['}'] ('}' :: rest) = some rest := behind_append ['}'] rest
  have hall : ∀ c ∈ l.body, (decide (c ≠ '}')) = true := by
    intro c hc
    rw [decide_eq_true_iff]
    rintro rfl
    exact hbody hc
  have htake : (l.body ++ '}' :: '\n' :: more).takeWhile (· ≠ '}') = l.body := by
    rw [List.takeWhile_append_of_pos hall, List.takeWhile_cons_of_neg (by simp), List.append_nil]
  have hdrop : (l.body ++ '}' :: '\n' :: more).dropWhile (· ≠ '}') = '}' :: '\n' :: more := by
    rw [List.dropWhile_append_of_pos hall, List.dropWhile_cons_of_neg (by simp)]
  rw [htext, leaseHere]
  simp only [behind_append, hspace, hrun ha, hrun hb, hrun hc, hlast, hdot, hopen, hbrace, htake,
    hdrop, hclose, Option.bind_eq_bind, Option.bind_some, hip]
  rfl

/-- The blocks of a clean file are found one by one. -/
theorem findLeases_renderAll {leases : List Lease} (hclean : ∀ l ∈ leases, l.Clean) {fuel : ℕ}
    (hfuel : (renderAll leases).length ≤ fuel) :
    findLeases fuel (renderAll leases) = leases.map fun l => ⟨l.ip, l.body⟩ := by
  induction leases generalizing fuel with
  | nil => cases fuel <;> rfl
  | cons l leases ih =>
    have hrender : renderAll (l :: leases) = l.render ++ renderAll leases := rfl
    have hhere := leaseHere_render (hclean l List.mem_cons_self) (renderAll leases)
    have hlength : 2 + (renderAll leases).length ≤ fuel := by
      refine le_trans ?_ hfuel
      rw [hrender, List.length_append]
      simp [Lease.render, leaseWord]
    obtain ⟨fuel, rfl⟩ : ∃ n, fuel = n + 2 := ⟨fuel - 2, by omega⟩
    have hnewline : leaseHere ('\n' :: renderAll leases) = none := by
      simp [leaseHere, behind, leaseWord]
    rw [hrender, List.map_cons]
    cases htext : l.render ++ renderAll leases with
    | nil => exact absurd htext (by simp [Lease.render, leaseWord])
    | cons c rest =>
      rw [htext] at hhere
      rw [findLeases, hhere]
      simp only [findLeases, hnewline]
      rw [ih (fun l hl => hclean l (List.mem_cons_of_mem _ hl)) (by omega)]

/-- The last lease of a clean file for a MAC. -/
theorem lastMatch_renderAll {leases : List Lease} (hclean : ∀ l ∈ leases, l.Clean) (wanted : Text) :
    lastMatch wanted (renderAll leases) =
      ((leases.filter fun l => l.mac = some wanted).getLast?).map Lease.ip := by
  rw [lastMatch, findLeases_renderAll hclean le_rfl, List.filter_map, List.getLast?_map,
    Option.map_map]
  have hfilter : leases.filter ((fun found : Match =>
      (search macHere found.block).map normalizeMac = some wanted) ∘ fun l => ⟨l.ip, l.body⟩) =
      leases.filter fun l => l.mac = some wanted := by
    apply List.filter_congr
    intro l hl
    change decide ((search macHere l.body).map normalizeMac = some wanted) = _
    rw [macHere_body (hclean l hl)]
  rw [hfilter]
  rfl

end Rendered

end ZoneweaverAgent.DhcpLeases
