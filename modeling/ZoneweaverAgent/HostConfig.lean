import ZoneweaverAgent.JsonValue
import ZoneweaverAgent.PathScan
import ZoneweaverAgent.TextWords

/-!
# Host configuration files

The agent reads `/etc/hosts` and `/etc/resolv.conf` into structured values and writes such values
back. A hosts line binds its names to its address, up to a comment. In resolv.conf the last of the
`domain` and `search` directives counts, while name servers and options add up.
-/

namespace ZoneweaverAgent.HostConfig

open PathScan (Text)
open TextLines TextWords

/-! ## Hosts -/

section Hosts

structure HostEntry where
  ip : Text
  hostnames : List Text
  deriving DecidableEq

/-- What one trimmed line adds to the entries; `split(/\s+/)` of it gives its words. -/
def readHostLine (trimmed : Text) : List HostEntry :=
  if trimmed = [] ∨ trimmed.head? = some '#' then []
  else
    match words isTrimmed trimmed with
    | ip :: hostname :: hostnames => [⟨ip, hostname :: hostnames⟩]
    | _ => []

def parseHostsFile (content : Text) : List HostEntry :=
  readLines isTrimmed '\n' readHostLine content

def hostsHeader : List Text :=
  ["# /etc/hosts - managed by zoneweaver-agent".toList, "#".toList,
    "# IP Address    Hostnames".toList, []]

def hostLine (entry : HostEntry) : Text := entry.ip ++ '\t' :: ['\t'].intercalate entry.hostnames

def serializeHostsFile (entries : List HostEntry) : Text :=
  ['\n'].intercalate (hostsHeader ++ entries.map hostLine ++ [[]])

/-- The file that a request writes, or its refusal. -/
def updateHosts (entries : Option (List HostEntry)) (raw : Option Text) : Except String Text :=
  match raw.filter (· ≠ []), entries with
  | some raw, _ => .ok raw
  | none, some entries => .ok (serializeHostsFile entries)
  | none, none => .error "Either entries array or raw string is required"

/-- The address-to-name bindings of a line. -/
def lineBindings (line : Text) : List (Text × Text) :=
  match words isTrimmed (uncommented '#' line) with
  | [] => []
  | ip :: names => names.map (Prod.mk ip)

/-- What a hosts file says. -/
def bindings (content : Text) : List (Text × Text) := (content.splitOn '\n').flatMap lineBindings

end Hosts

/-! ## The resolver's configuration -/

section Resolver

def nameserverWord : Text := ['n', 'a', 'm', 'e', 's', 'e', 'r', 'v', 'e', 'r']

def searchWord : Text := ['s', 'e', 'a', 'r', 'c', 'h']

def domainWord : Text := ['d', 'o', 'm', 'a', 'i', 'n']

def optionsWord : Text := ['o', 'p', 't', 'i', 'o', 'n', 's']

structure DnsConfig where
  nameservers : List Text
  searchDomains : List Text
  domain : Option Text
  options : List Text
  deriving DecidableEq

def readDirective (config : DnsConfig) (line : Text) : DnsConfig :=
  let trimmed := trim isTrimmed line
  if trimmed = [] ∨ trimmed.head? = some '#' ∨ trimmed.head? = some ';' then config
  else
    match words isTrimmed trimmed with
    | [] => config
    | directive :: rest =>
      if directive = nameserverWord ∧ rest ≠ [] then
        { config with nameservers := config.nameservers ++ rest.take 1 }
      else if directive = searchWord then
        { config with searchDomains := config.searchDomains ++ rest }
      else if directive = domainWord ∧ rest ≠ [] then { config with domain := rest.head? }
      else if directive = optionsWord then { config with options := config.options ++ rest }
      else config

def parseResolvConf (content : Text) : DnsConfig :=
  (content.splitOn '\n').foldl readDirective ⟨[], [], none, []⟩

def resolvHeader : List Text := ["# /etc/resolv.conf - managed by zoneweaver-agent".toList, []]

/-- A keyword and values behind it. -/
def directiveLine (keyword : Text) (values : List Text) : Text :=
  keyword ++ ' ' :: [' '].intercalate values

def configLines (config : DnsConfig) : List Text :=
  ((config.domain.filter (· ≠ [])).map fun domain => directiveLine domainWord [domain]).toList ++
    (if config.searchDomains = [] then [] else [directiveLine searchWord config.searchDomains]) ++
    config.nameservers.map (fun ns => directiveLine nameserverWord [ns]) ++
    if config.options = [] then [] else [directiveLine optionsWord config.options]

def serializeResolvConf (config : DnsConfig) : Text :=
  ['\n'].intercalate (resolvHeader ++ configLines config ++ [[]])

/-- The file that a request writes, or its refusal; `config` when it names the name servers. -/
def updateDns (config : Option DnsConfig) (raw : Option Text) : Except String Text :=
  match raw.filter (· ≠ []), config with
  | some raw, _ => .ok raw
  | none, some config => .ok (serializeResolvConf config)
  | none, none => .error "Either nameservers array or raw string is required"

/-- How names are looked up: in a local domain, or in the domains of a search list. -/
inductive Lookup
  | domain (name : Text)
  | search (first : Text) (others : List Text)
  deriving DecidableEq

inductive Directive
  | nameserver (address : Text)
  | lookup (l : Lookup)
  | options (values : List Text)
  deriving DecidableEq

def isComment (word : Text) : Bool := word.head? = some '#' || word.head? = some ';'

/-- The directive with these words; a keyword without a value says nothing. -/
def directiveOf : List Text → Option Directive
  | [] => none
  | keyword :: values =>
    if isComment keyword then none
    else if keyword = nameserverWord then values.head?.map .nameserver
    else if keyword = searchWord then
      match values with
      | [] => none
      | first :: others => some (.lookup (.search first others))
    else if keyword = domainWord then values.head?.map fun name => .lookup (.domain name)
    else if keyword = optionsWord then some (.options values)
    else none

def lineDirective (line : Text) : Option Directive := directiveOf (words isTrimmed line)

def directives (content : Text) : List Directive := (content.splitOn '\n').filterMap lineDirective

namespace Directive

def nameserver? : Directive → Option Text
  | nameserver address => some address
  | _ => none

def lookup? : Directive → Option Lookup
  | lookup l => some l
  | _ => none

def optionWords : Directive → List Text
  | options values => values
  | _ => []

end Directive

structure Resolution where
  nameservers : List Text
  lookup : Option Lookup
  options : List Text
  deriving DecidableEq

def lookups (ds : List Directive) : List Lookup := ds.filterMap Directive.lookup?

def resolutionOf (ds : List Directive) : Resolution where
  nameservers := ds.filterMap Directive.nameserver?
  lookup := (lookups ds).getLast?
  options := ds.flatMap Directive.optionWords

/-- What a resolv.conf says. -/
def resolution (content : Text) : Resolution := resolutionOf (directives content)

/-- No `search` directive has a `domain` or `search` directive behind it. -/
def SearchedLast (content : Text) : Prop :=
  ∀ l ∈ (lookups (directives content)).dropLast, ∃ name, l = .domain name

end Resolver

/-! ## What hosts entries say -/

section Bindings
variable {word line : Text} {entry : HostEntry} {entries : List HostEntry}

abbrev IsName (word : Text) : Prop := IsWord isTrimmed word

theorem newline_notMem (h : IsName word) : '\n' ∉ word := fun hmem =>
  absurd (h.plain '\n' hmem) (by decide)

def bindingsOf : List Text → List (Text × Text)
  | [] => []
  | ip :: names => names.map (Prod.mk ip)

theorem lineBindings_eq (line : Text) :
    lineBindings line = bindingsOf (cut '#' (words isTrimmed line)) := by
  rw [lineBindings, words_uncommented (by decide)]
  cases cut '#' (words isTrimmed line) <;> rfl

/-- The words of an entry, and at least one name. -/
structure HostEntry.WellFormed (entry : HostEntry) : Prop where
  ip : IsName entry.ip
  hostnames : ∀ name ∈ entry.hostnames, IsName name
  hostnames_ne : entry.hostnames ≠ []

theorem words_hostLine (h : entry.WellFormed) :
    words isTrimmed (hostLine entry) = entry.ip :: entry.hostnames := by
  rw [hostLine, words_append_cons (by decide), h.ip.words,
    words_intercalate (by decide) h.hostnames, List.singleton_append]

theorem newline_notMem_hostLine (h : entry.WellFormed) : '\n' ∉ hostLine entry := by
  rw [hostLine, List.mem_append, List.mem_cons, not_or, not_or]
  exact ⟨newline_notMem h.ip, by decide,
    TextLines.notMem_intercalate (by decide) fun name hname => newline_notMem (h.hostnames name hname)⟩

theorem splitOn_serializeHostsFile (h : ∀ entry ∈ entries, entry.WellFormed) :
    (serializeHostsFile entries).splitOn '\n' = hostsHeader ++ entries.map hostLine ++ [[]] := by
  have hheader : ∀ line ∈ hostsHeader, '\n' ∉ line := by decide +kernel
  apply List.splitOn_intercalate
  · intro line hline
    simp only [List.mem_append, List.mem_map, List.mem_singleton] at hline
    rcases hline with (hline | ⟨entry, hentry, rfl⟩) | rfl
    · exact hheader line hline
    · exact newline_notMem_hostLine (h entry hentry)
    · exact List.not_mem_nil
  · simp

theorem bindings_serializeHostsFile (h : ∀ entry ∈ entries, entry.WellFormed) :
    bindings (serializeHostsFile entries) =
      entries.flatMap fun entry => bindingsOf (cut '#' (entry.ip :: entry.hostnames)) := by
  have hheader : hostsHeader.flatMap lineBindings = [] := by decide +kernel
  have hlines : (entries.map hostLine).flatMap lineBindings =
      entries.flatMap fun entry => bindingsOf (cut '#' (entry.ip :: entry.hostnames)) := by
    rw [List.flatMap_map]
    refine List.flatMap_congr fun entry hentry => ?_
    rw [lineBindings_eq, words_hostLine (h entry hentry)]
  rw [bindings, splitOn_serializeHostsFile h, List.flatMap_append, List.flatMap_append, hheader,
    hlines, List.nil_append]
  exact List.append_nil _

/-- A line gives an entry where it has two words and is no comment. -/
theorem readHostLine_cases (line : Text) :
    (∃ ip name names, words isTrimmed line = ip :: name :: names ∧
      readHostLine (trim isTrimmed line) = [⟨ip, name :: names⟩]) ∨
      readHostLine (trim isTrimmed line) = [] ∧ lineBindings line = [] := by
  have hwords : words isTrimmed (trim isTrimmed line) = words isTrimmed line :=
    words_trim isTrimmed line
  rw [lineBindings_eq, ← hwords]
  generalize trim isTrimmed line = trimmed
  by_cases hskip : trimmed = [] ∨ trimmed.head? = some '#'
  · refine Or.inr ⟨if_pos hskip, ?_⟩
    have hnone : uncommented '#' trimmed = [] := by
      rcases hskip with rfl | hhash
      · rfl
      · obtain ⟨rest, rfl⟩ := List.head?_eq_some_iff.mp hhash
        exact List.takeWhile_cons_of_neg (by simp)
    rw [← words_uncommented (by decide), hnone]
    rfl
  · rw [readHostLine, if_neg hskip]
    match words isTrimmed trimmed with
    | [] => exact Or.inr ⟨rfl, rfl⟩
    | [ip] =>
      refine Or.inr ⟨rfl, ?_⟩
      rw [cut]
      split_ifs
      · cases uncommented '#' ip <;> rfl
      · rfl
    | ip :: name :: names => exact Or.inl ⟨ip, name, names, rfl, rfl⟩

theorem wellFormed_of_mem {content : Text} (h : entry ∈ parseHostsFile content) :
    entry.WellFormed := by
  obtain ⟨line, -, hentry⟩ := List.mem_flatMap.mp h
  rcases readHostLine_cases line with ⟨ip, name, names, hwords, hread⟩ | ⟨hread, -⟩
  · rw [hread, List.mem_singleton] at hentry
    rw [hentry]
    have hall : ∀ word ∈ ip :: name :: names, IsName word := fun word hword =>
      isWord_of_mem (hwords ▸ hword)
    rw [List.forall_mem_cons] at hall
    exact ⟨hall.1, hall.2, List.cons_ne_nil _ _⟩
  · rw [hread] at hentry
    cases hentry

/-- The file written from the entries that were read binds the same names. -/
theorem bindings_parseHostsFile (content : Text) :
    bindings (serializeHostsFile (parseHostsFile content)) = bindings content := by
  rw [bindings_serializeHostsFile fun entry => wellFormed_of_mem, parseHostsFile, readLines,
    List.flatMap_assoc, bindings]
  refine List.flatMap_congr fun line _ => ?_
  rcases readHostLine_cases line with ⟨ip, name, names, hwords, hread⟩ | ⟨hread, hnone⟩
  · rw [hread, List.flatMap_singleton, lineBindings_eq, hwords]
  · rw [hread, hnone, List.flatMap_nil]

/-- A word that opens no comment. -/
structure IsPlain (comments : List Char) (word : Text) : Prop extends IsWord isTrimmed word where
  head : ∀ c ∈ word.head?, c ∉ comments

/-- An entry whose words are plain, with a name. -/
structure PlainEntry extends HostEntry where
  isPlain : ∀ word ∈ ip :: hostnames, IsPlain ['#'] word
  hostnames_ne : hostnames ≠ []

theorem PlainEntry.wellFormed (entry : PlainEntry) : entry.toHostEntry.WellFormed where
  ip := (entry.isPlain _ List.mem_cons_self).toIsWord
  hostnames name hname := (entry.isPlain name (List.mem_cons_of_mem _ hname)).toIsWord
  hostnames_ne := entry.hostnames_ne

theorem readHostLine_hostLine (entry : PlainEntry) :
    readHostLine (trim isTrimmed (hostLine entry.toHostEntry)) = [entry.toHostEntry] := by
  have hip := entry.isPlain entry.ip List.mem_cons_self
  have hhead : (trim isTrimmed (hostLine entry.toHostEntry)).head? = entry.ip.head? :=
    head?_trim hip.toIsWord _
  have hwords := words_hostLine entry.wellFormed
  rw [← words_trim] at hwords
  generalize trim isTrimmed (hostLine entry.toHostEntry) = trimmed at hhead hwords
  rw [readHostLine, if_neg, hwords]
  · obtain ⟨name, names, hnames⟩ := List.exists_cons_of_ne_nil entry.hostnames_ne
    rw [hnames]
    simp only [← hnames]
  · rintro (rfl | hhash)
    · cases hwords
    · rw [hhead] at hhash
      exact hip.head '#' hhash (by simp)

theorem parseHostsFile_serializeHostsFile (entries : List PlainEntry) :
    parseHostsFile (serializeHostsFile (entries.map PlainEntry.toHostEntry)) =
      entries.map PlainEntry.toHostEntry := by
  have hwell : ∀ entry ∈ entries.map PlainEntry.toHostEntry, entry.WellFormed := by
    intro entry hentry
    obtain ⟨plain, -, rfl⟩ := List.mem_map.mp hentry
    exact plain.wellFormed
  have hheader : (hostsHeader.flatMap fun line => readHostLine (trim isTrimmed line)) = [] := by
    decide +kernel
  rw [parseHostsFile, readLines, splitOn_serializeHostsFile hwell, List.flatMap_append,
    List.flatMap_append, hheader, List.nil_append, List.map_map, List.flatMap_map]
  have hentries : (entries.flatMap fun entry => [entry.toHostEntry]) =
      entries.map PlainEntry.toHostEntry := List.flatMap_pure_eq_map _ entries
  simp only [Function.comp_apply, readHostLine_hostLine, hentries]
  exact List.append_nil _

end Bindings

/-! ## What a resolver's configuration says -/

section Directives
variable {content : Text}

namespace Lookup

def searchWords : Lookup → List Text
  | domain _ => []
  | search first others => first :: others

def domain? : Lookup → Option Text
  | domain name => some name
  | search _ _ => none

end Lookup

def DnsConfig.add (config : DnsConfig) : Directive → DnsConfig
  | .nameserver address => { config with nameservers := config.nameservers ++ [address] }
  | .lookup (.domain name) => { config with domain := some name }
  | .lookup (.search first others) =>
    { config with searchDomains := config.searchDomains ++ first :: others }
  | .options values => { config with options := config.options ++ values }

theorem readDirective_eq (config : DnsConfig) (line : Text) :
    readDirective config line = (lineDirective line).elim config config.add := by
  have hhead : ∀ c ∈ (trim isTrimmed line).head?, isTrimmed c = false := trim_head
  have hwords : words isTrimmed (trim isTrimmed line) = words isTrimmed line :=
    words_trim isTrimmed line
  rw [lineDirective, ← hwords, readDirective]
  generalize trim isTrimmed line = trimmed at hhead
  cases trimmed with
  | nil => rfl
  | cons c text =>
    obtain ⟨word, rest, hsplit⟩ := exists_words (hhead c rfl) text
    have hcomment : (c :: text = [] ∨ (c :: text).head? = some '#' ∨ (c :: text).head? = some ';') ↔
        isComment (c :: word) = true := by
      simp [isComment]
    simp only [hcomment, hsplit, directiveOf]
    by_cases h : isComment (c :: word) = true
    · simp [h]
    · simp only [h, if_false, Bool.false_eq_true]
      by_cases hns : c :: word = nameserverWord
      · cases rest <;>
          simp [hns, DnsConfig.add, nameserverWord, searchWord, domainWord, optionsWord]
      · by_cases hsearch : c :: word = searchWord
        · cases rest <;> simp [hsearch, DnsConfig.add, nameserverWord, searchWord]
        · by_cases hdomain : c :: word = domainWord
          · cases rest <;>
              simp [hdomain, DnsConfig.add, nameserverWord, searchWord, domainWord, optionsWord]
          · by_cases hoptions : c :: word = optionsWord
            · simp [hoptions, DnsConfig.add, nameserverWord, searchWord, domainWord, optionsWord]
            · simp [hns, hsearch, hdomain, hoptions]

/-- What the reader keeps of the directives. -/
def configOf (ds : List Directive) : DnsConfig where
  nameservers := ds.filterMap Directive.nameserver?
  searchDomains := (lookups ds).flatMap Lookup.searchWords
  domain := ((lookups ds).filterMap Lookup.domain?).getLast?
  options := ds.flatMap Directive.optionWords

theorem add_configOf (ds : List Directive) (d : Directive) :
    (configOf ds).add d = configOf (ds ++ [d]) := by
  have hlookups : lookups (ds ++ [d]) = lookups ds ++ d.lookup?.toList := by
    cases h : d.lookup? <;> simp [lookups, h]
  rw [configOf, configOf, hlookups]
  cases d with
  | nameserver address => simp [DnsConfig.add, Directive.nameserver?, Directive.lookup?,
      Directive.optionWords]
  | lookup l =>
    cases l <;> simp [DnsConfig.add, Directive.nameserver?, Directive.lookup?,
      Directive.optionWords, Lookup.searchWords, Lookup.domain?]
  | options values => simp [DnsConfig.add, Directive.nameserver?, Directive.lookup?,
      Directive.optionWords]

theorem parseResolvConf_eq (content : Text) :
    parseResolvConf content = configOf (directives content) := by
  have hfold (lines : List Text) (ds : List Directive) :
      lines.foldl readDirective (configOf ds) =
        configOf (ds ++ lines.filterMap lineDirective) := by
    induction lines generalizing ds with
    | nil => rw [List.foldl_nil, List.filterMap_nil, List.append_nil]
    | cons line lines ih =>
      rw [List.foldl_cons, readDirective_eq]
      cases h : lineDirective line with
      | none =>
        rw [List.filterMap_cons_none h]
        exact ih ds
      | some d =>
        rw [List.filterMap_cons_some h, Option.elim_some, add_configOf, ih, List.append_assoc,
          List.singleton_append]
  exact hfold (content.splitOn '\n') []

variable {k : Text} {vs : List Text} {config : DnsConfig}

theorem words_directiveLine (hk : IsName k) (hvs : ∀ v ∈ vs, IsName v) :
    words isTrimmed (directiveLine k vs) = k :: vs := by
  rw [directiveLine, words_append_cons (by decide), hk.words, words_intercalate (by decide) hvs,
    List.singleton_append]

theorem newline_notMem_directiveLine (hk : IsName k) (hvs : ∀ v ∈ vs, IsName v) :
    '\n' ∉ directiveLine k vs := by
  rw [directiveLine, List.mem_append, List.mem_cons, not_or, not_or]
  exact ⟨newline_notMem hk, by decide,
    TextLines.notMem_intercalate (by decide) fun v hv => newline_notMem (hvs v hv)⟩

structure DnsConfig.WellFormed (config : DnsConfig) : Prop where
  nameservers : ∀ word ∈ config.nameservers, IsName word
  searchDomains : ∀ word ∈ config.searchDomains, IsName word
  domain : ∀ word ∈ config.domain, IsName word
  options : ∀ word ∈ config.options, IsName word

def searchOf : List Text → Option Lookup
  | [] => none
  | first :: others => some (.search first others)

/-- The directives of a written configuration. -/
def DnsConfig.directives (config : DnsConfig) : List Directive :=
  (config.domain.map fun name => .lookup (.domain name)).toList ++
    ((searchOf config.searchDomains).map .lookup).toList ++
    config.nameservers.map .nameserver ++
    if config.options = [] then [] else [.options config.options]

namespace Directive

def keyword : Directive → Text
  | nameserver _ => nameserverWord
  | lookup (.domain _) => domainWord
  | lookup (.search _ _) => searchWord
  | options _ => optionsWord

def values : Directive → List Text
  | nameserver address => [address]
  | lookup (.domain name) => [name]
  | lookup (.search first others) => first :: others
  | options values => values

theorem isName_keyword (d : Directive) : IsName d.keyword := by
  have hwords : ∀ k ∈ [nameserverWord, domainWord, searchWord, optionsWord],
      k ≠ [] ∧ k.all (fun c => !isTrimmed c) = true := by decide
  have hmem : d.keyword ∈ [nameserverWord, domainWord, searchWord, optionsWord] := by
    rcases d with _ | (_ | _) | _ <;> simp [keyword]
  obtain ⟨hne, hall⟩ := hwords _ hmem
  exact ⟨hne, by simpa using hall⟩

/-- A directive is read from the line it is written on. -/
theorem lineDirective_line (d : Directive) (h : ∀ value ∈ d.values, IsName value) :
    lineDirective (directiveLine d.keyword d.values) = some d := by
  rw [lineDirective, words_directiveLine d.isName_keyword h]
  rcases d with _ | (_ | _) | _ <;> rfl

end Directive

theorem values_of_mem (h : config.WellFormed) {d : Directive} (hd : d ∈ config.directives) :
    ∀ value ∈ d.values, IsName value := by
  simp only [DnsConfig.directives, List.mem_append, Option.mem_toList, Option.map_eq_some_iff,
    List.mem_map] at hd
  rcases hd with ((⟨name, hname, rfl⟩ | ⟨l, hl, rfl⟩) | ⟨address, haddress, rfl⟩) | hd
  · simpa [Directive.values] using h.domain name hname
  · have hsearch := h.searchDomains
    cases hwords : config.searchDomains with
    | nil =>
      rw [hwords] at hl
      cases hl
    | cons first others =>
      rw [hwords] at hl hsearch
      cases hl
      exact hsearch
  · simpa [Directive.values] using h.nameservers address haddress
  · split_ifs at hd
    · cases hd
    · rw [List.mem_singleton.mp hd]
      exact h.options

theorem configLines_eq (h : config.WellFormed) :
    configLines config = config.directives.map fun d => directiveLine d.keyword d.values := by
  have hdomain : config.domain.filter (· ≠ []) = config.domain := by
    have hname := h.domain
    cases hd : config.domain with
    | none => rfl
    | some name => simp [Option.filter, (hname name hd).ne_nil]
  rw [configLines, hdomain, DnsConfig.directives, List.map_append, List.map_append, List.map_append,
    List.map_map]
  congr 1
  · congr 2
    · cases config.domain <;> rfl
    · cases config.searchDomains <;> rfl
  · split_ifs <;> rfl

theorem directives_serializeResolvConf (h : config.WellFormed) :
    directives (serializeResolvConf config) = config.directives := by
  have hheader : (∀ line ∈ resolvHeader, '\n' ∉ line) ∧
      resolvHeader.filterMap lineDirective = [] := by decide +kernel
  have hlines : ∀ line ∈ configLines config, '\n' ∉ line := by
    intro line hline
    rw [configLines_eq h] at hline
    obtain ⟨d, hd, rfl⟩ := List.mem_map.mp hline
    exact newline_notMem_directiveLine d.isName_keyword (values_of_mem h hd)
  have hdirectives : (configLines config).filterMap lineDirective = config.directives := by
    rw [configLines_eq h, List.filterMap_map]
    have hread : ∀ d ∈ config.directives,
        (lineDirective ∘ fun d => directiveLine d.keyword d.values) d = some d :=
      fun d hd => d.lineDirective_line (values_of_mem h hd)
    rw [List.filterMap_congr hread, List.filterMap_some]
  have hsplit : (serializeResolvConf config).splitOn '\n' =
      resolvHeader ++ configLines config ++ [[]] := by
    apply List.splitOn_intercalate
    · intro line hline
      rw [List.mem_append, List.mem_append, List.mem_singleton] at hline
      rcases hline with (hline | hline) | rfl
      · exact hheader.1 line hline
      · exact hlines line hline
      · exact List.not_mem_nil
    · simp
  rw [directives, hsplit, List.filterMap_append, List.filterMap_append, hheader.2, hdirectives,
    List.nil_append]
  exact List.append_nil _

end Directives

/-! ## Reading and writing resolv.conf -/

section RoundTrip
variable {ws : List Text} {d : Directive} {content : Text}

theorem values_of_directiveOf (h : directiveOf ws = some d) : ∀ v ∈ d.values, v ∈ ws := by
  cases ws with
  | nil => cases h
  | cons keyword rest =>
    simp only [directiveOf] at h
    split_ifs at h
    · obtain ⟨address, haddress, rfl⟩ := Option.map_eq_some_iff.mp h
      simpa [Directive.values] using Or.inr (List.mem_of_mem_head? haddress)
    · cases rest with
      | nil => cases h
      | cons first others =>
        cases h
        exact fun v hv => List.mem_cons_of_mem _ hv
    · obtain ⟨name, hname, rfl⟩ := Option.map_eq_some_iff.mp h
      simpa [Directive.values] using Or.inr (List.mem_of_mem_head? hname)
    · cases h
      exact fun v hv => List.mem_cons_of_mem _ hv

theorem isName_of_mem_directives (hd : d ∈ directives content) : ∀ v ∈ d.values, IsName v := by
  obtain ⟨line, -, hline⟩ := List.mem_filterMap.mp hd
  exact fun v hv => isWord_of_mem (values_of_directiveOf hline v hv)

theorem wellFormed_parseResolvConf (content : Text) : (parseResolvConf content).WellFormed := by
  rw [parseResolvConf_eq]
  have hlookup (l : Lookup) (hl : l ∈ lookups (directives content)) :
      ∀ v ∈ (Directive.lookup l).values, IsName v := by
    obtain ⟨d, hd, hdl⟩ := List.mem_filterMap.mp hl
    cases d with
    | lookup l' =>
      cases hdl
      exact isName_of_mem_directives hd
    | _ => cases hdl
  refine ⟨fun word hword => ?_, fun word hword => ?_, fun word hword => ?_, fun word hword => ?_⟩
  · obtain ⟨d, hd, hword⟩ := List.mem_filterMap.mp hword
    cases d with
    | nameserver address =>
      cases hword
      exact isName_of_mem_directives hd word (by simp [Directive.values])
    | _ => cases hword
  · obtain ⟨l, hl, hword⟩ := List.mem_flatMap.mp hword
    cases l with
    | domain name => cases hword
    | search first others => exact hlookup _ hl word hword
  · obtain ⟨l, hl, hword⟩ := List.mem_filterMap.mp (List.mem_of_mem_getLast? hword)
    cases l with
    | domain name =>
      cases hword
      exact hlookup _ hl word (by simp [Directive.values])
    | search first others => cases hword
  · obtain ⟨d, hd, hword⟩ := List.mem_flatMap.mp hword
    cases d with
    | options values => exact isName_of_mem_directives hd word hword
    | _ => cases hword

/-- A written configuration has its domain in front of its search list. -/
theorem of_directives (config : DnsConfig) :
    config.directives.filterMap Directive.nameserver? = config.nameservers ∧
      lookups config.directives =
        (config.domain.map Lookup.domain).toList ++ (searchOf config.searchDomains).toList ∧
      config.directives.flatMap Directive.optionWords = config.options := by
  obtain ⟨nameservers, searchDomains, domain, options⟩ := config
  have hnameservers : (nameservers.map Directive.nameserver).filterMap Directive.nameserver? =
      nameservers := by
    rw [List.filterMap_map]
    exact List.filterMap_some
  have hnone : (nameservers.map Directive.nameserver).filterMap Directive.lookup? = [] ∧
      (nameservers.map Directive.nameserver).flatMap Directive.optionWords = [] := by
    simp [Directive.lookup?, Directive.optionWords]
  simp only [lookups, DnsConfig.directives, List.filterMap_append, List.flatMap_append,
    hnameservers, hnone]
  cases domain <;> cases searchOf searchDomains <;> cases options <;>
    simp [List.filterMap_cons, Directive.nameserver?, Directive.lookup?, Directive.optionWords]

/-- What counts of the lookups is what the reader makes of them when no search list is followed. -/
theorem getLast?_eq_iff (ls : List Lookup) :
    (searchOf (ls.flatMap Lookup.searchWords)).or
        ((ls.filterMap Lookup.domain?).getLast?.map .domain) = ls.getLast? ↔
      ∀ l ∈ ls.dropLast, ∃ name, l = .domain name := by
  have hwords (ls : List Lookup) : ls.flatMap Lookup.searchWords = [] ↔
      ∀ l ∈ ls, ∃ name, l = .domain name := by
    rw [List.flatMap_eq_nil_iff]
    refine forall₂_congr fun l _ => ?_
    cases l <;> simp [Lookup.searchWords]
  rcases List.eq_nil_or_concat' ls with rfl | ⟨before, l, rfl⟩
  · simp [searchOf]
  · rw [List.dropLast_concat, List.getLast?_concat, ← hwords before, List.flatMap_append]
    cases hbefore : before.flatMap Lookup.searchWords with
    | nil => cases l <;> simp [Lookup.searchWords, Lookup.domain?, searchOf]
    | cons first others =>
      cases l with
      | domain name => simp [Lookup.searchWords, searchOf]
      | search first' others' =>
        have hlonger : others ++ first' :: others' ≠ others' := by
          intro heq
          have hlength := congrArg List.length heq
          rw [List.length_append, List.length_cons] at hlength
          omega
        simp [Lookup.searchWords, searchOf, hlonger]

theorem resolution_serializeResolvConf (content : Text) :
    resolution (serializeResolvConf (parseResolvConf content)) = resolution content ↔
      SearchedLast content := by
  rw [resolution, directives_serializeResolvConf (wellFormed_parseResolvConf content),
    parseResolvConf_eq, SearchedLast, ← getLast?_eq_iff, resolution, resolutionOf, resolutionOf]
  obtain ⟨hnameservers, hlookups, hoptions⟩ := of_directives (configOf (directives content))
  have hlast (domain : Option Text) (search : Option Lookup) :
      ((domain.map Lookup.domain).toList ++ search.toList).getLast? =
        search.or (domain.map .domain) := by
    cases domain <;> cases search <;> rfl
  rw [hnameservers, hlookups, hoptions, hlast]
  simp only [configOf, Resolution.mk.injEq, true_and, and_true]

/-- A configuration of plain words. -/
structure PlainConfig extends DnsConfig where
  nameservers_plain : ∀ word ∈ nameservers, IsPlain ['#', ';'] word
  searchDomains_plain : ∀ word ∈ searchDomains, IsPlain ['#', ';'] word
  domain_plain : ∀ word ∈ domain, IsPlain ['#', ';'] word
  options_plain : ∀ word ∈ options, IsPlain ['#', ';'] word

theorem PlainConfig.wellFormed (config : PlainConfig) : config.toDnsConfig.WellFormed where
  nameservers word h := (config.nameservers_plain word h).toIsWord
  searchDomains word h := (config.searchDomains_plain word h).toIsWord
  domain word h := (config.domain_plain word h).toIsWord
  options word h := (config.options_plain word h).toIsWord

theorem parseResolvConf_serializeResolvConf (config : PlainConfig) :
    parseResolvConf (serializeResolvConf config.toDnsConfig) = config.toDnsConfig := by
  rw [parseResolvConf_eq, directives_serializeResolvConf config.wellFormed]
  obtain ⟨hnameservers, hlookups, hoptions⟩ := of_directives config.toDnsConfig
  have hsearch (domain : Option Text) (words : List Text) :
      ((domain.map Lookup.domain).toList ++ (searchOf words).toList).flatMap Lookup.searchWords =
        words := by
    cases domain <;> cases words <;> simp [searchOf, Lookup.searchWords]
  have hdomain (domain : Option Text) (words : List Text) :
      (((domain.map Lookup.domain).toList ++ (searchOf words).toList).filterMap
        Lookup.domain?).getLast? = domain := by
    cases domain <;> cases words <;> rfl
  rw [configOf, hnameservers, hlookups, hoptions, hsearch, hdomain]

end RoundTrip

/-- A hosts file that is read and written back binds the same names; a resolv.conf says the same
exactly where no search list is followed by another one or a domain. Written plain values are read
back. -/
theorem host_config_round_trip (hosts resolv : Text) (entries : List PlainEntry)
    (config : PlainConfig) :
    (updateHosts (some (parseHostsFile hosts)) none).map bindings = .ok (bindings hosts) ∧
    ((updateDns (some (parseResolvConf resolv)) none).map resolution = .ok (resolution resolv) ↔
      SearchedLast resolv) ∧
    (updateHosts (some (entries.map PlainEntry.toHostEntry)) none).map parseHostsFile =
      .ok (entries.map PlainEntry.toHostEntry) ∧
    (updateDns (some config.toDnsConfig) none).map parseResolvConf = .ok config.toDnsConfig := by
  refine ⟨?_, ?_, ?_, ?_⟩
  · exact congrArg Except.ok (bindings_parseHostsFile hosts)
  · rw [← resolution_serializeResolvConf]
    exact ⟨Except.ok.inj, congrArg Except.ok⟩
  · exact congrArg Except.ok (parseHostsFile_serializeHostsFile entries)
  · exact congrArg Except.ok (parseResolvConf_serializeResolvConf config)

/-- `search a`, and `search b` on the next line. -/
def twoSearches : Text :=
  directiveLine searchWord [['a']] ++ '\n' :: directiveLine searchWord [['b']]

/-- The later of two search lists counts in the file, and both do in the file that is written. -/
theorem not_host_config_round_trip :
    ¬(∀ content, (updateDns (some (parseResolvConf content)) none).map resolution =
      .ok (resolution content)) ∧
    (resolution twoSearches).lookup = some (.search ['b'] []) ∧
    (resolution (serializeResolvConf (parseResolvConf twoSearches))).lookup =
      some (.search ['a'] [['b']]) := by
  refine ⟨fun h => ?_, by decide +kernel, by decide +kernel⟩
  have htwo := congrArg (Except.map Resolution.lookup) (h twoSearches)
  exact absurd htwo (by decide +kernel)

end ZoneweaverAgent.HostConfig
