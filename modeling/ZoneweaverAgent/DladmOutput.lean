import ZoneweaverAgent.NumberTexts
import Mathlib.Data.List.Infix

/-!
# The parseable output of dladm

`dladm -p` prints one link a line, its fields separated by colons and the colons inside a field
escaped. The readers of the network collector split at every colon, look for the end of a MAC by the
address type behind it, and drop the lines that look like a header.
-/

namespace ZoneweaverAgent.DladmOutput

open DecimalNumerals Doubles NumberTexts PathScan TextLines

/-! ## The format -/

section Format

def escape (field : Text) : Text :=
  field.flatMap fun c => if c = ':' ∨ c = '\\' then ['\\', c] else [c]

def renderFields (fields : List Text) : Text := [':'].intercalate (fields.map escape)

def isNameChar (c : Char) : Bool := c.isAlphanum || c = '_' || c = '.' || c = '-'

/-- The name of a link or of a zone. -/
def IsName (name : Text) : Prop :=
  name.head?.any Char.isAlphanum = true ∧ name.all isNameChar = true

instance : DecidablePred IsName := fun name =>
  inferInstanceAs (Decidable (name.head?.any Char.isAlphanum = true ∧ name.all isNameChar = true))

def isMacChar (c : Char) : Bool := c.isDigit || ('a' ≤ c && c ≤ 'f') || c = ':'

def noZone : Text := ['-', '-']

/-- A row of `dladm show-vnic`, the speed in megabits. -/
structure Vnic where
  link : Text
  overLink : Text
  speed : ℕ
  mac : Text
  addressType : Text
  vid : ℕ
  zone : Option Text
  isName_link : IsName link
  isName_overLink : IsName overLink
  speed_lt : speed < 2 ^ 53
  mac_ne : mac ≠ []
  isMac : mac.all isMacChar = true
  addressType_plain : addressType.all (· ∉ [':', '\\', '\n']) = true
  vid_lt : vid < 4096
  isName_zone : ∀ name ∈ zone, IsName name

def Vnic.zoneText (v : Vnic) : Text := v.zone.getD noZone

def Vnic.render (v : Vnic) : Text :=
  renderFields [v.link, v.overLink, Nat.toDigits 10 v.speed, v.mac, v.addressType,
    Nat.toDigits 10 v.vid, v.zoneText]

/-- A row of `dladm show-link -s`. -/
structure LinkStats where
  link : Text
  ipackets : ℕ
  rbytes : ℕ
  ierrors : ℕ
  opackets : ℕ
  obytes : ℕ
  oerrors : ℕ
  isName_link : IsName link

def LinkStats.render (s : LinkStats) : Text :=
  renderFields [s.link, Nat.toDigits 10 s.ipackets, Nat.toDigits 10 s.rbytes,
    Nat.toDigits 10 s.ierrors, Nat.toDigits 10 s.opackets, Nat.toDigits 10 s.obytes,
    Nat.toDigits 10 s.oerrors]

end Format

/-! ## The readers -/

section Readers

structure InterfaceRow where
  host : Text
  link : Text
  linkClass : Text
  overLink : Text
  speed : Option Extended
  macaddress : Text
  macaddrtype : Option Text
  vid : Option Extended
  zone : Option Text
  scanTimestamp : ℕ
  deriving DecidableEq

structure StatsRow where
  host : Text
  link : Text
  ipackets : Text
  rbytes : Text
  ierrors : Text
  opackets : Text
  obytes : Text
  oerrors : Text
  scanTimestamp : ℕ
  deriving DecidableEq

def vnicWord : Text := ['v', 'n', 'i', 'c']

def fixedWord : Text := ['f', 'i', 'x', 'e', 'd']

def randomWord : Text := ['r', 'a', 'n', 'd', 'o', 'm']

def macStart : ℕ := 3

def isKnownType (part : Text) : Bool := part = fixedWord || part = randomWord

/-- The place of the first `fixed` or `random` from the MAC on. -/
def macEnd (parts : List Text) : ℕ :=
  let i := macStart + (parts.drop macStart).findIdx isKnownType
  if i < parts.length then i else macStart

/-- `parseInt(text) || null` -/
def parseNonzero (text : Text) : Option Extended := (parseInt text).filter (· ≠ finite 0)

variable (hostname : Text) (now : ℕ)

def interfaceRow (parts : List Text) : InterfaceRow :=
  let macEnd := macEnd parts
  let macAddress := [':'].intercalate ((parts.drop macStart).take (macEnd - macStart))
  { host := hostname
    link := parts.getD 0 []
    linkClass := vnicWord
    overLink := parts.getD 1 []
    speed := parseNonzero (parts.getD 2 [])
    macaddress := macAddress.filter (· ≠ '\\')
    macaddrtype := parts[macEnd]?
    vid := parts[macEnd + 1]?.bind parseNonzero
    zone := parts[macEnd + 2]?.filter (· ≠ noZone)
    scanTimestamp := now }

/-- What one trimmed line adds to the interfaces. -/
def readVnic (trimmed : Text) : List InterfaceRow :=
  let parts := trimmed.splitOn ':'
  if trimmed ≠ [] ∧ 7 ≤ parts.length then [interfaceRow hostname now parts] else []

def parseVnicParseable (output : Text) : List InterfaceRow :=
  readLines isTrimmed '\n' (readVnic hostname now) (trim isTrimmed output)

def headerKeywords : List Text :=
  [['L', 'I', 'N', 'K'], ['I', 'P', 'A', 'C', 'K', 'E', 'T', 'S'], ['R', 'B', 'Y', 'T', 'E', 'S'],
    ['I', 'E', 'R', 'R', 'O', 'R', 'S'], ['O', 'P', 'A', 'C', 'K', 'E', 'T', 'S'],
    ['O', 'B', 'Y', 'T', 'E', 'S'], ['O', 'E', 'R', 'R', 'O', 'R', 'S']]

def upper (text : Text) : Text := text.map Char.toUpper

def isHeaderLine (line : Text) : Bool := headerKeywords.any (· <:+: upper line)

/-- `/^\d+$/.test(field)` -/
def isValidNumericField (field : Text) : Bool := field ≠ [] && field.all Char.isDigit

def isHeaderKeyword (text : Text) : Bool := upper text ∈ headerKeywords

/-- What one trimmed line adds to the statistics. -/
def readStats (trimmed : Text) : List StatsRow :=
  if trimmed = [] ∨ isHeaderLine trimmed then []
  else
    match trimmed.splitOn ':' with
    | link :: ipackets :: rbytes :: ierrors :: opackets :: obytes :: oerrors :: _ =>
      if !isValidNumericField ipackets || !isValidNumericField rbytes ||
          !isValidNumericField ierrors || !isValidNumericField opackets ||
          !isValidNumericField obytes || !isValidNumericField oerrors then []
      else if isHeaderKeyword link then []
      else [⟨hostname, link, ipackets, rbytes, ierrors, opackets, obytes, oerrors, now⟩]
    | _ => []

def parseStatsOutput (output : Text) : List StatsRow :=
  readLines isTrimmed '\n' (readStats hostname now) (trim isTrimmed output)

/-- The record of a VNIC; no VLAN and no speed are printed as 0 and kept as nothing. -/
def Vnic.row (v : Vnic) : InterfaceRow where
  host := hostname
  link := v.link
  linkClass := vnicWord
  overLink := v.overLink
  speed := if v.speed = 0 then none else some (finite v.speed)
  macaddress := v.mac
  macaddrtype := some v.addressType
  vid := if v.vid = 0 then none else some (finite v.vid)
  zone := v.zone
  scanTimestamp := now

def LinkStats.row (s : LinkStats) : StatsRow where
  host := hostname
  link := s.link
  ipackets := Nat.toDigits 10 s.ipackets
  rbytes := Nat.toDigits 10 s.rbytes
  ierrors := Nat.toDigits 10 s.ierrors
  opackets := Nat.toDigits 10 s.opackets
  obytes := Nat.toDigits 10 s.obytes
  oerrors := Nat.toDigits 10 s.oerrors
  scanTimestamp := now

end Readers

/-! ## Rendered fields -/

section Fields
variable {field name : Text} {c : Char}

theorem escape_of_notMem (h : ∀ c ∈ field, c ≠ ':' ∧ c ≠ '\\') : escape field = field := by
  induction field with
  | nil => rfl
  | cons c field ih =>
    rw [List.forall_mem_cons] at h
    have hc : ¬(c = ':' ∨ c = '\\') := not_or.mpr h.1
    rw [escape, List.flatMap_cons, if_neg hc, ← escape, ih h.2, List.singleton_append]

theorem mem_escape (h : c ∈ escape field) : c = '\\' ∨ c ∈ field := by
  obtain ⟨d, hd, hc⟩ := List.mem_flatMap.mp h
  split_ifs at hc with hspecial
  · rcases List.mem_cons.mp hc with rfl | hc
    · exact Or.inl rfl
    · rw [List.mem_singleton.mp hc]
      exact Or.inr hd
  · rw [List.mem_singleton.mp hc]
    exact Or.inr hd

/-- Without the backslashes the escaped field is the field. -/
theorem filter_escape (h : '\\' ∉ field) : (escape field).filter (· ≠ '\\') = field := by
  induction field with
  | nil => rfl
  | cons c field ih =>
    rw [List.mem_cons, not_or] at h
    have hc : c ≠ '\\' := Ne.symm h.1
    rw [escape, List.flatMap_cons, List.filter_append, ← escape, ih h.2]
    split_ifs <;> simp [hc]

theorem isDigit_ne {n : ℕ} {d : Char} (hd : d.isDigit = false) : d ∉ Nat.toDigits 10 n := by
  intro hmem
  rw [Nat.isDigit_of_mem_toDigits (by decide) (by decide) hmem] at hd
  cases hd

theorem IsName.notMem (h : IsName name) {d : Char} (hd : isNameChar d = false) : d ∉ name := by
  intro hmem
  rw [List.all_eq_true.mp h.2 d hmem] at hd
  cases hd

theorem isTrimmed_of_isNameChar (h : isNameChar c = true) : isTrimmed c = false := by
  simp only [isNameChar, Bool.or_eq_true, decide_eq_true_eq] at h
  rcases h with ((h | rfl) | rfl) | rfl
  · exact isTrimmed_of_isAlphanum h
  · decide
  · decide
  · decide

theorem IsName.ne_nil (h : IsName name) : name ≠ [] := by
  rintro rfl
  exact absurd h.1 (by decide)

theorem IsName.visible (h : IsName name) : ∀ c ∈ name, isTrimmed c = false := fun c hc =>
  isTrimmed_of_isNameChar (List.all_eq_true.mp h.2 c hc)

/-- Nothing is trimmed off a line whose first and last field are visible. -/
theorem trim_between {front back : Text} (hfront : front ≠ [])
    (hvisible : ∀ c ∈ front, isTrimmed c = false) (hback : back ≠ [])
    (hvisible' : ∀ c ∈ back, isTrimmed c = false) (between : Text) :
    trim isTrimmed (front ++ (between ++ back)) = front ++ (between ++ back) := by
  apply trim_eq_self
  · intro c hc
    rw [List.head?_append_of_ne_nil _ hfront] at hc
    exact hvisible c (List.mem_of_mem_head? hc)
  · intro c hc
    rw [← List.append_assoc, List.getLast?_append_of_ne_nil _ hback] at hc
    exact hvisible' c (List.mem_of_mem_getLast? hc)

end Fields

/-! ## VNICs -/

section Vnics
variable (v : Vnic)

theorem Vnic.notMem_zoneText {d : Char} (hd : isNameChar d = false) : d ∉ v.zoneText := by
  have hzone := v.isName_zone
  unfold zoneText
  cases h : v.zone with
  | none =>
    intro hmem
    have hdash : d = '-' := by simpa [noZone] using hmem
    rw [hdash] at hd
    exact absurd hd (by decide)
  | some name => exact (hzone name h).notMem hd

theorem Vnic.addressType_notMem {d : Char} (hd : d ∈ [':', '\\', '\n']) : d ∉ v.addressType :=
  fun hmem => of_decide_eq_true (List.all_eq_true.mp v.addressType_plain d hmem) hd

theorem Vnic.mac_notMem {d : Char} (hd : isMacChar d = false) : d ∉ v.mac := by
  intro hmem
  rw [List.all_eq_true.mp v.isMac d hmem] at hd
  cases hd

theorem escape_name {name : Text} (h : IsName name) : escape name = name :=
  escape_of_notMem fun _ hc => ⟨ne_of_mem_of_not_mem hc (h.notMem (by decide)),
    ne_of_mem_of_not_mem hc (h.notMem (by decide))⟩

theorem escape_toDigits (n : ℕ) : escape (Nat.toDigits 10 n) = Nat.toDigits 10 n :=
  escape_of_notMem fun _ hc => ⟨ne_of_mem_of_not_mem hc (isDigit_ne (by decide)),
    ne_of_mem_of_not_mem hc (isDigit_ne (by decide))⟩

theorem Vnic.render_eq : v.render =
    v.link ++ ':' :: (v.overLink ++ ':' :: (Nat.toDigits 10 v.speed ++ ':' ::
      (escape v.mac ++ ':' ::
        (v.addressType ++ ':' :: (Nat.toDigits 10 v.vid ++ ':' :: v.zoneText))))) := by
  have htype : escape v.addressType = v.addressType := escape_of_notMem fun _ hc =>
    ⟨ne_of_mem_of_not_mem hc (v.addressType_notMem (by simp)),
      ne_of_mem_of_not_mem hc (v.addressType_notMem (by simp))⟩
  have hzone : escape v.zoneText = v.zoneText := escape_of_notMem fun _ hc =>
    ⟨ne_of_mem_of_not_mem hc (v.notMem_zoneText (by decide)),
      ne_of_mem_of_not_mem hc (v.notMem_zoneText (by decide))⟩
  simp only [render, renderFields, List.map_cons, List.map_nil, escape_name v.isName_link,
    escape_name v.isName_overLink, escape_toDigits, htype, hzone,
    List.intercalate_cons_cons, List.intercalate_singleton, List.append_assoc,
    List.singleton_append]

theorem Vnic.splitOn_render : v.render.splitOn ':' =
    v.link :: v.overLink :: Nat.toDigits 10 v.speed ::
      ((escape v.mac).splitOn ':' ++ [v.addressType, Nat.toDigits 10 v.vid, v.zoneText]) := by
  rw [render_eq, List.splitOn_append_cons_self_of_not_mem (v.isName_link.notMem (by decide)),
    List.splitOn_append_cons_self_of_not_mem (v.isName_overLink.notMem (by decide)),
    List.splitOn_append_cons_self_of_not_mem (isDigit_ne (by decide)),
    List.splitOn_append_cons_self,
    List.splitOn_append_cons_self_of_not_mem (v.addressType_notMem (by simp)),
    List.splitOn_append_cons_self_of_not_mem (isDigit_ne (by decide)),
    List.splitOn_eq_singleton (v.notMem_zoneText (by decide))]

/-- No piece of an escaped MAC is an address type that the reader knows. -/
theorem Vnic.macPiece_ne {piece : Text} (h : piece ∈ (escape v.mac).splitOn ':') :
    isKnownType piece = false := by
  have hmem (d : Char) (hd : isMacChar d = false) (hback : d ≠ '\\') : d ∉ piece := by
    intro hpiece
    rcases mem_escape (mem_of_mem_splitOn h hpiece) with hd' | hd'
    · exact hback hd'
    · exact v.mac_notMem hd hd'
  rw [isKnownType, Bool.or_eq_false_iff, decide_eq_false_iff_not, decide_eq_false_iff_not]
  constructor
  · rintro rfl
    exact hmem 'x' (by decide) (by decide) (by decide)
  · rintro rfl
    exact hmem 'r' (by decide) (by decide) (by decide)

theorem Vnic.trim_render : trim isTrimmed v.render = v.render := by
  have hsplit : v.render = v.link ++
      (':' :: (v.overLink ++ ':' :: (Nat.toDigits 10 v.speed ++ ':' :: (escape v.mac ++ ':' ::
        (v.addressType ++ ':' :: (Nat.toDigits 10 v.vid ++ [':']))))) ++
      v.zoneText) := by
    rw [render_eq]
    simp only [List.append_assoc, List.cons_append, List.nil_append]
  have hzone : v.zoneText ≠ [] ∧ ∀ c ∈ v.zoneText, isTrimmed c = false := by
    have hname := v.isName_zone
    unfold zoneText
    cases h : v.zone with
    | none => exact ⟨by decide, by simp [noZone, isTrimmed]⟩
    | some name => exact ⟨(hname name h).ne_nil, (hname name h).visible⟩
  rw [hsplit]
  exact trim_between v.isName_link.ne_nil v.isName_link.visible hzone.1 hzone.2 _

theorem Vnic.notMem_render : '\n' ∉ v.render := by
  have hmac : '\n' ∉ escape v.mac := fun h => by
    rcases mem_escape h with h | h
    · exact absurd h (by decide)
    · exact v.mac_notMem (by decide) h
  simp only [render_eq, List.mem_append, List.mem_cons, not_or]
  exact ⟨v.isName_link.notMem (by decide), by decide, v.isName_overLink.notMem (by decide),
    by decide, isDigit_ne (by decide), by decide, hmac, by decide,
    v.addressType_notMem (by simp), by decide, isDigit_ne (by decide), by decide,
    v.notMem_zoneText (by decide)⟩

theorem parseNonzero_toDigits {n : ℕ} (h : n < 2 ^ 53) :
    parseNonzero (Nat.toDigits 10 n) = if n = 0 then none else some (finite n) := by
  rw [parseNonzero, parseInt_toDigits h]
  rcases Nat.eq_zero_or_pos n with rfl | hpos
  · simp
  · have hne : finite n ≠ finite 0 := by
      intro heq
      have hzero : (n : ℚ) = 0 := finite_injective heq
      exact hpos.ne' (by exact_mod_cast hzero)
    simp [hpos.ne', Option.filter, hne]

variable (hostname : Text) (now : ℕ)

def Vnic.parts : List Text := v.render.splitOn ':'

theorem readVnic_render : readVnic hostname now v.render = [interfaceRow hostname now v.parts] := by
  have hlength : 7 ≤ v.parts.length := by
    have hne := List.length_pos_of_ne_nil (List.splitOn_ne_nil ':' (escape v.mac))
    rw [Vnic.parts, v.splitOn_render]
    simp only [List.length_cons, List.length_append, List.length_nil]
    omega
  have hrender : v.render ≠ [] := by
    rw [v.render_eq]
    exact List.append_ne_nil_of_left_ne_nil v.isName_link.ne_nil _
  exact if_pos ⟨hrender, hlength⟩

theorem interfaceRow_of_known (h : isKnownType v.addressType = true) :
    interfaceRow hostname now v.parts = v.row hostname now := by
  have hpieces : ∀ piece ∈ (escape v.mac).splitOn ':', isKnownType piece = false :=
    fun _ => v.macPiece_ne
  have hmac : [':'].intercalate ((escape v.mac).splitOn ':') = escape v.mac :=
    List.intercalate_splitOn ':'
  have hparts := v.splitOn_render
  rw [← Vnic.parts] at hparts
  generalize (escape v.mac).splitOn ':' = pieces at hpieces hmac hparts
  have hdrop : v.parts.drop macStart =
      pieces ++ [v.addressType, Nat.toDigits 10 v.vid, v.zoneText] := by
    rw [hparts]
    rfl
  have hend : macEnd v.parts = macStart + pieces.length := by
    have hfind : (v.parts.drop macStart).findIdx isKnownType = pieces.length := by
      rw [hdrop, List.findIdx_append, List.findIdx_eq_length_of_false hpieces]
      simp [List.findIdx_cons, h]
    rw [macEnd, hfind, if_pos]
    rw [hparts]
    simp only [macStart, List.length_cons, List.length_append]
    omega
  have hat (k : ℕ) : v.parts[macStart + pieces.length + k]? =
      [v.addressType, Nat.toDigits 10 v.vid, v.zoneText][k]? := by
    rw [Nat.add_assoc, ← List.getElem?_drop, hdrop, List.getElem?_append_right (by omega),
      Nat.add_sub_cancel_left]
  have htype : v.parts[macStart + pieces.length]? = some v.addressType := hat 0
  have hzone : Option.filter (· ≠ noZone) (some v.zoneText) = v.zone := by
    have hname := v.isName_zone
    unfold Vnic.zoneText
    cases hz : v.zone with
    | none => simp [Option.filter]
    | some name =>
      have hne : name ≠ noZone := by
        rintro rfl
        exact absurd (hname _ hz) (by decide)
      simp [Option.filter, hne]
  have hvid : v.vid < 2 ^ 53 := lt_trans v.vid_lt (by norm_num)
  have hslice : (v.parts.drop macStart).take (macStart + pieces.length - macStart) = pieces := by
    rw [hdrop, Nat.add_sub_cancel_left, List.take_left]
  rw [interfaceRow, hend, hslice, hmac, filter_escape (v.mac_notMem (by decide)), htype,
    hat 1, hat 2, Vnic.row, ← parseNonzero_toDigits v.speed_lt, ← parseNonzero_toDigits hvid,
    ← hzone, hparts]
  rfl

theorem interfaceRow_of_not_known (h : isKnownType v.addressType = false) :
    interfaceRow hostname now v.parts ≠ v.row hostname now := by
  intro heq
  have htype : v.parts[macEnd v.parts]? = some v.addressType :=
    congrArg InterfaceRow.macaddrtype heq
  have hmac : ([':'].intercalate ((v.parts.drop macStart).take (macEnd v.parts - macStart))).filter
      (· ≠ '\\') = v.mac := congrArg InterfaceRow.macaddress heq
  by_cases hfound : macStart + (v.parts.drop macStart).findIdx isKnownType < v.parts.length
  · rw [macEnd, if_pos hfound, ← List.getElem?_drop] at htype
    have hknown := List.findIdx_of_getElem?_eq_some htype
    rw [h] at hknown
    cases hknown
  · rw [macEnd, if_neg hfound, Nat.sub_self] at hmac
    exact v.mac_ne hmac.symm

/-- Each VNIC gives one record. -/
theorem parseVnicParseable_written (vnics : List Vnic) :
    parseVnicParseable hostname now (written '\n' Vnic.render vnics) =
      vnics.map fun v => interfaceRow hostname now v.parts := by
  have hlines : ∀ v ∈ vnics, '\n' ∉ v.render := fun v _ => v.notMem_render
  rw [parseVnicParseable, readLines_trim rfl, readLines_written rfl hlines]
  simp only [Vnic.trim_render, readVnic_render]
  exact List.flatMap_pure_eq_map _ vnics

end Vnics

/-! ## Statistics -/

section Statistics
variable (s : LinkStats) (hostname : Text) (now : ℕ)

/-- The name has one of the header words in it, in either case. -/
def MentionsHeader (link : Text) : Prop := ∃ word ∈ headerKeywords, word <:+: upper link

instance : DecidablePred MentionsHeader := fun link =>
  inferInstanceAs (Decidable (∃ word ∈ headerKeywords, word <:+: upper link))

def LinkStats.counters : List ℕ :=
  [s.ipackets, s.rbytes, s.ierrors, s.opackets, s.obytes, s.oerrors]

theorem LinkStats.render_eq : s.render =
    s.link ++ ':' :: [':'].intercalate (s.counters.map (Nat.toDigits 10)) := by
  simp only [render, renderFields, List.map_cons, List.map_nil, escape_name s.isName_link,
    escape_toDigits, counters, List.intercalate_cons_cons, List.intercalate_singleton,
    List.append_assoc, List.singleton_append]

theorem LinkStats.splitOn_render : s.render.splitOn ':' =
    s.link :: s.counters.map (Nat.toDigits 10) := by
  rw [render_eq, List.splitOn_append_cons_self_of_not_mem (s.isName_link.notMem (by decide)),
    List.splitOn_intercalate]
  · intro digits hdigits
    obtain ⟨n, -, rfl⟩ := List.mem_map.mp hdigits
    exact isDigit_ne (by decide)
  · simp [counters]

theorem map_toUpper_toDigits (n : ℕ) :
    (Nat.toDigits 10 n).map Char.toUpper = Nat.toDigits 10 n := by
  have hkeep : ∀ c ∈ Nat.toDigits 10 n, c.toUpper = c := by
    intro c hc
    have hdigit := isDigit_of_toDigits c hc
    simp only [Char.isDigit, Bool.and_eq_true, decide_eq_true_eq, ge_iff_le,
      UInt32.le_iff_toNat_le] at hdigit
    refine dif_neg fun h => ?_
    rw [UInt32.le_iff_toNat_le] at h
    exact absurd (h.1.trans hdigit.2) (by decide)
  exact (List.map_congr_left hkeep).trans (List.map_id _)

/-- A text of digits has no header word. -/
theorem not_infix_toDigits {word : Text} (hword : word ∈ headerKeywords) (n : ℕ) :
    ¬word <:+: Nat.toDigits 10 n := by
  intro hwithin
  have hletters : ∀ word ∈ headerKeywords, word.any (fun c => !c.isDigit) = true := by decide
  obtain ⟨c, hc, hletter⟩ := List.any_eq_true.mp (hletters word hword)
  exact isDigit_ne (by simpa using hletter) (hwithin.subset hc)

/-- The header words are looked for in the whole line, and can only stand in the name. -/
theorem LinkStats.isHeaderLine_render : isHeaderLine s.render = true ↔ MentionsHeader s.link := by
  have hupper : upper s.render =
      upper s.link ++ ':' :: [':'].intercalate (s.counters.map (Nat.toDigits 10)) := by
    rw [s.render_eq, upper, List.map_append, List.map_cons, ← upper]
    congr 2
    simp only [counters, List.map_cons, List.map_nil, List.intercalate_cons_cons,
      List.intercalate_singleton, List.map_append, map_toUpper_toDigits]
    rfl
  have hcolon : ∀ word ∈ headerKeywords, ':' ∉ word ∧ word ≠ [] := by decide
  simp only [isHeaderLine, List.any_eq_true, decide_eq_true_eq, MentionsHeader, hupper]
  refine exists_congr fun word => and_congr_right fun hword => ⟨fun h => ?_, fun h => ?_⟩
  · by_contra hlink
    refine not_infix_append (hcolon word hword).2 (hcolon word hword).1 hlink ?_ h
    apply not_infix_intercalate (hcolon word hword).2 (hcolon word hword).1
    intro digits hdigits
    obtain ⟨n, -, rfl⟩ := List.mem_map.mp hdigits
    exact not_infix_toDigits hword n
  · exact h.trans (List.prefix_append _ _).isInfix

theorem readStats_render : readStats hostname now s.render =
    if MentionsHeader s.link then [] else [s.row hostname now] := by
  have hne : s.render ≠ [] := by
    rw [s.render_eq]
    exact List.append_ne_nil_of_left_ne_nil s.isName_link.ne_nil _
  have hvalid (n : ℕ) : isValidNumericField (Nat.toDigits 10 n) = true := by
    have hdigits := List.all_eq_true.mpr (isDigit_of_toDigits (n := n))
    simp [isValidNumericField, Nat.toDigits_ne_nil, hdigits]
  by_cases h : MentionsHeader s.link
  · rw [readStats, if_pos (Or.inr (s.isHeaderLine_render.mpr h)), if_pos h]
  · have hkeyword : isHeaderKeyword s.link = false := by
      rw [isHeaderKeyword, decide_eq_false_iff_not]
      exact fun hmem => h ⟨_, hmem, List.infix_rfl⟩
    have hheader : ¬isHeaderLine s.render = true := fun hline => h (s.isHeaderLine_render.mp hline)
    rw [readStats, if_neg (not_or.mpr ⟨hne, hheader⟩), s.splitOn_render, if_neg h]
    simp only [LinkStats.counters, List.map_cons, List.map_nil, hvalid, hkeyword, Bool.not_true,
      Bool.or_false, Bool.false_eq_true, if_false]
    rfl

theorem LinkStats.trim_render : trim isTrimmed s.render = s.render := by
  have hsplit : s.render = s.link ++ (':' :: ([':'].intercalate
      (s.counters.dropLast.map (Nat.toDigits 10)) ++ [':']) ++ Nat.toDigits 10 s.oerrors) := by
    rw [s.render_eq]
    simp only [counters, List.dropLast_cons_cons, List.dropLast_singleton, List.map_cons,
      List.map_nil, List.intercalate_cons_cons, List.intercalate_singleton, List.append_assoc,
      List.cons_append, List.nil_append]
  rw [hsplit]
  exact trim_between s.isName_link.ne_nil s.isName_link.visible Nat.toDigits_ne_nil
    (fun c hc => isTrimmed_of_isDigit (isDigit_of_toDigits c hc)) _

theorem LinkStats.notMem_render : '\n' ∉ s.render := by
  simp only [render_eq, counters, List.map_cons, List.map_nil, List.intercalate_cons_cons,
    List.intercalate_singleton, List.mem_append, List.mem_cons, List.not_mem_nil, or_false, not_or]
  exact ⟨s.isName_link.notMem (by decide), by decide, ⟨isDigit_ne (by decide), by decide⟩,
    ⟨isDigit_ne (by decide), by decide⟩, ⟨isDigit_ne (by decide), by decide⟩,
    ⟨isDigit_ne (by decide), by decide⟩, ⟨isDigit_ne (by decide), by decide⟩,
    isDigit_ne (by decide)⟩

/-- The lines with a header word in the name are lost, and the others give one record each. -/
theorem parseStatsOutput_written (links : List LinkStats) :
    parseStatsOutput hostname now (written '\n' LinkStats.render links) =
      (links.filter fun s => ¬MentionsHeader s.link).map fun s => s.row hostname now := by
  have hlines : ∀ s ∈ links, '\n' ∉ s.render := fun s _ => s.notMem_render
  rw [parseStatsOutput, readLines_trim rfl, readLines_written rfl hlines]
  simp only [LinkStats.trim_render, readStats_render]
  induction links with
  | nil => rfl
  | cons s links ih =>
    rw [List.flatMap_cons, ih fun s hs => hlines s (List.mem_cons_of_mem _ hs), List.filter_cons]
    by_cases h : MentionsHeader s.link <;> simp [h]

end Statistics

/-- The records of the VNICs are those of the host where every address type is one of the two that
the reader knows, and those of the statistics where no name has a header word in it. -/
theorem readers_invert_iff (hostname : Text) (now : ℕ) :
    (∀ vnics : List Vnic,
      parseVnicParseable hostname now (written '\n' Vnic.render vnics) =
          (vnics.map fun v => v.row hostname now) ↔
        ∀ v ∈ vnics, v.addressType = fixedWord ∨ v.addressType = randomWord) ∧
    (∀ links : List LinkStats,
      parseStatsOutput hostname now (written '\n' LinkStats.render links) =
          (links.map fun s => s.row hostname now) ↔
        ∀ s ∈ links, ¬MentionsHeader s.link) := by
  constructor
  · intro vnics
    rw [parseVnicParseable_written, List.map_inj_left]
    refine forall₂_congr fun v _ => ?_
    have hknown : (v.addressType = fixedWord ∨ v.addressType = randomWord) ↔
        isKnownType v.addressType = true := by
      rw [isKnownType, Bool.or_eq_true, decide_eq_true_eq, decide_eq_true_eq]
    rw [hknown]
    refine ⟨fun hrow => ?_, interfaceRow_of_known v hostname now⟩
    by_contra hunknown
    exact interfaceRow_of_not_known v hostname now (Bool.not_eq_true _ ▸ hunknown) hrow
  · intro links
    rw [parseStatsOutput_written]
    constructor
    · intro h
      have hlength := congrArg List.length h
      rw [List.length_map, List.length_map, List.length_filter_eq_length_iff] at hlength
      exact fun s hs => of_decide_eq_true (hlength s hs)
    · intro h
      rw [List.filter_eq_self.mpr fun s hs => decide_eq_true (h s hs)]

def factoryVnic : Vnic where
  link := ['v', 'n', 'i', 'c', '0']
  overLink := ['i', 'g', 'b', '0']
  speed := 1000
  mac := ['2', ':', '8', ':', '2', '0', ':', 'a', ':', 'b', ':', 'c']
  addressType := ['f', 'a', 'c', 't', 'o', 'r', 'y']
  vid := 0
  zone := none
  isName_link := by decide
  isName_overLink := by decide
  speed_lt := by norm_num
  mac_ne := by decide
  isMac := by decide
  addressType_plain := by decide
  vid_lt := by norm_num
  isName_zone := by simp

def uplinkStats : LinkStats where
  link := ['u', 'p', 'l', 'i', 'n', 'k', '0']
  ipackets := 1
  rbytes := 2
  ierrors := 0
  opackets := 3
  obytes := 4
  oerrors := 0
  isName_link := by decide

/-- The record of a VNIC with a factory address has its first octet for the type, and the
statistics of `uplink0` are lost. -/
theorem not_readers_invert :
    ¬((∀ vnics : List Vnic, parseVnicParseable [] 0 (written '\n' Vnic.render vnics) =
        vnics.map fun v => v.row [] 0) ∧
      ∀ links : List LinkStats, parseStatsOutput [] 0 (written '\n' LinkStats.render links) =
        links.map fun s => s.row [] 0) ∧
    (parseVnicParseable [] 0 (written '\n' Vnic.render [factoryVnic])).map
          InterfaceRow.macaddrtype =
        [some ['2', '\\']] ∧
      parseStatsOutput [] 0 (written '\n' LinkStats.render [uplinkStats]) = [] := by
  refine ⟨fun h => ?_, by decide +kernel, by decide +kernel⟩
  have hvnic := congrArg (List.map InterfaceRow.macaddrtype) (h.1 [factoryVnic])
  exact absurd hvnic (by decide +kernel)

end ZoneweaverAgent.DladmOutput
