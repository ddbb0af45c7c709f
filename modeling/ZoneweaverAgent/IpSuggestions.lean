import Mathlib.Data.Rat.Floor
import ZoneweaverAgent.Comparators
import ZoneweaverAgent.DecimalNumerals
import ZoneweaverAgent.DiskSpec
import ZoneweaverAgent.PathScan
import ZoneweaverAgent.ZoneDocument

/-!
# Free addresses of the default route's subnet

The subnet is that of the default route's interface; an address is taken if a neighbour, a machine
document, the gateway or the host itself has it. Whether a text lies in the subnet is decided on the
number it is read as, whether an address is taken on texts.

The parser of serialized configurations, `String(value)` of a value that is no text and `Number` of
a text that is no run of digits are parameters.
-/

namespace ZoneweaverAgent.IpSuggestions

open PathScan ZoneDocument Comparators DecimalNumerals
open DiskSpec (textOf)

section Pattern

/-- `\d{1,3}`, where no further digit follows. -/
def octet? (text : Text) : Option (Text × Text) :=
  (run Char.isDigit text).filter fun found => found.1.length ≤ 3

/-- `(?:\d{1,3}\.){n}\d{1,3}`, where no further digit follows. -/
def octets? : ℕ → Text → Option (List Text × Text)
  | 0, text => (octet? text).map fun found => ([found.1], found.2)
  | n + 1, text => do
    let (octet, rest) ← octet? text
    let rest ← behind ['.'] rest
    let (octets, rest) ← octets? n rest
    return (octet :: octets, rest)

def join (octets : List Text) : Text := ['.'].intercalate octets

def ipv4Here (text : Text) : Option Text :=
  ((octets? 3 text).filter fun found => !found.2.head?.any isWord).map fun found => join found.1

/-- The leftmost match of `IPV4_PATTERN`; `afterWord` tells whether a word character precedes. -/
def ipv4From (afterWord : Bool) : Text → Option Text
  | [] => none
  | c :: rest => (if afterWord then none else ipv4Here (c :: rest)).or (ipv4From (isWord c) rest)

def ipv4Match (text : Text) : Option Text := ipv4From false text

end Pattern

section Numbers
variable (number : Text → ℕ)

/-- `Number(octet) & 255` -/
def lowByte (octet : Text) : ℕ :=
  (if octet ≠ [] ∧ octet.all Char.isDigit then double (digitsValue octet) else number octet) % 256

def ipToInt (ip : Text) : BitVec 32 :=
  .ofNat 32 ((ip.splitOn '.').foldl (fun acc octet => double (acc * 256 + lowByte number octet)) 0)

def intToIp (value : BitVec 32) : Text :=
  join ([value >>> 24 &&& 255, value >>> 16 &&& 255, value >>> 8 &&& 255, value &&& 255].map
    fun octet => Nat.toDigits 10 octet.toNat)

/-- The count of a shift is taken modulo 32. -/
def prefixToMask (bits : ℕ) : BitVec 32 :=
  if bits = 0 then 0 else 0xffffffff <<< ((32 - bits : ℤ) % 32).toNat

end Numbers

/-- The output of a command, if it succeeds, and the rows of the `zones` table, if they can be
read. -/
structure Answers where
  route : Option Text
  addresses : Option Text
  arp : Option Text
  zones : Option (List ZoneRow)

section Reads
variable (parse : String → Option Json) (toText : Json → String) (answers : Answers)

/-- The token behind the leftmost `literal` that one follows. -/
def tokenBehind (literal : String) (text : Text) : Option Text :=
  search (fun text => do
    let rest ← behind literal.toList text
    let (token, _) ← run (fun c => !isTrimmed c) (rest.dropWhile isTrimmed)
    return token) text

def gatewayToken : Option Text := answers.route.bind (tokenBehind "gateway:")

structure DefaultRoute where
  iface : Option Text
  gateway : Option Text

def readDefaultRoute : DefaultRoute where
  iface := answers.route.bind (tokenBehind "interface:")
  gateway := (gatewayToken answers).filter fun token => (ipv4Match token).isSome

/-- `^(?<ip>(?:\d{1,3}\.){3}\d{1,3})\/(?<prefix>\d{1,2})$` -/
def cidr? (addr : Text) : Option (Text × Text) :=
  match octets? 3 addr with
  | some (octets, '/' :: bits) =>
    if bits ≠ [] ∧ bits.length ≤ 2 ∧ bits.all Char.isDigit then some (join octets, bits) else none
  | _ => none

structure HostAddresses where
  cidr : Option (Text × Text)
  hostAddresses : List Text

/-- A line of the listing, which is `addrobj:addr`. -/
def readHostAddress (iface : Text) (found : HostAddresses) (line : Text) : HostAddresses :=
  match line.splitOn ':' with
  | addrobj :: addr :: _ =>
    match cidr? addr with
    | some (ip, bits) =>
      { cidr := found.cidr.or
          (if (iface ++ ['/']).isPrefixOf addrobj then some (ip, bits) else none)
        hostAddresses := found.hostAddresses ++ [ip] }
    | none => found
  | _ => found

def readHostAddresses (iface : Text) : HostAddresses :=
  match answers.addresses with
  | none => ⟨none, []⟩
  | some output => (output.splitOn '\n').foldl (readHostAddress iface) ⟨none, []⟩

def readArpNeighbors : List Text :=
  match answers.arp with
  | none => []
  | some output => (output.splitOn '\n').filterMap ipv4Match

/-- The texts under `networks[].address` of a machine document; nothing where reading one throws. -/
def documentAddresses (zone : ZoneRow) : Option (List Text) :=
  match parseConfiguration parse zone with
  | .null => none
  | document =>
    let nets := ((document.field "networks").bind Json.items?).getD []
    (nets.filterMap fun net => (net.field "address").filter Json.truthy).mapM fun address =>
      if address.hasText then some (textOf toText address).toList else none

def pinnedTexts : Option (List Text) := do
  let zones ← answers.zones
  let addresses ← zones.mapM (documentAddresses parse toText)
  return addresses.flatten

def readDocumentAddressPins : Option (List Text) :=
  (pinnedTexts parse toText answers).map fun texts =>
    texts.filter fun text => (ipv4Match text).isSome

end Reads

/-- The candidates from `candidate` on, at most `fuel` of them. -/
def suggest (count : ℚ) (used : List Text) (broadcast : BitVec 32) :
    ℕ → ℕ → List Text → List Text
  | 0, _, suggestions => suggestions
  | fuel + 1, candidate, suggestions =>
    if broadcast.toNat ≤ candidate then suggestions
    else
      let ip := intToIp (.ofNat 32 candidate)
      if ip ∈ used then suggest count used broadcast fuel (candidate + 1) suggestions
      else if count ≤ (suggestions ++ [ip]).length then suggestions ++ [ip]
      else suggest count used broadcast fuel (candidate + 1) (suggestions ++ [ip])

structure Suggestions where
  interface : Text
  subnet : Text
  gateway : Option Text
  used : List Text
  suggestions : List Text
  totalUsed : ℕ
  deriving DecidableEq

inductive Refusal
  | noDefaultRoute
  | noAddress (iface : Text)
  | failed
  deriving DecidableEq

def Refusal.error : Refusal → String
  | noDefaultRoute => "No default route found on this host"
  | noAddress iface =>
    "Default-route interface " ++ String.ofList iface ++ " carries no IPv4 address"
  | failed => "Failed to build IP suggestions"

/-- `Math.min(Math.max(Number(req.query.count) || 10, 1), 256)`, where `requested` is the number
asked for, nothing if it is `NaN`, and an infinite one is given as the bound it exceeds. -/
def clampCount (requested : Option ℚ) : ℚ :=
  min (max ((requested.filter (· ≠ 0)).getD 10) 1) 256

section Handler
variable (parse : String → Option Json) (toText : Json → String) (number : Text → ℕ)

def networkOf (ip bits : Text) : BitVec 32 :=
  ipToInt number ip &&& prefixToMask (digitsValue bits)

def broadcastOf (ip bits : Text) : BitVec 32 :=
  networkOf number ip bits ||| ~~~prefixToMask (digitsValue bits)

def inSubnet (ip bits text : Text) : Bool :=
  ipToInt number text &&& prefixToMask (digitsValue bits) = networkOf number ip bits

/-- The entries of the `used` set, in the order they are added. -/
def usedOf (ip bits : Text) (texts : List Text) : List Text :=
  (texts.filter (inSubnet number ip bits)).eraseDups

def getIpSuggestions (answers : Answers) (requested : Option ℚ) : Except Refusal Suggestions :=
  let { iface, gateway } := readDefaultRoute answers
  match iface with
  | none => .error .noDefaultRoute
  | some iface =>
    let { cidr, hostAddresses } := readHostAddresses answers iface
    match cidr with
    | none => .error (.noAddress iface)
    | some (ip, bits) =>
      match readDocumentAddressPins parse toText answers with
      | none => .error .failed
      | some pins =>
        let network := networkOf number ip bits
        let broadcast := broadcastOf number ip bits
        let used := usedOf number ip bits
          (readArpNeighbors answers ++ pins ++ gateway.toList ++ hostAddresses)
        .ok
          { interface := iface
            subnet := intToIp network ++ '/' :: Nat.toDigits 10 (digitsValue bits)
            gateway
            used := sortBy (fun a b => ((ipToInt number a).toNat : ℤ) - (ipToInt number b).toNat)
              used
            suggestions := suggest (clampCount requested) used broadcast
              (broadcast.toNat - network.toNat) (network.toNat + 1) []
            totalUsed := used.length }

end Handler

section Arithmetic

theorem prefixToMask_of_le {bits : ℕ} (h : bits ≤ 32) :
    prefixToMask bits = BitVec.allOnes 32 <<< (32 - bits) := by
  rcases Nat.eq_zero_or_pos bits with rfl | hpos
  · rfl
  · have hcount : ((32 - bits : ℤ) % 32).toNat = 32 - bits := by omega
    rw [prefixToMask, if_neg hpos.ne', hcount]
    rfl

theorem and_shiftLeft_allOnes (x : BitVec 32) (k : ℕ) :
    (x &&& BitVec.allOnes 32 <<< k).toNat = x.toNat / 2 ^ k * 2 ^ k := by
  have hshift : x &&& BitVec.allOnes 32 <<< k = x >>> k <<< k := by
    ext i hi
    by_cases hk : i < k
    · simp [hk]
    · have hback : k + (i - k) = i := by omega
      simp only [BitVec.getElem_and, BitVec.getElem_shiftLeft, BitVec.getElem_ushiftRight,
        BitVec.getElem_allOnes, hk, decide_false, Bool.not_false, Bool.true_and, Bool.and_true,
        hback, BitVec.getLsbD_eq_getElem hi]
  have hle : x.toNat / 2 ^ k * 2 ^ k ≤ x.toNat := Nat.div_mul_le_self _ _
  rw [hshift, BitVec.toNat_shiftLeft, BitVec.toNat_ushiftRight, Nat.shiftRight_eq_div_pow,
    Nat.shiftLeft_eq, Nat.mod_eq_of_lt (lt_of_le_of_lt hle x.isLt)]

theorem or_not_shiftLeft_allOnes (x : BitVec 32) {k : ℕ} (hk : k ≤ 32) :
    ((x &&& BitVec.allOnes 32 <<< k) ||| ~~~(BitVec.allOnes 32 <<< k)).toNat =
      x.toNat / 2 ^ k * 2 ^ k + (2 ^ k - 1) := by
  have hnot : (~~~(BitVec.allOnes 32 <<< k)).toNat = 2 ^ k - 1 := by
    apply Nat.eq_of_testBit_eq
    intro i
    rw [BitVec.testBit_toNat, Nat.testBit_two_pow_sub_one, BitVec.getLsbD_not,
      BitVec.getLsbD_shiftLeft, BitVec.getLsbD_allOnes]
    by_cases hi : i < k
    · simp [hi]
      omega
    · have : i - k < 32 ∨ ¬i < 32 := by omega
      rcases this with h | h <;> simp [hi, h]
  rw [BitVec.toNat_or, and_shiftLeft_allOnes, hnot, Nat.mul_comm,
    Nat.two_pow_add_eq_or_of_lt (Nat.sub_lt (Nat.two_pow_pos k) Nat.one_pos)]

/-- The four bytes of an address, the first one first. -/
def bytes (value : BitVec 32) : List ℕ :=
  [value.toNat / 2 ^ 24 % 256, value.toNat / 2 ^ 16 % 256, value.toNat / 2 ^ 8 % 256,
    value.toNat % 256]

theorem intToIp_eq (value : BitVec 32) :
    intToIp value = join ((bytes value).map (Nat.toDigits 10)) := by
  have hbyte (x : BitVec 32) : (x &&& 255).toNat = x.toNat % 256 := by
    rw [BitVec.toNat_and]
    exact Nat.and_two_pow_sub_one_eq_mod x.toNat 8
  simp only [intToIp, bytes, List.map_cons, List.map_nil, hbyte, BitVec.toNat_ushiftRight,
    Nat.shiftRight_eq_div_pow]

theorem bytes_lt (value : BitVec 32) : ∀ byte ∈ bytes value, byte < 256 := by
  intro byte hbyte
  simp only [bytes, List.mem_cons, List.not_mem_nil, or_false] at hbyte
  omega

theorem bytes_value (value : BitVec 32) :
    (bytes value).foldl (fun acc byte => acc * 256 + byte) 0 = value.toNat := by
  have := value.isLt
  simp only [bytes, List.foldl_cons, List.foldl_nil]
  omega

theorem lowByte_toDigits (number : Text → ℕ) {n : ℕ} (h : n < 256) :
    lowByte number (Nat.toDigits 10 n) = n := by
  have hdigits : (Nat.toDigits 10 n).all Char.isDigit = true :=
    List.all_eq_true.mpr isDigit_of_toDigits
  rw [lowByte, if_pos ⟨Nat.toDigits_ne_nil, hdigits⟩, digitsValue_toDigits,
    double_of_lt (by omega), Nat.mod_eq_of_lt h]

theorem splitOn_join {octets : List Text} (hne : octets ≠ [])
    (hdigits : ∀ octet ∈ octets, ∀ c ∈ octet, c.isDigit = true) :
    (join octets).splitOn '.' = octets := by
  rw [join, List.splitOn_intercalate _ _ hne]
  intro octet hoctet hdot
  exact absurd (hdigits octet hoctet _ hdot) (by decide)

theorem splitOn_intToIp (value : BitVec 32) :
    (intToIp value).splitOn '.' = (bytes value).map (Nat.toDigits 10) := by
  rw [intToIp_eq, splitOn_join (by simp [bytes])]
  intro octet hoctet
  obtain ⟨byte, -, rfl⟩ := List.mem_map.mp hoctet
  exact isDigit_of_toDigits

/-- While the number stays below 2^53, no octet is rounded. -/
theorem foldl_double (number : Text → ℕ) {l : List ℕ} (hlt : ∀ byte ∈ l, byte < 256) {acc : ℕ}
    (hacc : (acc + 1) * 256 ^ l.length ≤ 2 ^ 53) :
    (l.map (Nat.toDigits 10)).foldl
        (fun acc octet => double (acc * 256 + lowByte number octet)) acc =
      l.foldl (fun acc byte => acc * 256 + byte) acc := by
  induction l generalizing acc with
  | nil => rfl
  | cons byte l ih =>
    have hbyte : byte < 256 := hlt byte List.mem_cons_self
    have hnext : (acc * 256 + byte + 1) * 256 ^ l.length ≤ 2 ^ 53 := by
      have hstep : acc * 256 + byte + 1 ≤ (acc + 1) * 256 := by omega
      refine (Nat.mul_le_mul_right _ hstep).trans ?_
      rwa [List.length_cons, pow_succ, mul_comm (256 ^ _), ← mul_assoc] at hacc
    have hsmall : acc * 256 + byte < 2 ^ 53 := by
      have hone : 1 ≤ 256 ^ l.length := Nat.one_le_pow _ _ (by decide)
      have := (Nat.mul_le_mul_left (acc * 256 + byte + 1) hone).trans hnext
      omega
    simp only [List.map_cons, List.foldl_cons, lowByte_toDigits number hbyte, double_of_lt hsmall]
    exact ih (fun b hb => hlt b (List.mem_cons_of_mem _ hb)) hnext

/-- Reading the plain spelling of an address gives the address. -/
theorem ipToInt_intToIp (number : Text → ℕ) (value : BitVec 32) :
    ipToInt number (intToIp value) = value := by
  rw [ipToInt, splitOn_intToIp, foldl_double number (bytes_lt value) (by simp [bytes]),
    bytes_value]
  simp

end Arithmetic

section Spelling

/-- An octet of up to three digits, leading zeros included. -/
structure IsOctet (octet : Text) : Prop where
  ne_nil : octet ≠ []
  length : octet.length ≤ 3
  digits : ∀ c ∈ octet, c.isDigit = true
  le : digitsValue octet ≤ 255

def addressValue (octets : List Text) : ℕ :=
  octets.foldl (fun acc octet => acc * 256 + digitsValue octet) 0

/-- Somewhere in the text, delimited from its words, an address is written. -/
def Holds (text : Text) (address : ℕ) : Prop :=
  ∃ before octets after, text = before ++ join octets ++ after ∧ octets.length = 4 ∧
    (∀ octet ∈ octets, IsOctet octet) ∧ (∀ c ∈ before.getLast?, isWord c = false) ∧
    (∀ c ∈ after.head?, isWord c = false) ∧ addressValue octets = address

/-- A text that is just an address, without leading zeros. -/
def Plain (text : Text) : Prop := ∃ address : BitVec 32, text = intToIp address

theorem isWord_of_isDigit {c : Char} (h : c.isDigit = true) : isWord c = true := by
  simp [isWord, Char.isAlphanum, h]

theorem isOctet_toDigits {byte : ℕ} (h : byte < 256) : IsOctet (Nat.toDigits 10 byte) where
  ne_nil := Nat.toDigits_ne_nil
  length := by
    have : ∀ byte < 256, (Nat.toDigits 10 byte).length ≤ 3 := by decide +kernel
    exact this byte h
  digits := isDigit_of_toDigits
  le := by
    rw [digitsValue_toDigits]
    omega

theorem addressValue_bytes (value : BitVec 32) :
    addressValue ((bytes value).map (Nat.toDigits 10)) = value.toNat := by
  rw [addressValue, List.foldl_map]
  simp only [digitsValue_toDigits, bytes_value]

theorem holds_intToIp (value : BitVec 32) : Holds (intToIp value) value.toNat := by
  refine ⟨[], (bytes value).map (Nat.toDigits 10), [], by simp [intToIp_eq], by simp [bytes], ?_,
    by simp, by simp, addressValue_bytes value⟩
  intro octet hoctet
  obtain ⟨byte, hbyte, rfl⟩ := List.mem_map.mp hoctet
  exact isOctet_toDigits (bytes_lt value byte hbyte)

theorem join_cons {octet : Text} {octets : List Text} (hne : octets ≠ []) :
    join (octet :: octets) = octet ++ '.' :: join octets := by
  rw [join, List.intercalate_cons_of_ne_nil hne, List.append_assoc]
  rfl

theorem count_join {octets : List Text} (hne : octets ≠ [])
    (hdigits : ∀ octet ∈ octets, ∀ c ∈ octet, c.isDigit = true) :
    (join octets).count '.' + 1 = octets.length := by
  induction octets with
  | nil => exact absurd rfl hne
  | cons octet octets ih =>
    have hoctet : octet.count '.' = 0 := by
      apply List.count_eq_zero.mpr
      intro hdot
      exact absurd (hdigits octet List.mem_cons_self _ hdot) (by decide)
    rcases eq_or_ne octets [] with rfl | hne
    · simp [join, hoctet]
    · rw [join_cons hne, List.count_append, List.count_cons_self, hoctet, Nat.zero_add,
        ih hne fun o ho => hdigits o (List.mem_cons_of_mem _ ho), List.length_cons]

theorem mem_join {octets : List Text} {c : Char} (h : c ∈ join octets) :
    c = '.' ∨ ∃ octet ∈ octets, c ∈ octet := by
  induction octets with
  | nil => exact absurd h (by simp [join])
  | cons octet octets ih =>
    rcases eq_or_ne octets [] with rfl | hne
    · exact .inr ⟨octet, List.mem_cons_self, by simpa [join] using h⟩
    · rw [join_cons hne] at h
      simp only [List.mem_append, List.mem_cons] at h
      rcases h with h | rfl | h
      · exact .inr ⟨octet, List.mem_cons_self, h⟩
      · exact .inl rfl
      · rcases ih h with hdot | ⟨found, hfound, hc⟩
        · exact .inl hdot
        · exact .inr ⟨found, List.mem_cons_of_mem _ hfound, hc⟩

/-- A plain spelling holds its own address only: no dot is left over for another place. -/
theorem Holds.eq_of_plain {value : BitVec 32} {address : ℕ} (h : Holds (intToIp value) address) :
    address = value.toNat := by
  obtain ⟨before, octets, after, htext, hlength, hoctets, hbefore, hafter, rfl⟩ := h
  have hne : octets ≠ [] := by
    rintro rfl
    exact absurd hlength (by decide)
  have hbytes : ∀ octet ∈ (bytes value).map (Nat.toDigits 10), ∀ c ∈ octet, c.isDigit = true := by
    intro octet hoctet
    obtain ⟨byte, -, rfl⟩ := List.mem_map.mp hoctet
    exact isDigit_of_toDigits
  have hdots : before.count '.' = 0 ∧ after.count '.' = 0 := by
    have hthree := count_join hne fun octet hoctet => (hoctets octet hoctet).digits
    have hplain := count_join (by simp [bytes]) hbytes
    rw [← intToIp_eq, htext, List.count_append, List.count_append] at hplain
    rw [hlength] at hthree
    have : ((bytes value).map (Nat.toDigits 10)).length = 4 := by simp [bytes]
    omega
  have hword : ∀ c ∈ before ++ after, isWord c = true := by
    intro c hc
    have hmem : c ∈ intToIp value := by
      rw [htext]
      simp only [List.mem_append] at hc ⊢
      tauto
    rw [intToIp_eq] at hmem
    rcases mem_join hmem with rfl | ⟨octet, hoctet, hin⟩
    · rcases List.mem_append.mp hc with hc | hc
      · exact absurd hc (List.count_eq_zero.mp hdots.1)
      · exact absurd hc (List.count_eq_zero.mp hdots.2)
    · exact isWord_of_isDigit (hbytes octet hoctet c hin)
  have hnil : before = [] ∧ after = [] := by
    constructor
    · rw [← List.getLast?_eq_none_iff]
      by_contra hsome
      obtain ⟨c, hc⟩ := Option.ne_none_iff_exists'.mp hsome
      have hmem := List.mem_append_left after (List.mem_of_getLast? hc)
      exact absurd (hword c hmem) (by simp [hbefore c hc])
    · rw [← List.head?_eq_none_iff]
      by_contra hsome
      obtain ⟨c, hc⟩ := Option.ne_none_iff_exists'.mp hsome
      have hmem := List.mem_append_right before (List.mem_of_head? hc)
      exact absurd (hword c hmem) (by simp [hafter c hc])
  obtain ⟨rfl, rfl⟩ := hnil
  have hoctets' : octets = (bytes value).map (Nat.toDigits 10) := by
    rw [← splitOn_intToIp, htext, List.nil_append, List.append_nil,
      splitOn_join hne fun octet hoctet => (hoctets octet hoctet).digits]
  rw [hoctets', addressValue_bytes]

end Spelling

section Found

theorem octet?_append {octet rest : Text} (h : IsOctet octet)
    (hrest : ∀ c ∈ rest.head?, c.isDigit = false) : octet? (octet ++ rest) = some (octet, rest) := by
  rw [octet?, run_append h.ne_nil h.digits hrest]
  simp [h.length]

theorem octets?_join {n : ℕ} {octets : List Text} {rest : Text} (hlength : octets.length = n + 1)
    (hoctets : ∀ octet ∈ octets, IsOctet octet) (hrest : ∀ c ∈ rest.head?, c.isDigit = false) :
    octets? n (join octets ++ rest) = some (octets, rest) := by
  induction n generalizing octets with
  | zero =>
    obtain ⟨octet, rfl⟩ := List.length_eq_one_iff.mp hlength
    rw [octets?, join, List.intercalate_singleton,
      octet?_append (hoctets octet List.mem_cons_self) hrest]
    rfl
  | succ n ih =>
    obtain ⟨octet, octets, rfl⟩ := List.exists_cons_of_length_eq_add_one hlength
    have hne : octets ≠ [] := by
      rintro rfl
      exact absurd hlength (by simp)
    have hdot : ∀ c ∈ ('.' :: (join octets ++ rest)).head?, c.isDigit = false := by simp
    rw [octets?, join_cons hne, List.append_assoc, List.cons_append,
      octet?_append (hoctets octet List.mem_cons_self) hdot]
    have hbehind : behind ['.'] ('.' :: (join octets ++ rest)) = some (join octets ++ rest) :=
      behind_append ['.'] _
    simp only [Option.bind_eq_bind, Option.bind_some, hbehind,
      ih (by simpa using hlength) fun o ho => hoctets o (List.mem_cons_of_mem _ ho)]
    rfl

theorem ipv4From_isSome {octets : List Text} {after : Text} (hlength : octets.length = 4)
    (hoctets : ∀ octet ∈ octets, IsOctet octet) (hafter : ∀ c ∈ after.head?, isWord c = false)
    {before : Text} (hbefore : ∀ c ∈ before.getLast?, isWord c = false) {afterWord : Bool}
    (hfirst : before = [] → afterWord = false) :
    (ipv4From afterWord (before ++ join octets ++ after)).isSome := by
  induction before generalizing afterWord with
  | nil =>
    have hdigit : ∀ c ∈ after.head?, c.isDigit = false := by
      intro c hc
      by_contra h
      have hword := isWord_of_isDigit (Bool.eq_true_of_not_eq_false h)
      exact absurd (hafter c hc) (by simp [hword])
    have hword : after.head?.any isWord = false := by
      cases hhead : after.head? with
      | none => rfl
      | some c => exact hafter c hhead
    have hhere : ipv4Here (join octets ++ after) = some (join octets) := by
      simp [ipv4Here, octets?_join hlength hoctets hdigit, hword]
    rw [List.nil_append]
    cases htext : join octets ++ after with
    | nil =>
      rw [htext] at hhere
      exact absurd hhere (by simp [ipv4Here, octets?, octet?, run])
    | cons c rest =>
      rw [ipv4From, hfirst rfl, if_neg Bool.false_ne_true, ← htext, hhere]
      rfl
  | cons c before ih =>
    rw [List.cons_append, List.cons_append, ipv4From, Option.isSome_or, Bool.or_eq_true]
    refine .inr (ih ?_ ?_)
    · intro d hd
      apply hbefore
      rw [List.getLast?_cons, Option.mem_def.mp hd]
      rfl
    · rintro rfl
      exact hbefore c rfl

theorem Holds.ipv4Match {text : Text} {address : ℕ} (h : Holds text address) :
    (ipv4Match text).isSome := by
  obtain ⟨before, octets, after, rfl, hlength, hoctets, hbefore, hafter, -⟩ := h
  exact ipv4From_isSome hlength hoctets hafter hbefore fun _ => rfl

end Found

end ZoneweaverAgent.IpSuggestions
