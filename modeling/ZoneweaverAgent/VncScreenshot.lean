import Mathlib.Data.List.TakeDrop
import ZoneweaverAgent.ReflectedCrc

/-!
# Screenshots of a VNC framebuffer

`SocketReader` hands out the bytes of a socket in the amounts asked for; `encodePng` writes the
pixels as a PNG file. `deflateSync` and its inverse are parameters. A decoder, with the check of a
chunk computed bit by bit, says what a PNG file holds.
-/

namespace ZoneweaverAgent.VncScreenshot

abbrev Byte := BitVec 8

section SocketReader

/-- `resolved` records what the reads have resolved with. -/
structure SocketReader where
  buffer : List Byte
  pending : Option ℕ
  resolved : List (List Byte)

inductive Event
  | data (chunk : List Byte)
  | read (n : ℕ)

namespace SocketReader

def initial : SocketReader := ⟨[], none, []⟩

def flush (r : SocketReader) : SocketReader :=
  match r.pending with
  | none => r
  | some n =>
    if r.buffer.length < n then r
    else ⟨r.buffer.drop n, none, r.resolved ++ [r.buffer.take n]⟩

def on (r : SocketReader) : Event → SocketReader
  | .data chunk => flush { r with buffer := r.buffer ++ chunk }
  | .read n => flush { r with pending := some n }

/-- Each read is made when the one before it has resolved. -/
def Awaited : SocketReader → List Event → Prop
  | _, [] => True
  | r, .data chunk :: events => Awaited (r.on (.data chunk)) events
  | r, .read n :: events => r.pending = none ∧ Awaited (r.on (.read n)) events

/-- A read waits only for bytes that are not there yet. -/
def Waiting (r : SocketReader) : Prop := ∀ n ∈ r.pending, r.buffer.length < n

end SocketReader

def stream (events : List Event) : List Byte :=
  events.flatMap fun
    | .data chunk => chunk
    | .read _ => []

def requests (events : List Event) : List ℕ :=
  events.filterMap fun
    | .data _ => none
    | .read n => some n

/-- The consecutive pieces of these lengths, as far as the bytes reach. -/
def pieces : List ℕ → List Byte → List (List Byte)
  | [], _ => []
  | n :: ns, bytes => if bytes.length < n then [] else bytes.take n :: pieces ns (bytes.drop n)

end SocketReader

section Checksum

def crcShift (c : BitVec 32) : BitVec 32 :=
  if c &&& 1 ≠ 0 then (0xedb88320 : BitVec 32) ^^^ (c >>> 1) else c >>> 1

def crcTable : Vector (BitVec 32) 256 := .ofFn fun n => crcShift^[8] (.ofNat 32 n)

def crcStep (c : BitVec 32) (byte : Byte) : BitVec 32 :=
  crcTable.get (.ofNat 256 ((c ^^^ byte.setWidth 32) &&& 0xff).toNat) ^^^ (c >>> 8)

def crc32 (buf : List Byte) : BitVec 32 := buf.foldl crcStep 0xffffffff ^^^ 0xffffffff

end Checksum

section Encoder
variable (deflate : List Byte → List Byte)

def bytesBE (value : BitVec 32) : List Byte :=
  [value.extractLsb' 24 8, value.extractLsb' 16 8, value.extractLsb' 8 8, value.extractLsb' 0 8]

/-- Throws for a value that 32 bits do not hold. -/
def writeUInt32BE (value : ℕ) : Option (List Byte) :=
  if value < 2 ^ 32 then some (bytesBE (.ofNat 32 value)) else none

def ascii (type : String) : List Byte := type.toList.map fun c => .ofNat 8 c.toNat

def pngChunk (type : String) (data : List Byte) : Option (List Byte) := do
  let len ← writeUInt32BE data.length
  let body := ascii type ++ data
  return len ++ body ++ bytesBE (crc32 body)

def pngSignature : List Byte := [0x89, 0x50, 0x4e, 0x47, 0x0d, 0x0a, 0x1a, 0x0a]

/-- A tightly packed buffer of three bytes a pixel. -/
structure Frame where
  width : ℕ
  height : ℕ
  rgb : List Byte
  size : rgb.length = width * height * 3
  deriving DecidableEq

/-- Bit depth 8, truecolour. -/
def ihdr (frame : Frame) : Option (List Byte) := do
  let width ← writeUInt32BE frame.width
  let height ← writeUInt32BE frame.height
  return width ++ height ++ [8, 2, 0, 0, 0]

/-- Each row behind the filter type `none`. -/
def filtered (frame : Frame) : List Byte :=
  let stride := frame.width * 3
  (List.range frame.height).flatMap fun y => 0 :: (frame.rgb.drop (y * stride)).take stride

def encodePng (frame : Frame) : Option (List Byte) := do
  let header ← ihdr frame
  let header ← pngChunk "IHDR" header
  let data ← pngChunk "IDAT" (deflate (filtered frame))
  let close ← pngChunk "IEND" []
  return pngSignature ++ header ++ data ++ close

end Encoder

section Decoder
variable (inflate : List Byte → Option (List Byte))

def readUInt32BE : List Byte → Option (BitVec 32 × List Byte)
  | a :: b :: c :: d :: rest => some (a ++ b ++ c ++ d, rest)
  | _ => none

/-- The check of a message, one bit after the other. -/
def checkOf (message : List Byte) : BitVec 32 :=
  ReflectedCrc.register 0xedb88320 0xffffffff message ^^^ 0xffffffff

structure Chunk where
  type : List Byte
  data : List Byte

def readChunk (bytes : List Byte) : Option (Chunk × List Byte) := do
  let (length, bytes) ← readUInt32BE bytes
  let body := bytes.take (4 + length.toNat)
  let (check, bytes) ← readUInt32BE (bytes.drop (4 + length.toNat))
  if check = checkOf body then return (⟨body.take 4, body.drop 4⟩, bytes) else none

/-- The chunks before the empty `IEND` that ends the file. -/
def readChunks : ℕ → List Byte → Option (List Chunk)
  | 0, _ => none
  | fuel + 1, bytes => do
    let (chunk, bytes) ← readChunk bytes
    if chunk.type = ascii "IEND" then
      if chunk.data = [] ∧ bytes = [] then some [] else none
    else return chunk :: (← readChunks fuel bytes)

/-- The rows, each behind the filter type `none`. -/
def readRows (stride : ℕ) : ℕ → List Byte → Option (List Byte)
  | 0, bytes => if bytes = [] then some [] else none
  | height + 1, filter :: bytes => do
    if filter ≠ 0 ∨ bytes.length < stride then none
    else return bytes.take stride ++ (← readRows stride height (bytes.drop stride))
  | _ + 1, [] => none

def readHeader (data : List Byte) : Option (ℕ × ℕ) := do
  let (width, rest) ← readUInt32BE data
  let (height, rest) ← readUInt32BE rest
  if rest = [8, 2, 0, 0, 0] then return (width.toNat, height.toNat) else none

def decodePng (bytes : List Byte) : Option Frame := do
  if bytes.take 8 ≠ pngSignature then none
  else
    match ← readChunks bytes.length (bytes.drop 8) with
    | [] => none
    | header :: chunks =>
      if header.type ≠ ascii "IHDR" then none
      else
        let (width, height) ← readHeader header.data
        let compressed := (chunks.filter fun chunk => chunk.type = ascii "IDAT").flatMap Chunk.data
        let rgb ← readRows (width * 3) height (← inflate compressed)
        if h : rgb.length = width * height * 3 then return ⟨width, height, rgb, h⟩ else none

end Decoder

section Reads
open SocketReader
variable {r : SocketReader} {events : List Event} {n : ℕ} {ns : List ℕ} {bytes more : List Byte}

theorem pieces_append (h : n ≤ bytes.length) :
    pieces (n :: ns) (bytes ++ more) = bytes.take n :: pieces ns (bytes.drop n ++ more) := by
  have hlong : ¬(bytes ++ more).length < n := by
    rw [List.length_append]
    omega
  rw [pieces, if_neg hlong, List.take_append_of_le_length h, List.drop_append_of_le_length h]

theorem flush_waiting (r : SocketReader) : Waiting r.flush := by
  intro n hn
  cases hpending : r.pending with
  | none =>
    rw [flush, hpending] at hn
    exact absurd (hpending.symm.trans hn) nofun
  | some m =>
    simp only [flush, hpending] at hn ⊢
    split_ifs at hn ⊢ with hshort
    · cases hpending.symm.trans hn
      exact hshort
    · exact absurd hn nofun

/-- A flush moves a piece from what is to be resolved to what is. -/
theorem flush_pieces (r : SocketReader) :
    r.flush.resolved ++ pieces (r.flush.pending.toList ++ ns) (r.flush.buffer ++ more) =
      r.resolved ++ pieces (r.pending.toList ++ ns) (r.buffer ++ more) := by
  cases hpending : r.pending with
  | none => simp [flush, hpending]
  | some n =>
    by_cases hshort : r.buffer.length < n
    · simp [flush, hpending, hshort]
    · have hpiece : pieces (n :: ns) (r.buffer ++ more) =
          r.buffer.take n :: pieces ns (r.buffer.drop n ++ more) :=
        pieces_append (Nat.le_of_not_lt hshort)
      simp [flush, hpending, hshort, hpiece]

/-- What a run of events still resolves continues what is buffered and pending. -/
theorem resolved_of_events (hwaiting : r.Waiting) (hawaited : Awaited r events) :
    (events.foldl on r).resolved =
      r.resolved ++ pieces (r.pending.toList ++ requests events) (r.buffer ++ stream events) := by
  induction events generalizing r with
  | nil =>
    cases hpending : r.pending with
    | none => simp [pieces, requests]
    | some n => simp [pieces, requests, stream, hwaiting n hpending]
  | cons event events ih =>
    cases event with
    | data chunk =>
      rw [Awaited, on] at hawaited
      rw [List.foldl_cons, on, ih (flush_waiting _) hawaited, flush_pieces]
      simp [requests, stream]
    | read n =>
      rw [Awaited, on] at hawaited
      rw [List.foldl_cons, on, ih (flush_waiting _) hawaited.2, flush_pieces]
      simp [requests, stream, hawaited.1]

/-- However the stream is split and whenever the reads are made, they resolve with its consecutive
bytes. -/
theorem reads_consecutive (h : Awaited initial events) :
    (events.foldl on initial).resolved = pieces (requests events) (stream events) :=
  (resolved_of_events (r := initial) (by simp [Waiting, initial]) h).trans (by simp [initial])

end Reads

section Checks

theorem crcShift_eq (c : BitVec 32) : crcShift c = ReflectedCrc.shift 0xedb88320 c := by
  have hbit : c &&& 1 = (BitVec.ofBool (c.getLsbD 0)).setWidth 32 :=
    BitVec.and_one_eq_setWidth_ofBool_getLsbD
  rw [crcShift, ReflectedCrc.shift, hbit, BitVec.xor_comm]
  cases c.getLsbD 0 <;> simp [ReflectedCrc.feedback]

theorem crcTable_get (n : Fin 256) :
    crcTable.get n = ReflectedCrc.tableWord 0xedb88320 (.ofNat 32 n) := by
  have hshift : crcShift = ReflectedCrc.shift 0xedb88320 := funext crcShift_eq
  change crcTable[n.val] = _
  rw [crcTable, Vector.getElem_ofFn, hshift]
  rfl

theorem crcStep_eq (c : BitVec 32) (byte : Byte) :
    crcStep c byte = (ReflectedCrc.bitsOf byte).foldl (ReflectedCrc.addBit 0xedb88320) c := by
  have hindex : ((c ^^^ byte.setWidth 32) &&& 0xff).toNat % 256 =
      ((c ^^^ byte.setWidth 32) &&& 0xff).toNat := by
    rw [BitVec.toNat_and]
    exact Nat.mod_eq_of_lt (Nat.lt_succ_of_le Nat.and_le_right)
  rw [crcStep, crcTable_get, ReflectedCrc.foldl_byte (by decide), Fin.val_ofNat, hindex,
    BitVec.ofNat_toNat, BitVec.setWidth_eq]

/-- The table computes the check of the polynomial. -/
theorem crc32_eq (buf : List Byte) : crc32 buf = checkOf buf := by
  have hfold (c : BitVec 32) :
      buf.foldl crcStep c = ReflectedCrc.register 0xedb88320 c buf := by
    induction buf generalizing c with
    | nil => rfl
    | cons byte buf ih => rw [List.foldl_cons, ih, ReflectedCrc.register_cons, crcStep_eq]
  rw [crc32, checkOf, hfold]

end Checks

section RoundTrip
variable {value : BitVec 32} {frame : Frame} {rest : List Byte}

theorem readUInt32BE_bytesBE (value : BitVec 32) (rest : List Byte) :
    readUInt32BE (bytesBE value ++ rest) = some (value, rest) := by
  have happend : value.extractLsb' 24 8 ++ value.extractLsb' 16 8 ++ value.extractLsb' 8 8 ++
      value.extractLsb' 0 8 = value := by
    rw [BitVec.extractLsb'_append_extractLsb'_eq_extractLsb' (show 24 = 16 + 8 by rfl),
      BitVec.extractLsb'_append_extractLsb'_eq_extractLsb' (show 16 = 8 + 8 by rfl),
      BitVec.extractLsb'_append_extractLsb'_eq_extractLsb' (show 8 = 0 + 8 by rfl)]
    exact BitVec.extractLsb'_eq_self
  simp only [bytesBE, List.cons_append, List.nil_append, readUInt32BE, happend]

theorem writeUInt32BE_isSome (n : ℕ) : (writeUInt32BE n).isSome ↔ n < 2 ^ 32 := by
  rw [writeUInt32BE]
  split_ifs with h
  · exact iff_of_true rfl h
  · exact iff_of_false Bool.false_ne_true h

theorem writeUInt32BE_eq_some {n : ℕ} {bytes : List Byte} (h : writeUInt32BE n = some bytes) :
    n < 2 ^ 32 ∧ bytes = bytesBE (.ofNat 32 n) := by
  rw [writeUInt32BE] at h
  split_ifs at h with hlt
  exact ⟨hlt, (Option.some.inj h).symm⟩

theorem pngChunk_isSome (type : String) (data : List Byte) :
    (pngChunk type data).isSome ↔ data.length < 2 ^ 32 := by
  rw [← writeUInt32BE_isSome, pngChunk]
  cases writeUInt32BE data.length <;> simp

theorem readChunk_pngChunk {type : String} {data bytes : List Byte} (htype : (ascii type).length = 4)
    (h : pngChunk type data = some bytes) (rest : List Byte) :
    readChunk (bytes ++ rest) = some (⟨ascii type, data⟩, rest) := by
  rw [pngChunk, Option.bind_eq_bind, Option.bind_eq_some_iff] at h
  obtain ⟨len, hlen, h⟩ := h
  obtain ⟨hlt, rfl⟩ := writeUInt32BE_eq_some hlen
  cases h
  have hnat : (BitVec.ofNat 32 data.length).toNat = data.length := Nat.mod_eq_of_lt hlt
  have hbody : (ascii type ++ data).length = 4 + data.length := by
    rw [List.length_append, htype]
  simp only [readChunk, List.append_assoc, readUInt32BE_bytesBE, Option.bind_eq_bind,
    Option.bind_some, hnat]
  rw [← List.append_assoc (ascii type), List.take_left' hbody, List.drop_left' hbody,
    readUInt32BE_bytesBE]
  simp only [Option.bind_some, crc32_eq, if_true, List.take_left' htype, List.drop_left' htype]
  rfl

theorem readRows_filtered (stride height : ℕ) {rgb : List Byte} (h : rgb.length = height * stride) :
    readRows stride height ((List.range height).flatMap fun y =>
      0 :: (rgb.drop (y * stride)).take stride) = some rgb := by
  induction height generalizing rgb with
  | zero =>
    rw [Nat.zero_mul] at h
    simp [readRows, List.eq_nil_of_length_eq_zero h]
  | succ height ih =>
    have hle : stride ≤ rgb.length := by
      rw [h, Nat.succ_mul]
      exact Nat.le_add_left _ _
    have hrest : (rgb.drop stride).length = height * stride := by
      rw [List.length_drop, h, Nat.succ_mul, Nat.add_sub_cancel]
    have htake : (rgb.take stride).length = stride := List.length_take_of_le hle
    have hrows : (fun y => (0 : Byte) :: (rgb.drop ((y + 1) * stride)).take stride) =
        fun y => 0 :: ((rgb.drop stride).drop (y * stride)).take stride := by
      funext y
      rw [List.drop_drop, Nat.succ_mul, Nat.add_comm]
    rw [List.range_succ_eq_map, List.flatMap_cons, List.flatMap_map, Nat.zero_mul, List.drop_zero,
      hrows, List.cons_append, readRows, List.take_left' htake, List.drop_left' htake]
    have hlong : ¬((0 : Byte) ≠ 0 ∨ (rgb.take stride ++ (List.range height).flatMap fun y =>
        0 :: ((rgb.drop stride).drop (y * stride)).take stride).length < stride) := by
      rw [List.length_append, htake]
      simp
    rw [if_neg hlong]
    simp only [ih hrest, Option.bind_eq_bind, Option.bind_some]
    exact congrArg some (List.take_append_drop stride rgb)

theorem ihdr_isSome (frame : Frame) :
    (ihdr frame).isSome ↔ frame.width < 2 ^ 32 ∧ frame.height < 2 ^ 32 := by
  rw [← writeUInt32BE_isSome, ← writeUInt32BE_isSome, ihdr]
  cases writeUInt32BE frame.width <;> cases writeUInt32BE frame.height <;> simp

theorem readHeader_ihdr {header : List Byte} (h : ihdr frame = some header) :
    header.length = 13 ∧ readHeader header = some (frame.width, frame.height) := by
  simp only [ihdr, Option.bind_eq_bind, Option.bind_eq_some_iff] at h
  obtain ⟨width, hwidth, height, hheight, h⟩ := h
  obtain ⟨hw, rfl⟩ := writeUInt32BE_eq_some hwidth
  obtain ⟨hh, rfl⟩ := writeUInt32BE_eq_some hheight
  cases h
  refine ⟨rfl, ?_⟩
  rw [List.append_assoc]
  simp only [readHeader, readUInt32BE_bytesBE, Option.bind_eq_bind, Option.bind_some, if_true]
  rw [show (BitVec.ofNat 32 frame.width).toNat = frame.width from Nat.mod_eq_of_lt hw,
    show (BitVec.ofNat 32 frame.height).toNat = frame.height from Nat.mod_eq_of_lt hh]
  rfl

variable {deflate : List Byte → List Byte} {inflate : List Byte → Option (List Byte)}

/-- The parts an encoded frame is made of. -/
theorem encodePng_eq_some {png : List Byte} :
    encodePng deflate frame = some png ↔ ∃ header a b c, ihdr frame = some header ∧
      pngChunk "IHDR" header = some a ∧ pngChunk "IDAT" (deflate (filtered frame)) = some b ∧
      pngChunk "IEND" [] = some c ∧ png = pngSignature ++ a ++ b ++ c := by
  simp only [encodePng, Option.bind_eq_bind, Option.bind_eq_some_iff, Option.pure_def,
    Option.some.injEq]
  constructor
  · rintro ⟨header, hheader, a, ha, b, hb, c, hc, rfl⟩
    exact ⟨header, a, b, c, hheader, ha, hb, hc, rfl⟩
  · rintro ⟨header, a, b, c, hheader, ha, hb, hc, rfl⟩
    exact ⟨header, hheader, a, ha, b, hb, c, hc, rfl⟩

theorem encodePng_isSome (frame : Frame) : (encodePng deflate frame).isSome ↔
    frame.width < 2 ^ 32 ∧ frame.height < 2 ^ 32 ∧ (deflate (filtered frame)).length < 2 ^ 32 := by
  rw [Option.isSome_iff_exists, ← and_assoc, ← ihdr_isSome, ← pngChunk_isSome "IDAT"]
  constructor
  · rintro ⟨png, h⟩
    obtain ⟨header, a, b, c, hheader, -, hb, -, -⟩ := encodePng_eq_some.mp h
    exact ⟨Option.isSome_of_eq_some hheader, Option.isSome_of_eq_some hb⟩
  · rintro ⟨hheader, hb⟩
    obtain ⟨header, hheader⟩ := Option.isSome_iff_exists.mp hheader
    obtain ⟨b, hb⟩ := Option.isSome_iff_exists.mp hb
    have hlength : header.length < 2 ^ 32 := (readHeader_ihdr hheader).1.trans_lt (by decide)
    obtain ⟨a, ha⟩ := Option.isSome_iff_exists.mp ((pngChunk_isSome "IHDR" header).mpr hlength)
    obtain ⟨c, hc⟩ := Option.isSome_iff_exists.mp ((pngChunk_isSome "IEND" []).mpr (by decide))
    exact ⟨_, encodePng_eq_some.mpr ⟨header, a, b, c, hheader, ha, hb, hc, rfl⟩⟩

theorem readChunks_encoded {header data a b c : List Byte} (ha : pngChunk "IHDR" header = some a)
    (hb : pngChunk "IDAT" data = some b) (hc : pngChunk "IEND" [] = some c) (fuel : ℕ) :
    readChunks (fuel + 3) (a ++ (b ++ c)) =
      some [⟨ascii "IHDR", header⟩, ⟨ascii "IDAT", data⟩] := by
  have hend : readChunk c = some (⟨ascii "IEND", []⟩, []) := by
    simpa using readChunk_pngChunk (by decide) hc []
  have hheader : ascii "IHDR" ≠ ascii "IEND" := by decide
  have hdata : ascii "IDAT" ≠ ascii "IEND" := by decide
  simp [readChunks, readChunk_pngChunk (by decide) ha, readChunk_pngChunk (by decide) hb, hend,
    hheader, hdata]

theorem decodePng_encodePng (hinflate : ∀ data, inflate (deflate data) = some data)
    {png : List Byte} (h : encodePng deflate frame = some png) :
    decodePng inflate png = some frame := by
  obtain ⟨header, a, b, c, hheader, ha, hb, hc, rfl⟩ := encodePng_eq_some.mp h
  have hsignature : pngSignature.length = 8 := rfl
  obtain ⟨fuel, hfuel⟩ : ∃ fuel, (pngSignature ++ a ++ b ++ c).length = fuel + 3 :=
    ⟨(a ++ b ++ c).length + 5, by simp only [List.length_append, hsignature]; omega⟩
  have hchunks := readChunks_encoded ha hb hc fuel
  have hrows : readRows (frame.width * 3) frame.height (filtered frame) = some frame.rgb :=
    readRows_filtered _ _ (by rw [frame.size, Nat.mul_comm frame.width, Nat.mul_assoc])
  rw [decodePng, hfuel]
  simp only [List.append_assoc, List.take_left' hsignature, List.drop_left' hsignature, hchunks]
  simp [(readHeader_ihdr hheader).2, hinflate, hrows, frame.size]

end RoundTrip

section Screenshot
open SocketReader

/-- A frame within the limits of the format is written and decodes to itself, and the reader hands
out the consecutive bytes of its stream. -/
theorem screenshot_exact {deflate : List Byte → List Byte} {inflate : List Byte → Option (List Byte)}
    (hinflate : ∀ data, inflate (deflate data) = some data) (frame : Frame) {events : List Event}
    (hawaited : Awaited initial events) :
    ((encodePng deflate frame).isSome ↔ frame.width < 2 ^ 32 ∧ frame.height < 2 ^ 32 ∧
        (deflate (filtered frame)).length < 2 ^ 32) ∧
      (∀ png ∈ encodePng deflate frame, decodePng inflate png = some frame) ∧
      (events.foldl on initial).resolved = pieces (requests events) (stream events) :=
  ⟨encodePng_isSome frame, fun _ hpng => decodePng_encodePng hinflate hpng,
    reads_consecutive hawaited⟩

def twoPixels : Frame := ⟨1, 2, [255, 0, 0, 0, 128, 255], rfl⟩

def splitStream : List Event :=
  [.data [82, 70], .read 3, .data [66], .read 1, .data [32, 48, 48], .read 2]

theorem screenshot_exact_small :
    ((encodePng id twoPixels).isSome ↔ twoPixels.width < 2 ^ 32 ∧ twoPixels.height < 2 ^ 32 ∧
        (id (filtered twoPixels)).length < 2 ^ 32) ∧
      (∀ png ∈ encodePng id twoPixels, decodePng some png = some twoPixels) ∧
      (splitStream.foldl on initial).resolved =
        pieces (requests splitStream) (stream splitStream) :=
  screenshot_exact (fun _ => rfl) twoPixels
    (by simp [splitStream, Awaited, on, flush, initial])

end Screenshot

end ZoneweaverAgent.VncScreenshot
