import PcapEvidence.CaptureRecord
import PcapEvidence.Method

/-!
# The record decoder

One state machine decodes classic PCAP and PCAPNG, for borrowed slices and for streaming input.
`required` tells how many bytes the record at hand needs, from as much of it as is there; `decode`
decodes it once it is complete.
-/

namespace PcapEvidence

open Method

abbrev DecodeM := Method Decoder Error

namespace Decoder

def new (limits : Limits) (mode : ParseMode) : Result Decoder := do
  limits.validate
  .ok {
    limits := limits
    mode := mode
    format := none
    endian := .little
    legacy := none
    interfaces := []
    sectionId := 0
    sectionsSeen := 0
    sectionEnd := none
    nextFrame := 1
    records := 0 }

/-- The first four bytes of a section header block, in either byte order. -/
def sectionMagic : List U8 := [0x0a, 0x0d, 0x0d, 0x0a]

def SHB : U32 := 0x0a0d0d0a

/-- Byte order and resolution of a classic capture. -/
def legacyMagic (magic : List U8) : Option (Endian × Bool) :=
  if magic = [0xd4, 0xc3, 0xb2, 0xa1] then some (.little, false)
  else if magic = [0xa1, 0xb2, 0xc3, 0xd4] then some (.big, false)
  else if magic = [0x4d, 0x3c, 0xb2, 0xa1] then some (.little, true)
  else if magic = [0xa1, 0xb2, 0x3c, 0x4d] then some (.big, true)
  else none

def ngEndian (input : List U8) (offset : ℕ) : Result Endian :=
  if sliceOf input 8 12 = [0x4d, 0x3c, 0x2b, 0x1a] then .ok .little
  else if sliceOf input 8 12 = [0x1a, 0x2b, 0x3c, 0x4d] then .ok .big
  else .error ⟨.badMagic, offset + 8, "byte_order_magic", "invalid PCAPNG byte-order magic"⟩

/-- The byte order of a block: a section header brings its own. -/
def blockEndian (d : Decoder) (input : List U8) (offset : ℕ) : Result Endian :=
  if input.take 4 = sectionMagic then ngEndian input offset else .ok d.endian

/-- The block half of `required`. -/
def requiredBlock (d : Decoder) (input : List U8) (offset : ℕ) : Result ℕ :=
  if input.length < 8 then .ok 8
  else if input.take 4 = sectionMagic ∧ input.length < 12 then .ok 12
  else do
    let endian ← d.blockEndian input offset
    let size := (endian.u32 input 4).toNat
    if size < 12 ∨ size % 4 ≠ 0 ∨ (input.take 4 = sectionMagic ∧ size < 28) then
      .error ⟨.invalidLength, offset + 4, "block_length",
        "block length must be aligned and meet its minimum"⟩
    else if size > d.limits.maxBlockBytes then .error (Error.limit "block_bytes")
    else .ok size

def required (d : Decoder) (input : List U8) (offset : ℕ) : Result ℕ :=
  match checkedAdd offset input.length with
  | none => .error (Error.limit "file_offset")
  | some _ =>
    match d.format with
    | none =>
      if input.length < 4 then .ok 4
      else if input.take 4 = sectionMagic then d.requiredBlock input offset
      else if (legacyMagic (input.take 4)).isSome then .ok 24
      else .error ⟨.badMagic, offset, "magic", "not supported PCAP/PCAPNG"⟩
    | some .pcap =>
      if input.length < 16 then .ok 16
      else if (d.endian.u32 input 8).toNat > d.limits.maxPacketBytes then
        .error (Error.limit "packet_bytes")
      else match checkedAdd (d.endian.u32 input 8).toNat 16 with
        | some size => .ok size
        | none => .error (Error.limit "packet_bytes")
    | some .pcapNg => d.requiredBlock input offset

def validateLengths (cap orig snap : U32) (mode : ParseMode) (offset : ℕ) : Result (List Warning) :=
  if cap.toNat > orig.toNat ∨ (snap ≠ 0 ∧ cap.toNat > snap.toNat) then
    if mode = .strict then
      .error ⟨.invalidLength, offset, "packet_lengths",
        "captured length exceeds original length or snaplen"⟩
    else .ok [⟨"contradictory_packet_lengths", offset⟩]
  else .ok []

def align4 (n : ℕ) : Result ℕ :=
  match checkedAdd n 3 with
  | some v => .ok (v / 4 * 4)
  | none => .error (Error.limit "alignment")

/-- The end of `n` bytes at `p` with their padding. -/
def alignedEnd (p n : ℕ) (field : String) : Result ℕ := do
  let padded ← align4 n
  match checkedAdd p padded with
  | some stop => .ok stop
  | none => .error (Error.limit field)

/-- The option loop; a round takes at least four bytes, so the distance is enough fuel. -/
def parseOptionsLoop (raw : List U8) (stop : ℕ) (endian : Endian) (offset : ℕ) (limits : Limits) :
    ℕ → ℕ → List OptionMeta → Result (List OptionMeta)
  | 0, _, out => .ok out
  | fuel + 1, p, out =>
    if p < stop then
      if stop - p < 4 then
        .error ⟨.invalidOption, offset + p, "option", "partial option header"⟩
      else
        let code := endian.u16 raw p
        let n := (endian.u16 raw (p + 2)).toNat
        let p := p + 4
        if code = 0 then
          if n ≠ 0 then
            .error ⟨.invalidOption, offset + p - 2, "option_end", "terminator length must be zero"⟩
          -- no typed meaning is assigned to bytes following the end marker
          else .ok out
        else if out.length ≥ limits.maxOptions then .error (Error.limit "options")
        else do
          let next ← alignedEnd p n "option_length"
          if next > stop then
            .error ⟨.invalidOption, offset + p, "option_length",
              "option value/padding exceeds block"⟩
          else if code.toNat ∈ [2988, 2989, 19372, 19373] ∧ n < 4 then
            .error ⟨.invalidOption, offset + p, "custom_option",
              "custom option needs an enterprise number"⟩
          else parseOptionsLoop raw stop endian offset limits fuel next (out ++ [⟨code, p, n⟩])
    else .ok out

def parseOptions (raw : List U8) (start stop : ℕ) (endian : Endian) (offset : ℕ)
    (limits : Limits) : Result (List OptionMeta) :=
  parseOptionsLoop raw stop endian offset limits (stop - start) start []

def minimum (actual expected offset : ℕ) (field : String) : Result Unit :=
  if actual < expected then
    .error ⟨.invalidLength, offset, field, "block shorter than fixed fields"⟩
  else .ok ()

def interface (d : Decoder) (id : U32) (offset : ℕ) : Result Interface :=
  match d.interfaces[id.toNat]? with
  | some interface => .ok interface
  | none => .error ⟨.missingInterface, offset + 8, "interface_id",
      "interface has not been declared in this section"⟩

/-- What a record holds besides its place in the file. -/
structure Body where
  endian : Endian
  kind : RecordKind
  options : List OptionMeta
  warnings : List Warning

def takeFrame : DecodeM Unit := update (fun d => { d with nextFrame := d.nextFrame + 1 })

def decodeLegacyHeader (raw : List U8) (offset : ℕ) : DecodeM Body :=
  match legacyMagic (raw.take 4) with
  | none => fail ⟨.badMagic, offset, "magic", "unsupported magic"⟩
  | some (endian, nanos) =>
    if endian.u16 raw 4 ≠ 2 ∨ endian.u16 raw 6 ≠ 4 then
      fail ⟨.unsupportedVersion, offset + 4, "version", "only PCAP 2.4 is supported"⟩
    else
      let header : LegacyHeader := ⟨endian, nanos, endian.u32 raw 16, endian.u32 raw 20⟩
      if header.snaplen = 0 then
        fail ⟨.invalidLength, offset + 16, "snaplen", "classic PCAP snaplen must be nonzero"⟩
      else do
        update (fun d => { d with
          format := some .pcap
          endian := endian
          legacy := some header })
        pure ⟨endian, .legacyHeader header, [], []⟩

def legacyTime (d : Decoder) (header : LegacyHeader) (raw : List U8) (offset : ℕ) :
    Result (Option Timestamp × List Warning) :=
  match Timestamp.legacy (d.endian.u32 raw 0) (d.endian.u32 raw 4) header.nanos with
  | .ok t => .ok (some t, [])
  | .error e =>
    if d.mode = .strict then .error { e with offset := offset + 4 }
    else .ok (none, [⟨"invalid_timestamp_fraction", offset + 4⟩])

def decodeLegacyPacket (raw : List U8) (offset : ℕ) : DecodeM Body := do
  let d ← read
  match d.legacy with
  | none => fail ⟨.invariant, offset, "state", "missing global header"⟩
  | some header => do
    let cap := d.endian.u32 raw 8
    let orig := d.endian.u32 raw 12
    let lengths ← lift (validateLengths cap orig header.snaplen d.mode offset)
    let time ← lift (d.legacyTime header raw offset)
    takeFrame
    pure ⟨d.endian, .packet {
      frame := d.nextFrame
      sectionId := 0
      interface := 0
      linkType := header.linkWord &&& 0xffff
      capturedLen := cap
      originalLen := orig
      dataOffset := 16
      timestamp := time.1 }, [], lengths ++ time.2⟩

/-- The end of a section of declared length, `-1` meaning unknown. -/
def sectionStop (declared : ℤ) (offset need : ℕ) : Result (Option ℕ) :=
  if declared = -1 then .ok none
  else match (checkedAdd offset need).bind (checkedAdd · declared.toNat) with
    | some stop => .ok (some stop)
    | none => .error (Error.limit "section_length")

def sectionBlock (endian : Endian) (raw : List U8) (offset : ℕ) : DecodeM Body := do
  let d ← read
  let declared := (endian.u64 raw 16).toInt
  if endian.u16 raw 12 ≠ 1 ∨ endian.u16 raw 14 ≠ 0 then
    fail ⟨.unsupportedVersion, offset + 12, "version", "only PCAPNG section 1.0 is decoded"⟩
  else if declared < -1 then
    fail ⟨.invalidLength, offset + 16, "section_length", "negative section length other than -1"⟩
  else if declared ≥ 0 ∧ declared % 4 ≠ 0 then
    fail ⟨.invalidLength, offset + 16, "section_length",
      "finite section length must be 32-bit aligned"⟩
  else do
    let options ← lift (parseOptions raw 24 (raw.length - 4) endian offset d.limits)
    let stop ← lift (sectionStop declared offset raw.length)
    if d.sectionsSeen.toNat + 1 ≥ 2 ^ 32 then fail (Error.limit "sections")
    else do
      update (fun d => { d with
        sectionsSeen := d.sectionsSeen + 1
        sectionId := d.sectionsSeen
        sectionEnd := stop
        endian := endian
        interfaces := []
        format := some .pcapNg })
      pure ⟨endian, .sectionHeader d.sectionsSeen
        (if declared < 0 then none else some declared.toNat), options, []⟩

structure Clock where
  resolution : Resolution
  offsetSeconds : U64
  seenResolution : Bool
  seenOffset : Bool

/-- One round of the interface option loop. -/
def clockOption (raw : List U8) (endian : Endian) (offset : ℕ) (clock : Clock) (o : OptionMeta) :
    Result Clock :=
  if o.code = 9 then
    if o.length ≠ 1 ∨ clock.seenResolution then
      .error ⟨.invalidOption, offset + o.valueOffset, "if_tsresol",
        "expected one nonduplicated octet"⟩
    else .ok { clock with
      resolution := .fromPcapng (byteAt raw o.valueOffset)
      seenResolution := true }
  else if o.code = 14 then
    if o.length ≠ 8 ∨ clock.seenOffset then
      .error ⟨.invalidOption, offset + o.valueOffset, "if_tsoffset",
        "expected one nonduplicated signed 64-bit value"⟩
    else .ok { clock with
      offsetSeconds := endian.u64 raw o.valueOffset
      seenOffset := true }
  else .ok clock

def interfaceBlock (endian : Endian) (raw : List U8) (offset : ℕ) : DecodeM Body := do
  let d ← read
  lift (minimum raw.length 20 offset "interface")
  if d.interfaces.length ≥ d.limits.maxInterfaces then fail (Error.limit "interfaces")
  else do
    let options ← lift (parseOptions raw 16 (raw.length - 4) endian offset d.limits)
    let clock ← lift (options.foldlM (clockOption raw endian offset) ⟨.decimal 6, 0, false, false⟩)
    let interface : Interface := {
      sectionId := d.sectionId
      id := BitVec.ofNat 32 d.interfaces.length
      linkType := (endian.u16 raw 8).setWidth 32
      snaplen := endian.u32 raw 12
      resolution := clock.resolution
      offsetSeconds := clock.offsetSeconds }
    update (fun d => { d with interfaces := d.interfaces ++ [interface] })
    pure ⟨endian, .interface interface, options, []⟩

/-- The 64-bit tick count stored as a high and a low word. -/
def ticksAt (endian : Endian) (raw : List U8) (i : ℕ) : U64 :=
  endian.u32 raw i ++ endian.u32 raw (i + 4)

def packetBlock (endian : Endian) (obsolete : Bool) (raw : List U8) (offset : ℕ) :
    DecodeM Body := do
  let d ← read
  lift (minimum raw.length 32 offset "packet")
  let id := if obsolete then (endian.u16 raw 8).setWidth 32 else endian.u32 raw 8
  let interface ← lift (d.interface id offset)
  let cap := endian.u32 raw 20
  let orig := endian.u32 raw 24
  if cap.toNat > d.limits.maxPacketBytes then fail (Error.limit "packet_bytes")
  else do
    let after ← lift (alignedEnd 28 cap.toNat "packet_bytes")
    if after > raw.length - 4 then
      fail ⟨.invalidLength, offset + 20, "captured_length", "packet extends beyond block"⟩
    else do
      let warnings ← lift (validateLengths cap orig interface.snaplen d.mode offset)
      let options ← lift (parseOptions raw after (raw.length - 4) endian offset d.limits)
      takeFrame
      pure ⟨endian, .packet {
        frame := d.nextFrame
        sectionId := d.sectionId
        interface := id
        linkType := interface.linkType
        capturedLen := cap
        originalLen := orig
        dataOffset := 28
        timestamp := some ⟨ticksAt endian raw 12, interface.resolution,
          interface.offsetSeconds⟩ }, options, warnings⟩

def simplePacketBlock (endian : Endian) (raw : List U8) (offset : ℕ) : DecodeM Body := do
  let d ← read
  lift (minimum raw.length 16 offset "simple_packet")
  let interface ← lift (d.interface 0 offset)
  let orig := endian.u32 raw 8
  let cap := if interface.snaplen = 0 then orig else if orig.toNat ≤ interface.snaplen.toNat then orig
    else interface.snaplen
  if cap.toNat > d.limits.maxPacketBytes then fail (Error.limit "packet_bytes")
  else do
    let padded ← lift (align4 cap.toNat)
    if checkedAdd 12 padded ≠ some (raw.length - 4) then
      fail ⟨.invalidLength, offset + 8, "simple_packet",
        "SPB size disagrees with original length and first interface snaplen"⟩
    else do
      takeFrame
      pure ⟨endian, .packet {
        frame := d.nextFrame
        sectionId := d.sectionId
        interface := 0
        linkType := interface.linkType
        capturedLen := cap
        originalLen := orig
        dataOffset := 12
        timestamp := none }, [], []⟩

def missingTerminator (at_ : ℕ) : Error :=
  ⟨.invalidLength, at_, "name_record", "missing record terminator"⟩

def nameAddress (code : U16) : ℕ := if code = 1 then 4 else if code = 2 then 16 else 0

def nameRecords (raw : List U8) (stop : ℕ) (endian : Endian) (offset : ℕ) (limits : Limits) :
    ℕ → ℕ → ℕ → Result (ℕ × ℕ)
  | 0, p, _ => .error (missingTerminator (offset + p))
  | fuel + 1, p, records =>
    if p + 4 > stop then .error (missingTerminator (offset + p))
    else
      let code := endian.u16 raw p
      let n := (endian.u16 raw (p + 2)).toNat
      let p := p + 4
      if code = 0 then
        if n ≠ 0 then
          .error ⟨.invalidLength, offset + p - 2, "name_record", "terminator has nonzero length"⟩
        else .ok (p, records)
      else if records ≥ limits.maxOptions then .error (Error.limit "name_records")
      else do
        let next ← alignedEnd p n "name_record"
        if next > stop then
          .error ⟨.invalidLength, offset + p, "name_record", "record exceeds block"⟩
        else if nameAddress code ≠ 0 ∧ (n ≤ nameAddress code ∨ byteAt raw (p + n - 1) ≠ 0) then
          .error ⟨.invalidLength, offset + p, "name_record",
            "address and NUL-terminated names required"⟩
        else nameRecords raw stop endian offset limits fuel next (records + 1)

def namesBlock (endian : Endian) (raw : List U8) (offset : ℕ) : DecodeM Body := do
  let d ← read
  let stop := raw.length - 4
  let (p, records) ← lift (nameRecords raw stop endian offset d.limits (stop - 8) 8 0)
  let options ← lift (parseOptions raw p stop endian offset d.limits)
  pure ⟨endian, .names records, options, []⟩

def statisticsBlock (endian : Endian) (raw : List U8) (offset : ℕ) : DecodeM Body := do
  let d ← read
  lift (minimum raw.length 24 offset "statistics")
  let interface ← lift (d.interface (endian.u32 raw 8) offset)
  let timestamp : Timestamp :=
    ⟨ticksAt endian raw 12, interface.resolution, interface.offsetSeconds⟩
  let options ← lift (parseOptions raw 20 (raw.length - 4) endian offset d.limits)
  pure ⟨endian, .statistics (endian.u32 raw 8) timestamp, options, []⟩

def secretsBlock (endian : Endian) (raw : List U8) (offset : ℕ) : DecodeM Body := do
  let d ← read
  lift (minimum raw.length 20 offset "secrets")
  let stop ← lift (alignedEnd 16 (endian.u32 raw 12).toNat "secrets")
  if stop > raw.length - 4 then
    fail ⟨.invalidLength, offset + 12, "secrets_length", "secrets extend beyond block"⟩
  else do
    let options ← lift (parseOptions raw stop (raw.length - 4) endian offset d.limits)
    pure ⟨endian, .secrets (endian.u32 raw 8) (endian.u32 raw 12), options, []⟩

def customBlock (endian : Endian) (copyOnEdit : Bool) (raw : List U8) (offset : ℕ) :
    DecodeM Body := do
  lift (minimum raw.length 16 offset "custom")
  pure ⟨endian, .custom (endian.u32 raw 8) copyOnEdit, [], []⟩

/-- The match over the block type. -/
def blockBody (endian : Endian) (raw : List U8) (offset : ℕ) : DecodeM Body :=
  let block := endian.u32 raw 0
  if block = SHB then sectionBlock endian raw offset
  else if block = 1 then interfaceBlock endian raw offset
  else if block = 6 then packetBlock endian false raw offset
  else if block = 2 then packetBlock endian true raw offset
  else if block = 3 then simplePacketBlock endian raw offset
  else if block = 4 then namesBlock endian raw offset
  else if block = 5 then statisticsBlock endian raw offset
  else if block = 10 then secretsBlock endian raw offset
  else if block = 0x00000bad then customBlock endian true raw offset
  else if block = 0x40000bad then customBlock endian false raw offset
  else pure ⟨endian, .unknown block, [], []⟩

def checkSectionEnd (d : Decoder) (isSection : Bool) (offset need : ℕ) : Result Unit :=
  match d.sectionEnd with
  | none => .ok ()
  | some stop =>
    match checkedAdd offset need with
    | none => .error (Error.limit "file_offset")
    | some recordEnd =>
      if (isSection && offset ≠ stop) || (!isSection && recordEnd > stop) then
        .error ⟨.lengthMismatch, offset, "section_length",
          "record violates declared section boundary"⟩
      else .ok ()

def decodeBlock (raw : List U8) (offset : ℕ) : DecodeM Body := do
  let d ← read
  let endian ← lift (d.blockEndian raw offset)
  if (endian.u32 raw (raw.length - 4)).toNat ≠ raw.length then
    fail ⟨.lengthMismatch, offset + raw.length - 4, "block_trailer",
      "leading and trailing lengths differ"⟩
  else do
    lift (d.checkSectionEnd (raw.take 4 = sectionMagic) offset raw.length)
    blockBody endian raw offset

def decodeBody (raw : List U8) (offset : ℕ) : DecodeM Body := do
  let d ← read
  if d.format = none ∧ raw.take 4 ≠ sectionMagic then decodeLegacyHeader raw offset
  else if d.format = some .pcap then decodeLegacyPacket raw offset
  else decodeBlock raw offset

def decode (input : List U8) (offset : ℕ) : DecodeM Decode := do
  let d ← read
  if d.records ≥ d.limits.maxRecords then fail (Error.limit "records")
  else do
    let need ← lift (d.required input offset)
    if input.length < need then pure (.needMore need)
    else do
      let body ← decodeBody (input.take need) offset
      update (fun d => { d with records := d.records + 1 })
      pure (.record ⟨offset, body.endian, input.take need, body.kind, body.options, body.warnings⟩)

def finish (d : Decoder) (offset : ℕ) : Result Unit :=
  if d.format = none then
    .error ⟨.truncated, offset, "capture_header", "empty input is not a capture"⟩
  else if d.sectionEnd.any (· ≠ offset) then
    .error ⟨.truncated, offset, "section_length", "EOF disagrees with declared section length"⟩
  else .ok ()

end Decoder
end PcapEvidence
