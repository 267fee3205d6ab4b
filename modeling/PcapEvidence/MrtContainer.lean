import PcapEvidence.BgpAttributes
import PcapEvidence.BgpSession
import PcapEvidence.CaptureWriter

/-!
# MRT containers

A container is a sequence of records with a common header. Peer tables, RIB records and BGP4MP
records are decoded, others are kept as they are, and one refused record refuses the container. A RIB
record belongs to the peer table of its series. Texts of digests are left out: a digest stands for its
hexadecimal text.
-/

namespace PcapEvidence.MrtContainer

open Bgp.Wire History

inductive AsnWidthSource where
  | peerIndexType | bgp4mpSubtype | tableDumpV2Rib
  deriving DecidableEq

structure MrtLimits where
  inputBytes : ℕ
  records : ℕ
  peers : ℕ
  ribEntries : ℕ
  prefixBytes : ℕ
  pathAttributes : ℕ
  retainedBytes : ℕ
  work : ℕ
  outputBytes : ℕ

namespace MrtLimits

def default : MrtLimits where
  inputBytes := 1024 * 1024
  records := 1024
  peers := 4096
  ribEntries := 4096
  prefixBytes := 16
  pathAttributes := 4096
  retainedBytes := 1024 * 1024
  work := 8 * 1024 * 1024
  outputBytes := 8 * 1024 * 1024

def validate (l : MrtLimits) : Result Unit :=
  if 0 ∈ [l.inputBytes, l.records, l.peers, l.ribEntries, l.prefixBytes, l.pathAttributes,
      l.retainedBytes, l.work, l.outputBytes] ∨ l.inputBytes > 64 * 1024 * 1024 ∨
      l.prefixBytes > 16 then
    .error (Error.limit "mrt_configuration")
  else .ok ()

theorem validate_default : default.validate = .ok () := by
  decide

end MrtLimits

structure MrtSource where
  sourceId : String
  checkpointId : String

structure MrtTime where
  seconds : U32
  microseconds : Option U32

inductive IpAddr where
  | v4 (octets : List U8)
  | v6 (octets : List U8)

structure Peer where
  peerType : U8
  bgpId : List U8
  address : IpAddr
  asn : U32
  asnWidth : U8
  asnWidthSource : AsnWidthSource

structure PeerIndex where
  collectorBgpId : List U8
  viewName : List U8
  peers : List Peer

structure RibEntry where
  peerIndex : U16
  originatedSeconds : U32
  attributes : List U8
  asPathAsnWidth : U8
  asPathAsnWidthSource : AsnWidthSource

structure Rib where
  sequence : U32
  afi : U16
  safi : U8
  route : Prefix
  peerTableOffset : ℕ
  peerTableSha256 : Vector U8 32
  entries : List RibEntry

inductive Bgp4mpPayload where
  | state (old new : U16)
  | message (bytes : List U8)

structure Bgp4mp where
  peerAsn : U32
  localAsn : U32
  asnWidth : U8
  asnWidthSource : AsnWidthSource
  interfaceIndex : U16
  addressAfi : U16
  peerAddress : IpAddr
  localAddress : IpAddr
  locallyGenerated : Bool
  addPath : Bool
  payload : Bgp4mpPayload

inductive MrtBody where
  | peerIndex (index : PeerIndex)
  | rib (rib : Rib)
  | bgp4mp (message : Bgp4mp)
  | opaqueBody (reason : String) (bytes : List U8)

structure MrtRecord where
  offset : ℕ
  length : U32
  recordType : U16
  subtype : U16
  time : MrtTime
  sha256 : Vector U8 32
  body : MrtBody

structure MrtBatch where
  source : MrtSource
  sha256 : Vector U8 32
  byteLength : ℕ
  sourceAuthenticated : Bool
  records : List MrtRecord
  retainedBytes : ℕ
  workCharge : ℕ
  outputCharge : ℕ

structure Cursor where
  bytes : List U8
  place : ℕ
  base : ℕ

namespace Cursor

def new (bytes : List U8) (base : ℕ) : Cursor := ⟨bytes, 0, base⟩

def take (c : Cursor) (n : ℕ) : Result (List U8 × Cursor) :=
  match checkedAdd c.place n with
  | none => .error (Error.limit "mrt_offset")
  | some stop =>
    if stop > c.bytes.length then
      .error (badAt "mrt_truncated" (c.base + c.place) "field exceeds record")
    else .ok (sliceOf c.bytes c.place stop, { c with place := stop })

def u8 (c : Cursor) : Result (U8 × Cursor) := do
  let (b, c) ← c.take 1
  .ok (byteAt b 0, c)

def u16 (c : Cursor) : Result (U16 × Cursor) := do
  let (b, c) ← c.take 2
  .ok (be16 b 0, c)

def u32 (c : Cursor) : Result (U32 × Cursor) := do
  let (b, c) ← c.take 4
  .ok (be32 b 0, c)

def rest (c : Cursor) : List U8 × Cursor := (c.bytes.drop c.place, { c with place := c.bytes.length })

def finish (c : Cursor) : Result Unit :=
  if c.place ≠ c.bytes.length then
    .error (badAt "mrt_length" (c.base + c.place) "trailing bytes in typed record")
  else .ok ()

end Cursor

structure Meter where
  limits : MrtLimits
  peers : ℕ
  entries : ℕ
  attrs : ℕ
  retained : ℕ
  work : ℕ
  output : ℕ

namespace Meter

def new (l : MrtLimits) (input records : ℕ) (source : MrtSource) : Result Meter :=
  let output := records * 256 + source.sourceId.utf8ByteSize + source.checkpointId.utf8ByteSize + 256
  let work := input * 3 + records * 32
  if output ≥ wordBound then .error (Error.limit "mrt_output")
  else if work ≥ wordBound then .error (Error.limit "mrt_work")
  else if output > l.outputBytes ∨ work > l.work then .error (Error.limit "mrt_preflight")
  else .ok ⟨l, 0, 0, 0, 0, work, output⟩

def Bounded (old more cap : ℕ) : Prop := old + more < wordBound ∧ old + more ≤ cap

instance (old more cap : ℕ) : Decidable (Bounded old more cap) := inferInstanceAs (Decidable (_ ∧ _))

def add (m : Meter) (peers entries attrs retained work output : ℕ) : Result Meter :=
  if Bounded m.peers peers m.limits.peers ∧ Bounded m.entries entries m.limits.ribEntries ∧
      Bounded m.attrs attrs m.limits.pathAttributes ∧
      Bounded m.retained retained m.limits.retainedBytes ∧ Bounded m.work work m.limits.work ∧
      Bounded m.output output m.limits.outputBytes then
    .ok { m with
      peers := m.peers + peers
      entries := m.entries + entries
      attrs := m.attrs + attrs
      retained := m.retained + retained
      work := m.work + work
      output := m.output + output }
  else .error (Error.limit "mrt_budget")

/-- Octets that are kept as they are. -/
def keep (m : Meter) (bytes : ℕ) : Result Meter := m.add 0 0 0 bytes bytes (bytes * 2)

end Meter

def address (c : Cursor) (ipv6 : Bool) : Result (IpAddr × Cursor) :=
  if ipv6 then do
    let (b, c) ← c.take 16
    .ok (.v6 b, c)
  else do
    let (b, c) ← c.take 4
    .ok (.v4 b, c)

def readPrefix (c : Cursor) (afi : U16) (l : MrtLimits) : Result (Prefix × Cursor) := do
  let (bits, c) ← c.u8
  match addressWidth afi with
  | none => .error (badAt "mrt_afi" (c.base + c.place - 1) "unsupported prefix AFI")
  | some width =>
    let n := (bits.toNat + 7) / 8
    if bits.toNat > width * 8 ∨ n > l.prefixBytes then
      .error (badAt "mrt_prefix" (c.base + c.place - 1) "prefix exceeds family or configured width")
    else do
      let (octets, c) ← c.take n
      let padded := octets ++ List.replicate (width - n) 0
      .ok (⟨afi, 1, bits, if bits.toNat % 8 ≠ 0 ∧ n ≠ 0 then
        padded.modify (n - 1) (· &&& (0xff <<< (8 - bits.toNat % 8))) else padded⟩, c)

def readAsn (c : Cursor) (wide : Bool) : Result (U32 × Cursor) :=
  if wide then c.u32
  else do
    let (asn, c) ← c.u16
    .ok (asn.setWidth 32, c)

def readLength (c : Cursor) (extended : Bool) : Result (ℕ × Cursor) :=
  if extended then do
    let (n, c) ← c.u16
    .ok (n.toNat, c)
  else do
    let (n, c) ← c.u8
    .ok (n.toNat, c)

def countAttributes : ℕ → Cursor → Meter → Result Meter
  | 0, _, m => .ok m
  | fuel + 1, c, m =>
    if c.place ≥ c.bytes.length then .ok m
    else do
      let (flags, c) ← c.u8
      let (_, c) ← c.u8
      let (n, c) ← readLength c (flags &&& 0x10 ≠ 0)
      let (_, c) ← c.take n
      let m ← m.add 0 0 1 0 4 16
      countAttributes fuel c m

def attrCount (raw : List U8) (base : ℕ) (m : Meter) : Result Meter :=
  countAttributes raw.length (Cursor.new raw base) m

def readPeer (c : Cursor) : Result (Peer × Cursor) := do
  let (peerType, c) ← c.u8
  let (id, c) ← c.take 4
  let (addr, c) ← address c (peerType &&& 1 ≠ 0)
  let (asn, c) ← readAsn c (peerType &&& 2 ≠ 0)
  .ok (⟨peerType, id, addr, asn, if peerType &&& 2 ≠ 0 then 4 else 2, .peerIndexType⟩, c)

def readPeers : ℕ → Cursor → Result (List Peer × Cursor)
  | 0, c => .ok ([], c)
  | count + 1, c => do
    let (peer, c) ← readPeer c
    let (peers, c) ← readPeers count c
    .ok (peer :: peers, c)

def parsePeers (body : List U8) (base : ℕ) (m : Meter) : Result (PeerIndex × Meter) := do
  let (id, c) ← (Cursor.new body base).take 4
  let (viewLen, c) ← c.u16
  let m ← m.keep viewLen.toNat
  let (viewName, c) ← c.take viewLen.toNat
  if (Decoder.fromUtf8 viewName).isNone then
    .error (badAt "mrt_view_name" (base + 6) "peer-index view name is not UTF-8")
  else do
    let (count, c) ← c.u16
    let m ← m.add count.toNat 0 0 0 (count.toNat * 32) (count.toNat * 128)
    if body.length - c.place < count.toNat * 11 then
      .error (badAt "mrt_peer_table" (base + c.place) "peer count exceeds record")
    else do
      let (peers, c) ← readPeers count.toNat c
      c.finish
      .ok (⟨id, viewName, peers⟩, m)

structure Table where
  offset : ℕ
  sha256 : Digest
  size : ℕ

def readEntry (c : Cursor) (size : ℕ) (m : Meter) : Result (RibEntry × Cursor × Meter) := do
  let (peerIndex, c) ← c.u16
  if peerIndex.toNat ≥ size then
    .error (badAt "mrt_peer_index" (c.base + c.place - 2) "RIB peer index outside preceding table")
  else do
    let (originatedSeconds, c) ← c.u32
    let (n, c) ← c.u16
    let attrBase := c.base + c.place
    let (raw, c) ← c.take n.toNat
    let m ← m.keep n.toNat
    let m ← attrCount raw attrBase m
    .ok (⟨peerIndex, originatedSeconds, raw, 4, .tableDumpV2Rib⟩, c, m)

def readEntries (size : ℕ) : ℕ → Cursor → Meter → Result (List RibEntry × Cursor × Meter)
  | 0, c, m => .ok ([], c, m)
  | count + 1, c, m => do
    let (entry, c, m) ← readEntry c size m
    let (entries, c, m) ← readEntries size count c m
    .ok (entry :: entries, c, m)

def readFamily (c : Cursor) (subtype : U16) : Result ((U16 × U8) × Cursor) :=
  if subtype = 2 then .ok ((1, 1), c)
  else if subtype = 4 then .ok ((2, 1), c)
  else do
    let (afi, c) ← c.u16
    let (safi, c) ← c.u8
    .ok ((afi, safi), c)

def parseRoutes (body : List U8) (base : ℕ) (sequence : U32) (afi : U16) (safi : U8) (c : Cursor)
    (table : Option Table) (m : Meter) : Result (Rib × Meter) :=
  match table with
  | none => .error (badAt "mrt_peer_table" base "RIB has no preceding peer table")
  | some table => do
    let (p, c) ← readPrefix c afi m.limits
    let (count, c) ← c.u16
    let m ← m.add 0 count.toNat 0 0 (count.toNat * 16) (count.toNat * 112)
    if body.length - c.place < count.toNat * 8 then
      .error (badAt "mrt_rib_entries" (base + c.place) "entry count exceeds record")
    else do
      let (entries, c, m) ← readEntries table.size count.toNat c m
      c.finish
      .ok (⟨sequence, afi, safi, { p with safi := safi }, table.offset, table.sha256, entries⟩, m)

def parseRib (body : List U8) (base : ℕ) (subtype : U16) (table : Option Table) (m : Meter) :
    Result (Option (Rib × Meter)) := do
  let (sequence, c) ← (Cursor.new body base).u32
  let ((afi, safi), c) ← readFamily c subtype
  if (afi, safi) ≠ (1, 1) ∧ (afi, safi) ≠ (2, 1) then .ok none
  else (parseRoutes body base sequence afi safi c table m).map some

structure Bgp4mpKind where
  width : U8
  state : Bool
  locallyGenerated : Bool
  addPath : Bool

def bgp4mpKind (subtype : U16) : Option Bgp4mpKind :=
  match subtype.toNat with
  | 0 => some ⟨2, true, false, false⟩
  | 1 => some ⟨2, false, false, false⟩
  | 4 => some ⟨4, false, false, false⟩
  | 5 => some ⟨4, true, false, false⟩
  | 6 => some ⟨2, false, true, false⟩
  | 7 => some ⟨4, false, true, false⟩
  | 8 => some ⟨2, false, false, true⟩
  | 9 => some ⟨4, false, false, true⟩
  | 10 => some ⟨2, false, true, true⟩
  | 11 => some ⟨4, false, true, true⟩
  | _ => none

def parseBgp4mpHeader (body : List U8) (base : ℕ) (subtype : U16) :
    Result (Option (Bgp4mp × Cursor × Bool)) :=
  match bgp4mpKind subtype with
  | none => .ok none
  | some kind => do
    let (peerAsn, c) ← readAsn (Cursor.new body base) (kind.width = 4)
    let (localAsn, c) ← readAsn c (kind.width = 4)
    let (interfaceIndex, c) ← c.u16
    let (afi, c) ← c.u16
    if afi ≠ 1 ∧ afi ≠ 2 then .ok none
    else do
      let (peerAddress, c) ← address c (afi = 2)
      let (localAddress, c) ← address c (afi = 2)
      .ok (some (⟨peerAsn, localAsn, kind.width, .bgp4mpSubtype, interfaceIndex, afi, peerAddress,
        localAddress, kind.locallyGenerated, kind.addPath, .message []⟩, c, kind.state))

def readPayload (c : Cursor) (state : Bool) (m : Meter) : Result (Bgp4mpPayload × Cursor × Meter) :=
  if state then do
    let (old, c) ← c.u16
    let (new, c) ← c.u16
    .ok (.state old new, c, m)
  else
    let (message, c) := c.rest
    if message = [] then
      .error (badAt "mrt_bgp_message" (c.base + c.place - message.length)
        "empty embedded BGP message")
    else do
      let m ← m.keep message.length
      .ok (.message message, c, m)

def parseBgp4mp (body : List U8) (base : ℕ) (subtype : U16) (m : Meter) :
    Result (Option (Bgp4mp × Meter)) := do
  match ← parseBgp4mpHeader body base subtype with
  | none => .ok none
  | some (outer, c, state) => do
    let (payload, c, m) ← readPayload c state m
    c.finish
    .ok (some ({ outer with payload := payload }, m))

def inSeries (subtype : U16) : Bool :=
  (1 ≤ subtype.toNat && subtype.toNat ≤ 6) || (8 ≤ subtype.toNat && subtype.toNat ≤ 12)

def opaquely (reason : String) (payload : List U8) (table : Option Table) (m : Meter) :
    Result (MrtBody × Option Table × Meter) := do
  let m ← m.keep payload.length
  .ok (.opaqueBody reason payload, table, m)

def decodeBody (payload : List U8) (start base : ℕ) (digest : Digest) (recordType subtype : U16)
    (table : Option Table) (m : Meter) : Result (MrtBody × Option Table × Meter) :=
  if recordType = 13 ∧ subtype = 1 then do
    let (index, m) ← parsePeers payload base m
    .ok (.peerIndex index, some ⟨start, digest, index.peers.length⟩, m)
  else if recordType = 13 ∧ (subtype = 2 ∨ subtype = 4 ∨ subtype = 6) then do
    match ← parseRib payload base subtype table m with
    | some (rib, m) => .ok (.rib rib, table, m)
    | none => opaquely "unsupported_afi_safi" payload table m
  else if recordType = 16 ∨ recordType = 17 then
    match parseBgp4mp payload base subtype m with
    | .ok (some (message, m)) => .ok (.bgp4mp message, table, m)
    | .ok none => opaquely "unsupported_bgp4mp_subtype_or_afi" payload table m
    | .error e =>
      if e.code = .limitExceeded then .error e
      else opaquely "malformed_bgp4mp_record" payload table m
  else opaquely "unsupported_type_or_subtype" payload table m

def readMicroseconds (recordType : U16) (payload : List U8) (offset : ℕ) : Result (Option U32) :=
  if recordType = 17 ∧ ¬ payload.length < 4 then do
    let (us, _) ← (Cursor.new payload (offset + 12)).u32
    .ok (some us)
  else .ok none

def decodePayload (payload : List U8) (offset : ℕ) (digest : Digest) (recordType subtype : U16)
    (microseconds : Option U32) (table : Option Table) (m : Meter) :
    Result (MrtBody × Option Table × Meter) :=
  if recordType = 17 ∧ payload.length < 4 then
    opaquely "malformed_bgp4mp_record" payload table m
  else if microseconds.isSome then
    decodeBody (payload.drop 4) offset (offset + 12 + 4) digest recordType subtype table m
  else decodeBody payload offset (offset + 12) digest recordType subtype table m

/-- A record outside of a RIB series ends the association with its peers. -/
def seriesTable (recordType subtype : U16) (table : Option Table) : Option Table :=
  if recordType ≠ 13 ∨ !inSeries subtype then none else table

def decodeRecord (raw : List U8) (offset : ℕ) (table : Option Table) (m : Meter) :
    Result (MrtRecord × Option Table × Meter) :=
  if offset + raw.length ≥ wordBound then .error (Error.limit "mrt_offset")
  else if raw.length < 12 then .error (badAt "mrt_header" offset "partial common header")
  else if (be32 raw 8).toNat + 12 ≠ raw.length then
    .error (badAt "mrt_length" offset "record extent mismatch")
  else do
    let (seconds, h) ← (Cursor.new (raw.take 12) offset).u32
    let (recordType, h) ← h.u16
    let (subtype, h) ← h.u16
    let (declared, _) ← h.u32
    if declared ≠ be32 raw 8 then .error (badAt "mrt_length" (offset + 8) "preflight mismatch")
    else do
      let microseconds ← readMicroseconds recordType (raw.drop 12) offset
      let (body, table, m) ← decodePayload (raw.drop 12) offset (Sha256.digest raw) recordType subtype
        microseconds (seriesTable recordType subtype table) m
      .ok (⟨offset, be32 raw 8, recordType, subtype, ⟨seconds, microseconds⟩, Sha256.digest raw, body⟩,
        table, m)

def preflight (input : List U8) (l : MrtLimits) : ℕ → ℕ → List (ℕ × ℕ) → Result (List (ℕ × ℕ))
  | 0, _, starts => .ok starts
  | fuel + 1, start, starts =>
    if start ≥ input.length then .ok starts
    else if input.length - start < 12 then
      .error (badAt "mrt_header" start "partial common header")
    else
      let stop := start + 12 + (be32 input (start + 8)).toNat
      if stop ≥ wordBound then .error (Error.limit "mrt_length")
      else if stop > input.length then
        .error (badAt "mrt_record" start "record length exceeds input")
      else if starts.length ≥ l.records then .error (Error.limit "mrt_records")
      else preflight input l fuel stop (starts ++ [(start, stop)])

def decodeRecords (input : List U8) : List (ℕ × ℕ) → Option Table → Meter →
    Result (List MrtRecord × Meter)
  | [], _, m => .ok ([], m)
  | (start, stop) :: more, table, m => do
    let (record, table, m) ← decodeRecord (sliceOf input start stop) start table m
    let (records, m) ← decodeRecords input more table m
    .ok (record :: records, m)

/-- An identity is a bounded text with something to see and nothing to control. -/
def identityRefused (id : String) : Prop :=
  id = "" ∨ id.utf8ByteSize > 1024 ∨ id.toList.any isControl ∨ id.toList.all Bgp.Session.isWhitespace

instance (id : String) : Decidable (identityRefused id) := inferInstanceAs (Decidable (_ ∨ _))

namespace MrtBatch

def parse (input : List U8) (source : MrtSource) (l : MrtLimits) : Result MrtBatch := do
  l.validate
  if input = [] ∨ input.length > l.inputBytes ∨ identityRefused source.sourceId ∨
      identityRefused source.checkpointId then
    .error (Error.limit "mrt_input_or_identity")
  else if ¬ (input.length * 3 < wordBound ∧ input.length * 3 ≤ l.work) then
    .error (Error.limit "mrt_work_preflight")
  else do
    let starts ← preflight input l input.length 0 []
    let m ← Meter.new l input.length starts.length source
    let (records, m) ← decodeRecords input starts none m
    .ok ⟨source, Sha256.digest input, input.length, false, records, m.retained, m.work, m.output⟩

variable (b : MrtBatch)

def lowerBound (offset : ℕ) : ℕ → ℕ → ℕ → ℕ → ℕ × ℕ
  | 0, low, _, probes => (low, probes)
  | fuel + 1, low, high, probes =>
    if low < high then
      let middle := low + (high - low) / 2
      if (b.records[middle]?.map (·.offset)).any (· < offset) then
        lowerBound offset fuel (middle + 1) high (probes + 1)
      else lowerBound offset fuel low middle (probes + 1)
    else (low, probes)

def recordIndexByOffset (offset : ℕ) : Option (ℕ × ℕ) :=
  let (low, probes) := b.lowerBound offset b.records.length 0 b.records.length 0
  match b.records[low]? with
  | none => none
  | some record => if record.offset = offset then some (low, probes + 1) else none

end MrtBatch

structure SourceRange where
  start : ℕ
  stop : ℕ
  sha256 : Option Digest

def rangeError (detail : String) : Error := badAt "mrt_message_range" 0 detail

def messageKind (subtype : U16) : Option (U8 × Bool × Bool) :=
  match subtype.toNat with
  | 1 => some (2, false, false)
  | 4 => some (4, false, false)
  | 6 => some (2, true, false)
  | 7 => some (4, true, false)
  | 8 => some (2, false, true)
  | 9 => some (4, false, true)
  | 10 => some (2, true, true)
  | 11 => some (4, true, true)
  | _ => none

def addressBytes (message : Bgp4mp) : Option ℕ :=
  match message.addressAfi.toNat, message.peerAddress, message.localAddress with
  | 1, .v4 _, .v4 _ => some 4
  | 2, .v6 _, .v6 _ => some 16
  | _, _, _ => none

def layoutDisagrees (record : MrtRecord) (message : Bgp4mp) (kind : U8 × Bool × Bool) : Prop :=
  (record.recordType ≠ 16 ∧ record.recordType ≠ 17) ∨
    (decide (record.recordType = 17) ≠ record.time.microseconds.isSome) ∨
    message.asnWidth ≠ kind.1 ∨ message.asnWidthSource ≠ .bgp4mpSubtype ∨
    message.locallyGenerated ≠ kind.2.1 ∨ message.addPath ≠ kind.2.2 ∨
    (kind.1 = 2 ∧ (message.peerAsn.toNat > 65535 ∨ message.localAsn.toNat > 65535))

instance (record : MrtRecord) (message : Bgp4mp) (kind : U8 × Bool × Bool) :
    Decidable (layoutDisagrees record message kind) := inferInstanceAs (Decidable (_ ∨ _))

namespace MrtBatch

variable (b : MrtBatch)

def messageRange (record : MrtRecord) (message : Bgp4mp) (bytes : List U8) :
    Result (Option SourceRange) :=
  match messageKind record.subtype with
  | none => .error (rangeError "not a message subtype")
  | some kind =>
    if layoutDisagrees record message kind then
      .error (rangeError "container layout metadata disagrees")
    else match addressBytes message with
    | none => .error (rangeError "address family metadata disagrees")
    | some width =>
      if bytes = [] then .error (rangeError "embedded byte range is empty")
      else
        let preamble := (if record.recordType = 17 then 4 else 0) + kind.1.toNat * 2 + 4 + width * 2
        if checkedAdd preamble bytes.length ≠ some record.length.toNat then
          .error (rangeError "record length does not match message range")
        else if record.offset + 12 + preamble ≥ wordBound then
          .error (Error.limit "mrt_message_range")
        else
          let start := record.offset + 12 + preamble
          if start + bytes.length ≥ wordBound ∨ start + bytes.length > b.byteLength then
            .error (Error.limit "mrt_message_range")
          else .ok (some ⟨start, start + bytes.length, some (Sha256.digest bytes)⟩)

def bgp4mpMessageSourceRange (index : ℕ) : Result (Option SourceRange) :=
  match b.records[index]? with
  | none => .error (badAt "mrt_record_index" 0 "missing record")
  | some record =>
    match record.body with
    | .bgp4mp message =>
      match message.payload with
      | .message bytes => b.messageRange record message bytes
      | .state _ _ => .ok none
    | _ => .ok none

def headerBytes (record : MrtRecord) : List U8 :=
  Endian.big.putU32 record.time.seconds ++ Endian.big.putU16 record.recordType ++
    Endian.big.putU16 record.subtype ++ Endian.big.putU32 record.length

def sourceError (offset : ℕ) (detail : String) : Error := badAt "mrt_message_source" offset detail

def verifyRange (record : MrtRecord) (source : List U8) (range : SourceRange) :
    Result (Option SourceRange) :=
  if ¬ (record.offset ≤ range.stop ∧ range.stop ≤ source.length) then
    .error (sourceError record.offset "record is outside original source")
  else
    let original := sliceOf source record.offset range.stop
    if original.length < 12 ∨ original.take 12 ≠ headerBytes record ∨
        Sha256.digest original ≠ record.sha256 then
      .error (sourceError record.offset "enclosing record binding disagrees")
    else if record.time.microseconds.any fun us =>
        ¬ (16 ≤ original.length ∧ sliceOf original 12 16 = Endian.big.putU32 us) then
      .error (sourceError record.offset "extended timestamp binding disagrees")
    else match record.body with
    | .bgp4mp message =>
      match message.payload with
      | .message bytes =>
        if ¬ (range.start ≤ range.stop ∧ sliceOf source range.start range.stop = bytes) then
          .error (sourceError range.start "located message differs from original bytes")
        else .ok (some range)
      | .state _ _ => .error (sourceError record.offset "message payload disappeared")
    | _ => .error (sourceError record.offset "message record disappeared")

def verifiedBgp4mpMessageSourceRange (index : ℕ) (source : List U8) : Result (Option SourceRange) :=
  if source.length > 64 * 1024 * 1024 ∨ source.length ≠ b.byteLength then
    .error (Error.limit "mrt_message_source")
  else if Sha256.digest source ≠ b.sha256 then
    .error (sourceError 0 "batch digest disagrees with original bytes")
  else match b.records[index]? with
  | none => .error (badAt "mrt_record_index" 0 "missing record")
  | some record =>
    if record.offset + 12 ≥ wordBound then .error (Error.limit "mrt_message_source")
    else if record.offset + 12 > source.length then
      .error (sourceError record.offset "record header is outside original source")
    else if sliceOf source record.offset (record.offset + 12) ≠ headerBytes record then
      .error (sourceError record.offset "record header differs from original source")
    else do
      match ← b.bgp4mpMessageSourceRange index with
      | none =>
        if (record.recordType = 16 ∨ record.recordType = 17) ∧ (messageKind record.subtype).isSome then
          .error (sourceError record.offset
            "source identifies a BGP4MP message but its parsed payload is absent")
        else .ok none
      | some range => verifyRange record source range

end MrtBatch

end PcapEvidence.MrtContainer
