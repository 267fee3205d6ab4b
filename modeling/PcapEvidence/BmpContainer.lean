import PcapEvidence.BgpAttributes
import PcapEvidence.BgpImport

/-!
# A container of monitoring records

A source of BMP records is framed by the lengths of its records. A record that is framed but cannot be
read stays in its place as an opaque one, so the records of a source cover it without a gap.
-/

namespace PcapEvidence.Bgp.Bmp

open History Import Wire

def COMMON_BYTES : ℕ := 6

def PEER_BYTES : ℕ := 42

def containerSchema : String := "pcap-evidence.bgp.bmp-container.v1"

structure BmpLimits where
  inputBytes : ℕ
  recordBytes : ℕ
  records : ℕ
  peers : ℕ
  tlvs : ℕ
  retainedBytes : ℕ
  work : ℕ
  outputBytes : ℕ

namespace BmpLimits

def default : BmpLimits where
  inputBytes := 8 * 1024 * 1024
  recordBytes := 1024 * 1024
  records := 4096
  peers := 256
  tlvs := 4096
  retainedBytes := 16 * 1024 * 1024
  work := 32 * 1024 * 1024
  outputBytes := 32 * 1024 * 1024

def validate (l : BmpLimits) : Result Unit :=
  if 0 ∈ [l.inputBytes, l.recordBytes, l.records, l.peers, l.tlvs, l.retainedBytes, l.work,
      l.outputBytes] ∨ l.inputBytes > 64 * 1024 * 1024 ∨ l.recordBytes > l.inputBytes then
    .error (Error.limit "bmp_configuration")
  else .ok ()

theorem validate_default : default.validate = .ok () := by
  decide

end BmpLimits

structure BmpSource where
  sourceId : String
  checkpointId : String

inductive IpAddr where
  | v4 (octets : List U8)
  | v6 (octets : List U8)
  deriving DecidableEq

structure BmpPeerIdentity where
  peerType : U8
  distinguisher : List U8
  address : IpAddr
  asn : U32
  bgpId : List U8
  deriving DecidableEq

structure BmpPeer where
  identity : BmpPeerIdentity
  flags : U8
  seconds : U32
  microseconds : U32

namespace BmpPeer

variable (p : BmpPeer)

def postPolicy : Bool := p.flags &&& 0x40 ≠ 0

def asnWidth : ℕ := if p.flags &&& 0x20 ≠ 0 then 2 else 4

def observedAtNs : Option ℤ :=
  if (p.seconds = 0 ∧ p.microseconds = 0) ∨ p.microseconds.toNat ≥ 1000000 then none
  else some (p.seconds.toNat * 1000000000 + p.microseconds.toNat * 1000)

end BmpPeer

structure BmpTlv where
  kind : U16
  value : SourceRange
  deriving DecidableEq

inductive OpaqueReason where
  | malformedKnownRecord
  | unknownMessageType
  | unsupportedMessageType
  | unsupportedPeerType
  | unsupportedAdjRibOut
  | unsupportedPeerDownReason
  | unsupportedTerminationReason
  deriving DecidableEq

inductive BmpBody where
  | routeMonitoring (message : SourceRange)
  | peerUp (localAddress : IpAddr) (localPort remotePort : U16) (sentOpen receivedOpen : SourceRange)
      (information : List BmpTlv)
  | peerDown (reason : U8) (data : Option SourceRange)
  | initiation (information : List BmpTlv)
  | termination (information : List BmpTlv)
  | opaqueBytes (reason : OpaqueReason) (errorOffset : Option ℕ)
  deriving DecidableEq

structure BmpRecord where
  offset : ℕ
  length : ℕ
  messageType : U8
  sha256 : String
  peer : Option BmpPeer
  body : BmpBody

structure BmpBatch where
  source : BmpSource
  sha256 : String
  byteLength : ℕ
  records : List BmpRecord
  bytes : List U8
  retainedCharge : ℕ
  workCharge : ℕ
  outputCharge : ℕ

structure Sizes where
  record : ℕ
  peerIdentity : ℕ
  tlv : ℕ

def truncated (offset : ℕ) (context : String) : Error :=
  ⟨.truncated, offset, context, "truncated BMP field"⟩

def digestText (sha256 : List U8 → Digest) (bytes : List U8) : String := hex (sha256 bytes).toList

namespace BmpBatch

variable (sha256 : List U8 → Digest) (b : BmpBatch)

def rangeBytes (r : SourceRange) : Result (List U8) :=
  if r.start > r.stop ∨ r.stop > b.bytes.length then
    .error (badAt "bmp_range" r.start "range outside source")
  else
    let bytes := sliceOf b.bytes r.start r.stop
    if r.sha256 ≠ some (digestText sha256 bytes) then
      .error (badAt "bmp_range" r.start "range digest disagrees with source")
    else .ok bytes

end BmpBatch

def BmpRecord.range (r : BmpRecord) : SourceRange := ⟨r.offset, r.offset + r.length, some r.sha256⟩

structure Budget where
  retained : ℕ
  work : ℕ
  output : ℕ
  tlvs : ℕ

abbrev Framing (α : Type) : Type := Method Budget Error α

def grow (a b : ℕ) (field : String) : Result ℕ :=
  if a + b < wordBound then .ok (a + b) else .error (Error.limit field)

def charged (l : BmpLimits) (b : Budget) (retained work output : ℕ) : Result Budget := do
  let retained ← grow b.retained retained "bmp_retained"
  let work ← grow b.work work "bmp_work"
  let output ← grow b.output output "bmp_output"
  if retained > l.retainedBytes then .error (Error.limit "bmp_retained")
  else if work > l.work then .error (Error.limit "bmp_work")
  else if output > l.outputBytes then .error (Error.limit "bmp_output")
  else return ⟨retained, work, output, b.tlvs⟩

def charge (l : BmpLimits) (retained work output : ℕ) : Framing Unit := do
  let b ← Method.read
  let b ← Method.lift (charged l b retained work output)
  Method.update fun _ => b

def countTlv (l : BmpLimits) : Framing Unit := do
  let b ← Method.read
  if b.tlvs + 1 > l.tlvs then Method.fail (Error.limit "bmp_tlvs")
  else Method.update fun b => { b with tlvs := b.tlvs + 1 }

section Fields

variable (sha256 : List U8 → Digest) (l : BmpLimits) (input : List U8)

def sourceRange (start stop : ℕ) : Framing SourceRange := do
  charge l 64 (stop - start) 64
  return ⟨start, stop, some (digestText sha256 (sliceOf input start stop))⟩

def address (bytes : List U8) (v6 : Bool) : Result IpAddr :=
  if v6 then .ok (.v6 bytes)
  -- Padding is a reported representation constraint, not a second peer.
  else if (bytes.take 12).any (· ≠ 0) then .error (badAt "bmp_ipv4_padding" 0 "nonzero IPv4 padding")
  else .ok (.v4 (bytes.drop 12))

def parsePeer (b : List U8) : Result BmpPeer := do
  let flags := byteAt b 1
  let address ← address (sliceOf b 10 26) (flags &&& 0x80 ≠ 0)
  return ⟨⟨byteAt b 0, sliceOf b 2 10, address, be32 b 26, sliceOf b 30 34⟩, flags, be32 b 34,
    be32 b 38⟩

def embedded (start stop : ℕ) (kind : U8) : Framing SourceRange :=
  if start + 19 > input.length ∨ start + 19 > stop then
    Method.fail (truncated start "bmp_bgp_header")
  else if (sliceOf input start (start + 16)).any (· ≠ 255) ∨ byteAt input (start + 18) ≠ kind then
    Method.fail (badAt "bmp_bgp_header" start "invalid BGP marker/type")
  else
    let length := (be16 input (start + 16)).toNat
    if length < 19 ∨ start + length > stop then
      Method.fail (badAt "bmp_bgp_length" (start + 16) "invalid BGP extent")
    else sourceRange sha256 l input start (start + length)

def isTextTlv (space : ℕ) (kind : U16) : Bool :=
  match space with
  | 3 => kind = 0 || kind = 3 || kind = 4
  | 4 => kind = 0
  | 5 => kind = 0
  | _ => false

def checkTlv (space : ℕ) (kind : U16) (start : ℕ) (raw : List U8) : Result Unit :=
  if isTextTlv space kind ∧ (Decoder.fromUtf8 raw).isNone then
    .error (badAt "bmp_tlv_string" start "invalid UTF-8 string")
  else if space = 3 ∧ kind = 3 ∧ (raw.length = 0 ∨ raw.length > 255) then
    .error (badAt "bmp_tlv_vrf" start "VRF name requires 1..255 bytes")
  else if space = 4 ∧ (kind = 1 ∨ kind = 2) ∧ raw.any (· > 127) then
    .error (badAt "bmp_tlv_ascii" start "sysDescr/sysName requires ASCII")
  else if space = 5 ∧ kind = 1 ∧ raw.length ≠ 2 then
    .error (badAt "bmp_termination_reason" start "reason TLV requires two bytes")
  else .ok ()

def tlv (m : Sizes) (start stop space : ℕ) : Framing BmpTlv :=
  if start + 4 > input.length ∨ start + 4 > stop then Method.fail (truncated start "bmp_tlv_header")
  else
    let kind := be16 input start
    let next := start + 4 + (be16 input (start + 2)).toNat
    if next > stop then
      Method.fail (badAt "bmp_tlv_length" (start + 2) "TLV exceeds record")
    else do
      countTlv l
      Method.lift (checkTlv space kind (start + 4) (sliceOf input (start + 4) next))
      charge l (m.tlv + 64) 4 (m.tlv + 64)
      let value ← sourceRange sha256 l input (start + 4) next
      return ⟨kind, value⟩

/-- The loop over the information of a record, with the length as enough fuel. -/
def tlvs (m : Sizes) (stop space : ℕ) : ℕ → ℕ → List BmpTlv → Framing (List BmpTlv)
  | 0, _, values => pure values
  | fuel + 1, start, values =>
    if start ≥ stop then pure values
    else do
      let item ← tlv sha256 l input m start stop space
      tlvs m stop space fuel item.value.stop (values ++ [item])

end Fields

section Bodies

variable (sha256 : List U8 → Digest) (l : BmpLimits) (m : Sizes) (input : List U8) (offset : ℕ)
  (bytes : List U8)

def bodyStart : ℕ := offset + COMMON_BYTES + PEER_BYTES

def recordEnd : ℕ := offset + bytes.length

def checkPeer (kind : U8) (peer : Option BmpPeer) : Result (Option OpaqueReason) :=
  if COMMON_BYTES < bytes.length ∧ byteAt bytes COMMON_BYTES > 2 then .ok (some .unsupportedPeerType)
  else match peer with
    | none => .error (truncated (offset + COMMON_BYTES) "bmp_per_peer")
    | some peer =>
      if peer.identity.peerType = 0 ∧ peer.identity.distinguisher ≠ List.replicate 8 0 then
        .error (badAt "bmp_global_distinguisher" (offset + 8)
          "global peer distinguisher must be zero")
      else if peer.microseconds.toNat ≥ 1000000 then
        .error (badAt "bmp_timestamp" (offset + 44) "microseconds out of range")
      else if kind = 0 ∧ peer.flags &&& 0x10 ≠ 0 then .ok (some .unsupportedAdjRibOut)
      else .ok none

def routeMonitoring : Framing BmpBody := do
  let message ← embedded sha256 l input (bodyStart offset) (recordEnd offset bytes) 2
  if message.stop ≠ recordEnd offset bytes then
    Method.fail (badAt "bmp_route_monitoring" (bodyStart offset) "UPDATE must fill record")
  else return .routeMonitoring message

def peerUp (flags : U8) : Framing BmpBody :=
  let start := COMMON_BYTES + PEER_BYTES
  if bytes.length < start + 20 then Method.fail (truncated (bodyStart offset) "bmp_peer_up")
  else do
    let localAddress ← Method.lift (address (sliceOf bytes start (start + 16)) (flags &&& 0x80 ≠ 0))
    let sentOpen ← embedded sha256 l input (bodyStart offset + 20) (recordEnd offset bytes) 1
    let receivedOpen ← embedded sha256 l input sentOpen.stop (recordEnd offset bytes) 1
    let information ← tlvs sha256 l input m (recordEnd offset bytes) 3
      (recordEnd offset bytes - receivedOpen.stop) receivedOpen.stop []
    return .peerUp localAddress (be16 bytes (start + 16)) (be16 bytes (start + 18)) sentOpen
      receivedOpen information

def peerDown : Framing BmpBody :=
  let start := COMMON_BYTES + PEER_BYTES
  let dataStart := bodyStart offset + 1
  let stop := recordEnd offset bytes
  if bytes.length ≤ start then Method.fail (truncated (bodyStart offset) "bmp_peer_down")
  else
    let reason := byteAt bytes start
    if reason = 1 ∨ reason = 3 then do
      let range ← embedded sha256 l input dataStart stop 3
      if range.stop ≠ stop ∨ range.stop - range.start < 21 then
        Method.fail (badAt "bmp_peer_down" dataStart "invalid NOTIFICATION extent")
      else return .peerDown reason (some range)
    else if reason = 2 then
      if stop - dataStart ≠ 2 then
        Method.fail (badAt "bmp_peer_down" dataStart "FSM event requires two bytes")
      else do
        let range ← sourceRange sha256 l input dataStart stop
        return .peerDown reason (some range)
    else if reason = 4 ∨ reason = 5 then
      if stop ≠ dataStart then Method.fail (badAt "bmp_peer_down" dataStart "unexpected reason data")
      else return .peerDown reason none
    else return .opaqueBytes .unsupportedPeerDownReason none

def informationOf (space : ℕ) : Framing (List BmpTlv) :=
  tlvs sha256 l input m (recordEnd offset bytes) space (bytes.length - COMMON_BYTES)
    (offset + COMMON_BYTES) []

def initiation : Framing BmpBody := do
  let information ← informationOf sha256 l m input offset bytes 4
  if !information.any (·.kind = 1) || !information.any (·.kind = 2) then
    Method.fail (badAt "bmp_initiation" (offset + COMMON_BYTES) "sysDescr and sysName required")
  else return .initiation information

def terminationReason (reason : Option ℕ) (item : BmpTlv) : Result (Option ℕ) :=
  let code := (be16 input item.value.start).toNat
  if reason.any (· ≠ code) then
    .error (badAt "bmp_termination_reason" item.value.start "contradictory reason TLVs")
  else .ok (some code)

def termination : Framing BmpBody := do
  let information ← informationOf sha256 l m input offset bytes 5
  let reason ← Method.lift
    ((information.filter (·.kind = 1)).foldlM (terminationReason input) none)
  match reason with
  | none =>
    Method.fail (badAt "bmp_termination_reason" (offset + COMMON_BYTES) "reason TLV required")
  | some reason =>
    if reason > 4 then return .opaqueBytes .unsupportedTerminationReason none
    else return .termination information

def perPeerBody (kind : U8) (peer : Option BmpPeer) (body : U8 → Framing BmpBody) :
    Framing BmpBody := do
  let reason ← Method.lift (checkPeer offset bytes kind peer)
  match reason with
  | some reason => return .opaqueBytes reason none
  | none => body (peer.elim 0 BmpPeer.flags)

def parseBody (kind : U8) (peer : Option BmpPeer) : Framing BmpBody :=
  match kind.toNat with
  | 0 => perPeerBody offset bytes kind peer fun _ => routeMonitoring sha256 l input offset bytes
  | 1 | 6 => pure (.opaqueBytes .unsupportedMessageType none)
  | 2 => perPeerBody offset bytes kind peer fun _ => peerDown sha256 l input offset bytes
  | 3 => perPeerBody offset bytes kind peer (peerUp sha256 l m input offset bytes)
  | 4 => initiation sha256 l m input offset bytes
  | 5 => termination sha256 l m input offset bytes
  | _ => pure (.opaqueBytes .unknownMessageType none)

end Bodies

section Parse

variable (sha256 : List U8 → Digest) (l : BmpLimits) (m : Sizes) (input : List U8)

/-- What framing has read of a source. -/
structure ParseState where
  offset : ℕ
  records : List BmpRecord
  peers : List BmpPeerIdentity
  budget : Budget

/-- The per-peer header of a record, where its layout is known. -/
def peerOf (kind : U8) (bytes : List U8) : Result (Option BmpPeer) :=
  if kind ∈ ([0, 1, 2, 3, 6] : List U8) ∧ bytes.length ≥ COMMON_BYTES + PEER_BYTES ∧
      byteAt bytes COMMON_BYTES ≤ 2 then
    (parsePeer (sliceOf bytes COMMON_BYTES (COMMON_BYTES + PEER_BYTES))).map some
  else .ok none

def admitPeer (peers : List BmpPeerIdentity) (b : Budget) :
    Option BmpPeer → Result (List BmpPeerIdentity × Budget)
  | none => .ok (peers, b)
  | some peer =>
    if peer.identity ∈ peers then .ok (peers, b)
    else if peers.length ≥ l.peers then .error (Error.limit "bmp_peers")
    else do
      let b ← charged l b m.peerIdentity 1 m.peerIdentity
      return (peers ++ [peer.identity], b)

/-- Only an exhausted budget fails the source. Any other failure keeps the record opaque. -/
def settleBody (body : Result BmpBody) : Result BmpBody :=
  match body with
  | .ok body => .ok body
  | .error e =>
    if e.code = .limitExceeded then .error e
    else .ok (.opaqueBytes .malformedKnownRecord (some e.offset))

def readBody (offset : ℕ) (bytes : List U8) (kind : U8) (b : Budget) :
    Result (Option BmpPeer) → Result BmpBody × Budget
  | .ok peer => parseBody sha256 l m input offset bytes kind peer b
  | .error e => (.error e, b)

def recordLength (offset : ℕ) : Result ℕ :=
  if offset + COMMON_BYTES > input.length then .error (truncated offset "bmp_common")
  else if byteAt input offset ≠ 3 then
    .error ⟨.unsupportedVersion, offset, "bmp_version", "only BMP v3 supported"⟩
  else
    let length := (be32 input (offset + 1)).toNat
    if length < COMMON_BYTES then
      .error (badAt "bmp_length" (offset + 1) "common length smaller than header")
    else if length > l.recordBytes then .error (Error.limit "bmp_record_bytes")
    else if offset + length > input.length then .error (truncated offset "bmp_record")
    else .ok length

def parseRecord (s : ParseState) : Result ParseState := do
  let length ← recordLength l input s.offset
  let bytes := sliceOf input s.offset (s.offset + length)
  let budget ← charged l s.budget (m.record + 64) length (m.record + 64)
  let kind := byteAt bytes 5
  let found := peerOf kind bytes
  let (peers, budget) ← admitPeer l m s.peers budget (found.toOption.getD none)
  let (body, budget) := readBody sha256 l m input s.offset bytes kind budget found
  let body ← settleBody body
  return ⟨s.offset + length, s.records ++ [⟨s.offset, length, kind, digestText sha256 bytes,
    found.toOption.getD none, body⟩], peers, budget⟩

def parseRecords : ℕ → ParseState → Result ParseState
  | 0, s => if s.offset < input.length then .error (Error.limit "bmp_records") else .ok s
  | remaining + 1, s =>
    if s.offset < input.length then do
      let s ← parseRecord sha256 l m input s
      parseRecords remaining s
    else .ok s

def checkLabel (label : String) : Result Unit :=
  if label.utf8ByteSize > 1024 ∨ label.toList.all Session.isWhitespace ∨
      label.toList.any isControl then
    .error (badAt "bmp_source" 0 "nonempty bounded control-free source labels required")
  else .ok ()

def BmpBatch.parse (source : BmpSource) : Result BmpBatch := do
  l.validate
  checkLabel source.sourceId
  checkLabel source.checkpointId
  if input = [] ∨ input.length > l.inputBytes then .error (Error.limit "bmp_input")
  else
    let budget ← charged l ⟨0, 0, 0, 0⟩ (input.length + (source.sourceId.utf8ByteSize +
      source.checkpointId.utf8ByteSize + 64)) input.length input.length
    let s ← parseRecords sha256 l m input l.records ⟨0, [], [], budget⟩
    return ⟨source, digestText sha256 input, input.length, s.records, input, s.budget.retained,
      s.budget.work, s.budget.output⟩

end Parse

section Covering

def Covers : ℕ → List BmpRecord → ℕ → Prop
  | start, [], stop => start = stop
  | start, r :: rest, stop => r.offset = start ∧ 0 < r.length ∧ Covers (start + r.length) rest stop

theorem Covers.append {start stop : ℕ} {l : List BmpRecord} {r : BmpRecord}
    (h : Covers start l stop) (hr : r.offset = stop) (hpos : 0 < r.length) :
    Covers start (l ++ [r]) (stop + r.length) := by
  induction l generalizing start with
  | nil =>
    cases h
    exact ⟨hr, hpos, rfl⟩
  | cons a l ih => exact ⟨h.1, h.2.1, ih h.2.2⟩

theorem Covers.le {start stop : ℕ} {l : List BmpRecord} (h : Covers start l stop)
    {r : BmpRecord} (hr : r ∈ l) : start ≤ r.offset := by
  induction l generalizing start with
  | nil => cases hr
  | cons a l ih =>
    rcases List.mem_cons.1 hr with rfl | hr
    · exact h.1.ge
    · have hnext := ih h.2.2 hr
      omega

theorem Covers.sorted {start stop : ℕ} {l : List BmpRecord} (h : Covers start l stop) :
    l.Pairwise fun a b => a.offset < b.offset := by
  induction l generalizing start with
  | nil => exact List.Pairwise.nil
  | cons a l ih =>
    obtain ⟨hstart, hpos, hrest⟩ := h
    refine List.pairwise_cons.2 ⟨fun b hb => ?_, ih hrest⟩
    have hnext := hrest.le hb
    omega

variable {sha256 : List U8 → Digest} {l : BmpLimits} {m : Sizes} {input : List U8}

theorem recordLength_ok {offset length : ℕ} (h : recordLength l input offset = .ok length) :
    COMMON_BYTES ≤ length ∧ offset + length ≤ input.length := by
  obtain ⟨_, h⟩ := guard_eq_ok.1 h
  obtain ⟨_, h⟩ := guard_eq_ok.1 h
  obtain ⟨hmin, h⟩ := guard_eq_ok.1 h
  obtain ⟨_, h⟩ := guard_eq_ok.1 h
  obtain ⟨hmax, h⟩ := guard_eq_ok.1 h
  cases h
  exact ⟨not_lt.1 hmin, not_lt.1 hmax⟩

theorem parseRecord_covers {s t : ParseState} (hs : Covers 0 s.records s.offset)
    (h : parseRecord sha256 l m input s = .ok t) :
    Covers 0 t.records t.offset ∧ t.offset ≤ input.length := by
  obtain ⟨length, hlength, h⟩ := bind_eq_ok.1 h
  obtain ⟨budget, _, h⟩ := bind_eq_ok.1 h
  obtain ⟨⟨peers, budget⟩, _, h⟩ := bind_eq_ok.1 h
  obtain ⟨body, _, h⟩ := bind_eq_ok.1 h
  cases h
  obtain ⟨hmin, hmax⟩ := recordLength_ok hlength
  exact ⟨hs.append rfl (lt_of_lt_of_le (by decide) hmin), hmax⟩

theorem parseRecords_covers {remaining : ℕ} {s t : ParseState} (hs : Covers 0 s.records s.offset)
    (hle : s.offset ≤ input.length) (h : parseRecords sha256 l m input remaining s = .ok t) :
    Covers 0 t.records input.length := by
  induction remaining generalizing s with
  | zero =>
    obtain ⟨hend, h⟩ := guard_eq_ok.1 h
    cases h
    rwa [le_antisymm hle (not_lt.1 hend)] at hs
  | succ remaining ih =>
    unfold parseRecords at h
    by_cases hmore : s.offset < input.length
    · rw [if_pos hmore] at h
      obtain ⟨u, hu, h⟩ := bind_eq_ok.1 h
      obtain ⟨hcovers, hstop⟩ := parseRecord_covers hs hu
      exact ih hcovers hstop h
    · rw [if_neg hmore] at h
      cases h
      rwa [le_antisymm hle (not_lt.1 hmore)] at hs

theorem BmpBatch.parse_covers {source : BmpSource} {b : BmpBatch}
    (h : BmpBatch.parse sha256 l m input source = .ok b) :
    b.bytes = input ∧ Covers 0 b.records input.length := by
  obtain ⟨_, _, h⟩ := bind_eq_ok.1 h
  obtain ⟨_, _, h⟩ := bind_eq_ok.1 h
  obtain ⟨_, _, h⟩ := bind_eq_ok.1 h
  obtain ⟨_, h⟩ := guard_eq_ok.1 h
  obtain ⟨budget, _, h⟩ := bind_eq_ok.1 h
  obtain ⟨s, hs, h⟩ := bind_eq_ok.1 h
  cases h
  refine ⟨rfl, parseRecords_covers ?_ (Nat.zero_le _) hs⟩
  exact rfl

end Covering

end PcapEvidence.Bgp.Bmp
