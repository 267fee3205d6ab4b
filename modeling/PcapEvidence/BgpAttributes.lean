import PcapEvidence.JsonText
import PcapEvidence.MrtReplay

/-!
# Path attributes of an UPDATE

Prefix lists, AS paths and attribute values are read at positions of the whole message. A value that
cannot be decoded stays in the inventory with its bytes, and its disposition says what the UPDATE may
still be used for. Addresses are kept as numbers and values as bytes; their texts and hashes belong to
the carrier of a record.
-/

namespace PcapEvidence.Bgp.Wire

open FiniteMap History Mrt

def badAt (field : String) (offset : ℕ) (detail : String) : Error :=
  ⟨.protocolFraming, offset, field, detail⟩

def need (b : List U8) (stop : ℕ) (field : String) : Result Unit :=
  if stop > b.length then .error ⟨.truncated, b.length, field, "incomplete field"⟩ else .ok ()

inductive RouteAction where
  | announce | withdraw
  deriving DecidableEq

inductive PeerRelationship where
  | unknown | internal | external
  deriving DecidableEq

structure Prefix where
  afi : U16
  safi : U8
  length : U8
  address : List U8
  deriving DecidableEq

structure AsPathSegment where
  kind : U8
  values : List U32
  deriving DecidableEq

inductive NextHop where
  | ipv4 (address : U32)
  | ipv6 (address : List U8)
  | ipv6LinkLocal (address linkLocal : List U8)
  deriving DecidableEq

structure PathAttributes where
  origin : Option U8
  asPath : List AsPathSegment
  nextHop : Option NextHop
  med : Option U32
  localPreference : Option U32
  aggregator : Option (U32 × U32)
  communities : List U32
  originatorId : Option U32
  clusterList : List U32
  mpReach : List Prefix
  mpUnreach : List Prefix
  deriving DecidableEq

def PathAttributes.default : PathAttributes :=
  ⟨none, [], none, none, none, none, [], none, [], [], []⟩

structure PrefixSpan where
  route : Prefix
  start : ℕ
  stop : ℕ
  noncanonical : Bool
  pathId : Option U32
  deriving DecidableEq

def canonical (address : List U8) (length : ℕ) : List U8 :=
  address.mapIdx fun i byte =>
    if i < length / 8 then byte
    else if i = length / 8 ∧ length % 8 ≠ 0 then byte &&& (0xff <<< (8 - length % 8))
    else 0

def addressWidth (afi : U16) : Option ℕ :=
  if afi = 1 then some 4 else if afi = 2 then some 16 else none

def pathIdentifier (b : List U8) (addPath : Bool) (p stop : ℕ) : Result (Option U32 × ℕ) :=
  if addPath then
    if p + 4 > stop then .error (badAt "bgp_add_path" p "path identifier truncated")
    else .ok (some (be32 b p), p + 4)
  else .ok (none, p)

def prefixSpan (b : List U8) (start stop : ℕ) (afi : U16) (safi : U8) (width : ℕ) (addPath : Bool) :
    Result PrefixSpan := do
  let (pathId, p) ← pathIdentifier b addPath start stop
  need b (p + 1) "bgp_prefix"
  let bits := (byteAt b p).toNat
  let octets := (bits + 7) / 8
  if bits > width * 8 then
    .error (badAt "bgp_prefix" p "prefix length exceeds address family")
  else if p + 1 + octets > stop then .error (badAt "bgp_prefix" start "prefix bytes truncated")
  else
    let address := sliceOf b (p + 1) (p + 1 + octets) ++ List.replicate (width - octets) 0
    .ok ⟨⟨afi, safi, byteAt b p, canonical address bits⟩, start, p + 1 + octets,
      decide (canonical address bits ≠ address), pathId⟩

def prefixes (b : List U8) (stop : ℕ) (afi : U16) (safi : U8) (width : ℕ) (addPath : Bool)
    (limits : Bgp.Limits) : ℕ → ℕ → List PrefixSpan → Result (List PrefixSpan)
  | 0, _, out => .ok out
  | fuel + 1, p, out =>
    if p ≥ stop then .ok out
    else if out.length ≥ limits.elements then .error (Error.limit "bgp_prefixes")
    else do
      let item ← prefixSpan b p stop afi safi width addPath
      prefixes b stop afi safi width addPath limits fuel item.stop (out ++ [item])

def prefixList (b : List U8) (start stop : ℕ) (afi : U16) (safi : U8) (addPath : Bool)
    (limits : Bgp.Limits) : Result (List PrefixSpan) :=
  match addressWidth afi with
  | none => .error (badAt "bgp_afi" start "unsupported address family")
  | some width => prefixes b stop afi safi width addPath limits (stop - start) start []

def pathSegments (b : List U8) (width : ℕ) (limits : Bgp.Limits) :
    ℕ → ℕ → List AsPathSegment → ℕ → Result (List AsPathSegment)
  | 0, _, out, _ => .ok out
  | fuel + 1, p, out, total =>
    if p ≥ b.length then .ok out
    else if out.length ≥ limits.elements then .error (Error.limit "bgp_as_path")
    else do
      need b (p + 2) "bgp_as_path_segment"
      let kind := byteAt b p
      let count := (byteAt b (p + 1)).toNat
      if count = 0 then
        .error (badAt "bgp_as_path_segment" (p + 1) "zero-length AS_PATH segment")
      else if kind.toNat = 0 ∨ kind.toNat > 4 then
        .error (badAt "bgp_as_path_segment" p "unknown AS_PATH segment type")
      else if p + 2 + count * width > b.length then
        .error (badAt "bgp_as_path_segment" p "AS_PATH segment truncated")
      else if total + count > limits.elements then .error (Error.limit "bgp_as_path_values")
      else
        let values := (List.range count).map fun q =>
          if width = 2 then (be16 b (p + 2 + q * width)).setWidth 32
          else be32 b (p + 2 + q * width)
        pathSegments b width limits fuel (p + 2 + count * width) (out ++ [⟨kind, values⟩])
          (total + count)

def parseAsPath (b : List U8) (width : ℕ) (limits : Bgp.Limits) : Result (List AsPathSegment) :=
  if width ≠ 2 ∧ width ≠ 4 then .error (Error.limit "bgp_asn_width")
  else pathSegments b width limits b.length 0 [] 0

def pathAlternatives (b : List U8) (limits : Bgp.Limits) : Result (List AsPathSegment × Bool) :=
  match parseAsPath b 2 limits, parseAsPath b 4 limits with
  | .ok two, .ok four => .ok (if four = two then (two, false) else ([], true))
  | .ok two, .error e => if e.code = .limitExceeded then .error e else .ok (two, false)
  | .error e, .ok four => if e.code = .limitExceeded then .error e else .ok (four, false)
  | .error e, .error last => if e.code = .limitExceeded then .error e else .error last

def hasZeroAs (path : List AsPathSegment) : Bool := path.any fun s => s.values.contains 0

def isConfederation (s : AsPathSegment) : Bool := s.kind = 3 || s.kind = 4

def pathCount (path : List AsPathSegment) : ℕ :=
  ((path.filter fun s => !isConfederation s).map fun s =>
    if s.kind = 1 then (if s.values = [] then 0 else 1) else s.values.length).sum

def leadingPath : List AsPathSegment → ℕ → List AsPathSegment
  | [], _ => []
  | s :: rest, count =>
    if isConfederation s then s :: leadingPath rest count
    else if count = 0 then []
    else
      let take := if s.kind = 1 then s.values.length else min count s.values.length
      (if take > 0 then [⟨s.kind, s.values.take take⟩] else []) ++
        leadingPath rest (count - if s.kind = 1 then (if take > 0 then 1 else 0) else take)

inductive As4Status where
  | noAs4Path
  | unresolvedLayout
  | newNewDiscardAs4Attributes
  | nonAsTransAggregatorDiscardAs4
  | oldNewAggregatorReconstructed
  | longerAs4PathIgnored
  | oldNewReconstructed
  | oldNewReconstructedConfederationDiscarded
  | as4WithoutBasePath
  deriving DecidableEq

def reconstructAs4Suffix (base as4 : List AsPathSegment) : List AsPathSegment × As4Status :=
  let suffix := as4.filter fun s => !isConfederation s
  if pathCount suffix > pathCount base then (base, .longerAs4PathIgnored)
  else (leadingPath base (pathCount base - pathCount suffix) ++ suffix,
    if as4.any isConfederation then .oldNewReconstructedConfederationDiscarded
    else .oldNewReconstructed)

inductive Interpretation where
  | decodedSubset
  | unsupported
  | unresolvedAsnWidth
  | wireShapeOnlyNotNegotiated
  | opaqueFamilyCapabilityOrAddPathLayout
  | unresolvedNextHopContext
  | invalidRetainedByHash
  | decodedButDiscardedForExternalPeer
  | decodedButUnresolvedPeerRelationship
  | unresolvedCapabilityContext
  deriving DecidableEq

structure AttributeEnvelope where
  start : ℕ
  flags : U8
  code : U8
  valueStart : ℕ
  valueEnd : ℕ

inductive AttributeEnvelopeRead where
  | complete (envelope : AttributeEnvelope)
  | malformed (reason : String)

def AttributeEnvelope.read (b : List U8) (p stop : ℕ) : AttributeEnvelopeRead :=
  if p + 3 > stop then .malformed "short_header"
  else
    let extended := byteAt b p &&& 0x10 ≠ 0
    let header := if extended then 4 else 3
    if p + header > stop then .malformed "short_extended_header"
    else
      let length := if extended then (be16 b (p + 2)).toNat else (byteAt b (p + 2)).toNat
      if p + header + length > stop then .malformed "value_overrun"
      else .complete ⟨p, byteAt b p, byteAt b (p + 1), p + header, p + header + length⟩

inductive MultiprotocolValue where
  | none
  | withdrawn (spans : List PrefixSpan)
  | announced (spans : List PrefixSpan)

structure DecodedAttributeValue where
  attributes : PathAttributes
  interpretation : Interpretation
  multiprotocol : MultiprotocolValue

def DecodedAttributeValue.plain (attributes : PathAttributes) : DecodedAttributeValue :=
  ⟨attributes, .decodedSubset, .none⟩

/-- What a decoder of values returns: the diagnostics survive a value that is refused. -/
abbrev Diagnosed (α : Type) : Type := List String × Result α

def Diagnosed.of {α : Type} (r : Result α) : Diagnosed α := ([], r)

def validateIpv4NextHop (address : U32) (offset : ℕ) : Result Unit :=
  if address = 0 ∨ address >>> 28 = 0xe ∨ address = 0xffffffff then
    .error (badAt "bgp_next_hop" offset "invalid IPv4 next-hop host address")
  else .ok ()

def isUnicastLinkLocal (address : List U8) : Bool :=
  byteAt address 0 = 0xfe && byteAt address 1 &&& 0xc0 = 0x80

def validateIpv6GlobalNextHop (address : List U8) (offset : ℕ) : Result Unit :=
  if address = List.replicate 16 0 ∨ address = List.replicate 15 0 ++ [1] ∨
      byteAt address 0 = 0xff ∨ isUnicastLinkLocal address then
    .error (badAt "bgp_mp_reach" offset "invalid non-link-local IPv6 next hop")
  else .ok ()

def mpNextHop (b : List U8) (start : ℕ) (afi : U16) (length : ℕ) : Result NextHop :=
  if afi = 1 then
    if length ≠ 4 then .error (badAt "bgp_mp_reach" (start + 3) "invalid next-hop length")
    else do
      validateIpv4NextHop (be32 b (start + 4)) (start + 4)
      .ok (.ipv4 (be32 b (start + 4)))
  else if length = 16 then do
    validateIpv6GlobalNextHop (sliceOf b (start + 4) (start + 20)) (start + 4)
    .ok (.ipv6 (sliceOf b (start + 4) (start + 20)))
  else if length = 32 then do
    validateIpv6GlobalNextHop (sliceOf b (start + 4) (start + 20)) (start + 4)
    if !isUnicastLinkLocal (sliceOf b (start + 20) (start + 36)) then
      .error (badAt "bgp_mp_reach" (start + 20) "second IPv6 next hop must be link-local")
    else .ok (.ipv6LinkLocal (sliceOf b (start + 4) (start + 20))
      (sliceOf b (start + 20) (start + 36)))
  else .error (badAt "bgp_mp_reach" (start + 3) "invalid IPv6 next-hop length")

def parseMpReach (b : List U8) (start stop : ℕ) (addPath : Bool) (limits : Bgp.Limits) :
    Result (NextHop × List PrefixSpan) :=
  if start + 4 > stop then .error (badAt "bgp_mp_reach" start "header exceeds attribute")
  else
    let length := (byteAt b (start + 3)).toNat
    if start + 4 + length ≥ stop then
      .error (badAt "bgp_mp_reach" start "next hop and SNPA count exceed attribute")
    else do
      let spans ← prefixList b (start + 4 + length + 1) stop (be16 b start) (byteAt b (start + 2))
        addPath limits
      let nextHop ← mpNextHop b start (be16 b start) length
      .ok (nextHop, spans)

def parseMpUnreach (b : List U8) (start stop : ℕ) (addPath : Bool) (limits : Bgp.Limits) :
    Result (List PrefixSpan) :=
  if start + 3 > stop then .error (badAt "bgp_mp_unreach" start "header exceeds attribute")
  else prefixList b (start + 3) stop (be16 b start) (byteAt b (start + 2)) addPath limits

def decodeAsPath (value : List U8) (start width : ℕ) (limits : Bgp.Limits) :
    Diagnosed DecodedAttributeValue :=
  let read : Result (List AsPathSegment × Interpretation × List String) :=
    if width = 0 then (pathAlternatives value limits).map fun r =>
      if r.2 then (r.1, .unresolvedAsnWidth, ["asn_width_unresolved_no_negotiated_authority"])
      else (r.1, .wireShapeOnlyNotNegotiated, ["asn_width_derived_from_two_octet_default_or_open"])
    else (parseAsPath value width limits).map fun path => (path, .decodedSubset, [])
  match read with
  | .error e => .of (.error e)
  | .ok (path, interpretation, issues) =>
    (issues, if hasZeroAs path then .error (badAt "bgp_as_zero" start "AS_PATH contains AS 0")
      else .ok ⟨{ PathAttributes.default with asPath := path }, interpretation, .none⟩)

def decodeAggregator (b : List U8) (start length width : ℕ) : Result DecodedAttributeValue :=
  let effective := if width = 0 then (if length = 6 then 2 else if length = 8 then 4 else 0)
    else width
  if effective = 0 ∨ length ≠ effective + 4 then
    .error (badAt "bgp_aggregator" start "AGGREGATOR width disagrees with bounded context")
  else
    let number := if effective = 2 then (be16 b start).setWidth 32 else be32 b start
    if number = 0 then .error (badAt "bgp_as_zero" start "AGGREGATOR contains AS 0")
    else .ok ⟨{ PathAttributes.default with
        aggregator := some (number, be32 b (start + effective)) },
      if width = 0 then .wireShapeOnlyNotNegotiated else .decodedSubset, .none⟩

def decodeWords (b : List U8) (start length : ℕ) (field detail : String) (limits : Bgp.Limits)
    (build : List U32 → PathAttributes) : Result DecodedAttributeValue :=
  if length = 0 ∨ length % 4 ≠ 0 then .error (badAt field start detail)
  else if length / 4 > limits.elements then .error (Error.limit "bgp_attribute_values")
  else .ok (.plain (build ((List.range (length / 4)).map fun q => be32 b (start + 4 * q))))

def decodeMultiprotocol (b : List U8) (reach : Bool) (start stop : ℕ) (context : LayoutContext)
    (sender : U8) (limits : Bgp.Limits) : Diagnosed DecodedAttributeValue :=
  if stop - start < 3 then
    .of (.error (badAt (if reach then "bgp_mp_reach" else "bgp_mp_unreach") start
      "family header truncated"))
  else
    let family := (be16 b start, byteAt b (start + 2))
    let nextHopUnresolved := reach && family.1 = 2 && context.unsupportedIpv6NextHopLayout
    if family ∉ baseFamilies ∨ family ∉ context.mp ∨ nextHopUnresolved ∨
        (sender, family.1, family.2) ∈ context.unresolvedAddPath then
      ([if nextHopUnresolved then "mp_reach_next_hop_layout_unresolved"
        else if family ∉ context.mp then
          (if reach then "mp_reach_capability_unresolved" else "mp_unreach_capability_unresolved")
        else if reach then "mp_reach_opaque_nlri" else "mp_unreach_opaque_nlri"],
        .ok ⟨.default, .opaqueFamilyCapabilityOrAddPathLayout, .none⟩)
    else
      let addPath := decide ((sender, family.1, family.2) ∈ context.addPath)
      if reach then
        let reservedAt := start + 4 + (byteAt b (start + 3)).toNat
        (if stop - start ≥ 4 ∧ reservedAt < stop ∧ byteAt b reservedAt ≠ 0 then
            ["mp_reach_reserved_nonzero_ignored"] else [],
          (parseMpReach b start stop addPath limits).map fun r =>
            ⟨{ PathAttributes.default with
                nextHop := some r.1
                mpReach := r.2.map (·.route) }, .decodedSubset, .announced r.2⟩)
      else .of ((parseMpUnreach b start stop addPath limits).map fun spans =>
        ⟨{ PathAttributes.default with mpUnreach := spans.map (·.route) }, .decodedSubset,
          .withdrawn spans⟩)

def decodeAs4Path (value : List U8) (start : ℕ) (limits : Bgp.Limits) :
    Diagnosed DecodedAttributeValue :=
  if value.length < 6 then
    .of (.error (badAt "bgp_as4_path" start "AS4_PATH must contain a complete nonempty segment"))
  else match parseAsPath value 4 limits with
    | .error e => .of (.error e)
    | .ok path =>
      if hasZeroAs path then .of (.error (badAt "bgp_as_zero" start "AS4_PATH contains AS 0"))
      else (if path.any isConfederation then ["as4_confederation_segments_discarded"] else [],
        .ok (.plain { PathAttributes.default with
          asPath := path.filter fun s => !isConfederation s }))

def checkAigp (b : List U8) (stop : ℕ) : ℕ → ℕ → Result Unit
  | 0, _ => .ok ()
  | fuel + 1, q =>
    if q ≥ stop then .ok ()
    else if q + 3 > stop then .error (badAt "bgp_aigp" q "TLV header truncated")
    else
      let length := (be16 b (q + 1)).toNat
      if length < 3 ∨ q + length > stop then .error (badAt "bgp_aigp" q "TLV length invalid")
      else if byteAt b q = 1 ∧ length ≠ 11 then
        .error (badAt "bgp_aigp" q "AIGP metric length invalid")
      else checkAigp b stop fuel (q + length)

def decodeFixed (length expected start : ℕ) (field detail : String) (attributes : PathAttributes) :
    Result DecodedAttributeValue :=
  if length ≠ expected then .error (badAt field start detail) else .ok (.plain attributes)

def decodeBlocks (length block start : ℕ) (field detail : String) : Result DecodedAttributeValue :=
  if length = 0 ∨ length % block ≠ 0 then .error (badAt field start detail)
  else .ok (.plain .default)

def decodeAttributeValue (b : List U8) (e : AttributeEnvelope) (context : LayoutContext)
    (sender : U8) (limits : Bgp.Limits) : Diagnosed DecodedAttributeValue :=
  let start := e.valueStart
  let length := e.valueEnd - e.valueStart
  let value := sliceOf b e.valueStart e.valueEnd
  let d := PathAttributes.default
  match e.code.toNat with
  | 1 => .of (if length ≠ 1 ∨ (byteAt b start).toNat > 2 then
      .error (badAt "bgp_origin" start "invalid ORIGIN value")
    else .ok (.plain { d with origin := some (byteAt b start) }))
  | 2 => decodeAsPath value start context.asnWidth limits
  | 3 => .of (if length ≠ 4 then .error (badAt "bgp_next_hop" start "NEXT_HOP must be IPv4")
    else do
      validateIpv4NextHop (be32 b start) start
      .ok (.plain { d with nextHop := some (.ipv4 (be32 b start)) }))
  | 4 => .of (decodeFixed length 4 start "bgp_med" "MED must be four octets"
      { d with med := some (be32 b start) })
  | 5 => .of (decodeFixed length 4 start "bgp_local_preference" "LOCAL_PREF must be four octets"
      { d with localPreference := some (be32 b start) })
  | 6 => .of (decodeFixed length 0 start "bgp_atomic_aggregate" "ATOMIC_AGGREGATE has no value" d)
  | 7 => .of (decodeAggregator b start length context.asnWidth)
  | 8 => .of (decodeWords b start length "bgp_communities"
      "COMMUNITIES width must be a nonzero multiple of four" limits
      fun words => { d with communities := words })
  | 9 => .of (decodeFixed length 4 start "bgp_originator_id" "ORIGINATOR_ID must be four octets"
      { d with originatorId := some (be32 b start) })
  | 10 => .of (decodeWords b start length "bgp_cluster_list"
      "CLUSTER_LIST width must be a nonzero multiple of four" limits
      fun words => { d with clusterList := words })
  | 14 => decodeMultiprotocol b true start e.valueEnd context sender limits
  | 15 => decodeMultiprotocol b false start e.valueEnd context sender limits
  | 16 => .of (decodeBlocks length 8 start "bgp_extended_communities"
      "value length must be a nonzero multiple of eight")
  | 17 => decodeAs4Path value start limits
  | 18 => .of (if length ≠ 8 then
      .error (badAt "bgp_as4_aggregator" start "AS4_AGGREGATOR must be eight octets")
    else if be32 b start = 0 then
      .error (badAt "bgp_as_zero" start "AS4_AGGREGATOR contains AS 0")
    else .ok (.plain { d with aggregator := some (be32 b start, be32 b (start + 4)) }))
  | 26 => .of (if length = 0 then
      .error (badAt "bgp_aigp" start "AIGP must contain at least one TLV")
    else do
      checkAigp b e.valueEnd length start
      .ok (.plain d))
  | 32 => .of (decodeBlocks length 12 start "bgp_large_community"
      "value length must be a nonzero multiple of twelve")
  | 35 => .of (decodeFixed length 4 start "bgp_otc" "OTC must contain four octets" d)
  | _ => (["unknown_or_invalid_path_attribute_retained_by_hash"], .ok ⟨d, .unsupported, .none⟩)

inductive UpdateAction where
  | acceptEvidenceOnly | attributeDiscard | treatAsWithdraw | sessionReset
  deriving DecidableEq

def UpdateAction.rank : UpdateAction → ℕ
  | .acceptEvidenceOnly => 0
  | .attributeDiscard => 1
  | .treatAsWithdraw => 2
  | .sessionReset => 3

def strongest (a b : UpdateAction) : UpdateAction := if b.rank > a.rank then b else a

/-- What becomes of one occurrence of an attribute. -/
inductive Disposition where
  | action (a : UpdateAction)
  | discardLaterOccurrence
  | peerRelationshipUnresolved
  deriving DecidableEq

def Disposition.toAction : Disposition → Option UpdateAction
  | .action a => some a
  | .discardLaterOccurrence | .peerRelationshipUnresolved => none

inductive Repetition where
  | first | duplicateIdentical | conflicting
  deriving DecidableEq

structure AttributeRange where
  code : U8
  flags : U8
  start : ℕ
  stop : ℕ
  valueStart : ℕ
  value : List U8
  decoded : Option PathAttributes
  interpretation : Interpretation
  repetition : Repetition
  flagsValid : Bool
  disposition : Disposition
  peerRelationship : Option PeerRelationship
  peerRelationshipUnresolved : Bool
  deriving DecidableEq

def attributeFlags (code : U8) : Option U8 :=
  if code.toNat ∈ [1, 2, 3, 5, 6] then some 0x40
  else if code.toNat ∈ [4, 9, 10, 14, 15, 26] then some 0x80
  else if code.toNat ∈ [7, 8, 16, 17, 18, 32, 35] then some 0xc0
  else none

def attributeErrorDisposition (code : U8) : UpdateAction :=
  if code.toNat ∈ [6, 7, 9, 10, 17, 18, 26] then .attributeDiscard
  else if code.toNat ∈ [14, 15] then .sessionReset
  else .treatAsWithdraw

def isMultiprotocol (code : U8) : Bool := code = 14 || code = 15

def isPeerDependent (code : U8) : Bool := code = 5 || code = 9 || code = 10

def partialBitUnexpected (flags : U8) : Bool := flags &&& 0x20 ≠ 0 && flags &&& 0xc0 ≠ 0xc0

def repetition (ranges : List AttributeRange) (code flags : U8) (value : List U8) : Repetition :=
  let previous := ranges.filter (·.code = code)
  if previous = [] then .first
  else if previous.all fun r => r.flags = flags && Sha256.digest r.value = Sha256.digest value then
    .duplicateIdentical
  else .conflicting

def disposition (code flags : U8) (duplicate flagsValid valueValid : Bool) (asnWidth : ℕ)
    (relationship : PeerRelationship) : Disposition :=
  if duplicate then
    if isMultiprotocol code then .action .sessionReset else .discardLaterOccurrence
  else if asnWidth = 4 ∧ (code = 17 ∨ code = 18) then .action .attributeDiscard
  else if isMultiprotocol code ∧ !flagsValid then .action .sessionReset
  else if isPeerDependent code ∧ !flagsValid then .action .treatAsWithdraw
  else if isPeerDependent code then
    match relationship with
    | .unknown => .peerRelationshipUnresolved
    | .external => .action .attributeDiscard
    | .internal => .action (if valueValid then .acceptEvidenceOnly else .treatAsWithdraw)
  else if !valueValid then .action (attributeErrorDisposition code)
  else if !flagsValid then .action .treatAsWithdraw
  else if attributeFlags code = none ∧ flags &&& 0x80 = 0 then .action .sessionReset
  else if attributeFlags code = none ∧ flags &&& 0x40 = 0 then .action .attributeDiscard
  else .action .acceptEvidenceOnly

def mergeAttribute (a value : PathAttributes) (code : U8) (codes : List U8) :
    PathAttributes × List String :=
  let mixed := codes.contains 3 && codes.contains 14
  match code.toNat with
  | 1 => ({ a with origin := value.origin }, [])
  | 2 => ({ a with asPath := value.asPath }, [])
  | 3 | 14 => ({ a with
      nextHop := if mixed then none else value.nextHop
      mpReach := a.mpReach ++ value.mpReach },
      if mixed then ["next_hop_family_context_unresolved"] else [])
  | 4 => ({ a with med := value.med }, [])
  | 5 => ({ a with localPreference := value.localPreference }, [])
  | 7 => ({ a with aggregator := value.aggregator }, [])
  | 8 => ({ a with communities := value.communities }, [])
  | 9 => ({ a with originatorId := value.originatorId }, [])
  | 10 => ({ a with clusterList := value.clusterList }, [])
  | 15 => ({ a with mpUnreach := a.mpUnreach ++ value.mpUnreach }, [])
  | _ => (a, [])

/-- A truncated final attribute. -/
structure MalformedEnvelope where
  reason : String
  code : Option U8
  start : ℕ
  stop : ℕ
  deriving DecidableEq

structure AttributeParse where
  attributes : PathAttributes
  ranges : List AttributeRange
  mpWithdrawn : List PrefixSpan
  mpAnnounced : List PrefixSpan
  issues : List String
  malformed : Option MalformedEnvelope

def AttributeParse.start : AttributeParse := ⟨.default, [], [], [], [], none⟩

/-- The interpretation of a value beside the other attributes and the relationship of the peers. -/
def settledInterpretation (code : U8) (codes : List U8) (interpretation : Interpretation)
    (valid : Bool) (relationship : PeerRelationship) : Interpretation :=
  let i := if (code = 3 ∨ code = 14) ∧ codes.contains 3 ∧ codes.contains 14 ∧
      interpretation ≠ .opaqueFamilyCapabilityOrAddPathLayout then .unresolvedNextHopContext
    else interpretation
  if isPeerDependent code && valid then
    match relationship with
    | .external => .decodedButDiscardedForExternalPeer
    | .unknown => .decodedButUnresolvedPeerRelationship
    | .internal => i
  else i

/-- One complete occurrence behind the others. -/
def addAttribute (b : List U8) (context : LayoutContext) (relationship : PeerRelationship)
    (sender : U8) (limits : Bgp.Limits) (s : AttributeParse) (e : AttributeEnvelope) :
    Result AttributeParse :=
  let code := e.code
  let value := sliceOf b e.valueStart e.valueEnd
  let duplicate := s.ranges.any (·.code = code)
  let codes := s.ranges.map (·.code) ++ [code]
  let rep := repetition s.ranges code e.flags value
  let (valueIssues, decoded) := decodeAttributeValue b e context sender limits
  let refused : DecodedAttributeValue := ⟨.default, .invalidRetainedByHash, .none⟩
  let finish (item : DecodedAttributeValue) (valueValid : Bool) : AttributeParse :=
    let flagsValid := (attributeFlags code).all (e.flags &&& 0xc0 = ·)
    let peerDependent := isPeerDependent code
    let merged := valueValid && flagsValid && (!peerDependent || relationship = .internal) &&
      !duplicate
    let summary := if merged then mergeAttribute s.attributes item.attributes code codes
      else (s.attributes, [])
    { attributes := summary.1
      ranges := s.ranges ++ [{
        code := code
        flags := e.flags
        start := e.start
        stop := e.valueEnd
        valueStart := e.valueStart
        value := value
        decoded := if valueValid then some item.attributes else none
        interpretation := settledInterpretation code codes item.interpretation
          (valueValid && flagsValid) relationship
        repetition := rep
        flagsValid := flagsValid
        disposition := disposition code e.flags duplicate flagsValid valueValid context.asnWidth
          relationship
        peerRelationship := if peerDependent then some relationship else none
        peerRelationshipUnresolved := peerDependent && relationship = .unknown }]
      mpWithdrawn := s.mpWithdrawn ++ match item.multiprotocol with
        | .withdrawn spans => spans
        | _ => []
      mpAnnounced := s.mpAnnounced ++ match item.multiprotocol with
        | .announced spans => spans
        | _ => []
      issues := s.issues ++ (if duplicate then ["duplicate_path_attribute_type"] else []) ++
        (if rep = .conflicting then ["conflicting_path_attribute_values"] else []) ++ valueIssues ++
        (if valueValid then [] else ["malformed_path_attribute_retained"]) ++
        (if flagsValid then [] else ["attribute_flags_invalid"]) ++
        (if e.flags &&& 0x0f ≠ 0 ∨ partialBitUnexpected e.flags then
          ["attribute_flag_anomaly_retained"] else []) ++ summary.2
      malformed := none }
  match decoded with
  | .ok item => .ok (finish item true)
  | .error error => if error.code = .limitExceeded then .error error else .ok (finish refused false)

def attributes (b : List U8) (stop : ℕ) (context : LayoutContext) (relationship : PeerRelationship)
    (sender : U8) (limits : Bgp.Limits) : ℕ → ℕ → AttributeParse → Result AttributeParse
  | 0, _, s => .ok s
  | fuel + 1, p, s =>
    if p ≥ stop then .ok s
    else if s.ranges.length ≥ limits.elements then .error (Error.limit "bgp_attributes")
    else match AttributeEnvelope.read b p stop with
      | .malformed reason => .ok { s with
          issues := s.issues ++ ["malformed_final_attribute_envelope_retained"]
          malformed := some ⟨reason, if stop - p ≥ 2 then some (byteAt b (p + 1)) else none, p,
            stop⟩ }
      | .complete e => do
        let s ← addAttribute b context relationship sender limits s e
        attributes b stop context relationship sender limits fuel e.valueEnd s

def parseAttributes (b : List U8) (start stop : ℕ) (context : LayoutContext)
    (relationship : PeerRelationship) (sender : U8) (limits : Bgp.Limits) : Result AttributeParse :=
  attributes b stop context relationship sender limits (stop - start) start .start

end PcapEvidence.Bgp.Wire
