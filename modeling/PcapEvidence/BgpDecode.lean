import PcapEvidence.BgpOpen
import PcapEvidence.BgpSession
import PcapEvidence.BgpUpdate

/-!
# The captured producer

A framed message is decoded beside the evidence of its session, and the changed session state is
published only with the complete record. A record is kept typed: its JSON text, the budgets of that
text and the checks of its reader are the carrier, a parameter, so what follows holds for any carrier.
The peer relationship of a captured session is never configured here.
-/

namespace PcapEvidence.Bgp.Wire

open FiniteMap History Mrt

structure PcapMetadata where
  sourceId : String
  recordId : String
  observedAtNs : Option ℤ
  session : Option U64
  direction : Option U8
  peer : Option String
  «local» : Option String
  deriving DecidableEq

structure SessionScope where
  sourceId : String
  session : U64
  capture : Vector U8 32
  deriving DecidableEq

structure OpenWitness where
  source : PcapMetadata
  detail : OpenDetail
  evidence : EvidenceBytes
  deriving DecidableEq

structure WitnessedOpen where
  state : OpenState
  witness : OpenWitness

structure WireState where
  generation : ℕ
  opens : FinMap U8 (List WitnessedOpen)
  scope : Option SessionScope

inductive Message where
  | «open» (detail : OpenDetail)
  | update (parsed : ParsedUpdate)
  | notification (code subcode : U8) (data : List U8)
  | keepalive
  | routeRefresh (afi : U16) (reserved safi : U8) (enhancedLayout : Bool)
  deriving DecidableEq

structure Decoded where
  metadata : PcapMetadata
  generation : Option ℕ
  message : Message
  issues : List String
  context : WireState
  evidence : EvidenceBytes

structure RouteObservation where
  route : PrefixIdentity
  pathId : Option U32
  action : RouteAction
  attributes : PathAttributes
  attributeRanges : List AttributeRange
  ambiguousAttributes : Bool

structure Observation where
  record : Decoded
  generation : ℕ
  routes : List RouteObservation

structure Carrier where
  /-- The budgets of the producer and the checks of the reader. -/
  check : EvidenceBytes → PcapMetadata → WireState → Bgp.Limits → Result Unit
  addressText : Prefix → String
  attributesJson : PathAttributes → Json
  attributeIdentity : List AttributeRange → Bgp.Limits → Result String
  observationSha256 : Observation → Digest
  encodedLen : Decoded → Bgp.Limits → Result ℕ
  checkRibEvent : RibEvent → Bgp.Limits → Result Unit

namespace WireState

def initial : WireState := ⟨0, .empty, none⟩

def reset (w : WireState) : Result WireState :=
  if w.generation + 1 < wordBound then .ok ⟨w.generation + 1, .empty, w.scope⟩
  else .error (Error.limit "bgp_generation")

def decoder (w : WireState) : SessionState :=
  ⟨w.generation, w.opens.mapTo fun _ l => l.map (·.state)⟩

def opensOf (w : WireState) (direction : U8) : List WitnessedOpen := (w.opens.get direction).getD []

def openCount (w : WireState) : ℕ := w.opens.total fun _ l => l.length

def pushOpen (w : WireState) (direction : U8) (o : WitnessedOpen) : WireState :=
  { w with opens := w.opens.insert direction (w.opensOf direction ++ [o]) }

end WireState

def semanticallySupported (code : U8) : Bool :=
  code.toNat ∈ [1, 2, 3, 4, 5, 6, 7, 8, 9, 10, 14, 15, 17, 18, 32]

def discardedByDuplicateRule (later : Bool) (r : AttributeRange) : Bool :=
  later && r.disposition = .discardLaterOccurrence && !isMultiprotocol r.code

/-- An occurrence that the comparison of routes may use. -/
def validForSemantics (later : Bool) (r : AttributeRange) : Bool :=
  discardedByDuplicateRule later r ||
    ((!later && (r.disposition = .action .acceptEvidenceOnly ||
        (r.disposition = .action .attributeDiscard &&
          (r.code = 17 || r.code = 18 || (isPeerDependent r.code &&
            r.interpretation = .decodedButDiscardedForExternalPeer))))) &&
      r.repetition = .first && !r.peerRelationshipUnresolved && r.flagsValid && r.decoded.isSome &&
      !partialBitUnexpected r.flags && r.flags &&& 0x20 = 0 &&
      decide (r.interpretation ∉ [.unresolvedAsnWidth, .wireShapeOnlyNotNegotiated,
        .unresolvedCapabilityContext, .unresolvedNextHopContext,
        .opaqueFamilyCapabilityOrAddPathLayout]))

def invalidReason (r : AttributeRange) : String :=
  if r.peerRelationshipUnresolved then "peer_relationship_unresolved"
  else if r.flags &&& 0x20 ≠ 0 then "partial_attribute_value"
  else if r.interpretation ∈ [.unresolvedAsnWidth, .wireShapeOnlyNotNegotiated,
      .unresolvedCapabilityContext] then "asn_width_unresolved"
  else if r.interpretation = .unresolvedNextHopContext then "next_hop_context_unresolved"
  else "attribute_not_validated_for_semantics"

def occurrenceReasons (later : Bool) (r : AttributeRange) : List String :=
  (if semanticallySupported r.code then [] else ["unsupported_path_attribute"]) ++
    (if later && !discardedByDuplicateRule later r then ["duplicate_attribute_unresolved"] else []) ++
    (if validForSemantics later r then [] else [invalidReason r]) ++
    if r.code = 32 && !later && r.decoded.isNone then ["large_community_projection_invalid"] else []

/-- Every occurrence with whether an earlier one has its code. -/
def withLater (ranges : List AttributeRange) : List (Bool × AttributeRange) :=
  ranges.zipIdx.map fun x => ((ranges.take x.2).any (·.code = x.1.code), x.1)

/-- Why the comparison identity of a route is not complete. -/
def incompletenessReasons (r : RouteRecord) : List String :=
  let seen (code : U8) := r.attributeRanges.any (·.code = code)
  (withLater r.attributeRanges).flatMap (fun x => occurrenceReasons x.1 x.2) ++
    (if seen 1 && seen 2 then [] else ["mandatory_attribute_missing"]) ++
    (if seen 3 = seen 14 || r.attributes.nextHop.isNone then
      ["next_hop_attribute_missing_or_ambiguous"] else []) ++
    (if r.action = .announce then [] else ["route_action_not_announcement"]) ++
    if (r.route.afi = 1 || r.route.afi = 2) && r.route.safi = 1 then []
    else ["unsupported_route_family"]

def ambiguousOccurrence (later : Bool) (r : AttributeRange) : Bool :=
  (later && !discardedByDuplicateRule later r) ||
    decide (r.interpretation ∈ [.unresolvedAsnWidth, .unresolvedNextHopContext,
      .unresolvedCapabilityContext])

def ambiguousAttributes (r : RouteRecord) : Bool :=
  (r.action = .announce && incompletenessReasons r ≠ []) ||
    (withLater r.attributeRanges).any fun x => ambiguousOccurrence x.1 x.2

def Message.records : Message → List RouteRecord
  | .update parsed => parsed.records
  | _ => []

namespace Observation

def routeObservation (c : Carrier) (r : RouteRecord) : RouteObservation where
  route := ⟨r.route.afi, r.route.safi, r.route.length, c.addressText r.route⟩
  pathId := r.pathId
  action := r.action
  attributes := r.attributes
  attributeRanges := r.attributeRanges
  ambiguousAttributes := ambiguousAttributes r

def fromNormalized (c : Carrier) (record : Decoded) : Result Observation :=
  match record.generation with
  | none => .error (bad "bgp_state_scope" "captured generation is required")
  | some generation =>
    .ok ⟨record, generation, record.message.records.map (routeObservation c)⟩

end Observation

def validateMessageFrame (b : List U8) (extendedMessage : Bool) : Result U8 := do
  need b 19 "bgp_header"
  if b.take 16 ≠ List.replicate 16 255 then .error (badAt "bgp_marker" 0 "invalid marker")
  else
    let length := (be16 b 16).toNat
    let kind := byteAt b 18
    if length < 19 ∨ length > (if extendedMessage ∧ kind ≠ 1 ∧ kind ≠ 4 then 65535 else 4096) then
      .error (badAt "bgp_length" 16 "length outside supported capability boundary")
    else do
      need b length "bgp_message"
      if b.length ≠ length then
        .error (badAt "bgp_message" length "expected exactly one framed message")
      else .ok kind

/-- The labels of a message. -/
def checkIdentity (value : String) (limits : Bgp.Limits) : Result Unit :=
  if value.utf8ByteSize > min limits.inputBytes 1024 then
    .error (Error.limit "bgp_producer_identity_bytes")
  else if value.toList.all Session.isWhitespace ∨ value.toList.any isControl then
    .error (bad "bgp_producer_identity" "nonempty control-free identity required")
  else .ok ()

def PcapMetadata.labels (m : PcapMetadata) : List String :=
  [m.sourceId, m.recordId] ++ m.peer.toList ++ m.local.toList

def PcapMetadata.scoped (m : PcapMetadata) : Bool := m.session.isSome && m.direction.isSome

def admitMessage (bytes : EvidenceBytes) (metadata : PcapMetadata) (limits : Bgp.Limits) :
    Result (Vector U8 32) := do
  limits.validate
  if bytes.len > limits.inputBytes then .error (Error.limit "bgp_producer_input")
  else if bytes.spans.length > limits.spans then .error (Error.limit "bgp_producer_spans")
  else do
    metadata.labels.forM fun label => checkIdentity label limits
    if metadata.direction.any (· > 1) then
      .error (bad "bgp_producer_direction" "captured direction must be zero or one")
    else if !bytes.validate || bytes.spans.any (·.packet.frame = 0) then
      .error (bad "bgp_provenance" "invalid source evidence")
    else match bytes.spans.head? with
      | none => .error (bad "bgp_provenance" "missing packet witness")
      | some first =>
        if bytes.spans.any (·.packet.capture ≠ first.packet.capture) then
          .error (bad "bgp_producer_capture" "mixed capture namespaces")
        else if bytes.spans.length + bytes.packets.length > limits.spans then
          .error (Error.limit "bgp_producer_spans")
        else .ok first.packet.capture

def retainOpen (w : WireState) (direction : U8) (o : WitnessedOpen) (limits : Bgp.Limits) :
    Result (WireState × List String) :=
  let old := w.opensOf direction
  if old.any fun x => x.witness = o.witness then .ok (w, [])
  else if w.openCount + 1 > limits.elements then .error (Error.limit "bgp_producer_open_records")
  else if (w.opens.get direction).isNone ∧ w.opens.keys.card + 1 > limits.active then
    .error (Error.limit "bgp_producer_active")
  else .ok (w.pushOpen direction o,
    if old.any fun x => x.state.messageSha256 ≠ o.state.messageSha256 then
      ["repeated_open_requires_explicit_generation_boundary"] else [])

def observeOpen (w : WireState) (o : WitnessedOpen) (limits : Bgp.Limits) :
    Result (WireState × List String) :=
  match o.witness.source.direction with
  | some direction =>
    if o.witness.source.scoped then retainOpen w direction o limits else .ok (w, [])
  | none => .ok (w, [])

def decodeOpen (bytes : EvidenceBytes) (metadata : PcapMetadata) (w : WireState)
    (limits : Bgp.Limits) : Result (Message × List String × WireState) := do
  let (state, detail) ← parseOpenBody bytes.data limits
  let (next, issues) ← observeOpen w ⟨state, metadata, detail, bytes⟩ limits
  .ok (.open detail, state.capabilityIssues ++ issues, next)

/-- The interpretation of a width-dependent value under contradictory OPEN messages. -/
def unresolvedRange (r : AttributeRange) : AttributeRange :=
  if r.code = 2 ∨ r.code = 7 then { r with interpretation := .unresolvedCapabilityContext } else r

def unresolvedRecord (r : RouteRecord) : RouteRecord :=
  { r with
    attributes := { r.attributes with asPath := [], aggregator := none }
    attributeRanges := r.attributeRanges.map unresolvedRange }

def unresolvedUpdate (u : ParsedUpdate) : ParsedUpdate :=
  { u with
    attributeRanges := u.attributeRanges.map unresolvedRange
    records := u.records.map unresolvedRecord }

def retainedByHash (o : WitnessedOpen) : Bool :=
  o.state.capabilityIssues.any fun issue =>
    issue = "unsupported_capability_retained_by_hash" ||
      issue = "unsupported_open_parameter_retained_by_hash"

def decodeUpdate (b : List U8) (metadata : PcapMetadata) (w : WireState) (limits : Bgp.Limits) :
    Result (Message × List String × Bool) := do
  let evidence := layoutEvidence w.decoder metadata.scoped
  let parsed ← parseUpdate b evidence.1 .unknown metadata.direction limits
  let unsupported := if metadata.scoped ∧
      ∃ d ∈ w.opens.keys, (w.opensOf d).any retainedByHash = true then
    ["unsupported_session_capabilities_not_interpreted"] else []
  let reset := decide (parsed.knownDisposition = .sessionReset) && metadata.session.isSome
  if evidence.2 = .ambiguousOpenEvidence then
    .ok (.update (unresolvedUpdate parsed),
      parsed.issues ++ unsupported ++ ["capability_context_unresolved"], reset)
  else .ok (.update parsed, parsed.issues ++ unsupported, reset)

def decodeRouteRefresh (b : List U8) (metadata : PcapMetadata) (w : WireState) :
    Result (Message × List String) :=
  if b.length ≠ 23 then
    .error (badAt "bgp_route_refresh" 16 "invalid ROUTE-REFRESH length")
  else
    let reserved := byteAt b 21
    let enhanced := metadata.direction.any fun sender =>
      decide (sender ∈ (layoutEvidence w.decoder metadata.scoped).1.enhancedRefreshSenders)
    .ok (.routeRefresh (be16 b 19) reserved (byteAt b 22) enhanced,
      (if (reserved = 1 || reserved = 2) && !enhanced then
        ["enhanced_route_refresh_unresolved_context"] else []) ++
      if reserved.toNat > 2 then ["unknown_route_refresh_subtype_retained"] else [])

def decodeBody (kind : U8) (bytes : EvidenceBytes) (metadata : PcapMetadata) (w : WireState)
    (limits : Bgp.Limits) : Result (Message × List String × WireState × Bool) :=
  let b := bytes.data
  match kind.toNat with
  | 1 => do
    let (message, issues, next) ← decodeOpen bytes metadata w limits
    .ok (message, issues, next, false)
  | 2 => do
    let (message, issues, reset) ← decodeUpdate b metadata w limits
    .ok (message, issues, w, reset)
  | 3 => do
    need b 21 "bgp_notification"
    .ok (.notification (byteAt b 19) (byteAt b 20) (b.drop 21), [], w, metadata.session.isSome)
  | 4 =>
    if b.length ≠ 19 then .error (badAt "bgp_keepalive" 16 "KEEPALIVE must be 19 bytes")
    else .ok (.keepalive, [], w, false)
  | 5 => do
    let (message, issues) ← decodeRouteRefresh b metadata w
    .ok (message, issues, w, false)
  | _ => .error (badAt "bgp_type" 18 "unsupported BGP message type")

def scopeIssues (kind : U8) (metadata : PcapMetadata) : List String :=
  (if metadata.direction.isNone then
    [if kind = 3 ∧ metadata.session.isSome then
      "direction_missing_notification_closes_scoped_generation"
    else "direction_missing_state_not_updated"] else []) ++
  if metadata.session.isNone then ["session_missing_state_not_updated"] else []

/-- The state of a session behind a message that may end its generation. -/
def settle (reset : Bool) (w : WireState) : Result WireState := if reset then w.reset else .ok w

def decode (c : Carrier) (bytes : EvidenceBytes) (metadata : PcapMetadata) (w : WireState)
    (limits : Bgp.Limits) : Result (Decoded × WireState) := do
  let capture ← admitMessage bytes metadata limits
  c.check bytes metadata w limits
  let prior := layoutEvidence w.decoder metadata.scoped
  let kind ← validateMessageFrame bytes.data
    (metadata.direction.any fun d => decide (d ∈ prior.1.extendedMessageSenders))
  let scope := metadata.session.map fun session => (⟨metadata.sourceId, session, capture⟩ : SessionScope)
  if w.scope.isSome ∧ scope.isSome ∧ w.scope ≠ scope then
    .error (bad "bgp_producer_session" "state belongs to another source/session/capture")
  else do
    let next := if (metadata.scoped || (kind = 3 && metadata.session.isSome)) && w.scope.isNone then
      { w with scope := scope } else w
    let (message, issues, next, reset) ← decodeBody kind bytes metadata next limits
    let issues := scopeIssues kind metadata ++ issues
    if message.records.length > limits.elements then .error (Error.limit "bgp_producer_routes")
    else if issues.length + 2 > limits.elements then .error (Error.limit "bgp_producer_issues")
    else do
      let record : Decoded := ⟨metadata, if metadata.session.isSome then some next.generation else none,
        message, issues, next, bytes⟩
      let next ← settle reset next
      .ok (record, next)

end PcapEvidence.Bgp.Wire
