import PcapEvidence.BgpAttributes

/-!
# UPDATE messages

The routes of an UPDATE with the attributes that came with them, and the strongest action that any of
its parts asks for. A route is only kept as an announcement when its mandatory attributes were
accepted.
-/

namespace PcapEvidence.Bgp.Wire

open FiniteMap History Mrt

structure RouteRecord where
  action : RouteAction
  route : Prefix
  start : ℕ
  stop : ℕ
  pathId : Option U32
  attributes : PathAttributes
  attributeRanges : List AttributeRange
  deriving DecidableEq

structure OpaqueNlri where
  kind : String
  start : ℕ
  stop : ℕ
  bytes : List U8
  route : Option (RouteAction × Prefix × Option U32)
  deriving DecidableEq

structure As4Reconstruction where
  status : As4Status
  effectiveAsPath : List AsPathSegment
  effectiveAggregator : Option (U32 × U32)
  baseAsPathStart : Option ℕ
  as4PathStart : Option ℕ
  baseAggregatorStart : Option ℕ
  as4AggregatorStart : Option ℕ
  deriving DecidableEq

inductive UpdateDisposition where
  | action (a : UpdateAction)
  | peerRelationshipUnresolved
  | internalLocalPrefMissing
  deriving DecidableEq

structure ParsedUpdate where
  records : List RouteRecord
  issues : List String
  attributeRanges : List AttributeRange
  disposition : UpdateDisposition
  knownDisposition : UpdateAction
  peerRelationship : PeerRelationship
  peerRelationshipUnresolved : Bool
  endOfRib : List Family
  as4Reconstruction : As4Reconstruction
  opaqueNlri : List OpaqueNlri
  missingMandatory : List U8
  malformedAttributeEnvelope : Option MalformedEnvelope
  internalLocalPrefMissing : Bool
  deriving DecidableEq

def firstAccepted (ranges : List AttributeRange) (code : U8) : Option AttributeRange :=
  ranges.find? fun r => r.code = code && r.disposition = .action .acceptEvidenceOnly

def narrowAggregator (b : List U8) (agg as4Agg : Option AttributeRange)
    (attrs : PathAttributes) : As4Status × Option (U32 × U32) :=
  match agg, as4Agg with
  | some base, some r =>
    if be16 b base.valueStart ≠ 23456 then (.nonAsTransAggregatorDiscardAs4, attrs.aggregator)
    else (.oldNewAggregatorReconstructed, some (be32 b r.valueStart, be32 b (r.valueStart + 4)))
  | _, _ => (.noAs4Path, attrs.aggregator)

/-- The transition from two to four octets; the summary follows it when the layout is known. -/
def as4Reconstruction (b : List U8) (ranges : List AttributeRange) (attrs : PathAttributes)
    (width : ℕ) (limits : Bgp.Limits) : Result (As4Reconstruction × PathAttributes) := do
  let base := firstAccepted ranges 2
  let as4 := firstAccepted ranges 17
  let agg := firstAccepted ranges 7
  let as4Agg := firstAccepted ranges 18
  let report (status : As4Status) (path : List AsPathSegment) (aggregator : Option (U32 × U32)) :
      As4Reconstruction :=
    ⟨status, path, aggregator, base.map (·.start), as4.map (·.start), agg.map (·.start),
      as4Agg.map (·.start)⟩
  if width = 0 then .ok (report .unresolvedLayout attrs.asPath attrs.aggregator, attrs)
  else if width = 4 then
    .ok (report (if ranges.any fun r => r.code = 17 || r.code = 18 then .newNewDiscardAs4Attributes
      else .noAs4Path) attrs.asPath attrs.aggregator, attrs)
  else
    let (status, aggregator) := narrowAggregator b agg as4Agg attrs
    let (status, path) ← match status, base, as4 with
      | .nonAsTransAggregatorDiscardAs4, _, _ => .ok (status, attrs.asPath)
      | _, some baseRange, some as4Range => do
        let basePath ← parseAsPath baseRange.value 2 limits
        let fourPath ← parseAsPath as4Range.value 4 limits
        let (path, status) := reconstructAs4Suffix basePath fourPath
        .ok (status, path)
      | _, _, _ => .ok (status, attrs.asPath)
    let status := if base.isNone && as4.isSome then .as4WithoutBasePath else status
    .ok (report status path aggregator, { attrs with asPath := path, aggregator := aggregator })

def discardUnusedAs4 (status : As4Status) (r : AttributeRange) : AttributeRange :=
  if r.disposition = .action .acceptEvidenceOnly ∧
      (status = .longerAs4PathIgnored ∧ r.code = 17 ∨
        status = .nonAsTransAggregatorDiscardAs4 ∧ (r.code = 17 ∨ r.code = 18)) then
    { r with disposition := .action .attributeDiscard }
  else r

def effectiveUpdateDisposition (known : UpdateAction) (unresolved : Bool) : UpdateDisposition :=
  if known = .sessionReset then .action known
  else if unresolved then .peerRelationshipUnresolved
  else .action known

/-- A truncated multiprotocol attribute hides route boundaries. -/
def incompleteMp (malformed : Option MalformedEnvelope) : Bool :=
  malformed.any fun m => m.code.any isMultiprotocol

def attributeAction (malformed : Option MalformedEnvelope) (ranges : List AttributeRange) :
    UpdateAction :=
  (ranges.filterMap fun r => r.disposition.toAction).foldl strongest
    (if incompleteMp malformed then .sessionReset
    else if malformed.isSome then .treatAsWithdraw
    else .acceptEvidenceOnly)

def missingMandatory (ranges : List AttributeRange) (announced mpAnnounced : List PrefixSpan) :
    List U8 :=
  if announced = [] ∧ mpAnnounced = [] then []
  else
    let present := (ranges.filter fun r => r.disposition = .action .acceptEvidenceOnly).map (·.code)
    (if announced = [] then [1, 2] else [1, 2, 3]).filter fun code => !present.contains code

def spanRecord (action : RouteAction) (attributes : PathAttributes) (ranges : List AttributeRange)
    (s : PrefixSpan) : RouteRecord :=
  ⟨action, s.route, s.start, s.stop, s.pathId, attributes, ranges⟩

def opaqueRoute (b : List U8) (kind : String) (r : RouteRecord) : OpaqueNlri :=
  ⟨kind, r.start, r.stop, sliceOf b r.start r.stop, some (r.action, r.route, r.pathId)⟩

def withdrawRecord (r : RouteRecord) : RouteRecord := { r with action := .withdraw }

/-- The routes under the action of the whole message, with what is kept of the others. -/
def settleRecords (b : List U8) (known : UpdateAction) (records : List RouteRecord) :
    List RouteRecord × List OpaqueNlri × List String :=
  match known with
  | .treatAsWithdraw =>
    (records.map withdrawRecord, [], ["treat_as_withdraw_applied_to_route_actions"])
  | .sessionReset =>
    ([], records.map (opaqueRoute b "session_reset_route"), ["session_reset_suppressed_route_actions"])
  | .acceptEvidenceOnly | .attributeDiscard => (records, [], [])

def markedNoncanonical (spans : List PrefixSpan) : List String :=
  (spans.filter (·.noncanonical)).map fun _ => "noncanonical_prefix_bits_masked"

def endOfRib (b : List U8) (withdrawnLen attributeLen attributesEnd : ℕ)
    (ranges : List AttributeRange) : List Family :=
  if withdrawnLen = 0 ∧ attributeLen = 0 ∧ attributesEnd = b.length then [⟨1, 1⟩]
  else if withdrawnLen = 0 ∧ attributesEnd = b.length then
    match ranges with
    | [r] =>
      if r.code = 15 ∧ r.disposition = .action .acceptEvidenceOnly ∧ r.stop - r.valueStart = 3 then
        [⟨be16 b r.valueStart, byteAt b (r.valueStart + 2)⟩]
      else []
    | _ => []
  else []

/-- The parts of an UPDATE whose layout stays open. -/
def opaqueLayout (b : List U8) (ranges : List AttributeRange) (baseUnknown : Bool)
    (withdrawnEnd attributesEnd : ℕ) : List OpaqueNlri :=
  ((ranges.filter fun r => isMultiprotocol r.code &&
      r.interpretation = .opaqueFamilyCapabilityOrAddPathLayout).map fun r =>
    ⟨"multiprotocol_layout_unresolved", r.valueStart, r.stop, r.value, none⟩) ++
  if baseUnknown then
    (([(21, withdrawnEnd, "withdrawn"), (attributesEnd, b.length, "announced")].filter
      fun x => x.1 < x.2.1).map fun x => ⟨x.2.2, x.1, x.2.1, sliceOf b x.1 x.2.1, none⟩)
  else []

structure UpdateLayout where
  withdrawnLen : ℕ
  attributeLen : ℕ

namespace UpdateLayout

def withdrawnEnd (l : UpdateLayout) : ℕ := 21 + l.withdrawnLen

def attributesStart (l : UpdateLayout) : ℕ := l.withdrawnEnd + 2

def attributesEnd (l : UpdateLayout) : ℕ := l.attributesStart + l.attributeLen

def read (b : List U8) : Result UpdateLayout := do
  need b 23 "bgp_update"
  let withdrawnLen := (be16 b 19).toNat
  need b (21 + withdrawnLen + 2) "bgp_withdrawn"
  let l : UpdateLayout := ⟨withdrawnLen, (be16 b (21 + withdrawnLen)).toNat⟩
  need b l.attributesEnd "bgp_attributes"
  .ok l

end UpdateLayout

structure UpdateParts where
  layout : UpdateLayout
  withdrawn : List PrefixSpan
  parse : AttributeParse
  as4 : As4Reconstruction
  attributes : PathAttributes
  ranges : List AttributeRange
  announced : List PrefixSpan

def readUpdate (b : List U8) (context : LayoutContext) (relationship : PeerRelationship)
    (sender : U8) (limits : Bgp.Limits) : Result UpdateParts := do
  let baseAdd := decide ((sender, 1, 1) ∈ context.addPath)
  let baseUnknown := decide ((sender, 1, 1) ∈ context.unresolvedAddPath)
  let layout ← UpdateLayout.read b
  let withdrawn ← if baseUnknown then .ok []
    else prefixList b 21 layout.withdrawnEnd 1 1 baseAdd limits
  let parse ← parseAttributes b layout.attributesStart layout.attributesEnd context relationship
    sender limits
  let (as4, attributes) ← as4Reconstruction b parse.ranges parse.attributes context.asnWidth limits
  let announced ← if baseUnknown then .ok []
    else prefixList b layout.attributesEnd b.length 1 1 baseAdd limits
  .ok ⟨layout, withdrawn, parse, as4, attributes, parse.ranges.map (discardUnusedAs4 as4.status),
    announced⟩

namespace UpdateParts

variable (u : UpdateParts)

def missing : List U8 := missingMandatory u.ranges u.announced u.parse.mpAnnounced

def records : List RouteRecord :=
  u.withdrawn.map (spanRecord .withdraw .default []) ++
    u.parse.mpWithdrawn.map (spanRecord .withdraw u.attributes u.ranges) ++
    (u.announced ++ u.parse.mpAnnounced).map (spanRecord .announce u.attributes u.ranges)

/-- The action of the whole message. A malformed message without announcements has no route that
could be withdrawn. -/
def knownAction : UpdateAction :=
  let base := attributeAction u.parse.malformed u.ranges
  let known := if u.missing = [] then base else strongest base .treatAsWithdraw
  if known = .treatAsWithdraw ∧ u.announced.length + u.parse.mpAnnounced.length = 0 then
    .sessionReset
  else known

def relationshipUnresolved : Bool := u.ranges.any (·.peerRelationshipUnresolved)

def localPrefMissing (relationship : PeerRelationship) : Bool :=
  (u.announced ≠ [] || u.parse.mpAnnounced ≠ []) && relationship = .internal &&
    !u.ranges.any (·.code = 5)

def issues (relationship : PeerRelationship) (baseUnknown : Bool) : List String :=
  u.parse.issues ++
    (if u.localPrefMissing relationship then
      ["internal_announcement_missing_local_pref_quarantined"] else []) ++
    (if u.missing = [] then [] else ["missing_mandatory_attribute"]) ++
    (if baseUnknown then ["add_path_layout_unresolved_opaque_nlri"] else []) ++
    markedNoncanonical (u.withdrawn ++ u.parse.mpWithdrawn ++ u.announced ++ u.parse.mpAnnounced) ++
    let base := attributeAction u.parse.malformed u.ranges
    let known := if u.missing = [] then base else strongest base .treatAsWithdraw
    if known = .treatAsWithdraw ∧ u.knownAction = .sessionReset then
      ["route_free_malformed_update_requires_session_reset"] else []

end UpdateParts

def parseUpdate (b : List U8) (context : LayoutContext) (relationship : PeerRelationship)
    (direction : Option U8) (limits : Bgp.Limits) : Result ParsedUpdate := do
  let sender := direction.getD 2
  let baseUnknown := decide ((sender, 1, 1) ∈ context.unresolvedAddPath)
  let u ← readUpdate b context relationship sender limits
  let known := u.knownAction
  let unresolved := u.relationshipUnresolved
  let localPrefMissing := u.localPrefMissing relationship
  let (settled, suppressed, settledIssues) := settleRecords b known u.records
  let quarantineLocalPref := localPrefMissing && known.rank < UpdateAction.treatAsWithdraw.rank
  let quarantined := unresolved || quarantineLocalPref
  let quarantineKind := if localPrefMissing then "internal_local_pref_missing_route"
    else "peer_relationship_unresolved_route"
  .ok {
    records := if quarantined then [] else settled
    issues := u.issues relationship baseUnknown ++ settledIssues ++
      (if unresolved then
        ["peer_relationship_context_unresolved_route_actions_quarantined"] else []) ++
      (if context.asnWidth = 2 then ["asn_width_derived_from_two_octet_default_or_open"] else [])
    attributeRanges := u.ranges
    disposition := if quarantineLocalPref then .internalLocalPrefMissing
      else effectiveUpdateDisposition known unresolved
    knownDisposition := known
    peerRelationship := relationship
    peerRelationshipUnresolved := unresolved
    endOfRib := endOfRib b u.layout.withdrawnLen u.layout.attributeLen u.layout.attributesEnd
      u.ranges
    as4Reconstruction := u.as4
    opaqueNlri := opaqueLayout b u.ranges baseUnknown u.layout.withdrawnEnd u.layout.attributesEnd ++
      suppressed ++ if quarantined then settled.map (opaqueRoute b quarantineKind) else []
    missingMandatory := u.missing
    malformedAttributeEnvelope := u.parse.malformed
    internalLocalPrefMissing := localPrefMissing }

end PcapEvidence.Bgp.Wire
