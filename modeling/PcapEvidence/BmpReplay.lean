import PcapEvidence.BgpDecode
import PcapEvidence.BgpObservation
import PcapEvidence.BmpContainer

/-!
# Replay of monitoring records

The peers of a monitor, each with the OPENs that were reported of it and two policy streams. A record
changes the context of its peer or of all peers, and an UPDATE is published only in an unambiguous
context. The detail of an event is left out, and the texts of OPEN witnesses and of route envelopes are
the projection, a parameter.
-/

namespace PcapEvidence.Bgp.Bmp

open FiniteMap History Import Wire
open Mrt (AffectedScope Basis LayoutContext OpenState SessionState layoutEvidence)
open State (Checks)

/-- The two policy views of a peer. -/
inductive Stream where
  | pre | post
  deriving DecidableEq

def Stream.number : Stream → ℕ
  | pre => 0
  | post => 1

def Stream.label : Stream → String
  | pre => "pre"
  | post => "post"

def streams : List Stream := [.pre, .post]

structure PeerState where
  index : ℕ
  decoder : SessionState
  reportedUp : Bool
  usedStreams : Stream → Bool
  contextUnresolved : Bool

/-- The peers in the order of their identities. -/
abbrev Sessions : Type := List (BmpPeerIdentity × PeerState)

structure ReplayState where
  sessions : Sessions
  relationship : Option PeerRelationship
  monitorClosed : Bool
  monitorCoverageUncertain : Bool

def ReplayState.new (relationship : Option PeerRelationship) : ReplayState :=
  ⟨[], relationship, false, false⟩

/-- What an observation says beside its context. -/
inductive Content where
  | boundary (b : GenerationBoundary)
  | update (routes : List RouteRecord) (parsed : ParsedUpdate) (basis : Basis) (message : SourceRange)

structure Published where
  context : ImportContext
  recordId : String
  observedAtNs : Option ℤ
  generation : ℕ
  content : Content

def Published.session (o : Published) : String := o.context.session

inductive Status where
  | reportedInitiation
  | reportedMonitorTermination
  | opaqueQuarantine
  | quarantinedPeerUp
  | reportedPeerUp
  | reportedCoverageClose
  | reportedPeerDown
  | quarantinedRouteMonitoring
  | quarantinedMalformedUpdate
  | quarantinedPeerRelationship
  | quarantinedSessionReset
  | opaqueRouteMonitoringContinuityGap
  | decodedRouteMonitoringCandidate
  deriving DecidableEq

structure Event where
  session : Option String
  generation : ℕ
  status : Status
  issues : List String
  monitorCoverageUncertain : Bool
  affected : Option (List AffectedScope)

structure ReplayRecord where
  event : Event
  observations : List Published
  gaps : List ImportContext

structure Projection where
  checks : Checks
  checkOpen : OpenDetail → BmpPeer → SourceRange → Bgp.Limits → Result Unit
  checkInventory : ParsedUpdate → List U8 → SourceRange → Bgp.Limits → Result Unit
  checkEnvelope : Published → BmpPeer → Bgp.Limits → Result Unit

namespace BmpPeerIdentity

def rank (p : BmpPeerIdentity) : List ℕ :=
  p.peerType.toNat :: p.distinguisher.map BitVec.toNat ++
    (match p.address with
      | .v4 octets => 0 :: octets.map BitVec.toNat
      | .v6 octets => 1 :: octets.map BitVec.toNat) ++
    p.asn.toNat :: p.bgpId.map BitVec.toNat

def label (k : Checks) (p : BmpPeerIdentity) : String :=
  "bmp-peer:" ++ p.peerType.toNat.repr ++ ":" ++ hex p.distinguisher ++ ":" ++
    (match p.address with
      | .v4 octets => k.net.showIpv4 octets
      | .v6 octets => k.net.showIpv6 octets) ++ ":" ++
    p.asn.toNat.repr ++ ":" ++ k.net.showIpv4 p.bgpId

end BmpPeerIdentity

namespace Sessions

variable (s : Sessions)

def get (p : BmpPeerIdentity) : Option PeerState := (s.find? (·.1 = p)).map Prod.snd

def insert (p : BmpPeerIdentity) (e : PeerState) : Sessions :=
  s.orderedInsert (fun a b => a.1.rank ≤ b.1.rank) (p, e)

def set (p : BmpPeerIdentity) (e : PeerState) : Sessions :=
  s.map fun x => if x.1 = p then (p, e) else x

end Sessions

def streamId (session : PeerState) (stream : Stream) : String :=
  "bmp:" ++ (session.index.repr ++ (":" ++ stream.label))

def recordId (r : BmpRecord) (stream : Stream) : String :=
  "bmp:" ++ (r.offset.repr ++ (":" ++ (r.messageType.toNat.repr ++ (":" ++
    (stream.number.repr ++ (":" ++ r.sha256))))))

section Scopes

variable (l : Bgp.Limits)

def used (session : PeerState) : List Stream := streams.filter session.usedStreams

def scopeInventory (scopes : List (ℕ × AffectedScope)) : Result (List AffectedScope) := do
  let _ ← scopes.foldlM (fun (count, bytes) (length, _) =>
    if count + 1 > l.elements then .error (Error.limit "bmp_affected_scopes")
    else
      let bytes := bytes + length * 6 + 128
      if bytes > l.retainedBytes ∨ bytes > l.outputBytes ∨ bytes > l.work then
        .error (Error.limit "bmp_affected_scopes")
      else .ok (count + 1, bytes)) (0, 0)
  return scopes.map Prod.snd

def sessionScopes (session : PeerState) : List (ℕ × AffectedScope) :=
  (used session).map fun stream =>
    (5 + Nat.log 10 session.index + (match stream with | .pre => 4 | .post => 5),
      ⟨streamId session stream, session.decoder.generation⟩)

def affectedScopes (sessions : List PeerState) : Result (List AffectedScope) :=
  scopeInventory l (sessions.flatMap sessionScopes)

end Scopes

section Contexts

variable (k : Checks) (batch : BmpBatch) (record : BmpRecord) (l : Bgp.Limits)

def contextOf (peer : BmpPeer) (session : PeerState) (stream : Stream) (direction : Option U8)
    (range : SourceRange) : ImportContext where
  sourceId := batch.source.sourceId
  sourceSchema := containerSchema
  sourceVersion := some "1"
  clock := ⟨if peer.observedAtNs.isSome then .sourceLabel else .unknown,
    peer.observedAtNs.map fun _ => "bmp-reported-per-peer-timestamp", none⟩
  batch := ⟨none, some batch.sha256, some (BitVec.ofNat 64 batch.byteLength)⟩
  checkpointId := batch.source.checkpointId
  session := streamId session stream
  generation := session.decoder.generation
  direction := direction
  peer := some (peer.identity.label k)
  localEnd := some "bmp-monitored-instance"
  provenance := [range]

def context (peer : BmpPeer) (session : PeerState) (stream : Stream) (direction : Option U8)
    (range : SourceRange) : Result ImportContext := do
  let context := contextOf k batch peer session stream direction range
  context.validate l
  return context

def gapContexts (peer : BmpPeer) (session : PeerState) : Result (List ImportContext) :=
  (used session).mapM fun stream =>
    context k batch l peer session stream none record.range

end Contexts

def boundaryIssues : List String :=
  ["imported_observation_not_wire_verified", "caller_import_generation_boundary",
    "route_candidates_are_not_endpoint_state", "cross_source_correlation_requires_explicit_join"]

def boundaryJson (context : ImportContext) (boundary : GenerationBoundary) (recordId : String)
    (observedAtNs : Option ℤ) : Json :=
  Json.objectOf [("schema", .string State.routeSchema), ("source_kind", .string "imported"),
    ("source_id", .string context.sourceId), ("record_id", .string recordId),
    ("observed_at_ns", observedAtNs.elim .null fun n => .string (toString n)),
    ("session", .string context.session), ("direction", .null), ("peer", optional context.peer),
    ("local", optional context.localEnd), ("generation", decimalText context.generation),
    ("message_type", .number 0), ("routes", Json.arrayOf []), ("message_detail", .null),
    ("issues", Json.arrayOf (boundaryIssues.map .string)), ("evidence", .null),
    ("endpoint_state_established", .bool false), ("causality_established", .bool false),
    ("import_context", context.json),
    ("import_boundary", Json.objectOf [
      ("previous_generation", decimalText boundary.previousGeneration),
      ("reason", .string boundary.reason)])]

def finish (k : Checks) (value : Json) (l : Bgp.Limits) : Result Unit := do
  let _ ← State.treeBudget value l
  let _ ← value.encodeBounded (min l.inputBytes l.outputBytes)
  let _ ← State.fromNormalized k value none l
  return ()

def normalizeBoundary (k : Checks) (context : ImportContext) (boundary : GenerationBoundary)
    (recordId : String) (observedAtNs : Option ℤ) (l : Bgp.Limits) : Result Published := do
  context.validate l
  boundary.validate context l
  identity recordId l
  if boundaryIssues.length > l.elements then .error (Error.limit "bgp_import_issues")
  else
    finish k (boundaryJson context boundary recordId observedAtNs) l
    return ⟨context, recordId, observedAtNs, context.generation, .boundary boundary⟩

section Reset

variable (k : Checks) (batch : BmpBatch) (record : BmpRecord) (l : Bgp.Limits)

def boundaryOf (peer : BmpPeer) (session : PeerState) (previous : ℕ) (reason : String)
    (stream : Stream) : Result Published := do
  let context ← context k batch l peer session stream none record.range
  normalizeBoundary k context ⟨previous, reason⟩ (recordId record stream) peer.observedAtNs l

def reset (peer : BmpPeer) (session : PeerState) (reason : String) :
    Result (List Published × PeerState) := do
  let previous := session.decoder.generation
  let decoder ← session.decoder.reset
  let session := { session with decoder := decoder }
  let observations ← (used session).mapM (boundaryOf k batch record l peer session previous reason)
  return (observations, { session with reportedUp := false, contextUnresolved := false })

/-- A peer that is named by no record of its own. -/
def unclocked (identity : BmpPeerIdentity) : BmpPeer := ⟨identity, 0, 0, 0⟩

end Reset

structure Outcome where
  status : Status
  issues : List String
  session : Option String
  generation : ℕ
  affected : Option (List AffectedScope)
  observations : List Published
  gaps : List ImportContext

def Outcome.bare (status : Status) (issues : List String) : Outcome :=
  ⟨status, issues, none, 0, none, [], []⟩

section Monitor

variable (k : Checks) (batch : BmpBatch) (record : BmpRecord) (l : Bgp.Limits)

def replayTermination (s : ReplayState) : Result (Outcome × ReplayState) := do
  let affected ← affectedScopes l (s.sessions.map Prod.snd)
  let settled ← s.sessions.mapM fun x =>
    (reset k batch record l (unclocked x.1) x.2 "bmp_monitor_termination").map fun r => (x.1, r)
  return ({ Outcome.bare .reportedMonitorTermination [] with
      affected := some affected
      observations := settled.flatMap fun x => x.2.1 },
    { s with sessions := settled.map fun x => (x.1, x.2.2), monitorClosed := true })

def invalidating (reason : OpaqueReason) : Bool :=
  (reason = .malformedKnownRecord &&
      decide (record.messageType ∈ ([0, 2, 3, 5] : List U8))) ||
    (record.messageType = 5 && reason = .unsupportedTerminationReason) ||
    (record.messageType = 2 && reason = .unsupportedPeerDownReason)

def OpaqueReason.name : OpaqueReason → String
  | .malformedKnownRecord => "malformed_known_record"
  | .unknownMessageType => "unknown_message_type"
  | .unsupportedMessageType => "unsupported_message_type"
  | .unsupportedPeerType => "unsupported_peer_type"
  | .unsupportedAdjRibOut => "unsupported_adj_rib_out"
  | .unsupportedPeerDownReason => "unsupported_peer_down_reason"
  | .unsupportedTerminationReason => "unsupported_termination_reason"

def unresolved (session : PeerState) : PeerState := { session with contextUnresolved := true }

def replayOpaque (reason : OpaqueReason) (s : ReplayState) : Result (Outcome × ReplayState) :=
  let quarantine := Outcome.bare .opaqueQuarantine [OpaqueReason.name reason]
  if invalidating record reason then
    match record.peer with
    | some peer =>
      match s.sessions.get peer.identity with
      | some session => do
        let affected ← affectedScopes l [session]
        let gaps ← gapContexts k batch record l peer (unresolved session)
        return ({ quarantine with
            session := some ("bmp:" ++ session.index.repr)
            generation := session.decoder.generation
            affected := some affected
            gaps := gaps },
          { s with sessions := s.sessions.set peer.identity (unresolved session) })
      | none => .ok (quarantine, s)
    | none => do
      let affected ← affectedScopes l (s.sessions.map Prod.snd)
      let sessions := s.sessions.map fun x => (x.1, unresolved x.2)
      let gaps ← sessions.mapM fun x => gapContexts k batch record l (unclocked x.1) x.2
      return ({ quarantine with affected := some affected, gaps := gaps.flatten },
        { s with sessions := sessions, monitorCoverageUncertain := true })
  else .ok (quarantine, s)

end Monitor

section Opens

variable (sha256 : List U8 → Digest) (j : Projection) (batch : BmpBatch) (l : Bgp.Limits)

def parseOpenImported (b : List U8) (peer : BmpPeer) (range : SourceRange) : Result OpenState := do
  let (state, detail) ← parseOpenBody b l
  j.checkOpen detail peer range l
  return state

/-- Both OPENs of a Peer Up, or nothing when one of them is malformed. -/
def parseOpens (peer : BmpPeer) (sent received : List U8) (sentRange receivedRange : SourceRange) :
    Result (OpenState × OpenState) := do
  let _ ← validateMessageFrame sent false
  let _ ← validateMessageFrame received false
  let sent ← parseOpenImported j l sent peer sentRange
  let received ← parseOpenImported j l received peer receivedRange
  return (sent, received)

/-- A failure of content is kept beside the record, an exhausted budget fails the replay. -/
def contained {α : Type} (r : Result α) : Result (Option α) :=
  match r with
  | .ok a => .ok (some a)
  | .error e => if e.code = .limitExceeded then .error e else .ok none

def refuse (o : OpenState) (issue : String) : OpenState :=
  { o with
    ambiguous := true
    capabilities := { o.capabilities with valid := false }
    capabilityIssues := o.capabilityIssues ++ [issue] }

def openIssues (peer : BmpPeer) (received : OpenState) (bytes : List U8) : List String :=
  (if received.fourOctetAsn.getD (received.autonomousSystem.setWidth 32) ≠ peer.identity.asn then
    ["open_asn_disagrees_with_bmp_peer_metadata"] else []) ++
  if sliceOf bytes 24 28 ≠ peer.identity.bgpId then
    ["open_bgp_id_disagrees_with_bmp_peer_metadata"] else []

end Opens

section Peers

variable (sha256 : List U8 → Digest) (j : Projection) (batch : BmpBatch) (record : BmpRecord)
  (l : Bgp.Limits) (peer : BmpPeer) (session : PeerState)

def sessionLabel : Option String := some ("bmp:" ++ session.index.repr)

/-- A Peer Up of a peer that has been seen begins a new generation. -/
def restart : Result (List Published × PeerState) :=
  if session.reportedUp ∨ used session ≠ [] then
    reset j.checks batch record l peer session "bmp_reported_peer_up"
  else .ok ([], session)

def replayPeerUp (sentOpen receivedOpen : SourceRange) : Result (Outcome × PeerState) := do
  let sent ← batch.rangeBytes sha256 sentOpen
  let received ← batch.rangeBytes sha256 receivedOpen
  match ← contained (parseOpens j l peer sent received sentOpen receivedOpen) with
  | none =>
    let gaps ← gapContexts j.checks batch record l peer (unresolved session)
    return (⟨.quarantinedPeerUp, ["malformed_reported_open"], sessionLabel session,
      session.decoder.generation, none, [], gaps⟩, unresolved session)
  | some (sentState, receivedState) =>
    let issues := openIssues peer receivedState received
    let (observations, session) ← restart j batch record l peer session
    let opens := (session.decoder.opens.insert 1 [sentState]).insert 0
      [issues.foldl refuse receivedState]
    return (⟨.reportedPeerUp, issues, sessionLabel session, session.decoder.generation, none,
        observations, []⟩,
      { session with
        decoder := ⟨session.decoder.generation, opens⟩
        reportedUp := true
        contextUnresolved := false })

def replayPeerDown (reason : U8) : Result (Outcome × PeerState) := do
  let affected ← affectedScopes l [session]
  let (observations, session) ← reset j.checks batch record l peer session
    (if reason = 5 then "bmp_monitoring_coverage_closed" else "bmp_reported_peer_down")
  return (⟨if reason = 5 then .reportedCoverageClose else .reportedPeerDown, [],
    sessionLabel session, session.decoder.generation, some affected, observations, []⟩, session)

def streamOf : Stream := if peer.postPolicy then .post else .pre

def monitoringOutcome (status : Status) (issues : List String) : Outcome :=
  ⟨status, issues, some (streamId session (streamOf peer)), session.decoder.generation, none, [], []⟩

def routeProjectionIncomplete (parsed : ParsedUpdate) : Bool :=
  !parsed.opaqueNlri.isEmpty &&
    !(parsed.opaqueNlri.all (·.kind = "multiprotocol_layout_unresolved") &&
      (parsed.attributeRanges.filter fun r => isMultiprotocol r.code &&
        r.interpretation = .opaqueFamilyCapabilityOrAddPathLayout).all fun r =>
          r.code = 15 && r.stop - r.valueStart = 3)

def unsupportedOpens (s : SessionState) : Bool :=
  decide (∃ d ∈ s.opens.keys, ((s.opens.get d).getD []).any (fun o => o.capabilityIssues.any
    fun issue => issue = "unsupported_capability_retained_by_hash" ||
      issue = "unsupported_open_parameter_retained_by_hash") = true)

/-- A route behind its identity and inventory, which carry its positions. -/
def publishedRoute (r : RouteRecord) : RouteRecord :=
  { r with start := 0, stop := 0, attributeRanges := [] }

def publishUpdate (parsed : ParsedUpdate) (basis : Basis) (bytes : List U8) (message : SourceRange) :
    Result Published := do
  j.checkInventory parsed bytes message l
  let context ← context j.checks batch l peer session (streamOf peer) (some 0) message
  let o : Published := ⟨context, recordId record (streamOf peer), peer.observedAtNs,
    session.decoder.generation, .update (parsed.records.map publishedRoute) parsed basis message⟩
  j.checkEnvelope o peer l
  return o

def applyUpdate (parsed : ParsedUpdate) (basis : Basis) (bytes : List U8) (message : SourceRange) :
    Result (Outcome × PeerState) :=
  let parsed := { parsed with
    issues := parsed.issues ++ if unsupportedOpens session.decoder then
      ["unsupported_session_capabilities_not_interpreted"] else [] }
  if parsed.knownDisposition = .sessionReset then do
    let affected ← affectedScopes l [session]
    let (observations, next) ← reset j.checks batch record l peer session
      "bmp_embedded_update_error_context_cut"
    return ({ monitoringOutcome peer session .quarantinedSessionReset
          ["embedded_update_requires_context_reset"] with
        affected := some affected
        observations := observations },
      next)
  else do
    let o ← publishUpdate j batch record l peer session parsed basis bytes message
    return ({ monitoringOutcome peer session
          (if routeProjectionIncomplete parsed then .opaqueRouteMonitoringContinuityGap
          else .decodedRouteMonitoringCandidate)
          (if parsed.peerRelationshipUnresolved then ["peer_relationship_context_unresolved"]
          else []) with
        observations := [o] },
      { session with usedStreams := Function.update session.usedStreams (streamOf peer) true })

def parseMonitored (layout : LayoutContext) (relationship : PeerRelationship) (bytes : List U8) :
    Result ParsedUpdate := do
  let _ ← validateMessageFrame bytes (decide ((0 : U8) ∈ layout.extendedMessageSenders))
  parseUpdate bytes layout relationship (some 0) l

def decodeMonitoring (relationship : PeerRelationship) (message : SourceRange) :
    Result (Outcome × PeerState) :=
  let evidence := layoutEvidence session.decoder true
  if !evidence.2.bilateral ∨ ∃ x ∈ evidence.1.unresolvedAddPath, x.1 = 0 then
    .ok (monitoringOutcome peer session .quarantinedRouteMonitoring
      ["reported_open_capabilities_unresolved"], session)
  else do
    -- BMP may rewrite AS_PATH into four-octet form independently of OPENs.
    let layout := { evidence.1 with asnWidth := peer.asnWidth }
    let bytes ← batch.rangeBytes sha256 message
    match ← contained (parseMonitored l layout relationship bytes) with
    | none =>
      let gaps ← gapContexts j.checks batch record l peer (unresolved session)
      return ({ monitoringOutcome peer session .quarantinedMalformedUpdate
          ["bmp_embedded_update_rejected"] with gaps := gaps }, unresolved session)
    | some parsed => applyUpdate j batch record l peer session parsed evidence.2 bytes message

def replayRouteMonitoring (closed : Bool) (relationship : PeerRelationship)
    (message : SourceRange) : Result (Outcome × PeerState) :=
  if closed ∨ !session.reportedUp ∨ session.contextUnresolved then
    .ok (monitoringOutcome peer session .quarantinedRouteMonitoring
      ["missing_unambiguous_reported_peer_up"], session)
  else decodeMonitoring sha256 j batch record l peer session relationship message

def replayBody (s : ReplayState) : BmpBody → Result (Outcome × PeerState)
  | .peerUp _ _ _ sentOpen receivedOpen _ =>
    replayPeerUp sha256 j batch record l peer session sentOpen receivedOpen
  | .peerDown reason _ => replayPeerDown j batch record l peer session reason
  | .routeMonitoring message =>
    replayRouteMonitoring sha256 j batch record l peer session s.monitorClosed
      (s.relationship.getD .unknown) message
  | _ => .ok (Outcome.bare .opaqueQuarantine [], session)

end Peers

section Records

variable (sha256 : List U8 → Digest) (j : Projection) (batch : BmpBatch) (l : Bgp.Limits)
  (peerLimit : ℕ)

def PeerState.fresh (index : ℕ) : PeerState := ⟨index, ⟨0, .empty⟩, false, fun _ => false, false⟩

def track (s : ReplayState) (p : BmpPeerIdentity) : Result (PeerState × ReplayState) :=
  match s.sessions.get p with
  | some session => .ok (session, s)
  | none =>
    if s.sessions.length ≥ peerLimit ∨ s.sessions.length ≥ l.active then
      .error (Error.limit "bmp_peers")
    else
      let session := PeerState.fresh s.sessions.length
      .ok (session, { s with sessions := s.sessions.insert p session })

def replayPeer (record : BmpRecord) (s : ReplayState) : Result (Outcome × ReplayState) :=
  match record.peer with
  | none => .error (badAt "bmp_peer" record.offset "supported peer record has no peer")
  | some peer => do
    let (session, s) ← track l peerLimit s peer.identity
    let (o, session) ← replayBody sha256 j batch record l peer session s record.body
    return (o, { s with sessions := s.sessions.set peer.identity session })

def replayOutcome (record : BmpRecord) (s : ReplayState) : Result (Outcome × ReplayState) :=
  match record.body with
  | .initiation _ => .ok (Outcome.bare .reportedInitiation [], { s with monitorClosed := false })
  | .termination _ => replayTermination j.checks batch record l s
  | .opaqueBytes reason _ => replayOpaque j.checks batch record l reason s
  | _ => replayPeer sha256 j batch l peerLimit record s

def gapScopes (o : Outcome) : Result (Option (List AffectedScope)) :=
  match o.affected with
  | some scopes => .ok (some scopes)
  | none =>
    if o.gaps ≠ [] ∨ o.status ∈ [.quarantinedPeerUp, .quarantinedMalformedUpdate,
        .quarantinedPeerRelationship] then
      (scopeInventory l (o.gaps.map fun c =>
        (c.session.utf8ByteSize, ⟨c.session, c.generation⟩))).map some
    else .ok none

def replayRecord (record : BmpRecord) (s : ReplayState) : Result (ReplayRecord × ReplayState) := do
  let (o, s) ← replayOutcome sha256 j batch l peerLimit record s
  let affected ← gapScopes l o
  return (⟨⟨o.session, o.generation, o.status, o.issues, s.monitorCoverageUncertain, affected⟩,
    o.observations, o.gaps⟩, s)

def replayRecords : List BmpRecord → ReplayState → Result (List ReplayRecord × ReplayState)
  | [], s => .ok ([], s)
  | record :: rest, s => do
    let (out, s) ← replayRecord sha256 j batch l peerLimit record s
    let (outs, s) ← replayRecords rest s
    return (out :: outs, s)

end Records

end PcapEvidence.Bgp.Bmp
