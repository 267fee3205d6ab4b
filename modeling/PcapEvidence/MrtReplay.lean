import PcapEvidence.Sha256
import PcapEvidence.BgpRib

/-!
# Replay of BGP4MP records

Sessions of an MRT source, with their OPEN messages and their reported state. A record is resolved to
a session, and the session admits an UPDATE only with the evidence of its own connection. The
decoders of message bodies are parameters, so what follows holds for any of them; the peer
relationship, which they alone use, is part of them. The detail of an event is left out.
-/

namespace PcapEvidence.Mrt

open FiniteMap History Bgp

structure MrtSource where
  sourceId : String
  checkpointId : String

structure Bgp4mp where
  peerAsn : U32
  localAsn : U32
  asnWidth : U8
  interfaceIndex : U16
  addressAfi : U16
  peerAddress : String
  localAddress : String
  locallyGenerated : Bool
  addPath : Bool

structure SessionIdentity where
  sourceId : String
  checkpointId : String
  addressAfi : U16
  peerAddress : String
  localAddress : String
  peerAsn : Option U32
  localAsn : Option U32
  interfaceIndex : Option U16

def compatibleValue {α : Type} [DecidableEq α] (left right : Option α) : Bool :=
  left.isNone || right.isNone || left = right

namespace SessionIdentity

def knownAsn (outer : Bgp4mp) (asn : U32) : Option U32 :=
  if asn ≠ 0 ∧ ¬(outer.asnWidth = 2 ∧ asn = 23456) then some asn else none

def fromRecord (source : MrtSource) (outer : Bgp4mp) : SessionIdentity where
  sourceId := source.sourceId
  checkpointId := source.checkpointId
  addressAfi := outer.addressAfi
  peerAddress := outer.peerAddress
  localAddress := outer.localAddress
  peerAsn := knownAsn outer outer.peerAsn
  localAsn := knownAsn outer outer.localAsn
  interfaceIndex := if outer.interfaceIndex ≠ 0 then some outer.interfaceIndex else none

def samePartitionAndAddresses (a b : SessionIdentity) : Bool :=
  a.sourceId = b.sourceId && a.checkpointId = b.checkpointId && a.addressAfi = b.addressAfi &&
    a.peerAddress = b.peerAddress && a.localAddress = b.localAddress

def compatible (a b : SessionIdentity) : Bool :=
  a.samePartitionAndAddresses b && compatibleValue a.peerAsn b.peerAsn &&
    compatibleValue a.localAsn b.localAsn && compatibleValue a.interfaceIndex b.interfaceIndex

def enrich (a b : SessionIdentity) : SessionIdentity :=
  { a with
    peerAsn := a.peerAsn.or b.peerAsn
    localAsn := a.localAsn.or b.localAsn
    interfaceIndex := a.interfaceIndex.or b.interfaceIndex }

end SessionIdentity

def sizedField (text rest : String) : String :=
  text.utf8ByteSize.repr ++ (":" ++ (text ++ (":" ++ rest)))

def numberField (n : ℕ) (rest : String) : String := n.repr ++ (":" ++ rest)

def sessionKey (source : MrtSource) (outer : Bgp4mp) (slot : ℕ) : String :=
  "mrt-bgp4mp:" ++ sizedField source.sourceId (sizedField source.checkpointId
    (numberField outer.addressAfi.toNat (sizedField outer.peerAddress
      (sizedField outer.localAddress (numberField outer.peerAsn.toNat
        (numberField outer.localAsn.toNat (numberField outer.interfaceIndex.toNat slot.repr)))))))

structure CapabilitySet where
  fourOctetAsn : Option U32
  mp : Finset (U16 × U8)
  addPath : FinMap (U16 × U8) U8
  addPathMalformed : Bool
  extendedMessages : Bool
  enhancedRefresh : Bool
  unsupportedIpv6NextHopLayout : Bool
  valid : Bool

structure OpenState where
  bytes : List U8
  autonomousSystem : U16
  fourOctetAsn : Option U32
  capabilities : CapabilitySet
  capabilityIssues : List String
  ambiguous : Bool

def OpenState.messageSha256 (o : OpenState) : Digest := Sha256.digest o.bytes

structure SessionState where
  generation : ℕ
  opens : FinMap U8 (List OpenState)

namespace SessionState

def reset (s : SessionState) : Result SessionState :=
  if s.generation + 1 < 2 ^ 64 then .ok ⟨s.generation + 1, .empty⟩
  else .error (Error.limit "bgp_generation")

def unambiguousOpen (s : SessionState) (direction : U8) : Option OpenState :=
  (s.opens.get direction).bind fun opens => opens.head?.bind fun first =>
    if opens.all fun o => !o.ambiguous && o.messageSha256 = first.messageSha256 then some first
    else none

end SessionState

structure LayoutContext where
  asnWidth : ℕ
  addPath : Finset (U8 × U16 × U8)
  unresolvedAddPath : Finset (U8 × U16 × U8)
  mp : Finset (U16 × U8)
  unsupportedIpv6NextHopLayout : Bool
  extendedMessageSenders : Finset U8
  extendedMessages : Bool
  enhancedRefresh : Bool
  enhancedRefreshSenders : Finset U8

inductive Basis where
  | missingScope
  | ambiguousOpenEvidence
  | missingOpenEvidence
  | bothFourOctetAdvertisements
  | twoOctetBilateralAdvertisements
  deriving DecidableEq

def Basis.bilateral : Basis → Bool
  | .bothFourOctetAdvertisements | .twoOctetBilateralAdvertisements => true
  | _ => false

def LayoutContext.none : LayoutContext where
  asnWidth := 0
  addPath := ∅
  unresolvedAddPath := ∅
  mp := ∅
  unsupportedIpv6NextHopLayout := false
  extendedMessageSenders := ∅
  extendedMessages := false
  enhancedRefresh := false
  enhancedRefreshSenders := ∅

def baseFamilies : Finset (U16 × U8) := {(1, 1), (1, 2), (2, 1), (2, 2)}

def unresolvedFamilies (s : SessionState) : Finset (U16 × U8) :=
  s.opens.keys.biUnion fun d => ((s.opens.get d).getD []).foldl (fun families o =>
    families ∪ o.capabilities.addPath.keys ∪
      if o.capabilities.addPathMalformed then baseFamilies else ∅) ∅

def unresolvedLayout (s : SessionState) : LayoutContext :=
  { LayoutContext.none with
    unresolvedAddPath := (({0, 1} : Finset U8) ×ˢ unresolvedFamilies s).image
      fun x => (x.1, x.2.1, x.2.2) }

def addPathSenders (a b : CapabilitySet) (family : U16 × U8) : Finset U8 :=
  match a.addPath.get family, b.addPath.get family with
  | some a, some b =>
    (if a &&& 2 ≠ 0 ∧ b &&& 1 ≠ 0 then {0} else ∅) ∪ if b &&& 2 ≠ 0 ∧ a &&& 1 ≠ 0 then {1} else ∅
  | _, _ => ∅

def bilateralLayout (a b : CapabilitySet) : LayoutContext where
  asnWidth := if a.fourOctetAsn.isSome && b.fourOctetAsn.isSome then 4 else 2
  addPath := (a.addPath.keys ∪ b.addPath.keys).biUnion fun family =>
    (addPathSenders a b family).image fun sender => (sender, family.1, family.2)
  unresolvedAddPath := ∅
  mp := a.mp ∩ b.mp
  unsupportedIpv6NextHopLayout := a.unsupportedIpv6NextHopLayout || b.unsupportedIpv6NextHopLayout
  extendedMessageSenders := (if b.extendedMessages then {0} else ∅) ∪
    if a.extendedMessages then {1} else ∅
  extendedMessages := a.extendedMessages && b.extendedMessages
  enhancedRefresh := a.enhancedRefresh && b.enhancedRefresh
  enhancedRefreshSenders := (if b.enhancedRefresh then {0} else ∅) ∪
    if a.enhancedRefresh then {1} else ∅

def layoutEvidence (s : SessionState) (inScope : Bool) : LayoutContext × Basis :=
  if !inScope then (.none, .missingScope)
  else if ∃ d ∈ s.opens.keys, ((s.unambiguousOpen d).all fun o => !o.capabilities.valid) = true then
    (unresolvedLayout s, .ambiguousOpenEvidence)
  else match s.unambiguousOpen 0, s.unambiguousOpen 1 with
    | some a, some b =>
      (bilateralLayout a.capabilities b.capabilities,
        if a.capabilities.fourOctetAsn.isSome && b.capabilities.fourOctetAsn.isSome then
          .bothFourOctetAdvertisements else .twoOctetBilateralAdvertisements)
    | _, _ => (unresolvedLayout s, .missingOpenEvidence)

structure ImportedSession where
  id : String
  identity : SessionIdentity
  decoder : SessionState
  fsm : Option U16
  stateConflict : Bool

def ImportedSession.clearGrammar (s : ImportedSession) : ImportedSession :=
  { s with
    decoder := { s.decoder with opens := .empty }
    fsm := none
    stateConflict := true }

inductive EventKind where
  | stateChange | message | malformedRecord
  deriving DecidableEq

inductive ParseStatus where
  | reportedTransition
  | rejected
  | quarantined
  | quarantinedAmbiguousSession
  | quarantinedCoverageUnknown
  | decodedOpen
  | quarantinedOpenFsmState
  | quarantinedSessionReset
  | opaqueUpdateContinuityGap
  | decodedUpdateCandidate
  | decodedNotificationReset
  | decodedKeepalive
  | quarantinedKeepaliveFsmState
  | ignoredUnknownRouteRefreshSubtype
  | quarantinedRouteRefreshFsmState
  | quarantinedRouteRefreshCapabilityContext
  | decodedRouteRefresh
  deriving DecidableEq

structure AffectedScope where
  session : String
  generation : ℕ
  deriving DecidableEq

structure Event where
  session : Option String
  direction : Option U8
  generation : ℕ
  kind : EventKind
  parseStatus : ParseStatus
  issues : List String
  affected : List AffectedScope
  deriving DecidableEq

structure UpdateRoute where
  afi : U16
  safi : U8
  pathId : Option U32
  deriving DecidableEq

structure ParsedUpdate where
  routes : List UpdateRoute
  sessionReset : Bool
  issues : List String
  peerRelationshipUnresolved : Bool
  projectionIncomplete : Bool

structure OpenBody where
  autonomousSystem : U16
  fourOctetAsn : Option U32
  capabilities : CapabilitySet
  capabilityIssues : List String
  ambiguous : Bool

structure Grammar where
  validateMessageFrame : List U8 → Bool → Result U8
  parseOpen : List U8 → Bgp.Limits → Result OpenBody
  parseUpdate : List U8 → LayoutContext → U8 → Bgp.Limits → Result ParsedUpdate
  checkObservation : ParsedUpdate → Bgp.Limits → Result Unit

structure Observation where
  session : String
  direction : U8
  generation : ℕ
  routes : List UpdateRoute
  issues : List String
  deriving DecidableEq

structure ReplayRecord where
  event : Event
  observation : Option Observation
  continuityGap : Bool
  deriving DecidableEq

/-- A record of a source. A malformed record has a header if one could be recovered. -/
inductive MrtRecord where
  | message (source : MrtSource) (outer : Bgp4mp) (timed : Bool) (bytes : List U8)
  | state (source : MrtSource) (outer : Bgp4mp) (old new : U16)
  | malformed (source : MrtSource) (scope : Option Bgp4mp)

def validFsmTransition (old new : U16) : Bool :=
  match old.toNat with
  | 1 => new.toNat = 2 || new.toNat = 3
  | 2 => new.toNat = 1 || new.toNat = 3 || new.toNat = 4
  | 3 => new.toNat = 1 || new.toNat = 2 || new.toNat = 4
  | 4 => new.toNat = 1 || new.toNat = 3 || new.toNat = 5
  | 5 => new.toNat = 1 || new.toNat = 6
  | 6 => new.toNat = 1
  | _ => false

namespace ImportedSession

def report (s : ImportedSession) (direction : Option U8) (generation : ℕ) (kind : EventKind)
    (status : ParseStatus) (issues : List String) : ReplayRecord :=
  ⟨⟨some s.id, direction, generation, kind, status, issues, []⟩, none, false⟩

def refuseTransition (s : ImportedSession) (status : ParseStatus) (issue : String) :
    ImportedSession × Result ReplayRecord :=
  match s.decoder.reset with
  | .error e => (s, .error e)
  | .ok decoder =>
    ({ s with decoder := decoder, fsm := none, stateConflict := true },
      .ok (s.report none decoder.generation .stateChange status [issue]))

/-- Idle begins a new generation, and so does the retry of a connection that failed in OpenSent. -/
def transitionDecoder (s : ImportedSession) (old new : U16) : Result SessionState :=
  if new.toNat = 1 ∨ old.toNat = 4 ∧ new.toNat = 3 then s.decoder.reset else .ok s.decoder

def replayState (s : ImportedSession) (old new : U16) : ImportedSession × Result ReplayRecord :=
  if ¬(1 ≤ old.toNat ∧ old.toNat ≤ 6) ∨ ¬(1 ≤ new.toNat ∧ new.toNat ≤ 6) then
    s.refuseTransition .rejected "invalid_fsm_state_value"
  else if !validFsmTransition old new then
    s.refuseTransition .quarantined "illegal_reported_fsm_transition"
  else if s.fsm.any (· ≠ old) then
    s.refuseTransition .quarantined "reported_old_state_conflicts_with_prior_new_state"
  else match s.transitionDecoder old new with
    | .error e => (s, .error e)
    | .ok decoder =>
      let issues := if new.toNat = 6 ∧ !(layoutEvidence decoder true).2.bilateral then
        ["established_state_without_unambiguous_bilateral_open"] else []
      ({ s with decoder := decoder, fsm := some new, stateConflict := false },
        .ok (s.report none decoder.generation .stateChange .reportedTransition issues))

def opening (s : ImportedSession) : Bool :=
  !s.stateConflict && s.fsm.any fun f => 2 ≤ f.toNat && f.toNat ≤ 4

def established (s : ImportedSession) : Bool := s.fsm = some 6 && !s.stateConflict

def expectedAsn (outer : Bgp4mp) : U32 :=
  if outer.locallyGenerated then outer.localAsn else outer.peerAsn

def advertisedAsn (outer : Bgp4mp) (body : OpenBody) : U32 :=
  if outer.asnWidth = 4 then body.fourOctetAsn.getD (body.autonomousSystem.setWidth 32)
  else body.autonomousSystem.setWidth 32

def asnDisagreement : String := "open_asn_disagrees_with_mrt_peer_metadata"

def openOf (outer : Bgp4mp) (bytes : List U8) (body : OpenBody) : OpenState :=
  if advertisedAsn outer body = expectedAsn outer then
    ⟨bytes, body.autonomousSystem, body.fourOctetAsn, body.capabilities, body.capabilityIssues,
      body.ambiguous⟩
  else
    ⟨bytes, body.autonomousSystem, body.fourOctetAsn, { body.capabilities with valid := false },
      body.capabilityIssues ++ [asnDisagreement], true⟩

def openCount (s : ImportedSession) : ℕ := s.decoder.opens.total fun _ l => l.length

def pushOpen (s : ImportedSession) (direction : U8) (o : OpenState) : ImportedSession :=
  { s with decoder := { s.decoder with
    opens := s.decoder.opens.insert direction ((s.decoder.opens.get direction).getD [] ++ [o]) } }

variable (g : Grammar) (limits : Bgp.Limits)

def replayOpen (s : ImportedSession) (outer : Bgp4mp) (direction : U8) (bytes : List U8) :
    ImportedSession × Result ReplayRecord :=
  match g.parseOpen bytes limits with
  | .error e =>
    if e.code = .limitExceeded then (s, .error e)
    else (s, .ok (s.report (some direction) s.decoder.generation .message .rejected
      ["bgp4mp_open_rejected"]))
  | .ok body =>
    let issues := if advertisedAsn outer body = expectedAsn outer then [] else [asnDisagreement]
    if s.opening then
      if s.openCount ≥ limits.elements then (s, .error (Error.limit "bgp_mrt_open_records"))
      else (s.pushOpen direction (openOf outer bytes body),
        .ok (s.report (some direction) s.decoder.generation .message .decodedOpen issues))
    else (s, .ok (s.report (some direction) s.decoder.generation .message .quarantinedOpenFsmState
      (issues ++ ["open_outside_opening_fsm_state_not_used_for_layout"])))

def wireLayout (negotiated : LayoutContext) (outer : Bgp4mp) (direction : U8) : LayoutContext :=
  let families := (baseFamilies ∪ negotiated.mp).image fun f => (direction, f.1, f.2)
  { negotiated with
    asnWidth := outer.asnWidth.toNat
    addPath := (negotiated.addPath \ families) ∪ if outer.addPath then families else ∅ }

def addPathConflict (negotiated : LayoutContext) (direction : U8) (u : ParsedUpdate) : Bool :=
  u.routes.any fun r => (direction, r.afi, r.safi) ∈ negotiated.unresolvedAddPath ||
    decide ((direction, r.afi, r.safi) ∈ negotiated.addPath) != r.pathId.isSome

def unsupportedIssues (s : ImportedSession) : List String :=
  if ∃ d ∈ s.decoder.opens.keys, ∃ o ∈ (s.decoder.opens.get d).getD [],
      "unsupported_capability_retained_by_hash" ∈ o.capabilityIssues ∨
      "unsupported_open_parameter_retained_by_hash" ∈ o.capabilityIssues then
    ["unsupported_session_capabilities_not_interpreted"] else []

def finishUpdate (s : ImportedSession) (outer : Bgp4mp) (timed : Bool) (direction : U8)
    (negotiated : LayoutContext) (u : ParsedUpdate) : ImportedSession × Result ReplayRecord :=
  let generation := s.decoder.generation
  if outer.asnWidth.toNat ≠ negotiated.asnWidth then
    (s, .ok (s.report (some direction) generation .message .quarantined
      ["container_asn_width_conflicts_with_bilateral_open"]))
  else if addPathConflict negotiated direction u then
    (s, .ok (s.report (some direction) generation .message .quarantined
      ["container_add_path_layout_conflicts_with_bilateral_open"]))
  else if u.sessionReset then
    match s.decoder.reset with
    | .error e => (s, .error e)
    | .ok decoder => ({ s with decoder := decoder, fsm := none },
        .ok (s.report (some direction) generation .message .quarantinedSessionReset
          ["malformed_update_requires_session_reset"]))
  else
    let issues := (if u.peerRelationshipUnresolved then
        ["peer_relationship_context_unresolved_update_not_admitted"] else []) ++
      u.issues ++ s.unsupportedIssues ++ if timed then [] else ["invalid_mrt_record_timestamp"]
    match g.checkObservation u limits with
    | .error e => (s, .error e)
    | .ok _ => (s, .ok ⟨⟨some s.id, some direction, generation, .message,
        if u.projectionIncomplete then .opaqueUpdateContinuityGap else .decodedUpdateCandidate,
        issues, []⟩, some ⟨s.id, direction, generation, u.routes, issues⟩, u.projectionIncomplete⟩)

def replayUpdate (s : ImportedSession) (outer : Bgp4mp) (timed : Bool) (direction : U8)
    (bytes : List U8) : ImportedSession × Result ReplayRecord :=
  let evidence := layoutEvidence s.decoder s.established
  let quarantine (issue : String) : ImportedSession × Result ReplayRecord :=
    (s, .ok (s.report (some direction) s.decoder.generation .message .quarantined [issue]))
  if !s.established then quarantine "update_without_known_established_state"
  else if !evidence.2.bilateral then quarantine "capability_context_unresolved"
  else if ∃ x ∈ evidence.1.unresolvedAddPath, x.1 = direction then
    quarantine "add_path_capability_context_unresolved"
  else match g.parseUpdate bytes (wireLayout evidence.1 outer direction) direction limits with
    | .error e =>
      if e.code = .limitExceeded then (s, .error e)
      else (s, .ok (s.report (some direction) s.decoder.generation .message .rejected
        ["bgp4mp_update_rejected"]))
    | .ok u => s.finishUpdate g limits outer timed direction evidence.1 u

def replayNotification (s : ImportedSession) (direction : U8) (bytes : List U8) :
    ImportedSession × Result ReplayRecord :=
  if bytes.length < 21 then
    (s, .ok (s.report (some direction) s.decoder.generation .message .rejected
      ["bgp4mp_notification_rejected"]))
  else match s.decoder.reset with
    | .error e => (s, .error e)
    | .ok decoder => ({ s with decoder := decoder, fsm := none },
        .ok (s.report (some direction) s.decoder.generation .message .decodedNotificationReset []))

def replayKeepalive (s : ImportedSession) (direction : U8) (bytes : List U8) : ReplayRecord :=
  let generation := s.decoder.generation
  if bytes.length ≠ 19 then
    s.report (some direction) generation .message .rejected ["bgp4mp_keepalive_rejected"]
  else if !s.stateConflict && (s.fsm = some 5 || s.fsm = some 6) then
    s.report (some direction) generation .message .decodedKeepalive []
  else s.report (some direction) generation .message .quarantinedKeepaliveFsmState
    ["keepalive_outside_open_confirm_or_established"]

def refreshSenderLayout (s : ImportedSession) (direction : U8) : Bool :=
  (s.decoder.unambiguousOpen (1 - direction)).any fun o =>
    !o.ambiguous && o.capabilities.valid && o.capabilities.enhancedRefresh

def replayRouteRefresh (s : ImportedSession) (direction : U8) (bytes : List U8) : ReplayRecord :=
  let generation := s.decoder.generation
  if bytes.length ≠ 23 then
    s.report (some direction) generation .message .rejected ["bgp4mp_route_refresh_rejected"]
  else
    let accepted := s.established
    let subtype := (bytes[21]?).getD 0
    let outside := if accepted then [] else ["route_refresh_outside_established"]
    if subtype.toNat > 2 then
      s.report (some direction) generation .message .ignoredUnknownRouteRefreshSubtype
        ("unknown_route_refresh_subtype_ignored" :: outside)
    else if !accepted then
      s.report (some direction) generation .message .quarantinedRouteRefreshFsmState outside
    else if (subtype.toNat = 1 || subtype.toNat = 2) && !s.refreshSenderLayout direction then
      s.report (some direction) generation .message .quarantinedRouteRefreshCapabilityContext
        ("enhanced_route_refresh_unresolved_context" :: outside)
    else s.report (some direction) generation .message .decodedRouteRefresh outside

def frameRejected : String := "bgp4mp_message_frame_rejected"

def replayMessage (s : ImportedSession) (outer : Bgp4mp) (timed : Bool) (bytes : List U8) :
    ImportedSession × Result ReplayRecord :=
  let direction : U8 := if outer.locallyGenerated then 1 else 0
  let extended := decide (direction ∈ (layoutEvidence s.decoder
    s.established).1.extendedMessageSenders)
  match g.validateMessageFrame bytes extended with
  | .error e =>
    if e.code = .limitExceeded then (s, .error e)
    else (s.clearGrammar, .ok (s.report (some direction) s.decoder.generation .message .rejected
      [frameRejected]))
  | .ok messageType =>
    match messageType.toNat with
    | 1 => s.replayOpen g limits outer direction bytes
    | 2 => s.replayUpdate g limits outer timed direction bytes
    | 3 => s.replayNotification direction bytes
    | 4 => (s, .ok (s.replayKeepalive direction bytes))
    | 5 => (s, .ok (s.replayRouteRefresh direction bytes))
    | _ => (s, .ok (s.report (some direction) s.decoder.generation .message .rejected
        ["unsupported_bgp_message_type"]))

def replayMalformed (s : ImportedSession) : ImportedSession × Result ReplayRecord :=
  (s.clearGrammar, .ok (s.report none s.decoder.generation .malformedRecord .rejected
    ["malformed_bgp4mp_record"]))

end ImportedSession

abbrev ReplayState := List ImportedSession

inductive SessionResolution where
  | selected (index : ℕ)
  | ambiguous (scopes : List AffectedScope)
  deriving DecidableEq

def affectedScopes (limits : Bgp.Limits) (sessions : List ImportedSession) : Result (List AffectedScope) :=
  let bytes := (sessions.map fun s => s.id.utf8ByteSize * 6 + 128).sum
  if sessions.length > limits.elements ∨ sessions ≠ [] ∧ (bytes > limits.retainedBytes ∨
      bytes > limits.outputBytes ∨ bytes > limits.work) then
    .error (Error.limit "bgp_mrt_affected_scopes")
  else .ok (sessions.map fun s => ⟨s.id, s.decoder.generation⟩)

def compatibleIndices (state : ReplayState) (incoming : SessionIdentity) : List ℕ :=
  state.findIdxs fun s => s.identity.compatible incoming

def newSession (source : MrtSource) (outer : Bgp4mp) (slot : ℕ) : ImportedSession where
  id := sessionKey source outer slot
  identity := SessionIdentity.fromRecord source outer
  decoder := ⟨0, .empty⟩
  fsm := none
  stateConflict := false

def clearCompatible (incoming : SessionIdentity) (s : ImportedSession) : ImportedSession :=
  if s.identity.compatible incoming then s.clearGrammar else s

def resolveSession (limits : Bgp.Limits) (source : MrtSource) (outer : Bgp4mp) (state : ReplayState) :
    ReplayState × Result SessionResolution :=
  let incoming := SessionIdentity.fromRecord source outer
  match compatibleIndices state incoming with
  | [] =>
    if state.length ≥ limits.active then (state, .error (Error.limit "bgp_mrt_active_sessions"))
    else
      let slot := state.countP fun s => s.identity.samePartitionAndAddresses incoming
      (state ++ [newSession source outer slot], .ok (.selected state.length))
  | [index] =>
    (state.modify index fun s => { s with identity := s.identity.enrich incoming },
      .ok (.selected index))
  | _ =>
    match affectedScopes limits (state.filter fun s => s.identity.compatible incoming) with
    | .error e => (state, .error e)
    | .ok scopes => (state.map (clearCompatible incoming), .ok (.ambiguous scopes))

def ambiguousEvent (direction : Option U8) (kind : EventKind) (scopes : List AffectedScope) :
    ReplayRecord :=
  ⟨⟨none, direction, 0, kind, .quarantinedAmbiguousSession, ["ambiguous_bgp4mp_session_identity"],
    scopes⟩, none, false⟩

def onSession (state : ReplayState) (index : ℕ)
    (f : ImportedSession → ImportedSession × Result ReplayRecord) :
    ReplayState × Result ReplayRecord :=
  match state[index]? with
  | none => (state, .error (Error.limit "bgp_mrt_active_sessions"))
  | some s => (state.set index (f s).1, (f s).2)

def resolved (limits : Bgp.Limits) (source : MrtSource) (outer : Bgp4mp) (direction : Option U8)
    (kind : EventKind) (f : ImportedSession → ImportedSession × Result ReplayRecord)
    (state : ReplayState) : ReplayState × Result ReplayRecord :=
  match resolveSession limits source outer state with
  | (state, .error e) => (state, .error e)
  | (state, .ok (.ambiguous scopes)) => (state, .ok (ambiguousEvent direction kind scopes))
  | (state, .ok (.selected index)) => onSession state index f

def replay (g : Grammar) (limits : Bgp.Limits) (state : ReplayState) (record : MrtRecord) :
    ReplayState × Result ReplayRecord :=
  match record with
  | .message source outer timed bytes =>
    resolved limits source outer (some (if outer.locallyGenerated then 1 else 0)) .message
      (fun s => s.replayMessage g limits outer timed bytes) state
  | .state source outer old new =>
    resolved limits source outer none .stateChange (fun s => s.replayState old new) state
  | .malformed source (some outer) =>
    resolved limits source outer none .malformedRecord ImportedSession.replayMalformed state
  | .malformed _ none =>
    match affectedScopes limits state with
    | .error e => (state, .error e)
    | .ok scopes => (state.map ImportedSession.clearGrammar,
        .ok ⟨⟨none, none, 0, .malformedRecord, .quarantinedCoverageUnknown,
          ["malformed_bgp4mp_scope_unrecoverable"], scopes⟩, none, false⟩)

end PcapEvidence.Mrt
