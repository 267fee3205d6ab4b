import PcapEvidence.BgpDecode

/-!
# The captured session pipeline

One session of one capture: its decoder, its observer and its Adj-RIB-In, with the receipts of the
records that were applied. A message is planned on all three and then published; a gap or a reset of
the caller is applied to a copy. The supplemental work counters, which nothing reads, are left out,
and the reservation before a publication is assumed to succeed.
-/

namespace PcapEvidence.Bgp.Pipeline

open FiniteMap History Session Wire

structure DecodedContinuity where
  scope : RibScope
  reason : String
  nativeStatus : Option Bgp.ApplyStatus
  sessionStatus : Session.ApplyStatus
  newlyApplied : Bool
  kind : AdjRibIn.NativeContinuityKind
  effect : AdjRibIn.NativeContinuityEffect

structure ApplyReceipt where
  normalized : Decoded
  observationSha256 : Digest
  sessionStatus : Session.ApplyStatus
  ribStatus : Option Bgp.ApplyStatus
  protocolReset : Bool
  replayed : Bool
  continuity : Option DecodedContinuity

structure AppliedRecord where
  inputSha256 : Digest
  metadata : PcapMetadata
  receipt : ApplyReceipt

inductive BoundaryKind where
  | gap | reset
  deriving DecidableEq

structure BoundaryReceipt where
  sessionStatus : Session.ApplyStatus
  ribStatus : Option Bgp.ApplyStatus
  previousGeneration : ℕ
  generation : ℕ
  replayed : Bool

structure AppliedBoundary where
  kind : BoundaryKind
  reason : String
  receipt : BoundaryReceipt

structure CapturedSessionPipeline where
  captureNamespace : Vector U8 32
  sourceId : String
  session : U64
  limits : Bgp.Limits
  wire : WireState
  observer : SessionObserver
  rib : AdjRibIn
  applied : FinMap String AppliedRecord
  boundaries : FinMap String AppliedBoundary
  appliedBytes : ℕ
  tainted : Bool

def continuityCharge (source : SourcePartition) (session : String) (peer : Option String)
    (reason : String) : ℕ :=
  1024 + source.sourceId.utf8ByteSize + source.partitionId.utf8ByteSize + session.utf8ByteSize +
    peer.elim 0 String.utf8ByteSize + reason.utf8ByteSize

def DecodedContinuity.retainedCharge (d : DecodedContinuity) : ℕ :=
  continuityCharge d.scope.source d.scope.session d.scope.peer d.reason

def admitContinuity (charge retained : ℕ) (limits : Bgp.Limits) : Result Unit :=
  let total := charge * 4 + retained
  if total ≥ wordBound ∨ total > limits.retainedBytes ∨ total > limits.work ∨ limits.elements < 1 then
    .error (Error.limit "bgp_pipeline_continuity")
  else .ok ()

def continuityBytes (receipt : ApplyReceipt) : ℕ :=
  receipt.continuity.elim 0 DecodedContinuity.retainedCharge

def retainedRecordBytes (c : Carrier) (metadata : PcapMetadata) (receipt : ApplyReceipt)
    (limits : Bgp.Limits) : Result ℕ := do
  let length ← c.encodedLen receipt.normalized limits
  let total := length + continuityBytes receipt + metadata.sourceId.utf8ByteSize +
    metadata.recordId.utf8ByteSize + metadata.peer.elim 0 String.utf8ByteSize +
    metadata.local.elim 0 String.utf8ByteSize + 128
  if total ≥ wordBound then .error (Error.limit "bgp_pipeline_retained") else .ok total

def be64 (n : ℕ) : List U8 := (List.range 8).map fun i => BitVec.ofNat 8 (n >>> (8 * (7 - i)))

def spanIdentity (s : SourceSpan) : List U8 :=
  be64 s.start ++ be64 s.stop ++ s.packet.capture.toList ++ be64 s.packet.frame ++
    be64 s.packet.recordOffset ++ be64 s.packetStart

def inputIdentity (bytes : EvidenceBytes) : Digest :=
  Sha256.digest (Encoder.utf8 "pcap-evidence.bgp.pipeline-input.v1\x00" ++ be64 bytes.len ++
    bytes.data ++ be64 bytes.spans.length ++ bytes.spans.flatMap spanIdentity)

def sessionText (session : U64) : String := session.toNat.repr

def openAdvertisement (detail : OpenDetail) : OpenAdvertisement where
  capabilities := detail.capabilityOccurrences.map fun o => ⟨o.code, o.sha256⟩
  ambiguous := detail.ambiguous

def endOfRibFamily (families : List Family) : Result (Option Family) :=
  if families.length > 1 then
    .error (bad "bgp_state_eor" "one captured UPDATE cannot establish multiple EOR markers")
  else if families.any fun f => f.afi = 0 || f.safi = 0 then
    .error (bad "bgp_state_eor" "nonzero AFI and SAFI required")
  else .ok families.head?

def opaqueReason : String := "decoded_update_opaque_route_evidence"

def updateKind (u : ParsedUpdate) (decoderGeneration : ℕ) : Result EventKind :=
  if u.disposition = .action .sessionReset then .ok (.protocolReset decoderGeneration .updateError)
  else if u.opaqueNlri ≠ [] then .ok (.gap opaqueReason)
  else do
    let family ← endOfRibFamily u.endOfRib
    .ok (family.elim .update .endOfRib)

def messageKind (message : Message) (decoderGeneration : ℕ) : Result EventKind :=
  match message with
  | .open detail => .ok (.open (openAdvertisement detail))
  | .keepalive => .ok .keepalive
  | .notification _ _ _ => .ok (.protocolReset decoderGeneration .notification)
  | .routeRefresh afi reserved safi _ => .ok (.routeRefresh ⟨afi, safi⟩ (some reserved))
  | .update parsed => updateKind parsed decoderGeneration

def isProtocolReset : EventKind → Bool
  | .protocolReset _ _ => true
  | _ => false

def sessionEvent (observation : Observation) (source : SourcePartition) (decoderGeneration : ℕ) :
    Result Event := do
  let metadata := observation.record.metadata
  if metadata.sourceId ≠ source.sourceId then
    .error (bad "bgp_pipeline_source" "captured observation source does not match partition")
  else match metadata.session with
    | none => .error (bad "bgp_pipeline_session" "captured session is required")
    | some session => do
      let kind ← messageKind observation.record.message decoderGeneration
      if isProtocolReset kind then
        if checkedAdd observation.generation 1 ≠ some decoderGeneration then
          .error (bad "bgp_pipeline_generation"
            "decoder did not advance exactly once after protocol reset")
        else .ok ⟨⟨source, sessionText session⟩, observation.generation, metadata.direction,
          metadata.recordId, kind⟩
      else if observation.generation ≠ decoderGeneration then
        .error (bad "bgp_pipeline_generation" "observation and decoder generations disagree")
      else .ok ⟨⟨source, sessionText session⟩, observation.generation, metadata.direction,
        metadata.recordId, kind⟩

def capturedKind (bytes : EvidenceBytes) : EventKind → EventKind
  | .open advertisement => .capturedOpen advertisement (Sha256.digest bytes.data)
  | kind => kind

def ribScope (session : SessionKey) (generation : ℕ) (direction : Option U8) (peer : Option String) :
    RibScope :=
  ⟨session.source, session.session, generation, direction, if direction.isSome then peer else none⟩

def ribPathId : Option U32 → PathId
  | none => .absent
  | some id => .present id

def ribAction (c : Carrier) (limits : Bgp.Limits) (r : RouteObservation) : Result RibAction :=
  match r.action with
  | .withdraw => .ok (.withdraw r.route (ribPathId r.pathId))
  | .announce =>
    if r.ambiguousAttributes then
      .ok (.reject r.route (ribPathId r.pathId) "ambiguous_attribute_context")
    else do
      let identity ← c.attributeIdentity r.attributeRanges limits
      .ok (.announce r.route (ribPathId r.pathId) (c.attributesJson r.attributes) identity)

def resetReason : String := "decoded_protocol_session_reset"

/-- The change of the routes that a message asks for, if it asks for one. -/
def ribKind (c : Carrier) (limits : Bgp.Limits) (observation : Observation) (event : Event) :
    Result (Option RibEventKind) :=
  match event.kind with
  | .protocolReset _ _ => .ok (some (.reset event.generation resetReason))
  | .endOfRib family => .ok (some (.endOfRib family))
  | .gap reason => .ok (some (.gap reason))
  | .update => do
    let actions ← observation.routes.mapM (ribAction c limits)
    .ok (if actions = [] then none else some (.update actions))
  | _ => .ok none

def ribEvent (c : Carrier) (limits : Bgp.Limits) (observation : Observation) (event : Event) :
    Result (Option RibEvent) := do
  let metadata := observation.record.metadata
  let kind ← ribKind c limits observation event
  let scope := match event.kind with
    | .protocolReset next _ => ribScope event.session next none metadata.peer
    | _ => ribScope event.session event.generation metadata.direction metadata.peer
  .ok (kind.map fun kind => ⟨scope, metadata.recordId, kind⟩)

def gapEvent (session : SessionKey) (generation : ℕ) (recordId reason : String) : RibEvent :=
  ⟨ribScope session generation none none, recordId, .gap reason⟩

def conflictReason : String := "session_record_identity_conflict"

def contradictionReason : String := "captured_open_content_contradiction"

namespace CapturedSessionPipeline

section Admission

def partitionId (captureNamespace : Vector U8 32) : String :=
  "capture-namespace-sha256:" ++ hex captureNamespace.toList

def sessionKey (captureNamespace : Vector U8 32) (sourceId : String) (session : U64) : SessionKey :=
  ⟨⟨.captured, sourceId, partitionId captureNamespace⟩, sessionText session⟩

def embeddedLimits (limits : Bgp.Limits) : Bgp.Limits :=
  { limits with outputBytes := min limits.retainedBytes Bgp.Limits.default.outputBytes }

def new (m : Layout) (observerOwner ribOwner : ℕ) (captureNamespace : Vector U8 32) (sourceId : String)
    (session : U64) (limits : Bgp.Limits) : Result CapturedSessionPipeline := do
  limits.validate
  let observer ← SessionObserver.new m observerOwner (sessionKey captureNamespace sourceId session)
    limits
  let rib ← AdjRibIn.new ribOwner (embeddedLimits limits)
  .ok {
    captureNamespace := captureNamespace
    sourceId := sourceId
    session := session
    limits := limits
    wire := .initial
    observer := observer
    rib := rib
    applied := .empty
    boundaries := .empty
    appliedBytes := 0
    tainted := false }

variable (s : CapturedSessionPipeline)

def requireUsable : Result Unit :=
  if s.tainted then
    .error (bad "bgp_pipeline_tainted" "record identity conflict requires a new pipeline partition")
  else .ok ()

def hasRibGeneration (generation : ℕ) : Bool :=
  s.rib.events.any fun event => event.scope.sessionKey = s.observer.key &&
    event.scope.generation = generation

def retainedMessage (bytes : EvidenceBytes) (metadata : PcapMetadata) : Option ApplyReceipt :=
  (s.applied.get metadata.recordId).bind fun previous =>
    if previous.inputSha256 = inputIdentity bytes ∧ previous.metadata = metadata then
      some previous.receipt
    else none

def retainedBoundary (kind : BoundaryKind) (recordId reason : String) : Option BoundaryReceipt :=
  (s.boundaries.get recordId).bind fun previous =>
    if previous.kind = kind ∧ previous.reason = reason then some previous.receipt else none

def admitRecord (retainedBytes : ℕ) : Result ℕ :=
  if s.applied.keys.card + s.boundaries.keys.card ≥ s.limits.elements then
    .error (Error.limit "bgp_pipeline_records")
  else if s.appliedBytes + retainedBytes ≥ wordBound ∨
      s.appliedBytes + retainedBytes > s.limits.retainedBytes then
    .error (Error.limit "bgp_pipeline_retained")
  else .ok (s.appliedBytes + retainedBytes)

def isNewRecord (recordId : String) : Bool :=
  (s.applied.get recordId).isNone && (s.boundaries.get recordId).isNone

def admitContinuitySnapshot : Result Unit :=
  let total := s.appliedBytes + s.applied.total fun _ record => continuityBytes record.receipt
  if total ≥ wordBound ∨ total > s.limits.retainedBytes ∨ total > s.limits.work then
    .error (Error.limit "bgp_pipeline_continuity")
  else .ok ()

end Admission

section Messages

structure MessagePlan where
  wire : WireState
  sessionPlan : PreparedSessionEvent
  ribPlan : Option AdjRibIn.PreparedRibEvent
  receipt : ApplyReceipt
  record : Option AppliedRecord
  appliedBytes : ℕ

variable (m : Layout) (c : Carrier) (s : CapturedSessionPipeline)

/-- The change of the routes for a message, after what the observer made of it. -/
def candidateFor (observation : Observation) (event : Event) (verdict : OpenContinuityVerdict)
    (status : Session.ApplyStatus) : Result (Option RibEvent) :=
  if status = .identityConflict then
    .ok (some (gapEvent event.session event.generation event.recordId conflictReason))
  else match status, verdict with
    | .applied, .contradiction session generation =>
      .ok (if s.hasRibGeneration generation then
        some (gapEvent session generation event.recordId contradictionReason) else none)
    | _, _ => ribEvent c s.limits observation event

def ribEventFor (observation : Observation) (event : Event) (verdict : OpenContinuityVerdict)
    (status : Session.ApplyStatus) : Result (Option RibEvent) := do
  let candidate ← s.candidateFor c observation event verdict status
  .ok (match candidate with
    | some ⟨scope, recordId, .reset previousGeneration reason⟩ =>
      if s.hasRibGeneration event.generation then
        some ⟨scope, recordId, .reset previousGeneration reason⟩ else none
    | _ => candidate)

def prepareRib (observation : Observation) : Option RibEvent → Result (Option AdjRibIn.PreparedRibEvent)
  | none => .ok none
  | some event => do
    let plan ← s.rib.prepareInner c.checkRibEvent event (some (c.observationSha256 observation))
    .ok (some plan)

def decodedContinuity (event : Event) (status : Session.ApplyStatus)
    (ribPlan : Option AdjRibIn.PreparedRibEvent) : Result (Option DecodedContinuity) :=
  match ribPlan.bind (·.continuityEffect), event.kind with
  | some effect, _ => do
    admitContinuity (continuityCharge effect.scope.source effect.scope.session effect.scope.peer
      effect.reason) s.appliedBytes s.limits
    .ok (some ⟨effect.scope, effect.reason, some effect.status, status, true, effect.kind,
      effect.effect⟩)
  | none, .protocolReset next _ =>
    if status = .applied then do
      admitContinuity (continuityCharge event.session.source event.session.session none resetReason)
        s.appliedBytes s.limits
      .ok (some ⟨ribScope event.session next none none, resetReason, none, status, true,
        .reset event.generation next, .sessionGeneration⟩)
    else .ok none
  | none, _ => .ok none

def stageRecord (bytes : EvidenceBytes) (metadata : PcapMetadata) (receipt : ApplyReceipt) :
    Result (Option AppliedRecord × ℕ) :=
  if s.isNewRecord metadata.recordId then do
    let retained ← retainedRecordBytes c metadata receipt s.limits
    let total ← s.admitRecord retained
    .ok (some ⟨inputIdentity bytes, metadata, receipt⟩, total)
  else .ok (none, s.appliedBytes)

def planMessage (bytes : EvidenceBytes) (metadata : PcapMetadata) : Result MessagePlan := do
  let (record, decoded) ← decode c bytes metadata s.wire s.limits
  let observation ← Observation.fromNormalized c record
  let event ← sessionEvent observation s.observer.key.source decoded.generation
  let event := { event with kind := capturedKind bytes event.kind }
  let verdict := s.observer.openContinuity event
  let sessionPlan ← s.observer.prepare m event
  let status := sessionPlan.status
  let ribEvent ← s.ribEventFor c observation event verdict status
  let ribPlan ← s.prepareRib c observation ribEvent
  let continuity ← s.decodedContinuity event status ribPlan
  let receipt : ApplyReceipt := ⟨record, c.observationSha256 observation, status,
    ribPlan.map (·.status), isProtocolReset event.kind && status ≠ .identityConflict, false,
    continuity⟩
  let (staged, appliedBytes) ← s.stageRecord c bytes metadata receipt
  if !s.observer.preparedCurrent sessionPlan || ribPlan.any fun plan => !s.rib.preparedCurrent plan
  then .error (bad "bgp_pipeline_revision" "prepared reducer revision changed")
  else do
    s.observer.admitPrepared sessionPlan
    .ok ⟨if status = .identityConflict then s.wire else decoded, sessionPlan, ribPlan, receipt, staged,
      appliedBytes⟩

def replayedReceipt (previous : ApplyReceipt) : ApplyReceipt :=
  { previous with
    continuity := previous.continuity.map fun d => { d with newlyApplied := false }
    sessionStatus := .identicalReplay
    ribStatus := previous.ribStatus.map fun _ => .identicalReplay
    protocolReset := false
    replayed := true }

def admitReplay (previous : ApplyReceipt) : Result Unit :=
  match previous.continuity with
  | some d => admitContinuity d.retainedCharge s.appliedBytes s.limits
  | none => .ok ()

def replayMessage (previous : ApplyReceipt) : Result ApplyReceipt := do
  s.admitReplay previous
  .ok (replayedReceipt previous)

def publish (metadata : PcapMetadata) (plan : MessagePlan) :
    Method CapturedSessionPipeline Error ApplyReceipt := do
  Method.update fun s => { s with observer := s.observer.commit plan.sessionPlan }
  Method.update fun s => { s with rib := plan.ribPlan.elim s.rib s.rib.commit }
  Method.update fun s => { s with wire := plan.wire }
  Method.update fun s => { s with
    tainted := plan.receipt.sessionStatus = .identityConflict ||
      plan.receipt.ribStatus = some .identityConflict }
  Method.update fun s => { s with
    applied := plan.record.elim s.applied (s.applied.insert metadata.recordId) }
  Method.update fun s => { s with appliedBytes := plan.appliedBytes }
  pure plan.receipt

def applyMessage (bytes : EvidenceBytes) (metadata : PcapMetadata) :
    Method CapturedSessionPipeline Error ApplyReceipt := do
  let s ← Method.read
  if metadata.sourceId ≠ s.sourceId ∨ metadata.session ≠ some s.session then
    Method.fail (bad "bgp_pipeline_scope"
      "message source or session differs from the bound pipeline")
  else if bytes.spans = [] ∨ bytes.spans.any (·.packet.capture ≠ s.captureNamespace) then
    Method.fail (bad "bgp_pipeline_capture" "message provenance differs from the bound capture")
  else match s.retainedMessage bytes metadata with
    | some previous => Method.lift (s.replayMessage previous)
    | none => do
      Method.lift s.requireUsable
      let plan ← Method.lift (s.planMessage m c bytes metadata)
      publish metadata plan

end Messages

section Boundaries

variable (m : Layout) (c : Carrier) (s : CapturedSessionPipeline)

def replayedBoundary (previous : BoundaryReceipt) : BoundaryReceipt :=
  { previous with
    sessionStatus := .identicalReplay
    ribStatus := previous.ribStatus.map fun _ => .identicalReplay
    replayed := true }

def retainBoundary (recordId : String) (kind : BoundaryKind) (reason : String)
    (receipt : BoundaryReceipt) : Result CapturedSessionPipeline :=
  if s.isNewRecord recordId then do
    let total ← s.admitRecord (recordId.utf8ByteSize + reason.utf8ByteSize + 128)
    .ok { s with
      appliedBytes := total
      boundaries := s.boundaries.insert recordId ⟨kind, reason, receipt⟩ }
  else .ok s

def boundaryTaint (sessionStatus : Session.ApplyStatus) (ribStatus : Option Bgp.ApplyStatus) : Bool :=
  sessionStatus = .identityConflict || ribStatus = some .identityConflict

def gapTransaction (recordId reason : String) : Result (BoundaryReceipt × CapturedSessionPipeline) := do
  let generation := s.wire.generation
  let (sessionStatus, observer) ← s.observer.apply m
    ⟨s.observer.key, generation, none, recordId, .gap reason⟩
  let (ribStatus, rib) ← s.rib.apply c.checkRibEvent
    (gapEvent s.observer.key generation recordId reason) none
  let receipt : BoundaryReceipt := ⟨sessionStatus, some ribStatus, generation, generation, false⟩
  let next ← retainBoundary { s with
      observer := observer
      rib := rib
      tainted := boundaryTaint sessionStatus (some ribStatus) } recordId .gap reason receipt
  .ok (receipt, next)

def applyRib (event : RibEvent) : Result (Option Bgp.ApplyStatus × AdjRibIn) := do
  let (status, rib) ← s.rib.apply c.checkRibEvent event none
  .ok (some status, rib)

def resetRib (sessionStatus : Session.ApplyStatus) (generation : ℕ) (recordId reason : String) :
    Result (Option Bgp.ApplyStatus × AdjRibIn) :=
  let previous := s.wire.generation
  if sessionStatus = .identityConflict then
    s.applyRib c (gapEvent s.observer.key previous recordId conflictReason)
  else if s.hasRibGeneration previous then
    s.applyRib c
      ⟨ribScope s.observer.key generation none none, recordId, .reset previous reason⟩
  else .ok (none, s.rib)

def resetTransaction (recordId reason : String) :
    Result (BoundaryReceipt × CapturedSessionPipeline) := do
  let previous := s.wire.generation
  let wire ← s.wire.reset
  let (sessionStatus, observer) ← s.observer.apply m
    ⟨s.observer.key, wire.generation, none, recordId, .reset previous reason⟩
  let conflict := decide (sessionStatus = .identityConflict)
  let (ribStatus, rib) ← s.resetRib c sessionStatus wire.generation recordId reason
  let receipt : BoundaryReceipt := ⟨sessionStatus, ribStatus, previous,
    if conflict then previous else wire.generation, false⟩
  let next ← retainBoundary { s with
      wire := if conflict then s.wire else wire
      observer := observer
      rib := rib
      tainted := boundaryTaint sessionStatus ribStatus } recordId .reset reason receipt
  .ok (receipt, next)

def boundary (kind : BoundaryKind) (recordId reason : String)
    (transaction : CapturedSessionPipeline → Result (BoundaryReceipt × CapturedSessionPipeline)) :
    Method CapturedSessionPipeline Error BoundaryReceipt := do
  let s ← Method.read
  match s.retainedBoundary kind recordId reason with
  | some previous => pure (replayedBoundary previous)
  | none => do
    Method.lift s.requireUsable
    Method.lift s.admitContinuitySnapshot
    let (receipt, next) ← Method.lift (transaction s)
    Method.update fun _ => next
    pure receipt

def observeGap (recordId reason : String) : Method CapturedSessionPipeline Error BoundaryReceipt :=
  boundary .gap recordId reason fun s => s.gapTransaction m c recordId reason

def resetGeneration (recordId reason : String) :
    Method CapturedSessionPipeline Error BoundaryReceipt :=
  boundary .reset recordId reason fun s => s.resetTransaction m c recordId reason

end Boundaries

section Runs

variable (m : Layout) (c : Carrier)

inductive Call where
  | message (bytes : EvidenceBytes) (metadata : PcapMetadata)
  | gap (recordId reason : String)
  | reset (recordId reason : String)

inductive Receipt where
  | message (r : ApplyReceipt)
  | boundary (r : BoundaryReceipt)

def call (s : CapturedSessionPipeline) : Call → Result Receipt × CapturedSessionPipeline
  | .message bytes metadata =>
    let r := applyMessage m c bytes metadata s
    (r.1.map .message, r.2)
  | .gap recordId reason =>
    let r := observeGap m c recordId reason s
    (r.1.map .boundary, r.2)
  | .reset recordId reason =>
    let r := resetGeneration m c recordId reason s
    (r.1.map .boundary, r.2)

/-- The calls that lead from one pipeline to another, whatever they returned. -/
inductive Run (s : CapturedSessionPipeline) : List Call → CapturedSessionPipeline → Prop
  | nil : Run s [] s
  | snoc {calls : List Call} {t : CapturedSessionPipeline} (before : Run s calls t) (x : Call) :
      Run s (calls ++ [x]) (call m c t x).2

def Reachable (s : CapturedSessionPipeline) : Prop :=
  ∃ observerOwner ribOwner captureNamespace sourceId session limits start calls,
    new m observerOwner ribOwner captureNamespace sourceId session limits = .ok start ∧
      Run m c start calls s

end Runs

end CapturedSessionPipeline

end PcapEvidence.Bgp.Pipeline
