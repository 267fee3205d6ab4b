import PcapEvidence.CaptureIter
import PcapEvidence.Detection
import PcapEvidence.EvidencePipeline

/-!
# The analysis of a whole capture

`analyze` walks the records of a capture, observes every packet once, and decides its disposition
when its datagram is complete, rejected, expired or left over at the end. The hash, the protocol
decoders and the correlation of their messages are parameters: their results only enter the report.
-/

namespace PcapEvidence

open SortedVec

inductive Disposition where
  | pending
  | tcp (flow : ℕ) (direction : Fin 2)
  | udp
  | fragmentPending
  | fragmentIncomplete (reason : String)
  | rejected (code detail : String)
  | ambiguous (flows : List ℕ)
  deriving DecidableEq

structure PacketObservation where
  id : PacketId
  metadata : PacketMeta
  packetSha256 : Vector U8 32
  source : Option Endpoint
  destination : Option Endpoint
  transport : Option String
  disposition : Disposition
  warnings : List String

inductive Role where
  | request | response | unknown
  deriving DecidableEq

/-- The outcome of a protocol decoder on one direction of a flow. -/
inductive ApplicationData (δ μ : Type) where
  | dnp3 (result : δ)
  | modbus (result : μ)
  | failed (error : Error)

structure ApplicationAnalysis (δ μ : Type) where
  flow : ℕ
  direction : Fin 2
  protocol : String
  data : ApplicationData δ μ

structure DatagramAnalysis (δ : Type) where
  scope : Scope
  source : Endpoint
  destination : Endpoint
  packets : List PacketId
  payload : EvidenceBytes
  data : Result δ

/-- The functions whose results the analysis reports without looking at them. -/
structure Analyzers (δ μ τ κ : Type) where
  digest : List U8 → Vector U8 32
  dnp3Decode : StreamResult → Limits → Result δ
  modbusDecode : StreamResult → Role → Limits → Result μ
  transactions : List (ApplicationAnalysis δ μ) → Limits → Result (List τ)
  confirmationCandidates : List (ApplicationAnalysis δ μ) → Limits → Result (List κ)

structure Analysis (δ μ τ κ : Type) where
  captureSha256 : Vector U8 32
  captureBytes : ℕ
  config : Config
  records : ℕ
  metadataRecords : ℕ
  secretBlocks : ℕ
  packets : List PacketObservation
  flows : List FlowResult
  applications : List (ApplicationAnalysis δ μ)
  datagrams : List (DatagramAnalysis δ)
  fragmentNotices : List FragmentNotice
  transactions : List τ
  dnp3ConfirmationCandidates : List κ
  dnp3ConfirmationError : Option Error
  correlationError : Option Error

namespace Engine

variable {δ μ τ κ : Type} (A : Analyzers δ μ τ κ)

def identityError (detail : String) : Error := ⟨.invariant, 0, "packet_identity", detail⟩

def eachPacket (action : PacketObservation → PacketObservation) :
    List PacketObservation → List PacketId → Result (List PacketObservation)
  | packets, [] => .ok packets
  | packets, id :: rest =>
    if id.frame = 0 then .error (identityError "invalid frame ID")
    else match packets[id.frame - 1]?.filter (fun p => p.id = id) with
      | none => .error (identityError "provenance points outside this capture")
      | some p => eachPacket action (packets.set (id.frame - 1) (action p)) rest

def fragmentNotice (packets : List PacketObservation) (notice : FragmentNotice) :
    Result (List PacketObservation) :=
  eachPacket (fun p => { p with disposition := .fragmentIncomplete notice.code }) packets
    notice.packets

structure State (δ : Type) where
  fragments : FragmentReassembler
  tracker : TcpTracker
  packets : List PacketObservation
  notices : List FragmentNotice
  datagrams : List (DatagramAnalysis δ)
  udpRetained : ℕ
  records : ℕ
  metadataRecords : ℕ
  secretBlocks : ℕ

def noteFragment (s : State δ) (notice : FragmentNotice) : Result (State δ) := do
  let packets ← fragmentNotice s.packets notice
  .ok { s with packets := packets, notices := s.notices ++ [notice] }

def expireFragments (s : State δ) (frame : ℕ) : Result (State δ) :=
  (s.fragments.expire frame).1.foldlM noteFragment
    { s with fragments := (s.fragments.expire frame).2 }

def captureTime (metadata : PacketMeta) : Option ℤ :=
  metadata.timestamp.bind (fun t => t.unixNanos.toOption)

def observationWarnings (record : Record) (metadata : PacketMeta) : List String :=
  record.warnings.map (·.code) ++
    (if metadata.capturedLen.toNat < metadata.originalLen.toNat then ["snaplen_truncated_packet"]
      else []) ++
    (if metadata.timestamp.isNone then ["capture_timestamp_absent"] else []) ++
    (if metadata.timestamp.isSome ∧ (captureTime metadata).isNone then
      ["timestamp_not_exact_in_nanoseconds"] else [])

def packetId (identity : Vector U8 32) (record : Record) (metadata : PacketMeta) : PacketId :=
  ⟨identity, metadata.frame, record.offset⟩

def observe (identity : Vector U8 32) (s : State δ) (record : Record) (metadata : PacketMeta)
    (data : List U8) : Result (State δ) :=
  if metadata.frame ≠ s.packets.length + 1 then
    .error ⟨.invariant, record.offset, "frame", "noncontiguous packet numbering"⟩
  else .ok { s with packets := s.packets ++ [{
    id := packetId identity record metadata
    metadata := metadata
    packetSha256 := A.digest data
    source := none
    destination := none
    transport := none
    disposition := .pending
    warnings := observationWarnings record metadata }] }

def markLast (s : State δ) (action : PacketObservation → PacketObservation) : State δ :=
  { s with packets := s.packets.modify (s.packets.length - 1) action }

def reject (code detail : String) (p : PacketObservation) : PacketObservation :=
  { p with disposition := .rejected code detail }

def rejectWith (e : Error) : PacketObservation → PacketObservation := reject e.code.asStr e.display

def checksumWarning (checksum : Checksum) (protocol : String) : List String :=
  match checksum with
  | .invalid => ["invalid_" ++ protocol ++ "_checksum_observed"]
  | .notChecked => ["unsupported_" ++ protocol ++ "_checksum_operands"]
  | _ => []

def dispositionOf : Assignment → Disposition
  | .assigned flowId direction => .tcp flowId direction
  | .ambiguous candidates => .ambiguous candidates
  | .unassigned reason => .rejected reason "cannot safely assign a connection generation"

def settle (source destination : Endpoint) (protocol : String) (checksum : Checksum)
    (disposition : Disposition) (p : PacketObservation) : PacketObservation :=
  { p with
    source := some source
    destination := some destination
    transport := some protocol
    disposition := disposition
    warnings := p.warnings ++ checksumWarning checksum protocol }

def deliverTcp (s : State δ) (scope : Scope) (contributors : List PacketId) (time : Option ℤ)
    (segment : TcpSegment) : Result (State δ) :=
  match s.tracker.ingestWithPackets scope contributors time segment with
  | (.error e, _) => .error e
  | (.ok assignment, tracker) => do
    let packets ← eachPacket (settle segment.source segment.destination "tcp" segment.checksum
      (dispositionOf assignment)) s.packets contributors
    .ok { s with tracker := tracker, packets := packets }

def decodeDnp3Datagram (bytes : EvidenceBytes) (limits : Limits) : Result δ := do
  limits.validate
  if bytes.len > limits.maxApplicationBytes then .error (Error.limit "dnp3_datagram_bytes")
  else if !bytes.validate then
    .error ⟨.invariant, 0, "provenance", "invalid datagram source spans"⟩
  else A.dnp3Decode {
    baseSequence := none
    anchoredBySyn := false
    chunks := if bytes.isEmpty then [] else [⟨0, bytes⟩]
    gaps := []
    conflicts := []
    duplicateObservedBytes := 0 } limits

def analyzeUdp (scope : Scope) (datagram : UdpDatagram) (contributors : List PacketId)
    (dnp3Ports : List U16) (limits : Limits) : Result (Option (DatagramAnalysis δ)) := do
  limits.validate
  if !dnp3Ports.contains datagram.source.port && !dnp3Ports.contains datagram.destination.port then
    .ok none
  else if datagram.payload.isEmpty then .ok none
  else if contributors = [] then
    .error ⟨.invariant, 0, "udp_evidence", "source contributors are required"⟩
  else .ok (some {
    scope := scope
    source := datagram.source
    destination := datagram.destination
    packets := sortDedup (contributors ++ datagram.payload.packets)
    payload := datagram.payload
    data := decodeDnp3Datagram A datagram.payload limits })

def recordUdp (config : Config) (s : State δ) (scope : Scope) (contributors : List PacketId)
    (datagram : UdpDatagram) : Result (State δ) :=
  if !datagram.payload.isEmpty && (config.dnp3Ports.contains datagram.source.port ||
      config.dnp3Ports.contains datagram.destination.port) then
    if s.datagrams.length ≥ config.limits.maxProtocolMessages then
      .error (Error.limit "udp_applications")
    else match checkedAdd s.udpRetained datagram.payload.len with
      | none => .error (Error.limit "udp_retained_payload")
      | some retained =>
        if retained > config.limits.maxRetainedPayload then
          .error (Error.limit "udp_retained_payload")
        else do
          match ← analyzeUdp A scope datagram contributors config.dnp3Ports config.limits with
          | none => .ok s
          | some application =>
            .ok { s with datagrams := s.datagrams ++ [application], udpRetained := retained }
  else .ok s

def deliverUdp (config : Config) (s : State δ) (scope : Scope) (contributors : List PacketId)
    (datagram : UdpDatagram) : Result (State δ) := do
  let packets ← eachPacket (settle datagram.source datagram.destination "udp" datagram.checksum
    .udp) s.packets contributors
  recordUdp A config { s with packets := packets } scope contributors datagram

def deliver (config : Config) (s : State δ) (time : Option ℤ) (datagram : Datagram)
    (contributors : List PacketId) : Result (State δ) :=
  match decodeTransport datagram config.checksumPolicy with
  | .error e => do
    let packets ← eachPacket (rejectWith e) s.packets contributors
    .ok { s with packets := packets }
  | .ok (.tcp segment) => deliverTcp s datagram.scope contributors time segment
  | .ok (.udp udp) => deliverUdp A config s datagram.scope contributors udp

def reassemble (config : Config) (s : State δ) (id : PacketId) (metadata : PacketMeta)
    (network : Datagram) : Result (State δ) :=
  match s.fragments.push network metadata.frame with
  | (.error e, _) => .error e
  | (.ok .pending, fragments) =>
    .ok (markLast { s with fragments := fragments }
      (fun p => { p with disposition := .fragmentPending }))
  | (.ok (.rejected notice), fragments) => noteFragment { s with fragments := fragments } notice
  | (.ok (.complete datagram packets), fragments) =>
    deliver A config { s with fragments := fragments } (captureTime metadata) datagram
      (EvidencePipeline.contributors packets id)

def decodeNetwork (config : Config) (s : State δ) (id : PacketId) (metadata : PacketMeta)
    (data : List U8) : Result (State δ) :=
  match decodePacket metadata.linkType data id ⟨metadata.sectionId, metadata.interface, none, []⟩ with
  | .error e => .ok (markLast s (rejectWith e))
  | .ok network =>
    let s := if network.ipChecksum = .invalid then
        markLast s (fun p => { p with warnings := p.warnings ++ ["invalid_ipv4_checksum_observed"] })
      else s
    if config.checksumPolicy = .requireValid ∧ network.ipChecksum = .invalid then
      .ok (markLast s (reject "checksum" "IPv4 checksum rejected by configured policy"))
    else reassemble A config s id metadata network

def analyzePacket (config : Config) (identity : Vector U8 32) (s : State δ) (record : Record)
    (metadata : PacketMeta) (data : List U8) : Result (State δ) := do
  let s ← expireFragments s metadata.frame
  let s ← observe A identity s record metadata data
  decodeNetwork A config s (packetId identity record metadata) metadata data

def analyzeRecord (config : Config) (identity : Vector U8 32) (s : State δ) (record : Record) :
    Result (State δ) :=
  let s := { s with records := s.records + 1 }
  match record.packet with
  | some (metadata, data) => analyzePacket A config identity s record metadata data
  | none => .ok { s with
      metadataRecords := s.metadataRecords + 1
      secretBlocks := match record.kind with
        | .secrets _ _ => s.secretBlocks + 1
        | _ => s.secretBlocks }

def analyzeRecords (config : Config) (identity : Vector U8 32) :
    ℕ → CaptureIter → State δ → Result (State δ)
  | 0, _, _ => .error ⟨.invariant, 0, "records", "record iterator does not end"⟩
  | fuel + 1, it, s =>
    match it.next with
    | (none, _) => .ok s
    | (some (.error e), _) => .error e
    | (some (.ok record), it) => do
      let s ← analyzeRecord A config identity s record
      analyzeRecords config identity fuel it s

def nonterminal (d : Disposition) : Bool := d = .pending || d = .fragmentPending

def modbusRole (config : Config) (key : FlowKey) (direction : Fin 2) : Role :=
  let aServer := config.modbusPorts.contains key.a.port
  let bServer := config.modbusPorts.contains key.b.port
  if aServer = bServer then .unknown
  else if (direction = 0 ∧ aServer) ∨ (direction = 1 ∧ bServer) then .response
  else .request

def analyzeStream (config : Config) (selection : Selection) (flow : FlowResult) (direction : Fin 2) :
    List (ApplicationAnalysis δ μ) :=
  match flow.streams direction with
  | none => []
  | some stream =>
    if stream.chunks.isEmpty then []
    else if selection.dnp3 && selection.modbus then
      [⟨flow.id, direction, "ambiguous", .failed ⟨.protocolFraming, 0, "protocol_selection",
        "multiple content/configuration interpretations remain unresolved"⟩⟩]
    else if selection.dnp3 then
      [⟨flow.id, direction, "dnp3", match A.dnp3Decode stream config.limits with
        | .ok d => .dnp3 d
        | .error e => .failed e⟩]
    else if selection.modbus then
      [⟨flow.id, direction, "modbus",
        match A.modbusDecode stream (modbusRole config flow.key direction) config.limits with
        | .ok d => .modbus d
        | .error e => .failed e⟩]
    else []

def analyzeFlows (config : Config) :
    List FlowResult → Result (List (ApplicationAnalysis δ μ))
  | [] => .ok []
  | flow :: rest => do
    let selection ← Detection.classifyFlow flow config
    let later ← analyzeFlows config rest
    .ok (analyzeStream A config selection flow 0 ++ analyzeStream A config selection flow 1 ++ later)

def orEmpty {α : Type} : Result (List α) → List α × Option Error
  | .ok l => (l, none)
  | .error e => ([], some e)

def report (config : Config) (identity : Vector U8 32) (input : List U8) (s : State δ) :
    Result (Analysis δ μ τ κ) := do
  if s.packets.any (fun p => nonterminal p.disposition) then
    .error ⟨.invariant, 0, "packet_conservation", "nonterminal packet disposition remains at EOF"⟩
  else do
    let flows ← s.tracker.finish config.overlapPolicy
    let applications ← analyzeFlows A config flows
    let transactions := orEmpty (A.transactions applications config.limits)
    let candidates := orEmpty (A.confirmationCandidates applications config.limits)
    .ok {
      captureSha256 := identity
      captureBytes := input.length
      config := config
      records := s.records
      metadataRecords := s.metadataRecords
      secretBlocks := s.secretBlocks
      packets := s.packets
      flows := flows
      applications := applications
      datagrams := s.datagrams
      fragmentNotices := s.notices
      transactions := transactions.1
      dnp3ConfirmationCandidates := candidates.1
      dnp3ConfirmationError := candidates.2
      correlationError := transactions.2 }

def analyze (input : List U8) (config : Config) : Result (Analysis δ μ τ κ) := do
  config.validate
  if input.length > config.limits.maxInputBytes then .error (Error.limit "input_bytes")
  else do
    let identity := A.digest input
    let tracker ← TcpTracker.new config.limits config.idleTimeoutNs
    let it ← CaptureIter.new input config.limits config.parseMode
    -- every record takes at least one byte, and the last call finds the end
    let s ← analyzeRecords A config identity (input.length + 1) it
      ⟨FragmentReassembler.new config.limits, tracker, [], [], [], 0, 0, 0, 0⟩
    let s ← s.fragments.finish.foldlM noteFragment s
    report A config identity input s

end Engine
end PcapEvidence
