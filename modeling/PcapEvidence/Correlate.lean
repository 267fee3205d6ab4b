import PcapEvidence.Dnp3Workflow
import PcapEvidence.ModbusFrame

/-!
# Pairing of application messages

Every message of the decoded applications either gets a row of its own, which says why it takes no
part in pairing, or joins the group of its protocol, capture, flow and identifiers.
-/

namespace PcapEvidence.Correlate
open EvidenceBytes Dnp3 Modbus OrderedMap Dnp3Workflow

structure MessageRef where
  application : ℕ
  message : ℕ
  deriving DecidableEq

structure Transaction where
  protocol : String
  flow : ℕ
  requests : List MessageRef
  responses : List MessageRef
  status : String
  reason : String
  deriving DecidableEq

structure ApplicationAnalysis where
  flow : ℕ
  direction : ℕ
  protocol : String
  data : ApplicationData Dnp3Result ModbusResult

structure Group where
  requests : List MessageRef
  responses : List MessageRef
  uncertainBoundary : Bool

def Group.empty : Group := ⟨[], [], false⟩

structure Key where
  protocol : String
  capture : Vector U8 32
  flow : ℕ
  controller : U16
  outstation : U16
  sequence : U16
  function : U8
  deriving DecidableEq

namespace Key

def orderKey (k : Key) : String ×ₗ List ℕ ×ₗ ℕ ×ₗ ℕ ×ₗ ℕ ×ₗ ℕ ×ₗ ℕ :=
  toLex (k.protocol, toLex (k.capture.toList.map BitVec.toNat, toLex (k.flow,
    toLex (k.controller.toNat, toLex (k.outstation.toNat, toLex (k.sequence.toNat,
      k.function.toNat))))))

theorem orderKey_injective : Function.Injective orderKey := by
  rintro ⟨p, c, f, x, y, s, n⟩ ⟨p', c', f', x', y', s', n'⟩ h
  simp only [orderKey, EmbeddingLike.apply_eq_iff_eq, Prod.mk.injEq, BitVec.toNat_inj] at h
  obtain ⟨rfl, hc, rfl, rfl, rfl, rfl, rfl⟩ := h
  have hl : c.toList = c'.toList := List.map_injective_iff.2 BitVec.toNat_injective hc
  rw [Vector.toList_inj.1 hl]

instance : LinearOrder Key := LinearOrder.lift' orderKey orderKey_injective

end Key

def captureScope (raw : EvidenceBytes) : Option (Vector U8 32) :=
  if !raw.validate then none
  else raw.spans.head?.bind fun first =>
    if raw.spans.all (·.packet.capture = first.packet.capture) then some first.packet.capture
    else none

/-- The groups, the rows of messages that joined none, and the two counters of the query. -/
structure Correlation where
  groups : OrdMap Key Group
  output : List Transaction
  count : ℕ
  work : ℕ

def Correlation.new : Correlation := ⟨.empty, [], 0, 0⟩

def Correlation.counted (c : Correlation) (limits : Limits) : Result Correlation :=
  if c.count + 1 > limits.maxProtocolMessages then .error (Error.limit "correlation_messages")
  else .ok { c with count := c.count + 1 }

def Correlation.row (c : Correlation) (protocol : String) (flow : ℕ) (reference : MessageRef)
    (request : Bool) (status reason : String) : Correlation :=
  { c with output := c.output ++ [{
      protocol
      flow
      requests := if request then [reference] else []
      responses := if request then [] else [reference]
      status
      reason }] }

def Correlation.join (c : Correlation) (key : Key) (reference : MessageRef)
    (request uncertain : Bool) : Correlation :=
  let group := (c.groups.get? key).getD .empty
  { c with groups := c.groups.insert key {
      requests := if request then group.requests ++ [reference] else group.requests
      responses := if request then group.responses else group.responses ++ [reference]
      uncertainBoundary := group.uncertainBoundary || uncertain } }

def suppressesResponse (message : ApplicationMessage) : Bool :=
  message.cls = .request ∧ message.function ∈ [6, 8, 10, 12]

def dnp3Exclusion (message : ApplicationMessage) (verified : Result Bool) :
    Option (String × String) :=
  if !message.complete then some ("incomplete", "application_fragments_missing")
  else match verified with
    | .error e => some ("unclassified", e.field)
    | .ok _ =>
      if suppressesResponse message then
        some ("no_response_expected", "captured_function_explicitly_suppresses_response")
      else match message.cls with
        | .request | .response => none
        | .unsolicited => some ("unsolicited", "no_request_required")
        | .confirm =>
          some ("confirmation", "fragment_confirmation_observed_pairing_not_implemented")
        | .unknown => some ("unclassified", "function_or_role_not_supported")

def dnp3Verified (limits : Limits) (application : ApplicationAnalysis) (result : Dnp3Result)
    (message : ApplicationMessage) (work : ℕ) : Result Bool × ℕ :=
  if message.complete ∧ application.direction ≤ 1 ∧ application.protocol = "dnp3" then
    verifiedMessageDirection result message limits work
  else (.error ⟨.truncated, 0, "dnp3_pairing_incomplete_or_direction_unknown", "not pairable"⟩, work)

def exceedsLimit (verified : Result Bool) : Bool :=
  match verified with
  | .ok _ => false
  | .error e => e.code = .limitExceeded

/-- The addresses of a response are those of its request, exchanged. -/
def dnp3Key (application : ApplicationAnalysis) (message : ApplicationMessage)
    (capture : Vector U8 32) : Key :=
  let request : Bool := message.cls = .request
  { protocol := "dnp3"
    capture
    flow := application.flow
    controller := if request then message.source else message.destination
    outstation := if request then message.destination else message.source
    sequence := message.firstSequence.zeroExtend 16
    function := 0 }

def addDnp3 (limits : Limits) (application : ApplicationAnalysis) (result : Dnp3Result)
    (reference : MessageRef) (message : ApplicationMessage) (c : Correlation) :
    Result Correlation := do
  let c ← c.counted limits
  let (verified, work) := dnp3Verified limits application result message c.work
  if exceedsLimit verified then .error (Error.limit "dnp3_correlation_work")
  else
    let request : Bool := message.cls = .request
    match dnp3Exclusion message verified with
    | some (status, reason) =>
      .ok ({ c with work }.row "dnp3" application.flow reference request status reason)
    | none =>
      .ok ({ c with work }.join (dnp3Key application message (firstCapture message.packets))
        reference request false)

def modbusKey (application : ApplicationAnalysis) (message : ModbusMessage)
    (capture : Vector U8 32) : Key :=
  { protocol := "modbus"
    capture
    flow := application.flow
    controller := message.unit.zeroExtend 16
    outstation := 0
    sequence := message.transaction
    function := message.function &&& 0x7f }

def scopeWork (limits : Limits) (work spans : ℕ) : Result ℕ :=
  match ((checkedAdd work spans).bind (checkedAdd · 1)).filter (· ≤ limits.maxCorrelationChecks) with
  | none => .error (Error.limit "transaction_capture_scope_work")
  | some work => .ok work

def addModbus (limits : Limits) (application : ApplicationAnalysis) (reference : MessageRef)
    (message : ModbusMessage) (c : Correlation) : Result Correlation := do
  let c ← c.counted limits
  let work ← scopeWork limits c.work message.raw.spans.length
  let request : Bool := message.role = .request
  match captureScope message.raw with
  | none =>
    .ok ({ c with work }.row "modbus" application.flow reference request "unclassified"
      "modbus_transaction_capture_scope_invalid")
  | some capture =>
    if !message.shapeValid ∨ !message.semanticsSupported ∨ message.role = .unknown then
      .ok ({ c with work }.row "modbus" application.flow reference request "unclassified"
        "invalid_or_unsupported_pdu_shape_or_endpoint_role")
    else
      .ok ({ c with work }.join (modbusKey application message capture) reference request
        (!message.boundaryVerified))

def addApplication (limits : Limits) (c : Correlation) (entry : ApplicationAnalysis × ℕ) :
    Result Correlation :=
  match entry.1.data with
  | .dnp3 result =>
    result.messages.zipIdx.foldlM
      (fun c m => addDnp3 limits entry.1 result ⟨entry.2, m.2⟩ m.1 c) c
  | .modbus result =>
    result.messages.zipIdx.foldlM (fun c m => addModbus limits entry.1 ⟨entry.2, m.2⟩ m.1 c) c
  | .failed _ => .ok c

/-- A message that a reference points at. -/
inductive Observed where
  | dnp3 (message : ApplicationMessage)
  | modbus (message : ModbusMessage)

def observations (data : ApplicationData Dnp3Result ModbusResult) : List Observed :=
  match data with
  | .dnp3 result => result.messages.map .dnp3
  | .modbus result => result.messages.map .modbus
  | .failed _ => []

def observedAt (applications : List ApplicationAnalysis) (reference : MessageRef) :
    Option (ApplicationAnalysis × Observed) :=
  (applications[reference.application]?).bind fun application =>
    ((observations application.data)[reference.message]?).map (application, ·)

def inconsistentModbus (applications : List ApplicationAnalysis) (request response : MessageRef) :
    Bool :=
  match observedAt applications request, observedAt applications response with
  | some (_, .modbus a), some (_, .modbus b) => !responseMatches a b
  | _, _ => false

def sameDirection (applications : List ApplicationAnalysis) (request response : MessageRef) : Bool :=
  (applications[request.application]?).map (·.direction) =
    (applications[response.application]?).map (·.direction)

def settlePair (applications : List ApplicationAnalysis) (protocol : String)
    (request response : MessageRef) (uncertain : Bool) : String × String :=
  if protocol = "dnp3" ∧ sameDirection applications request response then
    ("ambiguous", "dnp3_request_response_capture_directions_not_opposite")
  else if protocol = "modbus" ∧ inconsistentModbus applications request response then
    ("inconsistent_response", "request_response_pdu_fields_disagree")
  else if uncertain then
    ("candidate_unverified_boundary", "midstream_mbap_alignment_not_independently_proven")
  else ("candidate_pair", "matching_protocol_identifiers_not_attack_proof")

def settleGroup (applications : List ApplicationAnalysis) (protocol : String) (group : Group) :
    String × String :=
  match group.requests, group.responses with
  | [request], [response] =>
    settlePair applications protocol request response group.uncertainBoundary
  | [], _ => ("orphan_response", "request_not_observed")
  | _, [] => ("unanswered", "response_not_observed")
  | _, _ => ("ambiguous", "identifier_reuse_or_duplicate_application_messages")

def settle (applications : List ApplicationAnalysis) (entry : Key × Group) : Transaction :=
  let verdict := settleGroup applications entry.1.protocol entry.2
  { protocol := entry.1.protocol
    flow := entry.1.flow
    requests := entry.2.requests
    responses := entry.2.responses
    status := verdict.1
    reason := verdict.2 }

def transactions (applications : List ApplicationAnalysis) (limits : Limits) :
    Result (List Transaction) := do
  let c ← applications.zipIdx.foldlM (addApplication limits) .new
  .ok (c.output ++ c.groups.entries.map (settle applications))

end PcapEvidence.Correlate
