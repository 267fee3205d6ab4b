import PcapEvidence.Wire
import PcapEvidence.StreamAssembler

/-!
# TCP generations

The tracker assigns every segment to a generation of its flow key, or reports that it cannot. A
generation is opened by a SYN, or midstream when nothing was observed before; it closes with a
reset or with a FIN in both directions.

`ingestWithPackets` first selects a flow (`select`), creating it where the source does, and then
records the segment in it (`record`).
-/

namespace PcapEvidence

open SortedVec OrderedMap

/-- Directions are numbered in `Fin 2`. -/
instance instNeZeroDirections : NeZero 2 := ⟨two_ne_zero⟩

structure FlowKey where
  scope : Scope
  a : Endpoint
  b : Endpoint

namespace FlowKey

def orderKey (k : FlowKey) : Scope ×ₗ Endpoint ×ₗ Endpoint := toLex (k.scope, toLex (k.a, k.b))

theorem orderKey_injective : Function.Injective orderKey := by
  rintro ⟨s, a, b⟩ ⟨s', a', b'⟩ h
  simpa [orderKey] using h

instance : LinearOrder FlowKey := LinearOrder.lift' orderKey orderKey_injective

def new (scope : Scope) (source destination : Endpoint) : FlowKey × Fin 2 :=
  if source ≤ destination then (⟨scope, source, destination⟩, 0)
  else (⟨scope, destination, source⟩, 1)

end FlowKey

structure Input where
  direction : Fin 2
  segment : TcpSegment

structure Flow where
  id : ℕ
  generation : ℕ
  key : FlowKey
  syn : Fin 2 → Option U32
  anchors : Fin 2 → Option U32
  fin : Fin 2 → Bool
  finNext : Fin 2 → Option U32
  closed : Bool
  rstSeen : Bool
  hasPayload : Bool
  midstream : Bool
  firstNs : Option ℤ
  lastNs : Option ℤ
  packets : List PacketId
  inputs : List Input
  anomalies : List String

structure FlowResult where
  id : ℕ
  generation : ℕ
  key : FlowKey
  syn : Fin 2 → Option U32
  closed : Bool
  midstream : Bool
  firstNs : Option ℤ
  lastNs : Option ℤ
  packets : List PacketId
  streams : Fin 2 → Option StreamResult
  reconstructionErrors : List Error
  anomalies : List String

inductive Assignment where
  | assigned (flowId : ℕ) (direction : Fin 2)
  | ambiguous (candidateFlowIds : List ℕ)
  | unassigned (reason : String)

structure TcpTracker where
  keys : OrdMap FlowKey (List ℕ)
  flows : List Flow
  retained : ℕ
  limits : Limits
  idleNs : ℤ

/-- Subtraction of signed 128-bit times. -/
def saturatingSub (a b : ℤ) : ℤ := max (-2 ^ 127) (min (a - b) (2 ^ 127 - 1))

namespace Flow

def fresh (id generation : ℕ) (key : FlowKey) (midstream : Bool) : Flow where
  id := id
  generation := generation
  key := key
  syn := fun _ => none
  anchors := fun _ => none
  fin := fun _ => false
  finNext := fun _ => none
  closed := false
  rstSeen := false
  hasPayload := false
  midstream := midstream
  firstNs := none
  lastNs := none
  packets := []
  inputs := []
  anomalies := []

def isFinalAck (flow : Flow) (direction : Fin 2) (segment : TcpSegment) : Bool :=
  if flow.rstSeen || !flow.fin 0 || !flow.fin 1 || segment.syn || segment.fin || segment.rst ||
      !segment.ack || !segment.payload.isEmpty then false
  else match flow.finNext direction, flow.finNext (1 - direction) with
    | some ownNext, some peerNext =>
      segment.dataSequence = ownNext && segment.acknowledgement = peerNext
    | _, _ => false

def note (flow : Flow) (when : Option ℤ) : Flow :=
  match when with
  | some now => { flow with
      anomalies := if flow.lastNs.any (fun last => now < last) then
          flow.anomalies ++ ["capture_clock_reversal"]
        else flow.anomalies
      firstNs := some (flow.firstNs.elim now (min · now))
      lastNs := some (flow.lastNs.elim now (max · now)) }
  | none => { flow with anomalies := flow.anomalies ++ ["packet_time_unavailable"] }

def afterFin (segment : TcpSegment) : U32 :=
  segment.dataSequence + BitVec.ofNat 32 segment.payload.len + 1

/-- The bookkeeping of one segment; `syn`, `anchors` and `fin_next` keep their first value. -/
def sequence (flow : Flow) (direction : Fin 2) (segment : TcpSegment) : Flow := { flow with
  syn := if segment.syn then Function.update flow.syn direction (some segment.sequence)
    else flow.syn
  anchors := Function.update flow.anchors direction
    (some ((flow.anchors direction).getD segment.dataSequence))
  fin := if segment.fin then Function.update flow.fin direction true else flow.fin
  finNext := if segment.fin then Function.update flow.finNext direction
      (some ((flow.finNext direction).getD (afterFin segment)))
    else flow.finNext }

def settle (flow : Flow) (direction : Fin 2) (packets : List PacketId) (segment : TcpSegment) :
    Flow := { flow with
  hasPayload := flow.hasPayload || !segment.payload.isEmpty
  rstSeen := flow.rstSeen || segment.rst
  closed := flow.closed || (flow.rstSeen || segment.rst) || (flow.fin 0 && flow.fin 1)
  packets := flow.packets ++ packets ++ segment.payload.packets
  inputs := flow.inputs ++ [⟨direction, segment⟩] }

def accept (flow : Flow) (direction : Fin 2) (packets : List PacketId) (when : Option ℤ)
    (segment : TcpSegment) : Flow :=
  ((flow.sequence direction segment).note when).settle direction packets segment

end Flow

namespace TcpTracker

def new (limits : Limits) (idleNs : ℤ) : Result TcpTracker := do
  limits.validate
  if idleNs ≤ 0 then .error ⟨.usage, 0, "idle_timeout", "must be positive"⟩
  else .ok ⟨.empty, [], 0, limits, idleNs⟩

/-- The flow ids stored under a key are indices of the flow vector. -/
def flowAt (t : TcpTracker) (id : ℕ) : Flow :=
  t.flows.getD id (Flow.fresh 0 0 ⟨⟨0, 0, none, []⟩, ⟨.v4 (.replicate 4 0), 0⟩,
    ⟨.v4 (.replicate 4 0), 0⟩⟩ false)

def history (t : TcpTracker) (key : FlowKey) : List ℕ := (t.keys.get? key).getD []

def create (t : TcpTracker) (key : FlowKey) (midstream : Bool) : Result (ℕ × TcpTracker) :=
  if t.flows.length ≥ t.limits.maxFlows then .error (Error.limit "flows")
  else .ok (t.flows.length, { t with
    keys := t.keys.insert key (t.history key ++ [t.flows.length])
    flows := t.flows ++ [Flow.fresh t.flows.length ((t.history key).length + 1) key midstream] })

/-- Unavailable time never becomes an invented expiry. -/
def expired (t : TcpTracker) (flow : Flow) (when : Option ℤ) : Bool :=
  match when, flow.lastNs with
  | some now, some last => saturatingSub now last > t.idleNs
  | _, _ => false

def activeAt (t : TcpTracker) (flow : Flow) (when : Option ℤ) : Bool := !t.expired flow when

def near (t : TcpTracker) (sequence anchor : U32) : Bool :=
  match sequenceDelta sequence anchor with
  | .ok d => d.natAbs ≤ t.limits.maxStreamSpan
  | .error _ => false

def plausibleSegment (t : TcpTracker) (flow : Flow) (direction : Fin 2) (segment : TcpSegment) : Bool :=
  match flow.anchors direction with
  | some anchor => t.near segment.dataSequence anchor
  | none =>
    if segment.ack then
      match flow.anchors (1 - direction) with
      | some anchor => t.near segment.acknowledgement anchor
      | none => true
    else true

/-- What the selection decides before anything is recorded. -/
inductive Selection where
  | existing (id : ℕ)
  | fresh (midstream : Bool)
  | ambiguous (candidates : List ℕ)
  | unassigned (reason : String)

def sameSyn (t : TcpTracker) (history : List ℕ) (direction : Fin 2) (when : Option ℤ)
    (segment : TcpSegment) : Option ℕ :=
  history.reverse.find? (fun id => !(t.flowAt id).closed && t.activeAt (t.flowAt id) when &&
    (t.flowAt id).syn direction = some segment.sequence)

/-- The current generation, when only its peer has sent a SYN so far. -/
def simultaneous (t : TcpTracker) (history : List ℕ) (direction : Fin 2) (when : Option ℤ) :
    Option ℕ :=
  history.getLast?.filter (fun id => !(t.flowAt id).closed && t.activeAt (t.flowAt id) when &&
    !(t.flowAt id).midstream && !(t.flowAt id).hasPayload &&
    ((t.flowAt id).syn direction).isNone && ((t.flowAt id).syn (1 - direction)).isSome)

/-- The decision over the plausible generations, open ones and closed ones, and those of the closed
ones whose final acknowledgement this is. -/
def decideAmong (syn allExpired : Bool)
    (candidates closedCandidates closedFinalAckCandidates : List ℕ) : Selection :=
  if closedFinalAckCandidates.length = 1 ∧ closedCandidates.length = 1 ∧ candidates = [] then
    .existing (closedFinalAckCandidates.headD 0)
  else if closedCandidates ≠ [] then
    -- a SYN establishes a new generation even when the initial SYN was not captured
    if syn ∧ candidates = [] then .fresh true
    else if candidates = [] then .unassigned "closed_generation_requires_syn"
    else .ambiguous ((closedCandidates ++ candidates).insertionSort (· ≤ ·))
  else match candidates with
    | [] =>
      if allExpired ∨ syn then .fresh true
      else .unassigned "sequence_outside_known_generations"
    | [id] => .existing id
    | _ => .ambiguous candidates

def possible (t : TcpTracker) (history : List ℕ) (direction : Fin 2) (when : Option ℤ)
    (segment : TcpSegment) : List ℕ :=
  history.filter (fun id =>
    !t.expired (t.flowAt id) when && t.plausibleSegment (t.flowAt id) direction segment)

def selectAmong (t : TcpTracker) (history : List ℕ) (direction : Fin 2) (when : Option ℤ)
    (segment : TcpSegment) : Selection :=
  let possible := t.possible history direction when segment
  decideAmong segment.syn (history.all (fun id => t.expired (t.flowAt id) when))
    (possible.filter (fun id => !(t.flowAt id).closed))
    (possible.filter (fun id => (t.flowAt id).closed))
    (possible.filter (fun id =>
      (t.flowAt id).closed && (t.flowAt id).isFinalAck direction segment))

def select (t : TcpTracker) (key : FlowKey) (direction : Fin 2) (when : Option ℤ)
    (segment : TcpSegment) : Selection :=
  if segment.syn ∧ !segment.ack then
    match (t.sameSyn (t.history key) direction when segment).or
        (t.simultaneous (t.history key) direction when) with
    | some id => .existing id
    | none => .fresh false
  else if t.history key = [] then .fresh true
  else t.selectAmong (t.history key) direction when segment

/-- The second half of `ingest_with_packets`, with the flow selected. -/
def record (t : TcpTracker) (selected : ℕ) (direction : Fin 2) (packets : List PacketId)
    (when : Option ℤ) (segment : TcpSegment) (retained : ℕ) : Result Assignment × TcpTracker :=
  let flow := t.flowAt selected
  if flow.inputs.length ≥ t.limits.maxSegmentsPerFlow then
    (.error (Error.limit "segments_per_flow"), t)
  else if segment.syn ∧ (flow.syn direction).any (· ≠ segment.sequence) then
    (.ok (.unassigned "conflicting_syn_for_generation"), t)
  else
    (.ok (.assigned selected direction), { t with
      flows := t.flows.set selected (flow.accept direction packets when segment)
      retained := retained })

def commit (t : TcpTracker) (selection : Selection) (key : FlowKey) (direction : Fin 2)
    (packets : List PacketId) (when : Option ℤ) (segment : TcpSegment) (retained : ℕ) :
    Result Assignment × TcpTracker :=
  match selection with
  | .existing id => t.record id direction packets when segment retained
  | .fresh midstream =>
    match t.create key midstream with
    | .error e => (.error e, t)
    | .ok (id, t) => t.record id direction packets when segment retained
  | .ambiguous candidates => (.ok (.ambiguous candidates), t)
  | .unassigned reason => (.ok (.unassigned reason), t)

def ingestWithPackets (t : TcpTracker) (scope : Scope) (packets : List PacketId) (when : Option ℤ)
    (segment : TcpSegment) : Result Assignment × TcpTracker :=
  if packets = [] then
    (.error ⟨.invariant, 0, "tcp_evidence", "TCP segment requires source packets"⟩, t)
  else match checkedAdd t.retained segment.payload.len with
    | none => (.error (Error.limit "tcp_retained_payload"), t)
    | some retained =>
      if retained > t.limits.maxRetainedPayload then
        (.error (Error.limit "tcp_retained_payload"), t)
      else
        let (key, direction) := FlowKey.new scope segment.source segment.destination
        t.commit (t.select key direction when segment) key direction packets when segment retained

def ingest (t : TcpTracker) (scope : Scope) (packet : PacketId) (when : Option ℤ)
    (segment : TcpSegment) : Result Assignment × TcpTracker :=
  t.ingestWithPackets scope [packet] when segment

end TcpTracker
end PcapEvidence
