import PcapEvidence.JsonText

/-!
# Versioned events

An event carries its kind, the status of what it says, the session and the direction it was seen in,
and the evidence behind it. A sink answers an event with the number it gave it.
-/

namespace PcapEvidence.Streaming
open EvidenceBytes SortedVec

inductive EvidenceStatus where
  | observed
  | candidate
  | ambiguous
  | incomplete
  | unsupported
  | rejected

inductive EventKind where
  | captureStart
  | captureComplete
  | captureAborted
  | metadata
  | packet
  | network
  | reassembled
  | flowStart
  | flowEnd
  | streamChunk
  | streamGap
  | streamConflict
  | detection
  | message
  | protocolIssue
  | transaction
  | dnp3Confirmation
  | diagnostic
  | boundary

/-- The selected source bytes; `packets` also names contributors without selected payload. -/
structure Evidence where
  spans : List SourceSpan
  packets : List PacketId
  reconstructedSha256 : Option (Vector U8 32)
  byteLength : ℕ

namespace Evidence

def bytes (b : EvidenceBytes) : Evidence := ⟨b.spans, b.packets, some (Sha256.digest b.data), b.len⟩

/-- `Evidence::packets`. -/
def ofPackets (packets : List PacketId) : Evidence := ⟨[], sortDedup packets, none, 0⟩

def json (e : Evidence) : Bgp.Json :=
  .objectOf [("byte_length", Bgp.decimalText e.byteLength),
    ("reconstructed_sha256", (e.reconstructedSha256.map fun h => .string (Bgp.hex h.toList)).getD .null),
    ("packets", .arrayOf (e.packets.map Bgp.packetRef)),
    ("spans", .arrayOf (e.spans.map Bgp.spanJson))]

end Evidence

structure Event where
  kind : EventKind
  status : EvidenceStatus
  /-- The session or window of the analysis, no claim that it is one connection. -/
  session : Option ℕ
  direction : Option U8
  protocol : Option String
  streamRange : Option (ℤ × ℤ)
  relatedEvents : List ℕ
  evidence : Evidence
  data : Bgp.Json

def Event.new (kind : EventKind) (status : EvidenceStatus) (data : Bgp.Json) : Event :=
  { kind
    status
    session := none
    direction := none
    protocol := none
    streamRange := none
    relatedEvents := []
    evidence := ⟨[], [], none, 0⟩
    data }

/-- The callback of a sink with state `σ`. -/
abbrev Emit (σ : Type) : Type := Event → Method σ Error ℕ

/-- The sink takes every event, and `log` is what it has taken. -/
def Accepts {σ : Type} (emit : Emit σ) (log : σ → List Event) : Prop :=
  ∀ e s, ∃ id t, emit e s = (.ok id, t) ∧ log t = log s ++ [e]

end PcapEvidence.Streaming
