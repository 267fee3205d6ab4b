import PcapEvidence.Dnp3Workflow
import PcapEvidence.StreamEvents

/-!
# Confirmations in a stream

The verified fragments of a window are grouped by capture, session, window, generation, addresses,
sequence and namespace, the addresses of a response exchanged. The work of all groups is counted
before the first event, so an exhausted budget leaves no partial projection.
-/

namespace PcapEvidence.Streaming
open EvidenceBytes OrderedMap SortedVec Dnp3Workflow

structure Dnp3StreamingConfirmationRecord where
  event : ℕ
  session : ℕ
  window : ℕ
  generation : Option ℕ
  direction : U8
  source : U16
  destination : U16
  witness : FragmentWitness
  raw : EvidenceBytes
  ambiguous : Bool
  boundaryVerified : Bool

namespace Dnp3Confirmations

structure Group where
  confirms : List Dnp3StreamingConfirmationRecord
  responses : List Dnp3StreamingConfirmationRecord

def Group.empty : Group := ⟨[], []⟩

structure Key where
  capture : Vector U8 32
  session : ℕ
  window : ℕ
  generation : Option ℕ
  source : U16
  destination : U16
  sequence : U8
  unsolicited : Bool
  deriving DecidableEq

namespace Key

def orderKey (k : Key) : List ℕ ×ₗ ℕ ×ₗ ℕ ×ₗ WithBot ℕ ×ₗ ℕ ×ₗ ℕ ×ₗ ℕ ×ₗ Bool :=
  toLex (k.capture.toList.map BitVec.toNat, toLex (k.session, toLex (k.window,
    toLex (show WithBot ℕ from k.generation, toLex (k.source.toNat, toLex (k.destination.toNat,
      toLex (k.sequence.toNat, k.unsolicited)))))))

theorem orderKey_injective : Function.Injective orderKey := by
  rintro ⟨c, n, w, g, x, y, s, u⟩ ⟨c', n', w', g', x', y', s', u'⟩ h
  simp only [orderKey, EmbeddingLike.apply_eq_iff_eq, Prod.mk.injEq] at h
  obtain ⟨hc, hn, hw, hrest⟩ := h
  have hg : g = g' := congrArg Prod.fst hrest
  have hnumbers := congrArg Prod.snd hrest
  simp only [EmbeddingLike.apply_eq_iff_eq, Prod.mk.injEq] at hnumbers
  obtain ⟨hx, hy, hs, hu⟩ := hnumbers
  have hl : c.toList = c'.toList := List.map_injective_iff.2 (fun _ _ => BitVec.eq_of_toNat_eq) hc
  rw [Vector.toList_inj.1 hl, hn, hw, hg, BitVec.eq_of_toNat_eq hx,
    BitVec.eq_of_toNat_eq hy, BitVec.eq_of_toNat_eq hs, hu]

instance : LinearOrder Key := LinearOrder.lift' orderKey orderKey_injective

end Key

def isConfirm (r : Dnp3StreamingConfirmationRecord) : Bool := r.witness.header.function = 0

def takesPart (r : Dnp3StreamingConfirmationRecord) : Bool :=
  r.witness.header.function ∈ [0, 0x81, 0x82]

/-- `dnp3_confirmation_key`: the addresses of a response are those of its confirmation, exchanged. -/
def keyOf (r : Dnp3StreamingConfirmationRecord) : Key :=
  { capture := firstCapture r.witness.packets
    session := r.session
    window := r.window
    generation := r.generation
    source := if isConfirm r then r.source else r.destination
    destination := if isConfirm r then r.destination else r.source
    sequence := r.witness.header.sequence
    unsolicited := r.witness.header.unsolicited }

/-- `dnp3_participant_json`. -/
def participantJson (r : Dnp3StreamingConfirmationRecord) : Bgp.Json :=
  .objectOf [("event", Bgp.decimalText r.event),
    ("session", Bgp.decimalText r.session),
    ("window", Bgp.decimalText r.window),
    ("generation", (r.generation.map Bgp.decimalText).getD .null),
    ("direction", .number (r.direction.setWidth 64)),
    ("source", .number (r.source.setWidth 64)),
    ("destination", .number (r.destination.setWidth 64)),
    ("function", .number (r.witness.header.function.setWidth 64)),
    ("sequence", .number (r.witness.header.sequence.setWidth 64)),
    ("unsolicited_namespace", .bool r.witness.header.unsolicited),
    ("confirmation_requested", .bool r.witness.header.confirmRequested),
    ("link_direction", .bool r.witness.linkDirection),
    ("ambiguous_context", .bool r.ambiguous),
    ("boundary_verified", .bool r.boundaryVerified),
    ("evidence", (Evidence.bytes r.raw).json)]

def limitReached : Error := Error.limit "dnp3_confirmation_checks"

def Group.join (group : Group) (r : Dnp3StreamingConfirmationRecord) : Group :=
  if isConfirm r then { group with confirms := group.confirms ++ [r] }
  else { group with responses := group.responses ++ [r] }

def addRecord (groups : OrdMap Key Group) (r : Dnp3StreamingConfirmationRecord) : OrdMap Key Group :=
  groups.insert (keyOf r) (((groups.get? (keyOf r)).getD .empty).join r)

def takeRecord (counted : ℕ × OrdMap Key Group) (r : Dnp3StreamingConfirmationRecord) :
    Result (ℕ × OrdMap Key Group) :=
  if takesPart r then
    match checkedAdd counted.1 1 with
    | none => .error limitReached
    | some required => .ok (required, addRecord counted.2 r)
  else .ok counted

def chargeGroup (required : ℕ) (group : Group) : Result ℕ :=
  match checkedMul group.confirms.length group.responses.length with
  | none => .error limitReached
  | some pairs =>
    match (checkedAdd required pairs).bind (checkedAdd · group.responses.length) with
    | none => .error limitReached
    | some required => .ok required

def exclusion (confirms : List Dnp3StreamingConfirmationRecord)
    (response : Dnp3StreamingConfirmationRecord) : Option String :=
  if !response.witness.header.confirmRequested then some "target_does_not_request_confirmation"
  else if response.ambiguous then some "ambiguous_stream_context"
  else if !response.boundaryVerified then some "unverified_stream_boundary"
  else if !confirms.any (fun confirm => confirm.direction ≠ response.direction &&
      confirm.witness.linkDirection ≠ response.witness.linkDirection) then
    some "direction_evidence_not_jointly_compatible"
  else none

def Group.targets (group : Group) : List Dnp3StreamingConfirmationRecord :=
  group.responses.filter fun r => exclusion group.confirms r = none

def Group.excluded (group : Group) : List (Dnp3StreamingConfirmationRecord × String) :=
  group.responses.filterMap fun r => (exclusion group.confirms r).map fun reason => (r, reason)

def Group.ambiguousContext (group : Group) : Bool :=
  group.confirms.any (·.ambiguous) || group.responses.any (·.ambiguous)

def Group.boundaryOk (group : Group) : Bool :=
  group.confirms.all (·.boundaryVerified) && group.targets.all (·.boundaryVerified)

def Group.verdict (group : Group) : EvidenceStatus × String :=
  if group.ambiguousContext then (.ambiguous, "ambiguous_stream_context")
  else if group.confirms.length > 1 then
    (.ambiguous, "duplicate_or_reused_confirmation_identifier")
  else if group.targets.isEmpty then
    (.incomplete, "no_verified_response_fragment_matches_all_confirmation_fields")
  else if !group.boundaryOk then (.ambiguous, "unverified_stream_boundary")
  else if group.targets.length > 1 || !group.excluded.isEmpty then
    (.ambiguous, "duplicate_or_reused_response_identifier")
  else (.candidate, "unique_verified_stream_fragment_identifiers_not_receipt_or_causality")

def Group.data (group : Group) : Bgp.Json :=
  .objectOf [("projection", .string "dnp3_confirmation_candidate"),
    ("reason", .string group.verdict.2),
    ("scope", .string "one_analysis_window_one_stream_session_one_tcp_generation"),
    ("confirms", .arrayOf (group.confirms.map participantJson)),
    ("targets", .arrayOf (group.targets.map participantJson)),
    ("excluded_targets", .arrayOf (group.excluded.map fun e =>
      .objectOf [("reason", .string e.2), ("participant", participantJson e.1)])),
    ("generic_transaction_untouched", .bool true),
    ("source_binding", .string "capture_complete_required")]

def Group.event (group : Group) : Event :=
  { Event.new .dnp3Confirmation group.verdict.1 group.data with
    session := group.confirms.head?.map (·.session)
    protocol := some "dnp3"
    relatedEvents := (group.confirms ++ group.responses).map (·.event)
    evidence := .ofPackets
      (sortDedup ((group.confirms ++ group.responses).flatMap (·.witness.packets))) }

def emitGroup {σ : Type} (emit : Emit σ) (group : Group) : Method σ Error Unit :=
  if group.confirms.isEmpty then pure ()
  else do
    let _ ← emit group.event
    pure ()

def correlateDnp3Confirmations {σ : Type} (emit : Emit σ)
    (records : List Dnp3StreamingConfirmationRecord) (maxChecks : ℕ) : Method σ Error Unit := do
  let counted ← Method.lift (records.foldlM takeRecord (records.length, .empty))
  let required ← Method.lift (counted.2.values.foldlM chargeGroup counted.1)
  if required > maxChecks then Method.fail limitReached
  else counted.2.values.foldlM (fun _ group => emitGroup emit group) ()

end Dnp3Confirmations

end PcapEvidence.Streaming
