import PcapEvidence.BgpObservation
import PcapEvidence.BgpCandidateSlot

/-!
# Candidate state

A journal of observations with the view it is reduced to and the snapshot of both. A batch is
checked against the journal, appended and reduced again as one atomic update.
-/

namespace PcapEvidence.Bgp.State

open Json History Candidate Import FiniteMap

def stateSchema : String := "pcap-evidence.bgp.candidate-state.v1"

/-- An absent value comes first. -/
def lowest {α : Type} (o : Option α) : WithBot α := o.elim ⊥ WithBot.some

theorem lowest_injective {α : Type} : Function.Injective (lowest (α := α)) := by
  intro a b h
  cases a <;> cases b <;> simp_all [lowest]

abbrev BatchRank := WithBot String ×ₗ WithBot String ×ₗ WithBot ℕ

abbrev PartitionRank :=
  String ×ₗ WithBot String ×ₗ BatchRank ×ₗ String ×ₗ WithBot String ×ₗ WithBot String

abbrev SessionRank := ℕ ×ₗ String ×ₗ String ×ₗ WithBot PartitionRank

abbrev RouteRank := SessionRank ×ₗ ℕ ×ₗ ℕ ×ₗ ℕ ×ₗ ℕ ×ₗ String ×ₗ ℕ

def sourceCode : SourceKind → ℕ
  | .captured => 0
  | .imported => 1

def batchRank (b : SourceBatch) : BatchRank :=
  toLex (lowest b.batchId, toLex (lowest b.sha256, lowest (b.byteLength.map BitVec.toNat)))

def partitionRank (p : ImportPartition) : PartitionRank :=
  toLex (p.sourceSchema, toLex (lowest p.sourceVersion, toLex (batchRank p.batch,
    toLex (p.checkpointId, toLex (lowest p.peer, lowest p.localEnd)))))

def sessionRank (k : Candidate.SessionKey) : SessionRank :=
  toLex (sourceCode k.kind, toLex (k.sourceId, toLex (k.session, lowest (k.partition.map partitionRank))))

def routeRank (k : Candidate.RouteKey) : RouteRank :=
  toLex (sessionRank k.session, toLex (k.direction.toNat, sortKey (k.route, k.pathId)))

theorem batchRank_injective : Function.Injective batchRank := by
  rintro ⟨a, b, c⟩ ⟨a', b', c'⟩ h
  simp only [batchRank, EmbeddingLike.apply_eq_iff_eq, Prod.mk.injEq, lowest_injective.eq_iff] at h
  obtain ⟨rfl, rfl, hc⟩ := h
  rw [Option.map_injective (fun x y => BitVec.eq_of_toNat_eq) hc]

theorem partitionRank_injective : Function.Injective partitionRank := by
  rintro ⟨a, b, c, d, e, f⟩ ⟨a', b', c', d', e', f'⟩ h
  simp only [partitionRank, EmbeddingLike.apply_eq_iff_eq, Prod.mk.injEq, lowest_injective.eq_iff,
    batchRank_injective.eq_iff] at h
  obtain ⟨rfl, rfl, rfl, rfl, rfl, rfl⟩ := h
  rfl

theorem sourceCode_injective : Function.Injective sourceCode := by
  intro a b h
  cases a <;> cases b <;> simp_all [sourceCode]

theorem sessionRank_injective : Function.Injective sessionRank := by
  rintro ⟨a, b, c, d⟩ ⟨a', b', c', d'⟩ h
  simp only [sessionRank, EmbeddingLike.apply_eq_iff_eq, Prod.mk.injEq, lowest_injective.eq_iff,
    sourceCode_injective.eq_iff, (Option.map_injective partitionRank_injective).eq_iff] at h
  obtain ⟨rfl, rfl, rfl, rfl⟩ := h
  rfl

theorem pathRank_injective : Function.Injective RoutePathId.rank := by
  intro a b h
  cases a <;> cases b <;> simp_all [RoutePathId.rank, ← BitVec.toNat_inj]

theorem routeRank_injective : Function.Injective routeRank := by
  rintro ⟨a, b, ⟨afi, safi, length, address⟩, d⟩ ⟨a', b', ⟨afi', safi', length', address'⟩, d'⟩ h
  simp only [routeRank, sortKey, EmbeddingLike.apply_eq_iff_eq, Prod.mk.injEq,
    sessionRank_injective.eq_iff, pathRank_injective.eq_iff, BitVec.toNat_inj] at h
  obtain ⟨rfl, rfl, rfl, rfl, rfl, rfl, rfl⟩ := h
  rfl

abbrev sessionOrder : LinearOrder Candidate.SessionKey :=
  LinearOrder.lift' sessionRank sessionRank_injective

abbrev routeOrder : LinearOrder Candidate.RouteKey :=
  LinearOrder.lift' routeRank routeRank_injective

def valuesInOrder {κ ν : Type} (order : LinearOrder κ) (m : FinMap κ ν) : List ν :=
  (m.keys.sort order.le).filterMap m.get

section Snapshot

def statusName : Candidate.ApplyStatus → String
  | .applied => "applied"
  | .identicalReplay => "identical_replay"
  | .missingScope => "missing_scope"
  | .lateGeneration => "late_generation"
  | .closedGeneration => "closed_generation"
  | .identityConflict => "record_identity_conflict"
  | .reset => "caller_generation_reset"
  | .nonAdvancingReset => "nonadvancing_reset"
  | .notification => "notification_closes_generation"
  | .metadataOnly => "metadata_only"

def effectName : EffectKind → String
  | .announced => "announced_candidate"
  | .repeatedAnnouncement => "repeated_announcement"
  | .conflictingAnnouncement => "conflicting_attributes"
  | .withdrawn => "withdrawn_candidate"
  | .absentWithdrawal => "withdrawal_of_absent_candidate"
  | .mixedActions => "ambiguous_actions_in_record"
  | .unsupportedPrefix => "unsupported_prefix_semantics"

def actionName : RouteAction → String
  | .announce => "announce"
  | .withdraw => "withdraw"

def pathFields : RoutePathId → List (String × Json)
  | .absent => []
  | .present id => [("path_id", numberJson id)]

def effectJson (e : RouteEffect) : Json :=
  objectOf ([("prefix", prefixJson e.route), ("status", .string (effectName e.kind)),
    ("routes", arrayOf (e.routes.map decimalText))] ++ pathFields e.pathId)

def outcomeJson (o : ApplyOutcome) : Json :=
  objectOf [("observation", decimalText o.observation), ("status", .string (statusName o.status)),
    ("effects", arrayOf (o.effects.map effectJson))]

def partitionOrNull (p : Option ImportPartition) : Json := p.elim .null partitionJson

def sessionJson (s : Candidate.SessionView) : Json :=
  objectOf [("source_kind", .string (sourceName s.sourceKind)), ("source_id", .string s.sourceId),
    ("session", .string s.session), ("generation", decimalText s.generation),
    ("closed", .bool s.closed), ("identity_conflict", .bool s.identityConflict),
    ("generation_witness", decimalText s.generationWitness),
    ("import_partition", partitionOrNull s.importPartition)]

def witnessJson (w : RouteRef) : Json :=
  objectOf [("observation", decimalText w.observation), ("route", decimalText w.route)]

def alternativeJson (a : Alternative) : Json :=
  objectOf [("action", .string (actionName a.action)), ("attributes", a.attributes),
    ("attribute_identity", a.attributeIdentity),
    ("ambiguous_attributes", .bool a.ambiguousAttributes),
    ("witnesses", arrayOf (a.witnesses.map witnessJson))]

def candidateJson (c : CandidateRoute) : Json :=
  objectOf ([("source_kind", .string (sourceName c.sourceKind)), ("source_id", .string c.sourceId),
    ("session", .string c.session), ("generation", decimalText c.generation),
    ("direction", numberJson c.direction), ("prefix", prefixJson c.route),
    ("import_partition", partitionOrNull c.importPartition),
    ("status", .string (if c.conflicting then "conflict" else "candidate")),
    ("alternatives", arrayOf (c.alternatives.map alternativeJson))] ++ pathFields c.pathId)

def snapshotIssues : List String :=
  ["candidate_state_is_not_endpoint_rib", "caller_order_is_not_causality",
    "input_provenance_inherited_not_independently_verified",
    "attribute_identity_tokens_are_opaque_not_verified_digests",
    "upstream_unknown_or_lossy_semantics_not_repaired",
    "import_context_is_caller_asserted_not_wire_evidence",
    "legacy_import_context_is_unknown_when_present"]

variable (sha256 : List U8 → Digest)

def snapshotJson (observations : List Observation) (v : View) : Json :=
  objectOf [("schema", .string stateSchema),
    ("endpoint_state_established", .bool false),
    ("rib_established", .bool false),
    ("best_path_selected", .bool false),
    ("causality_established", .bool false),
    ("source_authority_established", .bool false),
    ("reachability_established", .bool false),
    ("normative_conformance_certified", .bool false),
    ("issues", arrayOf (snapshotIssues.map .string)),
    ("observations", arrayOf (observations.map fun o => o.json sha256)),
    ("outcomes", arrayOf (v.outcomes.map outcomeJson)),
    ("sessions", arrayOf ((valuesInOrder sessionOrder v.sessions).map sessionJson)),
    ("routes", arrayOf ((valuesInOrder routeOrder v.routes).map candidateJson))]

end Snapshot

structure CandidateState where
  limits : Limits
  observations : List Observation
  view : View
  encoded : String
  retained : ℕ
  lastWork : ℕ

def add (a b : ℕ) (field : String) : Result ℕ :=
  if a + b ≥ wordBound then .error (Error.limit field) else .ok (a + b)

def locatorText : Locator → String
  | .blank => ""
  | .captured text => text
  | .partition p => (partitionJson p).encode

def observationWork (o : Observation) (nodes : ℕ) : ℕ :=
  1 + o.source.sourceId.utf8ByteSize + (o.source.session.getD "").utf8ByteSize +
    o.source.recordId.utf8ByteSize + (locatorText o.locator).utf8ByteSize + o.encoded.utf8ByteSize +
    nodes

namespace CandidateState

variable (sha256 : List U8 → Digest)

def new (l : Limits) : Result CandidateState := do
  l.validate
  let encoded ← (snapshotJson sha256 [] .initial).encodeBounded l.outputBytes
  if encoded.utf8ByteSize > l.retainedBytes then .error (Error.limit "bgp_state_retained_bytes")
  else return ⟨l, [], .initial, encoded, encoded.utf8ByteSize, 0⟩

/-- A row that is already known by its identity and its text. -/
structure Seen where
  identity : Identity
  encoded : String
  index : ℕ

/-- What a batch has used so far, and what its rows are compared with. -/
structure Staging where
  storage : ℕ
  routes : ℕ
  spans : ℕ
  work : Candidate.Work
  seen : List Seen
  generations : FinMap Candidate.SessionKey (ℕ × Bool)
  accepted : List Observation
  /-- A receipt, or the index of the row that the receipt is read from. -/
  receipts : List (ApplyOutcome ⊕ ℕ)

namespace Staging

def retain (s : Staging) (o : Observation) : Result Staging := do
  let storage ← add s.storage o.encoded.utf8ByteSize "bgp_state_retained_bytes"
  let routes ← add s.routes o.routes.length "bgp_state_routes"
  let spans ← add s.spans o.spans "bgp_state_spans"
  return { s with storage := storage, routes := routes, spans := spans }

def find (s : Staging) (o : Observation) : Option ℕ :=
  (s.seen.find? fun x => x.identity = o.identity && x.encoded = o.encoded).map Seen.index

def conflicts (s : Staging) (o : Observation) : Bool := s.seen.any (·.identity = o.identity)

/-- A retained row; of two equal ones the first is found. -/
def existing (s : Staging) (x : Observation × ℕ) : Result Staging := do
  let s ← s.retain x.1
  let work ← s.work.charge (observationWork x.1 x.1.nodes)
  return { s with work := work, seen := s.seen ++ [⟨x.1.identity, x.1.encoded, x.2⟩] }

def transition (s : Staging) (o : Observation) (c : ImportContext) (key : Candidate.SessionKey) :
    Result Staging :=
  match o.importBoundary, s.generations.get key with
  | some boundary, some (previous, false) =>
    if previous = boundary.previousGeneration then
      .ok { s with generations := s.generations.insert key (c.generation, false) }
    else .error (bad "bgp_import_transition"
      "boundary predecessor does not match the current unambiguous partition")
  | some _, _ => .error (bad "bgp_import_transition"
      "boundary predecessor does not match the current unambiguous partition")
  | none, some (previous, _) =>
    if previous ≠ c.generation then
      .error (bad "bgp_import_transition" "generation change requires an explicit successor boundary")
    else .ok s
  | none, none => .ok { s with generations := s.generations.insert key (c.generation, false) }

def contextOf (o : Observation) : Result (ImportContext × Candidate.SessionKey) :=
  match o.importContext, o.sessionKey with
  | none, _ => .error (bad "bgp_import_context" "context is missing")
  | some _, none => .error (bad "bgp_import_context" "session is missing")
  | some c, some key => .ok (c, key)

def taint (s : Staging) (key : Option Candidate.SessionKey) : Staging :=
  { s with generations := s.generations.mapVal fun k v => if some k = key then (v.1, true) else v }

def accept (l : Limits) (existing : ℕ) (key : Option Candidate.SessionKey) (s : Staging)
    (o : Observation) : Result Staging := do
  let conflict := s.conflicts o
  let index := existing + s.accepted.length
  if index ≥ l.elements then .error (Error.limit "bgp_state_observations")
  else
    let s ← s.retain o
    if s.storage > l.retainedBytes ∨ s.routes > l.elements ∨ s.spans > l.spans then
      .error (Error.limit "bgp_state_retention")
    else
      let s := { s with
        seen := s.seen ++ [⟨o.identity, o.encoded, index⟩]
        accepted := s.accepted ++ [o]
        receipts := s.receipts ++ [.inr index] }
      return if conflict then s.taint key else s

def checkContext (contextual : Bool) (o : Observation) (l : Limits) : Result Unit :=
  match contextual, o.importContext with
  | false, _ => .ok ()
  | true, none => .error (bad "bgp_import_context" "context is missing")
  | true, some c => c.validate l

def input (l : Limits) (contextual : Bool) (existing : ℕ) (s : Staging) (o : Observation) :
    Result Staging := do
  let nodes ← treeBudget o.normalized l
  let _ ← o.normalized.encodeBounded l.inputBytes
  if o.routes.length > l.elements ∨ o.spans > l.spans then
    .error (Error.limit "bgp_state_observation")
  else
    checkContext contextual o l
    let work ← s.work.charge (observationWork o nodes)
    let s := { s with work := work }
    match s.find o with
    | some index => return { s with receipts := s.receipts ++ [.inl ⟨index, .identicalReplay, []⟩] }
    | none =>
      if contextual then
        let (c, key) ← contextOf o
        let s ← s.transition o c key
        s.accept l existing (some key) o
      else s.accept l existing none o

end Staging

variable (s : CandidateState)

def staging (contextual : Bool) : Staging where
  storage := 0
  routes := 0
  spans := 0
  work := ⟨0, s.limits.work⟩
  seen := []
  generations := if contextual then
      s.view.sessions.mapTo fun _ v => (v.generation, v.identityConflict)
    else .empty
  accepted := []
  receipts := []

def receipt (outcomes : List ApplyOutcome) : ApplyOutcome ⊕ ℕ → Result ApplyOutcome
  | .inl outcome => .ok outcome
  | .inr index =>
    match outcomes[index]? with
    | some outcome => .ok outcome
    | none => .error (badAt index "bgp_state" "missing application receipt")

def commit (t : Staging) : Result (List ApplyOutcome × CandidateState) := do
  if t.storage > s.limits.retainedBytes ∨ t.routes > s.limits.elements ∨ t.spans > s.limits.spans then
    .error (Error.limit "bgp_state_retention")
  else
    let observations := s.observations ++ t.accepted
    let (view, work) ← reduce (observations.map Observation.reduced) s.limits t.work
    let work ← work.charge (satAdd (satMul t.storage 3) (satMul t.routes 32))
    let encoded ← (snapshotJson sha256 observations view).encodeBounded
      (min s.limits.outputBytes (s.limits.retainedBytes - t.storage))
    let retained ← add t.storage encoded.utf8ByteSize "bgp_state_retained_bytes"
    let receipts ← t.receipts.mapM (receipt view.outcomes)
    return (receipts, ⟨s.limits, observations, view, encoded, retained, work.used⟩)

def applyIndexedBatch (batch : List Observation) (contextual : Bool) :
    Result (List ApplyOutcome × CandidateState) := do
  let t ← s.observations.zipIdx.foldlM Staging.existing (s.staging contextual)
  let t ← batch.foldlM (Staging.input s.limits contextual s.observations.length) t
  if t.accepted = [] then
    let receipts ← t.receipts.mapM (receipt [])
    return (receipts, { s with lastWork := t.work.used })
  else s.commit sha256 t

def apply (o : Observation) : Result (ApplyOutcome × CandidateState) := do
  if observationWork o o.nodes > s.limits.work then .error (Error.limit "bgp_state_work")
  else
    let (receipts, s) ← s.applyIndexedBatch sha256 [o] o.importContext.isSome
    match receipts with
    | receipt :: _ => return (receipt, s)
    | [] => .error (bad "bgp_state" "missing application receipt")

end CandidateState

end PcapEvidence.Bgp.State
