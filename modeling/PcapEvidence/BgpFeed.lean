import PcapEvidence.BgpFeedGuard

/-!
# Replay of a feed

A feed delivers one immutable sequence of observations in pages that may overlap. A page is checked
against the retained sequence, applied to a copy and committed with the receipt of the copy.
-/

namespace PcapEvidence.Bgp.Feed

open Json History Import State
open Candidate (SourceKind ObservationKind)

def feedSchema : String := "pcap-evidence.bgp.replay-feed.v1"

def receiptSchema : String := "pcap-evidence.bgp.replay-receipt.v1"

/-- What every commitment of a sequence begins with. -/
def replayDomain : List U8 := Encoder.utf8 "pcap-evidence/bgp/replay-prefix/v1" ++ [0]

inductive Completion where
  | partialSequence | finalSequence
  deriving DecidableEq

def Completion.name : Completion → String
  | partialSequence => "partial"
  | finalSequence => "final"

inductive Coverage where
  | declaredComplete | incomplete | unknown
  deriving DecidableEq

def Coverage.name : Coverage → String
  | declaredComplete => "caller_declared_complete"
  | incomplete => "incomplete"
  | unknown => "unknown"

def Coverage.meet (a b : Coverage) : Coverage :=
  if a = .incomplete ∨ b = .incomplete then .incomplete
  else if a = .unknown ∨ b = .unknown then .unknown
  else .declaredComplete

def validateDeclaration (context : ImportContext) (l : Limits) : Result Unit := do
  context.validate l
  if context.direction ≠ none then
    .error (bad "bgp_replay_declaration"
      "feed declaration is bidirectional; direction belongs to each record")
  else return ()

def hash (s : String) : Result Unit :=
  if ¬ isHash s then
    .error (bad "bgp_replay_hash" "64 lowercase SHA-256 hexadecimal digits required")
  else .ok ()

structure Cursor where
  feedSha256 : String
  nextOrdinal : ℕ
  prefixSha256 : String
  deriving DecidableEq

namespace Cursor

def validate (c : Cursor) : Result Unit := do
  hash c.feedSha256
  hash c.prefixSha256

def json (c : Cursor) : Json :=
  objectOf [("feed_sha256", .string c.feedSha256), ("next_ordinal", decimalText c.nextOrdinal),
    ("prefix_sha256", .string c.prefixSha256)]

end Cursor

section Records

variable (k : Checks)

structure FeedRecord where
  ordinal : ℕ
  observation : State.Observation
  coverage : Coverage
  origin : ∃ value l, fromNormalized k value none l = .ok observation
  imported : observation.source.kind = .imported
  contextual : observation.importContext.isSome = true

variable {k}

namespace FeedRecord

variable (r : FeedRecord k)

def value : Json :=
  objectOf [("ordinal", decimalText r.ordinal), ("coverage", .string r.coverage.name),
    ("observation", r.observation.normalized)]

def encoded : String := r.value.canonical.encode

def recordId : String := r.observation.source.recordId

def context : ImportContext := r.observation.importContext.get r.contextual

def validate (context : ImportContext) (l : Limits) (g : Guard) : Result Guard := do
  let (_, g) ← g.measure l r.value (min l.inputBytes l.outputBytes)
  let c := r.context
  c.validate l
  if c.sourceId ≠ context.sourceId ∨ c.session ≠ context.session ∨
      c.partition ≠ context.partition ∨ c.clock ≠ context.clock then
    .error (bad "bgp_replay_partition" "record and feed partition or clock declaration differ")
  else
    let _ ← State.fromNormalized k r.observation.normalized none l
    return g

end FeedRecord

structure FeedEnvelope (k : Checks) where
  context : ImportContext
  previous : Cursor
  records : List (FeedRecord k)
  completion : Completion

namespace FeedEnvelope

def value (e : FeedEnvelope k) : Json :=
  objectOf [("schema", .string feedSchema), ("context", e.context.json),
    ("previous", e.previous.json), ("completion", .string e.completion.name),
    ("records", arrayOf (e.records.map FeedRecord.value))]

end FeedEnvelope

structure RecordWitness (k : Checks) where
  original : FeedRecord k
  alternatives : List (FeedRecord k)
  stateObservation : ℕ

namespace RecordWitness

variable (w : RecordWitness k)

def records : List (FeedRecord k) := w.original :: w.alternatives

def contains (r : FeedRecord k) : Bool := w.records.any (·.encoded = r.encoded)

def json : Json :=
  objectOf [("record", w.original.value), ("state_observation", decimalText w.stateObservation),
    ("conflict", .bool !w.alternatives.isEmpty),
    ("alternatives", arrayOf (w.alternatives.map FeedRecord.value))]

end RecordWitness

end Records

inductive ReplayStatus where
  | applied | identicalReplay | finalized | quarantined
  deriving DecidableEq

structure ReplayOutcome where
  status : ReplayStatus
  next : Cursor
  receiptSha256 : Digest

structure FeedReplay (k : Checks) where
  limits : Limits
  context : ImportContext
  state : CandidateState
  records : List (RecordWitness k)
  cursors : List Cursor
  generation : ℕ
  completion : Completion
  quarantined : Bool
  receipt : String

namespace FeedReplay

variable {k : Checks}

section Views

variable (s : FeedReplay k)

def cursor : Cursor := s.cursors.getLastD ⟨"", 0, ""⟩

def originals : List (FeedRecord k) := s.records.map RecordWitness.original

def candidateState : Result CandidateState :=
  if s.quarantined then
    .error (bad "bgp_replay_quarantined" "conflicting feed has no publishable candidate view")
  else .ok s.state

def effectiveCoverage : Coverage :=
  if s.quarantined = true ∨ s.completion = .partialSequence then .incomplete
  else s.originals.foldl (fun c r => c.meet r.coverage) .declaredComplete

end Views

section Receipts

variable (sha256 : List U8 → Digest)

def digest (bytes : List U8) : String := hex (sha256 bytes).toList

def receiptIssues : List String :=
  ["replay_is_candidate_evidence_not_endpoint_state",
    "input_order_is_evidence_order_not_clock_or_causal_order",
    "source_adapter_and_source_verification_are_caller_responsibilities",
    "final_means_declared_sequence_end_not_complete_route_coverage",
    "prefix_commitment_is_integrity_not_authority_or_conflict_resolution"]

variable (s : FeedReplay k)

def receiptJson : Json :=
  objectOf [("schema", .string receiptSchema),
    ("feed_schema", .string feedSchema),
    ("context", s.context.json),
    ("next", s.cursor.json),
    ("completion", .string s.completion.name),
    ("quarantined", .bool s.quarantined),
    ("current_generation", if s.quarantined then .null else decimalText s.generation),
    ("effective_coverage", .string s.effectiveCoverage.name),
    ("records", arrayOf (s.records.map RecordWitness.json)),
    ("candidate_state_sha256",
      if s.quarantined then .null else .string (digest sha256 (Encoder.utf8 s.state.encoded))),
    ("candidate_state_available", .bool !s.quarantined),
    ("issues", arrayOf (receiptIssues.map .string)),
    ("endpoint_state_established", .bool false),
    ("rib_established", .bool false),
    ("best_path_selected", .bool false),
    ("reachability_established", .bool false),
    ("attack_established", .bool false),
    ("causality_established", .bool false),
    ("source_authority_established", .bool false),
    ("source_verified", .bool false),
    ("normative_conformance_certified", .bool false)]

structure Retention where
  records : ℕ
  routes : ℕ
  bytes : ℕ
  guard : Guard

def Retention.retain (l : Limits) (t : Retention) (r : FeedRecord k) : Result Retention := do
  let records ← add t.records 1
  let routes ← add t.routes r.observation.routes.length
  let bytes ← add t.bytes r.encoded.utf8ByteSize
  if records > l.elements ∨ routes > l.elements ∨ bytes > l.retainedBytes then
    .error (Error.limit "bgp_replay_retention")
  else
    let (_, g) ← t.guard.tree l r.value 1
    return ⟨records, routes, bytes, g⟩

def refreshRecord (l : Limits) (t : Retention) (r : FeedRecord k) : Result Retention := do
  let records ← add t.records 1
  let routes ← add t.routes r.observation.routes.length
  if records > l.elements ∨ routes > l.elements then .error (Error.limit "bgp_replay_retention")
  else
    let (_, g) ← t.guard.tree l r.value 1
    let bytes ← add t.bytes r.encoded.utf8ByteSize
    if bytes > l.retainedBytes then .error (Error.limit "bgp_replay_retention")
    else return ⟨records, routes, bytes, g⟩

def refresh (g : Guard) : Result (FeedReplay k) := do
  let l := s.limits
  let (_, g) ← Guard.tree l s.context.json 1 ⟨g.work, 0, 0⟩
  let (size, g) ← g.measure l (← s.context.toJson l) l.inputBytes
  let t ← (s.records.flatMap RecordWitness.records).foldlM (refreshRecord l) ⟨0, 0, size, g⟩
  let retained ← add t.bytes (satMul s.cursors.length 192)
  let retained ← add retained s.state.retained
  if retained > l.retainedBytes then .error (Error.limit "bgp_replay_retention")
  else
    let g ← t.guard.charge l retained
    let (_, encoded, _) ← g.encode l (s.receiptJson sha256)
      (min l.outputBytes (l.retainedBytes - retained))
    return { s with receipt := encoded }

def outcome (status : ReplayStatus) : ReplayOutcome :=
  ⟨status, s.cursor, sha256 (Encoder.utf8 s.receipt)⟩

end Receipts

section Replays

variable (sha256 : List U8 → Digest)

def declarationJson (context : ImportContext) : Json :=
  objectOf [("schema", .string feedSchema), ("context", context.json)]

def firstCursor (context : ImportContext) : Cursor :=
  let feed := digest sha256 (Encoder.utf8 (declarationJson context).canonical.encode)
  ⟨feed, 0, digest sha256 (replayDomain ++ Encoder.utf8 feed)⟩

/-- The commitment of a sequence that is one record longer. -/
def nextCursor (c : Cursor) (r : FeedRecord k) : Cursor :=
  ⟨c.feedSha256, r.ordinal + 1,
    digest sha256 (replayDomain ++ Encoder.utf8 c.prefixSha256 ++ Encoder.utf8 r.encoded)⟩

variable (k) in
def opening (context : ImportContext) (l : Limits) (state : CandidateState) : FeedReplay k where
  limits := l
  context := context
  state := state
  records := []
  cursors := [firstCursor sha256 context]
  generation := context.generation
  completion := .partialSequence
  quarantined := false
  receipt := ""

variable (k) in
def new (context : ImportContext) (l : Limits) : Result (FeedReplay k) := do
  validateDeclaration context l
  context.validate l
  let (_, _, g) ← Guard.encode l ⟨0, 0, 0⟩ (declarationJson context) l.inputBytes
  let state ← CandidateState.new sha256 l
  let g ← Guard.charge l ⟨0, 0, 0⟩ g.work
  refresh sha256 (opening k sha256 context l state) g

/-- What the first pass over a page has found. -/
structure Admission where
  conflict : Bool
  identities : List String
  guard : Guard

variable (s : FeedReplay k)

def admitRecord (start : ℕ) (a : Admission) (x : FeedRecord k × ℕ) : Result Admission := do
  let g ← x.1.validate s.context s.limits a.guard
  if x.1.ordinal ≠ start + x.2 then
    .error (bad "bgp_replay_record_order" "record ordinal disagrees with supplied order")
  else
    let g ← g.charge s.limits (satMul x.1.encoded.utf8ByteSize (satAdd s.records.length 4))
    match s.records[start + x.2]? with
    | some old => return ⟨a.conflict || !old.contains x.1, a.identities, g⟩
    | none =>
      if x.1.recordId ∈ a.identities then
        .error (bad "bgp_replay_reordered_identity" "record identity moved to a new ordinal")
      else return ⟨a.conflict, x.1.recordId :: a.identities, g⟩

def novel (start : ℕ) (page : List (FeedRecord k)) : List (FeedRecord k) :=
  (page.zipIdx.filter fun x =>
    (s.records[start + x.2]?).all fun old => !old.contains x.1).map Prod.fst

def checkGeneration (r : FeedRecord k) : Result Unit :=
  match r.observation.importBoundary with
  | some boundary =>
    if boundary.previousGeneration ≠ s.generation ∨
        checkedAdd boundary.previousGeneration 1 ≠ some r.context.generation then
      .error (bad "bgp_replay_generation" "boundary is not the exact current successor")
    else .ok ()
  | none =>
    if r.context.generation ≠ s.generation then
      .error (bad "bgp_replay_generation" "missing generation boundary or reversed generation")
    else .ok ()

def witness (place : ℕ) (old : RecordWitness k) (r : FeedRecord k) : FeedReplay k :=
  if old.contains r then s
  else { s with
    records := s.records.set place { old with alternatives := old.alternatives ++ [r] }
    quarantined := true }

def push (r : FeedRecord k) (g : Guard) : Result (FeedReplay k × Guard) := do
  s.checkGeneration r
  let g ← g.charge s.limits (satMul (satAdd s.state.retained r.encoded.utf8ByteSize)
    (satAdd s.state.observations.length 16))
  let (applied, state) ← s.state.apply sha256 r.observation
  if r.ordinal + 1 ≥ wordBound then .error (Error.limit "bgp_replay_ordinal")
  else
    return ({ s with
      state := state
      generation := r.context.generation
      records := s.records ++ [⟨r, [], applied.observation⟩]
      cursors := s.cursors ++ [nextCursor sha256 s.cursor r] }, g)

def extendRecord (start : ℕ) (t : FeedReplay k × Guard) (x : FeedRecord k × ℕ) :
    Result (FeedReplay k × Guard) :=
  match t.1.records[start + x.2]? with
  | some old => .ok (t.1.witness (start + x.2) old x.1, t.2)
  | none => t.1.push sha256 x.1 t.2

structure Verdict where
  start : ℕ
  grows : Bool
  conflict : Bool
  finalizes : Bool
  guard : Guard

def checkEnd (feed : FeedEnvelope k) (start : ℕ) : Result Unit :=
  let stop := start + feed.records.length
  if stop ≥ wordBound then .error (Error.limit "bgp_replay_ordinal")
  else if feed.records.length > s.limits.elements ∨ stop > s.limits.elements then
    .error (Error.limit "bgp_replay_records")
  else if stop > s.records.length ∧ (s.quarantined ∨ s.completion = .finalSequence) then
    .error (bad "bgp_replay_closed" "final or quarantined feeds cannot extend")
  else if feed.completion = .finalSequence ∧ stop < s.records.length then
    .error (bad "bgp_replay_final" "final marker omits an already retained tail")
  else .ok ()

def examine (feed : FeedEnvelope k) : Result Verdict := do
  let l := s.limits
  validateDeclaration feed.context l
  let (_, g) ← Guard.measure l ⟨0, 0, 0⟩ feed.value (min l.inputBytes l.outputBytes)
  feed.previous.validate
  if feed.context ≠ s.context then
    .error (bad "bgp_replay_partition" "feed declaration changed; use an independent replay instance")
  else
    let start := feed.previous.nextOrdinal
    if s.cursors[start]? ≠ some feed.previous then
      .error (bad "bgp_replay_predecessor"
        "missing, changed or cross-partition prefix commitment")
    else
      s.checkEnd feed start
      let grows := start + feed.records.length > s.records.length
      let g ← g.charge l (satMul s.receipt.utf8ByteSize (satAdd feed.records.length 4))
      let g ← g.charge l (satMul s.state.retained 4)
      let a ← feed.records.zipIdx.foldlM (s.admitRecord start)
        ⟨false, s.originals.map FeedRecord.recordId, g⟩
      if a.conflict ∧ grows then
        .error (bad "bgp_replay_ambiguous_extension"
          "cannot append records using a conflicting prefix")
      else
        return ⟨start, grows, a.conflict, !a.conflict && !s.quarantined &&
          s.completion = .partialSequence && feed.completion = .finalSequence, a.guard⟩

/-- Everything that would be retained is measured before it is copied. -/
def preflight (feed : FeedEnvelope k) (v : Verdict) : Result Guard := do
  let l := s.limits
  let (_, g) ← Guard.tree l s.context.json 1 ⟨v.guard.work, 0, 0⟩
  let t ← (s.records.flatMap RecordWitness.records ++ s.novel v.start feed.records).foldlM
    (Retention.retain l) ⟨0, 0, s.state.retained, g⟩
  return { v.guard with work := t.guard.work }

def statusOf (v : Verdict) : ReplayStatus :=
  if v.conflict then .quarantined else if v.finalizes then .finalized else .applied

/-- The copy that a page turns the sequence into. -/
def staged (feed : FeedEnvelope k) (v : Verdict) : Result (FeedReplay k) := do
  let g ← s.preflight feed v
  let (next, g) ← feed.records.zipIdx.foldlM (extendRecord sha256 v.start) (s, g)
  refresh sha256 (if v.finalizes then { next with completion := .finalSequence } else next) g

def apply (feed : FeedEnvelope k) : Method (FeedReplay k) Error ReplayOutcome := do
  let s ← Method.read
  let v ← Method.lift (s.examine feed)
  if !v.grows && !v.conflict && !v.finalizes then return s.outcome sha256 .identicalReplay
  else
    let next ← Method.lift (s.staged sha256 feed v)
    Method.update fun _ => next
    return next.outcome sha256 (statusOf v)

end Replays

end FeedReplay

end PcapEvidence.Bgp.Feed
