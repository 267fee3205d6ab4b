import PcapEvidence.JsonTree
import PcapEvidence.BgpCandidate
import PcapEvidence.BgpSession

/-!
# The context of imported evidence

An imported observation names its source, its batch and checkpoint, a session and a generation. All
of it is supplied. The context is written as one JSON object and read back field by field.
-/

namespace PcapEvidence.Bgp

def satAdd (a b : ℕ) : ℕ := min (a + b) usizeMax

def satMul (a b : ℕ) : ℕ := min (a * b) usizeMax

namespace Import

open Json State History Candidate

def contextSchema : String := "pcap-evidence.bgp.import-context.v1"

inductive ClockPolicy where
  | unknown | sourceLabel | ingestionLabel
  deriving DecidableEq

def ClockPolicy.name : ClockPolicy → String
  | unknown => "unknown"
  | sourceLabel => "source_label"
  | ingestionLabel => "ingestion_label"

structure ObservationClock where
  policy : ClockPolicy
  clockId : Option String
  reportedUncertaintyNs : Option ℕ
  deriving DecidableEq

structure SourceRange where
  start : ℕ
  stop : ℕ
  sha256 : Option String
  deriving DecidableEq

structure ImportContext where
  sourceId : String
  sourceSchema : String
  sourceVersion : Option String
  clock : ObservationClock
  batch : SourceBatch
  checkpointId : String
  session : String
  generation : ℕ
  direction : Option U8
  peer : Option String
  localEnd : Option String
  provenance : List SourceRange
  deriving DecidableEq

structure GenerationBoundary where
  previousGeneration : ℕ
  reason : String

def identityLimit (s : String) (maximum : ℕ) : Result Unit :=
  if s.utf8ByteSize > maximum then .error (Error.limit "bgp_import_metadata")
  else if s.toList.all Session.isWhitespace ∨ s.toList.any isControl then
    .error (bad "bgp_import_identity" "nonempty control-free identity required")
  else .ok ()

def identity (s : String) (l : Limits) : Result Unit := identityLimit s (min l.inputBytes 1024)

def optionalIdentity (s : Option String) (l : Limits) : Result Unit :=
  match s with
  | some s => identity s l
  | none => .ok ()

def isHash (s : String) : Prop := s.utf8ByteSize = 64 ∧ s.toList.all Session.isLowerHex = true

instance instDecidableIsHash (s : String) : Decidable (isHash s) :=
  inferInstanceAs (Decidable (_ ∧ _))

def hash (s : String) : Result Unit :=
  if ¬ isHash s then
    .error (bad "bgp_import_hash" "expected 64 lowercase SHA-256 hexadecimal digits")
  else .ok ()

def optionalHash (s : Option String) : Result Unit :=
  match s with
  | some s => hash s
  | none => .ok ()

def exactKeys (value : Json) (keys : List String) : Result Unit :=
  match value with
  | .object fields =>
    if fields.toList.length ≠ keys.length ∨ fields.toList.any (·.1 ∉ keys) then
      .error (bad "bgp_import_shape" "missing or unknown context field")
    else .ok ()
  | _ => .error (bad "bgp_import_shape" "expected object")

def optional (s : Option String) : Json := s.elim .null .string

def optionalNumber (n : Option ℕ) : Json := n.elim .null decimalText

def optionalU64 (v : Json) : Result (Option ℕ) :=
  if v = .null then .ok none else (number v).map some

def validateBatch (b : SourceBatch) (l : Limits) : Result Unit := do
  optionalIdentity b.batchId l
  optionalHash b.sha256
  if b.batchId = none ∧ b.sha256 = none then
    .error (bad "bgp_import_batch" "immutable batch identity or source hash required")
  else return ()

def batchJson (b : SourceBatch) : Json :=
  objectOf [("batch_id", optional b.batchId), ("sha256", optional b.sha256),
    ("byte_length", optionalNumber (b.byteLength.map BitVec.toNat))]

def batchFromJson (v : Json) : Result SourceBatch := do
  exactKeys v ["batch_id", "sha256", "byte_length"]
  let batchId ← optionalText (← member v "batch_id")
  let sha256 ← optionalText (← member v "sha256")
  let byteLength ← optionalU64 (← member v "byte_length")
  return ⟨batchId, sha256, byteLength.map (BitVec.ofNat 64)⟩

def partitionJson (p : ImportPartition) : Json :=
  objectOf [("source_schema", .string p.sourceSchema), ("source_version", optional p.sourceVersion),
    ("batch", batchJson p.batch), ("checkpoint_id", .string p.checkpointId),
    ("peer", optional p.peer), ("local", optional p.localEnd)]

namespace ImportContext

variable (c : ImportContext)

def partition : ImportPartition where
  sourceSchema := c.sourceSchema
  sourceVersion := c.sourceVersion
  batch := c.batch
  checkpointId := c.checkpointId
  peer := c.peer
  localEnd := c.localEnd

def rangeJson (s : SourceRange) : Json :=
  objectOf [("start", decimalText s.start), ("end", decimalText s.stop), ("sha256", optional s.sha256)]

def json : Json :=
  objectOf [("schema", .string contextSchema),
    ("source_id", .string c.sourceId),
    ("source_schema", .string c.sourceSchema),
    ("source_version", optional c.sourceVersion),
    ("clock", objectOf [("policy", .string c.clock.policy.name),
      ("clock_id", optional c.clock.clockId),
      ("reported_uncertainty_ns", optionalNumber c.clock.reportedUncertaintyNs),
      ("ordering_established", .bool false)]),
    ("batch", batchJson c.batch),
    ("checkpoint_id", .string c.checkpointId),
    ("session", .string c.session),
    ("generation", decimalText c.generation),
    ("direction", c.direction.elim .null fun d => .number (BitVec.ofNat 64 d.toNat)),
    ("peer", optional c.peer),
    ("local", optional c.localEnd),
    ("provenance", arrayOf (c.provenance.map rangeJson)),
    ("wire_verified", .bool false),
    ("source_authenticated", .bool false)]

def texts : List String :=
  [c.sourceId, c.sourceSchema, c.checkpointId, c.session] ++ c.sourceVersion.toList ++
    c.peer.toList ++ c.localEnd.toList ++ c.clock.clockId.toList ++ c.batch.batchId.toList ++
    c.batch.sha256.toList

def metadataBytes : ℕ := (c.texts.map String.utf8ByteSize).sum

def checkRange (s : SourceRange) : Result Unit :=
  if s.start ≥ s.stop ∨ c.batch.byteLength.any (s.stop > ·.toNat) then
    .error (bad "bgp_import_range"
      "source range is empty, inverted or outside declared batch")
  else optionalHash s.sha256

def validate (l : Limits) : Result Unit := do
  l.validate
  [c.sourceId, c.sourceSchema, c.checkpointId, c.session].forM fun s => identity s l
  [c.sourceVersion, c.peer, c.localEnd, c.clock.clockId].forM fun s => optionalIdentity s l
  validateBatch c.batch l
  if c.metadataBytes > l.inputBytes then .error (Error.limit "bgp_import_context_bytes")
  else if satAdd c.metadataBytes (satMul c.provenance.length 96) > l.work then
    .error (Error.limit "bgp_import_context_work")
  else if c.direction.any (· > 1) then
    .error (bad "bgp_import_direction" "direction must be zero or one")
  else if c.clock.policy = .unknown ∧
      (c.clock.clockId ≠ none ∨ c.clock.reportedUncertaintyNs ≠ none) then
    .error (bad "bgp_import_clock" "unknown clock policy cannot assert a clock or accuracy")
  else if c.provenance.length > min l.spans l.elements then .error (Error.limit "bgp_import_spans")
  else if satAdd (satMul c.provenance.length 5) 32 > l.fields ∨
      satAdd (satMul c.provenance.length 96) 32 > l.work then
    .error (Error.limit "bgp_import_context_work")
  else
    c.provenance.forM c.checkRange
    let _ ← treeBudget c.json l
    let _ ← c.json.encodeBounded (min l.inputBytes l.outputBytes)
    return ()

def toJson (l : Limits) : Result Json := do
  c.validate l
  return c.json

def keys : List String :=
  ["schema", "source_id", "source_schema", "source_version", "clock", "batch", "checkpoint_id",
    "session", "generation", "direction", "peer", "local", "provenance", "wire_verified",
    "source_authenticated"]

def clockKeys : List String := ["policy", "clock_id", "reported_uncertainty_ns", "ordering_established"]

def policyFromText : String → Result ClockPolicy
  | "unknown" => .ok .unknown
  | "source_label" => .ok .sourceLabel
  | "ingestion_label" => .ok .ingestionLabel
  | _ => .error (bad "bgp_import_clock" "unknown clock policy code")

def rangeFromJson (s : Json) : Result SourceRange := do
  exactKeys s ["start", "end", "sha256"]
  let start ← number (← member s "start")
  let stop ← number (← member s "end")
  let sha256 ← optionalText (← member s "sha256")
  return ⟨start, stop, sha256⟩

def checkSchema (v : Json) : Result Unit := do
  let invalid := bad "bgp_import_schema" "invalid schema or authority claim"
  if (← text (← member v "schema")) ≠ contextSchema then .error invalid
  else if (← member v "wire_verified") ≠ .bool false then .error invalid
  else if (← member v "source_authenticated") ≠ .bool false then .error invalid
  else return ()

def checkClock (clock : Json) : Result Unit := do
  exactKeys clock clockKeys
  let ordering ← member clock "ordering_established"
  if ordering ≠ .bool false then
    .error (bad "bgp_import_clock" "clock does not establish ordering")
  else return ()

def checkSpans (v : Json) (l : Limits) : Result Unit := do
  let spans ← array (← member v "provenance")
  if spans.length > min l.spans l.elements then .error (Error.limit "bgp_import_spans") else return ()

def read (v clock : Json) (policy : ClockPolicy) : Result ImportContext := do
  let provenance ← (← array (← member v "provenance")).mapM rangeFromJson
  let sourceId ← text (← member v "source_id")
  let sourceSchema ← text (← member v "source_schema")
  let sourceVersion ← optionalText (← member v "source_version")
  let clockId ← optionalText (← member clock "clock_id")
  let uncertainty ← optionalU64 (← member clock "reported_uncertainty_ns")
  let batch ← batchFromJson (← member v "batch")
  let checkpointId ← text (← member v "checkpoint_id")
  let session ← text (← member v "session")
  let generation ← number (← member v "generation")
  let direction ← optionalDirection (← member v "direction")
  let peer ← optionalText (← member v "peer")
  let localEnd ← optionalText (← member v "local")
  return ⟨sourceId, sourceSchema, sourceVersion, ⟨policy, clockId, uncertainty⟩, batch,
    checkpointId, session, generation, direction, peer, localEnd, provenance⟩

def fromJson (v : Json) (l : Limits) : Result ImportContext := do
  l.validate
  let _ ← treeBudget v l
  let _ ← v.encodeBounded (min l.inputBytes l.outputBytes)
  exactKeys v keys
  checkSchema v
  let clock ← member v "clock"
  checkClock clock
  let policy ← policyFromText (← text (← member clock "policy"))
  checkSpans v l
  let context ← read v clock policy
  context.validate l
  return context

end ImportContext

namespace GenerationBoundary

def validate (b : GenerationBoundary) (context : ImportContext) (l : Limits) : Result Unit := do
  identity b.reason l
  if checkedAdd b.previousGeneration 1 ≠ some context.generation ∨ context.direction ≠ none then
    .error (bad "bgp_import_boundary"
      "reset requires the exact successor generation and no direction")
  else return ()

def read (v : Json) : Result GenerationBoundary := do
  exactKeys v ["previous_generation", "reason"]
  let previous ← number (← member v "previous_generation")
  let reason ← text (← member v "reason")
  return ⟨previous, reason⟩

def fromJson (v : Json) (context : ImportContext) (l : Limits) : Result GenerationBoundary := do
  let b ← read v
  b.validate context l
  return b

end GenerationBoundary

theorem map_bind {ε α β γ : Type} (r : Except ε α) (f : α → β) (g : β → Except ε γ) :
    (r.map f >>= g) = r >>= fun a => g (f a) := by
  cases r <;> rfl

@[simp] theorem exactKeys_canonical (v : Json) (keys : List String) :
    exactKeys v.canonical keys = exactKeys v keys := by
  cases v with
  | object fields =>
    have hperm := List.perm_insertionSort keyLe (canonicalFields fields)
    have hany : (sortByKey (canonicalFields fields)).any (·.1 ∉ keys) =
        fields.toList.any (·.1 ∉ keys) := by
      rw [sortByKey, hperm.any_eq, canonicalFields_eq, List.any_map]
      rfl
    have hlength : (sortByKey (canonicalFields fields)).length = fields.toList.length := by
      rw [sortByKey, hperm.length_eq, canonicalFields_eq, List.length_map]
    simp only [canonical, objectOf, exactKeys, toList_fieldsOf, hany, hlength]
  | null | bool b | number n | string s | array items => rfl

@[simp] theorem optionalU64_canonical (v : Json) : optionalU64 v.canonical = optionalU64 v := by
  simp only [optionalU64, canonical_eq_null, number_canonical]

@[simp] theorem batchFromJson_canonical (v : Json) :
    batchFromJson v.canonical = batchFromJson v := by
  simp only [batchFromJson, exactKeys_canonical, member_canonical, map_bind, optionalText_canonical,
    optionalU64_canonical]

@[simp] theorem rangeFromJson_canonical (v : Json) :
    ImportContext.rangeFromJson v.canonical = ImportContext.rangeFromJson v := by
  simp only [ImportContext.rangeFromJson, exactKeys_canonical, member_canonical, map_bind,
    optionalText_canonical, number_canonical]

theorem read_canonical (v clock : Json) (policy : ClockPolicy) :
    ImportContext.read v.canonical clock.canonical policy = ImportContext.read v clock policy := by
  simp only [ImportContext.read, member_canonical, map_bind, array_canonical, List.mapM_map,
    Function.comp_def, rangeFromJson_canonical, text_canonical, optionalText_canonical,
    optionalU64_canonical, batchFromJson_canonical, number_canonical, optionalDirection_canonical]

theorem fromJson_read {v : Json} {l : Limits} {c : ImportContext}
    (h : ImportContext.fromJson v l = .ok c) : ∃ clock policy, member v "clock" = .ok clock ∧
      (member clock "policy" >>= text >>= ImportContext.policyFromText) = .ok policy ∧
      ImportContext.read v clock policy = .ok c := by
  unfold ImportContext.fromJson at h
  obtain ⟨_, _, h⟩ := bind_eq_ok.1 h
  obtain ⟨_, _, h⟩ := bind_eq_ok.1 h
  obtain ⟨_, _, h⟩ := bind_eq_ok.1 h
  obtain ⟨_, _, h⟩ := bind_eq_ok.1 h
  obtain ⟨_, _, h⟩ := bind_eq_ok.1 h
  obtain ⟨clock, hclock, h⟩ := bind_eq_ok.1 h
  obtain ⟨_, _, h⟩ := bind_eq_ok.1 h
  obtain ⟨code, hcode, h⟩ := bind_eq_ok.1 h
  obtain ⟨label, hlabel, h⟩ := bind_eq_ok.1 h
  obtain ⟨policy, hpolicy, h⟩ := bind_eq_ok.1 h
  obtain ⟨_, _, h⟩ := bind_eq_ok.1 h
  obtain ⟨context, hread, h⟩ := bind_eq_ok.1 h
  obtain ⟨_, _, h⟩ := bind_eq_ok.1 h
  cases h
  refine ⟨clock, policy, hclock, ?_, hread⟩
  rw [hcode]
  simp only [bind, Except.bind, hlabel, hpolicy]

theorem fromJson_canonical_inj {v w : Json} {l l' : Limits} {c c' : ImportContext}
    (hv : ImportContext.fromJson v l = .ok c) (hw : ImportContext.fromJson w l' = .ok c')
    (h : v.canonical = w.canonical) : c = c' := by
  obtain ⟨clock, policy, hclock, hpolicy, hread⟩ := fromJson_read hv
  obtain ⟨clock', policy', hclock', hpolicy', hread'⟩ := fromJson_read hw
  have hclocks : clock.canonical = clock'.canonical := by
    have hmember := member_canonical v "clock"
    rw [h, member_canonical, hclock, hclock'] at hmember
    exact (Except.ok.inj hmember).symm
  have hpolicies : policy = policy' := by
    have hread : ∀ c : Json, (member c "policy" >>= text >>= ImportContext.policyFromText) =
        (member c.canonical "policy" >>= text >>= ImportContext.policyFromText) := by
      intro c
      rw [member_canonical, map_bind]
      simp only [text_canonical]
    rw [hread, hclocks, ← hread, hpolicy'] at hpolicy
    exact (Except.ok.inj hpolicy).symm
  rw [← read_canonical, h, hclocks, hpolicies, read_canonical, hread'] at hread
  exact (Except.ok.inj hread).symm

@[simp] theorem readBoundary_canonical (v : Json) :
    GenerationBoundary.read v.canonical = GenerationBoundary.read v := by
  simp only [GenerationBoundary.read, exactKeys_canonical, member_canonical, map_bind,
    number_canonical, text_canonical]

theorem boundary_read {v : Json} {l : Limits} {c : ImportContext} {b : GenerationBoundary}
    (h : GenerationBoundary.fromJson v c l = .ok b) : GenerationBoundary.read v = .ok b := by
  obtain ⟨b', hread, h⟩ := bind_eq_ok.1 h
  obtain ⟨_, _, h⟩ := bind_eq_ok.1 h
  cases h
  exact hread

end Import
end PcapEvidence.Bgp
