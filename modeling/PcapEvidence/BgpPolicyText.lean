import PcapEvidence.BgpPolicy
import PcapEvidence.BgpObservation
import PcapEvidence.JsonSize

/-!
# The documents of a policy decision

The configuration and the candidates have canonical texts that are fingerprinted. The result is one
document: as a tree, and written member by member into a buffer, or only counted when there is none.
-/

namespace PcapEvidence.Bgp.Policy

open Json
open State (Net)

def RESULT_SCHEMA : String := "pcap-evidence.bgp.policy-result.v1"

def STORE_BINDING_UNAVAILABLE : String := "not_provided_by_policy_api"

def medRuleName : MedRule → String
  | .sameNeighborAs => "same_neighbor_as"
  | .compareAll => "compare_all"
  | .skip => "skip"

def ageRuleName : AgeRule → String
  | .sameClock => "same_clock"
  | .skip => "skip"

def partitionKindName : PartitionKind → String
  | .captured => "captured"
  | .imported => "imported"

def routeStatusName : RouteStatus → String
  | .active => "active"
  | .stale .graceful => "stale_graceful"
  | .stale .longLivedGraceful => "stale_long_lived_graceful"
  | .staleAtEor => "stale_at_eor"
  | .withdrawn => "withdrawn"
  | .superseded => "superseded"
  | .unresolved => "unresolved"
  | .rejected => "rejected"

def stepResultName : StepResult → String
  | .left => "left"
  | .right => "right"
  | .equal => "equal"
  | .skipped => "skipped"
  | .unresolved => "unresolved"

section Identity

def fromNat (n : ℕ) : Json := .number (BitVec.ofNat 64 n)

def option {α : Type} (f : α → Json) (value : Option α) : Json := value.elim .null f

def optionU32 (value : Option U32) : Json := option (fun n => fromNat n.toNat) value

def configIdentityJson (config : PolicyConfig) : Json :=
  objectOf [("age_rule", option .string (config.ageRule.map ageRuleName)),
    ("comparison_context", .string config.comparisonContext),
    ("criteria_order", arrayOf (ORDER.map .string)),
    ("med_rule", option .string (config.medRule.map medRuleName)),
    ("missing_local_preference", optionU32 config.missingLocalPreference),
    ("provenance", .string config.provenance),
    ("schema", .string "pcap-evidence.bgp.best-path-policy.v1")]

def scopeJson (scope : RibScope) : Json :=
  objectOf [("direction", option (fun n => fromNat n.toNat) scope.direction),
    ("generation", fromNat scope.generation),
    ("partition_id", .string scope.source.partitionId),
    ("partition_kind", .string (partitionKindName scope.source.kind)),
    ("peer", option .string scope.peer),
    ("session", .string scope.session),
    ("source_id", .string scope.source.sourceId)]

def kindJson (kind : String) (value : Json) : Json :=
  objectOf [("kind", .string kind), ("value", value)]

def pathIdJson : PathId → Json
  | .absent => kindJson "absent" .null
  | .present value => kindJson "present" (fromNat value.toNat)
  | .unknown => kindJson "unknown" .null

def medJson : MedEvidence → Json
  | .absent => kindJson "absent" .null
  | .present value => kindJson "present" (fromNat value.toNat)

def octetsOf {w : ℕ} (bits : BitVec w) : List U8 :=
  (List.range (w / 8)).map fun i => bits.extractLsb' (w - 8 * (i + 1)) 8

variable (net : Net)

def showAddress : IpAddr → String
  | .v4 bits => net.showIpv4 (octetsOf bits)
  | .v6 bits => net.showIpv6 (octetsOf bits)

def inputsJson (inputs : BestPathInputs) : Json :=
  objectOf [("age", option (fun age => objectOf [("clock_id", .string age.clockId),
      ("observed_order", fromNat age.observedOrder)]) inputs.age),
    ("as_path_length", optionU32 inputs.asPathLength),
    ("ebgp", option .bool inputs.ebgp),
    ("igp_metric", optionU32 inputs.igpMetric),
    ("local_preference", optionU32 inputs.localPreference),
    ("locally_originated", option .bool inputs.locallyOriginated),
    ("med", option medJson inputs.med),
    ("neighbor_address", option (fun a => .string (showAddress net a)) inputs.neighborAddress),
    ("neighboring_as", optionU32 inputs.neighboringAs),
    ("origin", option (fun n => fromNat n.toNat) inputs.origin),
    ("router_id", option (fun bits => .string (net.showIpv4 (octetsOf bits))) inputs.routerId)]

def prefixJson (p : PrefixIdentity) : Json :=
  objectOf [("address", .string p.address), ("afi", fromNat p.afi.toNat),
    ("length", fromNat p.length.toNat), ("safi", fromNat p.safi.toNat)]

def candidateIdentityJson (candidate : PolicyCandidate) : Json :=
  objectOf [("comparison_context", .string candidate.comparisonContext),
    ("family_afi", fromNat candidate.key.family.afi.toNat),
    ("family_safi", fromNat candidate.key.family.safi.toNat),
    ("id", .string candidate.id),
    ("inputs", inputsJson net candidate.inputs),
    ("path_id", pathIdJson candidate.key.pathId),
    ("prefix", prefixJson candidate.key.route),
    ("schema", .string "pcap-evidence.bgp.policy-candidate-identity.v1"),
    ("scope", scopeJson candidate.key.scope),
    ("status", .string (routeStatusName candidate.status))]

end Identity

def stepJson (step : TraceStep) : Json :=
  objectOf [("criterion", .string step.criterion), ("left", option .string step.left),
    ("reason", .string step.reason), ("result", .string (stepResultName step.result)),
    ("right", option .string step.right)]

def comparisonJson (comparison : Comparison) : Json :=
  objectOf [("left_id", .string comparison.leftId),
    ("result", .string (stepResultName comparison.result)),
    ("right_id", .string comparison.rightId),
    ("steps", arrayOf (comparison.steps.map stepJson))]

structure PolicyResult where
  selected : Option String
  unresolved : List String
  excluded : List (String × RouteStatus)
  comparisons : List Comparison
  configProvenance : String
  configFingerprintSha256 : String
  candidateSetFingerprintSha256 : String
  endpointRibEstablished : Bool
  propagatedRouteEstablished : Bool
  deriving DecidableEq

def excludedJson (e : String × RouteStatus) : Json :=
  objectOf [("id", .string e.1), ("status", .string (routeStatusName e.2))]

namespace PolicyResult

def members (r : PolicyResult) : List (String × Json) :=
  [("candidate_set_fingerprint_sha256", .string r.candidateSetFingerprintSha256),
    ("candidate_store_binding", .string STORE_BINDING_UNAVAILABLE),
    ("comparisons", arrayOf (r.comparisons.map comparisonJson)),
    ("config_fingerprint_sha256", .string r.configFingerprintSha256),
    ("config_provenance", .string r.configProvenance),
    ("endpoint_rib_established", .bool r.endpointRibEstablished),
    ("excluded", arrayOf (r.excluded.map excludedJson)),
    ("identity_scope", .string "canonical_policy_inputs_only"),
    ("propagated_route_established", .bool r.propagatedRouteEstablished),
    ("schema", .string RESULT_SCHEMA),
    ("selected", option .string r.selected),
    ("unresolved", arrayOf (r.unresolved.map .string))]

def toJson (r : PolicyResult) : Json := objectOf r.members

end PolicyResult

def outputBytes : Error := Error.limit "bgp_policy_output_bytes"

structure Writer where
  output : Option String
  used : ℕ
  first : Bool

def checked (n : Option ℕ) (e : Error) : Result ℕ := n.elim (.error e) .ok

def checkedSub (a b : ℕ) : Option ℕ := if b ≤ a then some (a - b) else none

/-- `Json::append_bounded`: the limit covers what the buffer already holds. -/
def appendBounded (j : Json) (out : String) (limit : ℕ) : Result String := do
  let remaining ← checked (checkedSub limit out.utf8ByteSize) (Error.limit "report_bytes")
  let _ ← j.encodedLenBounded remaining
  return out ++ j.encode

def appendOutput (value : Json) (limit : ℕ) : Option String → Result (Option String)
  | none => .ok none
  | some out => match appendBounded value out limit with
    | .ok out => .ok (some out)
    | .error _ => .error outputBytes

def appendJson (limit : ℕ) (w : Writer) (value : Json) : Result Writer := do
  let remaining ← checked (checkedSub limit w.used) outputBytes
  let size ← checked (value.encodedLenBounded remaining).toOption outputBytes
  let output ← appendOutput value limit w.output
  let used ← checked (checkedAdd w.used size) outputBytes
  return { w with output := output, used := used }

def appendRaw (limit : ℕ) (w : Writer) (value : String) : Result Writer := do
  let next ← checked (checkedAdd w.used value.utf8ByteSize) outputBytes
  if next > limit then .error outputBytes
  else return { w with output := w.output.map (· ++ value), used := next }

def writeComma (limit : ℕ) (first : Bool) (w : Writer) : Result Writer :=
  if first then .ok w else appendRaw limit w ","

def writeKey (limit : ℕ) (w : Writer) (key : String) : Result Writer := do
  let w ← writeComma limit w.first w
  appendJson limit { w with first := false } (.string key)

def writeMember (limit : ℕ) (w : Writer) (key : String) (value : Json) : Result Writer := do
  let w ← writeKey limit w key
  let w ← appendRaw limit w ":"
  appendJson limit w value

def writeItems (limit : ℕ) : List Json → Bool → Writer → Result Writer
  | [], _, w => .ok w
  | value :: rest, first, w => do
    let w ← writeComma limit first w
    let w ← appendJson limit w value
    writeItems limit rest false w

def writeMemberArray (limit : ℕ) (w : Writer) (key : String) (items : List Json) : Result Writer := do
  let w ← writeKey limit w key
  let w ← appendRaw limit w ":"
  let w ← appendRaw limit w "["
  let w ← writeItems limit items true w
  appendRaw limit w "]"

def renderCanonical (r : PolicyResult) (limit : ℕ) (output : Option String) :
    Result (ℕ × Option String) := do
  let w ← appendRaw limit ⟨output, 0, true⟩ "\x7b"
  let w ← writeMember limit w "candidate_set_fingerprint_sha256"
    (.string r.candidateSetFingerprintSha256)
  let w ← writeMember limit w "candidate_store_binding" (.string STORE_BINDING_UNAVAILABLE)
  let w ← writeMemberArray limit w "comparisons" (r.comparisons.map comparisonJson)
  let w ← writeMember limit w "config_fingerprint_sha256" (.string r.configFingerprintSha256)
  let w ← writeMember limit w "config_provenance" (.string r.configProvenance)
  let w ← writeMember limit w "endpoint_rib_established" (.bool r.endpointRibEstablished)
  let w ← writeMemberArray limit w "excluded" (r.excluded.map excludedJson)
  let w ← writeMember limit w "identity_scope" (.string "canonical_policy_inputs_only")
  let w ← writeMember limit w "propagated_route_established" (.bool r.propagatedRouteEstablished)
  let w ← writeMember limit w "schema" (.string RESULT_SCHEMA)
  let w ← writeMember limit w "selected" (option .string r.selected)
  let w ← writeMemberArray limit w "unresolved" (r.unresolved.map .string)
  let w ← appendRaw limit w "\x7d"
  return (w.used, w.output)

namespace PolicyResult

def encodedLen (r : PolicyResult) (limit : ℕ) : Result ℕ := do
  let (used, _) ← renderCanonical r limit none
  return used

def encodeCanonical (r : PolicyResult) (limits : Limits) : Result String := do
  limits.validate
  let limit := min limits.outputBytes limits.retainedBytes
  let _ ← r.encodedLen limit
  let (_, output) ← renderCanonical r limit (some "")
  return output.getD ""

end PolicyResult

end PcapEvidence.Bgp.Policy
