import PcapEvidence.BgpPolicyText
import PcapEvidence.OrderedMap

/-!
# Evaluation of the best path

The candidates are ordered by their identifiers, checked and fingerprinted. Every pair of active
ones is compared, and a candidate is selected when it wins against all others and nothing is
unresolved.
-/

namespace PcapEvidence.Bgp.Policy

open Json OrderedMap History
open State (Net hostBits)

structure Sizes where
  comparison : ℕ
  traceStep : ℕ
  string : ℕ

section Checks

/-- `str::trim` leaves nothing, or the text is too long or has control characters. -/
def textFails (value : String) (limits : Limits) : Prop :=
  value.toList.all Session.isWhitespace ∨ value.utf8ByteSize > min limits.inputBytes 1024 ∨
    value.toList.any isControl

instance (value : String) (limits : Limits) : Decidable (textFails value limits) :=
  inferInstanceAs (Decidable (_ ∨ _ ∨ _))

def checkText (value : String) (limits : Limits) : Result Unit :=
  if textFails value limits then
    .error (bad "bgp_policy_identity" "nonempty bounded identity required")
  else .ok ()

/-- `bgp_rib::validate_text`. -/
def validateText (value : String) (limits : Limits) : Result Unit :=
  if textFails value limits then
    .error (bad "bgp_rib_identity" "nonempty bounded identity required")
  else .ok ()

def validateFamily (family : Family) : Result Unit :=
  if family.afi = 0 ∨ family.safi = 0 then
    .error (bad "bgp_rib_family" "nonzero AFI and SAFI required")
  else .ok ()

def validateAddress (name : String) (parsed : Option (List U8)) (shown : List U8 → String)
    (p : PrefixIdentity) : Result Unit :=
  match parsed with
  | none => .error (bad "bgp_rib_prefix" ("invalid " ++ name ++ " address"))
  | some address =>
    if shown address ≠ p.address then
      .error (bad "bgp_rib_prefix" ("noncanonical " ++ name ++ " text"))
    else if (hostBits address p.length.toNat).any id then
      .error (bad "bgp_rib_prefix" ("noncanonical " ++ name ++ " network"))
    else .ok ()

variable (net : Net)

def validatePrefix (p : PrefixIdentity) (limits : Limits) : Result Unit := do
  validateText p.address limits
  let maximum := if p.afi = 1 then 32 else if p.afi = 2 then 128 else 255
  if p.length.toNat > maximum ∨ p.safi = 0 then
    .error (bad "bgp_rib_prefix" "invalid family or prefix length")
  else if p.afi = 1 then validateAddress "IPv4" (net.parseIpv4 p.address) net.showIpv4 p
  else if p.afi = 2 then validateAddress "IPv6" (net.parseIpv6 p.address) net.showIpv6 p
  else return ()

def supported (p : PrefixIdentity) : Prop := (p.afi = 1 ∨ p.afi = 2) ∧ (p.safi = 1 ∨ p.safi = 2)

instance (p : PrefixIdentity) : Decidable (supported p) := inferInstanceAs (Decidable (_ ∧ _))

def checkOptional (check : String → Result Unit) : Option String → Result Unit
  | none => .ok ()
  | some value => check value

def validateRouteKey (key : RouteKey) (limits : Limits) (active : Bool) : Result Unit := do
  validateText key.scope.source.sourceId limits
  validateText key.scope.source.partitionId limits
  validateText key.scope.session limits
  if key.scope.direction.any (· > 1) then
    .error (bad "bgp_rib_direction" "direction must be zero or one")
  else do
    checkOptional (validateText · limits) key.scope.peer
    validateFamily key.family
    validatePrefix net key.route limits
    if key.family.afi ≠ key.route.afi ∨ key.family.safi ≠ key.route.safi then
      .error (bad "bgp_rib_family" "route family and prefix disagree")
    else if active ∧ (key.scope.direction = none ∨ key.pathId = .unknown ∨ ¬ supported key.route) then
      .error (bad "bgp_rib_active" "active candidate lacks proven route scope")
    else return ()

def checkCandidate (limits : Limits) (c : PolicyCandidate) : Result Unit := do
  checkText c.id limits
  checkText c.comparisonContext limits
  [c.key.scope.source.sourceId, c.key.scope.source.partitionId, c.key.scope.session,
    c.key.route.address].forM (checkText · limits)
  checkOptional (checkText · limits) c.key.scope.peer
  checkOptional (checkText · limits) (c.inputs.age.map (·.clockId))
  validateRouteKey net c.key limits (c.status = .active)

def order (limits : Limits) : List PolicyCandidate → OrdMap String PolicyCandidate →
    Result (OrdMap String PolicyCandidate)
  | [], ordered => .ok ordered
  | c :: rest, ordered => do
    checkCandidate net limits c
    if (ordered.get? c.id).isSome then .error (bad "bgp_policy_identity" "duplicate candidate id")
    else order limits rest (ordered.insert c.id c)

end Checks

section Fingerprints

variable (sha256 : List U8 → Digest)

def identityBudget : Error := Error.limit "bgp_policy_identity_budget"

def hexDigest (bytes : List U8) : String := hex (sha256 bytes).toList

def fingerprintConfig (config : PolicyConfig) (limit : ℕ) : Result (String × ℕ) := do
  let size ← (configIdentityJson config).encodedLenBounded limit
  return (hexDigest sha256 (Encoder.utf8 (configIdentityJson config).encode), size)

variable (net : Net)

def candidateDomain : List U8 :=
  Encoder.utf8 "pcap-evidence.bgp.policy-candidate-set.v1" ++ [0]

def fingerprintFrom (limit : ℕ) : List PolicyCandidate → List U8 → ℕ → Result (List U8 × ℕ)
  | [], bytes, used => .ok (bytes, used)
  | c :: rest, bytes, used => do
    let remaining ← checked (checkedSub limit used) identityBudget
    let jsonLimit ← checked (checkedSub remaining 8) identityBudget
    let size ← (candidateIdentityJson net c).encodedLenBounded jsonLimit
    let next ← checked (checkedAdd used 8 >>= fun n => checkedAdd n size) identityBudget
    fingerprintFrom limit rest (bytes ++ (ByteCodec.leBytes 8 size).reverse ++
      Encoder.utf8 (candidateIdentityJson net c).encode) next

def fingerprintCandidates (candidates : List PolicyCandidate) (limit : ℕ) : Result (String × ℕ) := do
  let (bytes, used) ← fingerprintFrom net limit candidates candidateDomain 0
  return (hexDigest sha256 bytes, used)

/-- Both fingerprints with the octets they were made from. -/
structure IdentityWitness where
  config : String
  candidates : String
  bytes : ℕ

def identify (config : PolicyConfig) (ordered : List PolicyCandidate) (limits : Limits) :
    Result IdentityWitness := do
  let limit := min (min limits.inputBytes limits.retainedBytes) limits.work
  let (configText, configBytes) ← fingerprintConfig sha256 config limit
  let candidateLimit ← checked (checkedSub limit configBytes) identityBudget
  let (candidatesText, candidateBytes) ←
    fingerprintCandidates sha256 net ordered candidateLimit
  let bytes ← checked (checkedAdd configBytes candidateBytes) identityBudget
  if bytes > limits.retainedBytes ∨ bytes > limits.work then .error identityBudget
  else return ⟨configText, candidatesText, bytes⟩

end Fingerprints

section Budget

def traceBudget : Error := Error.limit "bgp_policy_trace_budget"

def checkedMul (a b : ℕ) : Option ℕ := if a * b < wordBound then some (a * b) else none

def pairCount (count : ℕ) : Option ℕ := (checkedMul count (count - 1)).map (· / 2)

def idBytes (active : List PolicyCandidate) : Option ℕ :=
  active.foldlM (fun sum c => checkedAdd sum c.id.utf8ByteSize) 0

variable (sizes : Sizes)

def perPairRetained : Option ℕ := do
  let fixed ← checkedAdd sizes.comparison (sizes.string + 64)
  let perStep ← checkedAdd sizes.traceStep (2 * 39)
  let steps ← checkedMul perStep ORDER.length
  checkedAdd fixed steps

structure TraceBudget where
  bytes : ℕ
  work : ℕ

def budgetOf (active : List PolicyCandidate) (identityBytes : ℕ) : Option TraceBudget := do
  let pairs ← pairCount active.length
  let ids ← idBytes active
  let perPair ← checkedMul ids (active.length - 1)
  let fixed ← perPairRetained sizes
  let bytes ← (do checkedAdd (← checkedMul pairs fixed) (← checkedMul perPair 2))
  let once ← (do
    let steps ← checkedMul (← checkedMul pairs ORDER.length) 64
    checkedAdd steps (← checkedMul perPair 2))
  let work ← checkedMul once 2
  let preflight ← checkedAdd identityBytes work
  return ⟨bytes, preflight⟩

def admitTrace (active : List PolicyCandidate) (identityBytes : ℕ) (limits : Limits) :
    Result TraceBudget :=
  match budgetOf sizes active identityBytes with
  | none => .error traceBudget
  | some budget =>
    if budget.work > limits.work ∨ budget.bytes > limits.retainedBytes then .error traceBudget
    else .ok budget

end Budget

def pairsOf {α : Type} : List α → List (α × α)
  | [] => []
  | left :: rest => rest.map (fun right => (left, right)) ++ pairsOf rest

def scopeDiffers (config : PolicyConfig) (first c : PolicyCandidate) : Bool :=
  c.comparisonContext ≠ config.comparisonContext || c.key.scope.source ≠ first.key.scope.source ||
    c.key.scope.direction ≠ first.key.scope.direction || c.key.route ≠ first.key.route ||
    c.key.family ≠ first.key.family

def scopeNotes (config : PolicyConfig) (active : List PolicyCandidate) : List String :=
  match active with
  | [] => []
  | first :: _ => (active.filter (scopeDiffers config first)).map fun c =>
    c.id ++ ":comparison_scope_unproven"

structure PairScan where
  bytes : ℕ
  compared : ℕ
  wins : OrdMap String ℕ
  unresolved : List String

def win (wins : OrdMap String ℕ) (id : String) : OrdMap String ℕ :=
  wins.insert id ((wins.get? id).getD 0 + 1)

def incomparable (comparison : Comparison) : String :=
  comparison.leftId ++ ":" ++ comparison.rightId ++ ":incomparable_at_" ++
    ((comparison.steps.find? (·.result = .unresolved)).map (·.criterion)).getD "all_criteria_equal"

def PairScan.note (s : PairScan) (comparison : Comparison) : PairScan :=
  match comparison.result with
  | .left => { s with wins := win s.wins comparison.leftId }
  | .right => { s with wins := win s.wins comparison.rightId }
  | _ => { s with unresolved := s.unresolved ++ [incomparable comparison] }

def comparePair (config : PolicyConfig) (outputLimit : ℕ) (s : PairScan)
    (p : PolicyCandidate × PolicyCandidate) : Result PairScan := do
  let comparison := compare p.1 p.2 config
  let separated ← checked (if s.compared ≠ 0 then checkedAdd s.bytes 1 else some s.bytes) outputBytes
  let remaining ← checked (checkedSub outputLimit separated) outputBytes
  let size ← checked ((comparisonJson comparison).encodedLenBounded remaining).toOption outputBytes
  let bytes ← checked (checkedAdd separated size) outputBytes
  return { s with bytes := bytes, compared := s.compared + 1 }.note comparison

def dominators (active : List PolicyCandidate) (wins : OrdMap String ℕ) : List PolicyCandidate :=
  active.filter fun c => (wins.get? c.id).getD 0 = active.length - 1

def decideWinner (active : List PolicyCandidate) (s : PairScan) : Option String × List String :=
  if s.unresolved = [] then
    match dominators active s.wins with
    | [c] => (some c.id, [])
    | _ => (none, ["no_unique_pairwise_winner"])
  else (none, s.unresolved)

section Evaluate

variable (net : Net) (sha256 : List U8 → Digest) (sizes : Sizes)

/-- The decision before its trace is kept, with the budgets that are left to admit. -/
structure Preflight where
  result : PolicyResult
  active : List PolicyCandidate
  contentBytes : ℕ
  identityBytes : ℕ
  budget : TraceBudget

def activeOf (ordered : List PolicyCandidate) : List PolicyCandidate :=
  ordered.filter (·.status = .active)

def scanPairs (config : PolicyConfig) (limits : Limits) (active : List PolicyCandidate) :
    Result PairScan :=
  let noActive := if active = [] then ["no_active_candidates"] else []
  (pairsOf active).foldlM (comparePair config (min limits.outputBytes limits.retainedBytes))
    ⟨0, 0, .empty, noActive ++ scopeNotes config active⟩

def assemble (config : PolicyConfig) (ordered : List PolicyCandidate) (identity : IdentityWitness)
    (budget : TraceBudget) (scan : PairScan) : Preflight where
  result :=
    { selected := (decideWinner (activeOf ordered) scan).1
      unresolved := (decideWinner (activeOf ordered) scan).2
      excluded := (ordered.filter (·.status ≠ .active)).map fun c => (c.id, c.status)
      comparisons := []
      configProvenance := config.provenance
      configFingerprintSha256 := identity.config
      candidateSetFingerprintSha256 := identity.candidates
      endpointRibEstablished := false
      propagatedRouteEstablished := false }
  active := activeOf ordered
  contentBytes := scan.bytes
  identityBytes := identity.bytes
  budget := budget

def preflight (config : PolicyConfig) (candidates : List PolicyCandidate) (limits : Limits) :
    Result Preflight := do
  limits.validate
  checkText config.provenance limits
  checkText config.comparisonContext limits
  if candidates.length > limits.elements then .error (Error.limit "bgp_policy_candidates")
  else do
    let ordered ← order net limits candidates .empty
    let identity ← identify sha256 net config ordered.values limits
    let budget ← admitTrace sizes (activeOf ordered.values) identity.bytes limits
    let scan ← scanPairs config limits (activeOf ordered.values)
    return assemble config ordered.values identity budget scan

def admitSize (limits : Limits) (p : Preflight) : Result ℕ := do
  let limit := min limits.outputBytes limits.retainedBytes
  let empty ← p.result.encodedLen limit
  let size ← checked (checkedSub empty 2 >>= fun n => checkedAdd n 2 >>= fun n =>
    checkedAdd n p.contentBytes) outputBytes
  if size > limit then .error outputBytes
  else do
    let work ← checked (checkedAdd p.budget.work size) (Error.limit "bgp_policy_budget")
    let retained ← checked (checkedAdd p.budget.bytes p.identityBytes >>= fun n => checkedAdd n size)
      (Error.limit "bgp_policy_budget")
    if work > limits.work ∨ retained > limits.retainedBytes then
      .error (Error.limit "bgp_policy_budget")
    else return size

def evaluate (config : PolicyConfig) (candidates : List PolicyCandidate) (limits : Limits) :
    Result PolicyResult := do
  let p ← preflight net sha256 sizes config candidates limits
  let _ ← admitSize limits p
  return { p.result with
    comparisons := (pairsOf p.active).map fun pair => compare pair.1 pair.2 config }

end Evaluate

end PcapEvidence.Bgp.Policy
