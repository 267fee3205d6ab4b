import PcapEvidence.BgpRib

/-!
# Comparison of route candidates under a policy

Two candidates are compared by ten criteria in a fixed order. Every criterion leaves a step in the
trace; the first one that decides, or cannot be resolved, makes the steps behind it skipped.
-/

namespace PcapEvidence.Bgp.Policy

def ORDER : List String :=
  ["local_preference", "locally_originated", "as_path_length", "origin", "med", "ebgp_over_ibgp",
    "igp_metric", "age", "router_id", "neighbor_address"]

inductive MedRule where
  | sameNeighborAs | compareAll | skip
  deriving DecidableEq

inductive AgeRule where
  | sameClock | skip
  deriving DecidableEq

structure PolicyConfig where
  provenance : String
  comparisonContext : String
  missingLocalPreference : Option U32
  medRule : Option MedRule
  ageRule : Option AgeRule

structure AgeEvidence where
  clockId : String
  observedOrder : ℕ
  deriving DecidableEq

inductive MedEvidence where
  | absent
  | present (value : U32)
  deriving DecidableEq

def MedEvidence.value : MedEvidence → U32
  | absent => 0
  | present value => value

inductive IpAddr where
  | v4 (bits : U32)
  | v6 (bits : BitVec 128)
  deriving DecidableEq

def ipNumber : IpAddr → ℕ
  | .v4 bits => bits.toNat
  | .v6 bits => bits.toNat

def ipFamily : IpAddr → ℕ
  | .v4 _ => 4
  | .v6 _ => 6

structure BestPathInputs where
  localPreference : Option U32
  locallyOriginated : Option Bool
  asPathLength : Option U32
  origin : Option U8
  med : Option MedEvidence
  neighboringAs : Option U32
  ebgp : Option Bool
  igpMetric : Option U32
  age : Option AgeEvidence
  routerId : Option U32
  neighborAddress : Option IpAddr
  deriving DecidableEq

structure PolicyCandidate where
  id : String
  key : RouteKey
  comparisonContext : String
  status : RouteStatus
  inputs : BestPathInputs
  deriving DecidableEq

inductive StepResult where
  | left | right | equal | skipped | unresolved
  deriving DecidableEq

structure TraceStep where
  criterion : String
  left : Option String
  right : Option String
  result : StepResult
  reason : String
  deriving DecidableEq

structure Comparison where
  leftId : String
  rightId : String
  steps : List TraceStep
  result : StepResult
  deriving DecidableEq

def compareNumber (left right : Option ℕ) (higher : Bool) : StepResult :=
  match left, right with
  | some a, some b =>
    if a = b then .equal else if decide (a > b) = higher then .left else .right
  | _, _ => .unresolved

def compareTie (left right : Option ℕ) : StepResult :=
  match left, right with
  | some x, some y => if x < y then .left else if x > y then .right else .equal
  | _, _ => .unresolved

structure Values where
  left : Option ℕ
  right : Option ℕ
  higher : Bool
  reason : String

def ofBool (b : Bool) : ℕ := if b then 1 else 0

def values (config : PolicyConfig) (a b : BestPathInputs) : List Values :=
  [⟨(a.localPreference.or config.missingLocalPreference).map BitVec.toNat,
      (b.localPreference.or config.missingLocalPreference).map BitVec.toNat, true,
      "configured_local_preference"⟩,
    ⟨a.locallyOriginated.map ofBool, b.locallyOriginated.map ofBool, true, "explicit_local_origin"⟩,
    ⟨a.asPathLength.map BitVec.toNat, b.asPathLength.map BitVec.toNat, false, "as_path_length"⟩,
    ⟨a.origin.map BitVec.toNat, b.origin.map BitVec.toNat, false, "origin_type"⟩,
    ⟨a.med.map (·.value.toNat), b.med.map (·.value.toNat), false, "med_scope"⟩,
    ⟨a.ebgp.map ofBool, b.ebgp.map ofBool, true, "explicit_peer_class"⟩,
    ⟨a.igpMetric.map BitVec.toNat, b.igpMetric.map BitVec.toNat, false, "igp_metric"⟩,
    ⟨none, none, false, "same_clock_age"⟩]

/-- The result of a criterion that is reached, with the reason where it replaces the usual one. -/
def judge (config : PolicyConfig) (a b : BestPathInputs) (index : ℕ) (v : Values) :
    StepResult × Option String :=
  if (index = 4 ∧ config.medRule = some .skip) ∨ (index = 7 ∧ config.ageRule = some .skip) then
    (.skipped, none)
  else if index = 3 ∧ (a.origin.any (· > 2) ∨ b.origin.any (· > 2)) then
    (.unresolved, some "origin_missing_or_invalid")
  else if index = 4 ∧ config.medRule = none then
    (.unresolved, some "med_policy_configuration_missing")
  else if index = 4 ∧ config.medRule = some .sameNeighborAs then
    if a.neighboringAs = none ∨ b.neighboringAs = none then (.unresolved, some "neighbor_as_missing")
    else if a.neighboringAs ≠ b.neighboringAs then (.skipped, some "different_neighbor_as")
    else (compareNumber v.left v.right v.higher, none)
  else if index = 7 ∧ config.ageRule = none then
    (.unresolved, some "age_policy_configuration_missing")
  else if index = 7 ∧ config.ageRule = some .sameClock ∧
      a.age.map (·.clockId) ≠ b.age.map (·.clockId) then
    (.unresolved, some "age_clocks_incomparable")
  else if index = 7 then
    (compareTie (a.age.map (·.observedOrder)) (b.age.map (·.observedOrder)), none)
  else (compareNumber v.left v.right v.higher, none)

def text (n : Option ℕ) : Option String := n.map Nat.repr

def stepAt (config : PolicyConfig) (a b : BestPathInputs) (index : ℕ) (v : Values)
    (decided : StepResult) : TraceStep :=
  let judged := if decided ≠ .equal then (.skipped, none) else judge config a b index v
  { criterion := ORDER.getD index ""
    left := if index = 7 then text (a.age.map (·.observedOrder)) else text v.left
    right := if index = 7 then text (b.age.map (·.observedOrder)) else text v.right
    result := judged.1
    reason := judged.2.getD v.reason }

def tieValues (a b : BestPathInputs) : List (Option ℕ × Option ℕ) :=
  [(a.routerId.map BitVec.toNat, b.routerId.map BitVec.toNat),
    (a.neighborAddress.map ipNumber, b.neighborAddress.map ipNumber)]

def judgeTie (a b : BestPathInputs) (index : ℕ) (v : Option ℕ × Option ℕ) :
    StepResult × Option String :=
  if index = 1 ∧ a.neighborAddress.map ipFamily ≠ b.neighborAddress.map ipFamily then
    (.unresolved, some "neighbor_address_families_incomparable")
  else (compareTie v.1 v.2, none)

def tieStepAt (a b : BestPathInputs) (index : ℕ) (v : Option ℕ × Option ℕ) (decided : StepResult) :
    TraceStep :=
  let judged := if decided ≠ .equal then (.skipped, none) else judgeTie a b index v
  { criterion := ORDER.getD (index + 8) ""
    left := text v.1
    right := text v.2
    result := judged.1
    reason := judged.2.getD "explicit_tie_break" }

def StepResult.decides (r : StepResult) : Bool := r = .left || r = .right || r = .unresolved

/-- The loop over the criteria: every step sees what is decided before it. -/
def runSteps : List (StepResult → TraceStep) → StepResult → List TraceStep × StepResult
  | [], decided => ([], decided)
  | f :: rest, decided =>
    let step := f decided
    let (steps, result) := runSteps rest (if step.result.decides then step.result else decided)
    (step :: steps, result)

def allSteps (config : PolicyConfig) (a b : BestPathInputs) : List (StepResult → TraceStep) :=
  ((values config a b).mapIdx fun index v => stepAt config a b index v) ++
    (tieValues a b).mapIdx fun index v => tieStepAt a b index v

def compare (left right : PolicyCandidate) (config : PolicyConfig) : Comparison :=
  let (steps, result) := runSteps (allSteps config left.inputs right.inputs) .equal
  ⟨left.id, right.id, steps, result⟩

end PcapEvidence.Bgp.Policy
