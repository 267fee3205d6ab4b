import PcapEvidence.Correlate

/-!
# Candidates for confirmed fragments

Every DNP3 fragment is verified before its role is looked at. A fragment that fails gets a row of
its own, and bars every candidate of its flow unless its frames place it in another capture.
-/

namespace PcapEvidence

def Method.outcome {σ ε α : Type} (m : Method σ ε α) : Method σ ε (Except ε α) := fun s =>
  (.ok (m s).1, (m s).2)

namespace Confirmations
open EvidenceBytes Dnp3 OrderedMap Dnp3Workflow
open Correlate (captureScope)

structure FragmentRef where
  application : ℕ
  fragment : ℕ
  deriving DecidableEq

structure Dnp3ConfirmationFragment where
  reference : FragmentRef
  /-- The direction of the capture as the caller established it, not a role. -/
  direction : ℕ
  witness : FragmentWitness

structure Dnp3ExcludedConfirmationTarget where
  fragment : Dnp3ConfirmationFragment
  reason : String

structure Dnp3ConfirmationCandidate where
  flow : ℕ
  confirms : List Dnp3ConfirmationFragment
  targets : List Dnp3ConfirmationFragment
  excludedTargets : List Dnp3ExcludedConfirmationTarget
  unclassifiedFragments : List FragmentRef
  status : String
  reason : String
  error : Option Error

structure Group where
  confirms : List Dnp3ConfirmationFragment
  responses : List Dnp3ConfirmationFragment

def Group.empty : Group := ⟨[], []⟩

structure Key where
  capture : Vector U8 32
  flow : ℕ
  source : U16
  destination : U16
  sequence : U8
  unsolicited : Bool
  deriving DecidableEq

namespace Key

def orderKey (k : Key) : List ℕ ×ₗ ℕ ×ₗ ℕ ×ₗ ℕ ×ₗ ℕ ×ₗ Bool :=
  toLex (k.capture.toList.map BitVec.toNat, toLex (k.flow, toLex (k.source.toNat,
    toLex (k.destination.toNat, toLex (k.sequence.toNat, k.unsolicited)))))

theorem orderKey_injective : Function.Injective orderKey := by
  rintro ⟨c, f, x, y, s, u⟩ ⟨c', f', x', y', s', u'⟩ h
  simp only [orderKey, EmbeddingLike.apply_eq_iff_eq, Prod.mk.injEq, BitVec.toNat_inj] at h
  obtain ⟨hc, rfl, rfl, rfl, rfl, rfl⟩ := h
  have hl : c.toList = c'.toList := List.map_injective_iff.2 BitVec.toNat_injective hc
  rw [Vector.toList_inj.1 hl]

instance : LinearOrder Key := LinearOrder.lift' orderKey orderKey_injective

end Key

inductive InvalidScope where
  | capture (capture : Vector U8 32) (flow : ℕ)
  | unknownCapture (flow : ℕ)
  deriving DecidableEq

namespace InvalidScope

def orderKey : InvalidScope → ℕ ×ₗ List ℕ ×ₗ ℕ
  | .capture c flow => toLex (0, toLex (c.toList.map BitVec.toNat, flow))
  | .unknownCapture flow => toLex (1, toLex ([], flow))

theorem orderKey_injective : Function.Injective orderKey := by
  rintro (⟨c, f⟩ | f) (⟨c', f'⟩ | f') h <;>
    simp only [orderKey, EmbeddingLike.apply_eq_iff_eq, Prod.mk.injEq, zero_ne_one, one_ne_zero,
      false_and, true_and] at h
  · have hl : c.toList = c'.toList := List.map_injective_iff.2 BitVec.toNat_injective h.1
    rw [Vector.toList_inj.1 hl, h.2]
  · rw [h]

instance : LinearOrder InvalidScope := LinearOrder.lift' orderKey orderKey_injective

end InvalidScope

def charge (amount : ℕ) (limits : Limits) : Method ℕ Error Unit := do
  let work ← Method.read
  match (checkedAdd work amount).filter (· ≤ limits.maxCorrelationChecks) with
  | none => Method.fail (Error.limit "dnp3_confirmation_correlation_work")
  | some n => Method.update fun _ => n

def framesOf (result : Dnp3Result) (capture : Vector U8 32) (limits : Limits) :
    List ℕ → Method ℕ Error Bool
  | [] => pure true
  | index :: rest => do
    charge 1 limits
    match result.frames[index]? with
    | none => pure false
    | some frame => do
      charge frame.raw.spans.length limits
      if captureScope frame.raw ≠ some capture then pure false
      else framesOf result capture limits rest

def invalidScope (result : Dnp3Result) (fragment : ApplicationFragment) (flow : ℕ)
    (limits : Limits) : Method ℕ Error InvalidScope := do
  charge fragment.raw.spans.length limits
  match captureScope fragment.raw with
  | none => pure (.unknownCapture flow)
  | some capture => do
    let coherent ← framesOf result capture limits fragment.frames
    pure (if coherent then .capture capture flow else .unknownCapture flow)

def verified (application : Correlate.ApplicationAnalysis) (result : Dnp3Result)
    (fragment : ApplicationFragment) (limits : Limits) : Method ℕ Error FragmentWitness :=
  if application.direction ≤ 1 ∧ application.protocol = "dnp3" then
    verifiedFragmentWitness result fragment limits
  else
    Method.fail ⟨.invariant, 0, "dnp3_confirmation_application_scope_invalid",
      "protocol or captured direction disagrees with the supplied DNP3 scope"⟩

structure Collection where
  groups : OrdMap Key Group
  invalid : OrdMap InvalidScope (List FragmentRef)
  output : List Dnp3ConfirmationCandidate
  fragments : ℕ

def Collection.new : Collection := ⟨.empty, .empty, [], 0⟩

def Collection.counted (c : Collection) (limits : Limits) : Result Collection :=
  match (checkedAdd c.fragments 1).filter (· ≤ limits.maxProtocolMessages) with
  | none => .error (Error.limit "dnp3_confirmation_fragments")
  | some fragments => .ok { c with fragments }

def unclassifiedRow (flow : ℕ) (reference : FragmentRef) (error : Error) :
    Dnp3ConfirmationCandidate :=
  { flow
    confirms := []
    targets := []
    excludedTargets := []
    unclassifiedFragments := [reference]
    status := "unclassified"
    reason := error.field
    error := some error }

def Collection.reject (c : Collection) (scope : InvalidScope) (flow : ℕ) (reference : FragmentRef)
    (error : Error) : Collection :=
  { c with
    invalid := c.invalid.insert scope ((c.invalid.get? scope).getD [] ++ [reference])
    output := c.output ++ [unclassifiedRow flow reference error] }

def takesPart (witness : FragmentWitness) : Bool := witness.header.function ∈ [0, 0x81, 0x82]

/-- The addresses of a response are those of its confirmation, exchanged. -/
def keyOf (flow : ℕ) (witness : FragmentWitness) : Key :=
  let confirm : Bool := witness.header.function = 0
  { capture := firstCapture witness.packets
    flow
    source := if confirm then witness.source else witness.destination
    destination := if confirm then witness.destination else witness.source
    sequence := witness.header.sequence
    unsolicited := witness.header.unsolicited }

def Group.join (group : Group) (observed : Dnp3ConfirmationFragment) : Group :=
  if observed.witness.header.function = 0 then
    { group with confirms := group.confirms ++ [observed] }
  else { group with responses := group.responses ++ [observed] }

def Collection.take (c : Collection) (flow : ℕ) (observed : Dnp3ConfirmationFragment) :
    Collection :=
  let key := keyOf flow observed.witness
  { c with groups := c.groups.insert key (((c.groups.get? key).getD .empty).join observed) }

def addFragment (limits : Limits) (application : Correlate.ApplicationAnalysis)
    (result : Dnp3Result) (reference : FragmentRef) (fragment : ApplicationFragment) (c : Collection) :
    Method ℕ Error Collection := do
  charge 1 limits
  let c ← Method.lift (c.counted limits)
  match ← (verified application result fragment limits).outcome with
  | .ok witness =>
    if takesPart witness then
      pure (c.take application.flow ⟨reference, application.direction, witness⟩)
    else pure c
  | .error error =>
    if error.code = .limitExceeded then Method.fail error
    else do
      let scope ← invalidScope result fragment application.flow limits
      pure (c.reject scope application.flow reference error)

def addApplication (limits : Limits) (c : Collection)
    (entry : Correlate.ApplicationAnalysis × ℕ) : Method ℕ Error Collection := do
  charge 1 limits
  match entry.1.data with
  | .dnp3 result =>
    result.fragments.zipIdx.foldlM
      (fun c f => addFragment limits entry.1 result ⟨entry.2, f.2⟩ f.1 c) c
  | _ => pure c

/-- The evidence of opposite directions, over all confirmations of a group. -/
structure Opposition where
  capture : Bool
  link : Bool
  joint : Bool

def Opposition.with (o : Opposition) (response confirm : Dnp3ConfirmationFragment) : Opposition :=
  let capture : Bool := confirm.direction ≠ response.direction
  let link : Bool := confirm.witness.linkDirection ≠ response.witness.linkDirection
  ⟨o.capture || capture, o.link || link, o.joint || (capture && link)⟩

def oppose (limits : Limits) (response : Dnp3ConfirmationFragment) (o : Opposition)
    (confirm : Dnp3ConfirmationFragment) : Method ℕ Error Opposition := do
  charge 1 limits
  pure (o.with response confirm)

def exclusion (response : Dnp3ConfirmationFragment) (o : Opposition) : Option String :=
  if !response.witness.header.confirmRequested then some "target_does_not_request_confirmation"
  else if !o.capture then some "captured_application_directions_not_opposite"
  else if !o.link then some "link_dir_not_opposite"
  else if !o.joint then some "direction_evidence_not_jointly_compatible"
  else none

structure Targets where
  targets : List Dnp3ConfirmationFragment
  excluded : List Dnp3ExcludedConfirmationTarget

def Targets.add (t : Targets) (response : Dnp3ConfirmationFragment) (o : Opposition) : Targets :=
  match exclusion response o with
  | some reason => { t with excluded := t.excluded ++ [⟨response, reason⟩] }
  | none => { t with targets := t.targets ++ [response] }

def addResponse (limits : Limits) (confirms : List Dnp3ConfirmationFragment) (t : Targets)
    (response : Dnp3ConfirmationFragment) : Method ℕ Error Targets := do
  charge 1 limits
  let o ← confirms.foldlM (oppose limits response) ⟨false, false, false⟩
  pure (t.add response o)

/-- The rejected fragments of a scope, after those found before. -/
def addUnclassified (limits : Limits) (invalid : OrdMap InvalidScope (List FragmentRef))
    (refs : List FragmentRef) (scope : InvalidScope) : Method ℕ Error (List FragmentRef) :=
  match invalid.get? scope with
  | none => pure refs
  | some more => do
    charge more.length limits
    pure (refs ++ more)

/-- The status and the reason of a group; `unknown` stands for a fragment of no known capture. -/
def verdict (confirms : List Dnp3ConfirmationFragment) (t : Targets) (unknown : Bool)
    (unclassified : List FragmentRef) : String × String :=
  if unknown then ("ambiguous", "unverified_fragment_capture_scope_unknown_in_same_flow")
  else if !unclassified.isEmpty then ("ambiguous", "unverified_fragment_identifier_in_same_flow")
  else if confirms.length > 1 then ("ambiguous", "duplicate_or_reused_confirmation_identifier")
  else if t.targets.isEmpty then
    ("unmatched_confirmation", "no_verified_response_fragment_matches_all_confirmation_fields")
  else if t.targets.length > 1 ∨ !t.excluded.isEmpty then
    ("ambiguous", "duplicate_or_reused_response_identifier")
  else
    ("candidate_confirmation", "unique_verified_fragment_identifiers_not_receipt_or_causality")

def groupRow (flow : ℕ) (confirms : List Dnp3ConfirmationFragment) (t : Targets) (unknown : Bool)
    (unclassified : List FragmentRef) : Dnp3ConfirmationCandidate :=
  let v := verdict confirms t unknown unclassified
  { flow
    confirms
    targets := t.targets
    excludedTargets := t.excluded
    unclassifiedFragments := unclassified
    status := v.1
    reason := v.2
    error := none }

def settleGroup (limits : Limits) (invalid : OrdMap InvalidScope (List FragmentRef))
    (output : List Dnp3ConfirmationCandidate) (entry : Key × Group) :
    Method ℕ Error (List Dnp3ConfirmationCandidate) :=
  if entry.2.confirms.isEmpty then pure output
  else do
    charge entry.2.confirms.length limits
    let t ← entry.2.responses.foldlM (addResponse limits entry.2.confirms) ⟨[], []⟩
    let unknownScope : InvalidScope := .unknownCapture entry.1.flow
    let unclassified ← [.capture entry.1.capture entry.1.flow, unknownScope].foldlM
      (addUnclassified limits invalid) []
    pure (output ++ [groupRow entry.1.flow entry.2.confirms t (invalid.get? unknownScope).isSome
      unclassified])

def dnp3ConfirmationCandidates (applications : List Correlate.ApplicationAnalysis)
    (limits : Limits) : Result (List Dnp3ConfirmationCandidate) :=
  let query : Method ℕ Error (List Dnp3ConfirmationCandidate) := do
    let c ← applications.zipIdx.foldlM (addApplication limits) .new
    c.groups.entries.foldlM (settleGroup limits c.invalid) c.output
  (query 0).1

end Confirmations

end PcapEvidence
