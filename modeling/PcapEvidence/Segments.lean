import PcapEvidence.JsonText
import PcapEvidence.OrderedMap
import PcapEvidence.ProvenanceOps
import Mathlib.Data.String.Basic

/-!
# Bounded application segmentation

A scope holds the numbered parts of one segmented message. A part is added once; a different part
under a taken number, or one behind the last part, poisons the scope until it is cut.
-/

namespace PcapEvidence.Segmentation

open Bgp History OrderedMap

/-- Evidence status of an application value. -/
inductive Status where
  | observed | candidate | incomplete | unsupported | ambiguous | rejected | limited

structure Segment where
  ordinal : ℕ
  first : Bool
  finalSegment : Bool
  bytes : EvidenceBytes
  frame : ℕ

structure Outcome where
  status : Status
  reason : String
  completed : Option EvidenceBytes
  before : Digest
  after : Digest

structure Chain where
  parts : OrdMap ℕ Segment
  conflicts : List (ℕ × EvidenceBytes)
  last : Option ℕ
  first : Bool
  poisoned : Bool
  lastFrame : ℕ

namespace Chain

def default : Chain := ⟨.empty, [], none, false, false, 0⟩

def conflictJson (c : ℕ × EvidenceBytes) : Json :=
  Json.objectOf [("ordinal", decimalText c.1), ("evidence", evidenceJson c.2)]

def partJson (p : ℕ × Segment) : Json :=
  Json.objectOf [("ordinal", decimalText p.1),
    ("hash", .string (hex (Sha256.digest p.2.bytes.data).toList)),
    ("first", .bool p.2.first),
    ("final", .bool p.2.finalSegment),
    ("evidence", evidenceJson p.2.bytes)]

def identity (c : Chain) : Digest :=
  Sha256.digest (Encoder.utf8 (Json.objectOf [("last", c.last.elim .null decimalText),
    ("first", .bool c.first),
    ("poisoned", .bool c.poisoned),
    ("last_frame", decimalText c.lastFrame),
    ("conflicts", Json.arrayOf (c.conflicts.map conflictJson)),
    ("parts", Json.arrayOf (c.parts.entries.map partJson))]).encode)

def bytes (c : Chain) : ℕ :=
  (c.parts.total fun p => p.2.bytes.len) + (c.conflicts.map fun b => b.2.len).sum

def behindLast (last : Option ℕ) (ordinal : ℕ) : Bool := last.any fun l => ordinal > l

def accept (c : Chain) (s : Segment) : Chain :=
  let last := if s.finalSegment then some s.ordinal else c.last
  { c with
    parts := c.parts.insert s.ordinal s
    last := last
    first := c.first || s.first
    poisoned := c.poisoned || (s.finalSegment && c.last.any fun l => l ≠ s.ordinal) ||
      (behindLast last s.ordinal || c.parts.keys.any (behindLast last))
    lastFrame := max c.lastFrame s.frame }

def contradict (c : Chain) (s : Segment) : Chain :=
  { c with conflicts := c.conflicts ++ [(s.ordinal, s.bytes)], poisoned := true }

def counted (c : Chain) : Bool := c.first && c.last.any fun l => l + 1 = c.parts.size

end Chain

def assemble (limits : Bgp.Limits) :
    List (ℕ × Segment) → ℕ → EvidenceBytes → Result EvidenceBytes
  | [], _, assembled => .ok assembled
  | (ordinal, part) :: rest, expected, assembled =>
    if ordinal ≠ expected then .error (Bgp.bad "segmentation" "noncontiguous completed set")
    else if min (assembled.spans.length + part.bytes.spans.length) usizeMax > limits.spans then
      .error (Error.limit "segmentation_spans")
    else match assembled.append part.bytes limits.inputBytes with
      | (.error e, _) => .error e
      | (.ok (), assembled) => assemble limits rest (expected + 1) assembled

structure Segments where
  limits : Bgp.Limits
  chains : OrdMap String Chain
  retained : ℕ

namespace Segments

def new (limits : Bgp.Limits) : Result Segments := do
  limits.validate
  .ok ⟨limits, .empty, 0⟩

def retainedBytes (g : Segments) : ℕ := g.retained

def chain (g : Segments) (scope : String) : Chain := (g.chains.get? scope).getD .default

def store (g : Segments) (scope : String) (c : Chain) (retained : ℕ) : Segments :=
  { g with chains := g.chains.insert scope c, retained := retained }

/-- Same number, other content: the part is kept as a conflict. -/
def pushConflict (g : Segments) (scope : String) (previous : Chain) (s : Segment) :
    Result Outcome × Segments :=
  match (checkedAdd g.retained s.bytes.len).filter (· ≤ g.limits.retainedBytes) with
  | none => (.error (Error.limit "conflict_bytes"), g)
  | some total =>
    if previous.conflicts.length ≥ g.limits.elements then
      (.error (Error.limit "conflict_count"), g)
    else
      let next := previous.contradict s
      (.ok ⟨.ambiguous, "conflicting_segment_retained_as_boundary", none, previous.identity,
        next.identity⟩, g.store scope next total)

def completion (limits : Bgp.Limits) (next : Chain) :
    Result (Status × String × Option EvidenceBytes) :=
  if next.poisoned then .ok (.ambiguous, "contradictory_last_segment", none)
  else if next.counted then
    match assemble limits next.parts.entries 0 .empty with
    | .error e => .error e
    | .ok assembled => .ok (.candidate, "complete_in_observed_scope", some assembled)
  else .ok (.incomplete, "awaiting_segments", none)

def pushPart (g : Segments) (scope : String) (previous : Chain) (s : Segment) :
    Result Outcome × Segments :=
  match checkedAdd g.retained s.bytes.len with
  | none => (.error (Error.limit "segmentation_bytes"), g)
  | some total =>
    if total > g.limits.retainedBytes ∨
        min (previous.bytes + s.bytes.len) usizeMax > g.limits.inputBytes then
      (.error (Error.limit "segmentation_bytes"), g)
    else if previous.parts.size ≥ g.limits.elements then
      (.error (Error.limit "segmentation_parts"), g)
    else
      let next := previous.accept s
      match completion g.limits next with
      | .error e => (.error e, g)
      | .ok (status, reason, complete) =>
        (.ok ⟨status, reason, complete, previous.identity, next.identity⟩,
          g.store scope next total)

def sameSegment (old s : Segment) : Bool :=
  old.bytes.data = s.bytes.data && old.first = s.first && old.finalSegment = s.finalSegment

def push (g : Segments) (scope : String) (s : Segment) : Result Outcome × Segments :=
  if scope = "" ∨ scope.utf8ByteSize > 512 ∨ s.bytes.validate = false ∨
      s.bytes.spans.length > g.limits.spans ∨ s.bytes.len > g.limits.inputBytes ∨
      s.ordinal ≥ g.limits.elements then
    (.error (Error.limit "segmentation_input"), g)
  else if s.first ∧ s.ordinal ≠ 0 then
    (.error (Bgp.bad "segmentation" "first must have logical ordinal zero"), g)
  else if (g.chains.get? scope).isNone ∧ g.chains.size ≥ g.limits.active then
    (.error (Error.limit "active_segmented_messages"), g)
  else
    let previous := g.chain scope
    let before := previous.identity
    if previous.poisoned then
      (.ok ⟨.ambiguous, "conflicted_scope_requires_explicit_reset", none, before, before⟩, g)
    else match previous.parts.get? s.ordinal with
      | some old =>
        if sameSegment old s then
          (.ok ⟨.observed, "duplicate_segment_not_appended", none, before, before⟩, g)
        else g.pushConflict scope previous s
      | none => g.pushPart scope previous s

def cut (g : Segments) (scope reason : String) : Option Outcome × Segments :=
  match g.chains.get? scope with
  | none => (none, g)
  | some old =>
    (some ⟨.incomplete, reason, none, old.identity, Chain.default.identity⟩,
      { g with chains := g.chains.erase scope, retained := g.retained - old.bytes })

def idle (g : Segments) (frame maxIdleFrames : ℕ) : List String :=
  (g.chains.entries.filter fun e => frame - e.2.lastFrame > maxIdleFrames).map Prod.fst

def cutAll (g : Segments) (reason : String) : List String → List (String × Outcome) × Segments
  | [] => ([], g)
  | scope :: rest =>
    let (outcome, g) := g.cut scope reason
    let (outcomes, g) := g.cutAll reason rest
    ((outcome.map fun o => (scope, o)).toList ++ outcomes, g)

def expire (g : Segments) (frame maxIdleFrames : ℕ) : List (String × Outcome) × Segments :=
  g.cutAll "capture_frame_expiration" (g.idle frame maxIdleFrames)

end Segments
end PcapEvidence.Segmentation
