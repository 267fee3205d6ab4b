import PcapEvidence.ProvenanceOps
import PcapEvidence.IntervalSweep

/-!
# Sequence-space reconstruction of one TCP direction

A stream assembler maps wrapping sequence numbers to signed offsets around an anchor, keeps the
non-empty payloads it is given and at the end sweeps their boundaries. Between two neighbouring
boundaries the covering segments either agree, and one of them supplies the bytes, or conflict, and
the overlap policy decides.

The mutators of the source change nothing before their last check, so a failing call is an error and
keeps the old assembler.
-/

namespace PcapEvidence

open SortedVec OrderedMap IntervalSweep

inductive OverlapPolicy where
  | rejectConflict | firstObserved | lastObserved
  deriving DecidableEq

structure StreamChunk where
  offset : ℤ
  bytes : EvidenceBytes

def StreamChunk.stop (c : StreamChunk) : ℤ := c.offset + c.bytes.len

structure StreamGap where
  start : ℤ
  stop : ℤ
  reason : String

structure Conflict where
  start : ℤ
  stop : ℤ
  packets : List PacketId

structure StreamResult where
  baseSequence : Option U32
  anchoredBySyn : Bool
  chunks : List StreamChunk
  gaps : List StreamGap
  conflicts : List Conflict
  duplicateObservedBytes : ℕ

structure Segment where
  start : ℤ
  bytes : EvidenceBytes

def Segment.stop (s : Segment) : ℤ := s.start + s.bytes.len

def sequenceDelta (sequence anchor : U32) : Result ℤ :=
  if sequence - anchor = 0x80000000 then
    .error ⟨.sequenceAmbiguous, 0, "sequence", "exact half-space difference has no unique ordering"⟩
  else .ok (sequence - anchor).toInt

structure StreamAssembler where
  base : Option U32
  anchoredBySyn : Bool
  segments : List Segment
  min : ℤ
  max : ℤ
  fin : Option ℤ
  retained : ℕ
  limits : Limits

namespace StreamAssembler

def new (syn : Option U32) (limits : Limits) : StreamAssembler where
  base := syn.map (· + 1)
  anchoredBySyn := syn.isSome
  segments := []
  min := 0
  max := 0
  fin := none
  retained := 0
  limits := limits

def offsetBound : ℤ := 2 ^ 63 - 1

/-- The checks of `push` that place a payload in the stream. -/
def place (s : StreamAssembler) (sequence : U32) (bytes : EvidenceBytes) : Result ℤ := do
  let start ← sequenceDelta sequence (s.base.getD sequence)
  if start + bytes.len > offsetBound then .error (Error.limit "stream_span")
  else if Max.max s.max (start + bytes.len) - Min.min s.min start > s.limits.maxStreamSpan then
    .error (Error.limit "stream_span")
  else if s.anchoredBySyn ∧ start < 0 then
    .error ⟨.sequenceAmbiguous, 0, "sequence", "payload precedes observed SYN"⟩
  else .ok start

def push (s : StreamAssembler) (sequence : U32) (bytes : EvidenceBytes) : Result StreamAssembler := do
  s.limits.validate
  if bytes.isEmpty then .ok s
  else if !bytes.validate then
    .error ⟨.invariant, 0, "provenance", "invalid source-span layout"⟩
  else match checkedAdd s.retained bytes.len with
    | none => .error (Error.limit "stream_retained_payload")
    | some retained =>
      if retained > s.limits.maxRetainedPayload then .error (Error.limit "stream_retained_payload")
      else if s.segments.length ≥ s.limits.maxSegmentsPerFlow then
        .error (Error.limit "stream_segments")
      else do
        let start ← s.place sequence bytes
        .ok { s with
          base := some (s.base.getD sequence)
          retained := retained
          min := Min.min s.min start
          max := Max.max s.max (start + bytes.len)
          segments := s.segments ++ [⟨start, bytes⟩] }

def endAt (s : StreamAssembler) (sequenceAfterPayload : U32) : Result StreamAssembler := do
  s.limits.validate
  let stop ← sequenceDelta sequenceAfterPayload (s.base.getD sequenceAfterPayload)
  if stop < s.min ∨ stop - s.min > s.limits.maxStreamSpan then .error (Error.limit "fin_sequence")
  else if s.fin.any (· ≠ stop) then
    .error ⟨.sequenceAmbiguous, 0, "fin_sequence", "conflicting FIN positions"⟩
  else .ok { s with base := some (s.base.getD sequenceAfterPayload), fin := some stop }

def segmentAt (segments : List Segment) (i : ℕ) : Segment := segments.getD i ⟨0, .empty⟩

def raw (s : Segment) (a b : ℤ) : List U8 :=
  (s.bytes.data.take (b - s.start).toNat).drop (a - s.start).toNat

def rawPackets (s : Segment) (a b : ℤ) : List PacketId :=
  ((s.bytes.spans.dropWhile (fun span => span.stop ≤ (a - s.start).toNat)).takeWhile
    (fun span => span.start < (b - s.start).toNat)).map (·.packet)

/-- The lowest or highest active index is the earliest or latest arrival. -/
def choose {α : Type} (policy : OverlapPolicy) (active : List α) : Option α :=
  if policy = .lastObserved then active.getLast? else active.head?

def pushChunk (limit : ℕ) (chunks : List StreamChunk) (a : ℤ) (bytes : EvidenceBytes) :
    Result (List StreamChunk) :=
  match chunks.getLast? with
  | none => .ok [⟨a, bytes⟩]
  | some previous =>
    if previous.stop = a then
      match previous.bytes.append bytes limit with
      | (.error e, _) => .error e
      | (.ok (), joined) => .ok (chunks.dropLast ++ [{ previous with bytes := joined }])
    else .ok (chunks ++ [⟨a, bytes⟩])

def account (segments : List Segment) (a b : ℤ) (active : List ℕ) (chosen : ℕ)
    (result : StreamResult) : Bool × StreamResult :=
  let selected := raw (segmentAt segments chosen) a b
  let conflict := active.any (fun i => raw (segmentAt segments i) a b ≠ selected)
  let repeats := active.filter (fun i => i ≠ chosen ∧ raw (segmentAt segments i) a b = selected)
  let packets := active.flatMap (fun i => rawPackets (segmentAt segments i) a b)
  (conflict, { result with
    duplicateObservedBytes := result.duplicateObservedBytes +
      (repeats.map (fun i => (raw (segmentAt segments i) a b).length)).sum
    conflicts := if conflict then result.conflicts ++ [⟨a, b, sortDedup packets⟩]
      else result.conflicts })

def window (limit : ℕ) (policy : OverlapPolicy) (segments : List Segment) (a b : ℤ)
    (active : List ℕ) (result : StreamResult) : Result StreamResult :=
  match choose policy active with
  | none => .ok { result with gaps := result.gaps ++ [⟨a, b, "missing_capture_bytes"⟩] }
  | some chosen =>
    let (conflict, result) := account segments a b active chosen result
    if conflict ∧ policy = .rejectConflict then
      .ok { result with gaps := result.gaps ++ [⟨a, b, "conflicting_capture_bytes"⟩] }
    else
      let segment := segmentAt segments chosen
      match segment.bytes.slice (a - segment.start).toNat (b - segment.start).toNat with
      | .error e => .error e
      | .ok bytes =>
        match pushChunk limit result.chunks a bytes with
        | .error e => .error e
        | .ok chunks => .ok { result with chunks := chunks }

def intervals (segments : List Segment) : List Interval :=
  segments.map (fun s => (s.start, s.stop))

def marks (s : StreamAssembler) : List ℤ := (if s.anchoredBySyn then [0] else []) ++ s.fin.toList

def blank (s : StreamAssembler) : StreamResult := ⟨s.base, s.anchoredBySyn, [], [], [], 0⟩

def unobserved (s : StreamAssembler) : List StreamGap :=
  match s.fin with
  | some stop => if s.anchoredBySyn ∧ stop > 0 then [⟨0, stop, "missing_capture_bytes"⟩] else []
  | none => []

def beyondFin : Error :=
  ⟨.sequenceAmbiguous, 0, "fin_sequence", "observed payload extends beyond FIN"⟩

def finish (s : StreamAssembler) (policy : OverlapPolicy) : Result StreamResult := do
  s.limits.validate
  if s.segments.isEmpty then .ok { s.blank with gaps := s.unobserved }
  else if s.fin.any (fun stop => s.max > stop) then .error beyondFin
  else
    let events := eventsOf (intervals s.segments) s.marks
    sweep events (window s.limits.maxStreamSpan policy s.segments) events.keys .empty s.blank

/-- The calls a client makes before `finish`. -/
inductive Op where
  | push (sequence : U32) (bytes : EvidenceBytes)
  | endAt (sequence : U32)

def apply (s : StreamAssembler) : Op → Result StreamAssembler
  | .push sequence bytes => s.push sequence bytes
  | .endAt sequence => s.endAt sequence

def run : StreamAssembler → List Op → Result StreamAssembler
  | s, [] => .ok s
  | s, op :: rest => do
    let s ← s.apply op
    run s rest

end StreamAssembler
end PcapEvidence

/-!
## One window of the sweep

The sweep works with indices into the segment vector. Here the body of the sweep is restated over
the list of covering segments itself, in arrival order: `observe`. All later arguments are about
`observe`, so indices no longer occur in them.
-/

namespace PcapEvidence

open SortedVec OrderedMap IntervalSweep EvidenceBytes

/-- The segment holds a byte for the stream offset `x`. -/
def Segment.Covers (s : Segment) (x : ℤ) : Prop := s.start ≤ x ∧ x < s.stop

instance (s : Segment) (x : ℤ) : Decidable (s.Covers x) := inferInstanceAs (Decidable (_ ∧ _))

/-- The byte a segment holds for the stream offset `x`. -/
def Segment.byteAt (s : Segment) (x : ℤ) : Option U8 :=
  if s.start ≤ x then s.bytes.data[(x - s.start).toNat]? else none

theorem Segment.stop_eq (s : Segment) : s.stop = s.start + s.bytes.data.length := rfl

namespace StreamAssembler

def coveringSegments (segments : List Segment) (x : ℤ) : List Segment :=
  segments.filter (fun s => s.Covers x)

theorem mem_coveringSegments {segments : List Segment} {x : ℤ} {s : Segment} :
    s ∈ coveringSegments segments x ↔ s ∈ segments ∧ s.Covers x := by
  simp [coveringSegments]

theorem map_filter_range {α : Type} (l : List α) (p : α → Bool) (d : α) :
    ((List.range l.length).filter (fun i => (l[i]?).any p)).map (fun i => l.getD i d) =
      l.filter p := by
  induction l with
  | nil => rfl
  | cons x l ih =>
    rw [List.length_cons, List.range_succ_eq_map, List.filter_cons, List.filter_map]
    have htail : (((List.range l.length).filter ((fun i => ((x :: l)[i]?).any p) ∘ Nat.succ)).map
        Nat.succ).map (fun i => (x :: l).getD i d) = l.filter p := by
      rw [List.map_map, ← ih]
      rfl
    by_cases hx : p x = true
    · simpa [hx] using htail
    · simpa [hx] using htail

theorem map_covering (segments : List Segment) (a : ℤ) :
    (covering (intervals segments) a).map (segmentAt segments) = coveringSegments segments a := by
  rw [coveringSegments, ← map_filter_range segments _ ⟨0, .empty⟩]
  simp only [covering, intervals, List.length_map, List.getElem?_map, Option.any_map]
  rfl

theorem choose_map {α β : Type} (policy : OverlapPolicy) (f : α → β) (l : List α) :
    choose policy (l.map f) = (choose policy l).map f := by
  unfold choose
  split_ifs
  · exact List.getLast?_map
  · exact List.head?_map

theorem choose_eq_none {α : Type} {policy : OverlapPolicy} {l : List α} :
    choose policy l = none ↔ l = [] := by
  unfold choose
  split_ifs <;> simp

theorem choose_mem {α : Type} {policy : OverlapPolicy} {l : List α} {x : α}
    (h : choose policy l = some x) : x ∈ l := by
  unfold choose at h
  split_ifs at h
  · exact List.mem_of_getLast? h
  · exact List.mem_of_head? h

/-- What remains after the choice. -/
def others {α : Type} (policy : OverlapPolicy) (l : List α) : List α :=
  if policy = .lastObserved then l.dropLast else l.tail

theorem others_map {α β : Type} (policy : OverlapPolicy) (f : α → β) (l : List α) :
    others policy (l.map f) = (others policy l).map f := by
  unfold others
  split_ifs
  · exact List.map_dropLast.symm
  · exact List.map_tail.symm

theorem filter_ne_choose {α : Type} [DecidableEq α] {policy : OverlapPolicy} {l : List α}
    (hl : l.Nodup) {x : α} (h : choose policy l = some x) (p : α → Bool) :
    l.filter (fun y => y ≠ x ∧ p y) = (others policy l).filter p := by
  have hrest (l' : List α) (hx : x ∉ l') : l'.filter (fun y => y ≠ x ∧ p y) = l'.filter p := by
    apply List.filter_congr
    intro y hy
    have hne : y ≠ x := fun heq => hx (heq ▸ hy)
    simp [hne]
  unfold choose at h
  unfold others
  split_ifs at h ⊢
  · obtain ⟨init, rfl⟩ := List.getLast?_eq_some_iff.1 h
    have hx : x ∉ init := fun hmem => (List.nodup_append.1 hl).2.2 x hmem x (by simp) rfl
    rw [List.filter_append, hrest init hx, List.dropLast_concat]
    simp
  · obtain ⟨rest, rfl⟩ := List.head?_eq_some_iff.1 h
    have hx : x ∉ rest := (List.nodup_cons.1 hl).1
    simpa using hrest rest hx

def clash (covers : List Segment) (s : Segment) (a b : ℤ) : Bool :=
  covers.any (fun t => raw t a b ≠ raw s a b)

def tally (policy : OverlapPolicy) (covers : List Segment) (s : Segment) (a b : ℤ)
    (result : StreamResult) : StreamResult := { result with
  duplicateObservedBytes := result.duplicateObservedBytes +
    (((others policy covers).filter (fun t => raw t a b = raw s a b)).map
      (fun t => (raw t a b).length)).sum
  conflicts := if clash covers s a b then
      result.conflicts ++ [⟨a, b, sortDedup (covers.flatMap (fun t => rawPackets t a b))⟩]
    else result.conflicts }

def observe (limit : ℕ) (policy : OverlapPolicy) (covers : List Segment) (a b : ℤ)
    (result : StreamResult) : Result StreamResult :=
  match choose policy covers with
  | none => .ok { result with gaps := result.gaps ++ [⟨a, b, "missing_capture_bytes"⟩] }
  | some s =>
    if clash covers s a b ∧ policy = .rejectConflict then
      .ok { tally policy covers s a b result with
        gaps := result.gaps ++ [⟨a, b, "conflicting_capture_bytes"⟩] }
    else
      match s.bytes.slice (a - s.start).toNat (b - s.start).toNat with
      | .error e => .error e
      | .ok bytes =>
        match pushChunk limit result.chunks a bytes with
        | .error e => .error e
        | .ok chunks => .ok { tally policy covers s a b result with chunks := chunks }

theorem account_eq (policy : OverlapPolicy) (segments : List Segment) (a b : ℤ) {chosen : ℕ}
    (h : choose policy (covering (intervals segments) a) = some chosen) (result : StreamResult) :
    account segments a b (covering (intervals segments) a) chosen result =
      (clash (coveringSegments segments a) (segmentAt segments chosen) a b,
        tally policy (coveringSegments segments a) (segmentAt segments chosen) a b result) := by
  have hnodup : (covering (intervals segments) a).Nodup :=
    (covering_sorted _ _).imp (fun h => h.ne)
  have hrepeats := filter_ne_choose hnodup h
    (fun i => raw (segmentAt segments i) a b = raw (segmentAt segments chosen) a b)
  simp only [decide_eq_true_eq] at hrepeats
  unfold account tally clash
  simp only [hrepeats, ← map_covering, List.any_map, List.flatMap_map, others_map, List.filter_map,
    List.map_map]
  rfl

theorem window_eq_observe (limit : ℕ) (policy : OverlapPolicy) (segments : List Segment) (a b : ℤ)
    (result : StreamResult) :
    window limit policy segments a b (covering (intervals segments) a) result =
      observe limit policy (coveringSegments segments a) a b result := by
  unfold window observe
  cases h : choose policy (covering (intervals segments) a) with
  | none =>
    have hnone : choose policy (coveringSegments segments a) = none := by
      rw [← map_covering, choose_map, h]
      rfl
    rw [hnone]
  | some chosen =>
    have hsome : choose policy (coveringSegments segments a) =
        some (segmentAt segments chosen) := by
      rw [← map_covering, choose_map, h]
      rfl
    rw [hsome]
    dsimp only
    rw [account_eq policy segments a b h]
    rfl

end StreamAssembler
end PcapEvidence
