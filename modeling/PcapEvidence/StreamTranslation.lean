import PcapEvidence.StreamRun

/-!
# Translating the sequence space of one stream

Adding a constant to every sequence number of a stream changes no offset. The assembler before and
after the translation differ in the base only, through every call and in the result.
-/

namespace PcapEvidence

open IntervalSweep

theorem sequenceDelta_shift (x y k : U32) : sequenceDelta (x + k) (y + k) = sequenceDelta x y := by
  have h : x + k - (y + k) = x - y := by ring
  unfold sequenceDelta
  rw [h]

def StreamResult.shift (k : U32) (r : StreamResult) : StreamResult :=
  { r with baseSequence := r.baseSequence.map (· + k) }

namespace StreamAssembler

variable (k : U32) (s : StreamAssembler)

def shift : StreamAssembler := { s with base := s.base.map (· + k) }

theorem new_shift (syn : Option U32) (limits : Limits) :
    new (syn.map (· + k)) limits = (new syn limits).shift k := by
  cases syn with
  | none => rfl
  | some n =>
    have h : n + k + 1 = n + 1 + k := by ring
    simp only [new, shift, Option.map_some, Option.isSome_some, h]

theorem base_shift (sequence : U32) :
    (s.shift k).base.getD (sequence + k) = s.base.getD sequence + k := by
  cases h : s.base <;> simp [shift, h]

theorem place_shift (sequence : U32) (bytes : EvidenceBytes) :
    (s.shift k).place (sequence + k) bytes = s.place sequence bytes := by
  unfold place
  rw [base_shift, sequenceDelta_shift]
  rfl

theorem push_shift (sequence : U32) (bytes : EvidenceBytes) :
    (s.shift k).push (sequence + k) bytes = (s.push sequence bytes).map (shift k) := by
  unfold push
  rw [place_shift, base_shift]
  change (s.limits.validate >>= fun _ => _) = _
  cases s.limits.validate with
  | error e => rfl
  | ok u =>
    simp only [bind, Except.bind]
    by_cases hempty : bytes.isEmpty
    · rw [if_pos hempty, if_pos hempty]
      rfl
    rw [if_neg hempty, if_neg hempty]
    by_cases hvalid : (!bytes.validate) = true
    · rw [if_pos hvalid, if_pos hvalid]
      rfl
    rw [if_neg hvalid, if_neg hvalid]
    have hretained : (s.shift k).retained = s.retained := rfl
    rw [hretained]
    cases checkedAdd s.retained bytes.len with
    | none => rfl
    | some retained =>
      dsimp only
      change (if retained > s.limits.maxRetainedPayload then _ else
        if s.segments.length ≥ s.limits.maxSegmentsPerFlow then _ else _) = _
      by_cases hret : retained > s.limits.maxRetainedPayload
      · rw [if_pos hret, if_pos hret]
        rfl
      rw [if_neg hret, if_neg hret]
      by_cases hseg : s.segments.length ≥ s.limits.maxSegmentsPerFlow
      · rw [if_pos hseg, if_pos hseg]
        rfl
      rw [if_neg hseg, if_neg hseg]
      cases s.place sequence bytes with
      | error e => rfl
      | ok start => rfl

theorem endAt_shift (sequence : U32) :
    (s.shift k).endAt (sequence + k) = (s.endAt sequence).map (shift k) := by
  unfold endAt
  rw [base_shift, sequenceDelta_shift]
  change (s.limits.validate >>= fun _ => _) = _
  cases s.limits.validate with
  | error e => rfl
  | ok u =>
    simp only [bind, Except.bind]
    cases sequenceDelta sequence (s.base.getD sequence) with
    | error e => rfl
    | ok stop =>
      dsimp only
      change (if stop < s.min ∨ stop - s.min > s.limits.maxStreamSpan then _ else
        if s.fin.any (· ≠ stop) then _ else _) = _
      split_ifs <;> rfl

/-- The sweep carries the base along without reading it. -/
theorem window_shift (limit : ℕ) (policy : OverlapPolicy) (segments : List Segment) (a b : ℤ)
    (active : List ℕ) (r : StreamResult) :
    window limit policy segments a b active (r.shift k) =
      (window limit policy segments a b active r).map (StreamResult.shift k) := by
  unfold window
  cases choose policy active with
  | none => rfl
  | some chosen =>
    dsimp only [account]
    by_cases hclash : active.any (fun i => raw (segmentAt segments i) a b ≠
        raw (segmentAt segments chosen) a b) = true ∧ policy = .rejectConflict
    · rw [if_pos hclash, if_pos hclash]
      rfl
    rw [if_neg hclash, if_neg hclash]
    cases (segmentAt segments chosen).bytes.slice (a - (segmentAt segments chosen).start).toNat
        (b - (segmentAt segments chosen).start).toNat with
    | error e => rfl
    | ok bytes =>
      dsimp only
      have hchunks : (r.shift k).chunks = r.chunks := rfl
      rw [hchunks]
      cases pushChunk limit r.chunks a bytes with
      | error e => rfl
      | ok chunks => rfl

theorem finish_shift (policy : OverlapPolicy) :
    (s.shift k).finish policy = (s.finish policy).map (StreamResult.shift k) := by
  unfold finish
  change (s.limits.validate >>= fun _ => _) = _
  cases s.limits.validate with
  | error e => rfl
  | ok u =>
    simp only [bind, Except.bind]
    change (if s.segments.isEmpty then _ else
      if s.fin.any (fun stop => s.max > stop) then _ else
        sweep _ (window s.limits.maxStreamSpan policy s.segments) _ _
          (StreamResult.shift k s.blank)) = _
    split_ifs
    · rfl
    · rfl
    · exact sweep_map (StreamResult.shift k) _ (window_shift k _ _ _) _ _ _

end StreamAssembler
end PcapEvidence
