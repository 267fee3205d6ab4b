import PcapEvidence.StreamRun

/-!
# What a policy that resolves conflicts reconstructs

`Swept` describes the content after the windows up to a boundary: chunks and gaps partition the
swept range, and a chunk byte is the one the policy observes among the covering segments.
-/

namespace PcapEvidence

open OrderedMap IntervalSweep

/-- The chunk holds a byte for the stream offset `x`. -/
def StreamChunk.Covers (c : StreamChunk) (x : ℤ) : Prop := c.offset ≤ x ∧ x < c.stop

/-- The byte a chunk holds for the stream offset `x`. -/
def StreamChunk.byteAt (c : StreamChunk) (x : ℤ) : Option U8 := Content.byteAt c.content x

namespace StreamAssembler

open Content

def observed (policy : OverlapPolicy) (segments : List Segment) (x : ℤ) : Option U8 :=
  (choose policy (coveringSegments segments x)).bind (·.byteAt x)

def gapSpans (gaps : List StreamGap) : List Interval := gaps.map (fun g => (g.start, g.stop))

structure Swept (policy : OverlapPolicy) (segments : List Segment) (low a : ℤ) (s : Summary) :
    Prop where
  gaps : ∀ g ∈ s.gaps, g.start < g.stop
  count : ∀ x, hits (spansOf s.contents) x + hits (gapSpans s.gaps) x =
    if low ≤ x ∧ x < a then 1 else 0
  bytes : ∀ x y, (∃ p ∈ s.contents, byteAt p x = some y) ↔
    low ≤ x ∧ x < a ∧ observed policy segments x = some y

theorem byteAt_isSome_iff (p : Content) (x : ℤ) :
    (∃ y, byteAt p x = some y) ↔ p.1 ≤ x ∧ x < stop p := by
  have hstop : stop p = p.1 + p.2.length := rfl
  unfold byteAt
  by_cases hlow : p.1 ≤ x
  · rw [if_pos hlow]
    constructor
    · rintro ⟨y, hy⟩
      have := (List.getElem?_eq_some_iff.1 hy).1
      omega
    · intro hin
      exact ⟨_, List.getElem?_eq_getElem (by omega)⟩
  · rw [if_neg hlow]
    simp [hlow]

section Window

variable {policy : OverlapPolicy} {segments : List Segment} {low a b : ℤ} {s : Summary}

theorem coveringSegments_eq (hel : Elementary (intervals segments) a b) {x : ℤ} (ha : a ≤ x)
    (hb : x < b) : coveringSegments segments x = coveringSegments segments a := by
  apply List.filter_congr
  intro t ht
  have h := hel.2 _ (List.mem_map_of_mem ht)
  rw [decide_eq_decide]
  simp only [Segment.Covers]
  dsimp only at h
  omega

theorem byteAt_raw {t : Segment} (hcov : t.Covers a) (hab : a < b) (x : ℤ) (y : U8) :
    byteAt (a, raw t a b) x = some y ↔ a ≤ x ∧ x < b ∧ t.byteAt x = some y := by
  obtain ⟨hstart, -⟩ := hcov
  unfold byteAt Segment.byteAt raw
  by_cases hlow : a ≤ x
  · rw [if_pos hlow, if_pos (by omega), List.getElem?_drop, List.getElem?_take,
      show (a - t.start).toNat + (x - a).toNat = (x - t.start).toNat by omega]
    by_cases hhigh : x < b
    · rw [if_pos (by omega)]
      simp [hlow, hhigh]
    · rw [if_neg (by omega)]
      simp [hhigh]
  · rw [if_neg hlow]
    simp [hlow]

theorem Swept.gap (h : Swept policy segments low a s) (hla : low ≤ a)
    (hel : Elementary (intervals segments) a b)
    (hnone : coveringSegments segments a = []) (reason : String) {t : Summary}
    (ht : t.contents = s.contents) (hg : t.gaps = s.gaps ++ [⟨a, b, reason⟩]) :
    Swept policy segments low b t := by
  have hab := hel.1
  refine ⟨?_, fun x => ?_, fun x y => ?_⟩
  · intro g hmem
    rw [hg] at hmem
    rcases List.mem_append.1 hmem with hmem | hmem
    · exact h.gaps g hmem
    · rw [List.mem_singleton.1 hmem]
      exact hab
  · have hcount := h.count x
    have hsplit : hits (gapSpans t.gaps) x =
        hits (gapSpans s.gaps) x + if a ≤ x ∧ x < b then 1 else 0 := by
      rw [hg, gapSpans, List.map_append, hits_append]
      exact congrArg _ (hits_single a b x)
    rw [ht, hsplit, ← Nat.add_assoc, hcount]
    split_ifs <;> omega
  · rw [ht, h.bytes]
    constructor
    · rintro ⟨h1, h2, h3⟩
      exact ⟨h1, by omega, h3⟩
    · rintro ⟨h1, h2, h3⟩
      refine ⟨h1, ?_, h3⟩
      by_contra hx
      rw [observed, coveringSegments_eq hel (by omega) h2, hnone] at h3
      unfold choose at h3
      split_ifs at h3 <;> cases h3

theorem Swept.chunk (h : Swept policy segments low a s) (hla : low ≤ a)
    (hel : Elementary (intervals segments) a b) {u : Segment}
    (hu : choose policy (coveringSegments segments a) = some u) {t : Summary}
    (ht : t.contents = extend s.contents a (raw u a b)) (hg : t.gaps = s.gaps) :
    Swept policy segments low b t := by
  have hab := hel.1
  obtain ⟨hmem, hcov⟩ := mem_coveringSegments.1 (choose_mem hu)
  have hbu : b ≤ u.stop := (hel.2 _ (List.mem_map_of_mem hmem)).2.1 hcov.2
  have hlen : (raw u a b).length = (b - a).toNat := raw_length hcov hab hbu
  refine ⟨by rw [hg]; exact h.gaps, fun x => ?_, fun x y => ?_⟩
  · have hcount := h.count x
    rw [ht, hg, hits_extend, hlen, Nat.add_right_comm, hcount]
    split_ifs <;> omega
  · rw [ht, byteAt_extend, h.bytes, byteAt_raw hcov hab]
    have hwindow (hx : a ≤ x) (hxb : x < b) : observed policy segments x = u.byteAt x := by
      rw [observed, coveringSegments_eq hel hx hxb, hu]
      rfl
    constructor
    · rintro (⟨h1, h2, h3⟩ | ⟨h1, h2, h3⟩)
      · exact ⟨h1, by omega, h3⟩
      · exact ⟨by omega, h2, by rw [hwindow h1 h2, h3]⟩
    · rintro ⟨h1, h2, h3⟩
      by_cases hx : x < a
      · exact Or.inl ⟨h1, hx, h3⟩
      · exact Or.inr ⟨by omega, h2, by rw [← hwindow (by omega) h2, h3]⟩

theorem Swept.window (hpolicy : policy ≠ .rejectConflict) (h : Swept policy segments low a s)
    (hla : low ≤ a) (hel : Elementary (intervals segments) a b) :
    Swept policy segments low b (summaryWindow policy (coveringSegments segments a) a b s) := by
  unfold summaryWindow
  cases hc : choose policy (coveringSegments segments a) with
  | none => exact h.gap hla hel (choose_eq_none.1 hc) _ rfl rfl
  | some u =>
    dsimp only
    rw [if_neg (fun hclash => hpolicy hclash.2)]
    exact h.chunk hla hel hc rfl rfl

end Window

theorem summaryScan_swept {s : StreamAssembler} {policy : OverlapPolicy} {t : Summary}
    (hpolicy : policy ≠ .rejectConflict) (hne : s.segments ≠ [])
    (h : s.summaryScan policy = .ok t) :
    ∃ low high, (∀ p ∈ s.boundaries, low ≤ p ∧ p ≤ high) ∧ low ∈ s.boundaries ∧
      high ∈ s.boundaries ∧ Swept policy s.segments low high t := by
  obtain ⟨a, rest, hb, hc⟩ := boundaries_complete hne
  obtain ⟨t', ht', hle, hswept⟩ := scan_invariant (fun b u => a ≤ b ∧ Swept policy s.segments a b u)
    (fun a b t =>
      (.ok (summaryWindow policy (coveringSegments s.segments a) a b t) : Result Summary))
    (fun x y u hel h => ⟨_, rfl, h.1.trans hel.1.le, h.2.window hpolicy h.1 hel⟩) hc
    (s := s.blank.summary) ⟨le_rfl, by
      refine ⟨by simp [blank, StreamResult.summary], fun x => ?_, fun x y => ?_⟩
      · rw [if_neg (by omega)]
        rfl
      · simp only [blank, StreamResult.summary, List.map_nil, List.not_mem_nil, false_and,
          exists_false, false_iff]
        omega⟩
  rw [summaryScan, hb, ht'] at h
  obtain rfl := Except.ok.inj h
  have hsorted : (a :: rest).Pairwise (· < ·) := hc.1
  refine ⟨a, _, ?_, ?_, ?_, hswept⟩
  · intro p hp
    rw [hb] at hp
    constructor
    · rcases List.mem_cons.1 hp with rfl | hp
      · exact le_rfl
      · exact ((List.pairwise_cons.1 hsorted).1 p hp).le
    · exact (hsorted.imp le_of_lt).rel_getLast hp
  · rw [hb]
    simp
  · rw [hb]
    exact List.getLast_mem _

theorem within_boundaries {s : StreamAssembler} {low high x : ℤ}
    (hrange : ∀ p ∈ s.boundaries, low ≤ p ∧ p ≤ high) {seg : Segment} (hseg : seg ∈ s.segments)
    (hcov : seg.Covers x) : low ≤ x ∧ x < high := by
  have h1 := hrange seg.start ((mem_boundaries _).2 (Or.inl ⟨seg, hseg, Or.inl rfl⟩))
  have h2 := hrange seg.stop ((mem_boundaries _).2 (Or.inl ⟨seg, hseg, Or.inr rfl⟩))
  obtain ⟨hlow, hhigh⟩ := hcov
  omega

theorem observed_isSome_iff (policy : OverlapPolicy) (segments : List Segment) (x : ℤ) :
    (∃ y, observed policy segments x = some y) ↔ ∃ seg ∈ segments, seg.Covers x := by
  unfold observed
  constructor
  · rintro ⟨y, hy⟩
    obtain ⟨seg, hseg, -⟩ := Option.bind_eq_some_iff.1 hy
    obtain ⟨hmem, hcov⟩ := mem_coveringSegments.1 (choose_mem hseg)
    exact ⟨seg, hmem, hcov⟩
  · rintro ⟨seg, hmem, hcov⟩
    cases hc : choose policy (coveringSegments segments x) with
    | none =>
      have hin : seg ∈ coveringSegments segments x := mem_coveringSegments.2 ⟨hmem, hcov⟩
      rw [choose_eq_none.1 hc] at hin
      cases hin
    | some u =>
      obtain ⟨hstart, hstop⟩ := (mem_coveringSegments.1 (choose_mem hc)).2
      rw [u.stop_eq] at hstop
      have hlt : (x - u.start).toNat < u.bytes.data.length := by omega
      exact ⟨u.bytes.data[(x - u.start).toNat], by
        simp [Segment.byteAt, hstart, List.getElem?_eq_getElem hlt]⟩

def samplePayload (data : List U8) (frame : ℕ) : EvidenceBytes :=
  .fromPacket data ⟨Vector.replicate 32 0, frame, 100 * frame⟩ 54

/-- Two overlapping payloads after a SYN with sequence number 999, and a FIN with a gap before it. -/
def sampleOps : List Op :=
  [.push 1000 (samplePayload [1, 2, 3, 4] 1), .push 1002 (samplePayload [7, 8, 9] 2), .endAt 1007]

end StreamAssembler
end PcapEvidence
