import PcapEvidence.StreamAssembler

/-!
# The content of a reconstruction

Forgetting the source spans turns a reconstruction into a `Summary`: offsets with plain bytes,
gaps, conflicts and the duplicate count.
-/

namespace PcapEvidence

open SortedVec OrderedMap IntervalSweep EvidenceBytes

/-- Plain bytes at a stream offset. -/
abbrev Content := ℤ × List U8

namespace Content

def stop (p : Content) : ℤ := p.1 + p.2.length

def byteAt (p : Content) (x : ℤ) : Option U8 :=
  if p.1 ≤ x then p.2[(x - p.1).toNat]? else none

/-- Appends bytes at `a`, extending a last piece that ends there. -/
def extend (pieces : List Content) (a : ℤ) (data : List U8) : List Content :=
  match pieces.getLast? with
  | none => [(a, data)]
  | some p => if stop p = a then pieces.dropLast ++ [(p.1, p.2 ++ data)] else pieces ++ [(a, data)]

/-- Non-empty pieces in order, never adjacent, all of them before `a`. -/
structure Before (a : ℤ) (pieces : List Content) : Prop where
  nonempty : ∀ p ∈ pieces, p.2 ≠ []
  le : ∀ p ∈ pieces, stop p ≤ a
  apart : pieces.Pairwise (fun p q => stop p < q.1)

theorem extend_cases (pieces : List Content) (a : ℤ) (data : List U8) :
    (extend pieces a data = pieces ++ [(a, data)] ∧ ∀ p ∈ pieces.getLast?, stop p ≠ a) ∨
    ∃ init p, pieces = init ++ [p] ∧ stop p = a ∧
      extend pieces a data = init ++ [(p.1, p.2 ++ data)] := by
  unfold extend
  cases h : pieces.getLast? with
  | none =>
    rw [List.getLast?_eq_none_iff.1 h]
    exact Or.inl ⟨rfl, by simp⟩
  | some p =>
    dsimp only
    by_cases hp : stop p = a
    · obtain ⟨init, rfl⟩ := List.getLast?_eq_some_iff.1 h
      exact Or.inr ⟨init, p, rfl, hp, by rw [if_pos hp, List.dropLast_concat]⟩
    · rw [if_neg hp]
      exact Or.inl ⟨rfl, by simpa using hp⟩

theorem Before.extend {a : ℤ} {pieces : List Content} (h : Before a pieces) {data : List U8}
    (hdata : data ≠ []) : Before (a + data.length) (extend pieces a data) := by
  rcases extend_cases pieces a data with ⟨heq, hlast⟩ | ⟨init, p, rfl, hp, heq⟩
  · rw [heq]
    refine ⟨?_, ?_, ?_⟩
    · intro p hp
      rcases List.mem_append.1 hp with hp | hp
      · exact h.nonempty p hp
      · rwa [List.mem_singleton.1 hp]
    · intro p hp
      rcases List.mem_append.1 hp with hp | hp
      · have := h.le p hp
        omega
      · rw [List.mem_singleton.1 hp]
        rfl
    · refine List.pairwise_append.2 ⟨h.apart, by simp, fun p hp q hq => ?_⟩
      rw [List.mem_singleton.1 hq]
      -- the last piece ends before `a`, the earlier ones even before the last one starts
      obtain ⟨init, z, rfl⟩ := (List.eq_nil_or_concat' pieces).resolve_left (List.ne_nil_of_mem hp)
      have hz := h.le z (by simp)
      have hza := hlast z (by simp)
      have hlt : stop z < a := lt_of_le_of_ne hz hza
      rcases List.mem_append.1 hp with hp | hp
      · have := (List.pairwise_append.1 h.apart).2.2 p hp z (by simp)
        have : z.1 ≤ stop z := by simp [stop]
        change stop p < a
        omega
      · rw [List.mem_singleton.1 hp]
        exact hlt
  · rw [heq]
    have hlong : stop (p.1, p.2 ++ data) = a + data.length := by
      rw [← hp]
      simp [stop, add_assoc]
    obtain ⟨hinit, -, hcross⟩ := List.pairwise_append.1 h.apart
    refine ⟨?_, ?_, ?_⟩
    · intro q hq
      rcases List.mem_append.1 hq with hq | hq
      · exact h.nonempty q (by simp [hq])
      · rw [List.mem_singleton.1 hq]
        simp [hdata]
    · intro q hq
      rcases List.mem_append.1 hq with hq | hq
      · have := h.le q (by simp [hq])
        omega
      · rw [List.mem_singleton.1 hq, hlong]
    · refine List.pairwise_append.2 ⟨hinit, by simp, fun q hq q' hq' => ?_⟩
      rw [List.mem_singleton.1 hq']
      exact hcross q hq p (by simp)

theorem byteAt_append (p : Content) (data : List U8) (x : ℤ) (y : U8) :
    byteAt (p.1, p.2 ++ data) x = some y ↔
      byteAt p x = some y ∨ byteAt (stop p, data) x = some y := by
  have hstop : stop p = p.1 + p.2.length := rfl
  unfold byteAt
  dsimp only
  by_cases hlow : p.1 ≤ x
  · by_cases hin : (x - p.1).toNat < p.2.length
    · rw [if_pos hlow, if_pos hlow, if_neg (by omega), List.getElem?_append_left hin]
      simp
    · have hout : p.2[(x - p.1).toNat]? = none := List.getElem?_eq_none (by omega)
      rw [if_pos hlow, if_pos hlow, if_pos (by omega), List.getElem?_append_right (by omega), hout,
        show (x - p.1).toNat - p.2.length = (x - stop p).toNat by omega]
      simp
  · rw [if_neg hlow, if_neg hlow, if_neg (by omega)]
    simp

theorem byteAt_extend (pieces : List Content) (a : ℤ) (data : List U8) (x : ℤ) (y : U8) :
    (∃ p ∈ extend pieces a data, byteAt p x = some y) ↔
      (∃ p ∈ pieces, byteAt p x = some y) ∨ byteAt (a, data) x = some y := by
  rcases extend_cases pieces a data with ⟨heq, -⟩ | ⟨init, p, rfl, hp, heq⟩
  · rw [heq]
    simp [or_and_right, exists_or]
  · rw [heq]
    subst hp
    simp [or_and_right, exists_or, byteAt_append, or_assoc]

/-- How many of the intervals contain an offset. -/
def hits (spans : List Interval) (x : ℤ) : ℕ := spans.countP (fun p => p.1 ≤ x ∧ x < p.2)

def spansOf (pieces : List Content) : List Interval := pieces.map (fun p => (p.1, stop p))

theorem hits_append (xs ys : List Interval) (x : ℤ) : hits (xs ++ ys) x = hits xs x + hits ys x :=
  List.countP_append

theorem hits_single (a b x : ℤ) : hits [(a, b)] x = if a ≤ x ∧ x < b then 1 else 0 := by
  simp [hits, List.countP_singleton]

theorem hits_extend (pieces : List Content) (a : ℤ) (data : List U8) (x : ℤ) :
    hits (spansOf (extend pieces a data)) x =
      hits (spansOf pieces) x + if a ≤ x ∧ x < a + data.length then 1 else 0 := by
  rcases extend_cases pieces a data with ⟨heq, -⟩ | ⟨init, p, rfl, hp, heq⟩
  · rw [heq, spansOf, List.map_append, hits_append]
    exact congrArg _ (hits_single _ _ _)
  · rw [heq, spansOf, List.map_append, hits_append, spansOf, List.map_append, hits_append]
    have hlong : stop (p.1, p.2 ++ data) = a + data.length := by
      rw [← hp]
      simp [stop, add_assoc]
    have hle : p.1 ≤ a := by
      rw [← hp]
      simp [stop]
    simp only [List.map_cons, List.map_nil, hits_single, hlong, hp]
    split_ifs <;> omega

end Content

structure Summary where
  contents : List Content
  gaps : List StreamGap
  conflicts : List Conflict
  duplicates : ℕ

def StreamChunk.content (c : StreamChunk) : Content := (c.offset, c.bytes.data)

def StreamResult.summary (r : StreamResult) : Summary :=
  ⟨r.chunks.map StreamChunk.content, r.gaps, r.conflicts, r.duplicateObservedBytes⟩

namespace StreamAssembler

def summaryWindow (policy : OverlapPolicy) (covers : List Segment) (a b : ℤ) (s : Summary) :
    Summary :=
  match choose policy covers with
  | none => { s with gaps := s.gaps ++ [⟨a, b, "missing_capture_bytes"⟩] }
  | some t =>
    let s : Summary := { s with
      duplicates := s.duplicates +
        (((others policy covers).filter (fun u => raw u a b = raw t a b)).map
          (fun u => (raw u a b).length)).sum
      conflicts := if clash covers t a b then
          s.conflicts ++ [⟨a, b, sortDedup (covers.flatMap (fun u => rawPackets u a b))⟩]
        else s.conflicts }
    if clash covers t a b ∧ policy = .rejectConflict then
      { s with gaps := s.gaps ++ [⟨a, b, "conflicting_capture_bytes"⟩] }
    else { s with contents := Content.extend s.contents a (raw t a b) }

structure Bounds (segments : List Segment) (limit : ℕ) (low high : ℤ) : Prop where
  valid : ∀ s ∈ segments, s.bytes.Valid
  nonempty : ∀ s ∈ segments, s.bytes.data ≠ []
  range : ∀ s ∈ segments, low ≤ s.start ∧ s.stop ≤ high
  span : high - low ≤ limit
  word : limit < wordBound

/-- Chunks that were cut from the segments, before the boundary `a`. -/
structure Cut (segments : List Segment) (low high a : ℤ) (chunks : List StreamChunk) : Prop where
  valid : ∀ c ∈ chunks, c.bytes.Valid
  range : ∀ c ∈ chunks, low ≤ c.offset ∧ c.stop ≤ high
  before : Content.Before a (chunks.map StreamChunk.content)
  source : ∀ c ∈ chunks, ∀ v ∈ c.bytes.view, ∃ s ∈ segments, v ∈ s.bytes.view

section Window

variable {segments : List Segment} {limit : ℕ} {low high a b : ℤ} {chunks : List StreamChunk}

theorem Bounds.start_lt (h : Bounds segments limit low high) :
    ∀ iv ∈ intervals segments, iv.1 < iv.2 := by
  intro iv hiv
  obtain ⟨s, hs, rfl⟩ := List.mem_map.1 hiv
  have := List.length_pos_iff.2 (h.nonempty s hs)
  change s.start < s.stop
  rw [s.stop_eq]
  omega

theorem raw_length {s : Segment} (hs : s.Covers a) (hab : a < b) (hb : b ≤ s.stop) :
    (raw s a b).length = (b - a).toNat := by
  obtain ⟨hstart, -⟩ := hs
  rw [s.stop_eq] at hb
  simp only [raw, List.length_drop, List.length_take]
  omega

theorem Bounds.slice (h : Bounds segments limit low high) {s : Segment} (hs : s ∈ segments)
    (hcov : s.Covers a) (hab : a < b) (hb : b ≤ s.stop) :
    ∃ bytes, s.bytes.slice (a - s.start).toNat (b - s.start).toNat = .ok bytes ∧ bytes.Valid ∧
      bytes.data = raw s a b ∧ ∀ v ∈ bytes.view, v ∈ s.bytes.view := by
  obtain ⟨hstart, -⟩ := hcov
  rw [s.stop_eq] at hb
  obtain ⟨bytes, hok, -⟩ := slice_spec (h.valid s hs)
    (show (a - s.start).toNat ≤ (b - s.start).toNat by omega)
    (show (b - s.start).toNat ≤ s.bytes.data.length by omega)
  obtain ⟨hvalid, hdata, hview⟩ := view_slice (h.valid s hs) hok
  refine ⟨bytes, hok, hvalid, hdata, fun v hv => ?_⟩
  rw [hview] at hv
  exact List.mem_of_mem_take (List.mem_of_mem_drop hv)

theorem Cut.append (h : Cut segments low high a chunks) (init : List StreamChunk) {c : StreamChunk}
    (hv : c.bytes.Valid) (hrange : low ≤ c.offset ∧ c.stop ≤ high)
    (hsource : ∀ v ∈ c.bytes.view, ∃ s ∈ segments, v ∈ s.bytes.view)
    (hinit : ∀ d ∈ init, d ∈ chunks)
    (hbefore : Content.Before b ((init ++ [c]).map StreamChunk.content)) :
    Cut segments low high b (init ++ [c]) := by
  refine ⟨?_, ?_, hbefore, ?_⟩
  · intro d hd
    rcases List.mem_append.1 hd with hd | hd
    · exact h.valid d (hinit d hd)
    · rwa [List.mem_singleton.1 hd]
  · intro d hd
    rcases List.mem_append.1 hd with hd | hd
    · exact h.range d (hinit d hd)
    · rwa [List.mem_singleton.1 hd]
  · intro d hd
    rcases List.mem_append.1 hd with hd | hd
    · exact h.source d (hinit d hd)
    · rwa [List.mem_singleton.1 hd]

/-- Appending the bytes of a window never fails and follows `Content.extend`. -/
theorem Cut.pushChunk (h : Cut segments low high a chunks) (hb : Bounds segments limit low high)
    {bytes : EvidenceBytes} (hv : bytes.Valid) (hne : bytes.data ≠ [])
    (hsource : ∀ v ∈ bytes.view, ∃ s ∈ segments, v ∈ s.bytes.view)
    (hlow : low ≤ a) (hhigh : a + bytes.data.length ≤ high) :
    ∃ out, pushChunk limit chunks a bytes = .ok out ∧
      Cut segments low high (a + bytes.data.length) out ∧
      out.map StreamChunk.content =
        Content.extend (chunks.map StreamChunk.content) a bytes.data := by
  have hbefore : Content.Before (a + bytes.data.length)
      (Content.extend (chunks.map StreamChunk.content) a bytes.data) := h.before.extend hne
  unfold StreamAssembler.pushChunk
  unfold Content.extend at hbefore ⊢
  rw [List.getLast?_map] at hbefore ⊢
  cases hlast : chunks.getLast? with
  | none =>
    rw [hlast] at hbefore
    refine ⟨[⟨a, bytes⟩], rfl, ?_, rfl⟩
    exact h.append [] (c := ⟨a, bytes⟩) hv ⟨hlow, hhigh⟩ hsource (by simp) hbefore
  | some previous =>
    rw [hlast] at hbefore
    simp only [Option.map_some] at hbefore ⊢
    have hprev : previous ∈ chunks := List.mem_of_getLast? hlast
    have hstop : Content.stop previous.content = previous.stop := rfl
    rw [hstop] at hbefore ⊢
    by_cases heq : previous.stop = a
    · rw [if_pos heq] at hbefore ⊢
      rw [if_pos heq]
      have hrange := h.range previous hprev
      have hlen : previous.bytes.data.length + bytes.data.length ≤ limit := by
        have hspan := hb.span
        have hpstop : previous.stop = previous.offset + previous.bytes.data.length := rfl
        omega
      obtain ⟨joined, hok, -⟩ := append_spec (h.valid previous hprev) hv
        (lt_of_le_of_lt hlen hb.word) hlen
      obtain ⟨hjv, hjdata, hjview⟩ := view_append (h.valid previous hprev) hv hok
      rw [← List.map_dropLast] at hbefore ⊢
      have hcontent : StreamChunk.content ⟨previous.offset, joined⟩ =
          (previous.content.1, previous.content.2 ++ bytes.data) := by
        simp [StreamChunk.content, hjdata]
      refine ⟨chunks.dropLast ++ [⟨previous.offset, joined⟩], by rw [hok], ?_, ?_⟩
      · refine h.append _ (c := ⟨previous.offset, joined⟩) hjv ⟨hrange.1, ?_⟩ ?_
          (fun d hd => List.mem_of_mem_dropLast hd) ?_
        · have hpstop : previous.stop = previous.offset + previous.bytes.data.length := rfl
          change previous.offset + (joined.data.length : ℤ) ≤ high
          rw [hjdata, List.length_append]
          push_cast
          omega
        · intro v hvv
          rw [hjview] at hvv
          rcases List.mem_append.1 hvv with hvv | hvv
          · exact h.source previous hprev v hvv
          · exact hsource v hvv
        · rw [List.map_append, List.map_cons, hcontent]
          exact hbefore
      · rw [List.map_append, List.map_cons, hcontent]
        rfl
    · rw [if_neg heq] at hbefore ⊢
      rw [if_neg heq]
      refine ⟨chunks ++ [⟨a, bytes⟩], rfl, ?_, by simp [StreamChunk.content]⟩
      refine h.append _ (c := ⟨a, bytes⟩) hv ⟨hlow, hhigh⟩ hsource (fun d hd => hd) ?_
      simpa [StreamChunk.content] using hbefore

theorem Cut.mono (h : Cut segments low high a chunks) (hab : a ≤ b) :
    Cut segments low high b chunks :=
  ⟨h.valid, h.range, ⟨h.before.nonempty, fun p hp => (h.before.le p hp).trans hab, h.before.apart⟩,
    h.source⟩

theorem observe_spec (hb : Bounds segments limit low high) (policy : OverlapPolicy)
    (hel : Elementary (intervals segments) a b) {result : StreamResult}
    (h : Cut segments low high a result.chunks) :
    ∃ out, observe limit policy (coveringSegments segments a) a b result = .ok out ∧
      Cut segments low high b out.chunks ∧
      out.summary = summaryWindow policy (coveringSegments segments a) a b result.summary := by
  obtain ⟨hab, hel⟩ := hel
  unfold observe summaryWindow
  cases hc : choose policy (coveringSegments segments a) with
  | none => exact ⟨_, rfl, h.mono hab.le, rfl⟩
  | some s =>
    obtain ⟨hs, hcov⟩ := mem_coveringSegments.1 (choose_mem hc)
    have hbs : b ≤ s.stop := (hel _ (List.mem_map_of_mem hs)).2.1 hcov.2
    dsimp only
    by_cases hclash : clash (coveringSegments segments a) s a b ∧ policy = .rejectConflict
    · rw [if_pos hclash, if_pos hclash]
      exact ⟨_, rfl, h.mono hab.le, rfl⟩
    · rw [if_neg hclash, if_neg hclash]
      obtain ⟨bytes, hslice, hv, hdata, hview⟩ := hb.slice hs hcov hab hbs
      have hlen : (bytes.data.length : ℤ) = b - a := by
        rw [hdata, raw_length hcov hab hbs]
        omega
      have hrange := hb.range s hs
      have hne : bytes.data ≠ [] := List.length_pos_iff.1 (by omega)
      obtain ⟨out, hpush, hcut, hcontent⟩ := h.pushChunk hb hv hne
        (fun v hvv => ⟨s, hs, hview v hvv⟩) (hrange.1.trans hcov.1) (by omega)
      rw [hslice]
      dsimp only
      rw [hpush]
      refine ⟨_, rfl, ?_, ?_⟩
      · rwa [show b = a + bytes.data.length by omega]
      · simp only [StreamResult.summary, hcontent, hdata, tally]

end Window

end StreamAssembler
end PcapEvidence
