import PcapEvidence.StreamCoverage

/-!
# Conflict rejection does not depend on the arrival order

Two runs that push the same segments in different orders see, at each boundary, permutations of the
same covering segments. Where these agree on a window it does not matter which of them supplies the
bytes; where they disagree the window is a gap and a conflict in both runs.
-/

namespace PcapEvidence.StreamAssembler

open SortedVec OrderedMap IntervalSweep Content

/-- How many covering segments hold the bytes of `u` on a window. -/
def multiplicity (covers : List Segment) (a b : ℤ) (u : Segment) : ℕ :=
  covers.countP (fun t => raw t a b = raw u a b)

/-- On every conflict interval the differing contents are held by equally many segments. -/
def EvenConflicts (segments : List Segment) (conflicts : List Conflict) : Prop :=
  ∀ c ∈ conflicts, ∀ u ∈ coveringSegments segments c.start,
    ∀ v ∈ coveringSegments segments c.start,
      multiplicity (coveringSegments segments c.start) c.start c.stop u =
        multiplicity (coveringSegments segments c.start) c.start c.stop v

section Window

variable {covers covers' : List Segment} {a b : ℤ} {u v : Segment}

theorem clash_iff : clash covers u a b = true ↔ ∃ t ∈ covers, raw t a b ≠ raw u a b := by
  simp [clash]

theorem clash_perm_imp (hperm : covers.Perm covers') (hu : u ∈ covers)
    (h : clash covers u a b = true) : clash covers' v a b = true := by
  obtain ⟨t, ht, hne⟩ := clash_iff.1 h
  rw [clash_iff]
  by_cases hv : raw t a b = raw v a b
  · exact ⟨u, hperm.mem_iff.1 hu, fun heq => hne (hv.trans heq.symm)⟩
  · exact ⟨t, hperm.mem_iff.1 ht, hv⟩

theorem clash_perm (hperm : covers.Perm covers') (hu : u ∈ covers) (hv : v ∈ covers') :
    clash covers u a b = clash covers' v a b := by
  rw [Bool.eq_iff_iff]
  exact ⟨clash_perm_imp hperm hu, clash_perm_imp hperm.symm hv⟩

theorem raw_eq_of_not_clash (h : clash covers u a b = false) (hv : v ∈ covers) :
    raw v a b = raw u a b := by
  by_contra hne
  rw [clash_iff.2 ⟨v, hv, hne⟩] at h
  cases h

theorem repeats_eq {policy : OverlapPolicy} (hu : choose policy covers = some u) :
    (((others policy covers).filter (fun t => raw t a b = raw u a b)).map
      (fun t => (raw t a b).length)).sum =
        (multiplicity covers a b u - 1) * (raw u a b).length := by
  have hmap : ((others policy covers).filter (fun t => raw t a b = raw u a b)).map
      (fun t => (raw t a b).length) =
      ((others policy covers).filter (fun t => raw t a b = raw u a b)).map
        (fun _ => (raw u a b).length) := by
    apply List.map_congr_left
    intro t ht
    have heq : raw t a b = raw u a b := by simpa using (List.mem_filter.1 ht).2
    rw [heq]
  have hcount : multiplicity covers a b u =
      (others policy covers).countP (fun t => raw t a b = raw u a b) + 1 := by
    unfold choose at hu
    unfold multiplicity others
    split_ifs at hu ⊢
    · obtain ⟨init, rfl⟩ := List.getLast?_eq_some_iff.1 hu
      simp [List.countP_append]
    · obtain ⟨rest, rfl⟩ := List.head?_eq_some_iff.1 hu
      simp
  rw [hmap, List.map_const', List.sum_replicate, hcount, ← List.countP_eq_length_filter]
  simp

theorem multiplicity_perm (hperm : covers.Perm covers') (u : Segment) :
    multiplicity covers a b u = multiplicity covers' a b u := hperm.countP_eq _

theorem multiplicity_of_not_clash (h : clash covers u a b = false) :
    multiplicity covers a b u = covers.length := by
  unfold multiplicity
  rw [List.countP_eq_length]
  intro t ht
  simpa using raw_eq_of_not_clash h ht

end Window

/-- Summaries that differ at most in the duplicate count, and only under uneven conflicts. -/
structure SameContent (segments : List Segment) (s t : Summary) : Prop where
  contents : s.contents = t.contents
  gaps : s.gaps = t.gaps
  conflicts : s.conflicts = t.conflicts
  duplicates : EvenConflicts segments s.conflicts → s.duplicates = t.duplicates

section Step

variable {segments segments' : List Segment} {a b : ℤ} {s t : Summary}

theorem coveringSegments_perm (hperm : segments.Perm segments') (x : ℤ) :
    (coveringSegments segments x).Perm (coveringSegments segments' x) := hperm.filter _

theorem SameContent.window (hperm : segments.Perm segments')
    (hel : Elementary (intervals segments) a b) (h : SameContent segments s t) :
    SameContent segments
      (summaryWindow .rejectConflict (coveringSegments segments a) a b s)
      (summaryWindow .rejectConflict (coveringSegments segments' a) a b t) := by
  have hcov := coveringSegments_perm hperm a
  unfold summaryWindow
  cases hu : choose .rejectConflict (coveringSegments segments a) with
  | none =>
    have hnil := hcov.symm
    rw [choose_eq_none.1 hu] at hnil
    have hv : choose .rejectConflict (coveringSegments segments' a) = none :=
      choose_eq_none.2 hnil.eq_nil
    rw [hv]
    exact ⟨h.contents, by rw [h.gaps], h.conflicts, h.duplicates⟩
  | some u =>
    have humem := choose_mem hu
    cases hv : choose .rejectConflict (coveringSegments segments' a) with
    | none =>
      rw [choose_eq_none.1 hv] at hcov
      rw [hcov.eq_nil] at humem
      cases humem
    | some v =>
      have hvmem := hcov.mem_iff.2 (choose_mem hv)
      have hclash := clash_perm (a := a) (b := b) hcov humem (choose_mem hv)
      have hpackets : sortDedup ((coveringSegments segments a).flatMap
            (fun u => rawPackets u a b)) =
          sortDedup ((coveringSegments segments' a).flatMap (fun u => rawPackets u a b)) :=
        sortDedup_congr (fun p => (hcov.flatMap_right _).mem_iff)
      have hlen : (raw u a b).length = (raw v a b).length := by
        have hstop (w : Segment) (hw : w ∈ coveringSegments segments a) :
            (raw w a b).length = (b - a).toNat := by
          obtain ⟨hmem, hw⟩ := mem_coveringSegments.1 hw
          exact raw_length hw hel.1 ((hel.2 _ (List.mem_map_of_mem hmem)).2.1 hw.2)
        rw [hstop u humem, hstop v hvmem]
      dsimp only
      rw [repeats_eq hu, repeats_eq hv, hlen, ← hclash, ← hpackets, ← multiplicity_perm hcov]
      cases hc : clash (coveringSegments segments a) u a b with
      | true =>
        refine ⟨h.contents, by simp [h.gaps], by simp [h.conflicts], fun heven => ?_⟩
        have hold : s.duplicates = t.duplicates :=
          h.duplicates (fun c hc => heven c (by simp [hc]))
        have hnow := heven ⟨a, b, sortDedup ((coveringSegments segments a).flatMap
          (fun u => rawPackets u a b))⟩ (by simp) u humem v hvmem
        dsimp only at hnow
        simp [hold, hnow]
      | false =>
        have hraw : raw v a b = raw u a b := raw_eq_of_not_clash hc hvmem
        have hc' : clash (coveringSegments segments a) v a b = false := by
          rw [clash_perm (List.Perm.refl _) hvmem humem, hc]
        refine ⟨by simp [h.contents, hraw], by simp [h.gaps], by simp [h.conflicts],
          fun heven => ?_⟩
        have hold : s.duplicates = t.duplicates := h.duplicates (by simpa using heven)
        simp [hold, multiplicity_of_not_clash hc, multiplicity_of_not_clash hc']

end Step

section Run

variable {syn : U32} {limits : Limits} {ops ops' : List Op} {s t : StreamAssembler}

theorem pushed_perm (base : U32) (h : ops.Perm ops') :
    (pushed base ops).Perm (pushed base ops') := h.filterMap _

structure SameCalls (s t : StreamAssembler) : Prop where
  segments : s.segments.Perm t.segments
  limits : s.limits = t.limits
  anchored : s.anchoredBySyn = t.anchoredBySyn
  fin : s.fin = t.fin

theorem sameCalls_run (hperm : ops.Perm ops') (hs : (new (some syn) limits).run ops = .ok s)
    (ht : (new (some syn) limits).run ops' = .ok t) : SameCalls s t := by
  obtain ⟨hlim, hanc, hbase⟩ := run_frame hs
  obtain ⟨hlim', hanc', hbase'⟩ := run_frame ht
  obtain ⟨hfin, -, hno⟩ := run_fin rfl hs
  obtain ⟨hfin', -, hno'⟩ := run_fin rfl ht
  refine ⟨?_, hlim.trans hlim'.symm, hanc.trans hanc'.symm, ?_⟩
  · rw [run_segments hs, run_segments ht, hbase _ rfl, hbase' _ rfl]
    exact (pushed_perm _ hperm).append_left _
  · cases hf : s.fin with
    | some f =>
      obtain hf' | ⟨q, hq⟩ := hno f hf
      · cases hf'
      · rw [hfin' q (hperm.mem_iff.1 hq), ← hfin q hq, hf]
    | none =>
      cases hf' : t.fin with
      | none => rfl
      | some f =>
        obtain hn | ⟨q, hq⟩ := hno' f hf'
        · cases hn
        · rw [hfin q (hperm.mem_iff.2 hq)] at hf
          cases hf

theorem Placed.max_le_of_perm (hs : Placed s) (ht : Placed t)
    (hperm : s.segments.Perm t.segments) : s.max ≤ t.max := by
  rcases hs.attained with hmax | ⟨seg, hseg, hmax⟩
  · rw [hmax]
    exact ht.zero_le
  · rw [hmax]
    exact (ht.bounds.range seg (hperm.mem_iff.1 hseg)).2

theorem SameCalls.boundaries (h : SameCalls s t) : s.boundaries = t.boundaries := by
  apply eq_of_sorted_of_mem_iff boundaries_sorted boundaries_sorted
  intro p
  rw [mem_boundaries, mem_boundaries, h.anchored, h.fin]
  simp only [h.segments.mem_iff]

theorem SameCalls.summaryScan (h : SameCalls s t) (hne : s.segments ≠ []) :
    ∃ u v, s.summaryScan .rejectConflict = .ok u ∧ t.summaryScan .rejectConflict = .ok v ∧
      SameContent s.segments u v := by
  obtain ⟨a, rest, hb, hc⟩ := boundaries_complete hne
  obtain ⟨u, v, hu, hv, hsame⟩ := scan_simulation (fun _ u v => SameContent s.segments u v)
    (fun a b w =>
      (.ok (summaryWindow .rejectConflict (coveringSegments s.segments a) a b w) : Result Summary))
    (fun a b w => .ok (summaryWindow .rejectConflict (coveringSegments t.segments a) a b w))
    (fun a b u v hel huv => ⟨_, _, rfl, rfl, huv.window h.segments hel⟩) hc
    (s := s.blank.summary) (t := t.blank.summary) ⟨rfl, rfl, rfl, fun _ => rfl⟩
  refine ⟨u, v, ?_, ?_, hsame⟩
  · rw [StreamAssembler.summaryScan, hb, hu]
  · rw [StreamAssembler.summaryScan, ← h.boundaries, hb, hv]

/-- Two results that agree in everything but source spans. -/
def SameResult (segments : List Segment) (r r' : StreamResult) : Prop :=
  r.chunks.map (fun c => (c.offset, c.bytes.data)) =
    r'.chunks.map (fun c => (c.offset, c.bytes.data)) ∧
  r.gaps = r'.gaps ∧ r.conflicts = r'.conflicts ∧
  (EvenConflicts segments r.conflicts → r.duplicateObservedBytes = r'.duplicateObservedBytes)

/-- On both sides `finish` fails in the same way or succeeds with the same result. -/
theorem SameCalls.finish (h : SameCalls s t) (hs : s.limits.Valid → Placed s)
    (ht : t.limits.Valid → Placed t) :
    (∃ e, s.finish .rejectConflict = .error e ∧ t.finish .rejectConflict = .error e) ∨
    ∃ r r', s.finish .rejectConflict = .ok r ∧ t.finish .rejectConflict = .ok r' ∧
      SameResult s.segments r r' := by
  cases hv : s.limits.validate with
  | error e =>
    refine Or.inl ⟨e, ?_, ?_⟩
    · rw [StreamAssembler.finish, hv]
      rfl
    · rw [StreamAssembler.finish, ← h.limits, hv]
      rfl
  | ok u =>
    have hvt : t.limits.Valid := h.limits ▸ hv
    replace hs := hs hv
    replace ht := ht hvt
    have hmax : s.max = t.max := le_antisymm (hs.max_le_of_perm ht h.segments)
      (ht.max_le_of_perm hs h.segments.symm)
    by_cases hne : s.segments = []
    · have hnet : t.segments = [] := by
        have := h.segments
        rw [hne] at this
        exact this.nil_eq.symm
      exact Or.inr ⟨_, _, finish_empty hv hne _, finish_empty hvt hnet _, rfl,
        by simp [unobserved, h.fin, h.anchored], rfl, fun _ => rfl⟩
    · have hnet : t.segments ≠ [] := fun hnil => hne (by
        have := h.segments
        rw [hnil] at this
        exact this.eq_nil)
      by_cases hfin : s.fin.any (fun stop => s.max > stop) = true
      · refine Or.inl ⟨beyondFin, finish_beyond hv hne hfin _, finish_beyond hvt hnet ?_ _⟩
        rwa [h.fin, hmax] at hfin
      · have hfin' : s.fin.any (fun stop => s.max > stop) = false := by simpa using hfin
        have hfint : t.fin.any (fun stop => t.max > stop) = false := by
          rw [← h.fin, ← hmax]
          exact hfin'
        obtain ⟨r, -, hr, hscan, -⟩ := hs.finish_spec hv hne hfin' .rejectConflict
        obtain ⟨r', -, hr', hscan', -⟩ := ht.finish_spec hvt hnet hfint .rejectConflict
        obtain ⟨w, w', hw, hw', hsame⟩ := h.summaryScan hne
        obtain rfl := Except.ok.inj (hw.symm.trans hscan)
        obtain rfl := Except.ok.inj (hw'.symm.trans hscan')
        exact Or.inr ⟨r, r', hr, hr', hsame.contents, hsame.gaps, hsame.conflicts,
          hsame.duplicates⟩

/-- Conflict-rejecting reconstruction has the same outcome in any two orders of the same calls, with
the same duplicate count as far as the conflicts are even. -/
theorem finish_reject_order_free (hperm : ops.Perm ops')
    (hs : (new (some syn) limits).run ops = .ok s)
    (ht : (new (some syn) limits).run ops' = .ok t) :
    (∃ e, s.finish .rejectConflict = .error e ∧ t.finish .rejectConflict = .error e) ∨
    ∃ r r', s.finish .rejectConflict = .ok r ∧ t.finish .rejectConflict = .ok r' ∧
      SameResult s.segments r r' := by
  obtain ⟨hlim, -, -⟩ := run_frame hs
  obtain ⟨hlim', -, -⟩ := run_frame ht
  refine (sameCalls_run hperm hs ht).finish (fun hv => ?_) (fun hv => ?_)
  · rw [hlim] at hv
    exact (placed_new (some syn) hv).run hs
  · rw [hlim'] at hv
    exact (placed_new (some syn) hv).run ht

end Run

/-- Two observations of one byte and a contradicting third. -/
def sampleThree : List Op :=
  [.push 1000 (samplePayload [1] 1), .push 1000 (samplePayload [1] 2),
    .push 1000 (samplePayload [2] 3)]

/-- The same observations, the contradicting one first. -/
def sampleThreeReordered : List Op :=
  [.push 1000 (samplePayload [2] 3), .push 1000 (samplePayload [1] 1),
    .push 1000 (samplePayload [1] 2)]

theorem sampleThree_perm : sampleThree.Perm sampleThreeReordered :=
  @List.perm_append_comm _ [_, _] [_]

theorem finish_reject_order_free_sample : ∃ s t r r',
    (new (some 999) .default).run sampleThree = .ok s ∧
    (new (some 999) .default).run sampleThreeReordered = .ok t ∧
    s.finish .rejectConflict = .ok r ∧ t.finish .rejectConflict = .ok r' ∧
    r.conflicts = r'.conflicts := by
  have hex : ∃ s t, (new (some 999) .default).run sampleThree = .ok s ∧
      (new (some 999) .default).run sampleThreeReordered = .ok t ∧
      ∃ r, s.finish .rejectConflict = .ok r := ⟨_, _, rfl, rfl, _, rfl⟩
  obtain ⟨s, t, hs, ht, r₀, hr₀⟩ := hex
  obtain ⟨e, he, -⟩ | ⟨r, r', hr, hr', hsame⟩ := finish_reject_order_free sampleThree_perm hs ht
  · cases he.symm.trans hr₀
  · exact ⟨s, t, r, r', hs, ht, hr, hr', hsame.2.2.1⟩

/-- Inside a conflict the duplicates are counted against the earliest segment. -/
theorem duplicates_depend_on_order : ∃ s t r r',
    sampleThree.Perm sampleThreeReordered ∧
    (new (some 999) .default).run sampleThree = .ok s ∧
    (new (some 999) .default).run sampleThreeReordered = .ok t ∧
    s.finish .rejectConflict = .ok r ∧ t.finish .rejectConflict = .ok r' ∧
    r.duplicateObservedBytes = 1 ∧ r'.duplicateObservedBytes = 0 :=
  ⟨_, _, _, _, sampleThree_perm, rfl, rfl, rfl, rfl, rfl, rfl⟩

end PcapEvidence.StreamAssembler
