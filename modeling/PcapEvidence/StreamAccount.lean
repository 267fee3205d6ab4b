import PcapEvidence.StreamCoverage
import PcapEvidence.StreamWords

/-!
# Every pushed byte is accounted for

In a sweep without conflicts each window puts the bytes of one covering segment into the chunks and
counts the others as duplicates. Summed over the windows that is every byte of every segment.
-/

namespace PcapEvidence.StreamAssembler

open OrderedMap IntervalSweep

def heldBefore (segments : List Segment) (x : ℤ) : ℕ :=
  (segments.map fun s => (Min.min x s.stop - s.start).toNat).sum

def contentBytes (s : Summary) : ℕ := (s.contents.map fun p => p.2.length).sum

theorem Content.sum_extend (pieces : List Content) (a : ℤ) (data : List U8) :
    ((Content.extend pieces a data).map fun p => p.2.length).sum =
      (pieces.map fun p => p.2.length).sum + data.length := by
  rcases Content.extend_cases pieces a data with ⟨heq, -⟩ | ⟨init, p, rfl, -, heq⟩
  · rw [heq, List.map_append, List.sum_append, List.map_singleton, List.sum_singleton]
  · rw [heq, List.map_append, List.map_append, List.sum_append, List.sum_append, List.map_singleton,
      List.map_singleton, List.sum_singleton, List.sum_singleton, List.length_append, Nat.add_assoc]

section Window

variable {segments : List Segment} {policy : OverlapPolicy} {a b : ℤ}

theorem coveringSegments_cons (s : Segment) (rest : List Segment) (x : ℤ) :
    coveringSegments (s :: rest) x =
      if s.Covers x then s :: coveringSegments rest x else coveringSegments rest x := by
  simp [coveringSegments, List.filter_cons]

theorem heldBefore_step (hel : Elementary (intervals segments) a b)
    (hlt : ∀ iv ∈ intervals segments, iv.1 < iv.2) :
    heldBefore segments b =
      heldBefore segments a + (coveringSegments segments a).length * (b - a).toNat := by
  obtain ⟨hab, hel⟩ := hel
  induction segments with
  | nil => simp [heldBefore, coveringSegments]
  | cons s rest ih =>
    obtain ⟨hstart, hstop⟩ := hel (s.start, s.stop) (by simp [intervals])
    have hpos := hlt (s.start, s.stop) (by simp [intervals])
    simp only at hstart hstop hpos
    have hrest := ih (fun iv hiv => hlt iv (List.mem_cons_of_mem _ hiv))
      fun iv hiv => hel iv (List.mem_cons_of_mem _ hiv)
    simp only [heldBefore, List.map_cons, List.sum_cons] at hrest ⊢
    rw [hrest, coveringSegments_cons]
    by_cases hcov : s.Covers a
    · rw [if_pos hcov, List.length_cons, Nat.add_mul]
      obtain ⟨h₁, h₂⟩ := hcov
      omega
    · rw [if_neg hcov]
      have hout : b ≤ s.start ∨ s.stop ≤ a := by
        by_contra h
        exact hcov ⟨by omega, by omega⟩
      omega

theorem length_others {α : Type} {l : List α} (h : l ≠ []) :
    (others policy l).length + 1 = l.length := by
  have := List.length_pos_iff.2 h
  unfold others
  split_ifs
  · rw [List.length_dropLast]
    omega
  · rw [List.length_tail]
    omega

theorem summaryWindow_account (hel : Elementary (intervals segments) a b) {s : Summary}
    (h : (summaryWindow policy (coveringSegments segments a) a b s).conflicts = []) :
    s.conflicts = [] ∧
      contentBytes (summaryWindow policy (coveringSegments segments a) a b s) +
          (summaryWindow policy (coveringSegments segments a) a b s).duplicates =
        contentBytes s + s.duplicates + (coveringSegments segments a).length * (b - a).toNat := by
  unfold summaryWindow at h ⊢
  cases hc : choose policy (coveringSegments segments a) with
  | none =>
    rw [hc] at h
    rw [choose_eq_none.1 hc]
    exact ⟨h, by simp [contentBytes]⟩
  | some u =>
    rw [hc] at h
    dsimp only at h ⊢
    have hraw (t : Segment) (ht : t ∈ coveringSegments segments a) :
        (raw t a b).length = (b - a).toNat := by
      obtain ⟨hmem, hcov⟩ := mem_coveringSegments.1 ht
      exact raw_length hcov hel.1 ((hel.2 _ (List.mem_map_of_mem hmem)).2.1 hcov.2)
    by_cases hclash : clash (coveringSegments segments a) u a b = true
    · simp only [hclash, true_and, if_true] at h
      split_ifs at h <;> simp at h
    · rw [Bool.not_eq_true] at hclash
      simp only [hclash, Bool.false_eq_true, false_and, if_false] at h ⊢
      refine ⟨h, ?_⟩
      -- all covering segments agree, so all the others are duplicates
      have hsame (t : Segment) (ht : t ∈ others policy (coveringSegments segments a)) :
          t ∈ coveringSegments segments a ∧ raw t a b = raw u a b := by
        have hmem : t ∈ coveringSegments segments a := by
          unfold others at ht
          split_ifs at ht
          · exact List.mem_of_mem_dropLast ht
          · exact List.mem_of_mem_tail ht
        rw [clash, List.any_eq_false] at hclash
        exact ⟨hmem, by simpa using hclash t hmem⟩
      have hcount := @length_others policy _ _ (List.ne_nil_of_mem (choose_mem hc))
      have hdup : (((others policy (coveringSegments segments a)).filter
          (fun t => raw t a b = raw u a b)).map (fun t => (raw t a b).length)).sum =
            (others policy (coveringSegments segments a)).length * (b - a).toNat := by
        rw [List.filter_eq_self.2 fun t ht => by simpa using (hsame t ht).2,
          List.map_congr_left fun t ht => hraw t (hsame t ht).1, List.map_const', List.sum_replicate,
          smul_eq_mul]
      rw [hdup, contentBytes, Content.sum_extend, hraw u (choose_mem hc), ← hcount, Nat.add_mul]
      change contentBytes s + _ + _ = _
      omega

end Window

section Scan

variable {s : StreamAssembler} {policy : OverlapPolicy}

theorem heldBefore_of_le {segments : List Segment} {x : ℤ} (h : ∀ seg ∈ segments, x ≤ seg.start) :
    heldBefore segments x = 0 := by
  rw [heldBefore, List.sum_eq_zero_iff]
  intro n hn
  obtain ⟨seg, hseg, rfl⟩ := List.mem_map.1 hn
  have := h seg hseg
  omega

theorem heldBefore_of_ge {segments : List Segment} {x : ℤ} (h : ∀ seg ∈ segments, seg.stop ≤ x) :
    heldBefore segments x = (segments.map fun seg => seg.bytes.len).sum := by
  rw [heldBefore]
  congr 1
  refine List.map_congr_left fun seg hseg => ?_
  have := h seg hseg
  rw [min_eq_right this, seg.stop_eq]
  simp [EvidenceBytes.len]

theorem summaryScan_account (h : Placed s) (hne : s.segments ≠ []) {t : Summary}
    (hscan : s.summaryScan policy = .ok t) (hconflicts : t.conflicts = []) :
    contentBytes t + t.duplicates = (s.segments.map fun seg => seg.bytes.len).sum := by
  obtain ⟨a, rest, hb, hc⟩ := boundaries_complete hne
  have hrange (seg : Segment) (hseg : seg ∈ s.segments) :
      seg.start ∈ a :: rest ∧ seg.stop ∈ a :: rest := by
    rw [← hb]
    exact ⟨(mem_boundaries _).2 (.inl ⟨seg, hseg, .inl rfl⟩),
      (mem_boundaries _).2 (.inl ⟨seg, hseg, .inr rfl⟩)⟩
  have hfirst : heldBefore s.segments a = 0 := by
    refine heldBefore_of_le fun seg hseg => ?_
    rcases List.mem_cons.1 (hrange seg hseg).1 with heq | hmem
    · omega
    · exact ((List.pairwise_cons.1 hc.1).1 _ hmem).le
  obtain ⟨t', ht', hlast⟩ := scan_invariant
    (fun x u => u.conflicts = [] → contentBytes u + u.duplicates = heldBefore s.segments x)
    (fun a b t =>
      (.ok (summaryWindow policy (coveringSegments s.segments a) a b t) : Result Summary))
    (fun x y u hel hu => ⟨_, rfl, fun hnone => by
      obtain ⟨hold, hsum⟩ := summaryWindow_account hel hnone
      rw [hsum, hu hold, heldBefore_step hel h.bounds.start_lt]⟩) hc
    (s := s.blank.summary) (fun _ => by rw [hfirst]; rfl)
  rw [summaryScan, hb, ht'] at hscan
  obtain rfl := Except.ok.inj hscan
  rw [hlast hconflicts]
  exact heldBefore_of_ge fun seg hseg => (hc.1.imp le_of_lt).rel_getLast (hrange seg hseg).2

theorem Placed.finish_account (h : Placed s) {result : StreamResult}
    (hfinish : s.finish policy = .ok result) (hconflicts : result.conflicts = []) :
    (result.chunks.map fun c => c.bytes.len).sum + result.duplicateObservedBytes =
      (s.segments.map fun seg => seg.bytes.len).sum := by
  by_cases hne : s.segments = []
  · obtain ⟨⟨⟩, hv, -⟩ := bind_eq_ok.1 hfinish
    rw [finish_empty hv hne] at hfinish
    obtain rfl := Except.ok.inj hfinish
    rw [hne]
    rfl
  · obtain ⟨hv, hfin⟩ := finish_ok hfinish hne
    obtain ⟨result', high, hok, hsummary, -⟩ := h.finish_spec hv hne hfin policy
    obtain rfl := Except.ok.inj (hok.symm.trans hfinish)
    have hsum := summaryScan_account h hne hsummary hconflicts
    rw [contentBytes, StreamResult.summary, List.map_map] at hsum
    exact hsum

end Scan

/-- The assembler after a call, which a failing call leaves as it was. -/
def after (s : StreamAssembler) (op : Op) : StreamAssembler :=
  match s.apply op with
  | .ok t => t
  | .error _ => s

/-- A run in which calls may fail. -/
def attempt (s : StreamAssembler) (ops : List Op) : StreamAssembler := ops.foldl after s

def Op.payload : Op → ℕ
  | .push _ bytes => bytes.len
  | .endAt _ => 0

def pushedBytes (s : StreamAssembler) : List Op → ℕ
  | [] => 0
  | op :: rest => (match s.apply op with
    | .ok _ => op.payload
    | .error _ => 0) + pushedBytes (s.after op) rest

theorem attempt_induction {P : StreamAssembler → Prop}
    (step : ∀ s t op, P s → s.apply op = .ok t → P t) {s : StreamAssembler} (h : P s)
    (ops : List Op) : P (s.attempt ops) := by
  induction ops generalizing s with
  | nil => exact h
  | cons op rest ih =>
    refine ih (?_ : P (s.after op))
    unfold after
    cases hop : s.apply op with
    | ok t => exact step s t op h hop
    | error e => exact h

theorem attempt_limits (s : StreamAssembler) (ops : List Op) : (s.attempt ops).limits = s.limits :=
  attempt_induction (P := fun t => t.limits = s.limits)
    (fun _ _ _ h hop => (apply_frame hop).1.trans h) rfl ops

theorem segments_attempt (s : StreamAssembler) (ops : List Op) :
    ((s.attempt ops).segments.map fun seg => seg.bytes.len).sum =
      (s.segments.map fun seg => seg.bytes.len).sum + s.pushedBytes ops := by
  induction ops generalizing s with
  | nil => rfl
  | cons op rest ih =>
    rw [pushedBytes, attempt, List.foldl_cons, ← attempt, ih, after]
    cases hop : s.apply op with
    | error e => simp only [Nat.zero_add]
    | ok t =>
      rw [← Nat.add_assoc]
      congr 1
      cases op with
      | push sequence bytes =>
        rcases push_ok hop with ⟨hempty, rfl⟩ | ⟨-, -, start, -, rfl⟩
        · simp [Op.payload, EvidenceBytes.len, hempty]
        · simp [Op.payload, EvidenceBytes.len]
      | endAt sequence =>
        obtain ⟨rfl, -⟩ := endAt_ok hop
        rfl

structure Marked (s : StreamAssembler) : Prop where
  blank : s.base = none → s.segments = [] ∧ s.fin = none ∧ s.anchoredBySyn = false
  low : s.anchoredBySyn = true → s.min = 0
  behind : ∀ f, s.fin = some f → f < 0 → ∃ seg ∈ s.segments, f < seg.stop
  set : s.base ≠ none →
    s.anchoredBySyn = true ∨ s.fin ≠ none ∨ ∃ seg ∈ s.segments, 0 < seg.stop

theorem marked_new (syn : Option U32) (limits : Limits) : Marked (new syn limits) := by
  refine ⟨fun h => ⟨rfl, rfl, ?_⟩, fun _ => rfl, fun f hf => (by cases hf), fun h => .inl ?_⟩
  · cases syn with
    | none => rfl
    | some n => cases h
  · cases syn with
    | none => exact absurd rfl h
    | some n => rfl

theorem endAt_low {s t : StreamAssembler} {sequence : U32} (h : s.endAt sequence = .ok t) :
    s.min ≤ (sequence - s.base.getD sequence).toInt := by
  obtain ⟨-, -, h⟩ := bind_eq_ok.1 h
  obtain ⟨stop, hstop, h⟩ := bind_eq_ok.1 h
  obtain rfl := sequenceDelta_ok hstop
  split_ifs at h with h₁
  omega

theorem Marked.apply {s t : StreamAssembler} {op : Op} (h : Marked s) (hop : s.apply op = .ok t) :
    Marked t := by
  cases op with
  | push sequence bytes =>
    rcases push_ok hop with ⟨-, rfl⟩ | ⟨hne, -, start, hplace, rfl⟩
    · exact h
    · obtain ⟨hstart, -, hanchor⟩ := place_ok hplace
      have hold (P : Segment → Prop) (hex : ∃ seg ∈ s.segments, P seg) :
          ∃ seg ∈ s.segments ++ [⟨start, bytes⟩], P seg := by
        obtain ⟨seg, hseg, hP⟩ := hex
        exact ⟨seg, by simp [hseg], hP⟩
      refine ⟨fun hb => (by cases hb), fun ha => ?_, fun f hf hneg => hold _ (h.behind f hf hneg),
        fun _ => ?_⟩
      · have := hanchor ha
        dsimp only
        rw [h.low ha, min_eq_left this]
      · cases hbase : s.base with
        | some base => exact (h.set (by simp [hbase])).imp_right fun hs => hs.imp_right (hold _)
        | none =>
          rw [hbase, Option.getD_none, sub_self] at hstart
          have hpos := List.length_pos_iff.2 hne
          refine .inr (.inr ⟨⟨start, bytes⟩, by simp, ?_⟩)
          rw [Segment.stop_eq, hstart]
          simpa using hpos
  | endAt sequence =>
    have hlow := endAt_low hop
    obtain ⟨rfl, hold⟩ := endAt_ok hop
    refine ⟨fun hb => (by cases hb), h.low, fun f hf hneg => ?_, fun _ => .inr (.inl (by simp))⟩
    have hdelta : f = (sequence - s.base.getD sequence).toInt := (Option.some.inj hf).symm
    rw [← hdelta] at hlow hold
    cases hbase : s.base with
    | none =>
      rw [hbase, Option.getD_none, sub_self] at hdelta
      rw [hdelta] at hneg
      exact absurd hneg (by decide)
    | some base =>
      rcases h.set (by simp [hbase]) with hanchor | hfin | ⟨seg, hseg, hstop⟩
      · rw [h.low hanchor] at hlow
        omega
      · obtain ⟨g, hg⟩ := Option.ne_none_iff_exists'.1 hfin
        exact h.behind f (hold g hg ▸ hg) hneg
      · exact ⟨seg, hseg, hneg.trans hstop⟩

theorem Placed.finish_error {s : StreamAssembler} (h : Placed s) (hm : Marked s) {policy : OverlapPolicy}
    {e : Error} (hfinish : s.finish policy = .error e) (hv : s.limits.Valid) :
    e = beyondFin ∧ ∃ f, s.fin = some f ∧ ∃ seg ∈ s.segments, f < seg.stop := by
  by_cases hne : s.segments = []
  · rw [finish_empty hv hne] at hfinish
    cases hfinish
  · cases hfin : s.fin.any (fun stop => s.max > stop) with
    | false =>
      obtain ⟨result, high, hok, -⟩ := h.finish_spec hv hne hfin policy
      cases hok.symm.trans hfinish
    | true =>
      rw [finish_beyond hv hne hfin] at hfinish
      simp only [Option.any_eq_true, decide_eq_true_eq] at hfin
      obtain ⟨f, hf, hbeyond⟩ := hfin
      refine ⟨(Except.error.inj hfinish).symm, f, hf, ?_⟩
      rcases h.attained with hzero | ⟨seg, hseg, heq⟩
      · exact hm.behind f hf (by omega)
      · exact ⟨seg, hseg, by omega⟩

/-- After any run no index or slice of `finish` is out of range, and without a conflict the chunks
and the duplicates hold every pushed byte. -/
theorem finish_accounts (syn : Option U32) (limits : Limits) (ops : List Op) (policy : OverlapPolicy) :
    ((new syn limits).attempt ops).finishWords policy =
      Words.ofResult (((new syn limits).attempt ops).finish policy) ∧
    (∀ result, ((new syn limits).attempt ops).finish policy = .ok result → result.conflicts = [] →
      (result.chunks.map fun c => c.bytes.len).sum + result.duplicateObservedBytes =
        (new syn limits).pushedBytes ops) ∧
    ∀ e, ((new syn limits).attempt ops).finish policy = .error e →
      limits.validate = .error e ∨ e = beyondFin ∧
        ∃ f, ((new syn limits).attempt ops).fin = some f ∧
          ∃ seg ∈ ((new syn limits).attempt ops).segments, f < seg.stop := by
  have hlimits : ((new syn limits).attempt ops).limits = limits := attempt_limits _ _
  have hsegments := segments_attempt (new syn limits) ops
  have hmarked : Marked ((new syn limits).attempt ops) :=
    attempt_induction (fun _ _ _ h hop => h.apply hop) (marked_new syn limits) ops
  have hplaced (hv : limits.Valid) : Placed ((new syn limits).attempt ops) :=
    attempt_induction (fun _ _ _ h hop => h.apply hop) (placed_new syn hv) ops
  generalize (new syn limits).attempt ops = s at *
  cases hv : limits.validate with
  | error e =>
    have hfinish : s.finish policy = .error e := by
      rw [finish, hlimits, hv]
      rfl
    have hwords : s.finishWords policy = Words.fail e := by
      rw [finishWords, hlimits, hv]
      rfl
    refine ⟨by rw [hwords, hfinish]; rfl, fun result hok => ?_, fun e' he => ?_⟩
    · rw [hfinish] at hok
      cases hok
    · rw [hfinish] at he
      exact .inl (congrArg _ (Except.error.inj he))
  | ok u =>
    have hs := hplaced hv
    refine ⟨hs.finishWords_eq policy, fun result hok hnone => ?_, fun e he => ?_⟩
    · rw [hs.finish_account hok hnone, hsegments]
      exact Nat.zero_add _
    · exact .inr (hs.finish_error hmarked he (hlimits ▸ hv))

def sampleAgreeing : List Op :=
  [.push 1000 (samplePayload [1, 2, 3, 4] 1), .push 5 (samplePayload [9] 2),
    .push 1002 (samplePayload [3, 4, 5] 3)]

theorem finish_accounts_sample :
    (∃ result, ((new (some 999) .default).attempt sampleAgreeing).finish .rejectConflict = .ok result ∧
      (result.chunks.map fun c => c.bytes.len).sum + result.duplicateObservedBytes = 7) ∧
    ∃ f, ((new (some 999) .default).attempt (sampleAgreeing ++ [.endAt 1001])).fin = some f ∧
      ∃ seg ∈ ((new (some 999) .default).attempt (sampleAgreeing ++ [.endAt 1001])).segments,
        f < seg.stop := by
  have hok : ∃ result, ((new (some 999) .default).attempt sampleAgreeing).finish .rejectConflict =
      .ok result ∧ result.conflicts = [] := ⟨_, rfl, rfl⟩
  obtain ⟨result, hresult, hnone⟩ := hok
  have hsum := (finish_accounts (some 999) .default sampleAgreeing .rejectConflict).2.1 result hresult
    hnone
  have herror : ((new (some 999) .default).attempt (sampleAgreeing ++ [.endAt 1001])).finish
      .rejectConflict = .error beyondFin := rfl
  refine ⟨⟨result, hresult, hsum⟩, ?_⟩
  rcases (finish_accounts (some 999) .default (sampleAgreeing ++ [.endAt 1001]) .rejectConflict).2.2 _
    herror with hlimits | ⟨-, h⟩
  · cases hlimits.symm.trans Limits.valid_default
  · exact h

/-- With limits that are never usable `finish` fails although no FIN was seen. -/
theorem finish_bad_limits : ¬ ∀ syn limits ops policy e,
    ((new syn limits).attempt ops).finish policy = .error e →
      ∃ f, ((new syn limits).attempt ops).fin = some f := by
  intro h
  obtain ⟨f, hf⟩ := h none { Limits.default with maxLabels := 0 } [] .rejectConflict _ rfl
  cases hf

end PcapEvidence.StreamAssembler
