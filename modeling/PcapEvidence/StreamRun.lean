import PcapEvidence.StreamContent

/-!
# Runs of the stream assembler

After any run of successful calls the stored segments are the non-empty payloads in the order in
which they were pushed, each at its offset from the base, and they are valid and within the span
limit.
-/

namespace PcapEvidence.StreamAssembler

open OrderedMap IntervalSweep EvidenceBytes

variable {s t : StreamAssembler} {ops : List Op} {sequence : U32} {op : Op}

def pushed (base : U32) (ops : List Op) : List Segment :=
  ops.filterMap (fun op => match op with
    | .push sequence bytes =>
      if bytes.isEmpty then none else some ⟨(sequence - base).toInt, bytes⟩
    | .endAt _ => none)

/-- What holds between the calls. -/
structure Placed (s : StreamAssembler) : Prop where
  bounds : Bounds s.segments s.limits.maxStreamSpan s.min s.max
  anchored : s.anchoredBySyn = true → ∀ seg ∈ s.segments, 0 ≤ seg.start
  zero_le : 0 ≤ s.max
  attained : s.max = 0 ∨ ∃ seg ∈ s.segments, s.max = seg.stop

theorem Limits.Valid.span_lt {limits : Limits} (h : limits.Valid) :
    limits.maxStreamSpan < 2 ^ 30 := ((limits.validate_ok_iff).1 h).2.2.1

theorem sequenceDelta_ok {anchor : U32} {d : ℤ} (h : sequenceDelta sequence anchor = .ok d) :
    d = (sequence - anchor).toInt := by
  unfold sequenceDelta at h
  split_ifs at h
  exact (Except.ok.inj h).symm

theorem place_ok {bytes : EvidenceBytes} {start : ℤ} (h : s.place sequence bytes = .ok start) :
    start = (sequence - s.base.getD sequence).toInt ∧
      Max.max s.max (start + bytes.len) - Min.min s.min start ≤ s.limits.maxStreamSpan ∧
      (s.anchoredBySyn = true → 0 ≤ start) := by
  obtain ⟨d, hd, h⟩ := bind_eq_ok.1 h
  split_ifs at h with h1 h2 h3
  obtain rfl := Except.ok.inj h
  exact ⟨sequenceDelta_ok hd, by omega, fun ha => by_contra fun hneg => h3 ⟨ha, by omega⟩⟩

theorem push_ok {bytes : EvidenceBytes} (h : s.push sequence bytes = .ok t) :
    (bytes.data = [] ∧ t = s) ∨
    (bytes.data ≠ [] ∧ bytes.Valid ∧ ∃ start, s.place sequence bytes = .ok start ∧ t = { s with
      base := some (s.base.getD sequence)
      retained := s.retained + bytes.data.length
      min := Min.min s.min start
      max := Max.max s.max (start + bytes.len)
      segments := s.segments ++ [⟨start, bytes⟩] }) := by
  obtain ⟨-, -, h⟩ := bind_eq_ok.1 h
  by_cases hempty : bytes.isEmpty
  · rw [if_pos hempty] at h
    exact Or.inl ⟨by simpa [EvidenceBytes.isEmpty] using hempty, (Except.ok.inj h).symm⟩
  rw [if_neg hempty] at h
  by_cases hvalid : (!bytes.validate) = true
  · simp [hvalid] at h
  rw [if_neg hvalid] at h
  cases hadd : checkedAdd s.retained bytes.len with
  | none => simp [hadd] at h
  | some retained =>
    rw [hadd] at h
    dsimp only at h
    split_ifs at h
    obtain ⟨start, hstart, h⟩ := bind_eq_ok.1 h
    obtain ⟨-, rfl⟩ := (checkedAdd_eq_some_iff _ _ _).1 hadd
    refine Or.inr ⟨by simpa [EvidenceBytes.isEmpty] using hempty, ?_, start, hstart,
      (Except.ok.inj h).symm⟩
    rw [← validate_iff]
    simpa using hvalid

theorem endAt_ok (h : s.endAt sequence = .ok t) :
    t = { s with base := some (s.base.getD sequence),
                 fin := some (sequence - s.base.getD sequence).toInt } ∧
      ∀ old, s.fin = some old → old = (sequence - s.base.getD sequence).toInt := by
  obtain ⟨-, -, h⟩ := bind_eq_ok.1 h
  obtain ⟨stop, hstop, h⟩ := bind_eq_ok.1 h
  obtain rfl := sequenceDelta_ok hstop
  split_ifs at h with h1 h2
  refine ⟨(Except.ok.inj h).symm, fun old hold => ?_⟩
  by_contra hne
  exact h2 (by rw [hold]; exact decide_eq_true hne)

theorem run_cons (h : s.run (op :: ops) = .ok t) :
    ∃ m, s.apply op = .ok m ∧ m.run ops = .ok t := bind_eq_ok.1 h

theorem apply_frame (h : s.apply op = .ok t) :
    t.limits = s.limits ∧ t.anchoredBySyn = s.anchoredBySyn ∧
      ∀ base, s.base = some base → t.base = some base := by
  cases op with
  | push sequence bytes =>
    rcases push_ok h with ⟨-, rfl⟩ | ⟨-, -, start, -, rfl⟩
    · exact ⟨rfl, rfl, fun _ hb => hb⟩
    · exact ⟨rfl, rfl, fun base hb => by simp [hb]⟩
  | endAt sequence =>
    obtain ⟨rfl, -⟩ := endAt_ok h
    exact ⟨rfl, rfl, fun base hb => by simp [hb]⟩

theorem run_frame (h : s.run ops = .ok t) :
    t.limits = s.limits ∧ t.anchoredBySyn = s.anchoredBySyn ∧
      ∀ base, s.base = some base → t.base = some base := by
  induction ops generalizing s with
  | nil =>
    obtain rfl := Except.ok.inj h
    exact ⟨rfl, rfl, fun _ hb => hb⟩
  | cons op ops ih =>
    obtain ⟨m, hm, h⟩ := run_cons h
    obtain ⟨h1, h2, h3⟩ := apply_frame hm
    obtain ⟨h1', h2', h3'⟩ := ih h
    exact ⟨h1'.trans h1, h2'.trans h2, fun base hb => h3' base (h3 base hb)⟩

theorem run_segments (h : s.run ops = .ok t) :
    t.segments = s.segments ++ pushed (t.base.getD 0) ops := by
  induction ops generalizing s with
  | nil =>
    obtain rfl := Except.ok.inj h
    simp [pushed]
  | cons op ops ih =>
    obtain ⟨m, hm, h⟩ := run_cons h
    rw [ih h]
    obtain ⟨-, -, hbase⟩ := run_frame h
    cases op with
    | push sequence bytes =>
      rcases push_ok hm with ⟨hempty, rfl⟩ | ⟨hne, -, start, hplace, rfl⟩
      · simp [pushed, EvidenceBytes.isEmpty, hempty]
      · obtain ⟨rfl, -, -⟩ := place_ok hplace
        simp [pushed, EvidenceBytes.isEmpty, hne, hbase _ rfl]
    | endAt sequence =>
      obtain ⟨rfl, -⟩ := endAt_ok hm
      simp [pushed]

theorem run_fin {base : U32} (hbase : s.base = some base) (h : s.run ops = .ok t) :
    (∀ sequence, .endAt sequence ∈ ops → t.fin = some (sequence - base).toInt) ∧
      (∀ f, s.fin = some f → t.fin = some f) ∧
      ∀ f, t.fin = some f → s.fin = some f ∨ ∃ sequence, .endAt sequence ∈ ops := by
  induction ops generalizing s with
  | nil =>
    obtain rfl := Except.ok.inj h
    exact ⟨by simp, fun _ hf => hf, fun _ hf => Or.inl hf⟩
  | cons op ops ih =>
    obtain ⟨m, hm, h⟩ := run_cons h
    obtain ⟨h1, h2, h3⟩ := ih ((apply_frame hm).2.2 base hbase) h
    cases op with
    | push sequence bytes =>
      have hfin : m.fin = s.fin := by
        rcases push_ok hm with ⟨-, rfl⟩ | ⟨-, -, start, -, rfl⟩ <;> rfl
      rw [hfin] at h2 h3
      refine ⟨fun q hq => h1 q (by simpa using hq), h2, fun f hf => ?_⟩
      obtain hold | ⟨q, hq⟩ := h3 f hf
      · exact Or.inl hold
      · exact Or.inr ⟨q, by simp [hq]⟩
    | endAt sequence =>
      obtain ⟨rfl, hold⟩ := endAt_ok hm
      simp only [hbase, Option.getD_some] at h2 hold
      refine ⟨fun q hq => ?_, fun f hf => ?_, fun f hf => Or.inr ⟨sequence, by simp⟩⟩
      · rcases List.mem_cons.1 hq with heq | hq
        · cases heq
          exact h2 _ rfl
        · exact h1 q hq
      · rw [hold f hf]
        exact h2 _ rfl

theorem placed_new (syn : Option U32) {limits : Limits} (h : limits.Valid) :
    Placed (new syn limits) := by
  have := Limits.Valid.span_lt h
  refine ⟨⟨by simp [new], by simp [new], by simp [new], by simp [new], ?_⟩, by simp [new], le_rfl,
    Or.inl rfl⟩
  change limits.maxStreamSpan < 2 ^ 64
  omega

theorem Placed.apply (h : Placed s) (hop : s.apply op = .ok t) : Placed t := by
  cases op with
  | push sequence bytes =>
    rcases push_ok hop with ⟨-, rfl⟩ | ⟨hne, hvalid, start, hplace, rfl⟩
    · exact h
    · obtain ⟨-, hspan, hanchor⟩ := place_ok hplace
      have hmem (P : Segment → Prop) (hold : ∀ seg ∈ s.segments, P seg) (hnew : P ⟨start, bytes⟩) :
          ∀ seg ∈ s.segments ++ [⟨start, bytes⟩], P seg := by
        intro seg hseg
        rcases List.mem_append.1 hseg with hseg | hseg
        · exact hold seg hseg
        · rwa [List.mem_singleton.1 hseg]
      refine ⟨⟨hmem _ h.bounds.valid hvalid, hmem _ h.bounds.nonempty hne, ?_, hspan,
        h.bounds.word⟩, fun ha => hmem _ (h.anchored ha) (hanchor ha),
        h.zero_le.trans (le_max_left _ _), ?_⟩
      · refine hmem _ (fun seg hseg => ?_) ⟨min_le_right _ _, le_max_right _ _⟩
        obtain ⟨hlow, hhigh⟩ := h.bounds.range seg hseg
        exact ⟨(min_le_left _ _).trans hlow, hhigh.trans (le_max_left _ _)⟩
      · dsimp only
        rcases max_choice s.max (start + bytes.len) with hmax | hmax
        · rw [hmax]
          refine h.attained.imp id ?_
          rintro ⟨seg, hseg, heq⟩
          exact ⟨seg, by simp [hseg], heq⟩
        · rw [hmax]
          exact Or.inr ⟨⟨start, bytes⟩, by simp, rfl⟩
  | endAt sequence =>
    obtain ⟨rfl, -⟩ := endAt_ok hop
    exact ⟨h.bounds, h.anchored, h.zero_le, h.attained⟩

theorem Placed.run (h : Placed s) (hrun : s.run ops = .ok t) : Placed t := by
  induction ops generalizing s with
  | nil => exact Except.ok.inj hrun ▸ h
  | cons op ops ih =>
    obtain ⟨m, hm, hrun⟩ := run_cons hrun
    exact ih (h.apply hm) hrun

section Finish

variable {s : StreamAssembler}

theorem finish_empty (hv : s.limits.Valid) (hne : s.segments = []) (policy : OverlapPolicy) :
    s.finish policy = .ok { s.blank with gaps := s.unobserved } := by
  rw [finish, hv, hne]
  rfl

theorem finish_beyond (hv : s.limits.Valid) (hne : s.segments ≠ [])
    (hfin : s.fin.any (fun stop => s.max > stop) = true) (policy : OverlapPolicy) :
    s.finish policy = .error beyondFin := by
  rw [finish, hv]
  simp only [bind, Except.bind, List.isEmpty_iff, if_neg hne, if_pos hfin]

def boundaries (s : StreamAssembler) : List ℤ := (eventsOf (intervals s.segments) s.marks).keys

theorem mem_boundaries (p : ℤ) : p ∈ s.boundaries ↔
    (∃ seg ∈ s.segments, p = seg.start ∨ p = seg.stop) ∨
      (s.anchoredBySyn = true ∧ p = 0) ∨ s.fin = some p := by
  rw [boundaries, mem_keys_eventsOf]
  simp only [intervals, List.mem_map, marks, List.mem_append, Option.mem_toList]
  constructor
  · rintro (⟨-, ⟨seg, hseg, rfl⟩, hp⟩ | hp | hp)
    · exact Or.inl ⟨seg, hseg, hp⟩
    · split_ifs at hp with ha
      · exact Or.inr (Or.inl ⟨ha, by simpa using hp⟩)
      · simp at hp
    · exact Or.inr (Or.inr hp)
  · rintro (⟨seg, hseg, hp⟩ | ⟨ha, rfl⟩ | hp)
    · exact Or.inl ⟨_, ⟨seg, hseg, rfl⟩, hp⟩
    · exact Or.inr (Or.inl (by simp [ha]))
    · exact Or.inr (Or.inr hp)

theorem boundaries_sorted : s.boundaries.Pairwise (· < ·) := OrdMap.keys_sorted _

theorem boundaries_complete (hne : s.segments ≠ []) :
    ∃ a rest, s.boundaries = a :: rest ∧ Complete (intervals s.segments) a (a :: rest) := by
  have hmem (iv : Interval) (hiv : iv ∈ intervals s.segments) :
      iv.1 ∈ s.boundaries ∧ iv.2 ∈ s.boundaries := by
    obtain ⟨seg, hseg, rfl⟩ := List.mem_map.1 hiv
    exact ⟨(mem_boundaries _).2 (Or.inl ⟨seg, hseg, Or.inl rfl⟩),
      (mem_boundaries _).2 (Or.inl ⟨seg, hseg, Or.inr rfl⟩)⟩
  obtain ⟨seg, hseg⟩ := List.exists_mem_of_ne_nil _ hne
  cases hb : s.boundaries with
  | nil =>
    have := (hmem _ (List.mem_map_of_mem hseg)).1
    simp [hb] at this
  | cons a rest =>
    refine ⟨a, rest, rfl, hb ▸ boundaries_sorted, fun iv hiv => ?_⟩
    rw [← hb]
    exact ⟨fun _ => (hmem iv hiv).1, fun _ => (hmem iv hiv).2⟩

/-- The plain scan that `finish` performs. -/
def summaryScan (s : StreamAssembler) (policy : OverlapPolicy) : Result Summary :=
  scan (fun a b t => .ok (summaryWindow policy (coveringSegments s.segments a) a b t)) s.boundaries
    s.blank.summary

/-- The chunks of `finish` are cut from the segments, and its content is the plain scan. -/
theorem Placed.finish_spec (h : Placed s) (hv : s.limits.Valid) (hne : s.segments ≠ [])
    (hfin : s.fin.any (fun stop => s.max > stop) = false) (policy : OverlapPolicy) :
    ∃ result high, s.finish policy = .ok result ∧ s.summaryScan policy = .ok result.summary ∧
      Cut s.segments s.min s.max high result.chunks := by
  obtain ⟨a, rest, hb, hc⟩ := boundaries_complete hne
  have hsweep : s.finish policy = scan
      (fun a b => observe s.limits.maxStreamSpan policy (coveringSegments s.segments a) a b)
      s.boundaries s.blank := by
    have hbody : (fun a b => observe s.limits.maxStreamSpan policy (coveringSegments s.segments a) a b) =
        fun a b => window s.limits.maxStreamSpan policy s.segments a b
          (covering (intervals s.segments) a) := by
      funext a b r
      exact (window_eq_observe _ _ _ _ _ _).symm
    rw [hbody, boundaries, ← sweep_eq_scan h.bounds.start_lt]
    unfold finish
    rw [hv]
    simp [hne, hfin, bind, Except.bind]
  obtain ⟨result, t, hres, hsum, hcut, hrel⟩ := scan_simulation
    (fun a result t => Cut s.segments s.min s.max a result.chunks ∧ result.summary = t)
    (fun a b => observe s.limits.maxStreamSpan policy (coveringSegments s.segments a) a b)
    (fun a b t => .ok (summaryWindow policy (coveringSegments s.segments a) a b t))
    (fun a b r t hel hrt => by
      obtain ⟨out, hout, hcut', hsum⟩ := observe_spec h.bounds policy hel hrt.1
      exact ⟨out, _, hout, rfl, hcut', by rw [hsum, hrt.2]⟩)
    hc (s := s.blank) (t := s.blank.summary)
    ⟨⟨by simp [blank], by simp [blank], ⟨by simp [blank], by simp [blank], by simp [blank]⟩,
      by simp [blank]⟩, rfl⟩
  rw [← hb] at hres hsum
  exact ⟨result, _, hsweep.trans hres, by rw [summaryScan, hsum, hrel], hcut⟩

theorem finish_ok {policy : OverlapPolicy} {result : StreamResult} (h : s.finish policy = .ok result)
    (hne : s.segments ≠ []) : s.limits.Valid ∧ s.fin.any (fun stop => s.max > stop) = false := by
  obtain ⟨⟨⟩, hv, h⟩ := bind_eq_ok.1 h
  refine ⟨hv, ?_⟩
  rw [if_neg (by simpa using hne)] at h
  by_contra hfin
  rw [if_pos (by simpa using hfin)] at h
  cases h

end Finish

end PcapEvidence.StreamAssembler
