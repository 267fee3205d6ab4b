import PcapEvidence.Dnp3FramingRun

/-!
# What a decoded chunk reports about its octets

By induction over the turns of the framing loop, the retained frames and rejected ranges are those
of the pieces, and every run of unframed octets has exactly one issue of its own exactly when no
such run stands before a damaged frame.
-/

namespace PcapEvidence.Dnp3
open EvidenceBytes OrderedMap
open StreamAssembler (offsetBound)

def Reports (chunk : StreamChunk) (run : Piece) (i : ProtocolIssue) : Bool :=
  i.isRun ∧ i.streamOffset = chunk.offset + run.start ∧
    i.packets = rangePackets chunk run.start (run.start + run.len)

def AllOnce (chunk : StreamChunk) (ps : List Piece) (issues : List ProtocolIssue) : Prop :=
  ∀ run ∈ ps, run.mark = .unframed → (issues.filter (Reports chunk run)).length = 1

def Piece.isRejected (x : Piece) : Bool := x.mark = .damaged ∨ x.mark = .lost

/-- The pieces tile the chunk, and every run of unframed octets is reported exactly once. -/
def FramingReport (chunk : StreamChunk) (before after : Dnp3Result) : Prop :=
  ∃ ps, Walk chunk.bytes.data 0 ps ∧ Tiles 0 ps chunk.bytes.len ∧
    (∃ frames, after.frames = before.frames ++ frames ∧
      List.Forall₂ (FrameOf chunk) (ps.filter (·.mark = .frame)) frames) ∧
    (∃ rejected, after.rejectedLinkRanges = before.rejectedLinkRanges ++ rejected ∧
      List.Forall₂ (RejectedOf chunk) (ps.filter Piece.isRejected) rejected) ∧
    ∃ issues, after.issues = before.issues ++ issues ∧ AllOnce chunk ps issues

def runOf (c : Cursor) : List Piece :=
  if c.skipped > 0 then [⟨.unframed, c.p - c.skipped, c.skipped⟩] else []

/-- The skipped octets lie before the cursor, and no frame opens among them. -/
structure Aligned (b : List U8) (c : Cursor) : Prop where
  skipped_le : c.skipped ≤ c.p
  p_le : c.p ≤ b.length
  closed : ∀ i, c.p - c.skipped ≤ i → i < c.p → ¬ Magic b i

section Runs
variable {chunk : StreamChunk} {c : Cursor} {ps : List Piece} {issues more : List ProtocolIssue}

theorem mem_runOf {run : Piece} (h : run ∈ runOf c) :
    c.skipped > 0 ∧ run = ⟨.unframed, c.p - c.skipped, c.skipped⟩ := by
  unfold runOf at h
  split_ifs at h with hs
  · exact ⟨hs, List.mem_singleton.1 h⟩
  · cases h

theorem walk_runOf {b : List U8} (ha : Aligned b c) (hend : c.p = b.length ∨ Magic b c.p)
    (h : Walk b c.p ps) : Walk b (c.p - c.skipped) (runOf c ++ ps) := by
  have hle := ha.skipped_le
  have heq : c.p - c.skipped + c.skipped = c.p := Nat.sub_add_cancel hle
  unfold runOf
  split_ifs with hs
  · refine .unframed hs (heq.trans_le ha.p_le) (fun i hi hlt => ha.closed i hi (heq ▸ hlt)) ?_ ?_
    · rwa [heq]
    · rwa [heq]
  · rwa [Nat.eq_zero_of_not_pos hs]

theorem filter_reports_eq_nil (issues : List ProtocolIssue) {run : Piece}
    (h : ∀ i ∈ issues, i.streamOffset ≠ chunk.offset + run.start) :
    issues.filter (Reports chunk run) = [] := by
  rw [List.filter_eq_nil_iff]
  intro i hi hreports
  simp only [Reports, decide_eq_true_eq] at hreports
  exact h i hi hreports.2.1

theorem allOnce_isRun :
    AllOnce chunk ps (issues.filter ProtocolIssue.isRun) ↔ AllOnce chunk ps issues := by
  have hsame (run : Piece) : (issues.filter ProtocolIssue.isRun).filter (Reports chunk run) =
      issues.filter (Reports chunk run) := by
    rw [List.filter_filter]
    refine List.filter_congr fun i _ => ?_
    by_cases hrun : i.isRun = true <;> simp [Reports, hrun]
  simp only [AllOnce, hsame]

theorem allOnce_append {qs : List Piece} {mid : ℕ}
    (hps : ∀ x ∈ ps, x.mark = .unframed → x.start < mid) (hqs : ∀ x ∈ qs, mid ≤ x.start)
    (hissues : ∀ i ∈ issues, i.streamOffset < chunk.offset + mid)
    (hmore : ∀ i ∈ more, chunk.offset + mid ≤ i.streamOffset) :
    AllOnce chunk (ps ++ qs) (issues ++ more) ↔
      AllOnce chunk ps issues ∧ AllOnce chunk qs more := by
  have hleft (run : Piece) (hrun : run ∈ ps) (hmark : run.mark = .unframed) :
      (issues ++ more).filter (Reports chunk run) = issues.filter (Reports chunk run) := by
    have hlt := hps run hrun hmark
    rw [List.filter_append, filter_reports_eq_nil more (fun i hi => ?_),
      List.append_nil]
    have := hmore i hi
    omega
  have hright (run : Piece) (hrun : run ∈ qs) :
      (issues ++ more).filter (Reports chunk run) = more.filter (Reports chunk run) := by
    have hle := hqs run hrun
    rw [List.filter_append, filter_reports_eq_nil issues (fun i hi => ?_),
      List.nil_append]
    have := hissues i hi
    omega
  constructor
  · intro h
    refine ⟨fun run hrun hmark => ?_, fun run hrun hmark => ?_⟩
    · rw [← hleft run hrun hmark]
      exact h run (List.mem_append_left _ hrun) hmark
    · rw [← hright run hrun]
      exact h run (List.mem_append_right _ hrun) hmark
  · rintro ⟨hl, hr⟩ run hrun hmark
    rcases List.mem_append.1 hrun with hrun | hrun
    · rw [hleft run hrun hmark]
      exact hl run hrun hmark
    · rw [hright run hrun]
      exact hr run hrun hmark

theorem allOnce_runReport (ha : c.skipped ≤ c.p) {code : String} (hcode : code ∈ runCodes) :
    AllOnce chunk (runOf c) (runReport code chunk c) := by
  intro run hrun _
  obtain ⟨hs, rfl⟩ := mem_runOf hrun
  have heq : c.p - c.skipped + c.skipped = c.p := Nat.sub_add_cancel ha
  rw [runReport, if_pos hs, List.filter_cons_of_pos]
  · rfl
  · simp [Reports, ProtocolIssue.isRun, hcode, heq]

theorem runReport_offset {code : String} {i : ProtocolIssue} (h : i ∈ runReport code chunk c) :
    c.skipped > 0 ∧ i.streamOffset = chunk.offset + (c.p - c.skipped : ℕ) := by
  unfold runReport at h
  split_ifs at h with hs
  · rw [List.mem_singleton.1 h]
    exact ⟨hs, rfl⟩
  · cases h

theorem allOnce_runOf_iff (hissues : ∀ i ∈ issues, i.streamOffset = chunk.offset + c.p)
    (ha : c.skipped ≤ c.p) : AllOnce chunk (runOf c) issues ↔ c.skipped = 0 := by
  constructor
  · intro h
    by_contra hne
    have hs : c.skipped > 0 := Nat.pos_of_ne_zero hne
    have honce := h ⟨.unframed, c.p - c.skipped, c.skipped⟩ (by simp [runOf, hs]) rfl
    rw [filter_reports_eq_nil issues (fun i hi => ?_)] at honce
    · cases honce
    · rw [hissues i hi]
      dsimp only
      omega
  · intro hzero run hrun
    have := (mem_runOf hrun).1
    omega

theorem silent_cons_iff {x : Piece} (hx : x.mark ≠ .unframed) : Silent (x :: ps) ↔ Silent ps := by
  cases ps with
  | nil => rfl
  | cons y rest => simp [Silent, hx]

theorem silent_runOf_cons_iff {x : Piece} (hx : x.mark ≠ .unframed) :
    Silent (runOf c ++ x :: ps) ↔ (c.skipped > 0 ∧ x.mark = .damaged) ∨ Silent ps := by
  unfold runOf
  split_ifs with hs
  · rw [List.cons_append, List.nil_append, Silent, silent_cons_iff hx]
    simp [hs]
  · rw [List.nil_append, silent_cons_iff hx]
    simp [hs]

theorem not_silent_runOf : ¬ Silent (runOf c) := by
  unfold runOf
  split_ifs <;> simp [Silent]

end Runs

/-- What the loop appends for the pieces from a position on. -/
structure Covered (chunk : StreamChunk) (start : ℕ) (ps : List Piece) (before after : Dnp3Result)
    (frames : List LinkFrame) (rejected : List RejectedLinkRange) (reports : List ProtocolIssue) :
    Prop where
  walk : Walk chunk.bytes.data start ps
  ext : Extends before after frames rejected reports
  frames : List.Forall₂ (FrameOf chunk) (ps.filter (·.mark = .frame)) frames
  rejected : List.Forall₂ (RejectedOf chunk) (ps.filter Piece.isRejected) rejected
  late : ∀ i ∈ reports, chunk.offset + start ≤ i.streamOffset
  once : AllOnce chunk ps reports ↔ ¬ Silent ps

section Cover
variable {chunk : StreamChunk} {limits : Limits} {c c' : Cursor} {ps : List Piece}
  {before mid after : Dnp3Result} {frames : List LinkFrame} {rejected : List RejectedLinkRange}
  {reports : List ProtocolIssue}

theorem filter_runOf {f : Piece → Bool} (hf : ∀ x : Piece, x.mark = .unframed → f x = false) :
    (runOf c).filter f = [] := by
  rw [List.filter_eq_nil_iff]
  intro x hx
  rw [hf x (by rw [(mem_runOf hx).2])]
  exact Bool.false_ne_true

theorem filter_frame_runOf : (runOf c).filter (·.mark = .frame) = [] :=
  filter_runOf fun x hx => by simp [hx]

theorem filter_rejected_runOf : (runOf c).filter Piece.isRejected = [] :=
  filter_runOf fun x hx => by simp [Piece.isRejected, hx]

theorem covered_end (ha : Aligned chunk.bytes.data c) (hp : c.p = chunk.bytes.data.length)
    (hext : Extends before after [] [] (runReport "trailing_unframed_dnp3_bytes" chunk c)) :
    Covered chunk (c.p - c.skipped) (runOf c) before after [] []
      (runReport "trailing_unframed_dnp3_bytes" chunk c) where
  walk := by
    have hwalk : Walk chunk.bytes.data (c.p - c.skipped) (runOf c ++ []) :=
      walk_runOf ha (.inl hp) (hp ▸ .done)
    rwa [List.append_nil] at hwalk
  ext := hext
  frames := by
    rw [filter_frame_runOf]
    exact .nil
  rejected := by
    rw [filter_rejected_runOf]
    exact .nil
  late i hi := (runReport_offset hi).2.ge
  once := iff_of_true (allOnce_runReport ha.skipped_le (by simp [runCodes])) not_silent_runOf

theorem allOnce_piece {x : Piece} (hx : x.mark ≠ .unframed) {issues : List ProtocolIssue}
    {next : ℕ} (hnext : c.p < next) (hs : c.skipped ≤ c.p)
    (hissues : ∀ i ∈ issues, i.streamOffset ≤ chunk.offset + c.p)
    (h : Covered chunk next ps mid after frames rejected reports) :
    AllOnce chunk (runOf c ++ x :: ps) (issues ++ reports) ↔
      AllOnce chunk (runOf c) issues ∧ ¬ Silent ps := by
  have hps := h.walk.tiles.start_le
  have hsplit : AllOnce chunk ((runOf c ++ [x]) ++ ps) (issues ++ reports) ↔
      AllOnce chunk (runOf c ++ [x]) issues ∧ AllOnce chunk ps reports :=
    allOnce_append (fun y hy hmark => ?_) hps (fun i hi => ?_) h.late
  · rw [show runOf c ++ x :: ps = (runOf c ++ [x]) ++ ps by simp, hsplit, h.once]
    refine and_congr_left fun _ => ⟨fun hall run hrun => hall run (List.mem_append_left _ hrun),
      fun hall run hrun hmark => ?_⟩
    rcases List.mem_append.1 hrun with hrun | hrun
    · exact hall run hrun hmark
    · rw [List.mem_singleton.1 hrun] at hmark
      exact absurd hmark hx
  · rcases List.mem_append.1 hy with hy | hy
    · rw [(mem_runOf hy).2]
      dsimp only
      omega
    · rw [List.mem_singleton.1 hy] at hmark
      exact absurd hmark hx
  · have := hissues i hi
    omega

theorem covered_frame (ha : Aligned chunk.bytes.data c)
    (hframed : Framed (chunk.bytes.data.drop c.p)) {frame : LinkFrame}
    (hframe : FrameOf chunk
      ⟨.frame, c.p, linkFrameTotal (byteAt (chunk.bytes.data.drop c.p) 2)⟩ frame)
    (hext : Extends before mid [frame] [] (runReport "dnp3_link_resynchronized" chunk c))
    (h : Covered chunk (c.p + linkFrameTotal (byteAt (chunk.bytes.data.drop c.p) 2)) ps mid after
      frames rejected reports) :
    Covered chunk (c.p - c.skipped)
      (runOf c ++ ⟨.frame, c.p, linkFrameTotal (byteAt (chunk.bytes.data.drop c.p) 2)⟩ :: ps)
      before after (frame :: frames) rejected
      (runReport "dnp3_link_resynchronized" chunk c ++ reports) where
  walk := walk_runOf ha (.inr hframed.1.magic) (.frame hframed h.walk)
  ext := hext.trans h.ext
  frames := by
    rw [List.filter_append, filter_frame_runOf, List.nil_append, List.filter_cons_of_pos (by simp)]
    exact .cons hframe h.frames
  rejected := by
    rw [List.filter_append, filter_rejected_runOf, List.nil_append,
      List.filter_cons_of_neg (by simp [Piece.isRejected])]
    exact h.rejected
  late i hi := by
    rcases List.mem_append.1 hi with hi | hi
    · exact (runReport_offset hi).2.ge
    · have := h.late i hi
      omega
  once := by
    have hpos := linkFrameTotal_pos (byteAt (chunk.bytes.data.drop c.p) 2)
    have hle := ha.skipped_le
    rw [allOnce_piece (by simp) (by omega) ha.skipped_le (fun i hi => ?_) h,
      silent_runOf_cons_iff (by simp)]
    · simpa using fun _ => allOnce_runReport ha.skipped_le (by simp [runCodes])
    · rw [(runReport_offset hi).2]
      omega

theorem covered_damaged (ha : Aligned chunk.bytes.data c)
    (hheaded : Headed (chunk.bytes.data.drop c.p)) (hframed : ¬ Framed (chunk.bytes.data.drop c.p))
    {range : RejectedLinkRange} (hrange : RejectedOf chunk ⟨.damaged, c.p,
      min (linkFrameTotal (byteAt (chunk.bytes.data.drop c.p) 2)) (chunk.bytes.len - c.p)⟩ range)
    {issues : List ProtocolIssue} (hext : Extends before mid [] [range] issues)
    (hissues : ∀ i ∈ issues, i.streamOffset = chunk.offset + c.p)
    (h : Covered chunk (c.p + min (linkFrameTotal (byteAt (chunk.bytes.data.drop c.p) 2))
      (chunk.bytes.len - c.p)) ps mid after frames rejected reports) :
    Covered chunk (c.p - c.skipped)
      (runOf c ++ ⟨.damaged, c.p, min (linkFrameTotal (byteAt (chunk.bytes.data.drop c.p) 2))
        (chunk.bytes.len - c.p)⟩ :: ps)
      before after frames (range :: rejected) (issues ++ reports) where
  walk := walk_runOf ha (.inr hheaded.magic) (.damaged hheaded hframed h.walk)
  ext := hext.trans h.ext
  frames := by
    rw [List.filter_append, filter_frame_runOf, List.nil_append,
      List.filter_cons_of_neg (by simp)]
    exact h.frames
  rejected := by
    rw [List.filter_append, filter_rejected_runOf, List.nil_append,
      List.filter_cons_of_pos (by simp [Piece.isRejected])]
    exact .cons hrange h.rejected
  late i hi := by
    rcases List.mem_append.1 hi with hi | hi
    · rw [hissues i hi]
      omega
    · have := h.late i hi
      omega
  once := by
    have hpos := linkFrameTotal_pos (byteAt (chunk.bytes.data.drop c.p) 2)
    have hlt := hheaded.lt
    have hlen : chunk.bytes.len = chunk.bytes.data.length := rfl
    rw [allOnce_piece (by simp) (by omega) ha.skipped_le (fun i hi => (hissues i hi).le) h,
      silent_runOf_cons_iff (by simp), allOnce_runOf_iff hissues ha.skipped_le]
    simp

theorem covered_lost (ha : Aligned chunk.bytes.data c) (hmagic : Magic chunk.bytes.data c.p)
    (hheaded : ¬ Headed (chunk.bytes.data.drop c.p)) {range : RejectedLinkRange}
    (hrange : RejectedOf chunk ⟨.lost, c.p, chunk.bytes.len - c.p⟩ range)
    {issues : List ProtocolIssue} (hext : Extends before mid [] [range] issues)
    (hissues : ∀ i ∈ issues, i.streamOffset = chunk.offset + c.p)
    (hend : Extends mid after [] [] (runReport "trailing_unframed_dnp3_bytes" chunk c)) :
    Covered chunk (c.p - c.skipped) (runOf c ++ [⟨.lost, c.p, chunk.bytes.len - c.p⟩])
      before after [] [range] (issues ++ runReport "trailing_unframed_dnp3_bytes" chunk c) where
  walk := walk_runOf ha (.inr hmagic) (.lost hmagic hheaded)
  ext := hext.trans hend
  frames := by
    rw [List.filter_append, filter_frame_runOf, List.nil_append,
      List.filter_cons_of_neg (by simp)]
    exact .nil
  rejected := by
    rw [List.filter_append, filter_rejected_runOf, List.nil_append,
      List.filter_cons_of_pos (by simp [Piece.isRejected])]
    exact .cons hrange .nil
  late i hi := by
    rcases List.mem_append.1 hi with hi | hi
    · rw [hissues i hi]
      omega
    · exact (runReport_offset hi).2.ge
  once := by
    refine iff_of_true (fun run hrun hmark => ?_) ?_
    · rcases List.mem_append.1 hrun with hrun | hrun
      · obtain ⟨hs, rfl⟩ := mem_runOf hrun
        have hle := ha.skipped_le
        rw [List.filter_append, filter_reports_eq_nil issues (fun i hi => ?_),
          List.nil_append]
        · exact allOnce_runReport ha.skipped_le (by simp [runCodes]) _ hrun hmark
        · rw [hissues i hi]
          dsimp only
          omega
      · rw [List.mem_singleton.1 hrun] at hmark
        cases hmark
    · rw [silent_runOf_cons_iff (by simp)]
      simp [Silent]

theorem scan_covered (hc : Checked chunk) (fuel : ℕ) (ha : Aligned chunk.bytes.data c)
    (hfuel : chunk.bytes.len ≤ c.p + fuel) (h : scan chunk limits fuel c = .ok c')
    (ht : reportTrailing chunk limits c' = .ok after) :
    ∃ ps frames rejected reports,
      Covered chunk (c.p - c.skipped) ps c.work.out after frames rejected reports := by
  induction fuel generalizing c with
  | zero =>
    rw [← Except.ok.inj h] at ht
    have hp : c.p = chunk.bytes.data.length := le_antisymm ha.p_le hfuel
    exact ⟨_, _, _, _, covered_end ha hp (reportTrailing_extends ht)⟩
  | succ fuel ih =>
    by_cases hlt : c.p < chunk.bytes.len
    · rw [scan, if_pos hlt] at h
      cases hstep : step chunk limits c with
      | error e =>
        rw [hstep] at h
        cases h
      | ok turned =>
        obtain ⟨next, stop⟩ := turned
        rw [hstep] at h
        cases step_turn hc hlt hstep with
        | skip hmagic =>
          have hstart : c.p + 1 - (c.skipped + 1) = c.p - c.skipped := by omega
          have hnext : Aligned chunk.bytes.data ⟨c.work, c.rejectedBytes, c.p + 1, c.skipped + 1⟩ :=
            ⟨Nat.succ_le_succ ha.skipped_le, hlt, fun i hi hi' => by
              rcases Nat.lt_succ_iff_lt_or_eq.1 hi' with hi' | rfl
              · exact ha.closed i (hstart ▸ hi) hi'
              · exact hmagic⟩
          obtain ⟨ps, frames, rejected, reports, hcov⟩ := ih hnext
            (by change _ ≤ c.p + 1 + fuel; omega) h
          exact ⟨ps, frames, rejected, reports, hstart ▸ hcov⟩
        | frame hframed hframe hext =>
          have hpos := linkFrameTotal_pos (byteAt (chunk.bytes.data.drop c.p) 2)
          obtain ⟨ps, frames, rejected, reports, hcov⟩ := ih
            ⟨Nat.zero_le _, hframed.le, fun i hi hi' => absurd hi' hi.not_gt⟩
            (by change _ ≤ _ + _ + fuel; omega) h
          exact ⟨_, _, _, _, covered_frame ha hframed hframe hext hcov⟩
        | damaged hheaded hframed hrange hext hreports =>
          have hpos := linkFrameTotal_pos (byteAt (chunk.bytes.data.drop c.p) 2)
          have hlen : chunk.bytes.len = chunk.bytes.data.length := rfl
          obtain ⟨ps, frames, rejected, reports, hcov⟩ := ih
            ⟨Nat.zero_le _, by dsimp only; omega, fun i hi hi' => absurd hi' hi.not_gt⟩
            (by dsimp only; omega) h
          exact ⟨_, _, _, _, covered_damaged ha hheaded hframed hrange hext hreports hcov⟩
        | lost hmagic hheaded hrange hext hreports =>
          cases h
          exact ⟨_, _, _, _, covered_lost ha hmagic hheaded hrange hext hreports
            (reportTrailing_extends ht)⟩
    · rw [scan, if_neg hlt] at h
      rw [← Except.ok.inj h] at ht
      have hp : c.p = chunk.bytes.data.length := le_antisymm ha.p_le (not_lt.1 hlt)
      exact ⟨_, _, _, _, covered_end ha hp (reportTrailing_extends ht)⟩

end Cover

section Chunks
variable {chunk : StreamChunk} {limits : Limits} {s s' : Dnp3Result × ℕ}

theorem decodeChunk_covered (h : decodeChunk limits s chunk = .ok s') :
    ∃ ps frames rejected reports, Covered chunk 0 ps s.1 s'.1 frames rejected reports := by
  obtain ⟨hbound, h⟩ := guard_eq_ok.1 h
  obtain ⟨hvalid, h⟩ := guard_eq_ok.1 h
  obtain ⟨c, hscan, h⟩ := bind_eq_ok.1 h
  obtain ⟨out, htrailing, h⟩ := bind_eq_ok.1 h
  obtain ⟨w, hflush, h⟩ := bind_eq_ok.1 h
  cases h
  push Not at hbound
  have hc : Checked chunk :=
    ⟨(validate_iff _).1 (by simpa using hvalid), hbound.1, hbound.2⟩
  obtain ⟨ps, frames, rejected, reports, hcov⟩ := scan_covered hc chunk.bytes.len
    ⟨le_rfl, Nat.zero_le _, fun i _ hi => absurd hi (Nat.not_lt_zero i)⟩ (by simp) hscan htrailing
  exact ⟨ps, frames, rejected, reports, hcov.walk,
    hcov.ext.quiet (flush_extends (by simp [runCodes]) hflush), hcov.frames, hcov.rejected,
    hcov.late, hcov.once⟩

theorem framingReport_iff (h : decodeChunk limits s chunk = .ok s') :
    FramingReport chunk s.1 s'.1 ↔ ∀ ps, Walk chunk.bytes.data 0 ps → ¬ Silent ps := by
  obtain ⟨ps, frames, rejected, reports, hcov⟩ := decodeChunk_covered h
  obtain ⟨new, hnew, hreports⟩ := hcov.ext.issues
  have honce : AllOnce chunk ps new ↔ ¬ Silent ps := by
    rw [← allOnce_isRun, hreports]
    exact hcov.once
  constructor
  · rintro ⟨ps', hwalk', -, -, -, issues, hissues, hall⟩ qs hqs
    obtain rfl := hcov.walk.unique hwalk'
    obtain rfl := hcov.walk.unique hqs
    obtain rfl := List.append_cancel_left (hnew.symm.trans hissues)
    exact honce.1 hall
  · intro hsilent
    exact ⟨ps, hcov.walk, hcov.walk.tiles, ⟨frames, hcov.ext.frames, hcov.frames⟩,
      ⟨rejected, hcov.ext.rejected, hcov.rejected⟩, new, hnew, honce.2 (hsilent ps hcov.walk)⟩

/-- Nothing that a chunk reported is taken back. -/
structure Kept (before after : Dnp3Result) : Prop where
  frames : before.frames <+: after.frames
  rejected : before.rejectedLinkRanges <+: after.rejectedLinkRanges
  issues : before.issues <+: after.issues

theorem kept_of_chunks {chunks : List StreamChunk}
    (h : chunks.foldlM (decodeChunk limits) s = .ok s') : Kept s.1 s'.1 := by
  induction chunks generalizing s with
  | nil =>
    cases h
    exact ⟨List.prefix_rfl, List.prefix_rfl, List.prefix_rfl⟩
  | cons chunk rest ih =>
    obtain ⟨mid, hmid, h⟩ := bind_eq_ok.1 h
    obtain ⟨_, _, _, _, hcov⟩ := decodeChunk_covered hmid
    obtain ⟨new, hnew, -⟩ := hcov.ext.issues
    have hrest := ih h
    exact ⟨.trans ⟨_, hcov.ext.frames.symm⟩ hrest.frames,
      .trans ⟨_, hcov.ext.rejected.symm⟩ hrest.rejected, .trans ⟨_, hnew.symm⟩ hrest.issues⟩

def StreamReport (stream : StreamResult) (limits : Limits) (out : Dnp3Result) : Prop :=
  ∀ pre chunk post before after, stream.chunks = pre ++ chunk :: post →
    pre.foldlM (decodeChunk limits) (Dnp3Result.empty, 0) = .ok before →
    decodeChunk limits before chunk = .ok after →
    FramingReport chunk before.1 after.1 ∧ Kept after.1 out

/-- The report holds exactly when no run of unframed octets stands directly before a damaged frame.
-/
theorem decode_framing_iff {stream : StreamResult} {out : Dnp3Result}
    (h : decode stream limits = .ok out) :
    StreamReport stream limits out ↔
      ∀ chunk ∈ stream.chunks, ∀ ps, Walk chunk.bytes.data 0 ps → ¬ Silent ps := by
  obtain ⟨-, -, h⟩ := bind_eq_ok.1 h
  obtain ⟨last, hrun, h⟩ := bind_eq_ok.1 h
  cases h
  constructor
  · intro hreport chunk hchunk
    obtain ⟨pre, post, hsplit⟩ := List.append_of_mem hchunk
    rw [hsplit, List.foldlM_append] at hrun
    obtain ⟨before, hbefore, hrun⟩ := bind_eq_ok.1 hrun
    obtain ⟨after, hafter, -⟩ := bind_eq_ok.1 hrun
    exact (framingReport_iff hafter).1 (hreport pre chunk post before after hsplit hbefore hafter).1
  · intro hsilent pre chunk post before after hsplit hbefore hafter
    rw [hsplit, List.foldlM_append] at hrun
    obtain ⟨before', hbefore', hrun⟩ := bind_eq_ok.1 hrun
    obtain rfl := Except.ok.inj (hbefore.symm.trans hbefore')
    obtain ⟨after', hafter', hrun⟩ := bind_eq_ok.1 hrun
    obtain rfl := Except.ok.inj (hafter.symm.trans hafter')
    exact ⟨(framingReport_iff hafter).2 (hsilent chunk (by simp [hsplit])), kept_of_chunks hrun⟩

def samplePacket (frame : ℕ) : PacketId := ⟨Vector.replicate 32 0, frame, 0⟩

def sampleStream (bytes : EvidenceBytes) : StreamResult := ⟨some 0, true, [⟨0, bytes⟩], [], [], 0⟩

/-- A complete frame and an octet behind it. -/
def trailedBytes : EvidenceBytes :=
  .fromPacket [0x05, 0x64, 0x05, 0xc0, 0x01, 0x00, 0x00, 0x04, 0xe9, 0x21, 0xff] (samplePacket 0) 0

theorem trailedBytes_walk : Walk trailedBytes.data 0 [⟨.frame, 0, 10⟩, ⟨.unframed, 10, 1⟩] := by
  have hrun : ∀ i, 10 ≤ i → i < 10 + 1 → ¬ Magic trailedBytes.data i := by
    intro i hi hlt
    obtain rfl : i = 10 := by omega
    decide
  have hrest : Walk trailedBytes.data 10 [⟨.unframed, 10, 1⟩] :=
    .unframed (by decide) (by decide) hrun (.inl rfl) .done
  exact .frame (by decide +kernel) hrest

theorem decode_framing_iff_sample : ∃ out,
    decode (sampleStream trailedBytes) .default = .ok out ∧
      StreamReport (sampleStream trailedBytes) .default out := by
  have hok : (decode (sampleStream trailedBytes) .default).isOk = true := by decide +kernel
  cases h : decode (sampleStream trailedBytes) .default with
  | error e =>
    rw [h] at hok
    cases hok
  | ok out =>
    refine ⟨out, rfl, (decode_framing_iff h).2 fun chunk hchunk ps hwalk => ?_⟩
    obtain rfl := List.mem_singleton.1 hchunk
    rw [← trailedBytes_walk.unique hwalk]
    simp [Silent]

/-- One octet of a first packet, then a frame of a second one whose data are cut off. -/
def hiddenBytes : EvidenceBytes where
  data := [0xff, 0x05, 0x64, 0x06, 0x44, 0x01, 0x00, 0x00, 0x04, 0xd5, 0x5f]
  spans := [⟨0, 1, samplePacket 0, 0⟩, ⟨1, 11, samplePacket 1, 0⟩]
  layoutValid := true

theorem hiddenBytes_walk : Walk hiddenBytes.data 0 [⟨.unframed, 0, 1⟩, ⟨.damaged, 1, 10⟩] := by
  have hrun : ∀ i, 0 ≤ i → i < 0 + 1 → ¬ Magic hiddenBytes.data i := by
    intro i _ hlt
    obtain rfl : i = 0 := by omega
    decide
  have hrest : Walk hiddenBytes.data 1 [⟨.damaged, 1, 10⟩] :=
    .damaged (by decide +kernel) (by decide +kernel) .done
  exact .unframed (by decide) (by decide) hrun (.inr (by decide)) hrest

def unnamed (packet : PacketId) : Result Dnp3Result → Bool
  | .ok out => out.issues.all fun i => packet ∉ i.packets
  | .error _ => false

/-- The octet of the first packet is reported by no issue at all. -/
theorem decode_hides_run : ∃ out, decode (sampleStream hiddenBytes) .default = .ok out ∧
    unnamed (samplePacket 0) (.ok out) ∧
      ¬ StreamReport (sampleStream hiddenBytes) .default out := by
  have hok : unnamed (samplePacket 0) (decode (sampleStream hiddenBytes) .default) = true := by
    decide +kernel
  cases h : decode (sampleStream hiddenBytes) .default with
  | error e =>
    rw [h] at hok
    cases hok
  | ok out =>
    rw [h] at hok
    refine ⟨out, rfl, hok, fun hreport => ?_⟩
    obtain ⟨-, -, hrun⟩ := bind_eq_ok.1 h
    obtain ⟨last, hrun, -⟩ := bind_eq_ok.1 hrun
    obtain ⟨after, hafter, -⟩ := bind_eq_ok.1 hrun
    have hframing := (hreport [] ⟨0, hiddenBytes⟩ [] _ after rfl rfl hafter).1
    exact (framingReport_iff hafter).1 hframing _ hiddenBytes_walk (.inl ⟨rfl, rfl⟩)

end Chunks

end PcapEvidence.Dnp3
