import PcapEvidence.Dnp3Decode

/-!
# What the framing loop covers

The octets of a chunk fall into pieces: accepted frames, damaged frames whose valid header still
declares their range, a lost rest behind an invalid header, and runs of octets that open no frame.
The pieces tile the chunk, and the decoder retains exactly the frames and the rejected ranges among
them.
-/

namespace PcapEvidence.Dnp3
open EvidenceBytes OrderedMap
open StreamAssembler (offsetBound)

inductive Mark where
  | unframed | frame | damaged | lost
  deriving DecidableEq

structure Piece where
  mark : Mark
  start : ℕ
  len : ℕ

def Magic (b : List U8) (p : ℕ) : Prop := sliceOf b p (p + 2) = [0x05, 0x64]

instance (b : List U8) (p : ℕ) : Decidable (Magic b p) := inferInstanceAs (Decidable (_ = _))

/-- The pieces of the octets from a position on. -/
inductive Walk (b : List U8) : ℕ → List Piece → Prop
  | done : Walk b b.length []
  | unframed {p n : ℕ} {rest : List Piece} (hn : 0 < n) (hp : p + n ≤ b.length)
      (hrun : ∀ i, p ≤ i → i < p + n → ¬ Magic b i) (hend : p + n = b.length ∨ Magic b (p + n))
      (h : Walk b (p + n) rest) : Walk b p (⟨.unframed, p, n⟩ :: rest)
  | frame {p : ℕ} {rest : List Piece} (hframed : Framed (b.drop p))
      (h : Walk b (p + linkFrameTotal (byteAt (b.drop p) 2)) rest) :
      Walk b p (⟨.frame, p, linkFrameTotal (byteAt (b.drop p) 2)⟩ :: rest)
  | damaged {p : ℕ} {rest : List Piece} (hheaded : Headed (b.drop p))
      (hframed : ¬ Framed (b.drop p))
      (h : Walk b (p + min (linkFrameTotal (byteAt (b.drop p) 2)) (b.length - p)) rest) :
      Walk b p (⟨.damaged, p, min (linkFrameTotal (byteAt (b.drop p) 2)) (b.length - p)⟩ :: rest)
  | lost {p : ℕ} (hmagic : Magic b p) (hheaded : ¬ Headed (b.drop p)) :
      Walk b p [⟨.lost, p, b.length - p⟩]

/-- Consecutive nonempty pieces from one position to another. -/
def Tiles : ℕ → List Piece → ℕ → Prop
  | lo, [], hi => lo = hi
  | lo, x :: rest, hi => x.start = lo ∧ 0 < x.len ∧ Tiles (lo + x.len) rest hi

/-- A run of unframed octets stands directly before a damaged frame. -/
def Silent : List Piece → Prop
  | x :: y :: rest => (x.mark = .unframed ∧ y.mark = .damaged) ∨ Silent (y :: rest)
  | _ => False

section Pieces
variable {b : List U8} {p : ℕ} {ps : List Piece}

theorem Magic.lt (h : Magic b p) : p + 2 ≤ b.length := by
  have hlen := congrArg List.length h
  rw [sliceOf, List.length_drop, List.length_take] at hlen
  simp only [List.length_cons, List.length_nil] at hlen
  omega

theorem magic_iff : Magic b p ↔ (b.drop p).take 2 = [0x05, 0x64] := by
  rw [Magic, sliceOf, List.drop_take, Nat.add_sub_cancel_left]

theorem Headed.magic (h : Headed (b.drop p)) : Magic b p := magic_iff.2 h.2.1

theorem Headed.lt (h : Headed (b.drop p)) : p + 10 ≤ b.length := by
  have h10 := h.1
  rw [List.length_drop] at h10
  omega

theorem Framed.le (h : Framed (b.drop p)) :
    p + linkFrameTotal (byteAt (b.drop p) 2) ≤ b.length := by
  have htotal := h.2.1
  have h10 := h.1.lt
  rw [List.length_drop] at htotal
  omega

theorem linkFrameTotal_pos (lengthOctet : U8) : 0 < linkFrameTotal lengthOctet :=
  (Nat.zero_lt_succ 9).trans_le (ProbeRegistry.linkFrameTotal_bounds lengthOctet).1

theorem Walk.tiles (h : Walk b p ps) : Tiles p ps b.length := by
  induction h with
  | done => rfl
  | unframed hn _ _ _ _ ih => exact ⟨rfl, hn, ih⟩
  | frame _ _ ih => exact ⟨rfl, linkFrameTotal_pos _, ih⟩
  | @damaged p rest hheaded _ _ ih =>
    have hlt := hheaded.lt
    have hpos := linkFrameTotal_pos (byteAt (b.drop p) 2)
    exact ⟨rfl, by change 0 < min _ _; omega, ih⟩
  | lost hmagic =>
    have hlt := hmagic.lt
    exact ⟨rfl, by change 0 < _ - _; omega, by change _ + (_ - _) = _; omega⟩

theorem Tiles.start_le {lo hi : ℕ} (h : Tiles lo ps hi) : ∀ x ∈ ps, lo ≤ x.start := by
  induction ps generalizing lo with
  | nil => intro x hx; cases hx
  | cons y rest ih =>
    obtain ⟨hstart, -, hrest⟩ := h
    intro x hx
    rcases List.mem_cons.1 hx with rfl | hx
    · exact hstart.ge
    · exact (Nat.le_add_right _ _).trans (ih hrest x hx)

theorem Walk.unique (h : Walk b p ps) {qs : List Piece} (h' : Walk b p qs) : ps = qs := by
  induction h generalizing qs with
  | done =>
    cases h' with
    | done => rfl
    | unframed hn hp => omega
    | frame hframed => have := hframed.1.lt; omega
    | damaged hheaded => have := hheaded.lt; omega
    | lost hmagic => have := hmagic.lt; omega
  | @unframed p n rest hn hp hrun hend h ih =>
    have hopen : ¬ Magic b p := hrun p le_rfl (by omega)
    generalize hq : p = q at h'
    cases h' with
    | done => omega
    | @unframed _ m rest' hm hq' hrun' hend' h' =>
      subst hq
      have hnm : n = m := by
        rcases lt_trichotomy n m with hlt | heq | hlt
        · rcases hend with hend | hend
          · omega
          · exact absurd hend (hrun' _ (by omega) (by omega))
        · exact heq
        · rcases hend' with hend' | hend'
          · omega
          · exact absurd hend' (hrun _ (by omega) (by omega))
      subst hnm
      rw [ih h']
    | frame hframed => exact absurd (hq ▸ hframed.1.magic) hopen
    | damaged hheaded => exact absurd (hq ▸ hheaded.magic) hopen
    | lost hmagic => exact absurd (hq ▸ hmagic) hopen
  | @frame p rest hframed h ih =>
    generalize hq : p = q at h'
    cases h' with
    | done => have := hframed.1.lt; omega
    | unframed hn _ hrun => exact absurd (hq ▸ hframed.1.magic) (hrun _ le_rfl (by omega))
    | frame _ h' => subst hq; rw [ih h']
    | damaged _ hnot => exact absurd (hq ▸ hframed) hnot
    | lost _ hnot => exact absurd (hq ▸ hframed.1) hnot
  | @damaged p rest hheaded hframed h ih =>
    generalize hq : p = q at h'
    cases h' with
    | done => have := hheaded.lt; omega
    | unframed hn _ hrun => exact absurd (hq ▸ hheaded.magic) (hrun _ le_rfl (by omega))
    | frame hyes => exact absurd (hq ▸ hyes) hframed
    | damaged _ _ h' => subst hq; rw [ih h']
    | lost _ hnot => exact absurd (hq ▸ hheaded) hnot
  | @lost p hmagic hheaded =>
    generalize hq : p = q at h'
    cases h' with
    | done => have := hmagic.lt; omega
    | unframed hn _ hrun => exact absurd (hq ▸ hmagic) (hrun _ le_rfl (by omega))
    | frame hyes => exact absurd (hq ▸ hyes.1) hheaded
    | damaged hyes => exact absurd (hq ▸ hyes) hheaded
    | lost => subst hq; rfl

end Pieces

end PcapEvidence.Dnp3

/-!
## The framing loop follows the pieces

Each turn of the loop appends to the result what the next piece asks for: an accepted frame, a
rejected range, and issues.
-/

namespace PcapEvidence.Dnp3
open EvidenceBytes OrderedMap
open StreamAssembler (offsetBound)

def runCodes : List String :=
  ["dnp3_link_resynchronized", "trailing_unframed_dnp3_bytes", "dnp3_crc_failure",
    "dnp3_invalid_or_truncated_frame", "dnp3_rejected_declared_link_range",
    "dnp3_link_boundary_lost_no_resynchronization"]

def ProtocolIssue.isRun (i : ProtocolIssue) : Bool := i.code ∈ runCodes

/-- The result grows by frames, rejected ranges and issues about runs, and maybe by others. -/
structure Extends (out out' : Dnp3Result) (frames : List LinkFrame)
    (rejected : List RejectedLinkRange) (reports : List ProtocolIssue) : Prop where
  frames : out'.frames = out.frames ++ frames
  rejected : out'.rejectedLinkRanges = out.rejectedLinkRanges ++ rejected
  issues : ∃ new, out'.issues = out.issues ++ new ∧ new.filter ProtocolIssue.isRun = reports

namespace Extends
variable {out mid out' : Dnp3Result} {frames frames' : List LinkFrame}
  {rejected rejected' : List RejectedLinkRange} {reports reports' : List ProtocolIssue}

theorem refl : Extends out out [] [] [] :=
  ⟨(List.append_nil _).symm, (List.append_nil _).symm, [], (List.append_nil _).symm, rfl⟩

theorem of_eq (hframes : out'.frames = out.frames)
    (hrejected : out'.rejectedLinkRanges = out.rejectedLinkRanges)
    (hissues : out'.issues = out.issues) : Extends out out' [] [] [] :=
  ⟨hframes.trans (List.append_nil _).symm, hrejected.trans (List.append_nil _).symm, [],
    hissues.trans (List.append_nil _).symm, rfl⟩

theorem trans (h : Extends out mid frames rejected reports)
    (h' : Extends mid out' frames' rejected' reports') :
    Extends out out' (frames ++ frames') (rejected ++ rejected') (reports ++ reports') := by
  obtain ⟨new, hnew, hreports⟩ := h.issues
  obtain ⟨new', hnew', hreports'⟩ := h'.issues
  refine ⟨?_, ?_, new ++ new', ?_, ?_⟩
  · rw [h'.frames, h.frames, List.append_assoc]
  · rw [h'.rejected, h.rejected, List.append_assoc]
  · rw [hnew', hnew, List.append_assoc]
  · rw [List.filter_append, hreports, hreports']

theorem quiet (h : Extends out mid frames rejected reports) (h' : Extends mid out' [] [] []) :
    Extends out out' frames rejected reports := by
  simpa using h.trans h'

end Extends

section Layers
variable {at_ : ℤ} {code : String} {packets : List PacketId} {frame : LinkFrame} {key : Address}
variable {out out' : Dnp3Result} {w w' : Work} {limits : Limits}

theorem issue_extends (h : issue out code packets at_ limits = .ok out') :
    Extends out out' [] [] (if code ∈ runCodes then [⟨code, packets, at_⟩] else []) := by
  obtain ⟨-, h⟩ := guard_eq_ok.1 h
  cases h
  refine ⟨(List.append_nil _).symm, (List.append_nil _).symm, _, rfl, ?_⟩
  by_cases hcode : code ∈ runCodes <;> simp [ProtocolIssue.isRun, hcode]

theorem issue_quiet (hcode : code ∉ runCodes)
    (h : issue out code packets at_ limits = .ok out') : Extends out out' [] [] [] := by
  simpa [hcode] using issue_extends h

theorem emitApp_extends {app : AppAssembly} {complete : Bool}
    (h : emitApp out app complete limits = .ok out') : Extends out out' [] [] [] := by
  obtain ⟨-, h⟩ := guard_eq_ok.1 h
  cases h
  exact Extends.of_eq rfl rfl rfl

theorem issueIf_quiet {condition : Bool}
    (hcode : code ∉ runCodes) (h : issueIf condition out code packets at_ limits = .ok out') :
    Extends out out' [] [] [] := by
  cases condition with
  | false =>
    cases h
    exact .refl
  | true => exact issue_quiet hcode h

theorem emitPending_extends {app : Option AppAssembly} {complete : Bool}
    (h : emitPending out app complete limits = .ok out') : Extends out out' [] [] [] := by
  cases app with
  | none =>
    cases h
    exact .refl
  | some app => exact emitApp_extends h

theorem foldlM_extends {α β : Type} {f : α → β → Result α} (proj : α → Dnp3Result)
    (hf : ∀ a b a', f a b = .ok a' → Extends (proj a) (proj a') [] [] []) {l : List β} {a a' : α}
    (h : l.foldlM f a = .ok a') : Extends (proj a) (proj a') [] [] [] := by
  induction l generalizing a with
  | nil =>
    cases h
    exact .refl
  | cons b l ih =>
    obtain ⟨mid, hmid, h⟩ := bind_eq_ok.1 h
    exact (hf a b mid hmid).quiet (ih h)

theorem interruptApplications_extends
    (h : interruptApplications w key limits = .ok w') : Extends w.out w'.out [] [] [] := by
  refine foldlM_extends Work.out (fun a cls a' hstep => ?_) h
  cases hget : a.applications.get? (appKey key cls) with
  | none =>
    simp only [hget] at hstep
    cases hstep
    exact .refl
  | some pending =>
    simp only [hget] at hstep
    obtain ⟨out, hemit, hstep⟩ := bind_eq_ok.1 hstep
    cases hstep
    exact emitApp_extends hemit

theorem abandon_extends
    (hcode : code ∉ runCodes) (h : abandon w key code packets at_ limits = .ok w') :
    Extends w.out w'.out [] [] [] := by
  obtain ⟨out, hissue, h⟩ := bind_eq_ok.1 h
  exact (issue_quiet hcode hissue).quiet (interruptApplications_extends h)

theorem abandonIf_extends {condition : Bool} (hcode : code ∉ runCodes)
    (h : abandonIf condition w key code packets at_ limits = .ok w') :
    Extends w.out w'.out [] [] [] := by
  cases condition with
  | false =>
    cases h
    exact .refl
  | true => exact abandon_extends hcode h

theorem linkIssue_code {control : U8} {source destination : U16} {n : ℕ}
    {found : ErrorCode × String} (h : linkIssue control source destination n = some found) :
    found.2 ∉ runCodes := by
  simp only [linkIssue] at h
  split_ifs at h <;> cases h <;> simp [runCodes]

theorem controlIssues_extends (h : controlIssues out frame limits = .ok out') :
    Extends out out' [] [] [] := by
  obtain ⟨mid, hmid, h⟩ := bind_eq_ok.1 h
  exact (issueIf_quiet (by simp [runCodes]) hmid).quiet (issueIf_quiet (by simp [runCodes]) h)

theorem joinFragment_extends {frag : ApplicationFragment} {direction : Bool}
    (h : joinFragment w frag direction packets at_ limits = .ok w') :
    Extends w.out w'.out [] [] [] := by
  simp only [joinFragment] at h
  split_ifs at h with hfirst
  · obtain ⟨out, hemit, h⟩ := bind_eq_ok.1 h
    cases h
    exact emitPending_extends hemit
  · split at h
    · obtain ⟨out, hissue, h⟩ := bind_eq_ok.1 h
      cases h
      exact issue_quiet (by simp [runCodes]) hissue
    · split_ifs at h with hnext
      · obtain ⟨_, _, h⟩ := bind_eq_ok.1 h
        cases h
        exact .refl
      · obtain ⟨mid, hissue, h⟩ := bind_eq_ok.1 h
        obtain ⟨out, hemit, h⟩ := bind_eq_ok.1 h
        cases h
        exact (issue_quiet (by simp [runCodes]) hissue).quiet (emitApp_extends hemit)

theorem finishSegment_extends {complete : TransportAssembly}
    {direction : Bool} (h : finishSegment w frame complete direction limits = .ok w') :
    Extends w.out w'.out [] [] [] := by
  simp only [finishSegment] at h
  split at h
  · exact abandon_extends (by simp [runCodes]) h
  · obtain ⟨-, h⟩ := guard_eq_ok.1 h
    obtain ⟨out, hissue, h⟩ := bind_eq_ok.1 h
    obtain ⟨joined, hjoin, h⟩ := bind_eq_ok.1 h
    have hout : Extends w.out out [] [] [] := issueIf_quiet (by simp [runCodes]) hissue
    have hjoined : Extends w.out joined.out [] [] [] := hout.quiet (joinFragment_extends hjoin)
    have hpushed (fragments : List ApplicationFragment) :
        Extends w.out { joined.out with fragments } [] [] [] :=
      hjoined.quiet (.of_eq rfl rfl rfl)
    split_ifs at h
    · obtain ⟨last, hemit, h⟩ := bind_eq_ok.1 h
      cases h
      exact (hpushed _).quiet (emitPending_extends hemit)
    · cases h
      exact hpushed _

theorem placeSegment_extends {frameId : ℕ} {placed : Work × Bool}
    (h : placeSegment w frame frameId limits = .ok placed) :
    Extends w.out placed.1.out [] [] [] := by
  simp only [placeSegment] at h
  split at h
  · obtain ⟨mid, hold, h⟩ := bind_eq_ok.1 h
    obtain ⟨-, h⟩ := guard_eq_ok.1 h
    obtain ⟨bytes, _, h⟩ := bind_eq_ok.1 h
    have hmid : Extends w.out mid.out [] [] [] := abandonIf_extends (by simp [runCodes]) hold
    cases h
    exact hmid
  · split at h
    · obtain ⟨mid, habandon, rfl⟩ := map_ok h
      exact abandon_extends (by simp [runCodes]) habandon
    · split at h
      · obtain ⟨mid, habandon, rfl⟩ := map_ok h
        exact abandon_extends (by simp [runCodes]) habandon
      · obtain ⟨segment, _, h⟩ := bind_eq_ok.1 h
        obtain ⟨_, _, h⟩ := bind_eq_ok.1 h
        obtain ⟨-, h⟩ := guard_eq_ok.1 h
        cases h
        exact .refl

theorem takeSegment_extends {frameId : ℕ}
    (h : takeSegment w frame frameId limits = .ok w') : Extends w.out w'.out [] [] [] := by
  simp only [takeSegment] at h
  split at h
  · obtain ⟨-, h⟩ := guard_eq_ok.1 h
    obtain ⟨out, hissue, h⟩ := bind_eq_ok.1 h
    cases h
    exact issue_quiet (by split_ifs <;> simp [runCodes]) hissue
  · split at h
    · exact abandon_extends (by simp [runCodes]) h
    · obtain ⟨placed, hplace, h⟩ := bind_eq_ok.1 h
      have hplaced := placeSegment_extends hplace
      split_ifs at h
      · split at h
        · cases h
        · have hfinish := finishSegment_extends h
          exact hplaced.quiet hfinish
      · cases h
        exact hplaced

theorem acceptFrame_extends (h : acceptFrame w frame limits = .ok w') :
    Extends w.out w'.out [frame] [] [] := by
  obtain ⟨-, h⟩ := guard_eq_ok.1 h
  obtain ⟨out, hcontrol, h⟩ := bind_eq_ok.1 h
  have hout := controlIssues_extends hcontrol
  have hpushed : Extends w.out { out with frames := out.frames ++ [frame] } [frame] [] [] := by
    refine ⟨?_, hout.rejected, hout.issues⟩
    rw [hout.frames, List.append_nil]
  split at h
  · rename_i found hfound
    exact hpushed.quiet (abandon_extends (linkIssue_code hfound) h)
  · split_ifs at h with hempty hprimary
    · cases h
      exact hpushed
    · exact hpushed.quiet (abandon_extends (by simp [runCodes]) h)
    · obtain ⟨mid, hmid, h⟩ := bind_eq_ok.1 h
      have hchanged : Extends w.out mid.out [frame] [] [] :=
        hpushed.quiet (abandonIf_extends (by simp [runCodes]) hmid)
      exact hchanged.quiet (takeSegment_extends h)

theorem flush_extends (hcode : code ∉ runCodes)
    (h : flush w code at_ limits = .ok w') : Extends w.out w'.out [] [] [] := by
  obtain ⟨mid, hissues, h⟩ := bind_eq_ok.1 h
  obtain ⟨out, hemits, h⟩ := bind_eq_ok.1 h
  cases h
  have hfirst : Extends w.out mid [] [] [] :=
    foldlM_extends id (fun _ _ _ hstep => issue_quiet hcode hstep) hissues
  exact hfirst.quiet (foldlM_extends id (fun _ _ _ hstep => emitApp_extends hstep) hemits)

end Layers

structure FrameOf (chunk : StreamChunk) (x : Piece) (frame : LinkFrame) : Prop where
  streamOffset : frame.streamOffset = chunk.offset + x.start
  rawValid : frame.raw.Valid
  raw : frame.raw.view = (chunk.bytes.view.drop x.start).take x.len
  userDataValid : frame.userData.Valid
  userData : frame.userData.view = withoutCrcs frame.raw.view

structure RejectedOf (chunk : StreamChunk) (x : Piece) (range : RejectedLinkRange) : Prop where
  streamOffset : range.streamOffset = chunk.offset + x.start
  rawValid : range.raw.Valid
  raw : range.raw.view = (chunk.bytes.view.drop x.start).take x.len

def rangePackets (chunk : StreamChunk) (start stop : ℕ) : List PacketId :=
  match chunk.bytes.slice start stop with
  | .ok range => range.packets
  | .error _ => []

def runReport (code : String) (chunk : StreamChunk) (c : Cursor) : List ProtocolIssue :=
  if c.skipped > 0 then
    [⟨code, rangePackets chunk (c.p - c.skipped) c.p, chunk.offset + (c.p - c.skipped : ℕ)⟩]
  else []

/-- What one turn of the framing loop does. -/
inductive Turn (chunk : StreamChunk) (c : Cursor) : Cursor → Bool → Prop
  | skip (hmagic : ¬ Magic chunk.bytes.data c.p) :
      Turn chunk c { c with p := c.p + 1, skipped := c.skipped + 1 } false
  | frame {w : Work} {frame : LinkFrame} (hframed : Framed (chunk.bytes.data.drop c.p))
      (hframe : FrameOf chunk
        ⟨.frame, c.p, linkFrameTotal (byteAt (chunk.bytes.data.drop c.p) 2)⟩ frame)
      (hext : Extends c.work.out w.out [frame] [] (runReport "dnp3_link_resynchronized" chunk c)) :
      Turn chunk c
        ⟨w, c.rejectedBytes, c.p + linkFrameTotal (byteAt (chunk.bytes.data.drop c.p) 2), 0⟩ false
  | damaged {w : Work} {n : ℕ} {range : RejectedLinkRange} {reports : List ProtocolIssue}
      (hheaded : Headed (chunk.bytes.data.drop c.p))
      (hframed : ¬ Framed (chunk.bytes.data.drop c.p))
      (hrange : RejectedOf chunk ⟨.damaged, c.p,
        min (linkFrameTotal (byteAt (chunk.bytes.data.drop c.p) 2)) (chunk.bytes.len - c.p)⟩ range)
      (hext : Extends c.work.out w.out [] [range] reports)
      (hreports : ∀ i ∈ reports, i.streamOffset = chunk.offset + c.p) :
      Turn chunk c ⟨w, n, c.p +
        min (linkFrameTotal (byteAt (chunk.bytes.data.drop c.p) 2)) (chunk.bytes.len - c.p), 0⟩ false
  | lost {w : Work} {n : ℕ} {range : RejectedLinkRange} {reports : List ProtocolIssue}
      (hmagic : Magic chunk.bytes.data c.p) (hheaded : ¬ Headed (chunk.bytes.data.drop c.p))
      (hrange : RejectedOf chunk ⟨.lost, c.p, chunk.bytes.len - c.p⟩ range)
      (hext : Extends c.work.out w.out [] [range] reports)
      (hreports : ∀ i ∈ reports, i.streamOffset = chunk.offset + c.p) :
      Turn chunk c ⟨w, n, c.p, c.skipped⟩ true

structure Checked (chunk : StreamChunk) : Prop where
  valid : chunk.bytes.Valid
  len_le : (chunk.bytes.len : ℤ) ≤ offsetBound
  stop_le : chunk.stop ≤ offsetBound

section Turns
variable {chunk : StreamChunk} {limits : Limits} {c c' : Cursor}

theorem rangePackets_of_slice {start stop : ℕ} {range : EvidenceBytes}
    (h : chunk.bytes.slice start stop = .ok range) :
    rangePackets chunk start stop = range.packets := by
  rw [rangePackets, h]

theorem declaredLength_of_magic (hmagic : Magic chunk.bytes.data c.p) :
    declaredLength (chunk.bytes.data.drop c.p) =
      if Headed (chunk.bytes.data.drop c.p) then
        some (linkFrameTotal (byteAt (chunk.bytes.data.drop c.p) 2)) else none := by
  simp only [declaredLength, Headed, magic_iff.1 hmagic, true_and, ge_iff_le]

theorem resynchronize_extends {w : Work} (h : resynchronize chunk limits c = .ok w) :
    Extends c.work.out w.out [] [] (runReport "dnp3_link_resynchronized" chunk c) := by
  simp only [resynchronize] at h
  split at h
  · rename_i hskipped
    obtain ⟨mid, hflush, h⟩ := bind_eq_ok.1 h
    obtain ⟨run, hslice, h⟩ := bind_eq_ok.1 h
    obtain ⟨out, hissue, h⟩ := bind_eq_ok.1 h
    cases h
    have hfirst : Extends c.work.out mid.out [] [] [] := flush_extends (by simp [runCodes]) hflush
    rw [runReport, if_pos hskipped, rangePackets_of_slice hslice]
    simpa [runCodes] using hfirst.trans (issue_extends hissue)
  · rename_i hskipped
    cases h
    rw [runReport, if_neg hskipped]
    exact .refl

theorem reportTrailing_extends {out : Dnp3Result} (h : reportTrailing chunk limits c = .ok out) :
    Extends c.work.out out [] [] (runReport "trailing_unframed_dnp3_bytes" chunk c) := by
  simp only [reportTrailing] at h
  split at h
  · rename_i hskipped
    obtain ⟨run, hslice, hissue⟩ := bind_eq_ok.1 h
    rw [runReport, if_pos hskipped, rangePackets_of_slice hslice]
    simpa [runCodes] using issue_extends hissue
  · rename_i hskipped
    cases h
    rw [runReport, if_neg hskipped]
    exact .refl

theorem rejected_extends {out : Dnp3Result} (range : RejectedLinkRange) :
    Extends out { out with rejectedLinkRanges := out.rejectedLinkRanges ++ [range] }
      [] [range] [] :=
  ⟨(List.append_nil _).symm, rfl, [], (List.append_nil _).symm, rfl⟩

theorem rejectCode_mem (e : Error) : rejectCode e ∈ runCodes := by
  unfold rejectCode
  split_ifs <;> simp [runCodes]

theorem rejectedOf_slice (hc : Checked chunk) {mark : Mark} {n : ℕ} {raw : EvidenceBytes}
    (h : chunk.bytes.slice c.p (c.p + n) = .ok raw) (declared : Option ℕ) (code : String)
    (incomplete : Bool) :
    RejectedOf chunk ⟨mark, c.p, n⟩ ⟨chunk.offset + c.p, declared, code, incomplete, raw⟩ := by
  obtain ⟨hraw, -, hview⟩ := view_slice hc.valid h
  rw [List.drop_take, Nat.add_sub_cancel_left] at hview
  exact ⟨rfl, hraw, hview⟩

theorem rejectFrame_turn (hc : Checked chunk) (hmagic : Magic chunk.bytes.data c.p)
    (hframed : ¬ Framed (chunk.bytes.data.drop c.p)) {e : Error} {stop : Bool}
    (h : rejectFrame chunk limits c e = .ok (c', stop)) : Turn chunk c c' stop := by
  obtain ⟨w, hflush, h⟩ := bind_eq_ok.1 h
  obtain ⟨head, hhead, h⟩ := bind_eq_ok.1 h
  obtain ⟨out, hissue, h⟩ := bind_eq_ok.1 h
  have hfirst : Extends c.work.out w.out [] [] [] := flush_extends (by simp [runCodes]) hflush
  have hout := hfirst.trans (issue_extends hissue)
  rw [if_pos (rejectCode_mem e)] at hout
  dsimp only at h
  rw [declaredLength_of_magic hmagic] at h
  obtain ⟨-, h⟩ := guard_eq_ok.1 h
  obtain ⟨-, h⟩ := guard_eq_ok.1 h
  obtain ⟨raw, hraw, h⟩ := bind_eq_ok.1 h
  have hlen : (chunk.bytes.data.drop c.p).length = chunk.bytes.len - c.p := List.length_drop
  by_cases hheaded : Headed (chunk.bytes.data.drop c.p)
  · simp only [if_pos hheaded, Option.getD_some, hlen] at h hraw
    obtain ⟨range, _, h⟩ := bind_eq_ok.1 h
    obtain ⟨last, hlast, h⟩ := bind_eq_ok.1 h
    have hext := (hout.trans (rejected_extends _)).trans (issue_extends hlast)
    rw [if_pos (by simp [runCodes])] at hext
    simp only [List.nil_append, List.append_nil, List.cons_append] at hext
    cases h
    exact .damaged hheaded hframed (rejectedOf_slice hc hraw _ _ _) hext (by simp)
  · simp only [if_neg hheaded, Option.getD_none, hlen, Nat.min_self] at h hraw
    obtain ⟨range, _, h⟩ := bind_eq_ok.1 h
    obtain ⟨last, hlast, h⟩ := bind_eq_ok.1 h
    have hext := (hout.trans (rejected_extends _)).trans (issue_extends hlast)
    rw [if_pos (by simp [runCodes])] at hext
    simp only [List.nil_append, List.append_nil, List.cons_append] at hext
    cases h
    exact .lost hmagic hheaded (rejectedOf_slice hc hraw _ _ _) hext (by simp)

theorem step_turn (hc : Checked chunk) (hp : c.p < chunk.bytes.len) {stop : Bool}
    (h : step chunk limits c = .ok (c', stop)) : Turn chunk c c' stop := by
  simp only [step] at h
  split at h
  · rename_i hmagic
    cases h
    exact .skip hmagic
  · rename_i hmagic
    have hword : (c.p : ℤ) ≤ offsetBound := by have := hc.len_le; omega
    have hbase : chunk.offset + c.p ≤ offsetBound := by
      have hstop := hc.stop_le
      rw [StreamChunk.stop] at hstop
      omega
    have hread := parseLink_framed hc.valid hp.le hword hbase
    split_ifs at hread with hframed
    · obtain ⟨frame, hframe, hok⟩ := hread
      rw [hok] at h
      obtain ⟨mid, hmid, h⟩ := bind_eq_ok.1 h
      obtain ⟨w, haccept, h⟩ := bind_eq_ok.1 h
      have hext := (resynchronize_extends hmid).trans (acceptFrame_extends haccept)
      cases h
      exact .frame hframed
        ⟨hframe.streamOffset, hframe.rawValid, hframe.raw, hframe.userDataValid, hframe.userData⟩
        (by simpa using hext)
    · obtain ⟨error, herror⟩ := hread
      rw [herror] at h
      exact rejectFrame_turn hc (not_not.1 hmagic) hframed h

end Turns

end PcapEvidence.Dnp3
