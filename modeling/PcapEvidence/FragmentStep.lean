import PcapEvidence.Fragment
import PcapEvidence.ProvenanceOps

/-!
# The cover sweep and the join loop

`push` detects completion with a cursor sweep over the sorted parts and then joins them with a
second loop that recomputes the overlaps. `Chained` is what connects the two: no part starts beyond
the bytes already joined.
-/

namespace PcapEvidence.FragmentReassembler

open Fragment EvidenceBytes

def Chained : ℕ → List Part → Prop
  | _, [] => True
  | c, p :: rest => p.start ≤ c ∧ Chained (max c p.stop) rest

def reach (c : ℕ) (parts : List Part) : ℕ := parts.foldl (fun c p => max c p.stop) c

/-- A sweep that arrives at the total met no gap: a part beyond one would end beyond the total. -/
theorem chained_of_coverCursor {c total : ℕ} {parts : List Part}
    (hparts : ∀ p ∈ parts, p.start < p.stop ∧ p.stop ≤ total)
    (h : coverCursor c parts = total) : Chained c parts ∧ reach c parts = total := by
  induction parts generalizing c with
  | nil => exact ⟨trivial, h⟩
  | cons p rest ih =>
    rw [coverCursor] at h
    by_cases hgap : p.start > c
    · rw [if_pos hgap] at h
      have := hparts p (by simp)
      omega
    · rw [if_neg hgap] at h
      obtain ⟨hchain, hreach⟩ := ih (fun q hq => hparts q (by simp [hq])) h
      exact ⟨⟨by omega, hchain⟩, hreach⟩

def Follows (content : ℕ → U8) (p : Part) : Prop :=
  ∀ i (hi : i < p.bytes.data.length), p.bytes.data[i] = content (p.start + i)

theorem part_stop (p : Part) : p.stop = p.start + p.bytes.data.length := rfl

theorem join_cons {joined : EvidenceBytes} {p : Part} (rest : List Part) (hj : joined.Valid)
    (hp : p.bytes.Valid) (hstart : p.start ≤ joined.data.length) (hlen : joined.data.length ≤ 65535)
    (hstop : p.stop ≤ 65535) :
    ∃ next, join joined (p :: rest) = join next rest ∧ next.Valid ∧
      next.data = joined.data ++ p.bytes.data.drop (joined.data.length - p.start) ∧
      next.view = joined.view ++ p.bytes.view.drop (joined.data.length - p.start) := by
  have hstop' := part_stop p
  have hview : p.bytes.view.length = p.bytes.data.length := by
    have hlen : (origins p.bytes.spans).length = p.bytes.data.length := by
      simpa using hp.2.length_origins
    simp [view, hlen]
  by_cases hskip : min (joined.len - p.start) p.bytes.len < p.bytes.len
  · have hs : min (joined.len - p.start) p.bytes.len = joined.data.length - p.start := by
      simp only [len] at hskip ⊢
      omega
    have hle : joined.data.length - p.start ≤ p.bytes.data.length := by
      simp only [len] at hskip
      omega
    obtain ⟨piece, hslice, hpiece, -, -⟩ := slice_spec hp hle le_rfl
    obtain ⟨-, hdata, hpview⟩ := view_slice hp hslice
    rw [List.take_length] at hdata
    rw [← hview, List.take_length] at hpview
    have hsum : joined.data.length + piece.data.length ≤ 65535 := by
      rw [hdata, List.length_drop]
      omega
    obtain ⟨next, happend, -⟩ := append_spec hj hpiece
      (lt_of_le_of_lt hsum (by norm_num [wordBound])) hsum
    obtain ⟨hnext, hndata, hnview⟩ := view_append hj hpiece happend
    refine ⟨next, ?_, hnext, by rw [hndata, hdata], by rw [hnview, hpview]⟩
    have hlt : joined.data.length - p.start < p.bytes.data.length := by
      rw [← hs]
      exact hskip
    simp only [join, hs]
    simp only [len, if_pos hlt, hslice, happend]
  · have hle : p.bytes.data.length ≤ joined.data.length - p.start := by
      simp only [len] at hskip
      omega
    refine ⟨joined, ?_, hj, ?_, ?_⟩
    · rw [join]
      simp only [if_neg hskip]
    · rw [List.drop_eq_nil_of_le hle, List.append_nil]
    · rw [List.drop_eq_nil_of_le (by rw [hview]; exact hle), List.append_nil]

/-- The join of a chained list is as long as the furthest end and takes every byte from one of the
parts. -/
theorem join_spec {joined : EvidenceBytes} {parts : List Part} (hj : joined.Valid)
    (hlen : joined.data.length ≤ 65535) (hchain : Chained joined.data.length parts)
    (hparts : ∀ p ∈ parts, p.bytes.Valid ∧ p.stop ≤ 65535) :
    ∃ out, join joined parts = .ok out ∧ out.Valid ∧
      out.data.length = reach joined.data.length parts ∧
      (∀ x ∈ out.view, x ∈ joined.view ∨ ∃ p ∈ parts, x ∈ p.bytes.view) ∧
      ∀ content, (∀ i (hi : i < joined.data.length), joined.data[i] = content i) →
        (∀ p ∈ parts, Follows content p) →
        ∀ i (hi : i < out.data.length), out.data[i] = content i := by
  induction parts generalizing joined with
  | nil => exact ⟨joined, rfl, hj, rfl, fun x hx => Or.inl hx, fun content hc _ => hc⟩
  | cons p rest ih =>
    obtain ⟨hstart, hchain⟩ := hchain
    obtain ⟨hpv, hps⟩ := hparts p (by simp)
    obtain ⟨next, hjoin, hnext, hdata, hview⟩ := join_cons rest hj hpv hstart hlen hps
    have hstop := part_stop p
    have hnlen : next.data.length = max joined.data.length p.stop := by
      rw [hdata, List.length_append, List.length_drop]
      omega
    obtain ⟨out, hok, hout, houtlen, hsource, hcontent⟩ := ih hnext (by omega)
      (by rw [hnlen]; exact hchain) (fun q hq => hparts q (by simp [hq]))
    refine ⟨out, by rw [hjoin, hok], hout, by rw [houtlen, hnlen]; rfl, ?_, ?_⟩
    · intro x hx
      rcases hsource x hx with hx | ⟨q, hq, hx⟩
      · rw [hview, List.mem_append] at hx
        exact hx.imp id (fun hx => ⟨p, by simp, List.mem_of_mem_drop hx⟩)
      · exact Or.inr ⟨q, by simp [hq], hx⟩
    · intro content hc hfollow
      refine hcontent content ?_ (fun q hq => hfollow q (by simp [hq]))
      intro i hi
      by_cases hold : i < joined.data.length
      · simp only [hdata, List.getElem_append_left hold]
        exact hc i hold
      · have hpi : joined.data.length - p.start + (i - joined.data.length) < p.bytes.data.length := by
          omega
        simp only [hdata, List.getElem_append_right (Nat.le_of_not_lt hold), List.getElem_drop]
        rw [hfollow p (by simp) _ hpi]
        congr 1
        omega

def Agree (p q : Part) : Prop :=
  ∀ x, p.start ≤ x → x < p.stop → q.start ≤ x → x < q.stop →
    p.bytes.data[x - p.start]? = q.bytes.data[x - q.start]?

theorem exists_content {parts : List Part} (h : ∀ p ∈ parts, ∀ q ∈ parts, Agree p q) :
    ∃ content, ∀ p ∈ parts, Follows content p := by
  refine ⟨fun x => ((parts.find? (fun p => p.start ≤ x ∧ x < p.stop)).bind
    (fun p => p.bytes.data[x - p.start]?)).getD 0, ?_⟩
  intro p hp i hi
  have hstop := part_stop p
  have hfound : (parts.find? (fun q => q.start ≤ p.start + i ∧ p.start + i < q.stop)).isSome := by
    rw [List.find?_isSome]
    exact ⟨p, hp, by simp only [decide_eq_true_eq]; omega⟩
  obtain ⟨q, hq⟩ := Option.isSome_iff_exists.1 hfound
  have hcov : q.start ≤ p.start + i ∧ p.start + i < q.stop := by simpa using List.find?_some hq
  have hagree := h p hp q (List.mem_of_find?_eq_some hq) (p.start + i) (by omega) (by omega)
    hcov.1 hcov.2
  rw [Nat.add_sub_cancel_left, List.getElem?_eq_getElem hi] at hagree
  simp only [hq, Option.bind_some, ← hagree, Option.getD_some]

end PcapEvidence.FragmentReassembler

/-!
## What one push can do

`push_cases` lists the exits of `push`: those that leave the state alone, and the admitted one, which
continues in `pushSet` with the stored or freshly opened set. `pushSet_cases` lists the exits of
that second half. Every invariant is derived from these two lists.
-/

namespace PcapEvidence.FragmentReassembler

open Fragment EvidenceBytes OrderedMap SortedVec

variable (r : FragmentReassembler) (datagram : Datagram) (info : FragmentInfo) (frame : ℕ)

/-- Everything the admission checks establish. -/
structure Admitted (admitted : List PacketId) (newSize : ℕ) : Prop where
  limits : r.limits.validate = .ok ()
  fragment : datagram.fragment = some info
  stop_le : info.offset + datagram.payload.data.length ≤ 65535
  nonempty : datagram.payload.data ≠ []
  payload : datagram.payload.Valid
  packets : admitted = admittedPackets (r.sets.get? (keyOf datagram info)) datagram
  packets_le : admitted.length ≤ r.limits.maxFragmentsPerSet
  parts_lt : ∀ a, r.sets.get? (keyOf datagram info) = some a →
    a.parts.length < r.limits.maxFragmentsPerSet
  size : newSize = if (r.sets.get? (keyOf datagram info)).any (·.poisoned) then r.retained
    else r.retained + datagram.payload.data.length
  size_le : newSize ≤ r.limits.maxRetainedPayload
  room : r.sets.get? (keyOf datagram info) = none → r.sets.size < r.limits.maxFragmentSets

def opened : FragmentReassembler :=
  if (r.sets.get? (keyOf datagram info)).isNone then r.openSet (keyOf datagram info) datagram frame
  else r

def current : Assembly :=
  (r.sets.get? (keyOf datagram info)).getD (openAssembly datagram frame)

theorem opened_get? :
    (r.opened datagram info frame).sets.get? (keyOf datagram info) =
      some (r.current datagram info frame) := by
  unfold opened current
  cases h : r.sets.get? (keyOf datagram info) with
  | none => simp [openSet]
  | some a => simpa using h

theorem admission_ok {admitted : List PacketId} {newSize : ℕ}
    (hlimits : r.limits.validate = .ok ()) (hfragment : datagram.fragment = some info)
    (hstop : info.offset + datagram.payload.data.length ≤ 65535)
    (hne : datagram.payload.data ≠ [])
    (h : r.admission (keyOf datagram info) datagram = .ok (admitted, newSize)) :
    Admitted r datagram info admitted newSize := by
  unfold admission at h
  dsimp only at h
  by_cases hvalid : (!datagram.payload.validate) = true
  · simp [hvalid] at h
  rw [if_neg hvalid] at h
  split at h
  · cases h
  rename_i hcount
  cases hsize : r.admittedSize (r.sets.get? (keyOf datagram info)) datagram with
  | none => simp [hsize] at h
  | some size =>
    simp only [hsize] at h
    split_ifs at h with hle hroom
    simp only [Except.ok.injEq, Prod.mk.injEq] at h
    obtain ⟨rfl, rfl⟩ := h
    push Not at hcount hroom
    refine ⟨hlimits, hfragment, hstop, hne, ?_, rfl, hcount.1, ?_, ?_, by omega, ?_⟩
    · rw [← validate_iff]
      simpa using hvalid
    · intro a ha
      simpa [ha] using hcount.2
    · unfold admittedSize at hsize
      split_ifs at hsize ⊢ with hp
      · exact (Option.some.inj hsize).symm
      · exact ((checkedAdd_eq_some_iff _ _ _).1 hsize).2
    · intro hnone
      exact hroom (by simp [hnone])

theorem admission_error {key : Key} {e : Error} (h : r.admission key datagram = .error e)
    (hv : datagram.payload.Valid) : e.code ≠ .invariant := by
  unfold admission at h
  dsimp only at h
  rw [if_neg (by simp [(validate_iff _).2 hv])] at h
  split at h
  · cases h
    simp
  · split at h
    · cases h
      simp
    · split_ifs at h
      · cases h
        simp
      · cases h
        simp

theorem push_cases :
    (∃ e, r.push datagram frame = (.error e, r) ∧
      (datagram.payload.Valid → e.code ≠ .invariant)) ∨
    (datagram.fragment = none ∧
      r.push datagram frame = (.ok (.complete datagram datagram.payload.packets), r)) ∨
    (∃ info, datagram.fragment = some info ∧ r.push datagram frame =
      (.ok (.rejected ⟨"invalid_fragment_range", datagram.payload.packets⟩), r)) ∨
    ∃ info admitted newSize, Admitted r datagram info admitted newSize ∧
      r.push datagram frame = (r.opened datagram info frame).pushSet (keyOf datagram info)
        (r.current datagram info frame) datagram info admitted newSize := by
  unfold push
  cases hv : r.limits.validate with
  | error e => exact Or.inl ⟨e, rfl, fun _ => Limits.validate_error_code hv⟩
  | ok u =>
    cases hf : datagram.fragment with
    | none => exact Or.inr (Or.inl ⟨rfl, rfl⟩)
    | some info =>
      cases ha : checkedAdd info.offset datagram.payload.len with
      | none => exact Or.inl ⟨Error.limit "fragment_range", by simp only [ha], by simp⟩
      | some stop =>
        obtain ⟨-, rfl⟩ := (checkedAdd_eq_some_iff _ _ _).1 ha
        simp only [ha]
        by_cases hrange : info.offset + datagram.payload.len > 65535 ∨ datagram.payload.isEmpty
        · exact Or.inr (Or.inr (Or.inl ⟨info, rfl, by rw [if_pos hrange]⟩))
        rw [if_neg hrange]
        push Not at hrange
        have hne : datagram.payload.data ≠ [] := by
          simpa [EvidenceBytes.isEmpty] using hrange.2
        cases hadm : r.admission (keyOf datagram info) datagram with
        | error e => exact Or.inl ⟨e, rfl, r.admission_error datagram hadm⟩
        | ok out =>
          obtain ⟨admitted, newSize⟩ := out
          refine Or.inr (Or.inr (Or.inr ⟨info, admitted, newSize,
            r.admission_ok datagram info hv hf hrange.1 hne hadm, ?_⟩))
          have hget := r.opened_get? datagram info frame
          unfold opened at hget ⊢
          simp only [hget]

def newPart : Part := ⟨info.offset, info.more, datagram.payload⟩

def noted (set : Assembly) (admitted : List PacketId) : Assembly := { set with
  packets := admitted
  template := updateTemplate set.template datagram info
  stop := if info.more then set.stop else some (newPart datagram info).stop }

def accepted (set : Assembly) (admitted : List PacketId) : Assembly :=
  acceptPart (noted datagram info set admitted) (newPart datagram info)

theorem pushSet_cases (key : Key) (set : Assembly) (admitted : List PacketId) (newSize : ℕ) :
    let out := r.pushSet key set datagram info admitted newSize
    let done := accepted datagram info set admitted
    (set.poisoned = true ∧ out = (.ok (.rejected ⟨"fragment_set_quarantined", admitted⟩),
      r.store key { set with packets := admitted })) ∨
    (set.poisoned = false ∧ ∃ code, rejection key set (newPart datagram info) = some code ∧
      out = (.ok (.rejected ⟨code, admitted⟩),
        r.store key { noted datagram info set admitted with poisoned := true })) ∨
    (set.poisoned = false ∧ rejection key set (newPart datagram info) = none ∧
      (∀ total, done.stop = some total → coverCursor 0 done.parts ≠ total) ∧
      out = (.ok .pending, { r with retained := newSize }.store key done)) ∨
    (set.poisoned = false ∧ rejection key set (newPart datagram info) = none ∧
      ∃ total, done.stop = some total ∧ coverCursor 0 done.parts = total ∧
        65535 < total + overhead key done.template ∧
        out = (.ok (.rejected ⟨"reassembled_ip_length_overflow", admitted⟩),
          { r with retained := newSize }.store key { done with poisoned := true })) ∨
    (set.poisoned = false ∧ rejection key set (newPart datagram info) = none ∧
      ∃ total, done.stop = some total ∧ coverCursor 0 done.parts = total ∧
        total + overhead key done.template ≤ 65535 ∧
        out = ({ r with retained := newSize }.store key done).complete key) := by
  dsimp only
  unfold pushSet
  dsimp only
  cases hp : set.poisoned with
  | true => exact Or.inl ⟨rfl, by simp⟩
  | false =>
    rw [if_neg (by simp)]
    have hrej : rejection key { set with packets := admitted, poisoned := false }
        ⟨info.offset, info.more, datagram.payload⟩ =
          rejection key set (newPart datagram info) := rfl
    have hdone : accepted datagram info set admitted = acceptPart
        { set with
          packets := admitted
          template := updateTemplate set.template datagram info
          stop := if info.more then set.stop
            else some (Part.stop ⟨info.offset, info.more, datagram.payload⟩)
          poisoned := false } ⟨info.offset, info.more, datagram.payload⟩ := by
      simp [accepted, noted, newPart, hp]
    rw [hrej]
    cases hfound : rejection key set (newPart datagram info) with
    | some code => exact Or.inr (Or.inl ⟨rfl, code, rfl, rfl⟩)
    | none =>
      dsimp only
      rw [← hdone]
      cases hstop : (accepted datagram info set admitted).stop with
      | none => exact Or.inr (Or.inr (Or.inl ⟨rfl, rfl, by simp, rfl⟩))
      | some total =>
        dsimp only
        split_ifs with hcover hover
        · exact Or.inr (Or.inr (Or.inr (Or.inl ⟨rfl, rfl, total, rfl, hcover, hover, rfl⟩)))
        · exact Or.inr (Or.inr (Or.inr (Or.inr ⟨rfl, rfl, total, rfl, hcover, by omega, rfl⟩)))
        · refine Or.inr (Or.inr (Or.inl ⟨rfl, rfl, ?_, rfl⟩))
          rintro t ht
          rwa [← Option.some.inj ht]

end PcapEvidence.FragmentReassembler
