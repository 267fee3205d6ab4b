import PcapEvidence.FragmentTiling

/-!
# Pushing a tiling

One push of a fragment of a tiling, after some of the others have been pushed, and from it the
whole sequence of pushes.
-/

namespace PcapEvidence.FragmentReassembler

open Fragment EvidenceBytes OrderedMap SortedVec

/-- What the set looks like once the fragments `done` have been pushed. -/
structure Stage (total : ℕ) (done : List Datagram) (a : Assembly) : Prop where
  clean : a.poisoned = false
  parts : a.parts.Perm (done.map partOf)
  packets : a.packets = sortDedup (done.flatMap (·.payload.packets))
  stop : a.stop = if done.any (fun d => !(partOf d).more) then some total else none
  head : ∀ d ∈ done, (partOf d).start = 0 →
    a.template.protocol = d.protocol ∧ a.template.networkHeaderLen = d.networkHeaderLen

structure Progress (r₀ r : FragmentReassembler) (key : Key) (total : ℕ) (done : List Datagram) :
    Prop where
  inv : Invariant r
  limits : r.limits = r₀.limits
  retained : r.retained = r₀.retained + (done.map (·.payload.data.length)).sum
  room : r.sets.get? key = none → r.sets.size < r.limits.maxFragmentSets
  stage : ∀ d info frame, keyOf d info = key → Stage total done (r.current d info frame)

theorem stage_openAssembly (total : ℕ) (d : Datagram) (frame : ℕ) :
    Stage total [] (openAssembly d frame) := by
  constructor <;> simp [openAssembly]

namespace Tiling

variable {key : Key} {total : ℕ} {frags done rest : List Datagram} {d : Datagram}

theorem partOf_lt (h : Tiling key total frags) (hd : d ∈ frags) :
    (partOf d).start < (partOf d).stop := by
  have := List.length_pos_iff.2 (h.payload d hd).2
  rw [part_stop]
  change _ < _ + d.payload.data.length
  omega

theorem apart (h : Tiling key total (done ++ d :: rest)) {e : Datagram} (he : e ∈ done ++ rest) :
    (partOf e).stop ≤ (partOf d).start ∨ (partOf d).stop ≤ (partOf e).start := by
  obtain ⟨-, htail, hcross⟩ := List.pairwise_append.1 h.disjoint
  rcases List.mem_append.1 he with he | he
  · exact hcross e he d (by simp)
  · exact ((List.pairwise_cons.1 htail).1 e he).symm

theorem terminal_iff (h : Tiling key total frags) (hd : d ∈ frags) :
    (partOf d).more = false ↔ (partOf d).stop = total := by
  have hmem (e : Datagram) (he : e ∈ frags) (hmore : (partOf e).more = false) :
      (partOf e).stop = total := by
    have : (partOf e).stop ∈ (frags.filter (fun d => !(partOf d).more)).map
        (fun d => (partOf d).stop) :=
      List.mem_map.2 ⟨e, List.mem_filter.2 ⟨he, by simp [hmore]⟩, rfl⟩
    rw [h.terminal] at this
    simpa using this
  refine ⟨hmem d hd, fun hstop => ?_⟩
  have hlast : total ∈ (frags.filter (fun d => !(partOf d).more)).map
      (fun d => (partOf d).stop) := by
    rw [h.terminal]
    simp
  obtain ⟨e, he, hes⟩ := List.mem_map.1 hlast
  obtain ⟨he, hmore⟩ := List.mem_filter.1 he
  have hmore : (partOf e).more = false := by simpa using hmore
  -- two fragments that end at the same place overlap
  obtain ⟨front, back, rfl⟩ := List.append_of_mem hd
  have hde := h.partOf_lt hd
  have hee := h.partOf_lt he
  by_cases heq : e ∈ front ++ back
  · have := h.apart heq
    omega
  · have : e = d := by
      simp only [List.mem_append, List.mem_cons, not_or] at he heq
      tauto
    rwa [← this]

theorem outside_eq_false (h : Tiling key total frags) (hd : d ∈ frags) :
    outside total (partOf d).stop (partOf d).more = false := by
  have hle := h.inside d hd
  have hterm := h.terminal_iff hd
  cases hmore : (partOf d).more with
  | false => simp [outside, hle]
  | true =>
    have : (partOf d).stop ≠ total := by
      intro heq
      simp [hterm.2 heq] at hmore
    simp only [outside, Bool.or_eq_false_iff, Bool.and_eq_false_iff, decide_eq_false_iff_not]
    exact ⟨by omega, Or.inr (by omega)⟩

theorem newPart_eq {info : FragmentInfo} (hf : d.fragment = some info) :
    newPart d info = partOf d := by
  simp [newPart, partOf, hf]

theorem rejection_eq_none (h : Tiling key total (done ++ d :: rest)) {a : Assembly}
    (ha : Stage total done a) : rejection key a (partOf d) = none := by
  have hd : d ∈ done ++ d :: rest := by simp
  have hold {e : Datagram} (he : e ∈ done) : e ∈ done ++ d :: rest := by simp [he]
  apply rejection_of_disjoint
  · intro hmore
    rw [ha.stop, if_neg]
    simp only [List.any_eq_true, not_exists, not_and, Bool.not_eq_true', Bool.not_eq_false]
    intro e he
    by_contra hemore
    have hes := (h.terminal_iff (hold he)).1 (by simpa using hemore)
    have hds := (h.terminal_iff hd).1 hmore
    have := h.apart (e := e) (by simp [he])
    have := h.partOf_lt hd
    have := h.partOf_lt (hold he)
    omega
  · intro t ht
    have htotal : t = total := by
      cases hmore : (partOf d).more with
      | false =>
        rw [hmore] at ht
        exact (Option.some.inj ht).symm.trans ((h.terminal_iff hd).1 hmore)
      | true =>
        rw [hmore, if_pos rfl, ha.stop] at ht
        split_ifs at ht
        exact (Option.some.inj ht).symm
    subst htotal
    refine ⟨h.outside_eq_false hd, fun p hp => ?_⟩
    obtain ⟨e, he, rfl⟩ := List.mem_map.1 (ha.parts.mem_iff.1 hp)
    exact h.outside_eq_false (hold he)
  · intro p hp
    obtain ⟨e, he, rfl⟩ := List.mem_map.1 (ha.parts.mem_iff.1 hp)
    have := h.apart (e := e) (by simp [he])
    omega

end Tiling

section Push

variable {r₀ r : FragmentReassembler} {key : Key} {total : ℕ} {done rest : List Datagram}
  {d : Datagram} {info : FragmentInfo} {frame : ℕ}

/-- An admitted fragment reaches the second half of `push`. -/
theorem Admitted.push_eq {admitted : List PacketId} {newSize : ℕ}
    (h : Admitted r d info admitted newSize) (hword : r.limits.maxRetainedPayload < wordBound)
    (frame : ℕ) :
    r.push d frame = (r.opened d info frame).pushSet (keyOf d info) (r.current d info frame) d info
      admitted newSize := by
  have hsize : r.admittedSize (r.sets.get? (keyOf d info)) d = some newSize := by
    have hle := h.size_le
    unfold admittedSize
    have hnew := h.size
    split_ifs at hnew ⊢ with hp
    · rw [hnew]
    · rw [hnew]
      exact checkedAdd_of_lt (by simp only [len]; omega)
  have hadm : r.admission (keyOf d info) d = .ok (admitted, newSize) := by
    unfold admission
    dsimp only
    rw [if_neg (by simp [(validate_iff _).2 h.payload]), if_neg, hsize]
    · dsimp only
      rw [if_neg (by have := h.size_le; omega), if_neg, h.packets]
      rintro ⟨hnone, hfull⟩
      have := h.room (Option.isNone_iff_eq_none.1 hnone)
      omega
    · rintro (hcount | hparts)
      · rw [← h.packets] at hcount
        have := h.packets_le
        omega
      · obtain ⟨a, ha, hfull⟩ := (Option.any_eq_true _ _).1 hparts
        have := h.parts_lt a ha
        simp only [decide_eq_true_eq] at hfull
        omega
  have hget := r.opened_get? d info frame
  have hstop : checkedAdd info.offset d.payload.len = some (info.offset + d.payload.len) := by
    have := h.stop_le
    exact checkedAdd_of_lt (by simp only [len, wordBound]; omega)
  have hrange : ¬ (info.offset + d.payload.len > 65535 ∨ d.payload.isEmpty) := by
    rintro (hlong | hempty)
    · have := h.stop_le
      simp only [len] at hlong
      omega
    · exact h.nonempty (by simpa [EvidenceBytes.isEmpty] using hempty)
  unfold push
  simp only [h.limits, h.fragment, hstop, if_neg hrange, hadm]
  unfold opened at hget ⊢
  simp only [hget]

theorem Progress.admitted (h : Progress r₀ r key total done) (hb : Budget r₀ (done ++ d :: rest))
    (ht : Tiling key total (done ++ d :: rest)) (hlong : total ≤ 65535)
    (hf : d.fragment = some info) (hkey : keyOf d info = key) :
    Admitted r d info (sortDedup ((done ++ [d]).flatMap (·.payload.packets)))
      (r₀.retained + ((done ++ [d]).map (·.payload.data.length)).sum) := by
  have hd : d ∈ done ++ d :: rest := by simp
  have hinside := ht.inside d hd
  rw [part_stop, ← Tiling.newPart_eq hf] at hinside
  have hstage := h.stage d info 0 hkey
  subst hkey
  have hpackets (a : Assembly) (hget : r.sets.get? (keyOf d info) = some a) :
      Stage total done a := by simpa [current, hget] using hstage
  refine ⟨?_, hf, hinside.trans hlong, (ht.payload d hd).2, (ht.payload d hd).1, ?_, ?_, ?_, ?_,
    ?_, h.room⟩
  · rw [h.limits]
    exact hb.limits
  · unfold admittedPackets
    cases hget : r.sets.get? (keyOf d info) with
    | none =>
      have : done = [] := by
        have := hstage.parts
        simp only [current, hget, Option.getD_none, openAssembly] at this
        simpa using this
      simp [this]
    | some a =>
      apply sortDedup_congr
      simp [(hpackets a hget).packets]
  · rw [h.limits]
    refine le_trans ?_ hb.packets
    apply List.Subperm.length_le
    apply (sortDedup_nodup _).subperm
    intro id hid
    simp only [mem_sortDedup, List.mem_flatMap] at hid ⊢
    obtain ⟨e, he, hid⟩ := hid
    exact ⟨e, by simp only [List.mem_append, List.mem_cons] at he ⊢; tauto, hid⟩
  · intro a hget
    rw [(hpackets a hget).parts.length_eq, List.length_map, h.limits]
    have := hb.fragments
    simp only [List.length_append, List.length_cons] at this
    omega
  · rw [if_neg, h.retained]
    · simp [Nat.add_assoc]
    · intro hany
      obtain ⟨a, hget, hp⟩ := (Option.any_eq_true _ _).1 hany
      simp [(hpackets a hget).clean] at hp
  · rw [h.limits]
    refine le_trans ?_ hb.payload
    simp only [List.map_append, List.map_cons, List.map_nil, List.sum_append, List.sum_cons]
    simp

theorem Stage.accepted {a : Assembly} (h : Stage total done a)
    (ht : Tiling key total (done ++ d :: rest)) (hf : d.fragment = some info) :
    Stage total (done ++ [d]) (FragmentReassembler.accepted d info a
      (sortDedup ((done ++ [d]).flatMap (·.payload.packets)))) := by
  have hpart := Tiling.newPart_eq hf
  have hmore : (partOf d).more = info.more := by simp [partOf, hf]
  have hstart : (partOf d).start = info.offset := by simp [partOf, hf]
  refine ⟨h.clean, ?_, rfl, ?_, ?_⟩
  · refine (perm_accepted_parts info a _).trans ?_
    rw [hpart, List.map_append]
    exact h.parts.append_right _
  · change (if info.more then a.stop else some (newPart d info).stop) = _
    rw [List.any_append, h.stop, hpart]
    cases hm : info.more with
    | true => simp [hmore, hm]
    | false =>
      have := (ht.terminal_iff (d := d) (by simp)).1 (hmore.trans hm)
      simp [hmore, hm, this]
  · intro e he he0
    change (updateTemplate a.template d info).protocol = _ ∧
      (updateTemplate a.template d info).networkHeaderLen = _
    rcases List.mem_append.1 he with he | he
    · have hne : info.offset ≠ 0 := by
        intro h0
        have := ht.apart (e := e) (by simp [he])
        have := ht.partOf_lt (d := e) (by simp [he])
        have := ht.partOf_lt (d := d) (by simp)
        omega
      have hkeep := h.head e he he0
      unfold updateTemplate
      dsimp only
      rw [if_neg hne]
      split_ifs <;> exact hkeep
    · rw [List.mem_singleton.1 he] at he0 ⊢
      unfold updateTemplate
      dsimp only
      rw [if_pos (hstart.symm.trans he0)]
      exact ⟨rfl, rfl⟩

end Push

end PcapEvidence.FragmentReassembler
