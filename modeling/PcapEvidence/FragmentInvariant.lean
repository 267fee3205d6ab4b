import PcapEvidence.FragmentStep

/-!
# Stored assemblies stay consistent

`Sane` is what holds of one stored assembly: bounded, valid, sorted parts, and, unless the set is
quarantined, parts that fit the declared total and agree on every overlap.
-/

namespace PcapEvidence.FragmentReassembler

open Fragment EvidenceBytes SortedVec

structure Sane (limits : Limits) (a : Assembly) : Prop where
  parts_le : a.parts.length ≤ limits.maxFragmentsPerSet
  parts_valid : ∀ p ∈ a.parts, p.bytes.Valid ∧ p.start < p.stop ∧ p.stop ≤ 65535
  sorted : a.parts.Pairwise (fun p q => p.start ≤ q.start)
  inside : a.poisoned = false → ∀ total, a.stop = some total → ∀ p ∈ a.parts, p.stop ≤ total
  terminal : a.poisoned = false → ∀ p ∈ a.parts, p.more = false → a.stop = some p.stop
  terminal_mem : a.poisoned = false → ∀ total, a.stop = some total →
    ∃ p ∈ a.parts, p.more = false ∧ p.stop = total
  agree : a.poisoned = false → ∀ p ∈ a.parts, ∀ q ∈ a.parts, Agree p q
  packets : ∀ p ∈ a.parts, ∀ id ∈ p.bytes.packets, id ∈ a.packets

theorem sane_openAssembly (limits : Limits) (datagram : Datagram) (frame : ℕ) :
    Sane limits (openAssembly datagram frame) := by
  constructor <;> simp [openAssembly]

theorem Agree.symm {p q : Part} (h : Agree p q) : Agree q p :=
  fun x hq hq' hp hp' => (h x hp hp' hq hq').symm

theorem agree_of_not_disagree {p q : Part} (h : disagree p q = false) : Agree p q := by
  intro x hp hp' hq hq'
  have heq : (p.bytes.data.take (min p.stop q.stop - p.start)).drop (max p.start q.start - p.start) =
      (q.bytes.data.take (min p.stop q.stop - q.start)).drop (max p.start q.start - q.start) := by
    simpa [disagree] using h
  have hx := congrArg (fun l => l[x - max p.start q.start]?) heq
  simp only [List.getElem?_drop, List.getElem?_take] at hx
  rw [if_pos (by omega), if_pos (by omega)] at hx
  rwa [show max p.start q.start - p.start + (x - max p.start q.start) = x - p.start by omega,
    show max p.start q.start - q.start + (x - max p.start q.start) = x - q.start by omega] at hx

theorem overlapRejection_eq_none {v6 : Bool} {new : Part} {found : Option String} {parts : List Part}
    (h : overlapRejection v6 new found parts = none) :
    found = none ∧ ∀ p ∈ parts, max p.start new.start < min p.stop new.stop →
      v6 = false ∧ disagree p new = false := by
  induction parts generalizing found with
  | nil => exact ⟨h, by simp⟩
  | cons q rest ih =>
    obtain ⟨hfound, hrest⟩ := ih h
    split_ifs at hfound with hover hv hd
    · refine ⟨hfound, fun p hp => ?_⟩
      rcases List.mem_cons.1 hp with rfl | hp
      · exact fun _ => ⟨by simpa using hv, by simpa using hd⟩
      · exact hrest p hp
    · refine ⟨hfound, fun p hp => ?_⟩
      rcases List.mem_cons.1 hp with rfl | hp
      · exact fun hlt => absurd hlt hover
      · exact hrest p hp

theorem rejection_eq_none {key : Key} {set : Assembly} {new : Part}
    (h : rejection key set new = none) :
    (new.more = false → ∀ old, set.stop = some old → old = new.stop) ∧
    (∀ total, (if new.more then set.stop else some new.stop) = some total →
      new.stop ≤ total ∧ ∀ p ∈ set.parts, p.stop ≤ total) ∧
    (∀ p ∈ set.parts, Agree p new) ∧
    (key.ipv6 = true → ∀ p ∈ set.parts, ¬ max p.start new.start < min p.stop new.stop) := by
  obtain ⟨hfound, hover⟩ := overlapRejection_eq_none h
  by_cases hout : (if new.more then set.stop else some new.stop).any (fun t =>
      outside t new.stop new.more || set.parts.any (fun p => outside t p.stop p.more)) = true
  · rw [if_pos hout] at hfound
    cases hfound
  rw [if_neg hout] at hfound
  split_ifs at hfound with hterm
  refine ⟨?_, ?_, ?_, ?_⟩
  · intro hmore old hold
    by_contra hne
    exact hterm (by simp [hmore, hold, hne])
  · intro total htotal
    rw [htotal] at hout
    simp only [Option.any_some, outside, Bool.or_eq_true, List.any_eq_true, decide_eq_true_eq,
      Bool.and_eq_true, not_or, not_exists, not_and] at hout
    exact ⟨by omega, fun p hp => by have := (hout.2 p hp).1; omega⟩
  · intro p hp x h1 h2 h3 h4
    exact agree_of_not_disagree (hover p hp (by omega)).2 x h1 h2 h3 h4
  · intro hv p hp hlt
    have := (hover p hp hlt).1
    simp [hv] at this

theorem mem_acceptPart {set : Assembly} {new p : Part} :
    p ∈ (acceptPart set new).parts ↔ p ∈ set.parts ∨ p = new := by
  simp [acceptPart]

theorem partBytes_acceptPart (set : Assembly) (new : Part) :
    partBytes (acceptPart set new) = partBytes set + new.bytes.data.length := by
  have hperm := (List.perm_insertionSort (fun a b : Part => a.start ≤ b.start) (set.parts ++ [new])).map
    (fun p => p.bytes.len)
  simp only [partBytes, acceptPart]
  rw [hperm.sum_eq]
  simp [len]

section Accept

variable {r : FragmentReassembler} {datagram : Datagram} {info : FragmentInfo}
  {admitted : List PacketId} {newSize : ℕ}
variable (h : Admitted r datagram info admitted newSize)
include h

theorem Admitted.newPart_valid :
    (newPart datagram info).bytes.Valid ∧ (newPart datagram info).start <
      (newPart datagram info).stop ∧ (newPart datagram info).stop ≤ 65535 := by
  have hpos : 0 < datagram.payload.data.length := List.length_pos_iff.2 h.nonempty
  refine ⟨h.payload, ?_, h.stop_le⟩
  change info.offset < info.offset + datagram.payload.data.length
  omega

theorem Admitted.mem_admitted (frame : ℕ) (id : PacketId) :
    id ∈ admitted ↔ id ∈ (r.current datagram info frame).packets ∨ id ∈ datagram.payload.packets := by
  rw [h.packets, admittedPackets, mem_sortDedup, List.mem_append]
  unfold current
  cases r.sets.get? (keyOf datagram info) <;> simp [openAssembly]

theorem Admitted.parts_lt_current (frame : ℕ) :
    (r.current datagram info frame).parts.length < r.limits.maxFragmentsPerSet := by
  unfold current
  cases hget : r.sets.get? (keyOf datagram info) with
  | none =>
    have hz : 0 ∉ r.limits.nonzero := ((r.limits.validate_ok_iff).1 h.limits).1
    have hne : r.limits.maxFragmentsPerSet ≠ 0 := by
      intro h0
      exact hz (by simp [Limits.nonzero, h0])
    simpa [openAssembly] using Nat.pos_of_ne_zero hne
  | some a => exact h.parts_lt a hget

omit h

theorem Sane.poison {limits : Limits} {a b : Assembly} (h : Sane limits a) (hparts : b.parts = a.parts)
    (hpackets : ∀ id ∈ a.packets, id ∈ b.packets) (hp : b.poisoned = true) : Sane limits b := by
  constructor
  · rw [hparts]; exact h.parts_le
  · rw [hparts]; exact h.parts_valid
  · rw [hparts]; exact h.sorted
  · simp [hp]
  · simp [hp]
  · simp [hp]
  · simp [hp]
  · rw [hparts]
    exact fun p hp id hid => hpackets id (h.packets p hp id hid)

theorem Sane.accept (h : Admitted r datagram info admitted newSize) {frame : ℕ}
    (hs : Sane r.limits (r.current datagram info frame))
    (hp : (r.current datagram info frame).poisoned = false)
    (hrej : rejection (keyOf datagram info) (r.current datagram info frame)
      (newPart datagram info) = none) :
    Sane r.limits (accepted datagram info (r.current datagram info frame) admitted) := by
  obtain ⟨hterm, hin, hagree, -⟩ := rejection_eq_none hrej
  have hmem (p : Part) : p ∈ (accepted datagram info (r.current datagram info frame) admitted).parts ↔
      p ∈ (r.current datagram info frame).parts ∨ p = newPart datagram info := mem_acceptPart
  have hstop : (accepted datagram info (r.current datagram info frame) admitted).stop =
      if info.more then (r.current datagram info frame).stop
      else some (newPart datagram info).stop := rfl
  constructor
  · have hlt := h.parts_lt_current frame
    simp only [accepted, acceptPart, noted, List.length_insertionSort, List.length_append,
      List.length_cons, List.length_nil]
    omega
  · intro p hpm
    rcases (hmem p).1 hpm with hpm | rfl
    · exact hs.parts_valid p hpm
    · exact h.newPart_valid
  · have : IsTrans Part (fun a b => a.start ≤ b.start) := ⟨fun _ _ _ => le_trans⟩
    have : Std.Total (fun a b : Part => a.start ≤ b.start) := ⟨fun _ _ => le_total _ _⟩
    exact List.pairwise_insertionSort _ _
  · intro _ total htotal p hpm
    obtain ⟨hnew, hold⟩ := hin total htotal
    rcases (hmem p).1 hpm with hpm | rfl
    · exact hold p hpm
    · exact hnew
  · intro _ p hpm hmore
    rw [hstop]
    rcases (hmem p).1 hpm with hpm | rfl
    · have hold := hs.terminal hp p hpm hmore
      by_cases hm : info.more = true
      · rw [if_pos hm, hold]
      · rw [if_neg hm, hterm (Bool.eq_false_of_not_eq_true hm) _ hold]
    · rw [if_neg (Bool.not_eq_true _ ▸ hmore)]
  · intro _ total htotal
    rw [hstop] at htotal
    by_cases hm : info.more = true
    · rw [if_pos hm] at htotal
      obtain ⟨p, hpm, hpt⟩ := hs.terminal_mem hp total htotal
      exact ⟨p, (hmem p).2 (Or.inl hpm), hpt⟩
    · rw [if_neg hm] at htotal
      exact ⟨_, (hmem _).2 (Or.inr rfl), Bool.eq_false_of_not_eq_true hm, Option.some.inj htotal⟩
  · intro _ p hpm q hqm
    rcases (hmem p).1 hpm with hpm | rfl <;> rcases (hmem q).1 hqm with hqm | rfl
    · exact hs.agree hp p hpm q hqm
    · exact hagree p hpm
    · exact (hagree q hqm).symm
    · exact fun x _ _ _ _ => rfl
  · intro p hpm id hid
    change id ∈ admitted
    rw [h.mem_admitted frame]
    rcases (hmem p).1 hpm with hpm | rfl
    · exact Or.inl (hs.packets p hpm id hid)
    · exact Or.inr hid

end Accept

/-- A covered sane assembly joins to the declared length, with every part at its own offset. -/
theorem Sane.join {limits : Limits} {a : Assembly} (h : Sane limits a) (hp : a.poisoned = false)
    {total : ℕ} (hstop : a.stop = some total) (hcover : coverCursor 0 a.parts = total) :
    ∃ out, join .empty a.parts = .ok out ∧ out.Valid ∧ out.data.length = total ∧
      (∀ x ∈ out.view, ∃ p ∈ a.parts, x ∈ p.bytes.view) ∧
      ∀ p ∈ a.parts, (out.data.drop p.start).take p.bytes.data.length = p.bytes.data := by
  obtain ⟨hchain, hreach⟩ := chained_of_coverCursor
    (fun p hpm => ⟨(h.parts_valid p hpm).2.1, h.inside hp total hstop p hpm⟩) hcover
  have hchain' : Chained empty.data.length a.parts := by simpa [empty] using hchain
  obtain ⟨out, hok, hvalid, hlen, hview, hcontent⟩ := join_spec valid_empty (by simp [empty]) hchain'
    (fun p hpm => ⟨(h.parts_valid p hpm).1, (h.parts_valid p hpm).2.2⟩)
  have hlen' : out.data.length = total := by simpa [empty, hreach] using hlen
  refine ⟨out, hok, hvalid, hlen', ?_, ?_⟩
  · intro x hx
    rcases hview x hx with hx | hx
    · simp [view, empty] at hx
    · exact hx
  · obtain ⟨content, hfollow⟩ := exists_content (h.agree hp)
    intro p hpm
    have hle := h.inside hp total hstop p hpm
    have hps := part_stop p
    apply List.ext_getElem
    · simp only [List.length_take, List.length_drop]
      omega
    · intro i h1 h2
      rw [List.getElem_take, List.getElem_drop, hfollow p hpm i h2]
      exact hcontent content (by simp [empty]) hfollow (p.start + i) (by omega)

end PcapEvidence.FragmentReassembler

/-!
## Accounting over whole runs of the reassembler

`Invariant` ties the retained counter, the budgets and the deadline set to the stored sets. Every
push and every expiry keeps it, so it holds after any run.
-/

namespace PcapEvidence.FragmentReassembler

open Fragment EvidenceBytes OrderedMap

structure Invariant (r : FragmentReassembler) : Prop where
  retained_eq : r.retained = r.sets.total (fun e => partBytes e.2)
  retained_le : r.retained ≤ r.limits.maxRetainedPayload
  sets_le : r.sets.size ≤ r.limits.maxFragmentSets
  sane : ∀ key a, r.sets.get? key = some a → Sane r.limits a
  deadlines_iff : ∀ d key, (toLex (d, key), ()) ∈ r.deadlines.entries ↔
    ∃ a, r.sets.get? key = some a ∧ deadline r.limits a.firstFrame = some d

theorem invariant_new (limits : Limits) : Invariant (new limits) := by
  constructor
  · rfl
  · exact Nat.zero_le _
  · exact Nat.zero_le _
  · intro key a h
    cases h
  · intro d key
    change _ ∈ [] ↔ ∃ a, none = some a ∧ _
    simp

namespace Invariant

variable {r : FragmentReassembler}

theorem partBytes_le (h : Invariant r) {key : Key} {a : Assembly} (ha : r.sets.get? key = some a) :
    partBytes a ≤ r.retained := by
  rw [h.retained_eq, OrdMap.total_of_get? _ ha]
  exact Nat.le_add_right _ _

theorem openSet (h : Invariant r) {key : Key} (hnone : r.sets.get? key = none)
    (hroom : r.sets.size < r.limits.maxFragmentSets) (datagram : Datagram) (frame : ℕ) :
    Invariant (r.openSet key datagram frame) := by
  have hget (k : Key) : (r.openSet key datagram frame).sets.get? k =
      if k = key then some (openAssembly datagram frame) else r.sets.get? k :=
    r.sets.get?_insert key k _
  constructor
  · change r.retained = (r.sets.insert key _).total _
    rw [OrdMap.total_insert, OrdMap.erase_eq_self hnone, ← h.retained_eq]
    simp [partBytes, openAssembly]
  · exact h.retained_le
  · change (r.sets.insert key _).size ≤ _
    rw [OrdMap.size_eq_total, OrdMap.total_insert, OrdMap.erase_eq_self hnone,
      ← OrdMap.size_eq_total]
    change 1 + r.sets.size ≤ r.limits.maxFragmentSets
    omega
  · intro k a ha
    rw [hget] at ha
    split_ifs at ha with hk
    · cases ha
      exact sane_openAssembly _ _ _
    · exact h.sane k a ha
  · intro d k
    change (toLex (d, k), ()) ∈ (r.addDeadline key frame).entries ↔
        ∃ a, (r.openSet key datagram frame).sets.get? k = some a ∧
          deadline r.limits a.firstFrame = some d
    simp only [hget, addDeadline]
    by_cases hk : k = key
    · subst hk
      have hno (d' : ℕ) : (toLex (d', k), ()) ∉ r.deadlines.entries := by
        rw [h.deadlines_iff]
        simp [hnone]
      cases hd : deadline r.limits frame with
      | none => simp [hno, openAssembly, hd]
      | some d' => simp [OrdMap.mem_insert, hno, openAssembly, hd, eq_comm]
    · cases hd : deadline r.limits frame with
      | none => simp [hk, h.deadlines_iff]
      | some d' => simp [OrdMap.mem_insert, hk, h.deadlines_iff]

theorem replace (h : Invariant r) {key : Key} {a b : Assembly} {n : ℕ}
    (ha : r.sets.get? key = some a) (hfirst : b.firstFrame = a.firstFrame)
    (hn : n + partBytes a = r.retained + partBytes b) (hle : n ≤ r.limits.maxRetainedPayload)
    (hsane : Sane r.limits b) : Invariant ({ r with retained := n }.store key b) := by
  have hget (k : Key) : ({ r with retained := n }.store key b).sets.get? k =
      if k = key then some b else r.sets.get? k := r.sets.get?_insert key k b
  constructor
  · change n = (r.sets.insert key b).total _
    have ht := h.retained_eq
    rw [OrdMap.total_of_get? _ ha] at ht
    rw [OrdMap.total_insert]
    simp only at ht ⊢
    omega
  · exact hle
  · change (r.sets.insert key b).size ≤ r.limits.maxFragmentSets
    have hs := h.sets_le
    rw [OrdMap.size_eq_total, OrdMap.total_of_get? _ ha] at hs
    rw [OrdMap.size_eq_total, OrdMap.total_insert]
    exact hs
  · intro k c hc
    rw [hget] at hc
    split_ifs at hc with hk
    · cases hc
      exact hsane
    · exact h.sane k c hc
  · intro d k
    change (toLex (d, k), ()) ∈ r.deadlines.entries ↔ _
    rw [h.deadlines_iff]
    simp only [hget]
    by_cases hk : k = key
    · subst hk
      simp only [ha, if_true, Option.some.injEq, exists_eq_left', hfirst]
      rfl
    · simp only [if_neg hk]
      rfl

/-- A stored set and its deadline leave together. -/
theorem remove (h : Invariant r) {key : Key} {a : Assembly} (ha : r.sets.get? key = some a) :
    ∃ next, r.remove key = (some a, next) ∧ Invariant next ∧ next.limits = r.limits ∧
      next.sets = r.sets.erase key := by
  have hremove : r.remove key = (some a, { r with
      sets := r.sets.erase key
      deadlines := r.eraseDeadline key a.firstFrame
      retained := r.retained - partBytes a }) := by
    simp only [FragmentReassembler.remove, ha]
  refine ⟨_, hremove, ?_, rfl, rfl⟩
  have hget (k : Key) : (r.sets.erase key).get? k = if k = key then none else r.sets.get? k :=
    r.sets.get?_erase key k
  constructor
  · have ht := h.retained_eq
    rw [OrdMap.total_of_get? _ ha] at ht
    simp only at ht ⊢
    omega
  · exact (Nat.sub_le _ _).trans h.retained_le
  · exact le_trans (by
      rw [OrdMap.size_eq_total, OrdMap.size_eq_total]
      exact OrdMap.total_erase_le _ _ _) h.sets_le
  · intro k c hc
    simp only [hget] at hc
    split_ifs at hc
    exact h.sane k c hc
  · intro d k
    simp only [hget, eraseDeadline]
    by_cases hk : k = key
    · subst hk
      cases hd : deadline r.limits a.firstFrame with
      | none => simp [h.deadlines_iff, ha, hd]
      | some d' =>
        simp only [OrdMap.mem_erase, h.deadlines_iff, ha, hd, Option.some.injEq, exists_eq_left',
          if_true, reduceCtorEq, false_and, exists_false, iff_false, not_and, not_not]
        rintro rfl
        rfl
    · cases hd : deadline r.limits a.firstFrame with
      | none => simp [hk, h.deadlines_iff]
      | some d' => simp [OrdMap.mem_erase, hk, h.deadlines_iff]

end Invariant

end PcapEvidence.FragmentReassembler
