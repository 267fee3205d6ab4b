import PcapEvidence.FragmentInvariant

/-!
# Runs of the reassembler

`PushStep` is the push relation on states that satisfy the invariant: the error exits that need a
broken state are gone, and each remaining case says which set is stored or removed. An expiry only
removes sets. A run is any sequence of pushes and expiries.
-/

namespace PcapEvidence.FragmentReassembler

open Fragment EvidenceBytes OrderedMap

/-- What a push does in a state that satisfies the invariant. -/
inductive PushStep (r : FragmentReassembler) (datagram : Datagram) (frame : ℕ) :
    Result FragmentOutcome → FragmentReassembler → Prop
  | failed (e : Error) (hcode : datagram.payload.Valid → e.code ≠ .invariant) :
      PushStep r datagram frame (.error e) r
  | whole (hfragment : datagram.fragment = none) :
      PushStep r datagram frame (.ok (.complete datagram datagram.payload.packets)) r
  | range (info : FragmentInfo) (hfragment : datagram.fragment = some info) :
      PushStep r datagram frame
        (.ok (.rejected ⟨"invalid_fragment_range", datagram.payload.packets⟩)) r
  | quarantined {info : FragmentInfo} {admitted : List PacketId} {newSize : ℕ} {code : String}
      {a : Assembly} {next : FragmentReassembler}
      (hadm : Admitted r datagram info admitted newSize) (hpoisoned : a.poisoned = true)
      (hpackets : a.packets = admitted)
      (hsets : next.sets = r.sets.insert (keyOf datagram info) a) :
      PushStep r datagram frame (.ok (.rejected ⟨code, admitted⟩)) next
  | pending {info : FragmentInfo} {admitted : List PacketId} {newSize : ℕ}
      {next : FragmentReassembler} (hadm : Admitted r datagram info admitted newSize)
      (hclean : (r.current datagram info frame).poisoned = false)
      (hsane : Sane r.limits (accepted datagram info (r.current datagram info frame) admitted))
      (hopen : ∀ total, (accepted datagram info (r.current datagram info frame) admitted).stop =
        some total → coverCursor 0
          (accepted datagram info (r.current datagram info frame) admitted).parts ≠ total)
      (hsets : next.sets = r.sets.insert (keyOf datagram info)
        (accepted datagram info (r.current datagram info frame) admitted)) :
      PushStep r datagram frame (.ok .pending) next
  | completed {info : FragmentInfo} {admitted : List PacketId} {newSize total : ℕ}
      {joined : EvidenceBytes} {next : FragmentReassembler}
      (hadm : Admitted r datagram info admitted newSize)
      (hclean : (r.current datagram info frame).poisoned = false)
      (hsane : Sane r.limits (accepted datagram info (r.current datagram info frame) admitted))
      (hstop : (accepted datagram info (r.current datagram info frame) admitted).stop = some total)
      (hvalid : joined.Valid) (hlength : joined.data.length = total)
      (hview : ∀ x ∈ joined.view, ∃ p ∈
        (accepted datagram info (r.current datagram info frame) admitted).parts, x ∈ p.bytes.view)
      (hoccurs : ∀ p ∈ (accepted datagram info (r.current datagram info frame) admitted).parts,
        (joined.data.drop p.start).take p.bytes.data.length = p.bytes.data)
      (hsets : next.sets = r.sets.erase (keyOf datagram info)) :
      PushStep r datagram frame (.ok (.complete
        { (accepted datagram info (r.current datagram info frame) admitted).template with
          payload := joined, fragment := none } admitted)) next

section Step

variable {r : FragmentReassembler} {datagram : Datagram} {info : FragmentInfo} {frame : ℕ}
  {admitted : List PacketId} {newSize : ℕ}

theorem Invariant.opened (h : Invariant r) (ha : Admitted r datagram info admitted newSize) :
    Invariant (r.opened datagram info frame) := by
  unfold FragmentReassembler.opened
  split_ifs with hnone
  · exact h.openSet (Option.isNone_iff_eq_none.1 hnone) (ha.room (Option.isNone_iff_eq_none.1 hnone))
      datagram frame
  · exact h

theorem opened_limits : (r.opened datagram info frame).limits = r.limits := by
  unfold opened
  split_ifs <;> rfl

theorem opened_retained : (r.opened datagram info frame).retained = r.retained := by
  unfold opened
  split_ifs <;> rfl

theorem opened_sets_insert (a : Assembly) :
    (r.opened datagram info frame).sets.insert (keyOf datagram info) a =
      r.sets.insert (keyOf datagram info) a := by
  unfold opened
  split_ifs
  · exact OrdMap.insert_insert _ _ _ _
  · rfl

theorem Invariant.sane_current (h : Invariant r) :
    Sane r.limits (r.current datagram info frame) := by
  unfold current
  cases hget : r.sets.get? (keyOf datagram info) with
  | none => exact sane_openAssembly _ _ _
  | some a => exact h.sane _ a hget

theorem Admitted.size_of_clean (ha : Admitted r datagram info admitted newSize)
    (hclean : (r.current datagram info frame).poisoned = false) :
    newSize = r.retained + datagram.payload.data.length := by
  rw [ha.size]
  unfold current at hclean
  cases hget : r.sets.get? (keyOf datagram info) with
  | none => simp
  | some a =>
    rw [hget] at hclean
    simp only [Option.getD_some] at hclean
    simp [hclean]

theorem Invariant.complete {key : Key} {a : Assembly} {total : ℕ} (h : Invariant r)
    (ha : r.sets.get? key = some a) (hp : a.poisoned = false) (hstop : a.stop = some total)
    (hcover : coverCursor 0 a.parts = total) :
    ∃ joined next, r.complete key =
        (.ok (.complete { a.template with payload := joined, fragment := none } a.packets), next) ∧
      Invariant next ∧ next.limits = r.limits ∧ next.sets = r.sets.erase key ∧
      joined.Valid ∧ joined.data.length = total ∧
      (∀ x ∈ joined.view, ∃ p ∈ a.parts, x ∈ p.bytes.view) ∧
      ∀ p ∈ a.parts, (joined.data.drop p.start).take p.bytes.data.length = p.bytes.data := by
  obtain ⟨next, hremove, hinv, hlimits, hsets⟩ := h.remove ha
  obtain ⟨joined, hjoin, hvalid, hlen, hview, hoccurs⟩ := (h.sane key a ha).join hp hstop hcover
  exact ⟨joined, next, by simp only [FragmentReassembler.complete, hremove, hjoin], hinv, hlimits,
    hsets, hvalid, hlen, hview, hoccurs⟩

theorem Invariant.storeAccepted (h : Invariant r) (ha : Admitted r datagram info admitted newSize)
    (hclean : (r.current datagram info frame).poisoned = false) {b : Assembly}
    (hparts : b.parts = (accepted datagram info (r.current datagram info frame) admitted).parts)
    (hfirst : b.firstFrame = (r.current datagram info frame).firstFrame)
    (hb : Sane r.limits b) :
    Invariant ({ r.opened datagram info frame with retained := newSize }.store
      (keyOf datagram info) b) := by
  apply (h.opened ha).replace (r.opened_get? datagram info frame) hfirst
  · have hbytes : partBytes b = partBytes (r.current datagram info frame) +
        datagram.payload.data.length := by
      rw [partBytes, hparts]
      exact partBytes_acceptPart _ _
    have hsize := ha.size_of_clean hclean
    rw [opened_retained, hbytes]
    omega
  · rw [opened_limits]
    exact ha.size_le
  · rw [opened_limits]
    exact hb

theorem Invariant.push (h : Invariant r) (datagram : Datagram) (frame : ℕ) :
    PushStep r datagram frame (r.push datagram frame).1 (r.push datagram frame).2 ∧
      Invariant (r.push datagram frame).2 ∧ (r.push datagram frame).2.limits = r.limits := by
  rcases r.push_cases datagram frame with ⟨e, he, hcode⟩ | ⟨hf, he⟩ | ⟨info, hf, he⟩ |
    ⟨info, admitted, newSize, ha, he⟩
  · rw [he]
    exact ⟨.failed e hcode, h, rfl⟩
  · rw [he]
    exact ⟨.whole hf, h, rfl⟩
  · rw [he]
    exact ⟨.range info hf, h, rfl⟩
  rw [he]
  have hcur : Sane r.limits (r.current datagram info frame) := h.sane_current
  have hopen : Invariant (r.opened datagram info frame) := h.opened ha
  have hget := r.opened_get? datagram info frame
  have hadd : ∀ id ∈ (r.current datagram info frame).packets, id ∈ admitted :=
    fun id hid => (ha.mem_admitted frame id).2 (Or.inl hid)
  -- storing a quarantined set leaves the counter alone
  have hpoison (b : Assembly) (hb : b.poisoned = true) (hpk : b.packets = admitted)
      (hparts : b.parts = (r.current datagram info frame).parts)
      (hfirst : b.firstFrame = (r.current datagram info frame).firstFrame) :
      Invariant ((r.opened datagram info frame).store (keyOf datagram info) b) := by
    refine hopen.replace (n := (r.opened datagram info frame).retained) hget hfirst
      (by rw [partBytes, partBytes, hparts]) hopen.retained_le ?_
    rw [opened_limits]
    exact hcur.poison hparts (by rwa [hpk]) hb
  rcases (r.opened datagram info frame).pushSet_cases datagram info (keyOf datagram info)
    (r.current datagram info frame) admitted newSize with
    ⟨hp, hout⟩ | ⟨hp, code, -, hout⟩ | ⟨hp, hrej, hno, hout⟩ |
    ⟨hp, hrej, total, hstop, hcover, -, hout⟩ | ⟨hp, hrej, total, hstop, hcover, -, hout⟩
  · rw [hout]
    exact ⟨.quarantined (a := { r.current datagram info frame with packets := admitted }) ha hp rfl
      (opened_sets_insert _), hpoison _ hp rfl rfl rfl, opened_limits⟩
  · rw [hout]
    exact ⟨.quarantined ha rfl rfl (opened_sets_insert _), hpoison _ rfl rfl rfl rfl, opened_limits⟩
  · rw [hout]
    have hsane := Sane.accept ha hcur hp hrej
    exact ⟨.pending ha hp hsane hno (opened_sets_insert _),
      h.storeAccepted ha hp rfl rfl hsane, opened_limits⟩
  · rw [hout]
    have hsane := Sane.accept ha hcur hp hrej
    exact ⟨.quarantined ha rfl rfl (opened_sets_insert _),
      h.storeAccepted ha hp rfl rfl (hsane.poison rfl (fun _ hid => hid) rfl), opened_limits⟩
  · rw [hout]
    have hsane := Sane.accept ha hcur hp hrej
    obtain ⟨joined, next, hok, hinv, hlimits, hsets, hvalid, hlen, hview, hoccurs⟩ :=
      (h.storeAccepted ha hp rfl rfl hsane).complete (OrdMap.get?_insert_self _ _ _) hp hstop hcover
    rw [hok]
    refine ⟨.completed ha hp hsane hstop hvalid hlen hview hoccurs ?_, hinv,
      hlimits.trans opened_limits⟩
    rw [hsets]
    change ((r.opened datagram info frame).sets.insert _ _).erase _ = _
    rw [opened_sets_insert, OrdMap.erase_insert]

end Step

section Expire

variable {r : FragmentReassembler}

/-- Popping a deadline first does not change what `remove` leaves behind. -/
theorem remove_popped {d : ℕ} {key : Key} {a : Assembly} (ha : r.sets.get? key = some a)
    (hd : deadline r.limits a.firstFrame = some d) :
    { r with deadlines := r.deadlines.erase (toLex (d, key)) }.remove key = r.remove key := by
  have hno : (r.deadlines.erase (toLex (d, key))).get? (toLex (d, key)) = none := by
    rw [OrdMap.get?_erase, if_pos rfl]
  simp only [remove, ha, eraseDeadline, hd, OrdMap.erase_eq_self hno]

theorem Invariant.expire_round (h : Invariant r) (frame fuel : ℕ) :
    FragmentReassembler.expireLoop frame (fuel + 1) r = ([], r) ∨
    ∃ expired a next, r.sets.get? expired = some a ∧ Invariant next ∧ next.limits = r.limits ∧
      (∀ key, next.sets.get? key = if key = expired then none else r.sets.get? key) ∧
      FragmentReassembler.expireLoop frame (fuel + 1) r =
        (⟨"fragment_expired", a.packets⟩ :: (FragmentReassembler.expireLoop frame fuel next).1,
          (FragmentReassembler.expireLoop frame fuel next).2) := by
  rw [FragmentReassembler.expireLoop]
  cases hfirst : r.deadlines.first? with
  | none => exact .inl rfl
  | some e =>
    obtain ⟨entry, ⟨⟩⟩ := e
    dsimp only
    split_ifs with hle
    · obtain ⟨a, ha, hd⟩ := (h.deadlines_iff (ofLex entry).1 (ofLex entry).2).1
        (OrdMap.first?_mem hfirst)
      obtain ⟨next, hremove, hinv, hlimits, hsets⟩ := h.remove ha
      have hpop : { r with deadlines := r.deadlines.erase entry }.remove (ofLex entry).2 =
          (some a, next) := (remove_popped ha hd).trans hremove
      rw [hpop]
      refine .inr ⟨(ofLex entry).2, a, next, ha, hinv, hlimits, fun key => ?_, rfl⟩
      rw [hsets, OrdMap.get?_erase]
    · exact .inl rfl

theorem Invariant.expireLoop (h : Invariant r) (frame fuel : ℕ) :
    Invariant (expireLoop frame fuel r).2 ∧ (expireLoop frame fuel r).2.limits = r.limits ∧
      ∀ key, (expireLoop frame fuel r).2.sets.get? key = none ∨
        (expireLoop frame fuel r).2.sets.get? key = r.sets.get? key := by
  induction fuel generalizing r with
  | zero => exact ⟨h, rfl, fun _ => Or.inr rfl⟩
  | succ fuel ih =>
    obtain hround | ⟨_, _, next, -, hinv, hlimits, hget, hround⟩ := h.expire_round frame fuel
    · rw [hround]
      exact ⟨h, rfl, fun _ => Or.inr rfl⟩
    · rw [hround]
      obtain ⟨hinv', hlimits', honly⟩ := ih hinv
      refine ⟨hinv', hlimits'.trans hlimits, fun key => ?_⟩
      rcases honly key with hkey | hkey
      · exact Or.inl hkey
      · rw [hget] at hkey
        split_ifs at hkey
        · exact Or.inl hkey
        · exact Or.inr hkey

theorem Invariant.expireLoop_notices (h : Invariant r) (frame fuel : ℕ) :
    (∀ notice ∈ (FragmentReassembler.expireLoop frame fuel r).1, ∃ key a, r.sets.get? key = some a ∧
      (FragmentReassembler.expireLoop frame fuel r).2.sets.get? key = none ∧ notice.packets = a.packets) ∧
    ∀ key a, r.sets.get? key = some a →
      (FragmentReassembler.expireLoop frame fuel r).2.sets.get? key = none →
      ∃ notice ∈ (FragmentReassembler.expireLoop frame fuel r).1, notice.packets = a.packets := by
  have hidle (r : FragmentReassembler) : (∀ notice ∈ ([] : List FragmentNotice),
      ∃ key a, r.sets.get? key = some a ∧ r.sets.get? key = none ∧ notice.packets = a.packets) ∧
      ∀ key a, r.sets.get? key = some a → r.sets.get? key = none →
        ∃ notice ∈ ([] : List FragmentNotice), notice.packets = a.packets := by
    refine ⟨by simp, fun key a ha hnone => ?_⟩
    cases ha.symm.trans hnone
  induction fuel generalizing r with
  | zero => exact hidle r
  | succ fuel ih =>
    obtain hround | ⟨expired, a, next, ha, hinv, -, hget, hround⟩ := h.expire_round frame fuel
    · rw [hround]
      exact hidle r
    · rw [hround]
      obtain ⟨-, -, honly⟩ := hinv.expireLoop frame fuel
      obtain ⟨hfrom, hto⟩ := ih hinv
      refine ⟨fun notice hnotice => ?_, fun key b hb hnone => ?_⟩
      · rcases List.mem_cons.1 hnotice with rfl | hnotice
        · refine ⟨expired, a, ha, ?_, rfl⟩
          rcases honly expired with hgone | hsame
          · exact hgone
          · rw [hsame, hget, if_pos rfl]
        · obtain ⟨key, b, hb, hgone, hpackets⟩ := hfrom notice hnotice
          rw [hget] at hb
          split_ifs at hb
          exact ⟨key, b, hb, hgone, hpackets⟩
      · by_cases hkey : key = expired
        · subst hkey
          rw [ha] at hb
          cases hb
          exact ⟨_, List.mem_cons_self, rfl⟩
        · obtain ⟨notice, hmem, hpackets⟩ :=
            hto key b (by rw [hget, if_neg hkey]; exact hb) hnone
          exact ⟨notice, List.mem_cons_of_mem _ hmem, hpackets⟩

end Expire

/-- The calls a client can make between creation and `finish`. -/
inductive Op where
  | push (datagram : Datagram) (frame : ℕ)
  | expire (frame : ℕ)

def apply (r : FragmentReassembler) : Op → FragmentReassembler
  | .push datagram frame => (r.push datagram frame).2
  | .expire frame => (r.expire frame).2

def run (limits : Limits) (ops : List Op) : FragmentReassembler := ops.foldl apply (new limits)

theorem Invariant.apply {r : FragmentReassembler} (h : Invariant r) (op : Op) :
    Invariant (r.apply op) ∧ (r.apply op).limits = r.limits := by
  cases op with
  | push datagram frame => exact (h.push datagram frame).2
  | expire frame =>
    obtain ⟨hinv, hlimits, -⟩ := h.expireLoop frame r.deadlines.size
    exact ⟨hinv, hlimits⟩

theorem invariant_run (limits : Limits) (ops : List Op) :
    Invariant (run limits ops) ∧ (run limits ops).limits = limits := by
  induction ops using List.reverseRecOn with
  | nil => exact ⟨invariant_new limits, rfl⟩
  | append_singleton ops op ih =>
    rw [run, List.foldl_append]
    obtain ⟨hinv, hlimits⟩ := ih.1.apply op
    exact ⟨hinv, hlimits.trans ih.2⟩

end PcapEvidence.FragmentReassembler
