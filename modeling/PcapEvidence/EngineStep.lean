import PcapEvidence.Custody
import PcapEvidence.Engine

/-!
# The ledger of observed packets

A packet is held by the fragment set that waits with it, by the flow it was assigned to, or by
nothing once it is settled otherwise.
-/

namespace PcapEvidence.Engine

open Custody Fragment

variable {δ : Type}

def Numbered (packets : List PacketObservation) : Prop :=
  ∀ (i : ℕ) (p : PacketObservation), packets[i]? = some p → p.metadata.frame = i + 1 ∧ p.id.frame = i + 1

structure Relabeled (ids : List PacketId) (P : Disposition → Prop)
    (packets packets' : List PacketObservation) : Prop where
  length : packets'.length = packets.length
  same : ∀ (i : ℕ) (p' : PacketObservation), packets'[i]? = some p' →
    ∃ p, packets[i]? = some p ∧ p'.id = p.id ∧ p'.metadata = p.metadata ∧
      (p.id ∈ ids → P p'.disposition) ∧ (p.id ∉ ids → p'.disposition = p.disposition)

section Relabeled

variable {ids ids' : List PacketId} {P : Disposition → Prop} {a b c : List PacketObservation}

theorem Relabeled.refl (P : Disposition → Prop) (a : List PacketObservation) : Relabeled [] P a a :=
  ⟨rfl, fun _ p hp => ⟨p, hp, rfl, rfl, by simp, fun _ => rfl⟩⟩

theorem Relabeled.trans (hab : Relabeled ids P a b) (hbc : Relabeled ids' P b c) :
    Relabeled (ids ++ ids') P a c := by
  refine ⟨hbc.length.trans hab.length, fun i r hr => ?_⟩
  obtain ⟨q, hq, hid, hmeta, hin, hout⟩ := hbc.same i r hr
  obtain ⟨p, hp, hid', hmeta', hin', hout'⟩ := hab.same i q hq
  refine ⟨p, hp, hid.trans hid', hmeta.trans hmeta', fun hmem => ?_, fun hmem => ?_⟩
  · by_cases hlater : p.id ∈ ids'
    · exact hin (by rwa [hid'])
    · rw [hout (by rwa [hid'])]
      exact hin' ((List.mem_append.1 hmem).resolve_right hlater)
  · rw [List.mem_append, not_or] at hmem
    rw [hout (by rw [hid']; exact hmem.2), hout' hmem.1]

theorem Relabeled.numbered (h : Relabeled ids P a b) (ha : Numbered a) : Numbered b := by
  intro i q hq
  obtain ⟨p, hp, hid, hmeta, -, -⟩ := h.same i q hq
  rw [hid, hmeta]
  exact ha i p hp

theorem Relabeled.mem_id (h : Relabeled ids P a b) {id : PacketId} (hid : ∃ p ∈ a, p.id = id) :
    ∃ q ∈ b, q.id = id := by
  obtain ⟨p, hp, rfl⟩ := hid
  obtain ⟨i, hi⟩ := List.mem_iff_getElem?.1 hp
  have hlt : i < b.length := by
    rw [h.length]
    exact (List.getElem?_eq_some_iff.1 hi).1
  obtain ⟨p', hp', hsame, -⟩ := h.same i b[i] (List.getElem?_eq_getElem hlt)
  rw [hi] at hp'
  cases hp'
  exact ⟨b[i], List.getElem_mem hlt, hsame⟩

theorem Numbered.getElem?_of_mem (h : Numbered a) {id : PacketId} (hid : ∃ p ∈ a, p.id = id) :
    id.frame ≠ 0 ∧ ∃ p, a[id.frame - 1]? = some p ∧ p.id = id := by
  obtain ⟨p, hp, rfl⟩ := hid
  obtain ⟨i, hi⟩ := List.mem_iff_getElem?.1 hp
  obtain ⟨-, hframe⟩ := h i p hi
  exact ⟨by omega, p, by rw [hframe]; exact hi, rfl⟩

theorem Numbered.relabeled_set (h : Numbered a) {i : ℕ} {p p' : PacketObservation}
    (hp : a[i]? = some p) (hid : p'.id = p.id) (hmeta : p'.metadata = p.metadata)
    (hP : P p'.disposition) : Relabeled [p.id] P a (a.set i p') := by
  refine ⟨List.length_set, fun j q hq => ?_⟩
  by_cases hj : i = j
  · subst hj
    obtain ⟨hlt, -⟩ := List.getElem?_eq_some_iff.1 hp
    rw [List.getElem?_set_self hlt] at hq
    cases hq
    exact ⟨p, hp, hid, hmeta, fun _ => hP, fun hn => absurd (List.mem_singleton.2 rfl) hn⟩
  · rw [List.getElem?_set_ne hj] at hq
    refine ⟨q, hq, rfl, rfl, fun hmem => ?_, fun _ => rfl⟩
    have hq' := (h j q hq).2
    rw [List.mem_singleton.1 hmem, (h i p hp).2] at hq'
    omega

theorem eachPacket_ok {action : PacketObservation → PacketObservation}
    (haction : ∀ p, (action p).id = p.id ∧ (action p).metadata = p.metadata ∧
      P (action p).disposition)
    (ha : Numbered a) (hids : ∀ id ∈ ids, ∃ p ∈ a, p.id = id) :
    ∃ b, eachPacket action a ids = .ok b ∧ Relabeled ids P a b := by
  induction ids generalizing a with
  | nil => exact ⟨a, rfl, .refl P a⟩
  | cons id rest ih =>
    obtain ⟨hzero, p, hp, rfl⟩ := ha.getElem?_of_mem (hids id (by simp))
    obtain ⟨hid, hmeta, hP⟩ := haction p
    have hset : Relabeled [p.id] P a (a.set (p.id.frame - 1) (action p)) :=
      ha.relabeled_set hp hid hmeta hP
    obtain ⟨b, hb, hrest⟩ := ih (hset.numbered ha) (fun x hx => hset.mem_id (hids x (by simp [hx])))
    refine ⟨b, ?_, hset.trans hrest⟩
    have hfilter : (some p).filter (fun q => q.id = p.id) = some p := by simp [Option.filter]
    rw [eachPacket, if_neg hzero, hp, hfilter]
    exact hb

end Relabeled

def Incomplete (d : Disposition) : Prop := ∃ reason, d = .fragmentIncomplete reason

theorem noteFragment_ok (notice : FragmentNotice) {s : State δ} (hs : Numbered s.packets)
    (hknown : ∀ id ∈ notice.packets, ∃ p ∈ s.packets, p.id = id) :
    ∃ t, noteFragment s notice = .ok t ∧ t.fragments = s.fragments ∧ t.tracker = s.tracker ∧
      Relabeled notice.packets Incomplete s.packets t.packets := by
  obtain ⟨b, hb, hrelabel⟩ : ∃ b, fragmentNotice s.packets notice = .ok b ∧
      Relabeled notice.packets Incomplete s.packets b :=
    eachPacket_ok (fun p => ⟨rfl, rfl, _, rfl⟩) hs hknown
  refine ⟨{ s with packets := b, notices := s.notices ++ [notice] }, ?_, rfl, rfl, hrelabel⟩
  rw [noteFragment, hb]
  rfl

theorem noteFragments_ok (notices : List FragmentNotice) {s : State δ} (hs : Numbered s.packets)
    (hknown : ∀ notice ∈ notices, ∀ id ∈ notice.packets, ∃ p ∈ s.packets, p.id = id) :
    ∃ t, notices.foldlM noteFragment s = .ok t ∧ t.fragments = s.fragments ∧
      t.tracker = s.tracker ∧
      Relabeled (notices.flatMap (·.packets)) Incomplete s.packets t.packets := by
  induction notices generalizing s with
  | nil => exact ⟨s, rfl, rfl, rfl, .refl _ _⟩
  | cons notice rest ih =>
    obtain ⟨u, hu, hfragments, htracker, hrelabel⟩ :=
      noteFragment_ok notice hs (hknown notice (by simp))
    obtain ⟨t, ht, hfragments', htracker', hlater⟩ := ih (hrelabel.numbered hs)
      (fun n hn id hid => hrelabel.mem_id (hknown n (by simp [hn]) id hid))
    refine ⟨t, ?_, hfragments'.trans hfragments, htracker'.trans htracker, hrelabel.trans hlater⟩
    rw [List.foldlM_cons, hu]
    exact ht

/-- Who may hold a packet. -/
inductive Holder where
  | set (key : Key)
  | flow (index : ℕ)

def Held (s : State δ) (id : PacketId) : Holder → Prop
  | .set key => ∃ a, s.fragments.sets.get? key = some a ∧ id ∈ a.packets
  | .flow index => ∃ f, s.tracker.flows[index]? = some f ∧ id ∈ f.packets

def Fits (d : Disposition) : Option Holder → Prop
  | none => d ≠ .pending ∧ d ≠ .fragmentPending ∧ ∀ i e, d ≠ .tcp i e
  | some (.set _) => d ≠ .pending ∧ ∀ i e, d ≠ .tcp i e
  | some (.flow i) => ∃ e, d = .tcp i e

/-- What holds between two records. -/
structure Ledger (s : State δ) : Prop where
  numbered : Numbered s.packets
  fragments : FragmentReassembler.Invariant s.fragments
  tracker : TcpTracker.Invariant s.tracker
  known : ∀ id h, Held s id h → ∃ p ∈ s.packets, p.id = id
  exclusive : Exclusive (Held s)
  fits : ∀ p ∈ s.packets, ∃ holder, Fits p.disposition holder ∧
    ∀ h, Held s p.id h ↔ holder = some h

/-- Moving packets to one holder, with dispositions that agree, keeps the ledger. -/
theorem Ledger.move {s t : State δ} (h : Ledger s) {ids : List PacketId} {P : Disposition → Prop}
    {target : Option Holder} {extra : List PacketObservation}
    (hnumbered : Numbered (s.packets ++ extra))
    (hextra : ∀ p ∈ extra, p.id ∈ ids)
    (hids : ∀ id ∈ ids, ∃ p ∈ s.packets ++ extra, p.id = id)
    (hrelabel : Relabeled ids P (s.packets ++ extra) t.packets)
    (hmoved : Moved (Held s) (Held t) ids target) (hfits : ∀ d, P d → Fits d target)
    (hfragments : FragmentReassembler.Invariant t.fragments)
    (htracker : TcpTracker.Invariant t.tracker) : Ledger t := by
  refine ⟨hrelabel.numbered hnumbered, hfragments, htracker, fun id holder hheld => ?_,
    hmoved.exclusive h.exclusive, fun q hq => ?_⟩
  · apply hrelabel.mem_id
    by_cases hid : id ∈ ids
    · exact hids id hid
    · obtain ⟨p, hp, hpid⟩ := h.known id holder ((hmoved.others id hid holder).1 hheld)
      exact ⟨p, List.mem_append_left _ hp, hpid⟩
  · obtain ⟨i, hi⟩ := List.mem_iff_getElem?.1 hq
    obtain ⟨p, hp, hid, -, hin, hout⟩ := hrelabel.same i q hi
    rw [hid]
    by_cases hmem : p.id ∈ ids
    · exact ⟨target, hfits _ (hin hmem), hmoved.those p.id hmem⟩
    · have hold : p ∈ s.packets := by
        rcases List.mem_append.1 (List.mem_of_getElem? hp) with hold | hnew
        · exact hold
        · exact absurd (hextra p hnew) hmem
      obtain ⟨holder, hfit, hiff⟩ := h.fits p hold
      refine ⟨holder, by rwa [hout hmem], fun k => ?_⟩
      rw [hmoved.others p.id hmem k]
      exact hiff k

end PcapEvidence.Engine

/-!
## What one packet does to the ledger

Expiry releases the packets of the removed sets and marks them. A new packet is observed with a fresh
id; the reassembler then keeps it, hands its group to a flow, or lets the group go. Each exit is one
move of the ledger.
-/

namespace PcapEvidence.Engine

open Custody Fragment

variable {δ μ τ κ : Type}

theorem held_congr {s t : State δ} (hfragments : t.fragments = s.fragments)
    (htracker : t.tracker = s.tracker) : Held t = Held s := by
  funext id holder
  cases holder with
  | set key => rw [Held, Held, hfragments]
  | flow index => rw [Held, Held, htracker]

theorem Relabeled.of_nil {P Q : Disposition → Prop} {a b : List PacketObservation}
    (h : Relabeled [] P a b) : Relabeled [] Q a b := by
  refine ⟨h.length, fun i q hq => ?_⟩
  obtain ⟨p, hp, hid, hmeta, -, hout⟩ := h.same i q hq
  exact ⟨p, hp, hid, hmeta, by simp, hout⟩

theorem Ledger.expireFragments {s : State δ} (h : Ledger s) (frame : ℕ) :
    ∃ t, expireFragments s frame = .ok t ∧ Ledger t ∧ t.packets.length = s.packets.length := by
  obtain ⟨hinv, -, honly⟩ := h.fragments.expireLoop frame s.fragments.deadlines.size
  obtain ⟨hfrom, hto⟩ := h.fragments.expireLoop_notices frame s.fragments.deadlines.size
  -- a notice names packets that a removed set held
  have hheld : ∀ id ∈ (s.fragments.expire frame).1.flatMap (·.packets), ∃ key,
      Held s id (.set key) ∧ (s.fragments.expire frame).2.sets.get? key = none := by
    intro id hid
    obtain ⟨notice, hnotice, hmem⟩ := List.mem_flatMap.1 hid
    obtain ⟨key, a, ha, hgone, hpackets⟩ := hfrom notice hnotice
    exact ⟨key, ⟨a, ha, hpackets ▸ hmem⟩, hgone⟩
  have hknown : ∀ notice ∈ (s.fragments.expire frame).1, ∀ id ∈ notice.packets,
      ∃ p ∈ s.packets, p.id = id := by
    intro notice hnotice id hid
    obtain ⟨key, hkey, -⟩ := hheld id (List.mem_flatMap.2 ⟨notice, hnotice, hid⟩)
    exact h.known id _ hkey
  obtain ⟨t, ht, hfragments, htracker, hrelabel⟩ := noteFragments_ok (s.fragments.expire frame).1
    (s := { s with fragments := (s.fragments.expire frame).2 }) h.numbered hknown
  have hmoved : Moved (Held s) (Held t) ((s.fragments.expire frame).1.flatMap (·.packets)) none := by
    rw [held_congr hfragments htracker]
    apply moved_of_release (fun holder => ∃ key, holder = .set key ∧
      (s.fragments.expire frame).2.sets.get? key = none)
    · intro id hid holder hholder
      obtain ⟨key, hkey, hgone⟩ := hheld id hid
      obtain rfl := h.exclusive id _ _ hkey hholder
      exact ⟨key, rfl, hgone⟩
    · rintro id holder hholder ⟨key, rfl, hgone⟩
      obtain ⟨a, ha, hmem⟩ := hholder
      obtain ⟨notice, hnotice, hpackets⟩ := hto key a ha hgone
      exact List.mem_flatMap.2 ⟨notice, hnotice, hpackets ▸ hmem⟩
    · rintro id (key | index)
      · change (∃ a, (s.fragments.expire frame).2.sets.get? key = some a ∧ id ∈ a.packets) ↔
          (∃ a, s.fragments.sets.get? key = some a ∧ id ∈ a.packets) ∧ _
        simp only [Holder.set.injEq, exists_eq_left']
        rcases honly key with hgone | hsame
        · have hgone' : (s.fragments.expire frame).2.sets.get? key = none := hgone
          simp [hgone']
        · have hsame' : (s.fragments.expire frame).2.sets.get? key = s.fragments.sets.get? key :=
            hsame
          rw [hsame']
          constructor
          · rintro ⟨a, ha, hmem⟩
            exact ⟨⟨a, ha, hmem⟩, by simp [ha]⟩
          · exact And.left
      · change Held s id (.flow index) ↔ Held s id (.flow index) ∧ _
        simp
  refine ⟨t, ht, ?_, hrelabel.length⟩
  have hrelabel' : Relabeled ((s.fragments.expire frame).1.flatMap (·.packets)) Incomplete
      (s.packets ++ []) t.packets := by
    rw [List.append_nil]
    exact hrelabel
  refine h.move (by rw [List.append_nil]; exact h.numbered) (by simp) (fun id hid => ?_) hrelabel'
    hmoved ?_ (by rw [hfragments]; exact hinv) (by rw [htracker]; exact h.tracker)
  · obtain ⟨key, hkey, -⟩ := hheld id hid
    rw [List.append_nil]
    exact h.known id _ hkey
  · rintro d ⟨reason, rfl⟩
    exact ⟨by simp, by simp, by simp⟩

theorem Ledger.unobserved {s : State δ} (h : Ledger s) {id : PacketId}
    (hframe : id.frame = s.packets.length + 1) (holder : Holder) : ¬ Held s id holder := by
  intro hheld
  obtain ⟨p, hp, hid⟩ := h.known _ _ hheld
  obtain ⟨i, hi⟩ := List.mem_iff_getElem?.1 hp
  have hplace := (h.numbered i p hi).2
  have hlt := (List.getElem?_eq_some_iff.1 hi).1
  rw [hid, hframe] at hplace
  omega

structure Observed (s : State δ) (obs : PacketObservation) (u : State δ) (ids : List PacketId) :
    Prop where
  ledger : Ledger s
  metaFrame : obs.metadata.frame = s.packets.length + 1
  idFrame : obs.id.frame = s.packets.length + 1
  packets : Relabeled [] Incomplete (s.packets ++ [obs]) u.packets
  mem : obs.id ∈ ids
  known : ∀ id ∈ ids, ∃ p ∈ s.packets ++ [obs], p.id = id
  moved : Moved (Held s) (Held u) ids none
  fragments : FragmentReassembler.Invariant u.fragments
  tracker : TcpTracker.Invariant u.tracker

def Advanced (s : State δ) (r : Result (State δ)) : Prop :=
  Yields r (fun t => Ledger t ∧ t.packets.length = s.packets.length + 1)

namespace Observed

variable {P : Disposition → Prop}
variable {s u : State δ} {obs : PacketObservation} {ids : List PacketId}
variable (h : Observed s obs u ids)
include h

theorem numbered : Numbered (s.packets ++ [obs]) := by
  intro i p hp
  by_cases hi : i < s.packets.length
  · rw [List.getElem?_append_left hi] at hp
    exact h.ledger.numbered i p hp
  · rw [List.getElem?_append_right (by omega)] at hp
    obtain ⟨hlt, -⟩ := List.getElem?_eq_some_iff.1 hp
    obtain rfl : i = s.packets.length := by
      rw [List.length_singleton] at hlt
      omega
    rw [Nat.sub_self] at hp
    cases hp
    exact ⟨h.metaFrame, h.idFrame⟩

theorem free (holder : Holder) : ¬ Held s obs.id holder :=
  h.ledger.unobserved h.idFrame holder

theorem known' : ∀ id ∈ ids, ∃ p ∈ u.packets, p.id = id :=
  fun id hid => h.packets.mem_id (h.known id hid)

theorem advance {t : State δ} {items : List PacketId} {target : Option Holder} (hmem : obs.id ∈ items)
    (hknown : ∀ id ∈ items, ∃ p ∈ s.packets ++ [obs], p.id = id)
    (hrelabel : Relabeled items P u.packets t.packets)
    (hmoved : Moved (Held s) (Held t) items target) (hfits : ∀ d, P d → Fits d target)
    (hfragments : FragmentReassembler.Invariant t.fragments)
    (htracker : TcpTracker.Invariant t.tracker) : Advanced s (.ok t) := by
  have hall : Relabeled items P (s.packets ++ [obs]) t.packets := h.packets.of_nil.trans hrelabel
  refine yields_ok ⟨h.ledger.move h.numbered ?_ hknown hall hmoved hfits hfragments htracker, ?_⟩
  · intro p hp
    rw [List.mem_singleton.1 hp]
    exact hmem
  · rw [hall.length, List.length_append, List.length_singleton]

theorem close {t : State δ}
    {target : Option Holder} (hrelabel : Relabeled ids P u.packets t.packets)
    (hmoved : Moved (Held u) (Held t) ids target) (hfits : ∀ d, P d → Fits d target)
    (hfragments : FragmentReassembler.Invariant t.fragments)
    (htracker : TcpTracker.Invariant t.tracker) : Advanced s (.ok t) :=
  h.advance h.mem h.known hrelabel (h.moved.trans hmoved) hfits hfragments htracker

theorem released : ∀ id ∈ ids, ∀ holder, ¬ Held u id holder := by
  intro id hid holder hheld
  cases (h.moved.those id hid holder).1 hheld

theorem settle {packets : List PacketObservation} (hrelabel : Relabeled ids P u.packets packets)
    (hfits : ∀ d, P d → Fits d none) : Advanced s (.ok { u with packets := packets }) := by
  exact h.close hrelabel (by rw [held_congr rfl rfl]; exact moved_of_free h.released) hfits h.fragments
    h.tracker

theorem markLast_relabeled {action : PacketObservation → PacketObservation}
    (haction : ∀ p, (action p).id = p.id ∧ (action p).metadata = p.metadata ∧
      P (action p).disposition) : Relabeled [obs.id] P u.packets (markLast u action).packets := by
  have hlen : u.packets.length = s.packets.length + 1 := by
    rw [h.packets.length, List.length_append, List.length_singleton]
  have hu : Numbered u.packets := h.packets.numbered h.numbered
  obtain ⟨-, p, hp, hid⟩ := hu.getElem?_of_mem (h.known' obs.id h.mem)
  rw [h.idFrame, Nat.add_sub_cancel] at hp
  obtain ⟨hlt, hget⟩ := List.getElem?_eq_some_iff.1 hp
  have hset : (markLast u action).packets = u.packets.set s.packets.length (action p) := by
    change u.packets.modify (u.packets.length - 1) action = _
    rw [hlen, Nat.add_sub_cancel, List.modify_eq_set_getElem?, hp]
    rfl
  obtain ⟨hid', hmeta, hP⟩ := haction p
  rw [hset, ← hid]
  exact hu.relabeled_set hp hid' hmeta hP

omit h

theorem markLast_rejected (h : Observed s obs u [obs.id]) (code detail : String) :
    Advanced s (.ok (markLast u (reject code detail))) := by
  have hrelabel : Relabeled [obs.id] (fun d => d = .rejected code detail) u.packets
      (markLast u (reject code detail)).packets :=
    h.markLast_relabeled (fun p => ⟨rfl, rfl, rfl⟩)
  apply h.settle hrelabel
  rintro d rfl
  exact ⟨by simp, by simp, by simp⟩

theorem warn (h : Observed s obs u ids) (warnings : PacketObservation → List String) :
    Observed s obs (markLast u (fun p => { p with warnings := warnings p })) ids := by
  have hsame (i : ℕ) : (markLast u (fun p => { p with warnings := warnings p })).packets[i]? =
      u.packets[i]?.map (fun p => if u.packets.length - 1 = i then
        { p with warnings := warnings p } else p) := by
    change (u.packets.modify _ _)[i]? = _
    rw [List.getElem?_modify]
    split_ifs <;> rfl
  refine ⟨h.ledger, h.metaFrame, h.idFrame, ?_, h.mem, h.known, ?_, h.fragments, h.tracker⟩
  · refine ⟨(List.length_modify _ _ _).trans h.packets.length, fun i q hq => ?_⟩
    rw [hsame] at hq
    obtain ⟨p, hp, rfl⟩ := Option.map_eq_some_iff.1 hq
    obtain ⟨p₀, hp₀, hid, hmeta, -, hout⟩ := h.packets.same i p hp
    refine ⟨p₀, hp₀, ?_, ?_, by simp, fun hn => ?_⟩
    · split_ifs <;> exact hid
    · split_ifs <;> exact hmeta
    · split_ifs <;> exact hout hn
  · rw [held_congr rfl rfl]
    exact h.moved

end Observed

section Deliver

variable {s u : State δ} {obs : PacketObservation} {ids : List PacketId}

theorem Observed.deliverTcp (h : Observed s obs u ids) (scope : Scope) (time : Option ℤ)
    {segment : TcpSegment} (hpayload : ∀ id ∈ segment.payload.packets, id ∈ ids) :
    Advanced s (deliverTcp u scope ids time segment) := by
  have hne : ids ≠ [] := List.ne_nil_of_mem h.mem
  let c : TcpTracker.Call := ⟨scope, ids, time, segment⟩
  have hstep : TcpTracker.IngestStep u.tracker c (u.tracker.apply c).1 (u.tracker.apply c).2 :=
    h.tracker.ingest c
  have hinv : TcpTracker.Invariant (u.tracker.apply c).2 := h.tracker.step hstep
  have hpackets (f : Flow) (id : PacketId) :
      id ∈ (f.accept c.direction c.packets c.when c.segment).packets ↔
        id ∈ f.packets ∨ id ∈ ids := by
    rw [Flow.accept_packets, List.mem_append, List.mem_append]
    constructor
    · rintro ((hid | hid) | hid)
      · exact Or.inl hid
      · exact Or.inr hid
      · exact Or.inr (hpayload id hid)
    · exact fun hid => Or.inl hid
  -- a flow that takes the group beside what it has
  have htaken (index : ℕ) (t : State δ) (hfragments : t.fragments = u.fragments)
      (hflows : ∀ i id, Held t id (.flow i) ↔ Held u id (.flow i) ∨ (i = index ∧ id ∈ ids)) :
      Moved (Held u) (Held t) ids (some (.flow index)) := by
    refine moved_of_take (fun id hid holder hheld => absurd hheld (h.released id hid holder)) ?_
    rintro id (key | i)
    · simp only [Held, hfragments, reduceCtorEq, false_and, or_false]
    · simp only [hflows i id, Holder.flow.injEq]
  have hsame : u.tracker.ingestWithPackets scope ids time segment = u.tracker.apply c := rfl
  unfold Engine.deliverTcp
  rw [hsame]
  rcases happly : u.tracker.apply c with ⟨result, tracker⟩
  cases result with
  | error e => exact yields_error (TcpTracker.ingest_error hne (by rw [happly]))
  | ok assignment =>
    rw [happly] at hstep hinv
    have hu : Numbered u.packets := h.packets.numbered h.numbered
    obtain ⟨b, hb, hrelabel⟩ : ∃ b, eachPacket (Engine.settle segment.source segment.destination
        "tcp" segment.checksum (dispositionOf assignment)) u.packets ids = .ok b ∧
        Relabeled ids (fun d => d = dispositionOf assignment) u.packets b :=
      eachPacket_ok (fun p => ⟨rfl, rfl, rfl⟩) hu h.known'
    dsimp only
    rw [hb]
    change Advanced s (.ok { u with tracker := tracker, packets := b })
    cases hstep with
    | unchanged hnot =>
      apply h.settle hrelabel
      rintro d rfl
      cases assignment with
      | assigned i e => exact absurd rfl (hnot i e)
      | ambiguous candidates => exact ⟨by simp [dispositionOf], by simp [dispositionOf],
          by simp [dispositionOf]⟩
      | unassigned reason => exact ⟨by simp [dispositionOf], by simp [dispositionOf],
          by simp [dispositionOf]⟩
    | @existing index f hid hget hclosed hsyn hle =>
      obtain ⟨hlt, -⟩ := List.getElem?_eq_some_iff.1 hget
      refine h.close hrelabel (htaken index _ rfl fun i id => ?_) ?_ h.fragments hinv
      · simp only [Held]
        by_cases hi : index = i
        · subst hi
          rw [List.getElem?_set_self hlt, hget]
          simp [hpackets]
        · rw [List.getElem?_set_ne hi]
          simp [Ne.symm hi]
      · rintro d rfl
        exact ⟨c.direction, rfl⟩
    | fresh midstream hle =>
      refine h.close hrelabel (htaken u.tracker.flows.length _ rfl fun i id => ?_) ?_ h.fragments
        hinv
      · simp only [Held]
        rcases lt_trichotomy i u.tracker.flows.length with hi | hi | hi
        · rw [List.getElem?_append_left hi]
          simp [hi.ne]
        · subst hi
          simp [hpackets, Flow.fresh]
        · rw [List.getElem?_eq_none (by simp; omega), List.getElem?_eq_none hi.le]
          simp [hi.ne']
      · rintro d rfl
        exact ⟨c.direction, rfl⟩

theorem analyzeUdp_never (A : Analyzers δ μ τ κ) (scope : Scope) (datagram : UdpDatagram)
    {contributors : List PacketId} (hne : contributors ≠ []) (ports : List U16) (limits : Limits) :
    NeverInvariant (analyzeUdp A scope datagram contributors ports limits) := by
  have hlimits : NeverInvariant limits.validate := fun e he => Limits.validate_error_code he
  simp [analyzeUdp, hlimits, hne]

theorem recordUdp_frame (A : Analyzers δ μ τ κ) (config : Config) (u : State δ) (scope : Scope)
    {contributors : List PacketId} (datagram : UdpDatagram) (hne : contributors ≠ []) :
    NeverInvariant (recordUdp A config u scope contributors datagram) ∧
      ∀ t, recordUdp A config u scope contributors datagram = .ok t →
        t.fragments = u.fragments ∧ t.tracker = u.tracker ∧ t.packets = u.packets := by
  unfold recordUdp
  split_ifs
  · exact ⟨by simp, by simp⟩
  · split
    next => exact ⟨by simp, by simp⟩
    next retained _ =>
      split_ifs
      · exact ⟨by simp, by simp⟩
      · have hnever := analyzeUdp_never A scope datagram hne config.dnp3Ports config.limits
        cases hanalyze : analyzeUdp A scope datagram contributors config.dnp3Ports
            config.limits with
        | error e =>
          rw [hanalyze, neverInvariant_error_iff] at hnever
          exact ⟨by simpa [bind, Except.bind] using hnever, fun t ht => by cases ht⟩
        | ok application =>
          cases application with
          | none =>
            refine ⟨neverInvariant_ok _, fun t ht => ?_⟩
            cases ht
            exact ⟨rfl, rfl, rfl⟩
          | some application =>
            refine ⟨neverInvariant_ok _, fun t ht => ?_⟩
            cases ht
            exact ⟨rfl, rfl, rfl⟩
  · refine ⟨by simp, fun t ht => ?_⟩
    cases ht
    exact ⟨rfl, rfl, rfl⟩

theorem Observed.deliverUdp (h : Observed s obs u ids) (A : Analyzers δ μ τ κ) (config : Config)
    (scope : Scope) (datagram : UdpDatagram) :
    Advanced s (deliverUdp A config u scope ids datagram) := by
  have hne : ids ≠ [] := List.ne_nil_of_mem h.mem
  have hu : Numbered u.packets := h.packets.numbered h.numbered
  obtain ⟨b, hb, hrelabel⟩ : ∃ b, eachPacket (Engine.settle datagram.source datagram.destination
      "udp" datagram.checksum .udp) u.packets ids = .ok b ∧
      Relabeled ids (fun d => d = .udp) u.packets b :=
    eachPacket_ok (fun p => ⟨rfl, rfl, rfl⟩) hu h.known'
  unfold Engine.deliverUdp
  rw [hb]
  change Advanced s (recordUdp A config { u with packets := b } scope ids datagram)
  obtain ⟨hnever, hframe⟩ := recordUdp_frame A config { u with packets := b } scope datagram hne
  refine ⟨hnever, fun t ht => ?_⟩
  obtain ⟨hfragments, htracker, hpackets⟩ := hframe t ht
  have hheld : Held t = Held u := held_congr hfragments htracker
  refine (h.close (by rw [hpackets]; exact hrelabel) (by rw [hheld]; exact moved_of_free h.released) ?_
    (by rw [hfragments]; exact h.fragments) (by rw [htracker]; exact h.tracker)).2 t rfl
  rintro d rfl
  exact ⟨by simp, by simp, by simp⟩

theorem Observed.deliver (h : Observed s obs u ids) (A : Analyzers δ μ τ κ) (config : Config)
    (time : Option ℤ) {datagram : Datagram}
    (hpayload : ∀ id ∈ datagram.payload.packets, id ∈ ids) :
    Advanced s (deliver A config u time datagram ids) := by
  unfold Engine.deliver
  split
  next e _ =>
    have hu : Numbered u.packets := h.packets.numbered h.numbered
    obtain ⟨b, hb, hrelabel⟩ : ∃ b, eachPacket (rejectWith e) u.packets ids = .ok b ∧
        Relabeled ids (fun d => d = .rejected e.code.asStr e.display) u.packets b :=
      eachPacket_ok (fun p => ⟨rfl, rfl, rfl⟩) hu h.known'
    rw [hb]
    apply h.settle hrelabel
    rintro d rfl
    exact ⟨by simp, by simp, by simp⟩
  next segment hdecode =>
    obtain ⟨a, b, hslice⟩ := decodeTransport_payload hdecode
    exact h.deliverTcp _ _ (fun id hid =>
      hpayload id (EvidenceBytes.mem_packets_of_slice hslice hid))
  next udp _ => exact h.deliverUdp A config _ udp

end Deliver

end PcapEvidence.Engine
