import PcapEvidence.ByteSlices
import PcapEvidence.CaptureAgreement
import PcapEvidence.CaptureClock
import PcapEvidence.CaptureIndex

/-!
# Queries on a verified index

An index is built by one run over the capture, whose packet records number their frames from one.
So the entry at a place is that of the packet at this place, and its offsets lead to the data of
the packet.
-/

namespace PcapEvidence

namespace CaptureIndex
open IterTrace

def entryOf? (record : Record) : Option IndexEntry :=
  record.packet.map fun p => ⟨record.offset, BitVec.ofNat 32 record.raw.length, p.1⟩

theorem add_ok {entries out : List IndexEntry} {record : Record}
    (h : Index.add entries record = .ok out) : out = entries ++ (entryOf? record).toList := by
  unfold Index.add at h
  unfold entryOf?
  cases hp : record.packet with
  | none =>
    rw [hp] at h
    cases h
    exact (List.append_nil entries).symm
  | some p =>
    rw [hp] at h
    split_ifs at h
    cases h
    rfl

structure Walked (source : List U8) (limits : Limits) (records : List Record) (it : CaptureIter) :
    Prop where
  data : it.data = source
  position : it.position ≤ source.length
  tracked : Decoder.Tracked records it.decoder
  configured : it.decoder.limits = limits
  counted : it.decoder.records = records.length
  bounded : records.length ≤ limits.maxRecords
  carried : ∀ r ∈ records, Carries source r.offset r.raw ∧ r.offset ≤ source.length
  inside : ∀ r ∈ records, ∀ p, r.kind = .packet p →
    p.dataOffset + p.capturedLen.toNat ≤ r.raw.length

section Walk
variable {source : List U8} {limits : Limits} {records : List Record} {it it' : CaptureIter}

theorem walked_new (h : CaptureIter.new source limits .strict = .ok it) :
    Walked source limits [] it := by
  unfold CaptureIter.new at h
  split_ifs at h
  obtain ⟨d, hd, h⟩ := bind_eq_ok.1 h
  cases h
  have htracked := (Decoder.Reachable.start : Decoder.Reachable d [] d).tracked hd
  obtain ⟨⟨⟩, -, hd⟩ := bind_eq_ok.1 hd
  cases hd
  exact ⟨rfl, Nat.zero_le _, htracked, rfl, rfl, Nat.zero_le _, by simp, by simp⟩

theorem Walked.next {r : Record} (h : Walked source limits records it)
    (hnext : it.next = (some (.ok r), it')) : Walked source limits (records ++ [r]) it' := by
  obtain ⟨d, hdecode, rfl⟩ := CaptureIter.next_record hnext
  obtain ⟨need, -, hle, hstep, -, -⟩ := h.tracked.step hdecode
  have hcall := h.tracked.call (it.data.drop it.position) it.position
  rw [hdecode] at hcall
  have hroom : it.decoder.records < it.decoder.limits.maxRecords := by
    rw [Decoder.decode, Method.read_bind] at hdecode
    exact not_le.1 (Method.guard_ok hdecode).1
  rw [h.counted, h.configured] at hroom
  have hraw := hstep.raw
  have hlength : r.raw.length = need := by
    rw [hraw, List.length_take]
    exact min_eq_left hle
  rw [List.length_drop, h.data] at hle
  have hposition := h.position
  refine ⟨h.data, ?_, hcall, hstep.limits.trans h.configured, ?_, ?_, ?_, ?_⟩
  · change it.position + r.raw.length ≤ source.length
    omega
  · rw [hstep.records, h.counted, List.length_append, List.length_singleton]
  · rw [List.length_append, List.length_singleton]
    exact hroom
  · intro q hq
    rcases List.mem_append.1 hq with hq | hq
    · exact h.carried q hq
    · obtain rfl := List.mem_singleton.1 hq
      rw [hstep.offset, hraw, h.data]
      exact ⟨List.take_prefix _ _, hposition⟩
  · intro q hq p hp
    rcases List.mem_append.1 hq with hq | hq
    · exact h.inside q hq p hp
    · obtain rfl := List.mem_singleton.1 hq
      rw [hraw]
      exact (hstep.packet p hp).2.2

theorem next_none (h : it.next = (none, it')) : Drains CaptureIter.next it [] none := by
  have hterminal : it'.terminal = true := by
    unfold CaptureIter.next at h
    by_cases hterminal : it.terminal = true
    · rw [if_pos hterminal] at h
      cases h
      exact hterminal
    rw [if_neg hterminal] at h
    by_cases hend : it.position = it.data.length
    · rw [if_pos hend] at h
      rw [← (Prod.mk.inj h).2]
    rw [if_neg hend] at h
    rcases hdecode : Decoder.decode (it.data.drop it.position) it.position it.decoder with ⟨out, d⟩
    rw [hdecode] at h
    cases out with
    | error e => cases h
    | ok out => cases out <;> cases h
  apply Drains.done
  · rw [h]
  · rw [h]
    exact CaptureIter.silent_of_terminal hterminal

theorem collect_ok {entries out : List IndexEntry} (hwalked : Walked source limits records it)
    (h : Index.collect it entries = .ok out) :
    ∃ more last, Drains CaptureIter.next it more none ∧ Walked source limits (records ++ more) last ∧
      out = entries ++ more.filterMap entryOf? := by
  fun_induction Index.collect it entries generalizing records with
  | case1 it entries it' hnext =>
    cases h
    exact ⟨[], it, next_none hnext, by simpa using hwalked, by simp⟩
  | case2 => cases h
  | case3 it entries record it' hnext ih =>
    obtain ⟨added, hadd, h⟩ := bind_eq_ok.1 h
    obtain ⟨more, last, hdrains, hlast, rfl⟩ := ih added (hwalked.next hnext) h
    obtain rfl := add_ok hadd
    refine ⟨record :: more, last, .item (by rw [hnext]) (by rwa [hnext]), ?_, ?_⟩
    · rwa [List.append_assoc] at hlast
    · cases hr : entryOf? record <;> simp [hr]

end Walk

/-! ### The packets of a capture -/

def located (records : List Record) : List (Record × PacketMeta × List U8) :=
  records.filterMap fun r => r.packet.map (r, ·)

def packets (records : List Record) : List (PacketMeta × List U8) := records.filterMap Record.packet

section Packets
variable {records : List Record} {source : List U8} {limits : Limits} {it : CaptureIter}

theorem packets_eq_map : packets records = (located records).map Prod.snd := by
  rw [packets, located, List.map_filterMap]
  congr 1
  funext r
  cases r.packet <;> rfl

theorem entries_eq_map : records.filterMap entryOf? = (located records).map fun l =>
    ⟨l.1.offset, BitVec.ofNat 32 l.1.raw.length, l.2.1⟩ := by
  rw [located, List.map_filterMap]
  congr 1
  funext r
  unfold entryOf?
  cases r.packet <;> rfl

theorem frames_eq_map : Decoder.frames records = (located records).map fun l => l.2.1.frame := by
  rw [Decoder.frames, located, List.map_filterMap]
  congr 1
  funext r
  cases r.packet <;> rfl

theorem Walked.located (h : Walked source limits records it) {k : ℕ} {r : Record} {p : PacketMeta}
    {data : List U8} (hk : (located records)[k]? = some (r, p, data)) :
    p.frame = k + 1 ∧ r.offset + p.dataOffset + p.capturedLen.toNat ≤ source.length ∧
      data = sliceOf source (r.offset + p.dataOffset)
        (r.offset + p.dataOffset + p.capturedLen.toNat) := by
  have hframe : (Decoder.frames records)[k]? = some p.frame := by
    rw [frames_eq_map, List.getElem?_map, hk]
    rfl
  rw [h.tracked.frames] at hframe
  obtain ⟨hlt, hframe⟩ := List.getElem?_eq_some_iff.1 hframe
  rw [List.getElem_range'] at hframe
  obtain ⟨r', hr, hpacket⟩ := List.mem_filterMap.1 (List.mem_of_getElem? hk)
  obtain ⟨q, hq, hsame⟩ := Option.map_eq_some_iff.1 hpacket
  cases hsame
  have hkind : r.kind = .packet p ∧
      data = sliceOf r.raw p.dataOffset (p.dataOffset + p.capturedLen.toNat) := by
    unfold Record.packet at hq
    split at hq
    next found hfound =>
      cases hq
      exact ⟨hfound, rfl⟩
    next => cases hq
  have hinside := h.inside r hr p hkind.1
  obtain ⟨hcarries, hoffset⟩ := h.carried r hr
  have hwithin := hcarries.length_le hoffset
  refine ⟨?_, by omega, ?_⟩
  · omega
  · rw [hkind.2, Nat.add_assoc, hcarries.sliceOf_inner hinside]

end Packets

/-! ### Sorted times -/

section Times
variable {α : Type} {p q : α → Bool} {l : List α}

theorem take_partitionPoint (h : l.Pairwise fun a b => p b = true → p a = true) :
    l.take (partitionPoint p l) = l.filter p := by
  induction l with
  | nil => rfl
  | cons a rest ih =>
    obtain ⟨hfirst, hrest⟩ := List.pairwise_cons.1 h
    unfold partitionPoint at ih ⊢
    by_cases ha : p a = true
    · rw [List.takeWhile_cons_of_pos ha, List.filter_cons_of_pos ha, List.length_cons,
        List.take_succ_cons, ih hrest]
    · have hnone : rest.filter p = [] :=
        List.filter_eq_nil_iff.2 fun b hb hpb => ha (hfirst b hb hpb)
      rw [List.takeWhile_cons_of_neg ha, List.filter_cons_of_neg ha, hnone]
      rfl

theorem drop_partitionPoint (h : l.Pairwise fun a b => p b = true → p a = true) :
    l.drop (partitionPoint p l) = l.filter fun a => !p a := by
  induction l with
  | nil => rfl
  | cons a rest ih =>
    obtain ⟨hfirst, hrest⟩ := List.pairwise_cons.1 h
    unfold partitionPoint at ih ⊢
    by_cases ha : p a = true
    · rw [List.takeWhile_cons_of_pos ha, List.filter_cons_of_neg (by simp [ha]),
        List.length_cons, List.drop_succ_cons, ih hrest]
    · have hall : (a :: rest).filter (fun a => !p a) = a :: rest := by
        apply List.filter_eq_self.2
        intro b hb
        rcases List.mem_cons.1 hb with rfl | hb
        · simpa using ha
        · simpa using fun hpb => ha (hfirst b hb hpb)
      rw [List.takeWhile_cons_of_neg ha, hall]
      rfl

theorem between_partitionPoints (hp : l.Pairwise fun a b => p b = true → p a = true)
    (hq : l.Pairwise fun a b => q b = true → q a = true) (hpq : ∀ a, p a = true → q a = true) :
    (l.take (partitionPoint q l)).drop (partitionPoint p l) = l.filter fun a => !p a && q a := by
  have hlength : partitionPoint p l = partitionPoint p (l.filter q) := by
    have hcut (l : List α) (h : l.Pairwise fun a b => p b = true → p a = true) :
        partitionPoint p l = (l.filter p).length := by
      rw [← take_partitionPoint h, List.length_take]
      exact (min_eq_left (List.takeWhile_prefix p).length_le).symm
    rw [hcut l hp, hcut _ (hp.filter q), List.filter_filter]
    congr 1
    apply List.filter_congr
    intro a _
    cases ha : p a with
    | false => rfl
    | true => simp [hpq a ha]
  rw [take_partitionPoint hq, hlength, drop_partitionPoint (hp.filter q), List.filter_filter]

end Times

/-! ### Verified indexes -/

theorem Index.build_ok {source : List U8} {limits : Limits} {index : Index}
    (h : Index.build source limits = .ok index) :
    ∃ it records last, CaptureIter.new source limits .strict = .ok it ∧
      Drains CaptureIter.next it records none ∧ Walked source limits records last ∧
      index = ⟨BitVec.ofNat 64 source.length, Sha256.digest source, records.filterMap entryOf?⟩ := by
  obtain ⟨it, hnew, h⟩ := bind_eq_ok.1 h
  obtain ⟨entries, hcollect, h⟩ := bind_eq_ok.1 h
  cases h
  obtain ⟨records, last, hdrains, hwalked, rfl⟩ := collect_ok (walked_new hnew) hcollect
  exact ⟨it, records, last, hnew, hdrains, hwalked, by simp⟩

def VerifiedIndex.Of (v : VerifiedIndex) (source : List U8) (limits : Limits) : Prop :=
  VerifiedIndex.build source limits = .ok v ∨
    ∃ sidecar, VerifiedIndex.load source sidecar limits = .ok v

theorem VerifiedIndex.load_ok {v : VerifiedIndex} {source sidecar : List U8} {limits : Limits}
    (h : VerifiedIndex.load source sidecar limits = .ok v) :
    ∃ index, Index.build source limits = .ok index ∧ index.encode = .ok sidecar ∧
      v = .fromCanonical source index := by
  obtain ⟨_, -, h⟩ := bind_eq_ok.1 h
  obtain ⟨_, -, h⟩ := bind_eq_ok.1 h
  obtain ⟨index, hindex, h⟩ := bind_eq_ok.1 h
  obtain ⟨encoded, hencoded, h⟩ := bind_eq_ok.1 h
  split_ifs at h with hsame
  cases h
  rw [not_not] at hsame
  exact ⟨index, hindex, hsame ▸ hencoded, rfl⟩

theorem VerifiedIndex.Of.canonical {v : VerifiedIndex} {source : List U8} {limits : Limits}
    (h : v.Of source limits) :
    ∃ index, Index.build source limits = .ok index ∧ v = .fromCanonical source index := by
  rcases h with h | ⟨sidecar, h⟩
  · obtain ⟨index, hindex, h⟩ := bind_eq_ok.1 h
    cases h
    exact ⟨index, hindex, rfl⟩
  · obtain ⟨index, hindex, -, rfl⟩ := VerifiedIndex.load_ok h
    exact ⟨index, hindex, rfl⟩

def ExactAt (p : PacketMeta) (nanos : ℤ) : Prop :=
  ∃ t, p.timestamp = some t ∧ t.resolution.exponent ≤ 127 ∧ t.seconds * 10 ^ 9 = nanos

theorem exactTime_eq_some {entry : IndexEntry} {nanos : ℤ} :
    exactTime entry = some nanos ↔ ExactAt entry.packet nanos := by
  unfold exactTime ExactAt
  simp only [Option.bind_eq_some_iff, ← Timestamp.unixNanos_eq_ok_iff]
  constructor
  · rintro ⟨t, ht, hnanos⟩
    refine ⟨t, ht, ?_⟩
    cases h : t.unixNanos with
    | error e => simp [h, Except.toOption] at hnanos
    | ok n => simpa [h, Except.toOption] using hnanos
  · rintro ⟨t, ht, hnanos⟩
    exact ⟨t, ht, by rw [hnanos]; rfl⟩

section Queries
variable {source : List U8} {limits : Limits} {records : List Record} {it : CaptureIter} {index : Index}

theorem mem_entries (hw : Walked source limits records it)
    (hindex : index.entries = records.filterMap entryOf?) {f : ℕ} {P : PacketMeta → Prop} :
    (∃ entry ∈ index.entries, P entry.packet ∧ entry.packet.frame = f) ↔
      ∃ k p data, (packets records)[k]? = some (p, data) ∧ f = k + 1 ∧ P p := by
  rw [hindex, entries_eq_map, packets_eq_map]
  constructor
  · rintro ⟨entry, hentry, hP, rfl⟩
    obtain ⟨⟨r, p, data⟩, hl, rfl⟩ := List.mem_map.1 hentry
    obtain ⟨k, hk⟩ := List.mem_iff_getElem?.1 hl
    exact ⟨k, p, data, by simp [hk], (hw.located hk).1, hP⟩
  · rintro ⟨k, p, data, hk, rfl, hP⟩
    rw [List.getElem?_map] at hk
    obtain ⟨⟨r, q⟩, hl, hq⟩ := Option.map_eq_some_iff.1 hk
    cases hq
    exact ⟨_, List.mem_map.2 ⟨_, List.mem_of_getElem? hl, rfl⟩, hP, (hw.located hl).1⟩

theorem pairwise_frames (hw : Walked source limits records it)
    (hindex : index.entries = records.filterMap entryOf?) :
    (index.entries.map fun entry => entry.packet.frame).Pairwise (· < ·) := by
  have hframes : index.entries.map (fun entry => entry.packet.frame) = Decoder.frames records := by
    rw [hindex, entries_eq_map, frames_eq_map, List.map_map]
    rfl
  rw [hframes, hw.tracked.frames]
  exact List.pairwise_lt_range'

theorem packet_ok (hword : source.length < wordBound) (hw : Walked source limits records it)
    (hindex : index.entries = records.filterMap entryOf?) {k : ℕ} {p : PacketMeta} {data : List U8}
    (hk : (packets records)[k]? = some (p, data)) :
    (VerifiedIndex.fromCanonical source index).packet (k + 1) = .ok data := by
  rw [packets_eq_map, List.getElem?_map] at hk
  obtain ⟨⟨r, q⟩, hl, hq⟩ := Option.map_eq_some_iff.1 hk
  cases hq
  obtain ⟨-, hwithin, hdata⟩ := hw.located hl
  have hentry : index.entries[k]? = some ⟨r.offset, BitVec.ofNat 32 r.raw.length, p⟩ := by
    rw [hindex, entries_eq_map, List.getElem?_map, hl]
    rfl
  have hstart := checkedAdd_of_lt (show r.offset + p.dataOffset < wordBound by omega)
  have hstop := checkedAdd_of_lt
    (show r.offset + p.dataOffset + p.capturedLen.toNat < wordBound by omega)
  simp only [VerifiedIndex.packet, VerifiedIndex.fromCanonical, Nat.add_sub_cancel, hentry, hstart,
    hstop, hwithin, if_true, Nat.add_one_ne_zero, if_false]
  rw [hdata]

theorem packet_error (hindex : index.entries = records.filterMap entryOf?) {frame : ℕ}
    (h : frame = 0 ∨ (packets records).length < frame) :
    ∃ e, (VerifiedIndex.fromCanonical source index).packet frame = .error e := by
  unfold VerifiedIndex.packet
  by_cases hzero : frame = 0
  · exact ⟨_, if_pos hzero⟩
  · have hnone : (VerifiedIndex.fromCanonical source index).index.entries[frame - 1]? = none := by
      change index.entries[frame - 1]? = none
      rw [List.getElem?_eq_none_iff, hindex, entries_eq_map, List.length_map]
      rw [packets_eq_map, List.length_map] at h
      omega
    rw [if_neg hzero, hnone]
    exact ⟨_, rfl⟩

/-! ### Time ranges -/

theorem sortedTimes_pairwise :
    (VerifiedIndex.fromCanonical source index).sortedTimes.Pairwise fun a b => a.1 ≤ b.1 := by
  have hsorted := List.pairwise_insertionSort timeLe
    (index.entries.filterMap fun entry => (exactTime entry).map (·, entry.packet.frame))
  exact hsorted.imp fun h => h.elim le_of_lt fun h => h.1.le

theorem mem_sortedTimes {nanos : ℤ} {frame : ℕ} :
    (nanos, frame) ∈ (VerifiedIndex.fromCanonical source index).sortedTimes ↔
      ∃ entry ∈ index.entries, ExactAt entry.packet nanos ∧ entry.packet.frame = frame := by
  unfold VerifiedIndex.fromCanonical
  rw [List.mem_insertionSort, List.mem_filterMap]
  apply exists_congr
  intro entry
  rw [Option.map_eq_some_iff, ← exactTime_eq_some]
  simp

theorem nodup_sortedFrames (hw : Walked source limits records it)
    (hindex : index.entries = records.filterMap entryOf?) :
    ((VerifiedIndex.fromCanonical source index).sortedTimes.map Prod.snd).Nodup := by
  have hperm := (List.perm_insertionSort timeLe
    (index.entries.filterMap fun entry => (exactTime entry).map (·, entry.packet.frame))).map Prod.snd
  apply hperm.nodup_iff.2
  rw [List.map_filterMap]
  have hframes : (index.entries.filterMap fun entry =>
      ((exactTime entry).map (·, entry.packet.frame)).map Prod.snd) =
        (index.entries.filter fun entry => (exactTime entry).isSome).map (·.packet.frame) := by
    induction index.entries with
    | nil => rfl
    | cons entry rest ih =>
      rw [List.filterMap_cons, List.filter_cons, ih]
      cases exactTime entry <;> rfl
  rw [hframes]
  exact ((pairwise_frames hw hindex).sublist (List.filter_sublist.map _)).imp ne_of_lt

theorem timeRange_ok (hw : Walked source limits records it)
    (hindex : index.entries = records.filterMap entryOf?) {startNs endNs : ℤ} (h : startNs ≤ endNs) :
    ∃ q, (VerifiedIndex.fromCanonical source index).timeRange startNs endNs = .ok q ∧
      q.frames.Pairwise (· < ·) ∧
      (∀ f, f ∈ q.frames ↔ ∃ k p data, (packets records)[k]? = some (p, data) ∧ f = k + 1 ∧
        ∃ nanos, ExactAt p nanos ∧ startNs ≤ nanos ∧ nanos ≤ endNs) ∧
      ∀ f, f ∈ q.unresolvedFrames ↔ ∃ k p data, (packets records)[k]? = some (p, data) ∧
        f = k + 1 ∧ ∀ nanos, ¬ ExactAt p nanos := by
  have hcut := between_partitionPoints (l := (VerifiedIndex.fromCanonical source index).sortedTimes)
    (p := fun t => t.1 < startNs) (q := fun t => t.1 ≤ endNs)
    (sortedTimes_pairwise.imp fun h => by simpa using h.trans_lt)
    (sortedTimes_pairwise.imp fun h => by simpa using h.trans)
    (fun t ht => by simp only [decide_eq_true_eq] at ht ⊢; omega)
  refine ⟨_, if_neg (not_lt.2 h), ?_, fun f => ?_, fun f => ?_⟩
  · dsimp only
    rw [hcut]
    have hnodup := (@nodup_sortedFrames source _ _ _ _ hw hindex).sublist
      (List.Sublist.map Prod.snd (List.filter_sublist (p := fun t : ℤ × ℕ =>
        !decide (t.1 < startNs) && decide (t.1 ≤ endNs))))
    have hsorted := List.pairwise_insertionSort (fun a b : ℕ => a ≤ b) (List.map Prod.snd
      ((VerifiedIndex.fromCanonical source index).sortedTimes.filter fun t =>
        !decide (t.1 < startNs) && decide (t.1 ≤ endNs)))
    have hdistinct := (List.perm_insertionSort (fun a b : ℕ => a ≤ b) _).nodup_iff.2 hnodup
    exact (hsorted.and hdistinct).imp fun h => lt_of_le_of_ne h.1 h.2
  · dsimp only
    rw [hcut, List.mem_insertionSort, List.mem_map, ← mem_entries hw hindex]
    constructor
    · rintro ⟨⟨nanos, frame⟩, ht, rfl⟩
      obtain ⟨hmem, hrange⟩ := List.mem_filter.1 ht
      obtain ⟨entry, hentry, hexact, hframe⟩ := mem_sortedTimes.1 hmem
      exact ⟨entry, hentry, ⟨nanos, hexact, by simpa using hrange⟩, hframe⟩
    · rintro ⟨entry, hentry, ⟨nanos, hexact, hrange⟩, hframe⟩
      exact ⟨(nanos, f), List.mem_filter.2 ⟨mem_sortedTimes.2 ⟨entry, hentry, hexact, hframe⟩,
        by simpa using hrange⟩, rfl⟩
  · rw [← mem_entries hw hindex]
    change f ∈ (index.entries.filter fun entry => (exactTime entry).isNone).map (·.packet.frame) ↔ _
    rw [List.mem_map]
    apply exists_congr
    intro entry
    rw [List.mem_filter, Option.isNone_iff_eq_none, Option.eq_none_iff_forall_ne_some, and_assoc]
    simp only [ne_eq, exactTime_eq_some]

end Queries

end CaptureIndex

end PcapEvidence
