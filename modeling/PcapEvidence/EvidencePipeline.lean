import PcapEvidence.FragmentRun
import PcapEvidence.StreamRun
import PcapEvidence.TcpInvariant
import PcapEvidence.TransportDecode
import PcapEvidence.WirePayload

/-!
# From captured packets to stream chunks

A packet is decoded, its datagram goes through the fragment reassembler, a completed datagram is
decoded again and a TCP segment is ingested. Packets may arrive in any order and number, with
expiries in between; a call that fails leaves what it leaves.
-/

namespace PcapEvidence

open Fragment EvidenceBytes

structure EvidencePipeline where
  fragments : FragmentReassembler
  tracker : TcpTracker

namespace EvidencePipeline

/-- A packet of the capture with the metadata the decoders see. -/
structure Arrival where
  linkType : U32
  id : PacketId
  scope : Scope
  frame : ℕ
  when : Option ℤ

inductive Event where
  | packet (arrival : Arrival)
  | expire (frame : ℕ)

def new (limits : Limits) (idleNs : ℤ) : Result EvidencePipeline := do
  let tracker ← TcpTracker.new limits idleNs
  .ok ⟨FragmentReassembler.new limits, tracker⟩

/-- A datagram without payload bytes is evidenced by the packet that completed it. -/
def contributors (packets : List PacketId) (id : PacketId) : List PacketId :=
  if packets = [] then [id] else packets

def deliver (p : EvidencePipeline) (checksums : ChecksumPolicy) (arrival : Arrival)
    (datagram : Datagram) (packets : List PacketId) : EvidencePipeline :=
  match decodeTransport datagram checksums with
  | .ok (.tcp segment) => { p with
      tracker := (p.tracker.ingestWithPackets datagram.scope (contributors packets arrival.id)
        arrival.when segment).2 }
  | .ok (.udp _) => p
  | .error _ => p

def receive (captured : PacketId → List U8) (checksums : ChecksumPolicy) (p : EvidencePipeline)
    (arrival : Arrival) : EvidencePipeline :=
  match decodePacket arrival.linkType (captured arrival.id) arrival.id arrival.scope with
  | .error _ => p
  | .ok datagram =>
    match p.fragments.push datagram arrival.frame with
    | (.ok (.complete whole packets), fragments) =>
      { p with fragments := fragments }.deliver checksums arrival whole packets
    | (_, fragments) => { p with fragments := fragments }

def step (captured : PacketId → List U8) (checksums : ChecksumPolicy) (p : EvidencePipeline) :
    Event → EvidencePipeline
  | .packet arrival => p.receive captured checksums arrival
  | .expire frame => { p with fragments := (p.fragments.expire frame).2 }

def reconstruct (captured : PacketId → List U8) (limits : Limits) (idleNs : ℤ)
    (checksums : ChecksumPolicy) (overlaps : OverlapPolicy) (events : List Event) :
    Result (List FlowResult) := do
  let p ← new limits idleNs
  (events.foldl (step captured checksums) p).tracker.finish overlaps

structure Invariant (captured : PacketId → List U8) (p : EvidencePipeline) : Prop where
  fragments : FragmentReassembler.Invariant p.fragments
  tracker : TcpTracker.Invariant p.tracker
  parts : ∀ key a, p.fragments.sets.get? key = some a → a.poisoned = false →
    ∀ part ∈ a.parts, part.bytes.Sound captured
  inputs : ∀ f ∈ p.tracker.flows, ∀ x ∈ f.inputs, x.segment.payload.Sound captured

variable {captured : PacketId → List U8} {p : EvidencePipeline} {checksums : ChecksumPolicy}

theorem invariant_new {limits : Limits} {idleNs : ℤ} (h : new limits idleNs = .ok p) :
    Invariant captured p := by
  obtain ⟨tracker, htracker, h⟩ := bind_eq_ok.1 h
  cases h
  obtain ⟨-, -, rfl⟩ := TcpTracker.new_ok htracker
  constructor
  · exact FragmentReassembler.invariant_new limits
  · exact TcpTracker.invariant_new htracker
  · intro key a ha
    cases ha
  · intro f hf
    cases hf

theorem decodeTransport_sound {datagram : Datagram} {t : Transport}
    (h : decodeTransport datagram checksums = .ok t) (hs : datagram.payload.Sound captured)
    (hv : datagram.payload.layoutValid = true → datagram.payload.Valid) :
    t.payload.Sound captured := by
  obtain ⟨a, b, hslice⟩ := decodeTransport_payload h
  exact hs.slice (hv (slice_ok_range hslice).1) hslice

theorem ingest_sound {t : TcpTracker} {c : TcpTracker.Call} (ht : TcpTracker.Invariant t)
    (hold : ∀ f ∈ t.flows, ∀ x ∈ f.inputs, x.segment.payload.Sound captured)
    (hc : c.segment.payload.Sound captured) :
    ∀ f ∈ (t.apply c).2.flows, ∀ x ∈ f.inputs, x.segment.payload.Sound captured := by
  have hstep := ht.ingest c
  -- an accepting flow gains just the new segment
  have haccept (g : Flow) (hg : ∀ x ∈ g.inputs, x.segment.payload.Sound captured) :
      ∀ x ∈ (g.accept c.direction c.packets c.when c.segment).inputs,
        x.segment.payload.Sound captured := by
    intro x hx
    rw [Flow.accept_inputs] at hx
    rcases List.mem_append.1 hx with hx | hx
    · exact hg x hx
    · rw [List.mem_singleton.1 hx]
      exact hc
  generalize hresult : (t.apply c).1 = result at hstep
  generalize hnext : (t.apply c).2 = next at hstep
  cases hstep with
  | unchanged => exact hold
  | existing hid hget =>
    intro f hf
    rcases List.mem_or_eq_of_mem_set hf with hf | rfl
    · exact hold f hf
    · exact haccept _ (hold _ (List.mem_of_getElem? hget))
  | fresh midstream =>
    intro f hf
    rcases List.mem_append.1 hf with hf | hf
    · exact hold f hf
    · rw [List.mem_singleton.1 hf]
      exact haccept _ (by simp [Flow.fresh])
variable (h : Invariant captured p)
include h

theorem Invariant.deliver (arrival : Arrival) {datagram : Datagram}
    (packets : List PacketId) (hs : datagram.payload.Sound captured)
    (hv : datagram.payload.layoutValid = true → datagram.payload.Valid) :
    Invariant captured (p.deliver checksums arrival datagram packets) := by
  unfold EvidencePipeline.deliver
  split
  next segment hdecode =>
    let c : TcpTracker.Call :=
      ⟨datagram.scope, contributors packets arrival.id, arrival.when, segment⟩
    have hc : c.segment.payload.Sound captured := decodeTransport_sound hdecode hs hv
    exact ⟨h.fragments, h.tracker.step (h.tracker.ingest c), h.parts,
      ingest_sound h.tracker h.inputs hc⟩
  next => exact h
  next => exact h

theorem Invariant.pushFragment {datagram : Datagram} (frame : ℕ)
    (hs : datagram.payload.Sound captured)
    (hv : datagram.payload.layoutValid = true → datagram.payload.Valid) :
    Invariant captured { p with fragments := (p.fragments.push datagram frame).2 } ∧
      ∀ whole packets, (p.fragments.push datagram frame).1 = .ok (.complete whole packets) →
        whole.payload.Sound captured ∧
          (whole.payload.layoutValid = true → whole.payload.Valid) := by
  obtain ⟨hstep, hinv, -⟩ := h.fragments.push datagram frame
  -- the parts of a clean set after one more fragment
  have hcurrent (info : FragmentInfo)
      (hclean : (p.fragments.current datagram info frame).poisoned = false) :
      ∀ part ∈ (p.fragments.current datagram info frame).parts, part.bytes.Sound captured := by
    unfold FragmentReassembler.current at hclean ⊢
    cases hget : p.fragments.sets.get? (FragmentReassembler.keyOf datagram info) with
    | none => simp [FragmentReassembler.openAssembly]
    | some a =>
      rw [hget] at hclean
      exact h.parts _ a hget hclean
  have haccepted (info : FragmentInfo) (admitted : List PacketId)
      (hclean : (p.fragments.current datagram info frame).poisoned = false) :
      ∀ part ∈ (FragmentReassembler.accepted datagram info
        (p.fragments.current datagram info frame) admitted).parts, part.bytes.Sound captured := by
    intro part hpart
    simp only [FragmentReassembler.accepted, FragmentReassembler.acceptPart,
      List.mem_insertionSort, List.mem_append, List.mem_singleton] at hpart
    rcases hpart with hpart | rfl
    · exact hcurrent info hclean part hpart
    · exact hs
  generalize hresult : (p.fragments.push datagram frame).1 = result at hstep
  generalize hnext : (p.fragments.push datagram frame).2 = next at hstep hinv
  cases hstep with
  | failed e hcode => exact ⟨h, by simp⟩
  | whole hfragment =>
    refine ⟨h, fun whole packets heq => ?_⟩
    cases heq
    exact ⟨hs, hv⟩
  | range info hfragment => exact ⟨h, by simp⟩
  | quarantined hadm hpoisoned hpackets hsets =>
    refine ⟨⟨hinv, h.tracker, fun key a ha hclean => ?_, h.inputs⟩, by simp⟩
    simp only [hsets, OrderedMap.OrdMap.get?_insert] at ha
    split_ifs at ha
    · cases ha
      rw [hpoisoned] at hclean
      cases hclean
    · exact h.parts key a ha hclean
  | pending hadm hclean hsane hopen hsets =>
    refine ⟨⟨hinv, h.tracker, fun key a ha hclean' => ?_, h.inputs⟩, by simp⟩
    simp only [hsets, OrderedMap.OrdMap.get?_insert] at ha
    split_ifs at ha
    · cases ha
      exact haccepted _ _ hclean
    · exact h.parts key a ha hclean'
  | completed hadm hclean hsane hstop hvalid hlength hview hoccurs hsets =>
    refine ⟨⟨hinv, h.tracker, fun key a ha hclean' => ?_, h.inputs⟩, fun whole packets heq => ?_⟩
    · simp only [hsets, OrderedMap.OrdMap.get?_erase] at ha
      split_ifs at ha
      exact h.parts key a ha hclean'
    · cases heq
      refine ⟨fun x hx => ?_, fun _ => hvalid⟩
      obtain ⟨part, hpart, hmem⟩ := hview x hx
      exact haccepted _ _ hclean part hpart x hmem

theorem Invariant.receive (arrival : Arrival) :
    Invariant captured (p.receive captured checksums arrival) := by
  unfold EvidencePipeline.receive
  split
  next => exact h
  next datagram hdecode =>
    obtain ⟨x, y, -, -, hpayload, -⟩ := decodePacket_payload hdecode
    have hs : datagram.payload.Sound captured := by
      rw [hpayload]
      exact sound_fromPacket_sliceOf arrival.id x y
    have hv : datagram.payload.layoutValid = true → datagram.payload.Valid := by
      rw [hpayload]
      exact fromPacket_valid_of_flag
    obtain ⟨hinv, hwhole⟩ := h.pushFragment arrival.frame hs hv
    split
    next whole packets fragments hpush =>
      rw [hpush] at hinv hwhole
      obtain ⟨hs', hv'⟩ := hwhole whole packets rfl
      exact hinv.deliver arrival packets hs' hv'
    next fragments hpush =>
      rw [hpush] at hinv
      exact hinv

theorem Invariant.step (event : Event) : Invariant captured (p.step captured checksums event) := by
  cases event with
  | packet arrival => exact h.receive arrival
  | expire frame =>
    obtain ⟨hinv, -, hsets⟩ := h.fragments.expireLoop frame p.fragments.deadlines.size
    refine ⟨hinv, h.tracker, fun key a ha => ?_, h.inputs⟩
    rcases hsets key with hnone | hsame
    · cases hnone.symm.trans ha
    · exact h.parts key a (hsame.symm.trans ha)

theorem Invariant.run (events : List Event) :
    Invariant captured (events.foldl (EvidencePipeline.step captured checksums) p) := by
  induction events generalizing p with
  | nil => exact h
  | cons event rest ih => exact ih (h.step event)

omit h

def ReplaySound (captured : PacketId → List U8) (limits : Limits) (r : TcpTracker.Replay) : Prop :=
  ∀ d, (r.streams d).Placed ∧ (r.streams d).limits = limits ∧
    ∀ seg ∈ (r.streams d).segments, seg.bytes.Sound captured

section Replay

variable {limits : Limits} {r : TcpTracker.Replay}

theorem feed_sound {s t : StreamAssembler} {segment : TcpSegment}
    (h : TcpTracker.feed s segment = .ok t) (hplaced : s.Placed)
    (hold : ∀ seg ∈ s.segments, seg.bytes.Sound captured)
    (hnew : segment.payload.Sound captured) :
    t.Placed ∧ t.limits = s.limits ∧ ∀ seg ∈ t.segments, seg.bytes.Sound captured := by
  obtain ⟨m, hpush, h⟩ := bind_eq_ok.1 h
  have hm : m.Placed ∧ m.limits = s.limits ∧ ∀ seg ∈ m.segments, seg.bytes.Sound captured := by
    have hop : s.apply (.push segment.dataSequence segment.payload) = .ok m := hpush
    refine ⟨hplaced.apply hop, ?_⟩
    rcases StreamAssembler.push_ok hpush with ⟨-, rfl⟩ | ⟨-, -, start, -, rfl⟩
    · exact ⟨rfl, hold⟩
    · refine ⟨rfl, fun seg hseg => ?_⟩
      rcases List.mem_append.1 hseg with hseg | hseg
      · exact hold seg hseg
      · rw [List.mem_singleton.1 hseg]
        exact hnew
  split_ifs at h with hfin
  · have hop : m.apply (.endAt (segment.dataSequence + BitVec.ofNat 32 segment.payload.len)) =
        .ok t := h
    have hplaced' := hm.1.apply hop
    obtain ⟨rfl, -⟩ := StreamAssembler.endAt_ok h
    exact ⟨hplaced', hm.2⟩
  · cases h
    exact hm

theorem ReplaySound.replayInput (h : ReplaySound captured limits r) {input : Input}
    (hnew : input.segment.payload.Sound captured) :
    ReplaySound captured limits (TcpTracker.replayInput r input) := by
  unfold TcpTracker.replayInput
  split_ifs
  · exact h
  split
  next stream hfeed =>
    obtain ⟨hplaced, hlimits, hold⟩ := h input.direction
    obtain ⟨hplaced', hlimits', hsound⟩ := feed_sound hfeed hplaced hold hnew
    intro d
    by_cases hd : d = input.direction
    · subst hd
      simp only [Function.update_self]
      exact ⟨hplaced', hlimits'.trans hlimits, hsound⟩
    · simp only [Function.update_of_ne hd]
      exact h d
  next => exact h

theorem ReplaySound.foldl (h : ReplaySound captured limits r) (inputs : List Input)
    (hnew : ∀ x ∈ inputs, x.segment.payload.Sound captured) :
    ReplaySound captured limits (inputs.foldl TcpTracker.replayInput r) := by
  induction inputs generalizing r with
  | nil => exact h
  | cons x rest ih =>
    exact ih (h.replayInput (hnew x (by simp))) (fun y hy => hnew y (by simp [hy]))

theorem ReplaySound.closeStream (h : ReplaySound captured limits r) (hl : limits.Valid)
    {overlaps : OverlapPolicy} {d : Fin 2} {result : StreamResult}
    (hclose : (TcpTracker.closeStream r overlaps d).1 = some result) :
    ∀ chunk ∈ result.chunks, chunk.bytes.Valid ∧ chunk.bytes.Sound captured := by
  obtain ⟨hplaced, hlimits, hsound⟩ := h d
  rw [← hlimits] at hl
  unfold TcpTracker.closeStream at hclose
  split_ifs at hclose
  cases hfinish : (r.streams d).finish overlaps with
  | error e => simp [hfinish] at hclose
  | ok out =>
    simp only [hfinish, Option.some.injEq] at hclose
    subst hclose
    by_cases hne : (r.streams d).segments = []
    · rw [StreamAssembler.finish_empty hl hne] at hfinish
      cases hfinish
      intro chunk hchunk
      cases hchunk
    · obtain ⟨-, hfin⟩ := StreamAssembler.finish_ok hfinish hne
      obtain ⟨out', high, hok, -, hcut⟩ := hplaced.finish_spec hl hne hfin overlaps
      obtain rfl : out' = out := Except.ok.inj (hok.symm.trans hfinish)
      intro chunk hchunk
      refine ⟨hcut.valid chunk hchunk, fun v hv => ?_⟩
      obtain ⟨seg, hseg, hmem⟩ := hcut.source chunk hchunk v hv
      exact hsound seg hseg v hmem

end Replay

theorem Invariant.finish (h : Invariant captured p) {overlaps : OverlapPolicy}
    {flows : List FlowResult} (hflows : p.tracker.finish overlaps = .ok flows) :
    ∀ flow ∈ flows, ∀ d result, flow.streams d = some result →
      ∀ chunk ∈ result.chunks, chunk.bytes.Valid ∧ chunk.bytes.Sound captured := by
  cases hflows
  intro flow hflow d result hstream
  obtain ⟨f, hf, rfl⟩ := List.mem_map.1 hflow
  have hstart : ReplaySound captured p.tracker.limits
      (TcpTracker.startReplay p.tracker.limits f) := by
    intro d
    exact ⟨StreamAssembler.placed_new _ h.tracker.limits, rfl, by
      simp [TcpTracker.startReplay, StreamAssembler.new]⟩
  have hreplay : ReplaySound captured p.tracker.limits (TcpTracker.replay p.tracker.limits f) :=
    hstart.foldl f.inputs (h.inputs f hf)
  exact hreplay.closeStream h.tracker.limits hstream

/-- Each byte of each chunk is covered by one span and is the captured byte it points at. -/
theorem reconstruct_evidence_sound {captured : PacketId → List U8} {limits : Limits} {idleNs : ℤ}
    {checksums : ChecksumPolicy} {overlaps : OverlapPolicy} {events : List Event}
    {flows : List FlowResult}
    (h : reconstruct captured limits idleNs checksums overlaps events = .ok flows) :
    ∀ flow ∈ flows, ∀ d result, flow.streams d = some result → ∀ chunk ∈ result.chunks,
      ∀ i < chunk.bytes.data.length, ∃ s b,
        chunk.bytes.spans.filter (fun s => s.Covers i) = [s] ∧ chunk.bytes.data[i]? = some b ∧
          (captured s.packet)[s.packetStart + (i - s.start)]? = some b := by
  obtain ⟨p, hp, h⟩ := bind_eq_ok.1 h
  have hinv : Invariant captured (events.foldl (step captured checksums) p) :=
    (invariant_new hp).run events
  intro flow hflow d result hstream chunk hchunk i hi
  obtain ⟨hvalid, hsound⟩ := hinv.finish h flow hflow d result hstream chunk hchunk
  exact hsound.getElem? hvalid hi

def sampleId (frame : ℕ) : PacketId := ⟨Vector.replicate 32 0, frame, 100 * frame⟩

/-- A TCP segment with four payload bytes, in two IPv4 fragments of raw IP packets. -/
def sampleCaptured (id : PacketId) : List U8 :=
  if id.frame = 1 then
    [0x45, 0, 0, 36, 0, 7, 0x20, 0, 64, 6, 0, 0, 10, 0, 0, 1, 10, 0, 0, 2,
      0x1f, 0x90, 0, 80, 0, 0, 3, 0xe8, 0, 0, 0, 0, 0x50, 0x10, 0xff, 0xff]
  else
    [0x45, 0, 0, 28, 0, 7, 0, 2, 64, 6, 0, 0, 10, 0, 0, 1, 10, 0, 0, 2,
      0, 0, 0, 0, 104, 101, 121, 33]

def sampleEvents : List Event :=
  [.packet ⟨101, sampleId 2, ⟨1, 0, none, []⟩, 2, none⟩,
    .packet ⟨101, sampleId 1, ⟨1, 0, none, []⟩, 1, none⟩]

/-- The last fragment arrives first, and its payload comes out attributed to it. -/
theorem reconstruct_evidence_sound_fragmented : ∃ flows flow result chunk,
    reconstruct sampleCaptured .default 1 .observe .rejectConflict sampleEvents = .ok flows ∧
      flow ∈ flows ∧ flow.streams 0 = some result ∧ chunk ∈ result.chunks ∧
      chunk.bytes.data = [104, 101, 121, 33] ∧
      ∀ i < chunk.bytes.data.length, ∃ s b,
        chunk.bytes.spans.filter (fun s => s.Covers i) = [s] ∧ chunk.bytes.data[i]? = some b ∧
          (sampleCaptured s.packet)[s.packetStart + (i - s.start)]? = some b := by
  have hex : ∃ flows flow result chunk,
      reconstruct sampleCaptured .default 1 .observe .rejectConflict sampleEvents = .ok flows ∧
        flow ∈ flows ∧ flow.streams 0 = some result ∧ chunk ∈ result.chunks ∧
        chunk.bytes.data = [104, 101, 121, 33] :=
    ⟨_, _, _, _, rfl, List.mem_singleton.2 rfl, rfl, List.mem_singleton.2 rfl, rfl⟩
  obtain ⟨flows, flow, result, chunk, h, hflow, hstream, hchunk, hdata⟩ := hex
  exact ⟨flows, flow, result, chunk, h, hflow, hstream, hchunk, hdata,
    reconstruct_evidence_sound h flow hflow 0 result hstream chunk hchunk⟩

end EvidencePipeline
end PcapEvidence
