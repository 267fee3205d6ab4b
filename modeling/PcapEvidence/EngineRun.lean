import PcapEvidence.CaptureStep
import PcapEvidence.EngineRecord

/-!
# Packet conservation over a whole capture

The iterator numbers packets as the engine counts them and every record moves it forward, so the
record loop ends with the ledger intact. At the end of the input the open sets give their packets up;
after that a packet is with a flow exactly when its disposition says so, and none is pending.
-/

namespace PcapEvidence

structure CaptureIter.Walk (it : CaptureIter) : Prop where
  inside : it.position ≤ it.data.length
  legacy : it.decoder.format = some .pcap → it.decoder.legacy.isSome

namespace Engine

open Custody Fragment OrderedMap SortedVec

variable {δ μ τ κ : Type} {it : CaptureIter}

structure Stepped (it : CaptureIter) (record : Record) (it' : CaptureIter) : Prop where
  walk : it'.Walk
  data : it'.data = it.data
  forward : it.position < it'.position
  packet : ∀ metadata data, record.packet = some (metadata, data) →
    metadata.frame = it.decoder.nextFrame ∧ data.length ≤ it.data.length
  nextFrame : it'.decoder.nextFrame = it.decoder.nextFrame + added record

theorem Stepped.of_record {record : Record} {decoder : Decoder} {need : ℕ} (hwalk : it.Walk)
    (hpos : 0 < need) (hneed : need ≤ (it.data.drop it.position).length)
    (hstep : Decoder.RecordStep ((it.data.drop it.position).take need) it.position it.decoder record
      decoder) :
    Stepped it record { it with
      position := it.position + record.raw.length
      decoder := decoder } := by
  have hraw : record.raw.length = need := by
    rw [hstep.raw, List.length_take, min_eq_left hneed]
  rw [List.length_drop] at hneed
  have hinside := hwalk.inside
  refine ⟨⟨?_, hstep.legacy⟩, rfl, ?_, fun metadata data hpacket => ?_, ?_⟩
  · change it.position + record.raw.length ≤ it.data.length
    omega
  · change it.position < it.position + record.raw.length
    omega
  · unfold Record.packet at hpacket
    split at hpacket
    next p hkind =>
      cases hpacket
      refine ⟨(hstep.packet _ hkind).1, ?_⟩
      rw [length_sliceOf]
      omega
    next => cases hpacket
  · change decoder.nextFrame = _
    unfold added Record.packet
    split
    next p hkind => exact (hstep.packet p hkind).2.1
    next hkind => exact hstep.other (fun p hp => hkind p hp)

/-- One call of the iterator. -/
theorem next_spec (hwalk : it.Walk) :
    (∀ e it', it.next = (some (.error e), it') → e.code ≠ .invariant) ∧
      ∀ record it', it.next = (some (.ok record), it') → Stepped it record it' := by
  unfold CaptureIter.next
  split_ifs with hterminal hend
  · exact ⟨by simp, by simp⟩
  · have hnever : NeverInvariant (it.decoder.finish it.position) := Decoder.finish_never
    cases hfinish : it.decoder.finish it.position with
    | ok u => exact ⟨by simp, by simp⟩
    | error e =>
      rw [hfinish, neverInvariant_error_iff] at hnever
      refine ⟨fun e' it' h => ?_, by simp⟩
      cases h
      exact hnever
  · have hspec := @Decoder.decode_spec it.decoder (it.data.drop it.position) it.position hwalk.legacy
    match hdecode : Decoder.decode (it.data.drop it.position) it.position it.decoder with
    | (.error e, decoder) =>
      obtain ⟨-, hcode⟩ := hspec.of_error hdecode
      refine ⟨fun e' it' h => ?_, by simp⟩
      cases h
      exact hcode
    | (.ok (.needMore need), decoder) =>
      refine ⟨fun e' it' h => ?_, by simp⟩
      cases h
      simp
    | (.ok (.record record), decoder) =>
      obtain ⟨need, hout, -⟩ | ⟨record', need, hout, hpos, hneed, hstep⟩ := hspec.of_ok hdecode
      · cases hout
      · cases hout
        refine ⟨by simp, fun record'' it' h => ?_⟩
        cases h
        exact .of_record hwalk hpos hneed hstep

theorem new_walk {data : List U8} {limits : Limits} {mode : ParseMode}
    (h : CaptureIter.new data limits mode = .ok it) :
    it.Walk ∧ it.data = data ∧ it.position = 0 ∧ it.decoder.nextFrame = 1 := by
  unfold CaptureIter.new at h
  split_ifs at h
  obtain ⟨decoder, hdecoder, h⟩ := bind_eq_ok.1 h
  obtain ⟨⟨⟩, -, hdecoder⟩ := bind_eq_ok.1 hdecoder
  cases hdecoder
  cases h
  exact ⟨⟨Nat.zero_le _, by simp⟩, rfl, rfl, rfl⟩

theorem analyzeRecords_ledger (A : Analyzers δ μ τ κ) (config : Config) (identity : Vector U8 32)
    (fuel : ℕ) {s : State δ} (hwalk : it.Walk) (hword : it.data.length < wordBound)
    (hfuel : it.data.length - it.position < fuel) (h : Ledger s)
    (hframe : it.decoder.nextFrame = s.packets.length + 1) :
    Yields (analyzeRecords A config identity fuel it s) Ledger := by
  induction fuel generalizing it s with
  | zero => omega
  | succ fuel ih =>
    obtain ⟨herror, hrecord⟩ := next_spec hwalk
    rw [analyzeRecords]
    match hnext : it.next with
    | (none, it') => exact yields_ok h
    | (some (.error e), it') => exact yields_error (herror e it' hnext)
    | (some (.ok record), it') =>
      have hstep := hrecord record it' hnext
      have hlen : it'.data.length = it.data.length := congrArg List.length hstep.data
      have hforward := hstep.forward
      have hinside := hstep.walk.inside
      have hone : Yields (analyzeRecord A config identity s record) _ :=
        h.analyzeRecord A config identity record (fun metadata data hpacket => by
          obtain ⟨hnumber, hsize⟩ := hstep.packet metadata data hpacket
          exact ⟨hnumber.trans hframe, by omega⟩)
      refine hone.bind (fun t _ ht => ?_)
      -- the rest of the loop starts from an intact ledger, further on in the input
      refine ih hstep.walk (by omega) (by omega) ht.1 ?_
      rw [hstep.nextFrame, hframe, ht.2]
      omega

/-- The state at the end: everything is decided, and the flows hold what was decided for them. -/
structure Settled (s : State δ) : Prop where
  numbered : Numbered s.packets
  tracker : TcpTracker.Invariant s.tracker
  terminal : ∀ p ∈ s.packets, p.disposition ≠ .pending ∧ p.disposition ≠ .fragmentPending
  assigned : ∀ p ∈ s.packets, ∀ i, (∃ e, p.disposition = .tcp i e) ↔ Held s p.id (.flow i)

theorem mem_finish_iff (s : State δ) (id : PacketId) :
    id ∈ s.fragments.finish.flatMap (·.packets) ↔ ∃ key, Held s id (.set key) := by
  simp only [FragmentReassembler.finish, OrdMap.values, List.map_map, List.mem_flatMap,
    List.mem_map, Held, OrdMap.get?_eq_some_iff]
  constructor
  · rintro ⟨notice, ⟨⟨key, a⟩, ha, rfl⟩, hid⟩
    exact ⟨key, a, ha, hid⟩
  · rintro ⟨key, a, ha, hid⟩
    exact ⟨_, ⟨(key, a), ha, rfl⟩, hid⟩

theorem Ledger.settled_packet {s : State δ} (h : Ledger s) {p q : PacketObservation}
    (hp : p ∈ s.packets)
    (hin : p.id ∈ s.fragments.finish.flatMap (·.packets) → Incomplete q.disposition)
    (hout : p.id ∉ s.fragments.finish.flatMap (·.packets) → q.disposition = p.disposition) :
    (q.disposition ≠ .pending ∧ q.disposition ≠ .fragmentPending) ∧
      ∀ i, (∃ e, q.disposition = .tcp i e) ↔ Held s p.id (.flow i) := by
  by_cases hset : ∃ key, Held s p.id (.set key)
  · obtain ⟨reason, hreason⟩ := hin ((mem_finish_iff s p.id).2 hset)
    obtain ⟨key, hkey⟩ := hset
    rw [hreason]
    refine ⟨⟨by simp, by simp⟩, fun i => ⟨by simp, fun hflow => ?_⟩⟩
    cases h.exclusive p.id _ _ hkey hflow
  · rw [hout (fun hmem => hset ((mem_finish_iff s p.id).1 hmem))]
    obtain ⟨holder, hfits, hiff⟩ := h.fits p hp
    match holder with
    | none =>
      obtain ⟨hpending, hfragment, htcp⟩ := hfits
      refine ⟨⟨hpending, hfragment⟩, fun i => ?_⟩
      rw [hiff]
      simp [htcp]
    | some (.set key) => exact absurd ⟨key, (hiff _).2 rfl⟩ hset
    | some (.flow j) =>
      obtain ⟨e, he⟩ := hfits
      rw [he]
      refine ⟨⟨by simp, by simp⟩, fun i => ?_⟩
      rw [hiff]
      simp

theorem Ledger.finish {s : State δ} (h : Ledger s) :
    ∃ t, s.fragments.finish.foldlM noteFragment s = .ok t ∧ Settled t := by
  obtain ⟨t, ht, hfragments, htracker, hrelabel⟩ := noteFragments_ok s.fragments.finish h.numbered
    (fun notice hnotice id hid => by
      have hmem := List.mem_flatMap.2 ⟨notice, hnotice, hid⟩
      obtain ⟨key, hkey⟩ := (mem_finish_iff s id).1 hmem
      exact h.known id _ hkey)
  have hpacket (q : PacketObservation) (hq : q ∈ t.packets) :
      (q.disposition ≠ .pending ∧ q.disposition ≠ .fragmentPending) ∧
        ∀ i, (∃ e, q.disposition = .tcp i e) ↔ Held t q.id (.flow i) := by
    obtain ⟨i, hi⟩ := List.mem_iff_getElem?.1 hq
    obtain ⟨p, hp, hid, -, hin, hout⟩ := hrelabel.same i q hi
    rw [held_congr hfragments htracker, hid]
    exact h.settled_packet (List.mem_of_getElem? hp) hin hout
  exact ⟨t, ht, hrelabel.numbered h.numbered, by rw [htracker]; exact h.tracker,
    fun q hq => (hpacket q hq).1, fun q hq => (hpacket q hq).2⟩

structure Conserved (packets : List PacketObservation) (flows : List FlowResult) : Prop where
  numbered : ∀ (i : ℕ) (p : PacketObservation), packets[i]? = some p → p.metadata.frame = i + 1
  terminal : ∀ p ∈ packets, p.disposition ≠ .pending ∧ p.disposition ≠ .fragmentPending
  assigned : ∀ p ∈ packets, ∀ i, (∃ direction, p.disposition = .tcp i direction) ↔
    ∃ flow ∈ flows, flow.id = i ∧ p.id ∈ flow.packets

theorem held_flow_iff {s : State δ} (h : TcpTracker.Invariant s.tracker) (policy : OverlapPolicy)
    (id : PacketId) (i : ℕ) :
    Held s id (.flow i) ↔
      ∃ flow ∈ s.tracker.flows.map (TcpTracker.finishFlow s.tracker.limits policy),
        flow.id = i ∧ id ∈ flow.packets := by
  constructor
  · rintro ⟨f, hf, hid⟩
    refine ⟨_, List.mem_map.2 ⟨f, List.mem_of_getElem? hf, rfl⟩, h.ids i f hf, ?_⟩
    exact (mem_sortDedup _ _).2 hid
  · rintro ⟨flow, hflow, hi, hid⟩
    obtain ⟨f, hf, rfl⟩ := List.mem_map.1 hflow
    obtain ⟨j, hj⟩ := List.mem_iff_getElem?.1 hf
    obtain rfl : j = i := (h.ids j f hj).symm.trans hi
    exact ⟨f, hj, (mem_sortDedup _ _).1 hid⟩

theorem analyzeFlows_ok (A : Analyzers δ μ τ κ) (config : Config) (flows : List FlowResult) :
    ∃ applications, analyzeFlows A config flows = .ok applications := by
  induction flows with
  | nil => exact ⟨[], rfl⟩
  | cons flow rest ih =>
    obtain ⟨selection, hselection⟩ := Detection.classifyFlow_ok flow config
    obtain ⟨later, hlater⟩ := ih
    rw [analyzeFlows, hselection, hlater]
    exact ⟨_, rfl⟩

theorem Settled.report {s : State δ} (h : Settled s) (A : Analyzers δ μ τ κ) (config : Config)
    (identity : Vector U8 32) (input : List U8) :
    ∃ a, report A config identity input s = .ok a ∧ Conserved a.packets a.flows := by
  have hterminal : s.packets.any (fun p => nonterminal p.disposition) = false := by
    rw [List.any_eq_false]
    intro p hp
    obtain ⟨hpending, hfragment⟩ := h.terminal p hp
    simp [nonterminal, hpending, hfragment]
  obtain ⟨applications, happlications⟩ := analyzeFlows_ok A config
    (s.tracker.flows.map (TcpTracker.finishFlow s.tracker.limits config.overlapPolicy))
  unfold Engine.report
  rw [if_neg (by rw [hterminal]; simp), TcpTracker.finish]
  simp only [bind, Except.bind, happlications]
  refine ⟨_, rfl, fun i p hp => (h.numbered i p hp).1, h.terminal, fun p hp i => ?_⟩
  rw [h.assigned p hp i]
  exact held_flow_iff h.tracker config.overlapPolicy p.id i

theorem ledger_initial {limits : Limits} {idleNs : ℤ} {tracker : TcpTracker}
    (h : TcpTracker.new limits idleNs = .ok tracker) :
    Ledger (⟨FragmentReassembler.new limits, tracker, [], [], [], 0, 0, 0, 0⟩ : State δ) := by
  have hfree (id : PacketId) (holder : Holder) : ¬ Held
      (⟨FragmentReassembler.new limits, tracker, [], [], [], 0, 0, 0, 0⟩ : State δ) id holder := by
    obtain ⟨-, -, rfl⟩ := TcpTracker.new_ok h
    cases holder with
    | set key =>
      rintro ⟨a, ha, -⟩
      cases ha
    | flow i =>
      rintro ⟨f, hf, -⟩
      cases hf
  constructor
  · intro i p hp
    cases hp
  · exact FragmentReassembler.invariant_new limits
  · exact TcpTracker.invariant_new h
  · exact fun id holder hheld => absurd hheld (hfree id holder)
  · exact fun id holder _ hheld => absurd hheld (hfree id holder)
  · intro p hp
    cases hp

/-- The analysis never reports a broken invariant, and what it returns conserves packets. -/
theorem analyze_conserves (A : Analyzers δ μ τ κ) (input : List U8) (config : Config)
    (hword : input.length < wordBound) :
    NeverInvariant (analyze A input config) ∧
      ∀ a, analyze A input config = .ok a → Conserved a.packets a.flows := by
  have hlimits : NeverInvariant config.limits.validate := fun e he => Limits.validate_error_code he
  change Yields (analyze A input config) (fun a => Conserved a.packets a.flows)
  unfold analyze
  refine Yields.bind (P := fun _ => True) ⟨config.validate_never, fun _ _ => trivial⟩ ?_
  intro _ _ _
  split_ifs
  · exact yields_error (by simp)
  refine Yields.bind (P := fun _ => True) ⟨by simp [TcpTracker.new, hlimits], fun _ _ => trivial⟩ ?_
  intro tracker htracker _
  refine Yields.bind (P := fun _ => True)
    ⟨by simp [CaptureIter.new, Decoder.new, hlimits], fun _ _ => trivial⟩ ?_
  intro it hit _
  obtain ⟨hwalk, hdata, hposition, hframe⟩ := new_walk hit
  refine (analyzeRecords_ledger A config (A.digest input) (input.length + 1) hwalk
    (by rwa [hdata]) (by rw [hdata]; omega) (ledger_initial htracker) hframe).bind ?_
  intro s _ hledger
  obtain ⟨t, ht, hsettled⟩ := hledger.finish
  obtain ⟨a, ha, hconserved⟩ := hsettled.report A config (A.digest input) input
  rw [ht]
  change Yields (report A config (A.digest input) input t) _
  rw [ha]
  exact yields_ok hconserved

/-- A classic capture of raw IP packets: a TCP segment in two fragments. -/
def sampleInput : List U8 :=
  [0xd4, 0xc3, 0xb2, 0xa1, 2, 0, 4, 0, 0, 0, 0, 0, 0, 0, 0, 0, 0xff, 0xff, 0, 0, 101, 0, 0, 0,
    10, 0, 0, 0, 0, 0, 0, 0, 36, 0, 0, 0, 36, 0, 0, 0,
    0x45, 0, 0, 36, 0, 7, 0x20, 0, 64, 6, 0, 0, 10, 0, 0, 1, 10, 0, 0, 2,
    0x1f, 0x90, 0, 80, 0, 0, 3, 0xe8, 0, 0, 0, 0, 0x50, 0x10, 0xff, 0xff,
    11, 0, 0, 0, 0, 0, 0, 0, 28, 0, 0, 0, 28, 0, 0, 0,
    0x45, 0, 0, 28, 0, 7, 0, 2, 64, 6, 0, 0, 10, 0, 0, 1, 10, 0, 0, 2,
    0, 0, 0, 0, 104, 101, 121, 33]

/-- The sample selects no protocol, so the decoders are not called. -/
def sampleAnalyzers : Analyzers Unit Unit Unit Unit where
  digest data :=
    if data.length = 120 then
      #v[10, 18, 18, 173, 104, 187, 162, 171, 118, 253, 40, 235, 174, 217, 107, 191, 133, 24, 193,
        89, 142, 44, 29, 143, 87, 143, 96, 215, 194, 194, 30, 27]
    else if data.length = 36 then
      #v[10, 189, 93, 160, 24, 209, 154, 193, 162, 73, 108, 49, 137, 110, 0, 38, 201, 17, 21, 153,
        165, 115, 20, 83, 147, 123, 127, 242, 176, 216, 217, 123]
    else
      #v[64, 134, 132, 106, 137, 92, 5, 161, 70, 122, 145, 213, 56, 163, 201, 63, 244, 199, 127, 166,
        110, 22, 25, 70, 122, 24, 143, 223, 40, 229, 208, 30]
  dnp3Decode _ _ := .ok ()
  modbusDecode _ _ _ := .ok ()
  transactions _ _ := .ok []
  confirmationCandidates _ _ := .ok []

set_option maxRecDepth 1000 in
/-- Both fragments end up with the flow of the segment they make up. -/
theorem analyze_conserves_fragmented : ∃ a, analyze sampleAnalyzers sampleInput .default = .ok a ∧
    a.packets.map (·.disposition) = [.tcp 0 0, .tcp 0 0] ∧ Conserved a.packets a.flows := by
  have hex : ∃ a, analyze sampleAnalyzers sampleInput .default = .ok a ∧
      a.packets.map (·.disposition) = [.tcp 0 0, .tcp 0 0] := ⟨_, rfl, rfl⟩
  obtain ⟨a, ha, hdispositions⟩ := hex
  exact ⟨a, ha, hdispositions,
    (analyze_conserves sampleAnalyzers sampleInput .default (by decide)).2 a ha⟩

end Engine
end PcapEvidence
