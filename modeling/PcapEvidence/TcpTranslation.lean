import PcapEvidence.TcpGenerations
import PcapEvidence.StreamTranslation

/-!
# Translating the sequence spaces of a tracker

Each direction has its own constant: it is added to the sequence numbers of that direction and to the
acknowledgement numbers of the other. The shifted tracker takes every decision of the original one,
so outcomes agree, and the reconstructed flows agree up to the recorded SYN and base numbers.
-/

namespace PcapEvidence

open SortedVec OrderedMap

/-- One constant for each direction. -/
abbrev Shift := Fin 2 → U32

def TcpSegment.shift (k : Shift) (d : Fin 2) (s : TcpSegment) : TcpSegment :=
  { s with sequence := s.sequence + k d, acknowledgement := s.acknowledgement + k (1 - d) }

theorem TcpSegment.dataSequence_shift (k : Shift) (d : Fin 2) (s : TcpSegment) :
    (s.shift k d).dataSequence = s.dataSequence + k d := by
  change s.sequence + k d + (if s.syn then 1 else 0) = s.sequence + (if s.syn then 1 else 0) + k d
  ring

def Input.shift (k : Shift) (x : Input) : Input :=
  { x with segment := x.segment.shift k x.direction }

def shiftEach (k : Shift) (xs : Fin 2 → Option U32) : Fin 2 → Option U32 :=
  fun d => (xs d).map (· + k d)

theorem shiftEach_update (k : Shift) (xs : Fin 2 → Option U32) (d : Fin 2) (x : U32) :
    shiftEach k (Function.update xs d (some x)) =
      Function.update (shiftEach k xs) d (some (x + k d)) := by
  funext e
  by_cases he : e = d
  · subst he
    simp [shiftEach]
  · simp [shiftEach, he]

namespace Flow

def shift (k : Shift) (f : Flow) : Flow := { f with
  syn := shiftEach k f.syn
  anchors := shiftEach k f.anchors
  finNext := shiftEach k f.finNext
  inputs := f.inputs.map (Input.shift k) }

variable (k : Shift) (f : Flow) (d : Fin 2) (segment : TcpSegment)

theorem isFinalAck_shift :
    (f.shift k).isFinalAck d (segment.shift k d) = f.isFinalAck d segment := by
  unfold isFinalAck
  change (if (f.rstSeen || !f.fin 0 || !f.fin 1 || segment.syn || segment.fin || segment.rst ||
    !segment.ack || !segment.payload.isEmpty) = true then _ else _) = _
  split_ifs with hno
  · rfl
  · simp only [shift, shiftEach]
    cases f.finNext d with
    | none => rfl
    | some own =>
      cases f.finNext (1 - d) with
      | none => rfl
      | some peer =>
        simp only [Option.map_some, TcpSegment.dataSequence_shift]
        simp [TcpSegment.shift]

theorem sequence_shift :
    (f.shift k).sequence d (segment.shift k d) = (f.sequence d segment).shift k := by
  have hsyn : (if segment.syn then Function.update (shiftEach k f.syn) d
      (some (segment.sequence + k d)) else shiftEach k f.syn) = shiftEach k
        (if segment.syn then Function.update f.syn d (some segment.sequence) else f.syn) := by
    split_ifs
    · rw [shiftEach_update]
    · rfl
  have hanchors : Function.update (shiftEach k f.anchors) d
      (some ((shiftEach k f.anchors d).getD (segment.dataSequence + k d))) = shiftEach k
        (Function.update f.anchors d (some ((f.anchors d).getD segment.dataSequence))) := by
    rw [shiftEach_update]
    cases h : f.anchors d <;> simp [shiftEach, h]
  have hafter : afterFin (segment.shift k d) = afterFin segment + k d := by
    unfold afterFin
    rw [TcpSegment.dataSequence_shift]
    change segment.dataSequence + k d + BitVec.ofNat 32 segment.payload.len + 1 = _
    ring
  have hnext : (if segment.fin then Function.update (shiftEach k f.finNext) d
      (some ((shiftEach k f.finNext d).getD (afterFin segment + k d))) else shiftEach k f.finNext) =
        shiftEach k (if segment.fin then Function.update f.finNext d
          (some ((f.finNext d).getD (afterFin segment))) else f.finNext) := by
    split_ifs
    · rw [shiftEach_update]
      cases h : f.finNext d <;> simp [shiftEach, h]
    · rfl
  unfold sequence
  rw [hafter, TcpSegment.dataSequence_shift]
  simp only [shift, ← hsyn, ← hanchors, ← hnext]
  rfl

theorem note_shift (when : Option ℤ) : (f.shift k).note when = (f.note when).shift k := by
  cases when <;> rfl

theorem accept_shift (packets : List PacketId) (when : Option ℤ) :
    (f.shift k).accept d packets when (segment.shift k d) =
      (f.accept d packets when segment).shift k := by
  unfold accept
  rw [sequence_shift, note_shift]
  simp only [settle, shift, List.map_append]
  rfl

end Flow

namespace TcpTracker

def shift (k : Shift) (t : TcpTracker) : TcpTracker := { t with flows := t.flows.map (Flow.shift k) }

def Call.shift (k : Shift) (c : Call) : Call :=
  { c with segment := c.segment.shift k c.direction }

section Select

variable (k : Shift) (t : TcpTracker) (d : Fin 2) (when : Option ℤ) (segment : TcpSegment)

theorem flowAt_shift (id : ℕ) : (t.shift k).flowAt id = (t.flowAt id).shift k := by
  simp only [flowAt, shift, List.getD_eq_getElem?_getD, List.getElem?_map]
  cases t.flows[id]? <;> rfl

theorem near_shift (x y j : U32) : (t.shift k).near (x + j) (y + j) = t.near x y := by
  unfold near
  rw [sequenceDelta_shift]
  rfl

theorem plausibleSegment_shift (f : Flow) :
    (t.shift k).plausibleSegment (f.shift k) d (segment.shift k d) = t.plausibleSegment f d segment := by
  unfold plausibleSegment
  have hanchor (e : Fin 2) : (f.shift k).anchors e = (f.anchors e).map (· + k e) := rfl
  rw [hanchor, hanchor, TcpSegment.dataSequence_shift]
  cases f.anchors d with
  | some anchor => exact near_shift k t _ _ _
  | none =>
    change (if segment.ack then _ else _) = _
    split_ifs
    · cases f.anchors (1 - d) with
      | some anchor => exact near_shift k t _ _ _
      | none => rfl
    · rfl

theorem sameSyn_shift (history : List ℕ) :
    (t.shift k).sameSyn history d when (segment.shift k d) = t.sameSyn history d when segment := by
  unfold sameSyn
  congr 1
  funext id
  rw [flowAt_shift]
  change (!(t.flowAt id).closed && t.activeAt (t.flowAt id) when &&
    decide (((t.flowAt id).syn d).map (· + k d) = some (segment.sequence + k d))) = _
  cases (t.flowAt id).syn d <;> simp

theorem simultaneous_shift (history : List ℕ) :
    (t.shift k).simultaneous history d when = t.simultaneous history d when := by
  unfold simultaneous
  congr 1
  funext id
  rw [flowAt_shift]
  simp only [Flow.shift, shiftEach, Option.isNone_map, Option.isSome_map]
  rfl

theorem selectAmong_shift (history : List ℕ) :
    (t.shift k).selectAmong history d when (segment.shift k d) =
      t.selectAmong history d when segment := by
  unfold selectAmong possible
  simp only [flowAt_shift, plausibleSegment_shift, Flow.isFinalAck_shift]
  rfl

theorem select_shift (key : FlowKey) :
    (t.shift k).select key d when (segment.shift k d) = t.select key d when segment := by
  unfold select
  rw [sameSyn_shift, simultaneous_shift, selectAmong_shift]
  rfl

end Select

section Ingest

variable (k : Shift) (t : TcpTracker)

/-- The outcome of a call together with the shifted state it leaves. -/
def shiftOut (out : Result Assignment × TcpTracker) : Result Assignment × TcpTracker :=
  (out.1, out.2.shift k)

theorem record_shift (id : ℕ) (d : Fin 2) (packets : List PacketId) (when : Option ℤ)
    (segment : TcpSegment) (retained : ℕ) :
    (t.shift k).record id d packets when (segment.shift k d) retained =
      shiftOut k (t.record id d packets when segment retained) := by
  unfold record
  dsimp only
  rw [flowAt_shift, Flow.accept_shift]
  have hlen : ((t.flowAt id).shift k).inputs.length = (t.flowAt id).inputs.length :=
    List.length_map _
  have hsyn : (((t.flowAt id).shift k).syn d).any (· ≠ (segment.shift k d).sequence) =
      ((t.flowAt id).syn d).any (· ≠ segment.sequence) := by
    change (((t.flowAt id).syn d).map (· + k d)).any (· ≠ segment.sequence + k d) = _
    cases (t.flowAt id).syn d <;> simp
  have hset : (t.shift k).flows.set id (((t.flowAt id).accept d packets when segment).shift k) =
      (t.flows.set id ((t.flowAt id).accept d packets when segment)).map (Flow.shift k) :=
    List.map_set.symm
  have hflag : (segment.shift k d).syn = segment.syn := rfl
  have hlimits : (t.shift k).limits = t.limits := rfl
  rw [hlen, hsyn, hset, hflag, hlimits]
  by_cases hfull : (t.flowAt id).inputs.length ≥ t.limits.maxSegmentsPerFlow
  · rw [if_pos hfull, if_pos hfull]
    rfl
  rw [if_neg hfull, if_neg hfull]
  by_cases hclash : segment.syn = true ∧
      ((t.flowAt id).syn d).any (· ≠ segment.sequence) = true
  · rw [if_pos hclash, if_pos hclash]
    rfl
  · rw [if_neg hclash, if_neg hclash]
    rfl

theorem create_shift (key : FlowKey) (midstream : Bool) :
    (t.shift k).create key midstream =
      (t.create key midstream).map (fun out => (out.1, out.2.shift k)) := by
  unfold create
  have hlen : (t.shift k).flows.length = t.flows.length := List.length_map _
  rw [hlen]
  change (if t.flows.length ≥ t.limits.maxFlows then _ else _) = _
  split_ifs
  · rfl
  · simp only [Except.map, shift, List.map_append]
    rfl

theorem commit_shift (selection : Selection) (key : FlowKey) (d : Fin 2) (packets : List PacketId)
    (when : Option ℤ) (segment : TcpSegment) (retained : ℕ) :
    (t.shift k).commit selection key d packets when (segment.shift k d) retained =
      shiftOut k (t.commit selection key d packets when segment retained) := by
  unfold commit
  cases selection with
  | existing id => exact record_shift k t id d packets when segment retained
  | fresh midstream =>
    dsimp only
    rw [create_shift]
    cases t.create key midstream with
    | error e => rfl
    | ok out => exact record_shift k out.2 out.1 d packets when segment retained
  | ambiguous candidates => rfl
  | unassigned reason => rfl

theorem apply_shift (c : Call) : (t.shift k).apply (c.shift k) = shiftOut k (t.apply c) := by
  have hpackets : (c.shift k).packets = c.packets := rfl
  have hretained : (t.shift k).retained = t.retained := rfl
  have hpayload : (c.shift k).segment.payload = c.segment.payload := rfl
  unfold apply ingestWithPackets
  rw [hpackets, hretained, hpayload]
  by_cases hp : c.packets = []
  · rw [if_pos hp, if_pos hp]
    rfl
  rw [if_neg hp, if_neg hp]
  cases checkedAdd t.retained c.segment.payload.len with
  | none => rfl
  | some retained =>
    dsimp only
    change (if retained > t.limits.maxRetainedPayload then _ else
      (t.shift k).commit ((t.shift k).select c.key c.direction c.when
        (c.segment.shift k c.direction)) c.key c.direction c.packets c.when
          (c.segment.shift k c.direction) retained) = _
    rw [select_shift, commit_shift]
    split_ifs <;> rfl

theorem outcomes_shift (calls : List Call) :
    (t.shift k).outcomes (calls.map (Call.shift k)) = t.outcomes calls ∧
      (t.shift k).run (calls.map (Call.shift k)) = (t.run calls).shift k := by
  induction calls generalizing t with
  | nil => exact ⟨rfl, rfl⟩
  | cons c rest ih =>
    have happly := apply_shift k t c
    obtain ⟨hout, hrun⟩ := ih (t.apply c).2
    constructor
    · rw [List.map_cons, outcomes, outcomes, happly]
      exact congrArg _ hout
    · rw [List.map_cons, run, List.foldl_cons, happly]
      exact hrun

end Ingest

section Finish

variable (k : Shift)

theorem feed_shift (stream : StreamAssembler) (d : Fin 2) (segment : TcpSegment) :
    feed (stream.shift (k d)) (segment.shift k d) =
      (feed stream segment).map (StreamAssembler.shift (k d)) := by
  unfold feed
  rw [TcpSegment.dataSequence_shift]
  change (StreamAssembler.push _ _ segment.payload >>= fun stream =>
    if segment.fin then stream.endAt (segment.dataSequence + k d +
      BitVec.ofNat 32 segment.payload.len) else _) = _
  rw [StreamAssembler.push_shift]
  cases stream.push segment.dataSequence segment.payload with
  | error e => rfl
  | ok pushed =>
    have hend : segment.dataSequence + k d + BitVec.ofNat 32 segment.payload.len =
        segment.dataSequence + BitVec.ofNat 32 segment.payload.len + k d := by ring
    simp only [Except.map, bind, Except.bind, hend]
    split_ifs
    · exact StreamAssembler.endAt_shift (k d) pushed _
    · rfl

def Replay.shift (r : Replay) : Replay :=
  { r with streams := fun d => (r.streams d).shift (k d) }

theorem replayInput_shift (r : Replay) (x : Input) :
    replayInput (r.shift k) (x.shift k) = (replayInput r x).shift k := by
  have hinvalid : (r.shift k).invalid (x.shift k).direction = r.invalid x.direction := rfl
  have hfeed : feed ((r.shift k).streams (x.shift k).direction) (x.shift k).segment =
      (feed (r.streams x.direction) x.segment).map (StreamAssembler.shift (k x.direction)) :=
    feed_shift k _ _ _
  unfold replayInput
  rw [hinvalid, hfeed]
  split_ifs
  · rfl
  · cases feed (r.streams x.direction) x.segment with
    | error e => rfl
    | ok stream =>
      simp only [Except.map, Replay.shift, Input.shift]
      congr 1
      funext d
      by_cases hd : d = x.direction
      · subst hd
        simp
      · simp [hd]

theorem replay_shift (limits : Limits) (f : Flow) :
    replay limits (f.shift k) = (replay limits f).shift k := by
  have hstart : startReplay limits (f.shift k) = (startReplay limits f).shift k := by
    simp only [startReplay, Replay.shift, Flow.shift, shiftEach, StreamAssembler.new_shift]
  have hfold (inputs : List Input) (r : Replay) :
      (inputs.map (Input.shift k)).foldl replayInput (r.shift k) =
        (inputs.foldl replayInput r).shift k := by
    induction inputs generalizing r with
    | nil => rfl
    | cons x rest ih =>
      rw [List.map_cons, List.foldl_cons, List.foldl_cons, replayInput_shift, ih]
  rw [replay, hstart]
  exact hfold f.inputs _

theorem closeStream_shift (r : Replay) (policy : OverlapPolicy) (d : Fin 2) :
    closeStream (r.shift k) policy d =
      ((closeStream r policy d).1.map (StreamResult.shift (k d)), (closeStream r policy d).2) := by
  have hinvalid : (r.shift k).invalid d = r.invalid d := rfl
  have hfinish : ((r.shift k).streams d).finish policy =
      ((r.streams d).finish policy).map (StreamResult.shift (k d)) :=
    StreamAssembler.finish_shift _ _ policy
  unfold closeStream
  rw [hinvalid, hfinish]
  split_ifs
  · rfl
  · cases (r.streams d).finish policy <;> rfl

end Finish

end TcpTracker

def FlowResult.shift (k : Shift) (r : FlowResult) : FlowResult := { r with
  syn := shiftEach k r.syn
  streams := fun d => (r.streams d).map (StreamResult.shift (k d)) }

namespace TcpTracker

theorem finishFlow_shift (k : Shift) (limits : Limits) (policy : OverlapPolicy) (f : Flow) :
    finishFlow limits policy (f.shift k) = (finishFlow limits policy f).shift k := by
  unfold finishFlow
  simp only [replay_shift, closeStream_shift, FlowResult.shift]
  rfl

/-- Under a shift of both sequence spaces the outcomes are the same, and the flows but for bases. -/
theorem translation_invariant (k : Shift) {limits : Limits} {idleNs : ℤ} {start : TcpTracker}
    (hnew : new limits idleNs = .ok start) (calls : List Call) (policy : OverlapPolicy) :
    start.outcomes (calls.map (Call.shift k)) = start.outcomes calls ∧
    ∃ flows, (start.run calls).finish policy = .ok flows ∧
      (start.run (calls.map (Call.shift k))).finish policy =
        .ok (flows.map (FlowResult.shift k)) := by
  obtain ⟨-, -, rfl⟩ := new_ok hnew
  obtain ⟨hout, hrun⟩ := outcomes_shift k ⟨.empty, [], 0, limits, idleNs⟩ calls
  refine ⟨hout, _, rfl, ?_⟩
  change (run (shift k ⟨.empty, [], 0, limits, idleNs⟩) _).finish policy = _
  rw [hrun]
  simp only [finish, shift, List.map_map]
  congr 1
  apply List.map_congr_left
  intro f _
  exact finishFlow_shift k _ policy f

/-- A handshake whose numbers are moved across the end of the sequence space. -/
theorem translation_invariant_wrap :
    sampleTracker.outcomes (sampleReset.map (Call.shift ![0xffffff00, 0x80000000])) =
      sampleTracker.outcomes sampleReset :=
  (translation_invariant ![0xffffff00, 0x80000000] sampleTracker_new sampleReset
    .rejectConflict).1

end TcpTracker
end PcapEvidence
