import PcapEvidence.TcpTracker
import Mathlib.Data.String.Basic

/-!
# Reconstruction of the tracked flows

`finish` replays the recorded inputs of every flow into one stream assembler for each direction. A
direction whose assembler refuses an input is given up: its later inputs are skipped and it yields
no stream, only the error.
-/

namespace PcapEvidence.TcpTracker

open SortedVec

structure Replay where
  streams : Fin 2 → StreamAssembler
  invalid : Fin 2 → Bool
  errors : List Error

def startReplay (limits : Limits) (flow : Flow) : Replay where
  streams := fun d => StreamAssembler.new (flow.syn d) limits
  invalid := fun _ => false
  errors := []

def feed (stream : StreamAssembler) (segment : TcpSegment) : Result StreamAssembler := do
  let stream ← stream.push segment.dataSequence segment.payload
  if segment.fin then
    stream.endAt (segment.dataSequence + BitVec.ofNat 32 segment.payload.len)
  else .ok stream

def replayInput (r : Replay) (input : Input) : Replay :=
  if r.invalid input.direction then r
  else match feed (r.streams input.direction) input.segment with
    | .ok stream => { r with streams := Function.update r.streams input.direction stream }
    | .error e => { r with
        invalid := Function.update r.invalid input.direction true
        errors := r.errors ++ [e] }

/-- The outcome of one direction: a stream, an error, or neither when it was given up before. -/
def closeStream (r : Replay) (policy : OverlapPolicy) (d : Fin 2) :
    Option StreamResult × List Error :=
  if r.invalid d then (none, [])
  else match (r.streams d).finish policy with
    | .ok result => (some result, [])
    | .error e => (none, [e])

def replay (limits : Limits) (flow : Flow) : Replay :=
  flow.inputs.foldl replayInput (startReplay limits flow)

def finishFlow (limits : Limits) (policy : OverlapPolicy) (flow : Flow) : FlowResult :=
  let r := replay limits flow
  { id := flow.id
    generation := flow.generation
    key := flow.key
    syn := flow.syn
    closed := flow.closed
    midstream := flow.midstream
    firstNs := flow.firstNs
    lastNs := flow.lastNs
    packets := sortDedup flow.packets
    streams := fun d => (closeStream r policy d).1
    reconstructionErrors := r.errors ++ (closeStream r policy 0).2 ++ (closeStream r policy 1).2
    anomalies := sortDedup flow.anomalies }

def finish (t : TcpTracker) (policy : OverlapPolicy) : Result (List FlowResult) :=
  .ok (t.flows.map (finishFlow t.limits policy))

structure Call where
  scope : Scope
  packets : List PacketId
  when : Option ℤ
  segment : TcpSegment

def apply (t : TcpTracker) (c : Call) : Result Assignment × TcpTracker :=
  t.ingestWithPackets c.scope c.packets c.when c.segment

def run (t : TcpTracker) (calls : List Call) : TcpTracker :=
  calls.foldl (fun t c => (t.apply c).2) t

def outcomes : TcpTracker → List Call → List (Result Assignment)
  | _, [] => []
  | t, c :: rest => (t.apply c).1 :: outcomes (t.apply c).2 rest

def Reachable (t : TcpTracker) : Prop :=
  ∃ limits idleNs start calls, new limits idleNs = .ok start ∧ t = start.run calls

end PcapEvidence.TcpTracker

/-!
## What one ingested segment can do

In a state with consistent bookkeeping a call either leaves the tracker alone or records the segment
in exactly one flow: an existing one that is open or expects this very acknowledgement, or a new
generation. A new generation is created before the last two checks of the source run; on a fresh
flow these checks cannot fail.
-/

namespace PcapEvidence.TcpTracker

open OrderedMap

def inputBytes (f : Flow) : ℕ := (f.inputs.map (fun x => x.segment.payload.data.length)).sum

structure Invariant (t : TcpTracker) : Prop where
  limits : t.limits.Valid
  ids : ∀ (i : ℕ) (f : Flow), t.flows[i]? = some f → f.id = i
  listed : ∀ key i, i ∈ t.history key ↔ ∃ f, t.flows[i]? = some f ∧ f.key = key
  increasing : ∀ key, (t.history key).Pairwise (· < ·)
  generations : ∀ (key : FlowKey) (j i : ℕ) (f : Flow), (t.history key)[j]? = some i →
    t.flows[i]? = some f →
    f.generation = j + 1
  retained_eq : t.retained = (t.flows.map inputBytes).sum
  retained_le : t.retained ≤ t.limits.maxRetainedPayload

def Call.direction (c : Call) : Fin 2 :=
  (FlowKey.new c.scope c.segment.source c.segment.destination).2

def Call.key (c : Call) : FlowKey :=
  (FlowKey.new c.scope c.segment.source c.segment.destination).1

/-- What a call does in a state that satisfies the invariant. -/
inductive IngestStep (t : TcpTracker) (c : Call) : Result Assignment → TcpTracker → Prop
  | unchanged {result : Result Assignment} (h : ∀ id d, result ≠ .ok (.assigned id d)) :
      IngestStep t c result t
  | existing {id : ℕ} {f : Flow} (hid : id ∈ t.history c.key) (hget : t.flows[id]? = some f)
      (hclosed : f.closed = true → f.isFinalAck c.direction c.segment = true)
      (hsyn : c.segment.syn = true → ∀ v, f.syn c.direction = some v → v = c.segment.sequence)
      (hle : t.retained + c.segment.payload.data.length ≤ t.limits.maxRetainedPayload) :
      IngestStep t c (.ok (.assigned id c.direction)) { t with
        flows := t.flows.set id (f.accept c.direction c.packets c.when c.segment)
        retained := t.retained + c.segment.payload.data.length }
  | fresh (midstream : Bool)
      (hle : t.retained + c.segment.payload.data.length ≤ t.limits.maxRetainedPayload) :
      IngestStep t c (.ok (.assigned t.flows.length c.direction)) { t with
        keys := t.keys.insert c.key (t.history c.key ++ [t.flows.length])
        flows := t.flows ++ [(Flow.fresh t.flows.length ((t.history c.key).length + 1) c.key
          midstream).accept c.direction c.packets c.when c.segment]
        retained := t.retained + c.segment.payload.data.length }

section Select

variable {t : TcpTracker} {key : FlowKey} {direction : Fin 2} {when : Option ℤ}
  {segment : TcpSegment} {id : ℕ}

theorem sameSyn_spec {history : List ℕ} (h : t.sameSyn history direction when segment = some id) :
    id ∈ history ∧ (t.flowAt id).closed = false := by
  have hmem := List.mem_of_find?_eq_some h
  have hp := List.find?_some h
  simp only [Bool.and_eq_true, Bool.not_eq_true'] at hp
  exact ⟨by simpa using hmem, hp.1.1⟩

theorem simultaneous_spec {history : List ℕ} (h : t.simultaneous history direction when = some id) :
    id ∈ history ∧ (t.flowAt id).closed = false := by
  obtain ⟨hlast, hp⟩ := Option.filter_eq_some_iff.1 h
  simp only [Bool.and_eq_true, Bool.not_eq_true'] at hp
  exact ⟨List.mem_of_getLast? hlast, hp.1.1.1.1.1⟩

theorem decideAmong_existing {syn allExpired : Bool} {candidates closed final : List ℕ}
    (h : decideAmong syn allExpired candidates closed final = .existing id) :
    id ∈ final ∨ id ∈ candidates := by
  unfold decideAmong at h
  by_cases hfinal : final.length = 1 ∧ closed.length = 1 ∧ candidates = []
  · rw [if_pos hfinal] at h
    obtain ⟨x, rfl⟩ := List.length_eq_one_iff.1 hfinal.1
    cases h
    exact Or.inl (by simp)
  rw [if_neg hfinal] at h
  by_cases hclosed : closed ≠ []
  · rw [if_pos hclosed] at h
    split_ifs at h
  rw [if_neg hclosed] at h
  match candidates, h with
  | [], h => split_ifs at h
  | [x], h =>
    cases h
    exact Or.inr (by simp)

theorem selectAmong_spec {history : List ℕ}
    (h : t.selectAmong history direction when segment = .existing id) :
    id ∈ history ∧ ((t.flowAt id).closed = true →
      (t.flowAt id).isFinalAck direction segment = true) := by
  rcases decideAmong_existing h with hmem | hmem
  · obtain ⟨hin, hp⟩ := List.mem_filter.1 hmem
    rw [Bool.and_eq_true] at hp
    exact ⟨List.mem_of_mem_filter hin, fun _ => hp.2⟩
  · obtain ⟨hin, hopen⟩ := List.mem_filter.1 hmem
    refine ⟨List.mem_of_mem_filter hin, fun hclosed => ?_⟩
    simp [hclosed] at hopen

theorem select_existing (h : t.select key direction when segment = .existing id) :
    id ∈ t.history key ∧ ((t.flowAt id).closed = true →
      (t.flowAt id).isFinalAck direction segment = true) := by
  unfold select at h
  split_ifs at h
  · split at h
    · rename_i x hx
      cases h
      have hspec : id ∈ t.history key ∧ (t.flowAt id).closed = false := by
        cases hsame : t.sameSyn (t.history key) direction when segment with
        | some y =>
          rw [hsame] at hx
          cases hx
          exact sameSyn_spec hsame
        | none =>
          rw [hsame] at hx
          exact simultaneous_spec hx
      exact ⟨hspec.1, fun hclosed => by simp [hspec.2] at hclosed⟩
    · cases h
  · exact selectAmong_spec h

end Select

theorem flowAt_eq {t : TcpTracker} {id : ℕ} {f : Flow} (h : t.flows[id]? = some f) :
    t.flowAt id = f := by
  simp [flowAt, List.getD_eq_getElem?_getD, h]

section Ingest

variable {t : TcpTracker}

theorem record_fresh (hv : t.limits.Valid) (key : FlowKey) (generation : ℕ) (midstream : Bool)
    (ids : OrdMap FlowKey (List ℕ)) (d : Fin 2) (packets : List PacketId) (when : Option ℤ)
    (segment : TcpSegment) (retained : ℕ) :
    { t with keys := ids, flows := t.flows ++ [Flow.fresh t.flows.length generation key
        midstream] }.record t.flows.length d packets when segment retained =
      (.ok (.assigned t.flows.length d), { t with
        keys := ids
        flows := t.flows ++ [(Flow.fresh t.flows.length generation key midstream).accept d packets
          when segment]
        retained := retained }) := by
  have hget : (t.flows ++ [Flow.fresh t.flows.length generation key midstream])[t.flows.length]? =
      some (Flow.fresh t.flows.length generation key midstream) := by simp
  have hmax : t.limits.maxSegmentsPerFlow ≠ 0 := by
    intro h0
    exact ((t.limits.validate_ok_iff).1 hv).1 (by simp [Limits.nonzero, h0])
  unfold record
  rw [flowAt_eq hget]
  dsimp only
  rw [if_neg (by simpa [Flow.fresh] using hmax), if_neg (by simp [Flow.fresh])]
  simp

theorem record_existing {id : ℕ} {f : Flow} (hget : t.flows[id]? = some f) (d : Fin 2)
    (packets : List PacketId) (when : Option ℤ) (segment : TcpSegment) (retained : ℕ) :
    (∃ result, t.record id d packets when segment retained = (result, t) ∧
      ∀ i e, result ≠ .ok (.assigned i e)) ∨
    (t.record id d packets when segment retained = (.ok (.assigned id d), { t with
        flows := t.flows.set id (f.accept d packets when segment), retained := retained }) ∧
      (segment.syn = true → ∀ v, f.syn d = some v → v = segment.sequence)) := by
  unfold record
  rw [flowAt_eq hget]
  dsimp only
  by_cases hfull : f.inputs.length ≥ t.limits.maxSegmentsPerFlow
  · rw [if_pos hfull]
    exact Or.inl ⟨_, rfl, by simp⟩
  rw [if_neg hfull]
  by_cases hsyn : segment.syn = true ∧ (f.syn d).any (· ≠ segment.sequence) = true
  · rw [if_pos hsyn]
    exact Or.inl ⟨_, rfl, by simp⟩
  rw [if_neg hsyn]
  refine Or.inr ⟨rfl, fun hs v hv => ?_⟩
  by_contra hne
  exact hsyn ⟨hs, by rw [hv]; exact decide_eq_true hne⟩

theorem Invariant.ingest (h : Invariant t) (c : Call) :
    IngestStep t c (t.apply c).1 (t.apply c).2 := by
  unfold apply ingestWithPackets
  by_cases hp : c.packets = []
  · rw [if_pos hp]
    exact .unchanged (by simp)
  rw [if_neg hp]
  cases hadd : checkedAdd t.retained c.segment.payload.len with
  | none => exact .unchanged (by simp)
  | some retained =>
    obtain ⟨-, rfl⟩ := (checkedAdd_eq_some_iff _ _ _).1 hadd
    dsimp only
    by_cases hle : t.retained + c.segment.payload.len > t.limits.maxRetainedPayload
    · rw [if_pos hle]
      exact .unchanged (by simp)
    rw [if_neg hle]
    have hle' : t.retained + c.segment.payload.data.length ≤ t.limits.maxRetainedPayload :=
      Nat.le_of_not_gt hle
    change IngestStep t c
      (t.commit (t.select c.key c.direction c.when c.segment) c.key c.direction c.packets c.when
        c.segment (t.retained + c.segment.payload.data.length)).1
      (t.commit (t.select c.key c.direction c.when c.segment) c.key c.direction c.packets c.when
        c.segment (t.retained + c.segment.payload.data.length)).2
    cases hsel : t.select c.key c.direction c.when c.segment with
    | existing id =>
      obtain ⟨hid, hclosed⟩ := select_existing hsel
      obtain ⟨f, hget, -⟩ := (h.listed c.key id).1 hid
      rw [flowAt_eq hget] at hclosed
      change IngestStep t c (t.record id c.direction c.packets c.when c.segment _).1
        (t.record id c.direction c.packets c.when c.segment _).2
      rcases record_existing hget c.direction c.packets c.when c.segment
        (t.retained + c.segment.payload.data.length) with ⟨result, hrec, hno⟩ | ⟨hrec, hsyn⟩
      · rw [hrec]
        exact .unchanged hno
      · rw [hrec]
        exact .existing hid hget hclosed hsyn hle'
    | fresh midstream =>
      unfold commit create
      dsimp only
      by_cases hfull : t.flows.length ≥ t.limits.maxFlows
      · rw [if_pos hfull]
        exact .unchanged (by simp)
      · rw [if_neg hfull]
        dsimp only
        rw [record_fresh h.limits]
        exact .fresh midstream hle'
    | ambiguous candidates => exact .unchanged (by simp [commit])
    | unassigned reason => exact .unchanged (by simp [commit])

end Ingest

end PcapEvidence.TcpTracker
