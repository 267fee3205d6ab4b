import PcapEvidence.BgpPipeline
import PcapEvidence.BgpRibGeneration
import PcapEvidence.BgpSessionGeneration

/-!
# What one call does to a pipeline

A call is refused or replayed without any effect, or it gives one event to the observer and at most
one to the Adj-RIB-In. The events of such a call stay in the generation of the decoder or move it to
the next one.
-/

namespace PcapEvidence.Bgp

open FiniteMap History Session Wire

namespace Wire

variable {issues : List String}
variable {c : Carrier} {bytes : EvidenceBytes} {metadata : PcapMetadata} {w next : WireState}
  {limits : Bgp.Limits} {record : Decoded}

theorem retainOpen_generation {direction : U8} {o : WitnessedOpen}
    (h : retainOpen w direction o limits = .ok (next, issues)) :
    next.generation = w.generation := by
  unfold retainOpen at h
  dsimp only at h
  split_ifs at h
  · cases h
    rfl
  · cases h
    rfl
  · cases h
    rfl

theorem observeOpen_generation {o : WitnessedOpen}
    (h : observeOpen w o limits = .ok (next, issues)) : next.generation = w.generation := by
  unfold observeOpen at h
  split at h
  · split_ifs at h
    · exact retainOpen_generation h
    · cases h
      rfl
  · cases h
    rfl

theorem decodeOpen_generation {message : Message}
    (h : decodeOpen bytes metadata w limits = .ok (message, issues, next)) :
    next.generation = w.generation := by
  obtain ⟨⟨state, detail⟩, -, h⟩ := bind_eq_ok.1 h
  obtain ⟨⟨next', issues'⟩, hobserve, h⟩ := bind_eq_ok.1 h
  cases h
  exact observeOpen_generation hobserve

theorem decodeBody_generation {kind : U8} {message : Message} {reset : Bool}
    (h : decodeBody kind bytes metadata w limits = .ok (message, issues, next, reset)) :
    next.generation = w.generation := by
  unfold decodeBody at h
  dsimp only at h
  split at h
  · obtain ⟨⟨message', issues', next'⟩, hopen, h⟩ := bind_eq_ok.1 h
    cases h
    exact decodeOpen_generation hopen
  · obtain ⟨⟨message', issues', reset'⟩, -, h⟩ := bind_eq_ok.1 h
    cases h
    rfl
  · obtain ⟨_, -, h⟩ := bind_eq_ok.1 h
    cases h
    rfl
  · obtain ⟨-, h⟩ := guard_eq_ok.1 h
    cases h
    rfl
  · obtain ⟨⟨message', issues'⟩, -, h⟩ := bind_eq_ok.1 h
    cases h
    rfl
  · cases h

theorem decode_ok (h : decode c bytes metadata w limits = .ok (record, next)) :
    ∃ kind bound body message issues reset,
      bound.generation = w.generation ∧ bound.opens = w.opens ∧
      decodeBody kind bytes metadata bound limits = .ok (message, issues, body, reset) ∧
      record.metadata = metadata ∧ record.message = message ∧
      record.generation = (if metadata.session.isSome then some body.generation else none) ∧
      settle reset body = .ok next := by
  obtain ⟨capture, -, h⟩ := bind_eq_ok.1 h
  obtain ⟨_, -, h⟩ := bind_eq_ok.1 h
  obtain ⟨kind, -, h⟩ := bind_eq_ok.1 h
  obtain ⟨-, h⟩ := guard_eq_ok.1 h
  obtain ⟨⟨message, issues, body, reset⟩, hbody, h⟩ := bind_eq_ok.1 h
  obtain ⟨-, h⟩ := guard_eq_ok.1 h
  obtain ⟨-, h⟩ := guard_eq_ok.1 h
  obtain ⟨next', hnext, h⟩ := bind_eq_ok.1 h
  cases h
  refine ⟨kind, _, body, message, issues, reset, ?_, ?_, hbody, rfl, rfl, rfl, hnext⟩
  · split_ifs <;> rfl
  · split_ifs <;> rfl

theorem decode_generation (h : decode c bytes metadata w limits = .ok (record, next))
    (hs : metadata.session.isSome) :
    record.metadata = metadata ∧ record.generation = some w.generation := by
  obtain ⟨kind, bound, body, message, issues, reset, hgen, -, hbody, hmetadata, -, hrecord, -⟩ :=
    decode_ok h
  rw [if_pos hs, decodeBody_generation hbody, hgen] at hrecord
  exact ⟨hmetadata, hrecord⟩

theorem reset_ok (h : w.reset = .ok next) :
    next.generation = w.generation + 1 ∧ next.opens = .empty := by
  unfold WireState.reset at h
  split_ifs at h
  cases h
  exact ⟨rfl, rfl⟩

end Wire

namespace Pipeline.CapturedSessionPipeline

variable {m : Layout} {c : Carrier} {s t : CapturedSessionPipeline} {bytes : EvidenceBytes}
  {metadata : PcapMetadata} {recordId reason : String}

def published (s : CapturedSessionPipeline) (metadata : PcapMetadata) (plan : MessagePlan) :
    CapturedSessionPipeline :=
  { s with
    observer := s.observer.commit plan.sessionPlan
    rib := plan.ribPlan.elim s.rib s.rib.commit
    wire := plan.wire
    tainted := boundaryTaint plan.receipt.sessionStatus plan.receipt.ribStatus
    applied := plan.record.elim s.applied (s.applied.insert metadata.recordId)
    appliedBytes := plan.appliedBytes }

theorem publish_eq (metadata : PcapMetadata) (plan : MessagePlan) :
    publish metadata plan s = (.ok plan.receipt, s.published metadata plan) := rfl

theorem requireUsable_ok {u : Unit} : s.requireUsable = .ok u ↔ s.tainted = false := by
  unfold requireUsable
  cases s.tainted <;> simp

def InScope (s : CapturedSessionPipeline) (bytes : EvidenceBytes) (metadata : PcapMetadata) : Prop :=
  (metadata.sourceId = s.sourceId ∧ metadata.session = some s.session) ∧ bytes.spans ≠ [] ∧
    ∀ span ∈ bytes.spans, span.packet.capture = s.captureNamespace

/-- The answers to a message. -/
inductive MessageStep (m : Layout) (c : Carrier) (s : CapturedSessionPipeline) (bytes : EvidenceBytes)
    (metadata : PcapMetadata) : Result ApplyReceipt → CapturedSessionPipeline → Prop
  | refused (e : Error)
      (h : ¬ s.InScope bytes metadata ∨ s.retainedMessage bytes metadata = none) :
      MessageStep m c s bytes metadata (.error e) s
  | replayed {previous : ApplyReceipt} (scope : s.InScope bytes metadata)
      (h : s.retainedMessage bytes metadata = some previous) :
      MessageStep m c s bytes metadata (s.replayMessage previous) s
  | applied {plan : MessagePlan} (scope : s.InScope bytes metadata)
      (fresh : s.retainedMessage bytes metadata = none) (usable : s.tainted = false)
      (planned : s.planMessage m c bytes metadata = .ok plan) :
      MessageStep m c s bytes metadata (.ok plan.receipt) (s.published metadata plan)

theorem applyMessage_step (m : Layout) (c : Carrier) (s : CapturedSessionPipeline)
    (bytes : EvidenceBytes) (metadata : PcapMetadata) :
    MessageStep m c s bytes metadata (applyMessage m c bytes metadata s).1
      (applyMessage m c bytes metadata s).2 := by
  unfold applyMessage
  rw [Method.read_bind]
  by_cases hscope : metadata.sourceId ≠ s.sourceId ∨ metadata.session ≠ some s.session
  · rw [if_pos hscope]
    refine .refused _ (.inl fun hin => ?_)
    rcases hscope with h | h
    · exact h hin.1.1
    · exact h hin.1.2
  rw [if_neg hscope]
  by_cases hcapture : bytes.spans = [] ∨
      bytes.spans.any (fun span => span.packet.capture ≠ s.captureNamespace) = true
  · rw [if_pos hcapture]
    refine .refused _ (.inl fun hin => ?_)
    rcases hcapture with h | h
    · exact hin.2.1 h
    · obtain ⟨span, hspan, hne⟩ := List.any_eq_true.1 h
      exact (of_decide_eq_true hne) (hin.2.2 span hspan)
  rw [if_neg hcapture]
  have hin : s.InScope bytes metadata := by
    push Not at hscope hcapture
    refine ⟨hscope, hcapture.1, fun span hspan => ?_⟩
    by_contra hne
    exact hcapture.2 (List.any_eq_true.2 ⟨span, hspan, decide_eq_true hne⟩)
  cases hretained : s.retainedMessage bytes metadata with
  | some previous => exact .replayed hin hretained
  | none =>
    dsimp only
    cases husable : s.requireUsable with
    | error e =>
      rw [Method.lift_bind_error rfl]
      exact .refused e (.inr hretained)
    | ok u =>
      rw [Method.lift_bind rfl]
      cases hplan : s.planMessage m c bytes metadata with
      | error e =>
        rw [Method.lift_bind_error rfl]
        exact .refused e (.inr hretained)
      | ok plan =>
        rw [Method.lift_bind rfl, publish_eq]
        exact .applied hin hretained (requireUsable_ok.1 husable) hplan

/-- The answers to a boundary of the caller. -/
inductive BoundaryStep (s : CapturedSessionPipeline) (kind : BoundaryKind) (recordId reason : String)
    (transaction : CapturedSessionPipeline → Result (BoundaryReceipt × CapturedSessionPipeline)) :
    Result BoundaryReceipt → CapturedSessionPipeline → Prop
  | refused (e : Error) (h : s.retainedBoundary kind recordId reason = none) :
      BoundaryStep s kind recordId reason transaction (.error e) s
  | replayed {previous : BoundaryReceipt}
      (h : s.retainedBoundary kind recordId reason = some previous) :
      BoundaryStep s kind recordId reason transaction (.ok (replayedBoundary previous)) s
  | applied {receipt : BoundaryReceipt} {next : CapturedSessionPipeline}
      (fresh : s.retainedBoundary kind recordId reason = none) (usable : s.tainted = false)
      (done : transaction s = .ok (receipt, next)) :
      BoundaryStep s kind recordId reason transaction (.ok receipt) next

theorem boundary_step (s : CapturedSessionPipeline) (kind : BoundaryKind) (recordId reason : String)
    (transaction : CapturedSessionPipeline → Result (BoundaryReceipt × CapturedSessionPipeline)) :
    BoundaryStep s kind recordId reason transaction (boundary kind recordId reason transaction s).1
      (boundary kind recordId reason transaction s).2 := by
  unfold boundary
  rw [Method.read_bind]
  cases hretained : s.retainedBoundary kind recordId reason with
  | some previous => exact .replayed hretained
  | none =>
    dsimp only
    cases husable : s.requireUsable with
    | error e =>
      rw [Method.lift_bind_error rfl]
      exact .refused e hretained
    | ok u =>
      rw [Method.lift_bind rfl]
      cases hsnapshot : s.admitContinuitySnapshot with
      | error e =>
        rw [Method.lift_bind_error rfl]
        exact .refused e hretained
      | ok u =>
        rw [Method.lift_bind rfl]
        cases hdone : transaction s with
        | error e =>
          rw [Method.lift_bind_error rfl]
          exact .refused e hretained
        | ok r =>
          rw [Method.lift_bind rfl, Method.update_bind]
          exact .applied hretained (requireUsable_ok.1 husable) hdone

section Messages

variable {observation : Observation} {event : Event} {change : Option RibEvent}

structure Planned (m : Layout) (c : Carrier) (s : CapturedSessionPipeline) (bytes : EvidenceBytes)
    (metadata : PcapMetadata) (plan : MessagePlan) (record : Decoded) (next : WireState)
    (observation : Observation) (message event : Event) (change : Option RibEvent) : Prop where
  decoded : decode c bytes metadata s.wire s.limits = .ok (record, next)
  observed : Observation.fromNormalized c record = .ok observation
  described : sessionEvent observation s.observer.key.source next.generation = .ok message
  captured : event = { message with kind := capturedKind bytes message.kind }
  prepared : s.observer.prepare m event = .ok plan.sessionPlan
  changed : s.ribEventFor c observation event (s.observer.openContinuity event)
    plan.sessionPlan.status = .ok change
  reduced : s.prepareRib c observation change = .ok plan.ribPlan
  wire : plan.wire = if plan.sessionPlan.status = .identityConflict then s.wire else next
  normalized : plan.receipt.normalized = record
  digest : plan.receipt.observationSha256 = c.observationSha256 observation
  sessionStatus : plan.receipt.sessionStatus = plan.sessionPlan.status
  ribStatus : plan.receipt.ribStatus = plan.ribPlan.map (·.status)
  fresh : plan.receipt.replayed = false
  staged : s.stageRecord c bytes metadata plan.receipt = .ok (plan.record, plan.appliedBytes)

theorem planMessage_ok {plan : MessagePlan} (h : s.planMessage m c bytes metadata = .ok plan) :
    ∃ record next observation message event change,
      Planned m c s bytes metadata plan record next observation message event change := by
  obtain ⟨⟨record, next⟩, hdecoded, h⟩ := bind_eq_ok.1 h
  obtain ⟨observation, hobserved, h⟩ := bind_eq_ok.1 h
  obtain ⟨message, hmessage, h⟩ := bind_eq_ok.1 h
  obtain ⟨sessionPlan, hprepared, h⟩ := bind_eq_ok.1 h
  obtain ⟨change, hchanged, h⟩ := bind_eq_ok.1 h
  obtain ⟨ribPlan, hreduced, h⟩ := bind_eq_ok.1 h
  obtain ⟨continuity, -, h⟩ := bind_eq_ok.1 h
  obtain ⟨⟨staged, appliedBytes⟩, hstaged, h⟩ := bind_eq_ok.1 h
  obtain ⟨-, h⟩ := guard_eq_ok.1 h
  obtain ⟨_, -, h⟩ := bind_eq_ok.1 h
  cases h
  exact ⟨record, next, observation, message, _, change, hdecoded, hobserved, hmessage, rfl,
    hprepared, hchanged, hreduced, rfl, rfl, rfl, rfl, rfl, rfl, hstaged⟩

theorem sessionEvent_ok {source : SourcePartition} {decoderGeneration : ℕ} (h : sessionEvent observation source decoderGeneration = .ok event) :
    messageKind observation.record.message decoderGeneration = .ok event.kind ∧
      event.generation = observation.generation ∧
      event.direction = observation.record.metadata.direction ∧
      event.recordId = observation.record.metadata.recordId ∧
      (if isProtocolReset event.kind then decoderGeneration = observation.generation + 1
        else decoderGeneration = observation.generation) := by
  unfold sessionEvent at h
  obtain ⟨-, h⟩ := guard_eq_ok.1 h
  split at h
  · cases h
  · obtain ⟨kind, hkind, h⟩ := bind_eq_ok.1 h
    by_cases hreset : isProtocolReset kind = true
    · rw [if_pos hreset] at h
      obtain ⟨hgen, h⟩ := guard_eq_ok.1 h
      cases h
      rw [not_not, checkedAdd_eq_some_iff] at hgen
      exact ⟨hkind, rfl, rfl, rfl, by rw [if_pos hreset]; exact hgen.2⟩
    · rw [if_neg hreset] at h
      obtain ⟨hgen, h⟩ := guard_eq_ok.1 h
      cases h
      exact ⟨hkind, rfl, rfl, rfl, by rw [if_neg hreset]; exact (not_not.1 hgen).symm⟩

theorem messageKind_ok {message : Message} {decoderGeneration : ℕ} {kind : EventKind}
    (h : messageKind message decoderGeneration = .ok kind) :
    kind ≠ .notification ∧ (∀ g r, kind ≠ .reset g r) ∧ (∀ a d, kind ≠ .capturedOpen a d) ∧
      ∀ g r, kind = .protocolReset g r → g = decoderGeneration := by
  cases message with
  | «open» detail => cases h; simp
  | keepalive => cases h; simp
  | notification code subcode data => cases h; simp
  | routeRefresh afi reserved safi enhancedLayout => cases h; simp
  | update parsed =>
    simp only [messageKind, updateKind] at h
    split_ifs at h
    · cases h
      simp
    · cases h
      simp
    · obtain ⟨family, -, h⟩ := bind_eq_ok.1 h
      cases h
      cases family <;> simp

theorem capturedKind_boundary (bytes : EvidenceBytes) (kind : EventKind) :
    (∀ g r, capturedKind bytes kind = .protocolReset g r ↔ kind = .protocolReset g r) ∧
      (capturedKind bytes kind = .notification ↔ kind = .notification) ∧
      ∀ g r, capturedKind bytes kind = .reset g r ↔ kind = .reset g r := by
  cases kind <;> simp [capturedKind]

theorem ribEvent_ok {limits : Bgp.Limits} (h : ribEvent c limits observation event = .ok change) :
    (∃ g r, event.kind = .protocolReset g r ∧ change = some
      ⟨ribScope event.session g none none, observation.record.metadata.recordId,
        .reset event.generation resetReason⟩) ∨
    ((∀ g r, event.kind ≠ .protocolReset g r) ∧ ∀ e ∈ change,
      e.scope = ribScope event.session event.generation observation.record.metadata.direction
        observation.record.metadata.peer ∧
      e.recordId = observation.record.metadata.recordId ∧ ∀ g r, e.kind ≠ .reset g r) := by
  obtain ⟨kind, hkind, h⟩ := bind_eq_ok.1 h
  cases h
  unfold ribKind at hkind
  cases hk : event.kind with
  | protocolReset g r =>
    rw [hk] at hkind
    cases hkind
    exact .inl ⟨g, r, rfl, rfl⟩
  | update =>
    rw [hk] at hkind
    obtain ⟨actions, -, hkind⟩ := bind_eq_ok.1 hkind
    refine .inr ⟨by simp, fun e he => ?_⟩
    obtain ⟨k, hk', rfl⟩ := Option.map_eq_some_iff.1 he
    refine ⟨rfl, rfl, ?_⟩
    have hsome := (Except.ok.inj hkind).trans hk'
    split_ifs at hsome
    cases hsome
    simp
  | _ =>
    rw [hk] at hkind
    cases hkind
    refine .inr ⟨by simp, fun e he => ?_⟩
    simp at he <;> subst he <;> exact ⟨rfl, rfl, by simp⟩

theorem Planned.event_record {plan : MessagePlan} {record : Decoded} {next : WireState} {message : Event}
    (scope : s.InScope bytes metadata)
    (h : Planned m c s bytes metadata plan record next observation message event change) :
    event.recordId = metadata.recordId ∧ event.generation = s.wire.generation ∧
      observation.record = record ∧ record.metadata = metadata := by
  obtain ⟨hmetadata, hgeneration⟩ := decode_generation h.decoded (by simp [scope.1.2])
  have hobserved := h.observed
  rw [Observation.fromNormalized, hgeneration] at hobserved
  cases hobserved
  obtain ⟨-, hgen, -, hrecord, -⟩ := sessionEvent_ok h.described
  rw [h.captured]
  exact ⟨hrecord.trans (by rw [hmetadata]), hgen, rfl, hmetadata⟩

theorem ribEventFor_replay
    {verdict : OpenContinuityVerdict} (hboundary : event.kind.isBoundary = false)
    (h : s.ribEventFor c observation event verdict .identicalReplay = .ok change) :
    ribEvent c s.limits observation event = .ok change := by
  obtain ⟨candidate, hcandidate, h⟩ := bind_eq_ok.1 h
  have hcandidate : ribEvent c s.limits observation event = .ok candidate := hcandidate
  rw [hcandidate, ← h]
  obtain ⟨g, r, hkind, -⟩ | ⟨-, hwithin⟩ := ribEvent_ok hcandidate
  · rw [hkind] at hboundary
    cases hboundary
  · split
    · exact absurd rfl ((hwithin _ rfl).2.2 _ _)
    · rfl

end Messages

section Effects

variable {observation : Observation} {change : Option RibEvent} {rib : AdjRibIn}
    {receipt : BoundaryReceipt}

/-- At most one event of the Adj-RIB-In. -/
inductive RibEffect (c : Carrier) (rib : AdjRibIn) :
    Option RibEvent → Option Bgp.ApplyStatus → AdjRibIn → Prop
  | unchanged : RibEffect c rib none none rib
  | committed {event : RibEvent} {origin : Option Digest} {plan : AdjRibIn.PreparedRibEvent}
      (h : rib.prepareInner c.checkRibEvent event origin = .ok plan) :
      RibEffect c rib (some event) (some plan.status) (rib.commit plan)

/-- How the event of a call and its change of the routes lie to the generation of the decoder. -/
inductive Move (s : CapturedSessionPipeline) (event : Event) (status : Session.ApplyStatus)
    (wire : WireState) : Option RibEvent → Prop
  | conflict {reason : String} (h : status = .identityConflict) :
      Move s event status wire
        (some (gapEvent s.observer.key s.wire.generation event.recordId reason))
  | stay {change : Option RibEvent} (clear : status ≠ .identityConflict)
      (inside : event.kind.isBoundary = false)
      (same : event.generation = s.wire.generation)
      (kept : wire.generation = s.wire.generation)
      (within : ∀ e ∈ change, e.scope.sessionKey = s.observer.key ∧
        e.scope.generation = s.wire.generation ∧ e.recordId = event.recordId ∧
        ∀ g r, e.kind ≠ .reset g r) :
      Move s event status wire change
  | advance {reason : String} (clear : status ≠ .identityConflict)
      (next : event.next = some (s.wire.generation + 1))
      (previous : event.previous = some s.wire.generation)
      (moved : wire.generation = s.wire.generation + 1) :
      Move s event status wire (if s.hasRibGeneration s.wire.generation then
        some ⟨ribScope s.observer.key (s.wire.generation + 1) none none, event.recordId,
          .reset s.wire.generation reason⟩ else none)

/-- What a call that was neither refused nor replayed did to the three projections. -/
structure Effect (m : Layout) (c : Carrier) (s t : CapturedSessionPipeline) (event : Event)
    (plan : PreparedSessionEvent) (next : WireState) (change : Option RibEvent)
    (ribStatus : Option Bgp.ApplyStatus) : Prop where
  usable : s.tainted = false
  prepared : s.observer.prepare m event = .ok plan
  observer : t.observer = s.observer.commit plan
  rib : RibEffect c s.rib change ribStatus t.rib
  wire : t.wire = if plan.status = .identityConflict then s.wire else next
  tainted : t.tainted = boundaryTaint plan.status ribStatus
  move : Move s event plan.status next change
  opens : event.kind ≠ .notification
  reached : s.wire.generation ≤ event.generation

theorem prepareRib_effect
    {plan : Option AdjRibIn.PreparedRibEvent} (h : s.prepareRib c observation change = .ok plan) :
    RibEffect c s.rib change (plan.map (·.status)) (plan.elim s.rib s.rib.commit) := by
  cases change with
  | none =>
    cases h
    exact .unchanged
  | some event =>
    obtain ⟨plan', hplan, h⟩ := bind_eq_ok.1 h
    cases h
    exact .committed hplan

theorem apply_effect {event : RibEvent} {origin : Option Digest} {status : Bgp.ApplyStatus} (h : s.rib.apply c.checkRibEvent event origin = .ok (status, rib)) :
    RibEffect c s.rib (some event) (some status) rib := by
  obtain ⟨plan, hplan, h⟩ := bind_eq_ok.1 h
  cases h
  exact .committed hplan

theorem openContinuity_contradiction {o : SessionObserver} {event : Event} {session : SessionKey}
    {generation : ℕ} (h : o.openContinuity event = .contradiction session generation) :
    session = o.key ∧ generation = event.generation ∧ ∃ advertisement digest d old previous,
      event.kind = .capturedOpen advertisement digest ∧ event.direction = some d ∧
      old ∈ o.events ∧ old.generation = event.generation ∧ old.direction = some d ∧
      (∃ a, old.kind = .capturedOpen a previous) ∧ previous ≠ digest := by
  unfold SessionObserver.openContinuity at h
  split at h
  · rename_i advertisement digest view hkind hview
    by_cases hout : o.key.source.kind ≠ .captured ∨ event.session ≠ o.key ∨
        event.generation ≠ view.generation ∨ event.direction = none ∨ view.identityConflict ∨
        view.closedByNotification
    · rw [if_pos hout] at h
      cases h
    rw [if_neg hout] at h
    dsimp only at h
    split_ifs at h with hin hnil
    cases h
    push Not at hout
    obtain ⟨d, hd⟩ := Option.ne_none_iff_exists'.1 hout.2.2.2.1
    obtain ⟨previous, hprevious⟩ := List.exists_mem_of_ne_nil _ hnil
    obtain ⟨old, hold, hsome⟩ := List.mem_filterMap.1 hprevious
    split_ifs at hsome with hsame
    split at hsome
    · rename_i a p hk
      cases hsome
      exact ⟨rfl, rfl, advertisement, digest, d, old, previous, hkind, hd, hold, hsame.1,
        hsame.2.trans hd, ⟨a, hk⟩, fun he => hin (he ▸ hprevious)⟩
    · cases hsome
  · cases h

theorem ribEventFor_move {event : Event} {status : Session.ApplyStatus}
    {next : WireState} (hkey : event.session = s.observer.key)
    (hgen : event.generation = s.wire.generation)
    (hid : event.recordId = observation.record.metadata.recordId)
    (hreset : ∀ g r, event.kind ≠ .reset g r)
    (hstay : (∀ g r, event.kind ≠ .protocolReset g r) → next.generation = s.wire.generation)
    (hnext : ∀ g r, event.kind = .protocolReset g r →
      g = s.wire.generation + 1 ∧ next.generation = s.wire.generation + 1)
    (h : s.ribEventFor c observation event (s.observer.openContinuity event) status = .ok change) :
    Move s event status next change := by
  obtain ⟨candidate, hcandidate, h⟩ := bind_eq_ok.1 h
  unfold candidateFor at hcandidate
  by_cases hstatus : status = .identityConflict
  · rw [if_pos hstatus] at hcandidate
    cases hcandidate
    cases h
    rw [hkey, hgen]
    exact .conflict hstatus
  rw [if_neg hstatus] at hcandidate
  have hinside (hno : ∀ g r, event.kind ≠ .protocolReset g r) : event.kind.isBoundary = false := by
    cases hk : event.kind with
    | reset g r => exact absurd hk (hreset g r)
    | protocolReset g r => exact absurd hk (hno g r)
    | _ => rfl
  split at hcandidate
  · rename_i session generation hverdict
    obtain ⟨rfl, rfl, advertisement, digest, -, -, -, hkind, -⟩ :=
      openContinuity_contradiction hverdict
    have hno : ∀ g r, event.kind ≠ .protocolReset g r := by simp [hkind]
    cases hcandidate
    refine .stay hstatus (hinside hno) hgen (hstay hno) ?_
    split_ifs at h with hhas
    · cases h
      rintro e he
      cases he
      exact ⟨rfl, hgen, rfl, by simp [gapEvent]⟩
    · cases h
      simp
  · obtain ⟨g, r, hkind, rfl⟩ | ⟨hno, hwithin⟩ := ribEvent_ok hcandidate
    · obtain ⟨rfl, hmoved⟩ := hnext g r hkind
      cases h
      rw [hkey, hgen, ← hid]
      refine .advance hstatus (by simp [Event.next, hkind]) (by simp [Event.previous, hkind, hgen])
        hmoved
    · refine .stay hstatus (hinside hno) hgen (hstay hno) ?_
      cases candidate with
      | none =>
        cases h
        simp
      | some e =>
        obtain ⟨hscope, hrecord, hkind⟩ := hwithin e rfl
        have hsame : change = some e := by
          rw [← Except.ok.inj h]
          split
          · rename_i g r heq
            obtain rfl := Option.some.inj heq
            exact absurd rfl (hkind g r)
          · rfl
        rintro e' he'
        rw [hsame] at he'
        cases he'
        rw [hscope, ← hkey, ← hgen, hid]
        exact ⟨rfl, rfl, hrecord, hkind⟩

theorem applyRib_effect {event : RibEvent} {status : Option Bgp.ApplyStatus}
    (h : s.applyRib c event = .ok (status, rib)) : RibEffect c s.rib (some event) status rib := by
  obtain ⟨⟨outcome, next⟩, hrib, h⟩ := bind_eq_ok.1 h
  cases h
  exact apply_effect hrib

theorem message_effect {plan : MessagePlan} {record : Decoded} {next : WireState} {message event : Event}
    (scope : s.InScope bytes metadata) (usable : s.tainted = false)
    (h : Planned m c s bytes metadata plan record next observation message event change) :
    Effect m c s (s.published metadata plan) event plan.sessionPlan next change
      plan.receipt.ribStatus := by
  obtain ⟨hkind, hgeneration, hdirection, hrecord, hdecoder⟩ := sessionEvent_ok h.described
  obtain ⟨hnotification, hreset, hopen, hnext⟩ := messageKind_ok hkind
  obtain ⟨hprotocol, hclosed, hboundary⟩ := capturedKind_boundary bytes message.kind
  have hkey := (SessionObserver.prepare_prepared h.prepared).1
  obtain ⟨hmetadata, hobserved⟩ := decode_generation h.decoded (by simp [scope.1.2])
  have hsame : observation.generation = s.wire.generation ∧ observation.record = record := by
    have hobservation := h.observed
    rw [Observation.fromNormalized, hobserved] at hobservation
    cases hobservation
    exact ⟨rfl, rfl⟩
  have hevent : event.generation = s.wire.generation := by
    rw [h.captured]
    exact hgeneration.trans hsame.1
  have hid : event.recordId = observation.record.metadata.recordId := by
    rw [h.captured]
    exact hrecord
  have hopens : event.kind ≠ .notification := by
    rw [h.captured]
    exact fun hk => hnotification (hclosed.1 hk)
  exact {
    usable := usable
    prepared := h.prepared
    observer := rfl
    rib := by
      rw [h.ribStatus]
      exact prepareRib_effect h.reduced
    wire := h.wire
    tainted := by rw [← h.sessionStatus]; rfl
    opens := hopens
    reached := hevent.ge
    move := by
      refine ribEventFor_move hkey hevent hid ?_ ?_ ?_ h.changed
      · rw [h.captured]
        exact fun g r hk => hreset g r ((hboundary g r).1 hk)
      · intro hno
        have hno' : isProtocolReset message.kind = false := by
          cases hk : message.kind with
          | protocolReset g r =>
            rw [h.captured] at hno
            exact absurd ((hprotocol g r).2 hk) (hno g r)
          | _ => rfl
        rw [hno', if_neg Bool.false_ne_true, hsame.1] at hdecoder
        exact hdecoder
      · intro g r hk
        rw [h.captured] at hk
        have hk := (hprotocol g r).1 hk
        have hyes : isProtocolReset message.kind = true := by rw [hk]; rfl
        rw [if_pos hyes, hsame.1] at hdecoder
        exact ⟨(hnext g r hk).trans hdecoder, hdecoder⟩ }

theorem retainBoundary_ok {kind : BoundaryKind}
    (h : s.retainBoundary recordId kind reason receipt = .ok t) :
    t = { s with appliedBytes := t.appliedBytes, boundaries := t.boundaries } ∧
      t.boundaries = if s.isNewRecord recordId then
        s.boundaries.insert recordId ⟨kind, reason, receipt⟩ else s.boundaries := by
  unfold retainBoundary at h
  split_ifs at h with hnew
  · obtain ⟨total, -, h⟩ := bind_eq_ok.1 h
    cases h
    exact ⟨rfl, by rw [if_pos hnew]⟩
  · cases h
    exact ⟨rfl, by rw [if_neg hnew]⟩

theorem gap_effect (usable : s.tainted = false)
    (h : s.gapTransaction m c recordId reason = .ok (receipt, t)) :
    ∃ event plan change ribStatus, Effect m c s t event plan s.wire change ribStatus ∧
      event.recordId = recordId ∧ receipt.sessionStatus = plan.status ∧
      receipt.ribStatus = ribStatus ∧ event.direction = none ∧
      change = some (gapEvent s.observer.key s.wire.generation recordId reason) := by
  obtain ⟨⟨status, observer⟩, hsession, h⟩ := bind_eq_ok.1 h
  obtain ⟨⟨ribStatus, rib⟩, hrib, h⟩ := bind_eq_ok.1 h
  obtain ⟨next, hretain, h⟩ := bind_eq_ok.1 h
  cases h
  obtain ⟨plan, hplan, rfl, rfl⟩ := SessionObserver.apply_ok hsession
  obtain ⟨ht, -⟩ := retainBoundary_ok hretain
  refine ⟨⟨s.observer.key, s.wire.generation, none, recordId, .gap reason⟩, plan,
    some (gapEvent s.observer.key s.wire.generation recordId reason), some ribStatus, ?_, rfl, rfl,
    rfl, rfl, rfl⟩
  rw [ht]
  exact {
    usable := usable
    prepared := hplan
    observer := rfl
    rib := apply_effect hrib
    wire := by split_ifs <;> rfl
    tainted := rfl
    move := by
      by_cases hstatus : plan.status = .identityConflict
      · exact .conflict hstatus
      · refine .stay hstatus rfl rfl rfl ?_
        rintro e he
        cases he
        exact ⟨rfl, rfl, rfl, by simp [gapEvent]⟩
    opens := by simp
    reached := le_rfl }

theorem resetRib_effect {status : Session.ApplyStatus} {event : Event} {wire : WireState}
    {ribStatus : Option Bgp.ApplyStatus}
    (hnext : event.next = some (s.wire.generation + 1))
    (hprevious : event.previous = some s.wire.generation)
    (hwire : wire.generation = s.wire.generation + 1)
    (h : s.resetRib c status wire.generation event.recordId reason = .ok (ribStatus, rib)) :
    ∃ change, RibEffect c s.rib change ribStatus rib ∧ Move s event status wire change := by
  unfold resetRib at h
  dsimp only at h
  by_cases hstatus : status = .identityConflict
  · rw [if_pos hstatus] at h
    exact ⟨_, applyRib_effect h, .conflict hstatus⟩
  rw [if_neg hstatus] at h
  have hmove : Move s event status wire (if s.hasRibGeneration s.wire.generation then
      some ⟨ribScope s.observer.key (s.wire.generation + 1) none none, event.recordId,
        .reset s.wire.generation reason⟩ else none) :=
    .advance hstatus hnext hprevious hwire
  by_cases hhas : s.hasRibGeneration s.wire.generation = true
  · rw [if_pos hhas] at h hmove
    rw [hwire] at h
    exact ⟨_, applyRib_effect h, hmove⟩
  · rw [if_neg hhas] at h hmove
    cases h
    exact ⟨none, .unchanged, hmove⟩

theorem reset_effect (usable : s.tainted = false)
    (h : s.resetTransaction m c recordId reason = .ok (receipt, t)) :
    ∃ event plan wire change ribStatus, Effect m c s t event plan wire change ribStatus ∧
      event.recordId = recordId ∧ receipt.sessionStatus = plan.status ∧
      receipt.ribStatus = ribStatus ∧ event.direction = none ∧
      event.kind.isBoundary = true ∧ wire.generation = s.wire.generation + 1 ∧
      wire.opens = .empty := by
  obtain ⟨wire, hwire, h⟩ := bind_eq_ok.1 h
  obtain ⟨⟨status, observer⟩, hsession, h⟩ := bind_eq_ok.1 h
  obtain ⟨⟨ribStatus, rib⟩, hrib, h⟩ := bind_eq_ok.1 h
  obtain ⟨next, hretain, h⟩ := bind_eq_ok.1 h
  cases h
  obtain ⟨plan, hplan, rfl, rfl⟩ := SessionObserver.apply_ok hsession
  obtain ⟨ht, -⟩ := retainBoundary_ok hretain
  obtain ⟨hgeneration, hopens⟩ := reset_ok hwire
  have hnext : Event.next ⟨s.observer.key, wire.generation, none, recordId,
      .reset s.wire.generation reason⟩ = some (s.wire.generation + 1) := by
    rw [← hgeneration]
    rfl
  obtain ⟨change, heffect, hmove⟩ := resetRib_effect hnext rfl hgeneration hrib
  refine ⟨⟨s.observer.key, wire.generation, none, recordId, .reset s.wire.generation reason⟩, plan,
    wire, change, ribStatus, ?_, rfl, rfl, rfl, rfl, rfl, hgeneration, hopens⟩
  rw [ht]
  exact {
    usable := usable
    prepared := hplan
    observer := rfl
    rib := heffect
    wire := by simp
    tainted := rfl
    move := hmove
    opens := by simp
    reached := by
      change s.wire.generation ≤ wire.generation
      omega }

end Effects

end Pipeline.CapturedSessionPipeline

end PcapEvidence.Bgp
