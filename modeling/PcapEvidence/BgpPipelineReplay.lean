import PcapEvidence.BgpPipelineRun

/-!
# Failed and repeated calls of a captured session

The retained records and boundaries are never changed, so a call that was retained is answered from
its receipt in every later state.
-/

namespace PcapEvidence.Bgp.Pipeline.CapturedSessionPipeline

open FiniteMap History Session Wire

variable {m : Layout} {c : Carrier} {s t : CapturedSessionPipeline} {bytes : EvidenceBytes}
  {metadata : PcapMetadata} {recordId reason : String}

/-- What later calls leave as it is. -/
structure Extends (s t : CapturedSessionPipeline) : Prop where
  captureNamespace : t.captureNamespace = s.captureNamespace
  sourceId : t.sourceId = s.sourceId
  session : t.session = s.session
  applied : ∀ r a, s.applied.get r = some a → t.applied.get r = some a
  boundaries : ∀ r a, s.boundaries.get r = some a → t.boundaries.get r = some a

theorem Extends.refl (s : CapturedSessionPipeline) : Extends s s :=
  ⟨rfl, rfl, rfl, fun _ _ h => h, fun _ _ h => h⟩

theorem Extends.trans {u : CapturedSessionPipeline} (h : Extends s t) (h' : Extends t u) :
    Extends s u :=
  ⟨h'.captureNamespace.trans h.captureNamespace, h'.sourceId.trans h.sourceId,
    h'.session.trans h.session, fun r a ha => h'.applied r a (h.applied r a ha),
    fun r a ha => h'.boundaries r a (h.boundaries r a ha)⟩

theorem isNewRecord_iff : s.isNewRecord recordId = true ↔
    s.applied.get recordId = none ∧ s.boundaries.get recordId = none := by
  simp [isNewRecord]

theorem insert_kept {α : Type} {table : FinMap String α} (hnew : table.get recordId = none) (v : α)
    {r : String} {a : α} (h : table.get r = some a) : (table.insert recordId v).get r = some a := by
  have hne : r ≠ recordId := fun he => by
    rw [he, hnew] at h
    cases h
  rw [FinMap.get_insert_of_ne _ hne, h]

theorem stageRecord_ok {receipt : ApplyReceipt} {staged : Option AppliedRecord} {total : ℕ}
    (h : s.stageRecord c bytes metadata receipt = .ok (staged, total)) :
    staged = if s.isNewRecord metadata.recordId then
      some ⟨inputIdentity bytes, metadata, receipt⟩ else none := by
  unfold stageRecord at h
  split_ifs at h ⊢
  · obtain ⟨retained, -, h⟩ := bind_eq_ok.1 h
    obtain ⟨admitted, -, h⟩ := bind_eq_ok.1 h
    cases h
    rfl
  · cases h
    rfl

theorem published_extends {plan : MessagePlan}
    (h : s.planMessage m c bytes metadata = .ok plan) : Extends s (s.published metadata plan) := by
  obtain ⟨record, next, observation, message, event, change, hplanned⟩ := planMessage_ok h
  refine ⟨rfl, rfl, rfl, fun r a ha => ?_, fun r a ha => ha⟩
  have hstaged := stageRecord_ok hplanned.staged
  change (plan.record.elim s.applied (s.applied.insert metadata.recordId)).get r = some a
  rw [hstaged]
  split_ifs with hnew
  · exact insert_kept (isNewRecord_iff.1 hnew).1 _ ha
  · exact ha

structure BoundaryTables (s : CapturedSessionPipeline) (kind : BoundaryKind) (recordId reason : String)
    (receipt : BoundaryReceipt) (t : CapturedSessionPipeline) : Prop where
  captureNamespace : t.captureNamespace = s.captureNamespace
  sourceId : t.sourceId = s.sourceId
  session : t.session = s.session
  applied : t.applied = s.applied
  boundaries : t.boundaries = if s.isNewRecord recordId then
    s.boundaries.insert recordId ⟨kind, reason, receipt⟩ else s.boundaries

theorem BoundaryTables.extends {kind : BoundaryKind} {receipt : BoundaryReceipt}
    (h : BoundaryTables s kind recordId reason receipt t) : Extends s t := by
  refine ⟨h.captureNamespace, h.sourceId, h.session, fun r a ha => by rw [h.applied, ha],
    fun r a ha => ?_⟩
  rw [h.boundaries]
  split_ifs with hnew
  · exact insert_kept (isNewRecord_iff.1 hnew).2 _ ha
  · exact ha

theorem gap_tables {receipt : BoundaryReceipt}
    (h : s.gapTransaction m c recordId reason = .ok (receipt, t)) :
    BoundaryTables s .gap recordId reason receipt t := by
  obtain ⟨⟨status, observer⟩, -, h⟩ := bind_eq_ok.1 h
  obtain ⟨⟨ribStatus, rib⟩, -, h⟩ := bind_eq_ok.1 h
  obtain ⟨next, hretain, h⟩ := bind_eq_ok.1 h
  cases h
  obtain ⟨ht, hboundaries⟩ := retainBoundary_ok hretain
  have hframe : t.captureNamespace = s.captureNamespace ∧ t.sourceId = s.sourceId ∧
      t.session = s.session ∧ t.applied = s.applied := by
    rw [ht]
    exact ⟨rfl, rfl, rfl, rfl⟩
  exact ⟨hframe.1, hframe.2.1, hframe.2.2.1, hframe.2.2.2, hboundaries⟩

theorem reset_tables {receipt : BoundaryReceipt}
    (h : s.resetTransaction m c recordId reason = .ok (receipt, t)) :
    BoundaryTables s .reset recordId reason receipt t := by
  obtain ⟨wire, -, h⟩ := bind_eq_ok.1 h
  obtain ⟨⟨status, observer⟩, -, h⟩ := bind_eq_ok.1 h
  obtain ⟨⟨ribStatus, rib⟩, -, h⟩ := bind_eq_ok.1 h
  obtain ⟨next, hretain, h⟩ := bind_eq_ok.1 h
  cases h
  obtain ⟨ht, hboundaries⟩ := retainBoundary_ok hretain
  have hframe : t.captureNamespace = s.captureNamespace ∧ t.sourceId = s.sourceId ∧
      t.session = s.session ∧ t.applied = s.applied := by
    rw [ht]
    exact ⟨rfl, rfl, rfl, rfl⟩
  exact ⟨hframe.1, hframe.2.1, hframe.2.2.1, hframe.2.2.2, hboundaries⟩

theorem Extends.retainedMessage (h : Extends s t) {receipt : ApplyReceipt}
    (hretained : s.retainedMessage bytes metadata = some receipt) :
    t.retainedMessage bytes metadata = some receipt := by
  obtain ⟨previous, hget, hsame⟩ := Option.bind_eq_some_iff.1 hretained
  exact Option.bind_eq_some_iff.2 ⟨previous, h.applied _ _ hget, hsame⟩

theorem Extends.retainedBoundary (h : Extends s t) {kind : BoundaryKind} {receipt : BoundaryReceipt}
    (hretained : s.retainedBoundary kind recordId reason = some receipt) :
    t.retainedBoundary kind recordId reason = some receipt := by
  obtain ⟨previous, hget, hsame⟩ := Option.bind_eq_some_iff.1 hretained
  exact Option.bind_eq_some_iff.2 ⟨previous, h.boundaries _ _ hget, hsame⟩

def Kept (t : CapturedSessionPipeline) : Call → Receipt → Prop
  | .message bytes metadata, .message r =>
    t.InScope bytes metadata ∧ t.retainedMessage bytes metadata = some r
  | .gap recordId reason, .boundary r => t.retainedBoundary .gap recordId reason = some r
  | .reset recordId reason, .boundary r => t.retainedBoundary .reset recordId reason = some r
  | _, _ => False

/-- The part of a receipt that a replay repeats. -/
def SameRecord : Receipt → Receipt → Prop
  | .message a, .message b =>
    b.normalized = a.normalized ∧ b.observationSha256 = a.observationSha256
  | .boundary a, .boundary b =>
    b.previousGeneration = a.previousGeneration ∧ b.generation = a.generation
  | _, _ => False

theorem Kept.extends {x : Call} {r : Receipt} (h : s.Kept x r) (he : Extends s t) : t.Kept x r := by
  cases x with
  | message bytes metadata =>
    cases r with
    | boundary r => exact h
    | message r =>
      obtain ⟨⟨hbound, hspans⟩, hretained⟩ := h
      refine ⟨⟨?_, ?_⟩, he.retainedMessage hretained⟩
      · rw [he.sourceId, he.session]
        exact hbound
      · rw [he.captureNamespace]
        exact hspans
  | gap recordId reason =>
    cases r with
    | boundary r => exact he.retainedBoundary h
    | message r => exact h
  | reset recordId reason =>
    cases r with
    | boundary r => exact he.retainedBoundary h
    | message r => exact h

theorem admitReplay_error {receipt : ApplyReceipt} {e : Error} (h : s.admitReplay receipt = .error e) :
    e.code = .limitExceeded := by
  unfold admitReplay at h
  split at h
  · unfold admitContinuity at h
    dsimp only at h
    split_ifs at h
    cases h
    rfl
  · cases h

theorem boundary_kept {kind : BoundaryKind}
    {transaction : CapturedSessionPipeline → Result (BoundaryReceipt × CapturedSessionPipeline)}
    {receipt : BoundaryReceipt} (h : t.retainedBoundary kind recordId reason = some receipt) :
    boundary kind recordId reason transaction t = (.ok (replayedBoundary receipt), t) := by
  unfold boundary
  rw [Method.read_bind, h]
  rfl

theorem Kept.answer {x : Call} {r : Receipt} (h : t.Kept x r) :
    (call m c t x).2 = t ∧ ((∃ r', (call m c t x).1 = .ok r' ∧ r'.replayed = true ∧ SameRecord r r') ∨
      ∃ e, (call m c t x).1 = .error e ∧ e.code = .limitExceeded) := by
  cases x with
  | message bytes metadata =>
    cases r with
    | boundary r => exact absurd h id
    | message r =>
      obtain ⟨hscope, hretained⟩ := h
      have hstep := applyMessage_step m c t bytes metadata
      unfold call
      dsimp only
      generalize applyMessage m c bytes metadata t = answer at hstep ⊢
      obtain ⟨result, u⟩ := answer
      dsimp only at hstep ⊢
      cases hstep with
      | refused e hno =>
        rcases hno with hno | hno
        · exact absurd hscope hno
        · rw [hretained] at hno
          cases hno
      | applied scope fresh =>
        rw [hretained] at fresh
        cases fresh
      | replayed scope hsome =>
        rw [hretained] at hsome
        cases hsome
        refine ⟨rfl, ?_⟩
        unfold replayMessage
        cases hadmit : t.admitReplay r with
        | error e => exact .inr ⟨e, rfl, admitReplay_error hadmit⟩
        | ok u => exact .inl ⟨_, rfl, rfl, rfl, rfl⟩
  | gap recordId reason =>
    cases r with
    | message r => exact absurd h id
    | boundary r =>
      unfold call observeGap
      dsimp only
      rw [boundary_kept h]
      exact ⟨rfl, .inl ⟨_, rfl, rfl, rfl, rfl⟩⟩
  | reset recordId reason =>
    cases r with
    | message r => exact absurd h id
    | boundary r =>
      unfold call resetGeneration
      dsimp only
      rw [boundary_kept h]
      exact ⟨rfl, .inl ⟨_, rfl, rfl, rfl, rfl⟩⟩

theorem message_kept {plan : MessagePlan} (scope : s.InScope bytes metadata)
    (hnew : s.isNewRecord metadata.recordId = true)
    (h : s.planMessage m c bytes metadata = .ok plan) :
    (s.published metadata plan).Kept (.message bytes metadata) (.message plan.receipt) := by
  obtain ⟨record, next, observation, message, event, change, hplanned⟩ := planMessage_ok h
  have hstaged := stageRecord_ok hplanned.staged
  rw [if_pos hnew] at hstaged
  refine ⟨scope, Option.bind_eq_some_iff.2 ⟨⟨inputIdentity bytes, metadata, plan.receipt⟩, ?_, ?_⟩⟩
  · simp [published, hstaged]
  · simp

theorem BoundaryTables.kept {kind : BoundaryKind} {receipt : BoundaryReceipt}
    (h : BoundaryTables s kind recordId reason receipt t) (hnew : s.isNewRecord recordId = true) :
    t.retainedBoundary kind recordId reason = some receipt := by
  refine Option.bind_eq_some_iff.2 ⟨⟨kind, reason, receipt⟩, ?_, ?_⟩
  · rw [h.boundaries, if_pos hnew, FinMap.get_insert_self]
  · simp

theorem retained_of_message {receipt : ApplyReceipt}
    (h : s.retainedMessage bytes metadata = some receipt) :
    s.isNewRecord metadata.recordId = false := by
  obtain ⟨previous, hget, -⟩ := Option.bind_eq_some_iff.1 h
  rw [Bool.eq_false_iff, ne_eq, isNewRecord_iff, hget]
  simp

theorem retained_of_boundary {kind : BoundaryKind} {receipt : BoundaryReceipt}
    (h : s.retainedBoundary kind recordId reason = some receipt) :
    s.isNewRecord recordId = false := by
  obtain ⟨previous, hget, -⟩ := Option.bind_eq_some_iff.1 h
  rw [Bool.eq_false_iff, ne_eq, isNewRecord_iff, hget]
  simp

theorem boundary_tables (s : CapturedSessionPipeline) {kind : BoundaryKind}
    (transaction : CapturedSessionPipeline → Result (BoundaryReceipt × CapturedSessionPipeline))
    (htables : ∀ receipt t, transaction s = .ok (receipt, t) →
      BoundaryTables s kind recordId reason receipt t) :
    Extends s (boundary kind recordId reason transaction s).2 ∧
      (∀ e, (boundary kind recordId reason transaction s).1 = .error e →
        (boundary kind recordId reason transaction s).2 = s) ∧
      ∀ receipt, (boundary kind recordId reason transaction s).1 = .ok receipt →
        s.isNewRecord recordId = true →
        (boundary kind recordId reason transaction s).2.retainedBoundary kind recordId reason =
          some receipt := by
  have hstep := boundary_step s kind recordId reason transaction
  generalize boundary kind recordId reason transaction s = answer at hstep ⊢
  obtain ⟨result, u⟩ := answer
  dsimp only at hstep ⊢
  cases hstep with
  | refused e =>
    refine ⟨Extends.refl _, fun _ _ => rfl, fun r hr => ?_⟩
    cases hr
  | replayed h =>
    refine ⟨Extends.refl _, fun _ _ => rfl, fun r _ hnew => ?_⟩
    rw [retained_of_boundary h] at hnew
    cases hnew
  | applied fresh usable done =>
    refine ⟨(htables _ _ done).extends, fun e he => ?_, fun r hr hnew => ?_⟩
    · cases he
    · cases hr
      exact (htables _ _ done).kept hnew

theorem message_tables (s : CapturedSessionPipeline) (bytes : EvidenceBytes)
    (metadata : PcapMetadata) :
    Extends s (applyMessage m c bytes metadata s).2 ∧
      (∀ e, (applyMessage m c bytes metadata s).1 = .error e →
        (applyMessage m c bytes metadata s).2 = s) ∧
      ∀ receipt, (applyMessage m c bytes metadata s).1 = .ok receipt →
        s.isNewRecord metadata.recordId = true →
        (applyMessage m c bytes metadata s).2.Kept (.message bytes metadata) (.message receipt) := by
  have hstep := applyMessage_step m c s bytes metadata
  generalize applyMessage m c bytes metadata s = answer at hstep ⊢
  obtain ⟨result, u⟩ := answer
  dsimp only at hstep ⊢
  cases hstep with
  | refused e =>
    refine ⟨Extends.refl _, fun _ _ => rfl, fun r hr => ?_⟩
    cases hr
  | replayed scope h =>
    refine ⟨Extends.refl _, fun _ _ => rfl, fun r _ hnew => ?_⟩
    rw [retained_of_message h] at hnew
    cases hnew
  | applied scope fresh usable planned =>
    refine ⟨published_extends planned, fun e he => ?_, fun r hr hnew => ?_⟩
    · cases he
    · cases hr
      exact message_kept scope hnew planned

theorem call_tables (s : CapturedSessionPipeline) (x : Call) :
    Extends s (call m c s x).2 ∧ (∀ e, (call m c s x).1 = .error e → (call m c s x).2 = s) ∧
      ∀ r, (call m c s x).1 = .ok r → s.isNewRecord x.recordId = true → (call m c s x).2.Kept x r := by
  cases x with
  | message bytes metadata =>
    obtain ⟨hextends, hatomic, hkept⟩ := message_tables (m := m) (c := c) s bytes metadata
    refine ⟨hextends, fun e he => hatomic e (map_error he), fun r hr hnew => ?_⟩
    obtain ⟨receipt, hok, rfl⟩ := map_ok hr
    exact hkept receipt hok hnew
  | gap recordId reason =>
    obtain ⟨hextends, hatomic, hkept⟩ := boundary_tables s
      (fun s => s.gapTransaction m c recordId reason) fun _ _ => gap_tables
    refine ⟨hextends, fun e he => hatomic e (map_error he), fun r hr hnew => ?_⟩
    obtain ⟨receipt, hok, rfl⟩ := map_ok hr
    exact hkept receipt hok hnew
  | reset recordId reason =>
    obtain ⟨hextends, hatomic, hkept⟩ := boundary_tables s
      (fun s => s.resetTransaction m c recordId reason) fun _ _ => reset_tables
    refine ⟨hextends, fun e he => hatomic e (map_error he), fun r hr hnew => ?_⟩
    obtain ⟨receipt, hok, rfl⟩ := map_ok hr
    exact hkept receipt hok hnew

theorem run_extends {calls : List Call} (h : Run m c s calls t) : Extends s t := by
  induction h with
  | nil => exact Extends.refl s
  | snoc before x ih => exact ih.trans (call_tables _ x).1

/-- A failed call changes nothing, and a successful one is answered from its receipt when it is
repeated, or a limit is exceeded. -/
theorem calls_atomic_replayed (s : CapturedSessionPipeline) (x : Call) :
    (∀ e, (call m c s x).1 = .error e → (call m c s x).2 = s) ∧
    ∀ r, (call m c s x).1 = .ok r → s.isNewRecord x.recordId = true →
      ∀ calls t, Run m c (call m c s x).2 calls t →
        (call m c t x).2 = t ∧
        ((∃ r', (call m c t x).1 = .ok r' ∧ r'.replayed = true ∧ SameRecord r r') ∨
          ∃ e, (call m c t x).1 = .error e ∧ e.code = .limitExceeded) := by
  obtain ⟨-, hatomic, hkept⟩ := call_tables (m := m) (c := c) s x
  exact ⟨hatomic, fun r hr hnew calls t hrun => ((hkept r hr hnew).extends (run_extends hrun)).answer⟩

/-- A KEEPALIVE that is repeated behind a reset of the caller. -/
theorem calls_atomic_replayed_keepalive : ∃ r t, t.wire.generation = 1 ∧
    (call SessionObserver.sampleLayout sampleCarrier t (sampleMessage "k" 0 4 [])).2 = t ∧
    ((∃ r', (call SessionObserver.sampleLayout sampleCarrier t (sampleMessage "k" 0 4 [])).1 =
        .ok r' ∧ r'.replayed = true ∧ SameRecord r r') ∨
      ∃ e, (call SessionObserver.sampleLayout sampleCarrier t (sampleMessage "k" 0 4 [])).1 =
        .error e ∧ e.code = .limitExceeded) := by
  have hok : (call SessionObserver.sampleLayout sampleCarrier sampleStart
      (sampleMessage "k" 0 4 [])).1.isOk = true := by decide +kernel
  cases hr : (call SessionObserver.sampleLayout sampleCarrier sampleStart
      (sampleMessage "k" 0 4 [])).1 with
  | error e =>
    rw [hr] at hok
    cases hok
  | ok r =>
    exact ⟨r, callAll SessionObserver.sampleLayout sampleCarrier
        (call SessionObserver.sampleLayout sampleCarrier sampleStart (sampleMessage "k" 0 4 [])).2
        [.reset "r" "flow"], by decide +kernel,
      (calls_atomic_replayed sampleStart (sampleMessage "k" 0 4 [])).2 r hr (by decide +kernel) _ _
        (run_callAll _ _)⟩

def messageEvent (c : Carrier) (s : CapturedSessionPipeline) (bytes : EvidenceBytes)
    (metadata : PcapMetadata) : Result (Observation × Event) := do
  let (record, next) ← decode c bytes metadata s.wire s.limits
  let observation ← Observation.fromNormalized c record
  let message ← sessionEvent observation s.observer.key.source next.generation
  .ok (observation, { message with kind := capturedKind bytes message.kind })

/-- Neither the session event nor the change of the routes is one of those under the record. -/
def Unlike (c : Carrier) (s : CapturedSessionPipeline) (observation : Observation) (event : Event) :
    Prop :=
  event ∉ s.observer.events ∨ ∃ change, ribEvent c s.limits observation event = .ok (some change) ∧
    change ∉ s.rib.events ∧ ∃ old ∈ s.rib.events, old.recordId = event.recordId

/-- A message under a known record that is seen to differ from it. -/
def Detects (c : Carrier) (s : CapturedSessionPipeline) (bytes : EvidenceBytes)
    (metadata : PcapMetadata) : Prop :=
  s.tainted = true ∨ (s.retainedMessage bytes metadata = none ∧ ∃ observation event,
    s.messageEvent c bytes metadata = .ok (observation, event) ∧ s.Unlike c observation event)

def RoutesInactive (c : Carrier) (s : CapturedSessionPipeline) (record : Decoded) : Prop :=
  ∀ route ∈ record.message.records, ∀ k e, s.rib.entries.get k = some e →
    k.route = (Observation.routeObservation c route).route → e.status ≠ .active

theorem Planned.messageEvent {plan : MessagePlan} {record : Decoded} {next : WireState}
    {observation : Observation} {message event : Event} {change : Option RibEvent}
    (h : Planned m c s bytes metadata plan record next observation message event change) :
    s.messageEvent c bytes metadata = .ok (observation, event) := by
  unfold CapturedSessionPipeline.messageEvent
  rw [h.captured]
  exact bind_eq_ok.2 ⟨_, h.decoded, bind_eq_ok.2 ⟨_, h.observed, bind_eq_ok.2 ⟨_, h.described, rfl⟩⟩⟩

def Filed (s : CapturedSessionPipeline) : Prop :=
  ∀ r a, s.applied.get r = some a → ∃ old ∈ s.observer.events, old.recordId = r

theorem call_applied {x : Call} {r : String} {a : AppliedRecord}
    (h : (call m c s x).2.applied.get r = some a) : s.applied.get r = some a ∨ r = x.recordId := by
  cases x with
  | message bytes metadata =>
    have hstep := applyMessage_step m c s bytes metadata
    unfold call at h
    dsimp only at h
    generalize (applyMessage m c bytes metadata s).1 = result at hstep
    generalize (applyMessage m c bytes metadata s).2 = t at hstep h
    cases hstep with
    | refused e => exact .inl h
    | replayed scope hretained => exact .inl h
    | applied scope fresh usable planned =>
      obtain ⟨_, _, _, _, _, _, hplanned⟩ := planMessage_ok planned
      have hstaged := stageRecord_ok hplanned.staged
      simp only [published, hstaged] at h
      split_ifs at h
      · by_cases hr : r = metadata.recordId
        · exact .inr hr
        · exact .inl (by simpa [FinMap.get_insert, hr] using h)
      · exact .inl h
  | gap recordId reason =>
    have hstep := boundary_step s .gap recordId reason fun s => s.gapTransaction m c recordId reason
    unfold call observeGap at h
    dsimp only at h
    generalize boundary .gap recordId reason (fun s => s.gapTransaction m c recordId reason) s
      = answer at hstep h
    obtain ⟨result, t⟩ := answer
    dsimp only at hstep h
    cases hstep with
    | refused e => exact .inl h
    | replayed hretained => exact .inl h
    | applied fresh usable done => exact .inl (by rwa [(gap_tables done).applied] at h)
  | reset recordId reason =>
    have hstep := boundary_step s .reset recordId reason
      fun s => s.resetTransaction m c recordId reason
    unfold call resetGeneration at h
    dsimp only at h
    generalize boundary .reset recordId reason (fun s => s.resetTransaction m c recordId reason) s
      = answer at hstep h
    obtain ⟨result, t⟩ := answer
    dsimp only at hstep h
    cases hstep with
    | refused e => exact .inl h
    | replayed hretained => exact .inl h
    | applied fresh usable done => exact .inl (by rwa [(reset_tables done).applied] at h)

theorem call_recorded (h : Lockstep m c s) (hfiled : s.Filed) (x : Call) :
    s.observer.events ⊆ (call m c s x).2.observer.events ∧ (call m c s x).2.Filed ∧
      ∀ bytes metadata r, x = .message bytes metadata → (call m c s x).1 = .ok r →
        ∃ old ∈ (call m c s x).2.observer.events, old.recordId = metadata.recordId := by
  have hstep := call_step (m := m) (c := c) (s := s) x
  have happlied (r : String) (a : AppliedRecord) :=
    call_applied (m := m) (c := c) (s := s) (x := x) (r := r) (a := a)
  generalize (call m c s x).1 = result at hstep ⊢
  generalize (call m c s x).2 = t at hstep happlied ⊢
  cases hstep with
  | refused e =>
    refine ⟨List.Subset.refl _, hfiled, ?_⟩
    rintro bytes metadata r - hr
    cases hr
  | replayed retained status =>
    refine ⟨List.Subset.refl _, hfiled, ?_⟩
    rintro bytes metadata r rfl -
    obtain ⟨receipt, hretained⟩ := Option.isSome_iff_exists.1 retained
    obtain ⟨previous, hget, -⟩ := Option.bind_eq_some_iff.1 hretained
    exact hfiled _ _ hget
  | applied fresh status record effect =>
    obtain ⟨hmem, hsub⟩ := SessionObserver.mem_commit h.observer.invariant effect.prepared
    rw [← effect.observer] at hmem hsub
    refine ⟨hsub, fun r a ha => ?_, ?_⟩
    · rcases happlied r a ha with hold | rfl
      · obtain ⟨old, hin, hid⟩ := hfiled r a hold
        exact ⟨old, hsub hin, hid⟩
      · exact ⟨_, hmem, record⟩
    · rintro bytes metadata r rfl -
      exact ⟨_, hmem, record⟩

theorem run_recorded {calls : List Call} (h : Lockstep m c s) (hfiled : s.Filed)
    (hrun : Run m c s calls t) : s.observer.events ⊆ t.observer.events ∧ t.Filed := by
  induction hrun with
  | nil => exact ⟨List.Subset.refl _, hfiled⟩
  | snoc before x ih =>
    obtain ⟨hsub, hfiled', -⟩ := call_recorded (h.run before) ih.2 x
    exact ⟨List.Subset.trans ih.1 hsub, hfiled'⟩

theorem Reachable.filed (h : Reachable m c s) : s.Filed := by
  obtain ⟨_, _, _, _, _, _, start, calls, hnew, hrun⟩ := h
  refine (run_recorded (lockstep_new hnew) ?_ hrun).2
  obtain ⟨_, -, hnew⟩ := bind_eq_ok.1 hnew
  obtain ⟨_, -, hnew⟩ := bind_eq_ok.1 hnew
  obtain ⟨_, -, hnew⟩ := bind_eq_ok.1 hnew
  cases hnew
  exact fun r a ha => by cases ha

theorem published_tainted_iff (h : Lockstep m c s) (scope : s.InScope bytes metadata)
    (usable : s.tainted = false) {plan : MessagePlan} {record : Decoded} {next : WireState}
    {observation : Observation} {message event : Event} {change : Option RibEvent}
    (hplanned : Planned m c s bytes metadata plan record next observation message event change)
    (hknown : ∃ old ∈ s.observer.events, old.recordId = metadata.recordId) :
    (s.published metadata plan).tainted = true ↔ s.Unlike c observation event := by
  have e := message_effect scope usable hplanned
  obtain ⟨hrecord, -, -, -⟩ := hplanned.event_record scope
  obtain ⟨hlive, ht, -⟩ := h.usable usable
  have hinv := h.observer.invariant
  rw [e.tainted, boundaryTaint, Bool.or_eq_true, decide_eq_true_eq, decide_eq_true_eq, Unlike]
  by_cases hmem : event ∈ s.observer.events
  · have hstatus : plan.sessionPlan.status = .identicalReplay := by
      obtain ⟨-, hstatus, -⟩ | ⟨hno, -⟩ := SessionObserver.prepare_events hinv e.prepared
      · exact hstatus
      · exact absurd hmem hno
    have hboundary : event.kind.isBoundary = false := by
      obtain ⟨-, -, -, hno, -⟩ | ⟨hs, -⟩ | ⟨hs, -⟩ := h.session_step e
      · exact hno
      · simp [hstatus] at hs
      · simp [hstatus] at hs
    have hchanged := hplanned.changed
    rw [hstatus] at hchanged
    rw [ribEventFor_replay hboundary hchanged, hstatus]
    have hchange := e.move.within
    have heffect := e.rib
    generalize (s.published metadata plan).rib = rib at heffect
    generalize plan.receipt.ribStatus = ribStatus at heffect ⊢
    cases heffect with
    | unchanged => simp [hmem]
    | committed hrib =>
      rename_i r origin ribPlan
      obtain ⟨hsession, hid⟩ := hchange r rfl
      have hlabel : (∃ old ∈ s.rib.events, AdjRibIn.label old = AdjRibIn.label r) ↔
          ∃ old ∈ s.rib.events, old.recordId = event.recordId := by
        refine exists_congr fun old => and_congr_right fun hold => ?_
        simp [AdjRibIn.label, h.session old hold, hsession, hid]
      have hconflict := AdjRibIn.prepared_conflict (AdjRibIn.indexed_reachable h.rib)
        (hsession ▸ ht) hrib
      rw [hlabel] at hconflict
      simp [hmem, hconflict]
  · have hstatus : plan.sessionPlan.status = .identityConflict := by
      refine (SessionObserver.prepare_conflict hinv hlive e.prepared).2 ⟨hmem, ?_⟩
      rwa [hrecord]
    simp [hstatus, hmem]

/-- Another message under a known record taints the pipeline exactly when it is seen to differ. -/
theorem changed_record_taints_iff (h : Reachable m c s) {first : EvidenceBytes}
    {firstMetadata : PcapMetadata} {receipt : ApplyReceipt} {start : CapturedSessionPipeline}
    (hfirst : applyMessage m c first firstMetadata s = (.ok receipt, start)) {calls : List Call}
    (hrun : Run m c start calls t) {second : EvidenceBytes} {secondMetadata : PcapMetadata}
    {receipt' : ApplyReceipt} {u : CapturedSessionPipeline}
    (hrecord : secondMetadata.recordId = firstMetadata.recordId)
    (hsecond : applyMessage m c second secondMetadata t = (.ok receipt', u)) :
    (u.tainted = true ∧ RoutesInactive c u receipt'.normalized) ↔
      t.Detects c second secondMetadata := by
  have hcall : call m c s (.message first firstMetadata) = (.ok (.message receipt), start) := by
    simp only [call, hfirst]
    rfl
  have hlock := h.lockstep
  obtain ⟨-, hfiled, hknown⟩ := call_recorded hlock h.filed (.message first firstMetadata)
  have hstart := hlock.call (.message first firstMetadata)
  rw [hcall] at hfiled hknown hstart
  have ht : Lockstep m c t := hstart.run hrun
  obtain ⟨hsub, -⟩ := run_recorded hstart hfiled hrun
  obtain ⟨old, hold, hid⟩ := hknown _ _ _ rfl rfl
  have hu : Lockstep m c u := by
    have hu := ht.call (.message second secondMetadata)
    rwa [show call m c t (.message second secondMetadata) = (.ok (.message receipt'), u) by
      simp only [call, hsecond]; rfl] at hu
  have hroutes : u.tainted = true ∧ RoutesInactive c u receipt'.normalized ↔ u.tainted = true :=
    ⟨And.left, fun hbad => ⟨hbad, fun _ _ k e hget _ => hu.inactive hbad hget⟩⟩
  rw [hroutes, Detects]
  have hstep := applyMessage_step m c t second secondMetadata
  rw [hsecond] at hstep
  dsimp only at hstep
  generalize hresult : (Except.ok receipt' : Result ApplyReceipt) = result at hstep
  cases hstep with
  | refused e => cases hresult
  | replayed scope hretained => simp [hretained]
  | applied scope fresh usable planned =>
    obtain ⟨record, next, observation, message, event, change, hplanned⟩ := planMessage_ok planned
    have hiff := published_tainted_iff ht scope usable hplanned
      ⟨old, hsub hold, hid.trans hrecord.symm⟩
    simp only [usable, fresh, Bool.false_eq_true, false_or, true_and, hplanned.messageEvent]
    rw [hiff]
    constructor
    · intro hunlike
      exact ⟨observation, event, rfl, hunlike⟩
    · rintro ⟨_, _, hsame, hunlike⟩
      cases hsame
      exact hunlike

theorem answer_of_isOk {α : Type} {r : Result α} (h : r.isOk = true) : ∃ a, r = .ok a := by
  cases r with
  | error e => cases h
  | ok a => exact ⟨a, rfl⟩

theorem retainedMessage_none {other : PcapMetadata}
    (h : (s.applied.get metadata.recordId).map (·.metadata) = some other) (hne : other ≠ metadata) :
    s.retainedMessage bytes metadata = none := by
  obtain ⟨previous, hget, rfl⟩ := Option.map_eq_some_iff.1 h
  simp [retainedMessage, hget, hne]

theorem applyMessage_planned {plan : MessagePlan} (scope : s.InScope bytes metadata)
    (fresh : s.retainedMessage bytes metadata = none) (usable : s.tainted = false)
    (planned : s.planMessage m c bytes metadata = .ok plan) :
    applyMessage m c bytes metadata s = (.ok plan.receipt, s.published metadata plan) := by
  unfold applyMessage
  rw [Method.read_bind, if_neg (by simp [scope.1]), if_neg, fresh]
  · dsimp only
    have husable : s.requireUsable = .ok () := requireUsable_ok.2 usable
    rw [Method.lift_bind husable, Method.lift_bind planned]
    rfl
  · simp only [scope.2.1, false_or, List.any_eq_true, not_exists, not_and, decide_eq_true_eq,
      not_not]
    exact scope.2.2

instance (bytes : EvidenceBytes) (metadata : PcapMetadata) : Decidable (s.InScope bytes metadata) :=
  inferInstanceAs (Decidable ((_ ∧ _) ∧ _ ∧ _))

def sampleOrigin : EvidenceBytes := sampleBytes 2 [0, 0, 0, 4, 0x40, 1, 1, 0]

def sampleWithdrawal : EvidenceBytes := sampleBytes 2 [0, 4, 24, 203, 0, 113, 0, 0]

def sampleFirst : PcapMetadata := sampleMetadata "u" 0

/-- The same record a nanosecond later. -/
def sampleSecond : PcapMetadata := { sampleFirst with observedAtNs := some 1 }

def sampleKnown : CapturedSessionPipeline :=
  (applyMessage SessionObserver.sampleLayout sampleCarrier sampleOrigin sampleFirst sampleStart).2

theorem sampleKnown_applied : ∃ receipt, applyMessage SessionObserver.sampleLayout sampleCarrier
    sampleOrigin sampleFirst sampleStart = (.ok receipt, sampleKnown) := by
  have hok : (applyMessage SessionObserver.sampleLayout sampleCarrier sampleOrigin sampleFirst
      sampleStart).1.isOk = true := by decide +kernel
  obtain ⟨receipt, hreceipt⟩ := answer_of_isOk hok
  exact ⟨receipt, Prod.ext hreceipt rfl⟩

theorem sampleKnown_answers {bytes : EvidenceBytes} {plan : MessagePlan}
    (scope : sampleKnown.InScope bytes sampleSecond)
    (h : sampleKnown.planMessage SessionObserver.sampleLayout sampleCarrier bytes sampleSecond =
      .ok plan) :
    applyMessage SessionObserver.sampleLayout sampleCarrier bytes sampleSecond sampleKnown =
      (.ok plan.receipt, sampleKnown.published sampleSecond plan) := by
  have hkept : (sampleKnown.applied.get sampleSecond.recordId).map (·.metadata) =
      some sampleFirst := by decide +kernel
  exact applyMessage_planned scope (retainedMessage_none hkept (by decide)) (by decide +kernel) h

/-- A KEEPALIVE under the record of an UPDATE. -/
theorem changed_record_taints_iff_keepalive :
    ∃ (t u : CapturedSessionPipeline) (record : Decoded),
      (u.tainted = true ∧ RoutesInactive sampleCarrier u record) ↔
        t.Detects sampleCarrier (sampleBytes 4 []) sampleSecond := by
  obtain ⟨receipt, hfirst⟩ := sampleKnown_applied
  have hok : (sampleKnown.planMessage SessionObserver.sampleLayout sampleCarrier (sampleBytes 4 [])
      sampleSecond).isOk = true := by decide +kernel
  obtain ⟨plan, hplan⟩ := answer_of_isOk hok
  exact ⟨_, _, _, changed_record_taints_iff (reachable_sample []) hfirst .nil rfl
    (sampleKnown_answers (by decide +kernel) hplan)⟩

/-- An UPDATE that withdraws a route under the record of one that had none. -/
theorem changed_record_untainted : ¬ ∀ (s t u start : CapturedSessionPipeline)
    (first second : EvidenceBytes) (firstMetadata secondMetadata : PcapMetadata)
    (receipt receipt' : ApplyReceipt) (calls : List Call),
    Reachable SessionObserver.sampleLayout sampleCarrier s →
    applyMessage SessionObserver.sampleLayout sampleCarrier first firstMetadata s =
      (.ok receipt, start) →
    Run SessionObserver.sampleLayout sampleCarrier start calls t →
    secondMetadata.recordId = firstMetadata.recordId →
    secondMetadata.sourceId = firstMetadata.sourceId →
    secondMetadata.session = firstMetadata.session →
    secondMetadata.direction = firstMetadata.direction → second.data ≠ first.data →
    applyMessage SessionObserver.sampleLayout sampleCarrier second secondMetadata t =
      (.ok receipt', u) →
    u.tainted = true ∧ RoutesInactive sampleCarrier u receipt'.normalized := by
  intro hclaim
  have hplan : (sampleKnown.planMessage SessionObserver.sampleLayout sampleCarrier sampleWithdrawal
      sampleSecond).map (fun plan => boundaryTaint plan.receipt.sessionStatus
        plan.receipt.ribStatus) = .ok false := by decide +kernel
  obtain ⟨plan, hplan, hclean⟩ := map_ok hplan
  obtain ⟨receipt, hfirst⟩ := sampleKnown_applied
  have hanswer := sampleKnown_answers (by decide +kernel) hplan
  have hbad := hclaim sampleStart sampleKnown _ sampleKnown sampleOrigin sampleWithdrawal sampleFirst
    sampleSecond receipt plan.receipt [] (reachable_sample []) hfirst .nil rfl rfl rfl rfl (by decide)
    hanswer
  exact absurd (hclean.trans hbad.1) (by decide)

end PcapEvidence.Bgp.Pipeline.CapturedSessionPipeline
