import PcapEvidence.BgpPipelineStep

/-!
# A captured session over whole runs

The decoder, the observer and the Adj-RIB-In keep the same generation in every state reached. A
failed call changes nothing, a retained call is replayed without an effect in every later state, and
a tainted pipeline is never changed again.
-/

namespace PcapEvidence.Bgp.Pipeline.CapturedSessionPipeline

open FiniteMap History Session Wire

variable {m : Layout} {c : Carrier} {s t : CapturedSessionPipeline}

section Invariant

variable {event : Event} {change : Option RibEvent} {plan : PreparedSessionEvent} {next : WireState}
    {ribStatus : Option Bgp.ApplyStatus}

theorem observer_commit {o : SessionObserver} {p : PreparedSessionEvent}
    (hr : SessionObserver.Reachable m o) (h : o.prepare m event = .ok p) :
    SessionObserver.Reachable m (o.commit p) := by
  have hcurrent := SessionObserver.preparedCurrent_self (SessionObserver.prepare_prepared h).2
  have hadmit : o.admitPrepared p = .ok () := by
    rw [SessionObserver.admitPrepared, hcurrent]
    rfl
  exact hr.apply (bind_eq_ok.2 ⟨p, h, bind_eq_ok.2 ⟨(), hadmit, rfl⟩⟩)

section Rib

variable {rib next : AdjRibIn} {change : Option RibEvent} {status : Option Bgp.ApplyStatus}
variable (h : RibEffect c rib change status next)
include h

theorem RibEffect.reachable
    (hr : AdjRibIn.Reachable c.checkRibEvent rib) : AdjRibIn.Reachable c.checkRibEvent next := by
  cases h with
  | unchanged => exact hr
  | committed h =>
    obtain ⟨owner, limits, start, plans, hnew, htrace⟩ := hr
    exact ⟨owner, limits, start, _, hnew, htrace.snoc h⟩

theorem RibEffect.mem_events (hr : AdjRibIn.Reachable c.checkRibEvent rib) (old : RibEvent) :
    old ∈ next.events ↔ old ∈ rib.events ∨ change = some old := by
  cases h with
  | unchanged => simp
  | committed h =>
    rw [(AdjRibIn.mem_commit (AdjRibIn.indexed_reachable hr) h).2 old]
    simp [eq_comm]

theorem RibEffect.tainted (hr : AdjRibIn.Reachable c.checkRibEvent rib) {key : SessionKey}
    (hkey : ∀ e ∈ change, e.scope.sessionKey = key) (ht : key ∉ rib.taintedSessions) :
    key ∈ next.taintedSessions ↔ status = some .identityConflict := by
  cases h with
  | unchanged => simp [ht]
  | committed h =>
    have hevent := hkey _ rfl
    rw [AdjRibIn.commit_taint (AdjRibIn.indexed_reachable hr) h (hevent ▸ ht), hevent]
    split_ifs with hstatus
    · simp [hstatus]
    · simp [hstatus, ht]

theorem RibEffect.stay (hr : AdjRibIn.Reachable c.checkRibEvent rib) {key : SessionKey} {g : ℕ}
    (ht : key ∉ rib.taintedSessions)
    (hwithin : ∀ e ∈ change, e.scope.sessionKey = key ∧ e.scope.generation = g ∧
      ∀ g r, e.kind ≠ .reset g r)
    (hg : rib.generations.get key = some g ∨ rib.generations.get key = none ∧ rib.events = []) :
    next.generations.get key = some g ∨ next.generations.get key = none ∧ next.events = [] := by
  cases h with
  | unchanged => exact hg
  | committed h =>
    obtain ⟨hkey, hgen, hkind⟩ := hwithin _ rfl
    left
    rw [← hkey, ← hgen] at hg ⊢
    exact AdjRibIn.commit_generation (AdjRibIn.indexed_reachable hr) h (hkey ▸ ht) hkind hg

omit h

end Rib

structure Lockstep (m : Layout) (c : Carrier) (s : CapturedSessionPipeline) : Prop where
  observer : SessionObserver.Reachable m s.observer
  rib : AdjRibIn.Reachable c.checkRibEvent s.rib
  view : ∀ view, s.observer.view = some view → view.generation = s.wire.generation
  start : s.observer.view = none → s.wire.generation = 0
  generation : s.rib.generations.get s.observer.key = some s.wire.generation ∨
    s.rib.generations.get s.observer.key = none ∧ s.rib.events = []
  session : ∀ e ∈ s.rib.events, e.scope.sessionKey = s.observer.key
  records : ∀ e ∈ s.rib.events, ∃ old ∈ s.observer.events, old.recordId = e.recordId
  usable : s.tainted = false → s.observer.Live ∧ s.observer.key ∉ s.rib.taintedSessions ∧
    ∀ old ∈ s.observer.events, ∀ g, old.previous = some g → g < s.wire.generation
  ruined : s.tainted = true → s.observer.key ∈ s.rib.taintedSessions ∨
    ∃ old ∈ s.rib.events, AdjRibIn.RibEventKind.isGap old.kind = true ∧
      old.scope.generation = s.wire.generation

theorem hasRibGeneration_iff {g : ℕ} : s.hasRibGeneration g = true ↔
    ∃ e ∈ s.rib.events, e.scope.sessionKey = s.observer.key ∧ e.scope.generation = g := by
  simp [hasRibGeneration]

theorem Lockstep.seen (h : Lockstep m c s) (hno : s.hasRibGeneration s.wire.generation = false) :
    s.rib.generations.get s.observer.key = none ∧ s.rib.events = [] := by
  rcases h.generation with hg | hg
  · obtain ⟨old, hold, hsession, hgen⟩ := (AdjRibIn.generationInv_reachable h.rib).stated _ _ hg
    rw [Bool.eq_false_iff] at hno
    exact absurd (hasRibGeneration_iff.2 ⟨old, hold, hsession, hgen⟩) hno
  · exact hg

theorem Lockstep.live (h : Lockstep m c s) {k : RouteKey} {e : RouteEntry}
    (hget : s.rib.entries.get k = some e) (hlive : e.status = .active ∨ AdjRibIn.hasCurrent e) :
    k.scope.sessionKey = s.observer.key ∧ k.scope.generation = s.wire.generation := by
  obtain ⟨⟨old, hold, route, pathId, attributes, identity, -, hkey⟩, -, hg, -⟩ :=
    AdjRibIn.current_generation h.rib hget hlive
  have hsession : k.scope.sessionKey = s.observer.key := by
    rw [hkey]
    exact h.session old hold
  rw [hsession] at hg
  refine ⟨hsession, ?_⟩
  rcases h.generation with hcurrent | ⟨hnone, -⟩
  · rw [hcurrent] at hg
    exact (Option.some.inj hg).symm
  · rw [hnone] at hg
    cases hg

theorem Lockstep.inactive (h : Lockstep m c s) (ht : s.tainted = true) {k : RouteKey} {e : RouteEntry}
    (hget : s.rib.entries.get k = some e) : e.status ≠ .active := by
  intro ha
  obtain ⟨hsession, hgen⟩ := h.live hget (.inl ha)
  obtain ⟨-, hout, -, hsilent⟩ := AdjRibIn.current_generation h.rib hget (.inl ha)
  rcases h.ruined ht with hin | ⟨old, hold, hgap, hold'⟩
  · exact hout (hsession ▸ hin)
  · exact hsilent ha ⟨old, hold, hgap, (h.session old hold).trans hsession.symm,
      hold'.trans hgen.symm⟩

theorem Lockstep.fresh_record (h : Lockstep m c s) {p : PreparedSessionEvent}
    (hlive : s.observer.Live) (hp : s.observer.prepare m event = .ok p)
    (hstatus : p.status = .applied) : ∀ old ∈ s.rib.events, old.recordId ≠ event.recordId := by
  intro old hold hrecord
  obtain ⟨e, he, hid⟩ := h.records old hold
  have hinv := h.observer.invariant
  have hconflict := (SessionObserver.prepare_conflict hinv hlive hp).not.1 (by simp [hstatus])
  obtain ⟨-, hreplay, -⟩ | ⟨hnew, -, -⟩ := SessionObserver.prepare_events hinv hp
  · simp [hstatus] at hreplay
  · exact hconflict ⟨hnew, e, he, hid.trans hrecord⟩

theorem Lockstep.session_step (h : Lockstep m c s)
    (e : Effect m c s t event plan next change ribStatus) :
    (plan.status = .identicalReplay ∧ event ∈ s.observer.events ∧ t.observer = s.observer ∧
      event.kind.isBoundary = false ∧ t.wire.generation = s.wire.generation) ∨
    (plan.status = .identityConflict ∧ t.wire = s.wire ∧ s.observer.view ≠ none ∧
      ∃ view, t.observer.view = some view ∧ view.generation = s.wire.generation) ∨
    (plan.status = .applied ∧ t.observer.Live ∧ s.wire.generation ≤ t.wire.generation ∧
      (∃ view, t.observer.view = some view ∧ view.generation = t.wire.generation) ∧
      ∀ g, event.previous = some g → g < t.wire.generation) := by
  obtain ⟨hlive, ht, hprevious⟩ := h.usable e.usable
  have hinv := h.observer.invariant
  have hgen : ∀ view, s.observer.view = some view → view.generation ≤ event.generation :=
    fun view hview => (h.view view hview).le.trans e.reached
  obtain hstatus | ⟨hstatus, view, hview, hsame⟩ | ⟨hstatus, hlive', view, hview, hview'⟩ :=
    SessionObserver.prepare_step hlive e.prepared e.opens hgen
  · left
    obtain ⟨hmem, -, hsame⟩ | ⟨-, hno, -⟩ := SessionObserver.prepare_events hinv e.prepared
    · refine ⟨hstatus, hmem, e.observer.trans hsame, ?_⟩
      rw [e.wire, if_neg (by simp [hstatus])]
      cases e.move with
      | conflict hconflict => simp [hstatus] at hconflict
      | stay clear inside same kept within => exact ⟨inside, kept⟩
      | advance clear hnext hprev moved => exact absurd (hprevious event hmem _ hprev) (lt_irrefl _)
    · exact absurd hstatus hno
  · right
    left
    obtain ⟨-, old, hold, -⟩ := (SessionObserver.prepare_conflict hinv hlive e.prepared).1 hstatus
    have hsome : s.observer.view ≠ none := fun hnone => by
      rw [hinv.started.1 hnone] at hold
      cases hold
    obtain ⟨base, hbase⟩ := Option.ne_none_iff_exists'.1 hsome
    refine ⟨hstatus, by rw [e.wire, if_pos hstatus], hsome, view, e.observer ▸ hview, ?_⟩
    rw [hsame, SessionObserver.base, hbase, Option.getD_some, h.view base hbase]
  · right
    right
    have hwire : t.wire = next := by rw [e.wire, if_neg (by simp [hstatus])]
    refine ⟨hstatus, e.observer ▸ hlive', ?_⟩
    rw [hwire]
    cases e.move with
    | conflict hconflict => simp [hstatus] at hconflict
    | stay clear inside same kept within =>
      refine ⟨kept.ge, ⟨view, e.observer ▸ hview, ?_⟩, ?_⟩
      · rw [hview', SessionObserver.next_of_boundary inside, Option.getD_none, same, kept]
      · intro g hg
        cases hk : event.kind <;> simp [EventKind.isBoundary, Event.previous, hk] at inside hg
    | advance clear hnext hprev moved =>
      refine ⟨by omega, ⟨view, e.observer ▸ hview, ?_⟩, ?_⟩
      · rw [hview', hnext, Option.getD_some, moved]
      · intro g hg
        rw [hprev] at hg
        cases hg
        omega

theorem Move.within {status : Session.ApplyStatus} {wire : WireState}
    (h : Move s event status wire change) :
    ∀ e ∈ change, e.scope.sessionKey = s.observer.key ∧ e.recordId = event.recordId := by
  rintro e he
  cases h with
  | conflict =>
    cases he
    exact ⟨rfl, rfl⟩
  | stay clear inside same kept within =>
    obtain ⟨hsession, -, hrecord, -⟩ := within e he
    exact ⟨hsession, hrecord⟩
  | advance =>
    split_ifs at he
    · cases he
      exact ⟨rfl, rfl⟩
    · cases he

theorem Lockstep.generation_step (h : Lockstep m c s)
    (e : Effect m c s t event plan next change ribStatus) :
    t.rib.generations.get s.observer.key = some t.wire.generation ∨
      t.rib.generations.get s.observer.key = none ∧ t.rib.events = [] := by
  obtain ⟨hlive, ht, -⟩ := h.usable e.usable
  have heffect := e.rib
  generalize t.rib = rib at heffect ⊢
  cases hmove : e.move with
  | conflict hstatus =>
    rw [e.wire, if_pos hstatus]
    refine heffect.stay h.rib ht ?_ h.generation
    rintro r hr
    cases hr
    exact ⟨rfl, rfl, by simp [gapEvent]⟩
  | stay clear inside same kept within =>
    rw [e.wire, if_neg clear, kept]
    refine heffect.stay h.rib ht (fun r hr => ?_) h.generation
    obtain ⟨hsession, hgen, -, hkind⟩ := within r hr
    exact ⟨hsession, hgen, hkind⟩
  | advance clear hnext hprev moved =>
    rw [e.wire, if_neg clear, moved]
    have hboundary : event.kind.isBoundary ≠ false := fun hno => by
      simp [SessionObserver.next_of_boundary hno] at hnext
    have happlied : plan.status = .applied := by
      obtain ⟨-, -, -, hno, -⟩ | ⟨hstatus, -⟩ | ⟨hstatus, -⟩ := h.session_step e
      · exact absurd hno hboundary
      · exact absurd hstatus clear
      · exact hstatus
    split_ifs at heffect with hhas
    · cases heffect with
      | committed hplan =>
        exact .inl (AdjRibIn.commit_reset (AdjRibIn.indexed_reachable h.rib) hplan ht rfl
          (h.fresh_record hlive e.prepared happlied)).2
    · cases heffect
      exact .inr (h.seen (Bool.eq_false_iff.2 hhas))

theorem Lockstep.effect (h : Lockstep m c s)
    (e : Effect m c s t event plan next change ribStatus) : Lockstep m c t := by
  obtain ⟨hlive, ht, hprevious⟩ := h.usable e.usable
  have hinv := h.observer.invariant
  have hchange := e.move.within
  have hkey : t.observer.key = s.observer.key := by
    rw [e.observer]
    exact SessionObserver.commit_key (SessionObserver.prepare_prepared e.prepared).2
  obtain ⟨hmem, hsub⟩ := SessionObserver.mem_commit hinv e.prepared
  rw [← e.observer] at hmem hsub
  have hevents := e.rib.mem_events h.rib
  have htaint : s.observer.key ∈ t.rib.taintedSessions ↔ ribStatus = some .identityConflict :=
    e.rib.tainted h.rib (fun r hr => (hchange r hr).1) ht
  have hview : (∀ view, t.observer.view = some view → view.generation = t.wire.generation) ∧
      (t.observer.view = none → t.wire.generation = 0) := by
    obtain ⟨-, -, hsame, -, hgen⟩ | ⟨-, hwire, -, view, hview, hgen⟩ |
        ⟨-, -, -, ⟨view, hview, hgen⟩, -⟩ := h.session_step e
    · rw [hsame, hgen]
      exact ⟨h.view, h.start⟩
    · rw [hwire, hview]
      simp [hgen]
    · rw [hview]
      simp [hgen]
  exact {
    observer := e.observer ▸ observer_commit h.observer e.prepared
    rib := e.rib.reachable h.rib
    view := hview.1
    start := hview.2
    generation := hkey ▸ h.generation_step e
    session := by
      intro r hr
      rw [hkey]
      rcases (hevents r).1 hr with hold | rfl
      · exact h.session r hold
      · exact (hchange r rfl).1
    records := by
      intro r hr
      rcases (hevents r).1 hr with hold | rfl
      · obtain ⟨old, hin, hid⟩ := h.records r hold
        exact ⟨old, hsub hin, hid⟩
      · exact ⟨event, hmem, (hchange r rfl).2.symm⟩
    usable := by
      intro hclean
      rw [e.tainted, boundaryTaint, Bool.or_eq_false_iff, decide_eq_false_iff_not,
        decide_eq_false_iff_not] at hclean
      rw [hkey, htaint]
      obtain ⟨hstatus, -, hsame, -, hgen⟩ | ⟨hstatus, -⟩ | ⟨hstatus, hlive', hle, -, hprev⟩ :=
        h.session_step e
      · rw [hsame, hgen]
        exact ⟨hlive, hclean.2, hprevious⟩
      · exact absurd hstatus hclean.1
      · refine ⟨hlive', hclean.2, fun old hold g hg => ?_⟩
        have hsplit := (SessionObserver.prepare_events hinv e.prepared).resolve_left
          (by simp [hstatus])
        rw [e.observer, hsplit.2.2] at hold
        rcases List.mem_append.1 hold with hold | hold
        · exact (hprevious old hold g hg).trans_le hle
        · rw [List.mem_singleton.1 hold] at hg
          exact hprev g hg
    ruined := by
      intro hbad
      rw [e.tainted, boundaryTaint, Bool.or_eq_true, decide_eq_true_eq, decide_eq_true_eq] at hbad
      rw [hkey, htaint]
      rcases hbad with hstatus | hstatus
      · right
        rw [e.wire, if_pos hstatus]
        cases hmove : e.move with
        | conflict => exact ⟨_, (hevents _).2 (.inr rfl), rfl, rfl⟩
        | stay clear => exact absurd hstatus clear
        | advance clear => exact absurd hstatus clear
      · exact .inl hstatus }

end Invariant

section Calls

variable {calls : List Call}

def Receipt.sessionStatus : Receipt → Session.ApplyStatus
  | .message r => r.sessionStatus
  | .boundary r => r.sessionStatus

def Receipt.replayed : Receipt → Bool
  | .message r => r.replayed
  | .boundary r => r.replayed

def Call.recordId : Call → String
  | .message _ metadata => metadata.recordId
  | .gap recordId _ => recordId
  | .reset recordId _ => recordId

def Retained (s : CapturedSessionPipeline) : Call → Prop
  | .message bytes metadata => (s.retainedMessage bytes metadata).isSome
  | .gap recordId reason => (s.retainedBoundary .gap recordId reason).isSome
  | .reset recordId reason => (s.retainedBoundary .reset recordId reason).isSome

/-- The answers to a call. -/
inductive CallStep (m : Layout) (c : Carrier) (s : CapturedSessionPipeline) (x : Call) :
    Result Receipt → CapturedSessionPipeline → Prop
  | refused (e : Error) : CallStep m c s x (.error e) s
  | replayed {r : Receipt} (retained : s.Retained x) (status : r.sessionStatus = .identicalReplay) :
      CallStep m c s x (.ok r) s
  | applied {r : Receipt} {t : CapturedSessionPipeline} {event : Event}
      {plan : PreparedSessionEvent} {next : WireState} {change : Option RibEvent}
      {ribStatus : Option Bgp.ApplyStatus} (fresh : ¬ s.Retained x)
      (status : r.sessionStatus = plan.status) (record : event.recordId = x.recordId)
      (effect : Effect m c s t event plan next change ribStatus) :
      CallStep m c s x (.ok r) t

theorem message_callStep (bytes : EvidenceBytes) (metadata : PcapMetadata) :
    CallStep m c s (.message bytes metadata) (call m c s (.message bytes metadata)).1
      (call m c s (.message bytes metadata)).2 := by
  have hstep := applyMessage_step m c s bytes metadata
  unfold call
  dsimp only
  generalize applyMessage m c bytes metadata s = r at hstep ⊢
  obtain ⟨result, t⟩ := r
  dsimp only at hstep ⊢
  cases hstep with
  | refused e => exact .refused e
  | replayed scope h =>
    rename_i previous
    cases hresult : s.replayMessage previous with
    | error e => exact .refused e
    | ok r =>
      refine .replayed (by simp [Retained, h]) ?_
      obtain ⟨_, -, hok⟩ := bind_eq_ok.1 hresult
      cases hok
      rfl
  | applied scope fresh usable planned =>
    obtain ⟨record, next, observation, message, event, change, hplanned⟩ := planMessage_ok planned
    obtain ⟨hmetadata, -⟩ := decode_generation hplanned.decoded (by simp [scope.1.2])
    have hrecord : event.recordId = metadata.recordId := by
      have hobserved := hplanned.observed
      rw [hplanned.captured, (sessionEvent_ok hplanned.described).2.2.2.1]
      unfold Observation.fromNormalized at hobserved
      split at hobserved
      · cases hobserved
      · cases hobserved
        rw [hmetadata]
    exact .applied (by simp [Retained, fresh]) hplanned.sessionStatus hrecord
      (message_effect scope usable hplanned)

theorem call_step (x : Call) : CallStep m c s x (call m c s x).1 (call m c s x).2 := by
  cases x with
  | message bytes metadata => exact message_callStep bytes metadata
  | gap recordId reason =>
    have hstep := boundary_step s .gap recordId reason fun s => s.gapTransaction m c recordId reason
    unfold call observeGap
    dsimp only
    generalize boundary .gap recordId reason (fun s => s.gapTransaction m c recordId reason) s = r
      at hstep ⊢
    obtain ⟨result, t⟩ := r
    cases hstep with
    | refused e => exact .refused e
    | replayed h => exact .replayed (by simp [Retained, h]) rfl
    | applied fresh usable done =>
      obtain ⟨event, plan, change, ribStatus, heffect, hrecord, hstatus, -⟩ :=
        gap_effect usable done
      exact .applied (by simp [Retained, fresh]) hstatus hrecord heffect
  | reset recordId reason =>
    have hstep := boundary_step s .reset recordId reason
      fun s => s.resetTransaction m c recordId reason
    unfold call resetGeneration
    dsimp only
    generalize boundary .reset recordId reason (fun s => s.resetTransaction m c recordId reason) s
      = r at hstep ⊢
    obtain ⟨result, t⟩ := r
    cases hstep with
    | refused e => exact .refused e
    | replayed h => exact .replayed (by simp [Retained, h]) rfl
    | applied fresh usable done =>
      obtain ⟨event, plan, next, change, ribStatus, heffect, hrecord, hstatus, -⟩ :=
        reset_effect usable done
      exact .applied (by simp [Retained, fresh]) hstatus hrecord heffect

theorem Lockstep.call (h : Lockstep m c s) (x : Call) : Lockstep m c (call m c s x).2 := by
  have hstep := call_step (m := m) (c := c) (s := s) x
  generalize (CapturedSessionPipeline.call m c s x).1 = result at hstep
  generalize (CapturedSessionPipeline.call m c s x).2 = t at hstep ⊢
  cases hstep with
  | refused e => exact h
  | replayed retained status => exact h
  | applied fresh status record effect => exact h.effect effect

theorem lockstep_new {observerOwner ribOwner : ℕ} {captureNamespace : Vector U8 32}
    {sourceId : String} {session : U64} {limits : Bgp.Limits}
    (h : new m observerOwner ribOwner captureNamespace sourceId session limits = .ok s) :
    Lockstep m c s := by
  obtain ⟨_, -, h⟩ := bind_eq_ok.1 h
  obtain ⟨observer, hobserver, h⟩ := bind_eq_ok.1 h
  obtain ⟨rib, hrib, h⟩ := bind_eq_ok.1 h
  cases h
  obtain ⟨hinitial, -⟩ := SessionObserver.new_ok hobserver
  have hrib' := AdjRibIn.new_ok hrib
  exact {
    observer := .new hobserver
    rib := ⟨_, _, rib, [], hrib, .nil⟩
    view := by simp [hinitial, SessionObserver.initial]
    start := fun _ => rfl
    generation := by simp [hrib', AdjRibIn.initial]
    session := by simp [hrib', AdjRibIn.initial]
    records := by simp [hrib', AdjRibIn.initial]
    usable := by simp [hinitial, hrib', SessionObserver.initial, AdjRibIn.initial,
      SessionObserver.Live]
    ruined := by simp }

theorem Lockstep.run (h : Lockstep m c s) (hrun : Run m c s calls t) : Lockstep m c t := by
  induction hrun with
  | nil => exact h
  | snoc before x ih => exact ih.call x

theorem Reachable.lockstep (h : Reachable m c s) : Lockstep m c s := by
  obtain ⟨_, _, _, _, _, _, start, calls, hnew, hrun⟩ := h
  exact (lockstep_new hnew).run hrun

theorem call_tainted (ht : s.tainted = true) (x : Call) :
    (call m c s x).2 = s ∧ (¬ s.Retained x → ∃ e, (call m c s x).1 = .error e) := by
  have hstep := call_step (m := m) (c := c) (s := s) x
  generalize (call m c s x).1 = result at hstep ⊢
  generalize (call m c s x).2 = t at hstep ⊢
  cases hstep with
  | refused e => exact ⟨rfl, fun _ => ⟨e, rfl⟩⟩
  | replayed retained status => exact ⟨rfl, fun h => absurd retained h⟩
  | applied fresh status record effect =>
    rw [effect.usable] at ht
    cases ht

theorem run_tainted (ht : s.tainted = true) (hrun : Run m c s calls t) : t = s := by
  induction hrun with
  | nil => rfl
  | snoc before x ih => rw [ih, (call_tainted ht x).1]

theorem Lockstep.status (h : Lockstep m c s) {x : Call} {r : Receipt}
    (hok : (CapturedSessionPipeline.call m c s x).1 = .ok r) :
    r.sessionStatus ≠ .historical ∧ r.sessionStatus ≠ .closed := by
  have hstep := call_step (m := m) (c := c) (s := s) x
  rw [hok] at hstep
  generalize (CapturedSessionPipeline.call m c s x).2 = t at hstep
  cases hstep with
  | replayed retained status => simp [status]
  | applied fresh status record effect =>
    rw [status]
    obtain ⟨hstatus, -⟩ | ⟨hstatus, -⟩ | ⟨hstatus, -⟩ := h.session_step effect
    all_goals simp [hstatus]

/-- The observer, the Adj-RIB-In and its live entries are of the generation of the decoder; a
tainted pipeline has no active entry and never changes again. -/
theorem generation_lockstep (h : Reachable m c s) :
    (∀ view, s.observer.view = some view → view.generation = s.wire.generation) ∧
    (s.observer.view = none → s.wire.generation = 0) ∧
    (s.rib.generations.get s.observer.key = none ∨
      s.rib.generations.get s.observer.key = some s.wire.generation) ∧
    (∀ k e, s.rib.entries.get k = some e → k.scope.generation ≠ s.wire.generation →
      e.status ≠ .active ∧ ∀ v ∈ e.versions, v.disposition ≠ .current) ∧
    (s.tainted = true → (∀ k e, s.rib.entries.get k = some e → e.status ≠ .active) ∧
      ∀ calls t, Run m c s calls t → t = s ∧
        ∀ x, (call m c t x).2 = t ∧ (¬ t.Retained x → ∃ e, (call m c t x).1 = .error e)) ∧
    ∀ x r, (call m c s x).1 = .ok r →
      r.sessionStatus ≠ .historical ∧ r.sessionStatus ≠ .closed := by
  have hlock := h.lockstep
  refine ⟨hlock.view, hlock.start, ?_, ?_, ?_, fun x r hok => hlock.status hok⟩
  · rcases hlock.generation with hg | ⟨hg, -⟩
    · exact .inr hg
    · exact .inl hg
  · intro k e hget hne
    exact ⟨fun ha => hne (hlock.live hget (.inl ha)).2,
      fun v hv hd => hne (hlock.live hget (.inr ⟨v, hv, hd⟩)).2⟩
  · intro ht
    refine ⟨fun k e hget => hlock.inactive ht hget, fun calls t hrun => ?_⟩
    obtain rfl := run_tainted ht hrun
    exact ⟨rfl, call_tainted ht⟩

end Calls

def callAll (m : Layout) (c : Carrier) (s : CapturedSessionPipeline) (calls : List Call) :
    CapturedSessionPipeline :=
  calls.foldl (fun s x => (call m c s x).2) s

theorem run_callAll (s : CapturedSessionPipeline) (calls : List Call) :
    Run m c s calls (callAll m c s calls) := by
  induction calls using List.reverseRecOn with
  | nil => exact .nil
  | append_singleton calls x ih =>
    rw [callAll, List.foldl_append]
    exact ih.snoc x

def sampleCarrier : Carrier where
  check := fun _ _ _ _ => .ok ()
  addressText := fun p => ".".intercalate (p.address.map fun b => b.toNat.repr)
  attributesJson := fun _ => .null
  attributeIdentity := fun _ _ => .ok "identity"
  observationSha256 := fun _ => Vector.replicate 32 0
  encodedLen := fun _ _ => .ok 512
  checkRibEvent := fun _ _ => .ok ()

def sampleCapture : Vector U8 32 := Vector.replicate 32 7

def sampleBytes (kind : U8) (body : List U8) : EvidenceBytes :=
  .fromPacket (List.replicate 16 255 ++ [0, BitVec.ofNat 8 (19 + body.length), kind] ++ body)
    ⟨sampleCapture, 1, 0⟩ 0

def sampleMetadata (record : String) (direction : U8) : PcapMetadata :=
  ⟨"capture", record, none, some 7, some direction, none, none⟩

def sampleMessage (record : String) (direction kind : U8) (body : List U8) : Call :=
  .message (sampleBytes kind body) (sampleMetadata record direction)

def sampleStart : CapturedSessionPipeline where
  captureNamespace := sampleCapture
  sourceId := "capture"
  session := 7
  limits := .default
  wire := .initial
  observer := .initial SessionObserver.sampleLayout 0 (sessionKey sampleCapture "capture" 7) .default
  rib := .initial 1 (embeddedLimits .default)
  applied := .empty
  boundaries := .empty
  appliedBytes := 0
  tainted := false

theorem reachable_sample (calls : List Call) : Reachable SessionObserver.sampleLayout sampleCarrier
    (callAll SessionObserver.sampleLayout sampleCarrier sampleStart calls) := by
  have hnew : new SessionObserver.sampleLayout 0 1 sampleCapture "capture" 7 .default =
      .ok sampleStart := rfl
  exact ⟨0, 1, sampleCapture, "capture", 7, .default, sampleStart, calls, hnew, run_callAll _ _⟩

/-- A KEEPALIVE and a reset of the caller. -/
theorem generation_lockstep_reset : ∃ s : CapturedSessionPipeline, s.wire.generation = 1 ∧
    ∀ view, s.observer.view = some view → view.generation = s.wire.generation :=
  ⟨callAll SessionObserver.sampleLayout sampleCarrier sampleStart
      [sampleMessage "k" 0 4 [], .reset "r" "flow"], by decide +kernel,
    (generation_lockstep (reachable_sample _)).1⟩

end PcapEvidence.Bgp.Pipeline.CapturedSessionPipeline
