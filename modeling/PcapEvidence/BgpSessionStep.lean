import PcapEvidence.BgpSession

/-!
# What one event does to the view of a session

Every admitted event leaves the view alone, closes or flags it, starts a new generation, or is one
of the three kinds that add to the current generation. The plans of `prepare` are listed once.
-/

namespace PcapEvidence.Bgp.Session

open FiniteMap History

theorem addSize_ok {a b c : ℕ} : addSize a b = .ok c ↔ a + b < wordBound ∧ c = a + b := by
  unfold addSize
  split_ifs with h
  · simp [h, eq_comm]
  · simp [h]

def EventKind.isBoundary : EventKind → Bool
  | .reset _ _ | .protocolReset _ _ => true
  | _ => false

def EventKind.isGap : EventKind → Bool
  | .gap _ => true
  | _ => false

def Event.next (event : Event) : Option ℕ :=
  match event.kind with
  | .reset _ _ => some event.generation
  | .protocolReset nextGeneration _ => some nextGeneration
  | _ => none

namespace SessionView

/-- The outcomes of an event in a session without a conflict. -/
inductive CleanStep (view : SessionView) (event : Event) : ApplyStatus → SessionView → Prop
  | historical (older : event.generation < view.generation) :
      CleanStep view event .historical view
  | closed (same : event.generation = view.generation) (h : view.closedByNotification = true) :
      CleanStep view event .closed view
  | restarted {generation : ℕ} (boundary : event.kind.isBoundary = true)
      (advanced : view.generation < generation) (within : event.generation ≤ generation)
      (next : event.next = some generation) :
      CleanStep view event .applied (view.restart generation event.recordId)
  | gap (same : event.generation = view.generation) (open' : view.closedByNotification = false)
      (kind : event.kind.isGap = true) :
      CleanStep view event .applied { view with
        gaps := view.gaps ++ [event.recordId], context := .unresolved "explicit_gap" }
  | unscoped (same : event.generation = view.generation)
      (open' : view.closedByNotification = false) (kind : event.kind.isGap = false)
      (boundary : event.kind.isBoundary = false) (direction : event.direction = none) :
      CleanStep view event .applied (view.applyUnscoped event)
  | directed {d : U8} (same : event.generation = view.generation)
      (open' : view.closedByNotification = false) (kind : event.kind.isGap = false)
      (boundary : event.kind.isBoundary = false) (direction : event.direction = some d) :
      CleanStep view event .applied (view.applyDirected event d)

theorem applyCurrent_step {view : SessionView} {event : Event}
    (same : event.generation = view.generation) (boundary : event.kind.isBoundary = false) :
    CleanStep view event (view.applyCurrent event).1 (view.applyCurrent event).2 := by
  unfold applyCurrent
  split_ifs with hclosed
  · exact .closed same hclosed
  have hopen : view.closedByNotification = false := Bool.eq_false_iff.2 hclosed
  cases hgap : event.kind.isGap with
  | true =>
    have hkind : ∃ reason, event.kind = .gap reason := by
      cases hk : event.kind <;> simp [hk, EventKind.isGap] at hgap ⊢
    obtain ⟨reason, hk⟩ := hkind
    rw [hk]
    exact .gap same hopen hgap
  | false =>
    split
    · rename_i reason hk
      simp [hk, EventKind.isGap] at hgap
    · cases hd : event.direction with
      | none => exact .unscoped same hopen hgap boundary hd
      | some d => exact .directed same hopen hgap boundary hd

theorem applyClean_step {kind : PartitionKind} {view next : SessionView} {event : Event}
    {status : ApplyStatus} (hreset : checkProtocolReset event = .ok ())
    (h : view.applyClean kind event = .ok (status, next)) : CleanStep view event status next := by
  have hcurrent (hboundary : event.kind.isBoundary = false)
      (h : (if event.generation < view.generation then .ok (.historical, view)
        else if event.generation > view.generation then
          .error (Bgp.bad "bgp_session_generation" "new generation needs reset")
        else .ok (view.applyCurrent event) : Result (ApplyStatus × SessionView)) =
          .ok (status, next)) : CleanStep view event status next := by
    split_ifs at h with hlt hgt
    · obtain ⟨rfl, rfl⟩ := Prod.mk.inj (Except.ok.inj h)
      exact .historical hlt
    · have hsame : event.generation = view.generation := by omega
      have hstep := applyCurrent_step hsame hboundary
      rw [Except.ok.inj h] at hstep
      exact hstep
  unfold applyClean at h
  cases hk : event.kind with
  | reset previousGeneration reason =>
    simp only [hk] at h
    split_ifs at h with hbad
    obtain ⟨rfl, rfl⟩ := Prod.mk.inj (Except.ok.inj h)
    push Not at hbad
    exact .restarted (by rw [hk]; rfl) hbad.2.2.1 le_rfl (by simp [Event.next, hk])
  | protocolReset nextGeneration resetKind =>
    simp only [hk] at h
    simp only [checkProtocolReset, hk, guard_eq_ok, not_not, and_true,
      checkedAdd_eq_some_iff] at hreset
    split_ifs at h with hne hlt
    · obtain ⟨rfl, rfl⟩ := Prod.mk.inj (Except.ok.inj h)
      exact .historical hlt
    · obtain ⟨rfl, rfl⟩ := Prod.mk.inj (Except.ok.inj h)
      push Not at hne
      exact .restarted (by rw [hk]; rfl) (by omega) (by omega) (by simp [Event.next, hk])
  | _ =>
    simp only [hk] at h
    exact hcurrent (by rw [hk]; rfl) h

end SessionView

namespace SessionObserver

variable {m : Layout} {s next : SessionObserver} {event : Event} {status : ApplyStatus}

/-- What an event that is applied to a copy leaves there. -/
inductive InnerStep (s : SessionObserver) (event : Event) (conflict : Bool) :
    ApplyStatus → SessionObserver → Prop
  | flagged {view : SessionView} (flag : view.identityConflict = true)
      (kept : view.generation = (s.view.getD (emptyView event.generation)).generation)
      (cause : conflict = true ∨
        (s.view.getD (emptyView event.generation)).identityConflict = true) :
      InnerStep s event conflict .identityConflict { s with view := some view }
  | clean {status : ApplyStatus} {view : SessionView} (fresh : conflict = false)
      (unflagged : (s.view.getD (emptyView event.generation)).identityConflict = false)
      (step : (s.view.getD (emptyView event.generation)).CleanStep event status view) :
      InnerStep s event conflict status { s with view := some view }

theorem applyInner_step {conflict : Bool} (hreset : checkProtocolReset event = .ok ())
    (h : s.applyInner event conflict = .ok (status, next)) :
    InnerStep s event conflict status next := by
  unfold applyInner at h
  split at h
  · cases h
  · dsimp only at h
    split_ifs at h with hconflict hflag
    · obtain ⟨rfl, rfl⟩ := Prod.mk.inj (Except.ok.inj h)
      exact .flagged rfl rfl (.inl hconflict)
    · obtain ⟨rfl, rfl⟩ := Prod.mk.inj (Except.ok.inj h)
      exact .flagged hflag rfl (.inr hflag)
    · obtain ⟨⟨status', view⟩, hclean, hok⟩ := bind_eq_ok.1 h
      obtain ⟨rfl, rfl⟩ := Prod.mk.inj (Except.ok.inj hok)
      exact .clean (Bool.eq_false_iff.2 hconflict) (Bool.eq_false_iff.2 hflag)
        (SessionView.applyClean_step hreset hclean)

/-- The plans of `prepare`. -/
inductive Prepared (m : Layout) (s : SessionObserver) (event : Event) :
    PreparedSessionEvent → Prop
  | inert (replay : s.replays event = true) :
      Prepared m s event ⟨s.owner, s.events.length, .identicalReplay, .inert, s.workUnits⟩
  | append {bytes admittedWork : ℕ} (ordinary : s.ordinary event = true)
      (charge : bytes = s.bytes + eventSize m event + newRecordIndexSize m event.recordId +
        textStorage m event.recordId)
      (word : bytes < wordBound) :
      Prepared m s event ⟨s.owner, s.events.length, .applied,
        .append event event.recordId event.recordId [s.events.length] bytes, admittedWork⟩
  | staged {status : ApplyStatus} {next inner : SessionObserver} {admittedWork : ℕ}
      (extraordinary : s.ordinary event = false)
      (step : InnerStep s event (s.recordIndex.get event.recordId).isSome status inner)
      (size : (inner.pushEvent event).size m < wordBound)
      (published : next = { inner.pushEvent event with bytes := (inner.pushEvent event).size m }) :
      Prepared m s event ⟨s.owner, s.events.length, status, .staged next, admittedWork⟩

theorem checkEvent_ok (h : s.checkEvent event = .ok ()) :
    event.session = s.key ∧ checkProtocolReset event = .ok () := by
  obtain ⟨hscope, h⟩ := guard_eq_ok.1 h
  obtain ⟨-, -, h⟩ := bind_eq_ok.1 h
  obtain ⟨-, h⟩ := guard_eq_ok.1 h
  obtain ⟨-, -, h⟩ := bind_eq_ok.1 h
  obtain ⟨-, -, h⟩ := bind_eq_ok.1 h
  obtain ⟨u, hreset, -⟩ := bind_eq_ok.1 h
  exact ⟨not_not.1 hscope, hreset⟩

theorem stage_ok {conflict : Bool} (h : s.stage m event conflict = .ok (status, next)) :
    ∃ inner, s.applyInner event conflict = .ok (status, inner) ∧
      (inner.pushEvent event).size m < wordBound ∧
      next = { inner.pushEvent event with bytes := (inner.pushEvent event).size m } := by
  obtain ⟨⟨status', inner⟩, hinner, h⟩ := bind_eq_ok.1 h
  obtain ⟨bytes, hbytes, h⟩ := bind_eq_ok.1 h
  obtain ⟨rfl, rfl⟩ := Prod.mk.inj (Except.ok.inj h)
  obtain ⟨hword, rfl⟩ := addSize_ok.1 hbytes
  exact ⟨inner, hinner, by simpa using hword, by simp⟩

theorem prepare_prepared {p : PreparedSessionEvent} (h : s.prepare m event = .ok p) :
    event.session = s.key ∧ Prepared m s event p := by
  obtain ⟨u, hcheck, h⟩ := bind_eq_ok.1 h
  obtain ⟨hkey, hreset⟩ := checkEvent_ok hcheck
  refine ⟨hkey, ?_⟩
  split_ifs at h with hreplay hfull hordinary
  · cases h
    exact .inert hreplay
  · obtain ⟨b₁, h₁, h⟩ := bind_eq_ok.1 h
    obtain ⟨b₂, h₂, h⟩ := bind_eq_ok.1 h
    obtain ⟨b₃, h₃, h⟩ := bind_eq_ok.1 h
    obtain ⟨units, -, h⟩ := bind_eq_ok.1 h
    obtain ⟨work, -, h⟩ := bind_eq_ok.1 h
    obtain ⟨v, -, h⟩ := bind_eq_ok.1 h
    cases h
    obtain ⟨-, rfl⟩ := addSize_ok.1 h₁
    obtain ⟨-, rfl⟩ := addSize_ok.1 h₂
    obtain ⟨hword, rfl⟩ := addSize_ok.1 h₃
    exact .append hordinary rfl hword
  · obtain ⟨work, -, h⟩ := bind_eq_ok.1 h
    obtain ⟨v, -, h⟩ := bind_eq_ok.1 h
    obtain ⟨⟨status, next⟩, hstage, h⟩ := bind_eq_ok.1 h
    obtain ⟨admitted, -, h⟩ := bind_eq_ok.1 h
    obtain ⟨w, -, h⟩ := bind_eq_ok.1 h
    cases h
    obtain ⟨inner, hinner, hsize, hnext⟩ := stage_ok hstage
    exact .staged (Bool.eq_false_iff.2 hordinary) (applyInner_step hreset hinner) hsize hnext

theorem preparedCurrent_self {p : PreparedSessionEvent} (h : Prepared m s event p) :
    s.preparedCurrent p = true := by
  cases h <;> simp [preparedCurrent]

theorem apply_ok {t : SessionObserver} (h : s.apply m event = .ok (status, t)) :
    ∃ p, s.prepare m event = .ok p ∧ status = p.status ∧ t = s.commit p := by
  obtain ⟨p, hp, h⟩ := bind_eq_ok.1 h
  obtain ⟨u, -, h⟩ := bind_eq_ok.1 h
  obtain ⟨rfl, rfl⟩ := Prod.mk.inj (Except.ok.inj h)
  exact ⟨p, hp, rfl, rfl⟩

end SessionObserver
end PcapEvidence.Bgp.Session

/-!
## When the fast append agrees with the staged path

The staged path computes the capability context afresh for every directed event, the append leaves
it as it is.
-/

namespace PcapEvidence.Bgp.Session

open FiniteMap History

/-- What the events of a generation have done to the context so far. -/
structure Trail where
  gapped : Bool
  /-- The context is what `context` computes. -/
  settled : Bool

/-- An OPEN without a direction names itself as the reason, which a gap before it outranks. -/
def Trail.step (t : Trail) (event : Event) : Trail :=
  match event.kind, event.direction with
  | .gap _, _ => ⟨true, true⟩
  | .reset _ _, _ | .protocolReset _ _, _ => t
  | .update, _ | .keepalive, _ => t
  | _, some _ => ⟨t.gapped, true⟩
  | .open _, none | .capturedOpen _ _, none => ⟨t.gapped, !t.gapped⟩
  | _, none => t

def isMessage (event : Event) : Bool :=
  event.direction.isSome && (event.kind = EventKind.update || event.kind = EventKind.keepalive)

/-- The first event of a journal is never appended, so a message there settles the context. -/
def startsWith (events : List Event) (generation : ℕ) : Bool :=
  events.head?.any fun e => e.generation = generation && isMessage e

def trail (events : List Event) (generation : ℕ) : Trail :=
  (events.filter fun e => e.generation = generation).foldl Trail.step
    ⟨false, startsWith events generation⟩

def SessionObserver.Settled (s : SessionObserver) : Prop :=
  ∀ view, s.view = some view → view.closedByNotification = true ∨ view.identityConflict = true ∨
    (trail s.events view.generation).settled = true

section Trails

variable {events : List Event} {event : Event} {generation : ℕ}

theorem startsWith_append (hne : events ≠ []) :
    startsWith (events ++ [event]) generation = startsWith events generation := by
  rw [startsWith, startsWith, List.head?_append_of_ne_nil _ hne]

theorem trail_append_of_ne (h : event.generation ≠ generation) :
    trail (events ++ [event]) generation = trail events generation := by
  have hstart : startsWith (events ++ [event]) generation = startsWith events generation := by
    cases events with
    | nil => simp [startsWith, h]
    | cons e rest => exact startsWith_append (by simp)
  rw [trail, hstart, List.filter_append, List.filter_cons_of_neg (by simpa using h),
    List.filter_nil, List.append_nil, trail]

theorem trail_append (hne : events ≠ [] ∨ isMessage event = false)
    (h : event.generation = generation) :
    trail (events ++ [event]) generation = (trail events generation).step event := by
  have hstart : startsWith (events ++ [event]) generation = startsWith events generation := by
    rcases hne with hne | hmessage
    · exact startsWith_append hne
    · cases events with
      | nil => simp [startsWith, hmessage]
      | cons e rest => exact startsWith_append (by simp)
  rw [trail, hstart, List.filter_append, List.filter_cons_of_pos (by simpa using h),
    List.filter_nil, List.foldl_append, trail]
  rfl

theorem trail_single : trail [event] event.generation =
    Trail.step ⟨false, isMessage event⟩ event := by
  simp [trail, startsWith]

theorem Trail.step_boundary (t : Trail) (h : event.kind.isBoundary = true) : t.step event = t := by
  cases hk : event.kind <;> simp [hk, EventKind.isBoundary] at h <;> simp [Trail.step, hk]

theorem Trail.step_message (t : Trail) (h : isMessage event = true) : t.step event = t := by
  simp only [isMessage, Bool.and_eq_true, Bool.or_eq_true, decide_eq_true_eq] at h
  rcases h.2 with hk | hk <;> simp [Trail.step, hk]

theorem Trail.step_directed (t : Trail) {d : U8} (direction : event.direction = some d)
    (kind : event.kind.isGap = false) (boundary : event.kind.isBoundary = false)
    (hmessage : isMessage event = false) : t.step event = ⟨t.gapped, true⟩ := by
  cases hk : event.kind <;> simp [hk, EventKind.isGap, EventKind.isBoundary] at kind boundary <;>
    simp [isMessage, direction, hk] at hmessage <;> simp [Trail.step, hk, direction]

theorem trail_of_lt (h : ∀ e ∈ events, e.generation < generation) :
    trail events generation = ⟨false, false⟩ := by
  have hfilter : events.filter (fun e => e.generation = generation) = [] := by
    rw [List.filter_eq_nil_iff]
    intro e he
    simpa using (h e he).ne
  have hstart : startsWith events generation = false := by
    cases events with
    | nil => rfl
    | cons e rest => simp [startsWith, (h e (by simp)).ne]
  simp [trail, hfilter, hstart]

end Trails

/-- How the context of an open generation relates to what its journal says. -/
structure ContextOk (t : Trail) (view : SessionView) : Prop where
  gaps : t.gapped = true ↔ view.gaps ≠ []
  settled : t.settled = true → view.context = context view
  late : t.settled = false → view.gaps ≠ [] →
    view.context = .unresolved "unscoped_open_alternative"
  fresh : t.settled = false → view.gaps = [] →
    view.context = .unresolved "bilateral_open_missing" ∧ view.unscopedOpen = false ∧
      view.directions.left.opens = []

section Witness

variable (event : Event) (record : String) (view : SessionView)

theorem opens_witness :
    (SessionObserver.witness event record view).directions.left.opens =
        view.directions.left.opens ∧
      (SessionObserver.witness event record view).directions.right.opens =
        view.directions.right.opens := by
  unfold SessionObserver.witness Directions.modify
  constructor <;> split_ifs <;> rfl

theorem context_witness : context (SessionObserver.witness event record view) = context view := by
  simp only [context, opens_witness]
  rfl

theorem applyDirected_message {d : U8} (direction : event.direction = some d)
    (hmessage : isMessage event = true) :
    view.applyDirected event d =
      { SessionObserver.witness event event.recordId view with context := context view } := by
  have hview : { view with
      directions := view.directions.modify d (SessionView.applySide event.recordId event.kind)
      closedByNotification :=
        view.closedByNotification || decide (event.kind = EventKind.notification) } =
      SessionObserver.witness event event.recordId view := by
    simp only [isMessage, Bool.and_eq_true, Bool.or_eq_true, decide_eq_true_eq] at hmessage
    rcases hmessage.2 with hk | hk
    · simp only [SessionObserver.witness, direction, hk]
      simp
      rfl
    · simp only [SessionObserver.witness, direction, hk]
      simp
      rfl
  rw [SessionView.applyDirected, hview, ← context_witness event event.recordId view]

end Witness

namespace ContextOk

variable {t : Trail} {view : SessionView} {event : Event}

theorem start (generation : ℕ) (resets : List String) :
    ContextOk ⟨false, false⟩ { emptyView generation with resets := resets } where
  gaps := by simp [emptyView]
  settled := by simp
  late := by simp [emptyView]
  fresh := by simp [emptyView, DirectionView.default]

theorem settled_iff (h : ContextOk t view) (hopen : view.closedByNotification = false)
    (hflag : view.identityConflict = false) : view.context = context view ↔ t.settled = true := by
  refine ⟨fun heq => ?_, h.settled⟩
  by_contra hn
  have hn : t.settled = false := by simpa using hn
  by_cases hgaps : view.gaps = []
  · obtain ⟨hcontext, hunscoped, hopens⟩ := h.fresh hn hgaps
    simp [context, hflag, hgaps, hunscoped, hopen, hopens, hcontext] at heq
  · simp [context, hflag, hgaps, h.late hn hgaps] at heq

theorem contextSize (h : ContextOk t view) (hopen : view.closedByNotification = false)
    (hflag : view.identityConflict = false) :
    contextSize (context view) = contextSize view.context := by
  cases hs : t.settled with
  | true => rw [h.settled hs]
  | false =>
    by_cases hgaps : view.gaps = []
    · obtain ⟨hcontext, hunscoped, hopens⟩ := h.fresh hs hgaps
      simp [context, hflag, hgaps, hunscoped, hopen, hopens, hcontext, Session.contextSize]
    · simp [context, hflag, hgaps, h.late hs hgaps, Session.contextSize]

theorem gap (hflag : view.identityConflict = false) (record : String) :
    ContextOk ⟨true, true⟩ { view with
      gaps := view.gaps ++ [record], context := .unresolved "explicit_gap" } where
  gaps := by simp
  settled := by simp [context, hflag]
  late := by simp
  fresh := by simp

theorem step_gap (t : Trail) (kind : event.kind.isGap = true) : t.step event = ⟨true, true⟩ := by
  cases hk : event.kind <;> simp [hk, EventKind.isGap] at kind
  simp [Trail.step, hk]

theorem unscoped (h : ContextOk t view) (hflag : view.identityConflict = false)
    (kind : event.kind.isGap = false) (direction : event.direction = none)
    (hopen : (view.applyUnscoped event).closedByNotification = false) :
    ContextOk (t.step event) (view.applyUnscoped event) := by
  have hopened (hstep : t.step event = ⟨t.gapped, !t.gapped⟩)
      (hview : view.applyUnscoped event = { view with
        unscoped := view.unscoped ++ [event.recordId]
        unscopedOpen := true, context := .unresolved "unscoped_open_alternative" }) :
      ContextOk (t.step event) (view.applyUnscoped event) := by
    rw [hstep, hview]
    refine ⟨h.gaps, fun hs => ?_, fun _ _ => rfl, fun hs hgaps => ?_⟩
    · have hgaps : view.gaps = [] := by
        by_contra hn
        simp [h.gaps.2 hn] at hs
      simp [context, hflag, hgaps]
    · have : t.gapped = true := by simpa using hs
      exact absurd hgaps (h.gaps.1 this)
  have hkept (hstep : t.step event = t) (hview : view.applyUnscoped event = { view with
        unscoped := view.unscoped ++ [event.recordId] }) :
      ContextOk (t.step event) (view.applyUnscoped event) := by
    rw [hstep, hview]
    exact ⟨h.gaps, h.settled, h.late, h.fresh⟩
  cases hk : event.kind with
  | «open» advertisement =>
    exact hopened (by simp [Trail.step, hk, direction]) (by simp [SessionView.applyUnscoped, hk])
  | capturedOpen advertisement digest =>
    exact hopened (by simp [Trail.step, hk, direction]) (by simp [SessionView.applyUnscoped, hk])
  | notification => simp [SessionView.applyUnscoped, hk] at hopen
  | gap reason => simp [hk, EventKind.isGap] at kind
  | _ =>
    exact hkept (by simp [Trail.step, hk, direction]) (by simp [SessionView.applyUnscoped, hk])

theorem directed (h : ContextOk t view) (d : U8) {t' : Trail} (hgapped : t'.gapped = t.gapped)
    (hsettled : t'.settled = true) : ContextOk t' (view.applyDirected event d) where
  gaps := by rw [hgapped]; exact h.gaps
  settled := fun _ => rfl
  late := by simp [hsettled]
  fresh := by simp [hsettled]

theorem witness (h : ContextOk t view) (event : Event) (record : String) :
    ContextOk t (SessionObserver.witness event record view) := by
  refine ⟨h.gaps, fun hs => ?_, h.late, fun hs hgaps => ?_⟩
  · rw [context_witness]
    exact h.settled hs
  · rw [(opens_witness event record view).1]
    exact h.fresh hs hgaps

end ContextOk

end PcapEvidence.Bgp.Session
