import PcapEvidence.BgpSessionStep

/-!
# The session observer over whole runs

In every state reached the retained bytes are the measured size, the index lists the events of every
record, and the context of an open generation is what the journal says of it.
-/

namespace PcapEvidence.Bgp.Session

open FiniteMap History

namespace SessionObserver

variable {limits : Limits} {s : SessionObserver}
variable {m : Layout}

structure Invariant (m : Layout) (s : SessionObserver) : Prop where
  bytes : s.bytes = s.size m
  word : s.size m < wordBound
  started : s.view = none ↔ s.events = []
  indexed : ∀ record i, i ∈ (s.recordIndex.get record).getD [] ↔
    ∃ e, s.events[i]? = some e ∧ e.recordId = record
  filed : ∀ record, (s.recordIndex.get record).isSome ↔ ∃ e ∈ s.events, e.recordId = record
  bound : ∀ view, s.view = some view → view.identityConflict = false →
    ∀ e ∈ s.events, e.generation ≤ view.generation
  context : ∀ view, s.view = some view → view.identityConflict = false →
    view.closedByNotification = false → ContextOk (trail s.events view.generation) view

theorem checkText_length {value : String} (h : checkText value limits = .ok ()) :
    value.utf8ByteSize ≤ 1024 := by
  obtain ⟨hn, -⟩ := guard_eq_ok.1 h
  push Not at hn
  omega

theorem new_ok {owner : ℕ} {key : SessionKey} (h : new m owner key limits = .ok s) :
    s = initial m owner key limits ∧ s.size m < wordBound := by
  obtain ⟨_, -, h⟩ := bind_eq_ok.1 h
  obtain ⟨_, h₁, h⟩ := bind_eq_ok.1 h
  obtain ⟨_, h₂, h⟩ := bind_eq_ok.1 h
  obtain ⟨_, h₃, h⟩ := bind_eq_ok.1 h
  obtain rfl := (Except.ok.inj h).symm
  refine ⟨rfl, ?_⟩
  have h₁ := checkText_length h₁
  have h₂ := checkText_length h₂
  have h₃ := checkText_length h₃
  have hm := m.observer_lt
  simp only [size, initial, List.map_nil, List.sum_nil, FinMap.total_empty, Option.elim]
  unfold wordBound
  omega

theorem invariant_new {owner : ℕ} {key : SessionKey}
    (h : new m owner key limits = .ok s) : s.Invariant m := by
  obtain ⟨rfl, hword⟩ := new_ok h
  refine ⟨rfl, hword, by simp [initial], ?_, ?_, by simp [initial], by simp [initial]⟩
  · simp [initial]
  · simp [initial]

section Index

variable {s : SessionObserver} {event : Event}

theorem pushEvent_indexed (h : s.Invariant m) (event : Event) (record : String) (i : ℕ) :
    i ∈ ((s.pushEvent event).recordIndex.get record).getD [] ↔
      ∃ e, (s.pushEvent event).events[i]? = some e ∧ e.recordId = record := by
  have hold := h.indexed record i
  have hlast : (∃ e, [event][i - s.events.length]? = some e ∧ e.recordId = record ∧
      s.events.length ≤ i) ↔ i = s.events.length ∧ event.recordId = record := by
    constructor
    · rintro ⟨e, he, hr, hle⟩
      obtain ⟨hi, rfl⟩ := List.getElem?_eq_some_iff.1 he
      simp only [List.length_singleton] at hi
      exact ⟨by omega, by simpa using hr⟩
    · rintro ⟨rfl, hr⟩
      exact ⟨event, by simp, hr, le_rfl⟩
  have hsplit : (∃ e, (s.events ++ [event])[i]? = some e ∧ e.recordId = record) ↔
      (∃ e, s.events[i]? = some e ∧ e.recordId = record) ∨
        i = s.events.length ∧ event.recordId = record := by
    rw [← hlast]
    by_cases hi : i < s.events.length
    · rw [List.getElem?_append_left hi]
      simp [hi.not_ge]
    · rw [List.getElem?_append_right (not_lt.1 hi), List.getElem?_eq_none (not_lt.1 hi)]
      simp [not_lt.1 hi]
  simp only [pushEvent]
  rw [hsplit, FinMap.get_insert]
  by_cases hr : record = event.recordId
  · rw [if_pos hr, Option.getD_some, List.mem_append, List.mem_singleton, ← hr, hold]
    simp
  · have hother : event.recordId ≠ record := fun h => hr h.symm
    rw [if_neg hr, hold]
    simp [hother]

theorem pushEvent_filed (h : s.Invariant m) (event : Event) (record : String) :
    ((s.pushEvent event).recordIndex.get record).isSome ↔
      ∃ e ∈ (s.pushEvent event).events, e.recordId = record := by
  have hold := h.filed record
  simp only [pushEvent, FinMap.get_insert, List.mem_append, List.mem_singleton]
  by_cases hr : record = event.recordId
  · rw [if_pos hr]
    simp only [Option.isSome_some, true_iff]
    exact ⟨event, Or.inr rfl, hr.symm⟩
  · rw [if_neg hr, hold]
    constructor
    · rintro ⟨e, he, hrec⟩
      exact ⟨e, Or.inl he, hrec⟩
    · rintro ⟨e, he | rfl, hrec⟩
      · exact ⟨e, he, hrec⟩
      · exact absurd hrec.symm hr

theorem replays_iff (h : s.Invariant m) : s.replays event = true ↔ event ∈ s.events := by
  have hindexed := h.indexed event.recordId
  unfold replays
  constructor
  · intro hr
    obtain ⟨indices, -, hr⟩ := (Option.any_eq_true _ _).1 hr
    obtain ⟨i, -, hi⟩ := List.any_eq_true.1 hr
    exact List.mem_of_getElem? (by simpa using hi)
  · intro hmem
    obtain ⟨i, hi⟩ := List.getElem?_of_mem hmem
    have hin := (hindexed i).2 ⟨event, hi, rfl⟩
    cases hget : s.recordIndex.get event.recordId with
    | none => simp [hget] at hin
    | some indices =>
      rw [hget, Option.getD_some] at hin
      simp only [Option.any_some, List.any_eq_true, decide_eq_true_eq]
      exact ⟨i, hin, hi⟩

end Index

section Steps

variable {s : SessionObserver} {event : Event}

theorem ordinary_spec (h : s.ordinary event = true) :
    s.recordIndex.get event.recordId = none ∧ isMessage event = true ∧
      ∃ view d, s.view = some view ∧ event.direction = some d ∧
        event.generation = view.generation ∧ view.identityConflict = false ∧
        view.closedByNotification = false := by
  unfold ordinary at h
  simp only [Bool.and_eq_true, Option.isNone_iff_eq_none, Option.any_eq_true,
    Bool.not_eq_true', decide_eq_true_eq] at h
  obtain ⟨⟨⟨hnone, hdirection⟩, hkind⟩, view, hview, ⟨hgeneration, hflag⟩, hopen⟩ := h
  obtain ⟨d, hd⟩ := Option.isSome_iff_exists.1 hdirection
  refine ⟨hnone, ?_, view, d, hview, hd, hgeneration.symm, hflag, hopen⟩
  simpa [isMessage, hd] using hkind

theorem sideSize_witness (kind : EventKind) (record : String) (side : DirectionView) :
    sideSize m (if kind = .update then { side with updates := side.updates ++ [record] }
      else { side with keepalives := side.keepalives ++ [record] }) =
      sideSize m side + textStorage m record := by
  split_ifs
  · simp only [sideSize, textsSize, List.map_append, List.map_cons, List.map_nil, List.sum_append,
      List.sum_cons, List.sum_nil]
    omega
  · simp only [sideSize, textsSize, List.map_append, List.map_cons, List.map_nil, List.sum_append,
      List.sum_cons, List.sum_nil]
    omega

theorem viewDynamicSize_witness (event : Event) (record : String) (view : SessionView) :
    viewDynamicSize m (witness event record view) =
      viewDynamicSize m view + textStorage m record := by
  have hleft := sideSize_witness (m := m) event.kind record view.directions.left
  have hright := sideSize_witness (m := m) event.kind record view.directions.right
  by_cases hd : event.direction.getD 0 = 0
  · simp only [viewDynamicSize, witness, Directions.modify, if_pos hd]
    omega
  · simp only [viewDynamicSize, witness, Directions.modify, if_neg hd]
    omega

theorem size_pushEvent (hnone : s.recordIndex.get event.recordId = none) :
    (s.pushEvent event).size m =
      s.size m + eventSize m event + newRecordIndexSize m event.recordId := by
  have htotal := s.recordIndex.total_insert
    (fun record indices => newRecordIndexSize m record + (indices.length - 1) * m.usize)
    event.recordId [s.events.length]
  rw [hnone] at htotal
  simp only [Option.elim, List.length_singleton, Nat.sub_self, Nat.zero_mul, Nat.add_zero] at htotal
  simp only [size, pushEvent, hnone, Option.getD_none, List.nil_append, htotal, List.map_append,
    List.map_cons, List.map_nil, List.sum_append, List.sum_cons, List.sum_nil]
  omega

def base (s : SessionObserver) (event : Event) : SessionView :=
  s.view.getD (emptyView event.generation)

theorem base_bound (h : s.Invariant m) (hflag : (s.base event).identityConflict = false) :
    ∀ e ∈ s.events, e.generation ≤ (s.base event).generation := by
  cases hview : s.view with
  | none => simp [h.started.1 hview]
  | some view =>
    have hbase : s.base event = view := by simp [base, hview]
    rw [hbase] at hflag ⊢
    exact h.bound view hview hflag

theorem base_context (h : s.Invariant m) (hflag : (s.base event).identityConflict = false)
    (hopen : (s.base event).closedByNotification = false) :
    ContextOk (trail s.events (s.base event).generation) (s.base event) := by
  cases hview : s.view with
  | none =>
    have hbase : s.base event = emptyView event.generation := by simp [base, hview]
    rw [hbase, h.started.1 hview]
    exact ContextOk.start event.generation []
  | some view =>
    have hbase : s.base event = view := by simp [base, hview]
    rw [hbase] at hflag hopen ⊢
    exact h.context view hview hflag hopen

theorem events_of_extraordinary (h : s.Invariant m) (hord : s.ordinary event = false)
    (hfresh : (s.recordIndex.get event.recordId).isSome = false)
    (hflag : (s.base event).identityConflict = false)
    (hopen : (s.base event).closedByNotification = false)
    (same : event.generation = (s.base event).generation) (hmessage : isMessage event = true) :
    s.events = [] := by
  cases hview : s.view with
  | none => exact h.started.1 hview
  | some view =>
    have hbase : s.base event = view := by simp [base, hview]
    rw [hbase] at hflag hopen same
    simp only [isMessage, Bool.and_eq_true] at hmessage
    have hnone : (s.recordIndex.get event.recordId).isNone = true := by
      cases hget : s.recordIndex.get event.recordId <;> simp_all
    simp [ordinary, hview, hnone, hmessage.1, hmessage.2, same, hflag, hopen] at hord

theorem context_cleanStep (h : s.Invariant m) (hord : s.ordinary event = false)
    (hfresh : (s.recordIndex.get event.recordId).isSome = false)
    (hflag : (s.base event).identityConflict = false) {status : ApplyStatus} {view : SessionView}
    (step : (s.base event).CleanStep event status view)
    (hopen : view.closedByNotification = false) :
    ContextOk (trail (s.events ++ [event]) view.generation) view := by
  have hbound := base_bound h hflag
  cases step with
  | historical older =>
    rw [trail_append_of_ne older.ne]
    exact base_context h hflag hopen
  | closed same hclosed => simp [hclosed] at hopen
  | restarted boundary advanced within next =>
    rename_i generation
    have hearlier := trail_of_lt (fun e he => (hbound e he).trans_lt advanced)
    have hmessage : isMessage event = false := by
      cases hk : event.kind <;> simp [hk, EventKind.isBoundary] at boundary <;>
        simp [isMessage, hk]
    have htrail : trail (s.events ++ [event]) generation = ⟨false, false⟩ := by
      by_cases hg : event.generation = generation
      · rw [trail_append (Or.inr hmessage) hg, hearlier, Trail.step_boundary _ boundary]
      · rw [trail_append_of_ne hg, hearlier]
    exact htrail ▸ ContextOk.start generation _
  | gap same open' kind =>
    have hmessage : isMessage event = false := by
      cases hk : event.kind <;> simp [hk, EventKind.isGap] at kind
      simp [isMessage, hk]
    have htrail : trail (s.events ++ [event]) (s.base event).generation = ⟨true, true⟩ := by
      rw [trail_append (Or.inr hmessage) same, ContextOk.step_gap _ kind]
    exact htrail ▸ ContextOk.gap hflag _
  | unscoped same open' kind boundary direction =>
    have hmessage : isMessage event = false := by simp [isMessage, direction]
    have hgen : ((s.base event).applyUnscoped event).generation = (s.base event).generation := by
      unfold SessionView.applyUnscoped
      split <;> rfl
    rw [hgen, trail_append (Or.inr hmessage) same]
    exact (base_context h hflag open').unscoped hflag kind direction hopen
  | directed same open' kind boundary direction =>
    rename_i d
    change ContextOk (trail (s.events ++ [event]) (s.base event).generation) _
    refine (base_context h hflag open').directed d ?_ ?_
    all_goals
      cases hmessage : isMessage event with
      | true =>
        have hnil := events_of_extraordinary h hord hfresh hflag open' same hmessage
        rw [← same, hnil, List.nil_append, trail_single, Trail.step_message _ hmessage]
        simp [trail, startsWith, hmessage]
      | false =>
        rw [trail_append (Or.inr hmessage) same,
          Trail.step_directed _ direction kind boundary hmessage]

theorem bound_cleanStep (h : s.Invariant m) (hflag : (s.base event).identityConflict = false)
    {status : ApplyStatus} {view : SessionView}
    (step : (s.base event).CleanStep event status view) :
    (s.base event).generation ≤ view.generation ∧
      ∀ e ∈ s.events ++ [event], e.generation ≤ view.generation := by
  have hbound := base_bound h hflag
  have hmono : (s.base event).generation ≤ view.generation ∧
      event.generation ≤ view.generation := by
    cases step with
    | historical older => exact ⟨le_rfl, older.le⟩
    | closed same => exact ⟨le_rfl, same.le⟩
    | restarted boundary advanced within => exact ⟨advanced.le, within⟩
    | gap same => exact ⟨le_rfl, same.le⟩
    | unscoped same =>
      have hgen : ((s.base event).applyUnscoped event).generation =
          (s.base event).generation := by
        unfold SessionView.applyUnscoped
        split <;> rfl
      exact ⟨hgen.ge, hgen ▸ same.le⟩
    | directed same => exact ⟨le_rfl, same.le⟩
  refine ⟨hmono.1, fun e he => ?_⟩
  rcases List.mem_append.1 he with he | he
  · exact (hbound e he).trans hmono.1
  · rw [List.mem_singleton.1 he]
    exact hmono.2

theorem size_setView (s : SessionObserver) (view : SessionView) :
    ({ s with view := some view } : SessionObserver).size m + s.view.elim 0 (viewDynamicSize m) =
      s.size m + viewDynamicSize m view := by
  simp only [size, Option.elim]
  omega

theorem commit_append {bytes admittedWork : ℕ} (hnone : s.recordIndex.get event.recordId = none) :
    s.commit ⟨s.owner, s.events.length, .applied,
      .append event event.recordId event.recordId [s.events.length] bytes, admittedWork⟩ =
      { s.pushEvent event with
        view := s.view.map (witness event event.recordId)
        bytes := bytes
        workUnits := admittedWork } := by
  simp [commit, pushEvent, hnone]

theorem size_append {view : SessionView} (hview : s.view = some view)
    (hnone : s.recordIndex.get event.recordId = none) {view' : SessionView}
    (hsize : viewDynamicSize m view' = viewDynamicSize m view + textStorage m event.recordId) :
    ({ s.pushEvent event with view := some view' } : SessionObserver).size m =
      s.size m + eventSize m event + newRecordIndexSize m event.recordId +
        textStorage m event.recordId := by
  have hset := size_setView (m := m) (s.pushEvent event) view'
  have hpush := size_pushEvent (m := m) hnone
  have hold : (s.pushEvent event).view.elim 0 (viewDynamicSize m) = viewDynamicSize m view := by
    simp [pushEvent, hview]
  dsimp only
  omega

theorem Invariant.commit {p : PreparedSessionEvent} (h : s.Invariant m)
    (hp : Prepared m s event p) : (s.commit p).Invariant m := by
  cases hp with
  | inert => exact h
  | append ordinary charge word =>
    obtain ⟨hnone, hmessage, view, d, hview, hd, hgeneration, hflag, hopen⟩ :=
      ordinary_spec ordinary
    rw [commit_append hnone, hview, Option.map_some]
    have hne : s.events ≠ [] := fun hnil => by simp [h.started.2 hnil] at hview
    have hsize := size_append (m := m) hview hnone
      (viewDynamicSize_witness event event.recordId view)
    refine ⟨?_, ?_, by simp [pushEvent], fun record i => pushEvent_indexed h event record i,
      fun record => pushEvent_filed h event record, ?_, ?_⟩
    · change _ = ({ s.pushEvent event with view := _ } : SessionObserver).size m
      rw [hsize, ← h.bytes, charge]
    · change ({ s.pushEvent event with view := _ } : SessionObserver).size m < wordBound
      rw [hsize, ← h.bytes, ← charge]
      exact word
    · rintro view' hview' - e he
      obtain rfl := Option.some.inj hview'
      change e.generation ≤ view.generation
      rcases List.mem_append.1 he with he | he
      · exact h.bound view hview hflag e he
      · rw [List.mem_singleton.1 he, hgeneration]
    · rintro view' hview' - -
      obtain rfl := Option.some.inj hview'
      change ContextOk (trail (s.events ++ [event]) view.generation) _
      rw [trail_append (Or.inl hne) hgeneration, Trail.step_message _ hmessage]
      exact (h.context view hview hflag hopen).witness event event.recordId
  | staged extraordinary step size published =>
    rename_i status next inner admittedWork
    subst published
    have hinner : inner.events = s.events ∧ inner.recordIndex = s.recordIndex ∧
        ∃ view, inner.view = some view := by
      cases step with
      | flagged => exact ⟨rfl, rfl, _, rfl⟩
      | clean => exact ⟨rfl, rfl, _, rfl⟩
    obtain ⟨hevents, hindex, view, hview⟩ := hinner
    have hpushed (record : String) : (inner.pushEvent event).events = (s.pushEvent event).events ∧
        (inner.pushEvent event).recordIndex = (s.pushEvent event).recordIndex := by
      simp [pushEvent, hevents, hindex]
    refine ⟨rfl, size, by simp [SessionObserver.commit, pushEvent, hview], ?_, ?_, ?_, ?_⟩
    · intro record i
      simp only [SessionObserver.commit, hpushed record]
      exact pushEvent_indexed h event record i
    · intro record
      simp only [SessionObserver.commit, hpushed record]
      exact pushEvent_filed h event record
    · intro view' hview' hflag'
      cases step with
      | flagged flag =>
        obtain rfl := Option.some.inj hview'
        simp [flag] at hflag'
      | clean fresh unflagged clean =>
        obtain rfl := Option.some.inj hview'
        exact (bound_cleanStep h unflagged clean).2
    · intro view' hview' hflag' hopen'
      cases step with
      | flagged flag =>
        obtain rfl := Option.some.inj hview'
        simp [flag] at hflag'
      | clean fresh unflagged clean =>
        obtain rfl := Option.some.inj hview'
        exact context_cleanStep h extraordinary fresh unflagged clean hopen'

end Steps

theorem Reachable.invariant (h : Reachable m s) : s.Invariant m := by
  induction h with
  | new h => exact invariant_new h
  | apply before h ih =>
    obtain ⟨p, hp, -, rfl⟩ := apply_ok h
    exact ih.commit (prepare_prepared hp).2

/-- The append publishes what the staged path would. -/
def Agrees (m : Layout) (s : SessionObserver) (event : Event) (p : PreparedSessionEvent) : Prop :=
  ∃ next, s.stage m event (s.recordIndex.get event.recordId).isSome = .ok (p.status, next) ∧
    (s.commit p).events = next.events ∧ (s.commit p).recordIndex = next.recordIndex ∧
    (s.commit p).bytes = next.bytes ∧ (s.commit p).view = next.view

section Claim

variable {view : SessionView}
variable {s : SessionObserver} {event : Event} {p : PreparedSessionEvent}

theorem applyInner_message {d : U8} (hview : s.view = some view)
    (direction : event.direction = some d) (hmessage : isMessage event = true)
    (same : event.generation = view.generation) (hflag : view.identityConflict = false)
    (hopen : view.closedByNotification = false) :
    s.applyInner event false =
      .ok (.applied, { s with view := some (view.applyDirected event d) }) := by
  simp only [isMessage, Bool.and_eq_true, Bool.or_eq_true, decide_eq_true_eq] at hmessage
  rcases hmessage.2 with hk | hk
  · simp [applyInner, hview, hflag, SessionView.applyClean, hk, same, SessionView.applyCurrent,
      hopen, direction, bind, Except.bind]
  · simp [applyInner, hview, hflag, SessionView.applyClean, hk, same, SessionView.applyCurrent,
      hopen, direction, bind, Except.bind]

theorem settled_iff_of_open (h : s.Invariant m) (hview : s.view = some view)
    (hflag : view.identityConflict = false) (hopen : view.closedByNotification = false) :
    s.Settled ↔ view.context = context view := by
  rw [(h.context view hview hflag hopen).settled_iff hopen hflag]
  constructor
  · intro hs
    simpa [hflag, hopen] using hs view hview
  · rintro hs view' hview'
    obtain rfl := Option.some.inj (hview.symm.trans hview')
    exact Or.inr (Or.inr hs)

theorem agrees_iff (h : s.Invariant m) (hp : Prepared m s event p) (happend : p.plan.isAppend = true) :
    Agrees m s event p ↔ s.Settled := by
  cases hp with
  | inert => simp [SessionPlan.isAppend] at happend
  | staged => simp [SessionPlan.isAppend] at happend
  | append ordinary charge word =>
    obtain ⟨hnone, hmessage, view, d, hview, hd, hgeneration, hflag, hopen⟩ :=
      ordinary_spec ordinary
    rw [settled_iff_of_open h hview hflag hopen, Agrees, commit_append hnone, hview,
      Option.map_some, hnone, Option.isSome_none]
    have hinner := applyInner_message hview hd hmessage hgeneration hflag hopen
    have hstaged := applyDirected_message event view hd hmessage
    have hdynamic : viewDynamicSize m (view.applyDirected event d) =
        viewDynamicSize m view + textStorage m event.recordId := by
      rw [hstaged, ← viewDynamicSize_witness event event.recordId view]
      have := (h.context view hview hflag hopen).contextSize hopen hflag
      simp only [viewDynamicSize]
      change _ + contextSize (context view) + _ + _ = _ + contextSize view.context + _ + _
      rw [this]
    have hsize := size_append hview hnone hdynamic
    rw [← h.bytes, ← charge] at hsize
    have hstage : s.stage m event false = .ok (.applied,
        { s.pushEvent event with
          view := some (view.applyDirected event d), bytes := s.bytes + eventSize m event +
            newRecordIndexSize m event.recordId + textStorage m event.recordId }) := by
      have hmeasure : ({ s.pushEvent event with
          view := some (view.applyDirected event d) } : SessionObserver).measureSize m =
            .ok (s.bytes + eventSize m event + newRecordIndexSize m event.recordId +
              textStorage m event.recordId) := by
        rw [measureSize, hsize, addSize_ok]
        exact ⟨by simpa [charge] using word, by simp [charge]⟩
      rw [stage, hinner]
      exact bind_eq_ok.2 ⟨_, rfl, bind_eq_ok.2 ⟨_, hmeasure, rfl⟩⟩
    rw [hstage]
    constructor
    · rintro ⟨next, hnext, -, -, -, hagree⟩
      obtain rfl := (Prod.mk.inj (Except.ok.inj hnext)).2
      have hcontext := congrArg SessionView.context (Option.some.inj hagree)
      rw [hstaged] at hcontext
      exact hcontext
    · intro hcontext
      refine ⟨_, rfl, rfl, rfl, charge, ?_⟩
      rw [hstaged, ← hcontext]
      rfl

theorem generation_mono (h : s.Invariant m) (hp : Prepared m s event p)
    (hview : s.view = some view) :
    ∃ view', (s.commit p).view = some view' ∧ view.generation ≤ view'.generation := by
  have hbase : s.base event = view := by simp [base, hview]
  cases hp with
  | inert => exact ⟨view, hview, le_rfl⟩
  | append =>
    exact ⟨witness event event.recordId view, by simp [SessionObserver.commit, hview], le_rfl⟩
  | staged extraordinary step size published =>
    subst published
    cases step with
    | flagged flag kept => exact ⟨_, rfl, kept.symm ▸ by rw [← hbase]; rfl⟩
    | clean fresh unflagged clean =>
      exact ⟨_, rfl, hbase ▸ (bound_cleanStep h unflagged clean).1⟩

/-- In every state reached, every append agrees with the staged path exactly when the state is
settled. -/
theorem append_agrees_iff (h : Reachable m s) : s.measureSize m = .ok s.bytes ∧
    ((∀ view, s.view = some view → view.context = context view ∨
        view.closedByNotification = true ∨ view.identityConflict = true) ↔ s.Settled) ∧
    (∀ event p, s.prepare m event = .ok p → p.plan.isAppend = true →
      (Agrees m s event p ↔ s.Settled)) ∧
    ∀ event status t, s.apply m event = .ok (status, t) →
      (∀ view, s.view = some view →
        ∃ view', t.view = some view' ∧ view.generation ≤ view'.generation) ∧
      (status = .identicalReplay → t.events = s.events ∧ t.view = s.view ∧ t.bytes = s.bytes ∧
        t.workUnits = s.workUnits) := by
  have hinv := h.invariant
  refine ⟨?_, ?_, fun event p hp happend => agrees_iff hinv (prepare_prepared hp).2 happend, ?_⟩
  · rw [measureSize, addSize_ok]
    exact ⟨hinv.word, by rw [hinv.bytes, Nat.add_zero]⟩
  · cases hview : s.view with
    | none => simp [Settled, hview]
    | some view =>
      by_cases hopen : view.closedByNotification = false
      · by_cases hflag : view.identityConflict = false
        · rw [settled_iff_of_open hinv hview hflag hopen]
          simp [hopen, hflag]
        · simp [Settled, hview, hflag]
      · simp [Settled, hview, hopen]
  · intro event status t ht
    obtain ⟨p, hp, rfl, rfl⟩ := apply_ok ht
    have hprepared := (prepare_prepared hp).2
    refine ⟨fun view hview => generation_mono hinv hprepared hview, fun hreplay => ?_⟩
    cases hprepared with
    | inert => exact ⟨rfl, rfl, rfl, rfl⟩
    | append => cases hreplay
    | staged extraordinary step size published =>
      cases step with
      | flagged => cases hreplay
      | clean fresh unflagged clean =>
        exfalso
        simp only at hreplay
        subst hreplay
        cases clean

end Claim

def run (m : Layout) (s : SessionObserver) (events : List Event) : SessionObserver :=
  events.foldl (fun s event => match s.apply m event with
    | .ok (_, t) => t
    | .error _ => s) s

theorem reachable_run {s : SessionObserver} (h : Reachable m s) (events : List Event) :
    Reachable m (s.run m events) := by
  induction events generalizing s with
  | nil => exact h
  | cons event events ih =>
    refine ih (s := match s.apply m event with
      | .ok (_, t) => t
      | .error _ => s) ?_
    split
    · rename_i happly
      exact h.apply happly
    · exact h

def sampleLayout : Layout where
  observer := 512
  observer_lt := by norm_num
  event := 264
  string := 24
  vec := 24
  usize := 8
  capability := 32
  alternative := 88
  refresh := 40
  eor := 32
  stale := 32

def sampleKey : SessionKey := ⟨⟨.captured, "source", "partition"⟩, "1"⟩

def sampleEvent (generation : ℕ) (record : String) (kind : EventKind) : Event :=
  ⟨sampleKey, generation, some 0, record, kind⟩

def sampleReset : SessionObserver :=
  (initial sampleLayout 0 sampleKey Limits.default).run sampleLayout
    [sampleEvent 0 "a" .update, sampleEvent 0 "b" (.protocolReset 1 .notification)]

theorem reachable_sampleReset : Reachable sampleLayout sampleReset := by
  have hnew : new sampleLayout 0 sampleKey Limits.default =
      .ok (initial sampleLayout 0 sampleKey Limits.default) := rfl
  exact reachable_run (.new hnew) _

theorem append_agrees_iff_sampleReset :
    sampleReset.measureSize sampleLayout = .ok sampleReset.bytes :=
  (append_agrees_iff reachable_sampleReset).1

theorem sampleReset_unsettled : ¬ sampleReset.Settled := by
  have hview : sampleReset.view.map (fun view => (view.closedByNotification,
      view.identityConflict, (trail sampleReset.events view.generation).settled)) =
      some (false, false, false) := by decide +kernel
  intro h
  obtain ⟨view, hv, hflags⟩ := Option.map_eq_some_iff.1 hview
  simp only [Prod.mk.injEq] at hflags
  simpa [hflags] using h view hv

/-- A KEEPALIVE behind a NOTIFICATION is appended and keeps the context of the empty view. -/
theorem append_keeps_reset_context : ∃ s event p, Reachable sampleLayout s ∧
    s.prepare sampleLayout event = .ok p ∧ p.plan.isAppend = true ∧
      ¬ Agrees sampleLayout s event p := by
  have hplan : (sampleReset.prepare sampleLayout (sampleEvent 1 "c" .keepalive)).toOption.map
      (fun p => p.plan.isAppend) = some true := by decide +kernel
  obtain ⟨p, hp, happend⟩ := Option.map_eq_some_iff.1 hplan
  have hp : sampleReset.prepare sampleLayout (sampleEvent 1 "c" .keepalive) = .ok p := by
    cases h : sampleReset.prepare sampleLayout (sampleEvent 1 "c" .keepalive) with
    | error e => simp [h, Except.toOption] at hp
    | ok q => simpa [h, Except.toOption] using hp
  refine ⟨sampleReset, _, p, reachable_sampleReset, hp, happend, fun hagrees => ?_⟩
  exact sampleReset_unsettled
    ((agrees_iff reachable_sampleReset.invariant (prepare_prepared hp).2 happend).1 hagrees)

end SessionObserver
end PcapEvidence.Bgp.Session
