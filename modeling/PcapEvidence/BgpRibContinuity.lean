import PcapEvidence.BgpRibInvariant

/-!
# Continuity effects and the reducer

A plan reports which routes a boundary affects. The reducer keeps its own index of gaps, by session
and generation, for the announcements that come later. The two are compared here over whole runs.
-/

namespace PcapEvidence.Bgp.AdjRibIn

open FiniteMap FinMap History

variable {check : RibEvent → Limits → Result Unit} {s t start : AdjRibIn} {event : RibEvent}
  {origin : Option Digest} {plan : PreparedRibEvent} {admission : ℕ} {status : ApplyStatus}
  {plans : List PreparedRibEvent}

theorem applyAction_other {gap : Bool} {i : ℕ} {key : RouteKey} (x : RibAction × ℕ)
    (hx : actionKey event.scope false x.1 ≠ some key) :
    (s.applyAction event gap i origin x).entries.get key = s.entries.get key := by
  obtain ⟨action, index⟩ := x
  cases action with
  | announce route pathId attributes attributeIdentity =>
    exact get_insert_of_ne _ (fun he => hx (by simp [actionKey, he])) _
  | withdraw route pathId =>
    exact get_insert_of_ne _ (fun he => hx (by simp [actionKey, he])) _
  | reject route pathId reason => rfl

theorem foldl_applyAction_other {gap : Bool} {i : ℕ} {key : RouteKey} (l : List (RibAction × ℕ))
    (hl : ∀ x ∈ l, actionKey event.scope false x.1 ≠ some key) (s : AdjRibIn) :
    (l.foldl (applyAction event gap i origin) s).entries.get key = s.entries.get key := by
  induction l generalizing s with
  | nil => rfl
  | cons x rest ih =>
    rw [List.foldl_cons, ih fun y hy => hl y (List.mem_cons_of_mem x hy)]
    exact applyAction_other x (hl x List.mem_cons_self)

theorem routeStep_announced {gap : Bool} {i : ℕ} {before after : List RibAction}
    {route : PrefixIdentity} {pathId : PathId} {attributes : Json} {attributeIdentity : String}
    (hk : event.kind = .update (before ++ .announce route pathId attributes attributeIdentity ::
      after))
    (hsupported : supported route = true) (hpath : pathId ≠ .unknown)
    (hafter : ∀ a ∈ after, actionKey event.scope false a ≠ some (routeKey event.scope route pathId)) :
    ∃ e, (s.routeStep event gap i origin).entries.get (routeKey event.scope route pathId) = some e ∧
      e.status = if gap then .unresolved else .active := by
  unfold routeStep
  rw [hk]
  dsimp only
  rw [finishOrigin_frame, List.zipIdx_append, List.zipIdx_cons, List.foldl_append, List.foldl_cons]
  dsimp only
  rw [foldl_applyAction_other _ fun x hx => hafter x.1 (List.fst_mem_of_mem_zipIdx hx)]
  refine ⟨_, get_insert_self _ _ _, ?_⟩
  have hknown : decide (pathId = .unknown) = false := by simp [hpath]
  simp only [hknown, hsupported, Bool.or_false, Bool.not_true]

section Effects

structure Reported (s : AdjRibIn) (plan : PreparedRibEvent) (ref : NativeContinuityRef) : Prop where
  effect : plan.continuityEffect = some ref
  kind : ref.kind = .gap
  gaps : plan.stage.gaps = [(ref.scope, ref.recordId)]
  conflict : ref.effect = .sessionAllGenerations → ref.scope.sessionKey ∈ s.taintedSessions
  mismatch : ref.effect = .baseDirectionalGeneration → ∃ p, ∃ a ∈ s.events, ∃ b ∈ s.events,
    (isRouteScoped a.kind = true ∧ baseScope a.scope = baseScope ref.scope ∧ a.scope.peer = p) ∧
    isRouteScoped b.kind = true ∧ baseScope b.scope = baseScope ref.scope ∧ b.scope.peer ≠ p

def Silent (plan : PreparedRibEvent) : Prop :=
  plan.stage.gaps = [] ∧ ∀ ref, plan.continuityEffect = some ref → ref.kind ≠ .gap

theorem Reported.mono {ref : NativeContinuityRef} (h : Reported s plan ref)
    (ht : s.taintedSessions ⊆ t.taintedSessions) (he : s.events ⊆ t.events) : Reported t plan ref :=
  { h with
    conflict := fun hr => ht (h.conflict hr)
    mismatch := by
      intro hr
      obtain ⟨p, a, ha, b, hb, hrest⟩ := h.mismatch hr
      exact ⟨p, a, he ha, b, he hb, hrest⟩ }

theorem commit_monotone (s : AdjRibIn) (plan : PreparedRibEvent) :
    s.taintedSessions ⊆ (s.commit plan).taintedSessions ∧ s.events ⊆ (s.commit plan).events := by
  cases hevent : plan.event with
  | some e => simp [commit, hevent, recordEvent]
  | none => simp [commit, hevent]

theorem commit_gaps (s : AdjRibIn) (plan : PreparedRibEvent) :
    (s.commit plan).gaps = s.gaps ++ plan.stage.gaps := by
  cases hevent : plan.event with
  | some e => simp [commit, hevent, recordEvent]
  | none => simp [commit, hevent]

theorem reported_fresh {whole : AdjRibIn} (h : FreshPlan s event origin admission plan)
    (hdirect : s.applyDirect event origin = .ok (plan.status, whole))
    (hc : Copies s event.scope.sessionKey (s.selection event) s.events.length plan.stage whole) :
    Silent plan ∨ ∃ ref, Reported (s.commit plan) plan ref := by
  have hgaps := hc.gaps
  have hcommit := commit_fresh h hc
  have hevents : event ∈ (s.commit plan).events := by
    rw [hcommit, hc.frame]
    simp [recordEvent]
  have hold := (commit_monotone s plan).2
  have htainted : (s.commit plan).taintedSessions = whole.taintedSessions := by rw [hcommit]; rfl
  have houtcome := outcome_of_direct hdirect
  have hevent := h.recorded
  have henter : (s.enterGeneration event).gaps = s.gaps := by rw [enterGeneration_frame]
  unfold Silent PreparedRibEvent.continuityEffect
  generalize hstatus : plan.status = status at houtcome
  cases houtcome with
  | tainted ht =>
    have hnil : plan.stage.gaps = [] := by simpa using hgaps
    exact .inl ⟨hnil, by simp [hevent, hnil]⟩
  | conflict ht hcon =>
    have hone : plan.stage.gaps = [(event.scope, event.recordId)] := by
      rw [conflictStep_frame.2.2] at hgaps
      exact (List.append_cancel_left hgaps).symm
    refine .inr ⟨⟨event.recordId, event.scope, .identityConflict, .gap, .sessionAllGenerations,
      "record_identity_conflict"⟩, ?_, rfl, hone, fun _ => ?_, fun hr => by cases hr⟩
    · simp [PreparedRibEvent.continuityEffect, hevent, hstatus, hone]
    · rw [htainted, conflictStep_frame.2.1]
      exact Finset.mem_insert_self _ _
  | reset ht hk hg hlt =>
    have hnil : plan.stage.gaps = [] := by simpa [resetStep, updateEntries] using hgaps
    exact .inl ⟨hnil, by simp [hevent, hk]⟩
  | historical ht hk hg hlt =>
    have hnil : plan.stage.gaps = [] := by simpa using hgaps
    exact .inl ⟨hnil, by simp [hevent]⟩
  | undirected ht hk hg hd hgap =>
    have hnil : plan.stage.gaps = [] := by simpa [henter] using hgaps
    exact .inl ⟨hnil, by simp [hevent, hnil]⟩
  | mismatch ht hk hg hd hp =>
    have hone : plan.stage.gaps = [(event.scope, event.recordId)] := by
      simp only [pushGap, quarantineScope, updateEntries, henter] at hgaps
      exact (List.append_cancel_left hgaps).symm
    refine .inr ⟨⟨event.recordId, event.scope, .missingScope, .gap, .baseDirectionalGeneration,
      "peer_binding_mismatch"⟩, ?_, rfl, hone, (fun hr => by cases hr), fun _ => ?_⟩
    · simp [PreparedRibEvent.continuityEffect, hevent, hstatus, hone]
    · simp only [peersDiffer, List.any_eq_true, Bool.and_eq_true, decide_eq_true_eq] at hp
      obtain ⟨old, hin, ⟨hr, hb⟩, hne⟩ := hp
      exact ⟨event.scope.peer, event, hevents, old, hold hin, ⟨hk, rfl, rfl⟩, hr, hb, hne⟩
  | route ht hk hg hd hp hcon =>
    rw [routeStep_frame.2.2, henter] at hgaps
    have hstage := List.append_cancel_left hgaps
    cases hkind : event.kind with
    | gap reason =>
      have hone : plan.stage.gaps = [(event.scope, event.recordId)] := by
        simpa [hkind, RibEventKind.isGap] using hstage.symm
      refine .inr ⟨⟨event.recordId, event.scope, .applied, .gap, .sessionGeneration, reason⟩,
        ?_, rfl, hone, (fun hr => by cases hr), fun hr => by cases hr⟩
      simp [PreparedRibEvent.continuityEffect, hevent, hstatus, hone, hkind]
    | update actions | endOfRib family | stale family kind =>
      have hnil : plan.stage.gaps = [] := by
        simpa [hkind, RibEventKind.isGap] using hstage.symm
      exact .inl ⟨hnil, by simp [hevent, hkind]⟩
    | reset g r => exact absurd hkind (hk g r)

theorem reported_prepared (hi : Indexed s) (h : s.prepareInner check event origin = .ok plan) :
    Silent plan ∨ ∃ ref, Reported (s.commit plan) plan ref := by
  cases prepares hi h with
  | inert _ =>
    refine .inl ⟨rfl, fun ref href => ?_⟩
    cases href
  | replay _ _ horigin =>
    rw [horigin.shape]
    refine .inl ⟨rfl, fun ref href => ?_⟩
    cases href
  | fresh _ _ hfresh hdirect hc => exact reported_fresh hfresh hdirect hc

theorem reported_trace (hs : Indexed start) (hgaps : start.gaps = [])
    (h : Trace check start plans s) :
    s.gaps = plans.flatMap (·.stage.gaps) ∧
      ∀ p ∈ plans, Silent p ∨ ∃ ref, Reported s p ref := by
  induction h with
  | nil => exact ⟨by simp [hgaps], by simp⟩
  | @snoc plans t event origin plan before prepared ih =>
    have hi := indexed_trace hs before
    refine ⟨by rw [commit_gaps, ih.1]; simp, fun p hp => ?_⟩
    rcases List.mem_append.1 hp with hp | hp
    · rcases ih.2 p hp with hsilent | ⟨ref, href⟩
      · exact .inl hsilent
      · exact .inr ⟨ref, href.mono (commit_monotone t plan).1 (commit_monotone t plan).2⟩
    · rw [List.mem_singleton.1 hp]
      exact reported_prepared hi prepared

def Affected (plans : List PreparedRibEvent) (scope : RibScope) : Prop :=
  ∃ p ∈ plans, ∃ ref, p.continuityEffect = some ref ∧ ref.kind = .gap ∧
    continuityAffectsScope ref.kind ref.effect ref.scope scope = true

/-- An earlier event of the session and generation had another peer than its base scope. -/
def MismatchBefore (plans : List PreparedRibEvent) (scope : RibScope) : Prop :=
  ∃ p ∈ plans, ∃ ref, p.continuityEffect = some ref ∧ ref.effect = .baseDirectionalGeneration ∧
    ref.scope.sessionKey = scope.sessionKey ∧ ref.scope.generation = scope.generation

def GapEventBefore (plans : List PreparedRibEvent) (scope : RibScope) : Prop :=
  ∃ p ∈ plans, ∃ ref, p.continuityEffect = some ref ∧ ref.kind = .gap ∧
    ref.effect = .sessionGeneration ∧ ref.scope.sessionKey = scope.sessionKey ∧
    ref.scope.generation = scope.generation

def AgreesAt (plans : List PreparedRibEvent) (t : AdjRibIn) (key : RouteKey) : Prop :=
  ∃ e, t.entries.get key = some e ∧ (e.status = .unresolved ↔ Affected plans key.scope) ∧
    (¬Affected plans key.scope → e.status = .active)

theorem sessionIdentity_iff {a b : RibScope} :
    sameSessionIdentity a b.source b.session = true ↔ a.sessionKey = b.sessionKey := by
  simp [sameSessionIdentity, RibScope.sessionKey]

variable (hall : s.gaps = plans.flatMap (·.stage.gaps) ∧
  ∀ p ∈ plans, Silent p ∨ ∃ ref, Reported s p ref)
include hall

theorem gapBefore_iff (ht : event.scope.sessionKey ∉ s.taintedSessions) :
    s.gapBefore event = true ↔
      GapEventBefore plans event.scope ∨ MismatchBefore plans event.scope := by
  simp only [gapBefore, List.any_eq_true, Bool.and_eq_true, decide_eq_true_eq, hall.1,
    List.mem_flatMap]
  constructor
  · rintro ⟨g, ⟨p, hp, hg⟩, hsession, hgen⟩
    rcases hall.2 p hp with hsilent | ⟨ref, href⟩
    · rw [hsilent.1] at hg
      cases hg
    rw [href.gaps, List.mem_singleton] at hg
    subst hg
    cases heffect : ref.effect with
    | sessionAllGenerations => exact absurd (hsession ▸ href.conflict heffect) ht
    | sessionGeneration =>
      exact .inl ⟨p, hp, ref, href.effect, href.kind, heffect, hsession, hgen⟩
    | baseDirectionalGeneration =>
      exact .inr ⟨p, hp, ref, href.effect, heffect, hsession, hgen⟩
  · have hgap : ∀ p ∈ plans, ∀ ref, p.continuityEffect = some ref → ref.kind = .gap →
        ref.scope.sessionKey = event.scope.sessionKey →
        ref.scope.generation = event.scope.generation →
        ∃ g, (∃ p ∈ plans, g ∈ p.stage.gaps) ∧ g.1.sessionKey = event.scope.sessionKey ∧
          g.1.generation = event.scope.generation := by
      intro p hp ref heffect hkind hsession hgen
      rcases hall.2 p hp with hsilent | ⟨ref', href⟩
      · exact absurd hkind (hsilent.2 ref heffect)
      · rw [href.effect] at heffect
        cases heffect
        exact ⟨_, ⟨p, hp, by rw [href.gaps]; exact List.mem_singleton_self _⟩, hsession, hgen⟩
    rintro (⟨p, hp, ref, heffect, hkind, -, hsession, hgen⟩ |
      ⟨p, hp, ref, heffect, hdirectional, hsession, hgen⟩)
    · exact hgap p hp ref heffect hkind hsession hgen
    · refine hgap p hp ref heffect ?_ hsession hgen
      -- Only a gap is reported for one direction.
      rcases hall.2 p hp with hsilent | ⟨ref', href⟩
      · simp only [PreparedRibEvent.continuityEffect, Option.bind_eq_some_iff] at heffect
        obtain ⟨e, -, heffect⟩ := heffect
        split at heffect
        · split_ifs at heffect
          cases heffect
          cases hdirectional
        · split_ifs at heffect
          cases heffect
          rfl
        · split at heffect
          · split_ifs at heffect
            cases heffect
            cases hdirectional
          · cases heffect
            cases hdirectional
          · cases heffect
        · cases heffect
      · rw [href.effect] at heffect
        cases heffect
        exact href.kind

/-- A scope that takes announcements is affected by gap events only. -/
theorem affected_iff (ht : event.scope.sessionKey ∉ s.taintedSessions)
    (hp : s.peersDiffer event = false) :
    Affected plans event.scope ↔ GapEventBefore plans event.scope := by
  constructor
  · rintro ⟨p, hp', ref, heffect, hkind, haffects⟩
    rcases hall.2 p hp' with hsilent | ⟨ref', href⟩
    · exact absurd hkind (hsilent.2 ref heffect)
    rw [href.effect] at heffect
    cases heffect
    cases hr : ref.effect with
    | sessionAllGenerations =>
      simp only [continuityAffectsScope, hr, sessionIdentity_iff] at haffects
      exact absurd (haffects ▸ href.conflict hr) ht
    | sessionGeneration =>
      simp only [continuityAffectsScope, hr, hkind, Bool.and_eq_true, sessionIdentity_iff,
        decide_eq_true_eq] at haffects
      exact ⟨p, hp', ref, href.effect, hkind, hr, haffects.1.symm, haffects.2.symm⟩
    | baseDirectionalGeneration =>
      simp only [continuityAffectsScope, hr, sameBaseScope_iff] at haffects
      obtain ⟨peer, a, ha, b, hb, ⟨har, hab, hap⟩, hbr, hbb, hbp⟩ := href.mismatch hr
      simp only [peersDiffer, List.any_eq_false, Bool.and_eq_true, decide_eq_true_eq, not_and,
        ne_eq, not_not] at hp
      have hpa := hp a ha ⟨har, hab.trans haffects⟩
      have hpb := hp b hb ⟨hbr, hbb.trans haffects⟩
      exact absurd (hpb.trans (hpa.symm.trans hap)) hbp
  · rintro ⟨p, hp', ref, heffect, hkind, hr, hsession, hgen⟩
    refine ⟨p, hp', ref, heffect, hkind, ?_⟩
    simp only [continuityAffectsScope, hr, hkind, Bool.and_eq_true, sessionIdentity_iff,
      decide_eq_true_eq]
    exact ⟨hsession.symm, hgen.symm⟩

end Effects

def Boundary (event : RibEvent) (status : ApplyStatus) : Prop :=
  status = .identityConflict ∨ status = .missingScope ∨
    status = .applied ∧ isRouteScoped event.kind = false

theorem updateEntries_changed {p : RouteKey → Bool} {f : RouteEntry → RouteEntry} {k : RouteKey}
    (h : (s.updateEntries p f).entries.get k ≠ s.entries.get k) : p k = true := by
  by_contra hp
  refine h ?_
  simp only [updateEntries, get_mapVal, hp]
  cases s.entries.get k <;> rfl

theorem conflictStep_changed {i : ℕ} {k : RouteKey}
    (h : (s.conflictStep event i origin).entries.get k ≠ s.entries.get k) :
    k.scope.sessionKey = event.scope.sessionKey := by
  by_contra hk
  have hstep : ∀ (s : AdjRibIn) (x : RibAction × ℕ),
      (s.applyConflict event i origin x).entries.get k = s.entries.get k := by
    rintro s ⟨action, index⟩
    cases action with
    | announce route pathId attributes attributeIdentity =>
      simp only [applyConflict]
      split_ifs
      · exact get_insert_of_ne _ (fun he => hk (by rw [he]; rfl)) _
      · rfl
    | withdraw route pathId => rfl
    | reject route pathId reason => rfl
  have hfold : ∀ (l : List (RibAction × ℕ)) (s : AdjRibIn),
      (l.foldl (applyConflict event i origin) s).entries.get k = s.entries.get k := by
    intro l
    induction l with
    | nil => exact fun _ => rfl
    | cons x rest ih =>
      intro s
      rw [List.foldl_cons, ih, hstep]
  refine h ?_
  unfold conflictStep pushGap
  dsimp only
  rw [finishOrigin_frame]
  dsimp only
  rw [hfold]
  by_contra hne
  exact hk (sameSession_iff.1 (updateEntries_changed hne))

theorem fresh_changes {whole : AdjRibIn} (hfresh : FreshPlan s event origin admission plan)
    (hdirect : s.applyDirect event origin = .ok (plan.status, whole))
    (hc : Copies s event.scope.sessionKey (s.selection event) s.events.length plan.stage whole)
    (hb : Boundary event plan.status) {k : RouteKey}
    (hk : (s.commit plan).entries.get k ≠ s.entries.get k) :
    ∃ ref, plan.continuityEffect = some ref ∧
      continuityAffectsScope ref.kind ref.effect ref.scope k.scope = true := by
  have hgaps := hc.gaps
  have hevent := hfresh.recorded
  have hentries : (s.enterGeneration event).entries = s.entries := by rw [enterGeneration_frame]
  have henter : (s.enterGeneration event).gaps = s.gaps := by rw [enterGeneration_frame]
  rw [commit_fresh hfresh hc] at hk
  change whole.entries.get k ≠ _ at hk
  have houtcome := outcome_of_direct hdirect
  unfold PreparedRibEvent.continuityEffect
  generalize hstatus : plan.status = status at houtcome hb
  cases houtcome with
  | tainted ht => exact absurd rfl hk
  | conflict ht hcon =>
    have hne : plan.stage.gaps ≠ [] := by
      intro hnil
      simp [conflictStep_frame.2.2, hnil] at hgaps
    refine ⟨⟨event.recordId, event.scope, .identityConflict, .gap, .sessionAllGenerations,
      "record_identity_conflict"⟩, by simp [hevent, hne], ?_⟩
    exact sessionIdentity_iff.2 (conflictStep_changed hk)
  | @reset ht previousGeneration reason hkind hg hlt =>
    refine ⟨⟨event.recordId, event.scope, .applied, .reset previousGeneration
      event.scope.generation, .sessionGeneration, reason⟩, by simp [hevent, hkind], ?_⟩
    have hin := updateEntries_changed hk
    exact hin
  | historical ht hkind hg hlt => simp [Boundary] at hb
  | undirected ht hkind hg hd hgap => exact absurd (by rw [hentries]) hk
  | mismatch ht hkind hg hd hp =>
    have hne : plan.stage.gaps ≠ [] := by
      intro hnil
      simp [pushGap, quarantineScope, updateEntries, henter, hnil] at hgaps
    refine ⟨⟨event.recordId, event.scope, .missingScope, .gap, .baseDirectionalGeneration,
      "peer_binding_mismatch"⟩, by simp [hevent, hne], ?_⟩
    rw [← hentries] at hk
    have hin := updateEntries_changed (s := s.enterGeneration event) hk
    exact sameBaseScope_iff.2 (sameBaseScope_iff.1 hin).symm
  | route ht hreset hg hd hp hcon =>
    cases hkind : event.kind with
    | gap reason =>
      have hne : plan.stage.gaps ≠ [] := by
        intro hnil
        rw [routeStep_frame.2.2, henter] at hgaps
        simp [hkind, RibEventKind.isGap, hnil] at hgaps
      refine ⟨⟨event.recordId, event.scope, .applied, .gap, .sessionGeneration, reason⟩,
        by simp [hevent, hne, hkind], ?_⟩
      rw [← hentries] at hk
      simp only [routeStep, hkind] at hk
      have hin := updateEntries_changed (s := (s.enterGeneration event).pushGap event) hk
      exact hin
    | update actions | endOfRib family | stale family kind =>
      simp [Boundary, hkind, isRouteScoped] at hb
    | reset g r => exact absurd hkind (hreset g r)

theorem boundary_changes (hi : Indexed s) (hplan : s.prepareInner check event origin = .ok plan)
    (hb : Boundary event plan.status) {k : RouteKey}
    (hk : (s.commit plan).entries.get k ≠ s.entries.get k) :
    ∃ ref, plan.continuityEffect = some ref ∧
      continuityAffectsScope ref.kind ref.effect ref.scope k.scope = true := by
  cases prepares hi hplan with
  | inert _ => simp [Boundary, inertReplay] at hb
  | replay _ _ horigin =>
    rw [horigin.shape] at hb
    simp [Boundary, inertReplay] at hb
  | fresh _ _ hfresh hdirect hc => exact fresh_changes hfresh hdirect hc hb hk

/-- A route that an applied update announces is as the earlier reports say exactly when every peer
mismatch of its session and generation came with a gap event. -/
theorem continuity_agrees_iff {owner : ℕ} {limits : Limits}
    (hnew : AdjRibIn.new owner limits = .ok start) (htrace : Trace check start plans s)
    (hplan : s.prepareInner check event origin = .ok plan) :
    (∀ before route pathId attributes attributeIdentity after, plan.status = .applied →
      event.kind = .update (before ++ .announce route pathId attributes attributeIdentity ::
        after) →
      supported route = true → pathId ≠ .unknown →
      (∀ a ∈ after, actionKey event.scope false a ≠ some (routeKey event.scope route pathId)) →
      (AgreesAt plans (s.commit plan) (routeKey event.scope route pathId) ↔
        (MismatchBefore plans event.scope → GapEventBefore plans event.scope))) ∧
    (Boundary event plan.status → ∀ k, (s.commit plan).entries.get k ≠ s.entries.get k →
      ∃ ref, plan.continuityEffect = some ref ∧
        continuityAffectsScope ref.kind ref.effect ref.scope k.scope = true) := by
  have hstart := new_ok hnew
  have hi₀ : Indexed start := hstart ▸ indexed_initial owner limits
  have hgaps₀ : start.gaps = [] := by rw [hstart]; rfl
  have hi := indexed_trace hi₀ htrace
  refine ⟨?_, fun hb k hk => boundary_changes hi hplan hb hk⟩
  intro before route pathId attributes attributeIdentity after hstatus hkind hsupported hpath hafter
  have hall := reported_trace hi₀ hgaps₀ htrace
  -- An applied update is new, and its session and its peer are settled.
  have hnew : ∃ admission whole, FreshPlan s event origin admission plan ∧
      s.applyDirect event origin = .ok (plan.status, whole) ∧
      Copies s event.scope.sessionKey (s.selection event) s.events.length plan.stage whole := by
    cases prepares hi hplan with
    | inert _ => cases hstatus
    | replay _ _ horigin =>
      rw [horigin.shape] at hstatus
      cases hstatus
    | fresh _ _ hfresh hdirect hc => exact ⟨_, _, hfresh, hdirect, hc⟩
  obtain ⟨admission, whole, hfresh, hdirect, hc⟩ := hnew
  have hcommit : (s.commit plan).entries = whole.entries := by rw [commit_fresh hfresh hc]; rfl
  rw [hstatus] at hdirect
  have houtcome := outcome_of_direct hdirect
  cases houtcome with
  | reset ht hreset hg hlt => simp [hkind] at hreset
  | route ht hreset hg hd hp hcon =>
    have hpeers := hp (by rw [hkind]; rfl)
    obtain ⟨e, hget, he⟩ := routeStep_announced (s := s.enterGeneration event) hkind hsupported
      hpath hafter
    have haffected := affected_iff hall ht hpeers
    have hgap := gapBefore_iff hall ht
    unfold AgreesAt
    rw [hcommit, hget]
    simp only [Option.some.injEq, exists_eq_left', he]
    change (_ ↔ Affected plans event.scope) ∧ (¬Affected plans event.scope → _) ↔ _
    rw [haffected]
    by_cases hg : GapEventBefore plans event.scope
    · have htrue : s.gapBefore event = true := hgap.2 (.inl hg)
      simp [hg, htrue]
    · by_cases hm : MismatchBefore plans event.scope
      · have htrue : s.gapBefore event = true := hgap.2 (.inr hm)
        simp [hg, hm, htrue]
      · have hfalse : s.gapBefore event = false := by
          rw [← Bool.not_eq_true, hgap]
          exact fun hor => hor.elim hg hm
        simp [hg, hm, hfalse]

theorem continuity_agrees_sampleAnnounce :
    ∃ plan, (initial 0 .default).prepareInner anyEvent (sampleAnnounce "record" "a") none =
        .ok plan ∧
      AgreesAt [] ((initial 0 .default).commit plan)
        (routeKey (sampleScope "session" (some 0)) sampleRoute .absent) := by
  have hok : ((initial 0 .default).prepareInner anyEvent (sampleAnnounce "record" "a")
      none).toOption.any (·.status = .applied) = true := by decide +kernel
  cases hplan : (initial 0 .default).prepareInner anyEvent (sampleAnnounce "record" "a") none with
  | error e => simp [hplan, Except.toOption] at hok
  | ok plan =>
    have hstatus : plan.status = .applied := by simpa [hplan, Except.toOption] using hok
    have hagrees := (continuity_agrees_iff (new_of_validate (by decide)) .nil hplan).1 []
      sampleRoute .absent .null "a" [] hstatus rfl (by decide) (by simp) (by simp)
    refine ⟨plan, rfl, hagrees.2 ?_⟩
    rintro ⟨p, hp, -⟩
    cases hp

def sampleMismatch : List (RibEvent × Option Digest) :=
  [(sampleAnnounce "first" "a", none),
    (⟨{ sampleScope "session" (some 0) with peer := some "peer" }, "drift",
      .update [.announce sampleRoute .absent .null "a"]⟩, none)]

def sampleOpposite : RibEvent :=
  ⟨sampleScope "session" (some 1), "opposite", .update [.announce sampleRoute .absent .null "a"]⟩

/-- After a mismatch in one direction an announcement in the other is unresolved, unreported. -/
theorem mismatch_blocks_other_direction :
    ¬∀ (check : RibEvent → Limits → Result Unit) (start s : AdjRibIn) (owner : ℕ)
      (limits : Limits) (plans : List PreparedRibEvent) (plan : PreparedRibEvent)
      (event : RibEvent) (origin : Option Digest) (route : PrefixIdentity) (pathId : PathId)
      (attributes : Json) (attributeIdentity : String),
      AdjRibIn.new owner limits = .ok start → Trace check start plans s →
      s.prepareInner check event origin = .ok plan → plan.status = .applied →
      event.kind = .update [.announce route pathId attributes attributeIdentity] →
      supported route = true → pathId ≠ .unknown →
      AgreesAt plans (s.commit plan) (routeKey event.scope route pathId) := by
  intro hall
  have hrun : ((initial 0 .default).commitAll anyEvent sampleMismatch).toOption.any (fun r =>
      (r.2.prepareInner anyEvent sampleOpposite none).toOption.any fun plan =>
        decide (plan.status = .applied) &&
        decide (((r.2.commit plan).entries.get (routeKey sampleOpposite.scope sampleRoute
          .absent)).map (·.status) = some .unresolved) &&
        r.1.all fun p => p.continuityEffect.all fun ref =>
          !continuityAffectsScope ref.kind ref.effect ref.scope sampleOpposite.scope) = true := by
    decide +kernel
  cases hs : (initial 0 .default).commitAll anyEvent sampleMismatch with
  | error e => simp [hs, Except.toOption] at hrun
  | ok r =>
    obtain ⟨plans, s⟩ := r
    cases hplan : s.prepareInner anyEvent sampleOpposite none with
    | error e => simp [hs, hplan, Except.toOption] at hrun
    | ok plan =>
      simp only [hs, hplan, Except.toOption, Option.any_some, Bool.and_eq_true,
        decide_eq_true_eq, List.all_eq_true, Option.all_eq_true, Bool.not_eq_true'] at hrun
      obtain ⟨⟨hstatus, hunresolved⟩, hreports⟩ := hrun
      obtain ⟨e, hget, -, hactive⟩ := hall anyEvent _ s 0 .default plans plan sampleOpposite none
        sampleRoute .absent .null "a" (new_of_validate (by decide))
        (trace_commitAll .nil hs) hplan hstatus rfl (by decide) (by simp)
      have hnone : ¬Affected plans sampleOpposite.scope := by
        rintro ⟨p, hp, ref, heffect, -, haffects⟩
        rw [hreports p hp ref heffect] at haffects
        cases haffects
      rw [hget, Option.map_some, hactive hnone] at hunresolved
      cases hunresolved

end PcapEvidence.Bgp.AdjRibIn
