import PcapEvidence.BgpRibStage

/-!
# Plans of the Adj-RIB-In

What a prepared plan says, and the indexes of the reducer as functions of its event history. The
replay of a recorded event is told apart from every other event by complete equality.
-/

namespace PcapEvidence.Bgp.AdjRibIn

open FiniteMap FinMap History

variable {check : RibEvent → Limits → Result Unit} {s t : AdjRibIn} {event : RibEvent}
  {origin : Option Digest} {plan : PreparedRibEvent} {admission : ℕ}

theorem checkWork_ok {extra : ℕ} {u : Unit} (h : s.checkWork extra = .ok u) :
    s.work + extra ≤ s.limits.work := by
  obtain ⟨hc, -⟩ := guard_eq_ok.1 h
  omega

theorem checkSizes_ok {size : ℕ} {u : Unit} (h : s.checkSizes size = .ok u) :
    size ≤ s.limits.retainedBytes ∧ size ≤ s.limits.outputBytes := by
  obtain ⟨hc, -⟩ := guard_eq_ok.1 h
  omega

theorem compareRecords_ok {records : List ℕ} {found : Option ℕ} {b : ℕ}
    (h : s.compareRecords event records admission = .ok (found, b)) :
    admission ≤ b ∧ match found with
      | some j => j ∈ records ∧ s.events[j]? = some event
      | none => ∀ j ∈ records, s.events[j]? ≠ some event := by
  induction records generalizing admission with
  | nil =>
    cases h
    exact ⟨le_rfl, by simp⟩
  | cons j rest ih =>
    unfold compareRecords at h
    cases hold : s.events[j]? with
    | none =>
      simp only [hold] at h
      obtain ⟨hle, hrest⟩ := ih h
      refine ⟨hle, ?_⟩
      cases found with
      | some k => exact ⟨List.mem_cons_of_mem j hrest.1, hrest.2⟩
      | none => simpa [hold] using hrest
    | some old =>
      simp only [hold] at h
      obtain ⟨-, h⟩ := guard_eq_ok.1 h
      by_cases heq : old = event
      · rw [if_pos heq] at h
        cases h
        exact ⟨by omega, List.mem_cons_self, heq ▸ hold⟩
      · rw [if_neg heq] at h
        obtain ⟨hle, hrest⟩ := ih h
        refine ⟨by omega, ?_⟩
        cases found with
        | some k => exact ⟨List.mem_cons_of_mem j hrest.1, hrest.2⟩
        | none => simpa [hold, heq] using hrest

structure FreshPlan (s : AdjRibIn) (event : RibEvent) (origin : Option Digest) (admission : ℕ)
    (plan : PreparedRibEvent) : Prop where
  owner : plan.owner = s.owner
  revision : plan.revision = s.events.length
  recorded : plan.event = some event
  staged : (s.stageOf event.scope.sessionKey (s.selection event)).applyInner event
    (s.recorded event) (s.gapped event) (s.peerBindingMismatch event.scope) s.events.length
    origin = .ok (plan.status, plan.stage)
  charges : plan.charges = plan.stage.entries.mapTo chargeStoredEntry
  retained : plan.retained = s.minimum event + plan.stage.entries.total chargeStoredEntry +
    (chargeMetadataDelta s plan.stage event.scope.sessionKey +
      chargeBindings plan.stage.versionBindings +
      plan.stage.originIndex.card * ORIGIN_INDEX_CHARGE)
  retainedBytes : plan.retained ≤ s.limits.retainedBytes ∧ plan.retained ≤ s.limits.outputBytes
  work : plan.work = s.work + (admission + s.freshWork event origin)
  workLimit : plan.work ≤ s.limits.work
  actions : plan.actions = s.actions + eventActions event
  versions : plan.versions = s.versions - versionCount (s.entries.restrict (s.selection event)) +
    versionCount plan.stage.entries
  originElements : plan.originElements = s.originElements + plan.stage.originElements
  elements : plan.actions + plan.versions + plan.originElements ≤ s.limits.elements
  active : s.entries.keys.card + (plan.stage.entries.keys \ s.entries.keys).card ≤ s.limits.active

theorem prepareFresh_ok (h : s.prepareFresh event origin admission = .ok plan) :
    FreshPlan s event origin admission plan := by
  unfold prepareFresh at h
  obtain ⟨_, -, h⟩ := bind_eq_ok.1 h
  obtain ⟨_, -, h⟩ := bind_eq_ok.1 h
  obtain ⟨_, hwork, h⟩ := bind_eq_ok.1 h
  obtain ⟨_, -, h⟩ := bind_eq_ok.1 h
  obtain ⟨⟨status, staged⟩, hstaged, h⟩ := bind_eq_ok.1 h
  obtain ⟨_, hsizes, h⟩ := bind_eq_ok.1 h
  obtain ⟨hlimits, h⟩ := guard_eq_ok.1 h
  rw [not_or, not_lt, not_lt] at hlimits
  cases h
  exact {
    owner := rfl
    revision := rfl
    recorded := rfl
    staged := hstaged
    charges := rfl
    retained := rfl
    retainedBytes := checkSizes_ok hsizes
    work := rfl
    workLimit := checkWork_ok hwork
    actions := rfl
    versions := rfl
    originElements := rfl
    elements := hlimits.1
    active := hlimits.2 }

theorem prepareInner_ok (h : s.prepareInner check event origin = .ok plan) :
    ∃ admission, 3 * chargeEvent event ≤ admission ∧
      ((∃ j ∈ (s.recordIndex.get (event.scope.sessionKey, event.recordId)).getD [],
          s.events[j]? = some event ∧ s.prepareOriginReplay j origin admission = .ok plan) ∨
        (∀ j ∈ (s.recordIndex.get (event.scope.sessionKey, event.recordId)).getD [],
          s.events[j]? ≠ some event) ∧ FreshPlan s event origin admission plan) := by
  unfold prepareInner at h
  obtain ⟨_, -, h⟩ := bind_eq_ok.1 h
  obtain ⟨⟨found, admission⟩, hcompare, h⟩ := bind_eq_ok.1 h
  obtain ⟨hle, hfound⟩ := compareRecords_ok hcompare
  refine ⟨admission, hle, ?_⟩
  cases found with
  | some j => exact .inl ⟨j, hfound.1, hfound.2, h⟩
  | none => exact .inr ⟨hfound, prepareFresh_ok h⟩

structure OriginPlan (s : AdjRibIn) (j : ℕ) (digest : Digest) (bindings : List VersionBinding)
    (admission : ℕ) (plan : PreparedRibEvent) : Prop where
  unseen : (j, digest) ∉ s.originIndex
  bound : s.versionBindings.get j = some bindings
  shape : plan = { s.inertReplay with
    stage := { s.emptyStage with
      entries := s.replayStage j digest bindings
      originIndex := {(j, digest)} }
    charges := (s.replayStage j digest bindings).mapTo chargeStoredEntry
    retained := plan.retained
    work := plan.work
    originElements := plan.originElements }
  retained : plan.retained = s.retained - s.removedCharge (bindings.map (·.key)).toFinset +
    (s.replayStage j digest bindings).total chargeStoredEntry + ORIGIN_INDEX_CHARGE
  retainedBytes : plan.retained ≤ s.limits.retainedBytes ∧ plan.retained ≤ s.limits.outputBytes
  work : s.work + admission ≤ plan.work
  workLimit : plan.work ≤ s.limits.work
  originElements : plan.originElements = s.originElements + bindings.length + 1
  elements : s.actions + s.versions + plan.originElements ≤ s.limits.elements

theorem prepareOriginReplay_ok {j : ℕ} (h : s.prepareOriginReplay j origin admission = .ok plan) :
    (plan = s.inertReplay ∧ ∀ digest, origin = some digest → (j, digest) ∉ s.originIndex →
      s.versionBindings.get j = none) ∨
    ∃ digest bindings, origin = some digest ∧ OriginPlan s j digest bindings admission plan := by
  unfold prepareOriginReplay at h
  split at h
  case h_2 hnone =>
    cases h
    refine .inl ⟨rfl, fun digest hd _ => ?_⟩
    cases hb : s.versionBindings.get j with
    | none => rfl
    | some bindings => exact absurd hb (hnone digest bindings hd)
  case h_1 digest bindings hbound =>
    by_cases hseen : (j, digest) ∈ s.originIndex
    · rw [if_pos hseen] at h
      cases h
      refine .inl ⟨rfl, fun d hd hnot => ?_⟩
      cases hd
      exact absurd hseen hnot
    rw [if_neg hseen] at h
    obtain ⟨_, -, h⟩ := bind_eq_ok.1 h
    obtain ⟨_, -, h⟩ := bind_eq_ok.1 h
    obtain ⟨helements, h⟩ := guard_eq_ok.1 h
    obtain ⟨_, hsizes, h⟩ := bind_eq_ok.1 h
    obtain ⟨_, hwork, h⟩ := bind_eq_ok.1 h
    cases h
    refine .inr ⟨digest, bindings, rfl, ?_⟩
    exact {
      unseen := hseen
      bound := hbound
      shape := rfl
      retained := rfl
      retainedBytes := checkSizes_ok hsizes
      work := by
        simp only
        omega
      workLimit := checkWork_ok hwork
      originElements := rfl
      elements := not_lt.1 helements }

def label (event : RibEvent) : SessionKey × String := (event.scope.sessionKey, event.recordId)

structure Indexed (s : AdjRibIn) : Prop where
  records : ∀ l, (s.recordIndex.get l).isSome ↔ ∃ old ∈ s.events, label old = l
  positions : ∀ l j, j ∈ (s.recordIndex.get l).getD [] ↔ ∃ old, s.events[j]? = some old ∧ label old = l
  gaps : ∀ x, x ∈ s.gapIndex ↔ ∃ g ∈ s.gaps, (g.1.sessionKey, g.1.generation) = x
  peers : ∀ base p, p ∈ (s.peerIndex.get base).getD ∅ ↔
    ∃ old ∈ s.events, isRouteScoped old.kind = true ∧ baseScope old.scope = base ∧ old.scope.peer = p
  scopes : ∀ base peers, s.peerIndex.get base = some peers → peers.Nonempty
  bindings : ∀ j, (s.versionBindings.get j).isSome → j < s.events.length

theorem new_ok {owner : ℕ} {limits : Limits} (h : AdjRibIn.new owner limits = .ok s) :
    s = initial owner limits := by
  obtain ⟨_, -, h⟩ := bind_eq_ok.1 h
  cases h
  rfl

theorem indexed_initial (owner : ℕ) (limits : Limits) : Indexed (initial owner limits) where
  records := by simp [initial]
  positions := by simp [initial]
  gaps := by simp [initial]
  peers := by simp [initial]
  scopes := by simp [initial]
  bindings := by simp [initial]

theorem FreshPlan.copies (hi : Indexed s) (h : FreshPlan s event origin admission plan) :
    ∃ whole, s.applyInner event (s.recorded event) (s.gapped event)
        (s.peerBindingMismatch event.scope) s.events.length origin = .ok (plan.status, whole) ∧
      Copies s event.scope.sessionKey (s.selection event) s.events.length plan.stage whole := by
  have hnew : s.versionBindings.get s.events.length = none := by
    by_contra hsome
    have hlt := hi.bindings _ (Option.isSome_iff_ne_none.2 hsome)
    omega
  have hstart : Copies s event.scope.sessionKey (s.selection event) s.events.length
      (s.stageOf event.scope.sessionKey (s.selection event)) s := Copies.start hnew
  obtain ⟨e, herror, -⟩ | ⟨status, stage, whole, hstage, hwhole, hcopies⟩ :=
    applyInner_copies (s.gapped event) origin hstart
  · rw [h.staged] at herror
    cases herror
  · rw [h.staged] at hstage
    cases hstage
    exact ⟨whole, hwhole, hcopies⟩

theorem commit_fresh {whole : AdjRibIn} (h : FreshPlan s event origin admission plan)
    (hc : Copies s event.scope.sessionKey (s.selection event) s.events.length plan.stage whole) :
    s.commit plan = { whole.recordEvent event with
      gapIndex := s.gapIndex ∪
        (plan.stage.gaps.map fun g => (g.1.sessionKey, g.1.generation)).toFinset
      entryCharges := plan.charges.overlay s.entryCharges
      retained := plan.retained
      work := plan.work
      actions := plan.actions
      versions := plan.versions } := by
  have hframe := hc.frame
  have helements : plan.originElements = whole.originElements := by
    rw [h.originElements, hc.elements]
  unfold commit
  simp only [h.recorded, recordEvent, hc.entries.overlay_eq, hc.generations.overlay_eq,
    hc.bindings.overlay_eq, ← hc.tainted, ← hc.gaps, ← hc.eors, ← hc.rejections, ← hc.origins,
    helements]
  rw [hframe]

theorem commit_inertReplay (s : AdjRibIn) : s.commit s.inertReplay = s := by
  simp [commit, inertReplay, emptyStage, stageOf]

theorem commit_originReplay {j : ℕ} {digest : Digest} {bindings : List VersionBinding}
    (h : OriginPlan s j digest bindings admission plan) :
    s.commit plan = { s with
      entries := (s.replayStage j digest bindings).overlay s.entries
      entryCharges := ((s.replayStage j digest bindings).mapTo chargeStoredEntry).overlay
        s.entryCharges
      originIndex := s.originIndex ∪ {(j, digest)}
      retained := plan.retained
      work := plan.work
      originElements := plan.originElements } := by
  rw [h.shape]
  simp [commit, inertReplay, emptyStage, stageOf]

theorem label_indexed (hi : Indexed s) : s.recorded event = true ↔ ∃ old ∈ s.events, label old = label event :=
  hi.records _

theorem indexed_fresh (hi : Indexed s) (h : FreshPlan s event origin admission plan) :
    Indexed (s.commit plan) := by
  obtain ⟨whole, -, hc⟩ := h.copies hi
  have hbind := hc.bindings
  have hgaps := hc.gaps
  rw [commit_fresh h hc, hc.frame]
  have hpos : ∀ j old, (s.events ++ [event])[j]? = some old ↔
      s.events[j]? = some old ∨ j = s.events.length ∧ event = old := by
    intro j old
    by_cases hj : j < s.events.length
    · rw [List.getElem?_append_left hj]
      constructor
      · exact .inl
      · rintro (hold | ⟨rfl, -⟩)
        · exact hold
        · omega
    · have hnone : s.events[j]? = none := List.getElem?_eq_none (by omega)
      rw [List.getElem?_append_right (by omega), List.getElem?_singleton, hnone]
      split_ifs with hz
      · have he : j = s.events.length := by omega
        simp [he]
      · have hne : j ≠ s.events.length := by omega
        simp [hne]
  exact {
    records := by
      intro l
      simp only [recordEvent, get_insert, List.mem_append, List.mem_singleton]
      by_cases hl : l = (event.scope.sessionKey, event.recordId)
      · simp only [hl, if_true, Option.isSome_some, true_iff]
        exact ⟨event, .inr rfl, rfl⟩
      · rw [if_neg hl, hi.records l]
        constructor
        · rintro ⟨old, hold, hlabel⟩
          exact ⟨old, .inl hold, hlabel⟩
        · rintro ⟨old, hold | rfl, hlabel⟩
          · exact ⟨old, hold, hlabel⟩
          · exact absurd hlabel.symm hl
    positions := by
      intro l j
      simp only [recordEvent, get_insert, hpos]
      by_cases hl : l = (event.scope.sessionKey, event.recordId)
      · have hold := hi.positions l j
        rw [hl] at hold ⊢
        simp only [if_true, Option.getD_some, List.mem_append, List.mem_singleton, hold]
        constructor
        · rintro (⟨old, hj, hlabel⟩ | rfl)
          · exact ⟨old, .inl hj, hlabel⟩
          · exact ⟨event, .inr ⟨rfl, rfl⟩, rfl⟩
        · rintro ⟨old, hj | ⟨hj, rfl⟩, hlabel⟩
          · exact .inl ⟨old, hj, hlabel⟩
          · exact .inr hj
      · rw [if_neg hl, hi.positions l j]
        constructor
        · rintro ⟨old, hj, hlabel⟩
          exact ⟨old, .inl hj, hlabel⟩
        · rintro ⟨old, hj | ⟨hj, rfl⟩, hlabel⟩
          · exact ⟨old, hj, hlabel⟩
          · exact absurd hlabel.symm hl
    gaps := by
      intro x
      simp only [recordEvent, hgaps, Finset.mem_union, hi.gaps, List.mem_toFinset, List.mem_map,
        List.mem_append]
      constructor
      · rintro (⟨g, hg, hx⟩ | ⟨g, hg, hx⟩)
        · exact ⟨g, .inl hg, hx⟩
        · exact ⟨g, .inr hg, hx⟩
      · rintro ⟨g, hg | hg, hx⟩
        · exact .inl ⟨g, hg, hx⟩
        · exact .inr ⟨g, hg, hx⟩
    peers := by
      intro base p
      have hold := hi.peers base p
      simp only [recordEvent, List.mem_append, List.mem_singleton]
      by_cases hr : isRouteScoped event.kind = true
      · rw [if_pos hr, get_insert]
        by_cases hb : base = baseScope event.scope
        · subst hb
          simp only [if_true, Option.getD_some, Finset.mem_insert, hold]
          constructor
          · rintro (rfl | ⟨old, hin, hrest⟩)
            · exact ⟨event, .inr rfl, hr, rfl, rfl⟩
            · exact ⟨old, .inl hin, hrest⟩
          · rintro ⟨old, hin | rfl, hrest⟩
            · exact .inr ⟨old, hin, hrest⟩
            · exact .inl hrest.2.2.symm
        · rw [if_neg hb, hold]
          constructor
          · rintro ⟨old, hin, hrest⟩
            exact ⟨old, .inl hin, hrest⟩
          · rintro ⟨old, hin | rfl, hrest⟩
            · exact ⟨old, hin, hrest⟩
            · exact absurd hrest.2.1.symm hb
      · rw [if_neg hr, hold]
        constructor
        · rintro ⟨old, hin, hrest⟩
          exact ⟨old, .inl hin, hrest⟩
        · rintro ⟨old, hin | rfl, hrest⟩
          · exact ⟨old, hin, hrest⟩
          · exact absurd hrest.1 hr
    scopes := by
      intro base peers hpeers
      simp only [recordEvent] at hpeers
      split_ifs at hpeers
      · rw [get_insert] at hpeers
        split_ifs at hpeers
        · cases hpeers
          exact Finset.insert_nonempty _ _
        · exact hi.scopes base peers hpeers
      · exact hi.scopes base peers hpeers
    bindings := by
      intro j hj
      simp only [recordEvent, List.length_append, List.length_singleton] at hj ⊢
      by_cases he : j = s.events.length
      · omega
      · rw [(hbind.outside j (by simpa using he)).2] at hj
        exact Nat.lt_succ_of_lt (hi.bindings j hj) }

theorem indexed_prepared (hi : Indexed s) (h : s.prepareInner check event origin = .ok plan) :
    Indexed (s.commit plan) := by
  obtain ⟨admission, -, ⟨j, -, -, hreplay⟩ | ⟨-, hfresh⟩⟩ := prepareInner_ok h
  · obtain ⟨rfl, -⟩ | ⟨digest, bindings, -, horigin⟩ := prepareOriginReplay_ok hreplay
    · rw [commit_inertReplay]
      exact hi
    · rw [commit_originReplay horigin]
      exact { hi with }
  · exact indexed_fresh hi hfresh

theorem indexed_trace {plans : List PreparedRibEvent} (hi : Indexed s) (h : Trace check s plans t) :
    Indexed t := by
  induction h with
  | nil => exact hi
  | snoc before prepared ih => exact indexed_prepared ih prepared

theorem indexed_reachable (h : Reachable check s) : Indexed s := by
  obtain ⟨owner, limits, start, plans, hnew, htrace⟩ := h
  rw [new_ok hnew] at htrace
  exact indexed_trace (indexed_initial owner limits) htrace

theorem reachable_induction {P : AdjRibIn → Prop} (hr : Reachable check s)
    (hstart : ∀ owner limits, P (initial owner limits))
    (hstep : ∀ {t event origin plan}, Reachable check t → P t →
      t.prepareInner check event origin = .ok plan → P (t.commit plan)) : P s := by
  obtain ⟨owner, limits, start, plans, hnew, htrace⟩ := hr
  obtain rfl := new_ok hnew
  induction htrace with
  | nil => exact hstart owner limits
  | snoc before prepared ih => exact hstep ⟨owner, limits, _, _, hnew, before⟩ ih prepared

def conflictsWith (s : AdjRibIn) (event : RibEvent) : Bool :=
  s.events.any fun old => label old = label event && old ≠ event

def gapBefore (s : AdjRibIn) (event : RibEvent) : Bool :=
  s.gaps.any fun g => g.1.sessionKey = event.scope.sessionKey &&
    g.1.generation = event.scope.generation

def peersDiffer (s : AdjRibIn) (event : RibEvent) : Bool :=
  s.events.any fun old => isRouteScoped old.kind && baseScope old.scope = baseScope event.scope &&
    old.scope.peer ≠ event.scope.peer

theorem recorded_eq (hi : Indexed s) (hnew : event ∉ s.events) :
    s.recorded event = s.conflictsWith event := by
  rw [Bool.eq_iff_iff, label_indexed hi, conflictsWith, List.any_eq_true]
  constructor
  · rintro ⟨old, hold, hlabel⟩
    have hne : old ≠ event := fun he => hnew (he ▸ hold)
    exact ⟨old, hold, by simp [hlabel, hne]⟩
  · rintro ⟨old, hold, hlabel⟩
    exact ⟨old, hold, by simp_all⟩

theorem gapped_eq (hi : Indexed s) : s.gapped event = s.gapBefore event := by
  rw [Bool.eq_iff_iff, gapped, decide_eq_true_iff, hi.gaps, gapBefore, List.any_eq_true]
  simp only [Prod.mk.injEq, Bool.and_eq_true, decide_eq_true_iff]

theorem peerBindingMismatch_eq (hi : Indexed s) :
    s.peerBindingMismatch event.scope = s.peersDiffer event := by
  have hpeers := hi.peers (baseScope event.scope)
  have hscopes := hi.scopes (baseScope event.scope)
  rw [Bool.eq_iff_iff, peersDiffer, List.any_eq_true]
  simp only [Bool.and_eq_true, decide_eq_true_iff]
  unfold peerBindingMismatch
  cases hget : s.peerIndex.get (baseScope event.scope) with
  | none =>
    simp only [hget, Option.getD_none, Finset.notMem_empty, false_iff] at hpeers
    simp only [Option.any_none, Bool.false_eq_true, false_iff]
    rintro ⟨old, hold, ⟨hr, hb⟩, -⟩
    exact hpeers old.scope.peer ⟨old, hold, hr, hb, rfl⟩
  | some peers =>
    simp only [hget, Option.getD_some] at hpeers
    simp only [Option.any_some, decide_eq_true_iff]
    constructor
    · intro hmismatch
      -- Some peer of the scope is another one than that of the event.
      obtain ⟨p, hp, hne⟩ : ∃ p ∈ peers, p ≠ event.scope.peer := by
        rcases hmismatch with hcard | hout
        · obtain ⟨p, hp, hne⟩ := Finset.exists_mem_ne hcard event.scope.peer
          exact ⟨p, hp, hne⟩
        · obtain ⟨p, hp⟩ := hscopes peers hget
          exact ⟨p, hp, fun he => hout (he ▸ hp)⟩
      obtain ⟨old, hold, hr, hb, rfl⟩ := (hpeers p).1 hp
      exact ⟨old, hold, ⟨hr, hb⟩, hne⟩
    · rintro ⟨old, hold, ⟨hr, hb⟩, hne⟩
      have hin : old.scope.peer ∈ peers := (hpeers _).2 ⟨old, hold, hr, hb, rfl⟩
      by_cases hp : event.scope.peer ∈ peers
      · exact .inl (Finset.one_lt_card.2 ⟨_, hin, _, hp, hne⟩)
      · exact .inr hp

def applyDirect (s : AdjRibIn) (event : RibEvent) (origin : Option Digest) :
    Result (ApplyStatus × AdjRibIn) :=
  s.applyInner event (s.conflictsWith event) (s.gapBefore event) (s.peersDiffer event)
    s.events.length origin

structure SameRoutes (a b : AdjRibIn) : Prop where
  entries : a.entries = b.entries
  generations : a.generations = b.generations
  taintedSessions : a.taintedSessions = b.taintedSessions
  gaps : a.gaps = b.gaps
  eors : a.eors = b.eors
  rejections : a.rejections = b.rejections
  versionBindings : a.versionBindings = b.versionBindings
  originIndex : a.originIndex = b.originIndex

theorem mem_records (hi : Indexed s) :
    (∃ j ∈ (s.recordIndex.get (event.scope.sessionKey, event.recordId)).getD [],
      s.events[j]? = some event) ↔ event ∈ s.events := by
  constructor
  · rintro ⟨j, -, hj⟩
    exact List.mem_of_getElem? hj
  · intro hmem
    obtain ⟨j, hj⟩ := List.mem_iff_getElem?.1 hmem
    exact ⟨j, (hi.positions _ j).2 ⟨event, hj, rfl⟩, hj⟩

/-- A prepared event changes nothing, adds an origin, or stands for a run of the reducer. -/
inductive Prepares (s : AdjRibIn) (event : RibEvent) : Option Digest → PreparedRibEvent → Prop
  | inert {origin : Option Digest} (hold : event ∈ s.events) : Prepares s event origin s.inertReplay
  | replay {j admission : ℕ} {digest : Digest} {bindings : List VersionBinding}
      {plan : PreparedRibEvent} (hj : s.events[j]? = some event)
      (hle : 3 * chargeEvent event ≤ admission)
      (h : OriginPlan s j digest bindings admission plan) : Prepares s event (some digest) plan
  | fresh {origin : Option Digest} {admission : ℕ} {plan : PreparedRibEvent} {whole : AdjRibIn}
      (hnew : event ∉ s.events) (hle : 3 * chargeEvent event ≤ admission)
      (h : FreshPlan s event origin admission plan)
      (hdirect : s.applyDirect event origin = .ok (plan.status, whole))
      (hc : Copies s event.scope.sessionKey (s.selection event) s.events.length plan.stage whole) :
      Prepares s event origin plan

theorem prepares (hi : Indexed s) (h : s.prepareInner check event origin = .ok plan) :
    Prepares s event origin plan := by
  obtain ⟨admission, hle, ⟨j, -, hj, hreplay⟩ | ⟨hnone, hfresh⟩⟩ := prepareInner_ok h
  · obtain ⟨rfl, -⟩ | ⟨digest, bindings, rfl, horigin⟩ := prepareOriginReplay_ok hreplay
    · exact .inert (List.mem_of_getElem? hj)
    · exact .replay hj hle horigin
  · have hnew : event ∉ s.events := by
      intro hold
      obtain ⟨j, hj, hevent⟩ := (mem_records hi).2 hold
      exact hnone j hj hevent
    obtain ⟨whole, hrun, hc⟩ := hfresh.copies hi
    rw [recorded_eq hi hnew, gapped_eq hi, peerBindingMismatch_eq hi] at hrun
    exact .fresh hnew hle hfresh hrun hc

/-- Committing a plan for a new event does what the reducer does on the whole state, which leaves
every entry outside the selection as it was. -/
theorem staged_refines_direct (hr : Reachable check s) (hnew : event ∉ s.events)
    (h : s.prepareInner check event origin = .ok plan) :
    ∃ whole, s.applyDirect event origin = .ok (plan.status, whole) ∧
      SameRoutes (s.commit plan) whole ∧
      ∀ k ∉ s.selection event, whole.entries.get k = s.entries.get k := by
  have hi := indexed_reachable hr
  cases prepares hi h with
  | inert hold => exact absurd hold hnew
  | replay hj => exact absurd (List.mem_of_getElem? hj) hnew
  | @fresh _ _ _ whole _ _ hfresh hdirect hc =>
    refine ⟨whole, hdirect, ?_, fun k hk => (hc.entries.outside k hk).2⟩
    rw [commit_fresh hfresh hc]
    exact ⟨rfl, rfl, rfl, rfl, rfl, rfl, rfl, rfl⟩

theorem trace_commitAll {start : AdjRibIn} {plans later : List PreparedRibEvent}
    {events : List (RibEvent × Option Digest)} (h : Trace check start plans s)
    (hrun : s.commitAll check events = .ok (later, t)) : Trace check start (plans ++ later) t := by
  induction events generalizing s plans later with
  | nil =>
    cases hrun
    rw [List.append_nil]
    exact h
  | cons x rest ih =>
    obtain ⟨plan, hplan, hrun⟩ := bind_eq_ok.1 hrun
    obtain ⟨⟨tail, last⟩, hrest, hrun⟩ := bind_eq_ok.1 hrun
    cases hrun
    have htrace := ih (h.snoc hplan) hrest
    rwa [List.append_assoc, List.singleton_append] at htrace

theorem new_of_validate {owner : ℕ} {limits : Limits} (hl : limits.validate = .ok ()) :
    AdjRibIn.new owner limits = .ok (initial owner limits) := by
  rw [AdjRibIn.new, hl]
  rfl

theorem reachable_commitAll {owner : ℕ} {limits : Limits} {plans : List PreparedRibEvent}
    {events : List (RibEvent × Option Digest)} (hl : limits.validate = .ok ())
    (h : (initial owner limits).commitAll check events = .ok (plans, s)) : Reachable check s :=
  ⟨owner, limits, initial owner limits, plans, new_of_validate hl, trace_commitAll .nil h⟩

def anyEvent (_ : RibEvent) (_ : Limits) : Result Unit := .ok ()

def sampleScope (session : String) (direction : Option U8) : RibScope :=
  ⟨⟨.captured, "capture", "interface"⟩, session, 1, direction, none⟩

def sampleGap : RibEvent := ⟨sampleScope "session" none, "record", .gap "loss"⟩

theorem staged_refines_direct_sampleGap :
    ∃ plan whole, (initial 0 .default).prepareInner anyEvent sampleGap none = .ok plan ∧
      (initial 0 .default).applyDirect sampleGap none = .ok (plan.status, whole) ∧
      SameRoutes ((initial 0 .default).commit plan) whole := by
  have hr : Reachable anyEvent (initial 0 .default) :=
    ⟨0, .default, initial 0 .default, [], rfl, .nil⟩
  have hok : ((initial 0 .default).prepareInner anyEvent sampleGap none).isOk = true := by
    decide +kernel
  cases hplan : (initial 0 .default).prepareInner anyEvent sampleGap none with
  | error e =>
    rw [hplan] at hok
    cases hok
  | ok plan =>
    have hnew : sampleGap ∉ (initial 0 .default).events := List.not_mem_nil
    obtain ⟨whole, hdirect, hsame, -⟩ := staged_refines_direct hr hnew hplan
    exact ⟨plan, whole, rfl, hdirect, hsame⟩

/-- The second of two identical events is a replay, and the reducer would apply it again. -/
theorem replay_not_direct :
    ¬∀ (check : RibEvent → Limits → Result Unit) (s : AdjRibIn) (event : RibEvent)
      (origin : Option Digest) (plan : PreparedRibEvent), Reachable check s →
      s.prepareInner check event origin = .ok plan →
      ∃ whole, s.applyDirect event origin = .ok (plan.status, whole) ∧
        SameRoutes (s.commit plan) whole := by
  intro hall
  have hrun : ((initial 0 .default).commitAll anyEvent [(sampleGap, none)]).toOption.any (fun r =>
      (r.2.prepareInner anyEvent sampleGap none).toOption.any (·.status = .identicalReplay) &&
      (r.2.applyDirect sampleGap none).toOption.any (·.1 = .applied)) = true := by
    decide +kernel
  cases hs : (initial 0 .default).commitAll anyEvent [(sampleGap, none)] with
  | error e => simp [hs, Except.toOption] at hrun
  | ok r =>
    obtain ⟨plans, s⟩ := r
    cases hplan : s.prepareInner anyEvent sampleGap none with
    | error e => simp [hs, hplan, Except.toOption] at hrun
    | ok plan =>
      obtain ⟨whole, hdirect, -⟩ := hall anyEvent s sampleGap none plan
        (reachable_commitAll (by decide) hs) hplan
      simp [hs, hplan, hdirect, Except.toOption] at hrun
      rw [hrun.1] at hrun
      exact absurd hrun.2 (by simp)

end PcapEvidence.Bgp.AdjRibIn
