import PcapEvidence.BgpRibProvenance

/-!
# The accounts of the Adj-RIB-In

What is retained is kept by differences. Here it is compared with the sum over the whole state. The
counters of versions, actions and occurrences are compared in the same way, and a plan is current
exactly on the state that it was prepared on.
-/

namespace PcapEvidence.Bgp.AdjRibIn

open FiniteMap FinMap History

variable {check : RibEvent → Limits → Result Unit} {s t whole : AdjRibIn} {event : RibEvent}
  {origin : Option Digest} {plan : PreparedRibEvent} {admission i : ℕ} {status : ApplyStatus}

def recordCharge (l : SessionKey × String) (positions : List ℕ) : ℕ :=
  NODE + chargeSession l.1 + chargeText l.2 + CONTAINER + positions.length * SLOT

def peerCharge (base : RibScope) (peers : Finset (Option String)) : ℕ :=
  NODE + chargeScope base + CONTAINER + ∑ p ∈ peers, (NODE + chargePeer p)

def generationCharge (session : SessionKey) (_ : ℕ) : ℕ := NODE + chargeSession session + 8

def taintedCharge (session : SessionKey) : ℕ := NODE + chargeSession session

def gapCharge (gap : RibScope × String) : ℕ := NODE + chargeScope gap.1 + chargeText gap.2

def gapIndexCharge (x : SessionKey × ℕ) : ℕ := NODE + chargeSession x.1 + 8

def eorCharge (m : FamilyMarker) : ℕ := NODE + chargeScope m.scope + 8 + chargeText m.recordId

def rejectionCharge (r : RejectedRecord) : ℕ :=
  NODE + chargeKey r.key + chargeText r.recordId + chargeText r.reason

def recomputed (s : AdjRibIn) : ℕ :=
  (s.events.map chargeEvent).sum + s.entries.total chargeStoredEntry +
    s.recordIndex.total recordCharge + s.peerIndex.total peerCharge +
    s.generations.total generationCharge + ∑ x ∈ s.taintedSessions, taintedCharge x +
    (s.gaps.map gapCharge).sum + ∑ x ∈ s.gapIndex, gapIndexCharge x + (s.eors.map eorCharge).sum +
    (s.rejections.map rejectionCharge).sum + chargeBindings s.versionBindings +
    s.originIndex.card * ORIGIN_INDEX_CHARGE

def entryOccurrences (e : RouteEntry) : ℕ := (e.versions.map fun v => v.occurrences.length).sum

def bindingCount (s : AdjRibIn) : ℕ := s.versionBindings.total fun _ l => l.length

def occurrenceCount (s : AdjRibIn) : ℕ := s.entries.total fun _ => entryOccurrences

section Growth

theorem records_growth (event : RibEvent) (s : AdjRibIn) :
    (s.recordEvent event).recordIndex.total recordCharge =
      s.recordIndex.total recordCharge + (SLOT +
        if (s.recordIndex.get (event.scope.sessionKey, event.recordId)).isSome then 0
        else NODE + chargeSession event.scope.sessionKey + chargeText event.recordId + CONTAINER) := by
  have hins := s.recordIndex.total_insert recordCharge (event.scope.sessionKey, event.recordId)
    ((s.recordIndex.get (event.scope.sessionKey, event.recordId)).getD [] ++ [s.events.length])
  change (s.recordIndex.insert (event.scope.sessionKey, event.recordId)
    ((s.recordIndex.get (event.scope.sessionKey, event.recordId)).getD [] ++
      [s.events.length])).total recordCharge = _
  cases hget : s.recordIndex.get (event.scope.sessionKey, event.recordId) with
  | none =>
    simp only [hget, Option.getD_none, Option.elim_none, recordCharge, List.nil_append,
      List.length_singleton, Option.isSome_none, Bool.false_eq_true, if_false] at hins ⊢
    omega
  | some l =>
    simp only [hget, Option.getD_some, Option.elim_some, recordCharge, List.length_append,
      List.length_singleton, Nat.add_mul, Option.isSome_some, if_true] at hins ⊢
    omega

theorem peers_growth (event : RibEvent) (s : AdjRibIn) :
    (s.recordEvent event).peerIndex.total peerCharge =
      s.peerIndex.total peerCharge + s.peerGrowth event := by
  unfold peerGrowth
  by_cases hr : isRouteScoped event.kind = true
  · have hins := s.peerIndex.total_insert peerCharge (baseScope event.scope)
      (insert event.scope.peer ((s.peerIndex.get (baseScope event.scope)).getD ∅))
    simp only [recordEvent, if_pos hr]
    cases hget : s.peerIndex.get (baseScope event.scope) with
    | none =>
      simp only [hget, Option.getD_none, Option.elim_none, peerCharge, insert_empty_eq,
        Finset.sum_singleton] at hins ⊢
      omega
    | some peers =>
      simp only [hget, Option.getD_some, Option.elim_some] at hins ⊢
      by_cases hp : event.scope.peer ∈ peers
      · rw [Finset.insert_eq_of_mem hp] at hins ⊢
        rw [if_pos hp]
        omega
      · rw [if_neg hp]
        simp only [peerCharge, Finset.sum_insert hp] at hins ⊢
        omega
  · simp only [recordEvent, if_neg hr, Nat.add_zero]

theorem index_growth (event : RibEvent) (s : AdjRibIn) :
    (s.recordEvent event).recordIndex.total recordCharge +
        (s.recordEvent event).peerIndex.total peerCharge =
      s.recordIndex.total recordCharge + s.peerIndex.total peerCharge +
        s.eventIndexGrowth event := by
  rw [records_growth, peers_growth]
  unfold eventIndexGrowth
  omega

variable {stage : AdjRibIn} {session : SessionKey} {selected : Finset RouteKey}

theorem generations_growth (hc : Copies s session selected i stage whole) :
    whole.generations.total generationCharge = s.generations.total generationCharge +
      if (s.generations.get session).isNone ∧ (stage.generations.get session).isSome then
        NODE + chargeSession session + 8 else 0 := by
  have htotal := hc.generations.total generationCharge
  have hkeys : stage.generations.keys ⊆ {session} := by
    intro x hx
    by_contra hout
    rw [stage.generations.mem_keys, (hc.generations.outside x hout).1] at hx
    cases hx
  rw [Finset.sum_singleton, total_eq_sum stage.generations generationCharge hkeys,
    Finset.sum_singleton] at htotal
  have hkept := hc.generations.kept session
  rw [← hc.generations.inside session (Finset.mem_singleton_self _)] at hkept
  cases hold : s.generations.get session with
  | none =>
    cases hnew : stage.generations.get session with
    | none => simpa [hold, hnew] using htotal
    | some g => simpa [hold, hnew, generationCharge] using htotal
  | some g =>
    cases hnew : stage.generations.get session with
    | none => simp [hold, hnew] at hkept
    | some g' => simpa [hold, hnew, generationCharge] using htotal

theorem tainted_growth (hc : Copies s session selected i stage whole) :
    ∑ x ∈ whole.taintedSessions, taintedCharge x = ∑ x ∈ s.taintedSessions, taintedCharge x +
      if session ∉ s.taintedSessions ∧ session ∈ stage.taintedSessions then
        NODE + chargeSession session else 0 := by
  rw [hc.tainted]
  rcases Finset.subset_singleton_iff.1 hc.taintedOnly with hnil | hone
  · simp [hnil]
  · by_cases hin : session ∈ s.taintedSessions
    · have hunion : s.taintedSessions ∪ {session} = s.taintedSessions :=
        Finset.union_eq_left.2 (Finset.singleton_subset_iff.2 hin)
      simp [hone, hunion, hin]
    · rw [hone, Finset.sum_union (by simpa using hin)]
      simp [hin, taintedCharge]

theorem gapIndex_growth {gaps : List (RibScope × String)} (index : Finset (SessionKey × ℕ))
    (h : gaps = [] ∨ ∃ g, gaps = [g]) :
    ∑ x ∈ index ∪ (gaps.map fun g => (g.1.sessionKey, g.1.generation)).toFinset, gapIndexCharge x +
        (gaps.map gapCharge).sum =
      ∑ x ∈ index, gapIndexCharge x + (gaps.map fun g => NODE + chargeScope g.1 + chargeText g.2 +
        if (g.1.sessionKey, g.1.generation) ∈ index then 0
        else NODE + chargeSession g.1.sessionKey + 8).sum := by
  rcases h with rfl | ⟨g, rfl⟩
  · simp
  · by_cases hin : (g.1.sessionKey, g.1.generation) ∈ index
    · have hunion : index ∪ {(g.1.sessionKey, g.1.generation)} = index :=
        Finset.union_eq_left.2 (Finset.singleton_subset_iff.2 hin)
      simp [hunion, hin, gapCharge]
    · simp only [List.map_cons, List.map_nil, List.toFinset_cons, List.toFinset_nil,
        insert_empty_eq, List.sum_singleton]
      rw [Finset.sum_union (by simpa using hin)]
      simp only [Finset.sum_singleton, hin, if_false, gapCharge, gapIndexCharge]
      omega

theorem chargeMetadataDelta_eq (old stage : AdjRibIn) (session : SessionKey) :
    chargeMetadataDelta old stage session =
      (if (old.generations.get session).isNone ∧ (stage.generations.get session).isSome then
        NODE + chargeSession session + 8 else 0) +
      (if session ∉ old.taintedSessions ∧ session ∈ stage.taintedSessions then
        NODE + chargeSession session else 0) +
      (stage.gaps.map fun g => NODE + chargeScope g.1 + chargeText g.2 +
        if (g.1.sessionKey, g.1.generation) ∈ old.gapIndex then 0
        else NODE + chargeSession g.1.sessionKey + 8).sum +
      (stage.eors.map eorCharge).sum + (stage.rejections.map rejectionCharge).sum := rfl

theorem bindings_growth {w : ℕ → List VersionBinding → ℕ}
    (hc : Copies s session selected i stage whole) (hnew : s.versionBindings.get i = none) :
    whole.versionBindings.total w = s.versionBindings.total w + stage.versionBindings.total w := by
  have htotal := hc.bindings.total w
  rw [Finset.sum_singleton, hnew] at htotal
  exact htotal

theorem origins_growth (hc : Copies s session selected i stage whole)
    (hout : ∀ x ∈ s.originIndex, x.1 ≠ i) :
    whole.originIndex.card = s.originIndex.card + stage.originIndex.card := by
  rw [hc.origins, Finset.card_union_of_disjoint]
  rw [Finset.disjoint_left]
  exact fun x hx hx' => hout x hx (hc.originsOnly x hx')

theorem outcome_gaps (ho : Outcome s event origin status t) :
    t.gaps = s.gaps ∨ t.gaps = s.gaps ++ [(event.scope, event.recordId)] := by
  have henter : (s.enterGeneration event).gaps = s.gaps := by rw [enterGeneration_frame]
  cases ho with
  | tainted ht => exact .inl rfl
  | conflict ht hc => exact .inr conflictStep_frame.2.2
  | reset ht hk hg hlt => exact .inl rfl
  | historical ht hk hg hlt => exact .inl rfl
  | undirected ht hk hg hd hgap => exact .inl henter
  | mismatch ht hk hg hd hp =>
    refine .inr ?_
    simp only [pushGap, quarantineScope, updateEntries, henter]
  | route ht hk hg hd hp hc =>
    rw [routeStep_frame.2.2, henter]
    split_ifs
    · exact .inr rfl
    · exact .inl (List.append_nil _)

theorem stage_gaps (hc : Copies s session selected i stage whole)
    (ho : Outcome s event origin status whole) : stage.gaps = [] ∨ ∃ g, stage.gaps = [g] := by
  have hgaps := hc.gaps
  rcases outcome_gaps ho with hsame | hone
  · rw [hsame] at hgaps
    exact .inl (by simpa using hgaps)
  · rw [hone] at hgaps
    exact .inr ⟨_, (List.append_cancel_left hgaps).symm⟩

end Growth

def Counted (s : AdjRibIn) : Prop :=
  s.originElements = s.bindingCount + s.occurrenceCount + s.originIndex.card

theorem entryOccurrences_setDisposition (p : VersionDisposition → Bool) (d : VersionDisposition)
    (e : RouteEntry) : entryOccurrences (setDisposition p d e) = entryOccurrences e := by
  simp only [entryOccurrences, setDisposition, List.map_map]
  congr 1
  refine List.map_congr_left fun v _ => ?_
  simp only [Function.comp_apply]
  split_ifs <;> rfl

theorem counted_updateEntries {p : RouteKey → Bool} {f : RouteEntry → RouteEntry}
    (hf : ∀ e, entryOccurrences (f e) = entryOccurrences e) (h : Counted s) :
    Counted (s.updateEntries p f) := by
  have hsame : (s.updateEntries p f).occurrenceCount = s.occurrenceCount := by
    refine total_mapVal fun k e => ?_
    split_ifs
    · exact hf e
    · rfl
  unfold Counted
  rw [hsame]
  exact h

theorem length_occurrence (i r : ℕ) :
    (occurrence i origin r).length = if origin.isSome then 1 else 0 := by
  cases origin <;> rfl

theorem counted_bind {r : ℕ} {key : RouteKey} {entry : RouteEntry} (h : Counted s)
    (hentry : entryOccurrences entry =
      (s.entries.get key).elim 0 entryOccurrences + if origin.isSome then 1 else 0) :
    Counted (s.bind i r origin key entry) := by
  have hbindings := s.versionBindings.total_insert (fun _ l => l.length) i
    ((s.versionBindings.get i).getD [] ++ [⟨key, entry.versions.length - 1, r⟩])
  have hentries := s.entries.total_insert (fun _ => entryOccurrences) key entry
  have hlength : (s.versionBindings.get i).elim 0 (fun l => l.length) =
      ((s.versionBindings.get i).getD []).length := by
    cases s.versionBindings.get i <;> rfl
  simp only [List.length_append, List.length_singleton] at hbindings
  unfold Counted bindingCount occurrenceCount at h ⊢
  simp only [AdjRibIn.bind]
  omega

theorem occurrences_getD (entries : FinMap RouteKey RouteEntry) (k : RouteKey) (st : RouteStatus)
    (witness : String) :
    entryOccurrences ((entries.get k).getD ⟨[], st, witness⟩) =
      (entries.get k).elim 0 entryOccurrences := by
  cases entries.get k <;> rfl

theorem occurrences_announced (recordId : String) (attributes : Json) (attributeIdentity : String)
    (occurrences : List NativeVersionOccurrence) (entry : RouteEntry) :
    ((announced recordId attributes attributeIdentity occurrences entry).map
        fun v => v.occurrences.length).sum = entryOccurrences entry + occurrences.length := by
  unfold announced
  split_ifs with hsame
  · cases hlast : entry.versions.getLast? with
    | none => simp [hlast] at hsame
    | some v =>
      have hsplit : entry.versions = entry.versions.dropLast ++ [v] := by
        rw [List.getLast?_eq_some_iff] at hlast
        obtain ⟨l, hl⟩ := hlast
        rw [hl, List.dropLast_concat]
      simp only [witnessed, hlast, entryOccurrences]
      conv_rhs => rw [hsplit]
      simp
      omega
  · rw [List.map_append, List.sum_append]
    have hset := entryOccurrences_setDisposition (· = .current) .replaced entry
    unfold entryOccurrences at hset
    rw [hset]
    rfl

theorem counted_applyConflict (x : RibAction × ℕ) (h : Counted s) :
    Counted (s.applyConflict event i origin x) := by
  obtain ⟨action, r⟩ := x
  cases action with
  | announce route pathId attributes attributeIdentity =>
    simp only [applyConflict]
    split_ifs
    · refine counted_bind h ?_
      rw [← occurrences_getD s.entries _ .unresolved event.recordId, ← length_occurrence i r]
      simp [entryOccurrences]
    · exact h
  | withdraw route pathId => exact h
  | reject route pathId reason => exact h

theorem counted_applyAction {gap : Bool} (x : RibAction × ℕ) (h : Counted s) :
    Counted (s.applyAction event gap i origin x) := by
  obtain ⟨action, r⟩ := x
  cases action with
  | announce route pathId attributes attributeIdentity =>
    refine counted_bind h ?_
    rw [← occurrences_getD s.entries _ .unresolved event.recordId, ← length_occurrence i r]
    exact occurrences_announced _ _ _ _ _
  | withdraw route pathId =>
    have hentries := s.entries.total_insert (fun _ => entryOccurrences)
      (routeKey event.scope route pathId)
      { versions := (setDisposition (· = .current) .withdrawn ((s.entries.get (routeKey event.scope
          route pathId)).getD ⟨[], .withdrawn, event.recordId⟩)).versions
        status := if gap then .unresolved else .withdrawn
        lastWitness := event.recordId }
    have hset := entryOccurrences_setDisposition (· = .current) .withdrawn ((s.entries.get
      (routeKey event.scope route pathId)).getD ⟨[], .withdrawn, event.recordId⟩)
    rw [occurrences_getD] at hset
    unfold Counted bindingCount occurrenceCount at h ⊢
    simp only [applyAction]
    unfold entryOccurrences at hentries hset h ⊢
    dsimp only at hentries
    omega
  | reject route pathId reason => exact h

theorem counted_foldl {f : AdjRibIn → RibAction × ℕ → AdjRibIn}
    (hstep : ∀ s x, Counted s → Counted (f s x)) (l : List (RibAction × ℕ)) (h : Counted s) :
    Counted (l.foldl f s) := by
  induction l generalizing s with
  | nil => exact h
  | cons x rest ih => exact ih (hstep s x h)

theorem counted_finishOrigin (hout : ∀ d, (i, d) ∉ s.originIndex) (h : Counted s) :
    Counted (s.finishOrigin i origin) := by
  unfold finishOrigin
  split
  · split_ifs
    · unfold Counted bindingCount occurrenceCount at h ⊢
      simp only [Finset.card_insert_of_notMem (hout _)]
      omega
    · exact h
  · exact h

theorem counted_pushGap (h : Counted s) : Counted (s.pushGap event) := h

theorem counted_outcome (hi : Indexed s) (hp : ProvInv s) (h : Counted s)
    (ho : Outcome s event origin status t) : Counted t := by
  have hout := not_mem_origins hi hp
  have henter : Counted (s.enterGeneration event) := by
    rw [enterGeneration_frame]
    exact h
  cases ho with
  | tainted ht => exact h
  | conflict ht hc =>
    have hquarantine : Counted (s.quarantineSession event.scope.sessionKey) :=
      counted_updateEntries (fun e => entryOccurrences_setDisposition (fun _ => true) _ e) h
    unfold conflictStep
    dsimp only
    refine counted_pushGap (counted_finishOrigin ?_
      (counted_foldl (fun s x hs => counted_applyConflict x hs) _ ?_))
    · rw [foldl_applyConflict_frame]
      exact hout
    · exact hquarantine
  | @reset ht previousGeneration reason hk hg hlt =>
    have hstep := counted_updateEntries
      (p := fun k => sameSession k.scope event.scope.sessionKey &&
        decide (k.scope.generation = previousGeneration))
      (f := fun e => { setDisposition (· = .current) .superseded e with status := .superseded })
      (fun e => entryOccurrences_setDisposition (· = .current) .superseded e) h
    exact hstep
  | historical ht hk hg hlt => exact h
  | undirected ht hk hg hd hgap => exact henter
  | mismatch ht hk hg hd hp =>
    exact counted_pushGap (counted_updateEntries (fun e => rfl) henter)
  | route ht hk hg hd hp hc =>
    unfold routeStep
    cases hkind : event.kind with
    | update actions =>
      refine counted_finishOrigin ?_ (counted_foldl (fun s x hs => counted_applyAction x hs) _
        henter)
      rw [foldl_applyAction_frame, enterGeneration_frame]
      exact hout
    | endOfRib family =>
      refine counted_updateEntries (fun e => ?_) henter
      split <;> rfl
    | stale family kind =>
      refine counted_updateEntries (fun e => ?_) henter
      split_ifs <;> rfl
    | gap reason => exact counted_updateEntries (fun e => rfl) henter
    | reset g r => exact absurd hkind (hk g r)

/-- The accounts of a state are those of the whole state, and they keep the limits. -/
structure Ledger (s : AdjRibIn) : Prop where
  charges : ∀ k, s.entryCharges.get k = (s.entries.get k).map (chargeStoredEntry k)
  retained : s.retained = s.recomputed
  versions : s.versions = versionCount s.entries
  actions : s.actions = (s.events.map eventActions).sum
  originElements : s.originElements = s.bindingCount + s.occurrenceCount + s.originIndex.card
  retainedBytes : s.retained ≤ s.limits.retainedBytes ∧ s.retained ≤ s.limits.outputBytes
  elements : s.actions + s.versions + s.originElements ≤ s.limits.elements
  active : s.entries.keys.card ≤ s.limits.active
  workLimit : s.work ≤ s.limits.work

theorem ledger_initial (owner : ℕ) (limits : Limits) : Ledger (initial owner limits) where
  charges := fun k => rfl
  retained := by simp [initial, recomputed, chargeBindings]
  versions := by simp [initial, versionCount]
  actions := by simp [initial]
  originElements := by simp [initial, bindingCount, occurrenceCount]
  retainedBytes := by simp [initial]
  elements := by simp [initial]
  active := by simp [initial, FinMap.empty]
  workLimit := by simp [initial]

theorem removedCharge_eq (h : Ledger s) (selected : Finset RouteKey) :
    s.removedCharge selected = ∑ k ∈ selected, (s.entries.get k).elim 0 (chargeStoredEntry k) := by
  refine Finset.sum_congr rfl fun k _ => ?_
  rw [h.charges k]
  cases s.entries.get k <;> rfl

theorem entries_le_recomputed (s : AdjRibIn) :
    s.entries.total chargeStoredEntry ≤ s.recomputed := by
  unfold recomputed
  omega

theorem recomputed_fresh (hi : Indexed s) (hp : ProvInv s) (h : Ledger s)
    (hf : FreshPlan s event origin admission plan)
    (hc : Copies s event.scope.sessionKey (s.selection event) s.events.length plan.stage whole)
    (ho : Outcome s event origin plan.status whole) :
    plan.retained = (s.commit plan).recomputed := by
  have hnew : s.versionBindings.get s.events.length = none := by
    by_contra hsome
    have hlt := hi.bindings _ (Option.isSome_iff_ne_none.2 hsome)
    omega
  have hout : ∀ x ∈ s.originIndex, x.1 ≠ s.events.length := by
    intro x hx he
    have hlt := hi.bindings _ (hp.origins x hx)
    omega
  have hentries := hc.entries.total chargeStoredEntry
  have hle := s.entries.sum_le_total chargeStoredEntry (s.selection event)
  have hall := s.entries_le_recomputed
  have hindex := index_growth event s
  have hgenerations := generations_growth hc
  have htainted := tainted_growth hc
  have hgaps := gapIndex_growth s.gapIndex (stage_gaps hc ho)
  have hbindings : chargeBindings whole.versionBindings = chargeBindings s.versionBindings +
      chargeBindings plan.stage.versionBindings := bindings_growth hc hnew
  have horigins := origins_growth hc hout
  have hretained := hf.retained
  have hmeta := chargeMetadataDelta_eq s plan.stage event.scope.sessionKey
  have hremoved := removedCharge_eq h (s.selection event)
  have hframe : whole.events = s.events ∧ whole.recordIndex = s.recordIndex ∧
      whole.peerIndex = s.peerIndex := by
    rw [hc.frame]
    exact ⟨rfl, rfl, rfl⟩
  have hrecord : (whole.recordEvent event).recordIndex = (s.recordEvent event).recordIndex ∧
      (whole.recordEvent event).peerIndex = (s.recordEvent event).peerIndex := by
    simp [recordEvent, hframe.1, hframe.2.1, hframe.2.2]
  have hcommit : (s.commit plan).recomputed =
      ((s.events ++ [event]).map chargeEvent).sum + whole.entries.total chargeStoredEntry +
      (s.recordEvent event).recordIndex.total recordCharge +
      (s.recordEvent event).peerIndex.total peerCharge +
      whole.generations.total generationCharge + ∑ x ∈ whole.taintedSessions, taintedCharge x +
      ((s.gaps ++ plan.stage.gaps).map gapCharge).sum +
      ∑ x ∈ s.gapIndex ∪ (plan.stage.gaps.map fun g => (g.1.sessionKey, g.1.generation)).toFinset,
        gapIndexCharge x + ((s.eors ++ plan.stage.eors).map eorCharge).sum +
      ((s.rejections ++ plan.stage.rejections).map rejectionCharge).sum +
      chargeBindings whole.versionBindings + whole.originIndex.card * ORIGIN_INDEX_CHARGE := by
    rw [commit_fresh hf hc, ← hc.gaps, ← hc.eors, ← hc.rejections, ← hrecord.1, ← hrecord.2,
      ← hframe.1]
    rfl
  rw [hcommit, hretained, hmeta, minimum, h.retained, hremoved]
  unfold recomputed at hall ⊢
  simp only [List.map_append, List.map_cons, List.map_nil, List.sum_append, List.sum_singleton,
    horigins, Nat.add_mul]
  omega

theorem ledger_fresh (hi : Indexed s) (hp : ProvInv s) (h : Ledger s)
    (hf : FreshPlan s event origin admission plan)
    (hc : Copies s event.scope.sessionKey (s.selection event) s.events.length plan.stage whole)
    (ho : Outcome s event origin plan.status whole) : Ledger (s.commit plan) := by
  have hretained := recomputed_fresh hi hp h hf hc ho
  have hcounted := counted_outcome hi hp h.originElements ho
  have hlimits : whole.limits = s.limits := by rw [hc.frame]
  have hevents : whole.events = s.events := by rw [hc.frame]
  have hversions : plan.versions = versionCount whole.entries := by
    have htotal := hc.entries.total fun _ e => e.versions.length
    have hsum := s.entries.sum_le_total (fun _ e => e.versions.length) (s.selection event)
    rw [hf.versions, h.versions]
    unfold versionCount
    rw [Staged.total_restrict]
    omega
  have hcommit := commit_fresh hf hc
  have hentries : (s.commit plan).entries = whole.entries := by rw [hcommit]; rfl
  have hkeys : whole.entries.keys.card ≤ s.limits.active := by
    have hover : whole.entries.keys = plan.stage.entries.keys ∪ s.entries.keys := by
      rw [← hc.entries.overlay_eq]
      rfl
    have hactive := hf.active
    rw [hover, ← Finset.sdiff_union_self_eq_union, Finset.card_union_of_disjoint
      Finset.sdiff_disjoint]
    omega
  exact {
    charges := by
      intro k
      rw [hentries, hcommit]
      change (plan.charges.overlay s.entryCharges).get k = _
      rw [get_overlay, hf.charges, get_mapTo, h.charges k]
      by_cases hk : k ∈ s.selection event
      · rw [hc.entries.inside k hk]
        cases hw : whole.entries.get k with
        | some e => rfl
        | none =>
          have hnone : ¬(s.entries.get k).isSome := fun hsome => by
            simpa [hw] using hc.entries.kept k hsome
          simpa using hnone
      · obtain ⟨hstage, hwhole⟩ := hc.entries.outside k hk
        rw [hstage, hwhole]
        rfl
    retained := by
      rw [← hretained, hcommit]
    versions := by
      rw [hentries, ← hversions, hcommit]
    actions := by
      rw [hcommit]
      change plan.actions = ((whole.events ++ [event]).map eventActions).sum
      rw [hf.actions, h.actions, hevents]
      simp
    originElements := by
      rw [hcommit]
      exact hcounted
    retainedBytes := by
      rw [hcommit]
      change plan.retained ≤ whole.limits.retainedBytes ∧ plan.retained ≤ whole.limits.outputBytes
      rw [hlimits]
      exact hf.retainedBytes
    elements := by
      rw [hcommit]
      change plan.actions + plan.versions + whole.originElements ≤ whole.limits.elements
      rw [hlimits, hc.elements, ← hf.originElements]
      exact hf.elements
    active := by
      rw [hentries, hcommit]
      change _ ≤ whole.limits.active
      rw [hlimits]
      exact hkeys
    workLimit := by
      rw [hcommit]
      change plan.work ≤ whole.limits.work
      rw [hlimits]
      exact hf.workLimit }

theorem staged_replay (s : AdjRibIn) (j : ℕ) (digest : Digest) (bindings : List VersionBinding) :
    Staged (s.replayStage j digest bindings)
      ((s.replayStage j digest bindings).overlay s.entries) s.entries
      (bindings.map (·.key)).toFinset where
  inside := by
    intro k hk
    have hplain := replayStage_plain (s := s) j digest bindings k
    rw [get_restrict, if_pos hk] at hplain
    rw [get_overlay]
    cases hstage : (s.replayStage j digest bindings).get k with
    | some e => rfl
    | none =>
      rw [hstage] at hplain
      have hnone : s.entries.get k = none := by simpa using hplain.symm
      rw [hnone]
      rfl
  outside := by
    intro k hk
    have hplain := replayStage_plain (s := s) j digest bindings k
    rw [get_restrict, if_neg hk] at hplain
    have hnone : (s.replayStage j digest bindings).get k = none := by simpa using hplain
    rw [get_overlay, hnone]
    exact ⟨rfl, rfl⟩
  kept := by
    intro k hk
    rw [get_overlay]
    cases (s.replayStage j digest bindings).get k with
    | some e => rfl
    | none => exact hk

theorem sum_modify {α : Type} {f : α → α} {g : α → ℕ} {d : ℕ} (h : ∀ a, g (f a) = g a + d)
    (l : List α) (n : ℕ) (hn : n < l.length) : ((l.modify n f).map g).sum = (l.map g).sum + d := by
  induction l generalizing n with
  | nil => simp at hn
  | cons a rest ih =>
    cases n with
    | zero =>
      simp only [List.modify_zero_cons, List.map_cons, List.sum_cons, h]
      omega
    | succ n =>
      simp only [List.modify_succ_cons, List.map_cons, List.sum_cons]
      rw [ih n (by simpa using hn)]
      omega

theorem total_replay (j : ℕ) (digest : Digest) (bindings : List VersionBinding)
    (entries : FinMap RouteKey RouteEntry)
    (h : ∀ b ∈ bindings, b.versionIndex < (view entries b.key).length) :
    (bindings.foldl (replayBinding j digest) entries).total (fun _ => entryOccurrences) =
      entries.total (fun _ => entryOccurrences) + bindings.length := by
  induction bindings generalizing entries with
  | nil => rfl
  | cons b rest ih =>
    rw [List.foldl_cons, ih]
    · cases hget : entries.get b.key with
      | none =>
        have hlt := h b List.mem_cons_self
        simp [view, hget] at hlt
      | some e =>
        have hlt : b.versionIndex < e.versions.length := by
          simpa [view, hget] using h b List.mem_cons_self
        have hins := entries.total_insert (fun _ => entryOccurrences) b.key
          { e with
            versions := e.versions.modify b.versionIndex
              (addOccurrence ⟨j, digest, b.routeIndex⟩) }
        have hadd : ∀ v : RouteVersion,
            (addOccurrence ⟨j, digest, b.routeIndex⟩ v).occurrences.length =
              v.occurrences.length + 1 := fun v => by simp [addOccurrence]
        have hsum := sum_modify (g := fun v : RouteVersion => v.occurrences.length) hadd
          e.versions b.versionIndex hlt
        rw [hget, Option.elim_some] at hins
        simp only [replayBinding, hget, List.length_cons]
        unfold entryOccurrences at hins ⊢
        dsimp only at hins
        omega
    · intro c hcin
      have hlt := h c (List.mem_cons_of_mem b hcin)
      obtain ⟨v, hv⟩ : ∃ v, (view entries c.key)[c.versionIndex]? = some v :=
        ⟨_, List.getElem?_eq_getElem hlt⟩
      have hview := view_replayBinding j digest entries b c.key c.versionIndex
      rw [hv, Option.map_some] at hview
      exact (List.getElem?_eq_some_iff.1 hview).1

theorem ledger_replay {j : ℕ} {digest : Digest} {bindings : List VersionBinding} (hp : ProvInv s)
    (h : Ledger s) (ho : OriginPlan s j digest bindings admission plan) :
    Ledger (s.commit plan) := by
  have hstaged := staged_replay s j digest bindings
  have hcommit := commit_originReplay ho
  have hcard : (s.originIndex ∪ {(j, digest)}).card = s.originIndex.card + 1 := by
    rw [Finset.card_union_of_disjoint (by simpa using ho.unseen), Finset.card_singleton]
  have hremoved := removedCharge_eq h (bindings.map (·.key)).toFinset
  have hversions : versionCount ((s.replayStage j digest bindings).overlay s.entries) =
      versionCount s.entries := by
    unfold versionCount
    rw [total_eq_sum _ _ (Finset.Subset.refl _)]
    have hkeys : ((s.replayStage j digest bindings).overlay s.entries).keys = s.entries.keys := by
      ext k
      have hplain := replay_entries_plain (s := s) j digest bindings k
      have hsome := congrArg Option.isSome hplain
      simp only [Option.isSome_map] at hsome
      rw [mem_keys, mem_keys, hsome]
    rw [hkeys]
    refine Finset.sum_congr rfl fun k _ => ?_
    have hplain := replay_entries_plain (s := s) j digest bindings k
    cases hnew : ((s.replayStage j digest bindings).overlay s.entries).get k with
    | none =>
      rw [hnew] at hplain
      have hnone : s.entries.get k = none := by simpa using hplain.symm
      rw [hnone]
    | some a =>
      rw [hnew] at hplain
      cases hold : s.entries.get k with
      | none => simp [hold] at hplain
      | some b =>
        rw [hold, Option.map_some, Option.map_some, Option.some.injEq] at hplain
        have hlength := congrArg (fun e : RouteEntry => e.versions.length) hplain
        simpa [plainEntry] using hlength
  have hoccurrences : ((s.replayStage j digest bindings).overlay s.entries).total
      (fun _ => entryOccurrences) = s.occurrenceCount + bindings.length := by
    have htotal := hstaged.total fun _ => entryOccurrences
    have hrestrict := Staged.total_restrict s.entries (bindings.map (·.key)).toFinset
      (fun _ => entryOccurrences)
    have hfold := total_replay j digest bindings
      (s.entries.restrict (bindings.map (·.key)).toFinset) fun b hb => by
        have hin : b.key ∈ (bindings.map (·.key)).toFinset :=
          List.mem_toFinset.2 (List.mem_map_of_mem hb)
        have hlt := hp.prov.lt_length (e := j) (b := b) (by rw [bindAt, ho.bound]; exact hb)
        rwa [view, get_restrict, if_pos hin]
    rw [← replayStage_eq] at hfold
    unfold occurrenceCount
    omega
  have hkeys : ((s.replayStage j digest bindings).overlay s.entries).keys = s.entries.keys := by
    ext k
    have hsome := congrArg Option.isSome (replay_entries_plain (s := s) j digest bindings k)
    simp only [Option.isSome_map] at hsome
    rw [mem_keys, mem_keys, hsome]
  have hsaved := h.elements
  rw [hcommit]
  exact {
    charges := by
      intro k
      change (((s.replayStage j digest bindings).mapTo chargeStoredEntry).overlay
        s.entryCharges).get k = _
      rw [get_overlay, get_mapTo, h.charges k]
      change _ = (((s.replayStage j digest bindings).overlay s.entries).get k).map _
      rw [get_overlay]
      cases (s.replayStage j digest bindings).get k <;> rfl
    retained := by
      have htotal := hstaged.total chargeStoredEntry
      have hle := s.entries.sum_le_total chargeStoredEntry (bindings.map (·.key)).toFinset
      have hall := s.entries_le_recomputed
      have hretained := ho.retained
      have hsum := h.retained
      rw [hremoved] at hretained
      change plan.retained = _
      unfold recomputed at hall hsum ⊢
      simp only [hcard, Nat.add_mul, Nat.one_mul]
      omega
    versions := by
      change s.versions = _
      rw [hversions]
      exact h.versions
    actions := h.actions
    originElements := by
      have hcount := h.originElements
      have helements := ho.originElements
      change plan.originElements = s.bindingCount + ((s.replayStage j digest bindings).overlay
        s.entries).total (fun _ => entryOccurrences) + (s.originIndex ∪ {(j, digest)}).card
      rw [hoccurrences, hcard]
      omega
    retainedBytes := ho.retainedBytes
    elements := ho.elements
    active := by
      change ((s.replayStage j digest bindings).overlay s.entries).keys.card ≤ _
      rw [hkeys]
      exact h.active
    workLimit := ho.workLimit }

theorem ledger_prepared (hi : Indexed s) (hp : ProvInv s) (h : Ledger s)
    (hplan : s.prepareInner check event origin = .ok plan) : Ledger (s.commit plan) := by
  cases prepares hi hplan with
  | inert _ =>
    rw [commit_inertReplay]
    exact h
  | replay _ _ horigin => exact ledger_replay hp h horigin
  | fresh _ _ hfresh hdirect hc => exact ledger_fresh hi hp h hfresh hc (outcome_of_direct hdirect)

theorem ledger_reachable (hr : Reachable check s) : Ledger s :=
  reachable_induction hr ledger_initial fun ht h hplan =>
    ledger_prepared (indexed_reachable ht) (prov_reachable ht) h hplan

theorem chargeEvent_pos (event : RibEvent) : 0 < chargeEvent event := by
  unfold chargeEvent NODE
  omega

theorem commit_work (hi : Indexed s) (hplan : s.prepareInner check event origin = .ok plan) :
    s.commit plan = s ∨ s.work < (s.commit plan).work := by
  have hpos := chargeEvent_pos event
  cases prepares hi hplan with
  | inert _ => exact .inl (commit_inertReplay s)
  | replay _ hle horigin =>
    refine .inr ?_
    rw [commit_originReplay horigin]
    have hwork := horigin.work
    change s.work < plan.work
    omega
  | fresh _ hle hfresh _ hc =>
    refine .inr ?_
    rw [commit_fresh hfresh hc]
    have hwork := hfresh.work
    change s.work < plan.work
    omega

theorem trace_work {plans : List PreparedRibEvent} (hi : Indexed s)
    (h : Trace check s plans t) : (t = s ∨ s.work < t.work) ∧ t.owner = s.owner := by
  induction h with
  | nil => exact ⟨.inl rfl, rfl⟩
  | @snoc plans t event origin plan before prepared ih =>
    have hit := indexed_trace hi before
    have howner : (t.commit plan).owner = t.owner := by
      unfold commit recordEvent
      split <;> rfl
    refine ⟨?_, howner.trans ih.2⟩
    rcases commit_work hit prepared with hsame | hlt
    · rw [hsame]
      exact ih.1
    · rcases ih.1 with hsame | hbefore
      · exact .inr (hsame ▸ hlt)
      · exact .inr (hbefore.trans hlt)

theorem prepared_stamp (hi : Indexed s) (hplan : s.prepareInner check event origin = .ok plan) :
    plan.owner = s.owner ∧ plan.revision = s.events.length ∧ plan.stage.work = s.work := by
  cases prepares hi hplan with
  | inert _ => exact ⟨rfl, rfl, rfl⟩
  | replay _ _ horigin =>
    rw [horigin.shape]
    exact ⟨rfl, rfl, rfl⟩
  | fresh _ _ hfresh _ hc => exact ⟨hfresh.owner, hfresh.revision, hc.work⟩

/-- The accounts equal their recomputation and keep the limits, and a plan is current exactly while
the state is the one that it was prepared on. -/
theorem accounts_exact (hr : Reachable check s) :
    Ledger s ∧ ∀ event origin plan, s.prepareInner check event origin = .ok plan →
      (s.commit plan ≠ s → s.work < (s.commit plan).work) ∧
      ∀ plans t, Trace check s plans t → (t.preparedCurrent plan = true ↔ t = s) := by
  have hi := indexed_reachable hr
  refine ⟨ledger_reachable hr, fun event origin plan hplan => ⟨?_, fun plans t htrace => ?_⟩⟩
  · intro hne
    exact (commit_work hi hplan).resolve_left hne
  · obtain ⟨howner, hrevision, hwork⟩ := prepared_stamp hi hplan
    simp only [preparedCurrent, Bool.and_eq_true, decide_eq_true_eq, howner, hrevision, hwork]
    constructor
    · rintro ⟨-, hsame⟩
      rcases (trace_work hi htrace).1 with heq | hlt
      · exact heq
      · omega
    · rintro rfl
      exact ⟨⟨rfl, rfl⟩, rfl⟩

theorem accounts_exact_sampleAnnounce :
    ∃ plans s, (initial 0 .default).commitAll anyEvent
        [(sampleAnnounce "record" "a", none), (sampleAnnounce "record" "a", some sampleDigest)] =
        .ok (plans, s) ∧ Ledger s := by
  have hok : ((initial 0 .default).commitAll anyEvent [(sampleAnnounce "record" "a", none),
      (sampleAnnounce "record" "a", some sampleDigest)]).isOk = true := by decide +kernel
  cases hs : (initial 0 .default).commitAll anyEvent [(sampleAnnounce "record" "a", none),
      (sampleAnnounce "record" "a", some sampleDigest)] with
  | error e =>
    rw [hs] at hok
    cases hok
  | ok r => exact ⟨r.1, r.2, rfl, (accounts_exact (reachable_commitAll (by decide) hs)).1⟩

end PcapEvidence.Bgp.AdjRibIn
