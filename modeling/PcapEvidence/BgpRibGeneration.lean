import PcapEvidence.BgpRibLedger

/-!
# Current versions, gaps and generations

A current version belongs to the current generation of a session without a conflict, and it was
announced by a recorded event. A recorded gap ends every active route of its generation for good.
-/

namespace PcapEvidence.Bgp.AdjRibIn

open FiniteMap FinMap History

variable {check : RibEvent → Limits → Result Unit} {s t : AdjRibIn} {event : RibEvent}
  {origin : Option Digest} {plan : PreparedRibEvent} {status : ApplyStatus}

section Entries

def hasCurrent (entry : RouteEntry) : Prop := ∃ v ∈ entry.versions, v.disposition = .current

def AnnouncesRoute (event : RibEvent) (key : RouteKey) : Prop :=
  ∃ route pathId attributes identity,
    RibAction.announce route pathId attributes identity ∈ updateActions event.kind ∧
      key = routeKey event.scope route pathId

def Silenced (events : List RibEvent) (key : RouteKey) : Prop :=
  ∃ old ∈ events, RibEventKind.isGap old.kind = true ∧
    old.scope.sessionKey = key.scope.sessionKey ∧ old.scope.generation = key.scope.generation

structure LiveInv (events : List RibEvent) (generations : FinMap SessionKey ℕ)
    (tainted : Finset SessionKey) (key : RouteKey) (entry : RouteEntry) : Prop where
  announced : hasCurrent entry → ∃ old ∈ events, AnnouncesRoute old key
  current : hasCurrent entry → key.scope.sessionKey ∉ tainted ∧
    generations.get key.scope.sessionKey = some key.scope.generation
  silent : entry.status = .active → ¬ Silenced events key

def LiveOk (events : List RibEvent) (generations : FinMap SessionKey ℕ)
    (tainted : Finset SessionKey) (entries : FinMap RouteKey RouteEntry) : Prop :=
  ∀ k e, entries.get k = some e → LiveInv events generations tainted k e

variable {events : List RibEvent} {generations : FinMap SessionKey ℕ} {tainted : Finset SessionKey}
  {key : RouteKey} {entry : RouteEntry}

theorem not_hasCurrent_setDisposition {d : VersionDisposition} (hd : d ≠ .current) :
    ¬ hasCurrent (setDisposition (· = .current) d entry) := by
  rintro ⟨v, hv, hcurrent⟩
  simp only [setDisposition, List.mem_map] at hv
  obtain ⟨old, -, rfl⟩ := hv
  split_ifs at hcurrent with hold
  · exact hd hcurrent
  · exact hold (by simpa using hcurrent)

theorem LiveInv.record (h : LiveInv events generations tainted key entry)
    (hevent : entry.status = .active → RibEventKind.isGap event.kind = true →
      event.scope.sessionKey = key.scope.sessionKey →
      event.scope.generation ≠ key.scope.generation) :
    LiveInv (events ++ [event]) generations tainted key entry where
  announced := by
    intro hc
    obtain ⟨old, hold, hannounces⟩ := h.announced hc
    exact ⟨old, List.mem_append_left _ hold, hannounces⟩
  current := h.current
  silent := by
    rintro ha ⟨old, hold, hgap, hsession, hgen⟩
    rcases List.mem_append.1 hold with hold | hold
    · exact h.silent ha ⟨old, hold, hgap, hsession, hgen⟩
    · rw [List.mem_singleton.1 hold] at hgap hsession hgen
      exact hevent ha hgap hsession hgen

theorem LiveInv.setStatus (h : LiveInv events generations tainted key entry) {st : RouteStatus}
    (hst : st ≠ .active) : LiveInv events generations tainted key { entry with status := st } where
  announced := h.announced
  current := h.current
  silent := fun ha => absurd ha hst

theorem LiveInv.of_idle (hstatus : entry.status ≠ .active) (hc : ¬ hasCurrent entry) :
    LiveInv events generations tainted key entry where
  announced := fun h => absurd h hc
  current := fun h => absurd h hc
  silent := fun ha => absurd ha hstatus

theorem LiveInv.enterGeneration (hg : s.AtCurrent event)
    (h : LiveInv events s.generations tainted key entry) :
    LiveInv events (s.enterGeneration event).generations tainted key entry :=
  { h with
    current := by
      intro hc
      obtain ⟨ht, hget⟩ := h.current hc
      refine ⟨ht, ?_⟩
      rw [enterGeneration_get hg]
      split_ifs with he
      · rw [AtCurrent, ← he, hget] at hg
        rcases hg with hg | hg
        · cases hg
        · exact hg.symm
      · exact hget }

theorem LiveOk.updateEntries {p : RouteKey → Bool} {f : RouteEntry → RouteEntry}
    (h : ∀ k e, s.entries.get k = some e → LiveInv events generations tainted k
      (if p k then f e else e)) :
    LiveOk events generations tainted (s.updateEntries p f).entries := by
  intro k e he
  simp only [AdjRibIn.updateEntries, get_mapVal, Option.map_eq_some_iff] at he
  obtain ⟨old, hold, rfl⟩ := he
  exact h k old hold

theorem LiveOk.insert {entries : FinMap RouteKey RouteEntry}
    (h : LiveOk events generations tainted entries)
    (hentry : LiveInv events generations tainted key entry) :
    LiveOk events generations tainted (entries.insert key entry) := by
  intro k e he
  rw [get_insert] at he
  split_ifs at he with hk
  · cases he
    exact hk ▸ hentry
  · exact h k e he

theorem liveOk_applyAction {gap : Bool} {i : ℕ} {x : RibAction × ℕ}
    (hin : event ∈ events) (hx : x.1 ∈ updateActions event.kind)
    (ht : event.scope.sessionKey ∉ tainted)
    (hg : generations.get event.scope.sessionKey = some event.scope.generation)
    (hgap : gap = false → ∀ key : RouteKey, key.scope = event.scope → ¬ Silenced events key)
    (h : LiveOk events generations tainted s.entries) :
    LiveOk events generations tainted (s.applyAction event gap i origin x).entries := by
  obtain ⟨action, index⟩ := x
  cases action with
  | announce route pathId attributes attributeIdentity =>
    refine h.insert ?_
    exact {
      announced := fun _ => ⟨event, hin, route, pathId, attributes, attributeIdentity, hx, rfl⟩
      current := fun _ => ⟨ht, hg⟩
      silent := by
        intro ha
        simp only at ha
        split_ifs at ha with hc
        simp only [Bool.or_eq_true, not_or, Bool.not_eq_true] at hc
        exact hgap hc.1.1 _ rfl }
  | withdraw route pathId =>
    refine h.insert (LiveInv.of_idle ?_ ?_)
    · dsimp only
      split_ifs <;> simp
    · exact not_hasCurrent_setDisposition (by simp)
  | reject route pathId reason => exact h

theorem liveOk_foldl {gap : Bool} {i : ℕ} (l : List (RibAction × ℕ))
    (hl : ∀ x ∈ l, x.1 ∈ updateActions event.kind) (hin : event ∈ events)
    (ht : event.scope.sessionKey ∉ tainted)
    (hg : generations.get event.scope.sessionKey = some event.scope.generation)
    (hgap : gap = false → ∀ key : RouteKey, key.scope = event.scope → ¬ Silenced events key)
    (h : LiveOk events generations tainted s.entries) :
    LiveOk events generations tainted (l.foldl (applyAction event gap i origin) s).entries := by
  induction l generalizing s with
  | nil => exact h
  | cons x rest ih =>
    exact ih (fun y hy => hl y (List.mem_cons_of_mem x hy))
      (liveOk_applyAction hin (hl x List.mem_cons_self) ht hg hgap h)

end Entries

def Marked (events : List RibEvent) (s : AdjRibIn) : Prop :=
  ∀ old ∈ events, RibEventKind.isGap old.kind = true → old.scope.sessionKey ∉ s.taintedSessions →
    s.gapBefore old = true ∨
      ∃ g, s.generations.get old.scope.sessionKey = some g ∧ old.scope.generation < g

def Stated (events : List RibEvent) (s : AdjRibIn) : Prop :=
  ∀ session g, s.generations.get session = some g →
    ∃ old ∈ events, old.scope.sessionKey = session ∧ old.scope.generation = g

structure GenerationInv (s : AdjRibIn) : Prop where
  live : LiveOk s.events s.generations s.taintedSessions s.entries
  marked : Marked s.events s
  stated : Stated s.events s

theorem gapBefore_iff_mem :
    s.gapBefore event = true ↔ ∃ g ∈ s.gaps, g.1.sessionKey = event.scope.sessionKey ∧
      g.1.generation = event.scope.generation := by
  simp [gapBefore]

theorem gapBefore_of_silenced (h : Marked s.events s) (ht : event.scope.sessionKey ∉ s.taintedSessions)
    (hg : s.AtCurrent event) {key : RouteKey} (hkey : key.scope = event.scope)
    (hsilenced : Silenced s.events key) : s.gapBefore event = true := by
  obtain ⟨old, hold, hgap, hsession, hgen⟩ := hsilenced
  rw [hkey] at hsession hgen
  rcases h old hold hgap (hsession ▸ ht) with hmark | ⟨g, hget, hlt⟩
  · rw [gapBefore_iff_mem, hsession, hgen] at hmark
    exact gapBefore_iff_mem.2 hmark
  · rw [hsession] at hget
    rcases hg with hg | hg
    · rw [hg] at hget
      cases hget
    · rw [hg] at hget
      cases hget
      omega

theorem liveOk_route {i : ℕ} (h : GenerationInv s) (ht : event.scope.sessionKey ∉ s.taintedSessions)
    (hg : s.AtCurrent event) :
    LiveOk (s.events ++ [event]) (s.enterGeneration event).generations s.taintedSessions
      ((s.enterGeneration event).routeStep event (s.gapBefore event) i origin).entries := by
  have hentries : (s.enterGeneration event).entries = s.entries := by rw [enterGeneration_frame]
  have hcurrent : (s.enterGeneration event).generations.get event.scope.sessionKey =
      some event.scope.generation := by rw [enterGeneration_get hg, if_pos rfl]
  have hold : ∀ k e, s.entries.get k = some e →
      LiveInv s.events (s.enterGeneration event).generations s.taintedSessions k e :=
    fun k e he => (h.live k e he).enterGeneration hg
  -- An event that is not a gap leaves the entries that it does not touch as they were.
  have hkeep (hgap : RibEventKind.isGap event.kind = false) : LiveOk (s.events ++ [event])
      (s.enterGeneration event).generations s.taintedSessions (s.enterGeneration event).entries := by
    intro k e he
    refine (hold k e (hentries ▸ he)).record fun _ hg' => ?_
    rw [hgap] at hg'
    cases hg'
  unfold routeStep
  cases hkind : event.kind with
  | update actions =>
    have hnogap : RibEventKind.isGap event.kind = false := by rw [hkind]; rfl
    dsimp only
    rw [finishOrigin_frame]
    refine liveOk_foldl actions.zipIdx ?_ (by simp) ht hcurrent ?_ (hkeep hnogap)
    · intro x hx
      rw [hkind]
      exact (List.mem_zipIdx' hx).2 ▸ List.getElem_mem _
    · rintro hfalse key hkey ⟨old, hmem, hgap, hsession, hgen⟩
      rcases List.mem_append.1 hmem with hmem | hmem
      · have htrue := gapBefore_of_silenced h.marked ht hg hkey ⟨old, hmem, hgap, hsession, hgen⟩
        rw [hfalse] at htrue
        cases htrue
      · rw [List.mem_singleton.1 hmem, hnogap] at hgap
        cases hgap
  | endOfRib family =>
    refine LiveOk.updateEntries fun k e he => ?_
    have hkept := hkeep (by rw [hkind]; rfl) k e he
    split_ifs
    · split
      · exact hkept.setStatus (by simp)
      · exact hkept
    · exact hkept
  | stale family kind =>
    refine LiveOk.updateEntries fun k e he => ?_
    have hkept := hkeep (by rw [hkind]; rfl) k e he
    split_ifs
    · exact hkept.setStatus (by simp)
    · exact hkept
    · exact hkept
  | gap reason =>
    refine LiveOk.updateEntries fun k e he => ?_
    have hbefore := hold k e (hentries ▸ he)
    split_ifs with hin
    · exact (hbefore.setStatus (by simp)).record fun ha => by cases ha
    · refine hbefore.record fun _ _ hsession hgen => hin ?_
      simp [sameSession_iff, hsession, hgen]
  | reset g r => exact hkeep (by rw [hkind]; rfl)

theorem liveOk_reset {previousGeneration : ℕ} {reason : String} (h : GenerationInv s)
    (hk : event.kind = .reset previousGeneration reason)
    (hg : s.generations.get event.scope.sessionKey = some previousGeneration) :
    LiveOk (s.events ++ [event]) (s.resetStep event previousGeneration).generations
      s.taintedSessions (s.resetStep event previousGeneration).entries := by
  refine LiveOk.updateEntries fun k e he => ?_
  have hold : LiveInv (s.events ++ [event]) s.generations s.taintedSessions k e :=
    (h.live k e he).record fun _ hgap => by
      rw [hk] at hgap
      cases hgap
  simp only [Bool.and_eq_true, sameSession_iff, decide_eq_true_eq]
  split_ifs with hin
  · exact LiveInv.of_idle (by simp) (not_hasCurrent_setDisposition (by simp))
  · exact { hold with
      current := by
        intro hc
        obtain ⟨ht, hget⟩ := hold.current hc
        refine ⟨ht, ?_⟩
        -- A current version in the session would be of the generation that was reset.
        have hother : k.scope.sessionKey ≠ event.scope.sessionKey := by
          intro hsession
          rw [hsession, hg] at hget
          cases hget
          exact hin ⟨hsession, rfl⟩
        exact (get_insert_of_ne _ hother _).trans hget }

theorem liveOk_outcome (he : EntriesInv s) (h : GenerationInv s)
    (ho : Outcome s event origin status t) :
    LiveOk (s.events ++ [event]) t.generations t.taintedSessions t.entries := by
  cases ho with
  | tainted ht =>
    intro k e hget
    refine (h.live k e hget).record fun ha _ hsession => ?_
    exact absurd (hsession ▸ ht) ((he k e hget).active_generation ha).1
  | conflict ht hc =>
    rw [conflictStep_frame.1, conflictStep_frame.2.1]
    intro k e hget
    have hcleared := cleared_conflictStep k e hget
    split_ifs at hcleared with hk
    · refine LiveInv.of_idle (by simp [hcleared.1]) ?_
      rintro ⟨v, hv, hd⟩
      exact hcleared.2 v hv hd
    · have hold : LiveInv (s.events ++ [event]) s.generations s.taintedSessions k e :=
        (h.live k e hcleared).record fun _ _ hsession => absurd hsession.symm hk
      exact { hold with
        current := fun hc => by simpa [hk] using hold.current hc }
  | reset ht hk hg hlt => exact liveOk_reset h hk hg
  | historical ht hk hg hlt =>
    intro k e hget
    refine (h.live k e hget).record fun ha _ hsession hgen => ?_
    have hcurrent := ((he k e hget).active_generation ha).2
    rw [← hsession, hg] at hcurrent
    cases hcurrent
    omega
  | undirected ht hk hg hd hgap =>
    rw [enterGeneration_frame]
    intro k e hget
    refine ((h.live k e hget).enterGeneration hg).record fun _ hgap' => ?_
    rw [hgap] at hgap'
    cases hgap'
  | mismatch ht hk hg hd hp =>
    have hframe := enterGeneration_frame s event
    have hnogap : RibEventKind.isGap event.kind = false := by
      cases hkind : event.kind <;> simp_all [isRouteScoped, RibEventKind.isGap]
    refine LiveOk.updateEntries fun k e hget => ?_
    have hold : LiveInv (s.events ++ [event]) (s.enterGeneration event).generations
        s.taintedSessions k e :=
      ((h.live k e (by rw [hframe] at hget; exact hget)).enterGeneration hg).record fun _ hgap' => by
        rw [hnogap] at hgap'
        cases hgap'
    change LiveInv _ (s.enterGeneration event).generations
      (s.enterGeneration event).taintedSessions _ _
    rw [show (s.enterGeneration event).taintedSessions = s.taintedSessions by rw [hframe]]
    split_ifs
    · exact hold.setStatus (by simp)
    · exact hold
  | route ht hk hg hd hp hc =>
    rw [routeStep_frame.1, routeStep_frame.2.1]
    rw [show (s.enterGeneration event).taintedSessions = s.taintedSessions by
      rw [enterGeneration_frame]]
    exact liveOk_route h ht hg

theorem tainted_outcome (ho : Outcome s event origin status t) :
    s.taintedSessions ⊆ t.taintedSessions := by
  cases ho with
  | tainted ht => exact subset_rfl
  | conflict ht hc => rw [conflictStep_frame.2.1]; exact Finset.subset_insert _ _
  | reset ht hk hg hlt => exact subset_rfl
  | historical ht hk hg hlt => exact subset_rfl
  | undirected ht hk hg hd hgap => rw [enterGeneration_frame]
  | mismatch ht hk hg hd hp =>
    simp only [pushGap, quarantineScope, updateEntries]
    rw [enterGeneration_frame]
  | route ht hk hg hd hp hc => rw [routeStep_frame.2.1, enterGeneration_frame]

theorem marked_outcome (h : Marked s.events s) (ho : Outcome s event origin status t) :
    Marked (s.events ++ [event]) t := by
  intro old hold hgap ht
  rcases List.mem_append.1 hold with hold | hold
  · rcases h old hold hgap fun hin => ht (tainted_outcome ho hin) with hmark | ⟨g, hg, hlt⟩
    · left
      rw [gapBefore_iff_mem] at hmark ⊢
      obtain ⟨g, hg, hrest⟩ := hmark
      refine ⟨g, ?_, hrest⟩
      rcases outcome_gaps ho with hgaps | hgaps
      · rwa [hgaps]
      · rw [hgaps]
        exact List.mem_append_left _ hg
    · obtain ⟨g', hg', hle⟩ := generations_outcome ho hg
      exact .inr ⟨g', hg', by omega⟩
  · rw [List.mem_singleton.1 hold] at hgap ht ⊢
    cases ho with
    | tainted hin => exact absurd hin ht
    | conflict hout hc =>
      rw [conflictStep_frame.2.1] at ht
      exact absurd (Finset.mem_insert_self _ _) ht
    | reset hout hk hg hlt => simp [hk, RibEventKind.isGap] at hgap
    | historical hout hk hg hlt => exact .inr ⟨_, hg, hlt⟩
    | undirected hout hk hg hd hno => simp [hno] at hgap
    | mismatch hout hk hg hd hp =>
      cases hkind : event.kind <;> simp_all [isRouteScoped, RibEventKind.isGap]
    | route hout hk hg hd hp hc =>
      left
      rw [gapBefore_iff_mem, routeStep_frame.2.2, if_pos hgap]
      exact ⟨_, List.mem_append_right _ (List.mem_singleton_self _), rfl, rfl⟩

theorem stated_outcome (h : Stated s.events s) (ho : Outcome s event origin status t) :
    Stated (s.events ++ [event]) t := by
  have hkeep : Stated (s.events ++ [event]) s := by
    intro session g hg
    obtain ⟨old, hold, hrest⟩ := h session g hg
    exact ⟨old, List.mem_append_left _ hold, hrest⟩
  have hset {session : SessionKey} {g : ℕ} {generations : FinMap SessionKey ℕ}
      (hget : generations.get session = if session = event.scope.sessionKey then
        some event.scope.generation else s.generations.get session)
      (hg : generations.get session = some g) :
      ∃ old ∈ s.events ++ [event], old.scope.sessionKey = session ∧ old.scope.generation = g := by
    rw [hget] at hg
    split_ifs at hg with hsession
    · cases hg
      exact ⟨event, by simp, hsession.symm, rfl⟩
    · exact hkeep session g hg
  have henter (hg : s.AtCurrent event) : Stated (s.events ++ [event]) (s.enterGeneration event) :=
    fun session g hget => hset (enterGeneration_get hg session) hget
  cases ho with
  | tainted ht => exact hkeep
  | conflict ht hc =>
    intro session g hg
    rw [conflictStep_frame.1] at hg
    exact hkeep session g hg
  | reset ht hk hg hlt => exact fun session g hget => hset (get_insert _ _ _ _) hget
  | historical ht hk hg hlt => exact hkeep
  | undirected ht hk hg hd hgap => exact henter hg
  | mismatch ht hk hg hd hp => exact henter hg
  | route ht hk hg hd hp hc =>
    intro session g hget
    rw [routeStep_frame.1] at hget
    exact henter hg session g hget

theorem hasCurrent_plain {a b : RouteEntry} (hab : plainEntry a = plainEntry b)
    (h : hasCurrent a) : hasCurrent b := by
  obtain ⟨v, hv, hd⟩ := h
  have hversions : a.versions.map (fun v : RouteVersion => { v with occurrences := [] }) =
      b.versions.map fun v => { v with occurrences := [] } := congrArg RouteEntry.versions hab
  have hin : ({ v with occurrences := [] } : RouteVersion) ∈
      b.versions.map fun v => { v with occurrences := [] } := by
    rw [← hversions]
    exact List.mem_map_of_mem hv
  obtain ⟨w, hw, heq⟩ := List.mem_map.1 hin
  refine ⟨w, hw, ?_⟩
  have hsame := congrArg RouteVersion.disposition heq
  exact hsame.trans hd

theorem generationInv_prepared (hi : Indexed s) (he : EntriesInv s) (h : GenerationInv s)
    (hplan : s.prepareInner check event origin = .ok plan) : GenerationInv (s.commit plan) := by
  cases prepares hi hplan with
  | inert _ =>
    rw [commit_inertReplay]
    exact h
  | @replay j _ digest bindings _ _ _ horigin =>
    rw [commit_originReplay horigin]
    refine ⟨fun k e hget => ?_, h.marked, h.stated⟩
    have hplain := replay_entries_plain (s := s) j digest bindings k
    rw [hget] at hplain
    cases hold : s.entries.get k with
    | none => simp [hold] at hplain
    | some old =>
      rw [hold] at hplain
      have hsame := Option.some.inj hplain
      have hlive := h.live k old hold
      have hstatus := congrArg RouteEntry.status hsame
      exact {
        announced := fun hc => hlive.announced (hasCurrent_plain hsame hc)
        current := fun hc => hlive.current (hasCurrent_plain hsame hc)
        silent := fun ha => hlive.silent (hstatus.symm.trans ha) }
  | @fresh _ _ _ whole _ _ hfresh hdirect hc =>
    have houtcome := outcome_of_direct hdirect
    have hevents : whole.events = s.events := by rw [hc.frame]
    have hlive := liveOk_outcome he h houtcome
    have hmarked := marked_outcome h.marked houtcome
    have hstated := stated_outcome h.stated houtcome
    rw [← hevents] at hlive hmarked hstated
    rw [commit_fresh hfresh hc]
    exact ⟨hlive, hmarked, hstated⟩

theorem generationInv_reachable (hr : Reachable check s) : GenerationInv s := by
  refine reachable_induction hr (fun owner limits => ⟨?_, ?_, ?_⟩) fun ht h hplan =>
    generationInv_prepared (indexed_reachable ht) (entriesInv_reachable ht) h hplan
  · intro k e he
    cases he
  · intro old hold
    cases hold
  · intro session g hg
    cases hg

/-- An active entry is of the current generation of its session, which has no conflict or gap. -/
theorem current_generation (hr : Reachable check s) {k : RouteKey} {e : RouteEntry}
    (hget : s.entries.get k = some e) (hlive : e.status = .active ∨ hasCurrent e) :
    (∃ old ∈ s.events, AnnouncesRoute old k) ∧ k.scope.sessionKey ∉ s.taintedSessions ∧
      s.generations.get k.scope.sessionKey = some k.scope.generation ∧
      (e.status = .active → ¬ Silenced s.events k) := by
  have hinv := (generationInv_reachable hr).live k e hget
  have hcurrent : hasCurrent e := by
    rcases hlive with ha | hc
    · obtain ⟨⟨v, hv, hd⟩, -⟩ := (entriesInv_reachable hr k e hget).active ha
      exact ⟨v, List.mem_of_getLast? hv, hd⟩
    · exact hc
  obtain ⟨ht, hg⟩ := hinv.current hcurrent
  exact ⟨hinv.announced hcurrent, ht, hg, hinv.silent⟩

theorem prepared_outcome (hi : Indexed s) (hplan : s.prepareInner check event origin = .ok plan) :
    (event ∈ s.events ∧ plan.status = .identicalReplay ∧ (s.commit plan).events = s.events ∧
      (s.commit plan).generations = s.generations ∧
      (s.commit plan).taintedSessions = s.taintedSessions) ∨
    (event ∉ s.events ∧ ∃ whole, s.applyDirect event origin = .ok (plan.status, whole) ∧
      (s.commit plan).events = s.events ++ [event] ∧
      (s.commit plan).generations = whole.generations ∧
      (s.commit plan).taintedSessions = whole.taintedSessions) := by
  cases prepares hi hplan with
  | inert hold =>
    rw [commit_inertReplay]
    exact .inl ⟨hold, rfl, rfl, rfl, rfl⟩
  | replay hj _ horigin =>
    rw [commit_originReplay horigin]
    exact .inl ⟨List.mem_of_getElem? hj, by rw [horigin.shape]; rfl, rfl, rfl, rfl⟩
  | @fresh _ _ _ whole hnew _ hfresh hdirect hc =>
    have hevents : whole.events = s.events := by rw [hc.frame]
    refine .inr ⟨hnew, whole, hdirect, ?_⟩
    rw [commit_fresh hfresh hc]
    exact ⟨congrArg (· ++ [event]) hevents, rfl, rfl⟩

theorem mem_commit (hi : Indexed s) (hplan : s.prepareInner check event origin = .ok plan) :
    event ∈ (s.commit plan).events ∧
      ∀ old, old ∈ (s.commit plan).events ↔ old ∈ s.events ∨ old = event := by
  obtain ⟨hmem, -, hevents, -⟩ | ⟨-, whole, -, hevents, -⟩ := prepared_outcome hi hplan
  · rw [hevents]
    refine ⟨hmem, fun old => ⟨.inl, ?_⟩⟩
    rintro (hold | rfl)
    · exact hold
    · exact hmem
  · rw [hevents]
    simp

theorem prepared_conflict (hi : Indexed s) (ht : event.scope.sessionKey ∉ s.taintedSessions)
    (hplan : s.prepareInner check event origin = .ok plan) :
    plan.status = .identityConflict ↔
      event ∉ s.events ∧ ∃ old ∈ s.events, label old = label event := by
  obtain ⟨hmem, hstatus, -⟩ | ⟨hnew, whole, hdirect, -⟩ := prepared_outcome hi hplan
  · simp [hmem, hstatus]
  · have hconflicts : s.conflictsWith event = true ↔ ∃ old ∈ s.events, label old = label event := by
      rw [← recorded_eq hi hnew, label_indexed hi]
    simp only [hnew, not_false_eq_true, true_and, ← hconflicts]
    constructor
    · intro hstatus
      have houtcome := outcome_of_direct hdirect
      generalize plan.status = status at hstatus houtcome
      cases houtcome with
      | tainted hin => exact absurd hin ht
      | conflict _ hc => exact hc
      | reset | historical | undirected | mismatch | route => cases hstatus
    · intro hc
      simp only [applyDirect, applyInner, if_neg ht, hc, if_true] at hdirect
      exact (Prod.mk.inj (Except.ok.inj hdirect)).1.symm

theorem commit_taint (hi : Indexed s) (hplan : s.prepareInner check event origin = .ok plan)
    (ht : event.scope.sessionKey ∉ s.taintedSessions) :
    (s.commit plan).taintedSessions = if plan.status = .identityConflict then
      insert event.scope.sessionKey s.taintedSessions else s.taintedSessions := by
  obtain ⟨-, hstatus, -, -, htaint⟩ | ⟨-, whole, hdirect, -, -, htaint⟩ := prepared_outcome hi hplan
  · simp [hstatus, htaint]
  · rw [htaint]
    have houtcome := outcome_of_direct hdirect
    generalize plan.status = status at houtcome ⊢
    cases houtcome with
    | tainted hin => exact absurd hin ht
    | conflict => exact conflictStep_frame.2.1
    | reset => rfl
    | historical => rfl
    | undirected => rw [enterGeneration_frame]; rfl
    | mismatch =>
      simp only [pushGap, quarantineScope, updateEntries]
      rw [enterGeneration_frame]
      rfl
    | route => rw [routeStep_frame.2.1, enterGeneration_frame]; rfl

theorem commit_generation (hi : Indexed s) (hplan : s.prepareInner check event origin = .ok plan)
    (ht : event.scope.sessionKey ∉ s.taintedSessions) (hk : ∀ g r, event.kind ≠ .reset g r)
    (hg : s.generations.get event.scope.sessionKey = some event.scope.generation ∨
      s.generations.get event.scope.sessionKey = none ∧ s.events = []) :
    (s.commit plan).generations.get event.scope.sessionKey = some event.scope.generation := by
  have hsame (hsome : s.events ≠ []) :
      s.generations.get event.scope.sessionKey = some event.scope.generation := by
    rcases hg with hg | ⟨-, hnil⟩
    · exact hg
    · exact absurd hnil hsome
  obtain ⟨hmem, -, -, hget, -⟩ | ⟨-, whole, hdirect, -, hget, -⟩ := prepared_outcome hi hplan
  · rw [hget]
    exact hsame (List.ne_nil_of_mem hmem)
  · rw [hget]
    have houtcome := outcome_of_direct hdirect
    generalize plan.status = status at houtcome
    cases houtcome with
    | tainted hin => exact absurd hin ht
    | conflict _ hc =>
      rw [conflictStep_frame.1]
      obtain ⟨old, hold, -⟩ := List.any_eq_true.1 hc
      exact hsame (List.ne_nil_of_mem hold)
    | reset _ hreset => exact absurd hreset (hk _ _)
    | historical _ _ hold hlt =>
      rcases hg with hg | ⟨hg, -⟩
      · rw [hg] at hold
        cases hold
        omega
      · rw [hg] at hold
        cases hold
    | undirected _ _ hat => rw [enterGeneration_get hat, if_pos rfl]
    | mismatch _ _ hat =>
      exact (enterGeneration_get hat _).trans (if_pos rfl)
    | route _ _ hat =>
      rw [routeStep_frame.1, enterGeneration_get hat, if_pos rfl]

theorem commit_reset (hi : Indexed s) (hplan : s.prepareInner check event origin = .ok plan)
    (ht : event.scope.sessionKey ∉ s.taintedSessions) {g : ℕ} {r : String}
    (hk : event.kind = .reset g r) (hnew : ∀ old ∈ s.events, old.recordId ≠ event.recordId) :
    plan.status = .applied ∧
      (s.commit plan).generations.get event.scope.sessionKey = some event.scope.generation := by
  obtain ⟨hmem, -⟩ | ⟨-, whole, hdirect, -, hget, -⟩ := prepared_outcome hi hplan
  · exact absurd rfl (hnew event hmem)
  · rw [hget]
    have houtcome := outcome_of_direct hdirect
    generalize plan.status = status at houtcome ⊢
    cases houtcome with
    | tainted hin => exact absurd hin ht
    | conflict _ hc =>
      obtain ⟨old, hold, hlabel⟩ := List.any_eq_true.1 hc
      simp only [label, Prod.mk.injEq, Bool.and_eq_true, decide_eq_true_eq] at hlabel
      exact absurd hlabel.1.2 (hnew old hold)
    | reset => exact ⟨rfl, get_insert_self _ _ _⟩
    | historical _ hno => exact absurd hk (hno _ _)
    | undirected _ hno => exact absurd hk (hno _ _)
    | mismatch _ hr => simp [hk, isRouteScoped] at hr
    | route _ hno => exact absurd hk (hno _ _)

end PcapEvidence.Bgp.AdjRibIn
