import PcapEvidence.BgpRibPlan

/-!
# What every entry of a reachable Adj-RIB-In satisfies

The outcomes of the reducer are listed once. The invariant of an entry is about its versions, its
status and the history of its scope, and each outcome keeps it.
-/

namespace PcapEvidence.Bgp.AdjRibIn

open FiniteMap FinMap History

variable {check : RibEvent → Limits → Result Unit} {s t : AdjRibIn} {event : RibEvent}
  {origin : Option Digest} {plan : PreparedRibEvent} {admission : ℕ} {status : ApplyStatus}

def AtCurrent (s : AdjRibIn) (event : RibEvent) : Prop :=
  s.generations.get event.scope.sessionKey = none ∨
    s.generations.get event.scope.sessionKey = some event.scope.generation

/-- What an event that was not recorded before does. -/
inductive Outcome (s : AdjRibIn) (event : RibEvent) (origin : Option Digest) :
    ApplyStatus → AdjRibIn → Prop
  | tainted (ht : event.scope.sessionKey ∈ s.taintedSessions) :
      Outcome s event origin .identityConflict s
  | conflict (ht : event.scope.sessionKey ∉ s.taintedSessions)
      (hc : s.conflictsWith event = true) :
      Outcome s event origin .identityConflict (s.conflictStep event s.events.length origin)
  | reset (ht : event.scope.sessionKey ∉ s.taintedSessions) {previousGeneration : ℕ}
      {reason : String} (hk : event.kind = .reset previousGeneration reason)
      (hg : s.generations.get event.scope.sessionKey = some previousGeneration)
      (hlt : previousGeneration < event.scope.generation) :
      Outcome s event origin .applied (s.resetStep event previousGeneration)
  | historical (ht : event.scope.sessionKey ∉ s.taintedSessions)
      (hk : ∀ g r, event.kind ≠ .reset g r) {g : ℕ}
      (hg : s.generations.get event.scope.sessionKey = some g) (hlt : event.scope.generation < g) :
      Outcome s event origin .historical s
  | undirected (ht : event.scope.sessionKey ∉ s.taintedSessions)
      (hk : ∀ g r, event.kind ≠ .reset g r) (hg : s.AtCurrent event)
      (hd : event.scope.direction = none) (hgap : RibEventKind.isGap event.kind = false) :
      Outcome s event origin .missingScope (s.enterGeneration event)
  | mismatch (ht : event.scope.sessionKey ∉ s.taintedSessions)
      (hk : isRouteScoped event.kind = true) (hg : s.AtCurrent event)
      (hd : event.scope.direction.isSome) (hp : s.peersDiffer event = true) :
      Outcome s event origin .missingScope
        (((s.enterGeneration event).quarantineScope event.scope).pushGap event)
  | route (ht : event.scope.sessionKey ∉ s.taintedSessions)
      (hk : ∀ g r, event.kind ≠ .reset g r) (hg : s.AtCurrent event)
      (hd : event.scope.direction.isSome ∨ RibEventKind.isGap event.kind = true)
      (hp : isRouteScoped event.kind = true → s.peersDiffer event = false)
      (hc : s.conflictsWith event = false) :
      Outcome s event origin .applied
        ((s.enterGeneration event).routeStep event (s.gapBefore event) s.events.length origin)

theorem validateGeneration_current {current : Option ℕ} {u : Unit}
    (hk : ∀ g r, event.kind ≠ .reset g r) (h : validateGeneration event current = .ok u)
    (hold : ¬(current.any fun g => decide (event.scope.generation < g)) = true) :
    current = none ∨ current = some event.scope.generation := by
  have hle : ¬(current.any fun g => decide (g < event.scope.generation)) = true := by
    unfold validateGeneration at h
    cases hkind : event.kind with
    | reset g r => exact absurd hkind (hk g r)
    | update actions | endOfRib family | stale family kind | gap reason =>
      rw [hkind] at h
      exact (guard_eq_ok.1 h).1
  cases current with
  | none => exact .inl rfl
  | some g =>
    simp only [Option.any_some, decide_eq_true_eq, not_lt] at hold hle
    exact .inr (congrArg some (le_antisymm hold hle))

theorem outcome_applyCurrent (ht : event.scope.sessionKey ∉ s.taintedSessions)
    (hc : s.conflictsWith event = false) (hk : ∀ g r, event.kind ≠ .reset g r)
    (h : s.applyCurrent event (s.gapBefore event) (s.peersDiffer event) s.events.length origin =
      .ok (status, t)) : Outcome s event origin status t := by
  unfold applyCurrent at h
  dsimp only at h
  by_cases hold : ((s.generations.get event.scope.sessionKey).any fun g =>
      decide (event.scope.generation < g)) = true
  · rw [if_pos hold] at h
    cases h
    cases hg : s.generations.get event.scope.sessionKey with
    | none => simp [hg] at hold
    | some g => exact .historical ht hk hg (by simpa [hg] using hold)
  rw [if_neg hold] at h
  obtain ⟨u, hvalid, h⟩ := bind_eq_ok.1 h
  have hg : s.AtCurrent event := validateGeneration_current hk hvalid hold
  by_cases hdir : event.scope.direction = none ∧ RibEventKind.isGap event.kind = false
  · rw [if_pos hdir] at h
    cases h
    exact .undirected ht hk hg hdir.1 hdir.2
  rw [if_neg hdir] at h
  by_cases hpeer : isRouteScoped event.kind = true ∧ s.peersDiffer event = true
  · rw [if_pos hpeer] at h
    cases h
    have hgap : RibEventKind.isGap event.kind = false := by
      cases hkind : event.kind <;> simp_all [isRouteScoped, RibEventKind.isGap]
    refine .mismatch ht hpeer.1 hg ?_ hpeer.2
    cases hd : event.scope.direction with
    | none => exact absurd ⟨hd, hgap⟩ hdir
    | some d => rfl
  · rw [if_neg hpeer] at h
    cases h
    refine .route ht hk hg ?_ ?_ hc
    · cases hd : event.scope.direction <;> simp_all
    · intro hr
      simpa [hr] using hpeer

theorem outcome_of_direct (h : s.applyDirect event origin = .ok (status, t)) :
    Outcome s event origin status t := by
  unfold applyDirect applyInner at h
  dsimp only at h
  by_cases ht : event.scope.sessionKey ∈ s.taintedSessions
  · rw [if_pos ht] at h
    cases h
    exact .tainted ht
  rw [if_neg ht] at h
  by_cases hc : s.conflictsWith event = true
  · rw [if_pos hc] at h
    cases h
    exact .conflict ht hc
  rw [if_neg hc] at h
  rw [Bool.not_eq_true] at hc
  cases hkind : event.kind with
  | reset previousGeneration reason =>
    simp only [hkind] at h
    obtain ⟨u, hvalid, h⟩ := bind_eq_ok.1 h
    cases h
    simp only [validateGeneration, hkind] at hvalid
    obtain ⟨hvalid, -⟩ := guard_eq_ok.1 hvalid
    simp only [not_or, not_le, ne_eq, not_not] at hvalid
    exact .reset ht hkind hvalid.2.1 hvalid.2.2.1
  | update actions | endOfRib family | stale family kind | gap reason =>
    simp only [hkind] at h
    exact outcome_applyCurrent ht hc (by simp [hkind]) h

section Entries

variable {i : ℕ} {gap : Bool}

def OnePeer (events : List RibEvent) (scope : RibScope) : Prop :=
  ∀ p, (∃ old ∈ events, isRouteScoped old.kind = true ∧ baseScope old.scope = baseScope scope ∧
    old.scope.peer = p) ↔ p = scope.peer

def OnlyLastCurrent (versions : List RouteVersion) : Prop :=
  ∀ v ∈ versions.dropLast, v.disposition ≠ .current

structure EntryInv (events : List RibEvent) (generations : FinMap SessionKey ℕ)
    (tainted : Finset SessionKey) (key : RouteKey) (entry : RouteEntry) : Prop where
  current : OnlyLastCurrent entry.versions
  quarantined : key.scope.sessionKey ∈ tainted → entry.status = .unresolved
  generation : key.scope.sessionKey ∉ tainted → ∃ g, generations.get key.scope.sessionKey = some g ∧
    key.scope.generation ≤ g ∧ (key.scope.generation < g → entry.status = .superseded)
  active : entry.status = .active →
    (∃ v, entry.versions.getLast? = some v ∧ v.disposition = .current) ∧
    key.pathId ≠ .unknown ∧ supported key.route = true ∧ key.scope.direction.isSome ∧
    OnePeer events key.scope

def EntriesOk (events : List RibEvent) (generations : FinMap SessionKey ℕ)
    (tainted : Finset SessionKey) (entries : FinMap RouteKey RouteEntry) : Prop :=
  ∀ k e, entries.get k = some e → EntryInv events generations tainted k e

def EntriesInv (s : AdjRibIn) : Prop :=
  EntriesOk s.events s.generations s.taintedSessions s.entries

variable {events : List RibEvent} {generations : FinMap SessionKey ℕ} {tainted : Finset SessionKey}
  {key : RouteKey} {entry : RouteEntry}

theorem OnePeer.append {scope : RibScope} (h : OnePeer events scope)
    (hevent : isRouteScoped event.kind = true → baseScope event.scope = baseScope scope →
      event.scope.peer = scope.peer) : OnePeer (events ++ [event]) scope := by
  intro p
  rw [← h p]
  simp only [List.mem_append, List.mem_singleton]
  constructor
  · rintro ⟨old, hold | rfl, hr, hb, rfl⟩
    · exact ⟨old, hold, hr, hb, rfl⟩
    · exact (h _).2 (hevent hr hb)
  · rintro ⟨old, hold, hrest⟩
    exact ⟨old, .inl hold, hrest⟩

theorem EntryInv.record (event : RibEvent) (h : EntryInv events generations tainted key entry)
    (hevent : entry.status = .active → isRouteScoped event.kind = true →
      baseScope event.scope = baseScope key.scope → event.scope.peer = key.scope.peer) :
    EntryInv (events ++ [event]) generations tainted key entry :=
  { h with
    active := by
      intro ha
      obtain ⟨hlast, hpath, hsupported, hdir, hpeer⟩ := h.active ha
      exact ⟨hlast, hpath, hsupported, hdir, hpeer.append (hevent ha)⟩ }

theorem EntryInv.active_generation (h : EntryInv events generations tainted key entry)
    (ha : entry.status = .active) :
    key.scope.sessionKey ∉ tainted ∧
      generations.get key.scope.sessionKey = some key.scope.generation := by
  have ht : key.scope.sessionKey ∉ tainted := by
    intro ht
    rw [h.quarantined ht] at ha
    cases ha
  obtain ⟨g, hg, hle, hold⟩ := h.generation ht
  rcases Nat.lt_or_eq_of_le hle with hlt | rfl
  · rw [hold hlt] at ha
    cases ha
  · exact ⟨ht, hg⟩

theorem sessionKey_of_baseScope {a b : RibScope} (h : baseScope a = baseScope b) :
    a.sessionKey = b.sessionKey ∧ a.generation = b.generation ∧ a.direction = b.direction := by
  simp only [baseScope, RibScope.mk.injEq] at h
  exact ⟨by simp [RibScope.sessionKey, h.1, h.2.1], h.2.2.1, h.2.2.2.1⟩

theorem sameSession_iff {scope : RibScope} {session : SessionKey} :
    sameSession scope session = true ↔ scope.sessionKey = session := by
  cases session
  simp [sameSession, sameSessionIdentity, RibScope.sessionKey]

theorem sameBaseScope_iff {a b : RibScope} :
    sameBaseScope a b = true ↔ baseScope a = baseScope b := by
  simp [sameBaseScope, sameSessionIdentity, baseScope, and_assoc]

theorem onlyLastCurrent_setDisposition {p : VersionDisposition → Bool} {d : VersionDisposition}
    (hd : d ≠ .current) (h : OnlyLastCurrent entry.versions) :
    OnlyLastCurrent (setDisposition p d entry).versions := by
  intro v hv
  simp only [setDisposition, ← List.map_dropLast, List.mem_map] at hv
  obtain ⟨old, hold, rfl⟩ := hv
  split_ifs
  · exact hd
  · exact h old hold

theorem EntriesOk.insert {entries : FinMap RouteKey RouteEntry}
    (h : EntriesOk events generations tainted entries)
    (hnew : EntryInv events generations tainted key entry) :
    EntriesOk events generations tainted (entries.insert key entry) := by
  intro k e he
  rw [get_insert] at he
  split_ifs at he with hk
  · cases he
    exact hk ▸ hnew
  · exact h k e he

/-- A scope whose routes can be announced. -/
structure Settled (events : List RibEvent) (generations : FinMap SessionKey ℕ)
    (tainted : Finset SessionKey) (scope : RibScope) : Prop where
  untainted : scope.sessionKey ∉ tainted
  current : generations.get scope.sessionKey = some scope.generation
  directed : scope.direction.isSome
  peer : OnePeer events scope

theorem Settled.entryInv (h : Settled events generations tainted key.scope)
    (hcurrent : OnlyLastCurrent entry.versions)
    (hactive : entry.status = .active →
      (∃ v, entry.versions.getLast? = some v ∧ v.disposition = .current) ∧
      key.pathId ≠ .unknown ∧ supported key.route = true) :
    EntryInv events generations tainted key entry where
  current := hcurrent
  quarantined := fun ht => absurd ht h.untainted
  generation := fun _ => ⟨_, h.current, le_rfl, fun hlt => absurd hlt (lt_irrefl _)⟩
  active := fun ha =>
    ⟨(hactive ha).1, (hactive ha).2.1, (hactive ha).2.2, h.directed, h.peer⟩

theorem announced_current (recordId : String) (attributes : Json) (attributeIdentity : String)
    (occurrences : List NativeVersionOccurrence) (hcurrent : OnlyLastCurrent entry.versions)
    (hactive : entry.status = .active →
      ∃ v, entry.versions.getLast? = some v ∧ v.disposition = .current) :
    OnlyLastCurrent (announced recordId attributes attributeIdentity occurrences entry) ∧
      ∃ v, (announced recordId attributes attributeIdentity occurrences entry).getLast? = some v ∧
        v.disposition = .current := by
  unfold announced
  split_ifs with hsame
  · obtain ⟨v, hv, hd⟩ := hactive hsame.1
    simp only [witnessed, hv]
    refine ⟨?_, _, List.getLast?_concat, hd⟩
    intro w hw
    rw [List.dropLast_concat] at hw
    exact hcurrent w hw
  · refine ⟨?_, _, List.getLast?_concat, rfl⟩
    intro w hw
    rw [List.dropLast_concat] at hw
    simp only [setDisposition, List.mem_map] at hw
    obtain ⟨old, -, rfl⟩ := hw
    split_ifs with hd
    · simp
    · simpa using hd

theorem entriesOk_applyAction (x : RibAction × ℕ)
    (hs : Settled events generations tainted event.scope)
    (h : EntriesOk events generations tainted s.entries) :
    EntriesOk events generations tainted (s.applyAction event gap i origin x).entries := by
  obtain ⟨action, index⟩ := x
  cases action with
  | announce route pathId attributes attributeIdentity =>
    refine h.insert (Settled.entryInv hs ?_ ?_)
    all_goals
      have hold : OnlyLastCurrent (((s.entries.get (routeKey event.scope route pathId)).getD
          ⟨[], .unresolved, event.recordId⟩).versions) ∧
          (((s.entries.get (routeKey event.scope route pathId)).getD
            ⟨[], .unresolved, event.recordId⟩).status = .active →
          ∃ v, ((s.entries.get (routeKey event.scope route pathId)).getD
            ⟨[], .unresolved, event.recordId⟩).versions.getLast? = some v ∧
            v.disposition = .current) := by
        cases hget : s.entries.get (routeKey event.scope route pathId) with
        | none => exact ⟨by simp [OnlyLastCurrent], by simp⟩
        | some e =>
          have he := h _ e hget
          exact ⟨he.current, fun ha => (he.active ha).1⟩
      obtain ⟨hcurrent, hlast⟩ := announced_current event.recordId attributes attributeIdentity
        (occurrence i origin index) hold.1 hold.2
    · exact hcurrent
    · intro ha
      refine ⟨hlast, ?_⟩
      simp only [routeKey] at ha ⊢
      split_ifs at ha with hc
      simp only [Bool.or_eq_true, not_or, decide_eq_true_eq, Bool.not_eq_true',
        Bool.not_eq_false] at hc
      exact ⟨hc.1.2, hc.2⟩
  | withdraw route pathId =>
    refine h.insert (Settled.entryInv hs ?_ ?_)
    · dsimp only
      refine onlyLastCurrent_setDisposition (by simp) ?_
      cases hget : s.entries.get (routeKey event.scope route pathId) with
      | none => simp [OnlyLastCurrent]
      | some e => exact (h _ e hget).current
    · intro ha
      simp only at ha
      split_ifs at ha
  | reject route pathId reason => exact h

theorem entriesOk_foldl {α : Type} {f : AdjRibIn → α → AdjRibIn} (l : List α)
    (hstep : ∀ x ∈ l, ∀ s, EntriesOk events generations tainted s.entries →
      EntriesOk events generations tainted (f s x).entries)
    (h : EntriesOk events generations tainted s.entries) :
    EntriesOk events generations tainted (l.foldl f s).entries := by
  induction l generalizing s with
  | nil => exact h
  | cons x rest ih =>
    rw [List.foldl_cons]
    exact ih (fun y hy => hstep y (List.mem_cons_of_mem x hy)) (hstep x List.mem_cons_self s h)

theorem enterGeneration_frame (s : AdjRibIn) (event : RibEvent) :
    s.enterGeneration event = { s with generations := (s.enterGeneration event).generations } := by
  unfold enterGeneration
  split <;> rfl

theorem enterGeneration_get (hg : s.AtCurrent event) (session : SessionKey) :
    (s.enterGeneration event).generations.get session =
      if session = event.scope.sessionKey then some event.scope.generation
      else s.generations.get session := by
  unfold enterGeneration
  rcases hg with hg | hg
  · simp only [hg]
    rfl
  · simp only [hg]
    split_ifs with he
    · rw [he, hg]
    · rfl

theorem EntryInv.enterGeneration (hg : s.AtCurrent event)
    (h : EntryInv events s.generations tainted key entry) :
    EntryInv events (s.enterGeneration event).generations tainted key entry :=
  { h with
    generation := by
      intro ht
      obtain ⟨g, hget, hrest⟩ := h.generation ht
      refine ⟨g, ?_, hrest⟩
      rw [enterGeneration_get hg]
      split_ifs with he
      · rw [AtCurrent, ← he, hget] at hg
        rcases hg with hg | hg
        · cases hg
        · exact hg.symm
      · exact hget }

theorem EntryInv.setStatus (h : EntryInv events generations tainted key entry)
    (ht : key.scope.sessionKey ∉ tainted)
    (hg : generations.get key.scope.sessionKey = some key.scope.generation) {st : RouteStatus}
    (hst : st ≠ .active) :
    EntryInv events generations tainted key { entry with status := st } where
  current := h.current
  quarantined := fun hin => absurd hin ht
  generation := fun _ => ⟨_, hg, le_rfl, fun hlt => absurd hlt (lt_irrefl _)⟩
  active := fun ha => absurd ha hst

theorem EntriesOk.updateEntries {p : RouteKey → Bool} {f : RouteEntry → RouteEntry}
    (h : ∀ k e, s.entries.get k = some e → EntryInv events generations tainted k
      (if p k then f e else e)) :
    EntriesOk events generations tainted (s.updateEntries p f).entries := by
  intro k e he
  simp only [AdjRibIn.updateEntries, get_mapVal, Option.map_eq_some_iff] at he
  obtain ⟨old, hold, rfl⟩ := he
  exact h k old hold

theorem foldl_applyConflict_frame (l : List (RibAction × ℕ)) (s : AdjRibIn) :
    l.foldl (applyConflict event i origin) s = { s with
      entries := (l.foldl (applyConflict event i origin) s).entries
      versionBindings := (l.foldl (applyConflict event i origin) s).versionBindings
      originElements := (l.foldl (applyConflict event i origin) s).originElements } := by
  induction l generalizing s with
  | nil => rfl
  | cons x rest ih =>
    rw [List.foldl_cons, ih]
    unfold applyConflict
    split
    · split_ifs <;> rfl
    · rfl

theorem foldl_applyAction_frame (l : List (RibAction × ℕ)) (s : AdjRibIn) :
    l.foldl (applyAction event gap i origin) s = { s with
      entries := (l.foldl (applyAction event gap i origin) s).entries
      versionBindings := (l.foldl (applyAction event gap i origin) s).versionBindings
      rejections := (l.foldl (applyAction event gap i origin) s).rejections
      originElements := (l.foldl (applyAction event gap i origin) s).originElements } := by
  induction l generalizing s with
  | nil => rfl
  | cons x rest ih =>
    rw [List.foldl_cons, ih]
    unfold applyAction
    split <;> rfl

theorem finishOrigin_frame (s : AdjRibIn) :
    s.finishOrigin i origin = { s with
      originIndex := (s.finishOrigin i origin).originIndex
      originElements := (s.finishOrigin i origin).originElements } := by
  unfold finishOrigin
  split
  · split_ifs <;> rfl
  · rfl

def Cleared (session : SessionKey) (before entries : FinMap RouteKey RouteEntry) : Prop :=
  ∀ k e, entries.get k = some e →
    if k.scope.sessionKey = session then
      e.status = .unresolved ∧ ∀ v ∈ e.versions, v.disposition ≠ .current
    else before.get k = some e

theorem cleared_applyConflict {before : FinMap RouteKey RouteEntry} (x : RibAction × ℕ)
    (h : Cleared event.scope.sessionKey before s.entries) :
    Cleared event.scope.sessionKey before (s.applyConflict event i origin x).entries := by
  obtain ⟨action, index⟩ := x
  cases action with
  | announce route pathId attributes attributeIdentity =>
    simp only [applyConflict]
    split_ifs with hd
    · intro k e he
      simp only [AdjRibIn.bind, get_insert] at he
      split_ifs at he with hk
      · cases he
        rw [if_pos (by rw [hk]; rfl)]
        refine ⟨rfl, fun v hv => ?_⟩
        simp only [List.mem_append, List.mem_singleton] at hv
        rcases hv with hv | rfl
        · cases hget : s.entries.get (routeKey event.scope route pathId) with
          | none => simp [hget] at hv
          | some old =>
            have hold := h _ old hget
            rw [if_pos (show (routeKey event.scope route pathId).scope.sessionKey =
              event.scope.sessionKey from rfl)] at hold
            simp only [hget, Option.getD_some] at hv
            exact hold.2 v hv
        · simp
      · exact h k e he
    · exact h
  | withdraw route pathId => exact h
  | reject route pathId reason => exact h

theorem cleared_conflictStep :
    Cleared event.scope.sessionKey s.entries (s.conflictStep event i origin).entries := by
  have hfold : ∀ (l : List (RibAction × ℕ)) (s' : AdjRibIn),
      Cleared event.scope.sessionKey s.entries s'.entries →
      Cleared event.scope.sessionKey s.entries
        (l.foldl (applyConflict event i origin) s').entries := by
    intro l
    induction l with
    | nil => exact fun _ h => h
    | cons x rest ih => exact fun _ h => ih _ (cleared_applyConflict x h)
  have hstart : Cleared event.scope.sessionKey s.entries
      (s.quarantineSession event.scope.sessionKey).entries := by
    intro k e he
    simp only [quarantineSession, AdjRibIn.updateEntries, get_mapVal, Option.map_eq_some_iff] at he
    obtain ⟨old, hold, rfl⟩ := he
    by_cases hk : k.scope.sessionKey = event.scope.sessionKey
    · rw [if_pos hk, if_pos (sameSession_iff.2 hk)]
      refine ⟨rfl, fun v hv => ?_⟩
      simp only [setDisposition, if_true, List.mem_map] at hv
      obtain ⟨w, -, rfl⟩ := hv
      simp
    · rw [if_neg hk, if_neg (fun h => hk (sameSession_iff.1 h))]
      exact hold
  have hend := hfold (updateActions event.kind).zipIdx
    { s.quarantineSession event.scope.sessionKey with
      taintedSessions := insert event.scope.sessionKey
        (s.quarantineSession event.scope.sessionKey).taintedSessions } hstart
  unfold conflictStep pushGap
  dsimp only
  rw [finishOrigin_frame]
  exact hend

theorem conflictStep_frame :
    (s.conflictStep event i origin).generations = s.generations ∧
      (s.conflictStep event i origin).taintedSessions =
        insert event.scope.sessionKey s.taintedSessions ∧
      (s.conflictStep event i origin).gaps = s.gaps ++ [(event.scope, event.recordId)] := by
  unfold conflictStep pushGap
  dsimp only
  rw [finishOrigin_frame, foldl_applyConflict_frame]
  exact ⟨rfl, rfl, rfl⟩

theorem routeStep_frame :
    (s.routeStep event gap i origin).generations = s.generations ∧
      (s.routeStep event gap i origin).taintedSessions = s.taintedSessions ∧
      (s.routeStep event gap i origin).gaps = s.gaps ++
        if RibEventKind.isGap event.kind then [(event.scope, event.recordId)] else [] := by
  unfold routeStep
  cases hkind : event.kind with
  | update actions =>
    dsimp only
    rw [finishOrigin_frame, foldl_applyAction_frame]
    exact ⟨rfl, rfl, (List.append_nil _).symm⟩
  | gap reason => exact ⟨rfl, rfl, rfl⟩
  | endOfRib family => exact ⟨rfl, rfl, (List.append_nil _).symm⟩
  | stale family kind => exact ⟨rfl, rfl, (List.append_nil _).symm⟩
  | reset g r => exact ⟨rfl, rfl, (List.append_nil _).symm⟩

theorem onePeer_of_agreement (hr : isRouteScoped event.kind = true)
    (hp : s.peersDiffer event = false) : OnePeer (s.events ++ [event]) event.scope := by
  intro p
  simp only [peersDiffer, List.any_eq_false, Bool.and_eq_true, decide_eq_true_iff, not_and,
    ne_eq, not_not] at hp
  simp only [List.mem_append, List.mem_singleton]
  constructor
  · rintro ⟨old, hold | rfl, hscoped, hb, rfl⟩
    · exact hp old hold ⟨hscoped, hb⟩
    · rfl
  · rintro rfl
    exact ⟨event, .inr rfl, hr, rfl, rfl⟩

theorem peer_of_agreement (hr : isRouteScoped event.kind = true)
    (hp : s.peersDiffer event = false) (hone : OnePeer s.events key.scope)
    (hb : baseScope event.scope = baseScope key.scope) : event.scope.peer = key.scope.peer := by
  obtain ⟨old, hold, hscoped, hbase, hpeer⟩ := (hone key.scope.peer).2 rfl
  have hsame := (onePeer_of_agreement hr hp old.scope.peer).1
    ⟨old, List.mem_append_left _ hold, hscoped, hbase.trans hb.symm, rfl⟩
  rw [← hsame, hpeer]

theorem entriesOk_route (h : EntriesInv s) (ht : event.scope.sessionKey ∉ s.taintedSessions)
    (hk : ∀ g r, event.kind ≠ .reset g r) (hg : s.AtCurrent event)
    (hd : event.scope.direction.isSome ∨ RibEventKind.isGap event.kind = true)
    (hp : isRouteScoped event.kind = true → s.peersDiffer event = false) :
    EntriesOk (s.events ++ [event]) (s.enterGeneration event).generations s.taintedSessions
      ((s.enterGeneration event).routeStep event gap i origin).entries := by
  have hentries : (s.enterGeneration event).entries = s.entries := by rw [enterGeneration_frame]
  have hcurrent : (s.enterGeneration event).generations.get event.scope.sessionKey =
      some event.scope.generation := by rw [enterGeneration_get hg, if_pos rfl]
  have hall : EntriesOk (s.events ++ [event]) (s.enterGeneration event).generations
      s.taintedSessions (s.enterGeneration event).entries := by
    intro k e he
    rw [hentries] at he
    refine ((h k e he).enterGeneration hg).record event fun ha hr hb => ?_
    exact peer_of_agreement hr (hp hr) ((h k e he).active ha).2.2.2.2 hb
  -- An entry in the session and the generation of the event may get another status.
  have hstatus : ∀ k e, s.entries.get k = some e → k.scope.sessionKey = event.scope.sessionKey →
      k.scope.generation = event.scope.generation → ∀ st, st ≠ RouteStatus.active →
      EntryInv (s.events ++ [event]) (s.enterGeneration event).generations s.taintedSessions k
        { e with status := st } := by
    intro k e he hsession hgen st hst
    refine (hall k e (hentries.symm ▸ he)).setStatus (hsession ▸ ht) ?_ hst
    rw [hsession, hcurrent, hgen]
  unfold routeStep
  cases hkind : event.kind with
  | update actions =>
    have hr : isRouteScoped event.kind = true := by rw [hkind]; rfl
    have hsettled : Settled (s.events ++ [event]) (s.enterGeneration event).generations
        s.taintedSessions event.scope :=
      ⟨ht, hcurrent, by simpa [hkind, RibEventKind.isGap] using hd,
        onePeer_of_agreement hr (hp hr)⟩
    have hfold := entriesOk_foldl (f := applyAction event gap i origin) actions.zipIdx
      (fun x _ s' hs' => entriesOk_applyAction x hsettled hs') hall
    dsimp only
    rw [finishOrigin_frame]
    exact hfold
  | endOfRib family =>
    refine EntriesOk.updateEntries fun k e he => ?_
    have hold := hall k e he
    split_ifs with hin
    · split
      · simp only [sameFamilyScope, Bool.and_eq_true, decide_eq_true_eq] at hin
        exact hstatus k e (hentries ▸ he) (by rw [hin.1]) (by rw [hin.1]) _ (by simp)
      · exact hold
    · exact hold
  | stale family kind =>
    refine EntriesOk.updateEntries fun k e he => ?_
    have hold := hall k e he
    split_ifs with hin hactive
    · simp only [sameFamilyScope, Bool.and_eq_true, decide_eq_true_eq] at hin
      exact hstatus k e (hentries ▸ he) (by rw [hin.1]) (by rw [hin.1]) _ (by simp)
    · exact hold
    · exact hold
  | gap reason =>
    refine EntriesOk.updateEntries fun k e he => ?_
    have hold := hall k e he
    split_ifs with hin
    · simp only [Bool.and_eq_true, decide_eq_true_eq, sameSession_iff] at hin
      exact hstatus k e (hentries ▸ he) hin.1 hin.2 _ (by simp)
    · exact hold
  | reset g r => exact absurd hkind (hk g r)

theorem entriesOk_reset {previousGeneration : ℕ} {reason : String} (h : EntriesInv s)
    (ht : event.scope.sessionKey ∉ s.taintedSessions)
    (hk : event.kind = .reset previousGeneration reason)
    (hg : s.generations.get event.scope.sessionKey = some previousGeneration)
    (hlt : previousGeneration < event.scope.generation) :
    EntriesOk (s.events ++ [event]) (s.resetStep event previousGeneration).generations
      s.taintedSessions (s.resetStep event previousGeneration).entries := by
  refine EntriesOk.updateEntries fun k e he => ?_
  have hold := (h k e he).record event fun _ hr _ => by
    rw [hk] at hr
    cases hr
  simp only [Bool.and_eq_true, sameSession_iff, decide_eq_true_eq]
  by_cases hsession : k.scope.sessionKey = event.scope.sessionKey
  · have hget : (s.resetStep event previousGeneration).generations.get k.scope.sessionKey =
        some event.scope.generation := by
      rw [hsession]
      exact get_insert_self _ _ _
    split_ifs with hin
    · have hsuperseded : VersionDisposition.superseded ≠ .current := by simp
      exact {
        current := onlyLastCurrent_setDisposition (p := (· = .current)) hsuperseded hold.current
        quarantined := fun hin => absurd (hsession ▸ hin) ht
        generation := fun _ => ⟨_, hget, by omega, fun _ => rfl⟩
        active := fun ha => by cases ha }
    · exact { hold with
        generation := fun ht => by
          obtain ⟨g, hgen, hle, hsuper⟩ := hold.generation ht
          rw [hsession, hg] at hgen
          cases hgen
          have hlt' : k.scope.generation < previousGeneration :=
            lt_of_le_of_ne hle fun he => hin ⟨hsession, he⟩
          exact ⟨_, hget, by omega, fun _ => hsuper hlt'⟩ }
  · rw [if_neg fun hin => hsession hin.1]
    exact { hold with
      generation := by
        rw [show (s.resetStep event previousGeneration).generations.get k.scope.sessionKey =
          s.generations.get k.scope.sessionKey from get_insert_of_ne _ hsession _]
        exact hold.generation }

theorem entriesOk_outcome (h : EntriesInv s) (ho : Outcome s event origin status t) :
    EntriesOk (s.events ++ [event]) t.generations t.taintedSessions t.entries := by
  cases ho with
  | tainted ht =>
    intro k e he
    refine (h k e he).record event fun ha _ hb => ?_
    rw [(sessionKey_of_baseScope hb).1] at ht
    exact absurd ht ((h k e he).active_generation ha).1
  | conflict ht hc =>
    rw [conflictStep_frame.1, conflictStep_frame.2.1]
    intro k e he
    have hcleared := cleared_conflictStep k e he
    split_ifs at hcleared with hk
    · exact {
        current := fun v hv => hcleared.2 v (List.mem_of_mem_dropLast hv)
        quarantined := fun _ => hcleared.1
        generation := fun hout => absurd (hk ▸ Finset.mem_insert_self _ _) hout
        active := fun ha => by
          rw [hcleared.1] at ha
          cases ha }
    · have hmem : k.scope.sessionKey ∈ insert event.scope.sessionKey s.taintedSessions ↔
          k.scope.sessionKey ∈ s.taintedSessions := by simp [hk]
      have hold := h k e hcleared
      have hrecord := hold.record event fun _ _ hb =>
        absurd (sessionKey_of_baseScope hb).1.symm hk
      exact { hrecord with
        quarantined := fun hin => hrecord.quarantined (hmem.1 hin)
        generation := fun hout => hrecord.generation fun hin => hout (hmem.2 hin) }
  | reset ht hk hg hlt => exact entriesOk_reset h ht hk hg hlt
  | historical ht hk hg hlt =>
    intro k e he
    refine (h k e he).record event fun ha _ hb => ?_
    obtain ⟨hsession, hgen, -⟩ := sessionKey_of_baseScope hb
    have hcurrent := ((h k e he).active_generation ha).2
    rw [← hsession, hg] at hcurrent
    cases hcurrent
    omega
  | undirected ht hk hg hd hgap =>
    rw [enterGeneration_frame]
    intro k e he
    refine ((h k e he).enterGeneration hg).record event fun ha _ hb => ?_
    have hdir := ((h k e he).active ha).2.2.2.1
    rw [← (sessionKey_of_baseScope hb).2.2, hd] at hdir
    cases hdir
  | mismatch ht hk hg hd hp =>
    have hframe := enterGeneration_frame s event
    refine EntriesOk.updateEntries fun k e he => ?_
    have hold := (h k e (by rw [hframe] at he; exact he)).enterGeneration hg
    change EntryInv _ (s.enterGeneration event).generations
      (s.enterGeneration event).taintedSessions _ _
    rw [show (s.enterGeneration event).taintedSessions = s.taintedSessions by rw [hframe]]
    by_cases hin : sameBaseScope k.scope event.scope = true
    · obtain ⟨hsession, hgen, -⟩ := sessionKey_of_baseScope (sameBaseScope_iff.1 hin)
      rw [if_pos hin]
      refine (hold.setStatus (hsession ▸ ht) ?_ (by simp)).record event fun ha => by cases ha
      rw [enterGeneration_get hg, if_pos hsession, hgen]
    · rw [if_neg hin]
      exact hold.record event fun _ _ hb => absurd (sameBaseScope_iff.2 hb.symm) hin
  | route ht hk hg hd hp hc =>
    rw [routeStep_frame.1, routeStep_frame.2.1]
    rw [show (s.enterGeneration event).taintedSessions = s.taintedSessions by
      rw [enterGeneration_frame]]
    exact entriesOk_route h ht hk hg hd hp

end Entries

/-- The rules for every entry, in the terms of the reducer's indexes. -/
structure RibSound (s : AdjRibIn) : Prop where
  current : ∀ k e, s.entries.get k = some e → ∀ i v, e.versions[i]? = some v →
    v.disposition = .current → i + 1 = e.versions.length
  active : ∀ k e, s.entries.get k = some e → e.status = .active →
    (∃ v, e.versions.getLast? = some v ∧ v.disposition = .current) ∧ k.pathId ≠ .unknown ∧
    supported k.route = true ∧ s.generations.get k.scope.sessionKey = some k.scope.generation ∧
    k.scope.sessionKey ∉ s.taintedSessions ∧ OnePeer s.events k.scope
  older : ∀ k e g, s.entries.get k = some e → s.generations.get k.scope.sessionKey = some g →
    k.scope.generation < g →
    e.status ≠ .active ∧ (∀ kind, e.status ≠ .stale kind) ∧ e.status ≠ .staleAtEor

theorem ribSound_of_entriesInv (h : EntriesInv s) : RibSound s where
  current := by
    intro k e he i v hv hd
    have hi : i < e.versions.length := (List.getElem?_eq_some_iff.1 hv).1
    by_contra hne
    have hdrop : e.versions.dropLast[i]? = some v := by
      rw [List.getElem?_dropLast, if_pos (by omega), hv]
    exact (h k e he).current v (List.mem_of_getElem? hdrop) hd
  active := by
    intro k e he ha
    obtain ⟨hlast, hpath, hsupported, -, hpeer⟩ := (h k e he).active ha
    obtain ⟨ht, hg⟩ := (h k e he).active_generation ha
    exact ⟨hlast, hpath, hsupported, hg, ht, hpeer⟩
  older := by
    intro k e g he hg hlt
    have hstatus : e.status = .unresolved ∨ e.status = .superseded := by
      by_cases ht : k.scope.sessionKey ∈ s.taintedSessions
      · exact .inl ((h k e he).quarantined ht)
      · obtain ⟨g', hg', -, hold⟩ := (h k e he).generation ht
        rw [hg] at hg'
        cases hg'
        exact .inr (hold hlt)
    rcases hstatus with hstatus | hstatus <;> simp [hstatus]

def plainEntry (e : RouteEntry) : RouteEntry :=
  { e with versions := e.versions.map fun v => { v with occurrences := [] } }

theorem map_modify_of_eq {α β : Type} {f : α → α} {g : α → β} (h : ∀ a, g (f a) = g a) (l : List α)
    (n : ℕ) : (l.modify n f).map g = l.map g := by
  apply List.ext_getElem?
  intro j
  simp only [List.getElem?_map, List.getElem?_modify]
  cases l[j]? with
  | none => rfl
  | some a =>
    simp only [Option.map_some]
    split_ifs <;> simp [h]

theorem replayStage_plain (j : ℕ) (digest : Digest) (bindings : List VersionBinding) (k : RouteKey) :
    ((s.replayStage j digest bindings).get k).map plainEntry =
      ((s.entries.restrict (bindings.map (·.key)).toFinset).get k).map plainEntry := by
  unfold replayStage
  generalize s.entries.restrict (bindings.map (·.key)).toFinset = start
  induction bindings generalizing start with
  | nil => rfl
  | cons b rest ih =>
    rw [List.foldl_cons, ih]
    cases hget : start.get b.key with
    | none => rfl
    | some e =>
      simp only [get_insert]
      split_ifs with hk
      · rw [hk, hget]
        simp only [Option.map_some, plainEntry, Option.some.injEq, RouteEntry.mk.injEq,
          and_true]
        refine map_modify_of_eq ?_ _ _
        intro v
        rfl
      · rfl

theorem replay_entries_plain (j : ℕ) (digest : Digest) (bindings : List VersionBinding)
    (k : RouteKey) :
    (((s.replayStage j digest bindings).overlay s.entries).get k).map plainEntry =
      (s.entries.get k).map plainEntry := by
  have hplain := replayStage_plain (s := s) j digest bindings k
  rw [get_restrict] at hplain
  rw [get_overlay]
  cases hstage : (s.replayStage j digest bindings).get k with
  | none => rfl
  | some e =>
    rw [hstage] at hplain
    rw [Option.some_or, hplain]
    split_ifs at hplain ⊢ with hin
    · rfl
    · cases hplain

theorem entryInv_plain {events : List RibEvent} {generations : FinMap SessionKey ℕ}
    {tainted : Finset SessionKey} {key : RouteKey} {a b : RouteEntry} (hab : plainEntry a = plainEntry b)
    (h : EntryInv events generations tainted key a) :
    EntryInv events generations tainted key b := by
  have hstatus : a.status = b.status := by
    have hs := congrArg RouteEntry.status hab
    exact hs
  have hversions : a.versions.map (fun v : RouteVersion => { v with occurrences := [] }) =
      b.versions.map fun v => { v with occurrences := [] } := congrArg RouteEntry.versions hab
  have hlast := congrArg List.getLast? hversions
  have hdrop := congrArg List.dropLast hversions
  rw [List.getLast?_map, List.getLast?_map] at hlast
  rw [← List.map_dropLast, ← List.map_dropLast] at hdrop
  exact {
    current := by
      intro v hv
      have hin : ({ v with occurrences := [] } : RouteVersion) ∈
          a.versions.dropLast.map fun v => { v with occurrences := [] } := by
        rw [hdrop]
        exact List.mem_map_of_mem hv
      obtain ⟨w, hw, heq⟩ := List.mem_map.1 hin
      have hd : w.disposition = v.disposition := by
        have hd := congrArg RouteVersion.disposition heq
        exact hd
      rw [← hd]
      exact h.current w hw
    quarantined := fun ht => hstatus ▸ h.quarantined ht
    generation := fun ht => hstatus ▸ h.generation ht
    active := by
      intro ha
      obtain ⟨⟨v, hv, hd⟩, hrest⟩ := h.active (hstatus.trans ha)
      rw [hv] at hlast
      cases hb : b.versions.getLast? with
      | none => simp [hb] at hlast
      | some w =>
        rw [hb] at hlast
        simp only [Option.map_some, Option.some.injEq] at hlast
        have heq : v.disposition = w.disposition := by
          have hd' := congrArg RouteVersion.disposition hlast
          exact hd'
        exact ⟨⟨w, rfl, heq ▸ hd⟩, hrest⟩ }

theorem entriesInv_prepared (hi : Indexed s) (h : EntriesInv s)
    (hplan : s.prepareInner check event origin = .ok plan) : EntriesInv (s.commit plan) := by
  cases prepares hi hplan with
  | inert _ =>
    rw [commit_inertReplay]
    exact h
  | @replay j _ digest bindings _ _ _ horigin =>
    rw [commit_originReplay horigin]
    intro k e he
    have hplain := replay_entries_plain (s := s) j digest bindings k
    rw [he] at hplain
    cases hold : s.entries.get k with
    | none => simp [hold] at hplain
    | some old =>
      rw [hold] at hplain
      exact entryInv_plain (Option.some.inj hplain).symm (h k old hold)
  | @fresh _ _ _ whole _ _ hfresh hdirect hc =>
    have hok := entriesOk_outcome h (outcome_of_direct hdirect)
    have hevents : whole.events = s.events := by rw [hc.frame]
    rw [commit_fresh hfresh hc]
    change EntriesOk (whole.events ++ [event]) whole.generations whole.taintedSessions whole.entries
    rw [hevents]
    exact hok

theorem entriesInv_reachable (hr : Reachable check s) : EntriesInv s := by
  refine reachable_induction hr (fun owner limits k e he => ?_) fun ht h hplan =>
    entriesInv_prepared (indexed_reachable ht) h hplan
  cases he

theorem generations_outcome (ho : Outcome s event origin status t) {session : SessionKey} {g : ℕ}
    (hg : s.generations.get session = some g) :
    ∃ g', t.generations.get session = some g' ∧ g ≤ g' := by
  have henter : s.AtCurrent event → ∃ g', (s.enterGeneration event).generations.get session =
      some g' ∧ g ≤ g' := by
    intro hat
    rw [enterGeneration_get hat]
    split_ifs with he
    · rw [AtCurrent, ← he, hg] at hat
      rcases hat with hat | hat
      · cases hat
      · cases hat
        exact ⟨_, rfl, le_rfl⟩
    · exact ⟨g, hg, le_rfl⟩
  cases ho with
  | tainted ht => exact ⟨g, hg, le_rfl⟩
  | conflict ht hc =>
    rw [conflictStep_frame.1]
    exact ⟨g, hg, le_rfl⟩
  | @reset ht previousGeneration reason hk hold hlt =>
    by_cases he : session = event.scope.sessionKey
    · rw [he, hold] at hg
      cases hg
      exact ⟨_, he ▸ get_insert_self _ _ _, hlt.le⟩
    · exact ⟨g, (get_insert_of_ne _ he _).trans hg, le_rfl⟩
  | historical ht hk hg' hlt => exact ⟨g, hg, le_rfl⟩
  | undirected ht hk hat hd hgap => exact henter hat
  | mismatch ht hk hat hd hp => exact henter hat
  | route ht hk hat hd hp hc =>
    rw [routeStep_frame.1]
    exact henter hat

/-- What an event leaves as it was in a session with a conflict. -/
structure TaintedStep (s t : AdjRibIn) : Prop where
  generations : t.generations = s.generations
  gaps : t.gaps = s.gaps
  eors : t.eors = s.eors
  rejections : t.rejections = s.rejections
  entries : ∀ k, (t.entries.get k).map plainEntry = (s.entries.get k).map plainEntry

/-- Every reachable state keeps the rules for entries, no event takes a generation back, and in a
session with a conflict no event changes a route. -/
theorem rib_rules (hr : Reachable check s) :
    RibSound s ∧ ∀ event origin plan, s.prepareInner check event origin = .ok plan →
      (∀ session g, s.generations.get session = some g →
        ∃ g', (s.commit plan).generations.get session = some g' ∧ g ≤ g') ∧
      (event.scope.sessionKey ∈ s.taintedSessions → TaintedStep s (s.commit plan) ∧
        (event ∉ s.events ∨ origin = none → (s.commit plan).entries = s.entries)) := by
  refine ⟨ribSound_of_entriesInv (entriesInv_reachable hr), fun event origin plan hplan => ?_⟩
  have hi := indexed_reachable hr
  cases prepares hi hplan with
  | inert _ =>
    rw [commit_inertReplay]
    exact ⟨fun session g hg => ⟨g, hg, le_rfl⟩,
      fun _ => ⟨⟨rfl, rfl, rfl, rfl, fun _ => rfl⟩, fun _ => rfl⟩⟩
  | @replay j _ digest bindings _ hj _ horigin =>
    rw [commit_originReplay horigin]
    refine ⟨fun session g hg => ⟨g, hg, le_rfl⟩, fun _ => ⟨⟨rfl, rfl, rfl, rfl, fun k => ?_⟩, ?_⟩⟩
    · exact replay_entries_plain j digest bindings k
    · rintro (hout | hnone)
      · exact absurd (List.mem_of_getElem? hj) hout
      · cases hnone
  | @fresh _ _ _ whole _ _ hfresh hdirect hc =>
    have houtcome := outcome_of_direct hdirect
    rw [commit_fresh hfresh hc]
    refine ⟨fun session g hg => generations_outcome houtcome hg, fun ht => ?_⟩
    have hsame : whole = s := by
      generalize plan.status = status at houtcome
      cases houtcome with
      | tainted _ => rfl
      | conflict hout _ => exact absurd ht hout
      | reset hout _ _ _ => exact absurd ht hout
      | historical hout _ _ _ => exact absurd ht hout
      | undirected hout _ _ _ _ => exact absurd ht hout
      | mismatch hout _ _ _ _ => exact absurd ht hout
      | route hout _ _ _ _ _ => exact absurd ht hout
    rw [hsame]
    exact ⟨⟨rfl, rfl, rfl, rfl, fun _ => rfl⟩, fun _ => rfl⟩

def sampleRoute : PrefixIdentity := ⟨1, 1, 8, "10.0.0.0"⟩

def sampleAnnounce (recordId attributeIdentity : String) : RibEvent :=
  ⟨sampleScope "session" (some 0), recordId, .update [.announce sampleRoute .absent .null
    attributeIdentity]⟩

theorem rib_rules_sampleAnnounce :
    ∃ plans s, (initial 0 .default).commitAll anyEvent [(sampleAnnounce "record" "a", none)] =
      .ok (plans, s) ∧ RibSound s := by
  have hok : ((initial 0 .default).commitAll anyEvent
      [(sampleAnnounce "record" "a", none)]).isOk = true := by decide +kernel
  cases hs : (initial 0 .default).commitAll anyEvent [(sampleAnnounce "record" "a", none)] with
  | error e =>
    rw [hs] at hok
    cases hok
  | ok r => exact ⟨r.1, r.2, rfl, (rib_rules (reachable_commitAll (by decide) hs)).1⟩

def sampleConflict : List (RibEvent × Option Digest) :=
  [(sampleAnnounce "record" "a", none), (sampleAnnounce "record" "b", none)]

def sampleDigest : Digest := Vector.replicate 32 0

/-- In a session with a conflict, the replay of its first event with an origin changes an entry. -/
theorem tainted_entry_changes :
    ¬∀ (check : RibEvent → Limits → Result Unit) (s : AdjRibIn) (event : RibEvent)
      (origin : Option Digest) (plan : PreparedRibEvent), Reachable check s →
      s.prepareInner check event origin = .ok plan →
      event.scope.sessionKey ∈ s.taintedSessions →
      ∀ k, (s.commit plan).entries.get k = s.entries.get k := by
  intro hall
  have hrun : ((initial 0 .default).commitAll anyEvent sampleConflict).toOption.any (fun r =>
      decide ((sampleAnnounce "record" "a").scope.sessionKey ∈ r.2.taintedSessions) &&
      (r.2.prepareInner anyEvent (sampleAnnounce "record" "a") (some sampleDigest)).toOption.any
        fun plan => decide ((r.2.commit plan).entries.get
            (routeKey (sampleScope "session" (some 0)) sampleRoute .absent) ≠
          r.2.entries.get (routeKey (sampleScope "session" (some 0)) sampleRoute .absent))) =
      true := by
    decide +kernel
  cases hs : (initial 0 .default).commitAll anyEvent sampleConflict with
  | error e => simp [hs, Except.toOption] at hrun
  | ok r =>
    obtain ⟨plans, s⟩ := r
    simp only [hs, Except.toOption, Option.any_some, Bool.and_eq_true, decide_eq_true_eq] at hrun
    cases hplan : s.prepareInner anyEvent (sampleAnnounce "record" "a") (some sampleDigest) with
    | error e => simp [hplan] at hrun
    | ok plan =>
      simp only [hplan, Option.any_some, decide_eq_true_eq] at hrun
      exact hrun.2 (hall anyEvent s _ _ plan (reachable_commitAll (by decide) hs) hplan hrun.1 _)

end PcapEvidence.Bgp.AdjRibIn
