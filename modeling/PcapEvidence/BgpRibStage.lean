import PcapEvidence.BgpRib

/-!
# The staged transaction refines direct application

A stage holds the selected entries, the generation of one session and the bindings of one event.
Every operation of the reducer keeps it a copy of the whole state there, as long as the operation
does not touch an entry outside the selection.
-/

namespace PcapEvidence.Bgp.AdjRibIn

open FiniteMap FinMap History

variable {s stage whole : AdjRibIn} {session : SessionKey} {selected : Finset RouteKey} {i : ℕ}

structure Copies (s : AdjRibIn) (session : SessionKey) (selected : Finset RouteKey) (i : ℕ)
    (stage whole : AdjRibIn) : Prop where
  entries : Staged stage.entries whole.entries s.entries selected
  generations : Staged stage.generations whole.generations s.generations {session}
  bindings : Staged stage.versionBindings whole.versionBindings s.versionBindings {i}
  tainted : whole.taintedSessions = s.taintedSessions ∪ stage.taintedSessions
  taintedSession : session ∈ stage.taintedSessions ↔ session ∈ whole.taintedSessions
  taintedOnly : stage.taintedSessions ⊆ {session}
  gaps : whole.gaps = s.gaps ++ stage.gaps
  eors : whole.eors = s.eors ++ stage.eors
  rejections : whole.rejections = s.rejections ++ stage.rejections
  origins : whole.originIndex = s.originIndex ∪ stage.originIndex
  originsOnly : ∀ x ∈ stage.originIndex, x.1 = i
  elements : whole.originElements = s.originElements + stage.originElements
  work : stage.work = s.work
  frame : whole = { s with
    entries := whole.entries
    generations := whole.generations
    versionBindings := whole.versionBindings
    taintedSessions := whole.taintedSessions
    gaps := whole.gaps
    eors := whole.eors
    rejections := whole.rejections
    originIndex := whole.originIndex
    originElements := whole.originElements }

namespace Copies

variable {event : RibEvent}

theorem start (hnew : s.versionBindings.get i = none) :
    Copies s session selected i (s.stageOf session selected) s where
  entries := .restrict _ _
  generations := .restrict _ _
  bindings := .empty fun k hk => by rw [Finset.mem_singleton.1 hk, hnew]
  tainted := by
    by_cases ht : session ∈ s.taintedSessions <;> simp [stageOf, ht]
  taintedSession := by
    by_cases ht : session ∈ s.taintedSessions <;> simp [stageOf, ht]
  taintedOnly := by
    by_cases ht : session ∈ s.taintedSessions <;> simp [stageOf, ht]
  gaps := (List.append_nil _).symm
  eors := (List.append_nil _).symm
  rejections := (List.append_nil _).symm
  origins := (Finset.union_empty _).symm
  originsOnly := by simp [stageOf]
  elements := rfl
  work := rfl
  frame := rfl

section Operations

variable {key : RouteKey}
variable (h : Copies s session selected i stage whole)
include h

theorem updateEntries {p : RouteKey → Bool} {f : RouteEntry → RouteEntry}
    (hf : ∀ k ∉ selected, ∀ e, s.entries.get k = some e → p k = true → f e = e) :
    Copies s session selected i (stage.updateEntries p f) (whole.updateEntries p f) :=
  { h with
    entries := by
      refine h.entries.mapVal fun k hk e he => ?_
      split_ifs with hp
      · exact hf k hk e he hp
      · rfl
    frame := congrArg (AdjRibIn.updateEntries p f) h.frame }

theorem insertEntry (hk : key ∈ selected) (entry : RouteEntry) :
    Copies s session selected i { stage with entries := stage.entries.insert key entry }
      { whole with entries := whole.entries.insert key entry } :=
  { h with
    entries := h.entries.insert hk entry
    frame := congrArg (fun w : AdjRibIn => { w with entries := w.entries.insert key entry }) h.frame }

theorem bind (hk : key ∈ selected) (entry : RouteEntry) (routeIndex : ℕ) (origin : Option Digest) :
    Copies s session selected i (stage.bind i routeIndex origin key entry)
      (whole.bind i routeIndex origin key entry) :=
  { h with
    entries := h.entries.insert hk entry
    bindings := by
      have hi : stage.versionBindings.get i = whole.versionBindings.get i :=
        h.bindings.inside i (Finset.mem_singleton_self i)
      simp only [AdjRibIn.bind, hi]
      exact h.bindings.insert (Finset.mem_singleton_self i) _
    elements := by
      simp only [AdjRibIn.bind, h.elements]
      omega
    frame := congrArg (AdjRibIn.bind i routeIndex origin key entry) h.frame }

theorem reject (record : RejectedRecord) :
    Copies s session selected i { stage with rejections := stage.rejections ++ [record] }
      { whole with rejections := whole.rejections ++ [record] } :=
  { h with
    rejections := by
      simp only [h.rejections, List.append_assoc]
    frame := congrArg (fun w : AdjRibIn => { w with rejections := w.rejections ++ [record] }) h.frame }

theorem pushGap (event : RibEvent) :
    Copies s session selected i (stage.pushGap event) (whole.pushGap event) :=
  { h with
    gaps := by
      simp only [AdjRibIn.pushGap, h.gaps, List.append_assoc]
    frame := congrArg (AdjRibIn.pushGap event) h.frame }

theorem pushEor (marker : FamilyMarker) :
    Copies s session selected i (stage.pushEor marker) (whole.pushEor marker) :=
  { h with
    eors := by
      simp only [AdjRibIn.pushEor, h.eors, List.append_assoc]
    frame := congrArg (AdjRibIn.pushEor marker) h.frame }

theorem taint :
    Copies s session selected i
      { stage with taintedSessions := insert session stage.taintedSessions }
      { whole with taintedSessions := insert session whole.taintedSessions } :=
  { h with
    tainted := by
      simp only [h.tainted, Finset.union_insert]
    taintedSession := by simp
    taintedOnly := Finset.insert_subset (Finset.mem_singleton_self session) h.taintedOnly
    frame := congrArg (fun w : AdjRibIn =>
      { w with taintedSessions := insert session w.taintedSessions }) h.frame }

theorem setGeneration (generation : ℕ) :
    Copies s session selected i
      { stage with generations := stage.generations.insert session generation }
      { whole with generations := whole.generations.insert session generation } :=
  { h with
    generations := h.generations.insert (Finset.mem_singleton_self session) generation
    frame := congrArg (fun w : AdjRibIn =>
      { w with generations := w.generations.insert session generation }) h.frame }

theorem finishOrigin (origin : Option Digest) :
    Copies s session selected i (stage.finishOrigin i origin) (whole.finishOrigin i origin) := by
  have hi : stage.versionBindings.get i = whole.versionBindings.get i :=
    h.bindings.inside i (Finset.mem_singleton_self i)
  cases origin with
  | none => exact h
  | some digest =>
    simp only [AdjRibIn.finishOrigin, hi]
    split_ifs
    · exact { h with
        origins := by
          simp only [h.origins, Finset.union_insert]
        originsOnly := by
          intro x hx
          rcases Finset.mem_insert.1 hx with rfl | hx
          · rfl
          · exact h.originsOnly x hx
        elements := by
          simp only [h.elements, Nat.add_assoc]
        frame := congrArg (fun w : AdjRibIn => { w with
          originIndex := insert (i, digest) w.originIndex
          originElements := w.originElements + 1 }) h.frame }
    · exact h

theorem lookup (hk : key ∈ selected) :
    stage.entries.get key = whole.entries.get key := h.entries.inside key hk

theorem applyConflict (event : RibEvent) (origin : Option Digest) (x : RibAction × ℕ)
    (hk : ∀ key, actionKey event.scope true x.1 = some key → key ∈ selected) :
    Copies s session selected i (AdjRibIn.applyConflict event i origin stage x)
      (AdjRibIn.applyConflict event i origin whole x) := by
  obtain ⟨action, index⟩ := x
  cases action with
  | announce route pathId attributes attributeIdentity =>
    have hkey : routeKey event.scope route pathId ∈ selected := hk _ rfl
    simp only [AdjRibIn.applyConflict, h.lookup hkey]
    split_ifs
    · exact h.bind hkey _ _ _
    · exact h
  | withdraw route pathId => exact h
  | reject route pathId reason => exact h

theorem applyAction (event : RibEvent) (gap : Bool) (origin : Option Digest) (x : RibAction × ℕ)
    (hk : ∀ key, actionKey event.scope false x.1 = some key → key ∈ selected) :
    Copies s session selected i (AdjRibIn.applyAction event gap i origin stage x)
      (AdjRibIn.applyAction event gap i origin whole x) := by
  obtain ⟨action, index⟩ := x
  cases action with
  | announce route pathId attributes attributeIdentity =>
    have hkey : routeKey event.scope route pathId ∈ selected := hk _ rfl
    simp only [AdjRibIn.applyAction, h.lookup hkey]
    exact h.bind hkey _ _ _
  | withdraw route pathId =>
    have hkey : routeKey event.scope route pathId ∈ selected := hk _ rfl
    simp only [AdjRibIn.applyAction, h.lookup hkey]
    exact h.insertEntry hkey _
  | reject route pathId reason => exact h.reject _

end Operations

theorem foldl {α : Type} {f : AdjRibIn → α → AdjRibIn} (l : List α)
    (hstep : ∀ x ∈ l, ∀ stage whole, Copies s session selected i stage whole →
      Copies s session selected i (f stage x) (f whole x))
    (h : Copies s session selected i stage whole) :
    Copies s session selected i (l.foldl f stage) (l.foldl f whole) := by
  induction l generalizing stage whole with
  | nil => exact h
  | cons x rest ih =>
    rw [List.foldl_cons, List.foldl_cons]
    exact ih (fun y hy => hstep y (List.mem_cons_of_mem x hy)) (hstep x List.mem_cons_self _ _ h)
variable (h : Copies s event.scope.sessionKey selected i stage whole)
include h

theorem conflictStep {origin : Option Digest}
    (hwide : ∀ k ∉ selected, ∀ e, s.entries.get k = some e →
      sameSession k.scope event.scope.sessionKey = false)
    (hkeys : ∀ a ∈ updateActions event.kind, ∀ key, actionKey event.scope true a = some key →
      key ∈ selected) :
    Copies s event.scope.sessionKey selected i (stage.conflictStep event i origin)
      (whole.conflictStep event i origin) := by
  have hquarantine := h.updateEntries (p := fun k => sameSession k.scope event.scope.sessionKey)
    (f := fun e => { setDisposition (fun _ => true) .conflicting e with status := .unresolved })
    fun k hk e he hp => absurd hp (by simp [hwide k hk e he])
  have hactions := Copies.foldl (f := AdjRibIn.applyConflict event i origin)
    (updateActions event.kind).zipIdx (fun x hx _ _ hc =>
      hc.applyConflict event origin x (hkeys x.1 (List.fst_mem_of_mem_zipIdx hx))) hquarantine.taint
  exact (hactions.finishOrigin origin).pushGap event

theorem resetStep {previousGeneration : ℕ}
    (hwide : ∀ k ∉ selected, ∀ e, s.entries.get k = some e →
      (sameSession k.scope event.scope.sessionKey &&
        decide (k.scope.generation = previousGeneration)) = false) :
    Copies s event.scope.sessionKey selected i (stage.resetStep event previousGeneration)
      (whole.resetStep event previousGeneration) := by
  have hentries := h.updateEntries (p := fun k => sameSession k.scope event.scope.sessionKey &&
      decide (k.scope.generation = previousGeneration))
    (f := fun e => { setDisposition (· = .current) .superseded e with status := .superseded })
    fun k hk e he hp => absurd hp (by rw [hwide k hk e he]; simp)
  exact hentries.setGeneration event.scope.generation

theorem enterGeneration :
    Copies s event.scope.sessionKey selected i (stage.enterGeneration event)
      (whole.enterGeneration event) := by
  have hgen : stage.generations.get event.scope.sessionKey =
      whole.generations.get event.scope.sessionKey :=
    h.generations.inside _ (Finset.mem_singleton_self _)
  simp only [AdjRibIn.enterGeneration, hgen]
  split
  · exact h
  · exact h.setGeneration _

omit h

theorem quarantineScope (h : Copies s session selected i stage whole) {scope : RibScope}
    (hwide : ∀ k ∉ selected, ∀ e, s.entries.get k = some e → sameBaseScope k.scope scope = false) :
    Copies s session selected i (stage.quarantineScope scope) (whole.quarantineScope scope) :=
  h.updateEntries fun k hk e he hp => absurd hp (by simp [hwide k hk e he])

end Copies

section Selection

variable {event : RibEvent} {conflict historical peerMismatch : Bool}

theorem not_affected (hw : wide event conflict historical peerMismatch = true) {k : RouteKey}
    (hk : k ∉ s.selectedKeys event false conflict historical peerMismatch) {e : RouteEntry}
    (he : s.entries.get k = some e) : s.affected event conflict peerMismatch k = false := by
  have hin : k ∈ s.entries.keys := by rw [s.entries.mem_keys, he]; rfl
  simp only [selectedKeys, hw, Finset.mem_union, not_or, if_true, Finset.mem_filter, hin,
    true_and, Bool.false_eq_true, if_false, Bool.not_eq_true] at hk
  exact hk.1

theorem actionKey_selected {action : RibAction} {key : RouteKey}
    (hr : (conflict || (!historical && event.scope.direction.isSome && !peerMismatch)) = true)
    (ha : action ∈ updateActions event.kind) (hk : actionKey event.scope conflict action = some key) :
    key ∈ s.selectedKeys event false conflict historical peerMismatch := by
  simp only [selectedKeys, hr, Bool.false_eq_true, if_false, if_true, Finset.mem_union,
    List.mem_toFinset, List.mem_filterMap]
  exact .inr ⟨action, ha, hk⟩

end Selection

section Refinement

variable {peerMismatch : Bool}
variable {event : RibEvent}

theorem routeStep_copies (gap : Bool) (origin : Option Digest)
    (hdir : event.scope.direction.isSome ∨ RibEventKind.isGap event.kind = true)
    (hpeer : ¬(isRouteScoped event.kind ∧ peerMismatch))
    (h : Copies s event.scope.sessionKey (s.selectedKeys event false false false peerMismatch) i
      stage whole) :
    Copies s event.scope.sessionKey (s.selectedKeys event false false false peerMismatch) i
      (stage.routeStep event gap i origin) (whole.routeStep event gap i origin) := by
  have haffected : ∀ k ∉ s.selectedKeys event false false false peerMismatch, ∀ e,
      s.entries.get k = some e → wide event false false peerMismatch = true →
      s.affected event false peerMismatch k = false :=
    fun k hk e he hw => not_affected hw hk he
  unfold AdjRibIn.routeStep
  cases hkind : event.kind with
  | update actions =>
    have hmatch : peerMismatch = false := by simpa [hkind, isRouteScoped] using hpeer
    have hsome : event.scope.direction.isSome = true := by
      simpa [hkind, RibEventKind.isGap] using hdir
    refine (Copies.foldl _ (fun x hx _ _ hc => hc.applyAction event gap origin x ?_)
      h).finishOrigin origin
    intro key hk
    refine actionKey_selected (by simp [hmatch, hsome]) (?_ : x.1 ∈ _) hk
    rw [hkind]
    exact List.fst_mem_of_mem_zipIdx hx
  | endOfRib family =>
    have hmatch : peerMismatch = false := by simpa [hkind, isRouteScoped] using hpeer
    refine (h.pushEor _).updateEntries fun k hk e he hp => ?_
    have hout := haffected k hk e he (by simp [wide, hkind])
    cases hstatus : e.status <;> simp_all [affected, isRouteScoped]
  | stale family kind =>
    have hmatch : peerMismatch = false := by simpa [hkind, isRouteScoped] using hpeer
    refine h.updateEntries fun k hk e he hp => ?_
    have hout := haffected k hk e he (by simp [wide, hkind])
    have hactive : e.status ≠ .active := by
      intro hstatus
      simp [affected, isRouteScoped, hkind, hmatch, hp, he, hstatus] at hout
    exact if_neg hactive
  | gap reason =>
    refine (h.pushGap event).updateEntries fun k hk e he hp => ?_
    have hout := haffected k hk e he (by simp [wide, hkind])
    simp only [affected, isRouteScoped, hkind, Bool.and_false, Bool.false_eq_true, if_false] at hout
    rw [hout] at hp
    exact absurd hp (by simp)
  | reset previousGeneration reason => exact h

/-- Two runs that fail alike or keep the copy with one status. -/
def CopyResult (s : AdjRibIn) (session : SessionKey) (selected : Finset RouteKey) (i : ℕ)
    (staged direct : Result (ApplyStatus × AdjRibIn)) : Prop :=
  (∃ e, staged = .error e ∧ direct = .error e) ∨
    ∃ status stage whole, staged = .ok (status, stage) ∧ direct = .ok (status, whole) ∧
      Copies s session selected i stage whole

theorem applyCurrent_copies (gap : Bool) (origin : Option Digest)
    (h : Copies s event.scope.sessionKey (s.selectedKeys event false false
        ((s.generations.get event.scope.sessionKey).any fun g => event.scope.generation < g)
        peerMismatch) i stage s) :
    CopyResult s event.scope.sessionKey (s.selectedKeys event false false
        ((s.generations.get event.scope.sessionKey).any fun g => event.scope.generation < g)
        peerMismatch) i (stage.applyCurrent event gap peerMismatch i origin)
      (s.applyCurrent event gap peerMismatch i origin) := by
  have hgen : stage.generations.get event.scope.sessionKey =
      s.generations.get event.scope.sessionKey :=
    h.generations.inside _ (Finset.mem_singleton_self _)
  unfold AdjRibIn.applyCurrent
  simp only [hgen]
  by_cases hold : ((s.generations.get event.scope.sessionKey).any fun g =>
      decide (event.scope.generation < g)) = true
  · exact .inr ⟨_, _, _, if_pos hold, if_pos hold, h⟩
  rw [Bool.not_eq_true] at hold
  simp only [hold, Bool.false_eq_true, if_false] at h ⊢
  cases hvalid : validateGeneration event (s.generations.get event.scope.sessionKey) with
  | error e => exact .inl ⟨e, rfl, rfl⟩
  | ok u =>
    change CopyResult _ _ _ _ (if _ then _ else _) (if _ then _ else _)
    have henter := h.enterGeneration
    by_cases hdir : event.scope.direction = none ∧ RibEventKind.isGap event.kind = false
    · exact .inr ⟨_, _, _, if_pos hdir, if_pos hdir, henter⟩
    rw [if_neg hdir, if_neg hdir]
    by_cases hpeer : isRouteScoped event.kind ∧ peerMismatch
    · refine .inr ⟨_, _, _, if_pos hpeer, if_pos hpeer, (henter.quarantineScope ?_).pushGap event⟩
      intro k hk e he
      have hwide : wide event false false peerMismatch = true := by
        cases hkind : event.kind <;> simp_all [wide, isRouteScoped]
      have hout := not_affected hwide hk he
      cases hkind : event.kind <;> simp_all [affected, isRouteScoped]
    · refine .inr ⟨_, _, _, if_neg hpeer, if_neg hpeer, routeStep_copies gap origin ?_ hpeer henter⟩
      cases hd : event.scope.direction <;> simp_all

theorem applyInner_copies {conflict : Bool} (gap : Bool) (origin : Option Digest)
    (h : Copies s event.scope.sessionKey (s.selectedKeys event
        (decide (event.scope.sessionKey ∈ s.taintedSessions)) conflict
        ((s.generations.get event.scope.sessionKey).any fun g => event.scope.generation < g)
        peerMismatch) i stage s) :
    CopyResult s event.scope.sessionKey (s.selectedKeys event
        (decide (event.scope.sessionKey ∈ s.taintedSessions)) conflict
        ((s.generations.get event.scope.sessionKey).any fun g => event.scope.generation < g)
        peerMismatch) i (stage.applyInner event conflict gap peerMismatch i origin)
      (s.applyInner event conflict gap peerMismatch i origin) := by
  have hgen : stage.generations.get event.scope.sessionKey =
      s.generations.get event.scope.sessionKey :=
    h.generations.inside _ (Finset.mem_singleton_self _)
  have htaint := h.taintedSession
  unfold AdjRibIn.applyInner
  simp only [htaint, hgen]
  by_cases ht : event.scope.sessionKey ∈ s.taintedSessions
  · exact .inr ⟨_, _, _, if_pos ht, if_pos ht, h⟩
  simp only [ht, if_false, decide_false] at h ⊢
  cases conflict with
  | true =>
    refine .inr ⟨_, _, _, if_pos rfl, if_pos rfl, h.conflictStep ?_ ?_⟩
    · intro k hk e he
      simpa [affected] using not_affected (by simp [wide]) hk he
    · exact fun a ha key hk => actionKey_selected (by simp) ha hk
  | false =>
    simp only [Bool.false_eq_true, if_false]
    cases hkind : event.kind with
    | reset previousGeneration reason =>
      cases hvalid : validateGeneration event (s.generations.get event.scope.sessionKey) with
      | error e => exact .inl ⟨e, rfl, rfl⟩
      | ok u =>
        refine .inr ⟨_, _, _, rfl, rfl, h.resetStep ?_⟩
        intro k hk e he
        have hout := not_affected (by simp [wide, hkind]) hk he
        simpa only [affected, hkind, Bool.false_eq_true, if_false] using hout
    | update actions => exact applyCurrent_copies gap origin h
    | endOfRib family => exact applyCurrent_copies gap origin h
    | stale family kind => exact applyCurrent_copies gap origin h
    | gap reason => exact applyCurrent_copies gap origin h

end Refinement

end PcapEvidence.Bgp.AdjRibIn
