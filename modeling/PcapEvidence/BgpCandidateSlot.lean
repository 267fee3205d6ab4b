import PcapEvidence.BgpCandidate

/-!
# One route of a reduction

The reduction is followed for one route key at a time: the view of its session and its candidate
change with the rows of that session only.
-/

namespace PcapEvidence.Candidate

open FiniteMap History Bgp

theorem foldlM_follows {ε α σ τ : Type} {f : σ → α → Except ε σ} (view : σ → τ) (h : τ → α → τ)
    (hstep : ∀ s a s', f s a = .ok s' → view s' = h (view s) a) :
    ∀ (l : List α) (s s' : σ), l.foldlM f s = .ok s' → view s' = l.foldl h (view s) := by
  intro l
  induction l with
  | nil =>
    rintro s s' hs
    obtain rfl := Except.ok.inj hs
    rfl
  | cons a l ih =>
    intro s s' hs
    rw [List.foldlM_cons] at hs
    cases hfirst : f s a with
    | error e =>
      rw [hfirst] at hs
      cases hs
    | ok t =>
      rw [hfirst] at hs
      rw [ih t s' hs, List.foldl_cons, hstep s a t hfirst]

def conflictsOf (observations : List Observation) : Conflicts :=
  observations.zipIdx.foldl Conflicts.add .initial

def rowView (c : Conflicts) (v : View) (x : Observation × ℕ) : View :=
  match x.1.sessionKey, x.1.source.generation with
  | some key, some generation => (v.scopedRow c key generation x).1
  | _, _ => v.unscopedRow c x

def viewOf (observations : List Observation) : View :=
  observations.zipIdx.foldl (rowView (conflictsOf observations)) .initial

theorem scan_ok {observations : List Observation} {w w' : Work} {c : Conflicts}
    (h : scan observations w = .ok (c, w')) : c = conflictsOf observations := by
  refine foldlM_follows Prod.fst Conflicts.add ?_ _ _ _ h
  intro s x s' hs
  cases hcharge : s.2.charge x.1.encoded.utf8ByteSize with
  | error e => simp [hcharge, bind, Except.bind] at hs
  | ok w =>
    simp only [hcharge, bind, Except.bind, pure, Except.pure, Except.ok.injEq] at hs
    rw [← hs]

theorem reduceRow_ok {limits : Bgp.Limits} {c : Conflicts} {s s' : View × Work}
    {x : Observation × ℕ} (h : reduceRow limits c s x = .ok s') : s'.1 = rowView c s.1 x := by
  rw [reduceRow] at h
  rw [rowView]
  cases hcharge : s.2.charge 1 with
  | error e => simp [hcharge, bind, Except.bind] at h
  | ok w =>
    simp only [hcharge, bind, Except.bind, pure, Except.pure] at h
    revert h
    cases x.1.sessionKey with
    | none =>
      intro h
      exact congrArg Prod.fst (Except.ok.inj h).symm
    | some key =>
      cases x.1.source.generation with
      | none =>
        intro h
        exact congrArg Prod.fst (Except.ok.inj h).symm
      | some generation =>
        intro h
        simp only at h ⊢
        split at h
        · cases h
        · split at h
          · cases h
          · exact congrArg Prod.fst (Except.ok.inj h).symm

theorem reduce_ok {observations : List Observation} {limits : Bgp.Limits} {w w' : Work} {v : View}
    (h : reduce observations limits w = .ok (v, w')) : v = viewOf observations := by
  rw [reduce] at h
  cases hscan : scan observations w with
  | error e => simp [hscan, bind, Except.bind] at h
  | ok s =>
    simp only [hscan, bind, Except.bind] at h
    have hview := foldlM_follows Prod.fst (rowView s.1) (fun _ _ _ => reduceRow_ok) _ _ _ h
    rw [scan_ok hscan] at hview
    exact hview

section Groups

variable {o : Observation} {index generation : ℕ} {session : SessionKey} {direction : U8}

theorem mem_groupKeys {k : GroupKey} : k ∈ groupKeys o ↔ members o k ≠ [] := by
  rw [groupKeys, (List.mergeSort_perm _ _).mem_iff, List.mem_dedup, List.mem_map]
  constructor
  · rintro ⟨r, hr, rfl⟩ hnone
    obtain ⟨i, hi⟩ := List.mem_iff_getElem?.1 hr
    have hmem : (r, i) ∈ members o r.groupKey :=
      List.mem_filter.2 ⟨List.mk_mem_zipIdx_iff_getElem?.2 hi, by simp⟩
    rw [hnone] at hmem
    cases hmem
  · intro hsome
    obtain ⟨x, hx⟩ := List.exists_mem_of_ne_nil _ hsome
    obtain ⟨hmem, hk⟩ := List.mem_filter.1 hx
    exact ⟨x.1, List.fst_mem_of_mem_zipIdx hmem, by simpa using hk⟩

theorem groupKeys_nodup (o : Observation) : (groupKeys o).Nodup :=
  (List.mergeSort_perm _ _).nodup_iff.2 (List.nodup_dedup _)

def groupResult (o : Observation) (index : ℕ) (key : RouteKey) (generation : ℕ)
    (candidate : Option CandidateRoute) : Option CandidateRoute :=
  if !supported key.route then candidate
  else if !announces o (key.route, key.pathId) then none
  else
    let entry := candidate.getD (newCandidate key generation)
    some { entry with
      alternatives := (addMembers index (members o (key.route, key.pathId)) entry.alternatives).1 }

theorem applyGroup_get (routes : FinMap RouteKey CandidateRoute) (key rk : RouteKey) :
    (applyGroup o index key generation routes).1.get rk =
      if rk = key then groupResult o index key generation (routes.get key) else routes.get rk := by
  simp only [applyGroup, groupResult]
  split
  · split
    next h => rw [h]
    · rfl
  split
  · rw [FinMap.get_retain]
    by_cases h : rk = key <;> simp [h]
  · rw [FinMap.get_insert]

theorem applyGroups_fold_get (ks : List GroupKey) (hks : ks.Nodup) (s : Applied) (rk : RouteKey) :
    (ks.foldl (fun s k =>
      let result := applyGroup o index ⟨session, direction, k.1, k.2⟩ generation s.routes
      (⟨result.1, s.effects ++ [⟨k.1, k.2, result.2.1, (members o k).map Prod.snd⟩],
        s.cost + result.2.2⟩ : Applied)) s).routes.get rk =
      if rk.session = session ∧ rk.direction = direction ∧ (rk.route, rk.pathId) ∈ ks then
        groupResult o index rk generation (s.routes.get rk) else s.routes.get rk := by
  induction ks generalizing s with
  | nil => simp
  | cons k ks ih =>
    obtain ⟨hk, hks⟩ := List.nodup_cons.1 hks
    rw [List.foldl_cons, ih hks]
    simp only [applyGroup_get]
    by_cases hrk : rk = ⟨session, direction, k.1, k.2⟩
    · subst hrk
      simp [hk]
    · have hne : ¬(rk.session = session ∧ rk.direction = direction ∧ (rk.route, rk.pathId) = k) := by
        rintro ⟨rfl, rfl, rfl⟩
        exact hrk rfl
      simp only [if_neg hrk, List.mem_cons]
      refine if_congr ?_ rfl rfl
      tauto

theorem applyGroups_get (routes : FinMap RouteKey CandidateRoute) (rk : RouteKey) :
    (applyGroups o index session direction generation routes).routes.get rk =
      if rk.session = session ∧ rk.direction = direction ∧ members o (rk.route, rk.pathId) ≠ [] then
        groupResult o index rk generation (routes.get rk) else routes.get rk := by
  rw [applyGroups, applyGroups_fold_get _ (groupKeys_nodup o)]
  simp only [mem_groupKeys]

end Groups

section Slots

def Announces (rk : RouteKey) (o : Observation) : Prop :=
  o.source.direction = some rk.direction ∧ announces o (rk.route, rk.pathId) = true

def WithdrawsOnly (rk : RouteKey) (o : Observation) : Prop :=
  o.source.direction = some rk.direction ∧ members o (rk.route, rk.pathId) ≠ [] ∧
    announces o (rk.route, rk.pathId) = false

instance (rk : RouteKey) (o : Observation) : Decidable (Announces rk o) :=
  inferInstanceAs (Decidable (_ ∧ _))

instance (rk : RouteKey) (o : Observation) : Decidable (WithdrawsOnly rk o) :=
  inferInstanceAs (Decidable (_ ∧ _))

/-- A session, one of its candidates, and the rows of the current generation that it rests on. -/
structure Slot where
  session : Option SessionView
  candidate : Option CandidateRoute
  applied : List (Observation × ℕ)
  current : List (Observation × ℕ)

namespace Slot

def initial : Slot := ⟨none, none, [], []⟩

def advance (s : Slot) (generation : ℕ) (x : Observation × ℕ) : Slot :=
  if s.session.all (·.generation < generation) then
    ⟨some (sessionView x.1 generation x.2), none, [], []⟩
  else s

def nextCurrent (rk : RouteKey) (current : List (Observation × ℕ)) (x : Observation × ℕ) :
    List (Observation × ℕ) :=
  if Announces rk x.1 then current ++ [x] else if WithdrawsOnly rk x.1 then [] else current

def applyRow (s : Slot) (rk : RouteKey) (generation : ℕ) (x : Observation × ℕ) : Slot where
  session := s.session
  candidate :=
    if rk.direction = x.1.source.direction.getD 0 ∧ members x.1 (rk.route, rk.pathId) ≠ [] then
      groupResult x.1 x.2 rk generation s.candidate
    else s.candidate
  applied := s.applied ++ [x]
  current := nextCurrent rk s.current x

def take (s : Slot) (rk : RouteKey) (session : SessionView) (generation : ℕ)
    (x : Observation × ℕ) : Slot :=
  if session.closed then s
  else match x.1.kind with
    | .notification => ⟨some { session with closed := true }, none, s.applied, []⟩
    | .routes => s.applyRow rk generation x
    | _ => s

def scopedRow (s : Slot) (tainted : Bool) (rk : RouteKey) (generation : ℕ) (x : Observation × ℕ) :
    Slot :=
  if tainted then { s with
    session := some { s.session.getD (sessionView x.1 generation x.2) with identityConflict := true } }
  else if x.1.kind = .routes ∧ x.1.source.direction = none then s
  else if s.session.any (generation < ·.generation) then s
  else if x.1.kind = .reset ∧ s.session.any (generation ≤ ·.generation) then s
  else
    let advanced := s.advance generation x
    advanced.take rk (advanced.session.getD (sessionView x.1 generation x.2)) generation x

def row (tainted : Bool) (rk : RouteKey) (s : Slot) (x : Observation × ℕ) : Slot :=
  x.1.source.generation.elim s fun generation => s.scopedRow tainted rk generation x

end Slot

structure Shows (rk : RouteKey) (v : View) (s : Slot) : Prop where
  session : v.sessions.get rk.session = s.session
  candidate : v.routes.get rk = s.candidate

variable {rk : RouteKey} {v : View} {s : Slot} {c : Conflicts}
variable (h : Shows rk v s)
include h

theorem Shows.push (index : ℕ) (status : ApplyStatus)
    (effects : List RouteEffect) : Shows rk (v.push index status effects) s := ⟨h.session, h.candidate⟩

theorem Shows.advance (generation : ℕ) (x : Observation × ℕ) :
    Shows rk (v.advance rk.session generation x) (s.advance generation x) := by
  rw [View.advance, Slot.advance, View.advances, h.session]
  split
  · exact ⟨FinMap.get_insert_self _ _ _, by simp [View.dropRoutes, FinMap.get_retain]⟩
  · exact h

theorem Shows.take (session : SessionView) (generation : ℕ) (x : Observation × ℕ) :
    Shows rk (v.take rk.session session generation x).1 (s.take rk session generation x) := by
  rw [View.take, Slot.take]
  split
  · exact h.push _ _ _
  cases x.1.kind with
  | notification =>
    exact ⟨FinMap.get_insert_self _ _ _,
      by simp [View.close, View.push, View.dropRoutes, FinMap.get_retain]⟩
  | routes =>
    refine ⟨h.session, ?_⟩
    simp only [View.push, Slot.applyRow, applyGroups_get, true_and, h.candidate]
  | reset => exact h.push _ _ _
  | openMessage => exact h.push _ _ _
  | keepalive => exact h.push _ _ _
  | routeRefresh => exact h.push _ _ _

theorem Shows.scopedRow (generation : ℕ) (x : Observation × ℕ) :
    Shows rk (v.scopedRow c rk.session generation x).1
      (s.scopedRow (rk.session ∈ c.tainted) rk generation x) := by
  simp only [View.scopedRow, Slot.scopedRow, decide_eq_true_eq, h.session]
  split
  · refine ⟨?_, h.candidate⟩
    simp [View.push, View.quarantine, h.session]
  split
  · exact h.push _ _ _
  split
  · exact h.push _ _ _
  split
  · exact h.push _ _ _
  · have hadvance := h.advance generation x
    rw [hadvance.session]
    exact hadvance.take _ _ _

theorem Shows.row {x : Observation × ℕ} (hx : x.1.sessionKey = some rk.session) :
    Shows rk (rowView c v x) (s.row (rk.session ∈ c.tainted) rk x) := by
  rw [rowView, hx, Slot.row]
  cases hgeneration : x.1.source.generation with
  | none => exact h.push _ _ _
  | some generation => exact h.scopedRow generation x

theorem Shows.of_eq {v' : View} (hsession : v'.sessions.get rk.session = v.sessions.get rk.session)
    (hroute : v'.routes.get rk = v.routes.get rk) : Shows rk v' s :=
  ⟨hsession.trans h.session, hroute.trans h.candidate⟩

omit h

theorem scopedRow_other {key : SessionKey} (hne : rk.session ≠ key) (generation : ℕ)
    (x : Observation × ℕ) :
    (v.scopedRow c key generation x).1.sessions.get rk.session = v.sessions.get rk.session ∧
      (v.scopedRow c key generation x).1.routes.get rk = v.routes.get rk := by
  have hadvance : (v.advance key generation x).sessions.get rk.session = v.sessions.get rk.session ∧
      (v.advance key generation x).routes.get rk = v.routes.get rk := by
    rw [View.advance]
    split
    · exact ⟨FinMap.get_insert_of_ne _ hne _, by simp [View.dropRoutes, FinMap.get_retain, hne]⟩
    · exact ⟨rfl, rfl⟩
  have htake : ∀ (u : View) (session : SessionView),
      (u.take key session generation x).1.sessions.get rk.session = u.sessions.get rk.session ∧
        (u.take key session generation x).1.routes.get rk = u.routes.get rk := by
    intro u session
    rw [View.take]
    split
    · exact ⟨rfl, rfl⟩
    split
    · exact ⟨FinMap.get_insert_of_ne _ hne _,
        by simp [View.close, View.push, View.dropRoutes, FinMap.get_retain, hne]⟩
    · exact ⟨rfl, rfl⟩
    · exact ⟨rfl, by simp [View.push, applyGroups_get, hne]⟩
    · exact ⟨rfl, rfl⟩
  simp only [View.scopedRow]
  split
  · exact ⟨FinMap.get_insert_of_ne _ hne _, rfl⟩
  split
  · exact ⟨rfl, rfl⟩
  split
  · exact ⟨rfl, rfl⟩
  split
  · exact ⟨rfl, rfl⟩
  · exact ⟨(htake _ _).1.trans hadvance.1, (htake _ _).2.trans hadvance.2⟩

theorem Shows.other (h : Shows rk v s) {x : Observation × ℕ}
    (hx : x.1.sessionKey ≠ some rk.session) : Shows rk (rowView c v x) s := by
  rw [rowView]
  split
  next key generation hkey hgeneration =>
    have hne : rk.session ≠ key := fun heq => hx (heq ▸ hkey)
    exact h.of_eq (scopedRow_other hne generation x).1 (scopedRow_other hne generation x).2
  · exact h.push _ _ _

end Slots

end PcapEvidence.Candidate
