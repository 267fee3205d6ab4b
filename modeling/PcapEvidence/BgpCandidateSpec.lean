import PcapEvidence.BgpCandidateRun

/-!
# What a reduction says of a session

A session is tainted exactly when two of its rows share an identity. The view of a session depends on
its rows alone, and the candidates of an untainted session are described by its applied rows.
-/

namespace PcapEvidence.Candidate

open FiniteMap History Bgp

section Receipts

variable {rk : RouteKey} {v : View} {s : Slot} {c : Conflicts} {x : Observation × ℕ}

def Receipt (v v' : View) (index : ℕ) (status : ApplyStatus) : Prop :=
  ∃ effects, v'.outcomes = v.outcomes ++ [⟨index, status, effects⟩]

theorem receipt_push (index : ℕ) (status : ApplyStatus) (effects : List RouteEffect) :
    Receipt v (v.push index status effects) index status := ⟨effects, rfl⟩

theorem take_receipt (key : SessionKey) (session : SessionView) (generation : ℕ)
    (x : Observation × ℕ) : ∃ status, Receipt v (v.take key session generation x).1 x.2 status ∧
      (status = .applied ↔ session.closed = false ∧ x.1.kind = .routes) := by
  rw [View.take]
  cases session.closed with
  | true => exact ⟨_, receipt_push _ _ _, by simp⟩
  | false =>
    rw [if_neg (by simp)]
    cases x.1.kind with
    | notification => exact ⟨.notification, ⟨_, rfl⟩, by simp⟩
    | routes => exact ⟨.applied, ⟨_, rfl⟩, by simp⟩
    | reset => exact ⟨_, receipt_push _ _ _, by simp⟩
    | openMessage => exact ⟨_, receipt_push _ _ _, by simp⟩
    | keepalive => exact ⟨_, receipt_push _ _ _, by simp⟩
    | routeRefresh => exact ⟨_, receipt_push _ _ _, by simp⟩

theorem advance_outcomes (key : SessionKey) (generation : ℕ) (x : Observation × ℕ) :
    (v.advance key generation x).outcomes = v.outcomes := by
  rw [View.advance]
  split <;> rfl

theorem rowView_receipt (c : Conflicts) (v : View) (x : Observation × ℕ) :
    ∃ status, Receipt v (rowView c v x) x.2 status := by
  rw [rowView]
  split
  next key generation _ _ =>
    simp only [View.scopedRow]
    split
    · exact ⟨_, _, rfl⟩
    split
    · exact ⟨_, receipt_push _ _ _⟩
    split
    · exact ⟨_, receipt_push _ _ _⟩
    split
    · exact ⟨_, receipt_push _ _ _⟩
    · obtain ⟨status, ⟨effects, heffects⟩, -⟩ := take_receipt (v := v.advance key generation x) key
        (((v.advance key generation x).sessions.get key).getD (sessionView x.1 generation x.2))
        generation x
      exact ⟨status, effects, by rw [heffects, advance_outcomes]⟩
  · exact ⟨_, receipt_push _ _ _⟩

theorem Shows.receipt (h : Shows rk v s) (hx : x.1.sessionKey = some rk.session)
    (htaint : rk.session ∉ c.tainted) :
    ∃ status, Receipt v (rowView c v x) x.2 status ∧ (status = .applied ↔ s.Applies x) := by
  rw [rowView, hx]
  cases hgeneration : x.1.source.generation with
  | none =>
    refine ⟨_, receipt_push _ _ _, ?_⟩
    have hnot : ¬s.Applies x := by
      rintro ⟨-, -, g, hg, -⟩
      rw [hgeneration] at hg
      cases hg
    simp only [hnot, iff_false]
    split <;> simp
  | some generation =>
    simp only [View.scopedRow, if_neg htaint, h.session]
    split
    next hmissing =>
      refine ⟨_, receipt_push _ _ _, ?_⟩
      have hnot : ¬s.Applies x := fun happlies => happlies.2.1 hmissing.2
      simp [hnot]
    next hpresent =>
      split
      next hlate =>
        refine ⟨_, receipt_push _ _ _, ?_⟩
        have hnot : ¬s.Applies x := by
          rintro ⟨-, -, g, hg, hall⟩
          obtain rfl := Option.some.inj (hgeneration.symm.trans hg)
          obtain ⟨w, hw, hlt⟩ := (Option.any_eq_true _ _).1 hlate
          simp only [decide_eq_true_eq] at hlt
          rcases hall w hw with hless | ⟨heq, -⟩
          · exact absurd hless (not_lt.2 hlt.le)
          · exact absurd heq hlt.ne'
        simp [hnot]
      next hlate =>
        split
        next hreset =>
          refine ⟨_, receipt_push _ _ _, ?_⟩
          have hnot : ¬s.Applies x := by
            intro happlies
            rw [happlies.1] at hreset
            cases hreset.1
          simp [hnot]
        next hadvancing =>
          have hsession : ∃ session, (s.advance generation x).session = some session := by
            rw [Slot.advance]
            split
            · exact ⟨_, rfl⟩
            next hold =>
              cases hs : s.session with
              | none => simp [hs] at hold
              | some w => exact ⟨w, rfl⟩
          obtain ⟨session, hsession⟩ := hsession
          obtain ⟨status, ⟨effects, heffects⟩, hstatus⟩ := take_receipt
            (v := v.advance rk.session generation x) rk.session
            (((v.advance rk.session generation x).sessions.get rk.session).getD
              (sessionView x.1 generation x.2)) generation x
          refine ⟨status, ⟨effects, by rw [heffects, advance_outcomes]⟩, ?_⟩
          rw [hstatus, (h.advance generation x).session, hsession, Option.getD_some]
          exact (applies_iff hpresent hgeneration hlate hsession).symm

end Receipts

section Runs

variable {rk : RouteKey} {c : Conflicts}

def rowsOf (key : SessionKey) (l : List (Observation × ℕ)) : List (Observation × ℕ) :=
  l.filter fun x => x.1.sessionKey = some key

def slotOf (tainted : Bool) (rk : RouteKey) (rows : List (Observation × ℕ)) : Slot :=
  rows.foldl (Slot.row tainted rk) .initial

theorem slotOf_snoc (tainted : Bool) (rk : RouteKey) (rows : List (Observation × ℕ))
    (x : Observation × ℕ) :
    slotOf tainted rk (rows ++ [x]) = (slotOf tainted rk rows).row tainted rk x := by
  rw [slotOf, List.foldl_append]
  rfl

def WasApplied (v : View) (x : Observation × ℕ) : Prop :=
  ∃ effects, ⟨x.2, .applied, effects⟩ ∈ v.outcomes

theorem rowsOf_snoc (key : SessionKey) (l : List (Observation × ℕ)) (x : Observation × ℕ) :
    rowsOf key (l ++ [x]) =
      if x.1.sessionKey = some key then rowsOf key l ++ [x] else rowsOf key l := by
  rw [rowsOf, List.filter_append, rowsOf]
  split
  next h => simp [h]
  next h => simp [h]

theorem shows_slotOf (c : Conflicts) (rk : RouteKey) (l : List (Observation × ℕ)) :
    Shows rk (l.foldl (rowView c) .initial)
      (slotOf (rk.session ∈ c.tainted) rk (rowsOf rk.session l)) := by
  induction l using List.reverseRecOn with
  | nil => exact ⟨rfl, rfl⟩
  | append_singleton l x ih =>
    rw [List.foldl_append, rowsOf_snoc]
    split
    next hx =>
      rw [slotOf_snoc]
      exact ih.row hx
    next hx => exact ih.other hx

theorem outcomes_indices (c : Conflicts) (l : List (Observation × ℕ)) :
    (l.foldl (rowView c) .initial).outcomes.map ApplyOutcome.observation = l.map Prod.snd := by
  induction l using List.reverseRecOn with
  | nil => rfl
  | append_singleton l x ih =>
    rw [List.foldl_append, List.foldl_cons, List.foldl_nil]
    obtain ⟨status, effects, heffects⟩ := rowView_receipt c (l.foldl (rowView c) .initial) x
    rw [heffects, List.map_append, ih, List.map_append]
    rfl

theorem Receipt.wasApplied {v v' : View} {index : ℕ} {status : ApplyStatus}
    (h : Receipt v v' index status) (y : Observation × ℕ) :
    WasApplied v' y ↔ WasApplied v y ∨ y.2 = index ∧ status = .applied := by
  obtain ⟨effects, heffects⟩ := h
  simp only [WasApplied, heffects, List.mem_append, List.mem_singleton, ApplyOutcome.mk.injEq,
    exists_or]
  constructor
  · rintro (hold | ⟨_, hindex, hstatus, -⟩)
    · exact .inl hold
    · exact .inr ⟨hindex, hstatus.symm⟩
  · rintro (hold | ⟨hindex, hstatus⟩)
    · exact .inl hold
    · exact .inr ⟨effects, hindex, hstatus.symm, rfl⟩

theorem not_wasApplied_of_later {l : List (Observation × ℕ)} {x : Observation × ℕ}
    (hlast : ∀ y ∈ l, y.2 < x.2) : ¬WasApplied (l.foldl (rowView c) .initial) x := by
  rintro ⟨effects, hmem⟩
  have hindex : x.2 ∈ (l.foldl (rowView c) .initial).outcomes.map ApplyOutcome.observation :=
    List.mem_map_of_mem (f := ApplyOutcome.observation) hmem
  rw [outcomes_indices] at hindex
  obtain ⟨y, hy, heq⟩ := List.mem_map.1 hindex
  exact absurd (hlast y hy) (by omega)

theorem slotInv_run (c : Conflicts) (rk : RouteKey) (htaint : rk.session ∉ c.tainted)
    (l : List (Observation × ℕ)) (hl : l.Pairwise fun x y => x.2 < y.2) :
    SlotInv rk (rowsOf rk.session l) (WasApplied (l.foldl (rowView c) .initial))
      (slotOf false rk (rowsOf rk.session l)) := by
  induction l using List.reverseRecOn with
  | nil => exact .initial
  | append_singleton l x ih =>
    rw [List.pairwise_append] at hl
    have hlast : ∀ y ∈ l, y.2 < x.2 := fun y hy => hl.2.2 y hy x (by simp)
    have hrows : ∀ y ∈ rowsOf rk.session l, y.2 < x.2 :=
      fun y hy => hlast y (List.mem_filter.1 hy).1
    have hinv := ih hl.1
    have hshows : Shows rk (l.foldl (rowView c) .initial)
        (slotOf false rk (rowsOf rk.session l)) := by
      have hslot := shows_slotOf c rk l
      rwa [decide_eq_false htaint] at hslot
    rw [List.foldl_append, List.foldl_cons, List.foldl_nil, rowsOf_snoc]
    split
    next hx =>
      obtain ⟨status, hreceipt, hstatus⟩ := hshows.receipt hx htaint
      rw [slotOf_snoc]
      refine hinv.row hrows (fun y hy => ?_) ?_
      · rw [hreceipt.wasApplied]
        have hne : y.2 ≠ x.2 := (hrows y hy).ne
        simp [hne]
      · rw [hreceipt.wasApplied, ← hstatus]
        have hnew : ¬WasApplied (l.foldl (rowView c) .initial) x := not_wasApplied_of_later hlast
        simp [hnew]
    next hx =>
      obtain ⟨status, hreceipt⟩ := rowView_receipt c (l.foldl (rowView c) .initial) x
      have hsame : ∀ y ∈ rowsOf rk.session l,
          WasApplied (rowView c (l.foldl (rowView c) .initial) x) y ↔
            WasApplied (l.foldl (rowView c) .initial) y := by
        intro y hy
        rw [hreceipt.wasApplied]
        have hne : y.2 ≠ x.2 := (hrows y hy).ne
        simp [hne]
      exact hinv.congr hsame

end Runs

def identitiesOf (key : SessionKey) (observations : List Observation) : List Identity :=
  (observations.filter fun o => o.sessionKey = some key).map Observation.identity

theorem rowsOf_identities (key : SessionKey) (observations : List Observation) :
    (rowsOf key observations.zipIdx).map (fun x => x.1.identity) = identitiesOf key observations := by
  have hfst : (rowsOf key observations.zipIdx).map Prod.fst =
      observations.filter fun o => o.sessionKey = some key := by
    conv_rhs => rw [← List.zipIdx_map_fst 0 observations]
    rw [List.filter_map]
    rfl
  rw [identitiesOf, ← hfst, List.map_map]
  rfl

theorem identities_seen (l : List (Observation × ℕ)) (i : Identity) :
    ((l.foldl Conflicts.add .initial).identities.get i).isSome = true ↔
      i ∈ l.map fun x => x.1.identity := by
  induction l using List.reverseRecOn with
  | nil => simp [Conflicts.initial]
  | append_singleton l x ih =>
    have hstep : ((l.foldl Conflicts.add .initial).add x).identities =
        (l.foldl Conflicts.add .initial).identities.insert x.1.identity x.2 := by
      rw [Conflicts.add]
      split <;> rfl
    rw [List.foldl_append, List.foldl_cons, List.foldl_nil, hstep, FinMap.get_insert]
    split
    next h => simp [h]
    next h => simp [ih, h]

theorem tainted_iff (key : SessionKey) (l : List (Observation × ℕ)) :
    key ∈ (l.foldl Conflicts.add .initial).tainted ↔
      ¬((rowsOf key l).map fun x => x.1.identity).Nodup := by
  induction l using List.reverseRecOn with
  | nil => simp [Conflicts.initial, rowsOf]
  | append_singleton l x ih =>
    rw [List.foldl_append, List.foldl_cons, List.foldl_nil, rowsOf_snoc, Conflicts.add]
    have hseen := identities_seen l x.1.identity
    split
    next hget =>
      rw [hget] at hseen
      split
      next hkey =>
        rw [ih, List.map_append, List.nodup_append]
        have hnew : x.1.identity ∉ (rowsOf key l).map fun x => x.1.identity := by
          intro hmem
          obtain ⟨y, hy, heq⟩ := List.mem_map.1 hmem
          have hold := hseen.2 (List.mem_map.2 ⟨y, (List.mem_filter.1 hy).1, heq⟩)
          cases hold
        refine not_congr ⟨fun h => ⟨h, by simp, ?_⟩, fun h => h.1⟩
        rintro a ha b hb rfl
        obtain rfl : a = x.1.identity := by simpa using hb
        exact hnew ha
      next hkey => exact ih
    next previous hget =>
      rw [hget] at hseen
      obtain ⟨y, hy, heq⟩ := List.mem_map.1 (hseen.1 rfl)
      split
      next hkey =>
        have hmem : y ∈ rowsOf key l := List.mem_filter.2
          ⟨hy, by simpa [Observation.sessionKey_of_identity heq] using hkey⟩
        have hdouble : ¬((rowsOf key l ++ [x]).map fun x => x.1.identity).Nodup := by
          rw [List.map_append, List.nodup_append]
          exact fun h => h.2.2 _ (List.mem_map_of_mem (f := fun x => x.1.identity) hmem) _
            (by simp) heq
        simp only [hkey, Option.elim_some, Finset.mem_insert_self, true_iff]
        exact hdouble
      next hkey =>
        rw [← ih]
        cases hsession : x.1.sessionKey with
        | none => rfl
        | some other =>
          have hne : key ≠ other := fun h => hkey (h ▸ hsession)
          simp [hne]

theorem tainted_conflictsOf (key : SessionKey) (observations : List Observation) :
    key ∈ (conflictsOf observations).tainted ↔ ¬(identitiesOf key observations).Nodup := by
  rw [conflictsOf, tainted_iff, rowsOf_identities]

theorem slotOf_tainted (rk : RouteKey) (rows : List (Observation × ℕ)) :
    (slotOf true rk rows).candidate = none := by
  induction rows using List.reverseRecOn with
  | nil => rfl
  | append_singleton rows x ih =>
    rw [slotOf_snoc, Slot.row]
    cases x.1.source.generation with
    | none => exact ih
    | some generation => exact ih

section Locality

variable (ρ : ℕ → ℕ)

def RouteRef.renumber (r : RouteRef) : RouteRef := { r with observation := ρ r.observation }

def Alternative.renumber (a : Alternative) : Alternative :=
  { a with witnesses := a.witnesses.map (RouteRef.renumber ρ) }

def CandidateRoute.renumber (c : CandidateRoute) : CandidateRoute :=
  { c with alternatives := c.alternatives.map (Alternative.renumber ρ) }

def SessionView.renumber (s : SessionView) : SessionView :=
  { s with generationWitness := ρ s.generationWitness }

def renumberRow (x : Observation × ℕ) : Observation × ℕ := (x.1, ρ x.2)

def Slot.renumber (s : Slot) : Slot where
  session := s.session.map (SessionView.renumber ρ)
  candidate := s.candidate.map (CandidateRoute.renumber ρ)
  applied := s.applied.map (renumberRow ρ)
  current := s.current.map (renumberRow ρ)

theorem addWitness_renumber (r : RouteObservation) (ref : RouteRef)
    (alternatives : List Alternative) :
    addWitness r (ref.renumber ρ) (alternatives.map (Alternative.renumber ρ)) =
      (addWitness r ref alternatives).map (Alternative.renumber ρ) := by
  induction alternatives with
  | nil => rfl
  | cons a rest ih =>
    have hsame : (a.renumber ρ).sameContent r = a.sameContent r := rfl
    rw [List.map_cons, addWitness, addWitness, hsame]
    split
    · simp [Alternative.renumber]
    · rw [ih, List.map_cons]

theorem addMembers_renumber (index : ℕ) (l : List (RouteObservation × ℕ))
    (alternatives : List Alternative) :
    (addMembers (ρ index) l (alternatives.map (Alternative.renumber ρ))).1 =
      (addMembers index l alternatives).1.map (Alternative.renumber ρ) := by
  induction l using List.reverseRecOn with
  | nil => rfl
  | append_singleton l m ih =>
    simp only [addMembers, List.foldl_append, List.foldl_cons, List.foldl_nil] at ih ⊢
    rw [ih]
    exact addWitness_renumber ρ m.1 ⟨index, m.2⟩ _

theorem groupResult_renumber (o : Observation) (index : ℕ) (rk : RouteKey) (generation : ℕ)
    (candidate : Option CandidateRoute) :
    groupResult o (ρ index) rk generation (candidate.map (CandidateRoute.renumber ρ)) =
      (groupResult o index rk generation candidate).map (CandidateRoute.renumber ρ) := by
  have hentry : (candidate.map (CandidateRoute.renumber ρ)).getD (newCandidate rk generation) =
      (candidate.getD (newCandidate rk generation)).renumber ρ := by
    cases candidate <;> rfl
  simp only [groupResult]
  split
  · rfl
  split
  · rfl
  · rw [hentry, Option.map_some]
    simp only [CandidateRoute.renumber, addMembers_renumber]

theorem nextCurrent_renumber (rk : RouteKey) (current : List (Observation × ℕ))
    (x : Observation × ℕ) :
    Slot.nextCurrent rk (current.map (renumberRow ρ)) (renumberRow ρ x) =
      (Slot.nextCurrent rk current x).map (renumberRow ρ) := by
  have hobservation : (renumberRow ρ x).1 = x.1 := rfl
  rw [Slot.nextCurrent, Slot.nextCurrent, hobservation]
  split
  · rw [List.map_append]
    rfl
  split <;> rfl

theorem take_renumber (s : Slot) (rk : RouteKey) (session : SessionView) (generation : ℕ)
    (x : Observation × ℕ) :
    (s.renumber ρ).take rk (session.renumber ρ) generation (renumberRow ρ x) =
      (s.take rk session generation x).renumber ρ := by
  have hclosed : (session.renumber ρ).closed = session.closed := rfl
  have hkind : (renumberRow ρ x).1.kind = x.1.kind := rfl
  rw [Slot.take, Slot.take, hclosed, hkind]
  split
  · rfl
  cases x.1.kind with
  | routes =>
    simp only [Slot.applyRow, Slot.renumber, nextCurrent_renumber, List.map_append, List.map_cons,
      List.map_nil, Slot.mk.injEq, true_and, and_true]
    refine (if_congr Iff.rfl (groupResult_renumber ρ _ _ _ _ _) rfl).trans ?_
    exact (apply_ite (Option.map (CandidateRoute.renumber ρ)) _ _ _).symm
  | notification => rfl
  | reset => rfl
  | openMessage => rfl
  | keepalive => rfl
  | routeRefresh => rfl

theorem advance_renumber (s : Slot) (generation : ℕ) (x : Observation × ℕ) :
    (s.renumber ρ).advance generation (renumberRow ρ x) = (s.advance generation x).renumber ρ := by
  have hall : ((s.renumber ρ).session.all fun v => decide (v.generation < generation)) =
      s.session.all fun v => decide (v.generation < generation) := by
    rw [Slot.renumber]
    cases s.session <;> rfl
  rw [Slot.advance, Slot.advance, hall]
  split <;> rfl

theorem getD_renumber (session : Option SessionView) (default : SessionView) :
    (session.map (SessionView.renumber ρ)).getD (default.renumber ρ) =
      (session.getD default).renumber ρ := by
  cases session <;> rfl

theorem row_renumber (tainted : Bool) (rk : RouteKey) (s : Slot) (x : Observation × ℕ) :
    (s.renumber ρ).row tainted rk (renumberRow ρ x) = (s.row tainted rk x).renumber ρ := by
  have hany : ∀ p : ℕ → Bool, ((s.renumber ρ).session.any fun v => p v.generation) =
      s.session.any fun v => p v.generation := by
    intro p
    rw [Slot.renumber]
    cases s.session <;> rfl
  have hgeneration : (renumberRow ρ x).1.source.generation = x.1.source.generation := rfl
  rw [Slot.row, Slot.row, hgeneration]
  cases x.1.source.generation with
  | none => rfl
  | some generation =>
    have hview : sessionView (renumberRow ρ x).1 generation (renumberRow ρ x).2 =
        (sessionView x.1 generation x.2).renumber ρ := rfl
    have hobservation : (renumberRow ρ x).1 = x.1 := rfl
    simp only [Option.elim_some, Slot.scopedRow, hany (fun g => decide (generation < g)),
      hany (fun g => decide (generation ≤ g)), hview]
    rw [hobservation]
    split
    · rw [Slot.renumber]
      simp only [getD_renumber]
      rfl
    split
    · rfl
    split
    · rfl
    split
    · rfl
    · rw [advance_renumber, Slot.renumber]
      simp only [getD_renumber]
      exact take_renumber ρ _ _ _ _ _

theorem slotOf_renumber (tainted : Bool) (rk : RouteKey) (rows : List (Observation × ℕ)) :
    slotOf tainted rk (rows.map (renumberRow ρ)) = (slotOf tainted rk rows).renumber ρ := by
  induction rows using List.reverseRecOn with
  | nil => rfl
  | append_singleton rows x ih =>
    rw [List.map_append, List.map_singleton, slotOf_snoc, ih, row_renumber, slotOf_snoc]

def rank (key : SessionKey) (observations : List Observation) (index : ℕ) : ℕ :=
  (observations.take index).countP fun o => o.sessionKey = some key

theorem rowsOf_rank (key : SessionKey) (observations : List Observation) :
    (rowsOf key observations.zipIdx).map (renumberRow (rank key observations)) =
      (observations.filter fun o => o.sessionKey = some key).zipIdx := by
  induction observations using List.reverseRecOn with
  | nil => rfl
  | append_singleton observations o ih =>
    have hold : (rowsOf key observations.zipIdx).map (renumberRow (rank key (observations ++ [o]))) =
        (rowsOf key observations.zipIdx).map (renumberRow (rank key observations)) := by
      refine List.map_congr_left fun x hx => ?_
      have hlt := List.snd_lt_of_mem_zipIdx (List.mem_filter.1 hx).1
      rw [renumberRow, renumberRow, rank, rank, List.take_append_of_le_length (by omega)]
    rw [List.zipIdx_append, List.zipIdx_singleton, rowsOf_snoc, List.filter_append]
    split
    next h =>
      rw [List.map_append, hold, ih]
      simp [h, renumberRow, rank, List.zipIdx_append, List.countP_eq_length_filter]
    next h =>
      rw [hold, ih]
      simp [h]

end Locality

end PcapEvidence.Candidate
