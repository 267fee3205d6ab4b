import PcapEvidence.BgpCandidateSlot

/-!
# Witnesses of a candidate

The alternatives of a candidate hold a list of witnesses, each once, and hold them by content.
-/

namespace PcapEvidence.Candidate

open FiniteMap History Bgp

section Witnesses

abbrev Content := RouteAction × Json × Json

def Alternative.content (a : Alternative) : Content := (a.action, a.attributes, a.attributeIdentity)

def RouteObservation.content (r : RouteObservation) : Content :=
  (r.action, r.attributes, r.attributeIdentity)

theorem sameContent_iff {a : Alternative} {r : RouteObservation} :
    a.sameContent r = true ↔ a.content = r.content := by
  simp [Alternative.sameContent, Alternative.content, RouteObservation.content, and_assoc]

structure Witnessed (alternatives : List Alternative)
    (witnesses : List (RouteRef × RouteObservation)) : Prop where
  perm : (alternatives.flatMap Alternative.witnesses).Perm (witnesses.map Prod.fst)
  grouped : ∀ a ∈ alternatives, ∀ ref ∈ a.witnesses,
    ∃ r, (ref, r) ∈ witnesses ∧ a.content = r.content
  distinct : (alternatives.map Alternative.content).Nodup

theorem Witnessed.nil : Witnessed [] [] := ⟨.nil, by simp, .nil⟩

theorem addWitness_perm (r : RouteObservation) (ref : RouteRef) (alternatives : List Alternative) :
    ((addWitness r ref alternatives).flatMap Alternative.witnesses).Perm
      (alternatives.flatMap Alternative.witnesses ++ [ref]) := by
  induction alternatives with
  | nil => simp [addWitness]
  | cons a rest ih =>
    rw [addWitness]
    split
    · simp only [List.flatMap_cons, List.append_assoc]
      exact List.Perm.append_left _ List.perm_append_comm
    · simp only [List.flatMap_cons, List.append_assoc]
      exact List.Perm.append_left _ ih

theorem addWitness_content (r : RouteObservation) (ref : RouteRef) (alternatives : List Alternative) :
    (addWitness r ref alternatives).map Alternative.content =
      if r.content ∈ alternatives.map Alternative.content then alternatives.map Alternative.content
      else alternatives.map Alternative.content ++ [r.content] := by
  induction alternatives with
  | nil => rfl
  | cons a rest ih =>
    rw [addWitness]
    split
    next h =>
      have hmem : r.content ∈ (a :: rest).map Alternative.content := by
        rw [← sameContent_iff.1 h]
        exact List.mem_map_of_mem List.mem_cons_self
      rw [if_pos hmem]
      rfl
    next h =>
      rw [sameContent_iff] at h
      rw [List.map_cons, ih]
      by_cases hmem : r.content ∈ rest.map Alternative.content
      · rw [if_pos hmem, List.map_cons, if_pos (List.mem_cons_of_mem _ hmem)]
      · rw [if_neg hmem, List.map_cons, if_neg, List.cons_append]
        rw [List.mem_cons, not_or]
        exact ⟨fun heq => h heq.symm, hmem⟩

theorem addWitness_grouped {r : RouteObservation} {ref : RouteRef} {alternatives : List Alternative}
    {a : Alternative} (ha : a ∈ addWitness r ref alternatives) {ref' : RouteRef}
    (href : ref' ∈ a.witnesses) : ref' = ref ∧ a.content = r.content ∨
      ∃ b ∈ alternatives, ref' ∈ b.witnesses ∧ b.content = a.content := by
  induction alternatives with
  | nil =>
    obtain rfl : a = _ := by simpa [addWitness] using ha
    exact .inl ⟨by simpa using href, rfl⟩
  | cons b rest ih =>
    rw [addWitness] at ha
    split at ha
    next h =>
      rcases List.mem_cons.1 ha with rfl | ha
      · rcases List.mem_append.1 href with href | href
        · exact .inr ⟨b, List.mem_cons_self, href, rfl⟩
        · exact .inl ⟨by simpa using href, sameContent_iff.1 h⟩
      · exact .inr ⟨a, List.mem_cons_of_mem _ ha, href, rfl⟩
    · rcases List.mem_cons.1 ha with rfl | ha
      · exact .inr ⟨a, List.mem_cons_self, href, rfl⟩
      · rcases ih ha with hnew | ⟨b', hb', hold⟩
        · exact .inl hnew
        · exact .inr ⟨b', List.mem_cons_of_mem _ hb', hold⟩

theorem Witnessed.addWitness {alternatives : List Alternative}
    {witnesses : List (RouteRef × RouteObservation)} (h : Witnessed alternatives witnesses)
    (r : RouteObservation) (ref : RouteRef) :
    Witnessed (addWitness r ref alternatives) (witnesses ++ [(ref, r)]) where
  perm := by
    rw [List.map_append]
    exact (addWitness_perm r ref alternatives).trans (h.perm.append_right _)
  grouped a ha ref' href := by
    rcases addWitness_grouped ha href with ⟨rfl, hcontent⟩ | ⟨b, hb, hmem, hcontent⟩
    · exact ⟨r, by simp, hcontent⟩
    · obtain ⟨r', hr', hsame⟩ := h.grouped b hb ref' hmem
      exact ⟨r', List.mem_append_left _ hr', hcontent ▸ hsame⟩
  distinct := by
    rw [addWitness_content]
    split
    · exact h.distinct
    next hnew =>
      refine h.distinct.append (List.nodup_singleton _) ?_
      rw [List.disjoint_singleton]
      exact hnew

theorem Witnessed.addMembers {alternatives : List Alternative}
    {witnesses : List (RouteRef × RouteObservation)} (h : Witnessed alternatives witnesses)
    (index : ℕ) (l : List (RouteObservation × ℕ)) :
    Witnessed (addMembers index l alternatives).1
      (witnesses ++ l.map fun m => (⟨index, m.2⟩, m.1)) := by
  induction l using List.reverseRecOn with
  | nil => simpa [Candidate.addMembers] using h
  | append_singleton l m ih =>
    rw [Candidate.addMembers, List.foldl_append, List.map_append, ← List.append_assoc]
    exact ih.addWitness m.1 ⟨index, m.2⟩

def rowWitnesses (rk : RouteKey) (x : Observation × ℕ) : List (RouteRef × RouteObservation) :=
  (members x.1 (rk.route, rk.pathId)).map fun m => (⟨x.2, m.2⟩, m.1)

/-- The candidate rests on these rows, at least one, and none of an unsupported family. -/
structure Rests (rk : RouteKey) (current : List (Observation × ℕ))
    (candidate : Option CandidateRoute) : Prop where
  isSome : candidate.isSome = true ↔ supported rk.route = true ∧ current ≠ []
  witnessed : ∀ entry ∈ candidate,
    Witnessed entry.alternatives (current.flatMap (rowWitnesses rk))

theorem Rests.nil (rk : RouteKey) : Rests rk [] none := ⟨by simp, by simp⟩

variable {rk : RouteKey} {current : List (Observation × ℕ)} {candidate : Option CandidateRoute}

theorem Rests.applyRow (h : Rests rk current candidate) (generation : ℕ) {x : Observation × ℕ}
    (hdirection : x.1.source.direction ≠ none) :
    Rests rk (Slot.nextCurrent rk current x)
      (if rk.direction = x.1.source.direction.getD 0 ∧ members x.1 (rk.route, rk.pathId) ≠ [] then
        groupResult x.1 x.2 rk generation candidate else candidate) := by
  obtain ⟨d, hd⟩ := Option.ne_none_iff_exists'.1 hdirection
  by_cases htouch : rk.direction = x.1.source.direction.getD 0 ∧
      members x.1 (rk.route, rk.pathId) ≠ []
  · rw [if_pos htouch, groupResult]
    obtain ⟨hside, hmembers⟩ := htouch
    have hside : x.1.source.direction = some rk.direction := by rw [hside, hd]; rfl
    cases hsupported : supported rk.route with
    | false =>
      have hnone : candidate = none := by
        have hsome := h.isSome
        rw [hsupported] at hsome
        simpa using hsome
      rw [if_pos (by simp), hnone]
      exact ⟨by simp [hsupported], by simp⟩
    | true =>
      rw [if_neg (by simp)]
      cases hannounce : announces x.1 (rk.route, rk.pathId) with
      | false =>
        have hwithdraws : WithdrawsOnly rk x.1 := ⟨hside, hmembers, hannounce⟩
        have hnot : ¬Announces rk x.1 := fun hyes => by
          rw [Announces, hannounce] at hyes
          cases hyes.2
        rw [if_pos (by simp), Slot.nextCurrent, if_neg hnot, if_pos hwithdraws]
        exact .nil rk
      | true =>
        have hannounces : Announces rk x.1 := ⟨hside, hannounce⟩
        rw [if_neg (by simp), Slot.nextCurrent, if_pos hannounces]
        refine ⟨by simp [hsupported], fun entry hentry => ?_⟩
        obtain rfl := Option.some.inj hentry
        rw [List.flatMap_append, List.flatMap_singleton]
        refine Witnessed.addMembers ?_ x.2 _
        cases hcandidate : candidate with
        | none =>
          have hcurrent : current = [] := by
            by_contra hne
            have hsome := h.isSome.2 ⟨hsupported, hne⟩
            rw [hcandidate] at hsome
            cases hsome
          rw [hcurrent]
          exact .nil
        | some entry => exact h.witnessed entry hcandidate
  · have hnot : ¬Announces rk x.1 ∧ ¬WithdrawsOnly rk x.1 := by
      refine ⟨fun hyes => htouch ⟨by rw [hyes.1]; rfl, fun hnone => ?_⟩,
        fun hyes => htouch ⟨by rw [hyes.1]; rfl, hyes.2.1⟩⟩
      have hannounce := hyes.2
      simp [announces, hnone] at hannounce
    rw [if_neg htouch, Slot.nextCurrent, if_neg hnot.1, if_neg hnot.2]
    exact h

end Witnesses

end PcapEvidence.Candidate
