import PcapEvidence.BgpCandidateSpec

/-!
# The reduction of a journal

What a successful reduction gives for one route key, in terms of the journal and the receipts.
-/

namespace PcapEvidence.Candidate

open FiniteMap History Bgp

section Description

variable {session : SessionView}

def AppliedRow (observations : List Observation) (v : View) (key : SessionKey) (generation index : ℕ)
    (o : Observation) : Prop :=
  observations[index]? = some o ∧ o.sessionKey = some key ∧
    o.source.generation = some generation ∧ ∃ effects, ⟨index, .applied, effects⟩ ∈ v.outcomes

def RefersTo (observations : List Observation) (ref : RouteRef) (o : Observation)
    (r : RouteObservation) : Prop :=
  observations[ref.observation]? = some o ∧ o.routes[ref.route]? = some r

/-- The candidate holds the routes behind the last pure withdrawal, once each, grouped by content.
-/
structure Described (observations : List Observation) (v : View) (rk : RouteKey) (generation : ℕ)
    (entry : CandidateRoute) : Prop where
  witnesses : ∀ ref, (∃ a ∈ entry.alternatives, ref ∈ a.witnesses) ↔ ∃ o r,
    AppliedRow observations v rk.session generation ref.observation o ∧
    o.source.direction = some rk.direction ∧ o.routes[ref.route]? = some r ∧
    r.groupKey = (rk.route, rk.pathId) ∧ ∀ index o', AppliedRow observations v rk.session generation
      index o' → WithdrawsOnly rk o' → index < ref.observation
  once : (entry.alternatives.flatMap Alternative.witnesses).Nodup
  grouped : ∀ a ∈ entry.alternatives, ∀ ref ∈ a.witnesses,
    ∃ o r, RefersTo observations ref o r ∧ a.content = r.content
  distinct : (entry.alternatives.map Alternative.content).Nodup

variable {observations : List Observation} {rk : RouteKey}

theorem mem_members {o : Observation} {k : GroupKey} {m : RouteObservation × ℕ} :
    m ∈ members o k ↔ o.routes[m.2]? = some m.1 ∧ m.1.groupKey = k := by
  rw [members, List.mem_filter, List.mem_zipIdx_iff_getElem?, decide_eq_true_eq]

theorem mem_rowsOf {key : SessionKey} {x : Observation × ℕ} :
    x ∈ rowsOf key observations.zipIdx ↔
      observations[x.2]? = some x.1 ∧ x.1.sessionKey = some key := by
  rw [rowsOf, List.mem_filter, List.mem_zipIdx_iff_getElem?, decide_eq_true_eq]

theorem zipIdx_ordered (l : List Observation) : l.zipIdx.Pairwise fun x y => x.2 < y.2 := by
  induction l using List.reverseRecOn with
  | nil => exact .nil
  | append_singleton l o ih =>
    rw [List.zipIdx_append, List.pairwise_append]
    refine ⟨ih, List.pairwise_singleton _ _, fun x hx y hy => ?_⟩
    obtain rfl : y = _ := by simpa using hy
    simpa using List.snd_lt_of_mem_zipIdx hx

theorem slotInv_viewOf (observations : List Observation) (rk : RouteKey)
    (hdistinct : (identitiesOf rk.session observations).Nodup) :
    Shows rk (viewOf observations) (slotOf false rk (rowsOf rk.session observations.zipIdx)) ∧
      SlotInv rk (rowsOf rk.session observations.zipIdx) (WasApplied (viewOf observations))
        (slotOf false rk (rowsOf rk.session observations.zipIdx)) := by
  have htaint : rk.session ∉ (conflictsOf observations).tainted := by
    rw [tainted_conflictsOf]
    exact not_not.2 hdistinct
  have hshows := shows_slotOf (conflictsOf observations) rk observations.zipIdx
  rw [decide_eq_false htaint] at hshows
  exact ⟨hshows, slotInv_run _ rk htaint _ (zipIdx_ordered observations)⟩

theorem mem_rowWitnesses {x : Observation × ℕ} {ref : RouteRef} {r : RouteObservation} :
    (ref, r) ∈ rowWitnesses rk x ↔ ref.observation = x.2 ∧ x.1.routes[ref.route]? = some r ∧
      r.groupKey = (rk.route, rk.pathId) := by
  rw [rowWitnesses, List.mem_map]
  constructor
  · rintro ⟨m, hm, heq⟩
    obtain ⟨rfl, rfl⟩ := Prod.mk.injEq .. ▸ heq
    exact ⟨rfl, mem_members.1 hm⟩
  · rintro ⟨hindex, hroute, hgroup⟩
    exact ⟨(r, ref.route), mem_members.2 ⟨hroute, hgroup⟩, by rw [← hindex]⟩

theorem rowWitnesses_nodup {current : List (Observation × ℕ)}
    (hordered : current.Pairwise fun x y => x.2 < y.2) :
    ((current.flatMap (rowWitnesses rk)).map Prod.fst).Nodup := by
  rw [List.map_flatMap, List.nodup_flatMap]
  constructor
  · intro x _
    have hindices : ((members x.1 (rk.route, rk.pathId)).map Prod.snd).Nodup :=
      ((List.nodup_zipIdx_map_snd x.1.routes).sublist (List.filter_sublist.map _))
    have hmap : (rowWitnesses rk x).map Prod.fst =
        ((members x.1 (rk.route, rk.pathId)).map Prod.snd).map fun i => ⟨x.2, i⟩ := by
      simp [rowWitnesses]
    rw [hmap]
    exact hindices.map fun i j h => by simpa using h
  · refine hordered.imp fun {x y} hlt => ?_
    rw [Function.onFun, List.disjoint_left]
    intro ref hx hy
    obtain ⟨a, ha, rfl⟩ := List.mem_map.1 hx
    obtain ⟨b, hb, hab⟩ := List.mem_map.1 hy
    have hxa := (mem_rowWitnesses.1 (show (a.1, a.2) ∈ _ from ha)).1
    have hyb := (mem_rowWitnesses.1 (show (b.1, b.2) ∈ _ from hb)).1
    rw [hab] at hyb
    omega

theorem mem_applied (observations : List Observation) (rk : RouteKey)
    (hdistinct : (identitiesOf rk.session observations).Nodup)
    (hsession : (slotOf false rk (rowsOf rk.session observations.zipIdx)).session = some session)
    (x : Observation × ℕ) :
    x ∈ (slotOf false rk (rowsOf rk.session observations.zipIdx)).applied ↔
      AppliedRow observations (viewOf observations) rk.session session.generation x.2 x.1 := by
  rw [(slotInv_viewOf observations rk hdistinct).2.applied session hsession, mem_rowsOf, AppliedRow,
    WasApplied]
  tauto

theorem mem_current (observations : List Observation) (rk : RouteKey)
    (hdistinct : (identitiesOf rk.session observations).Nodup)
    (hsession : (slotOf false rk (rowsOf rk.session observations.zipIdx)).session = some session)
    (hopen : session.closed = false) (x : Observation × ℕ) :
    x ∈ (slotOf false rk (rowsOf rk.session observations.zipIdx)).current ↔
      AppliedRow observations (viewOf observations) rk.session session.generation x.2 x.1 ∧
      Announces rk x.1 ∧ ∀ index o, AppliedRow observations (viewOf observations) rk.session
        session.generation index o → x.2 < index → ¬WithdrawsOnly rk o := by
  rw [(slotInv_viewOf observations rk hdistinct).2.current session hsession hopen,
    mem_applied observations rk hdistinct hsession]
  refine and_congr_right fun _ => and_congr_right fun _ => ?_
  constructor
  · intro h index o happlied hlt
    exact h (o, index) ((mem_applied observations rk hdistinct hsession _).2 happlied) hlt
  · intro h y hy hlt
    exact h y.2 y.1 ((mem_applied observations rk hdistinct hsession _).1 hy) hlt

theorem announces_of_behind {v : View} {generation index : ℕ} {o : Observation}
    {m : RouteObservation × ℕ} (happlied : AppliedRow observations v rk.session generation index o)
    (hdirection : o.source.direction = some rk.direction)
    (hm : m ∈ members o (rk.route, rk.pathId))
    (hbehind : ∀ i o', AppliedRow observations v rk.session generation i o' →
      WithdrawsOnly rk o' → i < index) : Announces rk o := by
  refine ⟨hdirection, ?_⟩
  by_contra hnot
  have hwithdraws : WithdrawsOnly rk o :=
    ⟨hdirection, List.ne_nil_of_mem hm, Bool.eq_false_of_not_eq_true hnot⟩
  exact lt_irrefl _ (hbehind index o happlied hwithdraws)

theorem described_viewOf (observations : List Observation) (rk : RouteKey)
    (hdistinct : (identitiesOf rk.session observations).Nodup)
    (hsession : (viewOf observations).sessions.get rk.session = some session)
    (hopen : session.closed = false) {entry : CandidateRoute}
    (hentry : (viewOf observations).routes.get rk = some entry) :
    Described observations (viewOf observations) rk session.generation entry := by
  obtain ⟨hshows, hinv⟩ := slotInv_viewOf observations rk hdistinct
  rw [hshows.session] at hsession
  rw [hshows.candidate] at hentry
  have hrests := hinv.rests fun v hv => by
    obtain rfl := Option.some.inj (hsession.symm.trans hv)
    exact hopen
  have hwitnessed := hrests.witnessed entry hentry
  have hcurrent := mem_current observations rk hdistinct hsession hopen
  refine ⟨fun ref => ?_, ?_, ?_, hwitnessed.distinct⟩
  · have hmem : (∃ a ∈ entry.alternatives, ref ∈ a.witnesses) ↔
        ∃ x ∈ (slotOf false rk (rowsOf rk.session observations.zipIdx)).current, ∃ r,
          (ref, r) ∈ rowWitnesses rk x := by
      rw [← List.mem_flatMap, hwitnessed.perm.mem_iff, List.mem_map]
      constructor
      · rintro ⟨⟨ref', r⟩, hr, rfl⟩
        obtain ⟨x, hx, hxr⟩ := List.mem_flatMap.1 hr
        exact ⟨x, hx, r, hxr⟩
      · rintro ⟨x, hx, r, hxr⟩
        exact ⟨(ref, r), List.mem_flatMap.2 ⟨x, hx, hxr⟩, rfl⟩
    rw [hmem]
    constructor
    · rintro ⟨x, hx, r, hr⟩
      obtain ⟨hindex, hroute, hgroup⟩ := mem_rowWitnesses.1 hr
      obtain ⟨happlied, hannounces, hlater⟩ := (hcurrent x).1 hx
      refine ⟨x.1, r, hindex ▸ happlied, hannounces.1, hroute, hgroup, fun index o ho hwithdraws => ?_⟩
      rw [hindex]
      rcases lt_trichotomy index x.2 with hlt | rfl | hlt
      · exact hlt
      · obtain rfl := Option.some.inj (ho.1.symm.trans happlied.1)
        rw [WithdrawsOnly, hannounces.2] at hwithdraws
        cases hwithdraws.2.2
      · exact absurd hwithdraws (hlater index o ho hlt)
    · rintro ⟨o, r, happlied, hdirection, hroute, hgroup, hbehind⟩
      have hm : (r, ref.route) ∈ members o (rk.route, rk.pathId) := mem_members.2 ⟨hroute, hgroup⟩
      refine ⟨(o, ref.observation), (hcurrent _).2 ⟨happlied,
        announces_of_behind happlied hdirection hm hbehind, fun index o' ho' hlt hwithdraws => ?_⟩, r,
        mem_rowWitnesses.2 ⟨rfl, hroute, hgroup⟩⟩
      exact absurd (hbehind index o' ho' hwithdraws) (not_lt.2 hlt.le)
  · exact hwitnessed.perm.nodup_iff.2 (rowWitnesses_nodup hinv.ordered)
  · intro a ha ref href
    obtain ⟨r, hr, hcontent⟩ := hwitnessed.grouped a ha ref href
    obtain ⟨x, hx, hxr⟩ := List.mem_flatMap.1 hr
    obtain ⟨hindex, hroute, -⟩ := mem_rowWitnesses.1 hxr
    exact ⟨x.1, r, ⟨hindex ▸ ((hcurrent x).1 hx).1.1, hroute⟩, hcontent⟩

theorem isSome_viewOf (observations : List Observation) (rk : RouteKey)
    (hdistinct : (identitiesOf rk.session observations).Nodup)
    (hsession : (viewOf observations).sessions.get rk.session = some session)
    (hopen : session.closed = false) :
    ((viewOf observations).routes.get rk).isSome = true ↔ supported rk.route = true ∧ ∃ index o,
      AppliedRow observations (viewOf observations) rk.session session.generation index o ∧
      Announces rk o ∧ ∀ index' o', AppliedRow observations (viewOf observations) rk.session
        session.generation index' o' → index < index' → ¬WithdrawsOnly rk o' := by
  obtain ⟨hshows, hinv⟩ := slotInv_viewOf observations rk hdistinct
  rw [hshows.session] at hsession
  rw [hshows.candidate, (hinv.rests fun v hv => by
    obtain rfl := Option.some.inj (hsession.symm.trans hv)
    exact hopen).isSome]
  refine and_congr_right fun _ => ?_
  have hcurrent := mem_current observations rk hdistinct hsession hopen
  constructor
  · intro hne
    obtain ⟨x, hx⟩ := List.exists_mem_of_ne_nil _ hne
    exact ⟨x.2, x.1, (hcurrent x).1 hx⟩
  · rintro ⟨index, o, h⟩
    exact List.ne_nil_of_mem ((hcurrent (o, index)).2 h)

theorem viewOf_local {observations observations' : List Observation} {rk : RouteKey}
    (hrows : (observations.filter fun o => o.sessionKey = some rk.session) =
      observations'.filter fun o => o.sessionKey = some rk.session) :
    ((viewOf observations).sessions.get rk.session).map
        (SessionView.renumber (rank rk.session observations)) =
      ((viewOf observations').sessions.get rk.session).map
        (SessionView.renumber (rank rk.session observations')) ∧
    ((viewOf observations).routes.get rk).map
        (CandidateRoute.renumber (rank rk.session observations)) =
      ((viewOf observations').routes.get rk).map
        (CandidateRoute.renumber (rank rk.session observations')) := by
  have hrank : ∀ l : List Observation, ∀ tainted,
      (slotOf tainted rk (rowsOf rk.session l.zipIdx)).renumber (rank rk.session l) =
        slotOf tainted rk (l.filter fun o => o.sessionKey = some rk.session).zipIdx := by
    intro l tainted
    rw [← slotOf_renumber, rowsOf_rank]
  have htaint : (decide (rk.session ∈ (conflictsOf observations).tainted)) =
      decide (rk.session ∈ (conflictsOf observations').tainted) := by
    rw [decide_eq_decide, tainted_conflictsOf, tainted_conflictsOf, identitiesOf, identitiesOf, hrows]
  have hshows := shows_slotOf (conflictsOf observations) rk observations.zipIdx
  have hshows' := shows_slotOf (conflictsOf observations') rk observations'.zipIdx
  have hslot : (slotOf (rk.session ∈ (conflictsOf observations).tainted) rk
        (rowsOf rk.session observations.zipIdx)).renumber (rank rk.session observations) =
      (slotOf (rk.session ∈ (conflictsOf observations').tainted) rk
        (rowsOf rk.session observations'.zipIdx)).renumber (rank rk.session observations') := by
    rw [hrank, hrank, hrows, htaint]
  rw [viewOf, viewOf, hshows.session, hshows'.session, hshows.candidate, hshows'.candidate]
  exact ⟨congrArg Slot.session hslot, congrArg Slot.candidate hslot⟩

/-- What a reduction gives for a session depends on its rows alone, up to their places. An open
session without a conflict has a candidate exactly where an applied row of the largest generation
announces it behind every row that only withdraws it. -/
theorem reduce_describes {observations : List Observation} {limits : Bgp.Limits} {w w' : Work}
    {v : View} (h : reduce observations limits w = .ok (v, w')) (rk : RouteKey) :
    (∀ observations' limits' u u' v', reduce observations' limits' u = .ok (v', u') →
      (observations.filter fun o => o.sessionKey = some rk.session) =
        (observations'.filter fun o => o.sessionKey = some rk.session) →
      (v.sessions.get rk.session).map (SessionView.renumber (rank rk.session observations)) =
        (v'.sessions.get rk.session).map (SessionView.renumber (rank rk.session observations')) ∧
      (v.routes.get rk).map (CandidateRoute.renumber (rank rk.session observations)) =
        (v'.routes.get rk).map (CandidateRoute.renumber (rank rk.session observations'))) ∧
    (¬(identitiesOf rk.session observations).Nodup → v.routes.get rk = none) ∧
    ((identitiesOf rk.session observations).Nodup →
      (v.sessions.get rk.session = none → v.routes.get rk = none ∧
        ∀ o ∈ observations, o.sessionKey = some rk.session → ¬Scoped o) ∧
      ∀ session, v.sessions.get rk.session = some session →
        (∀ o ∈ observations, o.sessionKey = some rk.session → Scoped o →
          ∀ g ∈ o.source.generation, g ≤ session.generation) ∧
        (∃ o ∈ observations, o.sessionKey = some rk.session ∧ Scoped o ∧
          o.source.generation = some session.generation) ∧
        (session.closed = true → v.routes.get rk = none) ∧
        (session.closed = false →
          ((v.routes.get rk).isSome = true ↔ supported rk.route = true ∧ ∃ index o,
            AppliedRow observations v rk.session session.generation index o ∧ Announces rk o ∧
            ∀ index' o', AppliedRow observations v rk.session session.generation index' o' →
              index < index' → ¬WithdrawsOnly rk o') ∧
          ∀ entry, v.routes.get rk = some entry →
            Described observations v rk session.generation entry)) := by
  obtain rfl := reduce_ok h
  refine ⟨fun observations' limits' u u' v' h' hrows => ?_, fun hdouble => ?_, fun hdistinct => ?_⟩
  · obtain rfl := reduce_ok h'
    exact viewOf_local hrows
  · have htaint := (tainted_conflictsOf rk.session observations).2 hdouble
    have hshows := shows_slotOf (conflictsOf observations) rk observations.zipIdx
    rw [decide_eq_true htaint] at hshows
    exact hshows.candidate.trans (slotOf_tainted rk _)
  · obtain ⟨hshows, hinv⟩ := slotInv_viewOf observations rk hdistinct
    have hmem : ∀ o ∈ observations, o.sessionKey = some rk.session →
        ∃ index, (o, index) ∈ rowsOf rk.session observations.zipIdx := by
      intro o ho hkey
      obtain ⟨index, hindex⟩ := List.mem_iff_getElem?.1 ho
      exact ⟨index, mem_rowsOf.2 ⟨hindex, hkey⟩⟩
    refine ⟨fun hnone => ?_, fun session hsession => ⟨?_, ?_, ?_, fun hopen => ?_⟩⟩
    · rw [hshows.session] at hnone
      obtain ⟨hscoped, hinitial⟩ := hinv.fresh hnone
      refine ⟨by rw [hshows.candidate, hinitial, Slot.initial], fun o ho hkey => ?_⟩
      obtain ⟨index, hrow⟩ := hmem o ho hkey
      exact hscoped _ hrow
    · rw [hshows.session] at hsession
      intro o ho hkey hscoped g hg
      obtain ⟨index, hrow⟩ := hmem o ho hkey
      exact hinv.bound session hsession _ hrow hscoped g hg
    · rw [hshows.session] at hsession
      obtain ⟨x, hx, hscoped, hgeneration⟩ := hinv.reached session hsession
      obtain ⟨hindex, hkey⟩ := mem_rowsOf.1 hx
      exact ⟨x.1, List.mem_of_getElem? hindex, hkey, hscoped, hgeneration⟩
    · rw [hshows.session] at hsession
      intro hclosed
      exact hshows.candidate.trans (hinv.closed session hsession hclosed)
    · exact ⟨isSome_viewOf observations rk hdistinct hsession hopen,
        fun entry hentry => described_viewOf observations rk hdistinct hsession hopen hentry⟩

/-- One route announced, withdrawn and announced again in one generation. -/
def sampleRow (record : String) (action : RouteAction) : Observation where
  source := ⟨.imported, "router", record, some "peer", some 1, some 0⟩
  kind := .routes
  routes := [⟨⟨1, 1, 24, "192.0.2.0"⟩, .absent, action, .null, .null, false⟩]
  encoded := record
  locator := .blank

def sampleJournal : List Observation :=
  [sampleRow "a" .announce, sampleRow "b" .withdraw, sampleRow "c" .announce]

def sampleKey : RouteKey :=
  ⟨⟨.imported, "router", "peer", none⟩, 0, ⟨1, 1, 24, "192.0.2.0"⟩, .absent⟩

theorem reduce_describes_sampleJournal :
    ∃ v w session entry, reduce sampleJournal .default ⟨0, 1000⟩ = .ok (v, w) ∧
      v.sessions.get sampleKey.session = some session ∧ v.routes.get sampleKey = some entry ∧
      Described sampleJournal v sampleKey session.generation entry := by
  have hbudget : (reduce sampleJournal .default ⟨0, 1000⟩).toOption.isSome = true := by
    decide +kernel
  have hdistinct : (identitiesOf sampleKey.session sampleJournal).Nodup := by decide +kernel
  have hsession : (viewOf sampleJournal).sessions.get sampleKey.session =
      some (sessionView (sampleRow "a" .announce) 1 0) := by decide +kernel
  have hroute : ((viewOf sampleJournal).routes.get sampleKey).isSome = true := by decide +kernel
  obtain ⟨entry, hentry⟩ := Option.isSome_iff_exists.1 hroute
  cases hreduce : reduce sampleJournal .default ⟨0, 1000⟩ with
  | error e =>
    rw [hreduce] at hbudget
    cases hbudget
  | ok s =>
    obtain ⟨v, w⟩ := s
    have hview := reduce_ok hreduce
    rw [← hview] at hsession hentry
    exact ⟨v, w, _, entry, rfl, hsession, hentry,
      ((((reduce_describes hreduce sampleKey).2.2 hdistinct).2 _ hsession).2.2.2 rfl).2 entry hentry⟩

end Description

end PcapEvidence.Candidate
