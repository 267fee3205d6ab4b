import PcapEvidence.BgpCandidateWitness

/-!
# Candidates over a journal

The invariant of one route over the rows of its session: the generation is the largest one seen, the
applied rows are those of that generation, and the candidate rests on the announcing rows behind the
last row that only withdraws.
-/

namespace PcapEvidence.Candidate

open FiniteMap History Bgp

section Invariant

/-- All rows but those without a generation and the routes without a direction. -/
def Scoped (o : Observation) : Prop :=
  o.source.generation.isSome = true ∧ ¬(o.kind = .routes ∧ o.source.direction = none)

def Slot.Applies (s : Slot) (x : Observation × ℕ) : Prop :=
  x.1.kind = .routes ∧ x.1.source.direction ≠ none ∧ ∃ g, x.1.source.generation = some g ∧
    ∀ v ∈ s.session, v.generation < g ∨ v.generation = g ∧ v.closed = false

structure SlotInv (rk : RouteKey) (rows : List (Observation × ℕ)) (wasApplied : Observation × ℕ → Prop)
    (s : Slot) : Prop where
  fresh : s.session = none → (∀ x ∈ rows, ¬Scoped x.1) ∧ s = .initial
  bound : ∀ v ∈ s.session, ∀ x ∈ rows, Scoped x.1 → ∀ g ∈ x.1.source.generation, g ≤ v.generation
  reached : ∀ v ∈ s.session, ∃ x ∈ rows, Scoped x.1 ∧ x.1.source.generation = some v.generation
  counted : ∀ x ∈ rows, wasApplied x → Scoped x.1
  applied : ∀ v ∈ s.session, ∀ x, x ∈ s.applied ↔
    x ∈ rows ∧ x.1.source.generation = some v.generation ∧ wasApplied x
  current : ∀ v ∈ s.session, v.closed = false → ∀ x, x ∈ s.current ↔ x ∈ s.applied ∧
    Announces rk x.1 ∧ ∀ y ∈ s.applied, x.2 < y.2 → ¬WithdrawsOnly rk y.1
  ordered : s.current.Pairwise fun x y => x.2 < y.2
  closed : ∀ v ∈ s.session, v.closed = true → s.candidate = none
  rests : (∀ v ∈ s.session, v.closed = false) → Rests rk s.current s.candidate

variable {rk : RouteKey} {rows : List (Observation × ℕ)} {wasApplied wasApplied' : Observation × ℕ → Prop}
  {s : Slot} {x : Observation × ℕ}

theorem SlotInv.initial : SlotInv rk [] wasApplied .initial where
  fresh _ := ⟨by simp, rfl⟩
  bound := by simp [Slot.initial]
  reached := by simp [Slot.initial]
  counted := by simp
  applied := by simp [Slot.initial]
  current := by simp [Slot.initial]
  ordered := .nil
  closed := by simp [Slot.initial]
  rests _ := .nil rk
variable (h : SlotInv rk rows wasApplied s)
include h

theorem SlotInv.congr
    (hsame : ∀ y ∈ rows, wasApplied' y ↔ wasApplied y) : SlotInv rk rows wasApplied' s := by
  refine ⟨h.fresh, h.bound, h.reached, ?_, ?_, h.current, h.ordered, h.closed, h.rests⟩
  · exact fun y hy hyapplied => h.counted y hy ((hsame y hy).1 hyapplied)
  · intro v hv y
    rw [h.applied v hv y]
    constructor
    · rintro ⟨hy, hygeneration, hyapplied⟩
      exact ⟨hy, hygeneration, (hsame y hy).2 hyapplied⟩
    · rintro ⟨hy, hygeneration, hyapplied⟩
      exact ⟨hy, hygeneration, (hsame y hy).1 hyapplied⟩

theorem SlotInv.ignore (hsame : ∀ y ∈ rows, wasApplied' y ↔ wasApplied y) (hnot : ¬wasApplied' x)
    (hbehind : Scoped x.1 → ∃ v ∈ s.session, ∀ g ∈ x.1.source.generation, g ≤ v.generation) :
    SlotInv rk (rows ++ [x]) wasApplied' s where
  fresh hs := by
    refine ⟨fun y hy hscoped => ?_, (h.fresh hs).2⟩
    rcases List.mem_append.1 hy with hy | hy
    · exact (h.fresh hs).1 y hy hscoped
    · obtain rfl : y = x := by simpa using hy
      obtain ⟨v, hv, -⟩ := hbehind hscoped
      rw [hs] at hv
      cases hv
  bound v hv y hy hscoped g hg := by
    rcases List.mem_append.1 hy with hy | hy
    · exact h.bound v hv y hy hscoped g hg
    · obtain rfl : y = x := by simpa using hy
      obtain ⟨v', hv', hle⟩ := hbehind hscoped
      obtain rfl : v = v' := Option.some.inj (hv.symm.trans hv')
      exact hle g hg
  reached v hv := by
    obtain ⟨y, hy, hreached⟩ := h.reached v hv
    exact ⟨y, List.mem_append_left _ hy, hreached⟩
  counted y hy happlied := by
    rcases List.mem_append.1 hy with hy | hy
    · exact h.counted y hy ((hsame y hy).1 happlied)
    · obtain rfl : y = x := by simpa using hy
      exact absurd happlied hnot
  applied v hv y := by
    rw [h.applied v hv y]
    constructor
    · rintro ⟨hy, hgeneration, happlied⟩
      exact ⟨List.mem_append_left _ hy, hgeneration, (hsame y hy).2 happlied⟩
    · rintro ⟨hy, hgeneration, happlied⟩
      rcases List.mem_append.1 hy with hy | hy
      · exact ⟨hy, hgeneration, (hsame y hy).1 happlied⟩
      · obtain rfl : y = x := by simpa using hy
        exact absurd happlied hnot
  current := h.current
  ordered := h.ordered
  closed := h.closed
  rests := h.rests

theorem SlotInv.advance {generation : ℕ}
    (hsame : ∀ y ∈ rows, wasApplied' y ↔ wasApplied y) (hnot : ¬wasApplied' x)
    (hscoped : Scoped x.1) (hgeneration : x.1.source.generation = some generation)
    (hlate : ∀ v ∈ s.session, v.generation ≤ generation) :
    SlotInv rk (rows ++ [x]) wasApplied' (s.advance generation x) ∧
      ∃ v, (s.advance generation x).session = some v ∧ v.generation = generation := by
  rw [Slot.advance]
  split
  next hnew =>
    have hbefore : ∀ y ∈ rows, Scoped y.1 → ∀ g ∈ y.1.source.generation, g < generation := by
      intro y hy hyscoped g hg
      cases hs : s.session with
      | none => exact absurd hyscoped ((h.fresh hs).1 y hy)
      | some v =>
        rw [hs] at hnew
        exact lt_of_le_of_lt (h.bound v hs y hy hyscoped g hg) (by simpa using hnew)
    refine ⟨?_, _, rfl, rfl⟩
    refine ⟨by simp, ?_, ?_, ?_, ?_, by simp, .nil, by simp [sessionView], fun _ => .nil rk⟩
    · intro v hv y hy hyscoped g hg
      obtain rfl := Option.some.inj hv
      rcases List.mem_append.1 hy with hy | hy
      · exact (hbefore y hy hyscoped g hg).le
      · obtain rfl : y = x := by simpa using hy
        rw [hgeneration] at hg
        exact (Option.some.inj hg).ge
    · intro v hv
      obtain rfl := Option.some.inj hv
      exact ⟨x, by simp, hscoped, hgeneration⟩
    · intro y hy happlied
      rcases List.mem_append.1 hy with hy | hy
      · exact h.counted y hy ((hsame y hy).1 happlied)
      · obtain rfl : y = x := by simpa using hy
        exact hscoped
    · intro v hv y
      obtain rfl := Option.some.inj hv
      refine ⟨by simp, ?_⟩
      rintro ⟨hy, hygeneration, happlied⟩
      rcases List.mem_append.1 hy with hy | hy
      · have hyscoped := h.counted y hy ((hsame y hy).1 happlied)
        exact absurd (hbefore y hy hyscoped _ hygeneration) (lt_irrefl _)
      · obtain rfl : y = x := by simpa using hy
        exact absurd happlied hnot
  next hold =>
    have hsession : ∃ v, s.session = some v ∧ v.generation = generation := by
      cases hs : s.session with
      | none => simp [hs] at hold
      | some v =>
        have hle := hlate v hs
        rw [hs] at hold
        simp only [Option.all_some, decide_eq_true_eq, not_lt] at hold
        exact ⟨v, rfl, le_antisymm hle hold⟩
    obtain ⟨v, hv, hvgeneration⟩ := hsession
    refine ⟨h.ignore hsame hnot fun _ => ⟨v, hv, fun g hg => ?_⟩, v, hv, hvgeneration⟩
    rw [hgeneration] at hg
    rw [hvgeneration, ← Option.some.inj hg]

theorem SlotInv.close {v : SessionView} (hv : s.session = some v) :
    SlotInv rk rows wasApplied ⟨some { v with closed := true }, none, s.applied, []⟩ where
  fresh := by simp
  bound v' hv' := by
    obtain rfl := Option.some.inj hv'
    exact h.bound v hv
  reached v' hv' := by
    obtain rfl := Option.some.inj hv'
    exact h.reached v hv
  counted := h.counted
  applied v' hv' := by
    obtain rfl := Option.some.inj hv'
    exact h.applied v hv
  current v' hv' hopen := by
    obtain rfl := Option.some.inj hv'
    cases hopen
  ordered := .nil
  closed _ _ _ := rfl
  rests hopen := absurd (hopen _ rfl) (by simp)

omit h

theorem nextCurrent_ordered {current : List (Observation × ℕ)}
    (h : current.Pairwise fun x y => x.2 < y.2) (hlast : ∀ y ∈ current, y.2 < x.2) :
    (Slot.nextCurrent rk current x).Pairwise fun x y => x.2 < y.2 := by
  rw [Slot.nextCurrent]
  split
  · rw [List.pairwise_append]
    exact ⟨h, List.pairwise_singleton _ _, by simpa using hlast⟩
  split
  · exact .nil
  · exact h

theorem SlotInv.applyRow (h : SlotInv rk rows wasApplied s) {v : SessionView}
    (hv : s.session = some v) (hopen : v.closed = false) (hmem : x ∈ rows) (hscoped : Scoped x.1)
    (hgeneration : x.1.source.generation = some v.generation) (hkind : x.1.kind = .routes)
    (hlast : ∀ y ∈ rows, y = x ∨ y.2 < x.2) (hnot : ¬wasApplied x)
    (happlied : ∀ y ∈ rows, wasApplied' y ↔ wasApplied y ∨ y = x) :
    SlotInv rk rows wasApplied' (s.applyRow rk v.generation x) := by
  have hbefore : ∀ y ∈ s.applied, y.2 < x.2 := by
    intro y hy
    obtain ⟨hrows, -, hwas⟩ := (h.applied v hv y).1 hy
    rcases hlast y hrows with rfl | hlt
    · exact absurd hwas hnot
    · exact hlt
  have hcurrent := h.current v hv hopen
  refine ⟨fun hs => ?_, h.bound, h.reached, ?_, ?_, ?_, ?_, ?_, ?_⟩
  · rw [Slot.applyRow, hv] at hs
    cases hs
  · intro y hy hyapplied
    rcases (happlied y hy).1 hyapplied with hyapplied | rfl
    · exact h.counted y hy hyapplied
    · exact hscoped
  · intro v' hv' y
    obtain rfl : v = v' := Option.some.inj (hv.symm.trans hv')
    simp only [Slot.applyRow, List.mem_append, List.mem_singleton, h.applied v hv y]
    constructor
    · rintro (⟨hy, hygeneration, hwas⟩ | rfl)
      · exact ⟨hy, hygeneration, (happlied y hy).2 (.inl hwas)⟩
      · exact ⟨hmem, hgeneration, (happlied y hmem).2 (.inr rfl)⟩
    · rintro ⟨hy, hygeneration, hwas⟩
      rcases (happlied y hy).1 hwas with hwas | rfl
      · exact .inl ⟨hy, hygeneration, hwas⟩
      · exact .inr rfl
  · intro v' hv' _ y
    simp only [Slot.applyRow, List.mem_append, List.mem_singleton]
    rw [Slot.nextCurrent]
    split
    next hannounces =>
      have hnot : ¬WithdrawsOnly rk x.1 := fun hw => by
        rw [WithdrawsOnly, hannounces.2] at hw
        cases hw.2.2
      rw [List.mem_append, List.mem_singleton, hcurrent y]
      constructor
      · rintro (⟨hy, hyannounces, hlater⟩ | rfl)
        · refine ⟨.inl hy, hyannounces, fun z hz hlt => ?_⟩
          rcases hz with hz | rfl
          · exact hlater z hz hlt
          · exact hnot
        · refine ⟨.inr rfl, hannounces, fun z hz hlt => ?_⟩
          rcases hz with hz | rfl
          · exact absurd (hbefore z hz) (not_lt.2 hlt.le)
          · exact absurd hlt (lt_irrefl _)
      · rintro ⟨hy | rfl, hyannounces, hlater⟩
        · exact .inl ⟨hy, hyannounces, fun z hz => hlater z (.inl hz)⟩
        · exact .inr rfl
    next hannounces =>
      split
      next hwithdraws =>
        refine ⟨by simp, ?_⟩
        rintro ⟨hy | rfl, hyannounces, hlater⟩
        · exact absurd hwithdraws (hlater x (.inr rfl) (hbefore y hy))
        · exact absurd hyannounces hannounces
      next hwithdraws =>
        rw [hcurrent y]
        constructor
        · rintro ⟨hy, hyannounces, hlater⟩
          refine ⟨.inl hy, hyannounces, fun z hz hlt => ?_⟩
          rcases hz with hz | rfl
          · exact hlater z hz hlt
          · exact hwithdraws
        · rintro ⟨hy | rfl, hyannounces, hlater⟩
          · exact ⟨hy, hyannounces, fun z hz => hlater z (.inl hz)⟩
          · exact absurd hyannounces hannounces
  · exact nextCurrent_ordered h.ordered fun y hy => hbefore y ((hcurrent y).1 hy).1
  · intro v' hv' hclosed
    obtain rfl : v = v' := Option.some.inj (hv.symm.trans hv')
    rw [hopen] at hclosed
    cases hclosed
  · intro hall
    have hdirection : x.1.source.direction ≠ none := fun hnone => hscoped.2 ⟨hkind, hnone⟩
    exact (h.rests hall).applyRow v.generation hdirection

end Invariant

section Steps

variable {rk : RouteKey} {rows : List (Observation × ℕ)} {wasApplied wasApplied' : Observation × ℕ → Prop}
  {s : Slot} {x : Observation × ℕ} {v : View} {c : Conflicts}

theorem applies_iff {generation : ℕ} {session : SessionView}
    (hpresent : ¬(x.1.kind = .routes ∧ x.1.source.direction = none))
    (hgeneration : x.1.source.generation = some generation)
    (hlate : ¬(s.session.any fun v => decide (generation < v.generation)) = true)
    (hsession : (s.advance generation x).session = some session) :
    s.Applies x ↔ session.closed = false ∧ x.1.kind = .routes := by
  have hopen : (∀ v ∈ s.session, v.generation < generation ∨
      v.generation = generation ∧ v.closed = false) ↔ session.closed = false := by
    rw [Slot.advance] at hsession
    cases hs : s.session with
    | none =>
      rw [hs] at hsession
      obtain rfl := Option.some.inj hsession
      simp [sessionView]
    | some v =>
      rw [hs] at hsession hlate
      simp only [Option.all_some, decide_eq_true_eq, Option.any_some, not_lt] at hsession hlate
      split at hsession
      next hlt =>
        obtain rfl := Option.some.inj hsession
        simp [hlt, sessionView]
      next hlt =>
        obtain rfl := Option.some.inj (hs.symm.trans hsession)
        have heq : v.generation = generation := le_antisymm hlate (not_lt.1 hlt)
        simp [heq]
  constructor
  · rintro ⟨hkind, -, g, hg, hall⟩
    obtain rfl := Option.some.inj (hgeneration.symm.trans hg)
    exact ⟨hopen.1 hall, hkind⟩
  · rintro ⟨hclosed, hkind⟩
    exact ⟨hkind, fun hnone => hpresent ⟨hkind, hnone⟩, generation, hgeneration, hopen.2 hclosed⟩

theorem SlotInv.take {session : SessionView} (h : SlotInv rk rows wasApplied s)
    (hs : s.session = some session) (hmem : x ∈ rows) (hscoped : Scoped x.1)
    (hgeneration : x.1.source.generation = some session.generation)
    (hlast : ∀ y ∈ rows, y = x ∨ y.2 < x.2) (hnot : ¬wasApplied x)
    (hbefore : ∀ y ∈ rows, y ≠ x → (wasApplied' y ↔ wasApplied y))
    (hx : wasApplied' x ↔ session.closed = false ∧ x.1.kind = .routes) :
    SlotInv rk rows wasApplied' (s.take rk session session.generation x) := by
  have hskip : ¬wasApplied' x → ∀ t, SlotInv rk rows wasApplied t → SlotInv rk rows wasApplied' t := by
    intro hskipped t ht
    refine ht.congr fun y hy => ?_
    by_cases hyx : y = x
    · subst hyx
      exact ⟨fun hyes => absurd hyes hskipped, fun hyes => absurd hyes hnot⟩
    · exact hbefore y hy hyx
  rw [Slot.take]
  cases hclosed : session.closed with
  | true => exact hskip (by simp [hx, hclosed]) s h
  | false =>
    rw [if_neg (by simp)]
    cases hkind : x.1.kind with
    | notification => exact hskip (by simp [hx, hkind]) _ (h.close hs)
    | routes =>
      refine h.applyRow hs hclosed hmem hscoped hgeneration hkind hlast hnot fun y hy => ?_
      by_cases hyx : y = x
      · subst hyx
        simp [hx, hclosed, hkind]
      · simp [hbefore y hy hyx, hyx]
    | reset => exact hskip (by simp [hx, hkind]) s h
    | openMessage => exact hskip (by simp [hx, hkind]) s h
    | keepalive => exact hskip (by simp [hx, hkind]) s h
    | routeRefresh => exact hskip (by simp [hx, hkind]) s h

theorem SlotInv.row (h : SlotInv rk rows wasApplied s) (hlast : ∀ y ∈ rows, y.2 < x.2)
    (hsame : ∀ y ∈ rows, wasApplied' y ↔ wasApplied y) (hx : wasApplied' x ↔ s.Applies x) :
    SlotInv rk (rows ++ [x]) wasApplied' (s.row false rk x) := by
  rw [Slot.row]
  cases hgeneration : x.1.source.generation with
  | none =>
    refine h.ignore hsame ?_ fun hscoped => ?_
    · rw [hx]
      rintro ⟨-, -, g, hg, -⟩
      rw [hgeneration] at hg
      cases hg
    · rw [Scoped, hgeneration] at hscoped
      cases hscoped.1
  | some generation =>
    simp only [Option.elim_some, Slot.scopedRow, Bool.false_eq_true, ↓reduceIte]
    split
    next hmissing =>
      refine h.ignore hsame ?_ fun hscoped => absurd hmissing hscoped.2
      rw [hx]
      exact fun happlies => happlies.2.1 hmissing.2
    next hpresent =>
      split
      next hlate =>
        obtain ⟨v, hv, hlt⟩ := (Option.any_eq_true _ _).1 hlate
        simp only [decide_eq_true_eq] at hlt
        refine h.ignore hsame ?_ fun _ => ⟨v, hv, fun g hg => ?_⟩
        · rw [hx]
          rintro ⟨-, -, g, hg, hall⟩
          obtain rfl := Option.some.inj (hgeneration.symm.trans hg)
          rcases hall v hv with hless | ⟨heq, -⟩
          · exact absurd hless (not_lt.2 hlt.le)
          · exact absurd heq hlt.ne'
        · obtain rfl := Option.some.inj (hgeneration.symm.trans hg)
          exact hlt.le
      next hlate =>
        split
        next hreset =>
          obtain ⟨v, hv, hle⟩ := (Option.any_eq_true _ _).1 hreset.2
          simp only [decide_eq_true_eq] at hle
          refine h.ignore hsame ?_ fun _ => ⟨v, hv, fun g hg => ?_⟩
          · rw [hx]
            intro happlies
            rw [happlies.1] at hreset
            cases hreset.1
          · obtain rfl := Option.some.inj (hgeneration.symm.trans hg)
            exact hle
        next hadvancing =>
          have hscoped : Scoped x.1 := ⟨by simp [hgeneration], hpresent⟩
          have hbehind : ∀ v ∈ s.session, v.generation ≤ generation := by
            intro v hv
            rw [hv] at hlate
            simpa using hlate
          have hx_rows : x ∉ rows := fun hmem => lt_irrefl _ (hlast x hmem)
          have hsame' : ∀ y ∈ rows, (wasApplied' y ∧ y ≠ x) ↔ wasApplied y := by
            intro y hy
            rw [hsame y hy]
            exact ⟨fun hyes => hyes.1, fun hyes => ⟨hyes, fun heq => hx_rows (heq ▸ hy)⟩⟩
          obtain ⟨hinv, session, hsession, rfl⟩ := h.advance
            hsame' (fun hyes => hyes.2 rfl) hscoped hgeneration
            hbehind
          simp only [hsession, Option.getD_some]
          refine hinv.take hsession (by simp) hscoped hgeneration ?_ (by simp) ?_ ?_
          · intro y hy
            rcases List.mem_append.1 hy with hy | hy
            · exact .inr (hlast y hy)
            · exact .inl (by simpa using hy)
          · intro y _ hyx
            simp [hyx]
          · rw [hx]
            exact applies_iff hpresent hgeneration hlate hsession

end Steps

end PcapEvidence.Candidate
