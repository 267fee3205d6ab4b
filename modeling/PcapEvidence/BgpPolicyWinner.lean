import PcapEvidence.BgpPolicyOrder
import PcapEvidence.BgpPolicyEvaluate

/-!
# The winner of the comparisons

The scan counts for every candidate the comparisons that it wins. With different identifiers a candidate
takes part in as many comparisons as there are others, so the count is reached by the candidate that
wins against all of them, and there is at most one.
-/

namespace PcapEvidence.Bgp.Policy

open Json OrderedMap

section Scan

variable {config : PolicyConfig}

def winner (c : Comparison) : Option String :=
  match c.result with
  | .left => some c.leftId
  | .right => some c.rightId
  | _ => none

def winsOf (s : PairScan) (id : String) : ℕ := (s.wins.get? id).getD 0

theorem winsOf_note (s : PairScan) (c : Comparison) (id : String) :
    winsOf (s.note c) id = winsOf s id + if winner c = some id then 1 else 0 := by
  have hwin : ∀ other : String, ((win s.wins other).get? id).getD 0 =
      winsOf s id + if some other = some id then 1 else 0 := by
    intro other
    unfold win winsOf
    rw [OrdMap.get?_insert]
    by_cases h : id = other
    · subst h
      rw [if_pos rfl, if_pos rfl]
      rfl
    · rw [if_neg h, if_neg fun heq => h (Option.some.inj heq).symm]
      rfl
  unfold PairScan.note winner
  cases c.result with
  | left => exact hwin c.leftId
  | right => exact hwin c.rightId
  | equal | skipped | unresolved => rfl

theorem unresolved_note (s : PairScan) (c : Comparison) : (s.note c).unresolved =
    s.unresolved ++ if winner c = none then [incomparable c] else [] := by
  unfold PairScan.note winner
  cases c.result with
  | left | right => exact (List.append_nil _).symm
  | equal | skipped | unresolved => rfl

structure PairScan.Records (s : PairScan) (notes : List String) (comparisons : List Comparison) :
    Prop where
  wins : ∀ id, winsOf s id = comparisons.countP (winner · = some id)
  unresolved : s.unresolved = notes ++ (comparisons.filter (winner · = none)).map incomparable

theorem PairScan.Records.step {s t : PairScan} {notes : List String} {comparisons : List Comparison}
    {limit : ℕ} {p : PolicyCandidate × PolicyCandidate} (h : s.Records notes comparisons)
    (hok : comparePair config limit s p = .ok t) :
    t.Records notes (comparisons ++ [compare p.1 p.2 config]) := by
  unfold comparePair at hok
  obtain ⟨separated, _, hok⟩ := bind_eq_ok.1 hok
  obtain ⟨remaining, _, hok⟩ := bind_eq_ok.1 hok
  obtain ⟨size, _, hok⟩ := bind_eq_ok.1 hok
  obtain ⟨bytes, _, hok⟩ := bind_eq_ok.1 hok
  obtain rfl := Except.ok.inj hok
  constructor
  · intro id
    rw [winsOf_note, List.countP_append, List.countP_singleton]
    have hwins : winsOf { s with bytes := bytes, compared := s.compared + 1 } id = winsOf s id := rfl
    rw [hwins, h.wins id]
    simp only [decide_eq_true_eq]
  · rw [unresolved_note, List.filter_append, List.map_append, ← List.append_assoc]
    have hnotes : ({ s with bytes := bytes, compared := s.compared + 1 } : PairScan).unresolved =
      s.unresolved := rfl
    rw [hnotes, h.unresolved]
    by_cases hnone : winner (compare p.1 p.2 config) = none
    · simp [hnone]
    · simp [hnone]

theorem PairScan.Records.run {s t : PairScan} {notes : List String} {comparisons : List Comparison}
    {limit : ℕ} {pairs : List (PolicyCandidate × PolicyCandidate)} (h : s.Records notes comparisons)
    (hok : pairs.foldlM (comparePair config limit) s = .ok t) :
    t.Records notes (comparisons ++ pairs.map fun p => compare p.1 p.2 config) := by
  induction pairs generalizing s comparisons with
  | nil =>
    cases hok
    rwa [List.map_nil, List.append_nil]
  | cons p rest ih =>
    rw [List.foldlM_cons] at hok
    obtain ⟨u, hstep, hok⟩ := bind_eq_ok.1 hok
    have hrest := ih (h.step hstep) hok
    rwa [List.append_assoc, List.singleton_append] at hrest

end Scan

section Dominance

variable (config : PolicyConfig)

def comparisonsOf (active : List PolicyCandidate) : List Comparison :=
  (pairsOf active).map fun p => compare p.1 p.2 config

def Beats (c d : PolicyCandidate) : Prop := (compare c d config).result = .left

instance (c d : PolicyCandidate) : Decidable (Beats config c d) := inferInstanceAs (Decidable (_ = _))

/-- The candidate wins against every other one. -/
def Dominates (active : List PolicyCandidate) (c : PolicyCandidate) : Prop :=
  ∀ d ∈ active, d.id ≠ c.id → Beats config c d

def Distinct (l : List PolicyCandidate) : Prop := (l.map (·.id)).Nodup

variable {config} {c d : PolicyCandidate} {l before after : List PolicyCandidate}

theorem distinct_cons : Distinct (c :: l) ↔ (∀ d ∈ l, d.id ≠ c.id) ∧ Distinct l := by
  unfold Distinct
  rw [List.map_cons, List.nodup_cons]
  apply and_congr_left
  intro _
  constructor
  · intro hnot d hd heq
    exact hnot (List.mem_map.2 ⟨d, hd, heq⟩)
  · intro hall hmem
    obtain ⟨d, hd, heq⟩ := List.mem_map.1 hmem
    exact hall d hd heq

theorem Distinct.middle (h : Distinct (before ++ c :: after)) :
    ∀ d ∈ before ++ after, d.id ≠ c.id := by
  have hperm : Distinct (c :: (before ++ after)) :=
    (List.Perm.map PolicyCandidate.id List.perm_middle).nodup_iff.1 h
  exact (distinct_cons.1 hperm).1

theorem mem_around (h : d ∈ before ++ after) : d ∈ before ++ c :: after := by
  rcases List.mem_append.1 h with hd | hd
  · exact List.mem_append_left _ hd
  · exact List.mem_append_right _ (List.mem_cons_of_mem _ hd)

theorem compare_ids (c d : PolicyCandidate) :
    (compare c d config).leftId = c.id ∧ (compare c d config).rightId = d.id := ⟨rfl, rfl⟩

theorem beats_iff_right : (compare d c config).result = .right ↔ Beats config c d := by
  unfold Beats
  rw [compare_mirror config c d, Comparison.mirror]
  dsimp only
  cases (compare c d config).result <;> decide

theorem Beats.asymm (h : Beats config c d) : ¬ Beats config d c := by
  intro hback
  have hright := beats_iff_right.2 h
  unfold Beats at hback
  rw [hback] at hright
  cases hright

theorem winner_left (h : d.id ≠ c.id) :
    winner (compare c d config) = some c.id ↔ Beats config c d := by
  unfold Beats winner
  rw [(compare_ids c d).1, (compare_ids c d).2]
  cases (compare c d config).result with
  | left => exact ⟨fun _ => rfl, fun _ => rfl⟩
  | right => exact ⟨fun heq => absurd (Option.some.inj heq) h, nofun⟩
  | equal | skipped | unresolved => exact ⟨nofun, nofun⟩

theorem winner_right (h : d.id ≠ c.id) :
    winner (compare d c config) = some c.id ↔ Beats config c d := by
  rw [← beats_iff_right]
  unfold winner
  rw [(compare_ids d c).1, (compare_ids d c).2]
  cases (compare d c config).result with
  | left => exact ⟨fun heq => absurd (Option.some.inj heq) h, nofun⟩
  | right => exact ⟨fun _ => rfl, fun _ => rfl⟩
  | equal | skipped | unresolved => exact ⟨nofun, nofun⟩

theorem winner_other {id : String} (hc : c.id ≠ id) (hd : d.id ≠ id) :
    winner (compare c d config) ≠ some id := by
  unfold winner
  rw [(compare_ids c d).1, (compare_ids c d).2]
  cases (compare c d config).result with
  | left => exact fun heq => hc (Option.some.inj heq)
  | right => exact fun heq => hd (Option.some.inj heq)
  | equal | skipped | unresolved => exact nofun

theorem comparisonsOf_cons (c : PolicyCandidate) (l : List PolicyCandidate) :
    comparisonsOf config (c :: l) = l.map (compare c · config) ++ comparisonsOf config l := by
  unfold comparisonsOf
  rw [pairsOf, List.map_append, List.map_map]
  rfl

theorem countP_absent {id : String} (h : ∀ d ∈ l, d.id ≠ id) :
    (comparisonsOf config l).countP (winner · = some id) = 0 := by
  induction l with
  | nil => rfl
  | cons d rest ih =>
    rw [comparisonsOf_cons, List.countP_append, ih fun e he => h e (List.mem_cons_of_mem _ he),
      Nat.add_zero, List.countP_eq_zero]
    intro comparison hmem
    obtain ⟨e, he, rfl⟩ := List.mem_map.1 hmem
    have hother : winner (compare d e config) ≠ some id :=
      winner_other (h d List.mem_cons_self) (h e (List.mem_cons_of_mem _ he))
    simpa using hother

theorem countP_comparisonsOf (h : Distinct (before ++ c :: after)) :
    (comparisonsOf config (before ++ c :: after)).countP (winner · = some c.id) =
      (before ++ after).countP (Beats config c ·) := by
  induction before with
  | nil =>
    obtain ⟨hids, _⟩ := distinct_cons.1 h
    rw [List.nil_append, List.nil_append, comparisonsOf_cons, List.countP_append,
      countP_absent hids, Nat.add_zero, List.countP_map]
    apply List.countP_congr
    intro d hd
    simpa using winner_left (hids d hd)
  | cons b before ih =>
    obtain ⟨hids, hrest⟩ := distinct_cons.1 h
    have hc : c.id ≠ b.id := hids c (List.mem_append_right _ List.mem_cons_self)
    have hothers := hrest.middle
    have hnone : ∀ part : List PolicyCandidate, part ⊆ before ++ after →
        (part.map (compare b · config)).countP (winner · = some c.id) = 0 := by
      intro part hpart
      rw [List.countP_eq_zero]
      intro comparison hmem
      obtain ⟨d, hd, rfl⟩ := List.mem_map.1 hmem
      have hother : winner (compare b d config) ≠ some c.id :=
        winner_other (Ne.symm hc) (hothers d (hpart hd))
      simpa using hother
    have hfirst : ((before ++ c :: after).map (compare b · config)).countP (winner · = some c.id) =
        if Beats config c b then 1 else 0 := by
      rw [List.map_append, List.map_cons, List.countP_append, List.countP_cons,
        hnone before (List.subset_append_left _ _), hnone after (List.subset_append_right _ _)]
      simp only [decide_eq_true_eq, winner_right (Ne.symm hc), Nat.zero_add]
    rw [List.cons_append, comparisonsOf_cons, List.countP_append, hfirst, ih hrest,
      List.cons_append, List.countP_cons, Nat.add_comm]
    simp only [decide_eq_true_eq]

theorem mem_dominators {s : PairScan} (hdistinct : Distinct l)
    (hwins : ∀ id, winsOf s id = (comparisonsOf config l).countP (winner · = some id)) :
    c ∈ dominators l s.wins ↔ c ∈ l ∧ Dominates config l c := by
  unfold dominators
  rw [List.mem_filter]
  apply and_congr_right
  intro hmem
  obtain ⟨before, after, rfl⟩ := List.append_of_mem hmem
  have hcount := (hwins c.id).trans (countP_comparisonsOf hdistinct)
  have hlength : (before ++ c :: after).length - 1 = (before ++ after).length := by
    rw [List.length_append, List.length_append, List.length_cons]
    omega
  unfold winsOf at hcount
  rw [decide_eq_true_eq, hcount, hlength, List.countP_eq_length]
  constructor
  · intro hall d hd hne
    rcases List.mem_append.1 hd with hd | hd
    · exact of_decide_eq_true (hall d (List.mem_append_left _ hd))
    · rcases List.mem_cons.1 hd with rfl | hd
      · exact absurd rfl hne
      · exact of_decide_eq_true (hall d (List.mem_append_right _ hd))
  · intro hdominates d hd
    exact decide_eq_true (hdominates d (mem_around hd) (hdistinct.middle d hd))

theorem eq_of_id (hdistinct : Distinct l) (hc : c ∈ l) (hd : d ∈ l) (hid : c.id = d.id) : c = d :=
  List.inj_on_of_nodup_map hdistinct hc hd hid

theorem dominators_eq {s : PairScan} (hdistinct : Distinct l)
    (hwins : ∀ id, winsOf s id = (comparisonsOf config l).countP (winner · = some id))
    (hc : c ∈ l) (hdominates : Dominates config l c) : dominators l s.wins = [c] := by
  have honly : ∀ d ∈ dominators l s.wins, d = c := by
    intro d hd
    obtain ⟨hmem, hother⟩ := (mem_dominators hdistinct hwins).1 hd
    by_contra hne
    have hids : d.id ≠ c.id := fun heq => hne (eq_of_id hdistinct hmem hc heq)
    exact (hdominates d hmem hids).asymm (hother c hc (Ne.symm hids))
  have hin : c ∈ dominators l s.wins := (mem_dominators hdistinct hwins).2 ⟨hc, hdominates⟩
  have hnodup : (dominators l s.wins).Nodup := (List.Nodup.of_map _ hdistinct).filter _
  obtain ⟨before, after, hsplit⟩ := List.append_of_mem hin
  rw [hsplit] at honly hnodup ⊢
  have hnodup' := List.nodup_middle.1 hnodup
  obtain ⟨hnot, _⟩ := List.nodup_cons.1 hnodup'
  have hnil : before ++ after = [] := by
    apply List.eq_nil_iff_forall_not_mem.2
    intro d hd
    rw [honly d (mem_around hd)] at hd
    exact hnot hd
  obtain ⟨rfl, rfl⟩ := List.append_eq_nil_iff.1 hnil
  rfl

end Dominance

end PcapEvidence.Bgp.Policy
