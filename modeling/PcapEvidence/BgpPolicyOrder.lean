import PcapEvidence.BgpPolicy
import PcapEvidence.Cascade

/-!
# The order behind a policy

A comparison is the mirror image of the comparison the other way round, and its result is that of a
cascade of ten criteria. Where MED is compared for all candidates or for none, every criterion composes,
so the comparisons that decide are transitive.
-/

namespace PcapEvidence.Bgp.Policy

open Cascade

section Mirror

def StepResult.mirror : StepResult → StepResult
  | .left => .right
  | .right => .left
  | r => r

def TraceStep.mirror (s : TraceStep) : TraceStep :=
  { s with left := s.right, right := s.left, result := s.result.mirror }

def Comparison.mirror (c : Comparison) : Comparison where
  leftId := c.rightId
  rightId := c.leftId
  steps := c.steps.map TraceStep.mirror
  result := c.result.mirror

def Values.mirror (v : Values) : Values := { v with left := v.right, right := v.left }

variable (config : PolicyConfig) (a b : BestPathInputs)

@[simp] theorem mirror_eq_equal (r : StepResult) : r.mirror = .equal ↔ r = .equal := by
  cases r <;> decide

@[simp] theorem decides_mirror (r : StepResult) : r.mirror.decides = r.decides := by
  cases r <;> rfl

theorem compareNumber_mirror (x y : Option ℕ) (higher : Bool) :
    compareNumber y x higher = (compareNumber x y higher).mirror := by
  cases x with
  | none => cases y <;> rfl
  | some x =>
    cases y with
    | none => rfl
    | some y =>
      simp only [compareNumber]
      rcases Nat.lt_trichotomy x y with h | h | h
      · have hgt : decide (y > x) = true := decide_eq_true h
        have hnot : decide (x > y) = false := decide_eq_false (by omega)
        rw [if_neg (Nat.ne_of_gt h), if_neg (Nat.ne_of_lt h), hgt, hnot]
        cases higher <;> rfl
      · subst h
        rw [if_pos rfl]
        rfl
      · have hgt : decide (x > y) = true := decide_eq_true h
        have hnot : decide (y > x) = false := decide_eq_false (by omega)
        rw [if_neg (Nat.ne_of_lt h), if_neg (Nat.ne_of_gt h), hgt, hnot]
        cases higher <;> rfl

theorem compareTie_mirror (x y : Option ℕ) : compareTie y x = (compareTie x y).mirror := by
  cases x with
  | none => cases y <;> rfl
  | some x =>
    cases y with
    | none => rfl
    | some y =>
      simp only [compareTie]
      rcases Nat.lt_trichotomy x y with h | h | h
      · rw [if_neg (by omega), if_pos h, if_pos h]
        rfl
      · subst h
        rw [if_neg (by omega), if_neg (by omega)]
        rfl
      · rw [if_pos h, if_neg (by omega), if_pos h]
        rfl

theorem values_mirror : values config b a = (values config a b).map Values.mirror := rfl

theorem judge_mirror (index : ℕ) (v : Values) : judge config b a index v.mirror =
    ((judge config a b index v).1.mirror, (judge config a b index v).2) := by
  have hnumber : compareNumber v.mirror.left v.mirror.right v.mirror.higher =
      (compareNumber v.left v.right v.higher).mirror := compareNumber_mirror _ _ _
  have horigin : (b.origin.any (· > 2) ∨ a.origin.any (· > 2)) ↔
      (a.origin.any (· > 2) ∨ b.origin.any (· > 2)) := or_comm
  have hneighbor : (b.neighboringAs = none ∨ a.neighboringAs = none) ↔
      (a.neighboringAs = none ∨ b.neighboringAs = none) := or_comm
  have hdifferent : b.neighboringAs ≠ a.neighboringAs ↔ a.neighboringAs ≠ b.neighboringAs := ne_comm
  have hclock : b.age.map (·.clockId) ≠ a.age.map (·.clockId) ↔
      a.age.map (·.clockId) ≠ b.age.map (·.clockId) := ne_comm
  unfold judge
  simp only [horigin, hneighbor, hdifferent, hclock, hnumber,
    compareTie_mirror (a.age.map (·.observedOrder))]
  split
  · rfl
  split
  · rfl
  split
  · rfl
  split
  · split
    · rfl
    split <;> rfl
  split
  · rfl
  split
  · rfl
  split <;> rfl

theorem stepAt_mirror (index : ℕ) (v : Values) (decided : StepResult) :
    stepAt config b a index v.mirror decided.mirror = (stepAt config a b index v decided).mirror := by
  unfold stepAt TraceStep.mirror
  simp only [ne_eq, mirror_eq_equal, judge_mirror]
  by_cases h : decided = .equal
  · rw [if_neg (not_not.2 h), if_neg (not_not.2 h)]
    rfl
  · rw [if_pos h, if_pos h]
    rfl

theorem judgeTie_mirror (index : ℕ) (v : Option ℕ × Option ℕ) : judgeTie b a index v.swap =
    ((judgeTie a b index v).1.mirror, (judgeTie a b index v).2) := by
  have hfamily : b.neighborAddress.map ipFamily ≠ a.neighborAddress.map ipFamily ↔
      a.neighborAddress.map ipFamily ≠ b.neighborAddress.map ipFamily := ne_comm
  unfold judgeTie
  simp only [hfamily, Prod.fst_swap, Prod.snd_swap, compareTie_mirror v.1 v.2]
  split <;> rfl

theorem tieStepAt_mirror (index : ℕ) (v : Option ℕ × Option ℕ) (decided : StepResult) :
    tieStepAt b a index v.swap decided.mirror = (tieStepAt a b index v decided).mirror := by
  unfold tieStepAt TraceStep.mirror
  simp only [ne_eq, mirror_eq_equal, judgeTie_mirror]
  by_cases h : decided = .equal
  · rw [if_neg (not_not.2 h), if_neg (not_not.2 h)]
    rfl
  · rw [if_pos h, if_pos h]
    rfl

def Mirrors (f g : StepResult → TraceStep) : Prop := ∀ decided, g decided.mirror = (f decided).mirror

theorem runSteps_mirror {fs gs : List (StepResult → TraceStep)} (h : List.Forall₂ Mirrors fs gs)
    (decided : StepResult) : runSteps gs decided.mirror =
      ((runSteps fs decided).1.map TraceStep.mirror, (runSteps fs decided).2.mirror) := by
  induction h generalizing decided with
  | nil => rfl
  | @cons f g fs gs hfg _ ih =>
    have hresult : (g decided.mirror).result = (f decided).result.mirror := by
      rw [hfg decided]
      rfl
    have hnext : (if (g decided.mirror).result.decides then (g decided.mirror).result
        else decided.mirror) =
        (if (f decided).result.decides then (f decided).result else decided).mirror := by
      rw [hresult, decides_mirror]
      split <;> rfl
    rw [runSteps, runSteps]
    dsimp only
    rw [hnext, ih, hfg decided]
    rfl

theorem forall₂_mapIdx {α β γ : Type} {R : β → γ → Prop} {f : ℕ → α → β} {g : ℕ → α → γ} {l : List α}
    (h : ∀ i a, R (f i a) (g i a)) : List.Forall₂ R (l.mapIdx f) (l.mapIdx g) := by
  induction l generalizing f g with
  | nil => exact List.Forall₂.nil
  | cons a l ih =>
    rw [List.mapIdx_cons, List.mapIdx_cons]
    exact List.Forall₂.cons (h 0 a) (ih fun i a => h (i + 1) a)

theorem mapIdx_mirror {α : Type} (l : List α) (m : α → α) (f : ℕ → α → StepResult → TraceStep) :
    (l.map m).mapIdx f = l.mapIdx fun i v => f i (m v) := by
  induction l generalizing f with
  | nil => rfl
  | cons a l ih =>
    rw [List.map_cons, List.mapIdx_cons, List.mapIdx_cons, ih]

theorem allSteps_mirrors : List.Forall₂ Mirrors (allSteps config a b) (allSteps config b a) := by
  have htie : tieValues b a = (tieValues a b).map Prod.swap := rfl
  unfold allSteps
  rw [values_mirror config a b, htie, mapIdx_mirror, mapIdx_mirror]
  apply List.rel_append
  · exact forall₂_mapIdx fun index v decided => stepAt_mirror config a b index v decided
  · exact forall₂_mapIdx fun index v decided => tieStepAt_mirror a b index v decided

theorem compare_mirror (left right : PolicyCandidate) :
    compare right left config = (compare left right config).mirror := by
  have hrun := runSteps_mirror (allSteps_mirrors config left.inputs right.inputs) .equal
  change runSteps (allSteps config right.inputs left.inputs) .equal = _ at hrun
  unfold compare Comparison.mirror
  rw [hrun]

end Mirror

section Criteria

def standing : StepResult → Option Ordering
  | .left => some .lt
  | .right => some .gt
  | .equal | .skipped => some .eq
  | .unresolved => none

variable (config : PolicyConfig)

def medCriterion : Criterion BestPathInputs :=
  match config.medRule with
  | none => unknown
  | some .skip => skipped
  | some .compareAll => byNumber fun a => a.med.map (·.value.toNat)
  | some .sameNeighborAs => fun a b =>
    if a.neighboringAs = none ∨ b.neighboringAs = none then none
    else if a.neighboringAs ≠ b.neighboringAs then some .eq
    else byNumber (fun a => a.med.map (·.value.toNat)) a b

def ageCriterion : Criterion BestPathInputs :=
  match config.ageRule with
  | none => unknown
  | some .skip => skipped
  | some .sameClock => within (fun a => a.age.map (·.clockId))
    (byNumber fun a => a.age.map (·.observedOrder))

def validOrigin (a : BestPathInputs) : Option ℕ :=
  (a.origin.filter fun value => ¬ value > 2).map BitVec.toNat

def criteria : List (Criterion BestPathInputs) :=
  [byLarger fun a => (a.localPreference.or config.missingLocalPreference).map BitVec.toNat,
    byLarger fun a => a.locallyOriginated.map ofBool,
    byNumber fun a => a.asPathLength.map BitVec.toNat,
    byNumber validOrigin,
    medCriterion config,
    byLarger fun a => a.ebgp.map ofBool,
    byNumber fun a => a.igpMetric.map BitVec.toNat,
    ageCriterion config,
    byNumber fun a => a.routerId.map BitVec.toNat,
    within (fun a => a.neighborAddress.map ipFamily) (byNumber fun a => a.neighborAddress.map ipNumber)]

theorem standing_lower (x y : Option ℕ) : standing (compareNumber x y false) =
    x.bind fun m => y.map fun n => Ord.compare m n := by
  cases x with
  | none => rfl
  | some m =>
    cases y with
    | none => rfl
    | some n =>
      simp only [compareNumber, Option.bind_some, Option.map_some]
      rcases Nat.lt_trichotomy m n with h | h | h
      · rw [if_neg (Nat.ne_of_lt h), decide_eq_false (by omega), if_pos rfl, Nat.compare_eq_lt.2 h]
        rfl
      · rw [if_pos h, Nat.compare_eq_eq.2 h]
        rfl
      · rw [if_neg (Nat.ne_of_gt h), decide_eq_true h, if_neg (by decide), Nat.compare_eq_gt.2 h]
        rfl

theorem standing_higher (x y : Option ℕ) : standing (compareNumber x y true) =
    y.bind fun n => x.map fun m => Ord.compare n m := by
  cases x with
  | none => cases y <;> rfl
  | some m =>
    cases y with
    | none => rfl
    | some n =>
      simp only [compareNumber, Option.bind_some, Option.map_some]
      rcases Nat.lt_trichotomy m n with h | h | h
      · rw [if_neg (Nat.ne_of_lt h), decide_eq_false (by omega), if_neg (by decide),
          Nat.compare_eq_gt.2 h]
        rfl
      · rw [if_pos h, Nat.compare_eq_eq.2 h.symm]
        rfl
      · rw [if_neg (Nat.ne_of_gt h), decide_eq_true h, if_pos rfl, Nat.compare_eq_lt.2 h]
        rfl

theorem standing_tie (x y : Option ℕ) : standing (compareTie x y) =
    x.bind fun m => y.map fun n => Ord.compare m n := by
  cases x with
  | none => rfl
  | some m =>
    cases y with
    | none => rfl
    | some n =>
      simp only [compareTie, Option.bind_some, Option.map_some]
      rcases Nat.lt_trichotomy m n with h | h | h
      · rw [if_pos h, Nat.compare_eq_lt.2 h]
        rfl
      · rw [if_neg (by omega), if_neg (by omega), Nat.compare_eq_eq.2 h]
        rfl
      · rw [if_neg (by omega), if_pos h, Nat.compare_eq_gt.2 h]
        rfl

structure Stands (a b : BestPathInputs) (f : StepResult → TraceStep) (c : Criterion BestPathInputs) :
    Prop where
  reached : standing (f .equal).result = c a b
  behind : ∀ decided, decided ≠ .equal → (f decided).result = .skipped

variable {a b : BestPathInputs}

theorem stands_stepAt {index : ℕ} {v : Values} {c : Criterion BestPathInputs}
    (h : standing (judge config a b index v).1 = c a b) :
    Stands a b (stepAt config a b index v) c := by
  constructor
  · unfold stepAt
    exact h
  · intro decided hne
    unfold stepAt
    simp only [if_pos hne]

theorem stands_tieStepAt {index : ℕ} {v : Option ℕ × Option ℕ} {c : Criterion BestPathInputs}
    (h : standing (judgeTie a b index v).1 = c a b) : Stands a b (tieStepAt a b index v) c := by
  constructor
  · unfold tieStepAt
    exact h
  · intro decided hne
    unfold tieStepAt
    simp only [if_pos hne]

theorem judge_plain {index : ℕ} {v : Values} (h3 : index ≠ 3) (h4 : index ≠ 4) (h7 : index ≠ 7) :
    judge config a b index v = (compareNumber v.left v.right v.higher, none) := by
  unfold judge
  simp only [h3, h4, h7, false_and, or_self, if_false]

theorem validOrigin_none (h : a.origin.any (· > 2)) : validOrigin a = none := by
  unfold validOrigin
  cases ha : a.origin with
  | none => rfl
  | some x =>
    rw [ha] at h
    have hx : x > 2 := of_decide_eq_true h
    rw [Option.filter_some_neg (by simpa using hx)]
    rfl

theorem validOrigin_some (h : ¬ a.origin.any (· > 2)) :
    validOrigin a = a.origin.map BitVec.toNat := by
  unfold validOrigin
  cases ha : a.origin with
  | none => rfl
  | some x =>
    rw [ha] at h
    have hx : ¬ x > 2 := fun hx => h (decide_eq_true hx)
    rw [Option.filter_some_pos (by simpa using hx)]

theorem judge_origin {v : Values} (hv : v.left = a.origin.map BitVec.toNat)
    (hv' : v.right = b.origin.map BitVec.toNat) (hlower : v.higher = false) :
    standing (judge config a b 3 v).1 = byNumber validOrigin a b := by
  have hrule : judge config a b 3 v =
      if a.origin.any (· > 2) ∨ b.origin.any (· > 2) then
        (.unresolved, some "origin_missing_or_invalid")
      else (compareNumber v.left v.right v.higher, none) := by
    unfold judge
    simp
  rw [hrule]
  by_cases hinvalid : a.origin.any (· > 2) ∨ b.origin.any (· > 2)
  · rw [if_pos hinvalid]
    unfold byNumber
    rcases hinvalid with ha | hb
    · rw [validOrigin_none ha]
      rfl
    · rw [validOrigin_none hb]
      cases validOrigin a <;> rfl
  · obtain ⟨ha, hb⟩ := not_or.1 hinvalid
    rw [if_neg hinvalid, hv, hv', hlower]
    unfold byNumber
    rw [validOrigin_some ha, validOrigin_some hb]
    exact standing_lower _ _

theorem judge_med {v : Values} (hv : v.left = a.med.map (·.value.toNat))
    (hv' : v.right = b.med.map (·.value.toNat)) (hlower : v.higher = false) :
    standing (judge config a b 4 v).1 = medCriterion config a b := by
  unfold judge medCriterion
  rcases config.medRule with _ | (_ | _ | _)
  · simp [standing, unknown]
  · simp only [hv, hv', hlower]
    by_cases hnone : a.neighboringAs = none ∨ b.neighboringAs = none
    · simp [hnone, standing]
    by_cases hsame : a.neighboringAs = b.neighboringAs
    · have hpresent : b.neighboringAs ≠ none := fun h => hnone (.inr h)
      simp [hsame, hpresent, standing_lower, byNumber]
    · simp [hnone, hsame, standing]
  · simp [hv, hv', hlower, standing_lower, byNumber]
  · simp [standing, skipped]

theorem judge_age {v : Values} : standing (judge config a b 7 v).1 = ageCriterion config a b := by
  unfold judge ageCriterion
  rcases config.ageRule with _ | (_ | _)
  · simp [standing, unknown]
  · by_cases hclock : a.age.map (·.clockId) = b.age.map (·.clockId)
    · simp [hclock, within, standing_tie, byNumber]
    · simp [hclock, within, standing]
  · simp [standing, skipped]

theorem judgeTie_router : standing (judgeTie a b 0
      (a.routerId.map BitVec.toNat, b.routerId.map BitVec.toNat)).1 =
    byNumber (fun a => a.routerId.map BitVec.toNat) a b := by
  unfold judgeTie
  rw [if_neg fun h => absurd h.1 (by decide)]
  exact standing_tie _ _

theorem judgeTie_neighbor : standing (judgeTie a b 1
      (a.neighborAddress.map ipNumber, b.neighborAddress.map ipNumber)).1 =
    within (fun a => a.neighborAddress.map ipFamily)
      (byNumber fun a => a.neighborAddress.map ipNumber) a b := by
  unfold judgeTie within
  by_cases hfamily : a.neighborAddress.map ipFamily = b.neighborAddress.map ipFamily
  · rw [if_neg (fun h => h.2 hfamily), if_pos hfamily]
    exact standing_tie _ _
  · rw [if_pos ⟨rfl, hfamily⟩, if_neg hfamily]
    rfl

theorem allSteps_stand : List.Forall₂ (Stands a b) (allSteps config a b) (criteria config) := by
  unfold allSteps criteria values tieValues
  simp only [List.mapIdx_cons, List.mapIdx_nil, List.cons_append, List.nil_append, Nat.zero_add,
    Nat.reduceAdd]
  have hhigher : ∀ (index : ℕ) (v : Values) (c : Criterion BestPathInputs), index ≠ 3 → index ≠ 4 →
      index ≠ 7 → standing (compareNumber v.left v.right v.higher) = c a b →
      Stands a b (stepAt config a b index v) c := by
    intro index v c h3 h4 h7 h
    apply stands_stepAt
    rw [judge_plain config h3 h4 h7]
    exact h
  apply List.Forall₂.cons (hhigher 0 _ _ (by decide) (by decide) (by decide) (standing_higher _ _))
  apply List.Forall₂.cons (hhigher 1 _ _ (by decide) (by decide) (by decide) (standing_higher _ _))
  apply List.Forall₂.cons (hhigher 2 _ _ (by decide) (by decide) (by decide) (standing_lower _ _))
  apply List.Forall₂.cons (stands_stepAt config (judge_origin config rfl rfl rfl))
  apply List.Forall₂.cons (stands_stepAt config (judge_med config rfl rfl rfl))
  apply List.Forall₂.cons (hhigher 5 _ _ (by decide) (by decide) (by decide) (standing_higher _ _))
  apply List.Forall₂.cons (hhigher 6 _ _ (by decide) (by decide) (by decide) (standing_lower _ _))
  apply List.Forall₂.cons (stands_stepAt config (judge_age config))
  apply List.Forall₂.cons (stands_tieStepAt judgeTie_router)
  exact List.Forall₂.cons (stands_tieStepAt judgeTie_neighbor) List.Forall₂.nil

theorem runSteps_decided {fs : List (StepResult → TraceStep)} {cs : List (Criterion BestPathInputs)}
    (h : List.Forall₂ (Stands a b) fs cs) {decided : StepResult} (hne : decided ≠ .equal) :
    (runSteps fs decided).2 = decided := by
  induction h with
  | nil => rfl
  | cons hf _ ih =>
    rw [runSteps]
    dsimp only
    rw [hf.behind decided hne]
    exact ih

theorem runSteps_cascade {fs : List (StepResult → TraceStep)} {cs : List (Criterion BestPathInputs)}
    (h : List.Forall₂ (Stands a b) fs cs) :
    standing (runSteps fs .equal).2 = cascade cs a b ∧ (runSteps fs .equal).2 ≠ .skipped := by
  induction h with
  | nil => exact ⟨rfl, by decide⟩
  | @cons f c fs cs hf hrest ih =>
    rw [runSteps]
    dsimp only
    have hreached := hf.reached
    by_cases hdecides : (f .equal).result.decides
    · have hne : (f .equal).result ≠ .equal := by
        intro heq
        rw [heq] at hdecides
        cases hdecides
      have hverdict : c a b ≠ some .eq := by
        rw [← hreached]
        revert hdecides
        cases (f .equal).result <;> decide
      rw [if_pos hdecides, runSteps_decided hrest hne, cascade_cons_ne hverdict]
      refine ⟨hreached, fun hskip => ?_⟩
      rw [hskip] at hdecides
      cases hdecides
    · have hverdict : c a b = some .eq := by
        rw [← hreached]
        revert hdecides
        cases (f .equal).result <;> decide
      rw [if_neg hdecides, cascade_cons_eq hverdict]
      exact ih

theorem standing_compare (left right : PolicyCandidate) :
    standing (compare left right config).result =
        cascade (criteria config) left.inputs right.inputs ∧
      (compare left right config).result ≠ .skipped := by
  have hrun := runSteps_cascade (allSteps_stand (a := left.inputs) (b := right.inputs) config)
  unfold compare
  generalize runSteps (allSteps config left.inputs right.inputs) .equal = run at hrun ⊢
  obtain ⟨steps, result⟩ := run
  exact hrun

theorem mirrored_medCriterion : Mirrored (medCriterion config) := by
  unfold medCriterion
  rcases config.medRule with _ | (_ | _ | _)
  · exact mirrored_unknown
  · intro a b
    dsimp only
    by_cases hnone : a.neighboringAs = none ∨ b.neighboringAs = none
    · rw [if_pos hnone, if_pos hnone.symm]
      rfl
    by_cases hsame : a.neighboringAs = b.neighboringAs
    · rw [if_neg hnone, if_neg fun h => hnone h.symm, if_neg (not_not.2 hsame),
        if_neg (not_not.2 hsame.symm)]
      exact mirrored_byNumber _ a b
    · rw [if_neg hnone, if_neg fun h => hnone h.symm, if_pos hsame, if_pos (Ne.symm hsame)]
      rfl
  · exact mirrored_byNumber _
  · exact mirrored_skipped

theorem composes_medCriterion (h : config.medRule ≠ some .sameNeighborAs) :
    Composes (medCriterion config) := by
  unfold medCriterion
  rcases hrule : config.medRule with _ | (_ | _ | _)
  · exact composes_unknown
  · exact absurd hrule h
  · exact composes_byNumber _
  · exact composes_skipped

theorem mirrored_ageCriterion : Mirrored (ageCriterion config) := by
  unfold ageCriterion
  rcases config.ageRule with _ | (_ | _)
  · exact mirrored_unknown
  · exact (mirrored_byNumber _).within
  · exact mirrored_skipped

theorem composes_ageCriterion : Composes (ageCriterion config) := by
  unfold ageCriterion
  rcases config.ageRule with _ | (_ | _)
  · exact composes_unknown
  · exact (composes_byNumber _).within
  · exact composes_skipped

theorem mirrored_criteria : Mirrored (cascade (criteria config)) := by
  apply mirrored_cascade
  intro c hc
  simp only [criteria, List.mem_cons, List.not_mem_nil, or_false] at hc
  rcases hc with rfl | rfl | rfl | rfl | rfl | rfl | rfl | rfl | rfl | rfl
  · exact mirrored_byLarger _
  · exact mirrored_byLarger _
  · exact mirrored_byNumber _
  · exact mirrored_byNumber _
  · exact mirrored_medCriterion config
  · exact mirrored_byLarger _
  · exact mirrored_byNumber _
  · exact mirrored_ageCriterion config
  · exact mirrored_byNumber _
  · exact (mirrored_byNumber _).within

theorem composes_criteria (h : config.medRule ≠ some .sameNeighborAs) :
    Composes (cascade (criteria config)) := by
  apply composes_cascade
  intro c hc
  simp only [criteria, List.mem_cons, List.not_mem_nil, or_false] at hc
  rcases hc with rfl | rfl | rfl | rfl | rfl | rfl | rfl | rfl | rfl | rfl
  · exact composes_byLarger _
  · exact composes_byLarger _
  · exact composes_byNumber _
  · exact composes_byNumber _
  · exact composes_medCriterion config h
  · exact composes_byLarger _
  · exact composes_byNumber _
  · exact composes_ageCriterion config
  · exact composes_byNumber _
  · exact (composes_byNumber _).within

end Criteria

end PcapEvidence.Bgp.Policy
