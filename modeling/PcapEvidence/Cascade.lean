import Mathlib.Tactic

/-!
# Comparison by a cascade of criteria

Two values are compared by one criterion after the other. A criterion decides, finds the values equal,
or cannot tell; a criterion that cannot tell ends the comparison undecided. If every criterion composes
where it can tell, so does the cascade, and a finite list on which it always decides has a winner.
-/

namespace PcapEvidence.Cascade

variable {α : Type}

/-- The verdict of one criterion, or none where it cannot tell. `lt` is a win of the first value. -/
abbrev Criterion (α : Type) := α → α → Option Ordering

def cascade : List (Criterion α) → Criterion α
  | [], _, _ => some .eq
  | c :: rest, a, b => if c a b = some .eq then cascade rest a b else c a b

/-- Compared the other way round, a criterion says the opposite. -/
def Mirrored (c : Criterion α) : Prop := ∀ a b, c b a = (c a b).map Ordering.swap

/-- Two verdicts that do not oppose each other have a verdict on the outer values. -/
def Composes (c : Criterion α) : Prop := ∀ a b d x y, c a b = some x → c b d = some y →
  x = y ∨ x = .eq ∨ y = .eq → c a d = some (x.then y)

variable {c : Criterion α} {criteria : List (Criterion α)}

theorem cascade_cons_eq {a b : α} (h : c a b = some .eq) :
    cascade (c :: criteria) a b = cascade criteria a b := if_pos h

theorem cascade_cons_ne {a b : α} (h : c a b ≠ some .eq) :
    cascade (c :: criteria) a b = c a b := if_neg h

theorem Mirrored.eq_iff (h : Mirrored c) {a b : α} : c b a = some .eq ↔ c a b = some .eq := by
  rw [h a b]
  cases c a b with
  | none => exact ⟨nofun, nofun⟩
  | some x => cases x <;> decide

theorem mirrored_cascade (h : ∀ c ∈ criteria, Mirrored c) : Mirrored (cascade criteria) := by
  induction criteria with
  | nil =>
    intro a b
    rfl
  | cons c rest ih =>
    intro a b
    have hc := h c List.mem_cons_self
    by_cases heq : c a b = some .eq
    · rw [cascade_cons_eq heq, cascade_cons_eq (hc.eq_iff.2 heq)]
      exact ih (fun d hd => h d (List.mem_cons_of_mem _ hd)) a b
    · rw [cascade_cons_ne heq, cascade_cons_ne fun hba => heq (hc.eq_iff.1 hba)]
      exact hc a b

theorem composes_cascade (h : ∀ c ∈ criteria, Composes c) : Composes (cascade criteria) := by
  induction criteria with
  | nil =>
    intro a b d x y hab hbd _
    cases hab
    cases hbd
    rfl
  | cons c rest ih =>
    intro a b d x y hab hbd hxy
    have hc := h c List.mem_cons_self
    have hrest := ih fun d hd => h d (List.mem_cons_of_mem _ hd)
    by_cases hfirst : c a b = some .eq
    · rw [cascade_cons_eq hfirst] at hab
      by_cases hsecond : c b d = some .eq
      · rw [cascade_cons_eq hsecond] at hbd
        have hboth : c a d = some .eq := hc a b d _ _ hfirst hsecond (.inl rfl)
        rw [cascade_cons_eq hboth]
        exact hrest a b d x y hab hbd hxy
      · rw [cascade_cons_ne hsecond] at hbd
        have hy : y ≠ .eq := fun hy => hsecond (hy ▸ hbd)
        have had : c a d = some y := hc a b d _ _ hfirst hbd (.inr (.inl rfl))
        have hx : x.then y = y := by
          rcases hxy with rfl | rfl | hy'
          · cases x <;> rfl
          · rfl
          · exact absurd hy' hy
        rw [cascade_cons_ne (had ▸ fun heq => hy (Option.some.inj heq)), had, hx]
    · rw [cascade_cons_ne hfirst] at hab
      have hx : x ≠ .eq := fun hx => hfirst (hx ▸ hab)
      have hthen : x.then y = x := by
        cases x with
        | eq => exact absurd rfl hx
        | lt | gt => rfl
      have had : c a d = some x := by
        by_cases hsecond : c b d = some .eq
        · have := hc a b d _ _ hab hsecond (.inr (.inr rfl))
          rw [this]
          cases x <;> rfl
        · rw [cascade_cons_ne hsecond] at hbd
          have := hc a b d _ _ hab hbd (hxy.imp_right (.inr ∘ fun h => h.resolve_left hx))
          rw [this, hthen]
      rw [cascade_cons_ne (had ▸ fun heq => hx (Option.some.inj heq)), had, hthen]

/-- Among finitely many values that are all told apart, one wins against every other. -/
theorem exists_winner (hm : Mirrored c) (hc : Composes c) {l : List α} (hne : l ≠ [])
    (hdecided : l.Pairwise fun a b => c a b = some .lt ∨ c a b = some .gt) :
    ∃ before w after, l = before ++ w :: after ∧ (∀ b ∈ before, c w b = some .lt) ∧
      ∀ b ∈ after, c w b = some .lt := by
  induction l with
  | nil => exact absurd rfl hne
  | cons a rest ih =>
    obtain ⟨hfirst, hrest⟩ := List.pairwise_cons.1 hdecided
    cases rest with
    | nil => exact ⟨[], a, [], rfl, nofun, nofun⟩
    | cons next rest =>
      obtain ⟨before, w, after, hl, hbefore, hafter⟩ := ih (List.cons_ne_nil _ _) hrest
      have hw : w ∈ next :: rest := hl ▸ by simp
      rcases hfirst w hw with hwin | hlose
      · -- the first value wins against the winner of the rest, hence against all that lose to it
        refine ⟨[], a, next :: rest, rfl, nofun, fun b hb => ?_⟩
        have hcompose : ∀ b, c w b = some .lt → c a b = some .lt :=
          fun b hb => hc a w b _ _ hwin hb (.inl rfl)
        rw [hl] at hb
        rcases List.mem_append.1 hb with hb | hb
        · exact hcompose b (hbefore b hb)
        · rcases List.mem_cons.1 hb with rfl | hb
          · exact hwin
          · exact hcompose b (hafter b hb)
      · have hback : c w a = some .lt := by
          rw [hm a w, hlose]
          rfl
        refine ⟨a :: before, w, after, by rw [hl]; rfl, fun b hb => ?_, hafter⟩
        rcases List.mem_cons.1 hb with rfl | hb
        · exact hback
        · exact hbefore b hb

section Criteria

def byNumber (f : α → Option ℕ) : Criterion α := fun a b =>
  (f a).bind fun x => (f b).map fun y => compare x y

theorem byNumber_eq_some {f : α → Option ℕ} {a b : α} {o : Ordering} :
    byNumber f a b = some o ↔ ∃ x y, f a = some x ∧ f b = some y ∧ compare x y = o := by
  unfold byNumber
  cases f a with
  | none => simp
  | some x =>
    cases f b with
    | none => simp
    | some y => simp

theorem mirrored_byNumber (f : α → Option ℕ) : Mirrored (byNumber f) := by
  intro a b
  unfold byNumber
  cases f a with
  | none => cases f b <;> rfl
  | some x =>
    cases f b with
    | none => rfl
    | some y => exact congrArg some (Nat.compare_swap x y).symm

theorem compare_then {x y z : ℕ} {o p : Ordering} (hxy : compare x y = o) (hyz : compare y z = p)
    (hop : o = p ∨ o = .eq ∨ p = .eq) : compare x z = o.then p := by
  cases o <;> cases p <;>
    simp only [Nat.compare_eq_lt, Nat.compare_eq_gt, Nat.compare_eq_eq, Ordering.then] at hxy hyz ⊢
  case lt.gt | gt.lt => simp at hop
  all_goals omega

theorem composes_byNumber (f : α → Option ℕ) : Composes (byNumber f) := by
  intro a b d x y hab hbd hxy
  obtain ⟨m, n, hm, hn, hmn⟩ := byNumber_eq_some.1 hab
  obtain ⟨n', k, hn', hk, hnk⟩ := byNumber_eq_some.1 hbd
  obtain rfl := Option.some.inj (hn.symm.trans hn')
  exact byNumber_eq_some.2 ⟨m, k, hm, hk, compare_then hmn hnk hxy⟩

def byLarger (f : α → Option ℕ) : Criterion α := fun a b => byNumber f b a

theorem mirrored_byLarger (f : α → Option ℕ) : Mirrored (byLarger f) :=
  fun a b => mirrored_byNumber f b a

theorem then_comm {x y : Ordering} (h : x = y ∨ x = .eq ∨ y = .eq) : y.then x = x.then y := by
  rcases h with rfl | rfl | rfl
  · rfl
  · cases y <;> rfl
  · cases x <;> rfl

theorem composes_byLarger (f : α → Option ℕ) : Composes (byLarger f) := by
  intro a b d x y hab hbd hxy
  have hback := composes_byNumber f d b a y x hbd hab
    (hxy.elim (fun h => .inl h.symm) fun h => .inr h.symm)
  rw [then_comm hxy] at hback
  exact hback

/-- Values that are not of one kind cannot be compared. -/
def within {β : Type} [DecidableEq β] (kind : α → β) (c : Criterion α) : Criterion α := fun a b =>
  if kind a = kind b then c a b else none

variable {β : Type} [DecidableEq β] {kind : α → β}

theorem within_eq_some {a b : α} {o : Ordering} :
    within kind c a b = some o ↔ kind a = kind b ∧ c a b = some o := by
  unfold within
  split
  next h => exact (and_iff_right h).symm
  next h => exact ⟨nofun, fun hboth => absurd hboth.1 h⟩

theorem Mirrored.within (h : Mirrored c) : Mirrored (within kind c) := by
  intro a b
  unfold Cascade.within
  by_cases hkind : kind a = kind b
  · rw [if_pos hkind, if_pos hkind.symm]
    exact h a b
  · rw [if_neg hkind, if_neg fun hba => hkind hba.symm]
    rfl

theorem Composes.within (h : Composes c) : Composes (within kind c) := by
  intro a b d x y hab hbd hxy
  obtain ⟨hkind, hab⟩ := within_eq_some.1 hab
  obtain ⟨hkind', hbd⟩ := within_eq_some.1 hbd
  exact within_eq_some.2 ⟨hkind.trans hkind', h a b d x y hab hbd hxy⟩

/-- A criterion that is left out finds all values equal. -/
def skipped : Criterion α := fun _ _ => some .eq

def unknown : Criterion α := fun _ _ => none

theorem mirrored_skipped : Mirrored (skipped : Criterion α) := fun _ _ => rfl

theorem mirrored_unknown : Mirrored (unknown : Criterion α) := fun _ _ => rfl

theorem composes_skipped : Composes (skipped : Criterion α) := by
  intro a b d x y hab hbd _
  cases hab
  cases hbd
  rfl

theorem composes_unknown : Composes (unknown : Criterion α) := by
  intro a b d x y hab
  cases hab

end Criteria

end PcapEvidence.Cascade
