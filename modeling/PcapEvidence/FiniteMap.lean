import Mathlib.Algebra.BigOperators.Group.Finset.Basic
import Mathlib.Tactic

/-!
# Finite maps as functions

A finite map is a lookup function with the finite set of its keys. Equality and the effect of an
update are read off the lookup, and a weight can be summed over the entries. Nothing depends on an
order of the keys.
-/

namespace FiniteMap

structure FinMap (κ ν : Type) where
  keys : Finset κ
  get : κ → Option ν
  mem_keys : ∀ k, k ∈ keys ↔ (get k).isSome

namespace FinMap

variable {κ ν : Type}

@[ext] theorem ext {m n : FinMap κ ν} (h : ∀ k, m.get k = n.get k) : m = n := by
  have hget : m.get = n.get := funext h
  have hkeys : m.keys = n.keys := by
    ext k
    rw [m.mem_keys, n.mem_keys, h]
  cases m
  cases n
  cases hget
  cases hkeys
  rfl

def empty : FinMap κ ν := ⟨∅, fun _ => none, by simp⟩

/-- Every value changed in its place. -/
def mapVal (m : FinMap κ ν) (f : κ → ν → ν) : FinMap κ ν where
  keys := m.keys
  get := fun x => (m.get x).map (f x)
  mem_keys := by
    intro x
    simp [m.mem_keys]

/-- A new value computed from every entry. -/
def mapTo {μ : Type} (m : FinMap κ ν) (f : κ → ν → μ) : FinMap κ μ where
  keys := m.keys
  get := fun x => (m.get x).map (f x)
  mem_keys := by
    intro x
    simp [m.mem_keys]

def retain (m : FinMap κ ν) (p : κ → Bool) : FinMap κ ν where
  keys := m.keys.filter (p · = true)
  get := fun x => if p x then m.get x else none
  mem_keys := by
    intro x
    by_cases hx : p x = true
    · simp [hx, m.mem_keys]
    · simp [hx]

/-- The sum of a weight over the entries. -/
def total (m : FinMap κ ν) (w : κ → ν → ℕ) : ℕ := ∑ k ∈ m.keys, (m.get k).elim 0 (w k)

@[simp] theorem get_empty (k : κ) : (empty : FinMap κ ν).get k = none := rfl

theorem get_mapVal (m : FinMap κ ν) (f : κ → ν → ν) (k : κ) :
    (m.mapVal f).get k = (m.get k).map (f k) := rfl

theorem get_mapTo {μ : Type} (m : FinMap κ ν) (f : κ → ν → μ) (k : κ) :
    (m.mapTo f).get k = (m.get k).map (f k) := rfl

theorem get_retain (m : FinMap κ ν) (p : κ → Bool) (k : κ) :
    (m.retain p).get k = if p k then m.get k else none := rfl

theorem get_eq_none {m : FinMap κ ν} {k : κ} (h : k ∉ m.keys) : m.get k = none := by
  rw [m.mem_keys] at h
  simpa using h

@[simp] theorem total_empty (w : κ → ν → ℕ) : (empty : FinMap κ ν).total w = 0 := rfl

theorem total_eq_sum (m : FinMap κ ν) (w : κ → ν → ℕ) {s : Finset κ} (h : m.keys ⊆ s) :
    m.total w = ∑ k ∈ s, (m.get k).elim 0 (w k) := by
  refine Finset.sum_subset h fun k _ hk => ?_
  rw [get_eq_none hk]
  rfl

theorem total_mapVal {m : FinMap κ ν} {f : κ → ν → ν} {w : κ → ν → ℕ}
    (h : ∀ k v, w k (f k v) = w k v) : (m.mapVal f).total w = m.total w := by
  refine Finset.sum_congr rfl fun k _ => ?_
  rw [get_mapVal]
  cases m.get k with
  | none => rfl
  | some v => exact h k v

section Update

variable [DecidableEq κ]

theorem sum_le_total (m : FinMap κ ν) (w : κ → ν → ℕ) (s : Finset κ) :
    ∑ k ∈ s, (m.get k).elim 0 (w k) ≤ m.total w := by
  rw [m.total_eq_sum w (Finset.subset_union_left : m.keys ⊆ m.keys ∪ s)]
  exact Finset.sum_le_sum_of_subset Finset.subset_union_right

def insert (m : FinMap κ ν) (k : κ) (v : ν) : FinMap κ ν where
  keys := Insert.insert k m.keys
  get := fun x => if x = k then some v else m.get x
  mem_keys := by
    intro x
    by_cases hx : x = k
    · simp [hx]
    · simp [hx, m.mem_keys]

def restrict (m : FinMap κ ν) (s : Finset κ) : FinMap κ ν where
  keys := m.keys.filter (· ∈ s)
  get := fun x => if x ∈ s then m.get x else none
  mem_keys := by
    intro x
    by_cases hx : x ∈ s
    · simp [hx, m.mem_keys]
    · simp [hx]

def overlay (m n : FinMap κ ν) : FinMap κ ν where
  keys := m.keys ∪ n.keys
  get := fun x => (m.get x).or (n.get x)
  mem_keys := by
    intro x
    rw [Finset.mem_union, m.mem_keys, n.mem_keys]
    cases m.get x <;> simp

theorem get_insert (m : FinMap κ ν) (k x : κ) (v : ν) :
    (m.insert k v).get x = if x = k then some v else m.get x := rfl

@[simp] theorem get_insert_self (m : FinMap κ ν) (k : κ) (v : ν) : (m.insert k v).get k = some v :=
  if_pos rfl

theorem get_insert_of_ne (m : FinMap κ ν) {k x : κ} (h : x ≠ k) (v : ν) :
    (m.insert k v).get x = m.get x := if_neg h

theorem get_restrict (m : FinMap κ ν) (s : Finset κ) (k : κ) :
    (m.restrict s).get k = if k ∈ s then m.get k else none := rfl

theorem get_overlay (m n : FinMap κ ν) (k : κ) : (m.overlay n).get k = (m.get k).or (n.get k) := rfl

@[simp] theorem empty_overlay (m : FinMap κ ν) : empty.overlay m = m := by
  ext1 k
  rfl

theorem total_insert (m : FinMap κ ν) (w : κ → ν → ℕ) (k : κ) (v : ν) :
    (m.insert k v).total w + (m.get k).elim 0 (w k) = m.total w + w k v := by
  have hkeys : m.keys ⊆ Insert.insert k m.keys := Finset.subset_insert _ _
  rw [total, m.total_eq_sum w hkeys]
  change (∑ x ∈ Insert.insert k m.keys, ((m.insert k v).get x).elim 0 (w x)) + _ = _
  rw [← Finset.add_sum_erase _ _ (Finset.mem_insert_self k m.keys),
    ← Finset.add_sum_erase _ (fun x => (m.get x).elim 0 (w x)) (Finset.mem_insert_self k m.keys)]
  have hrest : ∑ x ∈ (Insert.insert k m.keys).erase k, ((m.insert k v).get x).elim 0 (w x) =
      ∑ x ∈ (Insert.insert k m.keys).erase k, (m.get x).elim 0 (w x) := by
    refine Finset.sum_congr rfl fun x hx => ?_
    rw [get_insert_of_ne m (Finset.ne_of_mem_erase hx)]
  rw [hrest, get_insert_self]
  simp only [Option.elim]
  omega

theorem total_overlay (m n : FinMap κ ν) (w : κ → ν → ℕ) {s : Finset κ}
    (hs : ∀ k ∈ n.keys, k ∈ s ↔ k ∈ m.keys) :
    (m.overlay n).total w + ∑ k ∈ s, (n.get k).elim 0 (w k) = n.total w + m.total w := by
  have hall : m.keys ∪ n.keys ⊆ m.keys ∪ n.keys ∪ s := Finset.subset_union_left
  rw [total_eq_sum (m.overlay n) w hall,
    total_eq_sum n w (Finset.subset_union_right.trans hall),
    total_eq_sum m w (Finset.subset_union_left.trans hall)]
  have hsum : ∑ k ∈ s, (n.get k).elim 0 (w k) =
      ∑ k ∈ m.keys ∪ n.keys ∪ s, if k ∈ s then (n.get k).elim 0 (w k) else 0 := by
    rw [← Finset.sum_filter]
    refine Finset.sum_congr ?_ fun _ _ => rfl
    ext k
    simp
    tauto
  rw [hsum, ← Finset.sum_add_distrib, ← Finset.sum_add_distrib]
  refine Finset.sum_congr rfl fun k _ => ?_
  rw [get_overlay]
  cases hm : m.get k with
  | none =>
    have hnot : k ∉ m.keys := by rw [m.mem_keys, hm]; simp
    cases hn : n.get k with
    | none => simp
    | some b =>
      have hkey : k ∈ n.keys := by rw [n.mem_keys, hn]; simp
      have hout : k ∉ s := fun h => hnot ((hs k hkey).1 h)
      simp [hout]
  | some a =>
    have hin : k ∈ m.keys := by rw [m.mem_keys, hm]; simp
    cases hn : n.get k with
    | none => simp
    | some b =>
      have hkey : k ∈ n.keys := by rw [n.mem_keys, hn]; simp
      simp [(hs k hkey).2 hin]
      omega

/-- On the keys the stage holds what the whole map holds; elsewhere the map is as it was. -/
structure Staged (stage whole base : FinMap κ ν) (s : Finset κ) : Prop where
  inside : ∀ k ∈ s, stage.get k = whole.get k
  outside : ∀ k ∉ s, stage.get k = none ∧ whole.get k = base.get k
  kept : ∀ k, (base.get k).isSome → (whole.get k).isSome

namespace Staged

variable {stage whole base : FinMap κ ν} {s : Finset κ}

theorem restrict (m : FinMap κ ν) (s : Finset κ) : Staged (m.restrict s) m m s where
  inside := fun _ hk => if_pos hk
  outside := fun _ hk => ⟨if_neg hk, rfl⟩
  kept := fun _ hk => hk

omit [DecidableEq κ] in
theorem empty {m : FinMap κ ν} {s : Finset κ} (h : ∀ k ∈ s, m.get k = none) :
    Staged FinMap.empty m m s where
  inside := fun k hk => (h k hk).symm
  outside := fun _ _ => ⟨rfl, rfl⟩
  kept := fun _ hk => hk

theorem insert (h : Staged stage whole base s) {k : κ} (hk : k ∈ s) (v : ν) :
    Staged (stage.insert k v) (whole.insert k v) base s where
  inside := by
    intro x hx
    rw [get_insert, get_insert, h.inside x hx]
  outside := by
    intro x hx
    have hne : x ≠ k := fun he => hx (he ▸ hk)
    rw [get_insert_of_ne _ hne, get_insert_of_ne _ hne]
    exact h.outside x hx
  kept := by
    intro x hx
    rw [get_insert]
    split_ifs
    · rfl
    · exact h.kept x hx

omit [DecidableEq κ] in
theorem mapVal (h : Staged stage whole base s) {f : κ → ν → ν}
    (hf : ∀ k ∉ s, ∀ v, base.get k = some v → f k v = v) :
    Staged (stage.mapVal f) (whole.mapVal f) base s where
  inside := by
    intro x hx
    rw [get_mapVal, get_mapVal, h.inside x hx]
  outside := by
    intro x hx
    obtain ⟨hstage, hwhole⟩ := h.outside x hx
    rw [get_mapVal, get_mapVal, hstage, hwhole]
    cases hb : base.get x with
    | none => exact ⟨rfl, rfl⟩
    | some v => exact ⟨rfl, congrArg some (hf x hx v hb)⟩
  kept := by
    intro x hx
    rw [get_mapVal, Option.isSome_map]
    exact h.kept x hx

theorem overlay_eq (h : Staged stage whole base s) : stage.overlay base = whole := by
  ext1 k
  rw [get_overlay]
  by_cases hk : k ∈ s
  · rw [h.inside k hk]
    cases hw : whole.get k with
    | some v => rfl
    | none =>
      have hb : ¬(base.get k).isSome := fun hb => by simpa [hw] using h.kept k hb
      simpa using hb
  · obtain ⟨hstage, hwhole⟩ := h.outside k hk
    rw [hstage, hwhole]
    rfl

theorem total (h : Staged stage whole base s) (w : κ → ν → ℕ) :
    whole.total w + ∑ k ∈ s, (base.get k).elim 0 (w k) = base.total w + stage.total w := by
  have hs : ∀ k ∈ base.keys, k ∈ s ↔ k ∈ stage.keys := by
    intro k hk
    rw [base.mem_keys] at hk
    rw [stage.mem_keys]
    constructor
    · intro hin
      rw [h.inside k hin]
      exact h.kept k hk
    · intro hstage
      by_contra hout
      rw [(h.outside k hout).1] at hstage
      simp at hstage
  rw [← total_overlay stage base w hs, h.overlay_eq]

theorem total_restrict (m : FinMap κ ν) (s : Finset κ) (w : κ → ν → ℕ) :
    (m.restrict s).total w = ∑ k ∈ s, (m.get k).elim 0 (w k) := by
  have h := (Staged.restrict m s).total w
  omega

end Staged

end Update

end FinMap

end FiniteMap
