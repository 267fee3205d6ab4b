import Mathlib.Data.List.Sort
import Mathlib.Tactic

/-!
# Sorting a vector and dropping its repeats

`sortDedup` is the idiom "sort, then remove consecutive repeats". Its value is the strictly
increasing list of the members, so it depends only on which members the vector has.
-/

namespace SortedVec

variable {α : Type*}

/-- Removes consecutive repeats, keeping one element of each group. -/
def dedupConsecutive [DecidableEq α] : List α → List α
  | [] => []
  | [a] => [a]
  | a :: b :: l => if a = b then dedupConsecutive (b :: l) else a :: dedupConsecutive (b :: l)

theorem mem_dedupConsecutive [DecidableEq α] (l : List α) (x : α) :
    x ∈ dedupConsecutive l ↔ x ∈ l := by
  induction l using dedupConsecutive.induct with
  | case1 => simp [dedupConsecutive]
  | case2 a => simp [dedupConsecutive]
  | case3 b l ih =>
    rw [dedupConsecutive, if_pos rfl, ih]
    simp
  | case4 a b l hab ih =>
    rw [dedupConsecutive, if_neg hab]
    simp only [List.mem_cons, ih]

theorem dedupConsecutive_sorted [LinearOrder α] {l : List α} (hl : l.Pairwise (· ≤ ·)) :
    (dedupConsecutive l).Pairwise (· < ·) := by
  induction l using dedupConsecutive.induct with
  | case1 => simp [dedupConsecutive]
  | case2 a => simp [dedupConsecutive]
  | case3 b l ih =>
    rw [dedupConsecutive, if_pos rfl]
    exact ih (List.pairwise_cons.1 hl).2
  | case4 a b l hab ih =>
    rw [dedupConsecutive, if_neg hab, List.pairwise_cons]
    obtain ⟨ha, htail⟩ := List.pairwise_cons.1 hl
    refine ⟨fun x hx => ?_, ih htail⟩
    have hlt : a < b := lt_of_le_of_ne (ha b (by simp)) hab
    rcases List.mem_cons.1 ((mem_dedupConsecutive _ x).1 hx) with rfl | hxl
    · exact hlt
    · exact hlt.trans_le ((List.pairwise_cons.1 htail).1 x hxl)

def sortDedup [LinearOrder α] (l : List α) : List α :=
  dedupConsecutive (l.insertionSort (· ≤ ·))

section LinearOrder

variable [LinearOrder α]

@[simp] theorem mem_sortDedup (l : List α) (x : α) : x ∈ sortDedup l ↔ x ∈ l := by
  rw [sortDedup, mem_dedupConsecutive, List.mem_insertionSort]

theorem sortDedup_sorted (l : List α) : (sortDedup l).Pairwise (· < ·) :=
  dedupConsecutive_sorted (List.pairwise_insertionSort _ l)

theorem sortDedup_nodup (l : List α) : (sortDedup l).Nodup :=
  (sortDedup_sorted l).imp (fun h => h.ne)

theorem eq_of_sorted_of_mem_iff {l l' : List α} (hl : l.Pairwise (· < ·))
    (hl' : l'.Pairwise (· < ·)) (h : ∀ x, x ∈ l ↔ x ∈ l') : l = l' := by
  have hp : l.Perm l' := (List.perm_ext_iff_of_nodup (hl.imp (fun h => h.ne))
    (hl'.imp (fun h => h.ne))).2 h
  exact hp.eq_of_pairwise (fun a b _ _ hab hba => absurd hab hba.not_gt) hl hl'

theorem sortDedup_congr {l l' : List α} (h : ∀ x, x ∈ l ↔ x ∈ l') : sortDedup l = sortDedup l' :=
  eq_of_sorted_of_mem_iff (sortDedup_sorted l) (sortDedup_sorted l') (fun x => by simp [h x])

@[simp] theorem sortDedup_nil : sortDedup ([] : List α) = [] := rfl

end LinearOrder
end SortedVec
