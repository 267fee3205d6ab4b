import Mathlib.Data.List.Sort
import Mathlib.Tactic

/-!
# Searching and cutting sorted sequences

A bisection over positions, whose test may fail, and the consecutive windows of a strictly
increasing list of cuts. The windows tile the range between the outermost cuts, and no cut lies
inside one.
-/

namespace SortedRanges

section Bisection

variable {ε : Type*}

/-- The first position where the test fails, for a test that fails from some position on. -/
def bisect (below : ℕ → Except ε Bool) : ℕ → ℕ → ℕ → Except ε ℕ
  | 0, lo, _ => .ok lo
  | fuel + 1, lo, hi =>
    if lo < hi then do
      let mid := lo + (hi - lo) / 2
      let b ← below mid
      if b then bisect below fuel (mid + 1) hi else bisect below fuel lo mid
    else .ok lo

theorem bisect_succ {below : ℕ → Except ε Bool} {fuel lo hi : ℕ} {b : Bool} (hlt : lo < hi)
    (hb : below (lo + (hi - lo) / 2) = .ok b) :
    bisect below (fuel + 1) lo hi =
      if b then bisect below fuel (lo + (hi - lo) / 2 + 1) hi
      else bisect below fuel lo (lo + (hi - lo) / 2) := by
  rw [bisect, if_pos hlt]
  change below (lo + (hi - lo) / 2) >>= _ = _
  rw [hb]
  rfl

/-- The cut that a search has found: the test holds before it and fails behind it. -/
def IsCut (p : ℕ → Prop) (count k : ℕ) : Prop :=
  k ≤ count ∧ (∀ i < k, p i) ∧ ∀ i, k ≤ i → i < count → ¬ p i

theorem bisect_isCut {below : ℕ → Except ε Bool} {p : ℕ → Prop} [DecidablePred p] {count : ℕ}
    (hbelow : ∀ i < count, below i = .ok (decide (p i)))
    (hp : ∀ i j, i ≤ j → j < count → p j → p i) {fuel lo hi : ℕ} (hfuel : hi - lo ≤ fuel)
    (hle : lo ≤ hi) (hhi : hi ≤ count) (hlow : ∀ i < lo, p i)
    (hhigh : ∀ i, hi ≤ i → i < count → ¬ p i) :
    ∃ k, bisect below fuel lo hi = .ok k ∧ IsCut p count k := by
  induction fuel generalizing lo hi with
  | zero =>
    obtain rfl : lo = hi := by omega
    exact ⟨lo, rfl, hhi, hlow, hhigh⟩
  | succ fuel ih =>
    by_cases hlt : lo < hi
    · have hmid : lo + (hi - lo) / 2 < hi := by omega
      rw [bisect_succ hlt (hbelow _ (by omega))]
      by_cases hpm : p (lo + (hi - lo) / 2)
      · rw [if_pos (decide_eq_true hpm)]
        exact ih (by omega) (by omega) hhi (fun i hi' => hp i _ (by omega) (by omega) hpm) hhigh
      · rw [if_neg (by simpa using hpm)]
        exact ih (by omega) (by omega) (by omega) hlow fun i hi' hic hpi => hpm (hp _ i hi' hic hpi)
    · obtain rfl : lo = hi := by omega
      exact ⟨lo, if_neg hlt, hhi, hlow, hhigh⟩

end Bisection

section Windows

variable {α : Type*}

/-- The pairs of neighbours. -/
def windows : List α → List (α × α)
  | [] => []
  | [_] => []
  | a :: b :: l => (a, b) :: windows (b :: l)

/-- Consecutive nonempty ranges from `a` to `b`. -/
def Tiles [LT α] : List (α × α) → α → α → Prop
  | [], a, b => a = b
  | w :: ws, a, b => w.1 = a ∧ w.1 < w.2 ∧ Tiles ws w.2 b

theorem mem_of_mem_windows {cuts : List α} {w : α × α} (hw : w ∈ windows cuts) :
    w.1 ∈ cuts ∧ w.2 ∈ cuts := by
  induction cuts using windows.induct with
  | case1 => cases hw
  | case2 c => cases hw
  | case3 c d l ih =>
    rcases List.mem_cons.1 hw with rfl | hw
    · simp
    · exact ⟨List.mem_cons_of_mem c (ih hw).1, List.mem_cons_of_mem c (ih hw).2⟩

variable [LinearOrder α]

theorem tiles_windows {cuts : List α} {a b : α} (hsorted : cuts.Pairwise (· < ·))
    (hfirst : cuts.head? = some a) (hlast : cuts.getLast? = some b) : Tiles (windows cuts) a b := by
  induction cuts using windows.induct generalizing a with
  | case1 => cases hfirst
  | case2 c =>
    simp only [List.head?_cons, List.getLast?_singleton, Option.some.injEq] at hfirst hlast
    exact hfirst.symm.trans hlast
  | case3 c d l ih =>
    obtain ⟨hc, htail⟩ := List.pairwise_cons.1 hsorted
    refine ⟨Option.some.inj hfirst, hc d (by simp), ih htail rfl ?_⟩
    rwa [List.getLast?_cons_cons] at hlast

theorem lt_of_mem_windows {cuts : List α} (hsorted : cuts.Pairwise (· < ·)) {w : α × α}
    (hw : w ∈ windows cuts) : w.1 < w.2 := by
  induction cuts using windows.induct with
  | case1 => cases hw
  | case2 c => cases hw
  | case3 c d l ih =>
    obtain ⟨hc, htail⟩ := List.pairwise_cons.1 hsorted
    rcases List.mem_cons.1 hw with rfl | hw
    · exact hc d (by simp)
    · exact ih htail hw

theorem head?_of_le {cuts : List α} {a : α} (hsorted : cuts.Pairwise (· < ·)) (ha : a ∈ cuts)
    (hle : ∀ x ∈ cuts, a ≤ x) : cuts.head? = some a := by
  cases cuts with
  | nil => cases ha
  | cons c l =>
    rcases List.mem_cons.1 ha with rfl | ha
    · rfl
    · exact absurd ((List.pairwise_cons.1 hsorted).1 a ha) (not_lt.2 (hle c (by simp)))

theorem getLast?_of_ge {cuts : List α} {b : α} (hsorted : cuts.Pairwise (· < ·)) (hb : b ∈ cuts)
    (hge : ∀ x ∈ cuts, x ≤ b) : cuts.getLast? = some b := by
  rw [← List.head?_reverse]
  exact head?_of_le (α := αᵒᵈ) (List.pairwise_reverse.2 hsorted) (List.mem_reverse.2 hb)
    fun x hx => hge x (List.mem_reverse.1 hx)

theorem le_or_le_of_mem_windows {cuts : List α} (hsorted : cuts.Pairwise (· < ·)) {w : α × α}
    (hw : w ∈ windows cuts) {x : α} (hx : x ∈ cuts) : x ≤ w.1 ∨ w.2 ≤ x := by
  induction cuts using windows.induct with
  | case1 => cases hw
  | case2 c => cases hw
  | case3 c d l ih =>
    obtain ⟨hc, htail⟩ := List.pairwise_cons.1 hsorted
    rcases List.mem_cons.1 hw with rfl | hrest
    · rcases List.mem_cons.1 hx with rfl | hx
      · exact .inl le_rfl
      · rcases List.mem_cons.1 hx with rfl | hx
        · exact .inr le_rfl
        · exact .inr ((List.pairwise_cons.1 htail).1 x hx).le
    · rcases List.mem_cons.1 hx with rfl | hx
      · exact .inl (hc w.1 (mem_of_mem_windows hrest).1).le
      · exact ih htail hrest hx

end Windows

end SortedRanges
