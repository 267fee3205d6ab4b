import Mathlib.Data.List.Sort
import Mathlib.Data.Prod.Lex
import Mathlib.Tactic

/-!
# Merging sorted sources through a heap

The heap holds the front of every source that is not exhausted, under the number of the source. A
step takes the least front out and puts the next element of its source in. The output is sorted, and
nothing is lost or repeated.
-/

namespace KWayMerge

variable {α : Type*} [LinearOrder α]

def pop {β : Type*} [LinearOrder β] (heap : List β) : Option (β × List β) :=
  heap.min?.map fun m => (m, heap.erase m)

theorem pop_eq_none {β : Type*} [LinearOrder β] {heap : List β} : pop heap = none ↔ heap = [] := by
  simp [pop]

theorem pop_eq_some {β : Type*} [LinearOrder β] {heap heap' : List β} {m : β}
    (h : pop heap = some (m, heap')) : heap.Perm (m :: heap') ∧ ∀ x ∈ heap, m ≤ x := by
  obtain ⟨m', hm', h⟩ := Option.map_eq_some_iff.1 h
  cases h
  obtain ⟨hmem, hle⟩ := List.min?_eq_some_iff.1 hm'
  exact ⟨List.perm_cons_erase hmem, hle⟩

structure State (α : Type*) where
  heap : List (α ×ₗ ℕ)
  sources : List (List α)
  out : List α

def refill (s : State α) (i : ℕ) : State α :=
  match s.sources.getD i [] with
  | [] => s
  | a :: l => { s with
      heap := s.heap ++ [toLex (a, i)]
      sources := s.sources.set i l }

def pool (sources : List (List α)) : Multiset α := (sources.map Multiset.ofList).sum

omit [LinearOrder α] in
theorem pool_set {sources : List (List α)} {i : ℕ} {a : α} {l : List α}
    (h : sources.getD i [] = a :: l) : pool (sources.set i l) + {a} = pool sources := by
  induction sources generalizing i with
  | nil => simp at h
  | cons x xs ih =>
    cases i with
    | zero =>
      obtain rfl : x = a :: l := by simpa using h
      simp only [pool, List.set_cons_zero, List.map_cons, List.sum_cons, ← Multiset.cons_coe,
        ← Multiset.singleton_add]
      abel
    | succ i =>
      have htail := ih (i := i) (by simpa using h)
      simp only [pool, List.set_cons_succ, List.map_cons, List.sum_cons] at htail ⊢
      rw [add_assoc, htail]

omit [LinearOrder α] in
theorem getD_set_of_ne {sources : List (List α)} {i j : ℕ} (h : i ≠ j) (l : List α) :
    (sources.set i l).getD j [] = sources.getD j [] := by
  simp only [List.getD, List.getElem?_set_ne h]

omit [LinearOrder α] in
theorem lt_of_getD {sources : List (List α)} {i : ℕ} (h : sources.getD i [] ≠ []) :
    i < sources.length := by
  by_contra hi
  exact h (by simp [List.getD, List.getElem?_eq_none (not_lt.1 hi)])

omit [LinearOrder α] in
theorem getD_set_self {sources : List (List α)} {i : ℕ} {a : α} {l : List α}
    (h : sources.getD i [] = a :: l) : (sources.set i l).getD i [] = l := by
  have hi : i < sources.length := lt_of_getD (h ▸ List.cons_ne_nil a l)
  simp [List.getD, hi]

/-- The output is final, every source continues its front, and waiting ones have no front. -/
structure Merging (total : Multiset α) (s : State α) (waiting : List ℕ) : Prop where
  perm : Multiset.ofList s.out + Multiset.ofList (s.heap.map fun m => (ofLex m).1) +
    pool s.sources = total
  sorted : s.out.Pairwise (· ≤ ·)
  below : ∀ a ∈ s.out, ∀ m ∈ s.heap, a ≤ (ofLex m).1
  fronts : ∀ m ∈ s.heap, ((ofLex m).1 :: s.sources.getD (ofLex m).2 []).Pairwise (· ≤ ·)
  nodup : (s.heap.map fun m => (ofLex m).2).Nodup
  bound : ∀ m ∈ s.heap, (ofLex m).2 < s.sources.length
  live : ∀ i, i ∉ waiting → s.sources.getD i [] ≠ [] → i ∈ s.heap.map fun m => (ofLex m).2
  absent : ∀ i ∈ waiting, i ∉ s.heap.map fun m => (ofLex m).2
  source : ∀ i ∈ waiting, (s.sources.getD i []).Pairwise (· ≤ ·)
  low : ∀ i ∈ waiting, ∀ a ∈ s.out, ∀ b ∈ s.sources.getD i [], a ≤ b

section Steps

variable {total : Multiset α} {s : State α} {i : ℕ} {waiting : List ℕ}

theorem Merging.empty : Merging (0 : Multiset α) ⟨[], [], []⟩ [] := by
  refine ⟨rfl, .nil, by simp, by simp, .nil, by simp, by simp, by simp, by simp, by simp⟩

theorem Merging.refill (h : Merging total s (i :: waiting)) (hi : i ∉ waiting) :
    Merging total (refill s i) waiting := by
  unfold KWayMerge.refill
  split
  next hnil =>
    refine ⟨h.perm, h.sorted, h.below, h.fronts, h.nodup, h.bound, fun j hj hne => ?_,
      fun j hj => h.absent j (List.mem_cons_of_mem i hj),
      fun j hj => h.source j (List.mem_cons_of_mem i hj),
      fun j hj => h.low j (List.mem_cons_of_mem i hj)⟩
    have hij : j ≠ i := fun hij => hne (hij ▸ hnil)
    exact h.live j (by simp [hij, hj]) hne
  next a l hsource =>
    have habsent := h.absent i (by simp)
    have hother : ∀ m ∈ s.heap, i ≠ (ofLex m).2 := fun m hm hmi =>
      habsent (List.mem_map.2 ⟨m, hm, hmi.symm⟩)
    have hsorted := h.source i (by simp)
    rw [hsource] at hsorted
    have hwaiting : ∀ j ∈ waiting, i ≠ j := fun j hj hij => hi (hij ▸ hj)
    refine ⟨?_, h.sorted, fun b hb m hm => ?_, fun m hm => ?_, ?_, fun m hm => ?_,
      fun j hj hne => ?_, fun j hj => ?_, fun j hj => ?_, fun j hj => ?_⟩
    · rw [← h.perm, ← pool_set hsource, List.map_append, ← Multiset.coe_add]
      simp only [List.map_cons, List.map_nil, ofLex_toLex, Multiset.coe_singleton]
      abel
    · rcases List.mem_append.1 hm with hm | hm
      · exact h.below b hb m hm
      · rw [List.mem_singleton.1 hm]
        exact h.low i (by simp) b hb a (by rw [hsource]; simp)
    · rcases List.mem_append.1 hm with hm | hm
      · rw [getD_set_of_ne (hother m hm)]
        exact h.fronts m hm
      · rw [List.mem_singleton.1 hm]
        change (a :: (s.sources.set i l).getD i []).Pairwise _
        rw [getD_set_self hsource]
        exact hsorted
    · simpa using h.nodup.concat habsent
    · rw [List.length_set]
      rcases List.mem_append.1 hm with hm | hm
      · exact h.bound m hm
      · rw [List.mem_singleton.1 hm]
        exact lt_of_getD (hsource ▸ List.cons_ne_nil a l)
    · rw [List.map_append, List.mem_append]
      by_cases hij : j = i
      · exact .inr (by simp [hij])
      · rw [getD_set_of_ne (Ne.symm hij)] at hne
        exact .inl (h.live j (by simp [hij, hj]) hne)
    · rw [List.map_append, List.mem_append, not_or]
      exact ⟨h.absent j (List.mem_cons_of_mem i hj), by simpa using (hwaiting j hj).symm⟩
    · rw [getD_set_of_ne (hwaiting j hj)]
      exact h.source j (List.mem_cons_of_mem i hj)
    · rw [getD_set_of_ne (hwaiting j hj)]
      exact h.low j (List.mem_cons_of_mem i hj)

theorem Merging.take (h : Merging total s []) {m : α ×ₗ ℕ} {heap : List (α ×ₗ ℕ)}
    (hpop : pop s.heap = some (m, heap)) :
    Merging total ⟨heap, s.sources, s.out ++ [(ofLex m).1]⟩ [(ofLex m).2] := by
  obtain ⟨hperm, hleast⟩ := pop_eq_some hpop
  have hm : m ∈ s.heap := hperm.mem_iff.2 (by simp)
  have hmem : ∀ x ∈ heap, x ∈ s.heap := fun x hx => hperm.mem_iff.2 (List.mem_cons_of_mem m hx)
  have hfst : ∀ x ∈ s.heap, (ofLex m).1 ≤ (ofLex x).1 := fun x hx =>
    Prod.Lex.monotone_fst m x (hleast x hx)
  have hnodup : ((m :: heap).map fun m => (ofLex m).2).Nodup := (hperm.map _).nodup_iff.1 h.nodup
  obtain ⟨habsent, hnodup⟩ := List.nodup_cons.1 hnodup
  have hfront := List.pairwise_cons.1 (h.fronts m hm)
  have hout : ∀ a ∈ s.out ++ [(ofLex m).1], a ≤ (ofLex m).1 := fun a ha => by
    rcases List.mem_append.1 ha with ha | ha
    · exact h.below a ha m hm
    · rw [List.mem_singleton.1 ha]
  refine ⟨?_, ?_, fun a ha x hx => (hout a ha).trans (hfst x (hmem x hx)),
    fun x hx => h.fronts x (hmem x hx), hnodup, fun x hx => h.bound x (hmem x hx),
    fun i hi hne => ?_, by simpa using habsent,
    by simpa using hfront.2, fun i hi a ha b hb => ?_⟩
  · rw [← h.perm, Multiset.coe_eq_coe.2 (hperm.map fun m => (ofLex m).1)]
    simp only [← Multiset.coe_add, List.map_cons, ← Multiset.cons_coe, ← Multiset.singleton_add,
      Multiset.coe_nil, add_zero]
    abel
  · rw [List.pairwise_append]
    refine ⟨h.sorted, List.pairwise_singleton _ _, fun a ha b hb => ?_⟩
    rw [List.mem_singleton.1 hb]
    exact h.below a ha m hm
  · have hlive := (hperm.map fun m => (ofLex m).2).mem_iff.1 (h.live i (by simp) hne)
    rw [List.map_cons, List.mem_cons] at hlive
    exact hlive.resolve_left (by simpa using hi)
  · rw [List.mem_singleton.1 hi] at hb
    exact (hout a ha).trans (hfront.1 b hb)

def push (s : State α) (l : List α) : State α :=
  KWayMerge.refill { s with sources := s.sources ++ [l] } s.sources.length

omit [LinearOrder α] in
theorem push_nil (s : State α) : push s [] = { s with sources := s.sources ++ [[]] } := by
  have hlast : (s.sources ++ [[]]).getD s.sources.length [] = [] := by simp [List.getD]
  rw [push, KWayMerge.refill, hlast]

omit [LinearOrder α] in
theorem push_cons (s : State α) (a : α) (l : List α) : push s (a :: l) = { s with
    heap := s.heap ++ [toLex (a, s.sources.length)]
    sources := s.sources ++ [l] } := by
  have hlast : (s.sources ++ [a :: l]).getD s.sources.length [] = a :: l := by simp [List.getD]
  rw [push, KWayMerge.refill, hlast]
  simp

theorem Merging.push (h : Merging total s []) (hout : s.out = []) {l : List α}
    (hl : l.Pairwise (· ≤ ·)) : Merging (total + Multiset.ofList l) (push s l) [] := by
  have hlast : (s.sources ++ [l]).getD s.sources.length [] = l := by simp [List.getD]
  have hother : ∀ i, i ≠ s.sources.length → (s.sources ++ [l]).getD i [] = s.sources.getD i [] :=
    fun i hi => by
      rcases lt_or_gt_of_ne hi with hlt | hgt
      · simp [List.getD, List.getElem?_append_left hlt]
      · have hlong : (s.sources ++ [l]).length ≤ i := by simpa using hgt
        simp only [List.getD, List.getElem?_eq_none hgt.le, List.getElem?_eq_none hlong]
  refine Merging.refill ⟨?_, h.sorted, h.below, fun m hm => ?_, h.nodup, fun m hm => ?_,
    fun i hi hne => ?_, ?_, ?_, by simp [hout]⟩ (by simp)
  · rw [← h.perm]
    simp only [pool, List.map_append, List.sum_append, List.map_cons, List.map_nil, List.sum_singleton]
    abel
  · rw [hother _ (h.bound m hm).ne]
    exact h.fronts m hm
  · rw [List.length_append]
    exact Nat.lt_add_right _ (h.bound m hm)
  · rw [hother i (by simpa using hi)] at hne
    exact h.live i (by simp) hne
  · rintro i hi hmem
    obtain ⟨m, hm, rfl⟩ := List.mem_map.1 hmem
    exact absurd (List.mem_singleton.1 hi) (h.bound m hm).ne
  · intro i hi
    rw [List.mem_singleton.1 hi, hlast]
    exact hl

theorem Merging.card (h : Merging total s []) :
    total.card = s.out.length + s.heap.length + (pool s.sources).card := by
  rw [← h.perm]
  simp

theorem Merging.mem_front (h : Merging total s []) {m : α ×ₗ ℕ} (hm : m ∈ s.heap) :
    (ofLex m).1 ∈ total := by
  have hfront : (ofLex m).1 ∈ s.heap.map fun m => (ofLex m).1 :=
    List.mem_map_of_mem (f := fun m => (ofLex m).1) hm
  rw [← h.perm, Multiset.mem_add, Multiset.mem_add]
  exact .inl (.inr hfront)

omit [LinearOrder α] in
theorem mem_pool {sources : List (List α)} {a : α} : a ∈ pool sources ↔ ∃ l ∈ sources, a ∈ l := by
  induction sources with
  | nil => simp [pool]
  | cons l sources ih =>
    have hcons : pool (l :: sources) = Multiset.ofList l + pool sources := rfl
    rw [hcons, Multiset.mem_add, ih]
    simp

theorem Merging.mem_source (h : Merging total s waiting) {a : α} (ha : a ∈ s.sources.getD i []) :
    a ∈ total := by
  have hi : i < s.sources.length := lt_of_getD (List.ne_nil_of_mem ha)
  have hget : s.sources.getD i [] = s.sources[i] := by simp [List.getD, hi]
  rw [← h.perm, Multiset.mem_add]
  exact .inr (mem_pool.2 ⟨_, List.getElem_mem hi, hget ▸ ha⟩)

theorem Merging.done (h : Merging total s []) (hheap : s.heap = []) :
    s.out.Pairwise (· ≤ ·) ∧ Multiset.ofList s.out = total := by
  refine ⟨h.sorted, ?_⟩
  have hpool : pool s.sources = 0 := List.sum_eq_zero fun m hm => by
    obtain ⟨l, hl, rfl⟩ := List.mem_map.1 hm
    obtain ⟨i, hi, rfl⟩ := List.getElem_of_mem hl
    by_contra hne
    have hget : s.sources.getD i [] = s.sources[i] := by simp [List.getD, hi]
    have hlive := h.live i (by simp) (by rw [hget]; simpa using hne)
    simp [hheap] at hlive
  have hperm := h.perm
  rw [hheap, hpool] at hperm
  simpa using hperm

end Steps

end KWayMerge
