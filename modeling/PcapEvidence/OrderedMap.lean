import Mathlib.Data.List.Sort
import Mathlib.Algebra.BigOperators.Group.List.Basic
import Mathlib.Tactic

/-!
# Finite maps kept in key order

An ordered map is the strictly increasing list of its entries, so iteration order, the first entry
and equality are those of the list. A set is a map to `Unit`.
-/

namespace OrderedMap

structure OrdMap (κ : Type*) (ν : Type*) [LinearOrder κ] where
  entries : List (κ × ν)
  sorted : entries.Pairwise (fun a b => a.1 < b.1)

abbrev OrdSet (κ : Type*) [LinearOrder κ] := OrdMap κ Unit

namespace OrdMap

variable {κ ν : Type*} [LinearOrder κ]

def empty : OrdMap κ ν := ⟨[], List.Pairwise.nil⟩

def get? (m : OrdMap κ ν) (k : κ) : Option ν := (m.entries.find? (fun e => e.1 = k)).map Prod.snd

def size (m : OrdMap κ ν) : ℕ := m.entries.length

def keys (m : OrdMap κ ν) : List κ := m.entries.map Prod.fst

def values (m : OrdMap κ ν) : List ν := m.entries.map Prod.snd

def insert (m : OrdMap κ ν) (k : κ) (v : ν) : OrdMap κ ν where
  entries := m.entries.filter (fun e => e.1 < k) ++ (k, v) :: m.entries.filter (fun e => k < e.1)
  sorted := by
    rw [List.pairwise_append]
    refine ⟨m.sorted.filter _, List.pairwise_cons.2 ⟨?_, m.sorted.filter _⟩, ?_⟩
    · intro e he
      simpa using (List.mem_filter.1 he).2
    · intro a ha b hb
      have hak : a.1 < k := by simpa using (List.mem_filter.1 ha).2
      rcases List.mem_cons.1 hb with rfl | hb
      · exact hak
      · exact hak.trans (by simpa using (List.mem_filter.1 hb).2)

def erase (m : OrdMap κ ν) (k : κ) : OrdMap κ ν where
  entries := m.entries.filter (fun e => e.1 ≠ k)
  sorted := m.sorted.filter _

def first? (m : OrdMap κ ν) : Option (κ × ν) := m.entries.head?

theorem eq_of_key_eq {l : List (κ × ν)} (hl : l.Pairwise (fun a b => a.1 < b.1)) {a b : κ × ν}
    (ha : a ∈ l) (hb : b ∈ l) (hk : a.1 = b.1) : a = b := by
  induction l with
  | nil => simp at ha
  | cons e rest ih =>
    rw [List.pairwise_cons] at hl
    rcases List.mem_cons.1 ha with rfl | ha' <;> rcases List.mem_cons.1 hb with rfl | hb'
    · rfl
    · exact absurd hk (hl.1 b hb').ne
    · exact absurd hk (hl.1 a ha').ne'
    · exact ih hl.2 ha' hb'
variable (m : OrdMap κ ν)

theorem get?_eq_some_iff (k : κ) (v : ν) : m.get? k = some v ↔ (k, v) ∈ m.entries := by
  constructor
  · intro h
    obtain ⟨e, he, rfl⟩ := Option.map_eq_some_iff.1 h
    have hk : e.1 = k := by simpa using List.find?_some he
    rw [← hk]
    exact List.mem_of_find?_eq_some he
  · intro h
    cases hf : m.entries.find? (fun e => e.1 = k) with
    | none => simpa using List.find?_eq_none.1 hf _ h
    | some e =>
      have hk : e.1 = k := by simpa using List.find?_some hf
      have hmem := List.mem_of_find?_eq_some hf
      have he : e = (k, v) := eq_of_key_eq m.sorted hmem h hk
      simp [get?, hf, he]

theorem get?_eq_none_iff (k : κ) : m.get? k = none ↔ ∀ v, (k, v) ∉ m.entries := by
  rw [Option.eq_none_iff_forall_not_mem]
  simp only [Option.mem_def, get?_eq_some_iff]

theorem mem_insert (k : κ) (v : ν) (e : κ × ν) :
    e ∈ (m.insert k v).entries ↔ e = (k, v) ∨ (e ∈ m.entries ∧ e.1 ≠ k) := by
  simp only [insert, List.mem_append, List.mem_filter, List.mem_cons, decide_eq_true_eq]
  constructor
  · rintro (⟨he, hlt⟩ | rfl | ⟨he, hlt⟩)
    · exact Or.inr ⟨he, hlt.ne⟩
    · exact Or.inl rfl
    · exact Or.inr ⟨he, hlt.ne'⟩
  · rintro (rfl | ⟨he, hne⟩)
    · exact Or.inr (Or.inl rfl)
    · exact hne.lt_or_gt.imp (fun h => ⟨he, h⟩) (fun h => Or.inr ⟨he, h⟩)

theorem mem_erase (k : κ) (e : κ × ν) : e ∈ (m.erase k).entries ↔ e ∈ m.entries ∧ e.1 ≠ k := by
  simp [erase]

@[simp] theorem get?_empty (k : κ) : (empty : OrdMap κ ν).get? k = none := rfl

theorem get?_insert (k k' : κ) (v : ν) :
    (m.insert k v).get? k' = if k' = k then some v else m.get? k' := by
  ext w
  rw [get?_eq_some_iff, mem_insert]
  split_ifs with h
  · subst h
    simp [eq_comm]
  · simp [h, get?_eq_some_iff]

@[simp] theorem get?_insert_self (k : κ) (v : ν) :
    (m.insert k v).get? k = some v := by rw [get?_insert, if_pos rfl]

theorem get?_insert_of_ne {k k' : κ} (v : ν) (h : k' ≠ k) :
    (m.insert k v).get? k' = m.get? k' := by rw [get?_insert, if_neg h]

theorem get?_erase (k k' : κ) : (m.erase k).get? k' = if k' = k then none else m.get? k' := by
  ext w
  rw [get?_eq_some_iff, mem_erase]
  split_ifs with h
  · simp [h]
  · simp [h, get?_eq_some_iff]

theorem eq_of_entries {m n : OrdMap κ ν} (h : m.entries = n.entries) : m = n := by
  cases m
  cases n
  simpa using h

theorem eq_of_mem_iff {m n : OrdMap κ ν} (h : ∀ e, e ∈ m.entries ↔ e ∈ n.entries) : m = n := by
  apply eq_of_entries
  have hm : m.entries.Nodup := m.sorted.imp (fun hab he => by simp [he] at hab)
  have hn : n.entries.Nodup := n.sorted.imp (fun hab he => by simp [he] at hab)
  exact ((List.perm_ext_iff_of_nodup hm hn).2 h).eq_of_pairwise
    (fun a b _ _ hab hba => absurd hab hba.not_gt) m.sorted n.sorted

theorem ext_get? {m n : OrdMap κ ν} (h : ∀ k, m.get? k = n.get? k) : m = n := by
  apply eq_of_mem_iff
  rintro ⟨k, v⟩
  rw [← get?_eq_some_iff, ← get?_eq_some_iff, h]

theorem mem_keys (m : OrdMap κ ν) (k : κ) : k ∈ m.keys ↔ ∃ v, m.get? k = some v := by
  simp only [keys, List.mem_map, get?_eq_some_iff, Prod.exists, exists_and_right, exists_eq_right]

theorem keys_sorted (m : OrdMap κ ν) : m.keys.Pairwise (· < ·) := List.pairwise_map.2 m.sorted

theorem entries_perm_of_get? {m : OrdMap κ ν} {k : κ} {v : ν} (h : m.get? k = some v) :
    m.entries.Perm ((k, v) :: (m.erase k).entries) := by
  have hm : m.entries.Nodup := m.sorted.imp (fun hab he => by simp [he] at hab)
  have he : ((k, v) :: (m.erase k).entries).Nodup :=
    List.nodup_cons.2 ⟨fun hmem => ((m.mem_erase k _).1 hmem).2 rfl, hm.filter _⟩
  rw [List.perm_ext_iff_of_nodup hm he]
  intro e
  rw [List.mem_cons, mem_erase]
  constructor
  · intro hmem
    by_cases hk : e.1 = k
    · obtain ⟨k', w⟩ := e
      have hw : m.get? k' = some w := (m.get?_eq_some_iff _ _).2 hmem
      simp only at hk
      rw [hk, h] at hw
      exact Or.inl (by rw [hk, Option.some.inj hw])
    · exact Or.inr ⟨hmem, hk⟩
  · rintro (rfl | ⟨hmem, -⟩)
    · exact (m.get?_eq_some_iff _ _).1 h
    · exact hmem

theorem erase_eq_self {m : OrdMap κ ν} {k : κ} (h : m.get? k = none) : m.erase k = m := by
  apply eq_of_mem_iff
  intro e
  rw [mem_erase, and_iff_left_iff_imp]
  rintro he rfl
  exact (m.get?_eq_none_iff _).1 h e.2 he

@[simp] theorem erase_insert (m : OrdMap κ ν) (k : κ) (v : ν) :
    (m.insert k v).erase k = m.erase k := by
  apply ext_get?
  intro k'
  rw [get?_erase, get?_erase]
  split_ifs with h
  · rfl
  · exact m.get?_insert_of_ne v h

theorem insert_insert (m : OrdMap κ ν) (k : κ) (v w : ν) :
    (m.insert k v).insert k w = m.insert k w := by
  apply ext_get?
  intro k'
  simp only [get?_insert]
  split_ifs <;> rfl

def total (f : κ × ν → ℕ) (m : OrdMap κ ν) : ℕ := (m.entries.map f).sum

theorem total_of_get? (f : κ × ν → ℕ) {m : OrdMap κ ν} {k : κ} {v : ν}
    (h : m.get? k = some v) : m.total f = f (k, v) + (m.erase k).total f := by
  have hp := ((entries_perm_of_get? h).map f).sum_eq
  simpa only [total, List.map_cons, List.sum_cons] using hp

theorem total_insert (f : κ × ν → ℕ) (m : OrdMap κ ν) (k : κ) (v : ν) :
    (m.insert k v).total f = f (k, v) + (m.erase k).total f := by
  rw [total_of_get? f (m.get?_insert_self k v), erase_insert]

theorem total_erase_le (f : κ × ν → ℕ) (m : OrdMap κ ν) (k : κ) :
    (m.erase k).total f ≤ m.total f := by
  cases h : m.get? k with
  | none => rw [erase_eq_self h]
  | some v => rw [total_of_get? f h]; omega

theorem size_eq_total (m : OrdMap κ ν) : m.size = m.total (fun _ => 1) := by
  simp [size, total]

theorem first?_mem {m : OrdMap κ ν} {e : κ × ν} (h : m.first? = some e) : e ∈ m.entries :=
  List.mem_of_head? h

end OrdMap
end OrderedMap
