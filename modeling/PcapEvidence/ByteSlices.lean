import PcapEvidence.WirePayload

/-!
# Octets at a position

`Carries b i l` says that the buffer holds the octets `l` at position `i`. It is what a reader of a
buffer establishes octet by octet, and it splits along concatenation.
-/

namespace PcapEvidence

/-- The buffer holds these octets at this position. -/
def Carries (b : List U8) (i : ℕ) (l : List U8) : Prop := l <+: b.drop i

section Carries

variable {b l more : List U8} {i j k : ℕ} {o : U8}

@[simp] theorem carries_nil : Carries b i [] := List.nil_prefix

theorem carries_append : Carries b i (l ++ more) ↔ Carries b i l ∧ Carries b (i + l.length) more := by
  unfold Carries
  rw [← List.drop_drop]
  constructor
  · rintro ⟨tail, h⟩
    rw [List.append_assoc] at h
    refine ⟨⟨more ++ tail, h⟩, tail, ?_⟩
    rw [← h, List.drop_left]
  · rintro ⟨⟨tail, h⟩, hmore⟩
    rw [← h, List.drop_left] at hmore
    obtain ⟨rest, rfl⟩ := hmore
    exact ⟨rest, by rw [List.append_assoc, h]⟩

theorem carries_cons : Carries b i (o :: l) ↔
    i < b.length ∧ byteAt b i = o ∧ Carries b (i + 1) l := by
  unfold Carries byteAt
  by_cases h : i < b.length
  · rw [List.drop_eq_getElem_cons h, List.cons_prefix_cons, List.getD_eq_getElem?_getD, List.getElem?_eq_getElem h]
    simp only [h, true_and, Option.getD_some, eq_comm]
  · rw [List.drop_eq_nil_of_le (by omega)]
    simp [h]

theorem carries_single : Carries b i [o] ↔ i < b.length ∧ byteAt b i = o := by
  simp [carries_cons]

theorem carries_self (b : List U8) : Carries b 0 b := List.prefix_refl _

theorem Carries.length_le (h : Carries b i l) (hi : i ≤ b.length) : i + l.length ≤ b.length := by
  have := List.IsPrefix.length_le h
  rw [List.length_drop] at this
  omega

theorem carries_sliceOf : Carries b i (sliceOf b i j) := by
  unfold Carries sliceOf
  rw [List.drop_take]
  exact List.take_prefix _ _

theorem Carries.sliceOf_eq (h : Carries b i l) : sliceOf b i (i + l.length) = l := by
  unfold sliceOf
  rw [List.drop_take, Nat.add_sub_cancel_left]
  exact (List.prefix_iff_eq_take.1 h).symm

theorem length_sliceOf_of_le (hij : i ≤ j) (hj : j ≤ b.length) : (sliceOf b i j).length = j - i := by
  rw [length_sliceOf]
  omega
variable (h : Carries b i l)
include h

theorem Carries.trans (hmore : Carries l j more) : Carries b (i + j) more := by
  unfold Carries at h hmore ⊢
  rw [← List.drop_drop]
  exact List.IsPrefix.trans hmore (List.IsPrefix.drop h j)

theorem Carries.eq_drop (hl : b.length ≤ i + l.length) : b.drop i = l :=
  (List.IsPrefix.eq_of_length_le h (by rw [List.length_drop]; omega)).symm

theorem Carries.sliceOf_inner (hk : k ≤ l.length) : sliceOf b (i + j) (i + k) = sliceOf l j k := by
  obtain ⟨rest, hrest⟩ := h
  unfold sliceOf
  rw [← List.drop_drop, List.drop_take, Nat.add_sub_cancel_left, ← hrest,
    List.take_append_of_le_length hk]

theorem Carries.byteAt_inner (hj : j < l.length) : byteAt b (i + j) = byteAt l j := by
  obtain ⟨rest, hrest⟩ := h
  unfold byteAt
  rw [List.getD_eq_getElem?_getD, List.getD_eq_getElem?_getD, ← List.getElem?_drop, ← hrest,
    List.getElem?_append_left hj]

theorem Carries.be16_inner (hj : j + 2 ≤ l.length) : be16 b (i + j) = be16 l j := by
  rw [be16, be16, Nat.add_assoc, h.byteAt_inner (by omega), h.byteAt_inner (by omega)]

theorem Carries.be32_inner (hj : j + 4 ≤ l.length) : be32 b (i + j) = be32 l j := by
  have hoctet : ∀ k < 4, byteAt b (i + j + k) = byteAt l (j + k) := by
    intro k hk
    rw [Nat.add_assoc]
    exact h.byteAt_inner (by omega)
  rw [be32, be32, hoctet 1 (by omega), hoctet 2 (by omega), hoctet 3 (by omega)]
  rw [h.byteAt_inner (by omega)]

omit h

end Carries

end PcapEvidence
