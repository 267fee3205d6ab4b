import PcapEvidence.HistoryState
import Mathlib.Data.Int.ModEq
import Mathlib.Order.Interval.Finset.Basic
import Mathlib.Data.Int.Interval

/-!
# Aliases of a wire sequence

The relative offsets of a wire sequence are the integers of its residue class, one for each epoch. The
first and the last epoch of a range come from a ceiling and a floor, so the candidates are the aliases
inside the range, each exactly once.
-/

namespace PcapEvidence.History

noncomputable def aliases (sequence anchor : U32) (low high : ℤ) : Finset ℤ :=
  (Finset.Icc low high).filter fun x => x ≡ sequence.toNat - anchor.toNat [ZMOD 2 ^ 32]

section Epochs
variable {r low high k x : ℤ}

def firstEpoch (r low : ℤ) : ℤ := (low - r + MODULUS - 1) / MODULUS

def lastEpoch (r high : ℤ) : ℤ := (high - r) / MODULUS

theorem firstEpoch_le : firstEpoch r low ≤ k ↔ low ≤ r + k * MODULUS := by
  unfold firstEpoch MODULUS
  omega

theorem le_lastEpoch : k ≤ lastEpoch r high ↔ r + k * MODULUS ≤ high := by
  unfold lastEpoch MODULUS
  omega

theorem epoch_injective (r : ℤ) : Function.Injective fun k : ℤ => r + k * MODULUS := by
  intro k k' h
  have hmul : k * MODULUS = k' * MODULUS := add_left_cancel h
  exact mul_right_cancel₀ (by decide) hmul

theorem mem_aliases {sequence anchor : U32} : x ∈ aliases sequence anchor low high ↔
    ∃ k, firstEpoch (sequence - anchor).toNat low ≤ k ∧ k ≤ lastEpoch (sequence - anchor).toNat high ∧
      (sequence - anchor).toNat + k * MODULUS = x := by
  have hs := sequence.isLt
  have ha := anchor.isLt
  have hresidue : ((sequence - anchor).toNat : ℤ) ≡ sequence.toNat - anchor.toNat [ZMOD 2 ^ 32] := by
    rw [BitVec.toNat_sub, Int.ModEq]
    omega
  rw [aliases, Finset.mem_filter, Finset.mem_Icc]
  constructor
  · rintro ⟨⟨hlow, hhigh⟩, hx⟩
    obtain ⟨k, hk⟩ := (Int.modEq_iff_dvd.1 (hresidue.trans hx.symm))
    have hsplit : ((sequence - anchor).toNat : ℤ) + k * MODULUS = x := by
      unfold MODULUS
      omega
    refine ⟨k, firstEpoch_le.2 ?_, le_lastEpoch.2 ?_, hsplit⟩
    · rwa [hsplit]
    · rwa [hsplit]
  · rintro ⟨k, hfirst, hlast, rfl⟩
    refine ⟨⟨firstEpoch_le.1 hfirst, le_lastEpoch.1 hlast⟩, ?_⟩
    refine Int.ModEq.trans ?_ hresidue
    rw [Int.ModEq, MODULUS]
    omega

theorem aliases_eq_image (sequence anchor : U32) (low high : ℤ) : aliases sequence anchor low high =
    (Finset.Icc (firstEpoch (sequence - anchor).toNat low)
      (lastEpoch (sequence - anchor).toNat high)).image
        fun k => (sequence - anchor).toNat + k * MODULUS := by
  ext x
  rw [mem_aliases, Finset.mem_image]
  simp only [Finset.mem_Icc, and_assoc]

theorem card_aliases (sequence anchor : U32) (low high : ℤ) : (aliases sequence anchor low high).card =
    (lastEpoch (sequence - anchor).toNat high + 1 - firstEpoch (sequence - anchor).toNat low).toNat := by
  rw [aliases_eq_image, Finset.card_image_of_injective _ (epoch_injective _), Int.card_Icc]

end Epochs

def epochOffsets (r first last : ℤ) : List ℤ :=
  (List.range (last - first + 1).toNat).map fun k : ℕ => r + (first + k) * MODULUS

theorem mem_epochOffsets {r first last x : ℤ} :
    x ∈ epochOffsets r first last ↔ ∃ k, first ≤ k ∧ k ≤ last ∧ r + k * MODULUS = x := by
  rw [epochOffsets, List.mem_map]
  constructor
  · rintro ⟨k, hk, rfl⟩
    rw [List.mem_range] at hk
    exact ⟨first + k, by omega, by omega, rfl⟩
  · rintro ⟨k, hfirst, hlast, rfl⟩
    refine ⟨(k - first).toNat, List.mem_range.2 (by omega), ?_⟩
    rw [Int.toNat_of_nonneg (by omega), add_sub_cancel]

theorem epochOffsets_sorted (r first last : ℤ) : (epochOffsets r first last).Pairwise (· < ·) := by
  rw [epochOffsets, List.pairwise_map]
  refine List.pairwise_lt_range.imp ?_
  intro j k hjk
  unfold MODULUS
  omega

/-- A number that a 128-bit signed word holds. -/
def InI128 (v : ℤ) : Prop := -2 ^ 127 ≤ v ∧ v < 2 ^ 127

/-- No intermediate value of the computation leaves its 128-bit word. -/
structure NoOverflow (r low high : ℤ) : Prop where
  ceiling : InI128 (low - r) ∧ InI128 (low - r + MODULUS) ∧ InI128 (low - r + MODULUS - 1)
  floor : InI128 (high - r)
  count : InI128 (lastEpoch r high - firstEpoch r low) ∧
    InI128 (lastEpoch r high - firstEpoch r low + 1)
  epochs : ∀ k, firstEpoch r low ≤ k → k ≤ lastEpoch r high →
    InI128 (k * MODULUS) ∧ InI128 (r + k * MODULUS)

theorem noOverflow {low high : ℤ} (hlow : InI64 low) (hhigh : InI64 high) (r : U32) :
    NoOverflow r.toNat low high := by
  have hr := r.isLt
  obtain ⟨hlow₁, hlow₂⟩ := hlow
  obtain ⟨hhigh₁, hhigh₂⟩ := hhigh
  constructor
  · unfold InI128 MODULUS
    omega
  · unfold InI128
    omega
  · unfold InI128 lastEpoch firstEpoch MODULUS
    omega
  · intro k hfirst hlast
    rw [firstEpoch_le] at hfirst
    rw [le_lastEpoch] at hlast
    unfold InI128
    omega

def epochOffset (r first : ℤ) (k : ℕ) : Result ℤ :=
  if InI64 (r + (first + k) * MODULUS) then .ok (r + (first + k) * MODULUS)
  else .error (Error.limit "sequence_epoch")

theorem epochCandidates_valid {low high : ℤ} {max : ℕ} (hle : low ≤ high) (hmax : 0 < max ∧ max ≤ 64)
    (sequence anchor : U32) {first last : ℤ} (hfirst : firstEpoch (sequence - anchor).toNat low = first)
    (hlast : lastEpoch (sequence - anchor).toNat high = last) :
    epochCandidates sequence anchor low high max =
      if last < first then .ok []
      else if last - first + 1 > max then .error (Error.limit "sequence_epoch_candidates")
      else (List.range (last - first + 1).toNat).mapM (epochOffset (sequence - anchor).toNat first) := by
  subst hfirst hlast
  unfold epochCandidates
  rw [if_neg (by omega)]
  rfl

theorem mapM_eq_ok {α β ε : Type} {f : α → Except ε β} {g : α → β} {l : List α}
    (h : ∀ a ∈ l, f a = .ok (g a)) : l.mapM f = .ok (l.map g) := by
  induction l with
  | nil => rfl
  | cons a rest ih =>
    rw [List.mapM_cons, h a (by simp), ih fun b hb => h b (List.mem_cons_of_mem a hb)]
    rfl

theorem epochCandidates_eq {low high : ℤ} {max : ℕ} (hlow : InI64 low) (hhigh : InI64 high)
    (hle : low ≤ high) (hmax : 0 < max ∧ max ≤ 64) (sequence anchor : U32) :
    epochCandidates sequence anchor low high max =
      if (aliases sequence anchor low high).card ≤ max then
        .ok (epochOffsets (sequence - anchor).toNat (firstEpoch (sequence - anchor).toNat low)
          (lastEpoch (sequence - anchor).toNat high))
      else .error (Error.limit "sequence_epoch_candidates") := by
  rw [card_aliases, epochCandidates_valid hle hmax sequence anchor rfl rfl]
  have hfirst : ∀ k, firstEpoch (sequence - anchor).toNat low ≤ k →
      low ≤ (sequence - anchor).toNat + k * MODULUS := fun k => firstEpoch_le.1
  have hlast : ∀ k, k ≤ lastEpoch (sequence - anchor).toNat high →
      (sequence - anchor).toNat + k * MODULUS ≤ high := fun k => le_lastEpoch.1
  generalize firstEpoch (sequence - anchor).toNat low = first at hfirst ⊢
  generalize lastEpoch (sequence - anchor).toNat high = last at hlast ⊢
  by_cases hempty : last < first
  · have hnone : (last - first + 1).toNat = 0 := by omega
    rw [if_pos hempty, if_pos (by omega), epochOffsets, hnone]
    rfl
  rw [if_neg hempty]
  by_cases hmany : last - first + 1 > max
  · rw [if_pos hmany, if_neg (by omega)]
  · rw [if_neg hmany, if_pos (by omega), epochOffsets]
    apply mapM_eq_ok
    intro k hk
    rw [List.mem_range] at hk
    -- The offset of every epoch lies between the two bounds, which are words.
    have hbelow := hfirst (first + k) (by omega)
    have habove := hlast (first + k) (by omega)
    exact if_pos ⟨hlow.1.trans hbelow, habove.trans_lt hhigh.2⟩

/-- The candidates are the aliases in the range, or the budget is too small for them. -/
theorem epochCandidates_exact {low high : ℤ} {max : ℕ} (hlow : InI64 low) (hhigh : InI64 high)
    (hle : low ≤ high) (hmax : 0 < max ∧ max ≤ 64) (sequence anchor : U32) :
    NoOverflow (sequence - anchor).toNat low high ∧
    ((aliases sequence anchor low high).card ≤ max → ∃ l,
      epochCandidates sequence anchor low high max = .ok l ∧ l.Pairwise (· < ·) ∧
      ∀ x, x ∈ l ↔ low ≤ x ∧ x ≤ high ∧ x ≡ sequence.toNat - anchor.toNat [ZMOD 2 ^ 32]) ∧
    (max < (aliases sequence anchor low high).card →
      epochCandidates sequence anchor low high max =
        .error (Error.limit "sequence_epoch_candidates")) := by
  refine ⟨noOverflow hlow hhigh _, fun hcard => ?_, fun hcard => ?_⟩
  · refine ⟨_, by rw [epochCandidates_eq hlow hhigh hle hmax, if_pos hcard],
      epochOffsets_sorted _ _ _, fun x => ?_⟩
    rw [mem_epochOffsets, ← mem_aliases, aliases, Finset.mem_filter, Finset.mem_Icc, and_assoc]
  · rw [epochCandidates_eq hlow hhigh hle hmax, if_neg (by omega)]

/-- A sequence just before its anchor has two aliases in the range, the lower one at its edge. -/
theorem epochCandidates_exact_sample : ∃ l, epochCandidates 3 5 (-2 ^ 32 - 2) (2 ^ 31) 2 = .ok l ∧
    l.Pairwise (· < ·) ∧
    ∀ x, x ∈ l ↔ -2 ^ 32 - 2 ≤ x ∧ x ≤ 2 ^ 31 ∧ x ≡ (3#32).toNat - (5#32).toNat [ZMOD 2 ^ 32] := by
  have hcard : (aliases 3 5 (-2 ^ 32 - 2) (2 ^ 31)).card ≤ 2 := by
    rw [card_aliases]
    decide
  exact (epochCandidates_exact (by decide) (by decide) (by decide) (by decide) 3 5).2.1 hcard

end PcapEvidence.History
