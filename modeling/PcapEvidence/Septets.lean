import Mathlib.Data.Nat.Digits.Lemmas
import Mathlib.Data.BitVec
import Mathlib.Tactic

/-!
# Numbers in groups of seven bits

A number is written as octets that carry seven bits each, most significant first. Every octet but
the last has its high bit set, and the first one is not empty, so a number has one encoding. A
reader that has seen the leading groups `leading w` holds `w`; the next octet either continues it or
ends the number.
-/

namespace PcapEvidence.Septets

/-- The octets before the last one, for the part of the number they hold. -/
def leading (w : ℕ) : List (BitVec 8) :=
  (Nat.digits 128 w).reverse.map fun d => BitVec.ofNat 8 (128 + d)

def octets (v : ℕ) : List (BitVec 8) := leading (v / 128) ++ [BitVec.ofNat 8 (v % 128)]

@[simp] theorem leading_zero : leading 0 = [] := rfl

theorem leading_step {w d : ℕ} (hd : d < 128) (hpos : w ≠ 0 ∨ d ≠ 0) :
    leading (w * 128 + d) = leading w ++ [BitVec.ofNat 8 (128 + d)] := by
  have hdigits : Nat.digits 128 (w * 128 + d) = d :: Nat.digits 128 w := by
    rw [show w * 128 + d = d + 128 * w by omega]
    exact Nat.digits_add 128 (by norm_num) d w hd hpos.symm
  rw [leading, hdigits, List.reverse_cons, List.map_append, List.map_singleton, leading]

theorem leading_append {w : ℕ} {o : BitVec 8} (ho : 128 ≤ o.toNat) (hpos : w ≠ 0 ∨ o ≠ 128) :
    leading w ++ [o] = leading (w * 128 + o.toNat % 128) := by
  have hlt := o.isLt
  have hne : w ≠ 0 ∨ o.toNat % 128 ≠ 0 := by
    refine hpos.imp_right fun h hzero => h (BitVec.eq_of_toNat_eq ?_)
    change o.toNat = 128
    omega
  have heq : BitVec.ofNat 8 (128 + o.toNat % 128) = o := by
    apply BitVec.eq_of_toNat_eq
    rw [BitVec.toNat_ofNat]
    omega
  rw [leading_step (Nat.mod_lt _ (by norm_num)) hne, heq]

theorem leading_last {w : ℕ} {o : BitVec 8} (ho : o.toNat < 128) :
    leading w ++ [o] = octets (w * 128 + o.toNat) := by
  have hdiv : (w * 128 + o.toNat) / 128 = w := by omega
  have hmod : (w * 128 + o.toNat) % 128 = o.toNat := by omega
  rw [octets, hdiv, hmod, BitVec.ofNat_toNat, BitVec.setWidth_eq]

theorem octets_of_lt {v : ℕ} (h : v < 128) : octets v = [BitVec.ofNat 8 v] := by
  rw [octets, Nat.div_eq_of_lt h, Nat.mod_eq_of_lt h, leading_zero, List.nil_append]

theorem groups_induction {P : ℕ → Prop} (zero : P 0)
    (step : ∀ w d, d < 128 → w ≠ 0 ∨ d ≠ 0 → P w → P (w * 128 + d)) (w : ℕ) : P w := by
  induction w using Nat.strongRecOn with
  | ind w ih =>
    rcases Nat.eq_zero_or_pos w with rfl | hpos
    · exact zero
    · have hw : w = w / 128 * 128 + w % 128 := by omega
      rw [hw]
      exact step _ _ (Nat.mod_lt _ (by norm_num)) (by omega) (ih _ (by omega))

theorem length_leading_le {k w : ℕ} (h : w < 128 ^ k) : (leading w).length ≤ k := by
  rw [leading, List.length_map, List.length_reverse]
  rcases Nat.eq_zero_or_pos w with rfl | hpos
  · simp
  · exact (Nat.digits_length_le_iff (by norm_num) w).2 h

theorem length_leading_eq_zero {w : ℕ} : (leading w).length = 0 ↔ w = 0 := by
  rw [leading, List.length_map, List.length_reverse, List.length_eq_zero_iff,
    Nat.digits_eq_nil_iff_eq_zero]

theorem length_octets (v : ℕ) : (octets v).length = (leading (v / 128)).length + 1 := by
  rw [octets, List.length_append, List.length_singleton]

end PcapEvidence.Septets
