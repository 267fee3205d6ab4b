import PcapEvidence.InternetChecksum
import Mathlib.Algebra.BigOperators.Group.List.Basic

/-!
# The checksum of a concatenation

The standard takes the one's complement of the one's-complement sum of the big-endian words, an odd
last byte padded with zero. A sum with end-around carry depends on the plain sum only, through its
residue modulo 65535, where zero stands for the empty sum alone.
-/

namespace PcapEvidence.InternetChecksum

/-- Addition with end-around carry. -/
def onesAdd (a b : U16) : U16 := if a.toNat + b.toNat < 2 ^ 16 then a + b else a + b + 1

def onesSum (words : List U16) : U16 := words.foldl onesAdd 0

def word (high low : U8) : U16 := BitVec.ofNat 16 (high.toNat * 256 + low.toNat)

def words : List U8 → List U16
  | [] => []
  | [b] => [word b 0]
  | a :: b :: rest => word a b :: words rest

def standard (data : List U8) : U16 := ~~~ onesSum (words data)

def residue (n : ℕ) : ℕ := if n = 0 then 0 else (n - 1) % 0xffff + 1

theorem residue_le (n : ℕ) : residue n ≤ 0xffff := by
  unfold residue
  split <;> omega

theorem residue_of_le {n : ℕ} (h : n ≤ 0xffff) : residue n = n := by
  unfold residue
  split <;> omega

theorem residue_residue_add (n m : ℕ) : residue (residue n + m) = residue (n + m) := by
  rcases Nat.eq_zero_or_pos n with rfl | hn
  · rfl
  · have hleft : residue n = (n - 1) % 0xffff + 1 := if_neg (by omega)
    have hright : residue (n + m) = (n + m - 1) % 0xffff + 1 := if_neg (by omega)
    rw [hleft, hright]
    exact (if_neg (by omega)).trans (by omega)

theorem fold_eq_residue {s : ℕ} (h : s ≤ 0x1fffe) : fold s = residue s := by
  unfold fold residue
  split <;> omega

theorem toNat_onesAdd (a b : U16) : (onesAdd a b).toNat = residue (a.toNat + b.toNat) := by
  have ha := a.isLt
  have hb := b.isLt
  unfold onesAdd residue
  split
  · rw [BitVec.toNat_add]
    split <;> omega
  · rw [BitVec.toNat_add, BitVec.toNat_add]
    have hone : (1 : U16).toNat = 1 := rfl
    rw [hone]
    split <;> omega

def total (words : List U16) : ℕ := (words.map BitVec.toNat).sum

theorem toNat_foldl_onesAdd (s : U16) (words : List U16) :
    (words.foldl onesAdd s).toNat = residue (s.toNat + total words) := by
  induction words generalizing s with
  | nil =>
    have hs := s.isLt
    rw [List.foldl_nil, total, List.map_nil, List.sum_nil, Nat.add_zero, residue_of_le (by omega)]
  | cons w rest ih =>
    rw [List.foldl_cons, ih, toNat_onesAdd, residue_residue_add, total, total, List.map_cons,
      List.sum_cons, Nat.add_assoc]

theorem toNat_onesSum (words : List U16) : (onesSum words).toNat = residue (total words) := by
  rw [onesSum, toNat_foldl_onesAdd]
  exact congrArg residue (Nat.zero_add _)

/-- `u32` addition, which is missing where the accumulator would overflow. -/
def add32? (a b : ℕ) : Option ℕ := if a + b < 2 ^ 32 then some (a + b) else none

def fold? (sum : ℕ) : Option ℕ := add32? (sum % 0x10000) (sum / 0x10000)

def addWord? (c : InternetChecksum) (high low : U8) : Option InternetChecksum := do
  let sum ← add32? c.sum (high.toNat * 256 + low.toNat)
  let folded ← fold? sum
  return { c with sum := folded }

def updatePairs? (c : InternetChecksum) : List U8 → Option InternetChecksum
  | [] => some { c with highByte := none }
  | [b] => some { c with highByte := some b }
  | a :: b :: rest => do updatePairs? (← c.addWord? a b) rest

/-- `update` on the 32-bit accumulator. -/
def update? (c : InternetChecksum) : List U8 → Option InternetChecksum
  | [] => some c
  | b :: rest =>
    match c.highByte with
    | some high => do updatePairs? (← { c with highByte := none }.addWord? high b) rest
    | none => updatePairs? c (b :: rest)

def foldAll? : ℕ → ℕ → Option ℕ
  | 0, sum => some sum
  | fuel + 1, sum => if sum / 0x10000 ≠ 0 then do foldAll? fuel (← fold? sum) else some sum

def finish? (c : InternetChecksum) : Option U16 := do
  let sum ← add32? c.sum (c.highByte.elim 0 fun high => high.toNat * 256)
  let folded ← foldAll? 32 sum
  return ~~~ BitVec.ofNat 16 folded

section Updates
variable {c : InternetChecksum} {whole data : List U8}

theorem add32?_of_le {a b : ℕ} (ha : a ≤ 0xffff) (hb : b ≤ 0xffff) : add32? a b = some (a + b) :=
  if_pos (by omega)

theorem fold?_of_le {s : ℕ} (h : s ≤ 0x1fffe) : fold? s = some (residue s) := by
  rw [fold?, add32?_of_le (by omega) (by omega), ← fold_eq_residue h]
  rfl

theorem word_le (high low : U8) : high.toNat * 256 + low.toNat ≤ 0xffff := by
  have hhigh := high.isLt
  have hlow := low.isLt
  omega

theorem toNat_word (high low : U8) : (word high low).toNat = high.toNat * 256 + low.toNat := by
  have hle := word_le high low
  rw [word, BitVec.toNat_ofNat]
  omega

theorem words_append {whole : List U8} (h : whole.length % 2 = 0) (more : List U8) :
    words (whole ++ more) = words whole ++ words more := by
  induction whole using words.induct with
  | case1 => rfl
  | case2 b => cases h
  | case3 a b rest ih =>
    have hrest : rest.length % 2 = 0 := by
      simp only [List.length_cons] at h
      omega
    rw [List.cons_append, List.cons_append, words, words, ih hrest, List.cons_append]

/-- The accumulator of the whole words so far, with the byte that waits for its partner. -/
structure Sums (c : InternetChecksum) (whole : List U8) : Prop where
  even : whole.length % 2 = 0
  sum : c.sum = residue (total (words whole))

theorem sums_new : Sums new [] := ⟨rfl, rfl⟩

theorem Sums.sum_le (h : Sums c whole) : c.sum ≤ 0xffff := by
  rw [h.sum]
  exact residue_le _

theorem Sums.addWord (h : Sums c whole) (a b : U8) :
    c.addWord? a b = some (c.addWord a b) ∧ Sums (c.addWord a b) (whole ++ [a, b]) := by
  have hsum := h.sum_le
  have hword := word_le a b
  refine ⟨?_, ⟨?_, ?_⟩⟩
  · rw [addWord?, add32?_of_le hsum hword]
    change (fold? (c.sum + (a.toNat * 256 + b.toNat)) >>= _) = _
    rw [fold?_of_le (by omega), InternetChecksum.addWord, fold_eq_residue (by omega)]
    rfl
  · have heven := h.even
    rw [List.length_append, List.length_cons, List.length_cons, List.length_nil]
    omega
  · rw [InternetChecksum.addWord, fold_eq_residue (by omega), h.sum, residue_residue_add,
      words_append h.even, total, total, List.map_append, List.sum_append, words, words, List.map_cons,
      List.map_nil, List.sum_cons, List.sum_nil, toNat_word, Nat.add_zero]

def Takes (c : InternetChecksum) (data : List U8) : Prop :=
  ∃ whole, Sums c whole ∧ data = whole ++ c.highByte.toList

theorem takes_new : Takes new [] := ⟨[], sums_new, rfl⟩

theorem Sums.updatePairs (h : Sums c whole) (more : List U8) :
    c.updatePairs? more = some (c.updatePairs more) ∧ Takes (c.updatePairs more) (whole ++ more) := by
  induction more using words.induct generalizing c whole with
  | case1 => exact ⟨rfl, whole, ⟨h.even, h.sum⟩, by simp [InternetChecksum.updatePairs]⟩
  | case2 b => exact ⟨rfl, whole, ⟨h.even, h.sum⟩, by simp [InternetChecksum.updatePairs]⟩
  | case3 a b rest ih =>
    obtain ⟨hadd, hsums⟩ := h.addWord a b
    obtain ⟨hrest, htakes⟩ := ih hsums
    refine ⟨?_, ?_⟩
    · rw [updatePairs?, hadd, InternetChecksum.updatePairs]
      exact hrest
    · rw [InternetChecksum.updatePairs]
      simpa using htakes

theorem Takes.update (h : Takes c data) (more : List U8) :
    c.update? more = some (c.update more) ∧ Takes (c.update more) (data ++ more) := by
  obtain ⟨whole, hsums, rfl⟩ := h
  cases more with
  | nil => exact ⟨rfl, whole, hsums, by rw [List.append_nil]; rfl⟩
  | cons b rest =>
    cases hhigh : c.highByte with
    | none =>
      obtain ⟨hrun, htakes⟩ := hsums.updatePairs (b :: rest)
      refine ⟨?_, ?_⟩
      · simp only [update?, InternetChecksum.update, hhigh]
        exact hrun
      · simp only [InternetChecksum.update, hhigh]
        simpa using htakes
    | some high =>
      have hempty : Sums { c with highByte := none } whole := ⟨hsums.even, hsums.sum⟩
      obtain ⟨hadd, hpair⟩ := hempty.addWord high b
      obtain ⟨hrun, htakes⟩ := hpair.updatePairs rest
      refine ⟨?_, ?_⟩
      · simp only [update?, InternetChecksum.update, hhigh]
        rw [hadd]
        exact hrun
      · simp only [InternetChecksum.update, hhigh]
        simpa using htakes

theorem foldAll_of_small {s : ℕ} (h : s ≤ 0xffff) (fuel : ℕ) :
    foldAll fuel s = s ∧ foldAll? fuel s = some s := by
  have hdone : ¬ s / 0x10000 ≠ 0 := by omega
  cases fuel with
  | zero => exact ⟨rfl, rfl⟩
  | succ fuel => exact ⟨if_neg hdone, if_neg hdone⟩

theorem foldAll_of_le {s : ℕ} (h : s ≤ 0x1fffe) : foldAll 32 s = residue s := by
  have hsmall := foldAll_of_small (residue_le s) 31
  by_cases hs : s ≤ 0xffff
  · rw [(foldAll_of_small hs 32).1, residue_of_le hs]
  · rw [foldAll, if_pos (by omega), fold_eq_residue h, hsmall.1]

theorem foldAll?_of_le {s : ℕ} (h : s ≤ 0x1fffe) : foldAll? 32 s = some (residue s) := by
  have hsmall := foldAll_of_small (residue_le s) 31
  by_cases hs : s ≤ 0xffff
  · rw [(foldAll_of_small hs 32).2, residue_of_le hs]
  · rw [foldAll?, if_pos (by omega), fold?_of_le h]
    exact hsmall.2

theorem Takes.finish (h : Takes c data) : c.finish? = some c.finish ∧ c.finish = standard data := by
  obtain ⟨whole, hsums, rfl⟩ := h
  have hsum := hsums.sum_le
  have hlast : (c.highByte.elim 0 fun high => high.toNat * 256) = total (words c.highByte.toList) := by
    cases c.highByte with
    | none => rfl
    | some high => simp [total, words, toNat_word]
  have hlast_le : (c.highByte.elim 0 fun high => high.toNat * 256) ≤ 0xffff := by
    cases c.highByte with
    | none => exact Nat.zero_le _
    | some high => exact (Nat.le_add_right _ _).trans (word_le high 0)
  have hwhole : c.sum + total (words c.highByte.toList) =
      c.sum + (c.highByte.elim 0 fun high => high.toNat * 256) := by rw [hlast]
  refine ⟨?_, ?_⟩
  · rw [finish?, add32?_of_le hsum hlast_le]
    change (foldAll? 32 _ >>= _) = _
    rw [foldAll?_of_le (by omega), InternetChecksum.finish, foldAll_of_le (by omega)]
    rfl
  · rw [InternetChecksum.finish, foldAll_of_le (by omega), ← hwhole, hsums.sum, residue_residue_add,
      standard]
    refine congrArg _ (BitVec.eq_of_toNat_eq ?_)
    have hle := residue_le (total (words whole) + total (words c.highByte.toList))
    rw [toNat_onesSum, words_append hsums.even, BitVec.toNat_ofNat, Nat.mod_eq_of_lt (by omega), total,
      total, total, List.map_append, List.sum_append]

end Updates

/-- Any split of the data gives the checksum of the standard, and the accumulator never overflows. -/
theorem updates_standard (slices : List (List U8)) :
    (slices.foldl update new).finish = standard slices.flatten ∧
      (slices.foldlM update? new >>= finish?) = some (slices.foldl update new).finish := by
  have hrun : ∀ (c : InternetChecksum) (data : List U8), Takes c data →
      slices.foldlM update? c = some (slices.foldl update c) ∧
        Takes (slices.foldl update c) (data ++ slices.flatten) := by
    induction slices with
    | nil => exact fun c data h => ⟨rfl, by simpa using h⟩
    | cons slice rest ih =>
      intro c data h
      obtain ⟨hstep, htakes⟩ := h.update slice
      obtain ⟨hrest, hall⟩ := ih _ _ htakes
      rw [List.foldlM_cons, hstep, List.foldl_cons]
      exact ⟨hrest, by simpa using hall⟩
  obtain ⟨hchecked, htakes⟩ := hrun new [] takes_new
  obtain ⟨hfinish, hstandard⟩ := htakes.finish
  rw [hchecked]
  exact ⟨hstandard, hfinish⟩

end PcapEvidence.InternetChecksum
