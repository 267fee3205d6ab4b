import PcapEvidence.CaptureClock
import PcapEvidence.Words

/-!
# The clock conversion in machine words

The conversion to nanoseconds multiplies, raises to powers and shifts in 128-bit words. Here every
operator of the source is written with its own range, and an operator without a checked form stops
the program outside it. No such stop is reachable, and what the words compute is the exact instant.
-/

namespace PcapEvidence

namespace Words

def subU8 (a b : U8) : Words U8 := within (b ≤ a) (a - b)

def mulU128 (a b : ℕ) : Words ℕ := within (a * b < 2 ^ 128) (a * b)

def powU128 (a n : ℕ) : Words ℕ := within (a ^ n < 2 ^ 128) (a ^ n)

def remU128 (a b : ℕ) : Words ℕ := within (0 < b) (a % b)

def divU128 (a b : ℕ) : Words ℕ := within (0 < b) (a / b)

def mulI128 (a b : ℤ) : Words ℤ := within (-2 ^ 127 ≤ a * b ∧ a * b < 2 ^ 127) (a * b)

def checkedPowU128 (a n : ℕ) : Option ℕ := if a ^ n < 2 ^ 128 then some (a ^ n) else none

def checkedShlU128 (a n : ℕ) : Option ℕ := if n < 128 then some (a <<< n % 2 ^ 128) else none

def tryI128 (a : ℕ) : Option ℤ := if a < 2 ^ 127 then some a else none

def checkedAddI128 (a b : ℤ) : Option ℤ :=
  if -2 ^ 127 ≤ a + b ∧ a + b < 2 ^ 127 then some (a + b) else none

end Words

namespace Resolution

def unit : Resolution → ℚ
  | decimal e => (10 : ℚ) ^ (-(e.toNat : ℤ))
  | binary e => (2 : ℚ) ^ (-(e.toNat : ℤ))

theorem unit_eq (r : Resolution) : r.unit = (r.ticksPerSecond : ℚ)⁻¹ := by
  cases r <;> simp [unit, ticksPerSecond]

end Resolution

namespace Timestamp

open Words

def exactDivWords (numerator divisor : ℕ) : Words ℕ := do
  if (← remU128 numerator divisor) ≠ 0 then fail inexact else divU128 numerator divisor

def nanoTicksWords (t : Timestamp) : Words ℕ :=
  match t.resolution with
  | .decimal e =>
    if e ≤ 9 then do
      let n ← subU8 9 e
      let scale ← powU128 10 n.toNat
      mulU128 t.ticks.toNat scale
    else if t.ticks = 0 then .ok 0
    else do
      let n ← subU8 e 9
      let divisor ← orElse (checkedPowU128 10 n.toNat) inexact
      exactDivWords t.ticks.toNat divisor
  | .binary e => do
    let numerator ← mulU128 t.ticks.toNat 1000000000
    let divisor ← orElse (checkedShlU128 1 e.toNat) inexact
    exactDivWords numerator divisor

def unixNanosWords (t : Timestamp) : Words ℤ := do
  let _ ← ofResult t.resolution.toPcapng
  let part ← t.nanoTicksWords
  let part ← orElse (tryI128 part) inexact
  let offset ← mulI128 t.offsetSeconds.toInt 1000000000
  orElse (checkedAddI128 part offset) inexact

theorem exactDivWords_eq {divisor : ℕ} (h : 0 < divisor) (numerator : ℕ) :
    exactDivWords numerator divisor = ofResult (exactDiv numerator divisor) := by
  rw [exactDivWords, remU128, within_of h, divU128, within_of h, exactDiv, ok_bind]
  by_cases hrem : numerator % divisor ≠ 0
  · rw [if_pos hrem, if_pos hrem, ofResult_error]
  · rw [if_neg hrem, if_neg hrem, ofResult_ok]

theorem nanoTicksWords_eq (t : Timestamp) : t.nanoTicksWords = ofResult t.nanoTicks := by
  have hticks : t.ticks.toNat < 2 ^ 64 := t.ticks.isLt
  obtain ⟨ticks, resolution, offset⟩ := t
  simp only at hticks
  cases resolution with
  | decimal e =>
    have hnine : e ≤ 9 ↔ e.toNat ≤ 9 := Iff.rfl
    simp only [nanoTicksWords, nanoTicks, hnine]
    by_cases hsmall : e.toNat ≤ 9
    · have hsub : ((9 : U8) - e).toNat = 9 - e.toNat := BitVec.toNat_sub_of_le hsmall
      have hpow : 10 ^ (9 - e.toNat) ≤ 10 ^ 9 := Nat.pow_le_pow_right (by norm_num) (by omega)
      have hmul : ticks.toNat * 10 ^ (9 - e.toNat) < 2 ^ 128 :=
        calc ticks.toNat * 10 ^ (9 - e.toNat) ≤ ticks.toNat * 10 ^ 9 := Nat.mul_le_mul_left _ hpow
          _ < 2 ^ 128 := by omega
      rw [if_pos hsmall, if_pos hsmall, subU8, within_of (hnine.2 hsmall),
        ok_bind, hsub, powU128,
        within_of (by omega), ok_bind, mulU128, within_of hmul, ofResult_ok]
    · have hsub : (e - 9).toNat = e.toNat - 9 :=
        BitVec.toNat_sub_of_le (show (9 : ℕ) ≤ e.toNat by omega)
      rw [if_neg hsmall, if_neg hsmall]
      by_cases hzero : ticks = 0
      · rw [if_pos hzero, if_pos hzero, ofResult_ok]
      · rw [if_neg hzero, if_neg hzero, subU8, within_of (show (9 : U8) ≤ e from not_lt.1 fun h => hsmall (le_of_lt h)),
          ok_bind, hsub, checkedPowU128]
        by_cases hbound : 10 ^ (e.toNat - 9) < 2 ^ 128
        · rw [if_pos hbound, if_pos hbound, orElse, ok_bind,
            exactDivWords_eq (Nat.pow_pos (by norm_num))]
        · rw [if_neg hbound, if_neg hbound]
          rfl
  | binary e =>
    simp only [nanoTicksWords, nanoTicks]
    rw [mulU128, within_of (by omega), ok_bind, checkedShlU128]
    by_cases hshift : e.toNat < 128
    · have hpow : 1 <<< e.toNat % 2 ^ 128 = 2 ^ e.toNat := by
        rw [Nat.one_shiftLeft]
        exact Nat.mod_eq_of_lt (Nat.pow_lt_pow_right (by norm_num) hshift)
      rw [if_pos hshift, if_pos hshift, orElse, ok_bind, hpow,
        exactDivWords_eq (Nat.pow_pos (by norm_num))]
    · rw [if_neg hshift, if_neg hshift]
      rfl

theorem unixNanosWords_eq (t : Timestamp) : t.unixNanosWords = ofResult t.unixNanos := by
  have hoffset : -2 ^ 127 ≤ t.offsetSeconds.toInt * 1000000000 ∧
      t.offsetSeconds.toInt * 1000000000 < 2 ^ 127 := by
    have hlo := BitVec.le_toInt t.offsetSeconds
    have hhi := BitVec.toInt_lt (x := t.offsetSeconds)
    norm_num at hlo hhi ⊢
    constructor <;> omega
  rw [unixNanosWords, unixNanos, nanoTicksWords_eq]
  cases t.resolution.toPcapng with
  | error e => rfl
  | ok octet =>
    cases t.nanoTicks with
    | error e => rfl
    | ok part =>
      change (orElse (tryI128 part) inexact >>= fun part => mulI128 _ _ >>= fun offset =>
          orElse (checkedAddI128 part offset) inexact) =
        ofResult (if part ≥ 2 ^ 127 then _ else if _ then _ else _)
      rw [tryI128, mulI128, within_of hoffset]
      by_cases hpart : part < 2 ^ 127
      · rw [if_pos hpart, if_neg (by omega), orElse, ok_bind, ok_bind, checkedAddI128]
        by_cases hsum : -2 ^ 127 ≤ (part : ℤ) + t.offsetSeconds.toInt * 1000000000 ∧
            (part : ℤ) + t.offsetSeconds.toInt * 1000000000 < 2 ^ 127
        · rw [if_pos hsum, if_pos hsum]
          rfl
        · rw [if_neg hsum, if_neg hsum]
          rfl
      · rw [if_neg hpart, if_pos (by omega)]
        rfl

/-- The program never stops, and converts exactly the instants of whole nanoseconds. -/
theorem unixNanosWords_exact (t : Timestamp) :
    t.unixNanosWords = ofResult t.unixNanos ∧ ∀ v : ℤ, t.unixNanos = .ok v ↔
      t.resolution.exponent ≤ 127 ∧
        t.ticks.toNat * t.resolution.unit * 10 ^ 9 + t.offsetSeconds.toInt * 10 ^ 9 = (v : ℚ) := by
  refine ⟨t.unixNanosWords_eq, fun v => ?_⟩
  rw [unixNanos_eq_ok_iff, seconds, Resolution.unit_eq, add_mul, div_eq_mul_inv]

end Timestamp
end PcapEvidence
