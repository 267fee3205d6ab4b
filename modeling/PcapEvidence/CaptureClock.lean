import PcapEvidence.CaptureTime

/-!
# The instant a timestamp denotes

A tick count with a decimal or binary resolution and an offset in whole seconds denotes a rational
number of seconds. Conversion to nanoseconds succeeds exactly when that number is a whole number of
nanoseconds and the resolution has an encoding; the classic header can hold exactly the instants
with a 32-bit second and a whole fraction unit.
-/

namespace PcapEvidence

namespace Resolution

def exponent : Resolution → ℕ
  | decimal e => e.toNat
  | binary e => e.toNat

def ticksPerSecond : Resolution → ℕ
  | decimal e => 10 ^ e.toNat
  | binary e => 2 ^ e.toNat

theorem ticksPerSecond_pos (r : Resolution) : 0 < r.ticksPerSecond := by
  cases r with
  | decimal e => exact Nat.pow_pos (by omega)
  | binary e => exact Nat.pow_pos (by omega)

theorem toPcapng_ok_iff (r : Resolution) : (∃ v, r.toPcapng = .ok v) ↔ r.exponent ≤ 127 := by
  cases r with
  | decimal e =>
    by_cases h : e.toNat ≤ 127
    · simp [toPcapng, exponent, h]
    · simp [toPcapng, exponent, h]
  | binary e =>
    by_cases h : e.toNat ≤ 127
    · simp [toPcapng, exponent, h]
    · simp [toPcapng, exponent, h]

theorem fromPcapng_toPcapng {r : Resolution} {v : U8} (h : r.toPcapng = .ok v) :
    fromPcapng v = r := by
  cases r with
  | decimal e =>
    simp only [toPcapng] at h
    split_ifs at h with hle
    cases h
    have hbit : v &&& 0x80 = 0 := by
      revert hle
      revert v
      decide +kernel
    rw [fromPcapng, if_pos hbit]
  | binary e =>
    simp only [toPcapng] at h
    split_ifs at h with hle
    cases h
    have hbits : (e ||| 0x80) &&& 0x80 ≠ 0 ∧ (e ||| 0x80) &&& 0x7f = e := by
      revert hle
      revert e
      decide +kernel
    rw [fromPcapng, if_neg hbits.1, hbits.2]

end Resolution

namespace Timestamp

theorem exactDiv_eq_ok_iff {a d n : ℕ} (hd : 0 < d) : exactDiv a d = .ok n ↔ a = n * d := by
  unfold exactDiv
  constructor
  · intro h
    split_ifs at h with hmod
    cases h
    exact (Nat.div_mul_cancel (Nat.dvd_of_mod_eq_zero (not_not.1 hmod))).symm
  · rintro rfl
    rw [Nat.mul_mod_left, if_neg (by simp), Nat.mul_div_cancel _ hd]

theorem nanoTicks_eq_ok_iff {t : Timestamp} (h : t.resolution.exponent ≤ 127) (n : ℕ) :
    t.nanoTicks = .ok n ↔ t.ticks.toNat * 10 ^ 9 = n * t.resolution.ticksPerSecond := by
  have hlt : t.ticks.toNat < 2 ^ 64 := t.ticks.isLt
  obtain ⟨ticks, resolution, offset⟩ := t
  cases resolution with
  | binary e =>
    simp only [Resolution.exponent] at h
    simp only [nanoTicks, if_pos (show e.toNat < 128 by omega), Resolution.ticksPerSecond]
    rw [exactDiv_eq_ok_iff (Nat.pow_pos (by omega))]
    norm_num
  | decimal e =>
    simp only [Resolution.ticksPerSecond]
    by_cases hsmall : e.toNat ≤ 9
    · have hpow : 10 ^ 9 = 10 ^ (9 - e.toNat) * 10 ^ e.toNat := by
        rw [← pow_add]
        congr 1
        omega
      simp only [nanoTicks, if_pos hsmall, Except.ok.injEq]
      rw [hpow, ← mul_assoc, Nat.mul_left_inj (Nat.pow_pos (by omega)).ne']
    · have hpow : 10 ^ e.toNat = 10 ^ (e.toNat - 9) * 10 ^ 9 := by
        rw [← pow_add]
        congr 1
        omega
      have hcancel : ticks.toNat * 10 ^ 9 = n * 10 ^ e.toNat ↔
          ticks.toNat = n * 10 ^ (e.toNat - 9) := by
        rw [hpow, ← mul_assoc, Nat.mul_left_inj (by norm_num)]
      rw [hcancel]
      have hdpos : 0 < 10 ^ (e.toNat - 9) := Nat.pow_pos (by omega)
      simp only [nanoTicks, if_neg hsmall]
      by_cases hzero : ticks = 0
      · subst hzero
        simp [eq_comm]
      · have hpos : ticks.toNat ≠ 0 := by
          intro h0
          exact hzero (BitVec.eq_of_toNat_eq h0)
        rw [if_neg hzero]
        by_cases hbound : 10 ^ (e.toNat - 9) < 2 ^ 128
        · rw [if_pos hbound, exactDiv_eq_ok_iff hdpos]
        · -- a divisor beyond 128 bits cannot divide a positive tick count
          rw [if_neg hbound]
          simp only [reduceCtorEq, false_iff]
          intro heq
          simp only at hlt
          have hn : 1 ≤ n := by
            rcases Nat.eq_zero_or_pos n with rfl | hn
            · exact absurd heq (by simpa using hpos)
            · exact hn
          have : 10 ^ (e.toNat - 9) ≤ n * 10 ^ (e.toNat - 9) := Nat.le_mul_of_pos_left _ hn
          have h64 : (2 : ℕ) ^ 64 < 2 ^ 128 := by norm_num
          omega

def seconds (t : Timestamp) : ℚ :=
  t.ticks.toNat / t.resolution.ticksPerSecond + t.offsetSeconds.toInt

theorem nanoTicks_lt {t : Timestamp} {n : ℕ} (h : t.resolution.exponent ≤ 127)
    (hn : t.nanoTicks = .ok n) : n < 2 ^ 94 := by
  have heq := (nanoTicks_eq_ok_iff h n).1 hn
  have hlt : t.ticks.toNat < 2 ^ 64 := t.ticks.isLt
  have hle : n ≤ n * t.resolution.ticksPerSecond :=
    Nat.le_mul_of_pos_right _ t.resolution.ticksPerSecond_pos
  omega

/-- The only other obstacle to exact conversion is a resolution that has no encoding. -/
theorem unixNanos_eq_ok_iff (t : Timestamp) (v : ℤ) :
    t.unixNanos = .ok v ↔ t.resolution.exponent ≤ 127 ∧ t.seconds * 10 ^ 9 = v := by
  have htps : (t.resolution.ticksPerSecond : ℚ) ≠ 0 := by
    exact_mod_cast t.resolution.ticksPerSecond_pos.ne'
  have hoffset : -2 ^ 63 ≤ t.offsetSeconds.toInt ∧ t.offsetSeconds.toInt < 2 ^ 63 := by
    have hlo := BitVec.le_toInt t.offsetSeconds
    have hhi := BitVec.toInt_lt (x := t.offsetSeconds)
    norm_num at hlo hhi
    constructor <;> omega
  -- whole nanoseconds, as an equation between integers
  have hexact (n : ℕ) : t.ticks.toNat * 10 ^ 9 = n * t.resolution.ticksPerSecond ↔
      t.seconds * 10 ^ 9 = ((n : ℤ) + t.offsetSeconds.toInt * 1000000000 : ℤ) := by
    rw [seconds]
    push_cast
    rw [← Nat.cast_inj (R := ℚ)]
    push_cast
    constructor
    · intro h
      have hdiv : (t.ticks.toNat : ℚ) / t.resolution.ticksPerSecond * 10 ^ 9 = n := by
        rw [div_mul_eq_mul_div, div_eq_iff htps]
        exact h
      linarith
    · intro h
      have hdiv : (t.ticks.toNat : ℚ) / t.resolution.ticksPerSecond * 10 ^ 9 = n := by linarith
      rwa [div_mul_eq_mul_div, div_eq_iff htps] at hdiv
  unfold unixNanos
  constructor
  · intro h
    obtain ⟨res, hres, h⟩ := bind_eq_ok.1 h
    obtain ⟨n, hn, h⟩ := bind_eq_ok.1 h
    have hexp := t.resolution.toPcapng_ok_iff.1 ⟨res, hres⟩
    dsimp only at h
    split_ifs at h
    cases h
    exact ⟨hexp, (hexact n).1 ((nanoTicks_eq_ok_iff hexp n).1 hn)⟩
  · rintro ⟨hexp, hv⟩
    obtain ⟨res, hres⟩ := t.resolution.toPcapng_ok_iff.2 hexp
    -- the tick part of an integral instant is a natural number
    have hticks : (t.ticks.toNat : ℚ) / t.resolution.ticksPerSecond * 10 ^ 9 =
        (v - t.offsetSeconds.toInt * 1000000000 : ℤ) := by
      rw [seconds] at hv
      push_cast
      linarith
    have hnonneg : 0 ≤ v - t.offsetSeconds.toInt * 1000000000 := by
      have : (0 : ℚ) ≤ (v - t.offsetSeconds.toInt * 1000000000 : ℤ) := by
        rw [← hticks]
        positivity
      exact_mod_cast this
    obtain ⟨n, hn⟩ := Int.eq_ofNat_of_zero_le hnonneg
    have hv' : v = (n : ℤ) + t.offsetSeconds.toInt * 1000000000 := by omega
    have hnano : t.nanoTicks = .ok n := by
      rw [nanoTicks_eq_ok_iff hexp, hexact, ← hv']
      exact hv
    have hlt := nanoTicks_lt hexp hnano
    rw [hres]
    change (t.nanoTicks >>= _) = _
    rw [hnano]
    change (if n ≥ 2 ^ 127 then _ else if _ then _ else _) = _
    rw [if_neg (by norm_num; omega), if_pos (by norm_num; omega), hv']

def fractionScale (nanos : Bool) : ℕ := if nanos then 1000000000 else 1000000

def fractionUnit (nanos : Bool) : ℕ := if nanos then 1 else 1000

theorem fractionScale_mul_unit (nanos : Bool) :
    fractionScale nanos * fractionUnit nanos = 1000000000 := by
  cases nanos <;> rfl

/-- A 32-bit number of seconds and a whole number of fraction units. -/
def Representable (nanos : Bool) (t : Timestamp) : Prop :=
  ∃ sec frac : ℕ, sec < 2 ^ 32 ∧ frac < fractionScale nanos ∧
    t.seconds = sec + frac / fractionScale nanos

theorem legacyParts_eq_ok {t : Timestamp} {nanos : Bool} {sec frac : U32}
    (h : t.legacyParts nanos = .ok (sec, frac)) :
    ∃ v, t.unixNanos = .ok v ∧ frac.toNat < fractionScale nanos ∧
      v = ((sec.toNat * 1000000000 + frac.toNat * fractionUnit nanos : ℕ) : ℤ) := by
  obtain ⟨v, hv, h⟩ := bind_eq_ok.1 h
  refine ⟨v, hv, ?_⟩
  dsimp only at h
  cases nanos with
  | true =>
    simp only [Bool.true_eq_false, false_and, if_false, if_true] at h
    split_ifs at h with hneg hbig
    obtain ⟨rfl, rfl⟩ := Prod.mk.inj (Except.ok.inj h)
    simp only [fractionScale, fractionUnit, if_true, BitVec.toNat_ofNat]
    constructor <;> omega
  | false =>
    simp only [true_and, Bool.false_eq_true, if_false] at h
    split_ifs at h with hneg hbig hfrac
    obtain ⟨rfl, rfl⟩ := Prod.mk.inj (Except.ok.inj h)
    have hthousand : (v % 1000000000).toNat / 1000 < 1000000 := by omega
    simp only [fractionScale, fractionUnit, Bool.false_eq_true, if_false, BitVec.toNat_ofNat]
    rw [Nat.mod_eq_of_lt (show (v % 1000000000).toNat / 1000 < 2 ^ 32 by omega)]
    constructor <;> omega

theorem fraction_mul_nanos (nanos : Bool) (frac : ℕ) :
    (frac : ℚ) / fractionScale nanos * 10 ^ 9 = frac * fractionUnit nanos := by
  cases nanos <;> simp only [fractionScale, fractionUnit] <;> norm_num
  ring

/-- The classic header takes exactly the instants it can hold. -/
theorem legacyParts_ok_iff (t : Timestamp) (nanos : Bool) :
    (∃ parts, t.legacyParts nanos = .ok parts) ↔
      t.resolution.exponent ≤ 127 ∧ Representable nanos t := by
  have hseconds (sec frac : ℕ) : t.seconds = sec + frac / fractionScale nanos ↔
      t.seconds * 10 ^ 9 = ((sec * 1000000000 + frac * fractionUnit nanos : ℕ) : ℤ) := by
    have hnano : (10 : ℚ) ^ 9 ≠ 0 := by norm_num
    have hcast : (((sec * 1000000000 + frac * fractionUnit nanos : ℕ) : ℤ) : ℚ) =
        sec * 10 ^ 9 + frac * fractionUnit nanos := by
      push_cast
      ring
    rw [← mul_left_inj' hnano, add_mul, fraction_mul_nanos, hcast]
  constructor
  · rintro ⟨⟨sec, frac⟩, h⟩
    obtain ⟨v, hv, hfrac, heq⟩ := legacyParts_eq_ok h
    obtain ⟨hexp, hvalue⟩ := (t.unixNanos_eq_ok_iff v).1 hv
    rw [heq] at hvalue
    exact ⟨hexp, sec.toNat, frac.toNat, sec.isLt, hfrac, (hseconds _ _).2 hvalue⟩
  · rintro ⟨hexp, sec, frac, hsec, hfrac, hvalue⟩
    have hv : t.unixNanos = .ok ((sec * 1000000000 + frac * fractionUnit nanos : ℕ) : ℤ) :=
      (t.unixNanos_eq_ok_iff _).2 ⟨hexp, (hseconds sec frac).1 hvalue⟩
    have hpos : 0 < fractionUnit nanos := by cases nanos <;> simp [fractionUnit]
    have hunit : frac * fractionUnit nanos < 1000000000 := by
      rw [← fractionScale_mul_unit nanos]
      exact Nat.mul_lt_mul_of_pos_right hfrac hpos
    generalize hvalue' : ((sec * 1000000000 + frac * fractionUnit nanos : ℕ) : ℤ) = v at hv
    refine ⟨(BitVec.ofNat 32 (v / 1000000000).toNat, BitVec.ofNat 32
      (if nanos then (v % 1000000000).toNat else (v % 1000000000).toNat / 1000)),
      bind_eq_ok.2 ⟨v, hv, ?_⟩⟩
    dsimp only
    rw [if_neg (by omega), if_neg (by omega), if_neg]
    rintro ⟨rfl, hodd⟩
    simp only [fractionUnit, Bool.false_eq_true, if_false] at hodd hunit hvalue'
    omega

theorem legacy_legacyParts {t : Timestamp} {nanos : Bool} {sec frac : U32}
    (h : t.legacyParts nanos = .ok (sec, frac)) :
    ∃ t', legacy sec frac nanos = .ok t' ∧ t'.unixNanos = t.unixNanos := by
  obtain ⟨v, hv, hfrac, heq⟩ := legacyParts_eq_ok h
  have hsec := sec.isLt
  rw [legacy, if_neg (by cases nanos <;> simp [fractionScale] at hfrac ⊢ <;> omega)]
  refine ⟨_, rfl, ?_⟩
  rw [hv, unixNanos_eq_ok_iff, heq]
  have h9 : (9 : U8).toNat = 9 := rfl
  have h6 : (6 : U8).toNat = 6 := rfl
  have h0 : (0 : U64).toInt = 0 := rfl
  cases nanos with
  | true =>
    have hbound : sec.toNat * 1000000000 + frac.toNat < 2 ^ 64 := by
      simp only [fractionScale, if_true] at hfrac
      omega
    refine ⟨by simp [Resolution.exponent], ?_⟩
    simp only [seconds, Resolution.ticksPerSecond, if_true, BitVec.toNat_ofNat,
      Nat.mod_eq_of_lt hbound, fractionUnit, h9, h0]
    norm_num
  | false =>
    have hbound : sec.toNat * 1000000 + frac.toNat < 2 ^ 64 := by
      simp only [fractionScale, Bool.false_eq_true, if_false] at hfrac
      omega
    refine ⟨by simp [Resolution.exponent], ?_⟩
    simp only [seconds, Resolution.ticksPerSecond, Bool.false_eq_true, if_false,
      BitVec.toNat_ofNat, Nat.mod_eq_of_lt hbound, fractionUnit, h6, h0]
    norm_num
    ring

end Timestamp
end PcapEvidence
