import PcapEvidence.Errors

/-!
# Capture clocks

A timestamp is a raw tick count with the resolution and offset of its interface. Conversion to
nanoseconds is exact or fails; 128-bit intermediate results are naturals and integers with the
bound that the source checks.
-/

namespace PcapEvidence

abbrev U64 := BitVec 64

inductive Resolution where
  | decimal (exponent : U8)
  | binary (exponent : U8)
  deriving DecidableEq

namespace Resolution

def fromPcapng (value : U8) : Resolution :=
  if value &&& 0x80 = 0 then decimal value else binary (value &&& 0x7f)

def exponentTooLarge : Error := ⟨.invalidTimestamp, 0, "resolution", "exponent exceeds 127"⟩

def toPcapng : Resolution → Result U8
  | decimal x => if x.toNat ≤ 127 then .ok x else .error exponentTooLarge
  | binary x => if x.toNat ≤ 127 then .ok (x ||| 0x80) else .error exponentTooLarge

end Resolution

structure Timestamp where
  ticks : U64
  resolution : Resolution
  offsetSeconds : U64

namespace Timestamp

def legacy (seconds fraction : U32) (nanos : Bool) : Result Timestamp :=
  let scale := if nanos then 1000000000 else 1000000
  if fraction.toNat ≥ scale then
    .error ⟨.invalidTimestamp, 0, "timestamp_fraction", "fraction exceeds one second"⟩
  else .ok {
    ticks := BitVec.ofNat 64 (seconds.toNat * scale + fraction.toNat)
    resolution := .decimal (if nanos then 9 else 6)
    offsetSeconds := 0 }

def inexact : Error :=
  ⟨.inexactTimestamp, 0, "timestamp", "not exactly representable as signed nanoseconds"⟩

/-- The quotient, when the division leaves no remainder. -/
def exactDiv (numerator divisor : ℕ) : Result ℕ :=
  if numerator % divisor ≠ 0 then .error inexact else .ok (numerator / divisor)

def nanoTicks (t : Timestamp) : Result ℕ :=
  match t.resolution with
  | .decimal e =>
    if e.toNat ≤ 9 then .ok (t.ticks.toNat * 10 ^ (9 - e.toNat))
    else if t.ticks = 0 then .ok 0
    else if 10 ^ (e.toNat - 9) < 2 ^ 128 then exactDiv t.ticks.toNat (10 ^ (e.toNat - 9))
    else .error inexact
  | .binary e =>
    if e.toNat < 128 then exactDiv (t.ticks.toNat * 1000000000) (2 ^ e.toNat)
    else .error inexact

def unixNanos (t : Timestamp) : Result ℤ := do
  let _ ← t.resolution.toPcapng
  let part ← t.nanoTicks
  if part ≥ 2 ^ 127 then .error inexact
  else
    let value := (part : ℤ) + t.offsetSeconds.toInt * 1000000000
    if -2 ^ 127 ≤ value ∧ value < 2 ^ 127 then .ok value else .error inexact

def legacyParts (t : Timestamp) (nanos : Bool) : Result (U32 × U32) := do
  let value ← t.unixNanos
  if value < 0 then
    .error ⟨.invalidTimestamp, 0, "timestamp", "classic PCAP cannot represent negative seconds"⟩
  else if value / 1000000000 ≥ 2 ^ 32 then
    .error ⟨.invalidTimestamp, 0, "timestamp", "seconds exceed classic PCAP u32"⟩
  else
    let fraction := (value % 1000000000).toNat
    if nanos = false ∧ fraction % 1000 ≠ 0 then
      .error ⟨.inexactTimestamp, 0, "timestamp", "would discard sub-microsecond precision"⟩
    else .ok (BitVec.ofNat 32 (value / 1000000000).toNat,
      BitVec.ofNat 32 (if nanos then fraction else fraction / 1000))

end Timestamp
end PcapEvidence
