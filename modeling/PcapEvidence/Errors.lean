import Mathlib.Data.BitVec
import Mathlib.Tactic

/-!
# Failure families and resource budgets

Every fallible operation of the analyzer reports one `Error`: a stable code, a byte offset, the
name of the checked field and a free-text detail.

Machine words are bit vectors where the wrapping is part of the meaning (sequence numbers, header
fields) and naturals with an explicit bound where the source uses checked arithmetic. `usize` is
the 64-bit word. The build enables overflow checks in every profile, so an unchecked addition of
the source is exact addition here.
-/

namespace PcapEvidence

abbrev U8 := BitVec 8
abbrev U16 := BitVec 16
abbrev U32 := BitVec 32

instance instLawfulBEqU8 : LawfulBEq U8 := inferInstance

/-- One past the largest `usize` and `u64`. -/
def wordBound : ℕ := 2 ^ 64

def checkedAdd (a b : ℕ) : Option ℕ := if a + b < wordBound then some (a + b) else none

def checkedMul (a b : ℕ) : Option ℕ := if a * b < wordBound then some (a * b) else none

theorem checkedAdd_eq_some_iff (a b c : ℕ) :
    checkedAdd a b = some c ↔ a + b < wordBound ∧ c = a + b := by
  unfold checkedAdd
  split_ifs <;> simp_all [eq_comm]

theorem checkedAdd_of_lt {a b : ℕ} (h : a + b < wordBound) : checkedAdd a b = some (a + b) :=
  if_pos h

inductive ErrorCode where
  | io | usage | badMagic | unsupportedVersion | truncated | invalidLength | lengthMismatch
  | invalidOption | missingInterface | invalidTimestamp | inexactTimestamp | limitExceeded
  | unsupportedLink | unsupportedNetwork | unsupportedTransport | malformedPacket | checksum
  | fragmentConflict | sequenceAmbiguous | protocolFraming | invalidIndex | sourceMismatch
  | invalidLabel | outputExists | invariant
  deriving DecidableEq

def ErrorCode.asStr : ErrorCode → String
  | io => "io"
  | usage => "usage"
  | badMagic => "bad_magic"
  | unsupportedVersion => "unsupported_version"
  | truncated => "truncated"
  | invalidLength => "invalid_length"
  | lengthMismatch => "length_mismatch"
  | invalidOption => "invalid_option"
  | missingInterface => "missing_interface"
  | invalidTimestamp => "invalid_timestamp"
  | inexactTimestamp => "inexact_timestamp"
  | limitExceeded => "limit_exceeded"
  | unsupportedLink => "unsupported_link"
  | unsupportedNetwork => "unsupported_network"
  | unsupportedTransport => "unsupported_transport"
  | malformedPacket => "malformed_packet"
  | checksum => "checksum"
  | fragmentConflict => "fragment_conflict"
  | sequenceAmbiguous => "sequence_ambiguous"
  | protocolFraming => "protocol_framing"
  | invalidIndex => "invalid_index"
  | sourceMismatch => "source_mismatch"
  | invalidLabel => "invalid_label"
  | outputExists => "output_exists"
  | invariant => "invariant"

structure Error where
  code : ErrorCode
  offset : ℕ
  field : String
  detail : String
  deriving DecidableEq

namespace Error

def limit (field : String) : Error :=
  ⟨.limitExceeded, 0, field, "configured resource budget exceeded"⟩

def display (e : Error) : String :=
  e.code.asStr ++ " at byte " ++ toString e.offset ++ " (" ++ e.field ++ "): " ++ e.detail

@[simp] theorem limit_code (field : String) : (limit field).code = .limitExceeded := rfl

end Error

abbrev Result (α : Type*) := Except Error α

theorem bind_eq_ok {ε α β : Type} {x : Except ε α} {f : α → Except ε β} {r : β} :
    (x >>= f) = .ok r ↔ ∃ a, x = .ok a ∧ f a = .ok r := by
  cases x with
  | error e => simp [bind, Except.bind]
  | ok a => simp [bind, Except.bind]

theorem guard_eq_ok {ε α : Type} {c : Prop} [Decidable c] {e : ε} {x : Except ε α} {r : α} :
    (if c then .error e else x) = .ok r ↔ ¬ c ∧ x = .ok r := by
  by_cases hc : c
  · simp [hc]
  · simp [hc]

theorem map_ok {ε α β : Type} {f : α → β} {r : Except ε α} {b : β} (h : r.map f = .ok b) :
    ∃ a, r = .ok a ∧ b = f a := by
  cases r with
  | error e => cases h
  | ok a => exact ⟨a, rfl, (Except.ok.inj h).symm⟩

theorem map_error {ε α β : Type} {f : α → β} {r : Except ε α} {e : ε} (h : r.map f = .error e) :
    r = .error e := by
  cases r with
  | error e' => exact congrArg _ (Except.error.inj h)
  | ok a => cases h

theorem mem_mapM {α β ε : Type} {f : α → Except ε β} {l : List α} {r : List β}
    (h : l.mapM f = .ok r) : ∀ y ∈ r, ∃ x ∈ l, f x = .ok y := by
  induction l generalizing r with
  | nil =>
    cases h
    simp
  | cons a l ih =>
    rw [List.mapM_cons] at h
    obtain ⟨b, hb, h⟩ := bind_eq_ok.1 h
    obtain ⟨bs, hbs, h⟩ := bind_eq_ok.1 h
    cases h
    intro y hy
    rcases List.mem_cons.1 hy with rfl | hy
    · exact ⟨a, List.mem_cons_self, hb⟩
    · obtain ⟨x, hx, hfx⟩ := ih hbs y hy
      exact ⟨x, List.mem_cons_of_mem _ hx, hfx⟩

def require (data : List U8) (count offset : ℕ) (field : String) : Result Unit :=
  if data.length < count then
    .error ⟨.truncated, offset, field,
      "need " ++ toString count ++ " bytes; have " ++ toString data.length⟩
  else .ok ()

theorem require_eq_ok_iff (data : List U8) (count offset : ℕ) (field : String) {u : Unit} :
    require data count offset field = .ok u ↔ count ≤ data.length := by
  unfold require
  split_ifs <;> simp_all

structure Limits where
  maxInputBytes : ℕ
  maxBlockBytes : ℕ
  maxPacketBytes : ℕ
  maxRecords : ℕ
  maxInterfaces : ℕ
  maxOptions : ℕ
  maxFlows : ℕ
  maxSegmentsPerFlow : ℕ
  maxStreamSpan : ℕ
  maxRetainedPayload : ℕ
  maxFragmentSets : ℕ
  maxFragmentsPerSet : ℕ
  fragmentFrameLifetime : ℕ
  maxProtocolMessages : ℕ
  maxApplicationBytes : ℕ
  maxLabels : ℕ
  maxCorrelationChecks : ℕ
  deriving DecidableEq

namespace Limits

def default : Limits where
  maxInputBytes := 256 * 1024 * 1024
  maxBlockBytes := 16 * 1024 * 1024
  maxPacketBytes := 1024 * 1024
  maxRecords := 1000000
  maxInterfaces := 1024
  maxOptions := 4096
  maxFlows := 4096
  maxSegmentsPerFlow := 16384
  maxStreamSpan := 4 * 1024 * 1024
  maxRetainedPayload := 64 * 1024 * 1024
  maxFragmentSets := 1024
  maxFragmentsPerSet := 1024
  fragmentFrameLifetime := 100000
  maxProtocolMessages := 100000
  maxApplicationBytes := 1024 * 1024
  maxLabels := 10000
  maxCorrelationChecks := 5000000

def nonzero (l : Limits) : List ℕ :=
  [l.maxInputBytes, l.maxBlockBytes, l.maxPacketBytes, l.maxRecords, l.maxInterfaces,
    l.maxOptions, l.maxFlows, l.maxSegmentsPerFlow, l.maxStreamSpan, l.maxRetainedPayload,
    l.maxFragmentSets, l.maxFragmentsPerSet, l.maxProtocolMessages, l.maxApplicationBytes,
    l.maxLabels, l.maxCorrelationChecks]

def validate (l : Limits) : Result Unit :=
  if 0 ∈ l.nonzero ∨ l.fragmentFrameLifetime = 0 then
    .error ⟨.usage, 0, "limits", "all resource limits must be positive"⟩
  else if l.maxStreamSpan ≥ 2 ^ 30 ∨ l.maxBlockBytes < 28 then
    .error ⟨.usage, 0, "limits", "stream span must be < 2^30 and block limit >= 28"⟩
  else .ok ()

/-- What a component may rely on once its limits have been validated. -/
def Valid (l : Limits) : Prop := l.validate = .ok ()

instance (l : Limits) : Decidable l.Valid := inferInstanceAs (Decidable (_ = _))

theorem validate_ok_iff (l : Limits) :
    l.validate = .ok () ↔ 0 ∉ l.nonzero ∧ l.fragmentFrameLifetime ≠ 0 ∧
      l.maxStreamSpan < 2 ^ 30 ∧ 28 ≤ l.maxBlockBytes := by
  unfold validate
  split_ifs with h h'
  · simp only [false_iff]
    rintro ⟨hz, hl, -, -⟩
    exact h.elim hz hl
  · simp only [false_iff]
    rintro ⟨-, -, hs, hb⟩
    omega
  · simp only [true_iff]
    push Not at h h'
    exact ⟨h.1, h.2, h'.1, h'.2⟩

theorem validate_error_code {l : Limits} {e : Error} (h : l.validate = .error e) :
    e.code ≠ .invariant := by
  unfold validate at h
  split_ifs at h <;> cases h <;> simp

theorem valid_default : default.Valid := by decide

end Limits

def NeverInvariant {α : Type} (r : Result α) : Prop := ∀ e, r = .error e → e.code ≠ .invariant

section NeverInvariant

variable {α β : Type}

@[simp] theorem neverInvariant_ok (a : α) : NeverInvariant (.ok a : Result α) := by
  intro e he
  cases he

@[simp] theorem neverInvariant_error_iff (e : Error) :
    NeverInvariant (.error e : Result α) ↔ e.code ≠ .invariant := by
  constructor
  · intro h
    exact h e rfl
  · intro h e' he
    cases he
    exact h

@[simp] theorem neverInvariant_bind_iff (r : Result α) (f : α → Result β) :
    NeverInvariant (r >>= f) ↔ NeverInvariant r ∧ ∀ a, r = .ok a → NeverInvariant (f a) := by
  cases r with
  | ok a => simp [bind, Except.bind]
  | error e => simp [bind, Except.bind]

@[simp] theorem neverInvariant_ite_iff (c : Prop) [Decidable c] (r r' : Result α) :
    NeverInvariant (if c then r else r') ↔ (c → NeverInvariant r) ∧ (¬ c → NeverInvariant r') := by
  by_cases hc : c
  · simp [hc]
  · simp [hc]

def Yields (r : Result α) (P : α → Prop) : Prop := NeverInvariant r ∧ ∀ a, r = .ok a → P a

variable {P : α → Prop} {Q : β → Prop}

theorem yields_ok {a : α} (h : P a) : Yields (.ok a) P := by
  refine ⟨neverInvariant_ok a, fun b hb => ?_⟩
  cases hb
  exact h

theorem yields_error {e : Error} (h : e.code ≠ .invariant) : Yields (.error e) P := by
  refine ⟨(neverInvariant_error_iff e).2 h, fun b hb => ?_⟩
  cases hb

theorem Yields.bind {r : Result α} {f : α → Result β} (h : Yields r P)
    (hf : ∀ a, r = .ok a → P a → Yields (f a) Q) : Yields (r >>= f) Q := by
  cases r with
  | ok a => exact hf a rfl (h.2 a rfl)
  | error e => exact yields_error ((neverInvariant_error_iff e).1 h.1)

end NeverInvariant

end PcapEvidence
