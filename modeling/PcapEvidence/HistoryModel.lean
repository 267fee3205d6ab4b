import PcapEvidence.HistoryCodec

/-!
# The history model: configuration and source identity

A configuration is part of the journal header. Its encoding names the engine and holds every limit
as a 64-bit word, so a valid configuration reads back as itself.
-/

namespace PcapEvidence.History

open Method ByteCodec

def ENGINE : String := "pcap-evidence-history/2;state-policy/1"

inductive EpochPolicy where
  | strictAlternatives | nearestFrontier
  deriving DecidableEq

structure Config where
  maxSourceBytes : U64
  maxDiskBytes : U64
  maxRecords : U64
  maxRecordBytes : ℕ
  hotTuples : ℕ
  maxGenerations : ℕ
  maxWitnesses : ℕ
  maxEpochCandidates : ℕ
  sequenceHorizon : ℤ
  epochPolicy : EpochPolicy
  sortEntries : ℕ
  mergeFanIn : ℕ
  maxQueryBytes : ℕ
  maxQueryIntervals : ℕ
  maxQueryWork : U64
  checkpointRecords : U64

namespace Config

def default : Config where
  maxSourceBytes := 1024 * 1024 * 1024 * 1024
  maxDiskBytes := 1024 * 1024 * 1024 * 1024
  maxRecords := 20000000000
  maxRecordBytes := 2 * 1024 * 1024
  hotTuples := 64
  maxGenerations := 128
  maxWitnesses := 2048
  maxEpochCandidates := 16
  sequenceHorizon := 16 * 1024 * 1024
  epochPolicy := .strictAlternatives
  sortEntries := 32768
  mergeFanIn := 16
  maxQueryBytes := 65536
  maxQueryIntervals := 4096
  maxQueryWork := 128 * 1024 * 1024
  checkpointRecords := 10000

/-- The accepted range of every limit. -/
def Valid (c : Config) : Prop :=
  (c.maxSourceBytes ≠ 0 ∧ c.maxSourceBytes.toNat ≤ (2 ^ 64 - 1) / 8) ∧
  1024 ≤ c.maxDiskBytes.toNat ∧
  (c.maxRecords ≠ 0 ∧ c.maxRecords.toNat ≤ (2 ^ 64 - 1) / 2) ∧
  (4096 ≤ c.maxRecordBytes ∧ c.maxRecordBytes ≤ 16 * 1024 * 1024) ∧
  (1 ≤ c.hotTuples ∧ c.hotTuples ≤ 4096) ∧
  (1 ≤ c.maxGenerations ∧ c.maxGenerations ≤ 4096) ∧
  (1 ≤ c.maxWitnesses ∧ c.maxWitnesses ≤ 4096) ∧
  (1 ≤ c.maxEpochCandidates ∧ c.maxEpochCandidates ≤ 64) ∧
  (1 ≤ c.sequenceHorizon ∧ c.sequenceHorizon < 2 ^ 31) ∧
  (2 ≤ c.sortEntries ∧ c.sortEntries ≤ 1000000) ∧
  (2 ≤ c.mergeFanIn ∧ c.mergeFanIn ≤ 64) ∧
  (1 ≤ c.maxQueryBytes ∧ c.maxQueryBytes ≤ 1024 * 1024) ∧
  (1 ≤ c.maxQueryIntervals ∧ c.maxQueryIntervals ≤ 65536) ∧
  c.maxQueryWork ≠ 0 ∧ c.checkpointRecords ≠ 0

instance (c : Config) : Decidable c.Valid := inferInstanceAs (Decidable (_ ∧ _))

def validate (c : Config) : Result Unit :=
  if c.Valid then .ok () else .error (bad "history_config" "invalid or excessive resource limit")

def words (c : Config) : List U64 :=
  [c.maxSourceBytes, c.maxDiskBytes, c.maxRecords, BitVec.ofNat 64 c.maxRecordBytes,
    BitVec.ofNat 64 c.hotTuples, BitVec.ofNat 64 c.maxGenerations, BitVec.ofNat 64 c.maxWitnesses,
    BitVec.ofNat 64 c.maxEpochCandidates, BitVec.ofInt 64 c.sequenceHorizon,
    BitVec.ofNat 64 c.sortEntries, BitVec.ofNat 64 c.mergeFanIn, BitVec.ofNat 64 c.maxQueryBytes,
    BitVec.ofNat 64 c.maxQueryIntervals, c.maxQueryWork, c.checkpointRecords]

def policyByte : EpochPolicy → U8
  | .strictAlternatives => 0
  | .nearestFrontier => 1

def encode (c : Config) : Result (List U8) := do
  c.validate
  let engine ← Encoder.text ENGINE
  .ok (engine ++ c.words.flatMap Encoder.u64 ++ Encoder.u8 (policyByte c.epochPolicy))

def ofWords (v : List U64) (horizon : ℤ) (policy : EpochPolicy) : Config where
  maxSourceBytes := v.getD 0 0
  maxDiskBytes := v.getD 1 0
  maxRecords := v.getD 2 0
  maxRecordBytes := (v.getD 3 0).toNat
  hotTuples := (v.getD 4 0).toNat
  maxGenerations := (v.getD 5 0).toNat
  maxWitnesses := (v.getD 6 0).toNat
  maxEpochCandidates := (v.getD 7 0).toNat
  sequenceHorizon := horizon
  sortEntries := (v.getD 9 0).toNat
  mergeFanIn := (v.getD 10 0).toNat
  maxQueryBytes := (v.getD 11 0).toNat
  maxQueryIntervals := (v.getD 12 0).toNat
  maxQueryWork := v.getD 13 0
  checkpointRecords := v.getD 14 0
  epochPolicy := policy

def readPolicy : DecoderM EpochPolicy := do
  let b ← Decoder.u8
  if b = 0 then pure .strictAlternatives
  else if b = 1 then pure .nearestFrontier
  else fail (bad "history_policy" "unknown epoch policy")

def decodeM : DecoderM Config := do
  let engine ← Decoder.text 128
  if engine ≠ ENGINE then
    fail (bad "history_engine" ("unsupported engine/policy identity; " ++
      "rebuild a new workspace from the immutable original capture"))
  else do
    let v ← repeated Decoder.u64 15
    if (v.getD 8 0).toNat ≥ 2 ^ 63 then fail (Error.limit "sequence_horizon")
    else do
      let policy ← readPolicy
      Decoder.finish
      let c := ofWords v (v.getD 8 0).toNat policy
      lift c.validate
      pure c

def decode (b : List U8) : Result Config := Decoder.run decodeM b

end Config

structure SourceIdentity where
  sha256 : Digest
  bytes : U64

section RoundTrip

variable {c : Config}

theorem Config.validate_ok (h : c.validate = .ok ()) : c.Valid := by
  unfold Config.validate at h
  split_ifs at h with hvalid
  exact hvalid

theorem Config.validate_of_valid (h : c.Valid) : c.validate = .ok () := if_pos h

theorem Config.encode_ok {e : List U8} (h : c.encode = .ok e) : c.Valid ∧
    ∃ engine, Encoder.text ENGINE = .ok engine ∧
      e = engine ++ c.words.flatMap Encoder.u64 ++ Encoder.u8 (policyByte c.epochPolicy) := by
  obtain ⟨⟨⟩, hvalid, h⟩ := bind_eq_ok.1 h
  obtain ⟨engine, hengine, h⟩ := bind_eq_ok.1 h
  exact ⟨validate_ok hvalid, engine, hengine, (Except.ok.inj h).symm⟩

theorem Config.ofWords_words (h : c.Valid) :
    ofWords c.words (c.words.getD 8 0).toNat c.epochPolicy = c := by
  obtain ⟨h1, h2, h3, h4, h5, h6, h7, h8, h9, h10, h11, h12, h13, h14, h15⟩ := h
  have hhorizon : ((BitVec.ofInt 64 c.sequenceHorizon).toNat : ℤ) = c.sequenceHorizon := by
    rw [BitVec.toNat_ofInt]
    omega
  cases c
  simp only [words, ofWords, List.getD_cons_succ, List.getD_cons_zero, BitVec.toNat_ofNat,
    Config.mk.injEq, true_and, and_true] at *
  refine ⟨?_, ?_, ?_, ?_, ?_, hhorizon, ?_, ?_, ?_, ?_⟩ <;> omega

theorem reads_readPolicy (policy : EpochPolicy) :
    Reads Config.readPolicy (Encoder.u8 (Config.policyByte policy)) policy := by
  cases policy with
  | strictAlternatives => exact (reads_u8 0).map (.pure _)
  | nearestFrontier => exact (reads_u8 1).map (.pure _)

theorem Config.decode_encode {e : List U8} (h : c.encode = .ok e) : Config.decode e = .ok c := by
  obtain ⟨hvalid, engine, hengine, rfl⟩ := encode_ok h
  have htext := @reads_text _ _ 128 hengine (by decide)
  have hwords : Reads (repeated Decoder.u64 15) (c.words.flatMap Encoder.u64) c.words :=
    @reads_repeated _ _ _ _ Encoder.u64 c.words fun v _ => reads_u64 v
  have hpolicy := run_of_reads (reads_readPolicy c.epochPolicy)
  have hsmall : ¬ (c.words.getD 8 0).toNat ≥ 2 ^ 63 := by
    obtain ⟨-, -, -, -, -, -, -, -, hhorizon, -⟩ := hvalid
    change ¬ (BitVec.ofInt 64 c.sequenceHorizon).toNat ≥ 2 ^ 63
    rw [BitVec.toNat_ofInt]
    omega
  rw [decode, Decoder.run, decodeM, List.append_assoc, bind_of_ok (htext _), if_neg (by simp),
    bind_of_ok (hwords _), if_neg hsmall, bind_of_ok hpolicy]
  simp only [ofWords_words hvalid, validate_of_valid hvalid]
  rfl

theorem Config.length_encode {e : List U8} (h : c.encode = .ok e) : e.length = 163 := by
  obtain ⟨-, engine, hengine, rfl⟩ := encode_ok h
  obtain ⟨-, rfl⟩ := bytes_ok hengine
  have hname : (Encoder.utf8 ENGINE).length = 38 := by decide
  have hwords : (c.words.flatMap Encoder.u64).length = 120 := by
    simp [words, Encoder.u64]
  simp only [List.length_append, hname, hwords, Encoder.u32, Encoder.u8, length_leBytes,
    List.length_singleton]

end RoundTrip

end PcapEvidence.History
