import PcapEvidence.CaptureReach
import PcapEvidence.Sha256

/-!
# The sidecar index

An index lists the packet records of a capture. Its encoding is a projection that can be built
again, so a sidecar is believed only when the source, parsed once more, gives the very same bytes.
-/

namespace PcapEvidence

namespace CaptureIter

theorem next_record {it it' : CaptureIter} {r : Record} (h : it.next = (some (.ok r), it')) :
    ∃ d, Decoder.decode (it.data.drop it.position) it.position it.decoder = (.ok (.record r), d) ∧
      it' = { it with position := it.position + r.raw.length, decoder := d } := by
  unfold next at h
  by_cases hterminal : it.terminal = true
  · rw [if_pos hterminal] at h
    cases h
  rw [if_neg hterminal] at h
  by_cases hend : it.position = it.data.length
  · rw [if_pos hend] at h
    cases hfinish : it.decoder.finish it.position with
    | ok u => simp [hfinish] at h
    | error e => simp [hfinish] at h
  rw [if_neg hend] at h
  rcases hdecode : Decoder.decode (it.data.drop it.position) it.position it.decoder with ⟨out, d⟩
  rw [hdecode] at h
  cases out with
  | error e => cases h
  | ok out =>
    cases out with
    | needMore need => cases h
    | record record =>
      cases h
      exact ⟨d, rfl, rfl⟩

theorem next_record_lt {it it' : CaptureIter} {r : Record} (h : it.next = (some (.ok r), it')) :
    it'.data.length - it'.position < it.data.length - it.position := by
  obtain ⟨d, hdecode, rfl⟩ := next_record h
  obtain ⟨need, body, u, hneed, hle, -, rfl, -⟩ := Decoder.decode_record hdecode
  have hpos := Decoder.required_pos hneed
  change it.data.length - (it.position + ((it.data.drop it.position).take need).length) < _
  rw [List.length_take, List.length_drop]
  rw [List.length_drop] at hle
  omega

end CaptureIter

namespace CaptureIndex

def MAGIC : List U8 := [0x50, 0x43, 0x49, 0x44, 0x58, 0x30, 0x30, 0x31]

def HEADER : ℕ := 56

def ENTRY : ℕ := 64

structure IndexEntry where
  recordOffset : ℕ
  recordLength : U32
  packet : PacketMeta

structure Index where
  sourceLen : U64
  sourceSha256 : Vector U8 32
  entries : List IndexEntry

namespace Index

def add (entries : List IndexEntry) (record : Record) : Result (List IndexEntry) :=
  match record.packet with
  | none => .ok entries
  | some (packet, _) =>
    if record.raw.length < 2 ^ 32 then
      .ok (entries ++ [⟨record.offset, BitVec.ofNat 32 record.raw.length, packet⟩])
    else .error (Error.limit "index_record_length")

def collect (it : CaptureIter) (entries : List IndexEntry) : Result (List IndexEntry) :=
  match _h : it.next with
  | (none, _) => .ok entries
  | (some (.error e), _) => .error e
  | (some (.ok record), it') => do
    let entries ← add entries record
    collect it' entries
termination_by it.data.length - it.position
decreasing_by exact CaptureIter.next_record_lt _h

def build (source : List U8) (limits : Limits) : Result Index := do
  let it ← CaptureIter.new source limits .strict
  let entries ← collect it []
  .ok ⟨BitVec.ofNat 64 source.length, Sha256.digest source, entries⟩

def encodeTime (timestamp : Option Timestamp) : Result (List U8) :=
  match timestamp with
  | none => .ok (List.replicate 20 0)
  | some time => do
    let resolution ← time.resolution.toPcapng
    .ok ([1, resolution] ++ Endian.little.putU16 0 ++ Endian.little.putU64 time.ticks ++
      Endian.little.putU64 time.offsetSeconds)

def encodeEntry (entry : IndexEntry) : Result (List U8) :=
  let p := entry.packet
  let le := Endian.little
  if p.dataOffset < 2 ^ 32 then do
    let time ← encodeTime p.timestamp
    .ok (le.putU64 (BitVec.ofNat 64 entry.recordOffset) ++ le.putU32 entry.recordLength ++
      le.putU32 (BitVec.ofNat 32 p.dataOffset) ++ le.putU32 p.capturedLen ++
      le.putU32 p.originalLen ++ le.putU64 (BitVec.ofNat 64 p.frame) ++ le.putU32 p.sectionId ++
      le.putU32 p.interface ++ le.putU32 p.linkType ++ time)
  else .error (Error.limit "index_data_offset")

def sidecarSize (count : ℕ) : Option ℕ := (checkedMul count ENTRY).bind (checkedAdd · (HEADER + 32))

def header (index : Index) : List U8 :=
  MAGIC ++ Endian.little.putU64 index.sourceLen ++ index.sourceSha256.toList ++
    Endian.little.putU64 (BitVec.ofNat 64 index.entries.length)

def encode (index : Index) : Result (List U8) :=
  match sidecarSize index.entries.length with
  | none => .error (Error.limit "index_bytes")
  | some _ => do
    let entries ← index.entries.mapM encodeEntry
    let out := index.header ++ entries.flatten
    .ok (out ++ (Sha256.digest out).toList)

end Index

structure VerifiedIndex where
  source : List U8
  index : Index
  sortedTimes : List (ℤ × ℕ)
  unknownTimes : List ℕ

structure TimeQuery where
  frames : List ℕ
  unresolvedFrames : List ℕ

def invalid (detail : String) : Error := ⟨.invalidIndex, 0, "index", detail⟩

/-- The first index at which a predicate fails, on a list where it does not hold again after. -/
def partitionPoint {α : Type} (p : α → Bool) (l : List α) : ℕ := (l.takeWhile p).length

def exactTime (entry : IndexEntry) : Option ℤ :=
  entry.packet.timestamp.bind fun t => t.unixNanos.toOption

/-- The order of pairs: first by time, then by frame. -/
def timeLe (a b : ℤ × ℕ) : Prop := a.1 < b.1 ∨ (a.1 = b.1 ∧ a.2 ≤ b.2)

instance : DecidableRel timeLe := fun a b =>
  inferInstanceAs (Decidable (a.1 < b.1 ∨ (a.1 = b.1 ∧ a.2 ≤ b.2)))

instance : Std.Total timeLe := ⟨fun a b => by unfold timeLe; omega⟩

instance : IsTrans (ℤ × ℕ) timeLe := ⟨fun a b c => by unfold timeLe; omega⟩

namespace VerifiedIndex

def fromCanonical (source : List U8) (index : Index) : VerifiedIndex where
  source
  index
  sortedTimes := (index.entries.filterMap fun entry =>
    (exactTime entry).map (·, entry.packet.frame)).insertionSort timeLe
  unknownTimes := (index.entries.filter fun entry => (exactTime entry).isNone).map (·.packet.frame)

def build (source : List U8) (limits : Limits) : Result VerifiedIndex := do
  let index ← Index.build source limits
  .ok (fromCanonical source index)

def checkSidecar (source sidecar : List U8) (limits : Limits) : Result Unit :=
  if sidecar.length < HEADER + 32 then .error (invalid "truncated header")
  else if sidecar.take 8 ≠ MAGIC then .error (invalid "unsupported index magic/version")
  else
    let count := (Endian.little.u64 sidecar 48).toNat
    if count > limits.maxRecords then .error (Error.limit "index_entries")
    else match Index.sidecarSize count with
      | none => .error (invalid "size overflow")
      | some expected =>
        if expected ≠ sidecar.length then
          .error (invalid "size does not equal header + entries + digest")
        else if source.length > limits.maxInputBytes then .error (Error.limit "input_bytes")
        else if Endian.little.u64 sidecar 8 ≠ BitVec.ofNat 64 source.length ∨
            sliceOf sidecar 16 48 ≠ (Sha256.digest source).toList then
          .error ⟨.sourceMismatch, 0, "index_source", "source bytes do not match the sidecar"⟩
        else
          let body := sidecar.take (sidecar.length - 32)
          if sidecar.drop (sidecar.length - 32) ≠ (Sha256.digest body).toList then
            .error (invalid "index digest mismatch")
          else .ok ()

def load (source sidecar : List U8) (limits : Limits) : Result VerifiedIndex := do
  limits.validate
  checkSidecar source sidecar limits
  let index ← Index.build source limits
  let encoded ← index.encode
  if encoded ≠ sidecar then
    .error (invalid
      "reconstructed source metadata disagrees with the sidecar (even if rehashed)")
  else .ok (fromCanonical source index)

def packet (v : VerifiedIndex) (frame : ℕ) : Result (List U8) :=
  if frame = 0 then .error (invalid "frame must be positive")
  else match v.index.entries[frame - 1]? with
    | none => .error (invalid "frame outside capture")
    | some entry =>
      match checkedAdd entry.recordOffset entry.packet.dataOffset with
      | none => .error (invalid "packet offset overflow")
      | some start =>
        match checkedAdd start entry.packet.capturedLen.toNat with
        | none => .error (invalid "packet end overflow")
        | some stop =>
          if stop ≤ v.source.length then .ok (sliceOf v.source start stop)
          else .error (invalid "packet range outside verified source")

def timeRange (v : VerifiedIndex) (startNs endNs : ℤ) : Result TimeQuery :=
  if startNs > endNs then .error (invalid "inverted time range")
  else
    let first := partitionPoint (fun t => t.1 < startNs) v.sortedTimes
    let stop := partitionPoint (fun t => t.1 ≤ endNs) v.sortedTimes
    let frames := ((v.sortedTimes.take stop).drop first).map (·.2)
    .ok ⟨frames.insertionSort (· ≤ ·), v.unknownTimes⟩

end VerifiedIndex

end CaptureIndex

end PcapEvidence
