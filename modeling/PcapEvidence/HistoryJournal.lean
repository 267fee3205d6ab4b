import Mathlib
import PcapEvidence.HistoryModel
import PcapEvidence.IterTrace

/-!
# The append-only history journal

A header, then records: length, kind, sequence number and body, each with a hash that covers its
predecessor's hash. The file is the bytes written so far; a reader walks over the bytes of a file
and can jump back to an indexed record.
-/

namespace PcapEvidence.History

open Method ByteCodec

def MAGIC : List U8 := [80, 67, 72, 73, 83, 84, 48, 49]

/-- The domain of record hashes, `pcap-evidence/history-record/v1` and a zero byte. -/
def DOMAIN : List U8 := Encoder.utf8 "pcap-evidence/history-record/v1" ++ [0]

def PACKET : U8 := 1
def TCP : U8 := 2
def NOTICE : U8 := 3
def CHECKPOINT : U8 := 4
def ABORT : U8 := 254
def SEAL : U8 := 255

def recordKinds : List U8 := [PACKET, TCP, NOTICE, CHECKPOINT, ABORT, SEAL]

structure DiskBudget where
  used : ℕ
  peak : ℕ
  maximum : ℕ

namespace DiskBudget

def charge (n : ℕ) : Method DiskBudget Error Unit := do
  let q ← read
  let next ← lift (okOr (Error.limit "history_disk") (checkedAdd q.used n))
  if next > q.maximum then fail (Error.limit "history_disk")
  else update (fun q => { q with
    used := next
    peak := max q.peak next })

def release (n : ℕ) : Method DiskBudget Error Unit := do
  let q ← read
  if n ≤ q.used then update (fun q => { q with used := q.used - n })
  else fail (bad "history_disk" "budget accounting underflow")

end DiskBudget

structure Header where
  source : SourceIdentity
  config : Config
  digest : Digest
  bytes : ℕ

variable (sha256 : List U8 → Digest)

def headerBytes (source : SourceIdentity) (c : Config) : Result (List U8 × Digest) := do
  let encoded ← c.encode
  let config ← Encoder.bytes encoded
  let body := Encoder.hash source.sha256 ++ Encoder.u64 source.bytes ++ config
  let out := MAGIC ++ Encoder.u32 (BitVec.ofNat 32 body.length) ++ body
  .ok (out ++ Encoder.hash (sha256 out), sha256 out)

def chainHash (previous : Digest) (length payload : List U8) : Digest :=
  sha256 (DOMAIN ++ previous.toList ++ length ++ payload)

structure Writer where
  file : List U8
  header : Header
  count : ℕ
  position : ℕ
  previous : Digest
  quota : DiskBudget
  poisoned : Bool
  terminal : Bool

namespace Writer

def create (source : SourceIdentity) (config : Config) (quota : DiskBudget) : Result Writer := do
  config.validate
  let (bytes, digest) ← headerBytes sha256 source config
  match DiskBudget.charge bytes.length quota with
  | (.error e, _) => .error e
  | (.ok (), quota) => .ok {
      file := bytes
      header := ⟨source, config, digest, bytes.length⟩
      count := 0
      position := bytes.length
      previous := digest
      quota := quota
      poisoned := false
      terminal := false }

def charge (n : ℕ) : Method Writer Error Unit := fun w =>
  match DiskBudget.charge n w.quota with
  | (r, quota) => (r, { w with quota := quota })

def payloadOf (kind : U8) (seq : ℕ) (body : List U8) : List U8 :=
  Encoder.u8 kind ++ Encoder.u64 (BitVec.ofNat 64 seq) ++ body

def writeRecord (kind : U8) (body : List U8) : Method Writer Error (ℕ × Digest) := do
  let w ← read
  if kind ∉ recordKinds then fail (bad "history_kind" "unknown record type")
  else do
    let len ← lift (okOr (Error.limit "history_record") (checkedAdd body.length 9))
    if len > w.header.config.maxRecordBytes ∨ w.count ≥ w.header.config.maxRecords.toNat then
      fail (Error.limit "history_record")
    else do
      let seq ← lift (okOr (Error.limit "history_sequence") (checkedAdd w.count 1))
      let length := Encoder.u32 (BitVec.ofNat 32 len)
      let payload := payloadOf kind seq body
      let digest := chainHash sha256 w.previous length payload
      let bytes ← lift (okOr (Error.limit "history_record") (checkedAdd len 36))
      charge bytes
      update (fun w => { w with file := w.file ++ length ++ payload ++ digest.toList })
      let position ← lift (okOr (Error.limit "history_position") (checkedAdd w.position bytes))
      update (fun w => { w with
        position := position
        count := seq
        previous := digest
        terminal := kind = ABORT ∨ kind = SEAL })
      pure (w.position, digest)

def append (kind : U8) (body : List U8) : Method Writer Error (ℕ × Digest) := fun w =>
  if w.poisoned ∨ w.terminal then
    (.error (bad "history_writer" "writer is failed or terminal"), w)
  else match writeRecord sha256 kind body w with
    | (.ok out, w) => (.ok out, w)
    | (.error e, w) => (.error e, { w with poisoned := true })

end Writer

structure Record where
  kind : U8
  sequence : ℕ
  body : List U8
  offset : ℕ
  digest : Digest

structure Reader where
  contents : List U8
  /-- The bytes behind the file cursor. -/
  unread : List U8
  header : Header
  count : ℕ
  position : ℕ
  previous : Digest
  sealed : Bool
  aborted : Bool
  ended : Bool

def partialField : Error := ⟨.truncated, 0, "history_record", "partial journal field"⟩

def exact (n : ℕ) : Method (List U8) Error (List U8) := fun rest =>
  if n ≤ rest.length then (.ok (rest.take n), rest.drop n) else (.error partialField, [])

namespace Reader

def decodeHeader : DecoderM (SourceIdentity × Config) := do
  let sha ← Decoder.hash
  let bytes ← Decoder.u64
  let blob ← Decoder.bytes 2048
  let config ← lift (Config.decode blob)
  Decoder.finish
  pure (⟨sha, bytes⟩, config)

def openM (contents : List U8) : Method (List U8) Error Reader := do
  let front ← exact 12
  if front.take 8 ≠ MAGIC then fail (bad "history_magic" "not a history-v1 journal")
  else do
    let len := leNat (front.drop 8)
    if len > 4096 then fail (Error.limit "history_header")
    else do
      let body ← exact len
      let stored ← exact 32
      let digest := sha256 (front ++ body)
      if digest.toList ≠ stored then fail (bad "history_header" "header digest mismatch")
      else do
        let (source, config) ← lift (Decoder.run decodeHeader body)
        if source.bytes.toNat > config.maxSourceBytes.toNat then fail (Error.limit "source_bytes")
        else do
          let unread ← read
          pure {
            contents := contents
            unread := unread
            header := ⟨source, config, digest, 12 + len + 32⟩
            count := 0
            position := 12 + len + 32
            previous := digest
            sealed := false
            aborted := false
            ended := false }

def «open» (contents : List U8) : Result Reader := (openM sha256 contents contents).1

def exact (n : ℕ) : Method Reader Error (List U8) := fun r =>
  match History.exact n r.unread with
  | (out, unread) => (out, { r with unread := unread })

/-- The kind and the sequence number in front of a payload, and the bytes behind them. -/
def decodeTag : DecoderM (U8 × ℕ × List U8) := do
  let kind ← Decoder.u8
  let sequence ← Decoder.u64
  let rest ← read
  pure (kind, sequence.toNat, rest)

def decodeRest (n : ℕ) : DecoderM (List U8) := do
  let body ← Decoder.take n
  Decoder.finish
  pure body

def readBody (length : List U8) : Method Reader Error Record := do
  let r ← read
  let len := leNat length
  if ¬ (9 ≤ len ∧ len ≤ r.header.config.maxRecordBytes) ∨
      r.count ≥ r.header.config.maxRecords.toNat then
    fail (Error.limit "history_record")
  else do
    let payload ← exact len
    let stored ← exact 32
    let digest := chainHash sha256 r.previous length payload
    if digest.toList ≠ stored then fail (bad "history_chain" "record hash mismatch")
    else do
      let (kind, sequence, rest) ← lift (Decoder.run decodeTag payload)
      if sequence ≠ r.count + 1 ∨ kind ∉ recordKinds then
        fail (bad "history_sequence" "noncanonical record sequence/type")
      else do
        let body ← lift (Decoder.run (decodeRest (len - 9)) rest)
        let position ← lift (okOr (Error.limit "history_position")
          (checkedAdd r.position (len + 36)))
        update (fun r => { r with
          position := position
          count := sequence
          previous := digest
          sealed := kind = SEAL
          aborted := kind = ABORT })
        pure ⟨kind, sequence, body, r.position, digest⟩

def readRecord : Method Reader Error (Option Record) := do
  let r ← read
  if r.ended then pure none
  else match r.unread with
    | [] => do
      update (fun r => { r with ended := true })
      pure none
    | first :: unread => do
      update (fun r => { r with unread := unread })
      if r.sealed ∨ r.aborted then fail (bad "history_terminal" "data after terminal record")
      else do
        let rest ← exact 3
        let record ← readBody sha256 (first :: rest)
        pure (some record)

def nextRecord : Method Reader Error (Option Record) := fun r =>
  match readRecord sha256 r with
  | (.ok out, r) => (.ok out, r)
  | (.error e, r) => (.error e, { r with ended := true })

def next (r : Reader) : Option (Except Error Record) × Reader :=
  match nextRecord sha256 r with
  | (.ok (some record), r) => (some (.ok record), r)
  | (.ok none, r) => (none, r)
  | (.error e, r) => (some (.error e), r)

def indexed (offset : ℕ) (digest : Digest) : Method Reader Error Record := do
  let r ← read
  if offset < r.header.bytes then fail (bad "history_index" "offset inside header")
  else do
    update (fun r => { r with unread := r.contents.drop (offset - 32) })
    let previous ← exact 32
    let length ← exact 4
    let len := leNat length
    if ¬ (9 ≤ len ∧ len ≤ r.header.config.maxRecordBytes) then fail (Error.limit "history_record")
    else do
      let payload ← exact len
      let stored ← exact 32
      if stored ≠ digest.toList then
        fail (bad "history_index" "record digest does not match verified index")
      else if sha256 (DOMAIN ++ previous ++ length ++ payload) ≠ digest then
        fail (bad "history_index" "indexed payload or predecessor drift")
      else do
        let (kind, sequence, rest) ← lift (Decoder.run decodeTag payload)
        let body ← lift (Decoder.run (Decoder.take (len - 9)) rest)
        pure ⟨kind, sequence, body, offset, digest⟩

/-- The walk of `recover_file`: the end of the part that a replay has to reproduce. -/
def recoverPrefix (allowTornTail : Bool) : ℕ → Reader → ℕ → Result ℕ
  | 0, _, kept => .ok kept
  | fuel + 1, r, kept =>
    match next sha256 r with
    | (none, _) => .ok kept
    | (some (.ok record), r) =>
      recoverPrefix allowTornTail fuel r
        (if record.kind = ABORT ∨ record.kind = SEAL then kept else r.position)
    | (some (.error e), _) =>
      if allowTornTail ∧ e.code = .truncated then .ok kept else .error e

def recoverable (allowTornTail : Bool) (contents : List U8) : Result ℕ := do
  let r ← Reader.open sha256 contents
  recoverPrefix sha256 allowTornTail (contents.length + 1) r r.header.bytes

end Reader

end PcapEvidence.History
