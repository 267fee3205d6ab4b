import PcapEvidence.BgpStoreCodec

/-!
# The source journal of captured BGP messages

A header that names the source and the capture, then records: kind, length, the digest of the
predecessor, the digest of the record and its body. A seal with the number of records ends the file.
The file is the bytes written so far, and writing them is assumed to succeed. The reader hands every
record to a reducer, which stands for the session manager and the archive that is built beside it
with their budgets and counters; the hash function is a parameter too.
-/

namespace PcapEvidence.Bgp.Store

open Method ByteCodec History Wire
open History.Encoder (u8 u16 u32 u64 hash utf8)

/-- `PCBGP001`. -/
def MAGIC : List U8 := [80, 67, 66, 71, 80, 48, 48, 49]
def VERSION : U16 := 1
def HEADER_DOMAIN : List U8 := utf8 "pcap-evidence/bgp-journal-header/v1" ++ [0]
def RECORD_DOMAIN : List U8 := utf8 "pcap-evidence/bgp-journal-record/v1" ++ [0]
def MESSAGE : U8 := 1
def GAP : U8 := 2
def RESET : U8 := 3
def END : U8 := 4
def CLEAR : U8 := 5
def SEAL : U8 := 255
def RECORD_OVERHEAD : ℕ := 1 + 8 + 32 + 32

/-- What is written with one call and handed on by the reader. -/
inductive Record where
  | message (session : U64) (bytes : EvidenceBytes) (metadata : PcapMetadata)
  | gap (session : U64) (recordId reason : String)
  | reset (session : U64) (recordId reason : String)
  | endSession (session : U64)
  | clear
  deriving DecidableEq

structure JournalReceipt where
  sourceId : String
  captureNamespace : Vector U8 32
  records : ℕ
  terminalSha256 : Digest

variable (sha256 : List U8 → Digest)

def recordDigest (kind : U8) (length : U64) (previous : Digest) (body : List U8) : Digest :=
  sha256 (RECORD_DOMAIN ++ [kind] ++ u64 length ++ previous.toList ++ body)

structure JournalWriter where
  file : List U8
  limits : Bgp.Limits
  sourceId : String
  captureNamespace : Vector U8 32
  chain : Digest
  records : ℕ
  written : ℕ
  maximum : U64
  sealed : Bool
  deriving DecidableEq

namespace JournalWriter

def writeAll (bytes : List U8) : Method JournalWriter Error Unit := do
  update fun w => { w with file := w.file ++ bytes }
  let w ← read
  let length ← lift (asU64 bytes.length "bgp_journal_bytes")
  let written ← lift (okOr (Error.limit "bgp_journal_disk") (checkedAdd w.written length.toNat))
  update fun w => { w with written := written }

def create (sourceId : String) (captureNamespace : Vector U8 32) (maximum : U64)
    (limits : Bgp.Limits) : Result JournalWriter := do
  limits.validate
  checkText sourceId limits "bgp_journal_source"
  let source ← Encoder.text sourceId
  let header := MAGIC ++ u16 VERSION ++ hash captureNamespace ++ source
  let written ← asU64 header.length "bgp_journal_bytes"
  if written.toNat > maximum.toNat then .error (Error.limit "bgp_journal_disk")
  else match writeAll header {
      file := []
      limits := limits
      sourceId := sourceId
      captureNamespace := captureNamespace
      chain := sha256 (HEADER_DOMAIN ++ header)
      records := 0
      written := 0
      maximum := maximum
      sealed := false } with
    | (.ok (), w) => .ok w
    | (.error e, _) => .error e

def advance (kind : U8) : Method JournalWriter Error Unit :=
  if kind ≠ SEAL then do
    let w ← read
    let records ← lift (okOr (Error.limit "bgp_journal_records") (checkedAdd w.records 1))
    update fun w => { w with records := records }
  else update fun w => { w with sealed := true }

def append (kind : U8) (body : List U8) : Method JournalWriter Error Unit := do
  let w ← read
  if w.sealed ∨ kind = 0 then
    fail (badAt "bgp_journal_state" w.written "cannot append to sealed journal")
  else if body.length > min w.maximum.toNat w.limits.retainedBytes then
    fail (Error.limit "bgp_journal_record")
  else do
    let length ← lift (asU64 body.length "bgp_journal_record")
    let digest := recordDigest sha256 kind length w.chain body
    let needed ← lift (okOr (Error.limit "bgp_journal_disk")
      (checkedAdd RECORD_OVERHEAD length.toNat))
    if (checkedAdd w.written needed).all (· > w.maximum.toNat) then
      fail (Error.limit "bgp_journal_disk")
    else do
      writeAll (u8 kind ++ u64 length ++ hash w.chain ++ hash digest ++ body)
      update fun w => { w with chain := digest }
      advance kind

def message (session : U64) (bytes : EvidenceBytes) (metadata : PcapMetadata) :
    Method JournalWriter Error Unit := do
  let w ← read
  if metadata.sourceId ≠ w.sourceId ∨ metadata.session ≠ some session then
    fail (bad "bgp_journal_scope" "message metadata differs from journal scope")
  else if !bytes.validate || bytes.isEmpty || bytes.len > w.limits.inputBytes ||
      bytes.spans.length > w.limits.spans ||
      bytes.spans.any (·.packet.capture ≠ w.captureNamespace) then
    fail (bad "bgp_journal_provenance" "message bytes or provenance differ from journal scope")
  else do
    lift (checkText metadata.recordId w.limits "bgp_journal_record_id")
    lift (checkOptionalText metadata.peer w.limits)
    lift (checkOptionalText metadata.local w.limits)
    let body ← lift (Encoder.message session bytes metadata)
    append sha256 MESSAGE body

def boundary (kind : U8) (session : U64) (recordId reason : String) :
    Method JournalWriter Error Unit := do
  let w ← read
  lift (checkText recordId w.limits "bgp_journal_record_id")
  lift (checkText reason w.limits "bgp_journal_reason")
  let record ← lift (Encoder.text recordId)
  let cause ← lift (Encoder.text reason)
  append sha256 kind (u64 session ++ (record ++ cause))

def gap (session : U64) (recordId reason : String) : Method JournalWriter Error Unit :=
  boundary sha256 GAP session recordId reason

def reset (session : U64) (recordId reason : String) : Method JournalWriter Error Unit :=
  boundary sha256 RESET session recordId reason

def endSession (session : U64) : Method JournalWriter Error Unit := append sha256 END (u64 session)

def clear : Method JournalWriter Error Unit := append sha256 CLEAR []

def «seal» : Method JournalWriter Error JournalReceipt := do
  let w ← read
  append sha256 SEAL (u64 (BitVec.ofNat 64 w.records))
  update fun w => { w with sealed := true }
  let s ← read
  pure ⟨s.sourceId, s.captureNamespace, w.records, s.chain⟩

def write : Record → Method JournalWriter Error Unit
  | .message session bytes metadata => message sha256 session bytes metadata
  | .gap session recordId reason => gap sha256 session recordId reason
  | .reset session recordId reason => reset sha256 session recordId reason
  | .endSession session => endSession sha256 session
  | .clear => clear sha256

/-- The records whose calls succeeded, and the writer behind all calls. -/
def writeEach (w : JournalWriter) : List Record → List Record × JournalWriter
  | [] => ([], w)
  | record :: rest =>
    let r := write sha256 record w
    let next := writeEach r.2 rest
    (if r.1.isOk then record :: next.1 else next.1, next.2)

end JournalWriter

structure Entry where
  record : Record
  index : ℕ
  sha256 : Digest
  start : ℕ
  stop : ℕ

/-- What the records of a journal are given to. -/
structure Reducer (σ α : Type) where
  new : Vector U8 32 → String → Bgp.Limits → Result σ
  step : σ → Entry → Result σ
  finish : σ → Result α

structure Source where
  total : ℕ
  maximum : U64
  limits : Bgp.Limits

structure Header where
  captureNamespace : Vector U8 32
  sourceId : String
  chain : Digest

structure Frame where
  kind : U8
  body : List U8
  digest : Digest
  start : ℕ
  stop : ℕ

/-- The body of a record. -/
inductive Body where
  | record (r : Record)
  | «seal» (declared : ℕ)

structure Replay (σ : Type) where
  state : σ
  chain : Digest
  records : ℕ

namespace Source

variable (j : Source)

def consumed (rest : List U8) : ℕ := j.total - rest.length

def readExactAt (count : ℕ) (field : String) : DecoderM (List U8) := do
  let rest ← read
  if count ≤ rest.length then do
    update (List.drop count)
    pure (rest.take count)
  else fail ⟨.truncated, j.consumed rest, field, "unexpected end of journal"⟩

def readText (field : String) : DecoderM String := do
  let length ← j.readExactAt 4 field
  if leNat length = 0 ∨ leNat length > min j.limits.inputBytes 4096 then fail (Error.limit field)
  else do
    let value ← j.readExactAt (leNat length) field
    match History.Decoder.fromUtf8 value with
    | none => do
      let rest ← read
      fail (badAt field (j.consumed rest) "journal text is not UTF-8")
    | some value => do
      lift (checkText value j.limits field)
      pure value

def readHeader : DecoderM Header := do
  let fixed ← j.readExactAt 42 "bgp_journal_header"
  if fixed.take 8 ≠ MAGIC then
    fail ⟨.badMagic, 0, "bgp_journal_magic", "not a BGP source journal"⟩
  else if leNat ((fixed.take 10).drop 8) ≠ VERSION.toNat then
    fail ⟨.unsupportedVersion, 8, "bgp_journal_version", "unsupported BGP journal version"⟩
  else do
    let capture : Vector U8 32 := Vector.ofFn fun i => byteAt (fixed.drop 10) i
    let sourceId ← j.readText "bgp_journal_source"
    let length ← lift (asU32 (utf8 sourceId).length "bgp_journal_source")
    let header := fixed ++ (u32 length ++ utf8 sourceId)
    pure ⟨capture, sourceId, sha256 (HEADER_DOMAIN ++ header)⟩

def readFrame (chain : Digest) : DecoderM Frame := do
  let start ← read
  let front ← j.readExactAt RECORD_OVERHEAD "bgp_journal_record"
  let rest ← read
  let kind := byteAt front 0
  let length := leNat ((front.take 9).drop 1)
  if length > j.maximum.toNat ∨ length > j.limits.retainedBytes ∨
      j.consumed rest + length > j.total then
    fail ⟨.invalidLength, j.consumed start, "bgp_journal_record",
      "record length exceeds configured or file boundary"⟩
  else if (front.take 41).drop 9 ≠ chain.toList then
    fail ⟨.sourceMismatch, j.consumed start, "bgp_journal_chain",
      "previous-record digest does not match"⟩
  else do
    let body ← j.readExactAt length "bgp_journal_body"
    let actual := recordDigest sha256 kind (BitVec.ofNat 64 length) chain body
    if front.drop 41 ≠ actual.toList then
      fail ⟨.sourceMismatch, j.consumed start, "bgp_journal_digest",
        "record digest does not match body"⟩
    else do
      let behind ← read
      pure ⟨kind, body, actual, j.consumed start, j.consumed behind⟩

def decodeBoundary (d : Decoder) : DecoderM (U64 × String × String) := do
  let session ← d.u64
  let recordId ← d.text "bgp_journal_record_id"
  let reason ← d.text "bgp_journal_reason"
  d.finish
  pure (session, recordId, reason)

def decodeBody (h : Header) (frame : Frame) : DecoderM Body :=
  let d : Decoder := ⟨frame.body.length, j.limits⟩
  if frame.kind = MESSAGE then do
    let (session, bytes, metadata) ← d.message h.sourceId h.captureNamespace
    d.finish
    pure (.record (.message session bytes metadata))
  else if frame.kind = GAP then do
    let (session, recordId, reason) ← decodeBoundary d
    pure (.record (.gap session recordId reason))
  else if frame.kind = RESET then do
    let (session, recordId, reason) ← decodeBoundary d
    pure (.record (.reset session recordId reason))
  else if frame.kind = END then do
    let session ← d.u64
    d.finish
    pure (.record (.endSession session))
  else if frame.kind = CLEAR then do
    d.finish
    pure (.record .clear)
  else if frame.kind = SEAL then do
    let declared ← d.u64
    d.finish
    pure (.seal declared.toNat)
  else
    fail ⟨.unsupportedVersion, frame.start, "bgp_journal_record_kind", "unknown record kind"⟩

variable {σ α : Type} (r : Reducer σ α)

/-- One record, and whether it was the last one. -/
def step (h : Header) (s : Replay σ) (frame : Frame) : Result (Replay σ × Bool) := do
  let body ← (j.decodeBody h frame frame.body).1
  match body with
  | .record record => do
    let state ← r.step s.state ⟨record, s.records, frame.digest, frame.start, frame.stop⟩
    let records ← okOr (Error.limit "bgp_journal_records") (checkedAdd s.records 1)
    .ok (⟨state, frame.digest, records⟩, false)
  | .seal declared =>
    if declared ≠ s.records ∨ frame.stop ≠ j.total then
      .error ⟨.lengthMismatch, frame.start, "bgp_journal_seal",
        "seal count differs or trailing bytes remain"⟩
    else .ok ({ s with chain := frame.digest }, true)

variable {j sha256}

theorem readExactAt_ok {count : ℕ} {field : String} {rest b left : List U8}
    (h : j.readExactAt count field rest = (.ok b, left)) :
    count ≤ rest.length ∧ b = rest.take count ∧ left = rest.drop count := by
  unfold readExactAt at h
  rw [read_bind] at h
  split_ifs at h with hle
  · cases h
    exact ⟨hle, rfl, rfl⟩
  · cases h

theorem readFrame_lt {chain : Digest} {rest left : List U8} {frame : Frame}
    (h : j.readFrame sha256 chain rest = (.ok frame, left)) : left.length < rest.length := by
  unfold readFrame at h
  rw [read_bind] at h
  obtain ⟨front, rest₁, hfront, h⟩ := bind_ok h
  obtain ⟨hlen, -, rfl⟩ := readExactAt_ok hfront
  rw [read_bind] at h
  obtain ⟨-, h⟩ := guard_ok h
  obtain ⟨-, h⟩ := guard_ok h
  obtain ⟨body, rest₂, hbody, h⟩ := bind_ok h
  obtain ⟨-, -, rfl⟩ := readExactAt_ok hbody
  obtain ⟨-, h⟩ := guard_ok h
  cases h
  rw [List.length_drop, List.length_drop]
  rw [RECORD_OVERHEAD] at hlen ⊢
  omega

variable (j sha256)

def recordLoop (h : Header) (s : Replay σ) (rest : List U8) : Result (Replay σ) :=
  match _hframe : j.readFrame sha256 s.chain rest with
  | (.error e, _) => .error e
  | (.ok frame, left) =>
    match j.step r h s frame with
    | .error e => .error e
    | .ok (s, true) => .ok s
    | .ok (s, false) => recordLoop h s left
termination_by rest.length
decreasing_by exact readFrame_lt ‹_›

end Source

section Replays

variable {σ α : Type} (r : Reducer σ α)

def replayFrom (j : Source) : DecoderM (JournalReceipt × α) := do
  let h ← j.readHeader sha256
  let state ← lift (r.new h.captureNamespace h.sourceId j.limits)
  let rest ← read
  let s ← lift (j.recordLoop sha256 r h ⟨state, h.chain, 0⟩ rest)
  let out ← lift (r.finish s.state)
  pure (⟨h.sourceId, h.captureNamespace, s.records, s.chain⟩, out)

def replay (contents : List U8) (maximum : U64) (limits : Bgp.Limits) :
    Result (JournalReceipt × α) := do
  limits.validate
  if contents.length > maximum.toNat then .error (Error.limit "bgp_journal_disk")
  else (replayFrom sha256 r ⟨contents.length, maximum, limits⟩ contents).1

end Replays

end PcapEvidence.Bgp.Store
