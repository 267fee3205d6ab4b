import PcapEvidence.CaptureIter
import PcapEvidence.HistoryJournal
import PcapEvidence.HistoryRoundTrip
import PcapEvidence.JsonText
import PcapEvidence.SortedRanges

/-!
# Queries over the range index

A query walks over the index from the first row that can reach the range, reads the record behind
every row that does, and cuts the range at the ends of these rows. Each piece lists the observations
over it and shows their bytes only where all of them agree.
-/

namespace PcapEvidence.History

open Method

/-- Reading `n` bytes at an offset of a file. -/
def readExact (file : List U8) (offset n : ℕ) : Result (List U8) :=
  if n ≤ (file.drop offset).length then .ok ((file.drop offset).take n)
  else .error (Error.io "failed to fill whole buffer")

structure PacketRow where
  frame : U64
  recordOffset : U64
  dataOffset : U64
  cap : U32
  original : U32
  sectionId : U32
  interface : U32
  link : U32
  digest : Digest

namespace PacketRow

def WIDTH : ℕ := 80

def decodeM : DecoderM PacketRow := do
  let frame ← Decoder.u64
  let recordOffset ← Decoder.u64
  let dataOffset ← Decoder.u64
  let cap ← Decoder.u32
  let original ← Decoder.u32
  let sectionId ← Decoder.u32
  let interface ← Decoder.u32
  let link ← Decoder.u32
  let zero ← Decoder.u32
  if zero ≠ 0 then fail (bad "packet_index" "reserved field")
  else do
    let digest ← Decoder.hash
    Decoder.finish
    if frame = 0 ∨ dataOffset.toNat < recordOffset.toNat then
      fail (bad "packet_index" "invalid frame/offset")
    else pure ⟨frame, recordOffset, dataOffset, cap, original, sectionId, interface, link, digest⟩

def decode (b : List U8) : Result PacketRow := Decoder.run decodeM b

def get (file : List U8) (frame : U64) : Result PacketRow :=
  if frame = 0 ∨ (frame.toNat - 1) * WIDTH ≥ wordBound then .error (Error.limit "packet_index")
  else do
    let b ← readExact file ((frame.toNat - 1) * WIDTH) WIDTH
    let row ← decode b
    if row.frame ≠ frame then .error (bad "packet_index" "ordinal mismatch")
    else .ok row

end PacketRow

/-- The fields of a stored transport record. -/
def decodeTcpM (c : Config) : DecoderM (TcpInput × Decision) := do
  let blob ← Decoder.bytes c.maxRecordBytes
  let input ← lift (TcpInput.decode blob c)
  let blob ← Decoder.bytes c.maxRecordBytes
  let decision ← lift (Decision.decode blob c)
  Decoder.finish
  pure (input, decision)

def decodeTcpRecord (b : List U8) (c : Config) : Result (TcpInput × Decision) :=
  Decoder.run (decodeTcpM c) b

/-! ### The index file -/

def readRow (file : List U8) : Result (Option Row) :=
  if (file.take Row.WIDTH).length = 0 then .ok none
  else if (file.take Row.WIDTH).length < Row.WIDTH then
    .error (bad "history_index" "partial entry")
  else do
    let row ← Row.decode (file.take Row.WIDTH)
    .ok (some row)

structure Index where
  file : List U8
  count : ℕ

def searchKey (generation : Digest) (direction : U8) (start : ℤ) : List ℕ ×ₗ ℕ ×ₗ ℤ :=
  toLex (Row.digestKey generation, toLex (direction.toNat, start))

def Row.rangeKey (r : Row) : List ℕ ×ₗ ℕ ×ₗ ℤ :=
  searchKey r.generation r.direction r.start

namespace Index

def «open» (file : List U8) : Result Index :=
  if file.length % Row.WIDTH ≠ 0 then .error (bad "history_index" "misaligned index")
  else .ok ⟨file, file.length / Row.WIDTH⟩

def «at» (x : Index) (n : ℕ) : Result Row :=
  if n ≥ x.count then .error (bad "history_index" "entry outside index")
  else if n * Row.WIDTH ≥ wordBound then .error (Error.limit "history_index_offset")
  else do
    let row ← readRow (x.file.drop (n * Row.WIDTH))
    okOr (bad "history_index" "unexpected EOF") row

def lowerBound (x : Index) (generation : Digest) (direction : U8) (start : ℤ) : Result ℕ :=
  SortedRanges.bisect (fun mid => do
    let r ← x.at mid
    .ok (decide (r.rangeKey < searchKey generation direction start))) x.count 0 x.count

end Index

/-! ### The query -/

structure SealedHistory where
  source : List U8
  journal : Reader
  index : Index
  packets : List U8
  config : Config
  identity : SourceIdentity

/-- The work of a query after `n` more units. -/
def Config.chargeWork (c : Config) (work n : ℕ) : Result ℕ := do
  let work ← okOr (Error.limit "query_work") (checkedAdd work n)
  if work > c.maxQueryWork.toNat then .error (Error.limit "query_work") else .ok work

structure RangeObservation where
  row : Row
  input : TcpInput
  decision : Decision
  deriving DecidableEq

structure Scan where
  observations : List RangeObservation
  work : ℕ
  scanned : ℕ
  boundaries : List ℤ

/-- One piece while the observations over it are collected, with the counters of the query. -/
structure Cover where
  work : ℕ
  references : ℕ
  selected : Option (List U8)
  conflict : Bool
  uncertain : Bool
  ids : List ℕ

inductive PieceStatus where
  | gap | conflictingBytes | ambiguousSequencePlacement | candidate
  deriving DecidableEq

def PieceStatus.asStr : PieceStatus → String
  | gap => "gap"
  | conflictingBytes => "conflicting_bytes"
  | ambiguousSequencePlacement => "ambiguous_sequence_placement"
  | candidate => "candidate"

structure Piece where
  start : ℤ
  stop : ℤ
  status : PieceStatus
  observationIds : List ℕ
  bytes : Option (List U8)
  deriving DecidableEq

structure Pieces where
  pieces : List Piece
  work : ℕ
  references : ℕ

def signedText (v : ℤ) : Bgp.Json := .string (toString v)

def number (n : ℕ) : Bgp.Json := .number (BitVec.ofNat 64 n)

def digestText (d : Digest) : Bgp.Json := .string (Bgp.hex d.toList)

def Piece.json (p : Piece) : Bgp.Json :=
  Bgp.Json.objectOf [("start", signedText p.start),
    ("end", signedText p.stop),
    ("status", .string p.status.asStr),
    ("observation_ids", Bgp.Json.arrayOf (p.observationIds.map number)),
    ("bytes_hex", p.bytes.elim .null fun b => .string (Bgp.hex b))]

def Witness.json (w : Witness) : Bgp.Json :=
  Bgp.Json.objectOf [("frame", Bgp.decimalText w.frame.toNat),
    ("source_offset", Bgp.decimalText w.sourceOffset.toNat),
    ("packet_start", number w.packetStart.toNat),
    ("raw_start", number w.start.toNat),
    ("raw_end", number w.stop.toNat)]

namespace RangeObservation

/-- The bytes of the payload from `a` to `b`. -/
def carried (o : RangeObservation) (a b : ℤ) : List U8 :=
  (o.input.payload.take (b - o.row.start).toNat).drop (a - o.row.start).toNat

def json (sha256 : List U8 → Digest) (o : RangeObservation) (id : ℕ) : Bgp.Json :=
  Bgp.Json.objectOf [("id", number id),
    ("journal_sequence", Bgp.decimalText o.row.ordinal.toNat),
    ("packet", Bgp.decimalText o.input.frame.toNat),
    ("start", signedText o.row.start),
    ("end", signedText o.row.stop),
    ("placement_selected", .bool o.row.selected),
    ("policy_assumption", .bool o.decision.policyAssumption),
    ("decision_reasons", Bgp.Json.arrayOf (o.decision.reasons.map .string)),
    ("state_before_sha256", digestText o.decision.before),
    ("state_after_sha256", digestText o.decision.after),
    ("tcp_header_bytes", number o.input.headerBytes),
    ("payload_sha256", digestText (sha256 o.input.payload)),
    ("witnesses", Bgp.Json.arrayOf (o.input.witnesses.map Witness.json))]

end RangeObservation

namespace SealedHistory

variable (sha256 : List U8 → Digest)

def sourceWitness (h : SealedHistory) (input : TcpInput) (work : ℕ) (w : Witness) : Result ℕ := do
  let p ← PacketRow.get h.packets w.frame
  let n := w.stop.toNat - w.start.toNat
  if p.recordOffset ≠ w.recordOffset ∨ w.packetStart.toNat + n > p.cap.toNat ∨
      checkedAdd p.dataOffset.toNat w.packetStart.toNat ≠ some w.sourceOffset.toNat then
    .error (bad "history_witness" "witness outside canonical packet")
  else do
    let work ← h.config.chargeWork work n
    let bytes ← readExact h.source w.sourceOffset.toNat n
    if (input.raw.take w.stop.toNat).drop w.start.toNat ≠ bytes then
      .error (bad "history_witness" "stored transport bytes disagree with original source")
    else .ok work

def sourceWitnesses (h : SealedHistory) (input : TcpInput) (work : ℕ) : Result ℕ :=
  input.witnesses.foldlM (h.sourceWitness input) work

def observe (h : SealedHistory) (generation : Digest) (direction : U8) (row : Row) (work : ℕ) :
    Result (RangeObservation × ℕ) := do
  let record ← (Reader.indexed sha256 row.recordOffset.toNat row.recordDigest h.journal).1
  if record.kind ≠ TCP ∨ record.sequence ≠ row.ordinal.toNat then
    .error (bad "history_index" "index targets wrong record")
  else do
    let work ← h.config.chargeWork work record.body.length
    let (input, decision) ← decodeTcpRecord record.body h.config
    if row.stop - row.start ≠ input.payload.length ∨
        ⟨generation, direction, row.start, row.selected⟩ ∉ decision.placements then
      .error (bad "history_index" "index placement is not emitted by journal decision")
    else do
      let work ← h.sourceWitnesses input work
      .ok (⟨row, input, decision⟩, work)

/-- The walk over the next `n` rows; every row read is charged, also before the range. -/
def scan (h : SealedHistory) (generation : Digest) (direction : U8) (start stop : ℤ) :
    ℕ → ℕ → Scan → Result Scan
  | 0, _, s => .ok s
  | n + 1, i, s =>
    if s.scanned ≥ h.config.maxQueryIntervals then .error (Error.limit "query_scan")
    else do
      let work ← h.config.chargeWork s.work Row.WIDTH
      let row ← h.index.at i
      if row.generation ≠ generation ∨ row.direction ≠ direction ∨ row.start ≥ stop then
        .ok { s with
          work := work
          scanned := s.scanned + 1 }
      else if row.stop ≤ start then
        scan h generation direction start stop n (i + 1) { s with
          work := work
          scanned := s.scanned + 1 }
      else if s.observations.length ≥ h.config.maxQueryIntervals then
        .error (Error.limit "query_intervals")
      else do
        let (o, work) ← h.observe sha256 generation direction row work
        scan h generation direction start stop n (i + 1) {
          observations := s.observations ++ [o]
          work := work
          scanned := s.scanned + 1
          boundaries := s.boundaries ++ [max row.start start, min row.stop stop] }

/-- One observation, added to the piece from `a` to `b` if it covers it. -/
def cover (h : SealedHistory) (a b : ℤ) (s : Cover) (o : RangeObservation × ℕ) : Result Cover := do
  let work ← h.config.chargeWork s.work 1
  if o.1.row.start ≤ a ∧ b ≤ o.1.row.stop then do
    let raw := o.1.carried a b
    let work ← h.config.chargeWork work raw.length
    if s.references + 1 > Decision.saturatingMul h.config.maxQueryIntervals 4 then
      .error (Error.limit "query_evidence_references")
    else .ok {
      work := work
      references := s.references + 1
      selected := some (s.selected.getD raw)
      conflict := s.conflict || s.selected.any (· != raw)
      uncertain := s.uncertain || !o.1.row.selected
      ids := s.ids ++ [o.2] }
  else .ok { s with work := work }

def piece (a b : ℤ) (s : Cover) : Piece where
  start := a
  stop := b
  status :=
    if s.selected.isNone then .gap
    else if s.conflict then .conflictingBytes
    else if s.uncertain then .ambiguousSequencePlacement
    else .candidate
  observationIds := s.ids
  bytes := if s.conflict ∨ s.uncertain then none else s.selected

def cut (h : SealedHistory) (observations : List RangeObservation) (s : Pieces) (w : ℤ × ℤ) :
    Result Pieces := do
  let c ← observations.zipIdx.foldlM (h.cover w.1 w.2) {
    work := s.work
    references := s.references
    selected := none
    conflict := false
    uncertain := false
    ids := [] }
  .ok ⟨s.pieces ++ [piece w.1 w.2 c], c.work, c.references⟩

def query (h : SealedHistory) (generation : Digest) (direction : U8) (start stop : ℤ) :
    Result (List RangeObservation × List Piece) :=
  if ¬ (InI64 (stop - start) ∧ 0 < stop - start) then
    .error (bad "query_range" "positive ordered range required")
  else if direction.toNat > 1 ∨ (stop - start).toNat > h.config.maxQueryBytes then
    .error (Error.limit "query_bytes")
  else do
    let low := max (start - 65535) (-2 ^ 63)
    let i ← h.index.lowerBound generation direction low
    let s ← h.scan sha256 generation direction start stop (h.index.count - i) i
      ⟨[], 0, 0, [start, stop]⟩
    let p ← (SortedRanges.windows (SortedVec.sortDedup s.boundaries)).foldlM
      (h.cut s.observations) ⟨[], s.work, 0⟩
    .ok (s.observations, p.pieces)

def report (h : SealedHistory) (generation : Digest) (direction : U8) (observations : List RangeObservation)
    (pieces : List Piece) : Bgp.Json :=
  Bgp.Json.objectOf [("schema", .string "pcap-evidence.history-range.v1"),
    ("source_sha256", digestText h.identity.sha256),
    ("generation", digestText generation),
    ("direction", number direction.toNat),
    ("integrity_checked", .bool true),
    ("semantic_replay_verified", .bool false),
    ("pieces", Bgp.Json.arrayOf (pieces.map Piece.json)),
    ("observations", Bgp.Json.arrayOf (observations.zipIdx.map fun o => o.1.json sha256 o.2))]

def range (h : SealedHistory) (generation : Digest) (direction : U8) (start stop : ℤ) :
    Result Bgp.Json := do
  let (observations, pieces) ← h.query sha256 generation direction start stop
  let result := h.report sha256 generation direction observations pieces
  let _ ← result.encodeBounded h.config.maxRecordBytes
  .ok result

end SealedHistory

end PcapEvidence.History
