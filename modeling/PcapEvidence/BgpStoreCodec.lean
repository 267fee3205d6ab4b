import PcapEvidence.BgpDecode
import PcapEvidence.ProvenanceOps

/-!
# The codec of the source journal

Texts and blobs behind their lengths, optional values behind a marker byte, and the spans of a
message. What an encoder here writes, the decoder reads back, whatever follows. The spans of a
message are appended again, so that a decoded message may have fewer of them for the same bytes of
the same packets.
-/

namespace PcapEvidence.Bgp.Store

open Method ByteCodec History Wire

def checkText (value : String) (limits : Bgp.Limits) (field : String) : Result Unit :=
  if value = "" ∨ value.utf8ByteSize > min limits.inputBytes 4096 ∨ value.toList.any isControl then
    .error (bad field "nonempty bounded text required")
  else .ok ()

def checkOptionalText (value : Option String) (limits : Bgp.Limits) : Result Unit :=
  match value with
  | some value => checkText value limits "bgp_journal_optional_text"
  | none => .ok ()

def asU32 (value : ℕ) (field : String) : Result U32 :=
  if value < 2 ^ 32 then .ok (BitVec.ofNat 32 value) else .error (Error.limit field)

def asU64 (value : ℕ) (field : String) : Result U64 :=
  if value < 2 ^ 64 then .ok (BitVec.ofNat 64 value) else .error (Error.limit field)

namespace Encoder

open History.Encoder (u8 u32 u64 i64 hash utf8)

def blob (value : List U8) : Result (List U8) := do
  let length ← asU32 value.length "bgp_journal_blob"
  .ok (u32 length ++ value)

def text (value : String) : Result (List U8) := blob (utf8 value)

def optionU8 (value : Option U8) : List U8 := u8 (value.getD 255)

def optionI64 : Option ℤ → List U8
  | some value => u8 1 ++ i64 value
  | none => u8 0

def optionText : Option String → Result (List U8)
  | some value => do
    let encoded ← text value
    .ok (u8 1 ++ encoded)
  | none => .ok (u8 0)

def spanFields (start stop packetStart : U64) (packet : PacketId) : List U8 :=
  u64 start ++ (u64 stop ++ (hash packet.capture ++ (u64 (BitVec.ofNat 64 packet.frame) ++
    (u64 (BitVec.ofNat 64 packet.recordOffset) ++ u64 packetStart))))

def span (s : SourceSpan) : Result (List U8) := do
  let start ← asU64 s.start "bgp_journal_span"
  let stop ← asU64 s.stop "bgp_journal_span"
  let packetStart ← asU64 s.packetStart "bgp_journal_span"
  .ok (spanFields start stop packetStart s.packet)

end Encoder

structure Decoder where
  length : ℕ
  limits : Bgp.Limits

namespace Decoder

variable (d : Decoder)

def offset (rest : List U8) : ℕ := d.length - rest.length

def take (count : ℕ) (field : String) : DecoderM (List U8) := do
  let rest ← read
  if count ≤ rest.length then do
    update (List.drop count)
    pure (rest.take count)
  else fail (badAt field (d.offset rest) "record body is truncated")

def failAt {α : Type} (field detail : String) : DecoderM α := do
  let rest ← read
  fail (badAt field (d.offset rest) detail)

def u8 : DecoderM U8 := do
  let b ← d.take 1 "bgp_journal_integer"
  pure (byteAt b 0)

def u32 : DecoderM U32 := do
  let b ← d.take 4 "bgp_journal_integer"
  pure (BitVec.ofNat 32 (leNat b))

def u64 : DecoderM U64 := do
  let b ← d.take 8 "bgp_journal_integer"
  pure (BitVec.ofNat 64 (leNat b))

def i64 : DecoderM ℤ := do
  let v ← d.u64
  pure v.toInt

def blob (field : String) : DecoderM (List U8) := do
  let length ← d.u32
  if length.toNat > d.limits.inputBytes then fail (Error.limit field)
  else d.take length.toNat field

def text (field : String) : DecoderM String := do
  let b ← d.blob field
  match History.Decoder.fromUtf8 b with
  | none => d.failAt field "journal text is not UTF-8"
  | some value => do
    lift (checkText value d.limits field)
    pure value

def optionU8 : DecoderM (Option U8) := do
  let value ← d.u8
  pure (if value = 255 then none else some value)

def optionI64 : DecoderM (Option ℤ) := do
  let marker ← d.u8
  if marker = 0 then pure none
  else if marker = 1 then do
    let value ← d.i64
    pure (some value)
  else d.failAt "bgp_journal_option" "invalid optional integer marker"

def optionText : DecoderM (Option String) := do
  let marker ← d.u8
  if marker = 0 then pure none
  else if marker = 1 then do
    let value ← d.text "bgp_journal_optional_text"
    pure (some value)
  else d.failAt "bgp_journal_option" "invalid optional text marker"

def capture : DecoderM (Vector U8 32) := do
  let b ← d.take 32 "bgp_journal_capture"
  pure (Vector.ofFn fun i => byteAt b i)

def span : DecoderM SourceSpan := do
  let start ← d.u64
  let stop ← d.u64
  let capture ← d.capture
  let frame ← d.u64
  let recordOffset ← d.u64
  let packetStart ← d.u64
  pure ⟨start.toNat, stop.toNat, ⟨capture, frame.toNat, recordOffset.toNat⟩, packetStart.toNat⟩

def finish : DecoderM Unit := do
  let rest ← read
  if rest = [] then pure () else d.failAt "bgp_journal_record" "trailing record bytes"

end Decoder

def rebuildLoop (data : List U8) (capture : Vector U8 32) (limits : Bgp.Limits) :
    EvidenceBytes → ℕ → List SourceSpan → Result (EvidenceBytes × ℕ)
  | evidence, cursor, [] => .ok (evidence, cursor)
  | evidence, cursor, span :: rest =>
    if span.start ≠ cursor ∨ span.stop ≤ span.start ∨ span.stop > data.length ∨
        span.packet.capture ≠ capture then
      .error (bad "bgp_journal_provenance" "invalid or foreign packet-span layout")
    else
      match evidence.append (.fromPacket ((data.take span.stop).drop span.start) span.packet
        span.packetStart) limits.inputBytes with
      | (.error e, _) => .error e
      | (.ok (), evidence) => rebuildLoop data capture limits evidence span.stop rest

def rebuildEvidence (data : List U8) (spans : List SourceSpan) (capture : Vector U8 32)
    (limits : Bgp.Limits) : Result EvidenceBytes := do
  let (evidence, cursor) ← rebuildLoop data capture limits .empty 0 spans
  if cursor ≠ data.length ∨ !evidence.validate then
    .error (bad "bgp_journal_provenance" "packet spans do not cover message bytes")
  else .ok evidence

def Encoder.message (session : U64) (bytes : EvidenceBytes) (metadata : PcapMetadata) :
    Result (List U8) := do
  let recordId ← Encoder.text metadata.recordId
  let peer ← Encoder.optionText metadata.peer
  let localName ← Encoder.optionText metadata.local
  let data ← Encoder.blob bytes.data
  let count ← asU32 bytes.spans.length "bgp_journal_spans"
  let spans ← bytes.spans.mapM Encoder.span
  .ok (History.Encoder.u64 session ++ (Encoder.optionU8 metadata.direction ++ (recordId ++
    (Encoder.optionI64 metadata.observedAtNs ++ (peer ++ (localName ++ (data ++
      (History.Encoder.u32 count ++ spans.flatten))))))))

def Decoder.message (d : Decoder) (source : String) (capture : Vector U8 32) :
    DecoderM (U64 × EvidenceBytes × PcapMetadata) := do
  let session ← d.u64
  let direction ← d.optionU8
  if direction.any (· > 1) then
    d.failAt "bgp_journal_direction" "direction must be zero, one, or absent"
  else do
    let recordId ← d.text "bgp_journal_record_id"
    let observedAtNs ← d.optionI64
    let peer ← d.optionText
    let localName ← d.optionText
    let data ← d.blob "bgp_journal_message"
    if data = [] then d.failAt "bgp_journal_message" "empty BGP message evidence"
    else do
      let count ← d.u32
      if count = 0 ∨ count.toNat > d.limits.spans then fail (Error.limit "bgp_journal_spans")
      else do
        let spans ← repeated d.span count.toNat
        let evidence ← lift (rebuildEvidence data spans capture d.limits)
        pure (session, evidence,
          ⟨source, recordId, observedAtNs, some session, direction, peer, localName⟩)

section Fields

variable {d : Decoder}

theorem reads_take (b : List U8) (field : String) : Reads (d.take b.length field) b b := by
  intro rest
  rw [Decoder.take, read_bind, if_pos (by rw [List.length_append]; omega), update_bind]
  simp only [List.take_left', List.drop_left']
  rfl

theorem reads_take_of_length {n : ℕ} {b : List U8} (h : b.length = n) (field : String) :
    Reads (d.take n field) b b := h ▸ reads_take b field

theorem reads_u8 (v : U8) : Reads d.u8 (History.Encoder.u8 v) v :=
  (reads_take_of_length (n := 1) rfl _).map (.pure v)

theorem reads_u32 (v : U32) : Reads d.u32 (History.Encoder.u32 v) v := by
  refine (reads_take_of_length (length_leBytes 4 v.toNat) _).map ?_
  rw [ofNat_leNat_leBytes (w := 32) rfl]
  exact .pure v

theorem reads_u64 (v : U64) : Reads d.u64 (History.Encoder.u64 v) v := by
  refine (reads_take_of_length (length_leBytes 8 v.toNat) _).map ?_
  rw [ofNat_leNat_leBytes (w := 64) rfl]
  exact .pure v

theorem reads_i64 {v : ℤ} (h : InI64 v) : Reads d.i64 (History.Encoder.i64 v) v := by
  have hv : (BitVec.ofInt 64 v).toInt = v := BitVec.toInt_ofInt_eq_self (by decide) h.1 h.2
  refine (reads_u64 (BitVec.ofInt 64 v)).map ?_
  rw [hv]
  exact .pure v

theorem asU32_ok {n : ℕ} {field : String} {v : U32} (h : asU32 n field = .ok v) :
    n < 2 ^ 32 ∧ v = BitVec.ofNat 32 n := by
  unfold asU32 at h
  split_ifs at h with hn
  exact ⟨hn, (Except.ok.inj h).symm⟩

theorem asU64_ok {n : ℕ} {field : String} {v : U64} (h : asU64 n field = .ok v) :
    n < 2 ^ 64 ∧ v = BitVec.ofNat 64 n := by
  unfold asU64 at h
  split_ifs at h with hn
  exact ⟨hn, (Except.ok.inj h).symm⟩

theorem toNat_ofNat_of_lt {w n : ℕ} (h : n < 2 ^ w) : (BitVec.ofNat w n).toNat = n := by
  rw [BitVec.toNat_ofNat, Nat.mod_eq_of_lt h]

theorem reads_blob {b e : List U8} (h : Encoder.blob b = .ok e) (hb : b.length ≤ d.limits.inputBytes)
    (field : String) : Reads (d.blob field) e b := by
  obtain ⟨length, hlength, h⟩ := bind_eq_ok.1 h
  cases h
  obtain ⟨hlt, rfl⟩ := asU32_ok hlength
  refine (reads_u32 _).bind ?_
  rw [toNat_ofNat_of_lt hlt, if_neg (by omega)]
  exact reads_take b field

theorem length_utf8 (s : String) : (History.Encoder.utf8 s).length = s.utf8ByteSize := by
  rw [History.Encoder.utf8, List.length_map, Array.length_toList]
  rfl

theorem checkText_ok {value field : String} {limits : Bgp.Limits} {u : Unit} :
    checkText value limits field = .ok u ↔ value ≠ "" ∧
      value.utf8ByteSize ≤ min limits.inputBytes 4096 ∧ value.toList.any isControl = false := by
  unfold checkText
  split_ifs with h
  · simp only [false_iff]
    rintro ⟨hne, hle, hcontrol⟩
    rcases h with h | h | h
    · exact hne h
    · omega
    · rw [hcontrol] at h
      cases h
  · push Not at h
    simpa using h

theorem reads_text {value field : String} {e : List U8} (h : Encoder.text value = .ok e)
    (hcheck : checkText value d.limits field = .ok ()) (field' : String) :
    Reads (d.text field') e value := by
  have hok := checkText_ok.1 hcheck
  refine (reads_blob h ?_ field').map ?_
  · rw [length_utf8]
    omega
  · rw [fromUtf8_utf8]
    exact (Reads.of_lift (v := ()) (checkText_ok.2 hok)).map (.pure value)

theorem reads_optionU8 {v : Option U8} (h : ∀ x ∈ v, x ≤ 1) :
    Reads d.optionU8 (Encoder.optionU8 v) v := by
  refine (reads_u8 _).map ?_
  cases v with
  | none => exact .pure none
  | some x =>
    have hx : x ≠ 255 := by
      rintro rfl
      exact absurd (h 255 rfl) (by decide)
    rw [Option.getD_some, if_neg hx]
    exact .pure (some x)

theorem reads_optionI64 {v : Option ℤ} (h : ∀ x ∈ v, InI64 x) :
    Reads d.optionI64 (Encoder.optionI64 v) v := by
  cases v with
  | none => exact (reads_u8 0).map (.pure none)
  | some x => exact (reads_u8 1).bind ((reads_i64 (h x rfl)).map (.pure (some x)))

theorem reads_optionText {v : Option String} {e : List U8} (h : Encoder.optionText v = .ok e)
    (hcheck : checkOptionalText v d.limits = .ok ()) : Reads d.optionText e v := by
  cases v with
  | none =>
    cases h
    exact (reads_u8 0).map (.pure none)
  | some x =>
    obtain ⟨encoded, htext, h⟩ := bind_eq_ok.1 h
    cases h
    exact (reads_u8 1).bind ((reads_text htext hcheck _).map (.pure (some x)))

theorem reads_capture (v : Vector U8 32) : Reads d.capture (History.Encoder.hash v) v := by
  refine (reads_take_of_length (length_hash v) _).map ?_
  rw [ofFn_hash]
  exact .pure v

end Fields

section Messages

variable {d : Decoder} {data : List U8} {capture : Vector U8 32} {limits : Bgp.Limits}

def PacketInWords (p : PacketId) : Prop := p.frame < 2 ^ 64 ∧ p.recordOffset < 2 ^ 64

theorem reads_span {s : SourceSpan} {e : List U8} (h : Encoder.span s = .ok e)
    (hp : PacketInWords s.packet) : Reads d.span e s := by
  obtain ⟨start, hstart, h⟩ := bind_eq_ok.1 h
  obtain ⟨stop, hstop, h⟩ := bind_eq_ok.1 h
  obtain ⟨packetStart, hpacket, h⟩ := bind_eq_ok.1 h
  cases h
  obtain ⟨hs, rfl⟩ := asU64_ok hstart
  obtain ⟨ht, rfl⟩ := asU64_ok hstop
  obtain ⟨hq, rfl⟩ := asU64_ok hpacket
  refine (reads_u64 _).bind ((reads_u64 _).bind ((reads_capture _).bind ((reads_u64 _).bind
    ((reads_u64 _).bind ((reads_u64 _).map ?_)))))
  rw [toNat_ofNat_of_lt hs, toNat_ofNat_of_lt ht, toNat_ofNat_of_lt hq, toNat_ofNat_of_lt hp.1,
    toNat_ofNat_of_lt hp.2]
  exact .pure s

theorem reads_spans {spans : List SourceSpan} {l : List (List U8)}
    (h : spans.mapM Encoder.span = .ok l) (hp : ∀ s ∈ spans, PacketInWords s.packet) :
    Reads (repeated d.span spans.length) l.flatten spans := by
  induction spans generalizing l with
  | nil =>
    cases h
    exact .pure []
  | cons s rest ih =>
    rw [List.mapM_cons] at h
    obtain ⟨e, he, h⟩ := bind_eq_ok.1 h
    obtain ⟨es, hes, h⟩ := bind_eq_ok.1 h
    cases h
    have hrest := ih hes fun x hx => hp x (List.mem_cons_of_mem s hx)
    exact (reads_span he (hp s List.mem_cons_self)).bind (hrest.map (.pure _))

theorem rebuildLoop_ok (hlimit : data.length ≤ limits.inputBytes) (hword : data.length < wordBound)
    {spans : List SourceSpan} {e : EvidenceBytes} {cursor : ℕ} (he : e.Valid)
    (hdata : e.data = data.take cursor) (htiled : Tiled cursor spans data.length)
    (hcapture : ∀ s ∈ spans, s.packet.capture = capture) :
    ∃ out, rebuildLoop data capture limits e cursor spans = .ok (out, data.length) ∧ out.Valid ∧
      out.data = data ∧ origins out.spans = origins e.spans ++ origins spans := by
  induction spans generalizing e cursor with
  | nil =>
    obtain rfl : cursor = data.length := htiled
    rw [List.take_length] at hdata
    exact ⟨e, rfl, he, hdata, by simp [origins]⟩
  | cons s rest ih =>
    obtain ⟨hstart, hlt, hpacket, hrest⟩ := htiled
    have hle := hrest.le
    have hpiece : ((data.take s.stop).drop s.start).length = s.stop - s.start := by
      rw [List.length_drop, List.length_take, min_eq_left hle]
    have hvalid : (EvidenceBytes.fromPacket ((data.take s.stop).drop s.start) s.packet
        s.packetStart).Valid := by
      rw [EvidenceBytes.valid_fromPacket_iff, hpiece]
      exact .inr hpacket
    have hlen : e.data.length + (EvidenceBytes.fromPacket ((data.take s.stop).drop s.start) s.packet
        s.packetStart).data.length = s.stop := by
      rw [hdata, EvidenceBytes.fromPacket, hpiece, List.length_take]
      omega
    have hjoined : e.data ++ (data.take s.stop).drop s.start = data.take s.stop := by
      rw [hdata, ← hstart]
      conv_rhs => rw [← List.take_append_drop s.start (data.take s.stop)]
      rw [List.take_take, min_eq_left hlt.le]
    obtain ⟨mid, happend, hmid, hmdata, horigins⟩ :=
      EvidenceBytes.append_spec he hvalid (hlen.trans_lt (hle.trans_lt hword))
        (hlen.trans_le (hle.trans hlimit))
    obtain ⟨out, hout, hov, hod, hoo⟩ := ih hmid (hmdata.trans hjoined) hrest
      fun x hx => hcapture x (List.mem_cons_of_mem s hx)
    refine ⟨out, ?_, hov, hod, ?_⟩
    · have hguard : ¬ (s.start ≠ cursor ∨ s.stop ≤ s.start ∨ s.stop > data.length ∨
          s.packet.capture ≠ capture) := by
        push Not
        exact ⟨hstart, hlt, hle, hcapture s List.mem_cons_self⟩
      rw [rebuildLoop, if_neg hguard, happend]
      exact hout
    · rw [hoo, horigins, EvidenceBytes.origins_fromPacket, hpiece, List.append_assoc]
      rfl

structure Admitted (limits : Bgp.Limits) (source : String) (capture : Vector U8 32) (session : U64)
    (bytes : EvidenceBytes) (metadata : PcapMetadata) : Prop where
  source : metadata.sourceId = source
  session : metadata.session = some session
  valid : bytes.Valid
  nonempty : bytes.data ≠ []
  size : bytes.data.length ≤ limits.inputBytes
  spans : bytes.spans.length ≤ limits.spans
  capture : ∀ span ∈ bytes.spans, span.packet.capture = capture
  recordId : checkText metadata.recordId limits "bgp_journal_record_id" = .ok ()
  peer : checkOptionalText metadata.peer limits = .ok ()
  localName : checkOptionalText metadata.local limits = .ok ()

theorem rebuildEvidence_ok {bytes : EvidenceBytes} (hvalid : bytes.Valid)
    (hlimit : bytes.data.length ≤ limits.inputBytes) (hword : limits.inputBytes < wordBound)
    (hcapture : ∀ s ∈ bytes.spans, s.packet.capture = capture) :
    ∃ out, rebuildEvidence bytes.data bytes.spans capture limits = .ok out ∧
      out.data = bytes.data ∧ out.view = bytes.view := by
  obtain ⟨out, hloop, hov, hod, hoo⟩ := rebuildLoop_ok hlimit (by omega) EvidenceBytes.valid_empty
    (List.take_zero).symm hvalid.2 hcapture
  refine ⟨out, ?_, hod, ?_⟩
  · refine bind_eq_ok.2 ⟨(out, bytes.data.length), hloop, ?_⟩
    dsimp only
    rw [if_neg (by simp [(EvidenceBytes.validate_iff out).2 hov])]
  · rw [EvidenceBytes.view, hoo, hod]
    rfl

theorem reads_message {source : String} {session : U64} {bytes : EvidenceBytes}
    {metadata : PcapMetadata} {body : List U8} (hword : d.limits.inputBytes < wordBound)
    (ha : Admitted d.limits source capture session bytes metadata)
    (hdirection : ∀ x ∈ metadata.direction, x ≤ 1)
    (htime : ∀ x ∈ metadata.observedAtNs, InI64 x)
    (hpackets : ∀ s ∈ bytes.spans, PacketInWords s.packet)
    (h : Encoder.message session bytes metadata = .ok body) :
    ∃ out : EvidenceBytes, Reads (d.message source capture) body (session, out, metadata) ∧
      out.data = bytes.data ∧ out.view = bytes.view := by
  obtain ⟨recordId, hrecordId, h⟩ := bind_eq_ok.1 h
  obtain ⟨peer, hpeer, h⟩ := bind_eq_ok.1 h
  obtain ⟨localName, hlocal, h⟩ := bind_eq_ok.1 h
  obtain ⟨data, hdata, h⟩ := bind_eq_ok.1 h
  obtain ⟨count, hcount, h⟩ := bind_eq_ok.1 h
  obtain ⟨spans, hspans, h⟩ := bind_eq_ok.1 h
  cases h
  obtain ⟨out, hrebuild, hod, hov⟩ := rebuildEvidence_ok ha.valid ha.size hword ha.capture
  refine ⟨out, ?_, hod, hov⟩
  obtain ⟨hfew, rfl⟩ := asU32_ok hcount
  have hnone : bytes.spans ≠ [] := fun hnil => by
    have hlen := ha.valid.2
    rw [hnil] at hlen
    exact ha.nonempty (List.length_eq_zero_iff.1 hlen.symm)
  have hpos : 0 < bytes.spans.length := List.length_pos_iff.2 hnone
  refine (reads_u64 session).bind ((reads_optionU8 hdirection).bind ?_)
  have hside : metadata.direction.any (· > 1) = false := by
    cases hd : metadata.direction with
    | none => rfl
    | some x =>
      have hx := hdirection x hd
      simpa using hx
  rw [hside, if_neg (by simp)]
  refine (reads_text hrecordId ha.recordId _).bind ((reads_optionI64 htime).bind
    ((reads_optionText hpeer ha.peer).bind ((reads_optionText hlocal ha.localName).bind
      ((reads_blob hdata ha.size _).bind ?_))))
  rw [if_neg ha.nonempty]
  refine (reads_u32 _).bind ?_
  have hnat := toNat_ofNat_of_lt hfew
  have hzero : BitVec.ofNat 32 bytes.spans.length ≠ 0 := fun hz => by
    rw [hz] at hnat
    change 0 = _ at hnat
    omega
  rw [hnat, if_neg (by
    push Not
    exact ⟨hzero, ha.spans⟩)]
  refine (reads_spans hspans hpackets).map ?_
  refine (Reads.of_lift hrebuild).map ?_
  have hsame : (⟨source, metadata.recordId, metadata.observedAtNs, some session, metadata.direction,
      metadata.peer, metadata.local⟩ : PcapMetadata) = metadata := by
    rw [← ha.source, ← ha.session]
  rw [hsame]
  exact .pure _

end Messages

end PcapEvidence.Bgp.Store
