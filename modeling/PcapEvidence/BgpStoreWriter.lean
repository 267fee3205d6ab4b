import PcapEvidence.BgpStore

/-!
# What the writer of the source journal leaves behind

A call either fails and changes nothing, or it appends one frame that binds its predecessor. So the
file is the header with the frames of the calls that succeeded, and the body of every frame is read
back as the record of its call.
-/

namespace PcapEvidence.Bgp.Store

open Method ByteCodec History Wire
open History.Encoder (u8 u16 u32 u64 hash utf8)

variable {sha256 : List U8 → Digest}

section Frames

variable (sha256)

/-- A kind with a body. -/
abbrev Written := U8 × List U8

def frameDigest (chain : Digest) (x : Written) : Digest :=
  recordDigest sha256 x.1 (BitVec.ofNat 64 x.2.length) chain x.2

def frameBytes (chain : Digest) (x : Written) : List U8 :=
  u8 x.1 ++ u64 (BitVec.ofNat 64 x.2.length) ++ hash chain ++ hash (frameDigest sha256 chain x) ++ x.2

def frames (chain : Digest) : List Written → List U8
  | [] => []
  | x :: rest => frameBytes sha256 chain x ++ frames (frameDigest sha256 chain x) rest

def chainAfter (chain : Digest) : List Written → Digest
  | [] => chain
  | x :: rest => chainAfter (frameDigest sha256 chain x) rest

variable {sha256}

theorem length_frameBytes (chain : Digest) (x : Written) :
    (frameBytes sha256 chain x).length = RECORD_OVERHEAD + x.2.length := by
  simp [frameBytes, RECORD_OVERHEAD, u8, u64, History.Encoder.hash]
  omega

end Frames

namespace JournalWriter

variable {w t : JournalWriter}

structure Counted (w : JournalWriter) : Prop where
  records : w.records ≤ w.written
  written : w.written ≤ w.maximum.toNat
  file : w.written = w.file.length

def push (sha256 : List U8 → Digest) (w : JournalWriter) (x : Written) : JournalWriter :=
  { w with
    file := w.file ++ frameBytes sha256 w.chain x
    chain := frameDigest sha256 w.chain x
    written := w.written + (RECORD_OVERHEAD + x.2.length)
    records := if x.1 = SEAL then w.records else w.records + 1
    sealed := if x.1 = SEAL then true else w.sealed }

/-- A frame within the bounds of the journal. -/
structure Admits (w : JournalWriter) (x : Written) : Prop where
  size : x.2.length ≤ min w.maximum.toNat w.limits.retainedBytes
  room : w.written + (RECORD_OVERHEAD + x.2.length) ≤ w.maximum.toNat

theorem Counted.push (h : Counted w) {x : Written} (hx : w.Admits x) : Counted (w.push sha256 x) where
  records := by
    have hrecords := h.records
    unfold JournalWriter.push RECORD_OVERHEAD
    dsimp only
    split_ifs <;> omega
  written := hx.room
  file := by
    unfold JournalWriter.push
    dsimp only
    rw [List.length_append, length_frameBytes, h.file]

theorem writeAll_ok {bytes : List U8} (h : w.written + bytes.length < wordBound) :
    writeAll bytes w = (.ok (), { w with
      file := w.file ++ bytes
      written := w.written + bytes.length }) := by
  have hlen : bytes.length < 2 ^ 64 := by
    have : wordBound = 2 ^ 64 := rfl
    omega
  have hasU64 : asU64 bytes.length "bgp_journal_bytes" = .ok (BitVec.ofNat 64 bytes.length) := by
    rw [asU64, if_pos hlen]
  have hsum : okOr (Error.limit "bgp_journal_disk") (checkedAdd w.written
      (BitVec.ofNat 64 bytes.length).toNat) = .ok (w.written + bytes.length) := by
    rw [toNat_ofNat_of_lt hlen, checkedAdd_of_lt h]
    rfl
  rw [writeAll, update_bind, read_bind, lift_bind hasU64, lift_bind hsum]
  rfl

theorem advance_ok {kind : U8} (h : w.records + 1 < wordBound) :
    advance kind w = (.ok (), { w with
      records := if kind = SEAL then w.records else w.records + 1
      sealed := if kind = SEAL then true else w.sealed }) := by
  unfold advance
  by_cases hseal : kind = SEAL
  · rw [if_neg (not_not.2 hseal), if_pos hseal, if_pos hseal]
    rfl
  · have hnext : okOr (Error.limit "bgp_journal_records") (checkedAdd w.records 1) =
        .ok (w.records + 1) := by
      rw [checkedAdd_of_lt h]
      rfl
    rw [if_pos hseal, if_neg hseal, if_neg hseal, read_bind, lift_bind hnext]
    rfl

theorem append_sat (h : Counted w) (kind : U8) (body : List U8) :
    Sat (append sha256 kind body) w
      (fun _ t => t = w.push sha256 (kind, body) ∧ w.Admits (kind, body)) (fun _ t => t = w) := by
  have hmax := w.maximum.isLt
  have hword : wordBound = 2 ^ 64 := rfl
  refine sat_read_bind (sat_ite (fun _ => sat_fail rfl) fun _ => ?_)
  refine sat_ite (fun _ => sat_fail rfl) fun hsize => ?_
  refine sat_lift_bind (fun length hlength => ?_) fun _ _ => rfl
  obtain ⟨hlen, rfl⟩ := asU64_ok hlength
  rw [toNat_ofNat_of_lt hlen]
  refine sat_lift_bind (fun needed hneeded => ?_) fun _ _ => rfl
  obtain ⟨-, rfl⟩ := (checkedAdd_eq_some_iff _ _ _).1 (okOr_eq_ok_iff.1 hneeded)
  refine sat_ite (fun _ => sat_fail rfl) fun hroom => ?_
  have hfits : w.written + (RECORD_OVERHEAD + body.length) ≤ w.maximum.toNat := by
    unfold checkedAdd at hroom
    split_ifs at hroom with hlt
    · simpa using hroom
    · simp at hroom
  have hbytes : (frameBytes sha256 w.chain (kind, body)).length = RECORD_OVERHEAD + body.length :=
    length_frameBytes _ _
  have hwrite := writeAll_ok (by rw [hbytes]; omega :
      w.written + (frameBytes sha256 w.chain (kind, body)).length < wordBound)
  rw [hbytes] at hwrite
  have hrecords : w.records + 1 < wordBound := by
    have hle := h.records
    rw [RECORD_OVERHEAD] at hfits
    omega
  refine sat_of_eq (a := ()) ?_ ⟨rfl, not_lt.1 hsize, hfits⟩
  refine (bind_of_ok hwrite _).trans ?_
  rw [update_bind]
  exact advance_ok hrecords

end JournalWriter

section Records

/-- A record with the same bytes from the same packets. -/
inductive Same : Record → Record → Prop
  | message {session : U64} {bytes out : EvidenceBytes} {metadata : PcapMetadata}
      (data : out.data = bytes.data) (view : out.view = bytes.view) :
      Same (.message session bytes metadata) (.message session out metadata)
  | refl (record : Record) : Same record record

/-- The numbers of the call are words of the types that the source gives them. -/
def Record.InWords : Record → Prop
  | .message _ bytes metadata =>
    (∀ x ∈ metadata.observedAtNs, InI64 x) ∧ ∀ s ∈ bytes.spans, PacketInWords s.packet
  | _ => True

def Record.Directed : Record → Prop
  | .message _ _ metadata => ∀ x ∈ metadata.direction, x ≤ 1
  | _ => True

def ReadsBack (limits : Bgp.Limits) (source : String) (capture : Vector U8 32) (x : Written)
    (record : Record) : Prop :=
  ∀ (j : Source) (h : Header) (frame : Frame), j.limits = limits → h.sourceId = source →
    h.captureNamespace = capture → frame.kind = x.1 → frame.body = x.2 →
    j.decodeBody h frame frame.body = (.ok (.record record), [])

theorem reads_then {α β : Type} {m : DecoderM α} {f : α → DecoderM β} {a b : List U8} {v : α} {w : β}
    (hm : Reads m a v) (hf : f v b = (.ok w, [])) : (m >>= f) (a ++ b) = (.ok w, []) := by
  rw [bind_of_ok (hm b), hf]

theorem reads_last {α β : Type} {m : DecoderM α} {f : α → DecoderM β} {a : List U8} {v : α} {w : β}
    (hm : Reads m a v) (hf : f v [] = (.ok w, [])) : (m >>= f) a = (.ok w, []) := by
  have h := reads_then hm hf
  rwa [List.append_nil] at h

variable {limits : Bgp.Limits} {source : String} {capture : Vector U8 32} {session : U64}

theorem readsBack_message {bytes : EvidenceBytes} {metadata : PcapMetadata} {body : List U8}
    (hword : limits.inputBytes < wordBound)
    (ha : Admitted limits source capture session bytes metadata)
    (hd : (Record.message session bytes metadata).Directed)
    (hr : (Record.message session bytes metadata).InWords)
    (h : Encoder.message session bytes metadata = .ok body) :
    ∃ record, Same (.message session bytes metadata) record ∧
      ReadsBack limits source capture (MESSAGE, body) record := by
  obtain ⟨out, hread, hod, hov⟩ := reads_message (d := ⟨body.length, limits⟩) hword ha hd hr.1 hr.2 h
  refine ⟨.message session out metadata, .message hod hov, ?_⟩
  rintro j header frame rfl rfl rfl hkind rfl
  rw [Source.decodeBody, if_pos hkind]
  exact reads_last hread rfl

theorem decodeBoundary_ok {d : Decoder} {recordId reason : String} {a b : List U8}
    (ha : Encoder.text recordId = .ok a) (hb : Encoder.text reason = .ok b)
    (hrecord : checkText recordId d.limits "bgp_journal_record_id" = .ok ())
    (hreason : checkText reason d.limits "bgp_journal_reason" = .ok ()) :
    Source.decodeBoundary d (u64 session ++ (a ++ b)) = (.ok (session, recordId, reason), []) :=
  reads_then (reads_u64 session)
    (reads_then (reads_text ha hrecord _) (reads_last (reads_text hb hreason _) rfl))

theorem readsBack_boundary {recordId reason : String} {a b : List U8} {kind : U8} {record : Record}
    (hkind : kind = GAP ∧ record = .gap session recordId reason ∨
      kind = RESET ∧ record = .reset session recordId reason)
    (ha : Encoder.text recordId = .ok a) (hb : Encoder.text reason = .ok b)
    (hrecord : checkText recordId limits "bgp_journal_record_id" = .ok ())
    (hreason : checkText reason limits "bgp_journal_reason" = .ok ()) :
    ReadsBack limits source capture (kind, u64 session ++ (a ++ b)) record := by
  rintro j header frame rfl rfl rfl hframe hbody
  dsimp only at hframe
  have hboundary : Source.decodeBoundary ⟨frame.body.length, j.limits⟩ (u64 session ++ (a ++ b)) =
      (.ok (session, recordId, reason), []) := decodeBoundary_ok ha hb hrecord hreason
  rw [← show frame.body = u64 session ++ (a ++ b) from hbody] at hboundary
  obtain ⟨rfl, rfl⟩ | ⟨rfl, rfl⟩ := hkind
  · rw [Source.decodeBody, if_neg (by rw [hframe]; decide), if_pos hframe, bind_of_ok hboundary]
    rfl
  · rw [Source.decodeBody, if_neg (by rw [hframe]; decide), if_neg (by rw [hframe]; decide),
      if_pos hframe, bind_of_ok hboundary]
    rfl

theorem readsBack_endSession :
    ReadsBack limits source capture (END, u64 session) (.endSession session) := by
  rintro j header frame rfl rfl rfl hframe hbody
  dsimp only at hframe
  rw [Source.decodeBody, if_neg (by rw [hframe]; decide), if_neg (by rw [hframe]; decide),
    if_neg (by rw [hframe]; decide), if_pos hframe, show frame.body = u64 session from hbody]
  exact reads_last (reads_u64 session) rfl

theorem readsBack_clear : ReadsBack limits source capture (CLEAR, []) .clear := by
  rintro j header frame rfl rfl rfl hframe hbody
  dsimp only at hframe
  rw [Source.decodeBody, if_neg (by rw [hframe]; decide), if_neg (by rw [hframe]; decide),
    if_neg (by rw [hframe]; decide), if_neg (by rw [hframe]; decide), if_pos hframe,
    show frame.body = [] from hbody]
  rfl

end Records

namespace JournalWriter

variable {w : JournalWriter}

/-- What a call leaves behind that succeeded. -/
def Stored (sha256 : List U8 → Digest) (w : JournalWriter) (record : Record) (t : JournalWriter) :
    Prop :=
  ∃ x : Written, t = w.push sha256 x ∧ w.Admits x ∧ x.1 ≠ SEAL ∧ ∃ back, Same record back ∧
    ReadsBack w.limits w.sourceId w.captureNamespace x back

theorem boundary_sat (h : Counted w) {kind : U8} {session : U64} {recordId reason : String}
    {record : Record} (hkind : kind = GAP ∧ record = .gap session recordId reason ∨
      kind = RESET ∧ record = .reset session recordId reason) :
    Sat (boundary sha256 kind session recordId reason) w (fun _ t => Stored sha256 w record t)
      (fun _ t => t = w) := by
  refine sat_read_bind (sat_lift_bind (fun _ hrecord => ?_) fun _ _ => rfl)
  refine sat_lift_bind (fun _ hreason => ?_) fun _ _ => rfl
  refine sat_lift_bind (fun a ha => ?_) fun _ _ => rfl
  refine sat_lift_bind (fun b hb => ?_) fun _ _ => rfl
  refine (append_sat h kind _).mono ?_ fun _ _ ht => ht
  rintro - t ⟨rfl, hadmits⟩
  refine ⟨_, rfl, hadmits, ?_, record, .refl record,
    readsBack_boundary hkind ha hb hrecord hreason⟩
  obtain ⟨rfl, -⟩ | ⟨rfl, -⟩ := hkind
  · simp [GAP, SEAL]
  · simp [RESET, SEAL]

theorem message_sat (h : Counted w) (hword : w.limits.inputBytes < wordBound) {session : U64}
    {bytes : EvidenceBytes} {metadata : PcapMetadata}
    (hd : (Record.message session bytes metadata).Directed)
    (hr : (Record.message session bytes metadata).InWords) :
    Sat (message sha256 session bytes metadata) w
      (fun _ t => Stored sha256 w (.message session bytes metadata) t) (fun _ t => t = w) := by
  refine sat_read_bind (sat_ite (fun _ => sat_fail rfl) fun hscope => ?_)
  refine sat_ite (fun _ => sat_fail rfl) fun hbytes => ?_
  refine sat_lift_bind (fun _ hrecord => ?_) fun _ _ => rfl
  refine sat_lift_bind (fun _ hpeer => ?_) fun _ _ => rfl
  refine sat_lift_bind (fun _ hlocal => ?_) fun _ _ => rfl
  refine sat_lift_bind (fun body hbody => ?_) fun _ _ => rfl
  refine (append_sat h MESSAGE body).mono ?_ fun _ _ ht => ht
  rintro - t ⟨rfl, hadmits⟩
  push Not at hscope
  simp only [Bool.or_eq_true, Bool.not_eq_true', decide_eq_true_eq, List.any_eq_true, not_or,
    not_exists, not_and, not_not, Bool.not_eq_false, not_lt] at hbytes
  obtain ⟨⟨⟨⟨hvalid, hempty⟩, hsize⟩, hspans⟩, hcapture⟩ := hbytes
  have hadmitted : Admitted w.limits w.sourceId w.captureNamespace session bytes metadata := {
    source := hscope.1
    session := hscope.2
    valid := (EvidenceBytes.validate_iff bytes).1 hvalid
    nonempty := by simpa [EvidenceBytes.isEmpty] using hempty
    size := hsize
    spans := hspans
    capture := hcapture
    recordId := hrecord
    peer := hpeer
    localName := hlocal }
  obtain ⟨back, hsame, hback⟩ := readsBack_message hword hadmitted hd hr hbody
  exact ⟨_, rfl, hadmits, by simp [MESSAGE, SEAL], back, hsame, hback⟩

variable (sha256) in
theorem write_sat (h : Counted w) (hword : w.limits.inputBytes < wordBound) {record : Record}
    (hd : record.Directed) (hr : record.InWords) :
    Sat (write sha256 record) w (fun _ t => Stored sha256 w record t) (fun _ t => t = w) := by
  cases record with
  | message session bytes metadata => exact message_sat h hword hd hr
  | gap session recordId reason => exact boundary_sat h (.inl ⟨rfl, rfl⟩)
  | reset session recordId reason => exact boundary_sat h (.inr ⟨rfl, rfl⟩)
  | endSession session =>
    refine (append_sat h END _).mono ?_ fun _ _ ht => ht
    rintro - t ⟨rfl, hadmits⟩
    exact ⟨_, rfl, hadmits, by simp [END, SEAL], _, .refl _, readsBack_endSession⟩
  | clear =>
    refine (append_sat h CLEAR _).mono ?_ fun _ _ ht => ht
    rintro - t ⟨rfl, hadmits⟩
    exact ⟨_, rfl, hadmits, by simp [CLEAR, SEAL], _, .refl _, readsBack_clear⟩

end JournalWriter

end PcapEvidence.Bgp.Store
