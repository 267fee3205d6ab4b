import PcapEvidence.HistoryJournal
import PcapEvidence.Sha256

/-!
# Journals read back

`Frames` is the shape of the bytes behind a journal header: records one after the other, each with
the hash of its predecessor. The writer only ever appends a frame, and the reader walks a chain of
frames, so the whole file and every cut of it read back as far as they go.
-/

namespace PcapEvidence.History

open Method ByteCodec IterTrace

variable (sha256 : List U8 → Digest)

def lengthField (body : List U8) : List U8 := Encoder.u32 (BitVec.ofNat 32 (body.length + 9))

def frameDigest (previous : Digest) (count : ℕ) (kind : U8) (body : List U8) : Digest :=
  chainHash sha256 previous (lengthField body) (Writer.payloadOf kind (count + 1) body)

def frame (previous : Digest) (count : ℕ) (kind : U8) (body : List U8) : List U8 :=
  lengthField body ++ (Writer.payloadOf kind (count + 1) body ++
    (frameDigest sha256 previous count kind body).toList)

/-- Records one behind the other; only the last one can be terminal. -/
inductive Frames (c : Config) : Digest → ℕ → ℕ → List Record → List U8 → Prop
  | nil (previous : Digest) (count position : ℕ) : Frames c previous count position [] []
  | cons {previous : Digest} {count position : ℕ} {kind : U8} {body : List U8}
      {records : List Record} {bytes : List U8} (hkind : kind ∈ recordKinds)
      (hlen : body.length + 9 ≤ c.maxRecordBytes) (hcount : count < c.maxRecords.toNat)
      (hposition : position + (body.length + 45) < wordBound)
      (hlast : kind = ABORT ∨ kind = SEAL → records = [])
      (hrest : Frames c (frameDigest sha256 previous count kind body) (count + 1)
        (position + (body.length + 45)) records bytes) :
      Frames c previous count position
        (⟨kind, count + 1, body, position, frameDigest sha256 previous count kind body⟩ :: records)
        (frame sha256 previous count kind body ++ bytes)

section Frame

variable {sha256} {previous : Digest} {count : ℕ} {kind : U8} {body : List U8}

@[simp] theorem length_lengthField (body : List U8) : (lengthField body).length = 4 := by
  simp [lengthField, Encoder.u32]

@[simp] theorem length_payloadOf (kind : U8) (seq : ℕ) (body : List U8) :
    (Writer.payloadOf kind seq body).length = body.length + 9 := by
  simp [Writer.payloadOf, Encoder.u8, Encoder.u64]
  omega

@[simp] theorem length_frame :
    (frame sha256 previous count kind body).length = body.length + 45 := by
  simp [frame]
  omega

theorem leNat_lengthField {c : Config} (hc : c.Valid) (h : body.length + 9 ≤ c.maxRecordBytes) :
    leNat (lengthField body) = body.length + 9 := by
  obtain ⟨-, -, -, hmax, -⟩ := hc
  have hword : body.length + 9 < 2 ^ 32 := by omega
  rw [lengthField, Encoder.u32, leNat_leBytes, BitVec.toNat_ofNat, Nat.mod_eq_of_lt hword,
    Nat.mod_eq_of_lt (by omega)]

theorem decodeTag_payloadOf {seq : ℕ} (hseq : seq < 2 ^ 64) :
    Decoder.run Reader.decodeTag (Writer.payloadOf kind seq body) = .ok (kind, seq, body) := by
  have hnat : (BitVec.ofNat 64 seq).toNat = seq := by
    rw [BitVec.toNat_ofNat, Nat.mod_eq_of_lt hseq]
  rw [Decoder.run, Reader.decodeTag, Writer.payloadOf, List.append_assoc,
    bind_of_ok (reads_u8 kind _), bind_of_ok (reads_u64 _ _), read_bind, hnat]
  rfl

theorem decodeRest_body : Decoder.run (Reader.decodeRest body.length) body = .ok body := by
  rw [Decoder.run, Reader.decodeRest, bind_of_ok (run_of_reads (reads_take body))]
  rfl

end Frame

namespace Reader

variable {kind : U8} {body : List U8}

def reading (r : Reader) (unread : List U8) : Reader := { r with unread := unread }

theorem reading_position (r : Reader) (unread : List U8) :
    (r.reading unread).position = r.position := rfl

variable {r : Reader} {a b : List U8} {n : ℕ}

theorem exact_append (hn : a.length = n) : exact n (r.reading (a ++ b)) = (.ok a, r.reading b) := by
  have hle : n ≤ (r.reading (a ++ b)).unread.length := by
    rw [reading, List.length_append]
    omega
  rw [exact, History.exact, if_pos hle, reading, List.take_left' hn, List.drop_left' hn]
  rfl

theorem exact_short (h : a.length < n) :
    exact n (r.reading a) = (.error partialField, r.reading []) := by
  have hlt : ¬ n ≤ (r.reading a).unread.length := Nat.not_le.2 h
  rw [exact, History.exact, if_neg hlt]
  rfl

/-- A reader between two records, none of them terminal. -/
structure Running (r : Reader) : Prop where
  valid : r.header.config.Valid
  running : r.sealed = false ∧ r.aborted = false ∧ r.ended = false

def advance (r : Reader) (record : Record) (unread : List U8) : Reader :=
  { r with
    unread := unread
    position := record.offset + (record.body.length + 45)
    count := record.sequence
    previous := record.digest
    sealed := record.kind = SEAL
    aborted := record.kind = ABORT }

variable {sha256}

theorem next_of_readRecord_ok {t : Reader} {record : Record}
    (h : readRecord sha256 r = (.ok (some record), t)) : next sha256 r = (some (.ok record), t) := by
  rw [next, nextRecord, h]

theorem next_of_readRecord_error {t : Reader} {e : Error}
    (h : readRecord sha256 r = (.error e, t)) :
    next sha256 r = (some (.error e), { t with ended := true }) := by
  rw [next, nextRecord, h]

theorem Running.readRecord_cons (h : r.Running) (first : U8) (unread : List U8) :
    readRecord sha256 (r.reading (first :: unread)) = (do
      let rest ← exact 3
      let record ← readBody sha256 (first :: rest)
      pure (some record) : Method Reader Error (Option Record)) (r.reading unread) := by
  obtain ⟨hsealed, haborted, hended⟩ := h.running
  have hopen : ¬ ((r.reading (first :: unread)).ended = true) := by simp [reading, hended]
  have hgoing : ¬ ((r.reading (first :: unread)).sealed = true ∨
      (r.reading (first :: unread)).aborted = true) := by
    simp [reading, hsealed, haborted]
  rw [Reader.readRecord, read_bind, if_neg hopen]
  change (do
    update (fun r => r.reading unread)
    if (r.reading (first :: unread)).sealed ∨ (r.reading (first :: unread)).aborted then _
    else _ : Method Reader Error (Option Record)) _ = _
  rw [update_bind, if_neg hgoing]
  rfl

structure Framed (r : Reader) (kind : U8) (body : List U8) : Prop where
  kind : kind ∈ recordKinds
  length : body.length + 9 ≤ r.header.config.maxRecordBytes
  count : r.count < r.header.config.maxRecords.toNat
  position : r.position + (body.length + 45) < wordBound

def recordAt (sha256 : List U8 → Digest) (r : Reader) (kind : U8) (body : List U8) : Record :=
  ⟨kind, r.count + 1, body, r.position, frameDigest sha256 r.previous r.count kind body⟩

theorem readBody_framed (hc : r.header.config.Valid)
    (hframed : r.Framed kind body) (rest : List U8) :
    readBody sha256 (lengthField body) (r.reading (Writer.payloadOf kind (r.count + 1) body ++
      ((frameDigest sha256 r.previous r.count kind body).toList ++ rest))) =
      (.ok (recordAt sha256 r kind body), r.advance (recordAt sha256 r kind body) rest) := by
  obtain ⟨hkind, hlen, hcount, hposition⟩ := hframed
  have hseq : r.count + 1 < 2 ^ 64 := by
    obtain ⟨-, -, hrecords, -⟩ := hc
    omega
  rw [readBody, read_bind]
  simp only [leNat_lengthField hc hlen]
  rw [if_neg (by simp only [reading]; omega), bind_of_ok (exact_append (length_payloadOf _ _ _)),
    bind_of_ok (exact_append (by simp)), if_neg (by simp [frameDigest, reading]),
    lift_bind (decodeTag_payloadOf hseq), if_neg (by simp [hkind, reading]),
    show body.length + 9 - 9 = body.length by omega, lift_bind decodeRest_body,
    show body.length + 9 + 36 = body.length + 45 by omega, reading_position,
    lift_bind (okOr_eq_ok_iff.2 (checkedAdd_of_lt hposition))]
  rfl

theorem Running.next_frame (h : r.Running) (sha256 : List U8 → Digest) (hframed : r.Framed kind body) (rest : List U8) :
    next sha256 (r.reading (frame sha256 r.previous r.count kind body ++ rest)) =
      (some (.ok (recordAt sha256 r kind body)), r.advance (recordAt sha256 r kind body) rest) := by
  apply next_of_readRecord_ok
  obtain ⟨first, three, hfield, hthree⟩ : ∃ first three, lengthField body = first :: three ∧
      three.length = 3 := ⟨_, _, rfl, rfl⟩
  rw [frame, hfield, List.cons_append, List.cons_append, List.append_assoc, List.append_assoc,
    h.readRecord_cons, bind_of_ok (exact_append hthree), ← hfield]
  exact bind_of_ok (readBody_framed h.valid hframed rest) _

theorem Running.next_torn (h : r.Running) (sha256 : List U8 → Digest) {m : ℕ} (hframed : r.Framed kind body) (hpos : 0 < m) (hshort : m < body.length + 45) :
    ∃ t, next sha256 (r.reading ((frame sha256 r.previous r.count kind body).take m)) =
      (some (.error partialField), t) ∧ t.ended = true := by
  obtain ⟨first, three, hfield, hthree⟩ : ∃ first three, lengthField body = first :: three ∧
      three.length = 3 := ⟨_, _, rfl, rfl⟩
  obtain ⟨k, rfl⟩ : ∃ k, m = k + 1 := ⟨m - 1, by omega⟩
  refine ⟨_, next_of_readRecord_error (e := partialField) (t := r.reading []) ?_, rfl⟩
  rw [frame, hfield, List.cons_append, List.take_succ_cons, List.take_append, h.readRecord_cons]
  by_cases hk : k < 3
  · refine bind_of_error (exact_short ?_) _
    simp only [List.length_append, List.length_take]
    omega
  have hlength := hframed.length
  have hcount := hframed.count
  rw [List.take_of_length_le (by omega), bind_of_ok (exact_append hthree), ← hfield, hthree]
  refine bind_of_error ?_ _
  rw [readBody, read_bind]
  simp only [leNat_lengthField h.valid hframed.length]
  rw [if_neg (by simp only [reading]; omega), List.take_append]
  by_cases hpayload : k - 3 < body.length + 9
  · refine bind_of_error (exact_short ?_) _
    simp only [List.length_append, List.length_take, length_payloadOf]
    omega
  · rw [List.take_of_length_le (by rw [length_payloadOf]; omega),
      bind_of_ok (exact_append (length_payloadOf _ _ _))]
    refine bind_of_error (exact_short ?_) _
    simp only [List.length_take, length_payloadOf, Vector.length_toList]
    omega

theorem drains_nil (hended : r.ended = false) : Drains (next sha256) (r.reading []) [] none := by
  have hnext : next sha256 (r.reading []) = (none, { r.reading [] with ended := true }) := by
    have hopen : ¬ ((r.reading []).ended = true) := by simp [reading, hended]
    rw [next, nextRecord, Reader.readRecord, read_bind, if_neg hopen]
    rfl
  refine .done (by rw [hnext]) ?_
  rw [hnext]
  exact silent_of_fixed rfl

theorem silent_of_ended (h : r.ended = true) : Silent (next sha256) r := by
  apply silent_of_fixed
  rw [next, nextRecord, Reader.readRecord, read_bind, if_pos h]
  rfl

end Reader

def Record.stop (r : Record) : ℕ := r.offset + (r.body.length + 45)

/-- The records that end inside the first `cut` bytes of the file. -/
def contained (cut : ℕ) (records : List Record) : List Record :=
  records.filter (fun r => r.stop ≤ cut)

variable {sha256} {c : Config} {previous : Digest} {count position : ℕ} {records : List Record}
  {bytes : List U8}
variable (h : Frames sha256 c previous count position records bytes)
include h

theorem Frames.stop_gt : ∀ x ∈ records, position + 45 ≤ x.stop := by
  induction h with
  | nil => simp
  | cons _ _ _ _ _ _ ih =>
    intro x hx
    rcases List.mem_cons.1 hx with rfl | hx
    · simp only [Record.stop]
      omega
    · have := ih x hx
      omega

theorem Frames.offset_ge : ∀ x ∈ records, position ≤ x.offset := by
  induction h with
  | nil => simp
  | cons _ _ _ _ _ _ ih =>
    intro x hx
    rcases List.mem_cons.1 hx with rfl | hx
    · exact le_rfl
    · have := ih x hx
      omega

theorem Frames.contained_eq_nil
    {cut : ℕ} (hcut : cut < position + 45) : contained cut records = [] := by
  rw [contained, List.filter_eq_nil_iff]
  intro x hx
  have := h.stop_gt x hx
  simp only [decide_eq_true_eq]
  omega

/-- The reader stands in front of a chain of frames. -/
structure Reader.Facing (r : Reader) (c : Config) (previous : Digest) (count position : ℕ)
    (records : List Record) : Prop where
  valid : c.Valid
  config : r.header.config = c
  previous : r.previous = previous
  count : r.count = count
  position : r.position = position
  ended : r.ended = false
  running : records ≠ [] → r.sealed = false ∧ r.aborted = false

/-- The reader yields the records inside the cut and ends cleanly at a record boundary only. -/
structure Reader.ReadsCut (sha256 : List U8 → Digest) (r : Reader) (records : List Record)
    (start cut : ℕ) : Prop where
  drains : Drains (next sha256) r (contained cut records)
    (if cut = start ∨ ∃ x ∈ records, x.stop = cut then none else some partialField)
  flags : ∀ (k : ℕ) (x : Record), (contained cut records)[k]? = some x →
    (after (next sha256) r (k + 1)).sealed = decide (x.kind = SEAL) ∧
      (after (next sha256) r (k + 1)).aborted = decide (x.kind = ABORT)

theorem Frames.readsCut {r : Reader}
    (hr : r.Facing c previous count position records) {m : ℕ} (hm : m ≤ bytes.length) :
    (r.reading (bytes.take m)).ReadsCut sha256 records position (position + m) := by
  induction h generalizing r m with
  | nil previous count position =>
    have hzero : m = 0 := by simpa using hm
    subst hzero
    refine ⟨?_, by simp [contained]⟩
    rw [if_pos (Or.inl (Nat.add_zero _))]
    exact Reader.drains_nil hr.ended
  | @cons previous count position kind body records bytes hkind hlen hcount hposition hlast hrest
      ih =>
      obtain ⟨hsealed, haborted⟩ := hr.running (by simp)
      obtain ⟨hvalid, rfl, rfl, rfl, rfl, hended, -⟩ := hr
      have hrun : r.Running := ⟨hvalid, hsealed, haborted, hended⟩
      have hframed : r.Framed kind body := ⟨hkind, hlen, hcount, hposition⟩
      by_cases hwhole : body.length + 45 ≤ m
      · obtain ⟨n, rfl⟩ : ∃ n, m = body.length + 45 + n := ⟨m - (body.length + 45), by omega⟩
        have htake : (frame sha256 r.previous r.count kind body ++ bytes).take
            (body.length + 45 + n) =
            frame sha256 r.previous r.count kind body ++ bytes.take n := by
          rw [← @length_frame sha256 r.previous r.count kind body, List.take_length_add_append]
        have hnext := hrun.next_frame sha256 hframed (bytes.take n)
        have hfacing : (r.advance (Reader.recordAt sha256 r kind body) bytes).Facing
            r.header.config (frameDigest sha256 r.previous r.count kind body) (r.count + 1)
            (r.position + (body.length + 45)) records := by
          refine ⟨hvalid, rfl, rfl, rfl, rfl, hended, fun hne => ?_⟩
          constructor
          · exact decide_eq_false fun hseal => hne (hlast (Or.inr hseal))
          · exact decide_eq_false fun habort => hne (hlast (Or.inl habort))
        have hbound : n ≤ bytes.length := by
          rw [List.length_append, length_frame] at hm
          omega
        have hsum : r.position + (body.length + 45 + n) = r.position + (body.length + 45) + n := by
          omega
        have hfirst : contained (r.position + (body.length + 45) + n)
            (Reader.recordAt sha256 r kind body :: records) =
            Reader.recordAt sha256 r kind body ::
              contained (r.position + (body.length + 45) + n) records := by
          rw [contained, List.filter_cons_of_pos]
          · rfl
          · simp [Record.stop, Reader.recordAt]
        have hstop : (r.position + (body.length + 45) + n = r.position ∨
            ∃ x ∈ Reader.recordAt sha256 r kind body :: records,
              x.stop = r.position + (body.length + 45) + n) ↔
            (r.position + (body.length + 45) + n = r.position + (body.length + 45) ∨
            ∃ x ∈ records, x.stop = r.position + (body.length + 45) + n) := by
          simp only [List.exists_mem_cons_iff, Record.stop, Reader.recordAt]
          have hne : ¬ r.position + (body.length + 45) + n = r.position := by omega
          constructor
          · rintro (h | h | h)
            · exact absurd h hne
            · exact Or.inl h.symm
            · exact Or.inr h
          · rintro (h | h)
            · exact Or.inr (Or.inl h.symm)
            · exact Or.inr (Or.inr h)
        obtain ⟨hdrains, hflags⟩ := ih hfacing hbound
        rw [htake, hsum]
        change Reader.ReadsCut sha256 _ (Reader.recordAt sha256 r kind body :: records) _ _
        constructor
        · rw [hfirst, if_congr hstop rfl rfl]
          refine .item (by rw [hnext]) ?_
          rw [hnext]
          exact hdrains
        · intro k x hx
          rw [hfirst] at hx
          rw [after, hnext]
          cases k with
          | zero =>
            cases hx
            exact ⟨rfl, rfl⟩
          | succ k => exact hflags k x hx
      · have hnil : contained (r.position + m) (Reader.recordAt sha256 r kind body :: records) =
            [] := by
          rw [contained, List.filter_cons_of_neg, ← contained, hrest.contained_eq_nil (by omega)]
          simp [Record.stop, Reader.recordAt]
          omega
        change Reader.ReadsCut sha256 _ (Reader.recordAt sha256 r kind body :: records) _ _
        refine ⟨?_, by simp [hnil]⟩
        rw [hnil, List.take_append_of_le_length (by rw [length_frame]; omega)]
        by_cases hzero : m = 0
        · subst hzero
          rw [if_pos (Or.inl (Nat.add_zero _)), List.take_zero]
          exact Reader.drains_nil hended
        · obtain ⟨t, hnext, ht⟩ :=
            hrun.next_torn sha256 hframed (m := m) (by omega) (by omega)
          rw [if_neg]
          · refine .failed (by rw [hnext]) ?_
            rw [hnext]
            exact Reader.silent_of_ended ht
          · rintro (h | ⟨x, hx, hstop⟩)
            · omega
            · rcases List.mem_cons.1 hx with rfl | hx
              · simp only [Record.stop, Reader.recordAt] at hstop
                omega
              · have := hrest.stop_gt x hx
                omega

omit h

section Header

variable {source : SourceIdentity} {header : List U8} {digest : Digest}

theorem decodeHeader_run (source : SourceIdentity) {encoded config : List U8}
    (hencoded : c.encode = .ok encoded)
    (hconfig : Encoder.bytes encoded = .ok config) :
    Decoder.run Reader.decodeHeader
      (Encoder.hash source.sha256 ++ Encoder.u64 source.bytes ++ config) = .ok (source, c) := by
  have hblob := run_of_reads (@reads_bytes _ _ 2048 hconfig
    (by rw [Config.length_encode hencoded]; omega))
  rw [Decoder.run, Reader.decodeHeader, List.append_assoc, bind_of_ok (reads_hash _ _),
    bind_of_ok (reads_u64 _ _), bind_of_ok hblob, lift_bind (Config.decode_encode hencoded)]
  rfl

def headerFront : List U8 := MAGIC ++ Encoder.u32 207

theorem headerBytes_ok (h : headerBytes sha256 source c = .ok (header, digest)) :
    c.Valid ∧ ∃ body, body.length = 207 ∧
      Decoder.run Reader.decodeHeader body = .ok (source, c) ∧
      header = headerFront ++ (body ++ digest.toList) ∧ digest = sha256 (headerFront ++ body) := by
  obtain ⟨encoded, hencoded, h⟩ := bind_eq_ok.1 h
  obtain ⟨config, hconfig, h⟩ := bind_eq_ok.1 h
  have hlen : (Encoder.hash source.sha256 ++ Encoder.u64 source.bytes ++ config).length = 207 := by
    obtain ⟨-, rfl⟩ := bytes_ok hconfig
    simp [Encoder.hash, Encoder.u64, Encoder.u32, Config.length_encode hencoded]
  have hrun := decodeHeader_run source hencoded hconfig
  dsimp only at h
  rw [hlen] at h
  cases h
  refine ⟨(Config.encode_ok hencoded).1, _, hlen, hrun, ?_, rfl⟩
  rw [← List.append_assoc]
  rfl

def Reader.opened (contents unread : List U8) (header : Header) : Reader where
  contents := contents
  unread := unread
  header := header
  count := 0
  position := header.bytes
  previous := header.digest
  sealed := false
  aborted := false
  ended := false

theorem exact_ok {a b : List U8} {n : ℕ} (hn : a.length = n) :
    History.exact n (a ++ b) = (.ok a, b) := by
  rw [History.exact, if_pos (by rw [List.length_append]; omega), List.take_left' hn,
    List.drop_left' hn]

theorem Reader.open_header (h : headerBytes sha256 source c = .ok (header, digest))
    (hsource : source.bytes.toNat ≤ c.maxSourceBytes.toNat) (rest : List U8) :
    Reader.open sha256 (header ++ rest) =
      .ok (opened (header ++ rest) rest ⟨source, c, digest, 251⟩) := by
  obtain ⟨-, body, hlen, hrun, rfl, hdigest⟩ := headerBytes_ok h
  have hfront : headerFront.length = 12 := by decide
  have hmagic : headerFront.take 8 = MAGIC := by decide
  have hsize : leNat (headerFront.drop 8) = 207 := by decide
  rw [Reader.open, openM]
  generalize hcontents : headerFront ++ (body ++ digest.toList) ++ rest = contents
  rw [← hcontents, List.append_assoc, List.append_assoc, bind_of_ok (exact_ok hfront),
    if_neg (by simp [hmagic])]
  simp only [hsize]
  rw [if_neg (by omega), bind_of_ok (exact_ok hlen), bind_of_ok (exact_ok (by simp)),
    if_neg (by simp [← hdigest]), lift_bind hrun]
  simp only
  rw [if_neg (by omega), ← hdigest]
  rfl

theorem length_header (h : headerBytes sha256 source c = .ok (header, digest)) :
    header.length = 251 := by
  obtain ⟨-, body, hlen, -, rfl, -⟩ := headerBytes_ok h
  have hfront : headerFront.length = 12 := by decide
  rw [List.length_append, List.length_append, hlen, hfront, Vector.length_toList]

end Header
variable (h : Frames sha256 c previous count position records bytes)
include h

theorem Frames.stop_le : ∀ x ∈ records, x.stop ≤ position + bytes.length := by
  induction h with
  | nil => simp
  | cons _ _ _ _ _ _ ih =>
    intro x hx
    rw [List.length_append, length_frame]
    rcases List.mem_cons.1 hx with rfl | hx
    · simp only [Record.stop]
      omega
    · have := ih x hx
      omega

theorem Frames.boundary :
    position + bytes.length = position ∨ ∃ x ∈ records, x.stop = position + bytes.length := by
  induction h with
  | nil => exact Or.inl rfl
  | @cons previous count position kind body records bytes _ _ _ _ _ _ ih =>
    rw [List.length_append, length_frame]
    refine Or.inr ?_
    rcases ih with hnil | ⟨x, hx, hstop⟩
    · refine ⟨_, List.mem_cons_self, ?_⟩
      simp only [Record.stop]
      omega
    · refine ⟨x, List.mem_cons_of_mem _ hx, ?_⟩
      omega

theorem Frames.contained_all : contained (position + bytes.length) records = records := by
  rw [contained, List.filter_eq_self]
  intro x hx
  exact decide_eq_true (h.stop_le x hx)

structure Located (sha256 : List U8 → Digest) (c : Config) (file : List U8) (x : Record) : Prop where
  length : x.body.length + 9 ≤ c.maxRecordBytes
  sequence : x.sequence < 2 ^ 64
  place : ∃ front previous count rest, front.length + 32 = x.offset ∧ count + 1 = x.sequence ∧
    x.digest = frameDigest sha256 previous count x.kind x.body ∧
    file = front ++ (previous.toList ++ (frame sha256 previous count x.kind x.body ++ rest))

theorem Frames.located (hc : c.Valid) {front : List U8} (hfront : front.length + 32 = position) :
    ∀ x ∈ records, Located sha256 c (front ++ (previous.toList ++ bytes)) x := by
  induction h generalizing front with
  | nil => simp
  | @cons previous count position kind body records bytes hkind hlen hcount hposition hlast hrest
      ih =>
      intro x hx
      rcases List.mem_cons.1 hx with rfl | hx
      · refine ⟨hlen, ?_, front, previous, count, bytes, hfront, rfl, rfl, rfl⟩
        obtain ⟨-, -, hrecords, -⟩ := hc
        simp only
        omega
      · -- the frame before it ends with the digest that the next one binds
        have hstart : (front ++ (previous.toList ++ (lengthField body ++
            Writer.payloadOf kind (count + 1) body))).length + 32 =
            position + (body.length + 45) := by
          simp
          omega
        have hlocated := ih hstart x hx
        have hfile : front ++ (previous.toList ++ (frame sha256 previous count kind body ++ bytes)) =
            front ++ (previous.toList ++ (lengthField body ++
              Writer.payloadOf kind (count + 1) body)) ++
              ((frameDigest sha256 previous count kind body).toList ++ bytes) := by
          simp only [frame, List.append_assoc]
        rw [hfile]
        exact hlocated

omit h

theorem Reader.indexed_located {r : Reader} (hc : r.header.config.Valid) {x : Record}
    (h : Located sha256 r.header.config r.contents x) (hoffset : r.header.bytes ≤ x.offset) :
    (indexed sha256 x.offset x.digest r).1 = .ok x := by
  obtain ⟨hlen, hseq, front, previous, count, rest, hplace, hcount, hdigest, hfile⟩ := h
  have hdrop : r.contents.drop (x.offset - 32) = previous.toList ++ (lengthField x.body ++
      (Writer.payloadOf x.kind (count + 1) x.body ++ (x.digest.toList ++ rest))) := by
    rw [hfile, List.drop_left' (by omega), hdigest]
    simp only [frame, List.append_assoc]
  have htake : Decoder.run (Decoder.take x.body.length) x.body = .ok x.body :=
    congrArg Prod.fst (run_of_reads (reads_take x.body))
  rw [indexed, read_bind, if_neg (by omega), update_bind]
  rw [show ({ r with unread := r.contents.drop (x.offset - 32) } : Reader) =
    r.reading (r.contents.drop (x.offset - 32)) from rfl, hdrop,
    bind_of_ok (exact_append (by simp)), bind_of_ok (exact_append (length_lengthField _))]
  simp only [leNat_lengthField hc hlen]
  rw [if_neg (by omega), bind_of_ok (exact_append (length_payloadOf _ _ _)),
    bind_of_ok (exact_append (by simp)), if_neg (by simp),
    if_neg (by rw [hdigest]; simp [frameDigest, chainHash]),
    lift_bind (decodeTag_payloadOf (by omega)), show x.body.length + 9 - 9 = x.body.length by omega,
    lift_bind htake, hcount]
  rfl

namespace Writer

variable {calls : List AppendCall} {receipts : List (ℕ × Digest)} {source : SourceIdentity}
    {quota : DiskBudget}
variable {w w' : Writer}

structure Appended (sha256 : List U8 → Digest) (w : Writer) (kind : U8) (body : List U8)
    (out : ℕ × Digest) (w' : Writer) : Prop where
  running : w.terminal = false
  known : kind ∈ recordKinds
  length : body.length + 9 ≤ w.header.config.maxRecordBytes
  records : w.count < w.header.config.maxRecords.toNat
  room : w.position + (body.length + 45) < wordBound
  receipt : out = (w.position, frameDigest sha256 w.previous w.count kind body)
  file : w'.file = w.file ++ frame sha256 w.previous w.count kind body
  header : w'.header = w.header
  count : w'.count = w.count + 1
  position : w'.position = w.position + (body.length + 45)
  previous : w'.previous = frameDigest sha256 w.previous w.count kind body
  closed : w'.terminal = decide (kind = ABORT ∨ kind = SEAL)

theorem charge_ok {n : ℕ} {u : Unit} (h : charge n w = (.ok u, w')) :
    ∃ quota, w' = { w with quota := quota } := by
  rw [charge] at h
  rcases hq : DiskBudget.charge n w.quota with ⟨out, quota⟩
  rw [hq] at h
  exact ⟨quota, (congrArg Prod.snd h).symm⟩

theorem append_ok {kind : U8} {body : List U8} {out : ℕ × Digest}
    (h : append sha256 kind body w = (.ok out, w')) : Appended sha256 w kind body out w' := by
  rw [append] at h
  by_cases hclosed : w.poisoned = true ∨ w.terminal = true
  · rw [if_pos hclosed] at h
    cases h
  rw [if_neg hclosed] at h
  rcases hwrite : writeRecord sha256 kind body w with ⟨result, t⟩
  rw [hwrite] at h
  cases result with
  | error e => cases h
  | ok out =>
    cases h
    rw [writeRecord, read_bind] at hwrite
    obtain ⟨hkind, hwrite⟩ := guard_ok hwrite
    obtain ⟨len, hlen, hwrite⟩ := lift_bind_ok hwrite
    obtain ⟨-, rfl⟩ := (checkedAdd_eq_some_iff _ _ _).1 (okOr_eq_ok_iff.1 hlen)
    obtain ⟨hlimits, hwrite⟩ := guard_ok hwrite
    obtain ⟨seq, hseq, hwrite⟩ := lift_bind_ok hwrite
    obtain ⟨-, rfl⟩ := (checkedAdd_eq_some_iff _ _ _).1 (okOr_eq_ok_iff.1 hseq)
    obtain ⟨total, htotal, hwrite⟩ := lift_bind_ok hwrite
    obtain ⟨-, rfl⟩ := (checkedAdd_eq_some_iff _ _ _).1 (okOr_eq_ok_iff.1 htotal)
    obtain ⟨⟨⟩, t₁, hcharge, hwrite⟩ := bind_ok hwrite
    obtain ⟨quota, rfl⟩ := charge_ok hcharge
    rw [update_bind] at hwrite
    obtain ⟨next, hnext, hwrite⟩ := lift_bind_ok hwrite
    obtain ⟨hroom, rfl⟩ := (checkedAdd_eq_some_iff _ _ _).1 (okOr_eq_ok_iff.1 hnext)
    cases hwrite
    push Not at hclosed hlimits
    refine ⟨by simpa using hclosed.2, not_not.1 hkind, hlimits.1, hlimits.2, hroom, rfl, ?_, rfl,
      rfl, rfl, rfl, rfl⟩
    simp only [List.append_assoc]
    rfl

structure AppendCall where
  kind : U8
  body : List U8

/-- One append after the other, up to the first that fails, with what they return. -/
def appendAll (sha256 : List U8 → Digest) :
    List AppendCall → Method Writer Error (List (ℕ × Digest))
  | [] => pure []
  | a :: rest => do
    let receipt ← append sha256 a.kind a.body
    let receipts ← appendAll sha256 rest
    pure (receipt :: receipts)

/-- The records of appends and their receipts, numbered behind `n`. -/
def recordsOf (n : ℕ) : List AppendCall → List (ℕ × Digest) → List Record
  | a :: calls, receipt :: receipts =>
    ⟨a.kind, n + 1, a.body, receipt.1, receipt.2⟩ :: recordsOf (n + 1) calls receipts
  | _, _ => []

theorem appendAll_of_terminal
    (hterminal : w.terminal = true) (h : appendAll sha256 calls w = (.ok receipts, w')) :
    calls = [] := by
  cases calls with
  | nil => rfl
  | cons a rest =>
    obtain ⟨receipt, t, hone, -⟩ := bind_ok h
    have hrunning := (append_ok hone).running
    rw [hterminal] at hrunning
    cases hrunning

theorem appendAll_length
    (h : appendAll sha256 calls w = (.ok receipts, w')) : receipts.length = calls.length := by
  induction calls generalizing w receipts with
  | nil =>
    cases h
    rfl
  | cons a rest ih =>
    obtain ⟨receipt, t, -, h⟩ := bind_ok h
    obtain ⟨receipts, u, hrest, h⟩ := bind_ok h
    cases h
    rw [List.length_cons, List.length_cons, ih hrest]

theorem appendAll_frames (h : appendAll sha256 calls w = (.ok receipts, w')) :
    ∃ bytes, w'.file = w.file ++ bytes ∧ w'.header = w.header ∧
      Frames sha256 w.header.config w.previous w.count w.position
        (recordsOf w.count calls receipts) bytes := by
  induction calls generalizing w receipts with
  | nil =>
    cases h
    exact ⟨[], (List.append_nil _).symm, rfl, .nil _ _ _⟩
  | cons a rest ih =>
    obtain ⟨receipt, t, hone, h⟩ := bind_ok h
    obtain ⟨receipts, u, hrest, h⟩ := bind_ok h
    cases h
    have happended := append_ok hone
    obtain ⟨bytes, hfile, hheader, hframes⟩ := ih hrest
    rw [happended.header, happended.previous, happended.count, happended.position] at hframes
    have hlast : a.kind = ABORT ∨ a.kind = SEAL → recordsOf (w.count + 1) rest receipts = [] := by
      intro hkind
      have hnil := appendAll_of_terminal (by rw [happended.closed]; exact decide_eq_true hkind)
        hrest
      rw [hnil, recordsOf]
      simp
    refine ⟨frame sha256 w.previous w.count a.kind a.body ++ bytes, ?_,
      hheader.trans happended.header, ?_⟩
    · rw [hfile, happended.file, List.append_assoc]
    · rw [happended.receipt]
      exact .cons happended.known happended.length happended.records happended.room hlast hframes

theorem create_ok (h : create sha256 source c quota = .ok w) :
    headerBytes sha256 source c = .ok (w.file, w.previous) ∧
      w.header = ⟨source, c, w.previous, w.file.length⟩ ∧ w.count = 0 ∧
      w.position = w.file.length := by
  obtain ⟨⟨⟩, -, h⟩ := bind_eq_ok.1 h
  obtain ⟨out, hout, h⟩ := bind_eq_ok.1 h
  rcases hcharge : DiskBudget.charge out.1.length quota with ⟨result, q⟩
  simp only [hcharge] at h
  cases result with
  | error e => cases h
  | ok u =>
    cases h
    exact ⟨hout, rfl, rfl, rfl⟩

theorem reads_cut {w₀ : Writer} {bytes : List U8}
    {records : List Record} (hcreate : create sha256 source c quota = .ok w₀)
    (hsource : source.bytes.toNat ≤ c.maxSourceBytes.toNat)
    (hframes : Frames sha256 c w₀.previous 0 w₀.file.length records bytes) {cut : ℕ}
    (hlow : w₀.file.length ≤ cut) (hhigh : cut ≤ (w₀.file ++ bytes).length) :
    ∃ r, Reader.open sha256 ((w₀.file ++ bytes).take cut) = .ok r ∧
      r.ReadsCut sha256 records w₀.file.length cut := by
  obtain ⟨hheader, -, -, -⟩ := create_ok hcreate
  have hvalid := (headerBytes_ok hheader).1
  have hlen := length_header hheader
  obtain ⟨m, rfl⟩ : ∃ m, cut = w₀.file.length + m := ⟨cut - w₀.file.length, by omega⟩
  rw [List.length_append] at hhigh
  rw [List.take_length_add_append]
  refine ⟨_, Reader.open_header hheader hsource _, ?_⟩
  exact hframes.readsCut (r := Reader.opened (w₀.file ++ bytes.take m) (bytes.take m)
    ⟨source, c, w₀.previous, 251⟩) ⟨hvalid, rfl, rfl, rfl, hlen.symm, rfl,
      fun _ => ⟨rfl, rfl⟩⟩ (by omega)

theorem reads_whole {w₀ : Writer} {bytes : List U8}
    {records : List Record} (hcreate : create sha256 source c quota = .ok w₀)
    (hsource : source.bytes.toNat ≤ c.maxSourceBytes.toNat)
    (hframes : Frames sha256 c w₀.previous 0 w₀.file.length records bytes) :
    ∃ r, Reader.open sha256 (w₀.file ++ bytes) = .ok r ∧
      Drains (Reader.next sha256) r records none ∧
      ∀ (k : ℕ) (x : Record), records[k]? = some x →
        (after (Reader.next sha256) r (k + 1)).sealed = decide (x.kind = SEAL) ∧
          (after (Reader.next sha256) r (k + 1)).aborted = decide (x.kind = ABORT) := by
  obtain ⟨r, hopen, hdrains, hflags⟩ := reads_cut hcreate hsource hframes
    (by rw [List.length_append]; omega) le_rfl
  rw [List.take_length] at hopen
  rw [List.length_append, hframes.contained_all, if_pos hframes.boundary] at hdrains
  rw [List.length_append, hframes.contained_all] at hflags
  exact ⟨r, hopen, hdrains, hflags⟩

/-- A cut journal yields exactly the records it contains, and ends cleanly at a record boundary and
with a truncation error elsewhere. -/
theorem journal_round_trip (sha256 : List U8 → Digest) {source : SourceIdentity} {config : Config}
    {quota : DiskBudget} {calls : List AppendCall} {receipts : List (ℕ × Digest)} {w₀ w : Writer}
    (hcreate : create sha256 source config quota = .ok w₀)
    (hsource : source.bytes.toNat ≤ config.maxSourceBytes.toNat)
    (hrun : appendAll sha256 calls w₀ = (.ok receipts, w)) :
    receipts.length = calls.length ∧
    (∀ cut, w₀.file.length ≤ cut → cut ≤ w.file.length →
      ∃ r, Reader.open sha256 (w.file.take cut) = .ok r ∧
        r.ReadsCut sha256 (recordsOf 0 calls receipts) w₀.file.length cut) ∧
    (∃ r, Reader.open sha256 w.file = .ok r ∧
      Drains (Reader.next sha256) r (recordsOf 0 calls receipts) none ∧
      ∀ (k : ℕ) (x : Record), (recordsOf 0 calls receipts)[k]? = some x →
        (after (Reader.next sha256) r (k + 1)).sealed = decide (x.kind = SEAL) ∧
          (after (Reader.next sha256) r (k + 1)).aborted = decide (x.kind = ABORT)) ∧
    ∀ r, r.contents = w.file → r.header = w.header →
      ∀ x ∈ recordsOf 0 calls receipts, (Reader.indexed sha256 x.offset x.digest r).1 = .ok x := by
  obtain ⟨hheader, hkept, hzero, hstart⟩ := create_ok hcreate
  obtain ⟨bytes, hfile, hsame, hframes⟩ := appendAll_frames hrun
  have hvalid := (headerBytes_ok hheader).1
  have hlen := length_header hheader
  rw [hkept, hzero, hstart] at hframes
  refine ⟨appendAll_length hrun, fun cut hlow hhigh => ?_, ?_, ?_⟩
  · rw [hfile] at hhigh ⊢
    exact reads_cut hcreate hsource hframes hlow hhigh
  · rw [hfile]
    exact reads_whole hcreate hsource hframes
  · intro r hcontents hrheader x hx
    obtain ⟨-, body, hbody, -, hfront, -⟩ := headerBytes_ok hheader
    have hconfig : r.header.config = config := by rw [hrheader, hsame, hkept]
    have hbytes : r.header.bytes = w₀.file.length := by rw [hrheader, hsame, hkept]
    have hplace : (headerFront ++ body).length + 32 = w₀.file.length := by
      rw [hlen, List.length_append, hbody]
      decide
    have hlocated := hframes.located hvalid hplace x hx
    apply Reader.indexed_located
    · rw [hconfig]
      exact hvalid
    · have hwhole : r.contents = headerFront ++ body ++ (w₀.previous.toList ++ bytes) := by
        rw [hcontents, hfile, hfront]
        simp only [List.append_assoc]
      rw [hconfig, hwhole]
      exact hlocated
    · have hstop := hframes.offset_ge x hx
      omega

def sampleAppends : List AppendCall := [⟨PACKET, [1, 2]⟩, ⟨NOTICE, []⟩, ⟨SEAL, [7]⟩]

def sampleSource : SourceIdentity := ⟨Vector.replicate 32 0, 5⟩

theorem journal_round_trip_sample : ∃ w₀ w receipts,
    create Sha256.digest sampleSource .default ⟨0, 0, 4096⟩ = .ok w₀ ∧
    appendAll Sha256.digest sampleAppends w₀ = (.ok receipts, w) ∧
    ∃ r, Reader.open Sha256.digest w.file = .ok r ∧
      Drains (Reader.next Sha256.digest) r (recordsOf 0 sampleAppends receipts) none := by
  have hok : ((create Sha256.digest sampleSource .default ⟨0, 0, 4096⟩).toOption.any fun w₀ =>
      (appendAll Sha256.digest sampleAppends w₀).1.toOption.isSome) = true := by
    decide +kernel
  cases hcreate : create Sha256.digest sampleSource .default ⟨0, 0, 4096⟩ with
  | error e =>
    rw [hcreate] at hok
    cases hok
  | ok w₀ =>
    rw [hcreate] at hok
    rcases hrun : appendAll Sha256.digest sampleAppends w₀ with ⟨result, w⟩
    cases result with
    | error e =>
      simp [Except.toOption, hrun] at hok
    | ok receipts =>
      obtain ⟨-, -, ⟨r, hopen, hdrains, -⟩, -⟩ :=
        journal_round_trip Sha256.digest hcreate (by decide) hrun
      exact ⟨w₀, w, receipts, rfl, hrun, r, hopen, hdrains⟩

end Writer

end PcapEvidence.History
