import PcapEvidence.BgpStoreWriter

/-!
# A sealed source journal is read back

The frames of a journal are read one after the other, and each hands its record to the reducer. A
prefix of the file ends inside the header or inside a frame, and bytes behind the seal contradict
its end, so that neither is replayed.
-/

namespace PcapEvidence.Bgp.Store

open Method ByteCodec History Wire
open History.Encoder (u8 u16 u32 u64 hash utf8)

variable {sha256 : List U8 → Digest} {j : Source}

theorem reads_exactAt (b : List U8) (field : String) : Reads (j.readExactAt b.length field) b b := by
  intro rest
  rw [Source.readExactAt, read_bind, if_pos (by rw [List.length_append]; omega), update_bind,
    List.drop_left, List.take_left]
  rfl

theorem reads_exactAt_of_length {n : ℕ} {b : List U8} (h : b.length = n) (field : String) :
    Reads (j.readExactAt n field) b b := h ▸ reads_exactAt b field

theorem length_u32 (v : U32) : (u32 v).length = 4 := length_leBytes 4 _

theorem length_u64 (v : U64) : (u64 v).length = 8 := length_leBytes 8 _

/-- A frame whose body fits the bounds of the reader. -/
structure Fits (j : Source) (x : Written) : Prop where
  maximum : x.2.length ≤ j.maximum.toNat
  retained : x.2.length ≤ j.limits.retainedBytes

theorem Fits.lt {x : Written} (h : Fits j x) : x.2.length < 2 ^ 64 :=
  h.maximum.trans_lt j.maximum.isLt

def front (sha256 : List U8 → Digest) (chain : Digest) (x : Written) : List U8 :=
  u8 x.1 ++ (u64 (BitVec.ofNat 64 x.2.length) ++
    (hash chain ++ hash (frameDigest sha256 chain x)))

theorem frameBytes_eq (chain : Digest) (x : Written) :
    frameBytes sha256 chain x = front sha256 chain x ++ x.2 := by
  simp only [frameBytes, front, List.append_assoc]

theorem length_front (chain : Digest) (x : Written) :
    (front sha256 chain x).length = RECORD_OVERHEAD := by
  have h : (frameBytes sha256 chain x).length = RECORD_OVERHEAD + x.2.length := length_frameBytes _ _
  rw [frameBytes_eq, List.length_append] at h
  omega

theorem byteAt_front (chain : Digest) (x : Written) : byteAt (front sha256 chain x) 0 = x.1 := rfl

theorem leNat_front {x : Written} (h : x.2.length < 2 ^ 64) (chain : Digest) :
    leNat (((front sha256 chain x).take 9).drop 1) = x.2.length := by
  have hpart : ((front sha256 chain x).take 9).drop 1 = leBytes 8 x.2.length := by
    change ((u64 (BitVec.ofNat 64 x.2.length) ++ _).take 8) = _
    rw [List.take_left' (length_u64 _)]
    change leBytes 8 (BitVec.ofNat 64 x.2.length).toNat = _
    rw [toNat_ofNat_of_lt h]
  rw [hpart, leNat_leBytes]
  exact Nat.mod_eq_of_lt (by simpa using h)

theorem previous_front (chain : Digest) (x : Written) :
    ((front sha256 chain x).take 41).drop 9 = chain.toList := by
  rw [List.drop_take]
  change ((u64 (BitVec.ofNat 64 x.2.length) ++ (hash chain ++ _)).drop 8).take 32 = _
  rw [List.drop_left' (length_u64 _), List.take_left' (length_hash chain)]
  rfl

theorem digest_front (chain : Digest) (x : Written) :
    (front sha256 chain x).drop 41 = (frameDigest sha256 chain x).toList := by
  change (u64 (BitVec.ofNat 64 x.2.length) ++ (hash chain ++ _)).drop 40 = _
  rw [show 40 = 8 + 32 from rfl, ← List.drop_drop, List.drop_left' (length_u64 _),
    List.drop_left' (length_hash chain)]
  rfl

/-- The record that the reader finds in front of `rest`. -/
def frameAt (sha256 : List U8 → Digest) (chain : Digest) (position : ℕ) (x : Written) : Frame :=
  ⟨x.1, x.2, frameDigest sha256 chain x, position, position + (RECORD_OVERHEAD + x.2.length)⟩

theorem readFrame_append {chain : Digest} {x : Written} {rest : List U8} (hx : Fits j x)
    (position : ℕ) (htotal : position + (frameBytes sha256 chain x ++ rest).length = j.total) :
    j.readFrame sha256 chain (frameBytes sha256 chain x ++ rest) =
      (.ok (frameAt sha256 chain position x), rest) := by
  have hsize : position + (RECORD_OVERHEAD + x.2.length + rest.length) = j.total := by
    rw [← htotal, List.length_append, length_frameBytes]
  have hlen : leNat (((front sha256 chain x).take 9).drop 1) = x.2.length := leNat_front hx.lt chain
  unfold Source.readFrame
  rw [read_bind, frameBytes_eq, List.append_assoc,
    bind_of_ok (reads_exactAt_of_length (length_front chain x) _ (x.2 ++ rest)), read_bind]
  have hbound : ¬ (leNat (((front sha256 chain x).take 9).drop 1) > j.maximum.toNat ∨
      leNat (((front sha256 chain x).take 9).drop 1) > j.limits.retainedBytes ∨
      j.consumed (x.2 ++ rest) + leNat (((front sha256 chain x).take 9).drop 1) > j.total) := by
    have hmax := hx.maximum
    have hretained := hx.retained
    rw [hlen, Source.consumed, List.length_append]
    omega
  rw [if_neg hbound, if_neg (by rw [previous_front]; simp), hlen, bind_of_ok (reads_exactAt x.2 _ rest),
    if_neg (by rw [digest_front]; simp [frameDigest, byteAt_front]), read_bind]
  have hstart : j.consumed (front sha256 chain x ++ (x.2 ++ rest)) = position := by
    rw [Source.consumed, List.length_append, List.length_append, length_front]
    omega
  have hstop : j.consumed rest = position + (RECORD_OVERHEAD + x.2.length) := by
    rw [Source.consumed]
    omega
  rw [hstart, hstop]
  rfl

theorem readFrame_short {chain : Digest} {x : Written} {n : ℕ} (hx : x.2.length < 2 ^ 64)
    (hn : n < (frameBytes sha256 chain x).length) :
    ∃ e left, j.readFrame sha256 chain ((frameBytes sha256 chain x).take n) = (.error e, left) := by
  rcases hread : j.readFrame sha256 chain ((frameBytes sha256 chain x).take n) with ⟨result, left⟩
  cases result with
  | error e => exact ⟨e, left, rfl⟩
  | ok frame =>
    exfalso
    unfold Source.readFrame at hread
    rw [read_bind] at hread
    obtain ⟨head, rest, htake, hread⟩ := bind_ok hread
    obtain ⟨hle, hhead, rfl⟩ := Source.readExactAt_ok htake
    rw [read_bind] at hread
    obtain ⟨_, hread⟩ := guard_ok hread
    obtain ⟨_, hread⟩ := guard_ok hread
    obtain ⟨body, rest, hbody, hread⟩ := bind_ok hread
    obtain ⟨hfits, -, -⟩ := Source.readExactAt_ok hbody
    rw [List.length_take, min_eq_left hn.le] at hle
    have hfront : head = front sha256 chain x := by
      rw [hhead, List.take_take, min_eq_left hle, frameBytes_eq,
        List.take_left' (length_front chain x)]
    rw [hfront, leNat_front hx, List.length_drop, List.length_take, min_eq_left hn.le] at hfits
    rw [length_frameBytes] at hn
    omega

section Loop

variable {σ α : Type} {r : Reducer σ α} {h : Header}

/-- A record of the journal: its frame with what the reader finds in it. -/
abbrev Kept := Written × Record

structure Readable (j : Source) (h : Header) (p : Kept) : Prop where
  fits : Fits j p.1
  readsBack : ReadsBack j.limits h.sourceId h.captureNamespace p.1 p.2

def entriesFrom (sha256 : List U8 → Digest) (chain : Digest) (index position : ℕ) :
    List Kept → List Entry
  | [] => []
  | p :: rest =>
    ⟨p.2, index, frameDigest sha256 chain p.1, position, position + (RECORD_OVERHEAD + p.1.2.length)⟩ ::
      entriesFrom sha256 (frameDigest sha256 chain p.1) (index + 1)
        (position + (RECORD_OVERHEAD + p.1.2.length)) rest

theorem map_record_entriesFrom (chain : Digest) (index position : ℕ) (kept : List Kept) :
    (entriesFrom sha256 chain index position kept).map Entry.record = kept.map Prod.snd := by
  induction kept generalizing chain index position with
  | nil => rfl
  | cons p rest ih => rw [entriesFrom, List.map_cons, List.map_cons, ih]

theorem length_entriesFrom (chain : Digest) (index position : ℕ) (kept : List Kept) :
    (entriesFrom sha256 chain index position kept).length = kept.length := by
  have h : ((entriesFrom sha256 chain index position kept).map Entry.record).length =
      (kept.map Prod.snd).length := congrArg List.length (map_record_entriesFrom _ _ _ _)
  rwa [List.length_map, List.length_map] at h

theorem step_record {s : Replay σ} {p : Kept} {position : ℕ} (hp : Readable j h p)
    (hcount : s.records + 1 < wordBound) :
    j.step r h s (frameAt sha256 s.chain position p.1) = (do
      let state ← r.step s.state ⟨p.2, s.records, frameDigest sha256 s.chain p.1, position,
        position + (RECORD_OVERHEAD + p.1.2.length)⟩
      .ok (⟨state, frameDigest sha256 s.chain p.1, s.records + 1⟩, false)) := by
  have hbody := hp.readsBack j h (frameAt sha256 s.chain position p.1) rfl rfl rfl rfl rfl
  have hnext : okOr (Error.limit "bgp_journal_records") (checkedAdd s.records 1) =
      .ok (s.records + 1) := by
    rw [checkedAdd_of_lt hcount]
    rfl
  unfold Source.step
  rw [hbody, hnext]
  rfl

theorem recordLoop_of_readFrame {s : Replay σ} {rest left : List U8} {frame : Frame}
    (hframe : j.readFrame sha256 s.chain rest = (.ok frame, left)) :
    j.recordLoop sha256 r h s rest = (do
      let (s, last) ← j.step r h s frame
      if last then .ok s else j.recordLoop sha256 r h s left) := by
  rw [Source.recordLoop]
  split
  · rename_i e _ herror
    rw [hframe] at herror
    cases herror
  · rename_i frame' left' hsame
    rw [hframe] at hsame
    cases hsame
    rcases j.step r h s frame with e | ⟨t, last⟩
    · rfl
    · cases last <;> rfl

theorem recordLoop_of_error {s : Replay σ} {rest left : List U8} {e : Error}
    (hframe : j.readFrame sha256 s.chain rest = (.error e, left)) :
    j.recordLoop sha256 r h s rest = .error e := by
  rw [Source.recordLoop]
  split
  · rename_i herror
    rw [hframe] at herror
    cases herror
    rfl
  · rename_i hsame
    rw [hframe] at hsame
    cases hsame

theorem recordLoop_frames {kept : List Kept} {s : Replay σ} (position : ℕ) {rest : List U8}
    (hkept : ∀ p ∈ kept, Readable j h p) (hcount : s.records + kept.length < wordBound)
    (htotal : position + (frames sha256 s.chain (kept.map Prod.fst) ++ rest).length = j.total) :
    j.recordLoop sha256 r h s (frames sha256 s.chain (kept.map Prod.fst) ++ rest) = (do
      let state ← (entriesFrom sha256 s.chain s.records position kept).foldlM r.step s.state
      j.recordLoop sha256 r h ⟨state, chainAfter sha256 s.chain (kept.map Prod.fst),
        s.records + kept.length⟩ rest) := by
  induction kept generalizing s position with
  | nil => rfl
  | cons p kept ih =>
    have hp := hkept p List.mem_cons_self
    rw [List.map_cons, frames, List.append_assoc] at htotal ⊢
    rw [List.length_cons] at hcount
    rw [recordLoop_of_readFrame (readFrame_append hp.fits position htotal),
      step_record hp (by omega), entriesFrom, List.foldlM_cons]
    rw [List.length_append, length_frameBytes] at htotal
    cases hstep : r.step s.state ⟨p.2, s.records, frameDigest sha256 s.chain p.1, position,
        position + (RECORD_OVERHEAD + p.1.2.length)⟩ with
    | error e => rfl
    | ok state =>
      have hnext := ih (s := ⟨state, frameDigest sha256 s.chain p.1, s.records + 1⟩)
        (position + (RECORD_OVERHEAD + p.1.2.length))
        (fun q hq => hkept q (List.mem_cons_of_mem p hq)) (by dsimp only; omega)
        (by dsimp only; omega)
      refine Eq.trans hnext ?_
      rw [chainAfter, List.length_cons, show s.records + 1 + kept.length =
        s.records + (kept.length + 1) by omega]
      rfl

def sealing (records : ℕ) : Written := (SEAL, u64 (BitVec.ofNat 64 records))

theorem length_sealing (records : ℕ) : (sealing records).2.length = 8 := length_u64 _

theorem step_seal {s : Replay σ} {position : ℕ} (hrecords : s.records < 2 ^ 64) :
    j.step r h s (frameAt sha256 s.chain position (sealing s.records)) =
      if position + (RECORD_OVERHEAD + 8) ≠ j.total then
        .error ⟨.lengthMismatch, position, "bgp_journal_seal",
          "seal count differs or trailing bytes remain"⟩
      else .ok ({ s with chain := frameDigest sha256 s.chain (sealing s.records) }, true) := by
  have hbody : j.decodeBody h (frameAt sha256 s.chain position (sealing s.records))
      (frameAt sha256 s.chain position (sealing s.records)).body = (.ok (.seal s.records), []) := by
    unfold Source.decodeBody
    rw [if_neg (by simp [frameAt, sealing, SEAL, MESSAGE]),
      if_neg (by simp [frameAt, sealing, SEAL, GAP]), if_neg (by simp [frameAt, sealing, SEAL, RESET]),
      if_neg (by simp [frameAt, sealing, SEAL, END]), if_neg (by simp [frameAt, sealing, SEAL, CLEAR]),
      if_pos (by simp [frameAt, sealing])]
    refine reads_last (reads_u64 _) ?_
    rw [toNat_ofNat_of_lt hrecords]
    rfl
  unfold Source.step
  rw [hbody]
  change (if s.records ≠ s.records ∨ position + (RECORD_OVERHEAD + (sealing s.records).2.length) ≠
    j.total then _ else _) = _
  rw [length_sealing]
  simp [frameAt]

theorem recordLoop_seal {s : Replay σ} {rest : List U8} (hfits : Fits j (sealing s.records))
    (hrecords : s.records < 2 ^ 64) (position : ℕ)
    (htotal : position + (frameBytes sha256 s.chain (sealing s.records) ++ rest).length = j.total) :
    j.recordLoop sha256 r h s (frameBytes sha256 s.chain (sealing s.records) ++ rest) =
      if rest ≠ [] then .error ⟨.lengthMismatch, position, "bgp_journal_seal",
        "seal count differs or trailing bytes remain"⟩
      else .ok { s with chain := frameDigest sha256 s.chain (sealing s.records) } := by
  rw [recordLoop_of_readFrame (readFrame_append hfits position htotal), step_seal hrecords]
  rw [List.length_append, length_frameBytes, length_sealing] at htotal
  cases rest with
  | nil =>
    rw [if_neg (by simpa using htotal), if_neg (by simp)]
    rfl
  | cons b rest =>
    rw [List.length_cons] at htotal
    rw [if_pos (by omega), if_pos (by simp)]
    rfl

variable (sha256) in
theorem recordLoop_short {kept : List Kept} {s : Replay σ} {n : ℕ} (position : ℕ)
    (hkept : ∀ p ∈ kept, Readable j h p) (hcount : s.records + kept.length < wordBound)
    (hn : n < (frames sha256 s.chain (kept.map Prod.fst) ++ frameBytes sha256
      (chainAfter sha256 s.chain (kept.map Prod.fst)) (sealing (s.records + kept.length))).length)
    (htotal : position + n = j.total) :
    ∃ e, j.recordLoop sha256 r h s ((frames sha256 s.chain (kept.map Prod.fst) ++ frameBytes sha256
      (chainAfter sha256 s.chain (kept.map Prod.fst))
        (sealing (s.records + kept.length))).take n) = .error e := by
  induction kept generalizing s n position with
  | nil =>
    obtain ⟨e, left, herror⟩ := readFrame_short (j := j) (x := sealing s.records)
      (by rw [length_sealing]; decide) hn
    exact ⟨e, recordLoop_of_error herror⟩
  | cons p kept ih =>
    have hp := hkept p List.mem_cons_self
    rw [List.length_cons] at hcount
    simp only [List.map_cons, frames, chainAfter, List.append_assoc, List.length_cons] at hn ⊢
    by_cases hfirst : n < (frameBytes sha256 s.chain p.1).length
    · rw [List.take_append_of_le_length hfirst.le]
      obtain ⟨e, left, herror⟩ := readFrame_short (j := j) hp.fits.lt hfirst
      exact ⟨e, recordLoop_of_error herror⟩
    · obtain ⟨m, rfl⟩ := Nat.exists_eq_add_of_le (not_lt.1 hfirst)
      rw [List.take_length_add_append]
      rw [List.length_append] at hn
      have hlen : ∀ l : List U8, m < l.length → (l.take m).length = m := fun l hl => by
        rw [List.length_take, min_eq_left hl.le]
      have hrest := Nat.lt_of_add_lt_add_left hn
      rw [recordLoop_of_readFrame (readFrame_append hp.fits position (by
        rw [List.length_append, hlen _ hrest, htotal])), step_record hp (by omega)]
      cases hstep : r.step s.state ⟨p.2, s.records, frameDigest sha256 s.chain p.1, position,
          position + (RECORD_OVERHEAD + p.1.2.length)⟩ with
      | error e => exact ⟨e, rfl⟩
      | ok state =>
        have hone : s.records + (kept.length + 1) = s.records + 1 + kept.length := by omega
        rw [hone] at hrest ⊢
        exact ih (s := ⟨state, frameDigest sha256 s.chain p.1, s.records + 1⟩)
          (position + (frameBytes sha256 s.chain p.1).length)
          (fun q hq => hkept q (List.mem_cons_of_mem p hq)) (by dsimp only; omega) hrest
          (by omega)

end Loop

section Headers

variable {source : String} {capture : Vector U8 32} {maximum : U64} {limits : Bgp.Limits}
  {w : JournalWriter}

def headerFixed (capture : Vector U8 32) : List U8 := MAGIC ++ u16 VERSION ++ hash capture

def headerBytes (capture : Vector U8 32) (source : String) : List U8 :=
  headerFixed capture ++ (u32 (BitVec.ofNat 32 (utf8 source).length) ++ utf8 source)

theorem length_headerFixed (capture : Vector U8 32) : (headerFixed capture).length = 42 := by
  rw [headerFixed, List.length_append, length_hash]
  rfl

theorem capture_headerFixed (capture : Vector U8 32) :
    (Vector.ofFn fun i : Fin 32 => byteAt ((headerFixed capture).drop 10) i) = capture := by
  have hdrop : (headerFixed capture).drop 10 = hash capture := List.drop_left' rfl
  rw [hdrop]
  exact ofFn_hash capture

structure Created (sha256 : List U8 → Digest) (source : String) (capture : Vector U8 32)
    (maximum : U64) (limits : Bgp.Limits) (w : JournalWriter) : Prop where
  limitsOk : limits.validate = .ok ()
  text : checkText source limits "bgp_journal_source" = .ok ()
  short : (utf8 source).length < 2 ^ 32
  file : w.file = headerBytes capture source
  chain : w.chain = sha256 (HEADER_DOMAIN ++ headerBytes capture source)
  records : w.records = 0
  counted : JournalWriter.Counted w
  limits : w.limits = limits
  sourceId : w.sourceId = source
  captureNamespace : w.captureNamespace = capture
  maximum : w.maximum = maximum

theorem create_ok (h : JournalWriter.create sha256 source capture maximum limits = .ok w) :
    Created sha256 source capture maximum limits w := by
  obtain ⟨_, hlimits, h⟩ := bind_eq_ok.1 h
  obtain ⟨_, htext, h⟩ := bind_eq_ok.1 h
  obtain ⟨encoded, hsource, h⟩ := bind_eq_ok.1 h
  obtain ⟨length, hlength, hs⟩ := bind_eq_ok.1 hsource
  cases hs
  obtain ⟨hshort, rfl⟩ := asU32_ok hlength
  obtain ⟨written, hwritten, h⟩ := bind_eq_ok.1 h
  obtain ⟨hlt, rfl⟩ := asU64_ok hwritten
  rw [toNat_ofNat_of_lt hlt] at h
  obtain ⟨hroom, h⟩ := guard_eq_ok.1 h
  rw [JournalWriter.writeAll_ok ((Nat.zero_add _).trans_lt hlt)] at h
  cases h
  exact {
    limitsOk := hlimits
    text := htext
    short := hshort
    file := rfl
    chain := rfl
    records := rfl
    counted := ⟨Nat.zero_le _, by simpa using not_lt.1 hroom, by simp⟩
    limits := rfl
    sourceId := rfl
    captureNamespace := rfl
    maximum := rfl }

theorem leNat_u32 {n : ℕ} (h : n < 2 ^ 32) : leNat (u32 (BitVec.ofNat 32 n)) = n := by
  change leNat (leBytes 4 (BitVec.ofNat 32 n).toNat) = _
  rw [toNat_ofNat_of_lt h, leNat_leBytes]
  exact Nat.mod_eq_of_lt (by simpa using h)

theorem readText_ok (htext : checkText source j.limits "bgp_journal_source" = .ok ())
    (hshort : (utf8 source).length < 2 ^ 32) :
    Reads (j.readText "bgp_journal_source")
      (u32 (BitVec.ofNat 32 (utf8 source).length) ++ utf8 source) source := by
  obtain ⟨hne, hle, -⟩ := checkText_ok.1 htext
  have hpos : (utf8 source).length ≠ 0 := by
    rw [length_utf8]
    simpa using hne
  refine (reads_exactAt_of_length (length_u32 _) _).bind ?_
  rw [leNat_u32 hshort, if_neg (by rw [length_utf8] at hpos ⊢; omega)]
  refine (reads_exactAt _ _).map ?_
  rw [fromUtf8_utf8]
  exact (Reads.of_lift htext).map (.pure source)

theorem readHeader_ok (htext : checkText source j.limits "bgp_journal_source" = .ok ())
    (hshort : (utf8 source).length < 2 ^ 32) :
    Reads (j.readHeader sha256) (headerBytes capture source)
      ⟨capture, source, sha256 (HEADER_DOMAIN ++ headerBytes capture source)⟩ := by
  refine (reads_exactAt_of_length (length_headerFixed capture) _).bind ?_
  have hmagic : (headerFixed capture).take 8 = MAGIC := rfl
  have hversion : leNat (((headerFixed capture).take 10).drop 8) = VERSION.toNat := rfl
  rw [if_neg (not_not.2 hmagic), if_neg (not_not.2 hversion)]
  refine (readText_ok htext hshort).map ?_
  have hlength : asU32 (utf8 source).length "bgp_journal_source" =
      .ok (BitVec.ofNat 32 (utf8 source).length) := by rw [asU32, if_pos hshort]
  refine (Reads.of_lift hlength).map ?_
  rw [capture_headerFixed]
  exact .pure _

variable (sha256) in
theorem readHeader_short {n : ℕ} (hshort : (utf8 source).length < 2 ^ 32)
    (hn : n < (headerBytes capture source).length) :
    ∃ e left, j.readHeader sha256 ((headerBytes capture source).take n) = (.error e, left) := by
  rcases hread : j.readHeader sha256 ((headerBytes capture source).take n) with ⟨result, left⟩
  cases result with
  | error e => exact ⟨e, left, rfl⟩
  | ok found =>
    exfalso
    have hsize : (headerBytes capture source).length = 42 + (4 + (utf8 source).length) := by
      rw [headerBytes, List.length_append, length_headerFixed, List.length_append]
      rfl
    obtain ⟨fixed, rest, htake, hread⟩ := bind_ok hread
    obtain ⟨hfixed, rfl, rfl⟩ := Source.readExactAt_ok htake
    rw [List.length_take, min_eq_left hn.le] at hfixed
    obtain ⟨m, rfl⟩ := Nat.exists_eq_add_of_le hfixed
    have hdrop : ((headerBytes capture source).take (42 + m)).drop 42 =
        (u32 (BitVec.ofNat 32 (utf8 source).length) ++ utf8 source).take m := by
      rw [headerBytes, ← length_headerFixed capture, List.take_length_add_append, List.drop_left]
    rw [hdrop] at hread
    obtain ⟨_, hread⟩ := guard_ok hread
    obtain ⟨_, hread⟩ := guard_ok hread
    obtain ⟨text, rest, htext, -⟩ := bind_ok hread
    obtain ⟨length, rest, hlength, htext⟩ := bind_ok htext
    obtain ⟨hfour, rfl, rfl⟩ := Source.readExactAt_ok hlength
    rw [List.length_take] at hfour
    have hword : ((u32 (BitVec.ofNat 32 (utf8 source).length) ++ utf8 source).take m).take 4 =
        u32 (BitVec.ofNat 32 (utf8 source).length) := by
      rw [List.take_take, min_eq_left (by omega), List.take_left' (length_u32 _)]
    rw [hword, leNat_u32 hshort] at htext
    obtain ⟨_, htext⟩ := guard_ok htext
    obtain ⟨value, rest, hvalue, -⟩ := bind_ok htext
    obtain ⟨hle, -, -⟩ := Source.readExactAt_ok hvalue
    rw [List.length_drop, List.length_take] at hle
    omega

end Headers

namespace JournalWriter

variable {w : JournalWriter}

structure Grown (sha256 : List U8 → Digest) (w : JournalWriter) (accepted : List Record)
    (kept : List Kept) (t : JournalWriter) : Prop where
  file : t.file = w.file ++ frames sha256 w.chain (kept.map Prod.fst)
  chain : t.chain = chainAfter sha256 w.chain (kept.map Prod.fst)
  records : t.records = w.records + kept.length
  counted : Counted t
  limits : t.limits = w.limits
  sourceId : t.sourceId = w.sourceId
  captureNamespace : t.captureNamespace = w.captureNamespace
  maximum : t.maximum = w.maximum
  same : List.Forall₂ Same accepted (kept.map Prod.snd)
  readable : ∀ p ∈ kept, p.1.2.length ≤ min w.maximum.toNat w.limits.retainedBytes ∧
    ReadsBack w.limits w.sourceId w.captureNamespace p.1 p.2

theorem Grown.refl (h : Counted w) : Grown sha256 w [] [] w where
  file := (List.append_nil _).symm
  chain := rfl
  records := rfl
  counted := h
  limits := rfl
  sourceId := rfl
  captureNamespace := rfl
  maximum := rfl
  same := .nil
  readable := by simp

theorem Grown.cons {record : Record} {t u : JournalWriter} {accepted : List Record} {kept : List Kept}
    (hstored : Stored sha256 w record t) (h : Grown sha256 t accepted kept u) :
    ∃ p, Grown sha256 w (record :: accepted) (p :: kept) u := by
  obtain ⟨x, rfl, hadmits, hseal, back, hsame, hback⟩ := hstored
  refine ⟨(x, back), ?_⟩
  exact {
    file := by
      rw [h.file, List.map_cons, frames, ← List.append_assoc]
      rfl
    chain := h.chain
    records := by
      rw [h.records, push, if_neg hseal, List.length_cons]
      dsimp only
      omega
    counted := h.counted
    limits := h.limits
    sourceId := h.sourceId
    captureNamespace := h.captureNamespace
    maximum := h.maximum
    same := .cons hsame h.same
    readable := by
      intro p hp
      obtain rfl | hp := List.mem_cons.1 hp
      · exact ⟨hadmits.size, hback⟩
      · exact h.readable p hp }

theorem writeEach_grown {calls : List Record} (h : Counted w) (hword : w.limits.inputBytes < wordBound)
    (hd : ∀ record ∈ calls, record.Directed) (hr : ∀ record ∈ calls, record.InWords) :
    ∃ kept, Grown sha256 w (writeEach sha256 w calls).1 kept (writeEach sha256 w calls).2 := by
  induction calls generalizing w with
  | nil => exact ⟨[], .refl h⟩
  | cons record calls ih =>
    have hwrite := write_sat sha256 h hword (hd record List.mem_cons_self)
      (hr record List.mem_cons_self)
    unfold writeEach
    rcases hcall : write sha256 record w with ⟨result, t⟩
    have hrest := fun (ht : Counted t) hlimits => ih ht hlimits
      (fun c hc => hd c (List.mem_cons_of_mem record hc))
      (fun c hc => hr c (List.mem_cons_of_mem record hc))
    cases result with
    | error e =>
      obtain rfl : t = w := hwrite.of_error hcall
      exact hrest h hword
    | ok _ =>
      have hstored : Stored sha256 w record t := hwrite.of_ok hcall
      obtain ⟨x, rfl, hadmits, -⟩ := hstored
      obtain ⟨kept, hgrown⟩ := hrest (h.push hadmits) hword
      obtain ⟨p, hcons⟩ := hgrown.cons (hwrite.of_ok hcall)
      exact ⟨p :: kept, hcons⟩

theorem seal_ok {receipt : JournalReceipt} {t : JournalWriter} (h : Counted w)
    (hseal : «seal» sha256 w = (.ok receipt, t)) :
    w.Admits (sealing w.records) ∧ t.file = w.file ++ frameBytes sha256 w.chain (sealing w.records) ∧
      receipt = ⟨w.sourceId, w.captureNamespace, w.records,
        frameDigest sha256 w.chain (sealing w.records)⟩ := by
  unfold «seal» at hseal
  rw [read_bind] at hseal
  obtain ⟨_, mid, happend, hseal⟩ := bind_ok hseal
  obtain ⟨rfl, hadmits⟩ := (append_sat h SEAL _).of_ok happend
  rw [update_bind, read_bind] at hseal
  cases hseal
  exact ⟨hadmits, rfl, rfl⟩

end JournalWriter

section Sealing

theorem limits_inputBytes_lt {limits : Bgp.Limits} (h : limits.validate = .ok ()) :
    limits.inputBytes < wordBound := by
  unfold Limits.validate at h
  split_ifs at h with hbad
  push Not at hbad
  have hle := hbad.2.2.1
  rw [wordBound]
  omega

variable {source : String} {capture : Vector U8 32} {maximum : U64} {limits : Bgp.Limits}
  {kept : List Kept} {bytes : List U8}

def firstChain (sha256 : List U8 → Digest) (capture : Vector U8 32) (source : String) : Digest :=
  sha256 (HEADER_DOMAIN ++ headerBytes capture source)

def recordBytes (sha256 : List U8 → Digest) (capture : Vector U8 32) (source : String)
    (kept : List Kept) : List U8 :=
  frames sha256 (firstChain sha256 capture source) (kept.map Prod.fst) ++
    frameBytes sha256 (chainAfter sha256 (firstChain sha256 capture source) (kept.map Prod.fst))
      (sealing kept.length)

structure Sealed (sha256 : List U8 → Digest) (source : String) (capture : Vector U8 32)
    (maximum : U64) (limits : Bgp.Limits) (kept : List Kept) (bytes : List U8) : Prop where
  limitsOk : limits.validate = .ok ()
  text : checkText source limits "bgp_journal_source" = .ok ()
  short : (utf8 source).length < 2 ^ 32
  readable : ∀ p ∈ kept, p.1.2.length ≤ min maximum.toNat limits.retainedBytes ∧
    ReadsBack limits source capture p.1 p.2
  sealing : (sealing kept.length).2.length ≤ min maximum.toNat limits.retainedBytes
  count : kept.length ≤ maximum.toNat
  size : bytes.length ≤ maximum.toNat
  bytes : bytes = headerBytes capture source ++ recordBytes sha256 capture source kept

def receiptOf (sha256 : List U8 → Digest) (source : String) (capture : Vector U8 32)
    (kept : List Kept) : JournalReceipt :=
  ⟨source, capture, kept.length, frameDigest sha256 (chainAfter sha256
    (firstChain sha256 capture source) (kept.map Prod.fst)) (sealing kept.length)⟩

/-- What is handed on from a sealed journal. -/
def entriesOf (sha256 : List U8 → Digest) (source : String) (capture : Vector U8 32)
    (kept : List Kept) : List Entry :=
  entriesFrom sha256 (firstChain sha256 capture source) 0 (headerBytes capture source).length kept

section Replays

variable {σ α : Type} {r : Reducer σ α}

theorem lift_bind_fst {ρ ε β γ : Type} (x : Except ε β) (f : β → Method ρ ε γ) (s : ρ) :
    ((lift x >>= f) s).1 = x >>= fun a => (f a s).1 := by
  cases x <;> rfl

theorem replayFrom_header (htext : checkText source j.limits "bgp_journal_source" = .ok ())
    (hshort : (utf8 source).length < 2 ^ 32) (rest : List U8) :
    (replayFrom sha256 r j (headerBytes capture source ++ rest)).1 = (do
      let state ← r.new capture source j.limits
      let s ← j.recordLoop sha256 r ⟨capture, source, firstChain sha256 capture source⟩
        ⟨state, firstChain sha256 capture source, 0⟩ rest
      let out ← r.finish s.state
      .ok (⟨source, capture, s.records, s.chain⟩, out)) := by
  rw [replayFrom, bind_of_ok (readHeader_ok htext hshort rest), lift_bind_fst]
  refine bind_congr fun state => ?_
  rw [read_bind, lift_bind_fst]
  refine bind_congr fun s => ?_
  rw [lift_bind_fst]
  rfl

theorem replay_of_size (hlimits : limits.validate = .ok ()) {contents : List U8}
    (hsize : contents.length ≤ maximum.toNat) :
    replay sha256 r contents maximum limits =
      (replayFrom sha256 r ⟨contents.length, maximum, limits⟩ contents).1 := by
  rw [replay, hlimits]
  exact if_neg (not_lt.2 hsize)
variable (h : Sealed sha256 source capture maximum limits kept bytes)
include h

theorem Sealed.readableBy (total : ℕ) :
    ∀ p ∈ kept, Readable ⟨total, maximum, limits⟩
      ⟨capture, source, firstChain sha256 capture source⟩ p := fun p hp =>
  have hp := h.readable p hp
  ⟨⟨hp.1.trans (min_le_left _ _), hp.1.trans (min_le_right _ _)⟩, hp.2⟩

theorem Sealed.sealFits (total : ℕ) : Fits ⟨total, maximum, limits⟩ (Store.sealing kept.length) :=
  ⟨h.sealing.trans (min_le_left _ _), h.sealing.trans (min_le_right _ _)⟩

theorem Sealed.count_lt : kept.length < wordBound := h.count.trans_lt maximum.isLt

/-- The loop over the records of a sealed file with `extra` behind them. -/
theorem Sealed.recordLoop_eq (state : σ) (extra : List U8) :
    (⟨(bytes ++ extra).length, maximum, limits⟩ : Source).recordLoop sha256 r
        ⟨capture, source, firstChain sha256 capture source⟩
        ⟨state, firstChain sha256 capture source, 0⟩
        (recordBytes sha256 capture source kept ++ extra) = (do
      let state ← (entriesOf sha256 source capture kept).foldlM r.step state
      if extra ≠ [] then .error ⟨.lengthMismatch, (headerBytes capture source).length +
          (frames sha256 (firstChain sha256 capture source) (kept.map Prod.fst)).length,
        "bgp_journal_seal", "seal count differs or trailing bytes remain"⟩
      else .ok ⟨state, (receiptOf sha256 source capture kept).terminalSha256, kept.length⟩) := by
  have hcount := h.count_lt
  have hlen : (bytes ++ extra).length = (headerBytes capture source).length +
      (recordBytes sha256 capture source kept ++ extra).length := by
    rw [h.bytes, List.append_assoc, List.length_append]
  rw [recordBytes, List.append_assoc] at hlen ⊢
  rw [recordLoop_frames (headerBytes capture source).length (h.readableBy _)
    ((Nat.zero_add _).trans_lt hcount) hlen.symm]
  refine bind_congr fun state => ?_
  dsimp only
  rw [Nat.zero_add]
  refine (recordLoop_seal (s := ⟨state, _, kept.length⟩) (h.sealFits _) hcount _ ?_)
  simp only [h.bytes, recordBytes, List.length_append]
  omega

theorem Sealed.replay_eq :
    replay sha256 r bytes maximum limits = (do
      let state ← r.new capture source limits
      let state ← (entriesOf sha256 source capture kept).foldlM r.step state
      let out ← r.finish state
      .ok (receiptOf sha256 source capture kept, out)) := by
  have hloop := fun state => h.recordLoop_eq (r := r) state []
  simp only [List.append_nil] at hloop
  rw [replay_of_size h.limitsOk h.size]
  conv_lhs => rw [h.bytes]
  rw [replayFrom_header h.text h.short, ← h.bytes]
  refine bind_congr fun state => ?_
  rw [hloop, bind_assoc]
  rfl

theorem Sealed.replay_extended {extra : List U8} (hextra : extra ≠ []) :
    ∃ e, replay sha256 r (bytes ++ extra) maximum limits = .error e := by
  by_cases hsize : (bytes ++ extra).length ≤ maximum.toNat
  · rw [replay_of_size h.limitsOk hsize]
    have hbytes : bytes ++ extra =
        headerBytes capture source ++ (recordBytes sha256 capture source kept ++ extra) := by
      rw [h.bytes, List.append_assoc]
    conv => enter [1, e, 1, 1]; rw [hbytes]
    rw [replayFrom_header h.text h.short, ← hbytes]
    cases r.new capture source limits with
    | error e => exact ⟨e, rfl⟩
    | ok state =>
      change ∃ e, (Source.recordLoop _ _ _ _ _ _ >>= _) = .error e
      rw [h.recordLoop_eq]
      simp only [if_pos hextra]
      cases (entriesOf sha256 source capture kept).foldlM r.step state with
      | error e => exact ⟨e, rfl⟩
      | ok state => exact ⟨_, rfl⟩
  · rw [replay, h.limitsOk]
    exact ⟨_, if_pos (not_le.1 hsize)⟩

theorem Sealed.replay_prefix {n : ℕ} (hn : n < bytes.length) :
    ∃ e, replay sha256 r (bytes.take n) maximum limits = .error e := by
  have hlen : (bytes.take n).length = n := by rw [List.length_take, min_eq_left hn.le]
  rw [replay_of_size h.limitsOk (by have := h.size; omega), hlen]
  have hparts := h.bytes
  by_cases hheader : n < (headerBytes capture source).length
  · rw [hparts, List.take_append_of_le_length hheader.le]
    obtain ⟨e, left, herror⟩ := readHeader_short sha256 (j := ⟨n, maximum, limits⟩) h.short hheader
    exact ⟨e, by rw [replayFrom, bind_of_error herror]⟩
  · obtain ⟨m, rfl⟩ := Nat.exists_eq_add_of_le (not_lt.1 hheader)
    rw [hparts, List.length_append] at hn
    rw [hparts, List.take_length_add_append, replayFrom_header h.text h.short]
    cases r.new capture source limits with
    | error e => exact ⟨e, rfl⟩
    | ok state =>
      have hshort := fun total => recordLoop_short sha256 (r := r) (n := m)
        (s := ⟨state, firstChain sha256 capture source, 0⟩) (headerBytes capture source).length
        (h.readableBy total) ((Nat.zero_add _).trans_lt h.count_lt)
      simp only [Nat.zero_add] at hshort
      obtain ⟨e, herror⟩ := hshort _ (Nat.lt_of_add_lt_add_left hn) rfl
      refine ⟨e, ?_⟩
      change (Source.recordLoop _ _ _ _ _ _ >>= _) = .error e
      rw [recordBytes, herror]
      rfl

omit h

end Replays

theorem sealed_writeEach {w t : JournalWriter} {receipt : JournalReceipt} {calls : List Record}
    (hcreate : JournalWriter.create sha256 source capture maximum limits = .ok w)
    (hwords : ∀ record ∈ calls, record.InWords) (hdirected : ∀ record ∈ calls, record.Directed)
    (hseal : JournalWriter.«seal» sha256 (JournalWriter.writeEach sha256 w calls).2 =
      (.ok receipt, t)) :
    ∃ kept, List.Forall₂ Same (JournalWriter.writeEach sha256 w calls).1 (kept.map Prod.snd) ∧
      receipt = receiptOf sha256 source capture kept ∧
      Sealed sha256 source capture maximum limits kept t.file := by
  have hc := create_ok hcreate
  have hword : w.limits.inputBytes < wordBound := by
    rw [hc.limits]
    exact limits_inputBytes_lt hc.limitsOk
  obtain ⟨kept, hg⟩ := JournalWriter.writeEach_grown hc.counted hword hdirected hwords
  obtain ⟨hadmits, hfile, hreceipt⟩ := JournalWriter.seal_ok hg.counted hseal
  have hrecords : (JournalWriter.writeEach sha256 w calls).2.records = kept.length := by
    rw [hg.records, hc.records, Nat.zero_add]
  have hpush : JournalWriter.Counted ((JournalWriter.writeEach sha256 w calls).2.push sha256
      (sealing (JournalWriter.writeEach sha256 w calls).2.records)) := hg.counted.push hadmits
  have hchain : w.chain = firstChain sha256 capture source := hc.chain
  refine ⟨kept, hg.same, ?_, ?_⟩
  · rw [hreceipt, hg.sourceId, hg.captureNamespace, hg.chain, hrecords, hc.sourceId,
      hc.captureNamespace, hchain]
    rfl
  · have hmaximum := hg.maximum.trans hc.maximum
    have hlimits := hg.limits.trans hc.limits
    have hsize := hadmits.size
    rw [hmaximum, hlimits, hrecords] at hsize
    have hcount := hg.counted.records.trans hg.counted.written
    rw [hrecords, hmaximum] at hcount
    have hlength := hpush.written
    rw [hpush.file] at hlength
    refine { limitsOk := hc.limitsOk, text := hc.text, short := hc.short, readable := ?_,
             sealing := hsize, count := hcount, size := ?_, bytes := ?_ }
    · have hreadable := hg.readable
      rwa [hc.maximum, hc.limits, hc.sourceId, hc.captureNamespace] at hreadable
    · rw [hfile]
      exact hlength.trans_eq (congrArg BitVec.toNat hmaximum)
    · rw [hfile, hg.file, hg.chain, hc.file, hrecords, hchain, recordBytes, List.append_assoc]

/-- A sealed journal is read back as what was written, and no other file around it is. -/
theorem replay_of_seal {w t : JournalWriter} {receipt : JournalReceipt} {calls : List Record}
    (hcreate : JournalWriter.create sha256 source capture maximum limits = .ok w)
    (hwords : ∀ record ∈ calls, record.InWords) (hdirected : ∀ record ∈ calls, record.Directed)
    (hseal : JournalWriter.«seal» sha256 (JournalWriter.writeEach sha256 w calls).2 =
      (.ok receipt, t)) :
    ∃ entries : List Entry,
      List.Forall₂ Same (JournalWriter.writeEach sha256 w calls).1 (entries.map Entry.record) ∧
      receipt.sourceId = source ∧ receipt.captureNamespace = capture ∧
      receipt.records = entries.length ∧
      ∀ {σ α : Type} (r : Reducer σ α),
        replay sha256 r t.file maximum limits = (do
          let state ← r.new capture source limits
          let state ← entries.foldlM r.step state
          let out ← r.finish state
          .ok (receipt, out)) ∧
        (∀ bytes, bytes <+: t.file → bytes ≠ t.file →
          ∃ e, replay sha256 r bytes maximum limits = .error e) ∧
        ∀ extra, extra ≠ [] → ∃ e, replay sha256 r (t.file ++ extra) maximum limits = .error e := by
  obtain ⟨kept, hsame, rfl, hsealed⟩ := sealed_writeEach hcreate hwords hdirected hseal
  refine ⟨entriesOf sha256 source capture kept, ?_, rfl, rfl, ?_, fun r => ⟨?_, ?_, ?_⟩⟩
  · rw [entriesOf, map_record_entriesFrom]
    exact hsame
  · exact (length_entriesFrom _ _ _ _).symm
  · exact hsealed.replay_eq
  · intro bytes hpre hne
    have hlt : bytes.length < t.file.length :=
      lt_of_le_of_ne hpre.length_le fun hlen => hne (hpre.eq_of_length hlen)
    rw [List.prefix_iff_eq_take.1 hpre]
    exact hsealed.replay_prefix hlt
  · intro extra hextra
    exact hsealed.replay_extended hextra

def lengthDigest (bytes : List U8) : Digest := Vector.replicate 32 (BitVec.ofNat 8 bytes.length)

def sampleCapture : Vector U8 32 := Vector.replicate 32 7

def sampleStored : List Record :=
  [.message 1 (.fromPacket [1, 2, 3] ⟨sampleCapture, 0, 24⟩ 0)
      ⟨"s", "m", some (-5), some 1, some 0, none, some "10.0.0.1"⟩,
    .reset 1 "r" "lost", .endSession 1, .clear]

def sampleWriter : JournalWriter :=
  ⟨headerBytes sampleCapture "s", .default, "s", sampleCapture,
    firstChain lengthDigest sampleCapture "s", 0, 47, 1000, false⟩

def sampleSealed : Result JournalReceipt × JournalWriter :=
  JournalWriter.«seal» lengthDigest
    (JournalWriter.writeEach lengthDigest sampleWriter (.gap 1 "" "lost" :: sampleStored)).2

/-- A gap without a record id is refused, and the calls behind it are stored. -/
theorem replay_of_seal_sample : ∃ (receipt : JournalReceipt) (entries : List Entry),
    List.Forall₂ Same sampleStored (entries.map Entry.record) ∧ entries.length = 4 ∧
      ∀ {σ α : Type} (r : Reducer σ α), replay lengthDigest r sampleSealed.2.file 1000 .default = (do
        let state ← r.new sampleCapture "s" .default
        let state ← entries.foldlM r.step state
        let out ← r.finish state
        .ok (receipt, out)) := by
  have hstored : (JournalWriter.writeEach lengthDigest sampleWriter
      (.gap 1 "" "lost" :: sampleStored)).1 = sampleStored := by decide +kernel
  have hrecords : sampleSealed.1.map JournalReceipt.records = .ok 4 := by decide +kernel
  obtain ⟨receipt, hok, hfour⟩ := map_ok hrecords
  have hseal : sampleSealed = (.ok receipt, sampleSealed.2) := by
    rw [← hok]
  have hwords : ∀ record ∈ (.gap 1 "" "lost" :: sampleStored : List Record), record.InWords := by
    simp [sampleStored, Record.InWords, InI64, EvidenceBytes.fromPacket, PacketInWords]
  have hdirected : ∀ record ∈ (.gap 1 "" "lost" :: sampleStored : List Record), record.Directed := by
    simp [sampleStored, Record.Directed]
  have hcreate : JournalWriter.create lengthDigest "s" sampleCapture 1000 .default =
      .ok sampleWriter := by decide +kernel
  obtain ⟨entries, hsame, -, -, hcount, hreplay⟩ :=
    replay_of_seal hcreate hwords hdirected hseal
  rw [hstored] at hsame
  exact ⟨receipt, entries, hsame, hcount.symm.trans hfour.symm, fun r => (hreplay r).1⟩

end Sealing

end PcapEvidence.Bgp.Store
