import PcapEvidence.CaptureIndexQuery

/-!
# Sidecars that load

The checks on a sidecar before the source is parsed refuse no encoding of the index of that source:
its sizes, its count and its two digests are what the encoder wrote. So a sidecar loads exactly when
it is that encoding, octet by octet.
-/

namespace PcapEvidence.CaptureIndex
open IterTrace

section Encoding
variable {index : Index} {sidecar : List U8}

theorem length_encodeTime {timestamp : Option Timestamp} {bytes : List U8}
    (h : Index.encodeTime timestamp = .ok bytes) : bytes.length = 20 := by
  unfold Index.encodeTime at h
  cases timestamp with
  | none =>
    cases h
    rfl
  | some time =>
    obtain ⟨resolution, -, h⟩ := bind_eq_ok.1 h
    cases h
    rfl

theorem length_encodeEntry {entry : IndexEntry} {bytes : List U8}
    (h : Index.encodeEntry entry = .ok bytes) : bytes.length = ENTRY := by
  unfold Index.encodeEntry at h
  dsimp only at h
  split_ifs at h
  obtain ⟨time, htime, h⟩ := bind_eq_ok.1 h
  cases h
  simp [length_encodeTime htime, ENTRY]

theorem length_encodeEntries {entries : List IndexEntry} {blocks : List (List U8)}
    (h : entries.mapM Index.encodeEntry = .ok blocks) :
    blocks.flatten.length = entries.length * ENTRY := by
  induction entries generalizing blocks with
  | nil =>
    cases h
    rfl
  | cons entry rest ih =>
    rw [List.mapM_cons] at h
    obtain ⟨bytes, hbytes, h⟩ := bind_eq_ok.1 h
    obtain ⟨others, hothers, h⟩ := bind_eq_ok.1 h
    cases h
    rw [List.flatten_cons, List.length_append, length_encodeEntry hbytes, ih hothers,
      List.length_cons, Nat.succ_mul, Nat.add_comm]

theorem length_header : index.header.length = HEADER := by
  simp [Index.header, MAGIC, HEADER]

theorem Index.encode_ok (h : index.encode = .ok sidecar) :
    ∃ blocks size, sidecarSize index.entries.length = some size ∧ sidecar.length = size ∧
      blocks.length = index.entries.length * ENTRY ∧
      sidecar = index.header ++ blocks ++ (Sha256.digest (index.header ++ blocks)).toList := by
  unfold Index.encode at h
  cases hsize : sidecarSize index.entries.length with
  | none =>
    rw [hsize] at h
    cases h
  | some size =>
    rw [hsize] at h
    obtain ⟨blocks, hblocks, h⟩ := bind_eq_ok.1 h
    cases h
    have hlength := length_encodeEntries hblocks
    refine ⟨blocks.flatten, size, rfl, ?_, hlength, rfl⟩
    unfold sidecarSize checkedMul at hsize
    split_ifs at hsize with hmul
    · obtain ⟨-, rfl⟩ := (checkedAdd_eq_some_iff _ _ _).1 hsize
      simp [length_header, hlength, HEADER]
      omega
    · cases hsize

theorem sidecarSize_lt {count size : ℕ} (h : Index.sidecarSize count = some size) :
    count < wordBound ∧ size = count * ENTRY + (HEADER + 32) := by
  unfold Index.sidecarSize checkedMul at h
  split_ifs at h with hmul
  · obtain ⟨-, rfl⟩ := (checkedAdd_eq_some_iff _ _ _).1 h
    refine ⟨?_, rfl⟩
    unfold ENTRY at hmul
    omega
  · cases h

theorem header_fields {rest : List U8} : (index.header ++ rest).take 8 = MAGIC ∧
    Endian.little.u64 (index.header ++ rest) 8 = index.sourceLen ∧
    sliceOf (index.header ++ rest) 16 48 = index.sourceSha256.toList ∧
    Endian.little.u64 (index.header ++ rest) 48 = BitVec.ofNat 64 index.entries.length := by
  have hmagic : MAGIC.length = 8 := rfl
  have hsha : index.sourceSha256.toList.length = 32 := by simp
  unfold Index.header
  simp only [List.append_assoc]
  refine ⟨List.take_left' rfl, ?_, ?_, ?_⟩
  · rw [Endian.u64_append_right _ (by rw [hmagic]), hmagic]
    exact Endian.u64_putU64 _ _
  · obtain ⟨-, hafter⟩ := carries_append.1 (carries_self
      (MAGIC ++ (Endian.little.putU64 index.sourceLen ++ (index.sourceSha256.toList ++
        (Endian.little.putU64 (BitVec.ofNat 64 index.entries.length) ++ rest)))))
    obtain ⟨-, hafter⟩ := carries_append.1 hafter
    have hslice := (carries_append.1 hafter).1.sliceOf_eq
    rwa [hmagic, Endian.length_putU64, hsha] at hslice
  · rw [Endian.u64_append_right _ (by rw [hmagic]; omega), hmagic,
      Endian.u64_append_right _ (by simp), Endian.length_putU64,
      Endian.u64_append_right _ (by rw [hsha]), hsha]
    exact Endian.u64_putU64 _ _

end Encoding

section Load
variable {source sidecar : List U8} {limits : Limits} {index : Index}

theorem checkSidecar_of_encode (hindex : Index.build source limits = .ok index)
    (h : index.encode = .ok sidecar) : VerifiedIndex.checkSidecar source sidecar limits = .ok () := by
  obtain ⟨blocks, size, hsize, hlength, -, hsidecar⟩ := Index.encode_ok h
  obtain ⟨it, records, last, hnew, -, hwalked, hbuilt⟩ := Index.build_ok hindex
  obtain ⟨hcount, hexpected⟩ := sidecarSize_lt hsize
  have hfields := @header_fields index (blocks ++ (Sha256.digest (index.header ++ blocks)).toList)
  rw [← List.append_assoc, ← hsidecar] at hfields
  obtain ⟨hmagic, hsource, hdigest, hentries⟩ := hfields
  have hread : (Endian.little.u64 sidecar 48).toNat = index.entries.length := by
    rw [hentries, BitVec.toNat_ofNat]
    exact Nat.mod_eq_of_lt hcount
  have hrecords : index.entries.length ≤ limits.maxRecords := by
    rw [hbuilt]
    exact (List.length_filterMap_le _ _).trans hwalked.bounded
  have hinput : source.length ≤ limits.maxInputBytes := by
    unfold CaptureIter.new at hnew
    split_ifs at hnew with hlarge
    omega
  have hcut : sidecar.length - 32 = (index.header ++ blocks).length := by
    rw [hsidecar, List.length_append, Vector.length_toList, Nat.add_sub_cancel]
  have hbody : sidecar.take (sidecar.length - 32) = index.header ++ blocks := by
    rw [hcut, hsidecar, List.take_left]
  have htrailer : sidecar.drop (sidecar.length - 32) =
      (Sha256.digest (index.header ++ blocks)).toList := by
    rw [hcut, hsidecar, List.drop_left]
  have hsame : index.sourceLen = BitVec.ofNat 64 source.length ∧
      index.sourceSha256 = Sha256.digest source := by
    rw [hbuilt]
    exact ⟨rfl, rfl⟩
  unfold VerifiedIndex.checkSidecar
  rw [if_neg (by omega), if_neg (not_not.2 hmagic)]
  dsimp only
  rw [hread, if_neg (by omega), hsize]
  dsimp only
  rw [if_neg (not_not.2 hlength.symm), if_neg (by omega), hsource, hdigest, hsame.1, hsame.2,
    if_neg (by simp), hbody, htrailer, if_neg (not_not.2 rfl)]

theorem load_iff : (∃ v, VerifiedIndex.load source sidecar limits = .ok v) ↔
    ∃ index, Index.build source limits = .ok index ∧ index.encode = .ok sidecar := by
  constructor
  · rintro ⟨v, h⟩
    obtain ⟨index, hindex, hencode, -⟩ := VerifiedIndex.load_ok h
    exact ⟨index, hindex, hencode⟩
  · rintro ⟨index, hindex, hencode⟩
    obtain ⟨it, -, -, hnew, -⟩ := Index.build_ok hindex
    have hvalid : limits.validate = .ok () := by
      unfold CaptureIter.new at hnew
      split_ifs at hnew
      obtain ⟨d, hd, -⟩ := bind_eq_ok.1 hnew
      obtain ⟨⟨⟩, hvalid, -⟩ := bind_eq_ok.1 hd
      exact hvalid
    refine ⟨.fromCanonical source index, bind_eq_ok.2 ⟨(), hvalid, bind_eq_ok.2 ⟨(),
      checkSidecar_of_encode hindex hencode, bind_eq_ok.2 ⟨index, hindex, bind_eq_ok.2 ⟨sidecar,
        hencode, ?_⟩⟩⟩⟩⟩
    exact if_neg (not_not.2 rfl)

end Load

/-- A sidecar loads exactly when it is the encoding of the index that the source builds, and its
answers are those of the source. -/
theorem verifiedIndex_exact (source : List U8) (limits : Limits) (hword : source.length < wordBound) :
    (∀ sidecar, (∃ v, VerifiedIndex.load source sidecar limits = .ok v) ↔
      ∃ index, Index.build source limits = .ok index ∧ index.encode = .ok sidecar) ∧
    ∀ v : VerifiedIndex, v.Of source limits → ∃ it records,
      CaptureIter.new source limits .strict = .ok it ∧ Drains CaptureIter.next it records none ∧
      (∀ k p data, (packets records)[k]? = some (p, data) → v.packet (k + 1) = .ok data) ∧
      (∀ frame, frame = 0 ∨ (packets records).length < frame → ∃ e, v.packet frame = .error e) ∧
      ∀ startNs endNs, startNs ≤ endNs → ∃ q, v.timeRange startNs endNs = .ok q ∧
        q.frames.Pairwise (· < ·) ∧
        (∀ f, f ∈ q.frames ↔ ∃ k p data, (packets records)[k]? = some (p, data) ∧ f = k + 1 ∧
          ∃ nanos, ExactAt p nanos ∧ startNs ≤ nanos ∧ nanos ≤ endNs) ∧
        (∀ f, f ∈ q.unresolvedFrames ↔ ∃ k p data, (packets records)[k]? = some (p, data) ∧
          f = k + 1 ∧ ∀ nanos, ¬ ExactAt p nanos) ∧
        q.frames.Disjoint q.unresolvedFrames := by
  refine ⟨fun sidecar => load_iff, fun v hv => ?_⟩
  obtain ⟨index, hbuild, rfl⟩ := hv.canonical
  obtain ⟨it, records, last, hnew, hdrains, hwalked, hindex⟩ := Index.build_ok hbuild
  have hentries : index.entries = records.filterMap entryOf? := by rw [hindex]
  refine ⟨it, records, hnew, hdrains, fun k p data hk => packet_ok hword hwalked hentries hk,
    fun frame hframe => packet_error hentries hframe, fun startNs endNs hrange => ?_⟩
  obtain ⟨q, hq, hsorted, hframes, hunresolved⟩ :=
    @timeRange_ok source _ _ _ _ hwalked hentries startNs endNs hrange
  refine ⟨q, hq, hsorted, hframes, hunresolved, ?_⟩
  rw [List.disjoint_left]
  intro f hf hf'
  obtain ⟨k, p, data, hk, rfl, nanos, hexact, -⟩ := (hframes f).1 hf
  obtain ⟨k', p', data', hk', hsame, hnone⟩ := (hunresolved _).1 hf'
  obtain rfl : k = k' := by omega
  rw [hk] at hk'
  cases hk'
  exact hnone nanos hexact

theorem collects_record {it it' : CaptureIter} {record : Record} {entries more : List IndexEntry}
    (h : it.next = (some (.ok record), it')) (hadd : Index.add entries record = .ok more)
    (hrest : ∃ out, Index.collect it' more = .ok out) :
    ∃ out, Index.collect it entries = .ok out := by
  obtain ⟨out, hout⟩ := hrest
  refine ⟨out, ?_⟩
  have hstep : Index.collect it entries = Index.add entries record >>= Index.collect it' := by
    rw [Index.collect]
    split <;> simp_all
  rw [hstep, hadd]
  exact hout

theorem collects_done {it it' : CaptureIter} (entries : List IndexEntry)
    (h : it.next = (none, it')) : ∃ out, Index.collect it entries = .ok out := by
  refine ⟨entries, ?_⟩
  rw [Index.collect]
  split <;> simp_all

theorem sampleCapture_builds : ∃ v, VerifiedIndex.build sampleCapture .default = .ok v := by
  obtain ⟨it, hnew, entries, hcollect⟩ : ∃ it,
      CaptureIter.new sampleCapture .default .strict = .ok it ∧
        ∃ out, Index.collect it [] = .ok out :=
    ⟨_, rfl, collects_record rfl rfl (collects_record rfl rfl (collects_done _ rfl))⟩
  have hindex : Index.build sampleCapture .default =
      .ok ⟨BitVec.ofNat 64 sampleCapture.length, Sha256.digest sampleCapture, entries⟩ :=
    bind_eq_ok.2 ⟨it, hnew, bind_eq_ok.2 ⟨entries, hcollect, rfl⟩⟩
  exact ⟨_, bind_eq_ok.2 ⟨_, hindex, rfl⟩⟩

theorem verifiedIndex_exact_sample : ∃ v it records,
    VerifiedIndex.build sampleCapture .default = .ok v ∧
    CaptureIter.new sampleCapture .default .strict = .ok it ∧
    Drains CaptureIter.next it records none ∧
    (∀ k p data, (packets records)[k]? = some (p, data) → v.packet (k + 1) = .ok data) ∧
    ∃ q, v.timeRange 0 20000000000 = .ok q ∧ q.frames.Disjoint q.unresolvedFrames := by
  obtain ⟨v, hv⟩ := sampleCapture_builds
  obtain ⟨-, hquery⟩ := verifiedIndex_exact sampleCapture .default (by decide)
  obtain ⟨it, records, hnew, hdrains, hpacket, -, hrange⟩ := hquery v (.inl hv)
  obtain ⟨q, hq, -, -, -, hdisjoint⟩ := hrange 0 20000000000 (by decide)
  exact ⟨v, it, records, hv, hnew, hdrains, hpacket, q, hq, hdisjoint⟩

end PcapEvidence.CaptureIndex
