import PcapEvidence.CaptureClock
import PcapEvidence.CaptureLayout

/-!
# Classic captures read back

What `PcapWriter` writes is a chain of records for the decoder: the global header and one packet
record for each successful call, with its data, its original length and its instant. A call fails
without writing exactly when the packet does not fit the file.
-/

namespace PcapEvidence

open Method

theorem Output.writeEach_sound {o : Output} (h : o.fault = none) (pieces : List (List U8)) :
    writeEach pieces o = (.ok (), { o with written := o.written ++ pieces.flatten }) := by
  induction pieces generalizing o with
  | nil =>
    rw [List.flatten_nil, List.append_nil]
    rfl
  | cons data rest ih =>
    have hone : writeAll data o = (.ok (), { o with written := o.written ++ data }) := by
      rw [writeAll, h]
    have hrest := ih (o := { o with written := o.written ++ data }) h
    rw [writeEach, bind_of_ok hone]
    refine hrest.trans ?_
    rw [List.flatten_cons, List.append_assoc]

namespace PcapWriter

structure PacketCall where
  timestamp : Timestamp
  originalLen : U32
  data : List U8

def apply (c : PacketCall) : Method PcapWriter Error Unit :=
  packet c.timestamp c.originalLen c.data

def run : List PacketCall → Method PcapWriter Error Unit
  | [] => pure ()
  | c :: rest => do
    apply c
    run rest

def Fits (limits : Limits) (snaplen : U32) (c : PacketCall) : Prop :=
  c.data.length ≤ limits.maxPacketBytes ∧ c.data.length ≤ snaplen.toNat ∧
    c.data.length ≤ c.originalLen.toNat

def Sound (w : PcapWriter) : Prop := w.failed = false ∧ w.output.fault = none

def rawPacket (w : PcapWriter) (c : PacketCall) (parts : U32 × U32) : List U8 :=
  packetHeader w.endian parts.1 parts.2 (BitVec.ofNat 32 c.data.length) c.originalLen ++ c.data

def extended (w : PcapWriter) (raw : List U8) : PcapWriter :=
  { w with output := { w.output with written := w.output.written ++ raw } }

theorem apply_cases {w : PcapWriter} (h : w.Sound) (c : PacketCall) :
    (¬ Fits w.limits w.snaplen c ∧ ∃ e, apply c w = (.error e, w)) ∨
      (∃ e, c.timestamp.legacyParts w.nanos = .error e ∧ apply c w = (.error e, w)) ∨
      (Fits w.limits w.snaplen c ∧ ∃ parts, c.timestamp.legacyParts w.nanos = .ok parts ∧
        apply c w = (.ok (), w.extended (w.rawPacket c parts))) := by
  unfold apply packet
  rw [read_bind, if_neg (by simp [h.1])]
  by_cases hfits : Fits w.limits w.snaplen c
  · obtain ⟨hbudget, hsnap, horig⟩ := hfits
    have hsmall : ¬ c.data.length ≥ 2 ^ 32 := by
      have := w.snaplen.isLt
      omega
    rw [if_neg (by omega)]
    right
    cases hparts : c.timestamp.legacyParts w.nanos with
    | error e => exact Or.inl ⟨e, rfl, rfl⟩
    | ok parts =>
      refine Or.inr ⟨⟨hbudget, hsnap, horig⟩, parts, rfl, ?_⟩
      rw [lift_bind rfl, if_neg hsmall, emit, Output.writeEach_sound h.2]
      simp [extended, rawPacket]
  · left
    refine ⟨hfits, ?_⟩
    rw [if_pos (by unfold Fits at hfits; omega)]
    exact ⟨_, rfl⟩

theorem Sound.apply {w w' : PcapWriter} (h : w.Sound) {c : PacketCall}
    (hc : PcapWriter.apply c w = (.ok (), w')) :
    Fits w.limits w.snaplen c ∧ ∃ parts, c.timestamp.legacyParts w.nanos = .ok parts ∧
      w' = w.extended (w.rawPacket c parts) := by
  rcases apply_cases h c with ⟨-, e, he⟩ | ⟨e, -, he⟩ | ⟨hfits, parts, hparts, hok⟩
  · cases he.symm.trans hc
  · cases he.symm.trans hc
  · exact ⟨hfits, parts, hparts, (congrArg Prod.snd (hok.symm.trans hc)).symm⟩

end PcapWriter

namespace Decoder

/-- The decoder state in a classic capture between two packets. -/
structure Classic (d : Decoder) (w : PcapWriter) (linkWord : U32) : Prop where
  format : d.format = some .pcap
  endian : d.endian = w.endian
  legacy : d.legacy = some ⟨w.endian, w.nanos, w.snaplen, linkWord⟩
  mode : d.mode = .strict
  limits : d.limits = w.limits
  sectionEnd : d.sectionEnd = none

def classicPacket (linkWord : U32) (frame : ℕ) (c : PcapWriter.PacketCall) (t : Timestamp) :
    PacketMeta where
  frame := frame
  sectionId := 0
  interface := 0
  linkType := linkWord &&& 0xffff
  capturedLen := BitVec.ofNat 32 c.data.length
  originalLen := c.originalLen
  dataOffset := 16
  timestamp := some t

theorem Classic.emits {d : Decoder} {w : PcapWriter} {linkWord : U32} (h : d.Classic w linkWord)
    {c : PcapWriter.PacketCall} (hfits : PcapWriter.Fits w.limits w.snaplen c) {parts : U32 × U32} {t : Timestamp}
    (hlegacy : Timestamp.legacy parts.1 parts.2 w.nanos = .ok t) (offset : ℕ) :
    Emits d (w.rawPacket c parts) offset
      ⟨w.endian, .packet (classicPacket linkWord d.nextFrame c t), [], []⟩ d.advanced := by
  obtain ⟨hbudget, hsnap, horig⟩ := hfits
  have hcap : (BitVec.ofNat 32 c.data.length).toNat = c.data.length := by
    have := w.snaplen.isLt
    rw [BitVec.toNat_ofNat, Nat.mod_eq_of_lt (by omega)]
  have hlen : (w.rawPacket c parts).length = c.data.length + 16 := by
    simp [PcapWriter.rawPacket, PcapWriter.packetHeader]
    omega
  -- the four header words, whatever follows
  have hwords (rest : List U8) : w.endian.u32 (w.rawPacket c parts ++ rest) 0 = parts.1 ∧
      w.endian.u32 (w.rawPacket c parts ++ rest) 4 = parts.2 ∧
      w.endian.u32 (w.rawPacket c parts ++ rest) 8 = BitVec.ofNat 32 c.data.length ∧
      w.endian.u32 (w.rawPacket c parts ++ rest) 12 = c.originalLen := by
    simp [PcapWriter.rawPacket, PcapWriter.packetHeader, Endian.u32_append_right,
      Endian.u32_putU32]
  refine ⟨fun rest hword => ?_, ?_, rfl, rfl⟩
  · have hlong : ¬ (w.rawPacket c parts ++ rest).length < 16 := by
      rw [List.length_append, hlen]
      omega
    rw [required, checkedAdd_of_lt hword]
    simp only [h.format]
    rw [if_neg hlong, h.endian, (hwords rest).2.2.1, hcap, h.limits, if_neg (by omega),
      checkedAdd_of_lt (by rw [List.length_append, hlen] at hword; omega), hlen]
  · have hwords' := hwords []
    rw [List.append_nil] at hwords'
    obtain ⟨hsec, hfrac, hcapWord, horigWord⟩ := hwords'
    have hlengths : validateLengths (BitVec.ofNat 32 c.data.length) c.originalLen w.snaplen d.mode
        offset = .ok [] := by
      rw [validateLengths, if_neg]
      rw [hcap]
      omega
    have htime : d.legacyTime ⟨w.endian, w.nanos, w.snaplen, linkWord⟩ (w.rawPacket c parts) offset =
        .ok (some t, []) := by
      rw [legacyTime, h.endian, hsec, hfrac, hlegacy]
    rw [decodeBody, read_bind, if_neg (by simp [h.format]), if_pos h.format, decodeLegacyPacket,
      read_bind]
    simp only [h.legacy, h.endian, hcapWord, horigWord]
    rw [lift_bind hlengths, lift_bind htime]
    rfl

theorem emits_header {d : Decoder} (hformat : d.format = none) (endian : Endian) (nanos : Bool)
    (linkType : U16) {snaplen : U32} (hsnaplen : snaplen ≠ 0) :
    Emits d (PcapWriter.header endian nanos linkType snaplen) 0
      ⟨endian, .legacyHeader ⟨endian, nanos, snaplen, linkType.setWidth 32⟩, [], []⟩
      { d with
        format := some .pcap
        endian := endian
        legacy := some ⟨endian, nanos, snaplen, linkType.setWidth 32⟩ } := by
  have hlen : (PcapWriter.header endian nanos linkType snaplen).length = 24 := by
    simp [PcapWriter.header]
  have hmagic (rest : List U8) :
      ((PcapWriter.header endian nanos linkType snaplen ++ rest).take 4 ≠ sectionMagic) ∧
      legacyMagic ((PcapWriter.header endian nanos linkType snaplen ++ rest).take 4) =
        some (endian, nanos) := by
    have htake : (PcapWriter.header endian nanos linkType snaplen ++ rest).take 4 =
        endian.putU32 (if nanos then 0xa1b23c4d else 0xa1b2c3d4) := by
      simp [PcapWriter.header]
    rw [htake]
    cases endian <;> cases nanos <;> decide
  refine ⟨fun rest hword => ?_, ?_, rfl, rfl⟩
  · rw [required, checkedAdd_of_lt hword]
    simp only [hformat]
    rw [if_neg (by rw [List.length_append, hlen]; omega), if_neg (hmagic rest).1,
      (hmagic rest).2, hlen]
    rfl
  · have hmagic' := hmagic []
    rw [List.append_nil] at hmagic'
    have hversion : endian.u16 (PcapWriter.header endian nanos linkType snaplen) 4 = 2 ∧
        endian.u16 (PcapWriter.header endian nanos linkType snaplen) 6 = 4 := by
      simp [PcapWriter.header, Endian.u16_append_right, Endian.u16_putU16]
    have hfields : endian.u32 (PcapWriter.header endian nanos linkType snaplen) 16 = snaplen ∧
        endian.u32 (PcapWriter.header endian nanos linkType snaplen) 20 =
          linkType.setWidth 32 := by
      have hlast := endian.u32_putU32 [] (linkType.setWidth 32)
      rw [List.append_nil] at hlast
      simp [PcapWriter.header, Endian.u32_append_right, Endian.u32_putU32, hlast]
    rw [decodeBody, read_bind, if_pos ⟨hformat, hmagic'.1⟩, decodeLegacyHeader, hmagic'.2]
    simp only [hfields.1, hfields.2]
    rw [if_neg (by simp [hversion.1, hversion.2]), if_neg hsnaplen]
    rfl

end Decoder

namespace PcapWriter

open Decoder IterTrace

def SamePacket (c : PacketCall) (r : Record) : Prop :=
  ∃ p t, r.packet = some (p, c.data) ∧ p.originalLen = c.originalLen ∧ p.timestamp = some t ∧
    t.unixNanos = c.timestamp.unixNanos

theorem samePacket_recordOf {w : PcapWriter} {c : PacketCall} {parts : U32 × U32} {t : Timestamp}
    (hfits : Fits w.limits w.snaplen c) (ht : t.unixNanos = c.timestamp.unixNanos) (linkWord : U32)
    (frame offset : ℕ) :
    SamePacket c (recordOf (w.rawPacket c parts) offset
      ⟨w.endian, .packet (classicPacket linkWord frame c t), [], []⟩) := by
  have hcap : (BitVec.ofNat 32 c.data.length).toNat = c.data.length := by
    have := w.snaplen.isLt
    have := hfits.2.1
    rw [BitVec.toNat_ofNat, Nat.mod_eq_of_lt (by omega)]
  refine ⟨classicPacket linkWord frame c t, t, ?_, rfl, rfl, ht⟩
  have hheader : (packetHeader w.endian parts.1 parts.2 (BitVec.ofNat 32 c.data.length)
      c.originalLen).length = 16 := by
    simp [packetHeader]
  change some (_, sliceOf (w.rawPacket c parts) 16 (16 + (BitVec.ofNat 32 c.data.length).toNat)) = _
  rw [hcap, sliceOf, rawPacket, List.take_of_length_le (by rw [List.length_append, hheader]),
    List.drop_left' hheader]

theorem run_chain {w w' : PcapWriter} {linkWord : U32} {d : Decoder} (hs : w.Sound)
    (hd : d.Classic w linkWord) {calls : List PacketCall} (hrun : run calls w = (.ok (), w'))
    (offset : ℕ) :
    ∃ bytes records u, w'.output.written = w.output.written ++ bytes ∧
      Chain d offset bytes records u ∧ u.Classic w' linkWord ∧ w'.Sound ∧
      w'.limits = w.limits ∧ w'.snaplen = w.snaplen ∧ w'.nanos = w.nanos ∧
      List.Forall₂ SamePacket calls records := by
  induction calls generalizing w d offset with
  | nil =>
    cases hrun
    exact ⟨[], [], d, (List.append_nil _).symm, .nil d offset, hd, hs, rfl, rfl, rfl, .nil⟩
  | cons c rest ih =>
    obtain ⟨⟨⟩, w₁, hone, hrest⟩ := bind_ok hrun
    obtain ⟨hfits, parts, hparts, rfl⟩ := hs.apply hone
    obtain ⟨t, hlegacy, ht⟩ := Timestamp.legacy_legacyParts hparts
    have hd' : (d.advanced.counted).Classic (w.extended (w.rawPacket c parts)) linkWord :=
      ⟨hd.format, hd.endian, hd.legacy, hd.mode, hd.limits, hd.sectionEnd⟩
    obtain ⟨bytes, records, u, hbytes, hchain, hu, hs', hlimits, hsnap, hnanos, hsame⟩ :=
      ih (w := w.extended (w.rawPacket c parts)) hs hd' hrest
        (offset + (w.rawPacket c parts).length)
    refine ⟨_, _, u, ?_, .cons (hd.emits hfits hlegacy offset) hchain, hu, hs', hlimits, hsnap,
      hnanos, .cons (samePacket_recordOf hfits ht _ _ _) hsame⟩
    rw [hbytes, ← List.append_assoc]
    rfl

theorem apply_fails_iff {w : PcapWriter} (h : w.Sound) (c : PacketCall) :
    ((apply c w).1 ≠ .ok () ↔ ¬ Fits w.limits w.snaplen c ∨
      127 < c.timestamp.resolution.exponent ∨ ¬ c.timestamp.Representable w.nanos) ∧
      ((apply c w).1 ≠ .ok () → (apply c w).2 = w) := by
  have hparts := c.timestamp.legacyParts_ok_iff w.nanos
  rcases apply_cases h c with ⟨hfits, e, he⟩ | ⟨e, herr, he⟩ | ⟨hfits, parts, hok, he⟩
  · rw [he]
    exact ⟨⟨fun _ => Or.inl hfits, fun _ => by simp⟩, fun _ => rfl⟩
  · rw [he]
    refine ⟨⟨fun _ => Or.inr ?_, fun _ => by simp⟩, fun _ => rfl⟩
    by_contra hn
    push Not at hn
    obtain ⟨parts, hok⟩ := hparts.2 hn
    cases herr.symm.trans hok
  · rw [he]
    obtain ⟨hexp, hrep⟩ := hparts.1 ⟨parts, hok⟩
    refine ⟨⟨fun hn => absurd rfl hn, fun hbad => ?_⟩, fun hn => absurd rfl hn⟩
    rcases hbad with hbad | hbad | hbad
    · exact absurd hfits hbad
    · omega
    · exact absurd hrep hbad

theorem new_ok {endian : Endian} {nanos : Bool} {linkType : U16} {snaplen : U32} {limits : Limits}
    {w : PcapWriter} (h : new ⟨[], none⟩ endian nanos linkType snaplen limits = .ok w) :
    limits.validate = .ok () ∧ snaplen ≠ 0 ∧
      w = ⟨⟨header endian nanos linkType snaplen, none⟩, endian, nanos, snaplen, limits, false⟩ := by
  obtain ⟨⟨⟩, hlimits, h⟩ := bind_eq_ok.1 h
  split_ifs at h with hsnaplen
  exact ⟨hlimits, hsnaplen, (Except.ok.inj h).symm⟩

/-- The iterator yields the global header and one packet for each call, and ends cleanly. A further
call fails, and writes nothing, exactly when the packet does not fit the format. -/
theorem classic_round_trip {endian : Endian} {nanos : Bool} {linkType : U16} {snaplen : U32}
    {limits : Limits} {w₀ w : PcapWriter} {calls : List PacketCall}
    (hnew : new ⟨[], none⟩ endian nanos linkType snaplen limits = .ok w₀)
    (hrun : run calls w₀ = (.ok (), w)) :
    (w.output.written.length ≤ limits.maxInputBytes → w.output.written.length < wordBound →
      calls.length + 1 ≤ limits.maxRecords →
      ∃ it header packets, CaptureIter.new w.output.written limits .strict = .ok it ∧
        Drains CaptureIter.next it (header :: packets) none ∧
        header.kind = .legacyHeader ⟨endian, nanos, snaplen, linkType.setWidth 32⟩ ∧
        List.Forall₂ SamePacket calls packets) ∧
    ∀ c, ((apply c w).1 ≠ .ok () ↔ ¬ Fits limits snaplen c ∨
      127 < c.timestamp.resolution.exponent ∨ ¬ c.timestamp.Representable nanos) ∧
      ((apply c w).1 ≠ .ok () → (apply c w).2 = w) := by
  obtain ⟨hvalid, hsnaplen, rfl⟩ := new_ok hnew
  let d₀ : Decoder := ⟨limits, .strict, none, .little, none, [], 0, 0, none, 1, 0⟩
  let d₁ : Decoder := { d₀ with
    format := some .pcap
    endian := endian
    legacy := some ⟨endian, nanos, snaplen, linkType.setWidth 32⟩ }
  have hemits := emits_header (d := d₀) rfl endian nanos linkType hsnaplen
  obtain ⟨bytes, records, u, hbytes, hchain, hu, hs, hlimits, hsnap, hnanos, hsame⟩ :=
    run_chain (d := d₁.counted) ⟨rfl, rfl⟩ ⟨rfl, rfl, rfl, rfl, rfl, rfl⟩ hrun
      (0 + (PcapWriter.header endian nanos linkType snaplen).length)
  refine ⟨fun hinput hword hbudget => ?_, fun c => ?_⟩
  · refine ⟨⟨w.output.written, 0, d₀, false⟩, _, records, ?_,
      CaptureIter.drains_of_chain (.cons hemits hchain) rfl (Nat.zero_le _) hbytes hword ?_ ?_, rfl,
      hsame⟩
    · rw [CaptureIter.new, if_neg (by omega), Decoder.new, hvalid]
      rfl
    · change 0 + (records.length + 1) ≤ limits.maxRecords
      rw [← hsame.length_eq]
      omega
    · rw [Decoder.finish, hu.format, hu.sectionEnd]
      rfl
  · have hfails := apply_fails_iff hs c
    rwa [hlimits, hsnap, hnanos] at hfails

def sampleCalls : List PacketCall :=
  [⟨⟨1500000, .decimal 6, 0⟩, 3, [1, 2, 3]⟩, ⟨⟨5, .binary 1, 7⟩, 9, [4]⟩]

theorem classic_round_trip_sample : ∃ w₀ w,
    new ⟨[], none⟩ .big false 101 64 .default = .ok w₀ ∧ run sampleCalls w₀ = (.ok (), w) ∧
      ∃ it header packets, CaptureIter.new w.output.written .default .strict = .ok it ∧
        Drains CaptureIter.next it (header :: packets) none ∧
        header.kind = .legacyHeader ⟨.big, false, 64, (101 : U16).setWidth 32⟩ ∧
        List.Forall₂ SamePacket sampleCalls packets := by
  have hex : ∃ w₀ w, new ⟨[], none⟩ .big false 101 64 .default = .ok w₀ ∧
      run sampleCalls w₀ = (.ok (), w) ∧ w.output.written.length = 60 := ⟨_, _, rfl, rfl, rfl⟩
  obtain ⟨w₀, w, hnew, hrun, hlen⟩ := hex
  refine ⟨w₀, w, hnew, hrun, (classic_round_trip hnew hrun).1 ?_ ?_ (by decide)⟩
  · rw [hlen]
    decide
  · rw [hlen]
    decide

/-- The zero instant of a clock whose resolution has no encoding is refused all the same. -/
theorem refuses_representable : ∃ w e, new ⟨[], none⟩ .little true 1 64 .default = .ok w ∧
    Fits .default 64 ⟨⟨0, .decimal 200, 5⟩, 0, []⟩ ∧
    (⟨0, .decimal 200, 5⟩ : Timestamp).Representable true ∧
    apply ⟨⟨0, .decimal 200, 5⟩, 0, []⟩ w = (.error e, w) := by
  refine ⟨_, _, rfl, ⟨by decide, by decide, by decide⟩, ⟨5, 0, by norm_num, by decide, ?_⟩, rfl⟩
  simp [Timestamp.seconds]

end PcapWriter

end PcapEvidence
