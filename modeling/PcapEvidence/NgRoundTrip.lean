import PcapEvidence.ClassicRoundTrip
import PcapEvidence.CaptureAgreement

/-!
# PCAPNG captures read back

What `PcapNgWriter` writes is a section header block and one block for each successful call. The
decoder finds each block by its leading length, checks the trailing one, and rebuilds the interface
or packet that was given to the writer.
-/

namespace PcapEvidence

open Method

def framed (e : Endian) (type : U32) (body : List U8) : List U8 :=
  e.putU32 type ++ e.putU32 (BitVec.ofNat 32 (body.length + 12)) ++ body ++
    e.putU32 (BitVec.ofNat 32 (body.length + 12))

section Framed

variable {e : Endian} {type : U32} {body : List U8}

@[simp] theorem length_framed : (framed e type body).length = body.length + 12 := by
  simp [framed]
  omega

theorem take_framed (rest : List U8) : (framed e type body ++ rest).take 4 = e.putU32 type := by
  simp [framed]

theorem framed_append (rest : List U8) : framed e type body ++ rest =
    (e.putU32 type ++ e.putU32 (BitVec.ofNat 32 (body.length + 12))) ++
      (body ++ (e.putU32 (BitVec.ofNat 32 (body.length + 12)) ++ rest)) := by
  simp [framed]

theorem u32_framed_type (rest : List U8) : e.u32 (framed e type body ++ rest) 0 = type := by
  rw [framed_append, List.append_assoc]
  exact e.u32_putU32 _ type

theorem u32_framed_length (rest : List U8) :
    e.u32 (framed e type body ++ rest) 4 = BitVec.ofNat 32 (body.length + 12) := by
  rw [framed_append]
  exact e.u32_putU32_second type _

theorem u32_framed_trailer :
    e.u32 (framed e type body) ((framed e type body).length - 4) =
      BitVec.ofNat 32 (body.length + 12) := by
  have hlast := e.u32_putU32 [] (BitVec.ofNat 32 (body.length + 12))
  rw [List.append_nil] at hlast
  have hsplit : (framed e type body).length - 4 = (e.putU32 type ++
      e.putU32 (BitVec.ofNat 32 (body.length + 12)) ++ body).length := by
    simp
    omega
  rw [hsplit, framed, e.u32_append_right le_rfl, Nat.sub_self, hlast]

end Framed

namespace Decoder

structure BlockFits (limits : Limits) (body : List U8) : Prop where
  budget : body.length + 12 ≤ limits.maxBlockBytes
  aligned : (body.length + 12) % 4 = 0
  word : body.length + 12 < 2 ^ 32

theorem BlockFits.toNat {limits : Limits} {body : List U8} (h : BlockFits limits body) :
    (BitVec.ofNat 32 (body.length + 12)).toNat = body.length + 12 := by
  rw [BitVec.toNat_ofNat, Nat.mod_eq_of_lt h.word]

variable {d : Decoder} {e : Endian} {type : U32} {body : List U8} {offset : ℕ}

theorem requiredBlock_framed (hfits : BlockFits d.limits body)
    (hendian : ∀ rest, d.blockEndian (framed e type body ++ rest) offset = .ok e)
    (hsection : e.putU32 type = sectionMagic → 16 ≤ body.length) (rest : List U8) :
    d.requiredBlock (framed e type body ++ rest) offset = .ok (framed e type body).length := by
  have hlen : (framed e type body ++ rest).length = body.length + 12 + rest.length := by
    rw [List.length_append, length_framed]
  obtain ⟨hbudget, haligned, hword⟩ := hfits
  rw [requiredBlock, if_neg (by omega), take_framed, if_neg (by omega), hendian rest]
  simp only [bind, Except.bind, u32_framed_length, BlockFits.toNat ⟨hbudget, haligned, hword⟩]
  rw [if_neg, if_neg (by omega), length_framed]
  rintro (hsmall | hodd | ⟨hmagic, hshort⟩)
  · omega
  · exact hodd haligned
  · have := hsection hmagic
    omega

theorem decodeBlock_framed (hfits : BlockFits d.limits body)
    (hendian : d.blockEndian (framed e type body) offset = .ok e) (hend : d.sectionEnd = none) :
    decodeBlock (framed e type body) offset d = blockBody e (framed e type body) offset d := by
  have hcheck : d.checkSectionEnd ((framed e type body).take 4 = sectionMagic) offset
      (framed e type body).length = .ok () := by
    rw [checkSectionEnd, hend]
  rw [decodeBlock, read_bind, lift_bind hendian, u32_framed_trailer, hfits.toNat, length_framed,
    if_neg (by simp), ← length_framed, lift_bind hcheck]

structure Ng (d : Decoder) (w : PcapNgWriter) : Prop where
  format : d.format = some .pcapNg
  endian : d.endian = w.endian
  interfaces : d.interfaces = w.interfaces
  sectionId : d.sectionId = 0
  sectionEnd : d.sectionEnd = none
  mode : d.mode = .strict
  limits : d.limits = w.limits

theorem emits_section {d : Decoder} (hformat : d.format = none) (hend : d.sectionEnd = none)
    (hseen : d.sectionsSeen = 0) (hbudget : 28 ≤ d.limits.maxBlockBytes) (e : Endian) :
    Emits d (framed e SHB (PcapNgWriter.sectionBody e)) 0
      ⟨e, .sectionHeader 0 none, [], []⟩
      { d with
        sectionsSeen := 1
        sectionId := 0
        sectionEnd := none
        endian := e
        interfaces := []
        format := some .pcapNg } := by
  have hlen : (PcapNgWriter.sectionBody e).length = 16 := by simp [PcapNgWriter.sectionBody]
  have hmagic : e.putU32 SHB = sectionMagic := by cases e <;> decide
  have hfits : BlockFits d.limits (PcapNgWriter.sectionBody e) := by
    constructor <;> rw [hlen] <;> omega
  have hslice (rest : List U8) : sliceOf (framed e SHB (PcapNgWriter.sectionBody e) ++ rest) 8 12 =
      e.putU32 0x1a2b3c4d := by
    simp [sliceOf, framed, PcapNgWriter.sectionBody, List.take_append, List.drop_append]
  have hendian (rest : List U8) :
      d.blockEndian (framed e SHB (PcapNgWriter.sectionBody e) ++ rest) 0 = .ok e := by
    rw [blockEndian, take_framed, if_pos hmagic, ngEndian, hslice]
    cases e <;> rfl
  have hendian' : d.blockEndian (framed e SHB (PcapNgWriter.sectionBody e)) 0 = .ok e := by
    simpa using hendian []
  have htake : (framed e SHB (PcapNgWriter.sectionBody e)).take 4 = sectionMagic := by
    have htake := @take_framed e SHB (PcapNgWriter.sectionBody e) []
    rwa [List.append_nil, hmagic] at htake
  refine ⟨fun rest hword => ?_, ?_, rfl, rfl⟩
  · rw [required, checkedAdd_of_lt hword]
    simp only [hformat]
    rw [if_neg (by rw [List.length_append, length_framed]; omega), take_framed, if_pos hmagic]
    exact requiredBlock_framed hfits hendian (fun _ => by omega) rest
  · have htype := @u32_framed_type e SHB (PcapNgWriter.sectionBody e) []
    rw [List.append_nil] at htype
    have hversion : e.u16 (framed e SHB (PcapNgWriter.sectionBody e)) 12 = 1 ∧
        e.u16 (framed e SHB (PcapNgWriter.sectionBody e)) 14 = 0 := by
      simp [framed, PcapNgWriter.sectionBody, Endian.u16_append_right, Endian.u16_putU16]
    have hdeclared : (e.u64 (framed e SHB (PcapNgWriter.sectionBody e)) 16).toInt = -1 := by
      have hword : e.u64 (framed e SHB (PcapNgWriter.sectionBody e)) 16 = -1 := by
        simp [framed, PcapNgWriter.sectionBody, Endian.u64_append_right, Endian.u64_putU64]
      rw [hword]
      rfl
    have hoptions : parseOptions (framed e SHB (PcapNgWriter.sectionBody e)) 24
        ((framed e SHB (PcapNgWriter.sectionBody e)).length - 4) e 0 d.limits = .ok [] := by
      rw [length_framed, hlen]
      rfl
    rw [decodeBody, read_bind, if_neg (by simp [htake]), if_neg (by simp [hformat]),
      decodeBlock_framed hfits hendian' hend, blockBody, htype, if_pos rfl, sectionBlock, read_bind,
      hdeclared, if_neg (by simp [hversion.1, hversion.2]), if_neg (by omega), if_neg (by omega),
      lift_bind hoptions, lift_bind (show sectionStop (-1) 0 _ = .ok none from rfl),
      if_neg (by rw [hseen]; decide), update_bind]
    simp only [hseen]
    rfl

theorem Ng.emits {d t : Decoder} {w : PcapNgWriter} (h : d.Ng w) {type : U32} {body : List U8}
    {out : Body} {offset : ℕ} (hfits : BlockFits w.limits body)
    (hplain : w.endian.putU32 type ≠ sectionMagic)
    (hbody : blockBody w.endian (framed w.endian type body) offset d = (.ok out, t))
    (hlimits : t.limits = d.limits) (hrecords : t.records = d.records) :
    Emits d (framed w.endian type body) offset out t := by
  have hfits' : BlockFits d.limits body := by
    rw [h.limits]
    exact hfits
  have hendian (rest : List U8) :
      d.blockEndian (framed w.endian type body ++ rest) offset = .ok w.endian := by
    rw [blockEndian, take_framed, if_neg hplain, h.endian]
  have hendian' : d.blockEndian (framed w.endian type body) offset = .ok w.endian := by
    simpa using hendian []
  refine ⟨fun rest hword => ?_, ?_, hlimits, hrecords⟩
  · rw [required, checkedAdd_of_lt hword]
    simp only [h.format]
    exact requiredBlock_framed hfits' hendian (fun hmagic => absurd hmagic hplain) rest
  · rw [decodeBody, read_bind, if_neg (by simp [h.format]), if_neg (by simp [h.format]),
      decodeBlock_framed hfits' hendian' h.sectionEnd, hbody]

def interfaceOptions : List OptionMeta := [⟨9, 20, 1⟩, ⟨14, 28, 8⟩]

def resolutionOctets (res : U8) : List U8 := [res, 0, 0, 0]

@[simp] theorem length_resolutionOctets (res : U8) : (resolutionOctets res).length = 4 := by
  simp [resolutionOctets]

def interfaceBytes (e : Endian) (linkType : U16) (snaplen : U32) (res : U8) (offsetSeconds : U64) :
    List U8 :=
  e.putU16 linkType ++ e.putU16 0 ++ e.putU32 snaplen ++
    (e.putU16 9 ++ e.putU16 1 ++ resolutionOctets res) ++
    (e.putU16 14 ++ e.putU16 8 ++ e.putU64 offsetSeconds) ++ (e.putU16 0 ++ e.putU16 0)

theorem option_ok {e : Endian} {code : U16} {value body : List U8} {n pad : ℕ}
    (hn : body.length + 4 + value.length = n) (hvalue : value.length < 2 ^ 16)
    (hword : n + 3 < wordBound) (hpad : (n + 3) / 4 * 4 - n = pad) :
    PcapNgWriter.option e code value body = .ok (body ++ (e.putU16 code ++
      e.putU16 (BitVec.ofNat 16 value.length) ++ (value ++ List.replicate pad 0))) := by
  have hlen : (body ++ e.putU16 code ++ e.putU16 (BitVec.ofNat 16 value.length) ++ value).length =
      n := by
    simp
    omega
  rw [PcapNgWriter.option, if_neg (by omega)]
  simp only [hlen, align4, checkedAdd_of_lt hword, bind, Except.bind, hpad]
  simp

theorem interfaceBody_eq (e : Endian) (linkType : U16) (snaplen : U32) (res : U8)
    (offsetSeconds : U64) : PcapNgWriter.interfaceBody e linkType snaplen res offsetSeconds =
      .ok (interfaceBytes e linkType snaplen res offsetSeconds) := by
  have hword : 36 < wordBound := by decide
  refine bind_eq_ok.2 ⟨_, @option_ok _ _ _ _ 13 3 ?_ (by simp) ?_ rfl, bind_eq_ok.2
    ⟨_, @option_ok _ _ _ _ 28 0 ?_ (by simp) ?_ rfl, ?_⟩⟩
  · simp
  · omega
  · simp
  · omega
  · rw [@option_ok _ _ _ _ 32 0 (by simp) (by simp) (by omega) rfl, interfaceBytes]
    simp [resolutionOctets, List.replicate]

@[simp] theorem length_interfaceBytes (e : Endian) (linkType : U16) (snaplen : U32) (res : U8)
    (offsetSeconds : U64) :
    (interfaceBytes e linkType snaplen res offsetSeconds).length = 32 := by
  simp [interfaceBytes]

theorem alignedEnd_eq_ok {p n stop : ℕ} {field : String} (h : alignedEnd p n field = .ok stop) :
    stop = p + (n + 3) / 4 * 4 := by
  obtain ⟨padded, hpadded, hstop⟩ := bind_eq_ok.1 h
  rw [align4] at hpadded
  cases hsum : checkedAdd n 3 with
  | none =>
    rw [hsum] at hpadded
    cases hpadded
  | some v =>
    obtain ⟨-, rfl⟩ := (checkedAdd_eq_some_iff _ _ _).1 hsum
    rw [hsum] at hpadded
    cases hpadded
    cases hend : checkedAdd p ((n + 3) / 4 * 4) with
    | none =>
      rw [hend] at hstop
      cases hstop
    | some e =>
      rw [hend] at hstop
      cases hstop
      exact ((checkedAdd_eq_some_iff _ _ _).1 hend).2

section Loop

variable {raw : List U8} {stop offset fuel p n next : ℕ} {e : Endian} {limits : Limits}
  {out : List OptionMeta} {code : U16}

theorem parseOptionsLoop_value (hroom : p + 4 ≤ stop) (hcode : e.u16 raw p = code)
    (hn : (e.u16 raw (p + 2)).toNat = n) (hne : code ≠ 0) (hout : out.length < limits.maxOptions)
    (hnext : alignedEnd (p + 4) n "option_length" = .ok next) (hstop : next ≤ stop)
    (hcustom : code.toNat ∉ [2988, 2989, 19372, 19373]) :
    parseOptionsLoop raw stop e offset limits (fuel + 1) p out =
      parseOptionsLoop raw stop e offset limits fuel next (out ++ [⟨code, p + 4, n⟩]) := by
  rw [parseOptionsLoop, if_pos (by omega), if_neg (by omega)]
  simp only [hcode, hn]
  rw [if_neg hne, if_neg (by omega), hnext]
  simp only [bind, Except.bind]
  rw [if_neg (by omega), if_neg (fun h => hcustom h.1)]

theorem parseOptionsLoop_end (hroom : p + 4 ≤ stop) (hcode : e.u16 raw p = 0)
    (hn : e.u16 raw (p + 2) = 0) :
    parseOptionsLoop raw stop e offset limits (fuel + 1) p out = .ok out := by
  rw [parseOptionsLoop, if_pos (by omega), if_neg (by omega)]
  simp [hcode, hn]

end Loop

section Interface

variable (e : Endian) (linkType : U16) (snaplen : U32) (res : U8) (offsetSeconds : U64)

theorem interface_fields :
    e.u16 (framed e 1 (interfaceBytes e linkType snaplen res offsetSeconds)) 8 = linkType ∧
    e.u32 (framed e 1 (interfaceBytes e linkType snaplen res offsetSeconds)) 12 = snaplen ∧
    byteAt (framed e 1 (interfaceBytes e linkType snaplen res offsetSeconds)) 20 = res ∧
    e.u64 (framed e 1 (interfaceBytes e linkType snaplen res offsetSeconds)) 28 =
      offsetSeconds := by
  have hres (rest : List U8) : byteAt (resolutionOctets res ++ rest) 0 = res := rfl
  simp [framed, interfaceBytes, Endian.u16_append_right, Endian.u16_putU16,
    Endian.u32_append_right, Endian.u32_putU32, Endian.u64_append_right, Endian.u64_putU64,
    byteAt_append_right, hres]

theorem interface_optionHeaders :
    e.u16 (framed e 1 (interfaceBytes e linkType snaplen res offsetSeconds)) 16 = 9 ∧
    e.u16 (framed e 1 (interfaceBytes e linkType snaplen res offsetSeconds)) 18 = 1 ∧
    e.u16 (framed e 1 (interfaceBytes e linkType snaplen res offsetSeconds)) 24 = 14 ∧
    e.u16 (framed e 1 (interfaceBytes e linkType snaplen res offsetSeconds)) 26 = 8 ∧
    e.u16 (framed e 1 (interfaceBytes e linkType snaplen res offsetSeconds)) 36 = 0 ∧
    e.u16 (framed e 1 (interfaceBytes e linkType snaplen res offsetSeconds)) 38 = 0 := by
  simp [framed, interfaceBytes, Endian.u16_append_right, Endian.u16_putU16]

theorem parseOptions_interface {limits : Limits} (hoptions : 2 ≤ limits.maxOptions) (offset : ℕ) :
    parseOptions (framed e 1 (interfaceBytes e linkType snaplen res offsetSeconds)) 16 40 e offset
      limits = .ok interfaceOptions := by
  obtain ⟨h16, h18, h24, h26, h36, h38⟩ :=
    interface_optionHeaders e linkType snaplen res offsetSeconds
  rw [parseOptions, show 40 - 16 = 24 from rfl,
    @parseOptionsLoop_value _ _ _ _ _ 1 24 _ _ _ _ (by decide) h16 (by rw [h18]; rfl) (by decide)
      (by simp; omega) rfl (by decide) (by decide),
    @parseOptionsLoop_value _ _ _ _ _ 8 36 _ _ _ _ (by decide) h24 (by rw [h26]; rfl) (by decide)
      (by simp; omega) rfl (by decide) (by decide),
    parseOptionsLoop_end (by decide) h36 h38]
  rfl

end Interface

end Decoder

namespace PcapNgWriter

open Decoder

def Sound (w : PcapNgWriter) : Prop := w.failed = false ∧ w.output.fault = none

def extended (w : PcapNgWriter) (raw : List U8) : PcapNgWriter :=
  { w with output := { w.output with written := w.output.written ++ raw } }

theorem Sound.block {w w' : PcapNgWriter} (h : w.Sound) {type : U32} {body : List U8}
    (hb : PcapNgWriter.block type body w = (.ok (), w')) :
    BlockFits w.limits body ∧ w' = w.extended (framed w.endian type body) := by
  rw [PcapNgWriter.block, read_bind] at hb
  obtain ⟨-, hb⟩ := guard_ok hb
  cases htotal : checkedAdd body.length 12 with
  | none =>
    rw [htotal] at hb
    cases hb
  | some total =>
    obtain ⟨-, rfl⟩ := (checkedAdd_eq_some_iff _ _ _).1 htotal
    rw [htotal] at hb
    obtain ⟨hbudget, hb⟩ := guard_ok hb
    obtain ⟨hword, hb⟩ := guard_ok hb
    refine ⟨⟨by omega, by omega, by omega⟩, ?_⟩
    rw [emit, Output.writeEach_sound h.2] at hb
    cases hb
    simp [extended, framed]

def declaring (w : PcapNgWriter) (iface : Interface) : PcapNgWriter :=
  { w with interfaces := w.interfaces ++ [iface] }

def declared (ids : ℕ) (linkType : U16) (snaplen : U32) (resolution : Resolution)
    (offsetSeconds : U64) : Interface :=
  ⟨0, BitVec.ofNat 32 ids, linkType.setWidth 32, snaplen, resolution, offsetSeconds⟩

theorem Sound.interface {w w' : PcapNgWriter} (h : w.Sound) {linkType : U16} {snaplen id : U32}
    {resolution : Resolution} {offsetSeconds : U64}
    (hi : PcapNgWriter.interface linkType snaplen resolution offsetSeconds w = (.ok id, w')) :
    w.interfaces.length < w.limits.maxInterfaces ∧ w.interfaces.length < 2 ^ 32 ∧
      ∃ res, resolution.toPcapng = .ok res ∧
        BlockFits w.limits (interfaceBytes w.endian linkType snaplen res offsetSeconds) ∧
        w' = (w.extended (framed w.endian 1
          (interfaceBytes w.endian linkType snaplen res offsetSeconds))).declaring
            (declared w.interfaces.length linkType snaplen resolution offsetSeconds) := by
  rw [PcapNgWriter.interface, read_bind] at hi
  obtain ⟨-, hi⟩ := guard_ok hi
  obtain ⟨hroom, hi⟩ := guard_ok hi
  obtain ⟨res, hres, hi⟩ := lift_bind_ok hi
  obtain ⟨hsmall, hi⟩ := guard_ok hi
  rw [interfaceBody_eq, lift_bind rfl] at hi
  obtain ⟨⟨⟩, w₁, hblock, hi⟩ := bind_ok hi
  obtain ⟨hfits, rfl⟩ := h.block hblock
  cases hi
  exact ⟨by omega, by omega, res, hres, hfits, rfl⟩

/-- The body of a packet block, padded to whole words. -/
def packetBytes (e : Endian) (id : U32) (ticks : U64) (originalLen : U32) (data : List U8) :
    List U8 :=
  e.putU32 id ++ e.putU32 (ticks.extractLsb' 32 32) ++ e.putU32 (ticks.extractLsb' 0 32) ++
    e.putU32 (BitVec.ofNat 32 data.length) ++ e.putU32 originalLen ++
    (data ++ List.replicate ((data.length + 3) / 4 * 4 - data.length) 0)

@[simp] theorem length_packetBytes (e : Endian) (id : U32) (ticks : U64) (originalLen : U32)
    (data : List U8) :
    (packetBytes e id ticks originalLen data).length = 20 + (data.length + 3) / 4 * 4 := by
  simp [packetBytes]
  omega

theorem packetBody_eq (e : Endian) (id : U32) (ticks : U64) (originalLen : U32) (data : List U8) :
    packetBody e id ticks (BitVec.ofNat 32 data.length) originalLen data
      (20 + (data.length + 3) / 4 * 4) = packetBytes e id ticks originalLen data := by
  have hpad : 20 + (data.length + 3) / 4 * 4 - (20 + data.length) =
      (data.length + 3) / 4 * 4 - data.length := by omega
  have hlen : (e.putU32 id ++ e.putU32 (ticks.extractLsb' 32 32) ++
      e.putU32 (ticks.extractLsb' 0 32) ++ e.putU32 (BitVec.ofNat 32 data.length) ++
      e.putU32 originalLen ++ data).length = 20 + data.length := by
    simp
    omega
  rw [packetBody]
  simp only [hlen, hpad]
  simp only [packetBytes, List.append_assoc]

structure PacketFits (limits : Limits) (iface : Interface) (timestamp : Timestamp)
    (originalLen : U32) (data : List U8) : Prop where
  resolution : timestamp.resolution = iface.resolution
  offsetSeconds : timestamp.offsetSeconds = iface.offsetSeconds
  budget : data.length ≤ limits.maxPacketBytes
  original : data.length ≤ originalLen.toNat
  snaplen : iface.snaplen ≠ 0 → data.length ≤ iface.snaplen.toNat

theorem Sound.packet {w w' : PcapNgWriter} (h : w.Sound) {id originalLen : U32}
    {timestamp : Timestamp} {data : List U8}
    (hp : PcapNgWriter.packet id timestamp originalLen data w = (.ok (), w')) :
    ∃ iface, w.interfaces[id.toNat]? = some iface ∧
      PacketFits w.limits iface timestamp originalLen data ∧
      BlockFits w.limits (packetBytes w.endian id timestamp.ticks originalLen data) ∧
      w' = w.extended (framed w.endian 6
        (packetBytes w.endian id timestamp.ticks originalLen data)) := by
  rw [PcapNgWriter.packet, read_bind] at hp
  obtain ⟨-, hp⟩ := guard_ok hp
  cases hiface : w.interfaces[id.toNat]? with
  | none =>
    rw [hiface] at hp
    cases hp
  | some iface =>
    rw [hiface] at hp
    obtain ⟨hclock, hp⟩ := guard_ok hp
    obtain ⟨hlengths, hp⟩ := guard_ok hp
    obtain ⟨total, htotal, hp⟩ := lift_bind_ok hp
    obtain ⟨-, hp⟩ := guard_ok hp
    obtain ⟨-, hp⟩ := guard_ok hp
    rw [alignedEnd_eq_ok htotal, packetBody_eq] at hp
    obtain ⟨hfits, rfl⟩ := h.block hp
    push Not at hclock hlengths
    exact ⟨iface, rfl, ⟨hclock.1, hclock.2, hlengths.1, hlengths.2.1, hlengths.2.2⟩, hfits, rfl⟩

end PcapNgWriter

namespace Decoder

open PcapNgWriter

def declaring (d : Decoder) (iface : Interface) : Decoder :=
  { d with interfaces := d.interfaces ++ [iface] }

theorem clock_interface {raw : List U8} {e : Endian} {offset : ℕ} {resolution : Resolution}
    {offsetSeconds : U64} {res : U8} (hbyte : byteAt raw 20 = res)
    (hoffset : e.u64 raw 28 = offsetSeconds) (hres : resolution.toPcapng = .ok res) :
    interfaceOptions.foldlM (clockOption raw e offset) ⟨.decimal 6, 0, false, false⟩ =
      .ok ⟨resolution, offsetSeconds, true, true⟩ := by
  simp [interfaceOptions, clockOption, hbyte, hoffset, Resolution.fromPcapng_toPcapng hres, bind,
    Except.bind, pure, Except.pure]

theorem Ng.emits_interface {d : Decoder} {w : PcapNgWriter} (h : d.Ng w) {linkType : U16}
    {snaplen : U32} {resolution : Resolution} {offsetSeconds : U64} {res : U8}
    (hoptions : 2 ≤ w.limits.maxOptions) (hres : resolution.toPcapng = .ok res)
    (hroom : w.interfaces.length < w.limits.maxInterfaces)
    (hfits : BlockFits w.limits (interfaceBytes w.endian linkType snaplen res offsetSeconds))
    (offset : ℕ) :
    Emits d (framed w.endian 1 (interfaceBytes w.endian linkType snaplen res offsetSeconds)) offset
      ⟨w.endian, .interface (declared w.interfaces.length linkType snaplen resolution
        offsetSeconds), interfaceOptions, []⟩
      (d.declaring (declared w.interfaces.length linkType snaplen resolution offsetSeconds)) := by
  have hplain : w.endian.putU32 1 ≠ sectionMagic := by cases w.endian <;> decide
  refine h.emits hfits hplain ?_ rfl rfl
  obtain ⟨hlink, hsnap, hbyte, hoffset⟩ :=
    interface_fields w.endian linkType snaplen res offsetSeconds
  have htype := @u32_framed_type w.endian 1
    (interfaceBytes w.endian linkType snaplen res offsetSeconds) []
  rw [List.append_nil] at htype
  have hlen : (framed w.endian 1
      (interfaceBytes w.endian linkType snaplen res offsetSeconds)).length = 44 := by simp
  rw [← h.limits] at hoptions hroom
  rw [← h.interfaces] at hroom ⊢
  have hparsed := parseOptions_interface w.endian linkType snaplen res offsetSeconds hoptions offset
  have hmin : minimum 44 20 offset "interface" = .ok () := rfl
  have hdeclared : declared d.interfaces.length linkType snaplen resolution offsetSeconds =
      ⟨d.sectionId, BitVec.ofNat 32 d.interfaces.length, linkType.setWidth 32, snaplen, resolution,
        offsetSeconds⟩ := by
    rw [h.sectionId, declared]
  rw [blockBody, htype, if_neg (by decide), if_pos rfl, interfaceBlock, read_bind, hlen,
    lift_bind hmin, if_neg (by omega), lift_bind hparsed,
    lift_bind (clock_interface hbyte hoffset hres), update_bind, hlink, hsnap, hdeclared]
  rfl

/-- The packet record a call leaves. -/
def ngPacket (frame : ℕ) (iface : Interface) (id : U32) (timestamp : Timestamp) (originalLen : U32)
    (data : List U8) : PacketMeta where
  frame := frame
  sectionId := 0
  interface := id
  linkType := iface.linkType
  capturedLen := BitVec.ofNat 32 data.length
  originalLen := originalLen
  dataOffset := 28
  timestamp := some timestamp

theorem packet_fields (e : Endian) (id : U32) (ticks : U64) (originalLen : U32) (data : List U8) :
    e.u32 (framed e 6 (packetBytes e id ticks originalLen data)) 8 = id ∧
    ticksAt e (framed e 6 (packetBytes e id ticks originalLen data)) 12 = ticks ∧
    e.u32 (framed e 6 (packetBytes e id ticks originalLen data)) 20 =
      BitVec.ofNat 32 data.length ∧
    e.u32 (framed e 6 (packetBytes e id ticks originalLen data)) 24 = originalLen := by
  have hticks : ticksAt e (framed e 6 (packetBytes e id ticks originalLen data)) 12 =
      ticks.extractLsb' 32 32 ++ ticks.extractLsb' 0 32 := by
    simp [ticksAt, framed, packetBytes, Endian.u32_append_right, Endian.u32_putU32]
  rw [hticks, U64.split]
  simp [framed, packetBytes, Endian.u32_append_right, Endian.u32_putU32]

theorem Ng.emits_packet {d : Decoder} {w : PcapNgWriter} (h : d.Ng w) {iface : Interface}
    {id originalLen : U32} {timestamp : Timestamp} {data : List U8}
    (hiface : w.interfaces[id.toNat]? = some iface)
    (hpacket : PacketFits w.limits iface timestamp originalLen data)
    (hfits : BlockFits w.limits (packetBytes w.endian id timestamp.ticks originalLen data))
    (offset : ℕ) :
    Emits d (framed w.endian 6 (packetBytes w.endian id timestamp.ticks originalLen data)) offset
      ⟨w.endian, .packet (ngPacket d.nextFrame iface id timestamp originalLen data), [], []⟩
      d.advanced := by
  have hplain : w.endian.putU32 6 ≠ sectionMagic := by cases w.endian <;> decide
  refine h.emits hfits hplain ?_ rfl rfl
  obtain ⟨hid, hticks, hcap, horig⟩ :=
    packet_fields w.endian id timestamp.ticks originalLen data
  have htype := @u32_framed_type w.endian 6
    (packetBytes w.endian id timestamp.ticks originalLen data) []
  rw [List.append_nil] at htype
  have hword := hfits.word
  rw [length_packetBytes] at hword
  have hcapNat : (BitVec.ofNat 32 data.length).toNat = data.length := by
    rw [BitVec.toNat_ofNat, Nat.mod_eq_of_lt (by omega)]
  have hlen : (framed w.endian 6 (packetBytes w.endian id timestamp.ticks originalLen data)).length =
      32 + (data.length + 3) / 4 * 4 := by
    simp
    omega
  have hmin : minimum (32 + (data.length + 3) / 4 * 4) 32 offset "packet" = .ok () := by
    rw [minimum, if_neg (by omega)]
  have hfound : d.interface id offset = .ok iface := by
    rw [Decoder.interface, h.interfaces, hiface]
  have hend : alignedEnd 28 data.length "packet_bytes" = .ok (28 + (data.length + 3) / 4 * 4) := by
    have hbound : wordBound = 2 ^ 64 := rfl
    rw [alignedEnd, align4, checkedAdd_of_lt (by omega)]
    simp only [bind, Except.bind]
    rw [checkedAdd_of_lt (by omega)]
  have hlengths : validateLengths (BitVec.ofNat 32 data.length) originalLen iface.snaplen d.mode
      offset = .ok [] := by
    rw [validateLengths, if_neg]
    rw [hcapNat]
    rintro (hbad | ⟨hne, hbad⟩)
    · exact absurd hpacket.original (by omega)
    · exact absurd (hpacket.snaplen hne) (by omega)
  have hbudget := hpacket.budget
  rw [blockBody, htype, if_neg (by decide), if_neg (by decide), if_pos rfl, packetBlock, read_bind,
    hlen, lift_bind hmin]
  simp only [Bool.false_eq_true, if_false, hid, hcap, horig, hticks]
  rw [lift_bind hfound, hcapNat, h.limits, if_neg (by omega), lift_bind hend, if_neg (by omega),
    lift_bind hlengths]
  have hnone : parseOptions (framed w.endian 6
      (packetBytes w.endian id timestamp.ticks originalLen data)) (28 + (data.length + 3) / 4 * 4)
      (32 + (data.length + 3) / 4 * 4 - 4) w.endian offset w.limits = .ok [] := by
    rw [parseOptions, show 32 + (data.length + 3) / 4 * 4 - 4 - (28 + (data.length + 3) / 4 * 4) = 0
      by omega]
    rfl
  rw [lift_bind hnone, h.sectionId, ← hpacket.resolution, ← hpacket.offsetSeconds]
  rfl

end Decoder

namespace PcapNgWriter

open Decoder IterTrace

inductive Call where
  | interface (linkType : U16) (snaplen : U32) (resolution : Resolution) (offsetSeconds : U64)
  | packet (id : U32) (timestamp : Timestamp) (originalLen : U32) (data : List U8)

def apply : Call → Method PcapNgWriter Error Unit
  | .interface linkType snaplen resolution offsetSeconds => do
    let _ ← interface linkType snaplen resolution offsetSeconds
    pure ()
  | .packet id timestamp originalLen data => packet id timestamp originalLen data

def run : List Call → Method PcapNgWriter Error Unit
  | [] => pure ()
  | c :: rest => do
    apply c
    run rest

/-- A record for each call; interfaces are numbered from `ids` on and packets from `frame` on. -/
inductive Replays : ℕ → ℕ → List Call → List Record → Prop
  | nil (ids frame : ℕ) : Replays ids frame [] []
  | interface {ids frame : ℕ} {linkType : U16} {snaplen : U32} {resolution : Resolution}
      {offsetSeconds : U64} {calls : List Call} {r : Record} {records : List Record}
      (hkind : r.kind = .interface (declared ids linkType snaplen resolution offsetSeconds))
      (hid : (BitVec.ofNat 32 ids).toNat = ids) (hwarnings : r.warnings = [])
      (hrest : Replays (ids + 1) frame calls records) :
      Replays ids frame (.interface linkType snaplen resolution offsetSeconds :: calls)
        (r :: records)
  | packet {ids frame : ℕ} {id originalLen : U32} {timestamp : Timestamp} {data : List U8}
      {calls : List Call} {r : Record} {p : PacketMeta} {records : List Record}
      (hpacket : r.packet = some (p, data)) (hframe : p.frame = frame) (hid : p.interface = id)
      (horiginal : p.originalLen = originalLen) (htimestamp : p.timestamp = some timestamp)
      (hwarnings : r.warnings = []) (hrest : Replays ids (frame + 1) calls records) :
      Replays ids frame (.packet id timestamp originalLen data :: calls) (r :: records)

theorem Replays.length_eq {ids frame : ℕ} {calls : List Call} {records : List Record}
    (h : Replays ids frame calls records) : records.length = calls.length := by
  induction h with
  | nil => rfl
  | interface _ _ _ _ ih => simp [ih]
  | packet _ _ _ _ _ _ _ ih => simp [ih]

theorem sliceOf_middle {front data tail : List U8} {n : ℕ} (h : front.length = n) :
    sliceOf (front ++ (data ++ tail)) n (n + data.length) = data := by
  rw [sliceOf, ← List.append_assoc, List.take_left' (by rw [List.length_append, h]),
    List.drop_left' h]

theorem packet_recordOf {e : Endian} {id originalLen : U32} {timestamp : Timestamp}
    {data : List U8} (hword : data.length < 2 ^ 32) (frame offset : ℕ) (iface : Interface) :
    (recordOf (framed e 6 (packetBytes e id timestamp.ticks originalLen data)) offset
      ⟨e, .packet (ngPacket frame iface id timestamp originalLen data), [], []⟩).packet =
      some (ngPacket frame iface id timestamp originalLen data, data) := by
  have hcap : (BitVec.ofNat 32 data.length).toNat = data.length := by
    rw [BitVec.toNat_ofNat, Nat.mod_eq_of_lt hword]
  have hslice : sliceOf (framed e 6 (packetBytes e id timestamp.ticks originalLen data)) 28
      (28 + data.length) = data := by
    rw [framed, packetBytes]
    simp only [← List.append_assoc]
    rw [List.append_assoc _ _ (e.putU32 _), List.append_assoc _ data]
    exact sliceOf_middle (by simp)
  change some (_, sliceOf _ 28 (28 + (BitVec.ofNat 32 data.length).toNat)) = _
  rw [hcap]
  exact congrArg (fun v => some (_, v)) hslice

theorem run_chain {w w' : PcapNgWriter} {d : Decoder} (hs : w.Sound) (hd : d.Ng w)
    (hoptions : 2 ≤ w.limits.maxOptions) {calls : List Call} (hrun : run calls w = (.ok (), w'))
    (offset : ℕ) :
    ∃ bytes records u, w'.output.written = w.output.written ++ bytes ∧
      Chain d offset bytes records u ∧ u.Ng w' ∧
      Replays w.interfaces.length d.nextFrame calls records := by
  induction calls generalizing w d offset with
  | nil =>
    cases hrun
    exact ⟨[], [], d, (List.append_nil _).symm, .nil d offset, hd, .nil _ _⟩
  | cons c rest ih =>
    obtain ⟨⟨⟩, w₁, hone, hrest⟩ := bind_ok hrun
    cases c with
    | interface linkType snaplen resolution offsetSeconds =>
      obtain ⟨id, t, hcall, hpure⟩ := bind_ok hone
      cases hpure
      obtain ⟨hroom, hsmall, res, hres, hfits, rfl⟩ := hs.interface hcall
      have hemits := hd.emits_interface hoptions hres hroom hfits offset
      obtain ⟨bytes, records, u, hbytes, hchain, hu, hreplays⟩ := ih
        (w := w.extended _ |>.declaring _) (d := (d.declaring _).counted) hs
        ⟨hd.format, hd.endian, congrArg (· ++ [_]) hd.interfaces, hd.sectionId, hd.sectionEnd,
          hd.mode, hd.limits⟩ hoptions hrest _
      refine ⟨_, _, u, ?_, .cons hemits hchain, hu, .interface rfl ?_ rfl ?_⟩
      · rw [hbytes, ← List.append_assoc]
        rfl
      · rw [BitVec.toNat_ofNat, Nat.mod_eq_of_lt hsmall]
      · rwa [declaring, List.length_append] at hreplays
    | packet id timestamp originalLen data =>
      obtain ⟨iface, hiface, hpacket, hfits, rfl⟩ := hs.packet hone
      have hemits := hd.emits_packet hiface hpacket hfits offset
      obtain ⟨bytes, records, u, hbytes, hchain, hu, hreplays⟩ := ih
        (w := w.extended _) (d := d.advanced.counted) hs ⟨hd.format, hd.endian, hd.interfaces, hd.sectionId,
          hd.sectionEnd, hd.mode, hd.limits⟩ hoptions hrest _
      have hword := hfits.word
      rw [length_packetBytes] at hword
      refine ⟨_, _, u, ?_, .cons hemits hchain, hu,
        .packet (packet_recordOf (by omega) _ _ _) rfl rfl rfl rfl rfl hreplays⟩
      rw [hbytes, ← List.append_assoc]
      rfl

theorem new_ok {endian : Endian} {limits : Limits} {w : PcapNgWriter}
    (h : new ⟨[], none⟩ endian limits = .ok w) :
    limits.validate = .ok () ∧ 28 ≤ limits.maxBlockBytes ∧
      w = ⟨⟨framed endian SHB (sectionBody endian), none⟩, endian, [], limits, false⟩ := by
  obtain ⟨⟨⟩, hlimits, h⟩ := bind_eq_ok.1 h
  rcases hblock : block SHB (sectionBody endian) ⟨⟨[], none⟩, endian, [], limits, false⟩ with ⟨r, t⟩
  rw [hblock] at h
  cases r with
  | error e => cases h
  | ok u =>
    cases h
    obtain ⟨hfits, rfl⟩ := Sound.block (w := ⟨⟨[], none⟩, endian, [], limits, false⟩) ⟨rfl, rfl⟩ hblock
    have hbudget := hfits.budget
    have hlen : (sectionBody endian).length = 16 := by simp [sectionBody]
    rw [hlen] at hbudget
    exact ⟨hlimits, hbudget, rfl⟩

/-- The iterator yields one section header and the interfaces and packets of the calls, in order. -/
theorem ng_round_trip {endian : Endian} {limits : Limits} {w₀ w : PcapNgWriter} {calls : List Call}
    (hnew : new ⟨[], none⟩ endian limits = .ok w₀) (hrun : run calls w₀ = (.ok (), w))
    (hoptions : 2 ≤ limits.maxOptions) (hinput : w.output.written.length ≤ limits.maxInputBytes)
    (hword : w.output.written.length < wordBound) (hbudget : calls.length + 1 ≤ limits.maxRecords) :
    ∃ it header records, CaptureIter.new w.output.written limits .strict = .ok it ∧
      Drains CaptureIter.next it (header :: records) none ∧
      header.kind = .sectionHeader 0 none ∧ header.warnings = [] ∧ Replays 0 1 calls records := by
  obtain ⟨hvalid, hblock, rfl⟩ := new_ok hnew
  let d₀ : Decoder := ⟨limits, .strict, none, .little, none, [], 0, 0, none, 1, 0⟩
  let d₁ : Decoder := { d₀ with
    sectionsSeen := 1
    sectionId := 0
    sectionEnd := none
    endian := endian
    interfaces := []
    format := some .pcapNg }
  have hemits := emits_section (d := d₀) rfl rfl rfl hblock endian
  obtain ⟨bytes, records, u, hbytes, hchain, hu, hreplays⟩ :=
    run_chain (d := d₁.counted) ⟨rfl, rfl⟩ ⟨rfl, rfl, rfl, rfl, rfl, rfl, rfl⟩ hoptions hrun
      (0 + (framed endian SHB (sectionBody endian)).length)
  refine ⟨⟨w.output.written, 0, d₀, false⟩, _, records, ?_,
    CaptureIter.drains_of_chain (.cons hemits hchain) rfl (Nat.zero_le _) hbytes hword ?_ ?_, rfl,
    rfl, hreplays⟩
  · rw [CaptureIter.new, if_neg (by omega), Decoder.new, hvalid]
    rfl
  · change 0 + (records.length + 1) ≤ limits.maxRecords
    rw [hreplays.length_eq]
    omega
  · rw [Decoder.finish, hu.format, hu.sectionEnd]
    rfl

def sampleCalls : List Call :=
  [.interface 1 0 (.binary 10) 3, .packet 0 ⟨5000000000, .binary 10, 3⟩ 9 [1, 2, 3, 4, 5],
    .interface 147 64 (.decimal 9) 0, .packet 1 ⟨7, .decimal 9, 0⟩ 2 [6, 7],
    .packet 0 ⟨8, .binary 10, 3⟩ 0 []]

def sampleWriter : PcapNgWriter :=
  ⟨⟨framed .big SHB (sectionBody .big), none⟩, .big, [], .default, false⟩

theorem ng_round_trip_sample : ∃ w₀ w, new ⟨[], none⟩ .big .default = .ok w₀ ∧
    run sampleCalls w₀ = (.ok (), w) ∧
      ∃ it header records, CaptureIter.new w.output.written .default .strict = .ok it ∧
        Drains CaptureIter.next it (header :: records) none ∧
        header.kind = .sectionHeader 0 none ∧ header.warnings = [] ∧
        Replays 0 1 sampleCalls records := by
  have hnew : new ⟨[], none⟩ .big .default = .ok sampleWriter := by decide +kernel
  have hrun : (run sampleCalls sampleWriter).1 = .ok () := by decide +kernel
  have hlen : (run sampleCalls sampleWriter).2.output.written.length = 224 := by decide +kernel
  rcases hsample : run sampleCalls sampleWriter with ⟨result, w⟩
  rw [hsample] at hrun hlen
  simp only at hrun hlen
  rw [hrun] at hsample
  refine ⟨_, w, hnew, hsample, ng_round_trip hnew hsample (by decide) ?_ ?_ (by decide)⟩
  · rw [hlen]
    decide
  · rw [hlen]
    decide

/-- The streaming reader gets the same records, however its source splits the bytes. -/
theorem ng_round_trip_streamed {endian : Endian} {limits : Limits} {w₀ w : PcapNgWriter}
    {calls : List Call} {schedule : List ReadOutcome}
    (hnew : new ⟨[], none⟩ endian limits = .ok w₀) (hrun : run calls w₀ = (.ok (), w))
    (hoptions : 2 ≤ limits.maxOptions) (hinput : w.output.written.length ≤ limits.maxInputBytes)
    (hword : w.output.written.length < wordBound) (hbudget : calls.length + 1 ≤ limits.maxRecords)
    (hschedule : ∀ detail, .failed detail ∉ schedule) :
    ∃ r header records, CaptureReader.new ⟨w.output.written, schedule⟩ limits .strict = .ok r ∧
      Drains CaptureReader.next r (header :: records) none ∧
      header.kind = .sectionHeader 0 none ∧ header.warnings = [] ∧ Replays 0 1 calls records := by
  obtain ⟨hvalid, hblock, rfl⟩ := new_ok hnew
  let d₀ : Decoder := ⟨limits, .strict, none, .little, none, [], 0, 0, none, 1, 0⟩
  let d₁ : Decoder := { d₀ with
    sectionsSeen := 1
    sectionId := 0
    sectionEnd := none
    endian := endian
    interfaces := []
    format := some .pcapNg }
  have hemits := emits_section (d := d₀) rfl rfl rfl hblock endian
  obtain ⟨bytes, records, u, hbytes, hchain, hu, hreplays⟩ :=
    run_chain (d := d₁.counted) ⟨rfl, rfl⟩ ⟨rfl, rfl, rfl, rfl, rfl, rfl, rfl⟩ hoptions hrun
      (0 + (framed endian SHB (sectionBody endian)).length)
  have hsynced : Synced ⟨w.output.written, 0, d₀, false⟩
      ⟨⟨w.output.written, schedule⟩, d₀, 0, false, limits.maxInputBytes⟩ :=
    ⟨⟨rfl, rfl⟩, rfl, rfl, Nat.zero_le _, by simp, hschedule, hinput, hword, by simp [d₀]⟩
  have hiter : Drains CaptureIter.next ⟨w.output.written, 0, d₀, false⟩ _ none :=
    CaptureIter.drains_of_chain (.cons hemits hchain) rfl (Nat.zero_le _) hbytes hword
      (by change 0 + (records.length + 1) ≤ limits.maxRecords; rw [hreplays.length_eq]; omega)
      (by rw [Decoder.finish, hu.format, hu.sectionEnd]; rfl)
  obtain ⟨seen, iterEnd, readerEnd, hseen, hreader, hend, -⟩ := hsynced.agree
  obtain ⟨rfl, rfl⟩ := hiter.unique hseen
  cases readerEnd with
  | some e => cases hend
  | none =>
    refine ⟨_, _, records, ?_, hreader, rfl, rfl, hreplays⟩
    rw [CaptureReader.new, Decoder.new, hvalid]
    rfl

theorem ng_round_trip_streamed_sample : ∃ w₀ w, new ⟨[], none⟩ .big .default = .ok w₀ ∧
    run sampleCalls w₀ = (.ok (), w) ∧
      ∃ r header records,
        CaptureReader.new ⟨w.output.written, [.interrupted, .bytes 1, .bytes 3]⟩ .default .strict =
          .ok r ∧
        Drains CaptureReader.next r (header :: records) none ∧
        header.kind = .sectionHeader 0 none ∧ header.warnings = [] ∧
        Replays 0 1 sampleCalls records := by
  have hnew : new ⟨[], none⟩ .big .default = .ok sampleWriter := by decide +kernel
  have hrun : (run sampleCalls sampleWriter).1 = .ok () := by decide +kernel
  have hlen : (run sampleCalls sampleWriter).2.output.written.length = 224 := by decide +kernel
  rcases hsample : run sampleCalls sampleWriter with ⟨result, w⟩
  rw [hsample] at hrun hlen
  simp only at hrun hlen
  rw [hrun] at hsample
  refine ⟨_, w, hnew, hsample,
    ng_round_trip_streamed hnew hsample (by decide) ?_ ?_ (by decide) (by simp)⟩
  · rw [hlen]
    decide
  · rw [hlen]
    decide

end PcapNgWriter

end PcapEvidence
