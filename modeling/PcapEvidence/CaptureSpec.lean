import PcapEvidence.CaptureDecoder

/-!
# What decoding one record can do

`BodyStep` is the success case: limits, mode and record count stay, a packet record takes the next
frame number and its data lies inside the record, and every other record leaves the numbering alone.
A failing call leaves the decoder as it was, and its error is about the input or a budget, never
about the decoder's own state.
-/

namespace PcapEvidence

open Method

namespace Decoder

variable {raw : List U8} {offset : ℕ} {d : Decoder}

@[simp] theorem align4_never (n : ℕ) : NeverInvariant (align4 n) := by
  unfold align4
  split <;> simp

@[simp] theorem alignedEnd_never (p n : ℕ) (field : String) :
    NeverInvariant (alignedEnd p n field) := by
  simp only [alignedEnd, neverInvariant_bind_iff, align4_never, true_and]
  intro padded _
  split <;> simp

theorem align4_ok {n padded : ℕ} (h : align4 n = .ok padded) : n ≤ padded ∧ padded < n + 4 := by
  unfold align4 at h
  split at h
  next v hv =>
    obtain ⟨-, rfl⟩ := (checkedAdd_eq_some_iff _ _ _).1 hv
    cases h
    omega
  next => cases h

theorem alignedEnd_ok {p n stop : ℕ} {field : String} (h : alignedEnd p n field = .ok stop) :
    p + n ≤ stop ∧ stop < p + n + 4 := by
  obtain ⟨padded, hpadded, h⟩ := bind_eq_ok.1 h
  have hpad := align4_ok hpadded
  split at h
  next s hs =>
    obtain ⟨-, rfl⟩ := (checkedAdd_eq_some_iff _ _ _).1 hs
    cases h
    omega
  next => cases h

theorem parseOptionsLoop_never (stop : ℕ) (endian : Endian) (limits : Limits) (fuel p : ℕ)
    (out : List OptionMeta) :
    NeverInvariant (parseOptionsLoop raw stop endian offset limits fuel p out) := by
  induction fuel generalizing p out with
  | zero => exact neverInvariant_ok _
  | succ fuel ih => simp [parseOptionsLoop, ih]

@[simp] theorem parseOptions_never (start stop : ℕ) (endian : Endian) (limits : Limits) :
    NeverInvariant (parseOptions raw start stop endian offset limits) :=
  parseOptionsLoop_never _ _ _ _ _ _

@[simp] theorem validateLengths_never (cap orig snap : U32) (mode : ParseMode) :
    NeverInvariant (validateLengths cap orig snap mode offset) := by
  simp [validateLengths]

@[simp] theorem minimum_never (actual expected : ℕ) (field : String) :
    NeverInvariant (minimum actual expected offset field) := by
  simp [minimum]

@[simp] theorem interface_never (id : U32) : NeverInvariant (d.interface id offset) := by
  unfold interface
  split <;> simp

@[simp] theorem legacyTime_never (header : LegacyHeader) :
    NeverInvariant (d.legacyTime header raw offset) := by
  unfold legacyTime
  cases htime : Timestamp.legacy (d.endian.u32 raw 0) (d.endian.u32 raw 4) header.nanos with
  | ok t => simp
  | error e =>
    have hcode : e.code = .invalidTimestamp := by
      unfold Timestamp.legacy at htime
      dsimp only at htime
      split_ifs at htime <;> cases htime <;> rfl
    simp [hcode]

@[simp] theorem sectionStop_never (declared : ℤ) (need : ℕ) :
    NeverInvariant (sectionStop declared offset need) := by
  unfold sectionStop
  split_ifs
  · simp
  · split <;> simp

@[simp] theorem clockOptions_never (endian : Endian) (clock : Clock) (options : List OptionMeta) :
    NeverInvariant (options.foldlM (clockOption raw endian offset) clock) := by
  have hone (clock : Clock) (o : OptionMeta) :
      NeverInvariant (clockOption raw endian offset clock o) := by
    simp [clockOption]
  induction options generalizing clock with
  | nil => exact neverInvariant_ok _
  | cons o rest ih => simp [List.foldlM_cons, hone, ih]

@[simp] theorem nameRecords_never (stop : ℕ) (endian : Endian) (limits : Limits)
    (fuel p records : ℕ) :
    NeverInvariant (nameRecords raw stop endian offset limits fuel p records) := by
  induction fuel generalizing p records with
  | zero => simp [nameRecords, missingTerminator]
  | succ fuel ih => simp [nameRecords, missingTerminator, ih]

@[simp] theorem checkSectionEnd_never (isSection : Bool) (need : ℕ) :
    NeverInvariant (d.checkSectionEnd isSection offset need) := by
  unfold checkSectionEnd
  split
  next => simp
  next => split <;> simp

@[simp] theorem blockEndian_never : NeverInvariant (d.blockEndian raw offset) := by
  simp [blockEndian, ngEndian]

@[simp] theorem required_never (input : List U8) : NeverInvariant (d.required input offset) := by
  have hblock : NeverInvariant (d.requiredBlock input offset) := by
    simp [requiredBlock]
  unfold required
  split
  next => simp
  next =>
    split
    next => simp [hblock]
    next =>
      simp only [neverInvariant_ite_iff]
      refine ⟨by simp, fun _ => ⟨by simp, fun _ => ?_⟩⟩
      split <;> simp
    next => exact hblock

@[simp] theorem finish_never : NeverInvariant (d.finish offset) := by
  simp [finish]

/-- What success leaves behind. -/
structure BodyStep (raw : List U8) (d : Decoder) (body : Body) (t : Decoder) : Prop where
  limits : t.limits = d.limits
  mode : t.mode = d.mode
  records : t.records = d.records
  packet : ∀ p, body.kind = .packet p → p.frame = d.nextFrame ∧ t.nextFrame = d.nextFrame + 1 ∧
    p.dataOffset + p.capturedLen.toNat ≤ raw.length
  other : (∀ p, body.kind ≠ .packet p) → t.nextFrame = d.nextFrame
  legacy : (d.format = some .pcap → d.legacy.isSome) → t.format = some .pcap → t.legacy.isSome

/-- What failure leaves behind: the old state, and an error that does not blame it. -/
def Refused (d : Decoder) (e : Error) (t : Decoder) : Prop := t = d ∧ e.code ≠ .invariant

section Body

variable {α : Type} {ok : α → Decoder → Prop}

theorem sat_refuse {e : Error} (h : e.code ≠ .invariant) :
    Sat (fail e : DecodeM α) d ok (Refused d) := sat_fail ⟨rfl, h⟩

theorem sat_check {β : Type} {r : Result β} {f : β → DecodeM α} (hr : NeverInvariant r)
    (hok : ∀ b, r = .ok b → Sat (f b) d ok (Refused d)) : Sat (lift r >>= f) d ok (Refused d) :=
  sat_lift_bind hok (fun e he => ⟨rfl, hr e he⟩)

theorem bodyStep_of_other {body : Body} {t : Decoder} (hkind : ∀ p, body.kind ≠ .packet p)
    (hlimits : t.limits = d.limits) (hmode : t.mode = d.mode) (hrecords : t.records = d.records)
    (hframe : t.nextFrame = d.nextFrame)
    (hlegacy : t.format = d.format ∧ t.legacy = d.legacy ∨ t.format ≠ some .pcap ∨
      t.legacy.isSome = true) : BodyStep raw d body t := by
  refine ⟨hlimits, hmode, hrecords, fun p hp => absurd hp (hkind p), fun _ => hframe, ?_⟩
  intro hold hformat
  rcases hlegacy with ⟨hf, hl⟩ | hf | hl
  · rw [hl]
    exact hold (hf ▸ hformat)
  · exact absurd hformat hf
  · exact hl

theorem bodyStep_packet {endian : Endian} {p : PacketMeta} {options : List OptionMeta}
    {warnings : List Warning} (hframe : p.frame = d.nextFrame)
    (hrange : p.dataOffset + p.capturedLen.toNat ≤ raw.length) :
    BodyStep raw d ⟨endian, .packet p, options, warnings⟩
      { d with nextFrame := d.nextFrame + 1 } := by
  refine ⟨rfl, rfl, rfl, fun q hq => ?_, fun hne => absurd rfl (hne p), fun hold => hold⟩
  cases hq
  exact ⟨hframe, rfl, hrange⟩

theorem decodeLegacyHeader_spec :
    Sat (decodeLegacyHeader raw offset) d (BodyStep raw d) (Refused d) := by
  unfold decodeLegacyHeader
  split
  next => exact sat_refuse (by simp)
  next endian nanos _ =>
    apply sat_ite
    · exact fun _ => sat_refuse (by simp)
    intro _
    apply sat_ite
    · exact fun _ => sat_refuse (by simp)
    · exact fun _ => bodyStep_of_other (by simp) rfl rfl rfl rfl (Or.inr (Or.inr rfl))

theorem decodeLegacyPacket_spec (hlegacy : d.legacy.isSome)
    (hraw : 16 + (d.endian.u32 raw 8).toNat ≤ raw.length) :
    Sat (decodeLegacyPacket raw offset) d (BodyStep raw d) (Refused d) := by
  unfold decodeLegacyPacket
  apply sat_read_bind
  obtain ⟨header, hheader⟩ := Option.isSome_iff_exists.1 hlegacy
  simp only [hheader]
  apply sat_check (validateLengths_never _ _ _ _)
  intro lengths _
  apply sat_check (legacyTime_never _)
  intro time _
  exact bodyStep_packet rfl hraw

theorem sectionBlock_spec (endian : Endian) :
    Sat (sectionBlock endian raw offset) d (BodyStep raw d) (Refused d) := by
  unfold sectionBlock
  apply sat_read_bind
  apply sat_ite
  · exact fun _ => sat_refuse (by simp)
  intro _
  apply sat_ite
  · exact fun _ => sat_refuse (by simp)
  intro _
  apply sat_ite
  · exact fun _ => sat_refuse (by simp)
  intro _
  apply sat_check (parseOptions_never _ _ _ _)
  intro options _
  apply sat_check (sectionStop_never _ _)
  intro stop _
  apply sat_ite
  · exact fun _ => sat_refuse (by simp)
  · exact fun _ => bodyStep_of_other (by simp) rfl rfl rfl rfl (Or.inr (Or.inl (by simp)))

theorem interfaceBlock_spec (endian : Endian) :
    Sat (interfaceBlock endian raw offset) d (BodyStep raw d) (Refused d) := by
  unfold interfaceBlock
  apply sat_read_bind
  apply sat_check (minimum_never _ _ _)
  intro _ _
  apply sat_ite
  · exact fun _ => sat_refuse (by simp)
  intro _
  apply sat_check (parseOptions_never _ _ _ _)
  intro options _
  apply sat_check (clockOptions_never _ _ _)
  intro clock _
  exact bodyStep_of_other (by simp) rfl rfl rfl rfl (Or.inl ⟨rfl, rfl⟩)

theorem packetBlock_spec (endian : Endian) (obsolete : Bool) :
    Sat (packetBlock endian obsolete raw offset) d (BodyStep raw d) (Refused d) := by
  unfold packetBlock
  apply sat_read_bind
  apply sat_check (minimum_never _ _ _)
  intro _ hmin
  apply sat_check (interface_never _)
  intro interface _
  apply sat_ite
  · exact fun _ => sat_refuse (by simp)
  intro _
  apply sat_check (alignedEnd_never _ _ _)
  intro after hafter
  apply sat_ite
  · exact fun _ => sat_refuse (by simp)
  intro hinside
  apply sat_check (validateLengths_never _ _ _ _)
  intro warnings _
  apply sat_check (parseOptions_never _ _ _ _)
  intro options _
  apply bodyStep_packet rfl
  obtain ⟨hle, -⟩ := alignedEnd_ok hafter
  simp only
  omega

theorem simplePacketBlock_spec (endian : Endian) :
    Sat (simplePacketBlock endian raw offset) d (BodyStep raw d) (Refused d) := by
  unfold simplePacketBlock
  apply sat_read_bind
  apply sat_check (minimum_never _ _ _)
  intro _ _
  apply sat_check (interface_never _)
  intro interface _
  apply sat_ite
  · exact fun _ => sat_refuse (by simp)
  intro _
  apply sat_check (align4_never _)
  intro padded hpadded
  apply sat_ite
  · exact fun _ => sat_refuse (by simp)
  intro hsize
  apply bodyStep_packet rfl
  obtain ⟨-, hlen⟩ := (checkedAdd_eq_some_iff _ _ _).1 (not_not.1 hsize)
  have hle := align4_ok hpadded
  simp only
  omega

theorem blockBody_spec (endian : Endian) :
    Sat (blockBody endian raw offset) d (BodyStep raw d) (Refused d) := by
  unfold blockBody
  have hplain {body : Body} (h : ∀ p, body.kind ≠ .packet p) : BodyStep raw d body d :=
    bodyStep_of_other h rfl rfl rfl rfl (Or.inl ⟨rfl, rfl⟩)
  apply sat_ite
  · exact fun _ => sectionBlock_spec endian
  intro _
  apply sat_ite
  · exact fun _ => interfaceBlock_spec endian
  intro _
  apply sat_ite
  · exact fun _ => packetBlock_spec endian false
  intro _
  apply sat_ite
  · exact fun _ => packetBlock_spec endian true
  intro _
  apply sat_ite
  · exact fun _ => simplePacketBlock_spec endian
  intro _
  apply sat_ite
  · intro _
    apply sat_read_bind
    apply sat_check (nameRecords_never _ _ _ _ _ _)
    intro out _
    apply sat_check (parseOptions_never _ _ _ _)
    exact fun options _ => hplain (by simp)
  intro _
  apply sat_ite
  · intro _
    apply sat_read_bind
    apply sat_check (minimum_never _ _ _)
    intro _ _
    apply sat_check (interface_never _)
    intro interface _
    apply sat_check (parseOptions_never _ _ _ _)
    exact fun options _ => hplain (by simp)
  intro _
  apply sat_ite
  · intro _
    apply sat_read_bind
    apply sat_check (minimum_never _ _ _)
    intro _ _
    apply sat_check (alignedEnd_never _ _ _)
    intro stop _
    apply sat_ite
    · exact fun _ => sat_refuse (by simp)
    intro _
    apply sat_check (parseOptions_never _ _ _ _)
    exact fun options _ => hplain (by simp)
  intro _
  -- custom blocks, with and without the copy flag, and blocks of unknown type
  have hcustom (copyOnEdit : Bool) :
      Sat (customBlock endian copyOnEdit raw offset) d (BodyStep raw d) (Refused d) := by
    apply sat_check (minimum_never _ _ _)
    exact fun _ _ => hplain (by simp)
  apply sat_ite
  · exact fun _ => hcustom true
  intro _
  apply sat_ite
  · exact fun _ => hcustom false
  · exact fun _ => hplain (by simp)

theorem decodeBody_spec (hlegacy : d.format = some .pcap → d.legacy.isSome)
    (hraw : d.format = some .pcap → 16 + (d.endian.u32 raw 8).toNat ≤ raw.length) :
    Sat (decodeBody raw offset) d (BodyStep raw d) (Refused d) := by
  unfold decodeBody
  apply sat_read_bind
  apply sat_ite
  · exact fun _ => decodeLegacyHeader_spec
  intro _
  apply sat_ite
  · exact fun hformat => decodeLegacyPacket_spec (hlegacy hformat) (hraw hformat)
  intro _
  apply sat_read_bind
  apply sat_check blockEndian_never
  intro endian _
  apply sat_ite
  · exact fun _ => sat_refuse (by simp)
  intro _
  apply sat_check (checkSectionEnd_never _ _)
  exact fun _ _ => blockBody_spec endian

end Body

end Decoder
end PcapEvidence
