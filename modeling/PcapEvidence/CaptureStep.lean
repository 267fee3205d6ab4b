import PcapEvidence.CaptureSpec

/-!
# How much of a record its prefix tells

`required` reads a bounded part of the input, so more input either does not change its answer or
only raises a demand that was not yet met. `decode` looks at the bytes it demanded and at nothing
behind them.
-/

namespace PcapEvidence

open Method

section Prefix

variable {buffer rest : List U8} {i n : ℕ}

theorem byteAt_append (h : i < buffer.length) : byteAt (buffer ++ rest) i = byteAt buffer i := by
  simp [byteAt, List.getElem?_append_left h]

theorem sliceOf_append (h : n ≤ buffer.length) :
    sliceOf (buffer ++ rest) i n = sliceOf buffer i n := by
  rw [sliceOf, sliceOf, List.take_append_of_le_length h]

theorem Endian.u32_append (e : Endian) (h : i + 4 ≤ buffer.length) :
    e.u32 (buffer ++ rest) i = e.u32 buffer i := by
  cases e <;> simp (disch := omega) only [Endian.u32, le32, be32, byteAt_append]

theorem Endian.u32_take (e : Endian) {input : List U8} (h : i + 4 ≤ n) (hn : n ≤ input.length) :
    e.u32 (input.take n) i = e.u32 input i := by
  have happ : e.u32 (input.take n ++ input.drop n) i = e.u32 (input.take n) i :=
    e.u32_append (by rw [List.length_take]; omega)
  rwa [List.take_append_drop, eq_comm] at happ

end Prefix

namespace Decoder

variable {d : Decoder} {buffer rest input : List U8} {offset need : ℕ}

/-- A longer input leaves the answer alone, or the demand was open and does not shrink. -/
def Extends (short long : Result ℕ) (have_ : ℕ) : Prop :=
  long = short ∨ ∃ need, short = .ok need ∧ have_ < need ∧ ∀ n, long = .ok n → need ≤ n

theorem requiredBlock_ge (h : d.requiredBlock input offset = .ok need) : 8 ≤ need := by
  unfold requiredBlock at h
  split_ifs at h
  · cases h
    omega
  · cases h
    omega
  · simp only [bind_eq_ok, guard_eq_ok] at h
    obtain ⟨endian, -, hsize, -, h⟩ := h
    cases h
    omega

theorem requiredBlock_section_ge (hmagic : input.take 4 = sectionMagic) (hlen : 8 ≤ input.length)
    (h : d.requiredBlock input offset = .ok need) : 12 ≤ need := by
  rw [requiredBlock, if_neg (by omega), hmagic] at h
  split_ifs at h
  · cases h
    omega
  · simp only [bind_eq_ok, guard_eq_ok] at h
    obtain ⟨endian, -, hsize, -, h⟩ := h
    cases h
    omega

theorem blockEndian_append (h4 : 4 ≤ buffer.length)
    (h12 : buffer.take 4 = sectionMagic → 12 ≤ buffer.length) :
    d.blockEndian (buffer ++ rest) offset = d.blockEndian buffer offset := by
  unfold blockEndian
  rw [List.take_append_of_le_length h4]
  split_ifs with hmagic
  · rw [ngEndian, ngEndian, sliceOf_append (h12 hmagic)]
  · rfl

theorem requiredBlock_append :
    Extends (d.requiredBlock buffer offset) (d.requiredBlock (buffer ++ rest) offset)
      buffer.length := by
  by_cases h8 : buffer.length < 8
  · refine Or.inr ⟨8, ?_, h8, fun n hn => requiredBlock_ge hn⟩
    rw [requiredBlock, if_pos h8]
  have htake : (buffer ++ rest).take 4 = buffer.take 4 := List.take_append_of_le_length (by omega)
  by_cases h12 : buffer.take 4 = sectionMagic ∧ buffer.length < 12
  · refine Or.inr ⟨12, ?_, h12.2, fun n hn => ?_⟩
    · rw [requiredBlock, if_neg h8, if_pos h12]
    · refine requiredBlock_section_ge (htake.trans h12.1) ?_ hn
      rw [List.length_append]
      omega
  · -- everything the size computation reads is there
    refine Or.inl ?_
    have hlen : ¬ (buffer ++ rest).length < 8 := by
      rw [List.length_append]
      omega
    have hlen12 : ¬ ((buffer ++ rest).take 4 = sectionMagic ∧ (buffer ++ rest).length < 12) := by
      rw [htake, List.length_append]
      rintro ⟨hmagic, hlt⟩
      exact h12 ⟨hmagic, by omega⟩
    rw [requiredBlock, requiredBlock, if_neg hlen, if_neg hlen12, if_neg h8, if_neg h12, htake,
      blockEndian_append (by omega) (fun hmagic => by_contra fun hlt => h12 ⟨hmagic, by omega⟩)]
    congr 1
    funext endian
    rw [endian.u32_append (by omega)]

theorem required_append (hword : offset + (buffer ++ rest).length < wordBound) :
    Extends (d.required buffer offset) (d.required (buffer ++ rest) offset) buffer.length := by
  have hlen : (buffer ++ rest).length = buffer.length + rest.length := List.length_append
  have hbuffer : checkedAdd offset buffer.length = some (offset + buffer.length) :=
    checkedAdd_of_lt (by omega)
  rw [required, required, checkedAdd_of_lt hword, hbuffer]
  dsimp only
  cases hf : d.format with
  | none =>
    dsimp only
    by_cases h4 : buffer.length < 4
    · refine Or.inr ⟨4, if_pos h4, h4, fun n hn => ?_⟩
      split_ifs at hn
      · cases hn
        omega
      · have := requiredBlock_ge hn
        omega
      · cases hn
        omega
    · have htake : (buffer ++ rest).take 4 = buffer.take 4 :=
        List.take_append_of_le_length (by omega)
      rw [if_neg h4, if_neg (show ¬ (buffer ++ rest).length < 4 by omega), htake]
      split_ifs with hmagic hlegacy
      · exact requiredBlock_append
      · exact Or.inl rfl
      · exact Or.inl rfl
  | some format =>
    cases format with
    | pcap =>
      dsimp only
      by_cases h16 : buffer.length < 16
      · refine Or.inr ⟨16, if_pos h16, h16, fun n hn => ?_⟩
        split_ifs at hn
        · cases hn
          omega
        · split at hn
          next size hsize =>
            obtain ⟨-, rfl⟩ := (checkedAdd_eq_some_iff _ _ _).1 hsize
            cases hn
            omega
          next => cases hn
      · rw [if_neg h16, if_neg (show ¬ (buffer ++ rest).length < 16 by omega),
          d.endian.u32_append (by omega)]
        exact Or.inl rfl
    | pcapNg => exact requiredBlock_append

theorem required_pos (h : d.required input offset = .ok need) : 0 < need := by
  unfold required at h
  split at h
  next => cases h
  next =>
    split at h
    next =>
      split_ifs at h
      · cases h
        omega
      · have := requiredBlock_ge h
        omega
      · cases h
        omega
    next =>
      split_ifs at h
      · cases h
        omega
      · split at h
        next size hsize =>
          obtain ⟨-, rfl⟩ := (checkedAdd_eq_some_iff _ _ _).1 hsize
          cases h
          omega
        next => cases h
    next =>
      have := requiredBlock_ge h
      omega

theorem required_nil (hword : offset < wordBound) :
    ∃ need, d.required [] offset = .ok need ∧ 0 < need := by
  rw [required, List.length_nil, checkedAdd_of_lt (by omega)]
  dsimp only
  split
  next => exact ⟨4, if_pos (by simp), by omega⟩
  next => exact ⟨16, if_pos (by simp), by omega⟩
  next => exact ⟨8, if_pos (by simp), by omega⟩

/-- A classic packet record is its header and the captured bytes. -/
theorem required_pcap (hf : d.format = some .pcap) (h : d.required input offset = .ok need)
    (hle : need ≤ input.length) : need = (d.endian.u32 (input.take need) 8).toNat + 16 := by
  unfold required at h
  split at h
  next => cases h
  next =>
    rw [hf] at h
    dsimp only at h
    split_ifs at h
    · cases h
      omega
    · split at h
      next size hsize =>
        obtain ⟨-, hsum⟩ := (checkedAdd_eq_some_iff _ _ _).1 hsize
        cases h
        rw [d.endian.u32_take (by omega) hle]
        exact hsum
      next => cases h

def complete (raw : List U8) (offset : ℕ) : DecodeM Decode := do
  let body ← decodeBody raw offset
  update (fun d => { d with records := d.records + 1 })
  pure (.record ⟨offset, body.endian, raw, body.kind, body.options, body.warnings⟩)

theorem decode_of_full (h : d.limits.maxRecords ≤ d.records) :
    decode input offset d = (.error (Error.limit "records"), d) := by
  change (if d.records ≥ d.limits.maxRecords then _ else _ : DecodeM Decode) d = _
  rw [if_pos h]
  rfl

theorem decode_of_room (h : d.records < d.limits.maxRecords) :
    decode input offset d = match d.required input offset with
      | .error e => (.error e, d)
      | .ok need => if input.length < need then (.ok (.needMore need), d)
        else complete (input.take need) offset d := by
  change (if d.records ≥ d.limits.maxRecords then _ else _ : DecodeM Decode) d = _
  rw [if_neg (by omega)]
  cases hreq : d.required input offset with
  | error e => rfl
  | ok need =>
    change (if input.length < need then pure (.needMore need)
      else complete (input.take need) offset : DecodeM Decode) d = if _ then _ else _
    split_ifs
    · rfl
    · rfl

section Room

variable (hroom : d.records < d.limits.maxRecords)
include hroom

theorem decode_of_refused {e : Error} (hreq : d.required input offset = .error e) :
    decode input offset d = (.error e, d) := by
  rw [decode_of_room hroom, hreq]

theorem decode_of_short (hreq : d.required input offset = .ok need) (hlt : input.length < need) :
    decode input offset d = (.ok (.needMore need), d) := by
  rw [decode_of_room hroom, hreq]
  exact if_pos hlt

theorem decode_of_complete (hreq : d.required input offset = .ok need) (hle : need ≤ input.length) :
    decode input offset d = complete (input.take need) offset d := by
  rw [decode_of_room hroom, hreq]
  exact if_neg (by omega)

end Room

structure RecordStep (bytes : List U8) (at_ : ℕ) (d : Decoder) (record : Record)
    (t : Decoder) : Prop where
  offset : record.offset = at_
  raw : record.raw = bytes
  limits : t.limits = d.limits
  records : t.records = d.records + 1
  packet : ∀ p, record.kind = .packet p → p.frame = d.nextFrame ∧
    t.nextFrame = d.nextFrame + 1 ∧ p.dataOffset + p.capturedLen.toNat ≤ bytes.length
  other : (∀ p, record.kind ≠ .packet p) → t.nextFrame = d.nextFrame
  legacy : t.format = some .pcap → t.legacy.isSome

theorem complete_spec {raw : List U8} (hlegacy : d.format = some .pcap → d.legacy.isSome)
    (hraw : d.format = some .pcap → 16 + (d.endian.u32 raw 8).toNat ≤ raw.length) :
    Sat (complete raw offset) d (fun out t => ∃ record, out = .record record ∧
      RecordStep raw offset d record t) (Refused d) := by
  apply sat_bind
  refine (decodeBody_spec hlegacy hraw).mono (fun body t hstep => ?_) (fun e t he => he)
  apply sat_update_bind
  exact sat_pure ⟨_, rfl, rfl, rfl, hstep.limits, congrArg (· + 1) hstep.records, hstep.packet,
    hstep.other, hstep.legacy hlegacy⟩

theorem decode_spec (hlegacy : d.format = some .pcap → d.legacy.isSome) :
    Sat (decode input offset) d (fun out t => (∃ need, out = .needMore need ∧ t = d) ∨
      ∃ record need, out = .record record ∧ 0 < need ∧ need ≤ input.length ∧
        RecordStep (input.take need) offset d record t) (Refused d) := by
  unfold Sat
  by_cases hroom : d.records < d.limits.maxRecords
  · cases hreq : d.required input offset with
    | error e =>
      rw [decode_of_refused hroom hreq]
      exact ⟨rfl, required_never input e hreq⟩
    | ok need =>
      by_cases hle : need ≤ input.length
      · rw [decode_of_complete hroom hreq hle]
        have hraw : d.format = some .pcap →
            16 + (d.endian.u32 (input.take need) 8).toNat ≤ (input.take need).length := by
          intro hf
          have hsize := required_pcap hf hreq hle
          rw [List.length_take]
          omega
        refine (complete_spec hlegacy hraw).mono (fun out t hstep => ?_) (fun e t he => he)
        obtain ⟨record, hout, hrecord⟩ := hstep
        exact Or.inr ⟨record, need, hout, required_pos hreq, hle, hrecord⟩
      · rw [decode_of_short hroom hreq (by omega)]
        exact Or.inl ⟨need, rfl, rfl⟩
  · rw [decode_of_full (by omega)]
    exact ⟨rfl, by simp⟩

end Decoder
end PcapEvidence
