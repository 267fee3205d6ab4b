import PcapEvidence.CaptureStep
import PcapEvidence.CaptureWriter

/-!
# Words in written bytes

A word that was put into a byte string is read back at its place, in both byte orders. `Emits` says
that a complete record at the front of the remaining input is what the next call of the decoder
yields, whatever follows it.
-/

namespace PcapEvidence

theorem U16.split (v : U16) : (v.extractLsb' 8 8 ++ v.extractLsb' 0 8 : U16) = v := by
  ext i hi
  simp only [BitVec.getElem_append, BitVec.getElem_extractLsb']
  grind

theorem U32.split (v : U32) :
    (v.extractLsb' 24 8 ++ v.extractLsb' 16 8 ++ v.extractLsb' 8 8 ++ v.extractLsb' 0 8 : U32) = v := by
  ext i hi
  simp only [BitVec.getElem_append, BitVec.getElem_extractLsb']
  grind

theorem U64.split (v : U64) : (v.extractLsb' 32 32 ++ v.extractLsb' 0 32 : U64) = v := by
  ext i hi
  simp only [BitVec.getElem_append, BitVec.getElem_extractLsb']
  grind

theorem byteAt_append_right {l rest : List U8} {i : ℕ} (h : l.length ≤ i) :
    byteAt (l ++ rest) i = byteAt rest (i - l.length) := by
  simp [byteAt, List.getElem?_append_right h]

namespace Endian

variable (e : Endian) (l rest : List U8)

@[simp] theorem length_putU16 (v : U16) : (e.putU16 v).length = 2 := by cases e <;> rfl

@[simp] theorem length_putU32 (v : U32) : (e.putU32 v).length = 4 := by cases e <;> rfl

@[simp] theorem length_putU64 (v : U64) : (e.putU64 v).length = 8 := by cases e <;> rfl

theorem u16_putU16 (v : U16) : e.u16 (e.putU16 v ++ rest) 0 = v := by
  cases e <;> exact U16.split v

theorem u32_putU32 (v : U32) : e.u32 (e.putU32 v ++ rest) 0 = v := by
  cases e <;> exact U32.split v

variable {l rest} {i : ℕ}

theorem u16_append_right (h : l.length ≤ i) : e.u16 (l ++ rest) i = e.u16 rest (i - l.length) := by
  have h1 : i + 1 - l.length = i - l.length + 1 := by omega
  cases e <;> simp (disch := omega) only [u16, be16, byteAt_append_right, h1]

theorem u32_append_right (h : l.length ≤ i) : e.u32 (l ++ rest) i = e.u32 rest (i - l.length) := by
  have h1 : i + 1 - l.length = i - l.length + 1 := by omega
  have h2 : i + 2 - l.length = i - l.length + 2 := by omega
  have h3 : i + 3 - l.length = i - l.length + 3 := by omega
  cases e <;> simp (disch := omega) only [u32, be32, le32, byteAt_append_right, h1, h2, h3]

theorem u64_append_right (h : l.length ≤ i) : e.u64 (l ++ rest) i = e.u64 rest (i - l.length) := by
  have h4 : i + 4 - l.length = i - l.length + 4 := by omega
  have hword (j : ℕ) (hj : l.length ≤ j) :
      le32 (l ++ rest) j = le32 rest (j - l.length) ∧
        be32 (l ++ rest) j = be32 rest (j - l.length) :=
    ⟨u32_append_right little hj, u32_append_right big hj⟩
  cases e <;> simp only [u64, (hword i h).1, (hword i h).2, (hword (i + 4) (by omega)).1,
    (hword (i + 4) (by omega)).2, h4]

theorem u32_putU32_second (v w : U32) : e.u32 (e.putU32 v ++ e.putU32 w ++ rest) 4 = w := by
  rw [List.append_assoc, u32_append_right e (by simp), length_putU32]
  exact u32_putU32 e rest w

theorem u64_putU64 (v : U64) : e.u64 (e.putU64 v ++ rest) 0 = v := by
  have hfirst (e : Endian) (a b : U32) : e.u32 (e.putU32 a ++ e.putU32 b ++ rest) 0 = a := by
    rw [List.append_assoc]
    exact u32_putU32 e _ a
  cases e with
  | little =>
    change little.u32 _ 4 ++ little.u32 _ 0 = v
    rw [putU64, u32_putU32_second, hfirst]
    exact U64.split v
  | big =>
    change big.u32 _ 0 ++ big.u32 _ 4 = v
    rw [putU64, u32_putU32_second, hfirst]
    exact U64.split v

end Endian

namespace Decoder

open Method

/-- A complete record at the front of the input: how far it reaches, and what decoding it does. -/
structure Emits (d : Decoder) (raw : List U8) (offset : ℕ) (body : Body) (t : Decoder) : Prop where
  required : ∀ rest, offset + (raw ++ rest).length < wordBound →
    d.required (raw ++ rest) offset = .ok raw.length
  body : decodeBody raw offset d = (.ok body, t)
  limits : t.limits = d.limits
  records : t.records = d.records

theorem Emits.ne_nil {d t : Decoder} {raw : List U8} {offset : ℕ} {body : Body}
    (h : Emits d raw offset body t) (hword : offset + raw.length < wordBound) : raw ≠ [] := by
  have hreq := h.required [] (by simpa using hword)
  have hpos := required_pos hreq
  exact List.length_pos_iff.1 hpos

def counted (t : Decoder) : Decoder := { t with records := t.records + 1 }

def advanced (d : Decoder) : Decoder := { d with nextFrame := d.nextFrame + 1 }

def recordOf (raw : List U8) (offset : ℕ) (body : Body) : Record :=
  ⟨offset, body.endian, raw, body.kind, body.options, body.warnings⟩

theorem Emits.decode {d t : Decoder} {raw rest : List U8} {offset : ℕ} {body : Body}
    (h : Emits d raw offset body t) (hword : offset + (raw ++ rest).length < wordBound)
    (hroom : d.records < d.limits.maxRecords) :
    decode (raw ++ rest) offset d = (.ok (.record (recordOf raw offset body)), t.counted) := by
  have hle : raw.length ≤ (raw ++ rest).length := by
    rw [List.length_append]
    omega
  rw [decode_of_complete hroom (h.required rest hword) hle, List.take_left', complete,
    bind_of_ok h.body]
  · rfl
  · rfl

/-- Records one after the other, from a decoder state and an offset on. -/
inductive Chain : Decoder → ℕ → List U8 → List Record → Decoder → Prop
  | nil (d : Decoder) (offset : ℕ) : Chain d offset [] [] d
  | cons {d t u : Decoder} {offset : ℕ} {raw bytes : List U8} {body : Body} {records : List Record}
      (hemits : Emits d raw offset body t)
      (hrest : Chain t.counted (offset + raw.length) bytes records u) :
      Chain d offset (raw ++ bytes) (recordOf raw offset body :: records) u

end Decoder

namespace CaptureIter

open Decoder IterTrace

theorem drains_of_chain {it : CaptureIter} {records : List Record} {bytes : List U8} {u : Decoder}
    (h : Chain it.decoder it.position bytes records u) (hterminal : it.terminal = false)
    (hinside : it.position ≤ it.data.length) (hbytes : it.data.drop it.position = bytes)
    (hword : it.data.length < wordBound)
    (hroom : it.decoder.records + records.length ≤ it.decoder.limits.maxRecords)
    (hfinish : u.finish it.data.length = .ok ()) : Drains next it records none := by
  generalize hd : it.decoder = d at h hroom
  generalize ho : it.position = offset at h
  induction h generalizing it with
  | nil d offset =>
    have hend : it.position = it.data.length := by
      have hlen := congrArg List.length hbytes
      rw [List.length_drop, List.length_nil] at hlen
      omega
    have hnext : it.next = (none, { it with terminal := true }) := by
      rw [next, if_neg (by simp [hterminal]), if_pos hend, hd, hend, hfinish]
    refine .done (by rw [hnext]) ?_
    rw [hnext]
    exact silent_of_fixed rfl
  | @cons d t u offset raw bytes body records hemits hrest ih =>
    have hlen : offset + (raw ++ bytes).length = it.data.length := by
      have hlen := congrArg List.length hbytes
      rw [List.length_drop] at hlen
      omega
    have hne : raw ≠ [] := hemits.ne_nil (by rw [List.length_append] at hlen; omega)
    have hpos : 0 < raw.length := List.length_pos_iff.2 hne
    rw [List.length_append] at hlen
    rw [List.length_cons] at hroom
    have hdecode := @Emits.decode _ _ _ bytes _ _ hemits (by rw [List.length_append]; omega) (by omega)
    have hnext : it.next = (some (.ok (recordOf raw offset body)), { it with
        position := offset + raw.length
        decoder := t.counted }) := by
      rw [next, if_neg (by simp [hterminal]), if_neg (by omega), hbytes, hd, ho, hdecode]
      rfl
    refine .item (by rw [hnext]) ?_
    rw [hnext]
    refine ih hterminal (by simp only; omega) ?_ hword hfinish rfl ?_ rfl
    · simp only
      rw [← List.drop_drop, ← ho, hbytes, List.drop_left']
      rfl
    · change t.records + 1 + records.length ≤ t.limits.maxRecords
      rw [hemits.limits, hemits.records]
      omega

end CaptureIter

end PcapEvidence
