import PcapEvidence.ByteCodec
import PcapEvidence.CaptureTime
import PcapEvidence.WireDecode

/-!
# The canonical codec of the history journal

Little-endian words, length-delimited blobs and one-byte tags. `Encoder` appends to a byte string,
so an encoder here is the bytes it appends; `Decoder` keeps the unread rest.
-/

namespace PcapEvidence.History

open Method ByteCodec

/-- A SHA-256 value. The hash function is a parameter of everything that computes one. -/
abbrev Digest := Vector U8 32

def bad (field detail : String) : Error := ⟨.invariant, 0, field, detail⟩

/-- The value, or the error that its absence stands for. -/
def okOr {α : Type} (e : Error) : Option α → Result α
  | some v => .ok v
  | none => .error e

theorem okOr_eq_ok_iff {α : Type} {e : Error} {o : Option α} {v : α} :
    okOr e o = .ok v ↔ o = some v := by
  cases o with
  | none => simp [okOr]
  | some u => simp [okOr]

namespace Encoder

def u8 (v : U8) : List U8 := [v]

def u16 (v : U16) : List U8 := leBytes 2 v.toNat

def u32 (v : U32) : List U8 := leBytes 4 v.toNat

def u64 (v : U64) : List U8 := leBytes 8 v.toNat

def i64 (v : ℤ) : List U8 := u64 (BitVec.ofInt 64 v)

def i128 (v : BitVec 128) : List U8 := leBytes 16 v.toNat

def hash (v : Digest) : List U8 := v.toList

def bytes (b : List U8) : Result (List U8) :=
  if b.length < 2 ^ 32 then .ok (u32 (BitVec.ofNat 32 b.length) ++ b)
  else .error (Error.limit "history_blob")

def utf8 (s : String) : List U8 := s.toByteArray.data.toList.map UInt8.toBitVec

def text (s : String) : Result (List U8) := bytes (utf8 s)

def boolean (b : Bool) : List U8 := u8 (if b then 1 else 0)

def option {α : Type} (encode : α → List U8) : Option α → List U8
  | none => boolean false
  | some v => boolean true ++ encode v

def optionU32 : Option U32 → List U8 := option u32

def optionI64 : Option ℤ → List U8 := option i64

def optionI128 : Option (BitVec 128) → List U8 := option i128

end Encoder

/-- A call on the decoder, whose state is the unread bytes. -/
abbrev DecoderM (α : Type) : Type := Method (List U8) Error α

namespace Decoder

def take (n : ℕ) : DecoderM (List U8) := do
  let rest ← read
  if n ≤ rest.length then do
    update (List.drop n)
    pure (rest.take n)
  else fail (bad "history_record" "truncated field")

def u8 : DecoderM U8 := do
  let b ← take 1
  pure (byteAt b 0)

def boolean : DecoderM Bool := do
  let b ← u8
  if b = 0 then pure false
  else if b = 1 then pure true
  else fail (bad "history_bool" "noncanonical boolean")

def u16 : DecoderM U16 := do
  let b ← take 2
  pure (BitVec.ofNat 16 (leNat b))

def u32 : DecoderM U32 := do
  let b ← take 4
  pure (BitVec.ofNat 32 (leNat b))

def u64 : DecoderM U64 := do
  let b ← take 8
  pure (BitVec.ofNat 64 (leNat b))

def i64 : DecoderM ℤ := do
  let v ← u64
  pure v.toInt

def i128 : DecoderM (BitVec 128) := do
  let b ← take 16
  pure (BitVec.ofNat 128 (leNat b))

def hash : DecoderM Digest := do
  let b ← take 32
  pure (Vector.ofFn fun i => byteAt b i)

def bytes (max : ℕ) : DecoderM (List U8) := do
  let n ← u32
  if n.toNat > max then fail (Error.limit "history_blob")
  else take n.toNat

def fromUtf8 (b : List U8) : Option String :=
  String.fromUTF8? ⟨(b.map UInt8.ofBitVec).toArray⟩

def text (max : ℕ) : DecoderM String := do
  let b ← bytes max
  match fromUtf8 b with
  | some s => pure s
  | none => fail (bad "history_text" "invalid UTF-8")

def option {α : Type} (decode : DecoderM α) : DecoderM (Option α) := do
  let present ← boolean
  if present then do
    let v ← decode
    pure (some v)
  else pure none

def optionU32 : DecoderM (Option U32) := option u32

def optionI64 : DecoderM (Option ℤ) := option i64

def optionI128 : DecoderM (Option (BitVec 128)) := option i128

def finish : DecoderM Unit := do
  let rest ← read
  if rest = [] then pure () else fail (bad "history_record" "trailing bytes")

def run {α : Type} (m : DecoderM α) (b : List U8) : Result α := (m b).1

end Decoder

section Reads

open Encoder

theorem reads_take (b : List U8) : Reads (Decoder.take b.length) b b := by
  intro rest
  rw [Decoder.take, read_bind, if_pos (by rw [List.length_append]; omega), update_bind]
  simp only [List.take_left', List.drop_left']
  rfl

theorem reads_take_of_length {n : ℕ} {b : List U8} (h : b.length = n) :
    Reads (Decoder.take n) b b := h ▸ reads_take b

theorem reads_u8 (v : U8) : Reads Decoder.u8 (u8 v) v :=
  (reads_take_of_length (n := 1) rfl).map (.pure v)

theorem reads_boolean (b : Bool) : Reads Decoder.boolean (boolean b) b := by
  cases b with
  | false => exact (reads_u8 0).map (.pure false)
  | true => exact (reads_u8 1).map (.pure true)

theorem reads_word {w n : ℕ} (h : w = 8 * n) (v : BitVec w) :
    Reads (do
      let b ← Decoder.take n
      pure (BitVec.ofNat w (leNat b)) : DecoderM (BitVec w)) (leBytes n v.toNat) v := by
  refine (reads_take_of_length (length_leBytes n v.toNat)).map ?_
  rw [ofNat_leNat_leBytes h]
  exact .pure v

theorem reads_u16 (v : U16) : Reads Decoder.u16 (u16 v) v := @reads_word 16 2 rfl v

theorem reads_u32 (v : U32) : Reads Decoder.u32 (u32 v) v := @reads_word 32 4 rfl v

theorem reads_u64 (v : U64) : Reads Decoder.u64 (u64 v) v := @reads_word 64 8 rfl v

theorem reads_i128 (v : BitVec 128) : Reads Decoder.i128 (i128 v) v := @reads_word 128 16 rfl v

/-- A 64-bit signed value. -/
def InI64 (v : ℤ) : Prop := -2 ^ 63 ≤ v ∧ v < 2 ^ 63

theorem reads_i64 {v : ℤ} (h : InI64 v) : Reads Decoder.i64 (i64 v) v := by
  have hv : (BitVec.ofInt 64 v).toInt = v := BitVec.toInt_ofInt_eq_self (by decide) h.1 h.2
  refine (reads_u64 (BitVec.ofInt 64 v)).map ?_
  rw [hv]
  exact .pure v

theorem length_hash (v : Digest) : (Encoder.hash v).length = 32 := by simp [Encoder.hash]

theorem ofFn_hash (v : Digest) : (Vector.ofFn fun i : Fin 32 => byteAt (Encoder.hash v) i) = v := by
  refine Vector.ext fun i hi => ?_
  simp [Encoder.hash, byteAt]

theorem reads_hash (v : Digest) : Reads Decoder.hash (Encoder.hash v) v := by
  refine (reads_take_of_length (length_hash v)).map ?_
  rw [ofFn_hash]
  exact .pure v

theorem bytes_ok {b e : List U8} (h : Encoder.bytes b = .ok e) :
    b.length < 2 ^ 32 ∧ e = u32 (BitVec.ofNat 32 b.length) ++ b := by
  unfold Encoder.bytes at h
  split_ifs at h with hlen
  exact ⟨hlen, (Except.ok.inj h).symm⟩

theorem reads_bytes {b e : List U8} {max : ℕ} (h : Encoder.bytes b = .ok e) (hmax : b.length ≤ max) :
    Reads (Decoder.bytes max) e b := by
  obtain ⟨hlen, rfl⟩ := bytes_ok h
  have hnat : (BitVec.ofNat 32 b.length).toNat = b.length := by
    rw [BitVec.toNat_ofNat, Nat.mod_eq_of_lt hlen]
  refine (reads_u32 _).bind ?_
  rw [hnat, if_neg (by omega)]
  exact reads_take b

theorem fromUtf8_utf8 (s : String) : Decoder.fromUtf8 (utf8 s) = some s := by
  have hbytes : (⟨((utf8 s).map UInt8.ofBitVec).toArray⟩ : ByteArray) = s.toByteArray := by
    rw [utf8, List.map_map]
    have hid : UInt8.ofBitVec ∘ UInt8.toBitVec = id := rfl
    rw [hid, List.map_id]
  rw [Decoder.fromUtf8, hbytes, String.fromUTF8?, dif_pos s.isValidUTF8]
  rfl

theorem reads_text {s : String} {e : List U8} {max : ℕ} (h : Encoder.text s = .ok e)
    (hmax : (utf8 s).length ≤ max) : Reads (Decoder.text max) e s := by
  refine (reads_bytes h hmax).map ?_
  rw [fromUtf8_utf8]
  exact .pure s

theorem reads_option {α : Type} {encode : α → List U8} {decode : DecoderM α} {v : Option α}
    (h : ∀ a, v = some a → Reads decode (encode a) a) :
    Reads (Decoder.option decode) (Encoder.option encode v) v := by
  cases v with
  | none => exact (reads_boolean false).map (.pure none)
  | some a => exact (reads_boolean true).bind ((h a rfl).map (.pure (some a)))

theorem run_of_reads {α : Type} {m : DecoderM α} {b : List U8} {v : α} (h : Reads m b v) :
    m b = (.ok v, []) := by
  simpa using h []

end Reads

end PcapEvidence.History
