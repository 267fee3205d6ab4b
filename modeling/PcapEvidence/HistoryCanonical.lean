import PcapEvidence.HistoryState

/-!
# Rows of the range index

A row says where one placement of a payload lies in the relative sequence space of a generation and
which journal record holds it. Rows have a fixed width with reserved octets, and the order of their
fields is the order of the index.
-/

namespace PcapEvidence.History
open Method ByteCodec

structure Row where
  generation : Digest
  direction : U8
  selected : Bool
  start : ℤ
  stop : ℤ
  recordOffset : U64
  recordDigest : Digest
  ordinal : U64
  deriving DecidableEq

namespace Row

def WIDTH : ℕ := 112

def digestKey (d : Digest) : List ℕ := d.toList.map BitVec.toNat

theorem digestKey_injective : Function.Injective digestKey := by
  intro c c' h
  have hl : c.toList = c'.toList := List.map_injective_iff.2 BitVec.toNat_injective h
  exact Vector.toList_inj.1 hl

def orderKey (r : Row) : List ℕ ×ₗ ℕ ×ₗ ℤ ×ₗ ℤ ×ₗ ℕ ×ₗ ℕ ×ₗ Bool ×ₗ List ℕ :=
  toLex (digestKey r.generation, toLex (r.direction.toNat, toLex (r.start, toLex (r.stop,
    toLex (r.ordinal.toNat, toLex (r.recordOffset.toNat, toLex (r.selected,
      digestKey r.recordDigest)))))))

theorem orderKey_injective : Function.Injective orderKey := by
  rintro ⟨g, d, s, a, b, o, r, n⟩ ⟨g', d', s', a', b', o', r', n'⟩ h
  simp only [orderKey, EmbeddingLike.apply_eq_iff_eq, Prod.mk.injEq, BitVec.toNat_inj] at h
  obtain ⟨hg, rfl, rfl, rfl, rfl, rfl, rfl, hr⟩ := h
  rw [digestKey_injective hg, digestKey_injective hr]

instance : LinearOrder Row := LinearOrder.lift' orderKey orderKey_injective

/-- What the encoder asks of a row: a nonempty payload of at most 65535 octets. -/
def Valid (r : Row) : Prop :=
  r.direction.toNat ≤ 1 ∧ r.start < r.stop ∧ r.stop - r.start ≤ 65535 ∧ r.ordinal ≠ 0

instance (r : Row) : Decidable r.Valid := inferInstanceAs (Decidable (_ ∧ _))

def encode (r : Row) : Result (List U8) :=
  if ¬ r.Valid then .error (bad "history_index" "invalid interval")
  else .ok (Encoder.hash r.generation ++ Encoder.u8 r.direction ++ Encoder.boolean r.selected ++
    List.replicate 6 0 ++ Encoder.i64 r.start ++ Encoder.i64 r.stop ++ Encoder.u64 r.recordOffset ++
    Encoder.hash r.recordDigest ++ Encoder.u64 r.ordinal ++ Encoder.u64 0)

def reserved (n : ℕ) : DecoderM Unit := do
  let b ← Decoder.take n
  if b ≠ List.replicate n 0 then fail (bad "history_index" "reserved bytes set") else pure ()

def decodeM : DecoderM Row := do
  let generation ← Decoder.hash
  let direction ← Decoder.u8
  let selected ← Decoder.boolean
  reserved 6
  let start ← Decoder.i64
  let stop ← Decoder.i64
  let recordOffset ← Decoder.u64
  let recordDigest ← Decoder.hash
  let ordinal ← Decoder.u64
  reserved 8
  Decoder.finish
  let r : Row := ⟨generation, direction, selected, start, stop, recordOffset, recordDigest, ordinal⟩
  let _ ← lift r.encode
  pure r

def decode (b : List U8) : Result Row :=
  if b.length ≠ WIDTH then .error (bad "history_index" "wrong entry width")
  else Decoder.run decodeM b

end Row

end PcapEvidence.History

/-!
## Canonical encodings

A codec is canonical when decoding and encoding undo each other in both directions and nothing that
follows an encoding is accepted. `Closes` is the reading of a whole byte string: the value is
returned, and a longer string is refused.
-/

namespace PcapEvidence.ByteCodec
open Method

section Canonical
variable {β ε α γ : Type}

structure Canonical (encode : α → Except ε (List β)) (decode : List β → Except ε α)
    (Fits : α → Prop) : Prop where
  decode_encode : ∀ v b, Fits v → encode v = .ok b → decode b = .ok v
  encode_decode : ∀ b v, decode b = .ok v → encode v = .ok b
  fits : ∀ b v, decode b = .ok v → Fits v
  trailing : ∀ b v more, decode b = .ok v → more ≠ [] → ∃ e, decode (b ++ more) = .error e

/-- The whole byte string is read, and no longer one. -/
def Closes (m : Method (List β) ε α) (bytes : List β) (v : α) : Prop :=
  m bytes = (.ok v, []) ∧ ∀ more, more ≠ [] → ∃ e t, m (bytes ++ more) = (.error e, t)

theorem Reads.closes {m : Method (List β) ε α} {f : α → Method (List β) ε γ} {a b : List β} {v : α}
    {w : γ} (hm : Reads m a v) (hf : Closes (f v) b w) : Closes (m >>= f) (a ++ b) w := by
  refine ⟨by rw [bind_of_ok (hm b), hf.1], fun more hmore => ?_⟩
  obtain ⟨e, t, he⟩ := hf.2 more hmore
  exact ⟨e, t, by rw [List.append_assoc, bind_of_ok (hm (b ++ more)), he]⟩

theorem Canonical.of_closes {encode : α → Except ε (List β)} {m : Method (List β) ε α}
    {Fits : α → Prop} (hclose : ∀ v b, Fits v → encode v = .ok b → Closes m b v)
    (hback : ∀ b v t, m b = (.ok v, t) → Fits v ∧ encode v = .ok b) :
    Canonical encode (fun b => (m b).1) Fits := by
  have hrun : ∀ {b : List β} {v : α}, (m b).1 = .ok v → m b = (.ok v, (m b).2) :=
    fun h => by rw [← h]
  refine ⟨fun v b hv h => ?_, fun b v h => (hback b v _ (hrun h)).2,
    fun b v h => (hback b v _ (hrun h)).1, fun b v more h hmore => ?_⟩
  · rw [(hclose v b hv h).1]
  · obtain ⟨hfits, hencode⟩ := hback b v _ (hrun h)
    obtain ⟨e, t, he⟩ := (hclose v b hfits hencode).2 more hmore
    exact ⟨e, by rw [he]⟩

def Takes (m : Method (List β) ε α) (encode : α → List β) : Prop :=
  ∀ s v t, m s = (.ok v, t) → s = encode v ++ t

theorem Takes.repeated {m : Method (List β) ε α} {encode : α → List β} (h : Takes m encode) (n : ℕ)
    {s t : List β} {vs : List α} (hs : repeated m n s = (.ok vs, t)) :
    s = vs.flatMap encode ++ t ∧ vs.length = n := by
  induction n generalizing s vs with
  | zero =>
    cases hs
    simp
  | succ n ih =>
    obtain ⟨v, u, hv, hs⟩ := bind_ok hs
    obtain ⟨rest, w, hrest, hs⟩ := bind_ok hs
    cases hs
    obtain ⟨hu, hlen⟩ := ih hrest
    rw [h s v u hv, hu]
    simp [hlen]

end Canonical

end PcapEvidence.ByteCodec

namespace PcapEvidence.History
open Method ByteCodec

/-! ### The primitive calls -/

theorem take_ok {n : ℕ} {s b t : List U8} (h : Decoder.take n s = (.ok b, t)) :
    s = b ++ t ∧ b.length = n := by
  rw [Decoder.take, read_bind] at h
  split at h
  next hn =>
    cases h
    exact ⟨(List.take_append_drop n s).symm, by simp [hn]⟩
  next => cases h

theorem takes_u8 : Takes Decoder.u8 Encoder.u8 := by
  intro s v t h
  obtain ⟨b, u, hb, h⟩ := bind_ok h
  cases h
  obtain ⟨rfl, hlen⟩ := take_ok hb
  obtain ⟨x, rfl⟩ := List.length_eq_one_iff.1 hlen
  rfl

theorem takes_boolean : Takes Decoder.boolean Encoder.boolean := by
  intro s v t h
  obtain ⟨b, u, hb, h⟩ := bind_ok h
  rw [takes_u8 s b u hb]
  split at h
  next hzero =>
    cases h
    rw [hzero]
    rfl
  next =>
    split at h
    next hone =>
      cases h
      rw [hone]
      rfl
    next => cases h

theorem takes_word {w n : ℕ} (hw : w = 8 * n) : Takes (do
    let b ← Decoder.take n
    pure (BitVec.ofNat w (leNat b)) : DecoderM (BitVec w)) (fun v => leBytes n v.toNat) := by
  intro s v t h
  obtain ⟨b, u, hb, h⟩ := bind_ok h
  cases h
  obtain ⟨rfl, rfl⟩ := take_ok hb
  have hpow : 2 ^ w = 256 ^ b.length := by rw [hw, Nat.pow_mul]
  change b ++ t = leBytes b.length (BitVec.ofNat w (leNat b)).toNat ++ t
  rw [BitVec.toNat_ofNat, hpow, Nat.mod_eq_of_lt (leNat_lt b), leBytes_leNat]

theorem takes_u16 : Takes Decoder.u16 Encoder.u16 := @takes_word 16 2 rfl

theorem takes_u32 : Takes Decoder.u32 Encoder.u32 := @takes_word 32 4 rfl

theorem takes_u64 : Takes Decoder.u64 Encoder.u64 := @takes_word 64 8 rfl

theorem takes_i128 : Takes Decoder.i128 Encoder.i128 := @takes_word 128 16 rfl

theorem i64_ok {s t : List U8} {v : ℤ} (h : Decoder.i64 s = (.ok v, t)) :
    s = Encoder.i64 v ++ t ∧ InI64 v := by
  obtain ⟨n, u, hn, h⟩ := bind_ok h
  cases h
  rw [takes_u64 s n t hn, Encoder.i64, BitVec.ofInt_toInt]
  exact ⟨rfl, BitVec.le_toInt n, BitVec.toInt_lt⟩

theorem takes_i64 : Takes Decoder.i64 Encoder.i64 := fun _ _ _ h => (i64_ok h).1

theorem hash_of_length {b : List U8} (h : b.length = 32) :
    Encoder.hash (Vector.ofFn fun i : Fin 32 => byteAt b i) = b := by
  refine List.ext_getElem (by simp [Encoder.hash, h]) fun i hi hi' => ?_
  simp [Encoder.hash, byteAt, hi']

theorem takes_hash : Takes Decoder.hash Encoder.hash := by
  intro s v t h
  obtain ⟨b, u, hb, h⟩ := bind_ok h
  obtain ⟨hs, hlen⟩ := take_ok hb
  change (Except.ok (Vector.ofFn fun i : Fin 32 => byteAt b i), u) = (.ok v, t) at h
  obtain ⟨hv, hu⟩ := Prod.mk.inj h
  rw [hs, hu, ← Except.ok.inj hv, hash_of_length hlen]

theorem blob_ok {max : ℕ} {s b t : List U8} (h : Decoder.bytes max s = (.ok b, t)) :
    b.length ≤ max ∧ ∃ e, Encoder.bytes b = .ok e ∧ s = e ++ t := by
  obtain ⟨n, u, hn, h⟩ := bind_ok h
  obtain ⟨hmax, h⟩ := guard_ok h
  obtain ⟨rfl, hlen⟩ := take_ok h
  have hlt : b.length < 2 ^ 32 := hlen ▸ n.isLt
  refine ⟨by omega, Encoder.u32 n ++ b, ?_, ?_⟩
  · rw [Encoder.bytes, if_pos hlt, hlen, BitVec.ofNat_toNat, BitVec.setWidth_eq]
  · rw [takes_u32 s n _ hn, List.append_assoc]

theorem utf8_of_fromUtf8 {b : List U8} {s : String} (h : Decoder.fromUtf8 b = some s) :
    Encoder.utf8 s = b := by
  unfold Decoder.fromUtf8 String.fromUTF8? at h
  split at h
  next hvalid =>
    cases h
    have hid : UInt8.toBitVec ∘ UInt8.ofBitVec = id := rfl
    simp [Encoder.utf8, String.fromUTF8, hid]
  next => cases h

theorem text_ok {max : ℕ} {s t : List U8} {v : String} (h : Decoder.text max s = (.ok v, t)) :
    (Encoder.utf8 v).length ≤ max ∧ ∃ e, Encoder.text v = .ok e ∧ s = e ++ t := by
  obtain ⟨b, u, hb, h⟩ := bind_ok h
  obtain ⟨hmax, e, he, hs⟩ := blob_ok hb
  cases hv : Decoder.fromUtf8 b with
  | none =>
    rw [hv] at h
    cases h
  | some w =>
    rw [hv] at h
    cases h
    rw [Encoder.text, utf8_of_fromUtf8 hv]
    exact ⟨hmax, e, he, hs⟩

theorem takes_option {α : Type} {decode : DecoderM α} {encode : α → List U8}
    (hm : Takes decode encode) : Takes (Decoder.option decode) (Encoder.option encode) := by
  intro s v t h
  obtain ⟨present, u, hpresent, h⟩ := bind_ok h
  rw [takes_boolean s present u hpresent]
  cases present with
  | false =>
    cases h
    rfl
  | true =>
    obtain ⟨a, w, ha, h⟩ := bind_ok h
    cases h
    rw [hm u a t ha, Encoder.option, List.append_assoc]

theorem takes_optionU32 : Takes Decoder.optionU32 Encoder.optionU32 := takes_option takes_u32

theorem takes_optionI64 : Takes Decoder.optionI64 Encoder.optionI64 := takes_option takes_i64

theorem takes_optionI128 : Takes Decoder.optionI128 Encoder.optionI128 := takes_option takes_i128

theorem finish_bind_ok {α : Type} {f : Unit → DecoderM α} {s t : List U8} {v : α}
    (h : (Decoder.finish >>= f) s = (.ok v, t)) : s = [] ∧ f () [] = (.ok v, t) := by
  obtain ⟨⟨⟩, u, hfinish, h⟩ := bind_ok h
  rw [Decoder.finish, read_bind] at hfinish
  split at hfinish
  next hs =>
    cases hfinish
    exact ⟨hs, hs ▸ h⟩
  next => cases hfinish

theorem finish_closes {α : Type} {f : Unit → DecoderM α} {v : α} (h : f () [] = (.ok v, [])) :
    Closes (Decoder.finish >>= f) [] v := by
  refine ⟨h, fun more hmore => ⟨bad "history_record" "trailing bytes", more, ?_⟩⟩
  refine bind_of_error ?_ f
  rw [List.nil_append, Decoder.finish, read_bind, if_neg hmore]
  rfl

end PcapEvidence.History
