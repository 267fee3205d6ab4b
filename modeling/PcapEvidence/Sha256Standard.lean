import PcapEvidence.Sha256
import Mathlib.Analysis.SpecialFunctions.Pow.NthRootLemmas

/-!
# The hash of the standard

The hash as the standard defines it: constants from the roots of the first primes, the padded
message cut into blocks, the message schedule as a recurrence over all rounds, and the rounds
folded over the blocks.
-/

namespace PcapEvidence.Sha256

namespace Standard

def primes : List ℕ := (List.range 312).filter fun n => n.Prime

/-- The first 32 bits of the fractional part of the `k`-th root of the `t`-th prime. -/
def rootBits (k t : ℕ) : U32 := BitVec.ofNat 32 (Nat.nthRoot k (primes.getD t 0 * 2 ^ (32 * k)))

def K (t : ℕ) : U32 := rootBits 3 t

/-- The initial hash value. -/
def H0 : Words :=
  ⟨rootBits 2 0, rootBits 2 1, rootBits 2 2, rootBits 2 3, rootBits 2 4, rootBits 2 5, rootBits 2 6,
    rootBits 2 7⟩

def Ch (x y z : U32) : U32 := (x &&& y) ^^^ (~~~x &&& z)

def Maj (x y z : U32) : U32 := (x &&& y) ^^^ (x &&& z) ^^^ (y &&& z)

def bigSigma0 (x : U32) : U32 := x.rotateRight 2 ^^^ x.rotateRight 13 ^^^ x.rotateRight 22

def bigSigma1 (x : U32) : U32 := x.rotateRight 6 ^^^ x.rotateRight 11 ^^^ x.rotateRight 25

def smallSigma0 (x : U32) : U32 := x.rotateRight 7 ^^^ x.rotateRight 18 ^^^ (x >>> 3)

def smallSigma1 (x : U32) : U32 := x.rotateRight 17 ^^^ x.rotateRight 19 ^^^ (x >>> 10)

/-- The least number of zero bytes that leaves room for the length at the end of a block. -/
def zeroCount (length : ℕ) : ℕ := (119 - length % 64) % 64

def lengthBytes (bits : ℕ) : List U8 :=
  (List.range 8).map fun i => BitVec.ofNat 8 (bits / 256 ^ (7 - i))

def padded (message : List U8) : List U8 :=
  message ++ 0x80 :: (List.replicate (zeroCount message.length) 0 ++ lengthBytes (8 * message.length))

def blocks (message : List U8) : List (List U8) :=
  (List.range (message.length / 64)).map fun i => (message.drop (64 * i)).take 64

def W (block : List U8) (t : ℕ) : U32 :=
  if t < 16 then be32 block (4 * t)
  else smallSigma1 (W block (t - 2)) + W block (t - 7) + smallSigma0 (W block (t - 15)) +
    W block (t - 16)
termination_by t

/-- One round on the eight working variables. -/
def step (block : List U8) (s : Words) (t : ℕ) : Words :=
  let T1 := s.h + bigSigma1 s.e + Ch s.e s.f s.g + K t + W block t
  let T2 := bigSigma0 s.a + Maj s.a s.b s.c
  ⟨T1 + T2, s.a, s.b, s.c, s.d + T1, s.e, s.f, s.g⟩

def hashBlock (H : Words) (block : List U8) : Words :=
  let s := (List.range 64).foldl (step block) H
  ⟨s.a + H.a, s.b + H.b, s.c + H.c, s.d + H.d, s.e + H.e, s.f + H.f, s.g + H.g, s.h + H.h⟩

def sha256 (message : List U8) : List U8 :=
  Hasher.output ((blocks (padded message)).foldl hashBlock H0)

theorem K_eq : (List.range 64).map K = Sha256.K := by decide +kernel

theorem H0_eq : H0 = initial := by decide +kernel

theorem W_input {t : ℕ} (h : t < 16) (block : List U8) : W block t = be32 block (4 * t) := by
  rw [W, if_pos h]

theorem W_recurrence {t : ℕ} (h : 16 ≤ t) (block : List U8) :
    W block t = smallSigma1 (W block (t - 2)) + W block (t - 7) + smallSigma0 (W block (t - 15)) +
      W block (t - 16) := by
  rw [W, if_neg (by omega)]

/-- The words behind the first ones follow the recurrence. -/
theorem extend_schedule (block : List U8) (n m : ℕ) (h : 16 ≤ m) :
    extend n ((List.range m).map (W block)) = (List.range (m + n)).map (W block) := by
  induction n generalizing m with
  | zero => rfl
  | succ n ih =>
    have hback : ∀ back, 1 ≤ back → back ≤ 16 →
        ((List.range m).map (W block)).getD (m - back) 0 = W block (m - back) := by
      intro back hpos hle
      rw [List.getD_eq_getElem?_getD, List.getElem?_map, List.getElem?_range (by omega)]
      rfl
    have hnext : W block m = W block (m - 16) + smallSigma0 (W block (m - 15)) + W block (m - 7) +
        smallSigma1 (W block (m - 2)) := by
      rw [W_recurrence h]
      ac_rfl
    have hrange : (List.range m).map (W block) ++ [W block m] = (List.range (m + 1)).map (W block) := by
      rw [List.range_succ, List.map_append, List.map_singleton]
    rw [extend]
    simp only [List.length_map, List.length_range, hback 15 (by omega) (by omega),
      hback 2 (by omega) (by omega), hback 16 (by omega) (by omega), hback 7 (by omega) (by omega)]
    rw [← smallSigma0, ← smallSigma1, ← hnext, hrange, ih (m + 1) (by omega),
      Nat.add_assoc, Nat.add_comm 1 n]

theorem schedule_eq (block : List U8) : schedule block = (List.range 64).map (W block) := by
  have hfirst : (List.range 16).map (fun i => be32 block (4 * i)) = (List.range 16).map (W block) :=
    List.map_congr_left fun t ht => (W_input (List.mem_range.1 ht) block).symm
  rw [schedule, hfirst, extend_schedule block 48 16 le_rfl]

theorem compress_eq (s : Words) (block : List U8) : compress s block = hashBlock s block := by
  have hrounds : (Sha256.K.zip (schedule block)).foldl (fun t kw => round t kw.1 kw.2) s =
      (List.range 64).foldl (step block) s := by
    rw [schedule_eq, ← K_eq, List.zip_map', List.foldl_map]
    rfl
  simp only [compress, hrounds, hashBlock, Words.mk.injEq]
  simp only [BitVec.add_comm, and_self]

theorem absorb_eq (n : ℕ) (s : Words) (data : List U8) : (absorb n s data).1 =
    ((List.range n).map fun i => (data.drop (64 * i)).take 64).foldl hashBlock s := by
  induction n generalizing s data with
  | zero => rfl
  | succ n ih =>
    rw [absorb, ih, List.range_succ_eq_map, List.map_cons, List.foldl_cons, compress_eq, List.map_map]
    congr 1
    apply List.map_congr_left
    intro i _
    rw [List.drop_drop, Function.comp_apply, Nat.mul_succ, Nat.add_comm]

theorem foldl_blocks (s : Words) (message : List U8) :
    (blocks message).foldl hashBlock s = (feed s message).1 := (absorb_eq _ s message).symm

theorem be64_eq (length : ℕ) :
    Hasher.be64 (BitVec.ofNat 64 length * 8) = lengthBytes (8 * length) := by
  have hbits : (BitVec.ofNat 64 length * 8).toNat = (8 * length) % 2 ^ 64 := by
    rw [BitVec.toNat_mul, BitVec.toNat_ofNat]
    have height : (8 : U64).toNat = 8 := rfl
    rw [height]
    omega
  have hbyte : ∀ start, start + 8 ≤ 64 → (BitVec.ofNat 64 length * 8).extractLsb' start 8 =
      BitVec.ofNat 8 (8 * length / 2 ^ start) := by
    intro start hstart
    apply BitVec.eq_of_toNat_eq
    rw [BitVec.extractLsb'_toNat, hbits, Nat.shiftRight_eq_div_pow, BitVec.toNat_ofNat]
    obtain ⟨rest, hrest⟩ : ∃ rest, 64 = start + 8 + rest := ⟨64 - (start + 8), by omega⟩
    rw [hrest, pow_add, pow_add, Nat.mul_assoc, Nat.mod_mul_right_div_self, Nat.mod_mul_right_mod]
  rw [Hasher.be64, hbyte 56 (by omega), hbyte 48 (by omega), hbyte 40 (by omega), hbyte 32 (by omega),
    hbyte 24 (by omega), hbyte 16 (by omega), hbyte 8 (by omega), hbyte 0 (by omega)]
  rfl

theorem length_lengthBytes (bits : ℕ) : (lengthBytes bits).length = 8 := rfl

theorem pad_eq {s : Hasher} (h : s.buffer.length < 64) {length : ℕ}
    (hlength : length % 64 = s.buffer.length) (hbytes : s.bytes = BitVec.ofNat 64 length) :
    s.pad = (feed s.state (s.buffer ++
      0x80 :: (List.replicate (zeroCount length) 0 ++ lengthBytes (8 * length)))).1 := by
  have hone : ∀ (state : Words) (block : List U8), block.length = 64 →
      (feed state block).1 = compress state block := by
    intro state block hblock
    have hfeed := feed_block (s := state) hblock []
    rw [List.append_nil] at hfeed
    rw [hfeed]
    rfl
  rw [Hasher.pad]
  simp only [hbytes, be64_eq, List.length_append, List.length_singleton]
  by_cases hlong : s.buffer.length + 1 > 56
  · have hzeros : zeroCount length = (64 - (s.buffer.length + 1)) + 56 := by
      unfold zeroCount
      omega
    have hsplit : s.buffer ++ 0x80 :: (List.replicate (zeroCount length) 0 ++ lengthBytes (8 * length)) =
        (s.buffer ++ [0x80] ++ List.replicate (64 - (s.buffer.length + 1)) 0) ++
          (List.replicate 56 0 ++ lengthBytes (8 * length)) := by
      rw [hzeros, List.replicate_add]
      simp
    rw [if_pos hlong, hsplit, feed_block, hone]
    · simp [length_lengthBytes]
    · simp only [List.length_append, List.length_singleton, List.length_replicate]
      omega
  · have hzeros : zeroCount length = 56 - (s.buffer.length + 1) := by
      unfold zeroCount
      omega
    rw [if_neg hlong, hzeros, hone]
    · simp
    · simp only [List.length_append, List.length_cons, List.length_replicate, length_lengthBytes]
      omega

theorem toList_bytes {out : List U8} (h : out.length = 32) :
    (Vector.ofFn fun i : Fin 32 => byteAt out i).toList = out := by
  apply List.ext_getElem
  · rw [Vector.length_toList, h]
  · intro i hi hout
    rw [Vector.getElem_toList, Vector.getElem_ofFn, byteAt]
    rw [List.getD_eq_getElem?_getD, List.getElem?_eq_getElem hout, Option.getD_some]

theorem length_output (w : Words) : (Hasher.output w).length = 32 := rfl

theorem toList_finalize (s : Hasher) : s.finalize.toList = Hasher.output s.pad :=
  toList_bytes (length_output s.pad)

theorem digest_standard (message : List U8) : (digest message).toList = sha256 message := by
  have hempty : (Hasher.new).buffer.length < 64 := by decide
  have hlength : message.length % 64 = (feed initial message).2.length := by
    rw [feed, length_absorb (Nat.mul_div_le _ _)]
    omega
  rw [digest, toList_finalize, sha256, H0_eq, foldl_blocks, Hasher.update_eq hempty]
  change Hasher.output (Hasher.pad ⟨(feed initial message).1, (feed initial message).2,
    0 + BitVec.ofNat 64 message.length⟩) = _
  rw [pad_eq (length_feed _ _) hlength (BitVec.zero_add _), feed_feed, padded]

end Standard

/-- A hash over any pieces is the hash of the standard of their concatenation, which is its digest. -/
theorem pieces_standard (pieces : List (List U8)) :
    (pieces.foldl Hasher.update Hasher.new).finalize.toList = Standard.sha256 pieces.flatten ∧
      (pieces.foldl Hasher.update Hasher.new).finalize = digest pieces.flatten := by
  rw [digest_pieces]
  exact ⟨Standard.digest_standard _, rfl⟩

end PcapEvidence.Sha256
