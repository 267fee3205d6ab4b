import PcapEvidence.CaptureTime
import PcapEvidence.WireDecode

/-!
# SHA-256 for content identity

The compression function, the streaming state and the padding. Feeding data in pieces is the same
as feeding it at once, so a hash over several updates is the digest of the concatenation.
-/

namespace PcapEvidence.Sha256

def K : List U32 := [
  0x428a2f98, 0x71374491, 0xb5c0fbcf, 0xe9b5dba5, 0x3956c25b, 0x59f111f1, 0x923f82a4, 0xab1c5ed5,
  0xd807aa98, 0x12835b01, 0x243185be, 0x550c7dc3, 0x72be5d74, 0x80deb1fe, 0x9bdc06a7, 0xc19bf174,
  0xe49b69c1, 0xefbe4786, 0x0fc19dc6, 0x240ca1cc, 0x2de92c6f, 0x4a7484aa, 0x5cb0a9dc, 0x76f988da,
  0x983e5152, 0xa831c66d, 0xb00327c8, 0xbf597fc7, 0xc6e00bf3, 0xd5a79147, 0x06ca6351, 0x14292967,
  0x27b70a85, 0x2e1b2138, 0x4d2c6dfc, 0x53380d13, 0x650a7354, 0x766a0abb, 0x81c2c92e, 0x92722c85,
  0xa2bfe8a1, 0xa81a664b, 0xc24b8b70, 0xc76c51a3, 0xd192e819, 0xd6990624, 0xf40e3585, 0x106aa070,
  0x19a4c116, 0x1e376c08, 0x2748774c, 0x34b0bcb5, 0x391c0cb3, 0x4ed8aa4a, 0x5b9cca4f, 0x682e6ff3,
  0x748f82ee, 0x78a5636f, 0x84c87814, 0x8cc70208, 0x90befffa, 0xa4506ceb, 0xbef9a3f7, 0xc67178f2]

structure Words where
  a : U32
  b : U32
  c : U32
  d : U32
  e : U32
  f : U32
  g : U32
  h : U32
  deriving DecidableEq

def initial : Words :=
  ⟨0x6a09e667, 0xbb67ae85, 0x3c6ef372, 0xa54ff53a, 0x510e527f, 0x9b05688c, 0x1f83d9ab, 0x5be0cd19⟩

def extend : ℕ → List U32 → List U32
  | 0, w => w
  | n + 1, w =>
    let at_ (back : ℕ) : U32 := w.getD (w.length - back) 0
    let s0 := (at_ 15).rotateRight 7 ^^^ (at_ 15).rotateRight 18 ^^^ (at_ 15 >>> 3)
    let s1 := (at_ 2).rotateRight 17 ^^^ (at_ 2).rotateRight 19 ^^^ (at_ 2 >>> 10)
    extend n (w ++ [at_ 16 + s0 + at_ 7 + s1])

def schedule (block : List U8) : List U32 :=
  extend 48 ((List.range 16).map fun i => be32 block (4 * i))

def round (s : Words) (k w : U32) : Words :=
  let s1 := s.e.rotateRight 6 ^^^ s.e.rotateRight 11 ^^^ s.e.rotateRight 25
  let ch := (s.e &&& s.f) ^^^ (~~~s.e &&& s.g)
  let t1 := s.h + s1 + ch + k + w
  let s0 := s.a.rotateRight 2 ^^^ s.a.rotateRight 13 ^^^ s.a.rotateRight 22
  let maj := (s.a &&& s.b) ^^^ (s.a &&& s.c) ^^^ (s.b &&& s.c)
  ⟨t1 + (s0 + maj), s.a, s.b, s.c, s.d + t1, s.e, s.f, s.g⟩

def compress (s : Words) (block : List U8) : Words :=
  let t := (K.zip (schedule block)).foldl (fun t kw => round t kw.1 kw.2) s
  ⟨s.a + t.a, s.b + t.b, s.c + t.c, s.d + t.d, s.e + t.e, s.f + t.f, s.g + t.g, s.h + t.h⟩

/-- A number of whole blocks off the front. -/
def absorb : ℕ → Words → List U8 → Words × List U8
  | 0, s, data => (s, data)
  | n + 1, s, data => absorb n (compress s (data.take 64)) (data.drop 64)

structure Hasher where
  state : Words
  /-- The used part of the block buffer. -/
  buffer : List U8
  bytes : U64

namespace Hasher

def new : Hasher := ⟨initial, [], 0⟩

def fill (s : Hasher) (data : List U8) : Hasher × List U8 :=
  if s.buffer = [] then (s, data)
  else
    let n := min (64 - s.buffer.length) data.length
    let buffer := s.buffer ++ data.take n
    if buffer.length = 64 then (⟨compress s.state buffer, [], s.bytes⟩, data.drop n)
    else (⟨s.state, buffer, s.bytes⟩, data.drop n)

def update (s : Hasher) (data : List U8) : Hasher :=
  let (t, rest) := fill { s with bytes := s.bytes + BitVec.ofNat 64 data.length } data
  let (state, rest) := absorb (rest.length / 64) t.state rest
  if rest = [] then ⟨state, t.buffer, t.bytes⟩ else ⟨state, rest, t.bytes⟩

def be64 (v : U64) : List U8 :=
  [v.extractLsb' 56 8, v.extractLsb' 48 8, v.extractLsb' 40 8, v.extractLsb' 32 8,
    v.extractLsb' 24 8, v.extractLsb' 16 8, v.extractLsb' 8 8, v.extractLsb' 0 8]

def be32Bytes (v : U32) : List U8 :=
  [v.extractLsb' 24 8, v.extractLsb' 16 8, v.extractLsb' 8 8, v.extractLsb' 0 8]

/-- The last block or the last two. -/
def pad (s : Hasher) : Words :=
  let bits := s.bytes * 8
  let buffer := s.buffer ++ [0x80]
  if buffer.length > 56 then
    compress (compress s.state (buffer ++ List.replicate (64 - buffer.length) 0))
      (List.replicate 56 0 ++ be64 bits)
  else compress s.state (buffer ++ List.replicate (56 - buffer.length) 0 ++ be64 bits)

def output (w : Words) : List U8 :=
  [w.a, w.b, w.c, w.d, w.e, w.f, w.g, w.h].flatMap be32Bytes

def finalize (s : Hasher) : Vector U8 32 :=
  let out := output s.pad
  Vector.ofFn fun i => byteAt out i

end Hasher

def digest (data : List U8) : Vector U8 32 := (Hasher.new.update data).finalize

section Streaming

attribute [local irreducible] compress

theorem absorb_append {n : ℕ} {data : List U8} (h : 64 * n ≤ data.length) (s : Words)
    (more : List U8) :
    absorb n s (data ++ more) = ((absorb n s data).1, (absorb n s data).2 ++ more) := by
  induction n generalizing s data with
  | zero => rfl
  | succ n ih =>
    rw [absorb, absorb, List.take_append_of_le_length (by omega),
      List.drop_append_of_le_length (by omega), ih (by rw [List.length_drop]; omega)]

theorem absorb_add (m n : ℕ) (s : Words) (data : List U8) :
    absorb (m + n) s data = absorb n (absorb m s data).1 (absorb m s data).2 := by
  induction m generalizing s data with
  | zero => rw [Nat.zero_add, absorb]
  | succ m ih => rw [Nat.add_right_comm, absorb, absorb, ih]

theorem length_absorb {n : ℕ} {data : List U8} (h : 64 * n ≤ data.length) (s : Words) :
    (absorb n s data).2.length = data.length - 64 * n := by
  induction n generalizing s data with
  | zero => rfl
  | succ n ih =>
    rw [absorb, ih (by rw [List.length_drop]; omega), List.length_drop]
    omega

def feed (s : Words) (data : List U8) : Words × List U8 := absorb (data.length / 64) s data

theorem length_feed (s : Words) (data : List U8) : (feed s data).2.length < 64 := by
  rw [feed, length_absorb (Nat.mul_div_le _ _)]
  omega

theorem feed_feed (s : Words) (a b : List U8) :
    feed (feed s a).1 ((feed s a).2 ++ b) = feed s (a ++ b) := by
  have ha : 64 * (a.length / 64) ≤ a.length := Nat.mul_div_le _ _
  have hblocks : (a ++ b).length / 64 =
      a.length / 64 + ((feed s a).2 ++ b).length / 64 := by
    rw [List.length_append, List.length_append, feed, length_absorb ha]
    omega
  rw [show feed s (a ++ b) = absorb ((a ++ b).length / 64) s (a ++ b) from rfl, hblocks, absorb_add,
    absorb_append ha]
  rfl

theorem feed_block {s : Words} {block : List U8} (h : block.length = 64) (rest : List U8) :
    feed s (block ++ rest) = feed (compress s block) rest := by
  have hblocks : (block ++ rest).length / 64 = rest.length / 64 + 1 := by
    rw [List.length_append, h]
    omega
  rw [feed, hblocks, absorb, List.take_left' h, List.drop_left' h, feed]

theorem feed_of_short {s : Words} {data : List U8} (h : data.length < 64) :
    feed s data = (s, data) := by
  rw [feed, Nat.div_eq_of_lt h]
  rfl

namespace Hasher

/-- Filling a started block and absorbing the rest is absorbing everything from its start. -/
theorem update_eq {s : Hasher} (h : s.buffer.length < 64) (data : List U8) :
    s.update data = ⟨(feed s.state (s.buffer ++ data)).1, (feed s.state (s.buffer ++ data)).2,
      s.bytes + BitVec.ofNat 64 data.length⟩ := by
  have hend (t : Words) (rest : List U8) (bytes : U64) :
      (if (feed t rest).2 = [] then (⟨(feed t rest).1, [], bytes⟩ : Hasher)
        else ⟨(feed t rest).1, (feed t rest).2, bytes⟩) =
        ⟨(feed t rest).1, (feed t rest).2, bytes⟩ := by
    split_ifs with hnil
    · rw [hnil]
    · rfl
  rw [update, fill]
  by_cases hnil : s.buffer = []
  · rw [if_pos hnil]
    simp only [hnil, List.nil_append]
    exact hend _ _ _
  · rw [if_neg hnil]
    by_cases hfull : 64 ≤ s.buffer.length + data.length
    · -- the started block becomes full
      have hmin : min (64 - s.buffer.length) data.length = 64 - s.buffer.length := by omega
      have hblock : (s.buffer ++ data.take (64 - s.buffer.length)).length = 64 := by
        rw [List.length_append, List.length_take]
        omega
      have hsplit : s.buffer ++ data = s.buffer ++ data.take (64 - s.buffer.length) ++
          data.drop (64 - s.buffer.length) := by
        rw [List.append_assoc, List.take_append_drop]
      have hfeed : feed s.state (s.buffer ++ data) =
          feed (compress s.state (s.buffer ++ data.take (64 - s.buffer.length)))
            (data.drop (64 - s.buffer.length)) := by
        rw [hsplit, feed_block hblock]
      rw [hfeed]
      simp only [hmin, hblock, if_true]
      exact hend _ _ _
    · have hmin : min (64 - s.buffer.length) data.length = data.length := by omega
      have hshort : (s.buffer ++ data).length < 64 := by
        rw [List.length_append]
        omega
      simp only [hmin, List.take_length, List.drop_length, if_neg (Nat.ne_of_lt hshort)]
      rw [feed_of_short hshort]
      rfl

theorem update_append {s : Hasher} (h : s.buffer.length < 64) (a b : List U8) :
    (s.update a).update b = s.update (a ++ b) := by
  have hlen : (s.update a).buffer.length < 64 := by
    rw [update_eq h]
    exact length_feed _ _
  rw [update_eq hlen, update_eq h a, update_eq h (a ++ b)]
  simp only
  rw [feed_feed, List.append_assoc, BitVec.add_assoc, List.length_append, BitVec.ofNat_add]

end Hasher

theorem digest_pieces (pieces : List (List U8)) :
    (pieces.foldl Hasher.update Hasher.new).finalize = digest pieces.flatten := by
  have hgen (s : Hasher) (h : s.buffer.length < 64) :
      pieces.foldl Hasher.update s = s.update pieces.flatten := by
    induction pieces generalizing s with
    | nil =>
      rw [List.flatten_nil, Hasher.update_eq h, List.append_nil, feed_of_short h]
      simp
    | cons a rest ih =>
      have hlen : (s.update a).buffer.length < 64 := by
        rw [Hasher.update_eq h]
        exact length_feed _ _
      rw [List.foldl_cons, ih _ hlen, Hasher.update_append h, List.flatten_cons]
  rw [hgen Hasher.new (by decide), digest]

example : (digest [97, 98, 99]).toList.take 8 = [0xba, 0x78, 0x16, 0xbf, 0x8f, 0x01, 0xcf, 0xea] := by
  decide +kernel

end Streaming

end PcapEvidence.Sha256
