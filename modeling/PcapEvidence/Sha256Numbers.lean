import PcapEvidence.Sha256

/-!
# SHA-256 in natural numbers

The words of a digest as numbers that are computed when they are bound, so that the digest of a fixed
input is evaluated in few steps. It is the digest.
-/

namespace PcapEvidence.Sha256

/-- A number that is computed before it is used. -/
def force {α : Type} (x : ℕ) (f : ℕ → α) : α :=
  match x with
  | 0 => f 0
  | n + 1 => f (n + 1)

@[simp] theorem force_eq {α : Type} (x : ℕ) (f : ℕ → α) : force x f = f x := by
  cases x <;> rfl

def add32 (x y : ℕ) : ℕ := Nat.mod (Nat.add x y) 4294967296

def rotate32 (x n : ℕ) : ℕ :=
  Nat.lor (Nat.shiftRight x n) (Nat.mod (Nat.shiftLeft x (Nat.sub 32 n)) 4294967296)

def xor3 (x y z : ℕ) : ℕ := Nat.xor (Nat.xor x y) z

theorem toNat_add32 (x y : U32) : (x + y).toNat = add32 x.toNat y.toNat := BitVec.toNat_add x y

theorem toNat_rotate32 (x : U32) {n : ℕ} (h : n < 32) :
    (x.rotateRight n).toNat = rotate32 x.toNat n := by
  rw [BitVec.toNat_rotateRight, Nat.mod_eq_of_lt h]
  rfl

structure Numbers where
  a : ℕ
  b : ℕ
  c : ℕ
  d : ℕ
  e : ℕ
  f : ℕ
  g : ℕ
  h : ℕ

def Words.numbers (s : Words) : Numbers :=
  ⟨s.a.toNat, s.b.toNat, s.c.toNat, s.d.toNat, s.e.toNat, s.f.toNat, s.g.toNat, s.h.toNat⟩

namespace Numbers

def extend : ℕ → List ℕ → List ℕ
  | 0, r => r
  | n + 1, r =>
    let s0 := xor3 (rotate32 (r.getD 14 0) 7) (rotate32 (r.getD 14 0) 18) (Nat.shiftRight (r.getD 14 0) 3)
    let s1 := xor3 (rotate32 (r.getD 1 0) 17) (rotate32 (r.getD 1 0) 19) (Nat.shiftRight (r.getD 1 0) 10)
    force (add32 (add32 (add32 (r.getD 15 0) s0) (r.getD 6 0)) s1) fun v => extend n (v :: r)

def round (s : Numbers) (k w : ℕ) : Numbers :=
  let s1 := xor3 (rotate32 s.e 6) (rotate32 s.e 11) (rotate32 s.e 25)
  let ch := Nat.xor (Nat.land s.e s.f) (Nat.land (Nat.sub 4294967295 s.e) s.g)
  force (add32 (add32 (add32 (add32 s.h s1) ch) k) w) fun t1 =>
    let s0 := xor3 (rotate32 s.a 2) (rotate32 s.a 13) (rotate32 s.a 22)
    let maj := xor3 (Nat.land s.a s.b) (Nat.land s.a s.c) (Nat.land s.b s.c)
    force (add32 t1 (add32 s0 maj)) fun a => force (add32 s.d t1) fun e =>
      ⟨a, s.a, s.b, s.c, e, s.e, s.f, s.g⟩

theorem round_numbers (s : Words) (k w : U32) :
    (Sha256.round s k w).numbers = round s.numbers k.toNat w.toNat := by
  simp only [Sha256.round, round, Words.numbers, force_eq, toNat_add32, BitVec.toNat_xor,
    BitVec.toNat_and, BitVec.toNat_not, toNat_rotate32 _ (show 2 < 32 by decide),
    toNat_rotate32 _ (show 6 < 32 by decide), toNat_rotate32 _ (show 11 < 32 by decide),
    toNat_rotate32 _ (show 13 < 32 by decide), toNat_rotate32 _ (show 22 < 32 by decide),
    toNat_rotate32 _ (show 25 < 32 by decide)]
  rfl

theorem getD_reverse_map (w : List U32) {back : ℕ} (h : back < w.length) :
    (w.getD (w.length - (back + 1)) 0).toNat = (w.reverse.map BitVec.toNat).getD back 0 := by
  have hback : w.length - 1 - back < w.length := by omega
  rw [List.getD_eq_getElem?_getD, List.getD_eq_getElem?_getD, List.getElem?_map,
    List.getElem?_reverse h, Nat.add_comm back, ← Nat.sub_sub, List.getElem?_eq_getElem hback]
  rfl

theorem extend_numbers (n : ℕ) {w : List U32} (h : 16 ≤ w.length) :
    (Sha256.extend n w).reverse.map BitVec.toNat = extend n (w.reverse.map BitVec.toNat) := by
  induction n generalizing w with
  | zero => rfl
  | succ n ih =>
    rw [Sha256.extend, extend]
    dsimp only
    rw [ih (by rw [List.length_append]; omega), force_eq, List.reverse_append, List.map_append,
      ← getD_reverse_map w (show 1 < w.length by omega),
      ← getD_reverse_map w (show 6 < w.length by omega),
      ← getD_reverse_map w (show 14 < w.length by omega),
      ← getD_reverse_map w (show 15 < w.length by omega)]
    simp only [List.reverse_singleton, List.map_cons, List.map_nil, List.singleton_append,
      toNat_add32, BitVec.toNat_xor, BitVec.toNat_ushiftRight,
      toNat_rotate32 _ (show 7 < 32 by decide), toNat_rotate32 _ (show 17 < 32 by decide),
      toNat_rotate32 _ (show 18 < 32 by decide), toNat_rotate32 _ (show 19 < 32 by decide)]
    rfl

def add (s t : Numbers) : Numbers :=
  force (add32 s.a t.a) fun a => force (add32 s.b t.b) fun b => force (add32 s.c t.c) fun c =>
    force (add32 s.d t.d) fun d => force (add32 s.e t.e) fun e => force (add32 s.f t.f) fun f =>
      force (add32 s.g t.g) fun g => force (add32 s.h t.h) fun h => ⟨a, b, c, d, e, f, g, h⟩

def words (block : List U8) : List ℕ := (List.range 16).map fun i => (be32 block (4 * i)).toNat

def compress (s : Numbers) (block : List U8) : Numbers :=
  s.add (((K.map BitVec.toNat).zip (extend 48 (words block).reverse).reverse).foldl
    (fun t kw => t.round kw.1 kw.2) s)

theorem compress_numbers (s : Words) (block : List U8) :
    (Sha256.compress s block).numbers = compress s.numbers block := by
  have hrounds (l : List (U32 × U32)) (t : Words) :
      (l.foldl (fun t kw => Sha256.round t kw.1 kw.2) t).numbers =
        (l.map fun kw => (kw.1.toNat, kw.2.toNat)).foldl (fun t kw => t.round kw.1 kw.2) t.numbers := by
    induction l generalizing t with
    | nil => rfl
    | cons kw l ih => rw [List.foldl_cons, ih, round_numbers, List.map_cons, List.foldl_cons]
  have hschedule : (schedule block).map BitVec.toNat =
      (extend 48 (words block).reverse).reverse := by
    have hextend := @extend_numbers 48 ((List.range 16).map fun i => be32 block (4 * i)) (by simp)
    have hwords : words block = ((List.range 16).map fun i => be32 block (4 * i)).map BitVec.toNat := by
      rw [List.map_map]
      rfl
    rw [hwords, ← List.map_reverse, ← hextend, List.map_reverse, List.reverse_reverse]
    rfl
  have hzip : (K.zip (schedule block)).map (fun kw => (kw.1.toNat, kw.2.toNat)) =
      (K.map BitVec.toNat).zip (extend 48 (words block).reverse).reverse := by
    rw [← hschedule, List.zip_map]
    rfl
  have hfold := hrounds (K.zip (schedule block)) s
  rw [hzip] at hfold
  rw [compress, ← hfold]
  simp only [add, force_eq, Sha256.compress, Words.numbers, toNat_add32]

/-- The state behind a number of whole blocks. -/
def absorb : ℕ → Numbers → List U8 → Numbers
  | 0, s, _ => s
  | n + 1, s, data => absorb n (compress s (data.take 64)) (data.drop 64)

theorem absorb_numbers (n : ℕ) (s : Words) (data : List U8) :
    (Sha256.absorb n s data).1.numbers = absorb n s.numbers data := by
  induction n generalizing s data with
  | zero => rfl
  | succ n ih => rw [Sha256.absorb, ih, compress_numbers, absorb]

/-- The last block or the last two. -/
def pad (s : Numbers) (buffer : List U8) (bits : U64) : Numbers :=
  if (buffer ++ [0x80]).length > 56 then
    compress (compress s (buffer ++ [0x80] ++ List.replicate (64 - (buffer ++ [0x80]).length) 0))
      (List.replicate 56 0 ++ Hasher.be64 bits)
  else compress s (buffer ++ [0x80] ++ List.replicate (56 - (buffer ++ [0x80]).length) 0 ++ Hasher.be64 bits)

theorem pad_numbers (s : Words) (buffer : List U8) (bytes : U64) :
    (Hasher.pad ⟨s, buffer, bytes⟩).numbers = pad s.numbers buffer (bytes * 8) := by
  unfold Hasher.pad pad
  dsimp only
  split_ifs
  · rw [compress_numbers, compress_numbers]
  · rw [compress_numbers]

def toWords (s : Numbers) : Words :=
  ⟨s.a, s.b, s.c, s.d, s.e, s.f, s.g, s.h⟩

theorem toWords_numbers (s : Words) : s.numbers.toWords = s := by
  simp [toWords, Words.numbers]

def digest (data : List U8) : Vector U8 32 :=
  let whole := data.length / 64
  let out := Hasher.output (pad (absorb whole initial.numbers data) (data.drop (64 * whole))
    (BitVec.ofNat 64 data.length * 8)).toWords
  Vector.ofFn fun i => byteAt out i

end Numbers

theorem absorb_snd (n : ℕ) (s : Words) (data : List U8) : (absorb n s data).2 = data.drop (64 * n) := by
  induction n generalizing s data with
  | zero => rfl
  | succ n ih => rw [absorb, ih, List.drop_drop, Nat.mul_succ, Nat.add_comm]

theorem digest_numbers : digest = Numbers.digest := by
  funext data
  have hupdate := @Hasher.update_eq Hasher.new (by decide) data
  rw [show Hasher.new.buffer ++ data = data from rfl, show Hasher.new.state = initial from rfl,
    show Hasher.new.bytes = 0#64 from rfl, BitVec.zero_add, feed, absorb_snd] at hupdate
  rw [digest, hupdate, Hasher.finalize, Numbers.digest, ← Numbers.absorb_numbers, ← Numbers.pad_numbers,
    Numbers.toWords_numbers]

end PcapEvidence.Sha256
