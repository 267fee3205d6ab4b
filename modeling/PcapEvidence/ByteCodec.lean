import PcapEvidence.Method

/-!
# Byte codecs

A reader is a method on the bytes that are still unread. `Reads` says that it takes exactly a given
byte string off the front, whatever follows, and returns a given value; it is closed under
composition, so a codec round trip follows the structure of the encoder. Words are little-endian.
-/

namespace PcapEvidence.ByteCodec

open Method

/-- The low bytes of a number, least significant first. -/
def leBytes : ℕ → ℕ → List (BitVec 8)
  | 0, _ => []
  | n + 1, v => BitVec.ofNat 8 v :: leBytes n (v / 256)

def leNat : List (BitVec 8) → ℕ
  | [] => 0
  | b :: rest => b.toNat + 256 * leNat rest

@[simp] theorem length_leBytes (n v : ℕ) : (leBytes n v).length = n := by
  induction n generalizing v with
  | zero => rfl
  | succ n ih => rw [leBytes, List.length_cons, ih]

theorem leNat_leBytes (n v : ℕ) : leNat (leBytes n v) = v % 256 ^ n := by
  induction n generalizing v with
  | zero => simp [leBytes, leNat, Nat.mod_one]
  | succ n ih =>
    have hbyte : (BitVec.ofNat 8 v).toNat = v % 256 := BitVec.toNat_ofNat v 8
    rw [leBytes, leNat, ih, hbyte, pow_succ' 256 n]
    exact Nat.mod_mul.symm

theorem leNat_lt (b : List (BitVec 8)) : leNat b < 256 ^ b.length := by
  induction b with
  | nil => simp [leNat]
  | cons x rest ih =>
    have hx := x.isLt
    rw [leNat, List.length_cons, Nat.pow_succ']
    omega

theorem leBytes_leNat (b : List (BitVec 8)) : leBytes b.length (leNat b) = b := by
  induction b with
  | nil => rfl
  | cons x rest ih =>
    have hx := x.isLt
    have hhead : BitVec.ofNat 8 (x.toNat + 256 * leNat rest) = x := by
      apply BitVec.eq_of_toNat_eq
      rw [BitVec.toNat_ofNat]
      omega
    have htail : (x.toNat + 256 * leNat rest) / 256 = leNat rest := by omega
    rw [leNat, List.length_cons, leBytes, hhead, htail, ih]

theorem ofNat_leNat_leBytes {w n : ℕ} (h : w = 8 * n) (v : BitVec w) :
    BitVec.ofNat w (leNat (leBytes n v.toNat)) = v := by
  apply BitVec.eq_of_toNat_eq
  have hpow : 2 ^ w = 256 ^ n := by rw [h, Nat.pow_mul]
  rw [leNat_leBytes, BitVec.toNat_ofNat, ← hpow, Nat.mod_mod, Nat.mod_eq_of_lt v.isLt]

section Readers

variable {β ε α γ : Type}

/-- The reader takes exactly these bytes and returns this value. -/
def Reads (m : Method (List β) ε α) (bytes : List β) (v : α) : Prop :=
  ∀ rest, m (bytes ++ rest) = (.ok v, rest)

theorem Reads.pure (v : α) : Reads (β := β) (ε := ε) (Pure.pure v) [] v := fun _ => rfl

theorem Reads.bind {m : Method (List β) ε α} {f : α → Method (List β) ε γ} {a b : List β} {v : α}
    {w : γ} (hm : Reads m a v) (hf : Reads (f v) b w) : Reads (m >>= f) (a ++ b) w := by
  intro rest
  rw [List.append_assoc, bind_of_ok (hm (b ++ rest)), hf rest]

theorem Reads.map {m : Method (List β) ε α} {f : α → Method (List β) ε γ} {a : List β} {v : α}
    {w : γ} (hm : Reads m a v) (hf : Reads (f v) [] w) : Reads (m >>= f) a w := by
  have h := hm.bind hf
  rwa [List.append_nil] at h

theorem Reads.of_lift {r : Except ε α} {v : α} (h : r = .ok v) :
    Reads (β := β) (lift r : Method (List β) ε α) [] v := by
  intro rest
  rw [h]
  rfl

/-- Reading a fixed number of values of one kind, one after the other. -/
def repeated (m : Method (List β) ε α) : ℕ → Method (List β) ε (List α)
  | 0 => pure []
  | n + 1 => do
    let v ← m
    let vs ← repeated m n
    pure (v :: vs)

theorem reads_repeated {m : Method (List β) ε α} {encode : α → List β} {vs : List α}
    (h : ∀ v ∈ vs, Reads m (encode v) v) : Reads (repeated m vs.length) (vs.flatMap encode) vs := by
  induction vs with
  | nil => exact .pure []
  | cons v vs ih =>
    have hv := h v (by simp)
    have hvs := ih fun u hu => h u (by simp [hu])
    rw [List.flatMap_cons]
    exact hv.bind (hvs.map (.pure _))

end Readers

end PcapEvidence.ByteCodec
