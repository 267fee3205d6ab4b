import PcapEvidence.Errors

/-!
# Incremental Internet checksum

The one's-complement sum is kept folded after every word, and an odd final byte waits for the
next update, so the checksum is that of the concatenation of the updates.
-/

namespace PcapEvidence

structure InternetChecksum where
  sum : ℕ
  highByte : Option U8

namespace InternetChecksum

def new : InternetChecksum := ⟨0, none⟩

def fold (sum : ℕ) : ℕ := sum % 0x10000 + sum / 0x10000

def addWord (c : InternetChecksum) (high low : U8) : InternetChecksum :=
  { c with sum := fold (c.sum + (high.toNat * 256 + low.toNat)) }

def updatePairs (c : InternetChecksum) : List U8 → InternetChecksum
  | [] => { c with highByte := none }
  | [b] => { c with highByte := some b }
  | a :: b :: rest => updatePairs (c.addWord a b) rest

def update (c : InternetChecksum) : List U8 → InternetChecksum
  | [] => c
  | b :: rest =>
    match c.highByte with
    | some high => updatePairs ({ c with highByte := none }.addWord high b) rest
    | none => updatePairs c (b :: rest)

def foldAll : ℕ → ℕ → ℕ
  | 0, sum => sum
  | fuel + 1, sum => if sum / 0x10000 ≠ 0 then foldAll fuel (fold sum) else sum

def finish (c : InternetChecksum) : U16 :=
  ~~~ BitVec.ofNat 16 (foldAll 32 (c.sum + (c.highByte.elim 0 (fun high => high.toNat * 256))))

end InternetChecksum

def internetChecksum (data : List U8) : U16 := (InternetChecksum.new.update data).finish

end PcapEvidence
