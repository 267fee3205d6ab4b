import PcapEvidence.BgpUpdateRoutes
import PcapEvidence.ByteSlices
import PcapEvidence.CaptureLayout

/-!
# The lists of an UPDATE on the wire

A prefix is written as an optional path identifier, a length in bits and the octets of the address
down to the last bit; a path segment as its kind, a count and the numbers; an attribute as an
envelope. The readers accept exactly what such writers produce, within the field they are given, and
what they report fills the field without a gap.
-/

namespace PcapEvidence.Bgp.Wire

open FiniteMap History Mrt

section Words
variable {b : List U8} {p : ℕ}

theorem U16.parts (x y : U8) : (x ++ y : U16).extractLsb' 8 8 = x ∧ (x ++ y : U16).extractLsb' 0 8 = y := by
  constructor <;> ext i hi <;> simp only [BitVec.getElem_extractLsb'] <;> grind

theorem carries_putU16 {v : U16} :
    Carries b p (Endian.big.putU16 v) ↔ p + 2 ≤ b.length ∧ be16 b p = v := by
  unfold Endian.putU16
  rw [carries_cons, carries_single]
  constructor
  · rintro ⟨-, hhigh, hle, hlow⟩
    refine ⟨hle, ?_⟩
    rw [be16, hhigh, hlow]
    exact U16.split v
  · rintro ⟨hle, rfl⟩
    obtain ⟨hhigh, hlow⟩ := U16.parts (byteAt b p) (byteAt b (p + 1))
    exact ⟨by omega, hhigh.symm, by omega, hlow.symm⟩

theorem U32.parts (x y z u : U8) : (x ++ y ++ z ++ u : U32).extractLsb' 24 8 = x ∧
    (x ++ y ++ z ++ u : U32).extractLsb' 16 8 = y ∧ (x ++ y ++ z ++ u : U32).extractLsb' 8 8 = z ∧
      (x ++ y ++ z ++ u : U32).extractLsb' 0 8 = u := by
  refine ⟨?_, ?_, ?_, ?_⟩ <;> ext i hi <;> simp only [BitVec.getElem_extractLsb'] <;> grind

theorem carries_putU32 {v : U32} :
    Carries b p (Endian.big.putU32 v) ↔ p + 4 ≤ b.length ∧ be32 b p = v := by
  unfold Endian.putU32
  rw [carries_cons, carries_cons, carries_cons, carries_single]
  constructor
  · rintro ⟨-, h0, -, h1, -, h2, hle, h3⟩
    refine ⟨hle, ?_⟩
    rw [be32, h0, h1, h2, h3]
    exact U32.split v
  · rintro ⟨hle, rfl⟩
    obtain ⟨h0, h1, h2, h3⟩ :=
      U32.parts (byteAt b p) (byteAt b (p + 1)) (byteAt b (p + 2)) (byteAt b (p + 3))
    exact ⟨by omega, h0.symm, by omega, h1.symm, by omega, h2.symm, by omega, h3.symm⟩

end Words

section Prefixes
variable {b : List U8} {p stop : ℕ} {afi : U16} {safi : U8} {width : ℕ} {addPath : Bool}
  {limits : Bgp.Limits}

/-- A prefix as it stands on the wire, with the host bits it was sent with. -/
structure PrefixItem where
  pathId : Option U32
  length : U8
  octets : List U8

def pathOctets (pathId : Option U32) : List U8 := pathId.elim [] Endian.big.putU32

namespace PrefixItem

structure Fits (width : ℕ) (addPath : Bool) (i : PrefixItem) : Prop where
  path : i.pathId.isSome = addPath
  bits : i.length.toNat ≤ width * 8
  octets : i.octets.length = (i.length.toNat + 7) / 8

def encode (i : PrefixItem) : List U8 := pathOctets i.pathId ++ i.length :: i.octets

def address (width : ℕ) (i : PrefixItem) : List U8 :=
  i.octets ++ List.replicate (width - i.octets.length) 0

def span (afi : U16) (safi : U8) (width start : ℕ) (i : PrefixItem) : PrefixSpan :=
  let address := i.address width
  ⟨⟨afi, safi, i.length, canonical address i.length.toNat⟩, start, start + i.encode.length,
    decide (canonical address i.length.toNat ≠ address), i.pathId⟩

theorem length_encode_pos (i : PrefixItem) : 0 < i.encode.length := by
  rw [encode, List.length_append, List.length_cons]
  omega

end PrefixItem

/-- The reports of prefixes that follow each other. -/
def spansOf (afi : U16) (safi : U8) (width : ℕ) : ℕ → List PrefixItem → List PrefixSpan
  | _, [] => []
  | start, i :: rest =>
    i.span afi safi width start :: spansOf afi safi width (start + i.encode.length) rest

theorem pathIdentifier_ok_iff (hstop : stop ≤ b.length) {pathId : Option U32} {q : ℕ} :
    pathIdentifier b addPath p stop = .ok (pathId, q) ↔ pathId.isSome = addPath ∧
      Carries b p (pathOctets pathId) ∧ q = p + (pathOctets pathId).length ∧
      (addPath = true → q ≤ stop) := by
  unfold pathIdentifier
  cases addPath with
  | false =>
    cases pathId with
    | none => simp [pathOctets, eq_comm]
    | some v => simp
  | true =>
    rw [if_pos rfl]
    cases pathId with
    | none => split_ifs <;> simp
    | some v =>
      have hlength : (pathOctets (some v)).length = 4 := by simp [pathOctets]
      rw [hlength]
      change _ ↔ _ ∧ Carries b p (Endian.big.putU32 v) ∧ _
      rw [carries_putU32]
      split_ifs with hfar
      · simp only [false_iff]
        rintro ⟨-, -, rfl, hq⟩
        exact absurd (hq trivial) (by omega)
      · simp only [Except.ok.injEq, Prod.mk.injEq, Option.some.injEq, Option.isSome_some,
          true_and, forall_const]
        constructor
        · rintro ⟨hv, rfl⟩
          exact ⟨⟨by omega, hv⟩, rfl, by omega⟩
        · rintro ⟨⟨-, hv⟩, rfl, -⟩
          exact ⟨hv, rfl⟩

theorem need_ok_iff {n : ℕ} {field : String} {u : Unit} :
    need b n field = .ok u ↔ n ≤ b.length := by
  unfold need
  split_ifs <;> simp_all

theorem prefixSpan_ok_iff (hstop : stop ≤ b.length) {x : PrefixSpan} :
    prefixSpan b p stop afi safi width addPath = .ok x ↔ ∃ i : PrefixItem, i.Fits width addPath ∧
      Carries b p i.encode ∧ p + i.encode.length ≤ stop ∧ x = i.span afi safi width p := by
  unfold prefixSpan
  constructor
  · intro h
    obtain ⟨⟨pathId, q⟩, hpath, h⟩ := bind_eq_ok.1 h
    obtain ⟨hsome, hcarries, hq, -⟩ := (pathIdentifier_ok_iff hstop).1 hpath
    obtain ⟨_, hneed, h⟩ := bind_eq_ok.1 h
    rw [need_ok_iff] at hneed
    obtain ⟨hbits, h⟩ := guard_eq_ok.1 h
    obtain ⟨hend, h⟩ := guard_eq_ok.1 h
    cases h
    have hoctets : (sliceOf b (q + 1) (q + 1 + ((byteAt b q).toNat + 7) / 8)).length =
        ((byteAt b q).toNat + 7) / 8 := by
      rw [length_sliceOf_of_le (by omega) (by omega)]
      omega
    refine ⟨⟨pathId, byteAt b q, sliceOf b (q + 1) (q + 1 + ((byteAt b q).toNat + 7) / 8)⟩,
      ⟨hsome, not_lt.1 hbits, hoctets⟩, ?_, ?_, ?_⟩
    · unfold PrefixItem.encode
      rw [carries_append, carries_cons, ← hq]
      exact ⟨hcarries, by omega, rfl, carries_sliceOf⟩
    · rw [PrefixItem.encode, List.length_append, List.length_cons, hoctets]
      dsimp only
      omega
    · simp only [PrefixItem.span, PrefixItem.address, PrefixItem.encode, List.length_append,
        List.length_cons, hoctets]
      congr 1
      omega
  · rintro ⟨i, hfits, hcarries, hend, rfl⟩
    have hoctets := hfits.octets
    have hbits := hfits.bits
    unfold PrefixItem.encode at hcarries
    rw [carries_append, carries_cons] at hcarries
    obtain ⟨hpath, hlt, hlength, haddress⟩ := hcarries
    rw [PrefixItem.encode, List.length_append, List.length_cons] at hend
    have hread := (pathIdentifier_ok_iff hstop).2 ⟨hfits.path, hpath, rfl, fun _ => by omega⟩
    refine bind_eq_ok.2 ⟨_, hread, bind_eq_ok.2 ⟨(), need_ok_iff.2 (by omega), ?_⟩⟩
    dsimp only
    have hslice := haddress.sliceOf_eq
    rw [hlength, ← hoctets, if_neg (by omega), if_neg (by omega), hslice]
    simp only [PrefixItem.span, PrefixItem.address, PrefixItem.encode, List.length_append,
      List.length_cons]
    congr 2
    omega

theorem prefixes_ok_iff (hstop : stop ≤ b.length) {fuel : ℕ} {out l : List PrefixSpan}
    (hp : p ≤ stop) (hfuel : stop - p ≤ fuel) (hroom : out.length ≤ limits.elements) :
    prefixes b stop afi safi width addPath limits fuel p out = .ok l ↔ ∃ items : List PrefixItem,
      (∀ i ∈ items, i.Fits width addPath) ∧ Carries b p (items.flatMap PrefixItem.encode) ∧
      p + (items.flatMap PrefixItem.encode).length = stop ∧
      out.length + items.length ≤ limits.elements ∧ l = out ++ spansOf afi safi width p items := by
  have hdone (p : ℕ) (out : List PrefixSpan) (hroom : out.length ≤ limits.elements) (hend : p = stop) :
      (Except.ok out : Result (List PrefixSpan)) = .ok l ↔ ∃ items : List PrefixItem,
        (∀ i ∈ items, i.Fits width addPath) ∧ Carries b p (items.flatMap PrefixItem.encode) ∧
        p + (items.flatMap PrefixItem.encode).length = stop ∧
        out.length + items.length ≤ limits.elements ∧
        l = out ++ spansOf afi safi width p items := by
    constructor
    · intro h
      cases h
      exact ⟨[], by simp, by simp, by simpa using hend, by simpa using hroom, by simp [spansOf]⟩
    · rintro ⟨items, -, -, hlength, -, rfl⟩
      cases items with
      | nil => simp [spansOf]
      | cons i rest =>
        have hpos := i.length_encode_pos
        rw [List.flatMap_cons, List.length_append] at hlength
        omega
  induction fuel generalizing p out with
  | zero => exact hdone p out hroom (by omega)
  | succ fuel ih =>
    unfold prefixes
    by_cases hend : p ≥ stop
    · rw [if_pos hend]
      exact hdone p out hroom (by omega)
    rw [if_neg hend]
    by_cases hfull : out.length ≥ limits.elements
    · rw [if_pos hfull]
      constructor
      · intro h
        cases h
      · rintro ⟨items, -, -, hlength, hcount, -⟩
        cases items with
        | nil => exact absurd hlength (by simp; omega)
        | cons i rest =>
          rw [List.length_cons] at hcount
          omega
    rw [if_neg hfull, bind_eq_ok]
    have hnext (i : PrefixItem) (hi : p + i.encode.length ≤ stop) :=
      @ih (p + i.encode.length) (out ++ [i.span afi safi width p]) hi
        (by have := i.length_encode_pos; omega)
        (by rw [List.length_append, List.length_singleton]; omega)
    constructor
    · rintro ⟨x, hx, h⟩
      obtain ⟨i, hfits, hcarries, hi, rfl⟩ := (prefixSpan_ok_iff hstop).1 hx
      obtain ⟨items, hitems, hrest, hlength, hcount, rfl⟩ := (hnext i hi).1 h
      rw [List.length_append, List.length_singleton] at hcount
      refine ⟨i :: items, by simpa using ⟨hfits, hitems⟩, ?_, ?_, ?_, ?_⟩
      · rw [List.flatMap_cons]
        exact carries_append.2 ⟨hcarries, hrest⟩
      · rw [List.flatMap_cons, List.length_append]
        omega
      · rw [List.length_cons]
        omega
      · rw [List.append_assoc]
        rfl
    · rintro ⟨items, hitems, hcarries, hlength, hcount, rfl⟩
      cases items with
      | nil => exact absurd hlength (by simp; omega)
      | cons i rest =>
        rw [List.flatMap_cons] at hcarries hlength
        rw [List.length_append] at hlength
        rw [List.length_cons] at hcount
        obtain ⟨hfirst, hrest⟩ := carries_append.1 hcarries
        have hi : p + i.encode.length ≤ stop := by omega
        refine ⟨_, (prefixSpan_ok_iff hstop).2 ⟨i, hitems i (by simp), hfirst, hi, rfl⟩,
          (hnext i hi).2 ⟨rest, fun j hj => hitems j (by simp [hj]), hrest, by omega, ?_, ?_⟩⟩
        · rw [List.length_append, List.length_singleton]
          omega
        · rw [List.append_assoc]
          rfl

theorem prefixList_ok_iff {start : ℕ} {l : List PrefixSpan} (hle : start ≤ stop)
    (hstop : stop ≤ b.length) : prefixList b start stop afi safi addPath limits = .ok l ↔
      ∃ width items, addressWidth afi = some width ∧
        (∀ i ∈ items, PrefixItem.Fits width addPath i) ∧
        sliceOf b start stop = items.flatMap PrefixItem.encode ∧
        items.length ≤ limits.elements ∧ l = spansOf afi safi width start items := by
  unfold prefixList
  cases hwidth : addressWidth afi with
  | none => simp
  | some width =>
    dsimp only
    rw [prefixes_ok_iff hstop hle le_rfl (Nat.zero_le _)]
    have hslice (l : List U8) : Carries b start l ∧ start + l.length = stop ↔
        sliceOf b start stop = l := by
      constructor
      · rintro ⟨hcarries, rfl⟩
        exact hcarries.sliceOf_eq
      · rintro rfl
        rw [length_sliceOf_of_le hle hstop]
        exact ⟨carries_sliceOf, by omega⟩
    constructor
    · rintro ⟨items, hfits, hcarries, hlength, hcount, rfl⟩
      exact ⟨width, items, rfl, hfits, (hslice _).1 ⟨hcarries, hlength⟩, by simpa using hcount, rfl⟩
    · rintro ⟨_, items, hsame, hfits, hsent, hcount, rfl⟩
      cases hsame
      obtain ⟨hcarries, hlength⟩ := (hslice _).2 hsent
      exact ⟨items, hfits, hcarries, hlength, by simpa using hcount, rfl⟩

theorem canonical_canonical (address : List U8) (length : ℕ) :
    canonical (canonical address length) length = canonical address length := by
  unfold canonical
  rw [List.mapIdx_mapIdx]
  congr 1
  funext i byte
  dsimp only [Function.comp_apply]
  split_ifs
  · rfl
  · rw [BitVec.and_assoc, BitVec.and_self]
  · rfl

end Prefixes

section Paths
variable {b : List U8} {p width : ℕ} {limits : Bgp.Limits}

/-- An AS number in two or four octets. -/
def encodeValue (width : ℕ) (v : U32) : List U8 :=
  if width = 2 then Endian.big.putU16 (v.setWidth 16) else Endian.big.putU32 v

def readValue (b : List U8) (width p : ℕ) : U32 :=
  if width = 2 then (be16 b p).setWidth 32 else be32 b p

namespace AsPathSegment

structure Fits (width : ℕ) (s : AsPathSegment) : Prop where
  kind : 1 ≤ s.kind.toNat ∧ s.kind.toNat ≤ 4
  count : 1 ≤ s.values.length ∧ s.values.length ≤ 255
  values : ∀ v ∈ s.values, v.toNat < 2 ^ (8 * width)

def encode (width : ℕ) (s : AsPathSegment) : List U8 :=
  s.kind :: BitVec.ofNat 8 s.values.length :: s.values.flatMap (encodeValue width)

end AsPathSegment
variable (hw : width = 2 ∨ width = 4)
include hw

theorem length_encodeValue (v : U32) : (encodeValue width v).length = width := by
  rcases hw with rfl | rfl <;> simp [encodeValue]

theorem readValue_lt : (readValue b width p).toNat < 2 ^ (8 * width) := by
  rcases hw with rfl | rfl
  · rw [readValue, if_pos rfl, BitVec.toNat_setWidth]
    have := (be16 b p).isLt
    omega
  · exact (readValue b 4 p).isLt

theorem carries_value {v : U32} (hv : v.toNat < 2 ^ (8 * width)) :
    Carries b p (encodeValue width v) ↔ p + width ≤ b.length ∧ readValue b width p = v := by
  rcases hw with rfl | rfl
  · rw [encodeValue, if_pos rfl, carries_putU16, readValue, if_pos rfl]
    have hback : (v.setWidth 16).setWidth 32 = v := by
      apply BitVec.eq_of_toNat_eq
      rw [BitVec.toNat_setWidth, BitVec.toNat_setWidth]
      omega
    have hfront (x : U16) : (x.setWidth 32).setWidth 16 = x := by
      apply BitVec.eq_of_toNat_eq
      rw [BitVec.toNat_setWidth, BitVec.toNat_setWidth]
      omega
    constructor
    · rintro ⟨hle, hread⟩
      exact ⟨hle, by rw [hread, hback]⟩
    · rintro ⟨hle, rfl⟩
      exact ⟨hle, (hfront _).symm⟩
  · exact carries_putU32

theorem length_encodeValues (values : List U32) :
    (values.flatMap (encodeValue width)).length = values.length * width := by
  induction values with
  | nil => simp
  | cons v rest ih =>
    rw [List.flatMap_cons, List.length_append, length_encodeValue hw, ih, List.length_cons,
      Nat.succ_mul, Nat.add_comm]

theorem carries_values {values : List U32}
    (hv : ∀ v ∈ values, v.toNat < 2 ^ (8 * width)) (hp : p ≤ b.length) :
    Carries b p (values.flatMap (encodeValue width)) ↔ p + values.length * width ≤ b.length ∧
      (List.range values.length).map (fun q => readValue b width (p + q * width)) = values := by
  induction values generalizing p with
  | nil => simpa using hp
  | cons v rest ih =>
    rw [List.flatMap_cons, carries_append, carries_value hw (hv v (by simp)),
      length_encodeValue hw, List.length_cons, List.range_succ_eq_map, List.map_cons,
      List.map_map, List.cons.injEq, Nat.succ_mul]
    have hshift (q : ℕ) : p + (q + 1) * width = p + width + q * width := by
      rw [Nat.succ_mul]
      omega
    have hmap : (List.range rest.length).map
        ((fun q => readValue b width (p + q * width)) ∘ Nat.succ) =
          (List.range rest.length).map fun q => readValue b width (p + width + q * width) :=
      List.map_congr_left fun q _ => congrArg (readValue b width) (hshift q)
    rw [hmap, Nat.zero_mul, Nat.add_zero]
    constructor
    · rintro ⟨⟨hle, hfirst⟩, hrest⟩
      obtain ⟨hle', hread⟩ := (ih (fun u hu => hv u (List.mem_cons_of_mem v hu)) hle).1 hrest
      exact ⟨by omega, hfirst, hread⟩
    · rintro ⟨hle, hfirst, hread⟩
      have hle' : p + width ≤ b.length := by omega
      exact ⟨⟨hle', hfirst⟩, (ih (fun u hu => hv u (List.mem_cons_of_mem v hu)) hle').2
        ⟨by omega, hread⟩⟩

theorem AsPathSegment.length_encode (s : AsPathSegment) :
    (s.encode width).length = 2 + s.values.length * width := by
  rw [encode, List.length_cons, List.length_cons, length_encodeValues hw]
  omega

theorem pathSegments_step {fuel total : ℕ}
    {out path : List AsPathSegment} (hp : p < b.length) (hroom : out.length < limits.elements) :
    pathSegments b width limits (fuel + 1) p out total = .ok path ↔ ∃ s : AsPathSegment,
      s.Fits width ∧ Carries b p (s.encode width) ∧ p + (s.encode width).length ≤ b.length ∧
      total + s.values.length ≤ limits.elements ∧
      pathSegments b width limits fuel (p + (s.encode width).length) (out ++ [s])
        (total + s.values.length) = .ok path := by
  rw [pathSegments, if_neg (by omega), if_neg (by omega)]
  constructor
  · intro h
    obtain ⟨_, hneed, h⟩ := bind_eq_ok.1 h
    rw [need_ok_iff] at hneed
    obtain ⟨hcount, h⟩ := guard_eq_ok.1 h
    obtain ⟨hkind, h⟩ := guard_eq_ok.1 h
    obtain ⟨hend, h⟩ := guard_eq_ok.1 h
    obtain ⟨htotal, h⟩ := guard_eq_ok.1 h
    have hbyte := (byteAt b (p + 1)).isLt
    -- the segment as the loop has read it
    let s : AsPathSegment := ⟨byteAt b p, (List.range (byteAt b (p + 1)).toNat).map fun q =>
      readValue b width (p + 2 + q * width)⟩
    have hlength : s.values.length = (byteAt b (p + 1)).toNat := by
      rw [List.length_map, List.length_range]
    have hvalues : ∀ v ∈ s.values, v.toNat < 2 ^ (8 * width) := by
      intro v hv
      obtain ⟨q, -, rfl⟩ := List.mem_map.1 hv
      exact readValue_lt hw
    have hcarries : Carries b p (s.encode width) := by
      rw [AsPathSegment.encode, carries_cons, carries_cons, hlength, BitVec.ofNat_toNat,
        BitVec.setWidth_eq]
      refine ⟨hp, rfl, by omega, rfl, (carries_values hw hvalues (by omega)).2 ⟨?_, ?_⟩⟩
      · rw [hlength]
        omega
      · rw [hlength]
    have hencode := s.length_encode hw
    rw [hlength] at hencode
    refine ⟨s, ⟨⟨?_, ?_⟩, ⟨by omega, by omega⟩, hvalues⟩, hcarries, by omega, by omega, ?_⟩
    · change 1 ≤ (byteAt b p).toNat
      omega
    · change (byteAt b p).toNat ≤ 4
      omega
    · rw [hencode, hlength, ← Nat.add_assoc]
      exact h
  · rintro ⟨s, hfits, hcarries, hend, htotal, h⟩
    obtain ⟨hkind, hkind'⟩ := hfits.kind
    obtain ⟨hcount, hcount'⟩ := hfits.count
    have hencode := s.length_encode hw
    rw [AsPathSegment.encode, carries_cons, carries_cons] at hcarries
    obtain ⟨-, hfirst, hlt, hsecond, hrest⟩ := hcarries
    obtain ⟨-, hread⟩ := (carries_values hw hfits.values (by omega)).1 hrest
    have hbyte : (byteAt b (p + 1)).toNat = s.values.length := by
      rw [hsecond, BitVec.toNat_ofNat]
      omega
    refine bind_eq_ok.2 ⟨(), need_ok_iff.2 (by omega), ?_⟩
    dsimp only
    rw [hbyte, hfirst, if_neg (by omega), if_neg (by omega), if_neg (by omega), if_neg (by omega)]
    rw [hencode, ← Nat.add_assoc] at h
    have hsegment : (⟨s.kind, (List.range s.values.length).map fun q =>
        readValue b width (p + 1 + 1 + q * width)⟩ : AsPathSegment) = s := by
      rw [hread]
    rw [← hsegment, List.length_map, List.length_range] at h
    exact h

theorem pathSegments_ok_iff {fuel total : ℕ}
    {out path : List AsPathSegment} (hp : p ≤ b.length) (hfuel : b.length - p ≤ fuel)
    (hout : out.length ≤ total) (htotal : total ≤ limits.elements) :
    pathSegments b width limits fuel p out total = .ok path ↔ ∃ more : List AsPathSegment,
      (∀ s ∈ more, s.Fits width) ∧ Carries b p (more.flatMap (AsPathSegment.encode width)) ∧
      p + (more.flatMap (AsPathSegment.encode width)).length = b.length ∧
      total + (more.map fun s => s.values.length).sum ≤ limits.elements ∧ path = out ++ more := by
  have hdone (p total : ℕ) (out : List AsPathSegment) (htotal : total ≤ limits.elements)
      (hend : p = b.length) : (Except.ok out : Result (List AsPathSegment)) = .ok path ↔
        ∃ more : List AsPathSegment, (∀ s ∈ more, s.Fits width) ∧
          Carries b p (more.flatMap (AsPathSegment.encode width)) ∧
          p + (more.flatMap (AsPathSegment.encode width)).length = b.length ∧
          total + (more.map fun s => s.values.length).sum ≤ limits.elements ∧
          path = out ++ more := by
    constructor
    · intro h
      cases h
      exact ⟨[], by simp, by simp, by simpa using hend, by simpa using htotal, by simp⟩
    · rintro ⟨more, -, -, hlength, -, rfl⟩
      cases more with
      | nil => simp
      | cons s rest =>
        have hencode := s.length_encode hw
        rw [List.flatMap_cons, List.length_append] at hlength
        omega
  induction fuel generalizing p out total with
  | zero => exact hdone p total out htotal (by omega)
  | succ fuel ih =>
    by_cases hend : p = b.length
    · rw [pathSegments, if_pos (by omega)]
      exact hdone p total out htotal hend
    have hnext (s : AsPathSegment) (hs : p + (s.encode width).length ≤ b.length)
        (hfits : s.Fits width) (hcount : total + s.values.length ≤ limits.elements) :=
      @ih (p + (s.encode width).length) (total + s.values.length) (out ++ [s]) hs
        (by have := s.length_encode hw; omega)
        (by have := hfits.count; rw [List.length_append, List.length_singleton]; omega) hcount
    by_cases hfull : out.length ≥ limits.elements
    · rw [pathSegments, if_neg (by omega), if_pos hfull]
      constructor
      · intro h
        cases h
      · rintro ⟨more, hmore, -, hlength, hcount, -⟩
        cases more with
        | nil => exact absurd hlength (by simpa using hend)
        | cons s rest =>
          have hone := (hmore s (by simp)).count
          rw [List.map_cons, List.sum_cons] at hcount
          omega
    rw [pathSegments_step hw (by omega) (by omega)]
    constructor
    · rintro ⟨s, hfits, hcarries, hs, hcount, h⟩
      obtain ⟨more, hmore, hrest, hlength, hsum, rfl⟩ := (hnext s hs hfits hcount).1 h
      refine ⟨s :: more, by simpa using ⟨hfits, hmore⟩, ?_, ?_, ?_, by simp⟩
      · rw [List.flatMap_cons]
        exact carries_append.2 ⟨hcarries, hrest⟩
      · rw [List.flatMap_cons, List.length_append]
        omega
      · rw [List.map_cons, List.sum_cons]
        omega
    · rintro ⟨more, hmore, hcarries, hlength, hsum, rfl⟩
      cases more with
      | nil => exact absurd hlength (by simpa using hend)
      | cons s rest =>
        rw [List.flatMap_cons] at hcarries hlength
        rw [List.length_append] at hlength
        rw [List.map_cons, List.sum_cons] at hsum
        obtain ⟨hfirst, hrest⟩ := carries_append.1 hcarries
        have hfits := hmore s (by simp)
        refine ⟨s, hfits, hfirst, by omega, by omega, (hnext s (by omega) hfits (by omega)).2
          ⟨rest, fun r hr => hmore r (by simp [hr]), hrest, by omega, by omega, by simp⟩⟩

omit hw

theorem parseAsPath_ok_iff {path : List AsPathSegment} :
    parseAsPath b width limits = .ok path ↔ (width = 2 ∨ width = 4) ∧
      (∀ s ∈ path, s.Fits width) ∧ path.flatMap (AsPathSegment.encode width) = b ∧
      (path.map fun s => s.values.length).sum ≤ limits.elements := by
  unfold parseAsPath
  by_cases hw : width = 2 ∨ width = 4
  · rw [if_neg (by omega), pathSegments_ok_iff hw (Nat.zero_le _) (Nat.sub_le _ _)
      (Nat.zero_le _) (Nat.zero_le _)]
    constructor
    · rintro ⟨more, hmore, hcarries, hlength, hsum, rfl⟩
      rw [Nat.zero_add] at hlength hsum
      refine ⟨hw, hmore, ?_, hsum⟩
      have hslice := hcarries.eq_drop (by omega)
      rw [List.drop_zero] at hslice
      exact hslice.symm
    · rintro ⟨-, hfits, rfl, hsum⟩
      exact ⟨path, hfits, carries_self _, Nat.zero_add _, by omega, rfl⟩
  · rw [if_pos (by omega)]
    constructor
    · intro h
      cases h
    · exact fun h => absurd h.1 hw

end Paths

section Attributes
variable {b : List U8} {context : LayoutContext} {relationship : PeerRelationship} {sender : U8}
  {limits : Bgp.Limits}

/-- Intervals that follow each other from `p` to `stop`. -/
def Tile (p stop : ℕ) : List (ℕ × ℕ) → Prop
  | [] => p = stop
  | x :: rest => x.1 = p ∧ p < x.2 ∧ Tile x.2 stop rest

def AttributeParse.pieces (t : AttributeParse) : List (ℕ × ℕ) :=
  t.ranges.map (fun r => (r.start, r.stop)) ++
    t.malformed.toList.map fun m => (m.start, m.stop)

theorem addAttribute_malformed {s t : AttributeParse} {e : AttributeEnvelope}
    (h : addAttribute b context relationship sender limits s e = .ok t) : t.malformed = none := by
  unfold addAttribute at h
  dsimp only at h
  split at h
  · cases h
    rfl
  · obtain ⟨-, h⟩ := guard_eq_ok.1 h
    cases h
    rfl

theorem attributes_tile {stop fuel p : ℕ} {s t : AttributeParse} (hp : p ≤ stop)
    (hfuel : stop - p ≤ fuel) (hs : s.malformed = none)
    (h : attributes b stop context relationship sender limits fuel p s = .ok t) :
    ∃ more, t.pieces = s.ranges.map (fun r => (r.start, r.stop)) ++ more ∧ Tile p stop more := by
  induction fuel generalizing p s with
  | zero =>
    cases h
    refine ⟨[], ?_, by unfold Tile; omega⟩
    simp [AttributeParse.pieces, hs]
  | succ fuel ih =>
    unfold attributes at h
    by_cases hend : p ≥ stop
    · rw [if_pos hend] at h
      cases h
      refine ⟨[], ?_, by unfold Tile; omega⟩
      simp [AttributeParse.pieces, hs]
    · rw [if_neg hend] at h
      obtain ⟨-, h⟩ := guard_eq_ok.1 h
      cases hread : AttributeEnvelope.read b p stop with
      | malformed reason =>
        rw [hread] at h
        cases h
        exact ⟨[(p, stop)], rfl, rfl, by omega, rfl⟩
      | complete e =>
        rw [hread] at h
        obtain ⟨u, hadd, h⟩ := bind_eq_ok.1 h
        obtain ⟨hstart, hvalue, hle, hstop⟩ := AttributeEnvelope.read_complete hread
        obtain ⟨r, hranges, hr, -⟩ := addAttribute_ok hadd
        obtain ⟨more, hmore, htile⟩ := ih hstop (by omega) (addAttribute_malformed hadd) h
        have hpiece : (r.start, r.stop) = (p, e.valueEnd) := by
          rw [← hr] at hstart ⊢
          exact Prod.ext hstart rfl
        refine ⟨(p, e.valueEnd) :: more, ?_, rfl, by omega, htile⟩
        rw [hmore, hranges, List.map_append, List.append_assoc, List.map_singleton, hpiece]
        rfl

end Attributes

/-- Prefix lists and AS paths are accepted exactly when they are written so within the limits, with
canonical addresses. The attributes with a truncated one behind them fill their section. -/
theorem wireLists_exact (b : List U8) (limits : Bgp.Limits) :
    (∀ start stop afi safi addPath spans, start ≤ stop → stop ≤ b.length →
      (prefixList b start stop afi safi addPath limits = .ok spans ↔
        ∃ width items, addressWidth afi = some width ∧
          (∀ i ∈ items, PrefixItem.Fits width addPath i) ∧
          sliceOf b start stop = items.flatMap PrefixItem.encode ∧
          items.length ≤ limits.elements ∧ spans = spansOf afi safi width start items) ∧
      (prefixList b start stop afi safi addPath limits = .ok spans → Follow start stop spans)) ∧
    (∀ address length, canonical (canonical address length) length = canonical address length) ∧
    (∀ afi safi width start (i : PrefixItem), (i.span afi safi width start).noncanonical = true ↔
      (i.span afi safi width start).route.address ≠ i.address width) ∧
    (∀ width path, parseAsPath b width limits = .ok path ↔ (width = 2 ∨ width = 4) ∧
      (∀ s ∈ path, AsPathSegment.Fits width s) ∧
      path.flatMap (AsPathSegment.encode width) = b ∧
      (path.map fun s => s.values.length).sum ≤ limits.elements) ∧
    ∀ start stop context relationship sender parse, start ≤ stop →
      parseAttributes b start stop context relationship sender limits = .ok parse →
        Tile start stop parse.pieces := by
  refine ⟨fun start stop afi safi addPath spans hle hstop =>
    ⟨prefixList_ok_iff hle hstop, prefixList_follow hle⟩, canonical_canonical,
    fun afi safi width start i => decide_eq_true_iff,
    fun width path => parseAsPath_ok_iff, fun start stop context relationship sender parse hle h => ?_⟩
  obtain ⟨more, hmore, htile⟩ := attributes_tile hle le_rfl rfl h
  rw [hmore]
  exact htile

/-- Two prefixes are one more than these limits admit. -/
theorem prefixList_over_limit : ¬ ∀ (limits : Bgp.Limits) (items : List PrefixItem),
    limits.validate = .ok () → (∀ i ∈ items, i.Fits 4 false) →
      prefixList (items.flatMap PrefixItem.encode) 0 (items.flatMap PrefixItem.encode).length 1 1
        false limits = .ok (spansOf 1 1 4 0 items) := by
  intro hall
  have hfits : ∀ i ∈ List.replicate 2 (⟨none, 0, []⟩ : PrefixItem), i.Fits 4 false := by
    intro i hi
    obtain rfl := List.eq_of_mem_replicate hi
    exact ⟨rfl, by decide, rfl⟩
  have hread := hall { Bgp.Limits.default with elements := 1 } (List.replicate 2 ⟨none, 0, []⟩)
    (by decide) hfits
  exact absurd hread (by decide)

end PcapEvidence.Bgp.Wire
