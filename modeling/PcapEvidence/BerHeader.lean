import PcapEvidence.BerEncode

/-!
# What stands before the content of an element

The reader of identifier and length octets accepts exactly what an identifier and a length form
write, and takes all of it.
-/

namespace PcapEvidence.Ber

open Septets

theorem toNat_and_31 (v : U8) : (v &&& 31).toNat = v.toNat % 32 := by
  revert v
  decide +kernel

theorem toNat_and_127 (v : U8) : (v &&& 127).toNat = v.toNat % 128 := by
  revert v
  decide +kernel

theorem and_128_eq_zero_iff (v : U8) : v &&& 128 = 0 ↔ v.toNat < 128 := by
  revert v
  decide +kernel

theorem and_32_eq_zero_iff (v : U8) : v &&& 32 = 0 ↔ v.toNat / 32 % 2 = 0 := by
  revert v
  decide +kernel

theorem toNat_shiftRight_6 (v : U8) : (v >>> 6).toNat = v.toNat / 64 := by
  revert v
  decide +kernel

/-- An octet read after the groups of `tag` either extends them or ends them. -/
theorem read_group {v : U8} {tag : ℕ} (hfirst : tag ≠ 0 ∨ v ≠ 128) :
    leading tag ++ [v] = if v &&& 128 = 0 then octets (tag * 2 ^ 7 + (v &&& 127).toNat)
      else leading (tag * 2 ^ 7 + (v &&& 127).toNat) := by
  rw [toNat_and_127, show 2 ^ 7 = 128 from rfl]
  by_cases hlast : v &&& 128 = 0
  · have hv := (and_128_eq_zero_iff v).1 hlast
    rw [if_pos hlast, leading_last hv, Nat.mod_eq_of_lt hv]
  · have hv : 128 ≤ v.toNat := not_lt.1 fun h => hlast ((and_128_eq_zero_iff v).2 h)
    rw [if_neg hlast, leading_append hv hfirst]

/-- The octet that continues the groups with `d`. -/
theorem continuing_octet {d : ℕ} (hd : d < 128) :
    BitVec.ofNat 8 (128 + d) &&& 128 ≠ 0 ∧ (BitVec.ofNat 8 (128 + d) &&& 127).toNat = d := by
  have hnat : (BitVec.ofNat 8 (128 + d)).toNat = 128 + d := by
    rw [BitVec.toNat_ofNat]
    omega
  constructor
  · rw [Ne, and_128_eq_zero_iff, hnat]
    omega
  · rw [toNat_and_127, hnat]
    omega

theorem last_octet {d : ℕ} (hd : d < 128) :
    BitVec.ofNat 8 d &&& 128 = 0 ∧ (BitVec.ofNat 8 d &&& 127).toNat = d := by
  have hnat : (BitVec.ofNat 8 d).toNat = d := by
    rw [BitVec.toNat_ofNat]
    omega
  rw [and_128_eq_zero_iff, toNat_and_127, hnat]
  exact ⟨hd, Nat.mod_eq_of_lt hd⟩

section HighTag

variable {b : List U8} {ceiling : ℕ}

theorem not_empty {v : U8} {n tag : ℕ} (hn : n ≠ 0 → tag ≠ 0) (h : ¬ (n = 0 ∧ v &&& 127 = 0)) :
    tag ≠ 0 ∨ v ≠ 128 := by
  rcases Nat.eq_zero_or_pos n with rfl | hpos
  · exact .inr fun h128 => h ⟨rfl, by rw [h128]; rfl⟩
  · exact .inl (hn hpos.ne')

theorem highTag_ok (hc : ceiling ≤ b.length) {fuel position n tag tag' p : ℕ}
    (hfuel : position + fuel = ceiling) (hn : n ≠ 0 → tag ≠ 0)
    (h : highTag b ceiling fuel position n tag = .ok (tag', p)) :
    ∃ l, Carries b position l ∧ p = position + l.length ∧ p ≤ ceiling ∧
      leading tag ++ l = octets tag' ∧ tag' < 2 ^ 32 := by
  induction fuel generalizing position n tag with
  | zero => cases h
  | succ fuel ih =>
    simp only [highTag] at h
    generalize hv : byteAt b position = v at h
    have hat : position < b.length := by omega
    split_ifs at h with hfirst hlimit hlast
    · -- the last octet
      obtain ⟨rfl, rfl⟩ := Prod.mk.inj (Except.ok.inj h)
      have hgroup := read_group (not_empty hn hfirst)
      rw [if_pos hlast] at hgroup
      refine ⟨[v], carries_single.2 ⟨hat, hv⟩, rfl, by omega, hgroup, ?_⟩
      have hmod := Nat.mod_lt v.toNat (show 0 < 128 by norm_num)
      rw [toNat_and_127]
      omega
    · have hgroup := read_group (not_empty hn hfirst)
      rw [if_neg hlast] at hgroup
      have hstays : tag * 2 ^ 7 + (v &&& 127).toNat ≠ 0 := by
        rcases Nat.eq_zero_or_pos n with rfl | hpos
        · have : (v &&& 127).toNat ≠ 0 := fun hand => hfirst ⟨rfl, BitVec.eq_of_toNat_eq hand⟩
          omega
        · have := hn hpos.ne'
          omega
      obtain ⟨l, hl, hp, hle, hoctets, hlt⟩ := ih (by omega) (fun _ => hstays) h
      refine ⟨v :: l, carries_cons.2 ⟨hat, hv, hl⟩, ?_, hle, ?_, hlt⟩
      · rw [hp, List.length_cons]
        omega
      · rw [List.append_cons, hgroup, hoctets]

theorem highTag_leading {p w : ℕ} (hw : w < 2 ^ 32)
    (hcarries : Carries b p (leading w)) (hle : p + (leading w).length ≤ ceiling) :
    highTag b ceiling (ceiling - p) p 0 0 = highTag b ceiling (ceiling - (p + (leading w).length))
      (p + (leading w).length) (leading w).length w := by
  induction w using groups_induction with
  | zero => rfl
  | step w d hd hpos ih =>
    rw [leading_step hd hpos] at hcarries hle ⊢
    rw [carries_append, carries_single] at hcarries
    rw [List.length_append, List.length_singleton] at hle ⊢
    obtain ⟨hfront, hat, hoctet⟩ := hcarries
    obtain ⟨hcontinues, hvalue⟩ := continuing_octet hd
    have hcount : (leading w).length ≤ 4 := length_leading_le (by norm_num; omega)
    rw [ih (by omega) hfront (by omega)]
    rw [show ceiling - (p + (leading w).length) =
      ceiling - (p + ((leading w).length + 1)) + 1 by omega]
    simp only [highTag, hoctet]
    have hnonempty : ¬ ((leading w).length = 0 ∧ BitVec.ofNat 8 (128 + d) &&& 127 = 0) := by
      rintro ⟨hlen, hzero⟩
      have hd0 : d = 0 := by rw [← hvalue, hzero]; rfl
      exact hpos.elim (fun hw0 => hw0 (length_leading_eq_zero.1 hlen)) fun hd1 => hd1 hd0
    rw [if_neg hnonempty, if_neg (by omega), if_neg hcontinues, hvalue]
    rfl

theorem highTag_octets {p tag : ℕ} (htag : tag < 2 ^ 32) (h31 : 31 ≤ tag)
    (hcarries : Carries b p (octets tag)) (hle : p + (octets tag).length ≤ ceiling) :
    highTag b ceiling (ceiling - p) p 0 0 = .ok (tag, p + (octets tag).length) := by
  rw [length_octets] at hle ⊢
  rw [octets, carries_append, carries_single] at hcarries
  obtain ⟨hfront, hat, hoctet⟩ := hcarries
  obtain ⟨hlast, hvalue⟩ := last_octet (Nat.mod_lt tag (show 0 < 128 by norm_num))
  have hcount : (leading (tag / 128)).length ≤ 4 := length_leading_le (by norm_num; omega)
  have htotal : tag / 128 * 2 ^ 7 + tag % 128 = tag := by omega
  rw [highTag_leading (by omega) hfront (by omega)]
  rw [show ceiling - (p + (leading (tag / 128)).length) =
    ceiling - (p + ((leading (tag / 128)).length + 1)) + 1 by omega]
  simp only [highTag, hoctet]
  have hnonempty : ¬ ((leading (tag / 128)).length = 0 ∧ BitVec.ofNat 8 (tag % 128) &&& 127 = 0) := by
    rintro ⟨hlen, hzero⟩
    have hd0 : tag % 128 = 0 := by rw [← hvalue, hzero]; rfl
    have hw0 := length_leading_eq_zero.1 hlen
    omega
  rw [if_neg hnonempty, if_neg (by omega), if_pos hlast, hvalue, htotal]
  rfl

end HighTag

theorem toNat_firstOctet (id : Identifier) (constructed : Bool) :
    (id.firstOctet constructed).toNat =
      64 * id.cls.toNat + (if constructed then 32 else 0) + min id.tag 31 := by
  have hcls := id.cls_lt
  rw [Identifier.firstOctet, BitVec.toNat_ofNat]
  cases constructed
  · simp only [Bool.false_eq_true, if_false]
    omega
  · simp only [if_true]
    omega

theorem firstOctet_cls (id : Identifier) (constructed : Bool) :
    id.firstOctet constructed >>> 6 = id.cls := by
  apply BitVec.eq_of_toNat_eq
  have hcls := id.cls_lt
  rw [toNat_shiftRight_6, toNat_firstOctet]
  cases constructed
  · simp only [Bool.false_eq_true, if_false]
    omega
  · simp only [if_true]
    omega

theorem firstOctet_constructed (id : Identifier) (constructed : Bool) :
    decide (id.firstOctet constructed &&& 32 ≠ 0) = constructed := by
  have hcls := id.cls_lt
  simp only [ne_eq, and_32_eq_zero_iff, toNat_firstOctet]
  cases constructed
  · simp only [Bool.false_eq_true, if_false, decide_eq_false_iff_not, not_not]
    omega
  · simp only [if_true, decide_eq_true_eq]
    omega

theorem firstOctet_low (id : Identifier) (constructed : Bool) :
    (id.firstOctet constructed &&& 31).toNat = min id.tag 31 := by
  rw [toNat_and_31, toNat_firstOctet]
  cases constructed
  · simp only [Bool.false_eq_true, if_false]
    omega
  · simp only [if_true]
    omega

theorem eq_firstOctet (id : Identifier) {first : U8} (hcls : first >>> 6 = id.cls)
    (hlow : (first &&& 31).toNat = min id.tag 31) :
    first = id.firstOctet (decide (first &&& 32 ≠ 0)) := by
  apply BitVec.eq_of_toNat_eq
  have hhigh : first.toNat / 64 = id.cls.toNat := by rw [← toNat_shiftRight_6, hcls]
  have hlt := first.isLt
  rw [toNat_and_31] at hlow
  rw [toNat_firstOctet]
  by_cases hbit : first &&& 32 = 0
  · have := (and_32_eq_zero_iff first).1 hbit
    simp only [hbit, ne_eq, not_true_eq_false, decide_false, Bool.false_eq_true, if_false]
    omega
  · have hodd : first.toNat / 32 % 2 ≠ 0 := fun h => hbit ((and_32_eq_zero_iff first).2 h)
    simp only [hbit, ne_eq, not_false_eq_true, decide_true, if_true]
    omega

section Header

variable {b : List U8} {start ceiling : ℕ}

def tagOctets (tag : ℕ) : List U8 := if tag < 31 then [] else octets tag

theorem tagNumber_ok (hc : ceiling ≤ b.length) (hstart : start < ceiling) {tag p : ℕ}
    (h : tagNumber b start ceiling = .ok (tag, p)) :
    tag < 2 ^ 32 ∧ Carries b (start + 1) (tagOctets tag) ∧ p = start + 1 + (tagOctets tag).length ∧
      p ≤ ceiling ∧ (byteAt b start &&& 31).toNat = min tag 31 := by
  unfold tagNumber at h
  dsimp only at h
  by_cases hlow : byteAt b start &&& 31 = 31
  · rw [if_pos hlow] at h
    obtain ⟨⟨tag', p'⟩, htag, h⟩ := bind_eq_ok.1 h
    dsimp only at h
    split_ifs at h with hshort
    obtain ⟨rfl, rfl⟩ := Prod.mk.inj (Except.ok.inj h)
    obtain ⟨l, hl, hp, hle, hoctets, hlt⟩ := highTag_ok hc (by omega) (by simp) htag
    rw [leading_zero, List.nil_append] at hoctets
    subst hoctets
    rw [tagOctets, if_neg hshort, hlow]
    exact ⟨hlt, hl, hp, hle, by change 31 = _; omega⟩
  · rw [if_neg hlow] at h
    obtain ⟨rfl, rfl⟩ := Prod.mk.inj (Except.ok.inj h)
    have hlt : (byteAt b start &&& 31).toNat < 31 := by
      have hne : (byteAt b start &&& 31).toNat ≠ 31 := fun h31 => hlow (BitVec.eq_of_toNat_eq h31)
      rw [toNat_and_31] at hne ⊢
      omega
    rw [tagOctets, if_pos hlt]
    exact ⟨by omega, carries_nil, rfl, by omega, by omega⟩

theorem tagNumber_of {tag : ℕ} (htag : tag < 2 ^ 32)
    (hlow : (byteAt b start &&& 31).toNat = min tag 31) (hcarries : Carries b (start + 1) (tagOctets tag))
    (hle : start + 1 + (tagOctets tag).length ≤ ceiling) :
    tagNumber b start ceiling = .ok (tag, start + 1 + (tagOctets tag).length) := by
  unfold tagNumber
  dsimp only
  by_cases hshort : tag < 31
  · have hne : byteAt b start &&& 31 ≠ 31 := by
      intro h31
      rw [h31] at hlow
      change 31 = _ at hlow
      omega
    rw [if_neg hne, hlow, tagOctets, if_pos hshort, min_eq_left (by omega)]
    rfl
  · have h31 : byteAt b start &&& 31 = 31 := BitVec.eq_of_toNat_eq (by rw [hlow]; change _ = 31; omega)
    rw [tagOctets, if_neg hshort] at hcarries hle ⊢
    rw [if_pos h31, highTag_octets htag (by omega) hcarries hle]
    change (if tag < 31 then _ else _) = _
    rw [if_neg hshort]

theorem foldl_be (b : List U8) : b.foldl (fun n x => n * 256 + x.toNat) 0 = ByteCodec.leNat b.reverse := by
  induction b using List.reverseRecOn with
  | nil => rfl
  | append_singleton l x ih =>
    rw [List.foldl_append, ih, List.reverse_append]
    change ByteCodec.leNat l.reverse * 256 + x.toNat = x.toNat + 256 * ByteCodec.leNat l.reverse
    omega

theorem contentLength_ok (hc : ceiling ≤ b.length) {octet : U8} {position length p : ℕ}
    (hposition : position ≤ ceiling) (h : contentLength b octet position ceiling = .ok (length, p)) :
    ∃ l, Carries b position l ∧ p = position + l.length ∧ p ≤ ceiling ∧
      if octet = 128 then length = 0 ∧ l = []
      else ∃ form : LengthForm, form.Fits length ∧ octet :: l = form.octets length := by
  unfold contentLength at h
  by_cases hshort : octet < 128
  · rw [if_pos hshort] at h
    obtain ⟨rfl, rfl⟩ := Prod.mk.inj (Except.ok.inj h)
    have hne : octet ≠ 128 := by
      rintro rfl
      exact absurd hshort (by decide)
    refine ⟨[], carries_nil, rfl, hposition, ?_⟩
    rw [if_neg hne]
    exact ⟨.short, hshort, by rw [LengthForm.octets, BitVec.ofNat_toNat, BitVec.setWidth_eq]⟩
  · rw [if_neg hshort] at h
    by_cases hindefinite : octet = 128
    · rw [if_pos hindefinite] at h
      obtain ⟨rfl, rfl⟩ := Prod.mk.inj (Except.ok.inj h)
      refine ⟨[], carries_nil, rfl, hposition, ?_⟩
      rw [if_pos hindefinite]
      exact ⟨rfl, rfl⟩
    · rw [if_neg hindefinite] at h
      dsimp only at h
      split_ifs at h with hn
      obtain ⟨value, hvalue, h⟩ := bind_eq_ok.1 h
      obtain ⟨rfl, rfl⟩ := Prod.mk.inj (Except.ok.inj h)
      generalize hcount : (octet &&& 127).toNat = n at *
      have hlen : (sliceOf b position (position + n)).length = n := by
        rw [length_sliceOf]
        omega
      have hoctet : octet = BitVec.ofNat 8 (128 + n) := by
        apply BitVec.eq_of_toNat_eq
        have hge : 128 ≤ octet.toNat := not_lt.1 hshort
        have hlt := octet.isLt
        rw [toNat_and_127] at hcount
        rw [BitVec.toNat_ofNat]
        omega
      rw [uint, if_neg (by omega), foldl_be] at hvalue
      cases hvalue
      refine ⟨sliceOf b position (position + n), carries_sliceOf, by rw [hlen], by omega, ?_⟩
      rw [if_neg hindefinite]
      refine ⟨.long n, ⟨by omega, by omega, ?_⟩, ?_⟩
      · have hlt := ByteCodec.leNat_lt (sliceOf b position (position + n)).reverse
        rwa [List.length_reverse, hlen] at hlt
      · have hback := ByteCodec.leBytes_leNat (sliceOf b position (position + n)).reverse
        rw [List.length_reverse, hlen] at hback
        rw [LengthForm.octets, hback, List.reverse_reverse, hoctet]

theorem contentLength_of {form : LengthForm} {length position : ℕ} {octet : U8} {l : List U8}
    (hfits : form.Fits length) (hl : form.octets length = octet :: l) (hcarries : Carries b position l)
    (hle : position + l.length ≤ ceiling) :
    octet ≠ 128 ∧ contentLength b octet position ceiling = .ok (length, position + l.length) := by
  cases form with
  | short =>
    obtain ⟨rfl, rfl⟩ := List.cons.inj hl
    have hfits : length < 128 := hfits
    have hnat : (BitVec.ofNat 8 length).toNat = length := by
      rw [BitVec.toNat_ofNat]
      omega
    have hlt : BitVec.ofNat 8 length < 128 := by
      change (BitVec.ofNat 8 length).toNat < 128
      rwa [hnat]
    refine ⟨fun h => absurd (h ▸ hlt) (by decide), ?_⟩
    rw [contentLength, if_pos hlt, hnat]
    rfl
  | long n =>
    obtain ⟨rfl, rfl⟩ := List.cons.inj hl
    obtain ⟨hpos, hle8, hlt⟩ := hfits
    rw [List.length_reverse, ByteCodec.length_leBytes] at hle ⊢
    have hnat : (BitVec.ofNat 8 (128 + n)).toNat = 128 + n := by
      rw [BitVec.toNat_ofNat]
      omega
    have hne : BitVec.ofNat 8 (128 + n) ≠ 128 := by
      intro h
      have := congrArg BitVec.toNat h
      rw [hnat] at this
      change 128 + n = 128 at this
      omega
    have hge : ¬ BitVec.ofNat 8 (128 + n) < 128 := by
      change ¬ (BitVec.ofNat 8 (128 + n)).toNat < 128
      omega
    have hcount : (BitVec.ofNat 8 (128 + n) &&& 127).toNat = n := by
      rw [toNat_and_127, hnat]
      omega
    have hslice : sliceOf b position (position + n) = (ByteCodec.leBytes n length).reverse := by
      have := hcarries.sliceOf_eq
      rwa [List.length_reverse, ByteCodec.length_leBytes] at this
    have huint : uint (ByteCodec.leBytes n length).reverse = .ok length := by
      rw [uint, List.length_reverse, ByteCodec.length_leBytes, if_neg (by omega), foldl_be,
        List.reverse_reverse, ByteCodec.leNat_leBytes, Nat.mod_eq_of_lt hlt]
    refine ⟨hne, ?_⟩
    rw [contentLength, if_neg hge, if_neg hne]
    simp only [hcount]
    rw [if_neg (by omega), hslice, huint]
    rfl

def Header.Length (h : Header) (l : List U8) : Prop :=
  if h.indefinite then h.length = 0 ∧ l = [128]
  else ∃ form : LengthForm, form.Fits h.length ∧ l = form.octets h.length

theorem header_ok (hc : ceiling ≤ b.length) {h : Header} (hh : header b start ceiling = .ok h) :
    ∃ (id : Identifier) (l : List U8), h.cls = id.cls ∧ h.tag = id.tag ∧ h.Length l ∧
      Carries b start (id.octets h.constructed ++ l) ∧
      h.valueStart = start + (id.octets h.constructed ++ l).length ∧ h.valueStart ≤ ceiling := by
  unfold header at hh
  by_cases hstart : start ≥ ceiling
  · rw [if_pos hstart] at hh
    cases hh
  · rw [if_neg hstart] at hh
    dsimp only at hh
    obtain ⟨⟨tag, position⟩, htag, hh⟩ := bind_eq_ok.1 hh
    dsimp only at hh
    split_ifs at hh with hposition heoc
    obtain ⟨⟨length, valueStart⟩, hlength, hh⟩ := bind_eq_ok.1 hh
    dsimp only at hh
    cases hh
    obtain ⟨hlt, hcarries, hp, hle, hlow⟩ := tagNumber_ok hc (by omega) htag
    obtain ⟨l, hl, hv, hvle, hform⟩ := contentLength_ok hc (by omega) hlength
    have hcls : (byteAt b start >>> 6).toNat < 4 := by
      have := (byteAt b start).isLt
      rw [toNat_shiftRight_6]
      omega
    let id : Identifier := ⟨byteAt b start >>> 6, tag, hcls, hlt, heoc⟩
    have hfirst : byteAt b start = id.firstOctet (decide (byteAt b start &&& 32 ≠ 0)) :=
      eq_firstOctet id rfl hlow
    refine ⟨id, byteAt b position :: l, rfl, rfl, ?_, ?_, ?_, hvle⟩
    · unfold Header.Length
      by_cases hindefinite : byteAt b position = 128
      · rw [if_pos hindefinite] at hform
        rw [if_pos (by simpa using hindefinite), hindefinite, hform.2]
        exact ⟨hform.1, rfl⟩
      · rw [if_neg hindefinite] at hform
        rw [if_neg (by simpa using hindefinite)]
        exact hform
    · rw [Identifier.octets, List.cons_append, carries_cons, ← hfirst]
      refine ⟨by omega, rfl, carries_append.2 ⟨hcarries, ?_⟩⟩
      change Carries b (start + 1 + (tagOctets tag).length) _
      rw [← hp]
      exact carries_cons.2 ⟨by omega, rfl, hl⟩
    · rw [hv, hp, Identifier.octets, List.length_append, List.length_cons, List.length_cons]
      change start + 1 + (tagOctets tag).length + 1 + l.length =
        start + ((tagOctets tag).length + 1 + (l.length + 1))
      omega

theorem header_of {id : Identifier} {constructed indefinite : Bool} {length : ℕ} {l : List U8}
    (hlength : Header.Length ⟨id.cls, id.tag, constructed, indefinite, length, 0⟩ l)
    (hcarries : Carries b start (id.octets constructed ++ l))
    (hle : start + (id.octets constructed ++ l).length ≤ ceiling) :
    header b start ceiling = .ok ⟨id.cls, id.tag, constructed, indefinite, length,
      start + (id.octets constructed ++ l).length⟩ := by
  rw [Identifier.octets, List.cons_append, carries_cons] at hcarries
  obtain ⟨hat, hfirst, hcarries⟩ := hcarries
  change Carries b (start + 1) (tagOctets id.tag ++ l) at hcarries
  obtain ⟨htag, hl⟩ := carries_append.1 hcarries
  have htotal : start + (id.octets constructed ++ l).length =
      start + 1 + (tagOctets id.tag).length + l.length := by
    rw [Identifier.octets, List.length_append, List.length_cons]
    change start + ((tagOctets id.tag).length + 1 + l.length) = _
    omega
  rw [htotal] at hle ⊢
  -- the length octets start with one that says which form follows
  obtain ⟨octet, rest, rfl, hoctet⟩ : ∃ octet rest, l = octet :: rest ∧
      ∀ position, Carries b position rest → position + rest.length ≤ ceiling →
        decide (octet = 128) = indefinite ∧
          contentLength b octet position ceiling = .ok (length, position + rest.length) := by
    unfold Header.Length at hlength
    cases indefinite with
    | true =>
      obtain ⟨hzero, rfl⟩ := (if_pos rfl).mp hlength
      cases hzero
      exact ⟨128, [], rfl, fun position _ _ => ⟨rfl, rfl⟩⟩
    | false =>
      obtain ⟨form, hfits, rfl⟩ := (if_neg Bool.false_ne_true).mp hlength
      obtain ⟨octet, rest, hform⟩ : ∃ octet rest, form.octets length = octet :: rest := by
        cases form <;> exact ⟨_, _, rfl⟩
      refine ⟨octet, rest, hform, fun position hrest hposition => ?_⟩
      obtain ⟨hne, hread⟩ := contentLength_of hfits hform hrest hposition
      exact ⟨decide_eq_false hne, hread⟩
  obtain ⟨hpos, hbyte, hrest⟩ := carries_cons.1 hl
  rw [List.length_cons] at hle ⊢
  obtain ⟨hindefinite, hread⟩ := hoctet _ hrest (by omega)
  have hlow : (byteAt b start &&& 31).toNat = min id.tag 31 := by rw [hfirst, firstOctet_low]
  rw [header, if_neg (by omega)]
  dsimp only
  rw [tagNumber_of id.tag_lt hlow htag (by omega)]
  change (if start + 1 + (tagOctets id.tag).length ≥ ceiling then _ else _) = _
  rw [if_neg (by omega), hfirst, firstOctet_cls, if_neg id.proper, hbyte, hread, ← hindefinite,
    firstOctet_constructed]
  change Except.ok (Header.mk _ _ _ _ _ (start + 1 + (tagOctets id.tag).length + 1 + rest.length)) = _
  rw [show start + 1 + (tagOctets id.tag).length + (rest.length + 1) =
    start + 1 + (tagOctets id.tag).length + 1 + rest.length by omega]

end Header

end PcapEvidence.Ber
