import PcapEvidence.BgpUpdateRoutes
import PcapEvidence.ByteSlices

/-!
# A value wherever it stands

The readers of attribute values only look at the octets of the value. At another place of another
message they give the same value with moved spans, or refuse it again, and they stop at a limit at
both places or at neither.
-/

namespace PcapEvidence.Bgp.Wire

open FiniteMap History Mrt

section Alike

/-- Two readings that succeed with related values, or that both fail, at a limit or not. -/
def Alike {α β : Type} (R : α → β → Prop) (r : Result α) (r' : Result β) : Prop :=
  match r, r' with
  | .ok x, .ok y => R x y
  | .error e, .error f => e.code = .limitExceeded ↔ f.code = .limitExceeded
  | _, _ => False

variable {α β γ δ : Type} {R : α → β → Prop} {S : γ → δ → Prop}

theorem alike_ok {x : α} {y : β} (h : R x y) : Alike R (.ok x) (.ok y) := h

theorem alike_error (e : Error) : Alike R (.error e) (.error e) := Iff.rfl

theorem alike_refused {e f : Error} (he : e.code ≠ .limitExceeded) (hf : f.code ≠ .limitExceeded) :
    Alike R (.error e) (.error f) := by
  constructor
  · exact fun h => absurd h he
  · exact fun h => absurd h hf

theorem alike_badAt (field field' detail detail' : String) (i j : ℕ) :
    Alike R (.error (badAt field i detail)) (.error (badAt field' j detail')) :=
  alike_refused (by simp [badAt]) (by simp [badAt])

theorem Alike.ok_iff {r : Result α} {r' : Result β} (h : Alike R r r') :
    (∀ x, r = .ok x → ∃ y, r' = .ok y ∧ R x y) ∧ ∀ y, r' = .ok y → ∃ x, r = .ok x := by
  cases r <;> cases r' <;> first | exact h.elim | simp
  exact h

theorem Alike.bind {r : Result α} {r' : Result β} {f : α → Result γ} {f' : β → Result δ}
    (h : Alike R r r') (hf : ∀ x y, R x y → Alike S (f x) (f' y)) :
    Alike S (r >>= f) (r' >>= f') := by
  cases r with
  | ok x =>
    cases r' with
    | ok y => exact hf x y h
    | error e => exact h.elim
  | error e =>
    cases r' with
    | ok y => exact h.elim
    | error f => exact h

theorem Alike.map {r : Result α} {r' : Result β} {f : α → γ} {f' : β → δ}
    (h : Alike R r r') (hf : ∀ x y, R x y → S (f x) (f' y)) : Alike S (r.map f) (r'.map f') := by
  cases r with
  | ok x =>
    cases r' with
    | ok y => exact hf x y h
    | error e => exact h.elim
  | error e =>
    cases r' with
    | ok y => exact h.elim
    | error f => exact h

theorem alike_ite {c c' : Prop} [Decidable c] [Decidable c'] {x y : Result α} {x' y' : Result β}
    (hc : c ↔ c') (hx : c → Alike R x x') (hy : ¬ c → Alike R y y') :
    Alike R (if c then x else y) (if c' then x' else y') := by
  by_cases h : c
  · rw [if_pos h, if_pos (hc.1 h)]
    exact hx h
  · rw [if_neg h, if_neg (hc.not.1 h)]
    exact hy h

end Alike

section Prefixes

/-- A span `d` octets further on. -/
def PrefixSpan.move (d : ℕ) (x : PrefixSpan) : PrefixSpan :=
  { x with start := d + x.start, stop := d + x.stop }

variable {b value : List U8} {p q : ℕ} {afi : U16} {safi : U8} {width : ℕ} {addPath : Bool}
  {limits : Bgp.Limits}

theorem pathIdentifier_alike (h : Carries b p value) (hq : q ≤ value.length) :
    Alike (fun x y => x = (y.1, p + y.2) ∧ y.2 ≤ value.length)
      (pathIdentifier b addPath (p + q) (p + value.length))
      (pathIdentifier value addPath q value.length) := by
  unfold pathIdentifier
  cases addPath with
  | false => exact alike_ok ⟨rfl, hq⟩
  | true =>
    rw [if_pos rfl, if_pos rfl]
    apply alike_ite (by omega)
    · exact fun _ => alike_badAt ..
    · intro hfits
      refine alike_ok ⟨?_, by dsimp only; omega⟩
      rw [h.be32_inner (by omega), Nat.add_assoc]

theorem prefixSpan_alike (h : Carries b p value) (hp : p ≤ b.length) (hq : q ≤ value.length) :
    Alike (fun x y => x = y.move p ∧ y.stop ≤ value.length)
      (prefixSpan b (p + q) (p + value.length) afi safi width addPath)
      (prefixSpan value q value.length afi safi width addPath) := by
  have hle := h.length_le hp
  unfold prefixSpan
  apply (pathIdentifier_alike h hq).bind
  rintro ⟨pathId, i⟩ ⟨pathId', j⟩ ⟨hpath, hj⟩
  obtain ⟨rfl, rfl⟩ := Prod.mk.inj hpath
  dsimp only at hj ⊢
  by_cases hinside : j + 1 ≤ value.length
  · have hoctet : byteAt b (p + j) = byteAt value j := h.byteAt_inner (by omega)
    have hneed : need b (p + j + 1) "bgp_prefix" = .ok () := if_neg (by omega)
    have hneed' : need value (j + 1) "bgp_prefix" = .ok () := if_neg (by omega)
    rw [hneed, hneed', hoctet]
    apply alike_ite Iff.rfl
    · exact fun _ => alike_badAt ..
    · intro _
      apply alike_ite (by omega)
      · exact fun _ => alike_badAt ..
      · intro hfits
        have haddress : sliceOf b (p + j + 1) (p + j + 1 + ((byteAt value j).toNat + 7) / 8) =
            sliceOf value (j + 1) (j + 1 + ((byteAt value j).toNat + 7) / 8) := by
          rw [Nat.add_assoc p, Nat.add_assoc p]
          exact h.sliceOf_inner (by omega)
        refine alike_ok ⟨?_, by dsimp only; omega⟩
        rw [haddress, Nat.add_assoc p, Nat.add_assoc p]
        rfl
  · -- behind the value stands the next field, whose octet cannot make the prefix fit
    have hneed' : need value (j + 1) "bgp_prefix" =
        .error ⟨.truncated, value.length, "bgp_prefix", "incomplete field"⟩ := if_pos (by omega)
    rw [hneed']
    unfold need
    by_cases hbehind : p + j + 1 > b.length
    · rw [if_pos hbehind]
      exact alike_refused (by simp) (by simp)
    · rw [if_neg hbehind]
      change Alike _ (if _ then _ else _) _
      by_cases hbits : (byteAt b (p + j)).toNat > width * 8
      · rw [if_pos hbits]
        exact alike_refused (by simp [badAt]) (by simp)
      · rw [if_neg hbits, if_pos (by omega)]
        exact alike_refused (by simp [badAt]) (by simp)

theorem prefixes_alike (h : Carries b p value) (hp : p ≤ b.length) (hq : q ≤ value.length)
    {fuel : ℕ} {out : List PrefixSpan} : Alike (fun x y => x = y.map (PrefixSpan.move p))
      (prefixes b (p + value.length) afi safi width addPath limits fuel (p + q)
        (out.map (PrefixSpan.move p)))
      (prefixes value value.length afi safi width addPath limits fuel q out) := by
  induction fuel generalizing q out with
  | zero => exact alike_ok rfl
  | succ fuel ih =>
    unfold prefixes
    apply alike_ite (by omega)
    · exact fun _ => alike_ok rfl
    · intro _
      apply alike_ite (by rw [List.length_map])
      · exact fun _ => alike_error _
      · intro _
        apply (prefixSpan_alike h hp hq).bind
        rintro _ y ⟨rfl, hy⟩
        have hmore : out.map (PrefixSpan.move p) ++ [y.move p] = (out ++ [y]).map (PrefixSpan.move p) := by
          rw [List.map_append, List.map_singleton]
        rw [hmore]
        exact ih hy

theorem prefixList_alike (h : Carries b p value) (hp : p ≤ b.length) (hq : q ≤ value.length) :
    Alike (fun x y => x = y.map (PrefixSpan.move p))
      (prefixList b (p + q) (p + value.length) afi safi addPath limits)
      (prefixList value q value.length afi safi addPath limits) := by
  unfold prefixList
  cases addressWidth afi with
  | none => exact alike_badAt ..
  | some width =>
    dsimp only
    rw [Nat.add_sub_add_left]
    change Alike _ (prefixes b _ afi safi width addPath limits _ _ (List.map (PrefixSpan.move p) [])) _
    exact prefixes_alike h hp hq

end Prefixes

section Values

variable {length q : ℕ} {detail field : String}

structure Attribute where
  flags : U8
  code : U8
  value : List U8
  deriving DecidableEq

def Attribute.alone (a : Attribute) : AttributeEnvelope := ⟨0, a.flags, a.code, 0, a.value.length⟩

def MultiprotocolValue.move (d : ℕ) : MultiprotocolValue → MultiprotocolValue
  | .none => .none
  | .withdrawn spans => .withdrawn (spans.map (PrefixSpan.move d))
  | .announced spans => .announced (spans.map (PrefixSpan.move d))

def DecodedAttributeValue.move (d : ℕ) (x : DecodedAttributeValue) : DecodedAttributeValue :=
  { x with multiprotocol := x.multiprotocol.move d }

variable {b value : List U8} {p : ℕ} {context : LayoutContext} {sender : U8} {limits : Bgp.Limits}

theorem mpNextHop_alike (h : Carries b p value) {afi : U16} (hle : 4 + length ≤ value.length) :
    Alike Eq (mpNextHop b p afi length) (mpNextHop value 0 afi length) := by
  unfold mpNextHop
  apply alike_ite Iff.rfl
  · intro _
    apply alike_ite Iff.rfl
    · exact fun _ => alike_badAt ..
    · intro hlength
      rw [h.be32_inner (by omega), Nat.zero_add]
      apply Alike.bind (R := Eq)
      · unfold validateIpv4NextHop
        apply alike_ite Iff.rfl
        · exact fun _ => alike_badAt ..
        · exact fun _ => alike_ok rfl
      · exact fun _ _ _ => alike_ok rfl
  · intro _
    apply alike_ite Iff.rfl
    · intro hlength
      rw [h.sliceOf_inner (by omega), Nat.zero_add, Nat.zero_add]
      apply Alike.bind (R := Eq)
      · unfold validateIpv6GlobalNextHop
        apply alike_ite Iff.rfl
        · exact fun _ => alike_badAt ..
        · exact fun _ => alike_ok rfl
      · exact fun _ _ _ => alike_ok rfl
    · intro _
      apply alike_ite Iff.rfl
      · intro hlength
        rw [h.sliceOf_inner (by omega), h.sliceOf_inner (by omega), Nat.zero_add, Nat.zero_add,
          Nat.zero_add]
        apply Alike.bind (R := Eq)
        · unfold validateIpv6GlobalNextHop
          apply alike_ite Iff.rfl
          · exact fun _ => alike_badAt ..
          · exact fun _ => alike_ok rfl
        · intro _ _ _
          apply alike_ite Iff.rfl
          · exact fun _ => alike_badAt ..
          · exact fun _ => alike_ok rfl
      · exact fun _ => alike_badAt ..

theorem parseMpReach_alike (h : Carries b p value) (hp : p ≤ b.length) {addPath : Bool} :
    Alike (fun x y => x = (y.1, y.2.map (PrefixSpan.move p)))
      (parseMpReach b p (p + value.length) addPath limits)
      (parseMpReach value 0 value.length addPath limits) := by
  unfold parseMpReach
  apply alike_ite (by omega)
  · exact fun _ => alike_badAt ..
  · intro hheader
    have hafi : be16 b p = be16 value 0 := h.be16_inner (j := 0) (by omega)
    rw [hafi, h.byteAt_inner (by omega), h.byteAt_inner (by omega), Nat.zero_add, Nat.zero_add,
      Nat.zero_add]
    dsimp only
    apply alike_ite (by omega)
    · exact fun _ => alike_badAt ..
    · intro hlength
      rw [Nat.add_assoc p, Nat.add_assoc p]
      apply (prefixList_alike h hp (by omega)).bind
      rintro _ spans rfl
      apply (mpNextHop_alike h (by omega)).bind
      rintro hop _ rfl
      exact alike_ok rfl

theorem parseMpUnreach_alike (h : Carries b p value) (hp : p ≤ b.length) {addPath : Bool} :
    Alike (fun x y => x = y.map (PrefixSpan.move p))
      (parseMpUnreach b p (p + value.length) addPath limits)
      (parseMpUnreach value 0 value.length addPath limits) := by
  unfold parseMpUnreach
  apply alike_ite (by omega)
  · exact fun _ => alike_badAt ..
  · intro hheader
    have hafi : be16 b p = be16 value 0 := h.be16_inner (j := 0) (by omega)
    rw [hafi, h.byteAt_inner (by omega), Nat.zero_add, Nat.zero_add]
    exact prefixList_alike h hp (by omega)

@[simp] theorem Diagnosed.of_snd {α : Type} (r : Result α) : (Diagnosed.of r).2 = r := rfl

theorem decodeAsPath_alike {p width : ℕ} : Alike (fun x y => x = y.move p)
    (decodeAsPath value p width limits).2 (decodeAsPath value q width limits).2 := by
  unfold decodeAsPath
  dsimp only
  split
  · exact alike_error _
  · apply alike_ite Iff.rfl
    · exact fun _ => alike_badAt ..
    · exact fun _ => alike_ok rfl

theorem decodeAs4Path_alike {p : ℕ} : Alike (fun x y => x = y.move p)
    (decodeAs4Path value p limits).2 (decodeAs4Path value q limits).2 := by
  unfold decodeAs4Path
  by_cases hlength : value.length < 6
  · rw [if_pos hlength, if_pos hlength]
    exact alike_badAt ..
  · rw [if_neg hlength, if_neg hlength]
    cases parseAsPath value 4 limits with
    | error e => exact alike_error e
    | ok path =>
      dsimp only
      by_cases hzero : hasZeroAs path = true
      · rw [if_pos hzero, if_pos hzero]
        exact alike_badAt ..
      · rw [if_neg hzero, if_neg hzero]
        exact alike_ok rfl

theorem decodeAggregator_alike (h : Carries b p value) {width : ℕ} : Alike (fun x y => x = y.move p)
    (decodeAggregator b p value.length width) (decodeAggregator value 0 value.length width) := by
  unfold decodeAggregator
  dsimp only
  apply alike_ite Iff.rfl
  · exact fun _ => alike_badAt ..
  · intro hlength
    have h16 : be16 b p = be16 value 0 := h.be16_inner (j := 0) (by omega)
    have h32 : be32 b p = be32 value 0 := h.be32_inner (j := 0) (by omega)
    rw [h16, h32, h.be32_inner (by omega), Nat.zero_add]
    apply alike_ite Iff.rfl
    · exact fun _ => alike_badAt ..
    · exact fun _ => alike_ok rfl

theorem decodeWords_alike (h : Carries b p value)
    {build : List U32 → PathAttributes} : Alike (fun x y => x = y.move p)
      (decodeWords b p value.length field detail limits build)
      (decodeWords value 0 value.length field detail limits build) := by
  unfold decodeWords
  apply alike_ite Iff.rfl
  · exact fun _ => alike_badAt ..
  · intro _
    apply alike_ite Iff.rfl
    · exact fun _ => alike_error _
    · intro _
      have hwords : (List.range (value.length / 4)).map (fun q => be32 b (p + 4 * q)) =
          (List.range (value.length / 4)).map fun q => be32 value (0 + 4 * q) := by
        apply List.map_congr_left
        intro q hq
        rw [List.mem_range] at hq
        rw [Nat.zero_add]
        exact h.be32_inner (by omega)
      rw [hwords]
      exact alike_ok rfl

theorem decodeFixed_alike {expected p : ℕ} {a a' : PathAttributes}
    (ha : length = expected → a = a') : Alike (fun x y => x = y.move p)
      (decodeFixed length expected p field detail a)
      (decodeFixed length expected q field detail a') := by
  unfold decodeFixed
  apply alike_ite Iff.rfl
  · exact fun _ => alike_badAt ..
  · intro hlength
    rw [ha (not_not.1 hlength)]
    exact alike_ok rfl

theorem decodeBlocks_alike {block p : ℕ} :
    Alike (fun x y => x = y.move p) (decodeBlocks length block p field detail)
      (decodeBlocks length block q field detail) := by
  unfold decodeBlocks
  apply alike_ite Iff.rfl
  · exact fun _ => alike_badAt ..
  · exact fun _ => alike_ok rfl

theorem checkAigp_alike (h : Carries b p value) {fuel : ℕ} (hq : q ≤ value.length) :
    Alike Eq (checkAigp b (p + value.length) fuel (p + q))
      (checkAigp value value.length fuel q) := by
  induction fuel generalizing q with
  | zero => exact alike_ok rfl
  | succ fuel ih =>
    unfold checkAigp
    apply alike_ite (by omega)
    · exact fun _ => alike_ok rfl
    · intro _
      apply alike_ite (by omega)
      · exact fun _ => alike_badAt ..
      · intro hheader
        dsimp only
        rw [Nat.add_assoc p q 1, h.be16_inner (by omega), h.byteAt_inner (by omega)]
        apply alike_ite (by omega)
        · exact fun _ => alike_badAt ..
        · intro hlength
          apply alike_ite Iff.rfl
          · exact fun _ => alike_badAt ..
          · intro _
            rw [Nat.add_assoc]
            exact ih (by omega)

theorem decodeMultiprotocol_alike (h : Carries b p value) (hp : p ≤ b.length) {reach : Bool} :
    Alike (fun x y => x = y.move p)
      (decodeMultiprotocol b reach p (p + value.length) context sender limits).2
      (decodeMultiprotocol value reach 0 value.length context sender limits).2 := by
  unfold decodeMultiprotocol
  rw [Nat.add_sub_cancel_left, Nat.sub_zero]
  by_cases hheader : value.length < 3
  · rw [if_pos hheader, if_pos hheader]
    exact alike_badAt ..
  · rw [if_neg hheader, if_neg hheader]
    have hafi : be16 b p = be16 value 0 := h.be16_inner (j := 0) (by omega)
    rw [hafi, h.byteAt_inner (by omega), Nat.zero_add]
    dsimp only
    by_cases hopaque : (be16 value 0, byteAt value 2) ∉ baseFamilies ∨
        (be16 value 0, byteAt value 2) ∉ context.mp ∨
        (reach && decide (be16 value 0 = 2) && context.unsupportedIpv6NextHopLayout) = true ∨
        (sender, be16 value 0, byteAt value 2) ∈ context.unresolvedAddPath
    · rw [if_pos hopaque, if_pos hopaque]
      exact alike_ok rfl
    · rw [if_neg hopaque, if_neg hopaque]
      cases reach with
      | true =>
        apply (parseMpReach_alike h hp).map
        rintro _ y rfl
        have hroutes : (y.2.map (PrefixSpan.move p)).map (·.route) = y.2.map (·.route) := by
          rw [List.map_map]
          rfl
        rw [hroutes]
        rfl
      | false =>
        apply (parseMpUnreach_alike h hp).map
        rintro _ y rfl
        have hroutes : (y.map (PrefixSpan.move p)).map (·.route) = y.map (·.route) := by
          rw [List.map_map]
          rfl
        rw [hroutes]
        rfl

theorem decodeAttributeValue_alike {a : Attribute} {e : AttributeEnvelope}
    (h : Carries b e.valueStart a.value) (hle : e.valueStart ≤ b.length)
    (hend : e.valueEnd = e.valueStart + a.value.length) (hcode : e.code = a.code) :
    Alike (fun x y => x = y.move e.valueStart)
      (decodeAttributeValue b e context sender limits).2
      (decodeAttributeValue a.value a.alone context sender limits).2 := by
  have hvalue : sliceOf b e.valueStart e.valueEnd = a.value := by
    rw [hend]
    exact h.sliceOf_eq
  have halone : sliceOf a.value 0 a.value.length = a.value := by
    rw [sliceOf, List.take_length, List.drop_zero]
  unfold decodeAttributeValue Attribute.alone
  dsimp only
  rw [hcode, hvalue, halone, hend, Nat.add_sub_cancel_left, Nat.sub_zero]
  generalize a.code.toNat = code
  have hword : 4 ≤ a.value.length → be32 b e.valueStart = be32 a.value 0 := fun hlength =>
    h.be32_inner (j := 0) (by omega)
  have hfixed : ∀ (field detail : String) (build : U32 → PathAttributes),
      Alike (fun x y => x = y.move e.valueStart)
        (decodeFixed a.value.length 4 e.valueStart field detail (build (be32 b e.valueStart)))
        (decodeFixed a.value.length 4 0 field detail (build (be32 a.value 0))) :=
    fun _ _ _ => decodeFixed_alike fun hlength => by rw [hword hlength.ge]
  split
  · -- ORIGIN
    have horigin : 1 ≤ a.value.length → byteAt b e.valueStart = byteAt a.value 0 := fun hlength =>
      h.byteAt_inner (j := 0) (by omega)
    by_cases hlength : a.value.length = 1
    · rw [horigin hlength.ge]
      apply alike_ite Iff.rfl
      · exact fun _ => alike_badAt ..
      · exact fun _ => alike_ok rfl
    · rw [if_pos (Or.inl hlength), if_pos (Or.inl hlength)]
      exact alike_badAt ..
  · exact decodeAsPath_alike
  · -- NEXT_HOP
    apply alike_ite Iff.rfl
    · exact fun _ => alike_badAt ..
    · intro hlength
      rw [hword (by omega)]
      apply Alike.bind (R := Eq)
      · unfold validateIpv4NextHop
        apply alike_ite Iff.rfl
        · exact fun _ => alike_badAt ..
        · exact fun _ => alike_ok rfl
      · exact fun _ _ _ => alike_ok rfl
  · exact hfixed _ _ fun v => { PathAttributes.default with med := some v }
  · exact hfixed _ _ fun v => { PathAttributes.default with localPreference := some v }
  · exact decodeFixed_alike fun _ => rfl
  · exact decodeAggregator_alike h
  · rw [Diagnosed.of_snd, Diagnosed.of_snd]
    exact decodeWords_alike h
  · exact hfixed _ _ fun v => { PathAttributes.default with originatorId := some v }
  · rw [Diagnosed.of_snd, Diagnosed.of_snd]
    exact decodeWords_alike h
  · exact decodeMultiprotocol_alike h hle
  · exact decodeMultiprotocol_alike h hle
  · exact decodeBlocks_alike
  · exact decodeAs4Path_alike
  · -- AS4_AGGREGATOR
    apply alike_ite Iff.rfl
    · exact fun _ => alike_badAt ..
    · intro hlength
      rw [hword (by omega), h.be32_inner (by omega), Nat.zero_add]
      apply alike_ite Iff.rfl
      · exact fun _ => alike_badAt ..
      · exact fun _ => alike_ok rfl
  · -- AIGP
    apply alike_ite Iff.rfl
    · exact fun _ => alike_badAt ..
    · intro _
      apply (checkAigp_alike h (Nat.zero_le _)).bind
      exact fun _ _ _ => alike_ok rfl
  · exact decodeBlocks_alike
  · exact decodeFixed_alike fun _ => rfl
  · exact alike_ok rfl

end Values

end PcapEvidence.Bgp.Wire
