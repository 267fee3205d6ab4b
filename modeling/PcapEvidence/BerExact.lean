import PcapEvidence.BerRoundTrip

/-!
# The reader accepts exactly BER

What a reader reports covers its input: the elements of a forest follow each other without a gap,
children fill the content of their parent, and an indefinite content is followed by one
end-of-contents pair. Object identifiers are read from their only encoding.
-/

namespace PcapEvidence.Ber

open Septets

/-- The elements follow each other from `lo` to `hi`. -/
def Tiling : ℕ → List Element → ℕ → Prop
  | lo, [], hi => lo = hi
  | lo, e :: rest, hi => e.header.1 = lo ∧ lo < e.stop ∧ Tiling e.stop rest hi

/-- An element and everything below it is where the octets say. -/
inductive Formed (b : List U8) : Element → Prop
  | intro {e : Element} (proper : ¬ (e.cls = 0 ∧ e.tag = 0))
      (behind : e.header.1 < e.header.2 ∧ e.header.2 = e.content.1 ∧ e.content.1 ≤ e.content.2)
      (primitive : e.constructed = false → e.indefinite = false ∧ e.children = [])
      (tiles : e.constructed = true → Tiling e.content.1 e.children e.content.2)
      (definite : e.indefinite = false → e.stop = e.content.2)
      (indefinite : e.indefinite = true →
        e.stop = e.content.2 + 2 ∧ sliceOf b e.content.2 e.stop = [0, 0])
      (inside : ∀ c ∈ e.children, e.content.1 ≤ c.header.1 ∧ c.stop ≤ e.content.2)
      (children : ∀ c ∈ e.children, Formed b c) : Formed b e

section Placed

variable {b : List U8}

theorem Node.start_place (n : Node) (start : ℕ) : (n.place start).header.1 = start := by
  cases n <;> rfl

theorem tiling_placeAll (ns : List Node) (start : ℕ) :
    Tiling start (placeAll ns start) (start + (encodeAll ns).length) := by
  induction ns generalizing start with
  | nil => rfl
  | cons n rest ih =>
    have hpos := n.encode_pos
    rw [placeAll, encodeAll, List.length_append, ← Nat.add_assoc]
    refine ⟨n.start_place start, ?_, ?_⟩
    · rw [n.stop_place]
      omega
    · rw [n.stop_place]
      exact ih _

theorem placeAll_inside {ns : List Node} {start : ℕ} {e : Element} (h : e ∈ placeAll ns start) :
    start ≤ e.header.1 ∧ e.stop ≤ start + (encodeAll ns).length := by
  induction ns generalizing start with
  | nil => simp [placeAll] at h
  | cons n rest ih =>
    rw [placeAll, List.mem_cons] at h
    rw [encodeAll, List.length_append]
    rcases h with rfl | h
    · rw [n.start_place, n.stop_place]
      omega
    · have := ih h
      omega

mutual

theorem Node.formed_place : ∀ (n : Node) (start : ℕ), Carries b start n.encode →
    Formed b (n.place start)
  | .primitive id form value, start, _ => by
    have hpos := id.octets_pos false
    refine .intro id.proper ?_ (fun _ => ⟨rfl, rfl⟩) (fun h => by cases h) (fun _ => rfl)
      (fun h => by cases h) (fun c hc => by cases hc) (fun c hc => by cases hc)
    simp only [Node.place, List.length_append, true_and]
    omega
  | .definite id form children, start, h => by
    have hpos := id.octets_pos true
    rw [Node.encode] at h
    obtain ⟨-, hchildren⟩ := carries_append.1 h
    refine .intro id.proper ?_ (fun h => by cases h) (fun _ => tiling_placeAll _ _) (fun _ => rfl)
      (fun h => by cases h) (fun c hc => placeAll_inside hc) (formed_placeAll children _ hchildren)
    simp only [Node.place, List.length_append, true_and]
    omega
  | .indefinite id children, start, h => by
    have hpos := id.octets_pos true
    rw [Node.encode] at h
    obtain ⟨-, htail⟩ := carries_append.1 h
    obtain ⟨hchildren, hzeros⟩ := carries_append.1 htail
    refine .intro id.proper ?_ (fun h => by cases h) (fun _ => tiling_placeAll _ _)
      (fun h => by cases h) (fun _ => ⟨rfl, hzeros.sliceOf_eq⟩) (fun c hc => placeAll_inside hc)
      (formed_placeAll children _ hchildren)
    simp only [Node.place, List.length_append, true_and]
    omega

theorem formed_placeAll : ∀ (ns : List Node) (start : ℕ), Carries b start (encodeAll ns) →
    ∀ e ∈ placeAll ns start, Formed b e
  | [], _, _, _, he => by simp [placeAll] at he
  | n :: rest, start, h, e, he => by
    rw [encodeAll] at h
    obtain ⟨hfirst, hrest⟩ := carries_append.1 h
    rw [placeAll, List.mem_cons] at he
    rcases he with rfl | he
    · exact n.formed_place start hfirst
    · exact formed_placeAll rest _ hrest e he

end

end Placed

theorem subidentifiers_ok {b : List U8} {values out : List ℕ} {value count : ℕ}
    (hcount : count ≠ 0 → value ≠ 0) (hzero : count = 0 → value = 0)
    (h : subidentifiers b values value count = .ok out) :
    ∃ subs, out = values ++ subs ∧ leading value ++ b = subs.flatMap octets ∧
      ∀ s ∈ subs, s < 2 ^ 64 := by
  induction b generalizing values value count with
  | nil =>
    rw [subidentifiers] at h
    split_ifs at h with hrest
    cases h
    have hv := hzero (not_not.1 hrest)
    subst hv
    exact ⟨[], by simp, rfl, by simp⟩
  | cons v rest ih =>
    simp only [subidentifiers] at h
    split_ifs at h with hfirst hlimit hlast
    · -- the last octet of a subidentifier
      have hgroup : leading value ++ [v] = octets (value * 2 ^ 7 + (v &&& 127).toNat) := by
        rw [read_group, if_pos hlast]
        by_cases hc : count = 0
        · exact .inr fun h128 => hfirst ⟨hc, h128⟩
        · exact .inl (hcount hc)
      obtain ⟨subs, hout, hoctets, hlt⟩ := ih (by simp) (by simp) h
      refine ⟨(value * 2 ^ 7 + (v &&& 127).toNat) :: subs, ?_, ?_, ?_⟩
      · rw [hout, List.append_assoc, List.singleton_append]
      · rw [List.flatMap_cons, ← hoctets, ← hgroup]
        simp
      · have hmod := Nat.mod_lt v.toNat (show 0 < 128 by norm_num)
        intro s hs
        rcases List.mem_cons.1 hs with rfl | hs
        · rw [toNat_and_127]
          omega
        · exact hlt s hs
    · have hne : value ≠ 0 ∨ v ≠ 128 := by
        by_cases hc : count = 0
        · exact .inr fun h128 => hfirst ⟨hc, h128⟩
        · exact .inl (hcount hc)
      have hgroup := read_group hne
      rw [if_neg hlast] at hgroup
      have hstays : value * 2 ^ 7 + (v &&& 127).toNat ≠ 0 := by
        have hhigh : ¬ v.toNat < 128 := fun hlow => hlast ((and_128_eq_zero_iff v).2 hlow)
        have hv := v.isLt
        rw [toNat_and_127]
        rcases hne with hne | hne
        · omega
        · have : v.toNat ≠ 128 := fun h128 => hne (BitVec.eq_of_toNat_eq h128)
          omega
      obtain ⟨subs, hout, hoctets, hlt⟩ := ih (fun _ => hstays) (by simp) h
      exact ⟨subs, hout, by rw [List.append_cons, hgroup, hoctets], hlt⟩

theorem subidentifiers_leading {w : ℕ} (hw : w < 2 ^ 64) (rest : List U8) (values : List ℕ) :
    subidentifiers (leading w ++ rest) values 0 0 =
      subidentifiers rest values w (leading w).length := by
  induction w using groups_induction generalizing rest with
  | zero => rfl
  | step w d hd hpos ih =>
    obtain ⟨hcontinues, hvalue⟩ := continuing_octet hd
    have hcount : (leading w).length ≤ 9 := length_leading_le (by norm_num; omega)
    rw [leading_step hd hpos, List.append_assoc, ih (by omega), List.singleton_append,
      List.length_append, List.length_singleton]
    have hnonempty : ¬ ((leading w).length = 0 ∧ BitVec.ofNat 8 (128 + d) = 128) := by
      rintro ⟨hlen, h128⟩
      have hd0 : d = 0 := by
        rw [← hvalue, h128]
        rfl
      exact hpos.elim (fun hw0 => hw0 (length_leading_eq_zero.1 hlen)) fun hd1 => hd1 hd0
    simp only [subidentifiers]
    rw [if_neg hnonempty, if_neg (by omega), if_neg hcontinues, hvalue]
    rfl

theorem subidentifiers_octets {s : ℕ} (hs : s < 2 ^ 64) (rest : List U8) (values : List ℕ) :
    subidentifiers (octets s ++ rest) values 0 0 = subidentifiers rest (values ++ [s]) 0 0 := by
  obtain ⟨hlast, hvalue⟩ := last_octet (Nat.mod_lt s (show 0 < 128 by norm_num))
  have hcount : (leading (s / 128)).length ≤ 9 := length_leading_le (by norm_num; omega)
  have htotal : s / 128 * 2 ^ 7 + s % 128 = s := by omega
  have hnonempty : ¬ ((leading (s / 128)).length = 0 ∧ BitVec.ofNat 8 (s % 128) = 128) := by
    rintro ⟨-, h128⟩
    rw [h128] at hlast
    exact absurd hlast (by decide)
  rw [octets, List.append_assoc, subidentifiers_leading (by omega), List.singleton_append]
  simp only [subidentifiers]
  rw [if_neg hnonempty, if_neg (by omega), if_pos hlast, hvalue, htotal]

theorem subidentifiers_flatMap {subs : List ℕ} (hsubs : ∀ s ∈ subs, s < 2 ^ 64) (values : List ℕ) :
    subidentifiers (subs.flatMap octets) values 0 0 = .ok (values ++ subs) := by
  induction subs generalizing values with
  | nil => rw [List.flatMap_nil, subidentifiers, if_neg (by simp), List.append_nil]
  | cons s rest ih =>
    rw [List.flatMap_cons, subidentifiers_octets (hsubs s (by simp)),
      ih fun t ht => hsubs t (by simp [ht]), List.append_assoc, List.singleton_append]

theorem firstArc_spec (first : ℕ) : firstArc first ≤ 2 ∧
    (firstArc first < 2 → first - 40 * firstArc first < 40) ∧
    40 * firstArc first + (first - 40 * firstArc first) = first := by
  unfold firstArc
  split_ifs <;> omega

theorem oid_ok {b : List U8} {o : List ℕ} (h : oid b = .ok o) :
    ValidArcs o ∧ encodeOid o = b ∧ ∀ s ∈ subsOf o, s < 2 ^ 64 := by
  unfold oid at h
  split_ifs at h with hsize
  obtain ⟨values, hvalues, h⟩ := bind_eq_ok.1 h
  obtain ⟨subs, hout, hoctets, hlt⟩ := subidentifiers_ok (by simp) (by simp) hvalues
  rw [List.nil_append] at hout
  subst hout
  rw [leading_zero, List.nil_append] at hoctets
  cases values with
  | nil =>
    rw [List.flatMap_nil] at hoctets
    exact absurd (.inl hoctets) hsize
  | cons first rest =>
    cases h
    change ValidArcs (firstArc first :: (first - 40 * firstArc first) :: rest) ∧ _
    have hsubs : subsOf (firstArc first :: (first - 40 * firstArc first) :: rest) = first :: rest := by
      rw [subsOf, (firstArc_spec first).2.2]
    rw [List.headD_cons, List.tail_cons, encodeOid, hsubs]
    exact ⟨⟨(firstArc_spec first).1, (firstArc_spec first).2.1⟩, hoctets.symm, hlt⟩

theorem oid_encodeOid {arcs : List ℕ} (harcs : ValidArcs arcs) (hsize : (encodeOid arcs).length ≤ 128)
    (hlt : ∀ s ∈ subsOf arcs, s < 2 ^ 64) : oid (encodeOid arcs) = .ok arcs := by
  match arcs, harcs with
  | a :: x :: rest, ⟨ha, hx⟩ =>
    have hne : encodeOid (a :: x :: rest) ≠ [] := by
      simp [encodeOid, subsOf, octets]
    rw [oid, if_neg (by rintro (h | h); exacts [hne h, by omega]), encodeOid,
      subidentifiers_flatMap hlt, List.nil_append]
    change Except.ok _ = _
    have hfirst : firstArc (40 * a + x) = a := by
      unfold firstArc
      split_ifs <;> omega
    simp only [subsOf, List.headD_cons, List.tail_cons, hfirst, Nat.add_sub_cancel_left]

/-- What is accepted is the encoding of a forest, every forest within the limits is read back in
place, and object identifiers and their encodings determine each other. -/
theorem reader_exact (b : List U8) (limits : Bgp.Limits) :
    (∀ es, parse b limits = .ok es → Tiling 0 es b.length ∧ (∀ e ∈ es, Formed b e) ∧
      ∃ ns, FitsAll ns ∧ encodeAll ns = b ∧ es = placeAll ns 0) ∧
    (∀ ns, limits.validate = .ok () → FitsAll ns → depthAll ns ≤ limits.depth →
      sizeAll ns ≤ limits.elements → (encodeAll ns).length ≤ limits.inputBytes →
        parse (encodeAll ns) limits = .ok (placeAll ns 0)) ∧
    (∀ c arcs, oid b = .ok arcs → oid c = .ok arcs → b = c) ∧
    ∀ arcs, ValidArcs arcs → (encodeOid arcs).length ≤ 128 → (∀ s ∈ subsOf arcs, s < 2 ^ 64) →
      oid (encodeOid arcs) = .ok arcs := by
  refine ⟨?_, ?_, ?_, ?_⟩
  · intro es h
    obtain ⟨-, -, ns, hfits, -, -, hb, hes⟩ := parse_ok_iff.1 h
    subst hb hes
    have htiles := tiling_placeAll ns 0
    rw [Nat.zero_add] at htiles
    exact ⟨htiles, formed_placeAll ns 0 (carries_self _), ns, hfits, rfl, rfl⟩
  · intro ns hvalid hfits hdeep hsize hinput
    exact parse_ok_iff.2 ⟨hvalid, hinput, ns, hfits, hdeep, hsize, rfl, rfl⟩
  · intro c arcs hb hc
    rw [← (oid_ok hb).2.1, ← (oid_ok hc).2.1]
  · exact fun arcs harcs hsize hlt => oid_encodeOid harcs hsize hlt

def sampleInteger : Node := .primitive ⟨0, 2, by decide, by decide, by decide⟩ .short [5]

/-- A sequence of indefinite length and a context element with a long length. -/
def sampleForest : List Node :=
  [.indefinite ⟨0, 16, by decide, by decide, by decide⟩ [sampleInteger],
    .definite ⟨2, 1, by decide, by decide, by decide⟩ (.long 2) [sampleInteger]]

def sampleOctets : List U8 := [0x30, 0x80, 2, 1, 5, 0, 0, 0xa1, 0x82, 0, 3, 2, 1, 5]

theorem reader_exact_sample : parse sampleOctets .default = .ok (placeAll sampleForest 0) ∧
    (∃ es, parse sampleOctets .default = .ok es ∧ Tiling 0 es 14 ∧ ∀ e ∈ es, Formed sampleOctets e) ∧
    (∀ c, oid c = .ok [1, 2, 840] → [0x2a, 0x86, 0x48] = c) ∧
    oid (encodeOid [1, 2, 3]) = .ok [1, 2, 3] := by
  have hoctets : encodeAll sampleForest = sampleOctets := rfl
  have hparse : parse (encodeAll sampleForest) .default = .ok (placeAll sampleForest 0) :=
    (reader_exact [] .default).2.1 sampleForest rfl
      ⟨show 1 < 128 ∧ True by decide, ⟨show 1 ≤ 2 ∧ 2 ≤ 8 ∧ 3 < 256 ^ 2 by decide,
        show 1 < 128 ∧ True by decide⟩, trivial⟩ (by decide) (by decide) (by decide)
  rw [hoctets] at hparse
  obtain ⟨htiles, hformed, -⟩ := (reader_exact sampleOctets .default).1 _ hparse
  have hoid : oid [0x2a, 0x86, 0x48] = .ok [1, 2, 840] := rfl
  have hsubs : encodeOid [1, 2, 3] = [0x2a, 3] := by
    rw [encodeOid, subsOf, List.flatMap_cons, List.flatMap_cons, List.flatMap_nil,
      octets_of_lt (by decide), octets_of_lt (by decide)]
    rfl
  exact ⟨hparse, ⟨_, hparse, htiles, hformed⟩, fun c => (reader_exact _ .default).2.2.1 c _ hoid,
    (reader_exact [] .default).2.2.2 _ ⟨by decide, by decide⟩ (by rw [hsubs]; decide) (by decide)⟩

/-- An arc beyond 64 bits has an encoding that is not read. -/
theorem oid_wide_arc : ¬ ∀ arcs, ValidArcs arcs → oid (encodeOid arcs) = .ok arcs := by
  intro h
  have hlt := (oid_ok (h [2, 2 ^ 64] ⟨by decide, by decide⟩)).2.2 (40 * 2 + 2 ^ 64)
    (List.mem_singleton_self _)
  omega

end PcapEvidence.Ber
