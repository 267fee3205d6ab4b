import PcapEvidence.BerHeader

/-!
# The reader and the trees

The reader of one element accepts exactly the octets of the trees within its depth and element count
and reports the placed tree. A loop over children is a walk that starts every element where the one
before it stops; an end-of-contents pair cannot be mistaken for an element, since no element starts
with the octet zero.
-/

namespace PcapEvidence.Ber

/-- Elements that follow each other, read one by one. -/
inductive Walk (child : Reader) : ℕ → ℕ → List Element → ℕ → ℕ → Prop
  | nil (position count : ℕ) : Walk child position count [] position count
  | cons {position count count' count'' stop : ℕ} {e : Element} {rest : List Element} :
      child position count = .ok (e, count') → Walk child e.stop count' rest stop count'' →
        Walk child position count (e :: rest) stop count''

/-- Every element the reader accepts is not empty and ends at the ceiling or before it. -/
def Advances (child : Reader) (ceiling : ℕ) : Prop :=
  ∀ position count e count', child position count = .ok (e, count') →
    position < e.stop ∧ e.stop ≤ ceiling

section Loops

variable {count count' fuel position : ℕ} {es : List Element}
variable {child : Reader} {b : List U8} {ceiling stop : ℕ}

theorem Walk.le (hchild : Advances child ceiling)
    (h : Walk child position count es stop count') : position ≤ stop := by
  induction h with
  | nil position count => exact le_refl _
  | cons hone hrest ih => exact (hchild _ _ _ _ hone).1.le.trans ih

theorem definite_ok (hchild : Advances child stop) (hposition : position ≤ stop) (hfuel : stop ≤ position + fuel)
    (h : definite child stop fuel position count = .ok (es, count')) :
    Walk child position count es stop count' := by
  induction fuel generalizing position count es count' with
  | zero =>
    obtain ⟨rfl, rfl⟩ := Prod.mk.inj (Except.ok.inj h)
    obtain rfl : position = stop := by omega
    exact .nil _ _
  | succ fuel ih =>
    unfold definite at h
    by_cases hlt : position < stop
    · rw [if_pos hlt] at h
      obtain ⟨⟨e, count₁⟩, hone, h⟩ := bind_eq_ok.1 h
      obtain ⟨⟨rest, count₂⟩, hrest, h⟩ := bind_eq_ok.1 h
      obtain ⟨rfl, rfl⟩ := Prod.mk.inj (Except.ok.inj h)
      obtain ⟨hstart, hstop⟩ := hchild _ _ _ _ hone
      exact .cons hone (ih hstop (by omega) hrest)
    · rw [if_neg hlt] at h
      obtain ⟨rfl, rfl⟩ := Prod.mk.inj (Except.ok.inj h)
      obtain rfl : position = stop := by omega
      exact .nil _ _

theorem definite_of (hchild : Advances child stop)
    (h : Walk child position count es stop count') (hfuel : stop ≤ position + fuel) :
    definite child stop fuel position count = .ok (es, count') := by
  induction h generalizing fuel with
  | nil position count =>
    cases fuel with
    | zero => rfl
    | succ fuel => rw [definite, if_neg (lt_irrefl _)]
  | cons hone hrest ih =>
    obtain ⟨hstart, hstop⟩ := hchild _ _ _ _ hone
    cases fuel with
    | zero => omega
    | succ fuel =>
      rw [definite, if_pos (by omega), hone]
      exact bind_eq_ok.2 ⟨_, rfl, bind_eq_ok.2 ⟨_, ih hchild (by omega), rfl⟩⟩

theorem untilEoc_ok {contentEnd : ℕ} (h : untilEoc child b ceiling fuel position count =
      .ok (es, contentEnd, count')) :
    Walk child position count es contentEnd count' ∧ contentEnd + 2 ≤ ceiling ∧
      sliceOf b contentEnd (contentEnd + 2) = [0, 0] := by
  induction fuel generalizing position count es count' contentEnd with
  | zero => cases h
  | succ fuel ih =>
    unfold untilEoc at h
    split_ifs at h with hroom heoc
    · cases h
      exact ⟨.nil _ _, by omega, heoc⟩
    · obtain ⟨⟨e, count₁⟩, hone, h⟩ := bind_eq_ok.1 h
      obtain ⟨⟨rest, contentEnd₁, count₂⟩, hrest, h⟩ := bind_eq_ok.1 h
      cases h
      obtain ⟨hwalk, hend, hpair⟩ := ih hrest
      exact ⟨.cons hone hwalk, hend, hpair⟩

theorem untilEoc_of (hchild : Advances child ceiling)
    (heoc : ∀ position count e count', child position count = .ok (e, count') →
      byteAt b position ≠ 0)
    {contentEnd : ℕ}
    (h : Walk child position count es contentEnd count') (hend : contentEnd + 2 ≤ ceiling)
    (hpair : Carries b contentEnd [0, 0]) (hfuel : ceiling ≤ position + fuel) :
    untilEoc child b ceiling fuel position count = .ok (es, contentEnd, count') := by
  induction h generalizing fuel with
  | nil position count =>
    cases fuel with
    | zero => omega
    | succ fuel =>
      have heq : sliceOf b position (position + 2) = [0, 0] := hpair.sliceOf_eq
      rw [untilEoc, if_neg (by omega), if_pos heq]
  | @cons position count count₁ count₂ contentEnd e rest hone hrest ih =>
    obtain ⟨hstart, hstop⟩ := hchild _ _ _ _ hone
    have hle := hrest.le hchild
    cases fuel with
    | zero => omega
    | succ fuel =>
      have hother : sliceOf b position (position + 2) ≠ [0, 0] := by
        intro hzero
        have hcarries : Carries b position [0, 0] := hzero ▸ carries_sliceOf
        exact heoc _ _ _ _ hone (carries_cons.1 hcarries).2.1
      rw [untilEoc, if_neg (by omega), if_neg hother, hone]
      exact bind_eq_ok.2 ⟨_, rfl, bind_eq_ok.2 ⟨_, ih hend hpair (by omega), rfl⟩⟩

end Loops

section Trees

variable {depth ceiling start count count' : ℕ}
variable {b : List U8} {limits : Bgp.Limits}

/-- The octets at `start` are those of a tree within the depth and the element count. -/
structure Reads (b : List U8) (limits : Bgp.Limits) (depth ceiling start count : ℕ) (e : Element)
    (count' : ℕ) (n : Node) : Prop where
  fits : n.Fits
  deep : n.depth ≤ depth
  carries : Carries b start n.encode
  within : start + n.encode.length ≤ ceiling
  placed : e = n.place start
  counted : count' = count + n.size
  bounded : count' ≤ limits.elements

/-- The same for the octets of several trees. -/
structure ReadsAll (b : List U8) (limits : Bgp.Limits) (depth start count : ℕ) (es : List Element)
    (stop count' : ℕ) (ns : List Node) : Prop where
  fits : FitsAll ns
  deep : depthAll ns ≤ depth
  carries : Carries b start (encodeAll ns)
  ends : stop = start + (encodeAll ns).length
  placed : es = placeAll ns start
  counted : count' = count + sizeAll ns
  bounded : count' ≤ limits.elements

theorem Node.encode_pos (n : Node) : 0 < n.encode.length := by
  cases n with
  | primitive id form value =>
    have := id.octets_pos false
    simp only [encode, List.length_append]
    omega
  | definite id form children =>
    have := id.octets_pos true
    simp only [encode, List.length_append]
    omega
  | indefinite id children =>
    have := id.octets_pos true
    simp only [encode, List.length_append]
    omega

theorem Walk.reads {child : Reader}
    (hchild : ∀ start count e count', child start count = .ok (e, count') →
      ∃ n, Reads b limits depth ceiling start count e count' n)
    {stop : ℕ} {es : List Element} (h : Walk child start count es stop count')
    (hcount : count ≤ limits.elements) :
    ∃ ns, ReadsAll b limits depth start count es stop count' ns := by
  induction h with
  | nil position count =>
    exact ⟨[], trivial, Nat.zero_le _, carries_nil, rfl, rfl, rfl, hcount⟩
  | cons hone hrest ih =>
    obtain ⟨n, hn⟩ := hchild _ _ _ _ hone
    obtain ⟨ns, hns⟩ := ih hn.bounded
    have hstop := n.stop_place
    have hcarries := hns.carries
    have hends := hns.ends
    have hplaced := hns.placed
    rw [hn.placed, hstop] at hcarries hends hplaced
    refine ⟨n :: ns, ⟨hn.fits, hns.fits⟩, ?_, ?_, ?_, ?_, ?_, hns.bounded⟩
    · rw [depthAll]
      exact max_le hn.deep hns.deep
    · rw [encodeAll]
      exact carries_append.2 ⟨hn.carries, hcarries⟩
    · rw [hends, encodeAll, List.length_append]
      omega
    · rw [hn.placed, hplaced, placeAll]
    · have h₁ := hn.counted
      have h₂ := hns.counted
      rw [sizeAll]
      omega

theorem advances_of_reads {child : Reader}
    (hchild : ∀ start count e count', child start count = .ok (e, count') →
      ∃ n, Reads b limits depth ceiling start count e count' n) : Advances child ceiling := by
  intro start count e count' h
  obtain ⟨n, hn⟩ := hchild _ _ _ _ h
  have hpos := n.encode_pos
  have hwithin := hn.within
  rw [hn.placed, n.stop_place]
  omega

theorem header_octet (hc : ceiling ≤ b.length) {h : Header}
    (hh : header b start ceiling = .ok h) : byteAt b start ≠ 0 := by
  obtain ⟨id, l, -, -, -, hcarries, -, -⟩ := header_ok hc hh
  intro hzero
  rw [Identifier.octets, List.cons_append] at hcarries
  have hfirst := (carries_cons.1 hcarries).2.1
  have hnat := toNat_firstOctet id h.constructed
  rw [← hfirst, hzero] at hnat
  change 0 = _ at hnat
  refine id.proper ⟨BitVec.eq_of_toNat_eq (?_ : _ = 0), ?_⟩ <;> omega

theorem element_ok {e : Element} {child : ℕ → Reader}
    (hc : ceiling ≤ b.length) (hcount : count + 1 ≤ limits.elements)
    (hchild : ∀ stop ≤ b.length, ∀ start count e count', child stop start count = .ok (e, count') →
      ∃ n, Reads b limits depth stop start count e count' n)
    (h : element child b start ceiling (count + 1) = .ok (e, count')) :
    ∃ n, Reads b limits (depth + 1) ceiling start count e count' n := by
  obtain ⟨hd, hheader, h⟩ := bind_eq_ok.1 h
  obtain ⟨id, l, hcls, htag, hlength, hcarries, hvalue, hle⟩ := header_ok hc hheader
  by_cases hindefinite : hd.indefinite = true
  · rw [if_pos hindefinite] at h
    rw [Header.Length, if_pos hindefinite] at hlength
    obtain ⟨-, rfl⟩ := hlength
    cases hconstructed : hd.constructed with
    | false =>
      rw [hconstructed] at h
      cases h
    | true =>
      rw [hconstructed] at h hcarries hvalue
      obtain ⟨⟨es, contentEnd, count₁⟩, hloop, h⟩ := bind_eq_ok.1 h
      cases h
      obtain ⟨hwalk, hend, hpair⟩ := untilEoc_ok hloop
      obtain ⟨ns, hns⟩ := hwalk.reads (hchild ceiling hc) hcount
      have hzeros : Carries b contentEnd [0, 0] := hpair ▸ carries_sliceOf
      refine ⟨.indefinite id ns, hns.fits, ?_, ?_, ?_, ?_, ?_, hns.bounded⟩
      · rw [Node.depth]
        exact Nat.succ_le_succ hns.deep
      · rw [Node.encode]
        refine carries_append.2 ⟨hcarries, ?_⟩
        rw [← hvalue]
        refine carries_append.2 ⟨hns.carries, ?_⟩
        rw [← hns.ends]
        exact hzeros
      · have hends := hns.ends
        rw [Node.encode, List.length_append, ← Nat.add_assoc, ← hvalue, List.length_append]
        change hd.valueStart + ((encodeAll ns).length + 2) ≤ ceiling
        omega
      · rw [Node.place, ← hvalue, ← hns.ends, ← hns.placed, hcls, htag, hindefinite]
      · have hcounted := hns.counted
        rw [Node.size]
        omega
  · rw [if_neg hindefinite] at h
    rw [Header.Length, if_neg hindefinite] at hlength
    obtain ⟨form, hfits, rfl⟩ := hlength
    have hindefinite' : hd.indefinite = false := by simpa using hindefinite
    by_cases hroom : hd.valueStart + hd.length > ceiling
    · rw [if_pos hroom] at h
      cases h
    · rw [if_neg hroom] at h
      obtain ⟨⟨es, count₁⟩, hloop, h⟩ := bind_eq_ok.1 h
      cases h
      cases hconstructed : hd.constructed with
      | false =>
        rw [hconstructed] at hloop hcarries hvalue
        cases hloop
        have hlen : (sliceOf b hd.valueStart (hd.valueStart + hd.length)).length = hd.length := by
          rw [length_sliceOf]
          omega
        refine ⟨.primitive id form (sliceOf b hd.valueStart (hd.valueStart + hd.length)),
          ?_, ?_, ?_, ?_, ?_, ?_, hcount⟩
        · rw [Node.Fits, hlen]
          exact hfits
        · rw [Node.depth]
          omega
        · rw [Node.encode, hlen]
          refine carries_append.2 ⟨hcarries, ?_⟩
          rw [← hvalue]
          exact carries_sliceOf
        · rw [Node.encode, hlen, List.length_append, ← Nat.add_assoc, ← hvalue, hlen]
          omega
        · rw [Node.place, hlen, ← hvalue, hcls, htag, hindefinite']
        · rw [Node.size]
      | true =>
        rw [hconstructed] at hloop hcarries hvalue
        have hinner := hchild (hd.valueStart + hd.length) (by omega)
        have hwalk := definite_ok (advances_of_reads hinner) (Nat.le_add_right _ _) (by omega) hloop
        obtain ⟨ns, hns⟩ := hwalk.reads hinner hcount
        have hends := hns.ends
        have hlen : hd.length = (encodeAll ns).length := by omega
        rw [hlen] at hfits hcarries hvalue
        refine ⟨.definite id form ns, ⟨hfits, hns.fits⟩, ?_, ?_, ?_, ?_, ?_, hns.bounded⟩
        · rw [Node.depth]
          exact Nat.succ_le_succ hns.deep
        · rw [Node.encode]
          refine carries_append.2 ⟨hcarries, ?_⟩
          rw [← hvalue]
          exact hns.carries
        · rw [Node.encode, List.length_append, ← Nat.add_assoc, ← hvalue]
          omega
        · rw [Node.place, ← hvalue, ← hns.placed, ← hlen, hcls, htag, hindefinite']
        · have hcounted := hns.counted
          rw [Node.size]
          omega

theorem one_ok {e : Element} (hc : ceiling ≤ b.length)
    (h : one b limits depth ceiling start count = .ok (e, count')) :
    ∃ n, Reads b limits depth ceiling start count e count' n := by
  induction depth generalizing ceiling start count e count' with
  | zero => cases h
  | succ depth ih =>
    rw [one] at h
    split_ifs at h with hcount
    exact element_ok hc (by omega) (fun stop hstop _ _ _ _ => ih hstop) h

theorem walk_of {child : Reader}
    (hchild : ∀ (n : Node) start count, n.Fits → n.depth ≤ depth → Carries b start n.encode →
      start + n.encode.length ≤ ceiling → count + n.size ≤ limits.elements →
        child start count = .ok (n.place start, count + n.size))
    {ns : List Node} (hfits : FitsAll ns) (hdeep : depthAll ns ≤ depth)
    (hcarries : Carries b start (encodeAll ns)) (hwithin : start + (encodeAll ns).length ≤ ceiling)
    (hcount : count + sizeAll ns ≤ limits.elements) :
    Walk child start count (placeAll ns start) (start + (encodeAll ns).length) (count + sizeAll ns) := by
  induction ns generalizing start count with
  | nil => exact .nil _ _
  | cons n rest ih =>
    obtain ⟨hn, hrest⟩ := hfits
    rw [depthAll] at hdeep
    rw [encodeAll] at hcarries hwithin ⊢
    rw [sizeAll] at hcount ⊢
    obtain ⟨hfirst, hothers⟩ := carries_append.1 hcarries
    rw [List.length_append] at hwithin ⊢
    have hone := hchild n start count hn (le_trans (le_max_left _ _) hdeep) hfirst (by omega)
      (by omega)
    refine .cons hone ?_
    rw [n.stop_place, ← Nat.add_assoc, ← Nat.add_assoc]
    exact ih hrest (le_trans (le_max_right _ _) hdeep) hothers (by omega) (by omega)

theorem one_of {n : Node} (hc : ceiling ≤ b.length) (hfits : n.Fits)
    (hdeep : n.depth ≤ depth) (hcarries : Carries b start n.encode)
    (hwithin : start + n.encode.length ≤ ceiling) (hcount : count + n.size ≤ limits.elements) :
    one b limits depth ceiling start count = .ok (n.place start, count + n.size) := by
  induction depth generalizing ceiling start count n with
  | zero =>
    cases n <;> simp [Node.depth] at hdeep
  | succ depth ih =>
    have hsize := n.size_pos
    rw [one, if_neg (by omega)]
    -- the reader of the children, and that it moves on within its ceiling
    have hread (stop : ℕ) (hstop : stop ≤ b.length) (n : Node) (start count : ℕ) :=
      @ih stop start count n hstop
    have hmoves (stop : ℕ) (hstop : stop ≤ b.length) : Advances (one b limits depth stop) stop :=
      advances_of_reads fun _ _ _ _ => one_ok hstop
    cases n with
    | primitive id form value =>
      rw [Node.encode] at hcarries hwithin
      obtain ⟨hhead, -⟩ := carries_append.1 hcarries
      rw [List.length_append, ← Nat.add_assoc] at hwithin
      have hlength : Header.Length ⟨id.cls, id.tag, false, false, value.length, 0⟩
          (form.octets value.length) := by
        rw [Header.Length, if_neg Bool.false_ne_true]
        exact ⟨form, hfits, rfl⟩
      refine bind_eq_ok.2 ⟨_, header_of hlength hhead (by omega), ?_⟩
      dsimp only
      rw [if_neg Bool.false_ne_true, if_neg (by omega)]
      rfl
    | definite id form children =>
      rw [Node.encode] at hcarries hwithin
      obtain ⟨hhead, htail⟩ := carries_append.1 hcarries
      rw [List.length_append, ← Nat.add_assoc] at hwithin
      rw [Node.depth] at hdeep
      rw [Node.size] at hcount ⊢
      have hlength : Header.Length ⟨id.cls, id.tag, true, false, (encodeAll children).length, 0⟩
          (form.octets (encodeAll children).length) := by
        rw [Header.Length, if_neg Bool.false_ne_true]
        exact ⟨form, hfits.1, rfl⟩
      refine bind_eq_ok.2 ⟨_, header_of hlength hhead (by omega), ?_⟩
      dsimp only
      rw [if_neg Bool.false_ne_true, if_neg (by omega)]
      have hwalk := walk_of (hread _ (by omega)) hfits.2 (Nat.le_of_succ_le_succ hdeep) htail
        le_rfl (by omega : count + 1 + sizeAll children ≤ limits.elements)
      refine bind_eq_ok.2 ⟨_, definite_of (hmoves _ (by omega)) hwalk (by omega), ?_⟩
      rw [Node.place, show count + 1 + sizeAll children = count + (sizeAll children + 1) by omega]
    | indefinite id children =>
      rw [Node.encode] at hcarries hwithin
      obtain ⟨hhead, htail⟩ := carries_append.1 hcarries
      obtain ⟨hchildren, hzeros⟩ := carries_append.1 htail
      rw [List.length_append, ← Nat.add_assoc, @List.length_append _ (encodeAll children)] at hwithin
      have htwo : ([0, 0] : List U8).length = 2 := rfl
      rw [Node.depth] at hdeep
      rw [Node.size] at hcount ⊢
      have hlength : Header.Length ⟨id.cls, id.tag, true, true, 0, 0⟩ [128] := by
        rw [Header.Length, if_pos rfl]
        exact ⟨rfl, rfl⟩
      refine bind_eq_ok.2 ⟨_, header_of hlength hhead (by omega), ?_⟩
      dsimp only
      rw [if_pos rfl]
      have hwalk := walk_of (hread ceiling hc) hfits (Nat.le_of_succ_le_succ hdeep) hchildren
        (by omega) (by omega : count + 1 + sizeAll children ≤ limits.elements)
      have hoctet (position count : ℕ) (e : Element) (count' : ℕ)
          (h : one b limits depth ceiling position count = .ok (e, count')) :
          byteAt b position ≠ 0 := by
        cases depth with
        | zero => cases h
        | succ depth =>
          rw [one] at h
          split_ifs at h
          obtain ⟨hd, hheader, -⟩ := bind_eq_ok.1 h
          exact header_octet hc hheader
      refine bind_eq_ok.2 ⟨_, untilEoc_of (hmoves _ hc) hoctet hwalk (by omega) hzeros (by omega), ?_⟩
      rw [Node.place, show count + 1 + sizeAll children = count + (sizeAll children + 1) by omega]

/-- The reader accepts exactly the encodings of the forests within its limits, in place. -/
theorem parse_ok_iff {es : List Element} : parse b limits = .ok es ↔
    limits.validate = .ok () ∧ b.length ≤ limits.inputBytes ∧ ∃ ns, FitsAll ns ∧
      depthAll ns ≤ limits.depth ∧ sizeAll ns ≤ limits.elements ∧ encodeAll ns = b ∧
      es = placeAll ns 0 := by
  have hmoves : Advances (one b limits limits.depth b.length) b.length :=
    advances_of_reads fun _ _ _ _ => one_ok le_rfl
  constructor
  · intro h
    obtain ⟨_, hvalid, h⟩ := bind_eq_ok.1 h
    split_ifs at h with hinput
    obtain ⟨⟨es', count⟩, hloop, h⟩ := bind_eq_ok.1 h
    cases h
    have hwalk := definite_ok hmoves (Nat.zero_le _) (by omega) hloop
    obtain ⟨ns, hns⟩ := hwalk.reads (fun _ _ _ _ => one_ok le_rfl) (Nat.zero_le _)
    have hends := hns.ends
    have hcounted := hns.counted
    have hbounded := hns.bounded
    refine ⟨hvalid, by omega, ns, hns.fits, hns.deep, by omega, ?_, hns.placed⟩
    exact (hns.carries.eq_drop (by omega)).symm
  · rintro ⟨hvalid, hinput, ns, hfits, hdeep, hsize, rfl, rfl⟩
    have hone (n : Node) (start count : ℕ) := @one_of limits.depth
      (encodeAll ns).length start count (encodeAll ns) limits n le_rfl
    have hwalk := walk_of hone hfits hdeep (carries_self _) (Nat.le_of_eq (Nat.zero_add _))
      (by omega : 0 + sizeAll ns ≤ limits.elements)
    rw [Nat.zero_add] at hwalk
    refine bind_eq_ok.2 ⟨(), hvalid, ?_⟩
    rw [if_neg (by omega)]
    exact bind_eq_ok.2 ⟨_, definite_of hmoves hwalk (by omega), rfl⟩

end Trees

end PcapEvidence.Ber
