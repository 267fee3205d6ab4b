import PcapEvidence.BgpAttributeList

/-!
# The order of the attributes

The summary of distinct attributes depends on their order in no field but the next hop, which the
second of NEXT_HOP and MP_REACH_NLRI clears when it is taken up itself. The occurrences only differ
in the mark of that second one.
-/

namespace PcapEvidence.Bgp.Wire

open FiniteMap History Mrt

namespace Attribute

section Order

variable {context : LayoutContext} {relationship : PeerRelationship} {sender : U8}
  {limits : Bgp.Limits} {l l' : List Attribute}

theorem core_range (a : Attribute) (codes codes' : List U8) :
    (a.range context relationship sender limits codes).core =
      (a.range context relationship sender limits codes').core := rfl

theorem core_ranges (l : List Attribute) :
    (ranges context relationship sender limits l).map AttributeRange.core =
      l.map fun a => (a.range context relationship sender limits []).core := by
  induction l using List.reverseRecOn with
  | nil => rfl
  | append_singleton l a ih =>
    rw [ranges_snoc, List.map_append, ih, List.map_append, List.map_singleton, core_range a _ []]
    rfl

theorem field_filter {β : Type} (π : PathAttributes → β) (q : U8 → Bool)
    (hother : ∀ a ∈ l, q a.code = false → ∀ s codes,
      π (mergeAttribute s (a.item context sender limits).attributes a.code codes).1 = π s)
    (hown : ∀ a ∈ l, q a.code = true → ∀ s s' codes codes', π s = π s' →
      codes.filter q = codes'.filter q →
      π (mergeAttribute s (a.item context sender limits).attributes a.code codes).1 =
        π (mergeAttribute s' (a.item context sender limits).attributes a.code codes').1)
    {s s' : PathAttributes × List U8} (hs : π s.1 = π s'.1) (hcodes : s.2.filter q = s'.2.filter q) :
    π (l.foldl (fun s a => a.summarize context relationship sender limits s) s).1 =
      π ((l.filter (q ·.code)).foldl (fun s a => a.summarize context relationship sender limits s)
        s').1 := by
  induction l generalizing s s' with
  | nil => exact hs
  | cons a l ih =>
    have hother' := fun x hx => hother x (List.mem_cons_of_mem _ hx)
    have hown' := fun x hx => hown x (List.mem_cons_of_mem _ hx)
    have hmore : (s.2 ++ [a.code]).filter q = (s'.2 ++ [a.code]).filter q := by
      rw [List.filter_append, List.filter_append, hcodes]
    cases hq : q a.code with
    | false =>
      rw [List.filter_cons_of_neg (by rw [hq]; simp), List.foldl_cons]
      apply ih hother' hown'
      · unfold summarize
        dsimp only
        split
        · rw [hother a (by simp) hq, hs]
        · exact hs
      · unfold summarize
        dsimp only
        rw [List.filter_append, List.filter_singleton, hq, hcodes]
        exact List.append_nil _
    | true =>
      rw [List.filter_cons_of_pos (by exact hq), List.foldl_cons, List.foldl_cons]
      apply ih hother' hown'
      · unfold summarize
        dsimp only
        split
        · exact hown a (by simp) hq _ _ _ _ hs hmore
        · exact hs
      · exact hmore

theorem filter_code_eq (k : U8) (hperm : l.Perm l') (hcodes : (l.map (·.code)).Nodup) :
    l.filter (·.code = k) = l'.filter (·.code = k) := by
  have hfilter := hperm.filter (fun a => a.code = k)
  have hsub : ((l.filter (·.code = k)).map (·.code)).Nodup :=
    hcodes.sublist (List.filter_sublist.map _)
  have hall : ∀ a ∈ l.filter (·.code = k), a.code = k := fun a ha =>
    of_decide_eq_true (List.mem_filter.1 ha).2
  generalize l.filter (·.code = k) = x at hfilter hsub hall ⊢
  match x with
  | [] => exact hfilter.nil_eq
  | [a] => exact List.singleton_perm.1 hfilter
  | a :: c :: rest =>
    simp only [List.map_cons, List.nodup_cons, List.mem_cons] at hsub
    exact absurd (Or.inl ((hall a (by simp)).trans (hall c (by simp)).symm)) hsub.1

theorem field_perm {β : Type} (π : PathAttributes → β) (k : U8)
    (hother : ∀ a ∈ l, a.code ≠ k → ∀ s codes,
      π (mergeAttribute s (a.item context sender limits).attributes a.code codes).1 = π s)
    (hown : ∀ (x : PathAttributes) s s' codes codes', π s = π s' →
      π (mergeAttribute s x k codes).1 = π (mergeAttribute s' x k codes').1)
    (hperm : l.Perm l') (hcodes : (l.map (·.code)).Nodup) :
    π (summary context relationship sender limits l).1 =
      π (summary context relationship sender limits l').1 := by
  have hfilter : ∀ x : List Attribute, (∀ a ∈ x, a ∈ l) →
      π (summary context relationship sender limits x).1 =
        π (summary context relationship sender limits (x.filter (·.code = k))).1 := by
    intro x hx
    apply field_filter π (fun code => code = k)
    · intro a ha hk
      exact hother a (hx a ha) (of_decide_eq_false hk)
    · intro a ha hk s s' codes codes' hs _
      rw [of_decide_eq_true hk]
      exact hown _ _ _ _ _ hs
    · rfl
    · rfl
  rw [hfilter l fun _ ha => ha, hfilter l' fun _ ha => hperm.mem_iff.2 ha,
    filter_code_eq k hperm hcodes]

theorem item_nextHop {a : Attribute} (h : a.code.toNat = 3) :
    a.item context sender limits = ⟨.default, .invalidRetainedByHash, .none⟩ ∨
      a.item context sender limits = .plain { PathAttributes.default with
        nextHop := some (.ipv4 (be32 a.value 0)) } := by
  unfold item
  cases hdecoded : a.decoded context sender limits with
  | error e => exact Or.inl rfl
  | ok item =>
    right
    unfold decoded decodeAttributeValue alone at hdecoded
    dsimp only at hdecoded
    rw [h] at hdecoded
    obtain ⟨-, hdecoded⟩ := guard_eq_ok.1 hdecoded
    obtain ⟨_, -, hdecoded⟩ := bind_eq_ok.1 hdecoded
    cases hdecoded
    rfl

theorem mergeAttribute_fields (s x : PathAttributes) (code : U8) (codes : List U8) :
    (mergeAttribute s x code codes).1 = {
      origin := if code.toNat = 1 then x.origin else s.origin
      asPath := if code.toNat = 2 then x.asPath else s.asPath
      nextHop := if code.toNat = 3 ∨ code.toNat = 14 then
        (if codes.contains 3 && codes.contains 14 then none else x.nextHop) else s.nextHop
      med := if code.toNat = 4 then x.med else s.med
      localPreference := if code.toNat = 5 then x.localPreference else s.localPreference
      aggregator := if code.toNat = 7 then x.aggregator else s.aggregator
      communities := if code.toNat = 8 then x.communities else s.communities
      originatorId := if code.toNat = 9 then x.originatorId else s.originatorId
      clusterList := if code.toNat = 10 then x.clusterList else s.clusterList
      mpReach := if code.toNat = 3 ∨ code.toNat = 14 then s.mpReach ++ x.mpReach else s.mpReach
      mpUnreach := if code.toNat = 15 then s.mpUnreach ++ x.mpUnreach else s.mpUnreach } := by
  unfold mergeAttribute
  dsimp only
  split <;> simp_all

theorem summary_perm (hperm : l.Perm l') (hcodes : (l.map (·.code)).Nodup) :
    { (summary context relationship sender limits l).1 with nextHop := none } =
      { (summary context relationship sender limits l').1 with nextHop := none } := by
  have hfield : ∀ {β : Type} (π : PathAttributes → β) (k : U8),
      (∀ a ∈ l, a.code.toNat ≠ k.toNat → ∀ s codes,
        π (mergeAttribute s (a.item context sender limits).attributes a.code codes).1 = π s) →
      (∀ (x : PathAttributes) s s' codes codes', π s = π s' →
        π (mergeAttribute s x k codes).1 = π (mergeAttribute s' x k codes').1) →
      π (summary context relationship sender limits l).1 =
        π (summary context relationship sender limits l').1 := fun π k hother hown =>
    field_perm π k (fun a ha hk => hother a ha fun h => hk (BitVec.eq_of_toNat_eq h)) hown hperm
      hcodes
  have hplain : ∀ {β : Type} (π : PathAttributes → β) (k : U8),
      (∀ s x code codes, π (mergeAttribute s x code codes).1 =
        if code.toNat = k.toNat then π x else π s) →
      π (summary context relationship sender limits l).1 =
        π (summary context relationship sender limits l').1 := by
    intro β π k hmerge
    apply hfield π k
    · intro a _ hk s codes
      rw [hmerge, if_neg hk]
    · intro x s s' codes codes' _
      rw [hmerge, hmerge, if_pos rfl, if_pos rfl]
  have hmpReach := hfield PathAttributes.mpReach 14
    (by
      intro a _ hk s codes
      rw [mergeAttribute_fields]
      dsimp only
      split
      · obtain hcode | hcode := ‹_ ∨ _›
        · obtain hitem | hitem := item_nextHop hcode <;> rw [hitem] <;> exact List.append_nil _
        · exact absurd hcode hk
      · rfl)
    (fun x s s' codes codes' hs => congrArg (· ++ x.mpReach) hs)
  have hmpUnreach := hfield PathAttributes.mpUnreach 15
    (by
      intro a _ hk s codes
      rw [mergeAttribute_fields]
      exact if_neg hk)
    (fun x s s' codes codes' hs => congrArg (· ++ x.mpUnreach) hs)
  rw [PathAttributes.mk.injEq]
  refine ⟨?_, ?_, rfl, ?_, ?_, ?_, ?_, ?_, ?_, hmpReach, hmpUnreach⟩
  · exact hplain PathAttributes.origin 1 fun s x code codes => by rw [mergeAttribute_fields]; rfl
  · exact hplain PathAttributes.asPath 2 fun s x code codes => by rw [mergeAttribute_fields]; rfl
  · exact hplain PathAttributes.med 4 fun s x code codes => by rw [mergeAttribute_fields]; rfl
  · exact hplain PathAttributes.localPreference 5 fun s x code codes => by
      rw [mergeAttribute_fields]; rfl
  · exact hplain PathAttributes.aggregator 7 fun s x code codes => by rw [mergeAttribute_fields]; rfl
  · exact hplain PathAttributes.communities 8 fun s x code codes => by
      rw [mergeAttribute_fields]; rfl
  · exact hplain PathAttributes.originatorId 9 fun s x code codes => by
      rw [mergeAttribute_fields]; rfl
  · exact hplain PathAttributes.clusterList 10 fun s x code codes => by
      rw [mergeAttribute_fields]; rfl

end Order

section NextHop

variable {context : LayoutContext} {relationship : PeerRelationship} {sender : U8}
  {limits : Bgp.Limits} {l l' : List Attribute}

def carriesHop (code : U8) : Bool := code = 3 || code = 14

theorem carriesHop_iff {code : U8} : carriesHop code = true ↔ code.toNat = 3 ∨ code.toNat = 14 := by
  unfold carriesHop
  rw [Bool.or_eq_true, decide_eq_true_eq, decide_eq_true_eq]
  constructor
  · rintro (rfl | rfl)
    · exact Or.inl rfl
    · exact Or.inr rfl
  · rintro (h | h)
    · exact Or.inl (BitVec.eq_of_toNat_eq h)
    · exact Or.inr (BitVec.eq_of_toNat_eq h)

theorem contains_filter_carriesHop {code : U8} (h : carriesHop code = true) (codes : List U8) :
    (codes.filter carriesHop).contains code = codes.contains code := by
  rw [Bool.eq_iff_iff, List.contains_iff_mem, List.contains_iff_mem, List.mem_filter]
  exact and_iff_left h

theorem nextHop_filter (l : List Attribute) :
    (summary context relationship sender limits l).1.nextHop =
      (summary context relationship sender limits (l.filter (carriesHop ·.code))).1.nextHop := by
  apply field_filter PathAttributes.nextHop carriesHop
  · intro a _ hcode s codes
    rw [mergeAttribute_fields]
    exact if_neg fun h => by simp [carriesHop_iff.2 h] at hcode
  · intro a _ hcode s s' codes codes' _ hcodes
    rw [mergeAttribute_fields, mergeAttribute_fields]
    dsimp only
    rw [if_pos (carriesHop_iff.1 hcode), if_pos (carriesHop_iff.1 hcode),
      ← contains_filter_carriesHop (by rfl) codes, ← contains_filter_carriesHop (by rfl) codes,
      ← contains_filter_carriesHop (by rfl) codes', ← contains_filter_carriesHop (by rfl) codes', hcodes]
  · rfl
  · rfl

variable {a c h m : Attribute}

theorem nextHop_merge (ha : carriesHop a.code = true) (s x : PathAttributes) (codes : List U8) :
    (mergeAttribute s x a.code codes).1.nextHop =
      if codes.contains 3 && codes.contains 14 then none else x.nextHop := by
  rw [mergeAttribute_fields]
  exact if_pos (carriesHop_iff.1 ha)

theorem nextHop_single (ha : carriesHop a.code = true) :
    (summary context relationship sender limits [a]).1.nextHop =
      if a.merged context relationship sender limits then
        (a.item context sender limits).attributes.nextHop else none := by
  have halone : ([a.code].contains 3 && [a.code].contains 14) = false := by
    obtain hcode | hcode := carriesHop_iff.1 ha
    · rw [show a.code = 3 from BitVec.eq_of_toNat_eq hcode]
      rfl
    · rw [show a.code = 14 from BitVec.eq_of_toNat_eq hcode]
      rfl
  change (if _ then (mergeAttribute _ _ a.code [a.code]).1 else _).nextHop = _
  split
  · rw [nextHop_merge ha, halone]
    rfl
  · rfl

theorem nextHop_pair (ha : carriesHop a.code = true) (hc : carriesHop c.code = true)
    (hne : a.code ≠ c.code) :
    (summary context relationship sender limits [a, c]).1.nextHop =
      if c.merged context relationship sender limits then none
      else if a.merged context relationship sender limits then
        (a.item context sender limits).attributes.nextHop else none := by
  have hmixed : ([a.code, c.code].contains 3 && [a.code, c.code].contains 14) = true := by
    obtain hcode | hcode := carriesHop_iff.1 ha <;> obtain hcode' | hcode' := carriesHop_iff.1 hc
    · exact absurd (BitVec.eq_of_toNat_eq (hcode.trans hcode'.symm)) hne
    · rw [show a.code = 3 from BitVec.eq_of_toNat_eq hcode,
        show c.code = 14 from BitVec.eq_of_toNat_eq hcode']
      rfl
    · rw [show a.code = 14 from BitVec.eq_of_toNat_eq hcode,
        show c.code = 3 from BitVec.eq_of_toNat_eq hcode']
      rfl
    · exact absurd (BitVec.eq_of_toNat_eq (hcode.trans hcode'.symm)) hne
  rw [← nextHop_single ha]
  change (if _ then (mergeAttribute _ _ c.code [a.code, c.code]).1 else _).nextHop = _
  split
  · rw [nextHop_merge hc, hmixed]
    rfl
  · rfl

theorem perm_pair {α : Type} {a c : α} {l : List α} (h : [a, c].Perm l) : l = [a, c] ∨ l = [c, a] := by
  match l, h.length_eq with
  | [u, v], _ =>
    have hu : u ∈ [a, c] := h.mem_iff.2 (by simp)
    obtain rfl | hu := List.mem_cons.1 hu
    · left
      rw [List.singleton_perm.1 ((List.perm_cons u).1 h)]
    · obtain rfl := List.mem_singleton.1 hu
      right
      rw [List.singleton_perm.1 ((List.perm_cons u).1 ((List.Perm.swap a u []).trans h))]

theorem nextHop_perm (hperm : l.Perm l') (hcodes : (l.map (·.code)).Nodup)
    (hdiffer : (summary context relationship sender limits l).1.nextHop ≠
      (summary context relationship sender limits l').1.nextHop) :
    ∃ h ∈ l, ∃ m ∈ l, h.code = 3 ∧ m.code = 14 ∧
      (h.merged context relationship sender limits = true ∧
          m.merged context relationship sender limits = false ∨
        h.merged context relationship sender limits = false ∧
          m.merged context relationship sender limits = true ∧
          (m.item context sender limits).attributes.nextHop ≠ none) := by
  have hfilter := hperm.filter (carriesHop ·.code)
  have hsub : ((l.filter (carriesHop ·.code)).map (·.code)).Nodup :=
    hcodes.sublist (List.filter_sublist.map _)
  have hall : ∀ a ∈ l.filter (carriesHop ·.code), a ∈ l ∧ carriesHop a.code = true := fun a ha =>
    List.mem_filter.1 ha
  rw [nextHop_filter l, nextHop_filter l'] at hdiffer
  generalize l.filter (carriesHop ·.code) = x at hfilter hsub hall hdiffer
  generalize l'.filter (carriesHop ·.code) = x' at hfilter hdiffer
  match x with
  | [] => exact absurd (by rw [hfilter.nil_eq]) hdiffer
  | [a] => exact absurd (by rw [List.singleton_perm.1 hfilter]) hdiffer
  | [a, c] =>
    obtain rfl | rfl := perm_pair hfilter
    · exact absurd rfl hdiffer
    · obtain ⟨hmema, ha⟩ := hall a (by simp)
      obtain ⟨hmemc, hc⟩ := hall c (by simp)
      have hne : a.code ≠ c.code := by simpa using hsub
      rw [nextHop_pair ha hc hne, nextHop_pair hc ha hne.symm] at hdiffer
      obtain hcode | hcode := carriesHop_iff.1 ha <;> obtain hcode' | hcode' := carriesHop_iff.1 hc
      · exact absurd (BitVec.eq_of_toNat_eq (hcode.trans hcode'.symm)) hne
      · refine ⟨a, hmema, c, hmemc, BitVec.eq_of_toNat_eq hcode, BitVec.eq_of_toNat_eq hcode', ?_⟩
        cases hma : a.merged context relationship sender limits <;>
          cases hmc : c.merged context relationship sender limits <;> grind
      · refine ⟨c, hmemc, a, hmema, BitVec.eq_of_toNat_eq hcode', BitVec.eq_of_toNat_eq hcode, ?_⟩
        cases hma : a.merged context relationship sender limits <;>
          cases hmc : c.merged context relationship sender limits <;> grind
      · exact absurd (BitVec.eq_of_toNat_eq (hcode.trans hcode'.symm)) hne
  | a :: c :: d :: rest =>
    have ha := carriesHop_iff.1 (hall a (by simp)).2
    have hc := carriesHop_iff.1 (hall c (by simp)).2
    have hd := carriesHop_iff.1 (hall d (by simp)).2
    simp only [List.map_cons, List.nodup_cons, List.mem_cons, not_or] at hsub
    obtain ⟨⟨hac, had, -⟩, ⟨hcd, -⟩, -⟩ := hsub
    have hac' : a.code.toNat ≠ c.code.toNat := fun h => hac (BitVec.eq_of_toNat_eq h)
    have had' : a.code.toNat ≠ d.code.toNat := fun h => had (BitVec.eq_of_toNat_eq h)
    have hcd' : c.code.toNat ≠ d.code.toNat := fun h => hcd (BitVec.eq_of_toNat_eq h)
    omega

theorem nextHop_order {rest : List Attribute} (hcodes : ((h :: m :: rest).map (·.code)).Nodup)
    (hh : h.code = 3) (hm : m.code = 14) (hrefused : h.merged context relationship sender limits = false)
    (hmerged : m.merged context relationship sender limits = true) :
    (summary context relationship sender limits (h :: m :: rest)).1.nextHop = none ∧
      (summary context relationship sender limits (m :: h :: rest)).1.nextHop =
        (m.item context sender limits).attributes.nextHop := by
  simp only [List.map_cons, List.nodup_cons, List.mem_cons, not_or] at hcodes
  obtain ⟨⟨hne, hh'⟩, hm', -⟩ := hcodes
  have hch : carriesHop h.code = true := by
    rw [hh]
    rfl
  have hcm : carriesHop m.code = true := by
    rw [hm]
    rfl
  have hrest : rest.filter (carriesHop ·.code) = [] := by
    apply List.filter_eq_nil_iff.2
    intro a ha hcode
    obtain hcode | hcode := carriesHop_iff.1 hcode
    · exact hh' (hh ▸ BitVec.eq_of_toNat_eq (y := 3) hcode ▸ List.mem_map_of_mem ha)
    · exact hm' (hm ▸ BitVec.eq_of_toNat_eq (y := 14) hcode ▸ List.mem_map_of_mem ha)
  constructor
  · rw [nextHop_filter, List.filter_cons_of_pos (by exact hch), List.filter_cons_of_pos (by exact hcm),
      hrest, nextHop_pair hch hcm hne, if_pos hmerged]
  · rw [nextHop_filter, List.filter_cons_of_pos (by exact hcm), List.filter_cons_of_pos (by exact hch),
      hrest, nextHop_pair hcm hch (Ne.symm hne), if_neg (by simp [hrefused]), if_pos hmerged]

end NextHop

section Marks

variable {context : LayoutContext} {relationship : PeerRelationship} {sender : U8}
  {limits : Bgp.Limits} {l : List Attribute}

theorem mem_ranges {r : AttributeRange} : r ∈ ranges context relationship sender limits l ↔
    ∃ front a rest, l = front ++ a :: rest ∧
      r = a.range context relationship sender limits (front.map (·.code) ++ [a.code]) := by
  induction l using List.reverseRecOn with
  | nil => simp [ranges]
  | append_singleton l a ih =>
    rw [ranges_snoc, List.mem_append, ih, List.mem_singleton, codes_ranges]
    constructor
    · rintro (⟨front, x, rest, rfl, rfl⟩ | rfl)
      · exact ⟨front, x, rest ++ [a], by simp, rfl⟩
      · exact ⟨l, a, [], rfl, rfl⟩
    · rintro ⟨front, x, rest, hsplit, rfl⟩
      obtain rfl | ⟨rest, last, rfl⟩ := List.eq_nil_or_concat rest
      · obtain ⟨rfl, hx⟩ := List.append_inj' hsplit rfl
        cases hx
        exact Or.inr rfl
      · rw [List.concat_eq_append, ← List.cons_append, ← List.append_assoc] at hsplit
        obtain ⟨rfl, -⟩ := List.append_inj' hsplit rfl
        exact Or.inl ⟨front, x, rest, rfl, rfl⟩

/-- Without both next hops no occurrence is marked. -/
theorem ranges_unmixed (h : ¬ (3 ∈ l.map (·.code) ∧ 14 ∈ l.map (·.code))) :
    ranges context relationship sender limits l =
      l.map fun a => a.range context relationship sender limits [] := by
  induction l using List.reverseRecOn with
  | nil => rfl
  | append_singleton l a ih =>
    have hfront : ¬ (3 ∈ l.map (·.code) ∧ 14 ∈ l.map (·.code)) := by
      rintro ⟨h3, h14⟩
      rw [List.map_append] at h
      exact h ⟨List.mem_append_left _ h3, List.mem_append_left _ h14⟩
    have hmark : ∀ interpretation valid,
        settledInterpretation a.code (l.map (·.code) ++ [a.code]) interpretation valid relationship =
          settledInterpretation a.code [] interpretation valid relationship := by
      intro interpretation valid
      have hnone : ¬ ((a.code = 3 ∨ a.code = 14) ∧
          (l.map (·.code) ++ [a.code]).contains 3 = true ∧
          (l.map (·.code) ++ [a.code]).contains 14 = true ∧
          interpretation ≠ .opaqueFamilyCapabilityOrAddPathLayout) := by
        rintro ⟨-, h3, h14, -⟩
        rw [List.contains_iff_mem] at h3 h14
        rw [List.map_append] at h
        exact h ⟨h3, h14⟩
      have hempty : ¬ ((a.code = 3 ∨ a.code = 14) ∧ ([] : List U8).contains 3 = true ∧
          ([] : List U8).contains 14 = true ∧
          interpretation ≠ .opaqueFamilyCapabilityOrAddPathLayout) := by
        simp
      unfold settledInterpretation
      rw [if_neg hnone, if_neg hempty]
    rw [ranges_snoc, ih hfront, List.map_append, List.map_singleton, List.map_map]
    unfold range
    simp only [Function.comp_def]
    rw [hmark]

theorem settled_nextHop {codes : List U8} {interpretation : Interpretation} {valid : Bool} :
    settledInterpretation 3 codes interpretation valid relationship =
      if codes.contains 3 ∧ codes.contains 14 ∧
          interpretation ≠ .opaqueFamilyCapabilityOrAddPathLayout then .unresolvedNextHopContext
      else interpretation := by
  unfold settledInterpretation
  simp [isPeerDependent]

/-- The code of an occurrence and what it was read as. -/
def mark (r : AttributeRange) : U8 × Interpretation := (r.code, r.interpretation)

theorem ranges_mixed {h m : Attribute} {rest : List Attribute} (hh : h.code = 3) (hm : m.code = 14) :
    ¬ ((ranges context relationship sender limits (h :: m :: rest)).map mark).Perm
      ((ranges context relationship sender limits (m :: h :: rest)).map mark) := by
  intro hperm
  have hfirst : mark (h.range context relationship sender limits [h.code]) ∈
      (ranges context relationship sender limits (h :: m :: rest)).map mark :=
    List.mem_map_of_mem (mem_ranges.2 ⟨[], h, m :: rest, rfl, rfl⟩)
  obtain ⟨r, hr, hmark⟩ := List.mem_map.1 (hperm.mem_iff.1 hfirst)
  obtain ⟨front, a, tail, hsplit, rfl⟩ := mem_ranges.1 hr
  obtain ⟨hsame, hmark⟩ := Prod.mk.inj hmark
  have hcode : a.code = 3 := hsame.trans hh
  cases front with
  | nil =>
    obtain ⟨rfl, -⟩ := List.cons.inj hsplit
    exact absurd (hcode.symm.trans hm) (by decide)
  | cons x front =>
    obtain ⟨rfl, -⟩ := List.cons.inj hsplit
    have hplain : ∀ {a : Attribute}, a.code = 3 →
        (a.item context sender limits).interpretation = .invalidRetainedByHash ∨
          (a.item context sender limits).interpretation = .decodedSubset := by
      intro a ha
      obtain hitem | hitem := @item_nextHop context sender limits a (by rw [ha]; rfl)
      · rw [hitem]
        exact Or.inl rfl
      · rw [hitem]
        exact Or.inr rfl
    unfold range at hmark
    dsimp only at hmark
    rw [hh, hcode, settled_nextHop, settled_nextHop, if_pos, if_neg (by simp)] at hmark
    · obtain hi | hi := hplain hh <;> rw [hi] at hmark <;> cases hmark
    · refine ⟨by simp, by simp [hm], ?_⟩
      obtain hi | hi := hplain hcode <;> rw [hi] <;> decide

end Marks

end Attribute

end PcapEvidence.Bgp.Wire
