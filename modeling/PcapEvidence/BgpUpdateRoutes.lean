import PcapEvidence.BgpUpdate

/-!
# What an UPDATE does with its routes

The prefixes of a message follow each other in the withdrawn field, the multiprotocol values and
the trailing field.
-/

namespace PcapEvidence.Bgp.Wire

open FiniteMap History Mrt

variable {b : List U8} {context : LayoutContext} {relationship : PeerRelationship} {sender : U8}
  {limits : Bgp.Limits}

section Spans

variable {p stop : ℕ} {l : List PrefixSpan} {afi : U16} {safi : U8} {addPath : Bool}

/-- Spans that follow each other from `p` to `stop`. -/
def Follow (p stop : ℕ) : List PrefixSpan → Prop
  | [] => p = stop
  | x :: rest => x.start = p ∧ p < x.stop ∧ Follow x.stop stop rest

theorem Follow.le (h : Follow p stop l) : p ≤ stop := by
  induction l generalizing p with
  | nil => exact Nat.le_of_eq h
  | cons x rest ih => exact h.2.1.le.trans (ih h.2.2)

theorem Follow.bounds (h : Follow p stop l) :
    ∀ x ∈ l, p ≤ x.start ∧ x.start < x.stop ∧ x.stop ≤ stop := by
  induction l generalizing p with
  | nil => simp
  | cons y rest ih =>
    obtain ⟨hstart, hlt, hrest⟩ := h
    intro x hx
    obtain rfl | hx := List.mem_cons.1 hx
    · exact ⟨hstart.ge, hstart.trans_lt hlt, hrest.le⟩
    · obtain ⟨hle, hrest⟩ := ih hrest x hx
      exact ⟨hlt.le.trans hle, hrest⟩

def Before (x y : PrefixSpan) : Prop := x.stop ≤ y.start

theorem Follow.pairwise (h : Follow p stop l) : l.Pairwise Before := by
  induction l generalizing p with
  | nil => exact .nil
  | cons x rest ih => exact .cons (fun y hy => (h.2.2.bounds y hy).1) (ih h.2.2)

theorem prefixSpan_bounds {width : ℕ}
    {x : PrefixSpan} (h : prefixSpan b p stop afi safi width addPath = .ok x) :
    x.start = p ∧ p < x.stop ∧ x.stop ≤ stop := by
  unfold prefixSpan at h
  obtain ⟨⟨pathId, q⟩, hpath, h⟩ := bind_eq_ok.1 h
  have hq : p ≤ q := by
    unfold pathIdentifier at hpath
    split_ifs at hpath
    · cases hpath
      omega
    · cases hpath
      exact le_rfl
  obtain ⟨_, _, h⟩ := bind_eq_ok.1 h
  obtain ⟨_, h⟩ := guard_eq_ok.1 h
  obtain ⟨hstop, h⟩ := guard_eq_ok.1 h
  cases h
  exact ⟨rfl, by dsimp only; omega, not_lt.1 hstop⟩

theorem prefixes_follow {width : ℕ} {fuel : ℕ}
    {out : List PrefixSpan} (hp : p ≤ stop) (hfuel : stop - p ≤ fuel)
    (h : prefixes b stop afi safi width addPath limits fuel p out = .ok l) :
    ∃ tail, l = out ++ tail ∧ Follow p stop tail := by
  induction fuel generalizing p out with
  | zero =>
    cases h
    exact ⟨[], (List.append_nil _).symm, by unfold Follow; omega⟩
  | succ fuel ih =>
    unfold prefixes at h
    split_ifs at h with hend
    · cases h
      exact ⟨[], (List.append_nil _).symm, by unfold Follow; omega⟩
    · obtain ⟨x, hx, h⟩ := bind_eq_ok.1 h
      obtain ⟨hstart, hlt, hle⟩ := prefixSpan_bounds hx
      obtain ⟨tail, rfl, htail⟩ := ih hle (by omega) h
      exact ⟨x :: tail, List.append_assoc _ _ _, hstart, hlt, htail⟩

theorem prefixList_follow {start : ℕ} (hle : start ≤ stop)
    (h : prefixList b start stop afi safi addPath limits = .ok l) : Follow start stop l := by
  unfold prefixList at h
  cases hwidth : addressWidth afi with
  | none =>
    rw [hwidth] at h
    cases h
  | some width =>
    rw [hwidth] at h
    obtain ⟨tail, rfl, htail⟩ := prefixes_follow hle le_rfl h
    exact htail

end Spans

section Envelopes

def envelopes (b : List U8) (stop : ℕ) : ℕ → ℕ → List AttributeEnvelope
  | 0, _ => []
  | fuel + 1, p =>
    if p ≥ stop then []
    else match AttributeEnvelope.read b p stop with
      | .malformed _ => []
      | .complete e => e :: envelopes b stop fuel e.valueEnd

theorem AttributeEnvelope.read_complete {p stop : ℕ} {e : AttributeEnvelope}
    (h : AttributeEnvelope.read b p stop = .complete e) :
    e.start = p ∧ p + 3 ≤ e.valueStart ∧ e.valueStart ≤ e.valueEnd ∧ e.valueEnd ≤ stop := by
  unfold AttributeEnvelope.read at h
  dsimp only at h
  split_ifs at h <;> cases h <;> dsimp only <;> omega

variable (b context sender limits)

def withdrawnIn (e : AttributeEnvelope) : List PrefixSpan :=
  match (decodeAttributeValue b e context sender limits).2 with
  | .ok item => match item.multiprotocol with
    | .withdrawn spans => spans
    | _ => []
  | .error _ => []

def announcedIn (e : AttributeEnvelope) : List PrefixSpan :=
  match (decodeAttributeValue b e context sender limits).2 with
  | .ok item => match item.multiprotocol with
    | .announced spans => spans
    | _ => []
  | .error _ => []

/-- The routes of a multiprotocol value that is not refused. -/
def routesIn (e : AttributeEnvelope) : List PrefixSpan :=
  withdrawnIn b context sender limits e ++ announcedIn b context sender limits e

variable {b context sender limits}

theorem decodeMultiprotocol_follow {reach : Bool} {start stop : ℕ} {item : DecodedAttributeValue}
    (h : (decodeMultiprotocol b reach start stop context sender limits).2 = .ok item) :
    match item.multiprotocol with
    | .none => True
    | .withdrawn spans | .announced spans => ∃ p, start ≤ p ∧ Follow p stop spans := by
  unfold decodeMultiprotocol at h
  dsimp only at h
  split at h
  · cases h
  · split at h
    · cases h
      trivial
    · split at h
      · obtain ⟨⟨nextHop, spans⟩, hparse, rfl⟩ := map_ok h
        unfold parseMpReach at hparse
        obtain ⟨_, hparse⟩ := guard_eq_ok.1 hparse
        obtain ⟨hroom, hparse⟩ := guard_eq_ok.1 hparse
        obtain ⟨spans, hspans, hparse⟩ := bind_eq_ok.1 hparse
        obtain ⟨nextHop, _, hparse⟩ := bind_eq_ok.1 hparse
        cases hparse
        exact ⟨_, by omega, prefixList_follow (by omega) hspans⟩
      · obtain ⟨spans, hparse, rfl⟩ := map_ok h
        unfold parseMpUnreach at hparse
        obtain ⟨hroom, hparse⟩ := guard_eq_ok.1 hparse
        exact ⟨_, by omega, prefixList_follow (by omega) hparse⟩

def Plain (r : Result DecodedAttributeValue) : Prop := ∀ item, r = .ok item → item.multiprotocol = .none

theorem plain_error (e : Error) : Plain (.error e) := fun _ h => by cases h

theorem plain_ok {item : DecodedAttributeValue} (h : item.multiprotocol = .none) : Plain (.ok item) :=
  fun _ hitem => Except.ok.inj hitem ▸ h

theorem plain_ite {c : Prop} [Decidable c] {x y : Result DecodedAttributeValue} (hx : Plain x)
    (hy : Plain y) : Plain (if c then x else y) := by
  split_ifs
  · exact hx
  · exact hy

theorem plain_bind {α : Type} {x : Result α} {f : α → Result DecodedAttributeValue}
    (h : ∀ a, Plain (f a)) : Plain (x >>= f) := by
  intro item hitem
  obtain ⟨a, _, hitem⟩ := bind_eq_ok.1 hitem
  exact h a item hitem

theorem plain_fixed (length expected start : ℕ) (field detail : String) (a : PathAttributes) :
    Plain (decodeFixed length expected start field detail a) :=
  plain_ite (plain_error _) (plain_ok rfl)

theorem plain_blocks (length block start : ℕ) (field detail : String) :
    Plain (decodeBlocks length block start field detail) :=
  plain_ite (plain_error _) (plain_ok rfl)

theorem plain_aggregator (start length width : ℕ) : Plain (decodeAggregator b start length width) :=
  plain_ite (plain_error _) (plain_ite (plain_error _) (plain_ok rfl))

theorem plain_asPath (value : List U8) (start width : ℕ) :
    Plain (decodeAsPath value start width limits).2 := by
  unfold decodeAsPath
  dsimp only
  split
  · exact plain_error _
  · exact plain_ite (plain_error _) (plain_ok rfl)

theorem plain_as4Path (value : List U8) (start : ℕ) : Plain (decodeAs4Path value start limits).2 := by
  unfold decodeAs4Path
  split_ifs
  · exact plain_error _
  · split
    · exact plain_error _
    · split_ifs
      all_goals first | exact plain_error _ | exact plain_ok rfl

theorem plain_decodeAttributeValue {e : AttributeEnvelope} (h : e.code.toNat ≠ 14)
    (h' : e.code.toNat ≠ 15) : Plain (decodeAttributeValue b e context sender limits).2 := by
  unfold decodeAttributeValue
  dsimp only
  split
  case h_2 => exact plain_asPath _ _ _
  case h_3 => exact plain_ite (plain_error _) (plain_bind fun _ => plain_ok rfl)
  case h_7 => exact plain_aggregator _ _ _
  case h_8 | h_10 => exact plain_ite (plain_error _) (plain_ite (plain_error _) (plain_ok rfl))
  case h_11 | h_12 => contradiction
  case h_13 | h_17 => exact plain_blocks _ _ _ _ _
  case h_14 => exact plain_as4Path _ _
  case h_15 => exact plain_ite (plain_error _) (plain_ite (plain_error _) (plain_ok rfl))
  case h_16 => exact plain_ite (plain_error _) (plain_bind fun _ => plain_ok rfl)
  case h_1 => exact plain_ite (plain_error _) (plain_ok rfl)
  case h_19 => exact plain_ok rfl
  all_goals exact plain_fixed _ _ _ _ _ _

theorem routesIn_of_plain {e : AttributeEnvelope}
    (h : Plain (decodeAttributeValue b e context sender limits).2) :
    routesIn b context sender limits e = [] := by
  unfold routesIn withdrawnIn announcedIn
  cases hvalue : (decodeAttributeValue b e context sender limits).2 with
  | error _ => rfl
  | ok item =>
    dsimp only
    rw [h item hvalue]
    rfl

variable (b context sender limits) in
theorem routesIn_follow {e : AttributeEnvelope} (he : e.valueStart ≤ e.valueEnd) :
    ∃ p, e.valueStart ≤ p ∧ ∃ q, q ≤ e.valueEnd ∧ Follow p q (routesIn b context sender limits e) := by
  have hnone : routesIn b context sender limits e = [] → ∃ p, e.valueStart ≤ p ∧ ∃ q, q ≤ e.valueEnd ∧
      Follow p q (routesIn b context sender limits e) := fun h => by
    rw [h]
    exact ⟨_, le_rfl, _, he, rfl⟩
  by_cases hplain : e.code.toNat ≠ 14 ∧ e.code.toNat ≠ 15
  · exact hnone (routesIn_of_plain (plain_decodeAttributeValue hplain.1 hplain.2))
  · have hmulti : ∃ reach, decodeAttributeValue b e context sender limits =
        decodeMultiprotocol b reach e.valueStart e.valueEnd context sender limits := by
      unfold decodeAttributeValue
      by_cases h : e.code.toNat = 14
      · rw [h]
        exact ⟨true, rfl⟩
      · rw [show e.code.toNat = 15 by omega]
        exact ⟨false, rfl⟩
    obtain ⟨reach, hmulti⟩ := hmulti
    cases hvalue : (decodeAttributeValue b e context sender limits).2 with
    | error _ => exact hnone (by simp only [routesIn, withdrawnIn, announcedIn, hvalue]; rfl)
    | ok item =>
      have hfollow := decodeMultiprotocol_follow (hmulti ▸ hvalue)
      cases hitem : item.multiprotocol with
      | none => exact hnone (by simp only [routesIn, withdrawnIn, announcedIn, hvalue, hitem]; rfl)
      | withdrawn spans =>
        rw [hitem] at hfollow
        obtain ⟨p, hp, hspans⟩ := hfollow
        have hroutes : routesIn b context sender limits e = spans := by
          simp only [routesIn, withdrawnIn, announcedIn, hvalue, hitem, List.append_nil]
        exact ⟨p, hp, e.valueEnd, le_rfl, hroutes ▸ hspans⟩
      | announced spans =>
        rw [hitem] at hfollow
        obtain ⟨p, hp, hspans⟩ := hfollow
        have hroutes : routesIn b context sender limits e = spans := by
          simp only [routesIn, withdrawnIn, announcedIn, hvalue, hitem, List.nil_append]
        exact ⟨p, hp, e.valueEnd, le_rfl, hroutes ▸ hspans⟩

end Envelopes

/-- Spans between two positions, one after the other. -/
structure Within (p stop : ℕ) (l : List PrefixSpan) : Prop where
  bounds : ∀ x ∈ l, p ≤ x.start ∧ x.start < x.stop ∧ x.stop ≤ stop
  order : l.Pairwise Before

theorem within_nil (p stop : ℕ) : Within p stop [] := ⟨by simp, .nil⟩

theorem Follow.within {p q start stop : ℕ} {l : List PrefixSpan} (h : Follow p q l) (hp : start ≤ p)
    (hq : q ≤ stop) : Within start stop l where
  bounds x hx := ⟨hp.trans (h.bounds x hx).1, (h.bounds x hx).2.1, (h.bounds x hx).2.2.trans hq⟩
  order := h.pairwise

theorem Within.append {p q r s : ℕ} {l l' : List PrefixSpan} (h : Within p q l) (h' : Within r s l')
    (hqr : q ≤ r) (hpr : p ≤ r) (hqs : q ≤ s) : Within p s (l ++ l') where
  bounds x hx := by
    obtain hx | hx := List.mem_append.1 hx
    · exact ⟨(h.bounds x hx).1, (h.bounds x hx).2.1, (h.bounds x hx).2.2.trans hqs⟩
    · exact ⟨hpr.trans (h'.bounds x hx).1, (h'.bounds x hx).2⟩
  order := List.pairwise_append.2 ⟨h.order, h'.order, fun x hx y hy =>
    ((h.bounds x hx).2.2.trans hqr).trans (h'.bounds y hy).1⟩

theorem envelopes_within {stop fuel p : ℕ} (hp : p ≤ stop) :
    Within p stop ((envelopes b stop fuel p).flatMap (routesIn b context sender limits)) := by
  induction fuel generalizing p with
  | zero => exact within_nil p stop
  | succ fuel ih =>
    unfold envelopes
    split_ifs
    · exact within_nil p stop
    · split
      · exact within_nil p stop
      · rename_i e he
        obtain ⟨-, hvalue, hle, hstop⟩ := AttributeEnvelope.read_complete he
        obtain ⟨start, hstart, stop', hstop', hroutes⟩ :=
          routesIn_follow b context sender limits hle
        rw [List.flatMap_cons]
        exact (hroutes.within (by omega : p ≤ start) hstop').append (ih hstop) le_rfl (by omega) hstop

section Occurrences

variable {code flags : U8} {flagsValid valueValid : Bool} {asnWidth : ℕ}

def AttributeRange.envelope (r : AttributeRange) : AttributeEnvelope :=
  ⟨r.start, r.flags, r.code, r.valueStart, r.stop⟩

structure Occurrence (relationship : PeerRelationship) (earlier : List AttributeRange)
    (r : AttributeRange) : Prop where
  accepted : r.disposition = .action .acceptEvidenceOnly → ∀ q ∈ earlier, q.code ≠ r.code
  later : r.disposition = .discardLaterOccurrence → ∃ q ∈ earlier, q.code = r.code
  unresolved : r.disposition = .peerRelationshipUnresolved → r.peerRelationshipUnresolved
  peer : r.peerRelationshipUnresolved = (isPeerDependent r.code && relationship = .unknown)

def Occurrences (relationship : PeerRelationship) (ranges : List AttributeRange) : Prop :=
  ∀ earlier r rest, ranges = earlier ++ r :: rest → Occurrence relationship earlier r

theorem occurrences_nil : Occurrences relationship [] := fun earlier r rest h => by
  simp at h

theorem Occurrences.snoc {ranges : List AttributeRange} {r : AttributeRange}
    (h : Occurrences relationship ranges) (hr : Occurrence relationship ranges r) :
    Occurrences relationship (ranges ++ [r]) := by
  intro earlier q rest hsplit
  obtain rfl | ⟨front, last, rfl⟩ := List.eq_nil_or_concat rest
  · obtain ⟨rfl, hq⟩ := List.append_inj' hsplit rfl
    cases hq
    exact hr
  · rw [List.concat_eq_append, ← List.cons_append, ← List.append_assoc] at hsplit
    obtain ⟨hfront, -⟩ := List.append_inj' hsplit rfl
    exact h earlier q front hfront

theorem disposition_first :
    disposition code flags true flagsValid valueValid asnWidth relationship ≠
      .action .acceptEvidenceOnly := by
  unfold disposition
  rw [if_pos rfl]
  split_ifs <;> simp

theorem disposition_later {duplicate : Bool}
    (h : disposition code flags duplicate flagsValid valueValid asnWidth relationship =
      .discardLaterOccurrence) : duplicate := by
  unfold disposition at h
  split_ifs at h with hduplicate
  all_goals first | exact hduplicate | (cases relationship <;> cases h)

theorem disposition_unresolved {duplicate : Bool} (h : disposition code flags duplicate flagsValid valueValid asnWidth relationship =
      .peerRelationshipUnresolved) : (isPeerDependent code && relationship = .unknown) = true := by
  have hpeer : isPeerDependent code = true := by
    by_contra hpeer
    unfold disposition at h
    simp only [Bool.not_eq_true] at hpeer
    rw [hpeer] at h
    simp only [Bool.false_eq_true, false_and, if_false] at h
    split_ifs at h
  rw [hpeer]
  cases relationship with
  | unknown => rfl
  | internal | external =>
    unfold disposition at h
    split_ifs at h

theorem addAttribute_ok {s t : AttributeParse} {e : AttributeEnvelope}
    (h : addAttribute b context relationship sender limits s e = .ok t) :
    ∃ r, t.ranges = s.ranges ++ [r] ∧ r.envelope = e ∧ Occurrence relationship s.ranges r ∧
      t.mpWithdrawn = s.mpWithdrawn ++ withdrawnIn b context sender limits e ∧
      t.mpAnnounced = s.mpAnnounced ++ announcedIn b context sender limits e := by
  have hoccurrence : ∀ (flagsValid valueValid : Bool) (r : AttributeRange),
      r.code = e.code → r.disposition = disposition e.code e.flags (s.ranges.any (·.code = e.code))
        flagsValid valueValid context.asnWidth relationship →
      r.peerRelationshipUnresolved = (isPeerDependent e.code && relationship = .unknown) →
      Occurrence relationship s.ranges r := by
    intro flagsValid valueValid r hcode hdisposition hpeer
    rw [← hcode] at hdisposition hpeer
    refine ⟨fun haccept q hq hsame => ?_, fun hlater => ?_, fun hunresolved => ?_, hpeer⟩
    · have hany : s.ranges.any (·.code = r.code) = true :=
        List.any_eq_true.2 ⟨q, hq, decide_eq_true hsame⟩
      rw [hdisposition, hany] at haccept
      exact disposition_first haccept
    · obtain ⟨q, hq, hsame⟩ := List.any_eq_true.1 (disposition_later (hdisposition ▸ hlater))
      exact ⟨q, hq, of_decide_eq_true hsame⟩
    · rw [hpeer]
      exact disposition_unresolved (hdisposition ▸ hunresolved)
  unfold addAttribute at h
  dsimp only at h
  split at h
  · rename_i item hvalue
    cases h
    refine ⟨_, rfl, rfl, hoccurrence _ _ _ rfl rfl rfl, ?_, ?_⟩
    · cases hmp : item.multiprotocol <;> simp only [withdrawnIn, hvalue, hmp]
    · cases hmp : item.multiprotocol <;> simp only [announcedIn, hvalue, hmp]
  · rename_i error hvalue
    obtain ⟨-, h⟩ := guard_eq_ok.1 h
    cases h
    refine ⟨_, rfl, rfl, hoccurrence _ _ _ rfl rfl rfl, ?_, ?_⟩
    · rw [withdrawnIn, hvalue]
    · rw [announcedIn, hvalue]

theorem attributes_ok {stop fuel p : ℕ} {s t : AttributeParse}
    (h : attributes b stop context relationship sender limits fuel p s = .ok t)
    (hs : Occurrences relationship s.ranges) :
    t.ranges.map AttributeRange.envelope =
        s.ranges.map AttributeRange.envelope ++ envelopes b stop fuel p ∧
      Occurrences relationship t.ranges ∧
      t.mpWithdrawn = s.mpWithdrawn ++
        (envelopes b stop fuel p).flatMap (withdrawnIn b context sender limits) ∧
      t.mpAnnounced = s.mpAnnounced ++
        (envelopes b stop fuel p).flatMap (announcedIn b context sender limits) := by
  induction fuel generalizing p s with
  | zero =>
    cases h
    exact ⟨(List.append_nil _).symm, hs, (List.append_nil _).symm, (List.append_nil _).symm⟩
  | succ fuel ih =>
    unfold attributes at h
    unfold envelopes
    by_cases hend : p ≥ stop
    · rw [if_pos hend] at h ⊢
      cases h
      exact ⟨(List.append_nil _).symm, hs, (List.append_nil _).symm, (List.append_nil _).symm⟩
    · rw [if_neg hend] at h ⊢
      obtain ⟨-, h⟩ := guard_eq_ok.1 h
      cases hread : AttributeEnvelope.read b p stop with
      | malformed reason =>
        rw [hread] at h
        cases h
        exact ⟨(List.append_nil _).symm, hs, (List.append_nil _).symm, (List.append_nil _).symm⟩
      | complete e =>
        rw [hread] at h
        obtain ⟨u, hadd, h⟩ := bind_eq_ok.1 h
        obtain ⟨r, hranges, rfl, hr, hwithdrawn, hannounced⟩ := addAttribute_ok hadd
        obtain ⟨hmap, hoccurrences, hw, ha⟩ := ih h (hranges ▸ hs.snoc hr)
        refine ⟨?_, hoccurrences, ?_, ?_⟩
        · rw [hmap, hranges, List.map_append, List.append_assoc]
          rfl
        · rw [hw, hwithdrawn, List.append_assoc, List.flatMap_cons]
        · rw [ha, hannounced, List.append_assoc, List.flatMap_cons]

end Occurrences

section Unused

variable {status : As4Status}

theorem discardUnusedAs4_envelope (r : AttributeRange) :
    (discardUnusedAs4 status r).envelope = r.envelope := by
  unfold discardUnusedAs4
  split_ifs <;> rfl

theorem discardUnusedAs4_cases (status : As4Status) (r : AttributeRange) : discardUnusedAs4 status r = r ∨
    discardUnusedAs4 status r = { r with disposition := .action .attributeDiscard } := by
  unfold discardUnusedAs4
  split_ifs
  · exact .inr rfl
  · exact .inl rfl

theorem code_discardUnusedAs4 (r : AttributeRange) : (discardUnusedAs4 status r).code = r.code := by
  obtain h | h := discardUnusedAs4_cases status r <;> rw [h]

theorem Occurrence.discardUnused {earlier : List AttributeRange} {r : AttributeRange}
    (h : Occurrence relationship earlier r) :
    Occurrence relationship (earlier.map (discardUnusedAs4 status)) (discardUnusedAs4 status r) := by
  have hearlier : ∀ code, (∀ q ∈ earlier, q.code ≠ code) →
      ∀ q ∈ earlier.map (discardUnusedAs4 status), q.code ≠ code := by
    intro code hcode q hq
    obtain ⟨old, hold, rfl⟩ := List.mem_map.1 hq
    rw [code_discardUnusedAs4]
    exact hcode old hold
  obtain hsame | hsame := discardUnusedAs4_cases status r
  · rw [hsame]
    refine ⟨fun ha => hearlier _ (h.accepted ha), fun hl => ?_, h.unresolved, h.peer⟩
    obtain ⟨q, hq, hcode⟩ := h.later hl
    exact ⟨_, List.mem_map_of_mem hq, (code_discardUnusedAs4 q).trans hcode⟩
  · rw [hsame]
    exact ⟨fun ha => by simp at ha, fun hl => (by simp at hl), fun hu => (by simp at hu), h.peer⟩

theorem Occurrences.discardUnused {ranges : List AttributeRange}
    (h : Occurrences relationship ranges) :
    Occurrences relationship (ranges.map (discardUnusedAs4 status)) := by
  intro earlier r rest hsplit
  obtain ⟨front, back, rfl, rfl, hback⟩ := List.map_eq_append_iff.1 hsplit
  obtain ⟨old, tail, rfl, rfl, rfl⟩ := List.map_eq_cons_iff.1 hback
  exact (h front old tail rfl).discardUnused

end Unused

structure Strongest (a : UpdateAction) (l : List UpdateAction) : Prop where
  mem : a ∈ l
  le : ∀ x ∈ l, x.rank ≤ a.rank

theorem strongest_single (a : UpdateAction) : Strongest a [a] := ⟨by simp, by simp⟩

theorem Strongest.snoc {a : UpdateAction} {l : List UpdateAction} (h : Strongest a l)
    (x : UpdateAction) : Strongest (strongest a x) (l ++ [x]) := by
  unfold strongest
  split_ifs with hx
  · refine ⟨by simp, fun y hy => ?_⟩
    obtain hy | hy := List.mem_append.1 hy
    · exact (h.le y hy).trans hx.le
    · rw [List.mem_singleton.1 hy]
  · refine ⟨List.mem_append_left _ h.mem, fun y hy => ?_⟩
    obtain hy | hy := List.mem_append.1 hy
    · exact h.le y hy
    · rw [List.mem_singleton.1 hy]
      exact not_lt.1 hx

theorem Strongest.foldl {a : UpdateAction} {l rest : List UpdateAction} (h : Strongest a l) :
    Strongest (rest.foldl strongest a) (l ++ rest) := by
  induction rest generalizing a l with
  | nil => rwa [List.append_nil]
  | cons x rest ih =>
    have hrest := ih (h.snoc x)
    rwa [List.append_assoc] at hrest

def envelopeActions (malformed : Option MalformedEnvelope) : List UpdateAction :=
  match malformed with
  | none => []
  | some m => [if m.code.any isMultiprotocol then .sessionReset else .treatAsWithdraw]

/-- The actions that the parts of a message ask for. -/
def contributions (malformed : Option MalformedEnvelope) (ranges : List AttributeRange)
    (missing : List U8) : List UpdateAction :=
  .acceptEvidenceOnly :: envelopeActions malformed ++
    ranges.filterMap (·.disposition.toAction) ++
    if missing = [] then [] else [.treatAsWithdraw]

theorem attributeAction_strongest (malformed : Option MalformedEnvelope)
    (ranges : List AttributeRange) : Strongest (attributeAction malformed ranges)
      (.acceptEvidenceOnly :: envelopeActions malformed ++
        ranges.filterMap (·.disposition.toAction)) := by
  refine Strongest.foldl ?_
  cases malformed with
  | none => exact strongest_single _
  | some m =>
    unfold incompleteMp envelopeActions
    rw [Option.any_some]
    by_cases hcode : m.code.any isMultiprotocol = true
    · rw [if_pos hcode]
      simp only [hcode]
      exact ⟨by simp, by simp [UpdateAction.rank]⟩
    · rw [if_neg hcode, Option.isSome_some, if_pos rfl]
      simp only [hcode]
      exact ⟨by simp, by simp [UpdateAction.rank]⟩

/-- The action of the message before a route-free one is escalated. -/
def UpdateParts.settledAction (u : UpdateParts) : UpdateAction :=
  let base := attributeAction u.parse.malformed u.ranges
  if u.missing = [] then base else strongest base .treatAsWithdraw

theorem UpdateParts.settledAction_strongest (u : UpdateParts) :
    Strongest u.settledAction (contributions u.parse.malformed u.ranges u.missing) := by
  have hbase := attributeAction_strongest u.parse.malformed u.ranges
  unfold settledAction contributions
  by_cases hmissing : u.missing = []
  · rw [if_pos hmissing, if_pos hmissing, List.append_nil]
    exact hbase
  · rw [if_neg hmissing, if_neg hmissing]
    exact hbase.snoc _

theorem UpdateParts.knownAction_eq (u : UpdateParts) : u.knownAction =
    if u.settledAction = .treatAsWithdraw ∧ u.announced = [] ∧ u.parse.mpAnnounced = [] then
      .sessionReset else u.settledAction := by
  have hnone : u.announced.length + u.parse.mpAnnounced.length = 0 ↔
      u.announced = [] ∧ u.parse.mpAnnounced = [] := by
    rw [Nat.add_eq_zero_iff, List.length_eq_zero_iff, List.length_eq_zero_iff]
  unfold knownAction
  simp only [hnone]
  rfl

/-- Where a route stands, what it is and its path identifier. -/
abbrev Place := ℕ × ℕ × Prefix × Option U32

def PrefixSpan.place (x : PrefixSpan) : Place := (x.start, x.stop, x.route, x.pathId)

def RouteRecord.place (r : RouteRecord) : Place := (r.start, r.stop, r.route, r.pathId)

def OpaqueNlri.place (o : OpaqueNlri) : Option Place :=
  o.route.map fun x => (o.start, o.stop, x.2.1, x.2.2)

def ParsedUpdate.places (u : ParsedUpdate) : List Place :=
  u.records.map RouteRecord.place ++ u.opaqueNlri.filterMap OpaqueNlri.place

theorem places_opaqueRoute (kind : String) (records : List RouteRecord) :
    (records.map (opaqueRoute b kind)).filterMap OpaqueNlri.place = records.map RouteRecord.place := by
  rw [List.filterMap_map]
  exact List.filterMap_eq_map_iff_forall_eq_some.2 fun _ _ => rfl

theorem places_opaqueLayout (ranges : List AttributeRange) (baseUnknown : Bool)
    (withdrawnEnd attributesEnd : ℕ) :
    (opaqueLayout b ranges baseUnknown withdrawnEnd attributesEnd).filterMap OpaqueNlri.place = [] := by
  rw [List.filterMap_eq_nil_iff]
  intro o ho
  unfold opaqueLayout at ho
  obtain ho | ho := List.mem_append.1 ho
  · obtain ⟨r, _, rfl⟩ := List.mem_map.1 ho
    rfl
  · split_ifs at ho
    · obtain ⟨x, _, rfl⟩ := List.mem_map.1 ho
      rfl
    · cases ho

theorem places_settleRecords (known : UpdateAction) (records : List RouteRecord) :
    (settleRecords b known records).1.map RouteRecord.place ++
      (settleRecords b known records).2.1.filterMap OpaqueNlri.place =
        records.map RouteRecord.place := by
  cases known with
  | acceptEvidenceOnly | attributeDiscard => exact List.append_nil _
  | treatAsWithdraw =>
    change (records.map withdrawRecord).map RouteRecord.place ++ [] = _
    rw [List.append_nil, List.map_map]
    rfl
  | sessionReset => exact places_opaqueRoute _ _

theorem places_records (u : UpdateParts) : u.records.map RouteRecord.place =
    (u.withdrawn ++ u.parse.mpWithdrawn ++ (u.announced ++ u.parse.mpAnnounced)).map
      PrefixSpan.place := by
  unfold UpdateParts.records
  simp only [List.map_append, List.map_map]
  rfl

section Updates

variable {direction : Option U8} {u : ParsedUpdate}

structure Announceable (relationship : PeerRelationship) (announced : List PrefixSpan)
    (u : ParsedUpdate) : Prop where
  complete : u.malformedAttributeEnvelope = none
  ranges : ∀ earlier r rest, u.attributeRanges = earlier ++ r :: rest →
    r.disposition = .action .acceptEvidenceOnly ∨ r.disposition = .action .attributeDiscard ∨
      r.disposition = .discardLaterOccurrence ∧ ∃ q ∈ earlier, q.code = r.code
  resolved : ∀ r ∈ u.attributeRanges, isPeerDependent r.code → relationship ≠ .unknown
  mandatory : ∀ code ∈ (if announced = [] then [1, 2] else [1, 2, 3] : List U8),
    ∃ earlier r rest, u.attributeRanges = earlier ++ r :: rest ∧ r.code = code ∧
      r.disposition = .action .acceptEvidenceOnly ∧ ∀ q ∈ earlier, q.code ≠ code
  localPref : relationship = .internal → ∃ r ∈ u.attributeRanges, r.code = 5

theorem UpdateLayout.read_ok {l : UpdateLayout} (h : UpdateLayout.read b = .ok l) :
    l.attributesEnd ≤ b.length := by
  obtain ⟨_, _, h⟩ := bind_eq_ok.1 h
  obtain ⟨_, _, h⟩ := bind_eq_ok.1 h
  obtain ⟨_, hend, h⟩ := bind_eq_ok.1 h
  cases h
  unfold need at hend
  split_ifs at hend with hle
  exact not_lt.1 hle

theorem readUpdate_ok {u : UpdateParts} (hbase : (sender, 1, 1) ∉ context.unresolvedAddPath)
    (h : readUpdate b context relationship sender limits = .ok u) :
    UpdateLayout.read b = .ok u.layout ∧
      prefixList b 21 u.layout.withdrawnEnd 1 1 (decide ((sender, 1, 1) ∈ context.addPath)) limits =
        .ok u.withdrawn ∧
      parseAttributes b u.layout.attributesStart u.layout.attributesEnd context relationship sender
        limits = .ok u.parse ∧
      prefixList b u.layout.attributesEnd b.length 1 1 (decide ((sender, 1, 1) ∈ context.addPath))
        limits = .ok u.announced ∧
      u.ranges = u.parse.ranges.map (discardUnusedAs4 u.as4.status) := by
  unfold readUpdate at h
  dsimp only at h
  rw [decide_eq_false hbase] at h
  obtain ⟨layout, hlayout, h⟩ := bind_eq_ok.1 h
  obtain ⟨withdrawn, hwithdrawn, h⟩ := bind_eq_ok.1 h
  obtain ⟨parse, hparse, h⟩ := bind_eq_ok.1 h
  obtain ⟨⟨as4, attributes⟩, has4, h⟩ := bind_eq_ok.1 h
  obtain ⟨announced, hannounced, h⟩ := bind_eq_ok.1 h
  cases h
  exact ⟨hlayout, hwithdrawn, hparse, hannounced, rfl⟩

theorem mem_records_announce {u : UpdateParts} {r : RouteRecord} (hr : r ∈ u.records)
    (haction : r.action = .announce) : ¬ (u.announced = [] ∧ u.parse.mpAnnounced = []) := by
  rintro ⟨ha, hm⟩
  unfold UpdateParts.records at hr
  rw [ha, hm] at hr
  simp only [List.append_nil, List.map_nil, List.mem_append, List.mem_map] at hr
  obtain ⟨x, -, rfl⟩ | ⟨x, -, rfl⟩ := hr <;> cases haction

theorem settle_announce {known : UpdateAction} {records : List RouteRecord} {r : RouteRecord}
    (hr : r ∈ (settleRecords b known records).1) (haction : r.action = .announce) :
    known.rank ≤ 1 ∧ r ∈ records := by
  cases known with
  | acceptEvidenceOnly | attributeDiscard => exact ⟨by decide, hr⟩
  | treatAsWithdraw =>
    obtain ⟨x, -, rfl⟩ := List.mem_map.1 hr
    cases haction
  | sessionReset => cases hr

theorem UpdateParts.settledAction_of_weak {u : UpdateParts} (h : u.knownAction.rank ≤ 1) :
    u.settledAction.rank ≤ 1 := by
  rw [u.knownAction_eq] at h
  split_ifs at h
  · simp [UpdateAction.rank] at h
  · exact h

theorem weak_contributions {malformed : Option MalformedEnvelope} {ranges : List AttributeRange}
    {missing : List U8} {a : UpdateAction} (h : Strongest a (contributions malformed ranges missing))
    (ha : a.rank ≤ 1) : malformed = none ∧ missing = [] ∧
      ∀ r ∈ ranges, ∀ x, r.disposition.toAction = some x → x.rank ≤ 1 := by
  refine ⟨?_, ?_, fun r hr x hx => ?_⟩
  · cases malformed with
    | none => rfl
    | some m =>
      have hle := (h.le _ (by
        unfold contributions envelopeActions
        simp only [List.mem_append, List.mem_cons]
        exact .inl (.inl (.inr (.inl rfl))))).trans ha
      split_ifs at hle <;> simp [UpdateAction.rank] at hle
  · by_contra hmissing
    have hle := (h.le .treatAsWithdraw (by
      unfold contributions
      rw [if_neg hmissing]
      simp)).trans ha
    simp [UpdateAction.rank] at hle
  · refine (h.le x ?_).trans ha
    unfold contributions
    refine List.mem_append_left _ (List.mem_append_right _ ?_)
    exact List.mem_filterMap.2 ⟨r, hr, hx⟩

theorem missingMandatory_nil {ranges : List AttributeRange} {announced mpAnnounced : List PrefixSpan}
    (h : missingMandatory ranges announced mpAnnounced = [])
    (hsome : ¬ (announced = [] ∧ mpAnnounced = [])) :
    ∀ code ∈ (if announced = [] then [1, 2] else [1, 2, 3] : List U8),
      ∃ r ∈ ranges, r.code = code ∧ r.disposition = .action .acceptEvidenceOnly := by
  intro code hcode
  unfold missingMandatory at h
  rw [if_neg hsome] at h
  have hpresent := List.filter_eq_nil_iff.1 h code hcode
  simp only [Bool.not_eq_true', Bool.not_eq_false, List.contains_iff_mem, List.mem_map,
    List.mem_filter, decide_eq_true_eq] at hpresent
  obtain ⟨r, ⟨hr, haccept⟩, rfl⟩ := hpresent
  exact ⟨r, hr, rfl, haccept⟩

structure Assembled (relationship : PeerRelationship) (p : UpdateParts) (u : ParsedUpdate) : Prop where
  malformed : u.malformedAttributeEnvelope = p.parse.malformed
  ranges : u.attributeRanges = p.ranges
  missing : u.missingMandatory = p.missing
  known : u.knownDisposition = p.knownAction
  places : u.places.Perm (p.records.map RouteRecord.place)
  announce : ∀ r ∈ u.records, r.action = .announce → r ∈ p.records ∧ p.knownAction.rank ≤ 1 ∧
    p.relationshipUnresolved = false ∧ p.localPrefMissing relationship = false
  reset : u.knownDisposition = .sessionReset → u.records = []

theorem parseUpdate_assembled (h : parseUpdate b context relationship direction limits = .ok u) :
    ∃ p, readUpdate b context relationship (direction.getD 2) limits = .ok p ∧
      Assembled relationship p u := by
  obtain ⟨p, hread, h⟩ := bind_eq_ok.1 h
  refine ⟨p, hread, ?_⟩
  have hsettle := places_settleRecords (b := b) p.knownAction p.records
  have hannounce : ∀ r ∈ (settleRecords b p.knownAction p.records).1, r.action = .announce →
      p.knownAction.rank ≤ 1 ∧ r ∈ p.records := fun _ => settle_announce
  have hreset : p.knownAction = .sessionReset → (settleRecords b p.knownAction p.records).1 = [] :=
    fun hknown => by rw [hknown, settleRecords]
  rcases hs : settleRecords b p.knownAction p.records with ⟨settled, suppressed, settledIssues⟩
  dsimp only at h
  rw [hs] at h hsettle hannounce hreset
  cases h
  by_cases hq : (p.relationshipUnresolved || p.localPrefMissing relationship &&
      decide (p.knownAction.rank < UpdateAction.treatAsWithdraw.rank)) = true
  · refine ⟨rfl, rfl, rfl, rfl, ?_, fun r hr => ?_, fun _ => if_pos hq⟩
    · unfold ParsedUpdate.places
      dsimp only
      rw [if_pos hq, if_pos hq, List.filterMap_append, List.filterMap_append, places_opaqueLayout,
        places_opaqueRoute, ← hsettle, List.map_nil, List.nil_append, List.nil_append]
      exact List.perm_append_comm
    · dsimp only at hr
      rw [if_pos hq] at hr
      cases hr
  · refine ⟨rfl, rfl, rfl, rfl, ?_, fun r hr haction => ?_, fun hknown => ?_⟩
    · unfold ParsedUpdate.places
      dsimp only
      rw [if_neg hq, if_neg hq, List.filterMap_append, List.filterMap_append, places_opaqueLayout,
        List.filterMap_nil, List.append_nil, ← hsettle]
      exact .refl _
    · dsimp only at hr
      rw [if_neg hq] at hr
      obtain ⟨hweak, hmem⟩ := hannounce r hr haction
      simp only [Bool.or_eq_true, Bool.and_eq_true, decide_eq_true_eq, not_or, not_and, not_lt,
        Bool.not_eq_true] at hq
      refine ⟨hmem, hweak, hq.1, ?_⟩
      by_contra hmissing
      have hrank := hq.2 (by simpa using hmissing)
      simp only [UpdateAction.rank] at hrank hweak
      omega
    · dsimp only
      rw [if_neg hq]
      exact hreset hknown

def routesOf (b : List U8) (context : LayoutContext) (sender : U8) (limits : Bgp.Limits)
    (withdrawn announced : List PrefixSpan) (es : List AttributeEnvelope) : List PrefixSpan :=
  withdrawn ++ es.flatMap (routesIn b context sender limits) ++ announced

theorem nodup_places {p stop : ℕ} {l : List PrefixSpan} (h : Within p stop l) :
    (l.map PrefixSpan.place).Nodup := by
  refine List.pairwise_map.2 (h.order.imp_of_mem fun {x y} hx _ hxy hsame => ?_)
  have hstart : x.start = y.start := congrArg Prod.fst hsame
  have hlt := (h.bounds x hx).2.1
  unfold Before at hxy
  omega

/-- An announcement of 203.0.113.0/24 with ORIGIN, AS_PATH and NEXT_HOP. -/
def sampleUpdate : List U8 :=
  List.replicate 16 255 ++ [0, 49, 2, 0, 0, 0, 20, 0x40, 1, 1, 0, 0x40, 2, 6, 2, 1, 0, 0, 253, 232,
    0x40, 3, 4, 192, 0, 2, 1, 24, 203, 0, 113]

def sampleContext : LayoutContext := ⟨4, ∅, ∅, ∅, false, ∅, false, false, ∅⟩

end Updates

end PcapEvidence.Bgp.Wire
