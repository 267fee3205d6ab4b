import PcapEvidence.BgpAttributeOrder

/-!
# The AS4 reconstruction from the accepted values

The reconstruction finds its values in the message. An accepted value was decoded there, so that its
octets are its own, its paths can be read again and the reconstruction only depends on the accepted
values.
-/

namespace PcapEvidence.Bgp.Wire

open FiniteMap History Mrt

section As4

variable {context : LayoutContext} {relationship : PeerRelationship} {sender : U8}
  {limits : Bgp.Limits} {b : List U8} {l l' : List Attribute} {s : AttributeParse}

namespace Attribute

def judged (context : LayoutContext) (relationship : PeerRelationship) (sender : U8)
    (limits : Bgp.Limits) (a : Attribute) : Disposition :=
  disposition a.code a.flags false a.flagsValid (a.valueValid context sender limits) context.asnWidth
    relationship

def acceptedValue (context : LayoutContext) (relationship : PeerRelationship) (sender : U8)
    (limits : Bgp.Limits) (l : List Attribute) (code : U8) : Option (List U8) :=
  (l.find? fun a => a.code = code &&
    a.judged context relationship sender limits = .action .acceptEvidenceOnly).map (·.value)

theorem acceptedValue_perm (hperm : l.Perm l') (hcodes : (l.map (·.code)).Nodup) (code : U8) :
    acceptedValue context relationship sender limits l code =
      acceptedValue context relationship sender limits l' code := by
  have hfilter : ∀ x : List Attribute,
      acceptedValue context relationship sender limits x code =
        ((x.filter (·.code = code)).find? fun a =>
          a.judged context relationship sender limits = .action .acceptEvidenceOnly).map (·.value) := by
    intro x
    rw [List.find?_filter]
    simp only [acceptedValue, decide_eq_true_eq, Bool.decide_and]
  rw [hfilter, hfilter, filter_code_eq code hperm hcodes]

theorem firstAccepted_value (hs : Holds context relationship sender limits b l s) (code : U8) :
    (firstAccepted s.ranges code).map (·.value) =
      acceptedValue context relationship sender limits l code := by
  have hcores : s.ranges.map AttributeRange.core =
      l.map fun a => (a.range context relationship sender limits []).core := by
    rw [← core_ranges l, ← hs.ranges, List.map_map]
    rfl
  have hfirst : (firstAccepted s.ranges code).map (·.value) =
      ((s.ranges.map AttributeRange.core).find? fun r => r.code = code &&
        r.disposition = .action .acceptEvidenceOnly).map (·.value) := by
    rw [List.find?_map, Option.map_map]
    rfl
  rw [hfirst, hcores, List.find?_map, Option.map_map]
  rfl

theorem attributeErrorDisposition_ne (code : U8) :
    attributeErrorDisposition code ≠ .acceptEvidenceOnly := by
  unfold attributeErrorDisposition
  split
  · decide
  · split <;> decide

theorem valueValid_of_accepted {a : Attribute}
    (h : a.judged context relationship sender limits = .action .acceptEvidenceOnly) :
    a.valueValid context sender limits = true := by
  by_contra hvalid
  rw [Bool.not_eq_true] at hvalid
  unfold judged at h
  rw [hvalid] at h
  generalize a.code = code, a.flags = flags, a.flagsValid = flagsValid at h
  unfold disposition at h
  split at h
  · split at h <;> cases h
  · split at h
    · cases h
    · split at h
      · cases h
      · split at h
        · cases h
        · split at h
          · cases relationship <;> cases h
          · rw [if_pos (by rfl)] at h
            exact attributeErrorDisposition_ne code (Disposition.action.inj h)

theorem item_of_valueValid {a : Attribute} (h : a.valueValid context sender limits = true) :
    a.decoded context sender limits = .ok (a.item context sender limits) := by
  unfold valueValid at h
  unfold item
  cases hdecoded : a.decoded context sender limits with
  | ok item => rfl
  | error e =>
    rw [hdecoded] at h
    cases h

theorem four_le_aggregator {a : Attribute} (hcode : a.code = 7)
    (h : a.valueValid context sender limits = true) : 4 ≤ a.value.length := by
  have hdecoded := item_of_valueValid h
  unfold decoded decodeAttributeValue alone at hdecoded
  dsimp only at hdecoded
  rw [hcode] at hdecoded
  change decodeAggregator a.value 0 (a.value.length - 0) context.asnWidth = _ at hdecoded
  unfold decodeAggregator at hdecoded
  obtain ⟨hlength, -⟩ := guard_eq_ok.1 hdecoded
  omega

theorem eight_le_as4Aggregator {a : Attribute} (hcode : a.code = 18)
    (h : a.valueValid context sender limits = true) : 8 ≤ a.value.length := by
  have hdecoded := item_of_valueValid h
  unfold decoded decodeAttributeValue alone at hdecoded
  dsimp only at hdecoded
  rw [hcode] at hdecoded
  obtain ⟨hlength, -⟩ := guard_eq_ok.1 hdecoded
  omega

theorem firstAccepted_carries (hs : Holds context relationship sender limits b l s) {code : U8}
    {r : AttributeRange} (h : firstAccepted s.ranges code = some r) :
    Carries b r.valueStart r.value ∧ ∃ a ∈ l, a.code = code ∧ a.value = r.value ∧
      a.valueValid context sender limits = true := by
  unfold firstAccepted at h
  have hmem := List.mem_of_find?_eq_some h
  have hfound := List.find?_some h
  rw [Bool.and_eq_true, decide_eq_true_eq, decide_eq_true_eq] at hfound
  obtain ⟨hcode, haccept⟩ := hfound
  have hcore : r.core ∈ l.map fun a => (a.range context relationship sender limits []).core := by
    rw [← core_ranges l, ← hs.ranges, List.map_map]
    exact List.mem_map.2 ⟨r, hmem, rfl⟩
  obtain ⟨a, ha, hsame⟩ := List.mem_map.1 hcore
  have hdisposition : a.judged context relationship sender limits = r.disposition :=
    congrArg AttributeRange.disposition hsame
  refine ⟨(hs.values r hmem).1, a, ha, ?_, congrArg AttributeRange.value hsame, ?_⟩
  · exact (congrArg AttributeRange.code hsame).trans hcode
  · exact valueValid_of_accepted (hdisposition.trans haccept)

end Attribute

def narrowValues (agg as4Agg : Option (List U8)) (aggregator : Option (U32 × U32)) :
    As4Status × Option (U32 × U32) :=
  match agg, as4Agg with
  | some base, some r =>
    if be16 base 0 ≠ 23456 then (.nonAsTransAggregatorDiscardAs4, aggregator)
    else (.oldNewAggregatorReconstructed, some (be32 r 0, be32 r 4))
  | _, _ => (.noAs4Path, aggregator)

def reconstruct (value : U8 → Option (List U8)) (mentioned : Bool) (path : List AsPathSegment)
    (aggregator : Option (U32 × U32)) (width : ℕ) (limits : Bgp.Limits) :
    Result (As4Status × List AsPathSegment × Option (U32 × U32)) :=
  if width = 0 then .ok (.unresolvedLayout, path, aggregator)
  else if width = 4 then
    .ok (if mentioned then .newNewDiscardAs4Attributes else .noAs4Path, path, aggregator)
  else
    let narrow := narrowValues (value 7) (value 18) aggregator
    let settled : Result (As4Status × List AsPathSegment) :=
      match narrow.1, value 2, value 17 with
      | .nonAsTransAggregatorDiscardAs4, _, _ => .ok (narrow.1, path)
      | _, some base, some four => do
        let basePath ← parseAsPath base 2 limits
        let fourPath ← parseAsPath four 4 limits
        .ok ((reconstructAs4Suffix basePath fourPath).2, (reconstructAs4Suffix basePath fourPath).1)
      | _, _, _ => .ok (narrow.1, path)
    settled.map fun r => (if (value 2).isNone && (value 17).isSome then .as4WithoutBasePath else r.1,
      r.2, narrow.2)

theorem as4Reconstruction_eq (hs : Attribute.Holds context relationship sender limits b l s)
    (attrs : PathAttributes) (width : ℕ) :
    as4Reconstruction b s.ranges attrs width limits =
      (reconstruct (Attribute.acceptedValue context relationship sender limits l)
        (l.any fun a => a.code = 17 || a.code = 18) attrs.asPath attrs.aggregator width limits).map
        fun x => (⟨x.1, x.2.1, x.2.2, (firstAccepted s.ranges 2).map (·.start),
          (firstAccepted s.ranges 17).map (·.start), (firstAccepted s.ranges 7).map (·.start),
          (firstAccepted s.ranges 18).map (·.start)⟩,
          { attrs with asPath := x.2.1, aggregator := x.2.2 }) := by
  have hmentioned : (s.ranges.any fun r => r.code = 17 || r.code = 18) =
      l.any fun a => a.code = 17 || a.code = 18 := by
    have hcodes := congrArg (List.any · fun code => code = 17 || code = 18) hs.codes
    simpa only [List.any_map, Function.comp_def] using hcodes
  have hvalue := Attribute.firstAccepted_value hs
  have hagg : ∀ r, firstAccepted s.ranges 7 = some r → be16 b r.valueStart = be16 r.value 0 := by
    intro r hr
    obtain ⟨hcarries, a, -, hcode, hvalue, hvalid⟩ := Attribute.firstAccepted_carries hs hr
    have hlength := Attribute.four_le_aggregator hcode hvalid
    rw [hvalue] at hlength
    exact hcarries.be16_inner (j := 0) (by omega)
  have has4Agg : ∀ r, firstAccepted s.ranges 18 = some r →
      be32 b r.valueStart = be32 r.value 0 ∧ be32 b (r.valueStart + 4) = be32 r.value 4 := by
    intro r hr
    obtain ⟨hcarries, a, -, hcode, hvalue, hvalid⟩ := Attribute.firstAccepted_carries hs hr
    have hlength := Attribute.eight_le_as4Aggregator hcode hvalid
    rw [hvalue] at hlength
    exact ⟨hcarries.be32_inner (j := 0) (by omega), hcarries.be32_inner (by omega)⟩
  unfold as4Reconstruction reconstruct
  rw [hmentioned]
  dsimp only
  by_cases hzero : width = 0
  · rw [if_pos hzero, if_pos hzero]
    rfl
  · rw [if_neg hzero, if_neg hzero]
    by_cases hfour : width = 4
    · rw [if_pos hfour, if_pos hfour]
      rfl
    · rw [if_neg hfour, if_neg hfour, ← hvalue 2, ← hvalue 7, ← hvalue 17, ← hvalue 18]
      generalize firstAccepted s.ranges 2 = base
      generalize firstAccepted s.ranges 17 = as4
      generalize firstAccepted s.ranges 7 = agg at hagg
      generalize firstAccepted s.ranges 18 = as4Agg at has4Agg
      have hnarrow : narrowAggregator b agg as4Agg attrs =
          narrowValues (agg.map (·.value)) (as4Agg.map (·.value)) attrs.aggregator := by
        cases agg with
        | none => rfl
        | some base =>
          cases as4Agg with
          | none => rfl
          | some r =>
            unfold narrowAggregator narrowValues
            dsimp only [Option.map]
            rw [hagg base rfl, (has4Agg r rfl).1, (has4Agg r rfl).2]
      rw [hnarrow]
      generalize narrowValues (agg.map (·.value)) (as4Agg.map (·.value)) attrs.aggregator = narrow
      obtain ⟨status, aggregator⟩ := narrow
      cases base with
      | none => cases as4 <;> cases status <;> rfl
      | some base =>
        cases as4 with
        | none => cases status <;> rfl
        | some four =>
          cases status
          case nonAsTransAggregatorDiscardAs4 => rfl
          all_goals
            dsimp only [Option.map]
            cases parseAsPath base.value 2 limits with
            | error e => rfl
            | ok basePath =>
              dsimp only [bind, Except.bind]
              cases parseAsPath four.value 4 limits with
              | error e => rfl
              | ok fourPath => rfl

theorem Attribute.acceptedValue_some {code : U8} {value : List U8}
    (h : Attribute.acceptedValue context relationship sender limits l code = some value) :
    ∃ a : Attribute, a.code = code ∧ a.value = value ∧
      a.valueValid context sender limits = true := by
  obtain ⟨a, hfind, hvalue⟩ := Option.map_eq_some_iff.1 h
  have hfound := List.find?_some hfind
  rw [Bool.and_eq_true, decide_eq_true_eq, decide_eq_true_eq] at hfound
  exact ⟨a, hfound.1, hvalue, valueValid_of_accepted hfound.2⟩

theorem parseAsPath_of_valid {a : Attribute} (hcode : a.code = 2) (hwidth : context.asnWidth ≠ 0)
    (h : a.valueValid context sender limits = true) :
    ∃ path, parseAsPath a.value context.asnWidth limits = .ok path := by
  have hdecoded := Attribute.item_of_valueValid h
  have halone : sliceOf a.value 0 a.value.length = a.value := by
    rw [sliceOf, List.take_length, List.drop_zero]
  unfold Attribute.decoded decodeAttributeValue Attribute.alone at hdecoded
  dsimp only at hdecoded
  rw [hcode, halone] at hdecoded
  change (decodeAsPath a.value 0 context.asnWidth limits).2 = _ at hdecoded
  unfold decodeAsPath at hdecoded
  rw [if_neg hwidth] at hdecoded
  cases hpath : parseAsPath a.value context.asnWidth limits with
  | ok path => exact ⟨path, rfl⟩
  | error e =>
    rw [hpath] at hdecoded
    cases hdecoded

theorem parseAs4Path_of_valid {a : Attribute} (hcode : a.code = 17)
    (h : a.valueValid context sender limits = true) :
    ∃ path, parseAsPath a.value 4 limits = .ok path := by
  have hdecoded := Attribute.item_of_valueValid h
  have halone : sliceOf a.value 0 a.value.length = a.value := by
    rw [sliceOf, List.take_length, List.drop_zero]
  unfold Attribute.decoded decodeAttributeValue Attribute.alone at hdecoded
  dsimp only at hdecoded
  rw [hcode, halone] at hdecoded
  change (decodeAs4Path a.value 0 limits).2 = _ at hdecoded
  unfold decodeAs4Path at hdecoded
  by_cases hshort : a.value.length < 6
  · rw [if_pos hshort] at hdecoded
    cases hdecoded
  · rw [if_neg hshort] at hdecoded
    cases hpath : parseAsPath a.value 4 limits with
    | ok path => exact ⟨path, rfl⟩
    | error e =>
      rw [hpath] at hdecoded
      cases hdecoded

theorem reconstruct_ok (mentioned : Bool) (path : List AsPathSegment)
    (aggregator : Option (U32 × U32)) : ∃ x, reconstruct
      (Attribute.acceptedValue context relationship sender limits l) mentioned path aggregator
      context.asnWidth limits = .ok x := by
  unfold reconstruct
  by_cases hzero : context.asnWidth = 0
  · rw [if_pos hzero]
    exact ⟨_, rfl⟩
  · rw [if_neg hzero]
    by_cases hfour : context.asnWidth = 4
    · rw [if_pos hfour]
      exact ⟨_, rfl⟩
    · rw [if_neg hfour]
      dsimp only
      generalize narrowValues _ _ aggregator = narrow
      obtain ⟨status, aggregator⟩ := narrow
      cases hbase : Attribute.acceptedValue context relationship sender limits l 2 with
      | none => cases status <;> exact ⟨_, rfl⟩
      | some base =>
        cases has4 : Attribute.acceptedValue context relationship sender limits l 17 with
        | none => cases status <;> exact ⟨_, rfl⟩
        | some four =>
          obtain ⟨a, hcode, rfl, hvalid⟩ := Attribute.acceptedValue_some hbase
          obtain ⟨a', hcode', rfl, hvalid'⟩ := Attribute.acceptedValue_some has4
          obtain ⟨basePath, hbasePath⟩ := parseAsPath_of_valid hcode hzero hvalid
          obtain ⟨fourPath, hfourPath⟩ := parseAs4Path_of_valid hcode' hvalid'
          have htwo : context.asnWidth = 2 := by
            unfold parseAsPath at hbasePath
            obtain ⟨hwidth, -⟩ := guard_eq_ok.1 hbasePath
            omega
          rw [htwo] at hbasePath
          cases status
          case nonAsTransAggregatorDiscardAs4 => exact ⟨_, rfl⟩
          all_goals
            dsimp only
            rw [hbasePath, hfourPath]
            exact ⟨_, rfl⟩

end As4

end PcapEvidence.Bgp.Wire
