import PcapEvidence.BgpValuePlace
import PcapEvidence.BgpWireLists

/-!
# The attributes of a message as a list

A section of complete envelopes with distinct codes is read as the list of its attributes. Every
occurrence is judged by its own value and flags, and only the mixture of the two next hops looks at
the codes before it.
-/

namespace PcapEvidence.Bgp.Wire

open FiniteMap History Mrt

def PrefixSpan.bare (x : PrefixSpan) : PrefixSpan := { x with start := 0, stop := 0 }

def AttributeRange.bare (r : AttributeRange) : AttributeRange :=
  { r with start := 0, stop := 0, valueStart := 0 }

/-- An occurrence without its place and without the mark of mixed next hops. -/
def AttributeRange.core (r : AttributeRange) : AttributeRange :=
  { r.bare with interpretation := .unsupported }

namespace Attribute

def lengthOctets (a : Attribute) : List U8 :=
  if a.flags &&& 0x10 ≠ 0 then Endian.big.putU16 (BitVec.ofNat 16 a.value.length)
  else [BitVec.ofNat 8 a.value.length]

def encode (a : Attribute) : List U8 := a.flags :: a.code :: (a.lengthOctets ++ a.value)

def Fits (a : Attribute) : Prop := a.value.length < if a.flags &&& 0x10 ≠ 0 then 65536 else 256

instance (a : Attribute) : Decidable a.Fits := inferInstanceAs (Decidable (_ < _))

def envelopeAt (a : Attribute) (p : ℕ) : AttributeEnvelope :=
  ⟨p, a.flags, a.code, p + (2 + a.lengthOctets.length), p + a.encode.length⟩

theorem length_encode (a : Attribute) :
    a.encode.length = 2 + a.lengthOctets.length + a.value.length := by
  simp only [encode, List.length_cons, List.length_append]
  omega

theorem carries_encode {b : List U8} {p : ℕ} {a : Attribute} : Carries b p a.encode ↔
    Carries b p (a.flags :: a.code :: a.lengthOctets) ∧
      Carries b (p + (2 + a.lengthOctets.length)) a.value := by
  have hsplit : a.encode = (a.flags :: a.code :: a.lengthOctets) ++ a.value := rfl
  have hlength : (a.flags :: a.code :: a.lengthOctets).length = 2 + a.lengthOctets.length := by
    simp only [List.length_cons]
    omega
  rw [hsplit, carries_append, hlength]

theorem read_encode {b : List U8} {p stop : ℕ} {a : Attribute} (h : Carries b p a.encode)
    (hp : p ≤ b.length) (hfits : a.Fits) (hstop : p + a.encode.length ≤ stop) :
    AttributeEnvelope.read b p stop = .complete (a.envelopeAt p) := by
  have hle := h.length_le hp
  have hlength := a.length_encode
  obtain ⟨hheader, -⟩ := carries_encode.1 h
  obtain ⟨-, hflags, hheader⟩ := carries_cons.1 hheader
  obtain ⟨-, hcode, hoctets⟩ := carries_cons.1 hheader
  have hread : ∀ {header : ℕ}, a.lengthOctets.length + 2 = header →
      (if byteAt b p &&& 0x10 ≠ 0 then 4 else 3) = header →
      (if byteAt b p &&& 0x10 ≠ 0 then (be16 b (p + 2)).toNat else (byteAt b (p + 2)).toNat) =
        a.value.length →
      AttributeEnvelope.read b p stop = .complete (a.envelopeAt p) := by
    intro header hoctet hheader hvalue
    have hthree : 3 ≤ header := by
      rw [← hheader]
      split <;> omega
    unfold AttributeEnvelope.read
    dsimp only
    rw [if_neg (by omega)]
    rw [hheader, hvalue, if_neg (by omega), if_neg (by omega), hflags, hcode]
    unfold envelopeAt
    rw [hlength]
    congr 2 <;> omega
  unfold lengthOctets at hoctets hread
  unfold Fits at hfits
  rw [hflags] at hread
  by_cases hextended : a.flags &&& 0x10 ≠ 0
  · rw [if_pos hextended] at hoctets hfits
    simp only [if_pos hextended] at hread
    obtain ⟨-, hvalue⟩ := carries_putU16.1 hoctets
    refine hread rfl rfl ?_
    rw [hvalue, BitVec.toNat_ofNat, Nat.mod_eq_of_lt hfits]
  · rw [if_neg hextended] at hoctets hfits
    simp only [if_neg hextended] at hread
    obtain ⟨-, hvalue⟩ := carries_single.1 hoctets
    refine hread rfl rfl ?_
    rw [hvalue, BitVec.toNat_ofNat, Nat.mod_eq_of_lt hfits]

section Judgement

variable (context : LayoutContext) (relationship : PeerRelationship) (sender : U8)
  (limits : Bgp.Limits) (a : Attribute)

def decoded : Result DecodedAttributeValue :=
  (decodeAttributeValue a.value a.alone context sender limits).2

/-- The value runs into a limit, which stops the whole message. -/
def Limited : Prop := ∃ e, a.decoded context sender limits = .error e ∧ e.code = .limitExceeded

def valueValid : Bool := (a.decoded context sender limits).toOption.isSome

def flagsValid : Bool := (attributeFlags a.code).all (a.flags &&& 0xc0 = ·)

def item : DecodedAttributeValue :=
  match a.decoded context sender limits with
  | .ok item => item
  | .error _ => ⟨.default, .invalidRetainedByHash, .none⟩

/-- The summary takes the value up. -/
def merged : Bool :=
  a.valueValid context sender limits && a.flagsValid &&
    (!isPeerDependent a.code || relationship = .internal)

def range (codes : List U8) : AttributeRange where
  code := a.code
  flags := a.flags
  start := 0
  stop := 0
  valueStart := 0
  value := a.value
  decoded := if a.valueValid context sender limits then
    some (a.item context sender limits).attributes else none
  interpretation := settledInterpretation a.code codes (a.item context sender limits).interpretation
    (a.valueValid context sender limits && a.flagsValid) relationship
  repetition := .first
  flagsValid := a.flagsValid
  disposition := disposition a.code a.flags false a.flagsValid (a.valueValid context sender limits)
    context.asnWidth relationship
  peerRelationship := if isPeerDependent a.code then some relationship else none
  peerRelationshipUnresolved := isPeerDependent a.code && relationship = .unknown

def withdrawn : List PrefixSpan :=
  match (a.item context sender limits).multiprotocol with
  | .withdrawn spans => spans
  | _ => []

def announced : List PrefixSpan :=
  match (a.item context sender limits).multiprotocol with
  | .announced spans => spans
  | _ => []

def summarize (s : PathAttributes × List U8) : PathAttributes × List U8 :=
  (if a.merged context relationship sender limits then
    (mergeAttribute s.1 (a.item context sender limits).attributes a.code (s.2 ++ [a.code])).1
  else s.1, s.2 ++ [a.code])

end Judgement

section Step

variable {context : LayoutContext} {relationship : PeerRelationship} {sender : U8}
  {limits : Bgp.Limits} {a : Attribute} {b : List U8} {p : ℕ} {s t : AttributeParse}

structure Adds (context : LayoutContext) (relationship : PeerRelationship) (sender : U8)
    (limits : Bgp.Limits) (a : Attribute) (p : ℕ) (s t : AttributeParse) (r : AttributeRange) :
    Prop where
  attributes : t.attributes =
    (a.summarize context relationship sender limits (s.attributes, s.ranges.map (·.code))).1
  ranges : t.ranges = s.ranges ++ [r]
  bare : r.bare = a.range context relationship sender limits (s.ranges.map (·.code) ++ [a.code])
  envelope : r.envelope = a.envelopeAt p
  withdrawn : t.mpWithdrawn = s.mpWithdrawn ++
    (a.withdrawn context sender limits).map (PrefixSpan.move (a.envelopeAt p).valueStart)
  announced : t.mpAnnounced = s.mpAnnounced ++
    (a.announced context sender limits).map (PrefixSpan.move (a.envelopeAt p).valueStart)
  malformed : t.malformed = none

theorem repetition_first {ranges : List AttributeRange} {code flags : U8} {value : List U8}
    (h : code ∉ ranges.map (·.code)) : repetition ranges code flags value = .first := by
  have hnone : ranges.filter (·.code = code) = [] := by
    apply List.filter_eq_nil_iff.2
    intro r hr hcode
    exact h (of_decide_eq_true hcode ▸ List.mem_map_of_mem hr)
  unfold repetition
  dsimp only
  rw [hnone, if_pos rfl]

theorem addAttribute_first (h : Carries b p a.encode) (hp : p ≤ b.length)
    (hnew : a.code ∉ s.ranges.map (·.code)) :
    (a.Limited context sender limits → ∃ e,
      addAttribute b context relationship sender limits s (a.envelopeAt p) = .error e) ∧
    (¬ a.Limited context sender limits → ∃ t r,
      addAttribute b context relationship sender limits s (a.envelopeAt p) = .ok t ∧
        Adds context relationship sender limits a p s t r) := by
  have hle := h.length_le hp
  have hlength := a.length_encode
  obtain ⟨-, hvalue⟩ := carries_encode.1 h
  have hend : (a.envelopeAt p).valueEnd = (a.envelopeAt p).valueStart + a.value.length := by
    unfold envelopeAt
    dsimp only
    omega
  have halike : Alike (fun x y => x = y.move (a.envelopeAt p).valueStart)
      (decodeAttributeValue b (a.envelopeAt p) context sender limits).2
      (a.decoded context sender limits) :=
    decodeAttributeValue_alike hvalue (by unfold envelopeAt; dsimp only; omega) hend rfl
  have hslice : sliceOf b (a.envelopeAt p).valueStart (a.envelopeAt p).valueEnd = a.value := by
    rw [hend]
    exact hvalue.sliceOf_eq
  have hduplicate : s.ranges.any (·.code = (a.envelopeAt p).code) = false := by
    apply List.any_eq_false.2
    intro r hr hcode
    have hsame : r.code = a.code := of_decide_eq_true hcode
    exact hnew (hsame ▸ List.mem_map_of_mem hr)
  have hrep : repetition s.ranges a.code a.flags a.value = .first := repetition_first hnew
  unfold addAttribute
  dsimp only
  rw [hslice]
  generalize decodeAttributeValue b (a.envelopeAt p) context sender limits = decoding at halike ⊢
  obtain ⟨valueIssues, result⟩ := decoding
  dsimp only at halike ⊢
  cases hdecoded : a.decoded context sender limits with
  | ok item =>
    rw [hdecoded] at halike
    cases result with
    | error f => exact halike.elim
    | ok item' =>
      obtain rfl : item' = item.move (a.envelopeAt p).valueStart := halike
      have hlimited : ¬ a.Limited context sender limits := by
        rintro ⟨e, he, -⟩
        rw [hdecoded] at he
        cases he
      have hitem : a.item context sender limits = item := by
        unfold Attribute.item
        rw [hdecoded]
      have hvalid : a.valueValid context sender limits = true := by
        unfold valueValid
        rw [hdecoded]
        rfl
      refine ⟨fun hlimit => absurd hlimit hlimited, fun _ => ⟨_, _, rfl, ?_, rfl, ?_, rfl, ?_, ?_, rfl⟩⟩
      · unfold summarize merged
        rw [hvalid, hitem, hduplicate, Bool.not_false, Bool.and_true, apply_ite Prod.fst]
        rfl
      · unfold range AttributeRange.bare
        rw [hvalid, hitem, ← hrep, ← hduplicate]
        rfl
      · unfold Attribute.withdrawn
        rw [hitem]
        change _ ++ (match item.multiprotocol.move _ with
          | .withdrawn spans => spans
          | _ => []) = _
        cases item.multiprotocol <;> rfl
      · unfold Attribute.announced
        rw [hitem]
        change _ ++ (match item.multiprotocol.move _ with
          | .announced spans => spans
          | _ => []) = _
        cases item.multiprotocol <;> rfl
  | error f =>
    rw [hdecoded] at halike
    cases result with
    | ok item' => exact halike.elim
    | error f' =>
      have hcode : f'.code = .limitExceeded ↔ f.code = .limitExceeded := halike
      have hlimited : a.Limited context sender limits ↔ f.code = .limitExceeded := by
        unfold Limited
        rw [hdecoded]
        constructor
        · rintro ⟨e, he, hcode⟩
          cases he
          exact hcode
        · exact fun hcode => ⟨f, rfl, hcode⟩
      have hitem : a.item context sender limits = ⟨.default, .invalidRetainedByHash, .none⟩ := by
        unfold Attribute.item
        rw [hdecoded]
      have hvalid : a.valueValid context sender limits = false := by
        unfold valueValid
        rw [hdecoded]
        rfl
      dsimp only
      constructor
      · intro hlimit
        rw [if_pos (hcode.2 (hlimited.1 hlimit))]
        exact ⟨f', rfl⟩
      · intro hlimit
        rw [if_neg (hcode.not.2 (hlimited.not.1 hlimit))]
        refine ⟨_, _, rfl, ?_, rfl, ?_, rfl, ?_, ?_, rfl⟩
        · unfold summarize merged
          rw [hvalid]
          rfl
        · unfold range AttributeRange.bare
          rw [hvalid, hitem, ← hrep, ← hduplicate]
          rfl
        · unfold Attribute.withdrawn
          rw [hitem]
          rfl
        · unfold Attribute.announced
          rw [hitem]
          rfl

end Step

section Run

variable (context : LayoutContext) (relationship : PeerRelationship) (sender : U8)
  (limits : Bgp.Limits)

def summary (l : List Attribute) : PathAttributes × List U8 :=
  l.foldl (fun s a => a.summarize context relationship sender limits s) (.default, [])

def ranges (l : List Attribute) : List AttributeRange :=
  l.foldl (fun rs a => rs ++
    [a.range context relationship sender limits (rs.map (·.code) ++ [a.code])]) []

/-- What has been read of a message are these attributes. -/
structure Holds (b : List U8) (l : List Attribute) (s : AttributeParse) : Prop where
  attributes : s.attributes = (summary context relationship sender limits l).1
  ranges : s.ranges.map AttributeRange.bare = ranges context relationship sender limits l
  values : ∀ r ∈ s.ranges, Carries b r.valueStart r.value ∧ r.valueStart ≤ b.length
  withdrawn : s.mpWithdrawn.map PrefixSpan.bare =
    l.flatMap fun a => (a.withdrawn context sender limits).map PrefixSpan.bare
  announced : s.mpAnnounced.map PrefixSpan.bare =
    l.flatMap fun a => (a.announced context sender limits).map PrefixSpan.bare
  malformed : s.malformed = none

/-- The attributes are as many as a message may have, and none runs into a limit. -/
def Readable (l : List Attribute) : Prop :=
  l.length ≤ limits.elements ∧ ∀ a ∈ l, ¬ a.Limited context sender limits

variable {context relationship sender limits} {b : List U8} {l more : List Attribute} {a : Attribute}

theorem summary_snoc : summary context relationship sender limits (l ++ [a]) =
    a.summarize context relationship sender limits (summary context relationship sender limits l) := by
  rw [summary, List.foldl_append]
  rfl

theorem ranges_snoc : ranges context relationship sender limits (l ++ [a]) =
    ranges context relationship sender limits l ++ [a.range context relationship sender limits
      ((ranges context relationship sender limits l).map (·.code) ++ [a.code])] := by
  rw [ranges, List.foldl_append]
  rfl

theorem codes_ranges (l : List Attribute) :
    (ranges context relationship sender limits l).map (·.code) = l.map (·.code) := by
  induction l using List.reverseRecOn with
  | nil => rfl
  | append_singleton l a ih =>
    rw [ranges_snoc, List.map_append, ih, List.map_append]
    rfl

theorem codes_summary (l : List Attribute) :
    (summary context relationship sender limits l).2 = l.map (·.code) := by
  induction l using List.reverseRecOn with
  | nil => rfl
  | append_singleton l a ih =>
    rw [summary_snoc, List.map_append, ← ih]
    rfl

theorem holds_start : Holds context relationship sender limits b [] .start :=
  ⟨rfl, rfl, (by simp [AttributeParse.start]), rfl, rfl, rfl⟩

theorem Holds.codes {s : AttributeParse} (h : Holds context relationship sender limits b l s) :
    s.ranges.map (·.code) = l.map (·.code) := by
  rw [← codes_ranges l, ← h.ranges, List.map_map]
  rfl

theorem Holds.snoc {s t : AttributeParse} {r : AttributeRange} {p : ℕ}
    (h : Holds context relationship sender limits b l s)
    (hadds : Adds context relationship sender limits a p s t r)
    (hcarries : Carries b p a.encode) (hp : p ≤ b.length) :
    Holds context relationship sender limits b (l ++ [a]) t := by
  have hle := hcarries.length_le hp
  have hlength := a.length_encode
  obtain ⟨-, hvalue⟩ := carries_encode.1 hcarries
  have hcodes : s.ranges.map (·.code) = (summary context relationship sender limits l).2 := by
    rw [h.codes, codes_summary]
  refine ⟨?_, ?_, ?_, ?_, ?_, hadds.malformed⟩
  · rw [hadds.attributes, h.attributes, hcodes, summary_snoc]
  · rw [hadds.ranges, List.map_append, h.ranges, ranges_snoc, List.map_singleton, hadds.bare,
      h.codes, codes_ranges]
  · intro q hq
    rw [hadds.ranges] at hq
    obtain hq | hq := List.mem_append.1 hq
    · exact h.values q hq
    · obtain rfl := List.mem_singleton.1 hq
      have hstart : q.valueStart = p + (2 + a.lengthOctets.length) :=
        congrArg AttributeEnvelope.valueStart hadds.envelope
      have hoctets : q.value = a.value := congrArg AttributeRange.value hadds.bare
      rw [hstart, hoctets]
      exact ⟨hvalue, by omega⟩
  · rw [hadds.withdrawn, List.map_append, h.withdrawn, List.flatMap_append, List.map_map,
      List.flatMap_singleton]
    rfl
  · rw [hadds.announced, List.map_append, h.announced, List.flatMap_append, List.map_map,
      List.flatMap_singleton]
    rfl

theorem attributes_read {stop p fuel : ℕ} {s : AttributeParse}
    (hs : Holds context relationship sender limits b l s)
    (hcarries : Carries b p (more.flatMap encode)) (hp : p ≤ b.length)
    (hstop : stop = p + (more.flatMap encode).length) (hfits : ∀ a ∈ more, a.Fits)
    (hcodes : ((l ++ more).map (·.code)).Nodup) (hread : Readable context sender limits l)
    (hfuel : stop - p ≤ fuel) :
    (∀ t, attributes b stop context relationship sender limits fuel p s = .ok t →
      Readable context sender limits (l ++ more) ∧
        Holds context relationship sender limits b (l ++ more) t) ∧
    (Readable context sender limits (l ++ more) →
      ∃ t, attributes b stop context relationship sender limits fuel p s = .ok t) := by
  induction more generalizing p fuel l s with
  | nil =>
    have hdone : attributes b stop context relationship sender limits fuel p s = .ok s := by
      cases fuel with
      | zero => rfl
      | succ fuel =>
        unfold attributes
        exact if_pos hstop.le
    rw [hdone, List.append_nil]
    constructor
    · rintro t ht
      cases ht
      exact ⟨hread, hs⟩
    · exact fun _ => ⟨s, rfl⟩
  | cons a more ih =>
    rw [List.flatMap_cons] at hcarries hstop
    rw [List.length_append] at hstop
    obtain ⟨hfirst, hrest⟩ := carries_append.1 hcarries
    have hle := hfirst.length_le hp
    have hlength := a.length_encode
    have hcount : s.ranges.length = l.length := by
      simpa only [List.length_map] using congrArg List.length hs.codes
    have hnew : a.code ∉ s.ranges.map (·.code) := by
      rw [hs.codes]
      rw [List.map_append, List.map_cons] at hcodes
      exact fun hmem => List.disjoint_of_nodup_append hcodes hmem (by simp)
    have hsplit : l ++ a :: more = l ++ [a] ++ more := by simp
    obtain ⟨hlimited, hadd⟩ :=
      @addAttribute_first context relationship sender limits a b p s hfirst hp hnew
    cases fuel with
    | zero => omega
    | succ fuel =>
      unfold attributes
      rw [if_neg (by omega), hcount]
      by_cases hfull : l.length ≥ limits.elements
      · rw [if_pos hfull]
        constructor
        · intro t ht
          cases ht
        · rintro ⟨hcount, -⟩
          simp only [List.length_append, List.length_cons] at hcount
          omega
      · rw [if_neg hfull, read_encode hfirst hp (hfits a (by simp)) (by omega)]
        dsimp only
        by_cases hstops : a.Limited context sender limits
        · obtain ⟨e, he⟩ := hlimited hstops
          rw [he]
          constructor
          · intro t ht
            cases ht
          · rintro ⟨-, hnone⟩
            exact absurd hstops (hnone a (by simp))
        · obtain ⟨t, r, hok, hadds⟩ := hadd hstops
          rw [hok, hsplit]
          have hread' : Readable context sender limits (l ++ [a]) := by
            refine ⟨by simp only [List.length_append, List.length_singleton]; omega, ?_⟩
            intro q hq
            obtain hq | hq := List.mem_append.1 hq
            · exact hread.2 q hq
            · rw [List.mem_singleton.1 hq]
              exact hstops
          exact ih (hs.snoc hadds hfirst hp) hrest hle (by unfold envelopeAt; dsimp only; omega)
            (fun q hq => hfits q (List.mem_cons_of_mem _ hq)) (hsplit ▸ hcodes) hread'
            (by unfold envelopeAt; dsimp only; omega)

end Run

end Attribute

end PcapEvidence.Bgp.Wire
