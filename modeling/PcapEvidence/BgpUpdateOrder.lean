import PcapEvidence.BgpAs4Values

/-!
# UPDATE messages with their attributes in another order

What an UPDATE asks for, what it misses and the routes it carries do not depend on the order of its
attributes. Only the next hop of the routes can differ: the second of NEXT_HOP and MP_REACH_NLRI
clears it when it is taken up, and a refused NEXT_HOP is not.
-/

namespace PcapEvidence.Bgp.Wire

open FiniteMap History Mrt

structure UpdateMessage where
  head : List U8
  withdrawn : List U8
  attributes : List Attribute
  announced : List U8

namespace UpdateMessage

def attributeOctets (m : UpdateMessage) : List U8 := m.attributes.flatMap Attribute.encode

def encode (m : UpdateMessage) : List U8 :=
  m.head ++ Endian.big.putU16 (BitVec.ofNat 16 m.withdrawn.length) ++ m.withdrawn ++
    Endian.big.putU16 (BitVec.ofNat 16 m.attributeOctets.length) ++ m.attributeOctets ++ m.announced

structure Fits (m : UpdateMessage) : Prop where
  head : m.head.length = 19
  withdrawn : m.withdrawn.length < 65536
  attributes : m.attributeOctets.length < 65536
  each : ∀ a ∈ m.attributes, a.Fits

def reorder (m : UpdateMessage) (l : List Attribute) : UpdateMessage := { m with attributes := l }

def layout (m : UpdateMessage) : UpdateLayout := ⟨m.withdrawn.length, m.attributeOctets.length⟩

theorem length_encode (m : UpdateMessage) : m.encode.length = m.head.length + 2 +
    m.withdrawn.length + 2 + m.attributeOctets.length + m.announced.length := by
  simp only [encode, List.length_append, Endian.length_putU16]

theorem carries (m : UpdateMessage) (h : m.Fits) :
    be16 m.encode 19 = BitVec.ofNat 16 m.withdrawn.length ∧
      Carries m.encode 21 m.withdrawn ∧
      be16 m.encode (21 + m.withdrawn.length) = BitVec.ofNat 16 m.attributeOctets.length ∧
      Carries m.encode m.layout.attributesStart m.attributeOctets ∧
      Carries m.encode m.layout.attributesEnd m.announced := by
  have hall := carries_self m.encode
  nth_rewrite 2 [encode] at hall
  obtain ⟨hall, hannounced⟩ := carries_append.1 hall
  obtain ⟨hall, hattributes⟩ := carries_append.1 hall
  obtain ⟨hall, hlength⟩ := carries_append.1 hall
  obtain ⟨hall, hwithdrawn⟩ := carries_append.1 hall
  obtain ⟨hall, hwithdrawnLength⟩ := carries_append.1 hall
  simp only [List.length_append, Endian.length_putU16, h.head, Nat.zero_add] at hannounced hattributes hlength hwithdrawn hwithdrawnLength
  refine ⟨(carries_putU16.1 hwithdrawnLength).2, hwithdrawn, (carries_putU16.1 hlength).2, ?_, ?_⟩
  · have hstart : m.layout.attributesStart = 19 + 2 + m.withdrawn.length + 2 := rfl
    rw [hstart]
    exact hattributes
  · have hend : m.layout.attributesEnd = 19 + 2 + m.withdrawn.length + 2 + m.attributeOctets.length :=
      rfl
    rw [hend]
    exact hannounced

theorem read_layout (m : UpdateMessage) (h : m.Fits) :
    UpdateLayout.read m.encode = .ok m.layout := by
  obtain ⟨hwithdrawn, -, hattributes, -, -⟩ := m.carries h
  have hlength := m.length_encode
  have hhead := h.head
  have hend : m.layout.attributesEnd = 21 + m.withdrawn.length + 2 + m.attributeOctets.length := rfl
  have h16 : (BitVec.ofNat 16 m.withdrawn.length).toNat = m.withdrawn.length := by
    rw [BitVec.toNat_ofNat, Nat.mod_eq_of_lt h.withdrawn]
  have h16' : (BitVec.ofNat 16 m.attributeOctets.length).toNat = m.attributeOctets.length := by
    rw [BitVec.toNat_ofNat, Nat.mod_eq_of_lt h.attributes]
  have hneed : ∀ stop field, stop ≤ m.encode.length → need m.encode stop field = .ok () :=
    fun stop field hstop => if_neg (not_lt.2 hstop)
  unfold UpdateLayout.read
  dsimp only
  rw [hneed 23 _ (by omega), hwithdrawn, h16, hneed _ _ (by omega), hattributes, h16']
  change (need m.encode m.layout.attributesEnd _ >>= fun _ => _) = _
  rw [hneed _ _ (by omega)]
  rfl

section Reading

variable (context : LayoutContext) (relationship : PeerRelationship) (sender : U8)
  (limits : Bgp.Limits)

def fieldAt (b : List U8) (start stop : ℕ) : Result (List PrefixSpan) :=
  if (sender, 1, 1) ∈ context.unresolvedAddPath then .ok []
  else prefixList b start stop 1 1 (decide ((sender, 1, 1) ∈ context.addPath)) limits

def fieldRead (field : List U8) : Result (List PrefixSpan) :=
  fieldAt context sender limits field 0 field.length

structure Readable (m : UpdateMessage) (withdrawn announced : List PrefixSpan) : Prop where
  withdrawn : fieldRead context sender limits m.withdrawn = .ok withdrawn
  attributes : Attribute.Readable context sender limits m.attributes
  announced : fieldRead context sender limits m.announced = .ok announced

structure Reads (m : UpdateMessage) (u : UpdateParts) (withdrawn announced : List PrefixSpan)
    (x : As4Status × List AsPathSegment × Option (U32 × U32)) : Prop where
  layout : u.layout = m.layout
  withdrawn : u.withdrawn.map PrefixSpan.bare = withdrawn.map PrefixSpan.bare
  announced : u.announced.map PrefixSpan.bare = announced.map PrefixSpan.bare
  parse : Attribute.Holds context relationship sender limits m.encode m.attributes u.parse
  as4 : reconstruct (Attribute.acceptedValue context relationship sender limits m.attributes)
    (m.attributes.any fun a => a.code = 17 || a.code = 18)
    (Attribute.summary context relationship sender limits m.attributes).1.asPath
    (Attribute.summary context relationship sender limits m.attributes).1.aggregator
    context.asnWidth limits = .ok x
  status : u.as4.status = x.1
  path : u.as4.effectiveAsPath = x.2.1
  attributes : u.attributes =
    { (Attribute.summary context relationship sender limits m.attributes).1 with
      asPath := x.2.1
      aggregator := x.2.2 }
  ranges : u.ranges = u.parse.ranges.map (discardUnusedAs4 u.as4.status)

variable {context relationship sender limits} {m : UpdateMessage}

theorem fieldAt_alike {b field : List U8} {p stop : ℕ} (h : Carries b p field) (hp : p ≤ b.length)
    (hstop : stop = p + field.length) : Alike (fun x y => x = y.map (PrefixSpan.move p))
      (fieldAt context sender limits b p stop) (fieldRead context sender limits field) := by
  unfold fieldRead fieldAt
  apply alike_ite Iff.rfl
  · exact fun _ => alike_ok rfl
  · intro _
    rw [hstop]
    exact prefixList_alike h hp (Nat.zero_le _)

theorem readUpdate_eq (b : List U8) : readUpdate b context relationship sender limits = (do
    let layout ← UpdateLayout.read b
    let withdrawn ← fieldAt context sender limits b 21 layout.withdrawnEnd
    let parse ← parseAttributes b layout.attributesStart layout.attributesEnd context relationship
      sender limits
    let as4 ← as4Reconstruction b parse.ranges parse.attributes context.asnWidth limits
    let announced ← fieldAt context sender limits b layout.attributesEnd b.length
    .ok ⟨layout, withdrawn, parse, as4.1, as4.2, parse.ranges.map (discardUnusedAs4 as4.1.status),
      announced⟩) := by
  unfold readUpdate fieldAt
  by_cases hbase : (sender, 1, 1) ∈ context.unresolvedAddPath
  · simp only [hbase, decide_true, if_true]
  · simp only [hbase, decide_false, Bool.false_eq_true, if_false]

theorem bare_of_move {spans fields : List PrefixSpan} {p : ℕ}
    (h : spans = fields.map (PrefixSpan.move p)) :
    spans.map PrefixSpan.bare = fields.map PrefixSpan.bare := by
  rw [h, List.map_map]
  rfl

theorem readUpdate_encode (h : m.Fits) (hcodes : (m.attributes.map (·.code)).Nodup) :
    (∀ u, readUpdate m.encode context relationship sender limits = .ok u →
      ∃ withdrawn announced x, m.Readable context sender limits withdrawn announced ∧
        m.Reads context relationship sender limits u withdrawn announced x) ∧
    (∀ withdrawn announced, m.Readable context sender limits withdrawn announced →
      ∃ u, readUpdate m.encode context relationship sender limits = .ok u) := by
  obtain ⟨-, hwithdrawn, -, hattributes, hannounced⟩ := m.carries h
  have hlength := m.length_encode
  have hhead := h.head
  have hstart : m.layout.attributesStart = 21 + m.withdrawn.length + 2 := rfl
  have hend : m.layout.attributesEnd = 21 + m.withdrawn.length + 2 + m.attributeOctets.length := rfl
  have hw := (@fieldAt_alike context sender limits _ _ _ m.layout.withdrawnEnd hwithdrawn
    (by omega) rfl).ok_iff
  have ha := (@fieldAt_alike context sender limits _ _ _ m.encode.length hannounced (by omega)
    (by omega)).ok_iff
  obtain ⟨hparse, hreadable⟩ := @Attribute.attributes_read context relationship sender limits
    m.encode [] m.attributes m.layout.attributesEnd m.layout.attributesStart
    (m.layout.attributesEnd - m.layout.attributesStart) .start Attribute.holds_start hattributes
    (by omega) (by rw [hend, hstart]; rfl) h.each (by simpa using hcodes) ⟨by simp, by simp⟩ le_rfl
  rw [List.nil_append] at hparse hreadable
  rw [readUpdate_eq, m.read_layout h]
  obtain ⟨x, hx⟩ := @reconstruct_ok context relationship sender limits m.attributes
    (m.attributes.any fun a => a.code = 17 || a.code = 18)
    (Attribute.summary context relationship sender limits m.attributes).1.asPath
    (Attribute.summary context relationship sender limits m.attributes).1.aggregator
  have hstate : ∀ t, Attribute.Holds context relationship sender limits m.encode m.attributes t →
      ∃ as4, as4Reconstruction m.encode t.ranges t.attributes context.asnWidth limits = .ok as4 ∧
        as4.1.status = x.1 ∧ as4.1.effectiveAsPath = x.2.1 ∧ as4.2 =
          { (Attribute.summary context relationship sender limits m.attributes).1 with
            asPath := x.2.1
            aggregator := x.2.2 } := by
    intro t ht
    rw [as4Reconstruction_eq ht, ht.attributes, hx]
    exact ⟨_, rfl, rfl, rfl, rfl⟩
  constructor
  · intro u hu
    obtain ⟨_, hl, hu⟩ := bind_eq_ok.1 hu
    cases hl
    obtain ⟨w, hwok, hu⟩ := bind_eq_ok.1 hu
    obtain ⟨t, htok, hu⟩ := bind_eq_ok.1 hu
    obtain ⟨as4, has4ok, hu⟩ := bind_eq_ok.1 hu
    obtain ⟨a, haok, hu⟩ := bind_eq_ok.1 hu
    cases hu
    obtain ⟨hread, hholds⟩ := hparse t htok
    obtain ⟨as4', hok', hstatus, hpath, hattrs⟩ := hstate t hholds
    obtain rfl : as4 = as4' := Except.ok.inj (has4ok.symm.trans hok')
    obtain ⟨withdrawn, hwread, hw⟩ := hw.1 w hwok
    obtain ⟨announced, haread, ha⟩ := ha.1 a haok
    exact ⟨withdrawn, announced, x, ⟨hwread, hread, haread⟩, rfl, bare_of_move hw, bare_of_move ha,
      hholds, hx, hstatus, hpath, hattrs, rfl⟩
  · rintro withdrawn announced ⟨hwread, hread, haread⟩
    obtain ⟨w, hwok⟩ := hw.2 withdrawn hwread
    obtain ⟨a, haok⟩ := ha.2 announced haread
    obtain ⟨t, htok⟩ := hreadable hread
    obtain ⟨-, hholds⟩ := hparse t htok
    obtain ⟨as4, has4ok, -⟩ := hstate t hholds
    exact ⟨_, bind_eq_ok.2 ⟨_, rfl, bind_eq_ok.2 ⟨w, hwok, bind_eq_ok.2 ⟨t, htok,
      bind_eq_ok.2 ⟨as4, has4ok, bind_eq_ok.2 ⟨a, haok, rfl⟩⟩⟩⟩⟩⟩

end Reading

end UpdateMessage

section Twins

def RouteRecord.content (r : RouteRecord) : RouteAction × Prefix × Option U32 × PathAttributes :=
  (r.action, r.route, r.pathId, r.attributes)

structure Twins (u v : UpdateParts) : Prop where
  layout : u.layout = v.layout
  withdrawn : u.withdrawn.map PrefixSpan.bare = v.withdrawn.map PrefixSpan.bare
  announced : u.announced.map PrefixSpan.bare = v.announced.map PrefixSpan.bare
  mpWithdrawn : (u.parse.mpWithdrawn.map PrefixSpan.bare).Perm
    (v.parse.mpWithdrawn.map PrefixSpan.bare)
  mpAnnounced : (u.parse.mpAnnounced.map PrefixSpan.bare).Perm
    (v.parse.mpAnnounced.map PrefixSpan.bare)
  ranges : (u.ranges.map AttributeRange.core).Perm (v.ranges.map AttributeRange.core)
  malformed : u.parse.malformed = v.parse.malformed
  status : u.as4.status = v.as4.status
  path : u.as4.effectiveAsPath = v.as4.effectiveAsPath
  attributes : { u.attributes with nextHop := none } = { v.attributes with nextHop := none }

variable {u v : UpdateParts}

theorem discardUnusedAs4_core (status : As4Status) (r : AttributeRange) :
    (discardUnusedAs4 status r).core = discardUnusedAs4 status r.core := by
  unfold discardUnusedAs4
  split <;> split <;> first | rfl | contradiction

theorem strongest_right_comm (a b c : UpdateAction) :
    strongest (strongest a b) c = strongest (strongest a c) b := by
  cases a <;> cases b <;> cases c <;> rfl

instance : RightCommutative strongest := ⟨strongest_right_comm⟩

namespace Twins
variable (h : Twins u v)
include h

theorem announced_nil : u.announced = [] ↔ v.announced = [] := by
  rw [← List.map_eq_nil_iff (f := PrefixSpan.bare), h.announced, List.map_eq_nil_iff]

theorem mpAnnounced_nil : u.parse.mpAnnounced = [] ↔ v.parse.mpAnnounced = [] := by
  have hcount := h.mpAnnounced.length_eq
  rw [List.length_map, List.length_map] at hcount
  rw [← List.length_eq_zero_iff, ← List.length_eq_zero_iff, hcount]

theorem filterMap_perm {β : Type} {f : AttributeRange → Option β}
    (hf : ∀ r, f r.core = f r) : (u.ranges.filterMap f).Perm (v.ranges.filterMap f) := by
  have hcore := h.ranges.filterMap f
  rwa [List.filterMap_map, List.filterMap_map, show f ∘ AttributeRange.core = f from funext hf]
    at hcore

theorem any_eq {f : AttributeRange → Bool} (hf : ∀ r, f r.core = f r) :
    u.ranges.any f = v.ranges.any f := by
  have hcore : (u.ranges.map AttributeRange.core).any f = (v.ranges.map AttributeRange.core).any f :=
    h.ranges.any_eq
  rwa [List.any_map, List.any_map, show f ∘ AttributeRange.core = f from funext hf] at hcore

theorem attributeAction_eq :
    attributeAction u.parse.malformed u.ranges = attributeAction v.parse.malformed v.ranges := by
  unfold attributeAction
  rw [h.malformed]
  exact (h.filterMap_perm fun _ => rfl).foldl_eq _

theorem missing_eq : u.missing = v.missing := by
  have hcodes : ∀ code : U8,
      ((u.ranges.filter fun r => r.disposition = .action .acceptEvidenceOnly).map (·.code)).contains
        code = ((v.ranges.filter fun r =>
          r.disposition = .action .acceptEvidenceOnly).map (·.code)).contains code := by
    intro code
    have hpresent : ∀ ranges : List AttributeRange, ((ranges.filter fun r =>
        r.disposition = .action .acceptEvidenceOnly).map (·.code)).contains code =
          ranges.any fun r => decide (r.disposition = .action .acceptEvidenceOnly) &&
            decide (r.code = code) := by
      intro ranges
      rw [Bool.eq_iff_iff, List.contains_iff_mem]
      simp [and_assoc]
    rw [hpresent, hpresent]
    exact h.any_eq fun _ => rfl
  unfold UpdateParts.missing missingMandatory
  dsimp only
  simp only [hcodes, h.announced_nil, h.mpAnnounced_nil]

theorem knownAction_eq : u.knownAction = v.knownAction := by
  unfold UpdateParts.knownAction
  rw [h.attributeAction_eq, h.missing_eq]
  have hcount : u.announced.length + u.parse.mpAnnounced.length =
      v.announced.length + v.parse.mpAnnounced.length := by
    have ha := congrArg List.length h.announced
    have hm := h.mpAnnounced.length_eq
    rw [List.length_map, List.length_map] at ha hm
    rw [ha, hm]
  rw [hcount]

theorem relationshipUnresolved_eq : u.relationshipUnresolved = v.relationshipUnresolved :=
  h.any_eq fun _ => rfl

theorem localPrefMissing_eq (relationship : PeerRelationship) :
    u.localPrefMissing relationship = v.localPrefMissing relationship := by
  unfold UpdateParts.localPrefMissing
  rw [@any_eq u v h (fun r => r.code = 5) fun _ => rfl]
  simp only [h.announced_nil, h.mpAnnounced_nil, ne_eq]

omit h

end Twins

end Twins

section Published

variable {b b' : List U8} {context : LayoutContext} {relationship : PeerRelationship}
  {direction : Option U8} {limits : Bgp.Limits} {u v : UpdateParts}

def settleContents (known : UpdateAction)
    (l : List (RouteAction × Prefix × Option U32 × PathAttributes)) :
    List (RouteAction × Prefix × Option U32 × PathAttributes) :=
  match known with
  | .treatAsWithdraw => l.map fun c => (.withdraw, c.2)
  | .sessionReset => []
  | .acceptEvidenceOnly | .attributeDiscard => l

namespace UpdateParts

/-- The routes wait for a decision of someone else. -/
def heldBack (u : UpdateParts) (relationship : PeerRelationship) : Bool :=
  u.relationshipUnresolved || (u.localPrefMissing relationship &&
    u.knownAction.rank < UpdateAction.treatAsWithdraw.rank)

def published (u : UpdateParts) (relationship : PeerRelationship) :
    List (RouteAction × Prefix × Option U32 × PathAttributes) :=
  if u.heldBack relationship then []
  else settleContents u.knownAction (u.records.map RouteRecord.content)

end UpdateParts

theorem content_settleRecords (known : UpdateAction) (records : List RouteRecord) :
    (settleRecords b known records).1.map RouteRecord.content =
      settleContents known (records.map RouteRecord.content) := by
  cases known with
  | acceptEvidenceOnly | attributeDiscard | sessionReset => rfl
  | treatAsWithdraw =>
    unfold settleRecords settleContents
    rw [List.map_map, List.map_map]
    rfl

theorem parseUpdate_of_read
    (h : readUpdate b context relationship (direction.getD 2) limits = .ok u) :
    ∃ x, parseUpdate b context relationship direction limits = .ok x ∧
      x.knownDisposition = u.knownAction ∧
      x.records.map RouteRecord.content = u.published relationship ∧
      x.missingMandatory = u.missing ∧
      x.endOfRib = endOfRib b u.layout.withdrawnLen u.layout.attributeLen u.layout.attributesEnd
        u.ranges ∧
      x.as4Reconstruction = u.as4 ∧ x.attributeRanges = u.ranges := by
  unfold parseUpdate
  dsimp only
  rw [h]
  refine ⟨_, rfl, rfl, ?_, rfl, rfl, rfl, rfl⟩
  unfold UpdateParts.published UpdateParts.heldBack
  dsimp only
  rw [apply_ite (List.map RouteRecord.content), content_settleRecords]
  rfl

theorem records_contents (u : UpdateParts) : u.records.map RouteRecord.content =
    (u.withdrawn.map PrefixSpan.bare).map (fun s => (.withdraw, s.route, s.pathId, .default)) ++
      (u.parse.mpWithdrawn.map PrefixSpan.bare).map
        (fun s => (.withdraw, s.route, s.pathId, u.attributes)) ++
      (u.announced.map PrefixSpan.bare ++ u.parse.mpAnnounced.map PrefixSpan.bare).map
        (fun s => (.announce, s.route, s.pathId, u.attributes)) := by
  unfold UpdateParts.records
  simp only [List.map_append, List.map_map]
  rfl

theorem Twins.records_perm (h : Twins u v) (hsame : u.attributes = v.attributes) :
    (u.records.map RouteRecord.content).Perm (v.records.map RouteRecord.content) := by
  rw [records_contents, records_contents, h.withdrawn, h.announced, hsame]
  exact ((List.Perm.refl _).append (h.mpWithdrawn.map _)).append
    (((List.Perm.refl _).append h.mpAnnounced).map _)

theorem settleContents_perm {l l' : List (RouteAction × Prefix × Option U32 × PathAttributes)}
    (known : UpdateAction) (h : l.Perm l') : (settleContents known l).Perm (settleContents known l') := by
  cases known with
  | acceptEvidenceOnly | attributeDiscard => exact h
  | treatAsWithdraw => exact h.map _
  | sessionReset => exact .nil

theorem Twins.heldBack_eq (h : Twins u v) : u.heldBack relationship = v.heldBack relationship := by
  unfold UpdateParts.heldBack
  rw [h.relationshipUnresolved_eq, h.localPrefMissing_eq, h.knownAction_eq]

theorem endOfRib_of_many {withdrawnLen attributeLen attributesEnd : ℕ} {ranges : List AttributeRange}
    (h : ranges.length ≠ 1) : endOfRib b withdrawnLen attributeLen attributesEnd ranges =
      if withdrawnLen = 0 ∧ attributeLen = 0 ∧ attributesEnd = b.length then [⟨1, 1⟩] else [] := by
  unfold endOfRib
  split
  · rfl
  · split
    · match ranges with
      | [] => rfl
      | [r] => exact absurd rfl h
      | _ :: _ :: _ => rfl
    · rfl

def Agree (r r' : Result ParsedUpdate) : Prop :=
  match r, r' with
  | .ok x, .ok y => x.knownDisposition = y.knownDisposition ∧
      (x.records.map RouteRecord.content).Perm (y.records.map RouteRecord.content) ∧
      x.missingMandatory = y.missingMandatory ∧ x.endOfRib = y.endOfRib ∧
      x.as4Reconstruction.status = y.as4Reconstruction.status ∧
      x.as4Reconstruction.effectiveAsPath = y.as4Reconstruction.effectiveAsPath
  | .error _, .error _ => True
  | _, _ => False

/-- The occurrences of two messages agree apart from their places and their order. -/
def SameOccurrences (r r' : Result ParsedUpdate) : Prop :=
  match r, r' with
  | .ok x, .ok y =>
    (x.attributeRanges.map AttributeRange.bare).Perm (y.attributeRanges.map AttributeRange.bare)
  | .error _, .error _ => True
  | _, _ => False

theorem agree_refl (r : Result ParsedUpdate) : Agree r r := by
  cases r with
  | ok x => exact ⟨rfl, .refl _, rfl, rfl, rfl, rfl⟩
  | error e => trivial

theorem Agree.symm {r r' : Result ParsedUpdate} (h : Agree r r') : Agree r' r := by
  cases r <;> cases r' <;> try exact h
  obtain ⟨hk, hr, hm, he, hs, hp⟩ := h
  exact ⟨hk.symm, hr.symm, hm.symm, he.symm, hs.symm, hp.symm⟩

theorem Agree.trans {r r' r'' : Result ParsedUpdate} (h : Agree r r') (h' : Agree r' r'') :
    Agree r r'' := by
  cases r <;> cases r' <;> cases r'' <;> try first | exact h.elim | exact h'.elim | trivial
  obtain ⟨hk, hr, hm, he, hs, hp⟩ := h
  obtain ⟨hk', hr', hm', he', hs', hp'⟩ := h'
  exact ⟨hk.trans hk', hr.trans hr', hm.trans hm', he.trans he', hs.trans hs', hp.trans hp'⟩

theorem Twins.agree (h : Twins u v) (hlength : b.length = b'.length) (hmany : u.ranges.length ≠ 1)
    (hu : readUpdate b context relationship (direction.getD 2) limits = .ok u)
    (hv : readUpdate b' context relationship (direction.getD 2) limits = .ok v) :
    Agree (parseUpdate b context relationship direction limits)
        (parseUpdate b' context relationship direction limits) ↔
      (u.published relationship).Perm (v.published relationship) := by
  obtain ⟨x, hx, hxk, hxr, hxm, hxe, hxa, -⟩ := parseUpdate_of_read hu
  obtain ⟨y, hy, hyk, hyr, hym, hye, hya, -⟩ := parseUpdate_of_read hv
  have hmany' : v.ranges.length ≠ 1 := by
    have hcount := h.ranges.length_eq
    rw [List.length_map, List.length_map] at hcount
    rwa [← hcount]
  rw [hx, hy]
  constructor
  · rintro ⟨-, hperm, -⟩
    rwa [hxr, hyr] at hperm
  · intro hperm
    refine ⟨?_, ?_, ?_, ?_, ?_, ?_⟩
    · rw [hxk, hyk, h.knownAction_eq]
    · rwa [hxr, hyr]
    · rw [hxm, hym, h.missing_eq]
    · rw [hxe, hye, endOfRib_of_many hmany, endOfRib_of_many hmany', h.layout, hlength]
    · rw [hxa, hya, h.status]
    · rw [hxa, hya, h.path]

end Published

section Order

variable {context : LayoutContext} {relationship : PeerRelationship} {sender : U8} {direction : Option U8}
  {limits : Bgp.Limits} {m : UpdateMessage} {l : List Attribute} {u v : UpdateParts}
  {withdrawn announced : List PrefixSpan} {x y : As4Status × List AsPathSegment × Option (U32 × U32)}

namespace UpdateMessage

theorem length_octets (hperm : m.attributes.Perm l) :
    (m.reorder l).attributeOctets.length = m.attributeOctets.length :=
  (hperm.flatMap_right Attribute.encode).length_eq.symm

theorem layout_reorder (hperm : m.attributes.Perm l) : (m.reorder l).layout = m.layout := by
  unfold layout
  rw [length_octets hperm]
  rfl

theorem length_reorder (hperm : m.attributes.Perm l) :
    (m.reorder l).encode.length = m.encode.length := by
  rw [length_encode, length_encode, length_octets hperm]
  rfl

theorem Fits.reorder (h : m.Fits) (hperm : m.attributes.Perm l) : (m.reorder l).Fits where
  head := h.head
  withdrawn := h.withdrawn
  attributes := by
    rw [length_octets hperm]
    exact h.attributes
  each := fun a ha => h.each a (hperm.mem_iff.2 ha)

theorem Readable.reorder (h : m.Readable context sender limits withdrawn announced)
    (hperm : m.attributes.Perm l) :
    (m.reorder l).Readable context sender limits withdrawn announced where
  withdrawn := h.withdrawn
  attributes := ⟨hperm.length_eq ▸ h.attributes.1, fun a ha => h.attributes.2 a (hperm.mem_iff.2 ha)⟩
  announced := h.announced
variable (hu : m.Reads context relationship sender limits u withdrawn announced x)
include hu

theorem Reads.as4_eq
    (hv : (m.reorder l).Reads context relationship sender limits v withdrawn announced y)
    (hperm : m.attributes.Perm l) (hcodes : (m.attributes.map (·.code)).Nodup) : x = y := by
  have hsummary := @Attribute.summary_perm context relationship sender limits _ _ hperm hcodes
  have hvalue : Attribute.acceptedValue context relationship sender limits m.attributes =
      Attribute.acceptedValue context relationship sender limits l :=
    funext (Attribute.acceptedValue_perm hperm hcodes)
  have hx := hu.as4
  rw [hvalue, hperm.any_eq, congrArg PathAttributes.asPath hsummary,
    congrArg PathAttributes.aggregator hsummary] at hx
  exact Except.ok.inj (hx.symm.trans hv.as4)

theorem Reads.cores :
    u.ranges.map AttributeRange.core = m.attributes.map fun a =>
      discardUnusedAs4 x.1 (a.range context relationship sender limits []).core := by
  have hcores : u.parse.ranges.map AttributeRange.core =
      m.attributes.map fun a => (a.range context relationship sender limits []).core := by
    rw [← Attribute.core_ranges, ← hu.parse.ranges, List.map_map]
    rfl
  rw [hu.ranges, hu.status, List.map_map]
  have hdiscard : AttributeRange.core ∘ discardUnusedAs4 x.1 =
      discardUnusedAs4 x.1 ∘ AttributeRange.core := funext (discardUnusedAs4_core x.1)
  rw [hdiscard, ← List.map_map, hcores, List.map_map]
  rfl

theorem Reads.length_ranges : u.ranges.length = m.attributes.length := by
  have hcount := congrArg List.length hu.cores
  rwa [List.length_map, List.length_map] at hcount

theorem Reads.twins
    (hv : (m.reorder l).Reads context relationship sender limits v withdrawn announced y)
    (hperm : m.attributes.Perm l) (hcodes : (m.attributes.map (·.code)).Nodup) : Twins u v := by
  obtain rfl := hu.as4_eq hv hperm hcodes
  have hsummary := @Attribute.summary_perm context relationship sender limits _ _ hperm hcodes
  refine ⟨?_, ?_, ?_, ?_, ?_, ?_, ?_, ?_, ?_, ?_⟩
  · rw [hu.layout, hv.layout, layout_reorder hperm]
  · rw [hu.withdrawn, hv.withdrawn]
  · rw [hu.announced, hv.announced]
  · rw [hu.parse.withdrawn, hv.parse.withdrawn]
    exact hperm.flatMap_right _
  · rw [hu.parse.announced, hv.parse.announced]
    exact hperm.flatMap_right _
  · rw [hu.cores, hv.cores]
    exact hperm.map _
  · rw [hu.parse.malformed, hv.parse.malformed]
  · rw [hu.status, hv.status]
  · rw [hu.path, hv.path]
  · rw [hu.attributes, hv.attributes]
    exact congrArg (fun a : PathAttributes => { a with asPath := x.2.1, aggregator := x.2.2 }) hsummary

theorem Reads.mem_disposition {d : Disposition}
    (haccept : d ≠ .action .acceptEvidenceOnly) (hdiscard : d ≠ .action .attributeDiscard) :
    (∃ r ∈ u.ranges, r.disposition = d) ↔
      ∃ a ∈ m.attributes, a.judged context relationship sender limits = d := by
  have hkeep : ∀ r : AttributeRange,
      (discardUnusedAs4 x.1 r).disposition = d ↔ r.disposition = d := by
    intro r
    unfold discardUnusedAs4
    split
    · rename_i hunused
      constructor
      · exact fun h => absurd h.symm hdiscard
      · exact fun h => absurd (h.symm.trans hunused.1) haccept
    · rfl
  have hmap : u.ranges.map (·.disposition) = m.attributes.map fun a =>
      (discardUnusedAs4 x.1 (a.range context relationship sender limits []).core).disposition := by
    have hcores := congrArg (List.map (·.disposition)) hu.cores
    rwa [List.map_map, List.map_map] at hcores
  constructor
  · rintro ⟨r, hr, hd⟩
    have hmem : d ∈ u.ranges.map (·.disposition) := List.mem_map.2 ⟨r, hr, hd⟩
    rw [hmap] at hmem
    obtain ⟨a, ha, hd⟩ := List.mem_map.1 hmem
    exact ⟨a, ha, (hkeep _).1 hd⟩
  · rintro ⟨a, ha, hd⟩
    have hmem : d ∈ u.ranges.map (·.disposition) := by
      rw [hmap]
      exact List.mem_map.2 ⟨a, ha, (hkeep _).2 hd⟩
    exact List.mem_map.1 hmem

theorem Reads.unresolved :
    u.relationshipUnresolved =
      (m.attributes.any fun a => isPeerDependent a.code && relationship = .unknown) := by
  have hkeep : ∀ r : AttributeRange,
      (discardUnusedAs4 x.1 r).peerRelationshipUnresolved = r.peerRelationshipUnresolved := by
    intro r
    unfold discardUnusedAs4
    split <;> rfl
  have hany := congrArg (List.any · fun r => r.peerRelationshipUnresolved) hu.cores
  simp only [List.any_map, Function.comp_def, hkeep] at hany
  exact hany

theorem Reads.mpAnnounced_nil :
    u.parse.mpAnnounced = [] ↔ ∀ a ∈ m.attributes, a.announced context sender limits = [] := by
  have hannounced := hu.parse.announced
  rw [← List.map_eq_nil_iff (f := PrefixSpan.bare), hannounced, List.flatMap_eq_nil_iff]
  simp only [List.map_eq_nil_iff]

theorem Reads.announced_nil : u.announced = [] ↔ announced = [] := by
  rw [← List.map_eq_nil_iff (f := PrefixSpan.bare), hu.announced, List.map_eq_nil_iff]

theorem Reads.contributes {a : Attribute} {action : UpdateAction} (ha : a ∈ m.attributes)
    (h : a.judged context relationship sender limits = .action action)
    (haccept : action ≠ .acceptEvidenceOnly) (hdiscard : action ≠ .attributeDiscard) :
    action.rank ≤ u.settledAction.rank := by
  obtain ⟨r, hr, hd⟩ :=
    (hu.mem_disposition (by simpa using haccept) (by simpa using hdiscard)).2 ⟨a, ha, h⟩
  have hmem : action ∈ contributions u.parse.malformed u.ranges u.missing := by
    unfold contributions
    refine List.mem_append_left _ (List.mem_append_right _ ?_)
    exact List.mem_filterMap.2 ⟨r, hr, by rw [hd]; rfl⟩
  exact u.settledAction_strongest.le _ hmem

theorem Reads.reset {a : Attribute} (ha : a ∈ m.attributes)
    (h : a.judged context relationship sender limits = .action .sessionReset) :
    u.knownAction = .sessionReset := by
  have hrank := hu.contributes ha h (by decide) (by decide)
  have hsettled : u.settledAction = .sessionReset := by
    cases hsettled : u.settledAction <;> rw [hsettled] at hrank <;>
      first | rfl | exact absurd hrank (by decide)
  rw [u.knownAction_eq, hsettled, if_neg (by simp)]

theorem Reads.withdraws {a : Attribute} (ha : a ∈ m.attributes)
    (h : a.judged context relationship sender limits = .action .treatAsWithdraw)
    (hreset : ∀ a ∈ m.attributes, a.judged context relationship sender limits ≠ .action .sessionReset) :
    u.settledAction = .treatAsWithdraw := by
  have hrank := hu.contributes ha h (by decide) (by decide)
  cases hsettled : u.settledAction with
  | acceptEvidenceOnly | attributeDiscard => rw [hsettled] at hrank; exact absurd hrank (by decide)
  | treatAsWithdraw => rfl
  | sessionReset =>
    have hsource := u.settledAction_strongest.mem
    rw [hsettled, contributions, hu.parse.malformed] at hsource
    obtain hsource | hmissing := List.mem_append.1 hsource
    · obtain hfirst | hrange := List.mem_cons.1 hsource
      · cases hfirst
      · obtain ⟨q, hq, hd⟩ := List.mem_filterMap.1 hrange
        have hd : q.disposition = .action .sessionReset := by
          cases hdisposition : q.disposition <;> rw [hdisposition] at hd <;> cases hd
          rfl
        obtain ⟨c, hc, hjudged⟩ := (hu.mem_disposition (by decide) (by decide)).1 ⟨q, hq, hd⟩
        exact absurd hjudged (hreset c hc)
    · split at hmissing <;> simp at hmissing

omit hu

end UpdateMessage

namespace Attribute

variable {a : Attribute}

theorem judged_refused (hcode : a.code = 3 ∨ a.code = 14)
    (h : a.merged context relationship sender limits = false) :
    a.judged context relationship sender limits = .action (attributeErrorDisposition a.code) := by
  unfold merged at h
  unfold judged
  generalize a.valueValid context sender limits = valid at h ⊢
  generalize a.flagsValid = flagsValid at h ⊢
  unfold disposition
  rcases hcode with hcode | hcode <;> rw [hcode] at h ⊢ <;> cases valid <;> cases flagsValid <;>
    simp_all [isMultiprotocol, isPeerDependent, attributeErrorDisposition]

theorem judged_nextHop (hcode : a.code = 3)
    (h : a.merged context relationship sender limits = false) :
    a.judged context relationship sender limits = .action .treatAsWithdraw := by
  rw [judged_refused (.inl hcode) h, hcode]
  rfl

theorem judged_reach (hcode : a.code = 14)
    (h : a.merged context relationship sender limits = false) :
    a.judged context relationship sender limits = .action .sessionReset := by
  rw [judged_refused (.inr hcode) h, hcode]
  rfl

end Attribute

/-- The message shows the next hop of its MP_REACH_NLRI in one order and hides it in another. -/
structure UpdateMessage.ShowsOrder (context : LayoutContext) (relationship : PeerRelationship)
    (sender : U8) (limits : Bgp.Limits) (m : UpdateMessage) : Prop where
  refused : ∃ h ∈ m.attributes, h.code = 3 ∧ ¬ (h.valueValid context sender limits ∧ h.flagsValid)
  reach : ∃ r ∈ m.attributes, r.code = 14 ∧ r.flagsValid ∧
    ∃ item, r.decoded context sender limits = .ok item ∧ item.attributes.nextHop ≠ none
  kept : ∀ a ∈ m.attributes, a.judged context relationship sender limits ≠ .action .sessionReset
  resolved : relationship = .unknown → ∀ a ∈ m.attributes, ¬ isPeerDependent a.code
  announces : ∃ withdrawn announced, m.Readable context sender limits withdrawn announced ∧
    (announced ≠ [] ∨ ∃ a ∈ m.attributes, a.announced context sender limits ≠ [])

theorem UpdateParts.published_reset (h : u.knownAction = .sessionReset) :
    u.published relationship = [] := by
  unfold published
  rw [h]
  exact ite_self _

theorem UpdateParts.published_unresolved (h : u.relationshipUnresolved = true) :
    u.published relationship = [] := by
  unfold published heldBack
  rw [h]
  rfl

namespace UpdateMessage

theorem read_cases (h : m.Fits) (hcodes : (m.attributes.map (·.code)).Nodup)
    (direction : Option U8) :
    (∃ withdrawn announced u x, m.Readable context (direction.getD 2) limits withdrawn announced ∧
      readUpdate m.encode context relationship (direction.getD 2) limits = .ok u ∧
      m.Reads context relationship (direction.getD 2) limits u withdrawn announced x) ∨
    (¬ ∃ withdrawn announced, m.Readable context (direction.getD 2) limits withdrawn announced) ∧
      ∃ e, parseUpdate m.encode context relationship direction limits = .error e := by
  obtain ⟨hread, hreadable⟩ :=
    @readUpdate_encode context relationship (direction.getD 2) limits m h hcodes
  cases hu : readUpdate m.encode context relationship (direction.getD 2) limits with
  | ok u =>
    obtain ⟨withdrawn, announced, x, hok, hreads⟩ := hread u hu
    exact Or.inl ⟨withdrawn, announced, u, x, hok, rfl, hreads⟩
  | error e =>
    refine Or.inr ⟨?_, e, ?_⟩
    · rintro ⟨withdrawn, announced, hok⟩
      obtain ⟨u, hu'⟩ := hreadable withdrawn announced hok
      rw [hu] at hu'
      cases hu'
    · unfold parseUpdate
      dsimp only
      rw [hu]
      rfl

theorem Reads.published_perm
    (hu : m.Reads context relationship sender limits u withdrawn announced x)
    (hv : (m.reorder l).Reads context relationship sender limits v withdrawn announced y)
    (hperm : m.attributes.Perm l) (hcodes : (m.attributes.map (·.code)).Nodup)
    (hreadable : m.Readable context sender limits withdrawn announced)
    (hshows : ¬ m.ShowsOrder context relationship sender limits) :
    (u.published relationship).Perm (v.published relationship) := by
  have htwins := hu.twins hv hperm hcodes
  by_cases hhop : u.attributes.nextHop = v.attributes.nextHop
  · have hsame : u.attributes = v.attributes := by
      have hrest := htwins.attributes
      rw [PathAttributes.mk.injEq] at hrest
      obtain ⟨h1, h2, -, h4, h5, h6, h7, h8, h9, h10, h11⟩ := hrest
      exact PathAttributes.mk.injEq .. ▸ ⟨h1, h2, hhop, h4, h5, h6, h7, h8, h9, h10, h11⟩
    unfold UpdateParts.published
    rw [htwins.heldBack_eq, htwins.knownAction_eq]
    split
    · exact .nil
    · exact settleContents_perm _ (htwins.records_perm hsame)
  · -- nothing is published of a message whose next hop depends on the order
    have hempty : u.knownAction = .sessionReset ∨ u.relationshipUnresolved = true →
        (u.published relationship).Perm (v.published relationship) := by
      rintro (hknown | hunresolved)
      · rw [UpdateParts.published_reset hknown,
          UpdateParts.published_reset (htwins.knownAction_eq ▸ hknown)]
      · rw [UpdateParts.published_unresolved hunresolved,
          UpdateParts.published_unresolved (htwins.relationshipUnresolved_eq ▸ hunresolved)]
    apply hempty
    have hdiffer : (Attribute.summary context relationship sender limits m.attributes).1.nextHop ≠
        (Attribute.summary context relationship sender limits l).1.nextHop := by
      rwa [hu.attributes, hv.attributes] at hhop
    obtain ⟨h, hh, r, hr, hcode, hcode', ⟨-, hrefused⟩ | ⟨hrefused, hmerged, hnext⟩⟩ :=
      Attribute.nextHop_perm hperm hcodes hdiffer
    · exact Or.inl (hu.reset hr (Attribute.judged_reach hcode' hrefused))
    · by_cases hkept : ∀ a ∈ m.attributes,
          a.judged context relationship sender limits ≠ .action .sessionReset
      · by_cases hresolved : relationship = .unknown → ∀ a ∈ m.attributes, ¬ isPeerDependent a.code
        · left
          have hsettled := hu.withdraws hh (Attribute.judged_nextHop hcode hrefused) hkept
          rw [u.knownAction_eq, hsettled, if_pos]
          refine ⟨rfl, ?_⟩
          by_contra hannounces
          rw [hu.announced_nil, hu.mpAnnounced_nil] at hannounces
          apply hshows
          refine ⟨⟨h, hh, hcode, ?_⟩, ⟨r, hr, hcode', ?_, ?_⟩, hkept, hresolved,
            withdrawn, announced, hreadable, ?_⟩
          · rintro ⟨hvalid, hflags⟩
            unfold Attribute.merged at hrefused
            rw [hvalid, hflags, hcode] at hrefused
            simp [isPeerDependent] at hrefused
          · unfold Attribute.merged at hmerged
            simp only [Bool.and_eq_true] at hmerged
            exact hmerged.1.2
          · unfold Attribute.merged at hmerged
            simp only [Bool.and_eq_true] at hmerged
            exact ⟨_, Attribute.item_of_valueValid hmerged.1.1, hnext⟩
          · by_cases hnone : announced = []
            · right
              push Not at hannounces
              exact hannounces hnone
            · exact Or.inl hnone
        · right
          rw [hu.unresolved]
          push Not at hresolved
          obtain ⟨hunknown, a, ha, hdependent⟩ := hresolved
          exact List.any_eq_true.2 ⟨a, ha, by simp [hdependent, hunknown]⟩
      · left
        push Not at hkept
        obtain ⟨a, ha, hreset⟩ := hkept
        exact hu.reset ha hreset

theorem ShowsOrder.reorder (h : m.ShowsOrder context relationship sender limits)
    (hperm : m.attributes.Perm l) : (m.reorder l).ShowsOrder context relationship sender limits := by
  obtain ⟨⟨a, ha, hcode, hrefused⟩, ⟨r, hr, hreach⟩, hkept, hresolved, withdrawn, announced, hok,
    hannounces⟩ := h
  refine ⟨⟨a, hperm.mem_iff.1 ha, hcode, hrefused⟩, ⟨r, hperm.mem_iff.1 hr, hreach⟩,
    fun a ha => hkept a (hperm.mem_iff.2 ha), fun hu a ha => hresolved hu a (hperm.mem_iff.2 ha),
    withdrawn, announced, hok.reorder hperm, ?_⟩
  obtain hnlri | ⟨a, ha, hmp⟩ := hannounces
  · exact Or.inl hnlri
  · exact Or.inr ⟨a, hperm.mem_iff.1 ha, hmp⟩

theorem Readable.unique {w a w' a' : List PrefixSpan} (h : m.Readable context sender limits w a)
    (h' : m.Readable context sender limits w' a') : w = w' ∧ a = a' :=
  ⟨Except.ok.inj (h.withdrawn.symm.trans h'.withdrawn),
    Except.ok.inj (h.announced.symm.trans h'.announced)⟩

theorem read_orders (hfits : m.Fits) (hcodes : (m.attributes.map (·.code)).Nodup)
    (hperm : m.attributes.Perm l) (direction : Option U8) :
    (∃ withdrawn announced u v x,
      m.Readable context (direction.getD 2) limits withdrawn announced ∧
      readUpdate m.encode context relationship (direction.getD 2) limits = .ok u ∧
      readUpdate (m.reorder l).encode context relationship (direction.getD 2) limits = .ok v ∧
      m.Reads context relationship (direction.getD 2) limits u withdrawn announced x ∧
      (m.reorder l).Reads context relationship (direction.getD 2) limits v withdrawn announced x) ∨
    (¬ ∃ withdrawn announced, m.Readable context (direction.getD 2) limits withdrawn announced) ∧
      ∃ e e', parseUpdate m.encode context relationship direction limits = .error e ∧
        parseUpdate (m.reorder l).encode context relationship direction limits = .error e' := by
  have hcodes' : ((m.reorder l).attributes.map (·.code)).Nodup := (hperm.map _).nodup_iff.1 hcodes
  obtain ⟨w, a, u, x, hok, hu, hreads⟩ | ⟨hnone, e, he⟩ :=
    @read_cases context relationship limits m hfits hcodes direction
  all_goals
    obtain ⟨w', a', v, y, hok', hv, hreads'⟩ | ⟨hnone', e', he'⟩ :=
      @read_cases context relationship limits (m.reorder l) (hfits.reorder hperm) hcodes' direction
  · obtain ⟨rfl, rfl⟩ := (hok.reorder hperm).unique hok'
    obtain rfl := hreads.as4_eq hreads' hperm hcodes
    exact Or.inl ⟨w, a, u, v, x, hok, hu, hv, hreads, hreads'⟩
  · exact absurd ⟨w, a, hok.reorder hperm⟩ hnone'
  · exact absurd ⟨w', a', hok'.reorder (m := m.reorder l) (l := m.attributes) hperm.symm⟩ hnone
  · exact Or.inr ⟨hnone, e, e', he, he'⟩
variable (h : m.ShowsOrder context relationship sender limits)
include h

theorem ShowsOrder.merged_nextHop :
    ∃ a ∈ m.attributes, a.code = 3 ∧ a.merged context relationship sender limits = false := by
  obtain ⟨a, ha, hcode, hrefused⟩ := h.refused
  refine ⟨a, ha, hcode, ?_⟩
  unfold Attribute.merged
  rw [Bool.and_eq_false_iff]
  left
  rw [Bool.and_eq_false_iff]
  by_contra hboth
  push Not at hboth
  exact hrefused ⟨Bool.of_not_eq_false hboth.1, Bool.of_not_eq_false hboth.2⟩

theorem ShowsOrder.merged_reach :
    ∃ r ∈ m.attributes, r.code = 14 ∧ r.merged context relationship sender limits = true ∧
      (r.item context sender limits).attributes.nextHop ≠ none := by
  obtain ⟨r, hr, hcode, hflags, item, hdecoded, hnext⟩ := h.reach
  have hitem : r.item context sender limits = item := by
    unfold Attribute.item
    rw [hdecoded]
  have hvalid : r.valueValid context sender limits = true := by
    unfold Attribute.valueValid
    rw [hdecoded]
    rfl
  refine ⟨r, hr, hcode, ?_, hitem ▸ hnext⟩
  unfold Attribute.merged
  rw [hvalid, hflags, hcode]
  rfl

theorem ShowsOrder.published (hreadable : m.Readable context sender limits withdrawn announced)
    (hu : m.Reads context relationship sender limits u withdrawn announced x) :
    u.published relationship = (u.records.map RouteRecord.content).map (fun c => (.withdraw, c.2)) ∧
      ∃ c ∈ u.records.map RouteRecord.content, c.2.2.2 = u.attributes := by
  obtain ⟨a, ha, hcode, hrefused⟩ := h.merged_nextHop
  obtain ⟨withdrawn', announced', hok, hannounces⟩ := h.announces
  obtain ⟨rfl, rfl⟩ := hok.unique hreadable
  have hsome : ¬ (u.announced = [] ∧ u.parse.mpAnnounced = []) := by
    rw [hu.announced_nil, hu.mpAnnounced_nil]
    rintro ⟨hnone, hmp⟩
    obtain hnlri | ⟨a, ha, hmp'⟩ := hannounces
    · exact hnlri hnone
    · exact hmp' (hmp a ha)
  have hknown : u.knownAction = .treatAsWithdraw := by
    have hsettled := hu.withdraws ha (Attribute.judged_nextHop hcode hrefused) h.kept
    rw [u.knownAction_eq, hsettled, if_neg fun hall => hsome hall.2]
  have hresolved : u.relationshipUnresolved = false := by
    rw [hu.unresolved, List.any_eq_false]
    intro a ha hdependent
    rw [Bool.and_eq_true, decide_eq_true_eq] at hdependent
    exact h.resolved hdependent.2 a ha hdependent.1
  constructor
  · unfold UpdateParts.published UpdateParts.heldBack
    rw [hresolved, hknown]
    simp only [Bool.false_or, lt_irrefl, decide_false, Bool.and_false, Bool.false_eq_true, if_false]
    rfl
  · have hspan : ∃ s, s ∈ u.announced.map PrefixSpan.bare ++ u.parse.mpAnnounced.map PrefixSpan.bare := by
      apply List.exists_mem_of_ne_nil
      intro hnil
      rw [List.append_eq_nil_iff, List.map_eq_nil_iff, List.map_eq_nil_iff] at hnil
      exact hsome hnil
    obtain ⟨s, hs⟩ := hspan
    rw [records_contents]
    exact ⟨_, List.mem_append_right _ (List.mem_map_of_mem hs), rfl⟩

omit h

theorem nextHop_contents {c : RouteAction × Prefix × Option U32 × PathAttributes}
    (hc : c ∈ u.records.map RouteRecord.content) (hnone : u.attributes.nextHop = none) :
    c.2.2.2.nextHop = none := by
  rw [records_contents, List.mem_append, List.mem_append] at hc
  obtain (hc | hc) | hc := hc
  all_goals
    obtain ⟨s, -, rfl⟩ := List.mem_map.1 hc
    first | rfl | exact hnone

/-- A message with both next hops has an order that begins with them. -/
theorem perm_pair {attributes : List Attribute} {h r : Attribute} (hh : h ∈ attributes)
    (hr : r ∈ attributes) (hcode : h.code = 3) (hcode' : r.code = 14) :
    ∃ rest, attributes.Perm (h :: r :: rest) := by
  have hne : r ≠ h := by
    rintro rfl
    exact absurd (hcode.symm.trans hcode') (by decide)
  exact ⟨_, (List.perm_cons_erase hh).trans
    ((List.perm_cons_erase ((List.mem_erase_of_ne hne).2 hr)).cons h)⟩

theorem ShowsOrder.disagrees (hshows : m.ShowsOrder context relationship (direction.getD 2) limits)
    (hfits : m.Fits) (hcodes : (m.attributes.map (·.code)).Nodup) :
    ¬ ∀ l, m.attributes.Perm l →
      Agree (parseUpdate m.encode context relationship direction limits)
        (parseUpdate (m.reorder l).encode context relationship direction limits) := by
  intro hall
  obtain ⟨h, hh, hcode, hrefused⟩ := hshows.merged_nextHop
  obtain ⟨r, hr, hcode', hmerged, hnext⟩ := hshows.merged_reach
  obtain ⟨rest, hfirst⟩ := perm_pair hh hr hcode hcode'
  have hswap : (h :: r :: rest).Perm (r :: h :: rest) := List.Perm.swap ..
  have hagree := (hall _ hfirst).symm.trans (hall _ (hfirst.trans hswap))
  have hcodes' : ((m.reorder (h :: r :: rest)).attributes.map (·.code)).Nodup :=
    (hfirst.map _).nodup_iff.1 hcodes
  obtain ⟨withdrawn, announced, hok, -⟩ := hshows.announces
  obtain ⟨w, a, u, v, x, hok', hu, hv, hreads, hreads'⟩ | ⟨hnone, -⟩ :=
    @read_orders context relationship limits (m.reorder (h :: r :: rest)) (r :: h :: rest)
      (hfits.reorder hfirst) hcodes' hswap direction
  · have htwins := hreads.twins (l := r :: h :: rest) hreads' hswap hcodes'
    have hmany : u.ranges.length ≠ 1 := by
      rw [hreads.length_ranges]
      change (h :: r :: rest).length ≠ 1
      simp
    have hlength : (m.reorder (h :: r :: rest)).encode.length =
        (m.reorder (r :: h :: rest)).encode.length := by
      rw [length_reorder hfirst, length_reorder (hfirst.trans hswap)]
    have hperm := (htwins.agree hlength hmany hu hv).1 hagree
    obtain ⟨hnone, hsome⟩ := Attribute.nextHop_order hcodes' hcode hcode' hrefused hmerged
    obtain ⟨hpublished, -⟩ := (hshows.reorder hfirst).published hok' hreads
    obtain ⟨hpublished', c, hc, hattributes⟩ :=
      (hshows.reorder (hfirst.trans hswap)).published (hok'.reorder hswap) hreads'
    have hmem : (RouteAction.withdraw, c.2) ∈ u.published relationship := by
      rw [hperm.mem_iff, hpublished']
      exact List.mem_map.2 ⟨c, hc, rfl⟩
    rw [hpublished] at hmem
    obtain ⟨c', hc', hsame⟩ := List.mem_map.1 hmem
    have hcleared : u.attributes.nextHop = none := by
      rw [hreads.attributes]
      exact hnone
    have hshown : v.attributes.nextHop = (r.item context (direction.getD 2) limits).attributes.nextHop := by
      rw [hreads'.attributes]
      exact hsome
    have hclear := nextHop_contents hc' hcleared
    rw [show c'.2 = c.2 from (Prod.mk.inj hsame).2, hattributes, hshown] at hclear
    exact hnext hclear
  · exact hnone ⟨withdrawn, announced, hok.reorder hfirst⟩

theorem Reads.occurrences (hu : m.Reads context relationship sender limits u withdrawn announced x) :
    u.ranges.map AttributeRange.bare =
      (Attribute.ranges context relationship sender limits m.attributes).map
        (discardUnusedAs4 x.1) := by
  have hdiscard : AttributeRange.bare ∘ discardUnusedAs4 x.1 =
      discardUnusedAs4 x.1 ∘ AttributeRange.bare := by
    funext r
    unfold discardUnusedAs4
    dsimp only [Function.comp_apply]
    split <;> split <;> first | rfl | contradiction
  rw [hu.ranges, hu.status, List.map_map, hdiscard, ← List.map_map, hu.parse.ranges]

theorem Reads.marks (hu : m.Reads context relationship sender limits u withdrawn announced x) :
    (u.ranges.map AttributeRange.bare).map Attribute.mark =
      (Attribute.ranges context relationship sender limits m.attributes).map Attribute.mark := by
  have hkeep : Attribute.mark ∘ discardUnusedAs4 x.1 = Attribute.mark := by
    funext r
    unfold discardUnusedAs4
    dsimp only [Function.comp_apply]
    split <;> rfl
  rw [hu.occurrences, List.map_map, hkeep]

theorem sameOccurrences_iff
    (hu : readUpdate m.encode context relationship (direction.getD 2) limits = .ok u)
    (hv : readUpdate (m.reorder l).encode context relationship (direction.getD 2) limits = .ok v) :
    SameOccurrences (parseUpdate m.encode context relationship direction limits)
        (parseUpdate (m.reorder l).encode context relationship direction limits) ↔
      (u.ranges.map AttributeRange.bare).Perm (v.ranges.map AttributeRange.bare) := by
  obtain ⟨p, hp, -, -, -, -, -, hranges⟩ := parseUpdate_of_read hu
  obtain ⟨q, hq, -, -, -, -, -, hranges'⟩ := parseUpdate_of_read hv
  rw [hp, hq, ← hranges, ← hranges']
  exact Iff.rfl

theorem not_sameOccurrences (hfits : m.Fits) (hcodes : (m.attributes.map (·.code)).Nodup)
    (hreadable : ∃ withdrawn announced,
      m.Readable context (direction.getD 2) limits withdrawn announced)
    (h3 : 3 ∈ m.attributes.map (·.code)) (h14 : 14 ∈ m.attributes.map (·.code)) :
    ¬ ∀ l, m.attributes.Perm l →
      SameOccurrences (parseUpdate m.encode context relationship direction limits)
        (parseUpdate (m.reorder l).encode context relationship direction limits) := by
  intro hall
  obtain ⟨h, hh, hcode⟩ := List.mem_map.1 h3
  obtain ⟨r, hr, hcode'⟩ := List.mem_map.1 h14
  have hmarks : ∀ l, m.attributes.Perm l →
      ((Attribute.ranges context relationship (direction.getD 2) limits m.attributes).map
        Attribute.mark).Perm
        ((Attribute.ranges context relationship (direction.getD 2) limits l).map Attribute.mark) := by
    intro l hperm
    obtain ⟨w, a, u, v, x, -, hu, hv, hreads, hreads'⟩ | ⟨hnone, -⟩ :=
      @read_orders context relationship limits m l hfits hcodes hperm direction
    · have hmap := ((sameOccurrences_iff hu hv).1 (hall l hperm)).map Attribute.mark
      rwa [hreads.marks, hreads'.marks] at hmap
    · exact absurd hreadable hnone
  obtain ⟨rest, hfirst⟩ := perm_pair hh hr hcode hcode'
  exact Attribute.ranges_mixed hcode hcode'
    ((hmarks _ hfirst).symm.trans (hmarks _ (hfirst.trans (List.Perm.swap ..))))

theorem sameOccurrences (hfits : m.Fits) (hcodes : (m.attributes.map (·.code)).Nodup)
    (hapart : ¬ ((∃ withdrawn announced,
      m.Readable context (direction.getD 2) limits withdrawn announced) ∧
        3 ∈ m.attributes.map (·.code) ∧ 14 ∈ m.attributes.map (·.code)))
    (hperm : m.attributes.Perm l) :
    SameOccurrences (parseUpdate m.encode context relationship direction limits)
      (parseUpdate (m.reorder l).encode context relationship direction limits) := by
  obtain ⟨w, a, u, v, x, hok, hu, hv, hreads, hreads'⟩ | ⟨-, e, e', he, he'⟩ :=
    @read_orders context relationship limits m l hfits hcodes hperm direction
  · have hmixed : ¬ (3 ∈ m.attributes.map (·.code) ∧ 14 ∈ m.attributes.map (·.code)) :=
      fun hboth => hapart ⟨⟨w, a, hok⟩, hboth⟩
    have hmixed' : ¬ (3 ∈ l.map (·.code) ∧ 14 ∈ l.map (·.code)) := by
      rwa [← (hperm.map (·.code)).mem_iff, ← (hperm.map (·.code)).mem_iff]
    rw [sameOccurrences_iff hu hv, hreads.occurrences, hreads'.occurrences,
      Attribute.ranges_unmixed hmixed, @Attribute.ranges_unmixed _ _ _ _ (m.reorder l).attributes hmixed']
    exact (hperm.map _).map _
  · rw [he, he']
    trivial

end UpdateMessage

theorem agree_of_hidden (hfits : m.Fits) (hcodes : (m.attributes.map (·.code)).Nodup)
    (hshows : ¬ m.ShowsOrder context relationship (direction.getD 2) limits)
    (hperm : m.attributes.Perm l) :
    Agree (parseUpdate m.encode context relationship direction limits)
      (parseUpdate (m.reorder l).encode context relationship direction limits) := by
  by_cases hone : m.attributes.length = 1
  · obtain ⟨a, ha⟩ := List.length_eq_one_iff.1 hone
    rw [ha] at hperm
    have hsame : m.reorder l = m := by
      rw [← List.singleton_perm.1 hperm, ← ha]
      rfl
    rw [hsame]
    exact agree_refl _
  obtain ⟨w, a, u, v, x, hok, hu, hv, hreads, hreads'⟩ | ⟨-, e, e', he, he'⟩ :=
    @UpdateMessage.read_orders context relationship limits m l hfits hcodes hperm direction
  · have htwins := hreads.twins hreads' hperm hcodes
    have hmany : u.ranges.length ≠ 1 := hreads.length_ranges ▸ hone
    rw [htwins.agree (UpdateMessage.length_reorder hperm).symm hmany hu hv]
    exact hreads.published_perm hreads' hperm hcodes hok hshows
  · rw [he, he']
    trivial

end Order

/-- A message whose NEXT_HOP is the unspecified address, in front of its MP_REACH_NLRI. -/
def orderSample : UpdateMessage where
  head := List.replicate 16 0xff ++ [0, 59, 2]
  withdrawn := []
  attributes := [⟨0x40, 1, [0]⟩, ⟨0x40, 2, [2, 1, 0, 0, 0xfd, 0xe8]⟩, ⟨0x40, 3, [0, 0, 0, 0]⟩,
    ⟨0x80, 14, [0, 1, 1, 4, 192, 0, 2, 9, 0, 24, 198, 51, 100]⟩]
  announced := []

def swappedSample : List Attribute :=
  [⟨0x40, 1, [0]⟩, ⟨0x40, 2, [2, 1, 0, 0, 0xfd, 0xe8]⟩,
    ⟨0x80, 14, [0, 1, 1, 4, 192, 0, 2, 9, 0, 24, 198, 51, 100]⟩, ⟨0x40, 3, [0, 0, 0, 0]⟩]

def orderContext : LayoutContext where
  asnWidth := 4
  addPath := ∅
  unresolvedAddPath := ∅
  mp := {(1, 1)}
  unsupportedIpv6NextHopLayout := false
  extendedMessageSenders := ∅
  extendedMessages := false
  enhancedRefresh := false
  enhancedRefreshSenders := ∅

def publishedHops (r : Result ParsedUpdate) : List (Option NextHop) :=
  match r with
  | .ok x => (x.records.map RouteRecord.content).map (·.2.2.2.nextHop)
  | .error _ => []

theorem Agree.publishedHops {r r' : Result ParsedUpdate} (h : Agree r r') :
    (publishedHops r).Perm (publishedHops r') := by
  cases r <;> cases r' <;> try exact h.elim
  · exact .nil
  · exact h.2.1.map _

end PcapEvidence.Bgp.Wire
