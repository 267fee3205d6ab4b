import PcapEvidence.BgpAttributes
import PcapEvidence.IpText
import PcapEvidence.JsonDecode
import PcapEvidence.OrderedMap

/-!
# The semantic identity of a route

An announced route whose attributes are complete has a canonical payload: its prefix and its
attributes, with the values of sets sorted and communities without repeats. The payload is
digested.
-/

namespace PcapEvidence.Bgp.Semantic

open Json OrderedMap History SortedVec
open Wire (RouteAction Prefix AsPathSegment)
open State (member member_canonical)

def SEMANTIC_IDENTITY_SCHEMA : String := "pcap-evidence.bgp.semantic-route-identity.v2"

structure PathAttributes where
  origin : Option U8
  asPath : List AsPathSegment
  nextHop : Option String
  med : Option U32
  localPreference : Option U32
  aggregator : Option String
  communities : List U32
  originatorId : Option String
  clusterList : List String

structure SemanticIdentityEvidence where
  attributesPresent : Finset U8
  atomicAggregate : Bool
  largeCommunities : List (U32 × U32 × U32)
  incompletenessReasons : OrdSet String
  opaqueOccurrences : List Json

def natural (n : ℕ) : Json := .number (BitVec.ofNat 64 n)

def optional {α : Type} (f : α → Json) (value : Option α) : Json := value.elim .null f

def prefixAddress (p : Prefix) : String :=
  if p.afi = 1 ∧ p.address.length = 4 then IpText.showIpv4 p.address
  else if p.afi = 2 ∧ p.address.length = 16 then IpText.showIpv6 p.address
  else hex p.address

/-- `Prefix::json`. -/
def prefixJson (p : Prefix) : Json :=
  objectOf [("afi", natural p.afi.toNat), ("safi", natural p.safi.toNat),
    ("length", natural p.length.toNat), ("address", .string (prefixAddress p))]

/-- A set of the path, of systems or of confederations. -/
def Unordered (s : AsPathSegment) : Prop := s.kind = 1 ∨ s.kind = 4

instance (s : AsPathSegment) : Decidable (Unordered s) := inferInstanceAs (Decidable (_ ∨ _))

def segmentValues (s : AsPathSegment) : List ℕ :=
  if Unordered s then (s.values.map BitVec.toNat).insertionSort (· ≤ ·) else s.values.map BitVec.toNat

def segmentJson (s : AsPathSegment) : Json :=
  objectOf [("kind", natural s.kind.toNat), ("values", arrayOf ((segmentValues s).map natural))]

def tupleKey (t : U32 × U32 × U32) : ℕ ×ₗ ℕ ×ₗ ℕ :=
  toLex (t.1.toNat, toLex (t.2.1.toNat, t.2.2.toNat))

def tupleJson (k : ℕ ×ₗ ℕ ×ₗ ℕ) : Json :=
  arrayOf [natural (ofLex k).1, natural (ofLex (ofLex k).2).1, natural (ofLex (ofLex k).2).2]

def attributesJson (a : PathAttributes) (e : SemanticIdentityEvidence) : Json :=
  objectOf [("origin", optional (fun n => natural n.toNat) a.origin),
    ("atomic_aggregate", .bool e.atomicAggregate),
    ("as_path", arrayOf (a.asPath.map segmentJson)),
    ("next_hop", optional .string a.nextHop),
    ("med", optional (fun n => natural n.toNat) a.med),
    ("local_preference", optional (fun n => natural n.toNat) a.localPreference),
    ("aggregator", optional .string a.aggregator),
    ("communities", arrayOf ((sortDedup (a.communities.map BitVec.toNat)).map natural)),
    ("large_communities", arrayOf ((sortDedup (e.largeCommunities.map tupleKey)).map tupleJson)),
    ("originator_id", optional .string a.originatorId),
    ("cluster_list", arrayOf (a.clusterList.map .string))]

/-- The canonical payload, `canonical_semantic_json` of the route key and the attributes. -/
def payload (p : Prefix) (a : PathAttributes) (e : SemanticIdentityEvidence) : Json :=
  (objectOf [("route_key", objectOf [("prefix", prefixJson p)]),
    ("attributes", attributesJson a e)]).canonical

section Identity

def supported (p : Prefix) : Prop := (p.afi = 1 ∧ p.safi = 1) ∨ (p.afi = 2 ∧ p.safi = 1)

instance (p : Prefix) : Decidable (supported p) := inferInstanceAs (Decidable (_ ∨ _))

def addReason (c : Prop) [Decidable c] (reason : String) (reasons : OrdSet String) : OrdSet String :=
  if c then reasons.insert reason () else reasons

/-- The reasons that were given, with those that the candidate itself shows. -/
def reasonsOf (action : RouteAction) (p : Prefix) (a : PathAttributes)
    (e : SemanticIdentityEvidence) : OrdSet String :=
  let reasons := addReason (action ≠ .announce) "route_action_not_announcement"
    e.incompletenessReasons
  let reasons := addReason (¬ supported p) "unsupported_route_family" reasons
  let reasons := addReason (1 ∉ e.attributesPresent ∨ 2 ∉ e.attributesPresent)
    "mandatory_attribute_missing" reasons
  addReason ((3 ∈ e.attributesPresent ↔ 14 ∈ e.attributesPresent) ∨ a.nextHop = none)
    "next_hop_attribute_missing_or_ambiguous" reasons

def UNRESOLVED : List String :=
  ["peer_relationship_unresolved", "asn_width_unresolved", "add_path_context_unresolved",
    "unsupported_route_family", "next_hop_context_unresolved"]

def completeness (reasons : OrdSet String) : String :=
  if reasons.keys = [] then "complete"
  else if reasons.keys.any (· ∈ UNRESOLVED) then "unresolved"
  else "incomplete"

def identityLimit : Error := Error.limit "bgp_semantic_identity"

def DOMAIN : List U8 := Encoder.utf8 "pcap-evidence.bgp.semantic-route-identity.v2" ++ [0]

/-- What is digested: the domain, the length of the payload and its text. -/
def preimage (j : Json) : List U8 :=
  DOMAIN ++ (ByteCodec.leBytes 8 j.encode.utf8ByteSize).reverse ++ Encoder.utf8 j.encode

variable (sha256 : List U8 → Digest)

def fingerprint (j : Json) (limits : Limits) : Result String := do
  let encoded ← j.encodeBounded limits.outputBytes
  match checkedAdd (DOMAIN.length + 8) encoded.utf8ByteSize with
  | none => .error identityLimit
  | some _ => return hex (sha256 (preimage j)).toList

def semanticRouteIdentity (action : RouteAction) (p : Prefix) (a : PathAttributes)
    (e : SemanticIdentityEvidence) (limits : Limits) : Result Json := do
  let reasons := reasonsOf action p a e
  let identified ← (if reasons.keys = [] then do
      let text ← fingerprint sha256 (payload p a e) limits
      return [("fingerprint_sha256", .string text), ("canonical_payload", payload p a e)]
    else return [("fingerprint_sha256", .null), ("canonical_payload", .null)] :
      Result (List (String × Json)))
  return objectOf ([("schema", .string SEMANTIC_IDENTITY_SCHEMA),
    ("completeness", .string (completeness reasons))] ++ identified ++
    [("opaque_occurrence_fingerprints", arrayOf e.opaqueOccurrences),
      ("incompleteness_reasons", arrayOf (reasons.keys.map .string))])

end Identity

theorem natural_inj {m n : ℕ} (hm : m < 2 ^ 64) (hn : n < 2 ^ 64) (h : natural m = natural n) :
    m = n := by
  have hbits := congrArg BitVec.toNat (Json.number.inj h)
  rwa [BitVec.toNat_ofNat, BitVec.toNat_ofNat, Nat.mod_eq_of_lt hm, Nat.mod_eq_of_lt hn] at hbits

theorem toNat_lt_word {w : ℕ} (hw : w ≤ 64) (b : BitVec w) : b.toNat < 2 ^ 64 :=
  b.isLt.trans_le (Nat.pow_le_pow_right (by decide) hw)

theorem natural_toNat_inj {w : ℕ} (hw : w ≤ 64) {a b : BitVec w}
    (h : natural a.toNat = natural b.toNat) : a = b :=
  BitVec.eq_of_toNat_eq (natural_inj (toNat_lt_word hw a) (toNat_lt_word hw b) h)

theorem arrayOf_inj {l m : List Json} (h : arrayOf l = arrayOf m) : l = m := by
  have hitems := congrArg JsonItems.toList (Json.array.inj h)
  rwa [toList_itemsOf, toList_itemsOf] at hitems

theorem member_congr {v w : Json} (h : v.canonical = w.canonical) (name : String) :
    (member v name).map canonical = (member w name).map canonical := by
  rw [← member_canonical, ← member_canonical, h]

theorem canonical_of_member {v w x y : Json} (name : String) (h : v.canonical = w.canonical)
    (hv : member v name = .ok x) (hw : member w name = .ok y) : x.canonical = y.canonical := by
  have hmembers := member_congr h name
  rw [hv, hw] at hmembers
  exact Except.ok.inj hmembers

/-- A value that stands for itself. -/
def Plain (j : Json) : Prop := j.canonical = j

theorem plain_optional {α : Type} {f : α → Json} (h : ∀ a, Plain (f a)) (value : Option α) :
    Plain (optional f value) := by
  cases value with
  | none => rfl
  | some a => exact h a

theorem plain_arrayOf {l : List Json} (h : ∀ j ∈ l, Plain j) : Plain (arrayOf l) := by
  unfold Plain
  rw [canonical_arrayOf]
  exact congrArg arrayOf ((List.map_congr_left h).trans (List.map_id l))

theorem optional_inj {α : Type} {f : α → Json} (hf : Function.Injective f) (hnull : ∀ a, f a ≠ .null)
    {x y : Option α} (h : optional f x = optional f y) : x = y := by
  cases x with
  | none =>
    cases y with
    | none => rfl
    | some b => exact absurd h.symm (hnull b)
  | some a =>
    cases y with
    | none => exact absurd h (hnull a)
    | some b => exact congrArg some (hf h)

theorem arrayOf_map_inj {α : Type} {f : α → Json} {l m : List α}
    (hf : ∀ a ∈ l, ∀ b ∈ m, f a = f b → a = b) (h : arrayOf (l.map f) = arrayOf (m.map f)) : l = m := by
  replace h := arrayOf_inj h
  induction l generalizing m with
  | nil => exact (List.map_eq_nil_iff.1 h.symm).symm
  | cons a l ih =>
    cases m with
    | nil => cases h
    | cons b m =>
      obtain ⟨hhead, htail⟩ := List.cons.inj h
      rw [hf a List.mem_cons_self b List.mem_cons_self hhead,
        ih (fun x hx y hy => hf x (List.mem_cons_of_mem _ hx) y (List.mem_cons_of_mem _ hy)) htail]

theorem hexDigit_inj {m n : ℕ} (hm : m < 16) (hn : n < 16) (h : hexDigit m = hexDigit n) : m = n := by
  have hvalue := congrArg Decoder.hexDigitValue h
  rw [Decoder.hexDigitValue_hexDigit m hm, Decoder.hexDigitValue_hexDigit n hn] at hvalue
  exact Option.some.inj hvalue

theorem hex_inj {a b : List U8} (h : hex a = hex b) : a = b := by
  have hchars := congrArg String.toList h
  unfold hex at hchars
  rw [String.toList_ofList, String.toList_ofList] at hchars
  induction a generalizing b with
  | nil =>
    cases b with
    | nil => rfl
    | cons y b => cases hchars
  | cons x a ih =>
    cases b with
    | nil => cases hchars
    | cons y b =>
      have hx := x.isLt
      have hy := y.isLt
      rw [List.flatMap_cons, List.flatMap_cons] at hchars
      simp only [List.cons_append, List.nil_append, List.cons.injEq] at hchars
      obtain ⟨hhigh, hlow, hrest⟩ := hchars
      have hhigh := hexDigit_inj (by omega) (by omega) hhigh
      have hlow := hexDigit_inj (by omega) (by omega) hlow
      have hbyte : x = y := BitVec.eq_of_toNat_eq (by omega)
      rw [hbyte, ih (congrArg String.ofList hrest) hrest]

theorem separator_notMem_hex (a : List U8) : '.' ∉ (hex a).toList ∧ ':' ∉ (hex a).toList := by
  have hdigit : ∀ n < 16, hexDigit n ≠ '.' ∧ hexDigit n ≠ ':' := by decide
  unfold hex
  rw [String.toList_ofList]
  constructor
  · intro hmem
    obtain ⟨b, _, hb⟩ := List.mem_flatMap.1 hmem
    have hlt := b.isLt
    rcases List.mem_cons.1 hb with hb | hb
    · exact (hdigit _ (by omega)).1 hb.symm
    · exact (hdigit _ (by omega)).1 (List.mem_singleton.1 hb).symm
  · intro hmem
    obtain ⟨b, _, hb⟩ := List.mem_flatMap.1 hmem
    have hlt := b.isLt
    rcases List.mem_cons.1 hb with hb | hb
    · exact (hdigit _ (by omega)).2 hb.symm
    · exact (hdigit _ (by omega)).2 (List.mem_singleton.1 hb).symm

theorem showIpv4_ne_hex {a b : List U8} (h : a.length = 4) : IpText.showIpv4 a ≠ hex b := by
  intro heq
  have hdot : '.' ∈ (IpText.showIpv4 a).toList := by
    unfold IpText.showIpv4 IpText.ipv4Chars
    rw [String.toList_ofList]
    match a, h with
    | [_, _, _, _], _ => exact IpText.dot_mem_intercalate
  rw [heq] at hdot
  exact (separator_notMem_hex b).1 hdot

theorem showIpv6_ne_hex {a b : List U8} (h : a.length = 16) : IpText.showIpv6 a ≠ hex b := by
  intro heq
  have hcolon : ':' ∈ (IpText.showIpv6 a).toList := by
    unfold IpText.showIpv6
    rw [String.toList_ofList]
    exact IpText.colon_ipv6Chars h
  rw [heq] at hcolon
  exact (separator_notMem_hex b).2 hcolon

theorem showIpv4_inj {a b : List U8} (ha : a.length = 4) (hb : b.length = 4)
    (h : IpText.showIpv4 a = IpText.showIpv4 b) : a = b := by
  have hne : ∀ l : List U8, l.length = 4 → l ≠ [] := fun l hl hnil => by
    rw [hnil] at hl
    cases hl
  exact IpText.ipv4Chars_inj (hne a ha) (hne b hb) (String.ofList_injective h)

theorem showIpv6_inj {a b : List U8} (ha : a.length = 16) (hb : b.length = 16)
    (h : IpText.showIpv6 a = IpText.showIpv6 b) : a = b :=
  IpText.ipv6Chars_inj ha hb (String.ofList_injective h)

theorem prefixAddress_inj {p q : Prefix} (hafi : p.afi = q.afi)
    (h : prefixAddress p = prefixAddress q) : p.address = q.address := by
  unfold prefixAddress at h
  rw [← hafi] at h
  by_cases h1 : p.afi = 1
  · have h2 : ¬ (1 : U16) = 2 := by decide
    simp only [h1, h2, true_and, false_and, if_false] at h
    by_cases hp : p.address.length = 4
    · rw [if_pos hp] at h
      by_cases hq : q.address.length = 4
      · rw [if_pos hq] at h
        exact showIpv4_inj hp hq h
      · rw [if_neg hq] at h
        exact absurd h (showIpv4_ne_hex hp)
    · rw [if_neg hp] at h
      by_cases hq : q.address.length = 4
      · rw [if_pos hq] at h
        exact absurd h.symm (showIpv4_ne_hex hq)
      · rw [if_neg hq] at h
        exact hex_inj h
  · simp only [h1, false_and, if_false] at h
    by_cases hp : p.afi = 2 ∧ p.address.length = 16
    · rw [if_pos hp] at h
      by_cases hq : p.afi = 2 ∧ q.address.length = 16
      · rw [if_pos hq] at h
        exact showIpv6_inj hp.2 hq.2 h
      · rw [if_neg hq] at h
        exact absurd h (showIpv6_ne_hex hp.2)
    · rw [if_neg hp] at h
      by_cases hq : p.afi = 2 ∧ q.address.length = 16
      · rw [if_pos hq] at h
        exact absurd h.symm (showIpv6_ne_hex hq.2)
      · rw [if_neg hq] at h
        exact hex_inj h

theorem prefixJson_inj {p q : Prefix} (h : (prefixJson p).canonical = (prefixJson q).canonical) :
    p = q := by
  have hafi : natural p.afi.toNat = natural q.afi.toNat := canonical_of_member "afi" h rfl rfl
  have hsafi : natural p.safi.toNat = natural q.safi.toNat := canonical_of_member "safi" h rfl rfl
  have hlength : natural p.length.toNat = natural q.length.toNat :=
    canonical_of_member "length" h rfl rfl
  have haddress : Json.string (prefixAddress p) = .string (prefixAddress q) :=
    canonical_of_member "address" h rfl rfl
  replace hafi := natural_toNat_inj (by decide) hafi
  replace hsafi := natural_toNat_inj (by decide) hsafi
  replace hlength := natural_toNat_inj (by decide) hlength
  replace haddress := prefixAddress_inj hafi (Json.string.inj haddress)
  obtain ⟨_, _, _, _⟩ := p
  obtain ⟨_, _, _, _⟩ := q
  obtain rfl := hafi
  obtain rfl := hsafi
  obtain rfl := hlength
  obtain rfl := haddress
  rfl

section Attributes

def SameSegment (s t : AsPathSegment) : Prop :=
  s.kind = t.kind ∧ if Unordered s then s.values.Perm t.values else s.values = t.values

/-- Routes that differ at most in the order of sets, and in the order and repetition of communities. -/
structure SameRoute (p q : Prefix) (a b : PathAttributes) (e f : SemanticIdentityEvidence) : Prop where
  route : p = q
  origin : a.origin = b.origin
  nextHop : a.nextHop = b.nextHop
  med : a.med = b.med
  localPreference : a.localPreference = b.localPreference
  aggregator : a.aggregator = b.aggregator
  originatorId : a.originatorId = b.originatorId
  clusterList : a.clusterList = b.clusterList
  atomicAggregate : e.atomicAggregate = f.atomicAggregate
  asPath : List.Forall₂ SameSegment a.asPath b.asPath
  communities : ∀ c, c ∈ a.communities ↔ c ∈ b.communities
  largeCommunities : ∀ c, c ∈ e.largeCommunities ↔ c ∈ f.largeCommunities

theorem mem_segmentValues_lt {s : AsPathSegment} {n : ℕ} (h : n ∈ segmentValues s) : n < 2 ^ 64 := by
  have hmem : n ∈ s.values.map BitVec.toNat := by
    unfold segmentValues at h
    split at h
    · rwa [List.mem_insertionSort] at h
    · exact h
  obtain ⟨v, _, rfl⟩ := List.mem_map.1 hmem
  exact toNat_lt_word (by decide) v

theorem segmentValues_eq_iff {s t : AsPathSegment} (h : s.kind = t.kind) :
    segmentValues s = segmentValues t ↔
      if Unordered s then s.values.Perm t.values else s.values = t.values := by
  have hinj : Function.Injective (BitVec.toNat : U32 → ℕ) := fun _ _ => BitVec.eq_of_toNat_eq
  have hkind : Unordered t ↔ Unordered s := by
    unfold Unordered
    rw [h]
  unfold segmentValues
  by_cases hset : Unordered s
  · rw [if_pos hset, if_pos (hkind.2 hset), if_pos hset]
    have hs := List.perm_insertionSort (· ≤ ·) (s.values.map BitVec.toNat)
    have ht := List.perm_insertionSort (· ≤ ·) (t.values.map BitVec.toNat)
    constructor
    · intro heq
      rw [heq] at hs
      exact (List.map_perm_map_iff hinj).1 (hs.symm.trans ht)
    · intro hperm
      exact List.Perm.eq_of_pairwise (fun _ _ _ _ => le_antisymm) (List.pairwise_insertionSort _ _)
        (List.pairwise_insertionSort _ _) (hs.trans ((hperm.map _).trans ht.symm))
  · rw [if_neg hset, if_neg fun ht => hset (hkind.1 ht), if_neg hset]
    exact List.map_inj_right (fun _ _ => @hinj _ _)

theorem segmentJson_inj {s t : AsPathSegment} :
    (segmentJson s).canonical = (segmentJson t).canonical ↔ SameSegment s t := by
  have hplain : ∀ s : AsPathSegment, Plain (arrayOf ((segmentValues s).map natural)) := by
    intro s
    apply plain_arrayOf
    intro j hj
    obtain ⟨n, _, rfl⟩ := List.mem_map.1 hj
    rfl
  constructor
  · intro h
    have hkind : natural s.kind.toNat = natural t.kind.toNat := canonical_of_member "kind" h rfl rfl
    have hvalues := canonical_of_member "values" h
      (x := arrayOf ((segmentValues s).map natural)) (y := arrayOf ((segmentValues t).map natural)) rfl rfl
    rw [hplain s, hplain t] at hvalues
    replace hkind := natural_toNat_inj (by decide) hkind
    refine ⟨hkind, (segmentValues_eq_iff hkind).1 (arrayOf_map_inj ?_ hvalues)⟩
    intro m hm n hn hmn
    exact natural_inj (mem_segmentValues_lt hm) (mem_segmentValues_lt hn) hmn
  · rintro ⟨hkind, hvalues⟩
    unfold segmentJson
    rw [hkind, (segmentValues_eq_iff hkind).2 hvalues]

theorem tupleKey_injective : Function.Injective tupleKey := by
  rintro ⟨x, y, z⟩ ⟨x', y', z'⟩ h
  simp only [tupleKey, EmbeddingLike.apply_eq_iff_eq, Prod.mk.injEq, BitVec.toNat_inj] at h
  obtain ⟨rfl, rfl, rfl⟩ := h
  rfl

theorem tupleJson_tupleKey (t : U32 × U32 × U32) : tupleJson (tupleKey t) =
    arrayOf [natural t.1.toNat, natural t.2.1.toNat, natural t.2.2.toNat] := rfl

theorem tupleJson_inj {t u : U32 × U32 × U32} (h : tupleJson (tupleKey t) = tupleJson (tupleKey u)) :
    t = u := by
  rw [tupleJson_tupleKey, tupleJson_tupleKey] at h
  have h := arrayOf_inj h
  simp only [List.cons.injEq, and_true] at h
  obtain ⟨hx, hy, hz⟩ := h
  exact Prod.ext (natural_toNat_inj (by decide) hx)
    (Prod.ext (natural_toNat_inj (by decide) hy) (natural_toNat_inj (by decide) hz))

theorem sorted_texts_eq_iff {α κ : Type} [LinearOrder κ] {key : α → κ} {f : κ → Json} {l m : List α}
    (hkey : Function.Injective key) (hf : ∀ a b, f (key a) = f (key b) → a = b) :
    arrayOf ((sortDedup (l.map key)).map f) = arrayOf ((sortDedup (m.map key)).map f) ↔
      ∀ a, a ∈ l ↔ a ∈ m := by
  constructor
  · intro h
    have hlists : sortDedup (l.map key) = sortDedup (m.map key) := by
      apply arrayOf_map_inj _ h
      intro x hx y hy hxy
      rw [mem_sortDedup] at hx hy
      obtain ⟨a, _, rfl⟩ := List.mem_map.1 hx
      obtain ⟨b, _, rfl⟩ := List.mem_map.1 hy
      rw [hf a b hxy]
    intro a
    rw [← List.mem_map_of_injective hkey, ← mem_sortDedup, hlists, mem_sortDedup,
      List.mem_map_of_injective hkey]
  · intro h
    rw [sortDedup_congr fun k => ?_]
    simp only [List.mem_map, h]

theorem plain_map {α : Type} {f : α → Json} (h : ∀ a, Plain (f a)) (l : List α) :
    Plain (arrayOf (l.map f)) := by
  apply plain_arrayOf
  intro j hj
  obtain ⟨a, _, rfl⟩ := List.mem_map.1 hj
  exact h a

theorem plain_tupleJson (k : ℕ ×ₗ ℕ ×ₗ ℕ) : Plain (tupleJson k) := rfl

variable {p q : Prefix} {a b : PathAttributes} {e f : SemanticIdentityEvidence}

theorem optional_natural_inj {w : ℕ} (hw : w ≤ 64) {x y : Option (BitVec w)}
    (h : (optional (fun n => natural n.toNat) x).canonical =
      (optional (fun n => natural n.toNat) y).canonical) : x = y := by
  have hplain : ∀ z : Option (BitVec w), Plain (optional (fun n => natural n.toNat) z) :=
    plain_optional fun _ => rfl
  rw [hplain x, hplain y] at h
  exact optional_inj (fun _ _ heq => natural_toNat_inj hw heq) (fun _ => nofun) h

theorem optional_string_inj {x y : Option String}
    (h : (optional Json.string x).canonical = (optional Json.string y).canonical) : x = y := by
  have hplain : ∀ z : Option String, Plain (optional Json.string z) := plain_optional fun _ => rfl
  rw [hplain x, hplain y] at h
  exact optional_inj (fun _ _ => Json.string.inj) (fun _ => nofun) h

theorem attributesJson_same (hroute : p = q)
    (h : (attributesJson a e).canonical = (attributesJson b f).canonical) : SameRoute p q a b e f := by
  constructor
  case route => exact hroute
  case origin => exact optional_natural_inj (by decide) (canonical_of_member "origin" h rfl rfl)
  case nextHop => exact optional_string_inj (canonical_of_member "next_hop" h rfl rfl)
  case med => exact optional_natural_inj (by decide) (canonical_of_member "med" h rfl rfl)
  case localPreference =>
      exact optional_natural_inj (by decide) (canonical_of_member "local_preference" h rfl rfl)
  case aggregator => exact optional_string_inj (canonical_of_member "aggregator" h rfl rfl)
  case originatorId => exact optional_string_inj (canonical_of_member "originator_id" h rfl rfl)
  case clusterList =>
      have hcluster : (arrayOf (a.clusterList.map Json.string)).canonical =
          (arrayOf (b.clusterList.map Json.string)).canonical :=
        canonical_of_member "cluster_list" h rfl rfl
      have hplain : ∀ l : List String, Plain (arrayOf (l.map Json.string)) := plain_map fun _ => rfl
      rw [hplain, hplain] at hcluster
      exact arrayOf_map_inj (fun _ _ _ _ heq => Json.string.inj heq) hcluster
  case atomicAggregate =>
      have hatomic : Json.bool e.atomicAggregate = .bool f.atomicAggregate :=
        canonical_of_member "atomic_aggregate" h rfl rfl
      exact Json.bool.inj hatomic
  case asPath =>
      have hpath : (arrayOf (a.asPath.map segmentJson)).canonical =
          (arrayOf (b.asPath.map segmentJson)).canonical := canonical_of_member "as_path" h rfl rfl
      rw [canonical_arrayOf, canonical_arrayOf, List.map_map, List.map_map] at hpath
      have hsegments : List.Forall₂ (· = ·) (a.asPath.map (canonical ∘ segmentJson))
          (b.asPath.map (canonical ∘ segmentJson)) := by
        rw [List.forall₂_eq_eq_eq]
        exact arrayOf_inj hpath
      rw [List.forall₂_map_left_iff, List.forall₂_map_right_iff] at hsegments
      exact hsegments.imp fun _ _ => segmentJson_inj.1
  case communities =>
      have hcommunities :
          (arrayOf ((sortDedup (a.communities.map BitVec.toNat)).map natural)).canonical =
          (arrayOf ((sortDedup (b.communities.map BitVec.toNat)).map natural)).canonical :=
        canonical_of_member "communities" h rfl rfl
      have hplain : ∀ l : List ℕ, Plain (arrayOf (l.map natural)) := plain_map fun _ => rfl
      rw [hplain, hplain] at hcommunities
      exact (sorted_texts_eq_iff (fun _ _ => BitVec.eq_of_toNat_eq)
        fun _ _ heq => natural_toNat_inj (by decide) heq).1 hcommunities
  case largeCommunities =>
      have hlarge :
          (arrayOf ((sortDedup (e.largeCommunities.map tupleKey)).map tupleJson)).canonical =
          (arrayOf ((sortDedup (f.largeCommunities.map tupleKey)).map tupleJson)).canonical :=
        canonical_of_member "large_communities" h rfl rfl
      rw [plain_map plain_tupleJson, plain_map plain_tupleJson] at hlarge
      exact (sorted_texts_eq_iff tupleKey_injective fun _ _ heq => tupleJson_inj heq).1 hlarge

theorem attributesJson_congr (h : SameRoute p q a b e f) : attributesJson a e = attributesJson b f := by
  have hpath : a.asPath.map segmentJson = b.asPath.map segmentJson := by
    rw [← List.forall₂_eq_eq_eq, List.forall₂_map_left_iff, List.forall₂_map_right_iff]
    apply h.asPath.imp
    rintro s t ⟨hkind, hvalues⟩
    unfold segmentJson
    rw [hkind, (segmentValues_eq_iff hkind).2 hvalues]
  have hcommunities : arrayOf ((sortDedup (a.communities.map BitVec.toNat)).map natural) =
      arrayOf ((sortDedup (b.communities.map BitVec.toNat)).map natural) :=
    (sorted_texts_eq_iff (fun _ _ => BitVec.eq_of_toNat_eq)
      fun _ _ heq => natural_toNat_inj (by decide) heq).2 h.communities
  have hlarge := (sorted_texts_eq_iff tupleKey_injective fun _ _ heq => tupleJson_inj heq).2
    h.largeCommunities
  unfold attributesJson
  rw [h.origin, h.atomicAggregate, hpath, h.nextHop, h.med, h.localPreference, h.aggregator,
    hcommunities, hlarge, h.originatorId, h.clusterList]

theorem payload_eq_iff : payload p a e = payload q b f ↔ SameRoute p q a b e f := by
  constructor
  · intro h
    have hkey : (objectOf [("prefix", prefixJson p)]).canonical =
        (objectOf [("prefix", prefixJson q)]).canonical := canonical_of_member "route_key" h rfl rfl
    have hroute : (prefixJson p).canonical = (prefixJson q).canonical :=
      canonical_of_member "prefix" hkey rfl rfl
    have hattributes : (attributesJson a e).canonical = (attributesJson b f).canonical :=
      canonical_of_member "attributes" h rfl rfl
    exact attributesJson_same (prefixJson_inj hroute) hattributes
  · intro h
    unfold payload
    rw [h.route, attributesJson_congr h]

end Attributes

theorem utf8_inj {s t : String} (h : Encoder.utf8 s = Encoder.utf8 t) : s = t := by
  have hinj : Function.Injective UInt8.toBitVec := fun _ _ => UInt8.toBitVec_inj.1
  have hbytes := List.map_injective_iff.2 hinj h
  apply String.toByteArray_inj.1
  exact ByteArray.ext (Array.toList_inj.1 hbytes)

theorem preimage_inj {j k : Json} (h : preimage j = preimage k) : j = k := by
  unfold preimage at h
  rw [List.append_assoc, List.append_assoc] at h
  have hrest := List.append_cancel_left h
  have htext := (List.append_inj hrest (by simp)).2
  exact encode_inj (utf8_inj htext)

section Reports

variable {sha256 : List U8 → Digest} {action : RouteAction} {p : Prefix} {a : PathAttributes}
  {e : SemanticIdentityEvidence} {limits : Limits} {r : Json}

theorem semanticRouteIdentity_ok (h : semanticRouteIdentity sha256 action p a e limits = .ok r) :
    member r "incompleteness_reasons" =
        .ok (arrayOf ((reasonsOf action p a e).keys.map .string)) ∧
      member r "completeness" = .ok (.string (completeness (reasonsOf action p a e))) ∧
      if (reasonsOf action p a e).keys = [] then
        member r "canonical_payload" = .ok (payload p a e) ∧
          member r "fingerprint_sha256" =
            .ok (.string (hex (sha256 (preimage (payload p a e))).toList))
      else member r "fingerprint_sha256" = .ok .null := by
  unfold semanticRouteIdentity at h
  dsimp only at h
  obtain ⟨identified, hidentified, h⟩ := bind_eq_ok.1 h
  obtain rfl := Except.ok.inj h
  by_cases hcomplete : (reasonsOf action p a e).keys = []
  · rw [if_pos hcomplete] at hidentified ⊢
    obtain ⟨text, htext, hidentified⟩ := bind_eq_ok.1 hidentified
    obtain rfl := Except.ok.inj hidentified
    unfold fingerprint at htext
    obtain ⟨encoded, _, htext⟩ := bind_eq_ok.1 htext
    cases hsize : checkedAdd (DOMAIN.length + 8) encoded.utf8ByteSize with
    | none =>
      rw [hsize] at htext
      cases htext
    | some size =>
      rw [hsize] at htext
      obtain rfl := Except.ok.inj htext
      exact ⟨rfl, rfl, rfl, rfl⟩
  · rw [if_neg hcomplete] at hidentified ⊢
    obtain rfl := Except.ok.inj hidentified
    exact ⟨rfl, rfl, rfl⟩

theorem completeness_eq_complete {reasons : OrdSet String} :
    completeness reasons = "complete" ↔ reasons.keys = [] := by
  unfold completeness
  by_cases hempty : reasons.keys = []
  · rw [if_pos hempty]
    exact ⟨fun _ => hempty, fun _ => rfl⟩
  · rw [if_neg hempty]
    refine ⟨fun h => ?_, fun h => absurd h hempty⟩
    split at h
    · exact absurd h (by decide)
    · exact absurd h (by decide)

theorem semanticRouteIdentity_complete
    (h : semanticRouteIdentity sha256 action p a e limits = .ok r)
    (hcomplete : member r "completeness" = .ok (.string "complete")) :
    member r "canonical_payload" = .ok (payload p a e) ∧ member r "fingerprint_sha256" =
      .ok (.string (hex (sha256 (preimage (payload p a e))).toList)) := by
  obtain ⟨_, hcompleteness, hrest⟩ := semanticRouteIdentity_ok h
  rw [hcompleteness] at hcomplete
  have hempty := completeness_eq_complete.1 (Json.string.inj (Except.ok.inj hcomplete))
  rwa [if_pos hempty] at hrest

theorem fingerprint_eq {j : Json} (h : j.encodedLen ≤ limits.outputBytes)
    (htotal : DOMAIN.length + 8 + j.encodedLen < wordBound) :
    fingerprint sha256 j limits = .ok (hex (sha256 (preimage j)).toList) := by
  have hencoded : j.encodeBounded limits.outputBytes = .ok j.encode := if_pos h
  have hsum : checkedAdd (DOMAIN.length + 8) j.encode.utf8ByteSize =
      some (DOMAIN.length + 8 + j.encode.utf8ByteSize) := checkedAdd_of_lt htotal
  refine bind_eq_ok.2 ⟨_, hencoded, ?_⟩
  rw [hsum]
  rfl

theorem exists_complete (h : (reasonsOf action p a e).keys = [])
    (hlimit : (payload p a e).encodedLen ≤ limits.outputBytes)
    (htotal : DOMAIN.length + 8 + (payload p a e).encodedLen < wordBound) :
    ∃ r, semanticRouteIdentity sha256 action p a e limits = .ok r ∧
      member r "completeness" = .ok (.string "complete") := by
  unfold semanticRouteIdentity
  dsimp only
  rw [if_pos h, fingerprint_eq hlimit htotal, completeness_eq_complete.2 h]
  exact ⟨_, rfl, rfl⟩

end Reports

/-- Two complete identities have one payload, and one preimage, exactly for the same route. -/
theorem semantic_identity_canonical (sha256 : List U8 → Digest) :
    (∀ action p a e limits r, semanticRouteIdentity sha256 action p a e limits = .ok r →
      (member r "fingerprint_sha256" = .ok .null ↔
        member r "incompleteness_reasons" ≠ .ok (arrayOf []))) ∧
    ∀ action action' p q a b e f limits limits' r r',
      semanticRouteIdentity sha256 action p a e limits = .ok r →
      semanticRouteIdentity sha256 action' q b f limits' = .ok r' →
      member r "completeness" = .ok (.string "complete") →
      member r' "completeness" = .ok (.string "complete") →
      (member r "canonical_payload" = member r' "canonical_payload" ↔ SameRoute p q a b e f) ∧
      (preimage (payload p a e) = preimage (payload q b f) ↔ SameRoute p q a b e f) ∧
      member r "fingerprint_sha256" =
        .ok (.string (hex (sha256 (preimage (payload p a e))).toList)) := by
  constructor
  · intro action p a e limits r h
    obtain ⟨hreasons, _, hrest⟩ := semanticRouteIdentity_ok h
    rw [hreasons]
    by_cases hempty : (reasonsOf action p a e).keys = []
    · rw [if_pos hempty] at hrest
      rw [hempty, hrest.2]
      exact ⟨(by intro heq; cases heq), fun hne => absurd rfl hne⟩
    · rw [if_neg hempty] at hrest
      refine ⟨fun _ heq => hempty ?_, fun _ => hrest⟩
      exact List.map_eq_nil_iff.1 (arrayOf_inj (Except.ok.inj heq))
  · intro action action' p q a b e f limits limits' r r' h h' hcomplete hcomplete'
    obtain ⟨hpayload, hfingerprint⟩ := semanticRouteIdentity_complete h hcomplete
    obtain ⟨hpayload', _⟩ := semanticRouteIdentity_complete h' hcomplete'
    refine ⟨?_, ?_, hfingerprint⟩
    · rw [hpayload, hpayload', ← payload_eq_iff]
      exact ⟨Except.ok.inj, congrArg Except.ok⟩
    · rw [← payload_eq_iff]
      exact ⟨preimage_inj, congrArg preimage⟩

/-- A route whose path ends in a set. -/
def sampleAttributes (systems : List U32) : PathAttributes where
  origin := some 0
  asPath := [⟨2, [1]⟩, ⟨1, systems⟩]
  nextHop := some "n"
  med := none
  localPreference := none
  aggregator := none
  communities := []
  originatorId := none
  clusterList := []

def sampleEvidence : SemanticIdentityEvidence := ⟨{1, 2, 3}, false, [], .empty, []⟩

def samplePrefix : Prefix := ⟨1, 1, 8, [10, 0, 0, 0]⟩

theorem sample_complete (systems : List U32) : reasonsOf .announce samplePrefix
    (sampleAttributes systems) sampleEvidence = .empty := by
  rfl

theorem sample_same : SameRoute samplePrefix samplePrefix (sampleAttributes [6, 5])
    (sampleAttributes [5, 6]) sampleEvidence sampleEvidence := by
  have hset : SameSegment ⟨1, [6, 5]⟩ ⟨1, [5, 6]⟩ := ⟨rfl, List.Perm.swap _ _ _⟩
  have hpath : List.Forall₂ SameSegment (sampleAttributes [6, 5]).asPath (sampleAttributes [5, 6]).asPath :=
    .cons ⟨rfl, rfl⟩ (.cons hset .nil)
  exact ⟨rfl, rfl, rfl, rfl, rfl, rfl, rfl, rfl, rfl, hpath, fun _ => Iff.rfl, fun _ => Iff.rfl⟩

theorem sample_size :
    (payload samplePrefix (sampleAttributes [5, 6]) sampleEvidence).encodedLen ≤ 1024 := by
  decide +kernel

def sampleDigest : List U8 → Digest := fun _ => Vector.replicate 32 0

theorem sample_identity {systems : List U32}
    (h : payload samplePrefix (sampleAttributes systems) sampleEvidence =
      payload samplePrefix (sampleAttributes [5, 6]) sampleEvidence) :
    ∃ r, semanticRouteIdentity sampleDigest .announce samplePrefix (sampleAttributes systems)
        sampleEvidence Limits.default = .ok r ∧ member r "completeness" = .ok (.string "complete") := by
  have hsize := sample_size
  rw [← h] at hsize
  have hdomain : DOMAIN.length = 45 := rfl
  have hlimit : (1024 : ℕ) ≤ Limits.default.outputBytes := by decide
  apply exists_complete
  · rw [sample_complete]
    rfl
  · exact hsize.trans hlimit
  · rw [hdomain]
    unfold wordBound
    omega

/-- The order of a set does not show in the payload. -/
theorem semantic_identity_sample : ∃ r r',
    semanticRouteIdentity sampleDigest .announce samplePrefix (sampleAttributes [6, 5]) sampleEvidence
      Limits.default = .ok r ∧
    semanticRouteIdentity sampleDigest .announce samplePrefix (sampleAttributes [5, 6]) sampleEvidence
      Limits.default = .ok r' ∧
    member r "canonical_payload" = member r' "canonical_payload" := by
  obtain ⟨r, hr, hcomplete⟩ := sample_identity (payload_eq_iff.2 sample_same)
  obtain ⟨r', hr', hcomplete'⟩ := @sample_identity [5, 6] rfl
  exact ⟨r, r', hr, hr', ((semantic_identity_canonical sampleDigest).2 _ _ _ _ _ _ _ _ _ _ _ _ hr hr'
    hcomplete hcomplete').1.2 sample_same⟩

end PcapEvidence.Bgp.Semantic
