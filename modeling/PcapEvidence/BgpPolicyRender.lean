import PcapEvidence.BgpPolicyEvaluate

/-!
# The streamed document is the encoded tree

A writer that holds as many octets as it has counted either appends a text or refuses it, whether it has
a buffer or not. Refusing is monotone, so a chain of appends is one append of the whole text, and the
whole text is that of the tree.
-/

namespace PcapEvidence.Bgp.Policy

open Json
open State (Net)

section Emit

variable {limit used : ℕ} {output : Option String} {before middle after : Bool} {s t : String}
  {f g : Writer → Result Writer}

structure Counted (limit : ℕ) (output : Option String) (used : ℕ) : Prop where
  within : used ≤ limit
  buffered : ∀ out ∈ output, out.utf8ByteSize = used

def emit (limit : ℕ) (w : Writer) (s : String) : Result Writer :=
  if w.used + s.utf8ByteSize ≤ limit then
    .ok { w with output := w.output.map (· ++ s), used := w.used + s.utf8ByteSize }
  else .error outputBytes

/-- A piece of the rendering that appends a text. -/
def Writes (limit : ℕ) (f : Writer → Result Writer) (before after : Bool) (s : String) : Prop :=
  ∀ output used, Counted limit output used → f ⟨output, used, before⟩ = emit limit ⟨output, used, after⟩ s

theorem Counted.append (h : Counted limit output used) (hle : used + s.utf8ByteSize ≤ limit) :
    Counted limit (output.map (· ++ s)) (used + s.utf8ByteSize) := by
  refine ⟨hle, fun out hout => ?_⟩
  obtain ⟨old, hold, rfl⟩ := Option.mem_map.1 hout
  rw [String.utf8ByteSize_append, h.buffered old hold]

theorem Writes.bind (hf : Writes limit f before middle s) (hg : Writes limit g middle after t) :
    Writes limit (fun w => f w >>= g) before after (s ++ t) := by
  intro output used hcounted
  change (f _ >>= g) = _
  rw [hf output used hcounted]
  unfold emit
  dsimp only
  by_cases hfirst : used + s.utf8ByteSize ≤ limit
  · rw [if_pos hfirst]
    change g _ = _
    rw [hg _ _ (hcounted.append hfirst)]
    unfold emit
    dsimp only
    have happend : (output.map (· ++ s)).map (· ++ t) = output.map (· ++ (s ++ t)) := by
      cases output with
      | none => rfl
      | some out => exact congrArg some String.append_assoc
    rw [String.utf8ByteSize_append, Nat.add_assoc, happend]
  · rw [if_neg hfirst, if_neg]
    · rfl
    · rw [String.utf8ByteSize_append]
      omega

theorem writes_raw (h : limit < wordBound) (b : Bool) :
    Writes limit (fun w => appendRaw limit w s) b b s := by
  intro output used hcounted
  unfold appendRaw emit checkedAdd
  dsimp only
  by_cases hle : used + s.utf8ByteSize ≤ limit
  · rw [if_pos (by omega), if_pos hle]
    change (if _ then _ else _) = _
    rw [if_neg (by omega)]
    rfl
  · rw [if_neg hle]
    split
    · change (if _ then _ else _) = _
      rw [if_pos (by omega)]
    · rfl

theorem appendOutput_ok (value : Json) (h : limit < wordBound) (hcounted : Counted limit output used)
    (hle : used + value.encode.utf8ByteSize ≤ limit) :
    appendOutput value limit output = .ok (output.map (· ++ value.encode)) := by
  cases output with
  | none => rfl
  | some out =>
    have hsize := hcounted.buffered out rfl
    have hremaining : checkedSub limit out.utf8ByteSize = some (limit - used) := by
      rw [hsize]
      exact if_pos (by omega)
    have hlen : value.encodedLenBounded (limit - used) = .ok value.encode.utf8ByteSize := by
      rw [encodedLenBounded_eq value (by omega), if_pos (by omega)]
    have hbounded : appendBounded value out limit = .ok (out ++ value.encode) := by
      unfold appendBounded
      rw [hremaining]
      change (value.encodedLenBounded (limit - used) >>= fun _ => _) = _
      rw [hlen]
      rfl
    unfold appendOutput
    dsimp only
    rw [hbounded]
    rfl

theorem writes_json (h : limit < wordBound) (value : Json) (b : Bool) :
    Writes limit (fun w => appendJson limit w value) b b value.encode := by
  intro output used hcounted
  unfold appendJson emit
  dsimp only
  have hremaining : checkedSub limit used = some (limit - used) := if_pos hcounted.within
  rw [hremaining]
  change (checked (value.encodedLenBounded (limit - used)).toOption outputBytes >>= fun size => _) = _
  rw [encodedLenBounded_eq value (by omega)]
  have hused := hcounted.within
  by_cases hle : used + value.encode.utf8ByteSize ≤ limit
  · rw [if_pos (by omega), if_pos hle]
    change (appendOutput value limit output >>= fun out => _) = _
    rw [appendOutput_ok value h hcounted hle]
    change (checked (checkedAdd used value.encode.utf8ByteSize) outputBytes >>= fun next => _) = _
    rw [checkedAdd, if_pos (by omega)]
    rfl
  · rw [if_neg (by omega), if_neg hle]
    rfl

theorem Writes.congr (hf : Writes limit f before after s) (hst : s = t) :
    Writes limit f before after t := hst ▸ hf

end Emit

section Members

variable {limit : ℕ}

def comma (first : Bool) : String := if first then "" else ","
variable (h : limit < wordBound)
include h

theorem writes_comma (first b : Bool) :
    Writes limit (writeComma limit first) b b (comma first) := by
  cases first with
  | false => exact writes_raw h b
  | true =>
    intro output used hcounted
    have hempty : output.map (· ++ "") = output := by
      cases output with
      | none => rfl
      | some out => exact congrArg some String.append_empty
    unfold writeComma emit comma
    rw [if_pos rfl, if_pos rfl]
    dsimp only
    rw [hempty, String.utf8ByteSize_empty, Nat.add_zero, if_pos hcounted.within]

theorem writes_key (first : Bool) (key : String) :
    Writes limit (fun w => writeKey limit w key) first false (comma first ++ escape key) := by
  intro output used hcounted
  have hkey : Writes limit (fun w => appendJson limit { w with first := false } (.string key)) first
      false (escape key) := fun output used hcounted => writes_json h (.string key) false output used hcounted
  exact (writes_comma h first first).bind hkey output used hcounted

theorem writes_member (first : Bool) (key : String) (value : Json) :
    Writes limit (fun w => writeMember limit w key value) first false
      (comma first ++ escape key ++ (":" ++ value.encode)) :=
  (writes_key h first key).bind ((writes_raw h false).bind (writes_json h value false))

theorem writes_items (items : List Json) (first b : Bool) :
    Writes limit (fun w => writeItems limit items first w >>= fun w => appendRaw limit w "]") b b
      (encodeItems (itemsOf items) first) := by
  induction items generalizing first with
  | nil => exact writes_raw h b
  | cons value rest ih =>
    have hstep := (writes_comma h first b).bind ((writes_json h value b).bind (ih false))
    intro output used hcounted
    have htext : comma first ++ (value.encode ++ encodeItems (itemsOf rest) false) =
        encodeItems (itemsOf (value :: rest)) first := by
      rw [itemsOf, encodeItems, comma, String.append_assoc]
    rw [← htext, ← hstep output used hcounted]
    simp only [writeItems, bind_assoc]

theorem writes_array (first : Bool) (key : String) (items : List Json) :
    Writes limit (fun w => writeMemberArray limit w key items) first false
      (comma first ++ escape key ++ (":" ++ (arrayOf items).encode)) := by
  have hitems := (writes_raw (s := "[") h false).bind (writes_items h items true false)
  exact (writes_key h first key).bind ((writes_raw h false).bind hitems)

omit h

theorem encodeFields_cons (key : String) (value : Json) (rest : List (String × Json)) (first : Bool) :
    encodeFields (fieldsOf ((key, value) :: rest)) first =
      comma first ++ escape key ++ (":" ++ value.encode) ++ encodeFields (fieldsOf rest) false := by
  rw [fieldsOf, encodeFields, comma]
  simp only [String.append_assoc]

theorem encode_objectOf (fields : List (String × Json)) :
    (objectOf fields).encode = "\x7b" ++ encodeFields (fieldsOf fields) true := rfl

theorem writes_canonical (h : limit < wordBound) (r : PolicyResult) (output : Option String)
    (hcounted : Counted limit output 0) : renderCanonical r limit output =
      if r.toJson.encode.utf8ByteSize ≤ limit then
        .ok (r.toJson.encode.utf8ByteSize, output.map (· ++ r.toJson.encode))
      else .error outputBytes := by
  have hchain := (writes_raw (s := "\x7b") h true).bind <|
    (writes_member h true "candidate_set_fingerprint_sha256"
      (.string r.candidateSetFingerprintSha256)).bind <|
    (writes_member h false "candidate_store_binding" (.string STORE_BINDING_UNAVAILABLE)).bind <|
    (writes_array h false "comparisons" (r.comparisons.map comparisonJson)).bind <|
    (writes_member h false "config_fingerprint_sha256" (.string r.configFingerprintSha256)).bind <|
    (writes_member h false "config_provenance" (.string r.configProvenance)).bind <|
    (writes_member h false "endpoint_rib_established" (.bool r.endpointRibEstablished)).bind <|
    (writes_array h false "excluded" (r.excluded.map excludedJson)).bind <|
    (writes_member h false "identity_scope" (.string "canonical_policy_inputs_only")).bind <|
    (writes_member h false "propagated_route_established" (.bool r.propagatedRouteEstablished)).bind <|
    (writes_member h false "schema" (.string RESULT_SCHEMA)).bind <|
    (writes_member h false "selected" (option .string r.selected)).bind <|
    (writes_array h false "unresolved" (r.unresolved.map .string)).bind <|
    writes_raw (s := "\x7d") h false
  have hrender : renderCanonical r limit output =
      emit limit ⟨output, 0, false⟩ r.toJson.encode >>= fun w => .ok (w.used, w.output) := by
    have htext := (hchain.congr (t := r.toJson.encode) (by
      rw [PolicyResult.toJson, PolicyResult.members, encode_objectOf]
      simp only [encodeFields_cons]
      rfl)) output 0 hcounted
    rw [← htext]
    simp only [renderCanonical, bind_assoc]
    rfl
  rw [hrender]
  unfold emit
  dsimp only
  rw [Nat.zero_add]
  split <;> rfl

end Members

section Documents

variable {limit : ℕ} {limits : Limits} {r : PolicyResult}

theorem counted_none : Counted limit none 0 := ⟨Nat.zero_le _, fun out hout => by cases hout⟩

theorem counted_empty : Counted limit (some "") 0 := by
  refine ⟨Nat.zero_le _, fun out hout => ?_⟩
  obtain rfl := Option.some.inj hout
  rfl

theorem encodedLen_eq (h : limit < wordBound) : r.encodedLen limit =
    if r.toJson.encode.utf8ByteSize ≤ limit then .ok r.toJson.encode.utf8ByteSize
    else .error outputBytes := by
  unfold PolicyResult.encodedLen
  rw [writes_canonical h r none counted_none]
  split <;> rfl

theorem render_lengths (h : limit < wordBound) : (renderCanonical r limit (some "")).map Prod.fst =
    (renderCanonical r limit none).map Prod.fst := by
  rw [writes_canonical h r none counted_none, writes_canonical h r (some "") counted_empty]
  split <;> rfl

theorem encodeCanonical_ok (h : min limits.outputBytes limits.retainedBytes < wordBound)
    {text : String} : r.encodeCanonical limits = .ok text ↔ limits.validate = .ok () ∧
      r.toJson.encode.utf8ByteSize ≤ min limits.outputBytes limits.retainedBytes ∧
      text = r.toJson.encode := by
  unfold PolicyResult.encodeCanonical
  dsimp only
  rw [encodedLen_eq h, writes_canonical h r (some "") counted_empty]
  cases hvalid : limits.validate with
  | error e =>
    constructor
    · intro hok
      cases hok
    · rintro ⟨hok, _⟩
      cases hok
  | ok u =>
    have hempty : "" ++ r.toJson.encode = r.toJson.encode := String.empty_append
    by_cases hle : r.toJson.encode.utf8ByteSize ≤ min limits.outputBytes limits.retainedBytes
    · rw [if_pos hle, if_pos hle]
      constructor
      · intro hok
        have htext : "" ++ r.toJson.encode = text := Except.ok.inj hok
        exact ⟨rfl, hle, htext.symm.trans hempty⟩
      · rintro ⟨_, _, rfl⟩
        exact congrArg Except.ok hempty
    · rw [if_neg hle]
      constructor
      · intro hok
        cases hok
      · rintro ⟨_, hfits, _⟩
        exact absurd hfits hle

end Documents

section Admission

variable {net : Net} {sha256 : List U8 → History.Digest} {sizes : Sizes} {config : PolicyConfig}
  {candidates : List PolicyCandidate} {limits : Limits}

/-- The octets between the brackets of an array. -/
def contentSize (items : List Json) : ℕ :=
  (items.map fun j => j.encode.utf8ByteSize).sum + (items.length - 1)

theorem utf8ByteSize_arrayOf (items : List Json) :
    (arrayOf items).encode.utf8ByteSize = 2 + contentSize items := by
  have hbracket : "[".utf8ByteSize = 1 := rfl
  rw [arrayOf, encode, String.utf8ByteSize_append, utf8ByteSize_encodeItems, hbracket, if_pos rfl,
    itemsSize, toList_itemsOf, contentSize]
  omega

theorem utf8ByteSize_exchange (before after : List (String × Json)) (key : String) (v w : Json) :
    (objectOf (before ++ (key, v) :: after)).encode.utf8ByteSize + w.encode.utf8ByteSize =
      (objectOf (before ++ (key, w) :: after)).encode.utf8ByteSize + v.encode.utf8ByteSize := by
  simp only [encode_objectOf, String.utf8ByteSize_append, utf8ByteSize_encodeFields, fieldsSize,
    toList_fieldsOf, List.map_append, List.map_cons, List.sum_append, List.sum_cons,
    List.length_append, List.length_cons]
  omega

theorem utf8ByteSize_toJson (r : PolicyResult) (comparisons : List Comparison) :
    ({ r with comparisons := comparisons } : PolicyResult).toJson.encode.utf8ByteSize +
        contentSize (r.comparisons.map comparisonJson) =
      r.toJson.encode.utf8ByteSize + contentSize (comparisons.map comparisonJson) := by
  have hexchange := utf8ByteSize_exchange (r.members.take 2) (r.members.drop 3)
    "comparisons" (arrayOf (comparisons.map comparisonJson))
    (arrayOf (r.comparisons.map comparisonJson))
  rw [utf8ByteSize_arrayOf, utf8ByteSize_arrayOf] at hexchange
  have hnew : objectOf (r.members.take 2 ++ ("comparisons",
      arrayOf (comparisons.map comparisonJson)) :: r.members.drop 3) =
        ({ r with comparisons := comparisons } : PolicyResult).toJson := rfl
  have hold : objectOf (r.members.take 2 ++ ("comparisons",
      arrayOf (r.comparisons.map comparisonJson)) :: r.members.drop 3) = r.toJson := rfl
  rw [hnew, hold] at hexchange
  omega

theorem checked_ok {n : Option ℕ} {e : Error} {m : ℕ} (h : checked n e = .ok m) : n = some m := by
  cases n with
  | none => cases h
  | some k => exact congrArg some (Except.ok.inj h)

theorem encodedLenBounded_ok {j : Json} {limit n : ℕ} (h : limit < wordBound)
    (hn : (j.encodedLenBounded limit).toOption = some n) : n = j.encode.utf8ByteSize := by
  rw [encodedLenBounded_eq j h] at hn
  split at hn
  · exact (Option.some.inj hn).symm
  · cases hn

structure PairScan.Counts (s : PairScan) (comparisons : List Comparison) : Prop where
  compared : s.compared = comparisons.length
  bytes : s.bytes = contentSize (comparisons.map comparisonJson)

theorem PairScan.note_bytes (s : PairScan) (c : Comparison) :
    (s.note c).bytes = s.bytes ∧ (s.note c).compared = s.compared := by
  unfold PairScan.note
  split <;> exact ⟨rfl, rfl⟩

theorem contentSize_concat (items : List Json) (j : Json) : contentSize (items ++ [j]) =
    contentSize items + (if items.length ≠ 0 then 1 else 0) + j.encode.utf8ByteSize := by
  simp only [contentSize, List.map_append, List.sum_append, List.length_append, List.map_cons,
    List.map_nil, List.sum_cons, List.sum_nil, List.length_cons, List.length_nil]
  split <;> omega

theorem PairScan.Counts.step {s t : PairScan} {comparisons : List Comparison} {limit : ℕ}
    {p : PolicyCandidate × PolicyCandidate} (h : s.Counts comparisons) (hlimit : limit < wordBound)
    (hok : comparePair config limit s p = .ok t) :
    t.Counts (comparisons ++ [compare p.1 p.2 config]) := by
  unfold comparePair at hok
  obtain ⟨separated, hsep, hok⟩ := bind_eq_ok.1 hok
  obtain ⟨remaining, hrem, hok⟩ := bind_eq_ok.1 hok
  obtain ⟨size, hsize, hok⟩ := bind_eq_ok.1 hok
  obtain ⟨bytes, hbytes, hok⟩ := bind_eq_ok.1 hok
  obtain rfl := Except.ok.inj hok
  have hremaining : remaining < wordBound := by
    have := checked_ok hrem
    unfold checkedSub at this
    split at this
    · have := Option.some.inj this
      omega
    · cases this
  have hsize := encodedLenBounded_ok hremaining (checked_ok hsize)
  have hbytes := ((checkedAdd_eq_some_iff _ _ _).1 (checked_ok hbytes)).2
  have hsep : separated = s.bytes + if s.compared ≠ 0 then 1 else 0 := by
    have hsep := checked_ok hsep
    by_cases hfirst : s.compared ≠ 0
    · rw [if_pos hfirst] at hsep ⊢
      exact ((checkedAdd_eq_some_iff _ _ _).1 hsep).2
    · rw [if_neg hfirst] at hsep ⊢
      exact (Option.some.inj hsep).symm
  obtain ⟨hnote, hcompared⟩ := PairScan.note_bytes
    { s with bytes := bytes, compared := s.compared + 1 } (compare p.1 p.2 config)
  constructor
  · rw [hcompared, List.length_append, h.compared]
    rfl
  · rw [hnote, List.map_append, List.map_singleton, contentSize_concat, List.length_map,
      ← h.compared, ← h.bytes, hbytes, hsep, hsize]

theorem PairScan.Counts.run {s t : PairScan} {comparisons : List Comparison} {limit : ℕ}
    {pairs : List (PolicyCandidate × PolicyCandidate)} (h : s.Counts comparisons)
    (hlimit : limit < wordBound) (hok : pairs.foldlM (comparePair config limit) s = .ok t) :
    t.Counts (comparisons ++ pairs.map fun p => compare p.1 p.2 config) := by
  induction pairs generalizing s comparisons with
  | nil =>
    cases hok
    rwa [List.map_nil, List.append_nil]
  | cons p rest ih =>
    rw [List.foldlM_cons] at hok
    obtain ⟨u, hstep, hok⟩ := bind_eq_ok.1 hok
    have := ih (h.step hlimit hstep) hok
    rwa [List.append_assoc, List.singleton_append] at this
variable (hlimit : min limits.outputBytes limits.retainedBytes < wordBound)
include hlimit

theorem preflight_ok {p : Preflight}
    (h : preflight net sha256 sizes config candidates limits = .ok p) :
    p.result.comparisons = [] ∧
      p.contentBytes = contentSize ((pairsOf p.active).map fun pair =>
        comparisonJson (compare pair.1 pair.2 config)) := by
  unfold preflight at h
  obtain ⟨_, _, h⟩ := bind_eq_ok.1 h
  obtain ⟨_, _, h⟩ := bind_eq_ok.1 h
  obtain ⟨_, _, h⟩ := bind_eq_ok.1 h
  obtain ⟨_, h⟩ := guard_eq_ok.1 h
  obtain ⟨ordered, _, h⟩ := bind_eq_ok.1 h
  obtain ⟨identity, _, h⟩ := bind_eq_ok.1 h
  obtain ⟨budget, _, h⟩ := bind_eq_ok.1 h
  obtain ⟨scan, hscan, h⟩ := bind_eq_ok.1 h
  cases h
  have hstart : PairScan.Counts ⟨0, 0, .empty, (if activeOf ordered.values = []
      then ["no_active_candidates"] else []) ++ scopeNotes config (activeOf ordered.values)⟩ [] :=
    ⟨rfl, rfl⟩
  have hcounts := (hstart.run hlimit hscan).bytes
  rw [List.nil_append, List.map_map] at hcounts
  exact ⟨rfl, hcounts⟩

theorem admitSize_ok {p : Preflight} {size : ℕ} (h : admitSize limits p = .ok size) :
    size = p.result.toJson.encode.utf8ByteSize + p.contentBytes ∧
      size ≤ min limits.outputBytes limits.retainedBytes := by
  unfold admitSize at h
  obtain ⟨empty, hempty, h⟩ := bind_eq_ok.1 h
  obtain ⟨n, hn, h⟩ := bind_eq_ok.1 h
  obtain ⟨hle, h⟩ := guard_eq_ok.1 h
  obtain ⟨_, _, h⟩ := bind_eq_ok.1 h
  obtain ⟨_, _, h⟩ := bind_eq_ok.1 h
  obtain ⟨_, h⟩ := guard_eq_ok.1 h
  cases h
  rw [encodedLen_eq hlimit] at hempty
  have hempty : empty = p.result.toJson.encode.utf8ByteSize := by
    split at hempty
    · exact (Except.ok.inj hempty).symm
    · cases hempty
  refine ⟨?_, Nat.not_lt.1 hle⟩
  have hn := checked_ok hn
  obtain ⟨a, ha, hn⟩ := Option.bind_eq_some_iff.1 hn
  obtain ⟨b, hb, hn⟩ := Option.bind_eq_some_iff.1 hn
  have hb := ((checkedAdd_eq_some_iff _ _ _).1 hb).2
  have hn := ((checkedAdd_eq_some_iff _ _ _).1 hn).2
  unfold checkedSub at ha
  split at ha
  · have ha := Option.some.inj ha
    omega
  · cases ha

theorem evaluate_size {r : PolicyResult}
    (h : evaluate net sha256 sizes config candidates limits = .ok r) :
    ∃ p size, preflight net sha256 sizes config candidates limits = .ok p ∧
      admitSize limits p = .ok size ∧
      r.encodedLen (min limits.outputBytes limits.retainedBytes) = .ok size := by
  unfold evaluate at h
  obtain ⟨p, hp, h⟩ := bind_eq_ok.1 h
  obtain ⟨size, hsize, h⟩ := bind_eq_ok.1 h
  cases h
  refine ⟨p, size, hp, hsize, ?_⟩
  obtain ⟨hempty, hcontent⟩ := preflight_ok hlimit hp
  obtain ⟨hsum, hle⟩ := admitSize_ok hlimit hsize
  have hdocument := utf8ByteSize_toJson p.result
    ((pairsOf p.active).map fun pair => compare pair.1 pair.2 config)
  rw [hempty, List.map_map] at hdocument
  have hnone : contentSize (([] : List Comparison).map comparisonJson) = 0 := rfl
  have hcontent : p.contentBytes = contentSize ((pairsOf p.active).map
      (comparisonJson ∘ fun pair => compare pair.1 pair.2 config)) := hcontent
  rw [hnone, Nat.add_zero, ← hcontent, ← hsum] at hdocument
  rw [encodedLen_eq hlimit, hdocument, if_pos hle]

omit hlimit

end Admission

def sampleResult : PolicyResult := ⟨none, [], [], [], "", "", "", false, false⟩

end PcapEvidence.Bgp.Policy
