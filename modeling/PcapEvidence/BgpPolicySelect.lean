import PcapEvidence.BgpPolicyAdmit

/-!
# Selection of the best path

The result does not depend on the order of the candidates. A selected candidate wins against all others
and stays selected without any of them. Where MED does not depend on the neighbor, comparisons that all
decide have a winner.
-/

namespace PcapEvidence.Bgp.Policy

open Json OrderedMap History Cascade
open State (Net)

section Hex

theorem utf8ByteSize_hex (bytes : List U8) :
    (Json.string (hex bytes)).encode.utf8ByteSize = 2 + 2 * bytes.length := by
  have hdigit : ∀ n < 16, quotedCharLen (hexDigit n) = 1 := by decide
  rw [encode, utf8ByteSize_escape, hex, String.toList_ofList]
  induction bytes with
  | nil => rfl
  | cons b rest ih =>
    have hb := b.isLt
    rw [List.flatMap_cons, List.map_append, List.sum_append, List.length_cons]
    simp only [List.map_cons, List.map_nil, List.sum_cons, List.sum_nil,
      hdigit (b.toNat / 16) (by omega), hdigit (b.toNat % 16) (by omega)]
    omega

variable {sha256 : List U8 → Digest}

theorem utf8ByteSize_hexDigest (s t : List U8) :
    (Json.string (hexDigest sha256 s)).encode.utf8ByteSize =
      (Json.string (hexDigest sha256 t)).encode.utf8ByteSize := by
  unfold hexDigest
  rw [utf8ByteSize_hex, utf8ByteSize_hex, Vector.length_toList, Vector.length_toList]

theorem utf8ByteSize_fingerprint (r : PolicyResult) {s t : List U8}
    (h : r.candidateSetFingerprintSha256 = hexDigest sha256 t) :
    ({ r with candidateSetFingerprintSha256 := hexDigest sha256 s } :
      PolicyResult).toJson.encode.utf8ByteSize = r.toJson.encode.utf8ByteSize := by
  have hexchange := utf8ByteSize_exchange [] (r.members.drop 1) "candidate_set_fingerprint_sha256"
    (.string (hexDigest sha256 s)) (.string r.candidateSetFingerprintSha256)
  have hnew : objectOf ([] ++ ("candidate_set_fingerprint_sha256",
      Json.string (hexDigest sha256 s)) :: r.members.drop 1) =
        ({ r with candidateSetFingerprintSha256 := hexDigest sha256 s } : PolicyResult).toJson := rfl
  have hold : objectOf ([] ++ ("candidate_set_fingerprint_sha256",
      Json.string r.candidateSetFingerprintSha256) :: r.members.drop 1) = r.toJson := rfl
  rw [hnew, hold, h, utf8ByteSize_hexDigest s t] at hexchange
  exact Nat.add_right_cancel hexchange

end Hex

section Evaluation

variable {active : List PolicyCandidate}
variable (net : Net) (sha256 : List U8 → Digest) (sizes : Sizes) (config : PolicyConfig)
  (candidates : List PolicyCandidate) (limits : Limits)

structure Evaluates (ordered : OrdMap String PolicyCandidate) (identity : IdentityWitness)
    (budget : TraceBudget) (scan : PairScan) (size : ℕ) : Prop where
  valid : limits.validate = .ok ()
  provenance : checkText config.provenance limits = .ok ()
  context : checkText config.comparisonContext limits = .ok ()
  counted : candidates.length ≤ limits.elements
  orders : order net limits candidates .empty = .ok ordered
  identifies : identify sha256 net config ordered.values limits = .ok identity
  admits : admitTrace sizes (activeOf ordered.values) identity.bytes limits = .ok budget
  scans : scanPairs config limits (activeOf ordered.values) = .ok scan
  fits : admitSize limits (assemble config ordered.values identity budget scan) = .ok size

def resultOf (ordered : List PolicyCandidate) (identity : IdentityWitness) (budget : TraceBudget)
    (scan : PairScan) : PolicyResult :=
  { (assemble config ordered identity budget scan).result with
    comparisons := comparisonsOf config (activeOf ordered) }

variable {net sha256 sizes config candidates limits}

theorem evaluate_eq_ok {r : PolicyResult} :
    evaluate net sha256 sizes config candidates limits = .ok r ↔
      ∃ ordered identity budget scan size,
        Evaluates net sha256 sizes config candidates limits ordered identity budget scan size ∧
        r = resultOf config ordered.values identity budget scan := by
  unfold evaluate preflight
  constructor
  · intro h
    obtain ⟨p, hp, h⟩ := bind_eq_ok.1 h
    obtain ⟨size, hsize, h⟩ := bind_eq_ok.1 h
    obtain ⟨_, hvalid, hp⟩ := bind_eq_ok.1 hp
    obtain ⟨_, hprovenance, hp⟩ := bind_eq_ok.1 hp
    obtain ⟨_, hcontext, hp⟩ := bind_eq_ok.1 hp
    obtain ⟨hcount, hp⟩ := guard_eq_ok.1 hp
    obtain ⟨ordered, hordered, hp⟩ := bind_eq_ok.1 hp
    obtain ⟨identity, hidentity, hp⟩ := bind_eq_ok.1 hp
    obtain ⟨budget, hbudget, hp⟩ := bind_eq_ok.1 hp
    obtain ⟨scan, hscan, hp⟩ := bind_eq_ok.1 hp
    cases hp
    cases h
    exact ⟨ordered, identity, budget, scan, size, ⟨hvalid, hprovenance, hcontext, Nat.not_lt.1 hcount,
      hordered, hidentity, hbudget, hscan, hsize⟩, rfl⟩
  · rintro ⟨ordered, identity, budget, scan, size, h, rfl⟩
    refine bind_eq_ok.2 ⟨assemble config ordered.values identity budget scan, ?_,
      bind_eq_ok.2 ⟨size, h.fits, rfl⟩⟩
    refine bind_eq_ok.2 ⟨_, h.valid, bind_eq_ok.2 ⟨_, h.provenance, bind_eq_ok.2 ⟨_, h.context,
      guard_eq_ok.2 ⟨Nat.not_lt.2 h.counted, ?_⟩⟩⟩⟩
    exact bind_eq_ok.2 ⟨ordered, h.orders, bind_eq_ok.2 ⟨identity, h.identifies,
      bind_eq_ok.2 ⟨budget, h.admits, bind_eq_ok.2 ⟨scan, h.scans, rfl⟩⟩⟩⟩

theorem evaluate_perm {permuted : List PolicyCandidate} (h : permuted.Perm candidates) :
    evaluate net sha256 sizes config permuted limits = evaluate net sha256 sizes config candidates limits ∨
      (∃ e, order net limits permuted .empty = .error e) ∧
      ∃ e, order net limits candidates .empty = .error e := by
  cases hordered : order net limits candidates .empty with
  | ok ordered =>
    left
    unfold evaluate preflight
    rw [hordered, order_perm h hordered, h.length_eq]
  | error e =>
    right
    refine ⟨?_, e, rfl⟩
    cases hpermuted : order net limits permuted .empty with
    | ok ordered =>
      rw [order_perm h.symm hpermuted] at hordered
      cases hordered
    | error e' => exact ⟨e', rfl⟩

variable {ordered : OrdMap String PolicyCandidate} {identity : IdentityWitness} {budget : TraceBudget}
  {scan : PairScan} {size : ℕ} {id : String} {c d : PolicyCandidate}

theorem Evaluates.holds (h : Evaluates net sha256 sizes config candidates limits ordered identity
    budget scan size) : Distinct candidates ∧ Ordered candidates ordered :=
  (order_eq_ok.1 h.orders).2

theorem mem_activeOf {l : List PolicyCandidate} : c ∈ activeOf l ↔ c ∈ l ∧ c.status = .active := by
  unfold activeOf
  rw [List.mem_filter, decide_eq_true_eq]
variable (h : Evaluates net sha256 sizes config candidates limits ordered identity budget scan size)
include h

theorem Evaluates.mem_active : c ∈ activeOf ordered.values ↔ c ∈ candidates ∧ c.status = .active := by
  rw [mem_activeOf, h.holds.2.mem_values]

theorem Evaluates.distinct : Distinct (activeOf ordered.values) :=
  ((List.filter_sublist).map PolicyCandidate.id).nodup h.holds.2.distinct

omit h

/-- What stands against a selection before any comparison. -/
def notesOf (config : PolicyConfig) (active : List PolicyCandidate) : List String :=
  (if active = [] then ["no_active_candidates"] else []) ++ scopeNotes config active

theorem scanPairs_records (h : scanPairs config limits active = .ok scan) :
    scan.Records (notesOf config active) (comparisonsOf config active) := by
  have hstart : PairScan.Records ⟨0, 0, .empty, notesOf config active⟩ (notesOf config active) [] :=
    ⟨fun _ => rfl, (List.append_nil _).symm⟩
  exact hstart.run h

structure Selects (config : PolicyConfig) (active : List PolicyCandidate) (c : PolicyCandidate) :
    Prop where
  notes : notesOf config active = []
  decided : ∀ comparison ∈ comparisonsOf config active, winner comparison ≠ none
  mem : c ∈ active
  dominates : Dominates config active c

theorem PairScan.Records.unresolved_eq_nil
    (h : scan.Records (notesOf config active) (comparisonsOf config active)) :
    scan.unresolved = [] ↔ notesOf config active = [] ∧
      ∀ comparison ∈ comparisonsOf config active, winner comparison ≠ none := by
  rw [h.unresolved, List.append_eq_nil_iff, List.map_eq_nil_iff, List.filter_eq_nil_iff]
  simp only [decide_eq_true_eq]

theorem decideWinner_some (hdistinct : Distinct active)
    (h : scan.Records (notesOf config active) (comparisonsOf config active)) :
    (decideWinner active scan).1 = some id ↔ ∃ c, c.id = id ∧ Selects config active c := by
  unfold decideWinner
  by_cases hnone : scan.unresolved = []
  · rw [if_pos hnone]
    obtain ⟨hnotes, hdecided⟩ := h.unresolved_eq_nil.1 hnone
    constructor
    · intro hsome
      split at hsome
      next c hc =>
        have hmem : c ∈ dominators active scan.wins := hc ▸ List.mem_singleton_self c
        obtain ⟨hin, hdominates⟩ := (mem_dominators hdistinct h.wins).1 hmem
        exact ⟨c, Option.some.inj hsome, hnotes, hdecided, hin, hdominates⟩
      next => cases hsome
    · rintro ⟨c, rfl, hselects⟩
      rw [dominators_eq hdistinct h.wins hselects.mem hselects.dominates]
  · rw [if_neg hnone]
    constructor
    · intro hsome
      cases hsome
    · rintro ⟨c, _, hselects⟩
      exact absurd (h.unresolved_eq_nil.2 ⟨hselects.notes, hselects.decided⟩) hnone

theorem Selects.unresolved (hdistinct : Distinct active)
    (h : scan.Records (notesOf config active) (comparisonsOf config active))
    (hselects : Selects config active c) : decideWinner active scan = (some c.id, []) := by
  unfold decideWinner
  rw [if_pos (h.unresolved_eq_nil.2 ⟨hselects.notes, hselects.decided⟩),
    dominators_eq hdistinct h.wins hselects.mem hselects.dominates]

def SameScope (a b : PolicyCandidate) : Prop :=
  a.key.scope.source = b.key.scope.source ∧ a.key.scope.direction = b.key.scope.direction ∧
    a.key.route = b.key.route ∧ a.key.family = b.key.family

def ScopesMatch (config : PolicyConfig) (active : List PolicyCandidate) : Prop :=
  ∀ a ∈ active, a.comparisonContext = config.comparisonContext ∧ ∀ b ∈ active, SameScope a b

theorem scopeDiffers_eq_false : scopeDiffers config d c = false ↔
    c.comparisonContext = config.comparisonContext ∧ SameScope c d := by
  unfold scopeDiffers SameScope
  simp only [Bool.or_eq_false_iff, decide_eq_false_iff_not, ne_eq, not_not, and_assoc]

theorem scopeNotes_eq_nil : scopeNotes config active = [] ↔ ScopesMatch config active := by
  cases active with
  | nil => exact ⟨fun _ => List.forall_mem_nil _, fun _ => rfl⟩
  | cons first rest =>
    unfold scopeNotes
    dsimp only
    rw [List.map_eq_nil_iff, List.filter_eq_nil_iff]
    constructor
    · intro hall a ha
      have hscope : ∀ a ∈ first :: rest, a.comparisonContext = config.comparisonContext ∧
          SameScope a first := fun a ha => scopeDiffers_eq_false.1 (Bool.not_eq_true _ ▸ hall a ha)
      refine ⟨(hscope a ha).1, fun b hb => ?_⟩
      obtain ⟨_, hsource, hdirection, hroute, hfamily⟩ := hscope a ha
      obtain ⟨_, hsource', hdirection', hroute', hfamily'⟩ := hscope b hb
      exact ⟨hsource.trans hsource'.symm, hdirection.trans hdirection'.symm,
        hroute.trans hroute'.symm, hfamily.trans hfamily'.symm⟩
    · intro hmatch a ha
      obtain ⟨hcontext, hsame⟩ := hmatch a ha
      rw [scopeDiffers_eq_false.2 ⟨hcontext, hsame first List.mem_cons_self⟩]
      exact Bool.false_ne_true

theorem notesOf_eq_nil : notesOf config active = [] ↔ active ≠ [] ∧ ScopesMatch config active := by
  unfold notesOf
  rw [List.append_eq_nil_iff, scopeNotes_eq_nil]
  apply and_congr_left
  intro _
  by_cases hempty : active = []
  · simp [hempty]
  · simp [hempty]

theorem Selects.without (h : Selects config active c)
    (hne : c.id ≠ d.id) : Selects config (without d active) c := by
  have hsub : (Policy.without d active).Sublist active := List.filter_sublist
  have hmem : c ∈ Policy.without d active := List.mem_filter.2 ⟨h.mem, by simpa using hne⟩
  refine ⟨?_, fun comparison hc => h.decided comparison ?_, hmem, fun e he => h.dominates e (hsub.subset he)⟩
  · obtain ⟨_, hscope⟩ := notesOf_eq_nil.1 h.notes
    refine notesOf_eq_nil.2 ⟨List.ne_nil_of_mem hmem, fun a ha => ?_⟩
    obtain ⟨hcontext, hsame⟩ := hscope a (hsub.subset ha)
    exact ⟨hcontext, fun b hb => hsame b (hsub.subset hb)⟩
  · exact ((sublist_pairsOf hsub).map _).subset hc

theorem Evaluates.selected (h : Evaluates net sha256 sizes config candidates limits ordered identity
    budget scan size) : (resultOf config ordered.values identity budget scan).selected = some id ↔
      ∃ c, c.id = id ∧ Selects config (activeOf ordered.values) c :=
  decideWinner_some h.distinct (scanPairs_records h.scans)

theorem Evaluates.without (hlimit : min limits.outputBytes limits.retainedBytes < wordBound)
    (h : Evaluates net sha256 sizes config candidates limits ordered identity budget scan size)
    (hselects : Selects config (activeOf ordered.values) c) (hd : d ∈ candidates)
    (hactive : d.status = .active) (hne : d.id ≠ c.id) :
    ∃ r, evaluate net sha256 sizes config (candidates.erase d) limits = .ok r ∧
      r.selected = some c.id := by
  obtain ⟨ordered', horder', hvalues⟩ := order_without h.orders hd
  have hactives : activeOf ordered'.values = Policy.without d (activeOf ordered.values) := by
    rw [hvalues, activeOf_without]
  have hsub : (Policy.without d ordered.values).Sublist ordered.values := List.filter_sublist
  have hsubActive : (Policy.without d (activeOf ordered.values)).Sublist (activeOf ordered.values) :=
    List.filter_sublist
  have hidentify : Shrinks (IdentityShrinks sha256)
      (identify sha256 net config (Policy.without d ordered.values) limits)
      (identify sha256 net config ordered.values limits) := shrinks_identify hsub
  obtain ⟨identity', hidentity', hconfig, ⟨s, t, hs, ht⟩, hbytes⟩ := hidentify identity h.identifies
  obtain ⟨budget', hbudget', hbudgetLe⟩ := shrinks_admitTrace hsubActive hbytes budget h.admits
  obtain ⟨scan', hscan', hscanLe⟩ := shrinks_scanPairs hsubActive scan h.scans
  rw [← hvalues] at hidentity'
  rw [← hactives] at hbudget' hscan'
  have hselects' : Selects config (activeOf ordered'.values) c :=
    hactives ▸ hselects.without (Ne.symm hne)
  have hdistinct' : Distinct (activeOf ordered'.values) := by
    rw [hactives]
    exact (hsubActive.map PolicyCandidate.id).nodup h.distinct
  have hwinner := hselects.unresolved h.distinct (scanPairs_records h.scans)
  have hwinner' := hselects'.unresolved hdistinct' (scanPairs_records hscan')
  have hexcluded : ordered'.values.filter (·.status ≠ .active) =
      ordered.values.filter (·.status ≠ .active) := by
    rw [hvalues]
    exact without_of_inactive h.holds.2.distinct (h.holds.2.mem_values.2 hd) hactive
  -- the documents differ in the fingerprint of the candidates only
  have hresult : (assemble config ordered'.values identity' budget' scan').result =
      { (assemble config ordered.values identity budget scan).result with
        candidateSetFingerprintSha256 := hexDigest sha256 s } := by
    unfold assemble
    dsimp only
    rw [hwinner, hwinner', hexcluded, hconfig, hs]
  have hdocument : (assemble config ordered'.values identity' budget' scan').result.toJson.encode.utf8ByteSize =
      (assemble config ordered.values identity budget scan).result.toJson.encode.utf8ByteSize := by
    rw [hresult]
    exact utf8ByteSize_fingerprint _ ht
  have hadmit : Shrinks (· ≤ ·)
      (admitSize limits (assemble config ordered'.values identity' budget' scan'))
      (admitSize limits (assemble config ordered.values identity budget scan)) :=
    shrinks_admitSize hlimit hdocument.le hscanLe.1 hbytes hbudgetLe
  obtain ⟨size', hsize', _⟩ := hadmit size h.fits
  have hcount : (candidates.erase d).length ≤ limits.elements :=
    (List.length_erase_le).trans h.counted
  have hevaluates : Evaluates net sha256 sizes config (candidates.erase d) limits ordered' identity'
      budget' scan' size' := ⟨h.valid, h.provenance, h.context, hcount, horder', hidentity', hbudget',
    hscan', hsize'⟩
  exact ⟨_, evaluate_eq_ok.2 ⟨ordered', identity', budget', scan', size', hevaluates, rfl⟩,
    hevaluates.selected.2 ⟨c, rfl, hselects'⟩⟩

end Evaluation

section Winner

variable {config : PolicyConfig} {active : List PolicyCandidate} {c d : PolicyCandidate}

theorem beats_iff_cascade :
    Beats config c d ↔ cascade (criteria config) c.inputs d.inputs = some .lt := by
  obtain ⟨hstanding, _⟩ := standing_compare config c d
  unfold Beats
  rw [← hstanding]
  cases (compare c d config).result <;> decide

theorem beats_trans (h : config.medRule ≠ some .sameNeighborAs) {e : PolicyCandidate}
    (hcd : Beats config c d) (hde : Beats config d e) : Beats config c e := by
  rw [beats_iff_cascade] at hcd hde ⊢
  exact composes_criteria config h _ _ _ _ _ hcd hde (.inl rfl)

theorem forall_pairsOf {α : Type} {R : α → α → Prop} {l : List α} :
    (∀ p ∈ pairsOf l, R p.1 p.2) ↔ l.Pairwise R := by
  induction l with
  | nil => exact ⟨fun _ => List.Pairwise.nil, fun _ => List.forall_mem_nil _⟩
  | cons a rest ih =>
    rw [pairsOf, List.forall_mem_append, List.forall_mem_map, ih, List.pairwise_cons]

theorem winner_ne_none : winner (compare c d config) ≠ none ↔
    (compare c d config).result = .left ∨ (compare c d config).result = .right := by
  unfold winner
  cases (compare c d config).result with
  | left => exact ⟨fun _ => .inl rfl, fun _ => nofun⟩
  | right => exact ⟨fun _ => .inr rfl, fun _ => nofun⟩
  | equal | skipped | unresolved => exact ⟨fun h => absurd rfl h, by rintro (h | h) <;> cases h⟩

theorem forall_comparisonsOf : (∀ comparison ∈ comparisonsOf config active, winner comparison ≠ none) ↔
    active.Pairwise fun c d =>
      (compare c d config).result = .left ∨ (compare c d config).result = .right := by
  unfold comparisonsOf
  rw [List.forall_mem_map, ← forall_pairsOf]
  exact forall₂_congr fun p _ => winner_ne_none

theorem exists_dominating (h : config.medRule ≠ some .sameNeighborAs) (hne : active ≠ [])
    (hdecided : active.Pairwise fun c d =>
      (compare c d config).result = .left ∨ (compare c d config).result = .right) :
    ∃ c ∈ active, Dominates config active c := by
  let verdict : Criterion PolicyCandidate := fun c d => cascade (criteria config) c.inputs d.inputs
  have hmirrored : Mirrored verdict := fun c d => mirrored_criteria config c.inputs d.inputs
  have hcomposes : Composes verdict := fun c d e => composes_criteria config h c.inputs d.inputs e.inputs
  have hverdicts : active.Pairwise fun c d => verdict c d = some .lt ∨ verdict c d = some .gt := by
    apply hdecided.imp
    intro c d hresult
    have hstanding := (standing_compare config c d).1
    rcases hresult with hresult | hresult
    · rw [hresult] at hstanding
      exact .inl hstanding.symm
    · rw [hresult] at hstanding
      exact .inr hstanding.symm
  obtain ⟨before, w, after, rfl, hbefore, hafter⟩ := exists_winner hmirrored hcomposes hne hverdicts
  refine ⟨w, by simp, fun d hd hid => beats_iff_cascade.2 ?_⟩
  rcases List.mem_append.1 hd with hd | hd
  · exact hbefore d hd
  · rcases List.mem_cons.1 hd with rfl | hd
    · exact absurd rfl hid
    · exact hafter d hd

def NO_UNIQUE_WINNER : String := "no_unique_pairwise_winner"

theorem notes_have_colon {s : String} (h : s ∈ scopeNotes config active) : ':' ∈ s.toList := by
  unfold scopeNotes at h
  split at h
  · cases h
  · obtain ⟨c, _, rfl⟩ := List.mem_map.1 h
    rw [String.toList_append]
    exact List.mem_append_right _ (by decide)

theorem incomparable_has_colon (comparison : Comparison) : ':' ∈ (incomparable comparison).toList := by
  unfold incomparable
  simp only [String.toList_append, List.mem_append]
  exact .inl (.inl (.inl (.inr (by decide))))

theorem PairScan.Records.not_winner_note {scan : PairScan}
    (h : scan.Records (notesOf config active) (comparisonsOf config active)) :
    NO_UNIQUE_WINNER ∉ scan.unresolved := by
  have hcolon : ':' ∉ NO_UNIQUE_WINNER.toList := by decide
  rw [h.unresolved]
  intro hmem
  rcases List.mem_append.1 hmem with hmem | hmem
  · rcases List.mem_append.1 hmem with hmem | hmem
    · have hnote : NO_UNIQUE_WINNER = "no_active_candidates" := by
        split at hmem
        · exact List.mem_singleton.1 hmem
        · cases hmem
      exact absurd hnote (by decide)
    · exact hcolon (notes_have_colon hmem)
  · obtain ⟨comparison, _, heq⟩ := List.mem_map.1 hmem
    exact hcolon (heq ▸ incomparable_has_colon comparison)

end Winner

def sampleNet : Net := ⟨fun _ => none, fun _ => "", fun _ => none, fun _ => ""⟩

def sampleConfig : PolicyConfig := ⟨"p", "c", some 100, some .compareAll, some .skip⟩

/-- A withdrawn route of a family that has no addresses to check. -/
def sampleCandidate (id : String) (direction : Option U8) : PolicyCandidate where
  id := id
  key := ⟨⟨⟨.captured, "s", "t"⟩, "u", 0, direction, none⟩, ⟨3, 1⟩, .absent, ⟨3, 1, 8, "a"⟩⟩
  comparisonContext := "c"
  status := .withdrawn
  inputs := ⟨none, none, none, none, none, none, none, none, none, none, none⟩

end PcapEvidence.Bgp.Policy
