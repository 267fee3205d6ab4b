import PcapEvidence.BgpFeedRun
import PcapEvidence.BgpObservationAgree
import PcapEvidence.JsonDecode

/-!
# A feed does not depend on its delivery

The text of a record determines the record, and the sequence of records determines cursors,
generation, snapshot and coverage.
-/

namespace PcapEvidence.Bgp.Feed

open Json History Import State

variable {k : Checks}

def bare (o : State.Observation) : State.Observation := { o with nodes := 0 }

theorem name_injective : Function.Injective Coverage.name := by
  intro a b h
  cases a <;> cases b <;> simp_all [Coverage.name]

theorem member_value (r : FeedRecord k) :
    member r.value "ordinal" = .ok (decimalText r.ordinal) ∧
      member r.value "coverage" = .ok (.string r.coverage.name) ∧
      member r.value "observation" = .ok r.observation.normalized :=
  ⟨rfl, rfl, rfl⟩

theorem encoded_inj {r q : FeedRecord k} (h : r.encoded = q.encoded) :
    r.ordinal = q.ordinal ∧ r.coverage = q.coverage ∧ bare r.observation = bare q.observation := by
  have hcanonical : r.value.canonical = q.value.canonical := encode_inj h
  have hmember : ∀ (name : String) (x y : Json), member r.value name = .ok x →
      member q.value name = .ok y → x.canonical = y.canonical := by
    intro name x y hx hy
    have hread := member_canonical r.value name
    rw [hcanonical, member_canonical, hx, hy] at hread
    exact (Except.ok.inj hread).symm
  obtain ⟨hordinal, hcoverage, hnormalized⟩ := member_value r
  obtain ⟨hordinal', hcoverage', hnormalized'⟩ := member_value q
  have hnumber := hmember "ordinal" _ _ hordinal hordinal'
  have hname := hmember "coverage" _ _ hcoverage hcoverage'
  have hbody := hmember "observation" _ _ hnormalized hnormalized'
  obtain ⟨v, l, hv⟩ := r.origin
  obtain ⟨w, l', hw⟩ := q.origin
  have hreads := fromNormalized_reads hv r.imported (Option.isSome_iff_ne_none.1 r.contextual)
  have hreads' := fromNormalized_reads hw q.imported (Option.isSome_iff_ne_none.1 q.contextual)
  rw [hreads.normalized, hreads'.normalized, canonical_canonical, canonical_canonical] at hbody
  refine ⟨?_, ?_, hreads.inj hreads' hbody⟩
  · exact Nat.repr_injective (Json.string.inj hnumber)
  · exact name_injective (Json.string.inj hname)

theorem value_eq {r q : FeedRecord k} (h : r.encoded = q.encoded) : r.value = q.value := by
  obtain ⟨hordinal, hcoverage, hobservation⟩ := encoded_inj h
  have hnormalized : (bare r.observation).normalized = (bare q.observation).normalized := by
    rw [hobservation]
  change r.observation.normalized = q.observation.normalized at hnormalized
  rw [FeedRecord.value, FeedRecord.value, hordinal, hcoverage, hnormalized]

theorem context_eq {r q : FeedRecord k} (h : r.encoded = q.encoded) : r.context = q.context := by
  obtain ⟨_, _, hobservation⟩ := encoded_inj h
  have hcontext : (bare r.observation).importContext = (bare q.observation).importContext := by
    rw [hobservation]
  change r.observation.importContext = q.observation.importContext at hcontext
  exact Option.some.inj (by rw [FeedRecord.context, FeedRecord.context, Option.some_get,
    Option.some_get, hcontext])

section Sequences

variable (sha256 : List U8 → Digest)

theorem getElem?_of_encoded {l m : List (FeedRecord k)}
    (h : l.map FeedRecord.encoded = m.map FeedRecord.encoded) {i : ℕ} {r q : FeedRecord k}
    (hr : l[i]? = some r) (hq : m[i]? = some q) : r.encoded = q.encoded := by
  have hread := congrArg (fun x : List String => x[i]?) h
  simp only [List.getElem?_map, hr, hq, Option.map_some] at hread
  exact Option.some.inj hread

theorem map_eq_of_encoded {α : Type} {f : FeedRecord k → α} {l m : List (FeedRecord k)}
    (hf : ∀ r q : FeedRecord k, r.encoded = q.encoded → f r = f q)
    (h : l.map FeedRecord.encoded = m.map FeedRecord.encoded) : l.map f = m.map f := by
  induction l generalizing m with
  | nil =>
    obtain rfl : m = [] := List.map_eq_nil_iff.1 h.symm
    rfl
  | cons r l ih =>
    cases m with
    | nil => cases h
    | cons q m =>
      obtain ⟨hhead, htail⟩ := List.cons.inj h
      exact congrArg₂ List.cons (hf r q hhead) (ih htail)

theorem snapshotOf_bare (l : List State.Observation) :
    CandidateState.snapshotOf sha256 (l.map bare) = CandidateState.snapshotOf sha256 l := by
  have hview : CandidateState.viewOfJournal (l.map bare) = CandidateState.viewOfJournal l := by
    rw [CandidateState.viewOfJournal, CandidateState.viewOfJournal, List.map_map]
    rfl
  rw [CandidateState.snapshotOf, CandidateState.snapshotOf, hview, snapshotJson, snapshotJson,
    List.map_map]
  rfl

theorem snapshotOf_eq {l m : List (FeedRecord k)}
    (h : l.map FeedRecord.encoded = m.map FeedRecord.encoded) :
    CandidateState.snapshotOf sha256 (l.map FeedRecord.observation) =
      CandidateState.snapshotOf sha256 (m.map FeedRecord.observation) := by
  have hbare := map_eq_of_encoded (f := fun r => bare r.observation)
    (fun r q hrq => (encoded_inj hrq).2.2) h
  rw [← snapshotOf_bare, ← snapshotOf_bare sha256 (m.map _), List.map_map, List.map_map]
  exact congrArg _ hbare

theorem chained_eq {l m : List (FeedRecord k)} {first last last' : ℕ}
    (hl : FeedReplay.Chained first l last) (hm : FeedReplay.Chained first m last')
    (h : l.map FeedRecord.encoded = m.map FeedRecord.encoded) : last = last' := by
  induction l generalizing m first with
  | nil =>
    obtain rfl : m = [] := List.map_eq_nil_iff.1 h.symm
    exact hl.symm.trans hm
  | cons r l ih =>
    cases m with
    | nil => cases h
    | cons q m =>
      obtain ⟨hhead, htail⟩ := List.cons.inj h
      rw [FeedReplay.Chained, context_eq hhead] at hl
      exact ih hl.2 hm.2 htail

end Sequences

namespace FeedReplay

variable {sha256 : List U8 → Digest}

section States

variable {s t : FeedReplay k}

theorem original_of_record {i : ℕ} {w : RecordWitness k} (h : s.records[i]? = some w) :
    s.originals[i]? = some w.original := by
  rw [originals, List.getElem?_map, h]
  rfl

theorem records_length (h : s.originals.map FeedRecord.encoded = t.originals.map FeedRecord.encoded) :
    s.records.length = t.records.length := by
  have hlength := congrArg List.length h
  simpa only [originals, List.length_map] using hlength

theorem cursors_eq (hs : Coherent sha256 s) (ht : Coherent sha256 t) (hcontext : s.context = t.context)
    (h : s.originals.map FeedRecord.encoded = t.originals.map FeedRecord.encoded) :
    s.cursors = t.cursors := by
  have hlength := records_length h
  have hread : ∀ i ≤ s.records.length, s.cursors[i]? = t.cursors[i]? := by
    intro i
    induction i with
    | zero => exact fun _ => by rw [hs.first_cursor, ht.first_cursor, hcontext]
    | succ i ih =>
      intro hi
      have hw := List.getElem?_eq_getElem (show i < s.records.length by omega)
      have hv := List.getElem?_eq_getElem (show i < t.records.length by omega)
      have hc := List.getElem?_eq_getElem (show i < s.cursors.length by rw [hs.cursors_length]; omega)
      have hd := (ih (by omega)).symm.trans hc
      have htext := getElem?_of_encoded h (original_of_record hw) (original_of_record hv)
      rw [hs.cursor_commits i _ _ hc hw, ht.cursor_commits i _ _ hd hv, nextCursor, nextCursor,
        htext, (encoded_inj htext).1]
  refine List.ext_getElem? fun i => ?_
  by_cases hi : i ≤ s.records.length
  · exact hread i hi
  · rw [List.getElem?_eq_none (by rw [hs.cursors_length]; omega),
      List.getElem?_eq_none (by rw [ht.cursors_length]; omega)]

theorem alternatives_nil (hs : Coherent sha256 s) (hopen : s.quarantined = false)
    {w : RecordWitness k} (hw : w ∈ s.records) : w.alternatives = [] := by
  by_contra hne
  have hquarantined := hs.quarantined_iff.2 ⟨w, hw, hne⟩
  rw [hopen] at hquarantined
  cases hquarantined

theorem recordJson_eq (hs : Coherent sha256 s) (ht : Coherent sha256 t)
    (hopen : s.quarantined = false) (hopen' : t.quarantined = false)
    (h : s.originals.map FeedRecord.encoded = t.originals.map FeedRecord.encoded) :
    s.records.map RecordWitness.json = t.records.map RecordWitness.json := by
  have hlength := records_length h
  refine List.ext_getElem (by simpa using hlength) fun i hi hi' => ?_
  rw [List.length_map] at hi hi'
  have hw := List.getElem?_eq_getElem hi
  have hv := List.getElem?_eq_getElem hi'
  have htext := getElem?_of_encoded h (original_of_record hw) (original_of_record hv)
  rw [List.getElem_map, List.getElem_map, RecordWitness.json, RecordWitness.json, value_eq htext,
    (hs.places i _ hw).2, (ht.places i _ hv).2, alternatives_nil hs hopen (List.getElem_mem hi),
    alternatives_nil ht hopen' (List.getElem_mem hi')]

variable (sha256) in
/-- A coherent state without a conflict, whose receipt is the current one. -/
structure Settled (s : FeedReplay k) : Prop where
  coherent : Coherent sha256 s
  unconflicted : s.quarantined = false
  receipt : s.receipt = (s.receiptJson sha256).canonical.encode

theorem effectiveCoverage_eq (hopen : s.quarantined = t.quarantined)
    (hcompletion : s.completion = t.completion)
    (h : s.originals.map FeedRecord.encoded = t.originals.map FeedRecord.encoded) :
    s.effectiveCoverage = t.effectiveCoverage := by
  have hcoverage := map_eq_of_encoded (f := FeedRecord.coverage)
    (fun r q hrq => (encoded_inj hrq).2.1) h
  have hfold : ∀ l : List (FeedRecord k), l.foldl (fun c r => c.meet r.coverage) .declaredComplete =
      (l.map FeedRecord.coverage).foldl Coverage.meet .declaredComplete :=
    fun l => List.foldl_map.symm
  rw [effectiveCoverage, effectiveCoverage, hopen, hcompletion, hfold, hfold, hcoverage]

theorem Settled.determined (hs : Settled sha256 s) (ht : Settled sha256 t)
    (hcontext : s.context = t.context)
    (h : s.originals.map FeedRecord.encoded = t.originals.map FeedRecord.encoded)
    (hcompletion : s.completion = t.completion) :
    s.cursors = t.cursors ∧ s.generation = t.generation ∧ s.state.encoded = t.state.encoded ∧
      s.effectiveCoverage = t.effectiveCoverage ∧ s.receipt = t.receipt := by
  have hcursors := cursors_eq hs.coherent ht.coherent hcontext h
  have hgeneration : s.generation = t.generation := by
    refine chained_eq hs.coherent.generations ?_ h
    rw [hcontext]
    exact ht.coherent.generations
  have hstate : s.state.encoded = t.state.encoded := by
    obtain ⟨work, hwork⟩ := hs.coherent.journal
    obtain ⟨work', hwork'⟩ := ht.coherent.journal
    rw [hwork, hwork']
    exact snapshotOf_eq sha256 h
  have hopen := hs.unconflicted.trans ht.unconflicted.symm
  have hcoverage := effectiveCoverage_eq hopen hcompletion h
  have hrecords := recordJson_eq hs.coherent ht.coherent hs.unconflicted ht.unconflicted h
  refine ⟨hcursors, hgeneration, hstate, hcoverage, ?_⟩
  rw [hs.receipt, ht.receipt, receiptJson, receiptJson, cursor, cursor, hcontext, hcursors,
    hcompletion, hopen, hgeneration, hcoverage, hrecords, hstate]

end States

theorem new_settled {context : ImportContext} {l : Limits} {s : FeedReplay k}
    (h : new k sha256 context l = .ok s) : Settled sha256 s := by
  refine ⟨new_coherent h, ?_, ?_⟩ <;> obtain ⟨state, _, rfl⟩ := new_ok h <;> rfl

theorem apply_settled {s : FeedReplay k} {feed : FeedEnvelope k} {o : ReplayOutcome}
    (hs : Settled sha256 s) (h : (apply sha256 feed s).1 = .ok o)
    (hstatus : o.status ≠ .quarantined) : Settled sha256 (apply sha256 feed s).2 := by
  rcases apply_cases sha256 s feed with ⟨e, happly⟩ | happly | ⟨v, t, hexamine, hstaged, happly⟩
  · rw [happly] at h
    cases h
  · rw [happly]
    exact hs
  · rw [happly] at h ⊢
    cases h
    have hconflict : v.conflict = false := by
      by_contra hconflict
      rw [Bool.not_eq_false] at hconflict
      exact hstatus (if_pos hconflict)
    have ht := staged_ok hs.coherent hexamine hstaged
    exact ⟨ht.coherent, (ht.unconflicted hconflict).trans hs.unconflicted, ht.receipt⟩

theorem after_settled {s : FeedReplay k} (hs : Settled sha256 s)
    {feeds : List (FeedEnvelope k)} (h : Accepted sha256 s feeds) :
    Settled sha256 (after sha256 s feeds) := by
  induction feeds generalizing s with
  | nil => exact hs
  | cons feed feeds ih =>
    obtain ⟨⟨o, ho, hstatus⟩, hrest⟩ := h
    exact ih (apply_settled hs ho hstatus) hrest

end FeedReplay

end PcapEvidence.Bgp.Feed
