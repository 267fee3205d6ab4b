import PcapEvidence.BgpCandidateJournal
import PcapEvidence.BgpFeed

/-!
# What a feed retains

The cursors, the records, the generations and the journal of a feed describe one sequence. A record
in a retained place is a repetition or a conflict, a record behind them extends all four, and a closed
feed keeps its sequence whatever it is offered.
-/

namespace PcapEvidence.Bgp.Feed

open Json History Import State

namespace FeedReplay

variable {k : Checks} (sha256 : List U8 → Digest)

def Follows (previous : ℕ) (r : FeedRecord k) : Prop :=
  match r.observation.importBoundary with
  | some boundary => boundary.previousGeneration = previous ∧ r.context.generation = previous + 1
  | none => r.context.generation = previous

def Chained : ℕ → List (FeedRecord k) → ℕ → Prop
  | first, [], last => first = last
  | first, r :: rest, last => Follows first r ∧ Chained r.context.generation rest last

theorem chained_append {first last : ℕ} {l : List (FeedRecord k)} {r : FeedRecord k}
    (h : Chained first l last) (hr : Follows last r) :
    Chained first (l ++ [r]) r.context.generation := by
  induction l generalizing first with
  | nil =>
    cases h
    exact ⟨hr, rfl⟩
  | cons a l ih => exact ⟨h.1, ih h.2⟩

structure Coherent (s : FeedReplay k) : Prop where
  cursors_length : s.cursors.length = s.records.length + 1
  first_cursor : s.cursors[0]? = some (firstCursor sha256 s.context)
  cursor_ordinal : ∀ (i : ℕ) (c : Cursor), s.cursors[i]? = some c → c.nextOrdinal = i
  cursor_commits : ∀ (i : ℕ) (c : Cursor) (w : RecordWitness k), s.cursors[i]? = some c →
    s.records[i]? = some w → s.cursors[i + 1]? = some (nextCursor sha256 c w.original)
  places : ∀ (i : ℕ) (w : RecordWitness k), s.records[i]? = some w →
    w.original.ordinal = i ∧ w.stateObservation = i
  identities : (s.originals.map FeedRecord.recordId).Nodup
  generations : Chained s.context.generation s.originals s.generation
  quarantined_iff : s.quarantined = true ↔ ∃ w ∈ s.records, w.alternatives ≠ []
  distinct : ∀ w ∈ s.records, (w.records.map FeedRecord.encoded).Nodup
  journal : ∃ work, s.state = CandidateState.ofJournal sha256 s.limits
    (s.originals.map FeedRecord.observation) work

section Steps

variable {i : ℕ}
variable {sha256}

theorem refresh_ok {s t : FeedReplay k} {g : Guard} (h : refresh sha256 s g = .ok t) :
    t = { s with receipt := (s.receiptJson sha256).canonical.encode } := by
  unfold refresh at h
  obtain ⟨_, _, h⟩ := bind_eq_ok.1 h
  obtain ⟨_, _, h⟩ := bind_eq_ok.1 h
  obtain ⟨_, _, h⟩ := bind_eq_ok.1 h
  obtain ⟨_, _, h⟩ := bind_eq_ok.1 h
  obtain ⟨_, _, h⟩ := bind_eq_ok.1 h
  obtain ⟨_, _, h⟩ := bind_eq_ok.1 h
  obtain ⟨_, h⟩ := guard_eq_ok.1 h
  obtain ⟨_, _, h⟩ := bind_eq_ok.1 h
  obtain ⟨⟨value, encoded, g'⟩, hencode, h⟩ := bind_eq_ok.1 h
  cases h
  obtain ⟨_, _, hencode⟩ := bind_eq_ok.1 hencode
  obtain ⟨text, htext, hencode⟩ := bind_eq_ok.1 hencode
  cases hencode
  rw [encodeBounded_ok htext]

theorem Coherent.of_receipt {s : FeedReplay k} (h : Coherent sha256 s) (receipt : String) :
    Coherent sha256 { s with receipt := receipt } :=
  ⟨h.cursors_length, h.first_cursor, h.cursor_ordinal, h.cursor_commits, h.places, h.identities,
    h.generations, h.quarantined_iff, h.distinct, h.journal⟩

theorem Coherent.of_completion {s : FeedReplay k} (h : Coherent sha256 s) (c : Completion) :
    Coherent sha256 { s with completion := c } :=
  ⟨h.cursors_length, h.first_cursor, h.cursor_ordinal, h.cursor_commits, h.places, h.identities,
    h.generations, h.quarantined_iff, h.distinct, h.journal⟩

theorem new_ok {context : ImportContext} {l : Limits} {s : FeedReplay k}
    (h : new k sha256 context l = .ok s) : ∃ state, CandidateState.new sha256 l = .ok state ∧
      s = { opening k sha256 context l state with
        receipt := ((opening k sha256 context l state).receiptJson sha256).canonical.encode } := by
  obtain ⟨_, _, h⟩ := bind_eq_ok.1 h
  obtain ⟨_, _, h⟩ := bind_eq_ok.1 h
  obtain ⟨⟨value, encoded, g⟩, _, h⟩ := bind_eq_ok.1 h
  obtain ⟨state, hstate, h⟩ := bind_eq_ok.1 h
  obtain ⟨_, _, h⟩ := bind_eq_ok.1 h
  exact ⟨state, hstate, refresh_ok h⟩

theorem new_coherent {context : ImportContext} {l : Limits} {s : FeedReplay k}
    (h : new k sha256 context l = .ok s) : Coherent sha256 s := by
  obtain ⟨state, hstate, rfl⟩ := new_ok h
  rw [CandidateState.new_ok sha256 hstate]
  refine Coherent.of_receipt ⟨rfl, rfl, ?_, ?_, ?_, ?_, ?_, ?_, ?_, 0, rfl⟩ _
  · intro i c hc
    cases i with
    | zero =>
      cases hc
      rfl
    | succ i => cases hc
  · intro i c w _ hw
    cases hw
  · intro i w hw
    cases hw
  · exact List.nodup_nil
  · exact rfl
  · simp [opening]
  · simp [opening]

theorem checkGeneration_ok {s : FeedReplay k} {r : FeedRecord k} (h : s.checkGeneration r = .ok ()) :
    Follows s.generation r := by
  cases hboundary : r.observation.importBoundary with
  | some boundary =>
    simp only [checkGeneration, hboundary] at h
    simp only [Follows, hboundary]
    obtain ⟨hnext, _⟩ := guard_eq_ok.1 h
    simp only [ne_eq, not_or, not_not, checkedAdd_eq_some_iff] at hnext
    exact ⟨hnext.1, by rw [hnext.2.2, hnext.1]⟩
  | none =>
    simp only [checkGeneration, hboundary] at h
    simp only [Follows, hboundary]
    obtain ⟨hsame, _⟩ := guard_eq_ok.1 h
    exact not_not.1 hsame

theorem Coherent.last_cursor {s : FeedReplay k} (h : Coherent sha256 s) :
    s.cursors[s.records.length]? = some s.cursor := by
  have hlast : s.cursors.getLast? = s.cursors[s.records.length]? := by
    rw [List.getLast?_eq_getElem?, h.cursors_length]
    rfl
  have hsome : s.records.length < s.cursors.length := by
    rw [h.cursors_length]
    exact Nat.lt_succ_self _
  rw [cursor, List.getLastD_eq_getLast?, hlast, List.getElem?_eq_getElem hsome]
  rfl

theorem getElem?_append_singleton {α : Type} {l : List α} {a b : α}
    (h : (l ++ [a])[i]? = some b) : l[i]? = some b ∨ (i = l.length ∧ a = b) := by
  by_cases hi : i < l.length
  · rw [List.getElem?_append_left hi] at h
    exact Or.inl h
  · rw [List.getElem?_append_right (by omega)] at h
    obtain ⟨hlt, hb⟩ := List.getElem?_eq_some_iff.1 h
    have hsub : i - l.length = 0 := by simpa using hlt
    exact Or.inr ⟨by omega, by simpa [hsub] using hb⟩

theorem push_coherent {s t : FeedReplay k} {r : FeedRecord k} {g g' : Guard}
    (hs : Coherent sha256 s) (hordinal : r.ordinal = s.records.length)
    (hid : r.recordId ∉ s.originals.map FeedRecord.recordId) (h : s.push sha256 r g = .ok (t, g')) :
    Coherent sha256 t ∧ t.originals = s.originals ++ [r] ∧ t.records.length = s.records.length + 1 ∧
      t.context = s.context ∧ t.limits = s.limits ∧ t.completion = s.completion ∧
      t.quarantined = s.quarantined := by
  unfold push at h
  obtain ⟨_, hgeneration, h⟩ := bind_eq_ok.1 h
  obtain ⟨_, _, h⟩ := bind_eq_ok.1 h
  obtain ⟨⟨receipt, state⟩, happly, h⟩ := bind_eq_ok.1 h
  obtain ⟨_, h⟩ := guard_eq_ok.1 h
  obtain ⟨work, hwork⟩ := hs.journal
  have hnew : ∀ p ∈ s.originals.map FeedRecord.observation, p.identity ≠ r.observation.identity := by
    intro p hp hsame
    obtain ⟨q, hq, rfl⟩ := List.mem_map.1 hp
    refine hid ?_
    have hrecord : q.recordId = r.recordId := congrArg Candidate.Identity.recordId hsame
    exact hrecord ▸ List.mem_map_of_mem hq
  rw [hwork] at happly
  obtain ⟨hreceipt, work', hstate⟩ := CandidateState.apply_ok sha256 happly hnew
  rw [List.length_map, originals, List.length_map] at hreceipt
  cases h
  have horiginals : ({ s with
      state := state
      generation := r.context.generation
      records := s.records ++ [⟨r, [], receipt.observation⟩]
      cursors := s.cursors ++ [nextCursor sha256 s.cursor r] } : FeedReplay k).originals =
        s.originals ++ [r] := by
    simp [originals]
  refine ⟨⟨?_, ?_, ?_, ?_, ?_, ?_, ?_, ?_, ?_, ?_⟩, horiginals, by simp, rfl, rfl, rfl, rfl⟩
  · simp [hs.cursors_length]
  · rw [List.getElem?_append_left (by rw [hs.cursors_length]; exact Nat.succ_pos _)]
    exact hs.first_cursor
  · intro i c hc
    rcases getElem?_append_singleton hc with hc | ⟨rfl, rfl⟩
    · exact hs.cursor_ordinal i c hc
    · rw [hs.cursors_length, nextCursor, hordinal]
  · intro i c w hc hw
    rcases getElem?_append_singleton hw with hw | ⟨rfl, rfl⟩
    · have hi : i < s.records.length := (List.getElem?_eq_some_iff.1 hw).1
      rw [List.getElem?_append_left (by rw [hs.cursors_length]; omega)] at hc
      rw [List.getElem?_append_left (by rw [hs.cursors_length]; omega)]
      exact hs.cursor_commits i c w hc hw
    · rw [List.getElem?_append_left (by rw [hs.cursors_length]; omega), hs.last_cursor] at hc
      rw [← hs.cursors_length, List.getElem?_concat_length, ← Option.some.inj hc]
  · intro i w hw
    rcases getElem?_append_singleton hw with hw | ⟨rfl, rfl⟩
    · exact hs.places i w hw
    · exact ⟨hordinal, hreceipt⟩
  · rw [horiginals, List.map_append, List.map_singleton]
    exact List.nodup_append.2 ⟨hs.identities, List.nodup_singleton _, by
      intro a ha b hb hab
      rw [List.mem_singleton.1 hb] at hab
      exact hid (hab ▸ ha)⟩
  · rw [horiginals]
    exact chained_append hs.generations (checkGeneration_ok hgeneration)
  · simp [hs.quarantined_iff]
  · intro w hw
    rcases List.mem_append.1 hw with hw | hw
    · exact hs.distinct w hw
    · rw [List.mem_singleton.1 hw]
      exact List.nodup_singleton _
  · exact ⟨work', by rw [horiginals, List.map_append]; exact hstate⟩

theorem contains_eq_false {w : RecordWitness k} {r : FeedRecord k} (h : w.contains r = false) :
    r.encoded ∉ w.records.map FeedRecord.encoded := by
  intro hmem
  obtain ⟨q, hq, hsame⟩ := List.mem_map.1 hmem
  have hcontains : w.contains r = true := List.any_eq_true.2 ⟨q, hq, decide_eq_true hsame⟩
  rw [h] at hcontains
  cases hcontains

theorem originals_set {s : FeedReplay k} {w v : RecordWitness k}
    (h : s.records[i]? = some w) (hv : v.original = w.original) :
    (s.records.set i v).map RecordWitness.original = s.records.map RecordWitness.original := by
  rw [List.map_set, hv]
  refine List.ext_getElem? fun j => ?_
  rw [List.getElem?_set]
  split
  · rename_i hij
    subst hij
    rw [List.getElem?_map, h, List.length_map, if_pos (List.getElem?_eq_some_iff.1 h).1]
    rfl
  · rfl

theorem witness_coherent {s : FeedReplay k} {old : RecordWitness k} {r : FeedRecord k}
    (hs : Coherent sha256 s) (hold : s.records[i]? = some old) :
    Coherent sha256 (s.witness i old r) ∧ (s.witness i old r).originals = s.originals ∧
      (s.witness i old r).records.length = s.records.length := by
  unfold witness
  by_cases hcontains : old.contains r = true
  · rw [if_pos hcontains]
    exact ⟨hs, rfl, rfl⟩
  rw [if_neg hcontains]
  rw [Bool.not_eq_true] at hcontains
  have hset := originals_set (v := { old with alternatives := old.alternatives ++ [r] }) hold rfl
  have hlength : (s.records.set i { old with alternatives := old.alternatives ++ [r] }).length =
      s.records.length := List.length_set
  -- A record of the changed list is an old one, or the old one of its place with one more alternative.
  have hread : ∀ (j : ℕ) (w : RecordWitness k),
      (s.records.set i { old with alternatives := old.alternatives ++ [r] })[j]? = some w →
        ∃ v, s.records[j]? = some v ∧ v.original = w.original ∧
          v.stateObservation = w.stateObservation := by
    intro j w hw
    rw [List.getElem?_set] at hw
    split at hw
    · rename_i hij
      subst hij
      split at hw
      · cases hw
        exact ⟨old, hold, rfl, rfl⟩
      · cases hw
    · exact ⟨w, hw, rfl, rfl⟩
  have hmem : ∀ w ∈ s.records.set i { old with alternatives := old.alternatives ++ [r] },
      w ∈ s.records ∨ w = { old with alternatives := old.alternatives ++ [r] } :=
    fun w hw => List.mem_or_eq_of_mem_set hw
  refine ⟨⟨?_, hs.first_cursor, hs.cursor_ordinal, ?_, ?_, ?_, ?_, ?_, ?_, ?_⟩, hset, hlength⟩
  · rw [hs.cursors_length, hlength]
  · intro j c w hc hw
    obtain ⟨v, hv, hsame, _⟩ := hread j w hw
    rw [← hsame]
    exact hs.cursor_commits j c v hc hv
  · intro j w hw
    obtain ⟨v, hv, hsame, hplace⟩ := hread j w hw
    rw [← hsame, ← hplace]
    exact hs.places j v hv
  · rw [originals, hset]
    exact hs.identities
  · rw [originals, hset]
    exact hs.generations
  · refine ⟨fun _ => ⟨_, List.mem_of_getElem? (List.getElem?_set_self ?_), by simp⟩, fun _ => rfl⟩
    exact (List.getElem?_eq_some_iff.1 hold).1
  · intro w hw
    rcases hmem w hw with hw | rfl
    · exact hs.distinct w hw
    · have hdistinct := hs.distinct old (List.mem_of_getElem? hold)
      have hnew := contains_eq_false hcontains
      have happend : ({ old with alternatives := old.alternatives ++ [r] } : RecordWitness k).records =
          old.records ++ [r] := rfl
      rw [happend, List.map_append, List.map_singleton]
      refine List.nodup_append.2 ⟨hdistinct, List.nodup_singleton _, ?_⟩
      intro a ha b hb hab
      rw [List.mem_singleton.1 hb] at hab
      exact hnew (hab ▸ ha)
  · obtain ⟨work, hwork⟩ := hs.journal
    exact ⟨work, by rw [originals, hset]; exact hwork⟩

end Steps

section Pages

variable {start : ℕ} {a b : Admission} {g g' : Guard}
variable {sha256}

variable (sha256) in
/-- How a staged copy relates to what the first pass over a page has found, after `i` records. -/
structure Staged (s : FeedReplay k) (start i : ℕ) (a : Admission) (t : FeedReplay k) : Prop where
  coherent : Coherent sha256 t
  length : t.records.length = max s.records.length (start + i)
  originals : ∃ l, t.originals = s.originals ++ l
  ids : ∀ id, id ∈ t.originals.map FeedRecord.recordId → id ∈ a.identities
  context : t.context = s.context
  limits : t.limits = s.limits
  completion : t.completion = s.completion
  quarantined : s.quarantined = true → t.quarantined = true
  unconflicted : a.conflict = false → t.quarantined = s.quarantined
  later : ∀ j, start + i ≤ j → j < s.records.length → t.records[j]? = s.records[j]?

theorem admitRecord_ok {s : FeedReplay k} {x : FeedRecord k × ℕ}
    (h : s.admitRecord start a x = .ok b) : x.1.ordinal = start + x.2 ∧
      ((∃ old, s.records[start + x.2]? = some old ∧ b.identities = a.identities ∧
        b.conflict = (a.conflict || !old.contains x.1)) ∨
      (s.records[start + x.2]? = none ∧ x.1.recordId ∉ a.identities ∧
        b.identities = x.1.recordId :: a.identities ∧ b.conflict = a.conflict)) := by
  obtain ⟨g, _, h⟩ := bind_eq_ok.1 h
  obtain ⟨hordinal, h⟩ := guard_eq_ok.1 h
  obtain ⟨g', _, h⟩ := bind_eq_ok.1 h
  refine ⟨not_not.1 hordinal, ?_⟩
  split at h
  · rename_i old hold
    cases h
    exact Or.inl ⟨old, hold, rfl, rfl⟩
  · rename_i hnone
    obtain ⟨hid, h⟩ := guard_eq_ok.1 h
    cases h
    exact Or.inr ⟨hnone, hid, rfl, rfl⟩

theorem witness_frame (s : FeedReplay k) (i : ℕ) (old : RecordWitness k) (r : FeedRecord k) :
    (s.witness i old r).context = s.context ∧ (s.witness i old r).limits = s.limits ∧
      (s.witness i old r).completion = s.completion ∧
      (s.quarantined = true → (s.witness i old r).quarantined = true) ∧
      (old.contains r = true → s.witness i old r = s) ∧
      ∀ j, i ≠ j → (s.witness i old r).records[j]? = s.records[j]? := by
  unfold witness
  split
  · exact ⟨rfl, rfl, rfl, id, fun _ => rfl, fun _ _ => rfl⟩
  · rename_i hcontains
    exact ⟨rfl, rfl, rfl, fun _ => rfl, fun h => absurd h hcontains,
      fun j hj => List.getElem?_set_ne hj⟩

theorem Staged.witness {s t : FeedReplay k} {i : ℕ} {r : FeedRecord k}
    {old : RecordWitness k} (ht : Staged sha256 s start i a t)
    (hold : s.records[start + i]? = some old) (hids : b.identities = a.identities)
    (hconflict : b.conflict = (a.conflict || !old.contains r)) :
    Staged sha256 s start (i + 1) b (t.witness (start + i) old r) := by
  have hi : start + i < s.records.length := (List.getElem?_eq_some_iff.1 hold).1
  have hplace : t.records[start + i]? = some old := (ht.later _ le_rfl hi).trans hold
  obtain ⟨hcoherent, horiginals, hlength⟩ := witness_coherent (r := r) ht.coherent hplace
  obtain ⟨hcontext, hlimits, hcompletion, hquarantined, hsame, hlater⟩ :=
    witness_frame t (start + i) old r
  refine ⟨hcoherent, ?_, ?_, ?_, hcontext.trans ht.context, hlimits.trans ht.limits,
    hcompletion.trans ht.completion, fun h => hquarantined (ht.quarantined h), ?_, ?_⟩
  · rw [hlength, ht.length]
    omega
  · rw [horiginals]
    exact ht.originals
  · rw [horiginals, hids]
    exact ht.ids
  · intro h
    rw [hconflict, Bool.or_eq_false_iff, Bool.not_eq_false'] at h
    rw [hsame h.2]
    exact ht.unconflicted h.1
  · intro j hj hlt
    rw [hlater j (by omega)]
    exact ht.later j (by omega) hlt

theorem Staged.push {s t u : FeedReplay k} {i : ℕ} {r : FeedRecord k} (ht : Staged sha256 s start i a t) (hordinal : r.ordinal = start + i)
    (hnone : s.records[start + i]? = none) (hid : r.recordId ∉ a.identities)
    (hids : b.identities = r.recordId :: a.identities) (hconflict : b.conflict = a.conflict)
    (h : t.push sha256 r g = .ok (u, g')) : Staged sha256 s start (i + 1) b u := by
  have hlen := List.getElem?_eq_none_iff.1 hnone
  have htlen : t.records.length = start + i := by
    rw [ht.length]
    omega
  obtain ⟨hcoherent, horiginals, hlength, hcontext, hlimits, hcompletion, hquarantined⟩ :=
    push_coherent ht.coherent (hordinal.trans htlen.symm) (fun hmem => hid (ht.ids _ hmem)) h
  refine ⟨hcoherent, ?_, ?_, ?_, hcontext.trans ht.context, hlimits.trans ht.limits,
    hcompletion.trans ht.completion, ?_, ?_, ?_⟩
  · rw [hlength, htlen]
    omega
  · obtain ⟨l, hl⟩ := ht.originals
    exact ⟨l ++ [r], by rw [horiginals, hl, List.append_assoc]⟩
  · intro id hmem
    rw [horiginals, List.map_append, List.mem_append] at hmem
    rw [hids]
    rcases hmem with hmem | hmem
    · exact List.mem_cons_of_mem _ (ht.ids id hmem)
    · rw [List.mem_singleton.1 hmem]
      exact List.mem_cons_self
  · rw [hquarantined]
    exact ht.quarantined
  · rw [hquarantined, hconflict]
    exact ht.unconflicted
  · intro j hj hlt
    omega

theorem Staged.step {s t u : FeedReplay k} {i : ℕ} {r : FeedRecord k} (ht : Staged sha256 s start i a t)
    (hexamine : s.admitRecord start a (r, i) = .ok b)
    (h : extendRecord sha256 start (t, g) (r, i) = .ok (u, g')) :
    Staged sha256 s start (i + 1) b u := by
  unfold extendRecord at h
  obtain ⟨hordinal, hplace⟩ := admitRecord_ok hexamine
  rcases hplace with ⟨old, hold, hids, hconflict⟩ | ⟨hnone, hid, hids, hconflict⟩
  · have hi : start + i < s.records.length := (List.getElem?_eq_some_iff.1 hold).1
    have hplace : t.records[start + i]? = some old := (ht.later _ le_rfl hi).trans hold
    dsimp only at h
    rw [hplace] at h
    cases h
    exact ht.witness hold hids hconflict
  · have hlen := List.getElem?_eq_none_iff.1 hnone
    have htnone : t.records[start + i]? = none := by
      rw [List.getElem?_eq_none_iff, ht.length]
      exact max_le hlen le_rfl
    dsimp only at h
    rw [htnone] at h
    exact ht.push hordinal hnone hid hids hconflict h

theorem Staged.run {s t u : FeedReplay k} {i : ℕ} {page : List (FeedRecord k)} (ht : Staged sha256 s start i a t)
    (hexamine : (page.zipIdx i).foldlM (s.admitRecord start) a = .ok b)
    (h : (page.zipIdx i).foldlM (extendRecord sha256 start) (t, g) = .ok (u, g')) :
    Staged sha256 s start (i + page.length) b u := by
  induction page generalizing i a t g with
  | nil =>
    cases hexamine
    cases h
    exact ht
  | cons r page ih =>
    rw [List.zipIdx_cons, List.foldlM_cons] at hexamine h
    obtain ⟨a', hfirst, hexamine⟩ := bind_eq_ok.1 hexamine
    obtain ⟨⟨t', g''⟩, hextend, h⟩ := bind_eq_ok.1 h
    have hnext := ih (ht.step hfirst hextend) hexamine h
    rwa [List.length_cons, show i + (page.length + 1) = i + 1 + page.length by omega]

end Pages

section Calls

variable {sha256}

structure Admitted (s : FeedReplay k) (feed : FeedEnvelope k) (v : Verdict) : Prop where
  start : s.cursors[v.start]? = some feed.previous
  grows : v.grows = decide (v.start + feed.records.length > s.records.length)
  extendable : v.grows = true → s.quarantined = false ∧ s.completion = .partialSequence
  finalizes : v.finalizes = (!v.conflict && !s.quarantined && s.completion = .partialSequence &&
    feed.completion = .finalSequence)
  admission : ∃ a g, feed.records.zipIdx.foldlM (s.admitRecord v.start)
    ⟨false, s.originals.map FeedRecord.recordId, g⟩ = .ok a ∧ a.conflict = v.conflict

theorem examine_ok {s : FeedReplay k} {feed : FeedEnvelope k} {v : Verdict}
    (h : s.examine feed = .ok v) : Admitted s feed v := by
  unfold examine at h
  obtain ⟨_, _, h⟩ := bind_eq_ok.1 h
  obtain ⟨_, _, h⟩ := bind_eq_ok.1 h
  obtain ⟨_, _, h⟩ := bind_eq_ok.1 h
  obtain ⟨_, h⟩ := guard_eq_ok.1 h
  obtain ⟨hstart, h⟩ := guard_eq_ok.1 h
  obtain ⟨_, hend, h⟩ := bind_eq_ok.1 h
  obtain ⟨_, _, h⟩ := bind_eq_ok.1 h
  obtain ⟨g, _, h⟩ := bind_eq_ok.1 h
  obtain ⟨a, hexamine, h⟩ := bind_eq_ok.1 h
  obtain ⟨_, h⟩ := guard_eq_ok.1 h
  cases h
  refine ⟨not_not.1 hstart, rfl, fun hgrows => ?_, rfl, a, g, hexamine, rfl⟩
  unfold checkEnd at hend
  obtain ⟨_, hend⟩ := guard_eq_ok.1 hend
  obtain ⟨_, hend⟩ := guard_eq_ok.1 hend
  obtain ⟨hclosed, _⟩ := guard_eq_ok.1 hend
  have hopen := not_and.1 hclosed (of_decide_eq_true hgrows)
  rw [not_or, Bool.not_eq_true] at hopen
  refine ⟨hopen.1, ?_⟩
  cases hcompletion : s.completion with
  | partialSequence => rfl
  | finalSequence => exact absurd hcompletion hopen.2

variable (sha256) in
theorem apply_cases (s : FeedReplay k) (feed : FeedEnvelope k) :
    (∃ e, apply sha256 feed s = (.error e, s)) ∨
    (apply sha256 feed s = (.ok (s.outcome sha256 .identicalReplay), s)) ∨
    (∃ v t, s.examine feed = .ok v ∧ s.staged sha256 feed v = .ok t ∧
      apply sha256 feed s = (.ok (t.outcome sha256 (statusOf v)), t)) := by
  have hread : apply sha256 feed s = (Method.lift (s.examine feed) >>= fun v =>
      if !v.grows && !v.conflict && !v.finalizes then pure (s.outcome sha256 .identicalReplay)
      else do
        let next ← Method.lift (s.staged sha256 feed v)
        Method.update fun _ => next
        return next.outcome sha256 (statusOf v)) s := rfl
  cases hexamine : s.examine feed with
  | error e =>
    rw [hread, Method.lift_bind_error hexamine]
    exact Or.inl ⟨e, rfl⟩
  | ok v =>
    rw [hread, Method.lift_bind hexamine]
    split
    · exact Or.inr (Or.inl rfl)
    · cases hstaged : s.staged sha256 feed v with
      | error e => exact Or.inl ⟨e, rfl⟩
      | ok t => exact Or.inr (Or.inr ⟨v, t, rfl, hstaged, rfl⟩)

variable (sha256) in
structure Committed (s : FeedReplay k) (v : Verdict) (t : FeedReplay k) : Prop where
  coherent : Coherent sha256 t
  receipt : t.receipt = (t.receiptJson sha256).canonical.encode
  originals : ∃ l, t.originals = s.originals ++ l ∧ (v.grows = false → l = [])
  context : t.context = s.context
  limits : t.limits = s.limits
  completion : t.completion = if v.finalizes then .finalSequence else s.completion
  quarantined : s.quarantined = true → t.quarantined = true
  unconflicted : v.conflict = false → t.quarantined = s.quarantined

theorem staged_ok {s t : FeedReplay k} {feed : FeedEnvelope k} {v : Verdict}
    (hs : Coherent sha256 s) (hexamine : s.examine feed = .ok v) (h : s.staged sha256 feed v = .ok t) :
    Committed sha256 s v t := by
  obtain ⟨hstart, hgrows, _, _, a, g, hadmission, hconflict⟩ := examine_ok hexamine
  obtain ⟨g', _, h⟩ := bind_eq_ok.1 h
  obtain ⟨⟨next, g''⟩, hextend, h⟩ := bind_eq_ok.1 h
  have hstart' : v.start ≤ s.records.length := by
    have hlt := (List.getElem?_eq_some_iff.1 hstart).1
    rw [hs.cursors_length] at hlt
    omega
  have hbegin : Staged sha256 s v.start 0 ⟨false, s.originals.map FeedRecord.recordId, g⟩ s :=
    ⟨hs, by rw [Nat.add_zero, max_eq_left hstart'], ⟨[], (List.append_nil _).symm⟩, fun _ h => h,
      rfl, rfl, rfl, id, fun _ => rfl, fun _ _ _ => rfl⟩
  have hrun := hbegin.run hadmission hextend
  rw [Nat.zero_add] at hrun
  obtain ⟨l, hl⟩ := hrun.originals
  have hempty : v.grows = false → l = [] := by
    intro hno
    rw [hgrows, decide_eq_false_iff_not] at hno
    have hlength := congrArg List.length hl
    simp only [originals, List.length_map, List.length_append, hrun.length] at hlength
    exact List.length_eq_zero_iff.1 (by omega)
  rw [refresh_ok h]
  by_cases hfinal : v.finalizes = true
  · rw [if_pos hfinal]
    exact ⟨(hrun.coherent.of_completion .finalSequence).of_receipt _, rfl, ⟨l, hl, hempty⟩,
      hrun.context, hrun.limits, (if_pos hfinal).symm, hrun.quarantined,
      fun hno => hrun.unconflicted (hconflict.trans hno)⟩
  · rw [if_neg hfinal]
    exact ⟨hrun.coherent.of_receipt _, rfl, ⟨l, hl, hempty⟩, hrun.context, hrun.limits,
      hrun.completion.trans (if_neg hfinal).symm, hrun.quarantined,
      fun hno => hrun.unconflicted (hconflict.trans hno)⟩

def Closed (s : FeedReplay k) : Prop := s.quarantined = true ∨ s.completion = .finalSequence

variable (sha256) in
/-- The state after a number of calls, whatever they returned. -/
def after (s : FeedReplay k) (feeds : List (FeedEnvelope k)) : FeedReplay k :=
  feeds.foldl (fun s feed => (apply sha256 feed s).2) s

/-- Every call of a run is accepted, and none of them finds a conflict. -/
def Accepted (sha256 : List U8 → Digest) : FeedReplay k → List (FeedEnvelope k) → Prop
  | _, [] => True
  | s, feed :: rest => (∃ o, (apply sha256 feed s).1 = .ok o ∧ o.status ≠ .quarantined) ∧
    Accepted sha256 (apply sha256 feed s).2 rest

theorem apply_coherent {s : FeedReplay k} (hs : Coherent sha256 s) (feed : FeedEnvelope k) :
    Coherent sha256 (apply sha256 feed s).2 := by
  rcases apply_cases sha256 s feed with ⟨e, h⟩ | h | ⟨v, t, hexamine, hstaged, h⟩ <;> rw [h]
  · exact hs
  · exact hs
  · exact (staged_ok hs hexamine hstaged).coherent

theorem after_coherent {s : FeedReplay k} (hs : Coherent sha256 s) (feeds : List (FeedEnvelope k)) :
    Coherent sha256 (after sha256 s feeds) := by
  induction feeds generalizing s with
  | nil => exact hs
  | cons feed feeds ih => exact ih (apply_coherent hs feed)

theorem new_frame {context : ImportContext} {l : Limits} {s : FeedReplay k}
    (h : new k sha256 context l = .ok s) : s.context = context ∧ s.limits = l := by
  obtain ⟨state, _, rfl⟩ := new_ok h
  exact ⟨rfl, rfl⟩

theorem after_frame {s : FeedReplay k} (hs : Coherent sha256 s) (feeds : List (FeedEnvelope k)) :
    (after sha256 s feeds).context = s.context ∧
      (after sha256 s feeds).limits = s.limits := by
  induction feeds generalizing s with
  | nil => exact ⟨rfl, rfl⟩
  | cons feed feeds ih =>
    obtain ⟨hcontext, hlimits⟩ := ih (apply_coherent hs feed)
    refine ⟨hcontext.trans ?_, hlimits.trans ?_⟩ <;>
      rcases apply_cases sha256 s feed with ⟨e, h⟩ | h | ⟨v, t, hexamine, hstaged, h⟩ <;>
      rw [h]
    · exact (staged_ok hs hexamine hstaged).context
    · exact (staged_ok hs hexamine hstaged).limits

theorem apply_closed {s : FeedReplay k} (hs : Coherent sha256 s) (hclosed : Closed s)
    (feed : FeedEnvelope k) : (apply sha256 feed s).2.originals = s.originals ∧
      Closed (apply sha256 feed s).2 ∧
      (s.quarantined = true → (apply sha256 feed s).2.quarantined = true) := by
  rcases apply_cases sha256 s feed with ⟨e, h⟩ | h | ⟨v, t, hexamine, hstaged, h⟩ <;> rw [h]
  · exact ⟨rfl, hclosed, id⟩
  · exact ⟨rfl, hclosed, id⟩
  · have ht := staged_ok hs hexamine hstaged
    have hno : v.grows = false := by
      by_contra hgrows
      rw [Bool.not_eq_false] at hgrows
      obtain ⟨hquarantined, hcompletion⟩ := (examine_ok hexamine).extendable hgrows
      rcases hclosed with hclosed | hclosed
      · rw [hquarantined] at hclosed
        cases hclosed
      · rw [hcompletion] at hclosed
        cases hclosed
    obtain ⟨l, hl, hempty⟩ := ht.originals
    refine ⟨by rw [hl, hempty hno, List.append_nil], ?_, ht.quarantined⟩
    rcases hclosed with hclosed | hclosed
    · exact Or.inl (ht.quarantined hclosed)
    · refine Or.inr ?_
      rw [ht.completion, hclosed, ite_self]

theorem after_closed {s : FeedReplay k} (hs : Coherent sha256 s) (hclosed : Closed s)
    (feeds : List (FeedEnvelope k)) :
    (after sha256 s feeds).originals = s.originals ∧
      (s.quarantined = true → (after sha256 s feeds).quarantined = true) := by
  induction feeds generalizing s with
  | nil => exact ⟨rfl, id⟩
  | cons feed feeds ih =>
    obtain ⟨horiginals, hclosed', hquarantined⟩ := apply_closed hs hclosed feed
    obtain ⟨horiginals', hquarantined'⟩ := ih (apply_coherent hs feed) hclosed'
    exact ⟨horiginals'.trans horiginals, fun h => hquarantined' (hquarantined h)⟩

end Calls

instance decidableSettles (r : Result ReplayOutcome) :
    Decidable (∃ o, r = .ok o ∧ o.status ≠ .quarantined) :=
  match r with
  | .error _ => isFalse fun ⟨_, ho, _⟩ => nomatch ho
  | .ok o => decidable_of_iff (o.status ≠ .quarantined)
      ⟨fun h => ⟨o, rfl, h⟩, fun ⟨_, hp, h⟩ => Except.ok.inj hp ▸ h⟩

instance decidableAccepted : ∀ (s : FeedReplay k) (feeds : List (FeedEnvelope k)),
    Decidable (Accepted sha256 s feeds)
  | _, [] => isTrue trivial
  | s, feed :: rest =>
    have := decidableAccepted (apply sha256 feed s).2 rest
    inferInstanceAs (Decidable (_ ∧ _))

def sampleChecks : Checks where
  net := ⟨fun _ => none, fun _ => "", fun _ => none, fun _ => ""⟩
  capturedEvidence := fun _ _ => .error (bad "" "")
  capturedValues := fun _ _ => .ok ()
  messageClosure := fun _ _ _ _ _ => .ok ()
  occurrenceValues := fun _ _ _ => .ok ()
  semanticIdentity := fun _ _ _ _ _ _ => .ok ()

def sampleDigest (bytes : List U8) : Digest := Vector.ofFn fun i => BitVec.ofNat 8 (bytes.length + i)

def sampleContext : ImportContext where
  sourceId := "feed"
  sourceSchema := "rows"
  sourceVersion := none
  clock := ⟨.unknown, none, none⟩
  batch := ⟨some "b", none, none⟩
  checkpointId := "c"
  session := "s"
  generation := 1
  direction := none
  peer := none
  localEnd := none
  provenance := []

def sampleNew : Result (FeedReplay sampleChecks) :=
  new sampleChecks sampleDigest sampleContext Limits.default

def samplePage : FeedEnvelope sampleChecks :=
  ⟨sampleContext, firstCursor sampleDigest sampleContext, [], .partialSequence⟩

def Alike (s : FeedReplay sampleChecks) : Prop :=
  let t := after sampleDigest s [samplePage]
  Accepted sampleDigest s [samplePage] ∧
    s.originals.map FeedRecord.encoded = t.originals.map FeedRecord.encoded ∧
    s.completion = t.completion

instance decidableAlike (s : FeedReplay sampleChecks) : Decidable (Alike s) :=
  inferInstanceAs (Decidable (_ ∧ _ ∧ _))

end FeedReplay

end PcapEvidence.Bgp.Feed
