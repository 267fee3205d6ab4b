import PcapEvidence.StreamConfirmations

/-!
# Confirmations paired in a stream

The groups are the records of each key by their role, so their order is the order of the records
and nothing else depends on it. The budget is checked before the first event.
-/

namespace PcapEvidence.Streaming.Dnp3Confirmations

open EvidenceBytes OrderedMap SortedVec Dnp3Workflow

section Pairing
variable {records records' : List Dnp3StreamingConfirmationRecord}

def groupOf (records : List Dnp3StreamingConfirmationRecord) (key : Key) : Group :=
  ⟨records.filter fun r => isConfirm r && keyOf r = key,
    records.filter fun r => !isConfirm r && keyOf r = key⟩

def participants (records : List Dnp3StreamingConfirmationRecord) :
    List Dnp3StreamingConfirmationRecord := records.filter takesPart

def groupsOf (records : List Dnp3StreamingConfirmationRecord) : OrdMap Key Group :=
  (participants records).foldl addRecord .empty

def keysOf (records : List Dnp3StreamingConfirmationRecord) : List Key := (groupsOf records).keys

theorem get?_foldl (l : List Dnp3StreamingConfirmationRecord) (key : Key) :
    (l.foldl addRecord .empty).get? key =
      if key ∈ l.map keyOf then some (groupOf l key) else none := by
  induction l using List.reverseRecOn with
  | nil => rfl
  | append_singleton l r ih =>
    rw [List.foldl_append, List.foldl_cons, List.foldl_nil]
    by_cases hkey : key = keyOf r
    · subst hkey
      have hold : ((l.foldl addRecord .empty).get? (keyOf r)).getD .empty = groupOf l (keyOf r) := by
        rw [ih]
        split
        · rfl
        · rename_i hnone
          have hother : ∀ x ∈ l, keyOf x ≠ keyOf r := fun x hx h =>
            hnone (List.mem_map.2 ⟨x, hx, h⟩)
          simp only [Option.getD_none, groupOf, Group.empty, Group.mk.injEq]
          constructor <;> symm <;> rw [List.filter_eq_nil_iff] <;> intro x hx <;>
            simp [hother x hx]
      rw [addRecord, OrdMap.get?_insert_self, hold, if_pos (by simp)]
      cases hconfirm : isConfirm r <;> simp [Group.join, groupOf, hconfirm, List.filter_append]
    · rw [addRecord, OrdMap.get?_insert_of_ne _ _ hkey, ih]
      have hgroup : groupOf (l ++ [r]) key = groupOf l key := by
        simp [groupOf, List.filter_append, Ne.symm hkey]
      simp [hgroup, hkey]

theorem groupOf_participants (records : List Dnp3StreamingConfirmationRecord) (key : Key) :
    groupOf (participants records) key = ⟨records.filter fun r => isConfirm r && keyOf r = key,
      records.filter fun r => takesPart r && !isConfirm r && keyOf r = key⟩ := by
  simp only [groupOf, participants, List.filter_filter, Group.mk.injEq]
  constructor <;> apply List.filter_congr <;> intro r _
  · cases h : isConfirm r
    · simp
    · have hpart : takesPart r = true := by
        simp only [isConfirm, decide_eq_true_eq] at h
        simp [takesPart, h]
      simp [hpart]
  · cases takesPart r <;> cases isConfirm r <;> simp

theorem get?_groupsOf (records : List Dnp3StreamingConfirmationRecord) (key : Key) :
    (groupsOf records).get? key = if key ∈ (participants records).map keyOf then
      some (groupOf (participants records) key) else none := get?_foldl _ _

theorem values_groupsOf (records : List Dnp3StreamingConfirmationRecord) :
    (groupsOf records).values = (keysOf records).map (groupOf (participants records)) := by
  rw [keysOf, OrdMap.keys, OrdMap.values, List.map_map]
  apply List.map_congr_left
  intro e he
  have hget := ((groupsOf records).get?_eq_some_iff e.1 e.2).2 he
  rw [get?_groupsOf] at hget
  split at hget
  · exact (Option.some.inj hget).symm
  · cases hget

theorem mem_keysOf {key : Key} : key ∈ keysOf records ↔ key ∈ (participants records).map keyOf := by
  rw [keysOf, OrdMap.mem_keys]
  simp only [get?_groupsOf]
  split <;> simp_all

theorem keysOf_perm (h : records.Perm records') : keysOf records = keysOf records' := by
  apply eq_of_sorted_of_mem_iff (groupsOf records).keys_sorted (groupsOf records').keys_sorted
  intro key
  have hperm := (h.filter takesPart).map keyOf
  exact mem_keysOf.trans (hperm.mem_iff.trans mem_keysOf.symm)

theorem foldlM_takeRecord (records : List Dnp3StreamingConfirmationRecord) (n : ℕ)
    (groups : OrdMap Key Group) :
    records.foldlM takeRecord (n, groups) =
      if participants records = [] ∨ n + (participants records).length < wordBound then
        .ok (n + (participants records).length, (participants records).foldl addRecord groups)
      else .error limitReached := by
  induction records generalizing n groups with
  | nil => rfl
  | cons r rest ih =>
    rw [List.foldlM_cons]
    cases hpart : takesPart r with
    | false =>
      have hstep : takeRecord (n, groups) r = .ok (n, groups) := by simp [takeRecord, hpart]
      have hlist : participants (r :: rest) = participants rest := by
        simp [participants, hpart]
      rw [hstep, hlist]
      exact ih n groups
    | true =>
      have hlist : participants (r :: rest) = r :: participants rest := by
        simp [participants, hpart]
      rw [hlist]
      by_cases hfits : n + 1 < wordBound
      · have hstep : takeRecord (n, groups) r = .ok (n + 1, addRecord groups r) := by
          simp [takeRecord, hpart, checkedAdd, hfits]
        rw [hstep]
        refine (ih (n + 1) (addRecord groups r)).trans ?_
        rw [List.length_cons, List.foldl_cons, show n + ((participants rest).length + 1) =
          n + 1 + (participants rest).length by omega]
        by_cases hempty : participants rest = []
        · simp [hempty, hfits]
        · simp [hempty]
      · have hstep : takeRecord (n, groups) r = .error limitReached := by
          simp [takeRecord, hpart, checkedAdd, hfits]
        rw [hstep, if_neg]
        · rfl
        · simp only [List.length_cons]
          rintro (h | h)
          · cases h
          · omega

theorem chargeGroup_congr {g g' : Group} (n : ℕ) (hconfirms : g.confirms.length = g'.confirms.length)
    (hresponses : g.responses.length = g'.responses.length) : chargeGroup n g = chargeGroup n g' := by
  unfold chargeGroup
  rw [hconfirms, hresponses]

theorem chargeGroup_error {n : ℕ} {g : Group} {e : Error} (h : chargeGroup n g = .error e) :
    e = limitReached := by
  unfold chargeGroup at h
  split at h
  · exact (Except.error.inj h).symm
  · split at h
    · exact (Except.error.inj h).symm
    · cases h

theorem foldlM_chargeGroup_error {groups : List Group} {n : ℕ} {e : Error}
    (h : groups.foldlM chargeGroup n = .error e) : e = limitReached := by
  induction groups generalizing n with
  | nil => cases h
  | cons g rest ih =>
    rw [List.foldlM_cons] at h
    cases hg : chargeGroup n g with
    | error e' =>
      rw [hg] at h
      cases h
      exact chargeGroup_error hg
    | ok n' =>
      rw [hg] at h
      exact ih h

def workOf (records : List Dnp3StreamingConfirmationRecord) : Result ℕ := do
  let counted ← records.foldlM takeRecord (records.length, .empty)
  counted.2.values.foldlM chargeGroup counted.1

theorem workOf_eq (records : List Dnp3StreamingConfirmationRecord) :
    workOf records =
      if participants records = [] ∨
          records.length + (participants records).length < wordBound then
        (keysOf records).foldlM (fun n key => chargeGroup n (groupOf (participants records) key))
          (records.length + (participants records).length) else .error limitReached := by
  rw [workOf, foldlM_takeRecord]
  split
  · change ((groupsOf records).values.foldlM chargeGroup _ : Result ℕ) = _
    rw [values_groupsOf, List.foldlM_map]
  · rfl

theorem workOf_error {e : Error} (h : workOf records = .error e) : e = limitReached := by
  rw [workOf, foldlM_takeRecord] at h
  split at h
  · exact foldlM_chargeGroup_error h
  · exact (Except.error.inj h).symm

theorem workOf_perm (h : records.Perm records') : workOf records = workOf records' := by
  have hpart : (participants records).Perm (participants records') := h.filter takesPart
  have hempty : participants records = [] ↔ participants records' = [] := by
    rw [← List.length_eq_zero_iff, ← List.length_eq_zero_iff, hpart.length_eq]
  rw [workOf_eq, workOf_eq, h.length_eq, hpart.length_eq, keysOf_perm h]
  simp only [hempty]
  have hcharge : (fun n key => chargeGroup n (groupOf (participants records) key)) =
      fun n key => chargeGroup n (groupOf (participants records') key) := by
    funext n key
    apply chargeGroup_congr
    · exact (hpart.filter _).length_eq
    · exact (hpart.filter _).length_eq
  rw [hcharge]

theorem foldlM_emitGroup {σ : Type} {emit : Emit σ} {log : σ → List Event}
    (haccepts : Accepts emit log) (groups : List Group) (s : σ) :
    ∃ t, groups.foldlM (fun _ group => emitGroup emit group) () s = (.ok (), t) ∧
      log t = log s ++ (groups.filter fun g => !g.confirms.isEmpty).map Group.event := by
  induction groups generalizing s with
  | nil => exact ⟨s, rfl, by simp⟩
  | cons g rest ih =>
    rw [List.foldlM_cons]
    cases hempty : g.confirms.isEmpty with
    | true =>
      obtain ⟨t, hrun, hlog⟩ := ih s
      refine ⟨t, ?_, ?_⟩
      · have hstep : emitGroup emit g s = (.ok (), s) := by simp [emitGroup, hempty]; rfl
        rw [Method.bind_of_ok hstep]
        exact hrun
      · simpa [hempty] using hlog
    | false =>
      obtain ⟨id, u, hemit, hfirst⟩ := haccepts g.event s
      obtain ⟨t, hrun, hlog⟩ := ih u
      refine ⟨t, ?_, ?_⟩
      · have hstep : emitGroup emit g s = (.ok (), u) := by
          simp only [emitGroup, hempty, Bool.false_eq_true, if_false]
          rw [Method.bind_of_ok hemit]
          rfl
        rw [Method.bind_of_ok hstep]
        exact hrun
      · rw [hlog, hfirst]
        simp [hempty]

theorem correlate_cases {σ : Type} {emit : Emit σ} {log : σ → List Event}
    (haccepts : Accepts emit log) (maxChecks : ℕ) (s : σ) :
    (¬ (∃ n ≤ maxChecks, workOf records = .ok n) ∧
      correlateDnp3Confirmations emit records maxChecks s = (.error limitReached, s)) ∨
    ((∃ n ≤ maxChecks, workOf records = .ok n) ∧
      ∃ t, correlateDnp3Confirmations emit records maxChecks s = (.ok (), t) ∧
        log t = log s ++
          ((groupsOf records).values.filter fun g => !g.confirms.isEmpty).map Group.event) := by
  unfold correlateDnp3Confirmations
  cases hcounted : records.foldlM takeRecord (records.length, .empty) with
  | error e =>
    have hwork : workOf records = .error e := by rw [workOf, hcounted]; rfl
    obtain rfl := workOf_error hwork
    left
    refine ⟨fun ⟨n, _, hn⟩ => ?_, Method.lift_bind_error rfl _⟩
    rw [hwork] at hn
    cases hn
  | ok counted =>
    have hgroups : counted.2 = groupsOf records := by
      rw [foldlM_takeRecord] at hcounted
      split at hcounted
      · rw [← Except.ok.inj hcounted, groupsOf]
      · cases hcounted
    have hwork : workOf records = counted.2.values.foldlM chargeGroup counted.1 := by
      rw [workOf, hcounted]
      rfl
    rw [Method.lift_bind rfl]
    cases hcharge : counted.2.values.foldlM chargeGroup counted.1 with
    | error e =>
      rw [hcharge] at hwork
      obtain rfl := workOf_error hwork
      left
      refine ⟨fun ⟨n, _, hn⟩ => ?_, Method.lift_bind_error rfl _⟩
      rw [hwork] at hn
      cases hn
    | ok required =>
      rw [hcharge] at hwork
      rw [Method.lift_bind rfl]
      by_cases hmax : required > maxChecks
      · left
        refine ⟨fun ⟨n, hle, hn⟩ => ?_, by rw [if_pos hmax]; rfl⟩
        rw [hwork] at hn
        cases hn
        omega
      · right
        refine ⟨⟨required, by omega, hwork⟩, ?_⟩
        rw [if_neg hmax, hgroups]
        exact foldlM_emitGroup haccepts _ s

/-- The same records, perhaps in another order. -/
structure Group.Alike (g g' : Group) : Prop where
  confirms : g.confirms.Perm g'.confirms
  responses : g.responses.Perm g'.responses

namespace Group.Alike
variable {g g' : Group}

theorem exclusion (h : g.Alike g') :
    Dnp3Confirmations.exclusion g.confirms = Dnp3Confirmations.exclusion g'.confirms := by
  funext r
  unfold Dnp3Confirmations.exclusion
  rw [h.confirms.any_eq]

theorem targets (h : g.Alike g') : g.targets.Perm g'.targets := by
  unfold Group.targets
  rw [h.exclusion]
  exact h.responses.filter _

theorem excluded (h : g.Alike g') : g.excluded.Perm g'.excluded := by
  unfold Group.excluded
  rw [h.exclusion]
  exact h.responses.filterMap _

theorem verdict (h : g.Alike g') : g.verdict = g'.verdict := by
  unfold Group.verdict Group.ambiguousContext Group.boundaryOk
  rw [h.confirms.any_eq, h.responses.any_eq, h.confirms.all_eq, h.targets.all_eq,
    h.confirms.length_eq, h.targets.length_eq, h.targets.isEmpty_eq, h.excluded.isEmpty_eq]

end Group.Alike

theorem alike_groupOf (h : records.Perm records') (key : Key) :
    (groupOf (participants records) key).Alike (groupOf (participants records') key) where
  confirms := (h.filter takesPart).filter _
  responses := (h.filter takesPart).filter _

section Verdict
variable {g : Group}

theorem map_fst_excluded (g : Group) :
    g.excluded.map Prod.fst = g.responses.filter fun r => !decide (exclusion g.confirms r = none) := by
  rw [Group.excluded, List.map_filterMap]
  induction g.responses with
  | nil => rfl
  | cons r rest ih =>
    cases h : exclusion g.confirms r <;> simp [h] <;> simpa using ih

theorem placed_perm (g : Group) : (g.targets ++ g.excluded.map Prod.fst).Perm g.responses := by
  rw [map_fst_excluded]
  exact List.filter_append_perm _ _

theorem not_mem_excluded {r : Dnp3StreamingConfirmationRecord} (h : r ∈ g.targets) :
    r ∉ g.excluded.map Prod.fst := by
  rw [map_fst_excluded]
  have htarget := (List.mem_filter.1 h).2
  intro hexcluded
  have hnot := (List.mem_filter.1 hexcluded).2
  rw [htarget] at hnot
  cases hnot

structure Answers (confirm response : Dnp3StreamingConfirmationRecord) : Prop where
  unambiguous : confirm.ambiguous = false ∧ response.ambiguous = false
  verified : confirm.boundaryVerified = true ∧ response.boundaryVerified = true
  requested : response.witness.header.confirmRequested = true
  opposite : confirm.direction ≠ response.direction
  oppositeLink : confirm.witness.linkDirection ≠ response.witness.linkDirection

theorem exclusion_singleton {confirm response : Dnp3StreamingConfirmationRecord} :
    exclusion [confirm] response = none ↔ response.witness.header.confirmRequested = true ∧
      response.ambiguous = false ∧ response.boundaryVerified = true ∧
      confirm.direction ≠ response.direction ∧
      confirm.witness.linkDirection ≠ response.witness.linkDirection := by
  unfold exclusion
  cases response.witness.header.confirmRequested <;> cases response.ambiguous <;>
    cases response.boundaryVerified <;> simp [and_comm]

theorem verdict_candidate_iff (hconfirms : g.confirms ≠ []) : g.verdict.1 = .candidate ↔
    ∃ confirm response, g.confirms = [confirm] ∧ g.responses = [response] ∧
      Answers confirm response := by
  constructor
  · intro h
    unfold Group.verdict at h
    split at h
    · cases h
    rename_i hambiguous
    split at h
    · cases h
    rename_i hone
    split at h
    · cases h
    rename_i htargets
    split at h
    · cases h
    rename_i hboundary
    split at h
    · cases h
    rename_i hunique
    obtain ⟨confirm, hconfirm⟩ : ∃ confirm, g.confirms = [confirm] := by
      apply List.length_eq_one_iff.1
      have := List.length_pos_iff.2 hconfirms
      omega
    simp only [Bool.or_eq_true, decide_eq_true_eq, Bool.not_eq_true', not_or, Bool.not_eq_false,
      List.isEmpty_iff] at hunique htargets
    obtain ⟨response, htarget⟩ : ∃ response, g.targets = [response] := by
      apply List.length_eq_one_iff.1
      have := List.length_pos_iff.2 htargets
      omega
    have hresponse : g.responses = [response] := by
      have hperm := placed_perm g
      rw [htarget, hunique.2] at hperm
      exact List.perm_singleton.1 hperm.symm
    have hmem : response ∈ g.targets := by simp [htarget]
    have hnone := of_decide_eq_true (List.mem_filter.1 hmem).2
    rw [hconfirm, exclusion_singleton] at hnone
    obtain ⟨hrequested, hclear, hverified, hopposite, hlink⟩ := hnone
    simp only [Group.ambiguousContext, hconfirm, hresponse, List.any_cons, List.any_nil,
      Bool.or_false, Bool.not_eq_true, Bool.or_eq_false_iff] at hambiguous
    simp only [Group.boundaryOk, hconfirm, htarget, List.all_cons, List.all_nil, Bool.and_true,
      Bool.not_eq_true', Bool.not_eq_false, Bool.and_eq_true] at hboundary
    exact ⟨confirm, response, hconfirm, hresponse, hambiguous, hboundary, hrequested, hopposite,
      hlink⟩
  · rintro ⟨confirm, response, hconfirm, hresponse, hanswers⟩
    have hnone : exclusion [confirm] response = none := exclusion_singleton.2
      ⟨hanswers.requested, hanswers.unambiguous.2, hanswers.verified.2, hanswers.opposite,
        hanswers.oppositeLink⟩
    simp [Group.verdict, Group.ambiguousContext, Group.boundaryOk, Group.targets, Group.excluded,
      hconfirm, hresponse, hnone, hanswers.unambiguous, hanswers.verified]

end Verdict

def confirmedKeys (records : List Dnp3StreamingConfirmationRecord) : List Key :=
  (keysOf records).filter fun key => !(groupOf (participants records) key).confirms.isEmpty

theorem mem_confirmedKeys {key : Key} :
    key ∈ confirmedKeys records ↔ ∃ r ∈ records, isConfirm r = true ∧ keyOf r = key := by
  rw [confirmedKeys, List.mem_filter, mem_keysOf, groupOf_participants]
  simp only [Bool.not_eq_true', List.isEmpty_eq_false_iff_exists_mem, List.mem_filter,
    Bool.and_eq_true, decide_eq_true_eq]
  constructor
  · rintro ⟨-, r, hr, hconfirm, hkey⟩
    exact ⟨r, hr, hconfirm, hkey⟩
  · rintro ⟨r, hr, hconfirm, hkey⟩
    have hpart : takesPart r = true := by
      simp only [isConfirm, decide_eq_true_eq] at hconfirm
      simp [takesPart, hconfirm]
    exact ⟨List.mem_map.2 ⟨r, List.mem_filter.2 ⟨hr, hpart⟩, hkey⟩, r, hr, hconfirm, hkey⟩

theorem confirmedKeys_perm (h : records.Perm records') :
    confirmedKeys records = confirmedKeys records' := by
  unfold confirmedKeys
  rw [keysOf_perm h]
  apply List.filter_congr
  intro key _
  rw [(alike_groupOf h key).confirms.isEmpty_eq]

theorem values_confirmed (records : List Dnp3StreamingConfirmationRecord) :
    ((groupsOf records).values.filter fun g => !g.confirms.isEmpty).map Group.event =
      (confirmedKeys records).map fun key => (groupOf (participants records) key).event := by
  rw [values_groupsOf, confirmedKeys, List.filter_map, List.map_map]
  rfl

structure Group.Exact (g : Group) : Prop where
  candidate : g.event.status = .candidate ↔ ∃ confirm response, g.confirms = [confirm] ∧
    g.responses = [response] ∧ Answers confirm response
  placed : g.responses.Perm (g.targets ++ g.excluded.map Prod.fst)
  disjoint : ∀ r ∈ g.targets, r ∉ g.excluded.map Prod.fst

structure Group.SameEvent (g g' : Group) : Prop where
  verdict : g.verdict = g'.verdict
  confirms : g.confirms.Perm g'.confirms
  targets : g.targets.Perm g'.targets
  excluded : g.excluded.Perm g'.excluded

theorem Group.exact_of_confirms {g : Group} (h : g.confirms ≠ []) : g.Exact :=
  ⟨verdict_candidate_iff h, (placed_perm g).symm, fun _ => not_mem_excluded⟩

/-- There is one event for every key with a confirmation, a candidate exactly for one confirmation
and one response that answers it, or the budget is exhausted before the first event. -/
theorem correlateDnp3Confirmations_exact {σ : Type} {emit : Emit σ} {log : σ → List Event}
    (haccepts : Accepts emit log) (records : List Dnp3StreamingConfirmationRecord) (maxChecks : ℕ) :
    (∀ records', records.Perm records' → ∀ s,
      correlateDnp3Confirmations emit records' maxChecks s = (.error limitReached, s)) ∨
    ∃ keys : List Key, keys.Nodup ∧
      (∀ key, key ∈ keys ↔ ∃ r ∈ records, isConfirm r = true ∧ keyOf r = key) ∧
      (∀ records', records.Perm records' → ∀ s, ∃ t,
        correlateDnp3Confirmations emit records' maxChecks s = (.ok (), t) ∧
        log t = log s ++ keys.map fun key => (groupOf (participants records') key).event) ∧
      ∀ key ∈ keys, (groupOf (participants records) key).Exact ∧
        ∀ records', records.Perm records' → (groupOf (participants records) key).SameEvent
          (groupOf (participants records') key) := by
  by_cases hadmitted : ∃ n ≤ maxChecks, workOf records = .ok n
  · right
    refine ⟨confirmedKeys records, ?_, fun key => mem_confirmedKeys, ?_, ?_⟩
    · have hnodup : (keysOf records).Nodup := (groupsOf records).keys_sorted.imp fun h => h.ne
      exact hnodup.filter _
    · intro records' hperm s
      rw [workOf_perm hperm] at hadmitted
      obtain ⟨hnot, -⟩ | ⟨-, t, hrun, hlog⟩ := correlate_cases haccepts maxChecks s
      · exact absurd hadmitted hnot
      · rw [values_confirmed, ← confirmedKeys_perm hperm] at hlog
        exact ⟨t, hrun, hlog⟩
    · intro key hkey
      have hconfirms : (groupOf (participants records) key).confirms ≠ [] := by
        have hnonempty := (List.mem_filter.1 hkey).2
        simpa using hnonempty
      refine ⟨Group.exact_of_confirms hconfirms, fun records' hperm => ?_⟩
      have halike := alike_groupOf hperm key
      exact ⟨halike.verdict, halike.confirms, halike.targets, halike.excluded⟩
  · left
    intro records' hperm s
    rw [workOf_perm hperm] at hadmitted
    obtain ⟨-, hrun⟩ | ⟨h, -⟩ := correlate_cases haccepts maxChecks s
    · exact hrun
    · exact absurd h hadmitted

end Pairing

def listSink : Emit (List Event) := fun e taken => (.ok (taken.length + 1), taken ++ [e])

def sampleRecord (event : ℕ) (direction : U8) (function : U8) (source destination : U16) :
    Dnp3StreamingConfirmationRecord :=
  { event
    session := 7
    window := 0
    generation := some 0
    direction
    source
    destination
    witness := ⟨source, destination, direction = 0, ⟨0xe3, function, 2⟩, .empty,
      [⟨Vector.replicate 32 0, event, 0⟩], []⟩
    raw := .empty
    ambiguous := false
    boundaryVerified := true }

def sampleRecords : List Dnp3StreamingConfirmationRecord :=
  [sampleRecord 1 1 0x81 1024 1, sampleRecord 2 0 0 1 1024]

theorem listSink_accepts : Accepts listSink id := fun _ s => ⟨s.length + 1, _, rfl, rfl⟩

theorem sample_admitted :
    (correlateDnp3Confirmations listSink sampleRecords 6 []).1.toOption.isSome = true := by
  decide +kernel

theorem groupOf_sample : groupOf (participants sampleRecords) (keyOf (sampleRecord 2 0 0 1 1024)) =
    ⟨[sampleRecord 2 0 0 1 1024], [sampleRecord 1 1 0x81 1024 1]⟩ := rfl

theorem correlateDnp3Confirmations_exact_sample : ∃ t,
    correlateDnp3Confirmations listSink sampleRecords 6 [] = (.ok (), t) ∧
      ∃ e ∈ t, e.status = .candidate := by
  obtain hfail | ⟨keys, -, hkeys, hrun, hexact⟩ :=
    @correlateDnp3Confirmations_exact _ listSink id listSink_accepts sampleRecords 6
  · have hadmitted := sample_admitted
    rw [hfail _ (.refl _)] at hadmitted
    cases hadmitted
  · have hkey : keyOf (sampleRecord 2 0 0 1 1024) ∈ keys :=
      (hkeys _).2 ⟨_, .tail _ (.head _), rfl, rfl⟩
    obtain ⟨t, ht, hlog⟩ := hrun _ (.refl _) []
    refine ⟨t, ht, _, ?_, (hexact _ hkey).1.candidate.2 ?_⟩
    · rw [show t = _ from hlog, id, List.nil_append]
      exact List.mem_map.2 ⟨_, hkey, rfl⟩
    · rw [groupOf_sample]
      exact ⟨_, _, rfl, rfl, by constructor <;> decide⟩

end PcapEvidence.Streaming.Dnp3Confirmations
