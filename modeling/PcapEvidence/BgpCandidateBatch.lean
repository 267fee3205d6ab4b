import PcapEvidence.BgpObservationIdentity

/-!
# Batches of observations

A batch is applied through one index over the journal, or row by row when only some of its rows
have an import context. Both paths append the rows that the journal does not have yet, so neither
the batches nor the path show in the state that a sequence of rows leads to.
-/

namespace PcapEvidence.Bgp.State

open Json History Candidate Import FiniteMap

namespace CandidateState

variable (sha256 : List U8 → Digest)

/-- The second row is a replay of the first one, or the other way round. -/
def Same (o p : Observation) : Prop := p.identity = o.identity ∧ p.encoded = o.encoded

instance (o : Observation) : DecidablePred (Same o) := fun _ => inferInstanceAs (Decidable (_ ∧ _))

section Sequential

variable (s : CandidateState)

/-- The search for a row that was applied before. -/
def replayOf (o : Observation) : List (Observation × ℕ) → Candidate.Work →
    Result (Option ℕ × Candidate.Work)
  | [], w => .ok (none, w)
  | x :: rest, w => do
    let w ← w.charge (satAdd x.1.encoded.utf8ByteSize (locatorText o.locator).utf8ByteSize)
    if Same o x.1 then .ok (some x.2, w)
    else replayOf o rest w

def previousView (o : Observation) (c : ImportContext) : Option SessionView :=
  (valuesInOrder sessionOrder s.view.sessions).find? fun v => v.sourceKind = o.source.kind ∧
    v.sourceId = o.source.sourceId ∧ v.session = c.session ∧ v.importPartition = some c.partition

def checkSuccessor (o : Observation) : Result Unit :=
  match o.importContext, o.importBoundary with
  | none, _ => .ok ()
  | some c, some boundary =>
    if (s.previousView o c).all fun v =>
        v.identityConflict ∨ v.generation ≠ boundary.previousGeneration then
      .error (bad "bgp_import_transition"
        "boundary predecessor does not match the current unambiguous partition")
    else .ok ()
  | some c, none =>
    if (s.previousView o c).any (·.generation ≠ c.generation) then
      .error (bad "bgp_import_transition" "generation change requires an explicit successor boundary")
    else .ok ()

def Staging.recount (t : Staging) (o : Observation) : Result Staging := do
  let t ← t.retain o
  let work ← t.work.charge (satAdd (satMul o.encoded.utf8ByteSize 4) o.nodes)
  return { t with work := work }

def applyOne (o : Observation) : Result (ApplyOutcome × CandidateState) := do
  let _ ← treeBudget o.normalized s.limits
  let _ ← o.normalized.encodeBounded s.limits.inputBytes
  if o.routes.length > s.limits.elements ∨ o.spans > s.limits.spans then
    .error (Error.limit "bgp_state_observation")
  else
    Staging.checkContext o.importContext.isSome o s.limits
    let work ← (⟨0, s.limits.work⟩ : Candidate.Work).charge o.encoded.utf8ByteSize
    let (known, work) ← replayOf o s.observations.zipIdx work
    match known with
    | some index => return (⟨index, .identicalReplay, []⟩, { s with lastWork := work.used })
    | none =>
      s.checkSuccessor o
      if s.observations.length ≥ s.limits.elements then
        .error (Error.limit "bgp_state_observations")
      else
        let t ← (s.observations ++ [o]).foldlM Staging.recount { s.staging false with work := work }
        let (_, s) ← s.commit sha256 { t with accepted := [o] }
        match s.view.outcomes.getLast? with
        | some receipt => return (receipt, s)
        | none => .error (bad "bgp_state" "missing application receipt")

/-- The rows one after the other, with the work of all calls. -/
def applyEach : List Observation → ℕ → CandidateState →
    Result (List ApplyOutcome × ℕ × CandidateState)
  | [], total, s => .ok ([], total, s)
  | o :: rest, total, s => do
    let (receipt, s) ← s.applyOne sha256 o
    let total ← add total s.lastWork "bgp_state_work"
    if total > s.limits.work then .error (Error.limit "bgp_state_work")
    else
      let (receipts, total, s) ← applyEach rest total s
      return (receipt :: receipts, total, s)

end Sequential

section Batches

variable (s : CandidateState)

def admitRows (l : Limits) : List Observation → ℕ → ℕ → Result Unit
  | [], _, _ => .ok ()
  | o :: rest, count, work =>
    if count ≥ l.elements then .error (Error.limit "bgp_state_batch")
    else do
      let work ← add work (observationWork o o.nodes) "bgp_state_work"
      if work > l.work then .error (Error.limit "bgp_state_work")
      else admitRows l rest (count + 1) work

def finalReceipt (outcomes : List ApplyOutcome) (receipt : ApplyOutcome) : Result ApplyOutcome :=
  match receipt.status with
  | .identicalReplay => .ok receipt
  | _ =>
    match outcomes[receipt.observation]? with
    | some outcome => .ok outcome
    | none => .error (bad "bgp_state" "missing final batch receipt")

def applyBatch (batch : List Observation) : Result (List ApplyOutcome × CandidateState) := do
  admitRows s.limits batch 0 0
  if batch = [] then return ([], { s with lastWork := 0 })
  else
    let contextFree := batch.all fun o => o.importContext.isNone && o.importBoundary.isNone
    let contextual := batch.all fun o => o.importContext.isSome
    if !contextFree && !contextual then
      let (receipts, total, staged) ← applyEach sha256 batch 0 s
      let receipts ← receipts.mapM (finalReceipt staged.view.outcomes)
      return (receipts, { staged with lastWork := total })
    else s.applyIndexedBatch sha256 batch contextual

def applyBatches : List (List Observation) → CandidateState →
    Result (List ApplyOutcome × CandidateState)
  | [], s => .ok ([], s)
  | batch :: rest, s => do
    let (receipts, s) ← s.applyBatch sha256 batch
    let (more, s) ← applyBatches rest s
    return (receipts ++ more, s)

end Batches

/-! ### The journal of a sequence of rows -/

def enter (journal : List Observation) (o : Observation) : List Observation :=
  if journal.any (Same o ·) then journal else journal ++ [o]

def journalOf (rows : List Observation) : List Observation := rows.foldl enter []

def placeOf (journal : List Observation) (o : Observation) : ℕ := journal.findIdx (Same o ·)

variable {sha256} {l : Limits} {o : Observation} {journal rows : List Observation} {work : ℕ}
  {s : CandidateState} {t t' : Staging} {k : ℕ}

theorem placeOf_append (h : journal.any (Same o ·)) (more : List Observation) :
    placeOf (journal ++ more) o = placeOf journal o := by
  rw [placeOf, List.findIdx_append, if_pos (by simpa [List.findIdx_lt_length] using h)]
  rfl

theorem any_enter (journal : List Observation) (o : Observation) :
    (enter journal o).any (Same o ·) := by
  unfold enter
  split_ifs with h
  · exact h
  · simp [Same]

theorem enter_prefix (journal : List Observation) (o : Observation) :
    ∃ more, enter journal o = journal ++ more := by
  unfold enter
  split_ifs
  · exact ⟨[], (List.append_nil _).symm⟩
  · exact ⟨[o], rfl⟩

theorem foldl_enter_prefix (rows journal : List Observation) :
    ∃ more, rows.foldl enter journal = journal ++ more := by
  induction rows generalizing journal with
  | nil => exact ⟨[], (List.append_nil _).symm⟩
  | cons o rows ih =>
    obtain ⟨first, hfirst⟩ := enter_prefix journal o
    obtain ⟨more, hmore⟩ := ih (enter journal o)
    exact ⟨first ++ more, by rw [List.foldl_cons, hmore, hfirst, List.append_assoc]⟩

/-- The place of a row, counted from `k`, if the journal has it. -/
def sought (o : Observation) : List Observation → ℕ → Option ℕ
  | [], _ => none
  | p :: rest, k => if Same o p then some k else sought o rest (k + 1)

theorem sought_eq (o : Observation) (journal : List Observation) (k : ℕ) :
    sought o journal k =
      if journal.any (Same o ·) then some (k + placeOf journal o) else none := by
  induction journal generalizing k with
  | nil => rfl
  | cons p journal ih =>
    rw [sought, ih]
    by_cases hp : Same o p
    · simp [placeOf, List.findIdx_cons, hp]
    · simp [placeOf, List.findIdx_cons, hp, Nat.add_assoc, Nat.add_comm 1]

theorem find_eq_sought (h : t.seen = (journal.zipIdx k).map seenOf) (o : Observation) :
    t.find o = sought o journal k := by
  rw [Staging.find, h]
  clear h
  induction journal generalizing k with
  | nil => rfl
  | cons p journal ih =>
    rw [List.zipIdx_cons, List.map_cons, List.find?_cons, sought]
    have htest : (decide ((seenOf (p, k)).identity = o.identity) &&
        decide ((seenOf (p, k)).encoded = o.encoded)) = decide (Same o p) :=
      (Bool.decide_and _ _).symm
    rw [htest]
    by_cases hp : Same o p
    · rw [if_pos hp, decide_eq_true hp]
      rfl
    · rw [if_neg hp, decide_eq_false hp]
      exact ih

theorem replayOf_ok {w w' : Candidate.Work} {known : Option ℕ}
    (h : replayOf o (journal.zipIdx k) w = .ok (known, w')) : known = sought o journal k := by
  induction journal generalizing k w with
  | nil =>
    cases h
    rfl
  | cons p journal ih =>
    rw [List.zipIdx_cons, replayOf] at h
    obtain ⟨w₁, -, h⟩ := bind_eq_ok.1 h
    rw [sought]
    by_cases hp : Same o p
    · rw [if_pos hp] at h ⊢
      cases h
      rfl
    · rw [if_neg hp] at h ⊢
      exact ih h

theorem placeOf_new (h : ¬ journal.any (Same o ·)) : placeOf (journal ++ [o]) o = journal.length := by
  rw [List.any_eq_true, not_exists] at h
  rw [placeOf, List.findIdx_append, if_neg]
  · simp [Same]
  · rw [List.findIdx_lt_length]
    exact fun ⟨p, hp, hsame⟩ => h p ⟨hp, hsame⟩

/-! ### What a batch notes about its rows -/

structure Staged (observations rows : List Observation) (t : Staging) : Prop where
  journal : observations ++ t.accepted = rows.foldl enter observations
  seen : t.seen = (observations ++ t.accepted).zipIdx.map seenOf
  storage : t.storage = storageOf (observations ++ t.accepted)
  receipts : t.receipts.map (Sum.elim ApplyOutcome.observation id) =
    rows.map (placeOf (observations ++ t.accepted))

theorem accept_seen {existing : ℕ} {key : Option Candidate.SessionKey}
    (h : t.accept l existing key o = .ok t') :
    t'.seen = t.seen ++ [seenOf (o, existing + t.accepted.length)] := by
  unfold Staging.accept at h
  obtain ⟨_, h⟩ := guard_eq_ok.1 h
  obtain ⟨s', hretain, h⟩ := bind_eq_ok.1 h
  obtain ⟨_, h⟩ := guard_eq_ok.1 h
  obtain ⟨routes, spans, rfl⟩ := retain_ok hretain
  cases h
  split <;> rfl

theorem input_seen {contextual : Bool} {existing : ℕ}
    (h : t.input l contextual existing o = .ok t') :
    t'.seen = if (t.find o).isSome then t.seen
      else t.seen ++ [seenOf (o, existing + t.accepted.length)] := by
  unfold Staging.input at h
  obtain ⟨_, _, h⟩ := bind_eq_ok.1 h
  obtain ⟨_, _, h⟩ := bind_eq_ok.1 h
  obtain ⟨_, h⟩ := guard_eq_ok.1 h
  obtain ⟨_, _, h⟩ := bind_eq_ok.1 h
  obtain ⟨work, _, h⟩ := bind_eq_ok.1 h
  dsimp only at h
  have hfind : ({ t with work := work } : Staging).find o = t.find o := rfl
  rw [hfind] at h
  cases hfound : t.find o with
  | some index =>
    rw [hfound] at h
    cases h
    rfl
  | none =>
    rw [hfound] at h
    cases contextual with
    | false => exact accept_seen (t := { t with work := work }) h
    | true =>
      obtain ⟨⟨c, key⟩, _, h⟩ := bind_eq_ok.1 h
      obtain ⟨s', htransition, h⟩ := bind_eq_ok.1 h
      obtain ⟨generations, rfl⟩ := transition_ok htransition
      have hseen := accept_seen h
      exact hseen

theorem map_placeOf (rows more : List Observation)
    (h : ∀ o ∈ rows, journal.any (Same o ·)) :
    rows.map (placeOf (journal ++ more)) = rows.map (placeOf journal) :=
  List.map_congr_left fun o ho => placeOf_append (h o ho) more

theorem any_foldl_enter (rows journal : List Observation) :
    ∀ o ∈ rows, (rows.foldl enter journal).any (Same o ·) := by
  induction rows generalizing journal with
  | nil => exact fun o ho => absurd ho List.not_mem_nil
  | cons p rows ih =>
    intro o ho
    rcases List.mem_cons.1 ho with rfl | ho
    · obtain ⟨more, hmore⟩ := foldl_enter_prefix rows (enter journal o)
      rw [List.foldl_cons, hmore, List.any_append, any_enter]
      rfl
    · exact ih (enter journal p) o ho

theorem Staged.input {observations : List Observation} {contextual : Bool}
    (hs : Staged observations rows t)
    (h : t.input l contextual observations.length o = .ok t') :
    Staged observations (rows ++ [o]) t' := by
  have hfind : t.find o = if (observations ++ t.accepted).any (Same o ·) then
      some (placeOf (observations ++ t.accepted) o) else none := by
    rw [find_eq_sought hs.seen, sought_eq, Nat.zero_add]
  have hseen := input_seen h
  have hknown : ∀ p ∈ rows, (observations ++ t.accepted).any (Same p ·) :=
    hs.journal ▸ any_foldl_enter rows observations
  have hfold : (rows ++ [o]).foldl enter observations = enter (observations ++ t.accepted) o := by
    rw [List.foldl_append, ← hs.journal]
    rfl
  rcases input_ok h with ⟨index, hfound, hstorage, haccepted, hreceipts⟩ |
    ⟨hfound, hstorage, haccepted, hreceipts⟩
  · rw [hfound] at hseen hfind
    split_ifs at hfind with hold
    cases hfind
    refine ⟨?_, ?_, ?_, ?_⟩
    · rw [hfold, haccepted, enter, if_pos hold]
    · rw [hseen, haccepted]
      exact hs.seen
    · rw [hstorage, haccepted]
      exact hs.storage
    · rw [hreceipts, haccepted, List.map_append, List.map_append, hs.receipts]
      rfl
  · rw [hfound] at hseen hfind
    split_ifs at hfind with hold
    have hjournal : observations ++ t'.accepted = observations ++ t.accepted ++ [o] := by
      rw [haccepted, List.append_assoc]
    refine ⟨?_, ?_, ?_, ?_⟩
    · rw [hfold, hjournal, enter, if_neg hold]
    · rw [hseen, hjournal, List.zipIdx_append, List.map_append, hs.seen]
      simp
    · rw [hstorage, hjournal, hs.storage]
      simp [storageOf, Nat.add_assoc]
    · rw [hreceipts, hjournal, List.map_append, List.map_append, map_placeOf rows [o] hknown,
        hs.receipts, List.map_singleton, List.map_singleton, placeOf_new hold, List.length_append]
      rfl

theorem Staged.batch {observations batch : List Observation} {contextual : Bool}
    (hs : Staged observations rows t)
    (h : batch.foldlM (Staging.input l contextual observations.length) t = .ok t') :
    Staged observations (rows ++ batch) t' := by
  induction batch generalizing rows t with
  | nil =>
    cases h
    rwa [List.append_nil]
  | cons o batch ih =>
    rw [List.foldlM_cons] at h
    obtain ⟨t₁, hfirst, hrest⟩ := bind_eq_ok.1 h
    rw [List.append_cons]
    exact ih (hs.input hfirst) hrest

/-! ### Both paths -/

theorem observation_eq {outcomes : List ApplyOutcome} {n index : ℕ} {outcome : ApplyOutcome}
    (houtcomes : outcomes.map ApplyOutcome.observation = List.range n)
    (h : outcomes[index]? = some outcome) : outcome.observation = index := by
  have hindex := congrArg (fun l => l[index]?) houtcomes
  simp only [List.getElem?_map, h, Option.map_some] at hindex
  obtain ⟨_, heq⟩ := List.getElem?_eq_some_iff.1 hindex.symm
  rw [← heq, List.getElem_range]

theorem map_of_mapM {α β γ : Type} {f : α → Result β} {g : β → γ} {q : α → γ}
    (hf : ∀ a b, f a = .ok b → g b = q a) {l : List α} {r : List β} (h : l.mapM f = .ok r) :
    r.map g = l.map q := by
  induction l generalizing r with
  | nil =>
    cases h
    rfl
  | cons a l ih =>
    rw [List.mapM_cons] at h
    obtain ⟨b, hb, h⟩ := bind_eq_ok.1 h
    obtain ⟨rest, hrest, h⟩ := bind_eq_ok.1 h
    cases h
    rw [List.map_cons, List.map_cons, hf a b hb, ih hrest]

theorem receipt_place {outcomes : List ApplyOutcome} {n : ℕ}
    (houtcomes : outcomes.map ApplyOutcome.observation = List.range n) (slot : ApplyOutcome ⊕ ℕ)
    (outcome : ApplyOutcome) (h : receipt outcomes slot = .ok outcome) :
    outcome.observation = Sum.elim ApplyOutcome.observation id slot := by
  cases slot with
  | inl known =>
    cases h
    rfl
  | inr index =>
    unfold receipt at h
    dsimp only at h
    split at h
    · rename_i found hindex
      cases h
      exact observation_eq houtcomes hindex
    · cases h

theorem finalReceipt_place {outcomes : List ApplyOutcome} {n : ℕ}
    (houtcomes : outcomes.map ApplyOutcome.observation = List.range n)
    (first final : ApplyOutcome) (h : finalReceipt outcomes first = .ok final) :
    final.observation = first.observation := by
  unfold finalReceipt at h
  split at h
  · cases h
    rfl
  · split at h
    · rename_i found hindex
      cases h
      exact observation_eq houtcomes hindex
    · cases h

variable {observations batch : List Observation} {receipts : List ApplyOutcome}

theorem applyIndexedBatch_ok {contextual : Bool}
    (h : (ofJournal sha256 l observations work).applyIndexedBatch sha256 batch contextual =
      .ok (receipts, s)) :
    ∃ work', s = ofJournal sha256 l (batch.foldl enter observations) work' ∧
      receipts.map ApplyOutcome.observation =
        batch.map (placeOf (batch.foldl enter observations)) := by
  obtain ⟨t₀, hexisting, h⟩ := bind_eq_ok.1 h
  obtain ⟨t, hbatch, h⟩ := bind_eq_ok.1 h
  obtain ⟨hstorage, hseen, haccepted, hreceipts⟩ := existing_run hexisting
  have hstart : Staged observations [] t₀ := by
    have hnone : t₀.accepted = [] := haccepted
    refine ⟨by rw [hnone, List.append_nil]; rfl, ?_, ?_, by rw [hreceipts]; rfl⟩
    · rw [hnone, List.append_nil, hseen]
      rfl
    · rw [hnone, List.append_nil, hstorage, List.zipIdx_map_fst]
      exact Nat.zero_add _
  have hs := hstart.batch hbatch
  rw [List.nil_append] at hs
  split_ifs at h with hempty
  · obtain ⟨receipts', hmap, h⟩ := bind_eq_ok.1 h
    cases h
    have hjournal := hs.journal
    rw [hempty, List.append_nil] at hjournal
    refine ⟨t.work.used, by rw [← hjournal]; rfl, ?_⟩
    rw [map_of_mapM (@receipt_place [] 0 rfl) hmap, hs.receipts, hs.journal]
  · obtain ⟨work', rfl, hmap⟩ := commit_ok sha256 hs.storage h
    refine ⟨work', by rw [hs.journal], ?_⟩
    rw [map_of_mapM (receipt_place (outcomes_viewOfJournal _)) hmap, hs.receipts, hs.journal]

theorem recount_run {rows : List Observation} (h : rows.foldlM Staging.recount t = .ok t') :
    t'.storage = t.storage + storageOf rows ∧ t'.receipts = t.receipts := by
  induction rows generalizing t with
  | nil =>
    cases h
    exact ⟨rfl, rfl⟩
  | cons o rows ih =>
    rw [List.foldlM_cons] at h
    obtain ⟨t₁, hfirst, hrest⟩ := bind_eq_ok.1 h
    obtain ⟨t₂, hretain, hfirst⟩ := bind_eq_ok.1 hfirst
    obtain ⟨w, -, hfirst⟩ := bind_eq_ok.1 hfirst
    obtain ⟨routes, spans, rfl⟩ := retain_ok hretain
    cases hfirst
    obtain ⟨hstorage, hreceipts⟩ := ih hrest
    refine ⟨?_, hreceipts⟩
    rw [hstorage, storageOf, storageOf, List.map_cons, List.sum_cons, Nat.add_assoc]

theorem applyOne_ok {receipt : ApplyOutcome}
    (h : (ofJournal sha256 l observations work).applyOne sha256 o = .ok (receipt, s)) :
    (∃ work', s = ofJournal sha256 l (enter observations o) work') ∧
      receipt.observation = placeOf (enter observations o) o := by
  obtain ⟨_, _, h⟩ := bind_eq_ok.1 h
  obtain ⟨_, _, h⟩ := bind_eq_ok.1 h
  obtain ⟨_, h⟩ := guard_eq_ok.1 h
  obtain ⟨_, _, h⟩ := bind_eq_ok.1 h
  obtain ⟨w, _, h⟩ := bind_eq_ok.1 h
  obtain ⟨⟨known, w'⟩, hknown, h⟩ := bind_eq_ok.1 h
  have hsought := (replayOf_ok hknown).trans (sought_eq o _ 0)
  rw [Nat.zero_add] at hsought
  change known = if observations.any (Same o ·) then _ else _ at hsought
  split_ifs at hsought with hold
  · subst hsought
    cases h
    rw [enter, if_pos hold]
    exact ⟨⟨w'.used, rfl⟩, rfl⟩
  · subst hsought
    obtain ⟨_, _, h⟩ := bind_eq_ok.1 h
    obtain ⟨_, h⟩ := guard_eq_ok.1 h
    obtain ⟨t, hrecount, h⟩ := bind_eq_ok.1 h
    obtain ⟨⟨_, s'⟩, hcommit, h⟩ := bind_eq_ok.1 h
    obtain ⟨hstorage, -⟩ := recount_run hrecount
    have hsum : ({ t with accepted := [o] } : Staging).storage =
        storageOf (observations ++ [o]) := hstorage.trans (Nat.zero_add _)
    obtain ⟨work', rfl, -⟩ := commit_ok sha256 hsum hcommit
    rw [enter, if_neg hold, placeOf_new hold]
    dsimp only at h
    split at h
    · rename_i outcome hlast
      cases h
      refine ⟨⟨work', rfl⟩, ?_⟩
      rw [List.getLast?_eq_getElem?] at hlast
      have houtcomes := outcomes_viewOfJournal (observations ++ [o])
      have hlength := congrArg List.length houtcomes
      rw [List.length_map, List.length_range, List.length_append, List.length_singleton] at hlength
      rw [observation_eq houtcomes hlast]
      exact Nat.sub_eq_of_eq_add hlength
    · cases h

theorem applyEach_ok {total total' : ℕ}
    (h : applyEach sha256 rows total (ofJournal sha256 l observations work) =
      .ok (receipts, total', s)) :
    (∃ work', s = ofJournal sha256 l (rows.foldl enter observations) work') ∧
      receipts.map ApplyOutcome.observation = rows.map (placeOf (rows.foldl enter observations)) := by
  induction rows generalizing observations work total receipts with
  | nil =>
    cases h
    exact ⟨⟨work, rfl⟩, rfl⟩
  | cons o rows ih =>
    obtain ⟨⟨receipt, s'⟩, hfirst, h⟩ := bind_eq_ok.1 h
    obtain ⟨total₁, _, h⟩ := bind_eq_ok.1 h
    obtain ⟨_, h⟩ := guard_eq_ok.1 h
    obtain ⟨⟨more, total₂, s''⟩, hrest, h⟩ := bind_eq_ok.1 h
    cases h
    obtain ⟨⟨work', rfl⟩, hplace⟩ := applyOne_ok hfirst
    obtain ⟨hs, hplaces⟩ := ih hrest
    refine ⟨hs, ?_⟩
    obtain ⟨tail, htail⟩ := foldl_enter_prefix rows (enter observations o)
    rw [List.map_cons, List.map_cons, hplaces, hplace, List.foldl_cons, htail,
      placeOf_append (any_enter observations o)]

theorem applyBatch_ok
    (h : (ofJournal sha256 l observations work).applyBatch sha256 batch = .ok (receipts, s)) :
    (∃ work', s = ofJournal sha256 l (batch.foldl enter observations) work') ∧
      receipts.map ApplyOutcome.observation =
        batch.map (placeOf (batch.foldl enter observations)) := by
  obtain ⟨_, _, h⟩ := bind_eq_ok.1 h
  dsimp only at h
  split_ifs at h with hempty
  · cases h
    subst hempty
    exact ⟨⟨0, rfl⟩, rfl⟩
  · obtain ⟨⟨receipts', total, s'⟩, heach, h⟩ := bind_eq_ok.1 h
    obtain ⟨finals, hfinals, h⟩ := bind_eq_ok.1 h
    cases h
    obtain ⟨⟨work', rfl⟩, hplaces⟩ := applyEach_ok heach
    refine ⟨⟨total, rfl⟩, ?_⟩
    rw [← hplaces]
    exact map_of_mapM (finalReceipt_place (outcomes_viewOfJournal _)) hfinals
  · obtain ⟨work', hs, hplaces⟩ := applyIndexedBatch_ok h
    exact ⟨⟨work', hs⟩, hplaces⟩

theorem applyBatches_ok {batches : List (List Observation)}
    (h : applyBatches sha256 batches (ofJournal sha256 l observations work) =
      .ok (receipts, s)) :
    (∃ work', s = ofJournal sha256 l (batches.flatten.foldl enter observations) work') ∧
      receipts.map ApplyOutcome.observation =
        batches.flatten.map (placeOf (batches.flatten.foldl enter observations)) := by
  induction batches generalizing observations work receipts with
  | nil =>
    cases h
    exact ⟨⟨work, rfl⟩, rfl⟩
  | cons batch batches ih =>
    obtain ⟨⟨first, s'⟩, hfirst, h⟩ := bind_eq_ok.1 h
    obtain ⟨⟨more, s''⟩, hrest, h⟩ := bind_eq_ok.1 h
    cases h
    obtain ⟨⟨work', rfl⟩, hplaces⟩ := applyBatch_ok hfirst
    obtain ⟨hs, hmore⟩ := ih hrest
    obtain ⟨tail, htail⟩ := foldl_enter_prefix batches.flatten (batch.foldl enter observations)
    rw [List.flatten_cons, List.foldl_append]
    refine ⟨hs, ?_⟩
    rw [List.map_append, List.map_append, hplaces, hmore, htail,
      map_placeOf batch tail (any_foldl_enter batch observations)]

/-- The state is that of the journal of all rows, each at its first place, in whatever batches they
came, and every receipt names the place of its row. -/
theorem batches_exact {batches : List (List Observation)} {s₀ : CandidateState}
    (hnew : new sha256 l = .ok s₀) (h : applyBatches sha256 batches s₀ = .ok (receipts, s)) :
    (∃ work, s = ofJournal sha256 l (journalOf batches.flatten) work) ∧
      receipts.map ApplyOutcome.observation =
        batches.flatten.map (placeOf (journalOf batches.flatten)) := by
  obtain rfl := new_ok sha256 hnew
  exact applyBatches_ok h

open Feed.FeedReplay in
def sampleRun : Result (List (List Observation) × CandidateState × List ApplyOutcome ×
    CandidateState) := do
  let o ← sampleRead sampleMembers
  let s₀ ← new sampleDigest Limits.default
  let (receipts, s) ← applyBatches sampleDigest [[o], [o]] s₀
  return ([[o], [o]], s₀, receipts, s)

open Feed.FeedReplay in
theorem batches_exact_sample : ∃ batches s₀ receipts s,
    new sampleDigest Limits.default = .ok s₀ ∧
    applyBatches sampleDigest batches s₀ = .ok (receipts, s) ∧
    (∃ work, s = ofJournal sampleDigest Limits.default (journalOf batches.flatten) work) ∧
    receipts.map ApplyOutcome.observation =
      batches.flatten.map (placeOf (journalOf batches.flatten)) := by
  have hok : sampleRun.toOption.isSome = true := by decide +kernel
  cases hrun : sampleRun with
  | error e =>
    rw [hrun] at hok
    cases hok
  | ok r =>
    obtain ⟨o, -, hrun⟩ := bind_eq_ok.1 hrun
    obtain ⟨s₀, hnew, hrun⟩ := bind_eq_ok.1 hrun
    obtain ⟨⟨receipts, s⟩, happly, -⟩ := bind_eq_ok.1 hrun
    exact ⟨_, s₀, receipts, s, hnew, happly, batches_exact hnew happly⟩

end CandidateState

end PcapEvidence.Bgp.State
