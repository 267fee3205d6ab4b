import PcapEvidence.BgpCandidateState
import PcapEvidence.BgpCandidateSpec

/-!
# A candidate state is a function of its journal

An accepted row extends the journal by one and its receipt names the new row. View, snapshot and
retained size follow from the journal alone, whatever the batches it was received in.
-/

namespace PcapEvidence.Bgp.State

open Json History Candidate Import FiniteMap

namespace CandidateState

variable (sha256 : List U8 → Digest)

def storageOf (observations : List Observation) : ℕ :=
  (observations.map fun o => o.encoded.utf8ByteSize).sum

def viewOfJournal (observations : List Observation) : View :=
  viewOf (observations.map Observation.reduced)

def snapshotOf (observations : List Observation) : String :=
  (snapshotJson sha256 observations (viewOfJournal observations)).encode

def ofJournal (l : Limits) (observations : List Observation) (work : ℕ) : CandidateState where
  limits := l
  observations := observations
  view := viewOfJournal observations
  encoded := snapshotOf sha256 observations
  retained := storageOf observations + (snapshotOf sha256 observations).utf8ByteSize
  lastWork := work

section Staging

variable {s t : Staging} {o : Observation}

def seenOf (x : Observation × ℕ) : Seen := ⟨x.1.identity, x.1.encoded, x.2⟩

theorem add_ok {a b r : ℕ} {field : String} (h : add a b field = .ok r) : r = a + b := by
  obtain ⟨_, h⟩ := guard_eq_ok.1 h
  exact (Except.ok.inj h).symm

theorem retain_ok (h : s.retain o = .ok t) :
    ∃ routes spans, t = { s with
      storage := s.storage + o.encoded.utf8ByteSize, routes := routes, spans := spans } := by
  obtain ⟨storage, hstorage, h⟩ := bind_eq_ok.1 h
  obtain ⟨routes, _, h⟩ := bind_eq_ok.1 h
  obtain ⟨spans, _, h⟩ := bind_eq_ok.1 h
  cases h
  exact ⟨routes, spans, by rw [add_ok hstorage]⟩

theorem existing_ok {x : Observation × ℕ} (h : s.existing x = .ok t) :
    t.storage = s.storage + x.1.encoded.utf8ByteSize ∧ t.seen = s.seen ++ [seenOf x] ∧
      t.accepted = s.accepted ∧ t.receipts = s.receipts := by
  obtain ⟨s', hretain, h⟩ := bind_eq_ok.1 h
  obtain ⟨work, _, h⟩ := bind_eq_ok.1 h
  obtain ⟨routes, spans, rfl⟩ := retain_ok hretain
  cases h
  exact ⟨rfl, rfl, rfl, rfl⟩

/-- The rows of the journal are charged and remembered. -/
theorem existing_run {l : List (Observation × ℕ)} (h : l.foldlM Staging.existing s = .ok t) :
    t.storage = s.storage + storageOf (l.map Prod.fst) ∧ t.seen = s.seen ++ l.map seenOf ∧
      t.accepted = s.accepted ∧ t.receipts = s.receipts := by
  induction l generalizing s with
  | nil =>
    cases h
    simp [storageOf]
  | cons x l ih =>
    rw [List.foldlM_cons] at h
    obtain ⟨s', hfirst, h⟩ := bind_eq_ok.1 h
    obtain ⟨hstorage, hseen, haccepted, hreceipts⟩ := existing_ok hfirst
    obtain ⟨hstorage', hseen', haccepted', hreceipts'⟩ := ih h
    refine ⟨?_, ?_, haccepted'.trans haccepted, hreceipts'.trans hreceipts⟩
    · rw [hstorage', hstorage, List.map_cons, storageOf, storageOf, List.map_cons, List.sum_cons,
        Nat.add_assoc]
    · rw [hseen', hseen, List.append_assoc, List.map_cons, List.singleton_append]

theorem transition_ok {c : ImportContext}
    {key : Candidate.SessionKey} (h : s.transition o c key = .ok t) :
    ∃ generations, t = { s with generations := generations } := by
  unfold Staging.transition at h
  split at h
  · split at h
    · cases h
      exact ⟨_, rfl⟩
    · cases h
  · cases h
  · obtain ⟨_, h⟩ := guard_eq_ok.1 h
    cases h
    exact ⟨_, rfl⟩
  · cases h
    exact ⟨_, rfl⟩

theorem accept_ok {l : Limits} {existing : ℕ} {key : Option Candidate.SessionKey} (h : s.accept l existing key o = .ok t) :
    t.storage = s.storage + o.encoded.utf8ByteSize ∧ t.accepted = s.accepted ++ [o] ∧
      t.receipts = s.receipts ++ [.inr (existing + s.accepted.length)] := by
  unfold Staging.accept at h
  obtain ⟨_, h⟩ := guard_eq_ok.1 h
  obtain ⟨s', hretain, h⟩ := bind_eq_ok.1 h
  obtain ⟨_, h⟩ := guard_eq_ok.1 h
  obtain ⟨routes, spans, rfl⟩ := retain_ok hretain
  cases h
  split <;> exact ⟨rfl, rfl, rfl⟩

/-- A row is found in the journal, or it is appended. -/
theorem input_ok {l : Limits} {contextual : Bool} {existing : ℕ}
    (h : s.input l contextual existing o = .ok t) :
    (∃ index, s.find o = some index ∧ t.storage = s.storage ∧ t.accepted = s.accepted ∧
      t.receipts = s.receipts ++ [.inl ⟨index, .identicalReplay, []⟩]) ∨
    (s.find o = none ∧ t.storage = s.storage + o.encoded.utf8ByteSize ∧
      t.accepted = s.accepted ++ [o] ∧
      t.receipts = s.receipts ++ [.inr (existing + s.accepted.length)]) := by
  unfold Staging.input at h
  obtain ⟨_, _, h⟩ := bind_eq_ok.1 h
  obtain ⟨_, _, h⟩ := bind_eq_ok.1 h
  obtain ⟨_, h⟩ := guard_eq_ok.1 h
  obtain ⟨_, _, h⟩ := bind_eq_ok.1 h
  obtain ⟨work, _, h⟩ := bind_eq_ok.1 h
  dsimp only at h
  have hfind : ({ s with work := work } : Staging).find o = s.find o := rfl
  rw [hfind] at h
  cases hfound : s.find o with
  | some index =>
    rw [hfound] at h
    cases h
    exact Or.inl ⟨index, rfl, rfl, rfl, rfl⟩
  | none =>
    rw [hfound] at h
    refine Or.inr ⟨rfl, ?_⟩
    cases contextual with
    | false =>
      obtain ⟨hstorage, haccepted, hreceipts⟩ := accept_ok (s := { s with work := work }) h
      exact ⟨hstorage, haccepted, hreceipts⟩
    | true =>
      obtain ⟨⟨c, key⟩, _, h⟩ := bind_eq_ok.1 h
      obtain ⟨s', htransition, h⟩ := bind_eq_ok.1 h
      obtain ⟨generations, rfl⟩ := transition_ok htransition
      obtain ⟨hstorage, haccepted, hreceipts⟩ := accept_ok h
      exact ⟨hstorage, haccepted, hreceipts⟩

end Staging

section Journals

variable {l : Limits}

theorem new_ok {s : CandidateState} (h : new sha256 l = .ok s) : s = ofJournal sha256 l [] 0 := by
  obtain ⟨_, _, h⟩ := bind_eq_ok.1 h
  obtain ⟨encoded, hencoded, h⟩ := bind_eq_ok.1 h
  obtain ⟨_, h⟩ := guard_eq_ok.1 h
  obtain rfl := encodeBounded_ok hencoded
  cases h
  simp only [ofJournal, storageOf, List.map_nil, List.sum_nil, Nat.zero_add]
  rfl

theorem outcomes_viewOfJournal (observations : List Observation) :
    (viewOfJournal observations).outcomes.map ApplyOutcome.observation =
      List.range observations.length := by
  rw [viewOfJournal, viewOf, outcomes_indices, List.zipIdx_map_snd, List.length_map]
  exact List.range_eq_range'.symm

theorem commit_ok {observations : List Observation} {work : ℕ} {t : Staging}
    {receipts : List ApplyOutcome} {s : CandidateState}
    (hstorage : t.storage = storageOf (observations ++ t.accepted))
    (h : (ofJournal sha256 l observations work).commit sha256 t = .ok (receipts, s)) :
    ∃ work', s = ofJournal sha256 l (observations ++ t.accepted) work' ∧
      t.receipts.mapM (receipt (viewOfJournal (observations ++ t.accepted)).outcomes) =
        .ok receipts := by
  obtain ⟨_, h⟩ := guard_eq_ok.1 h
  obtain ⟨⟨view, used⟩, hreduce, h⟩ := bind_eq_ok.1 h
  obtain ⟨used', _, h⟩ := bind_eq_ok.1 h
  obtain ⟨encoded, hencoded, h⟩ := bind_eq_ok.1 h
  obtain ⟨retained, hretained, h⟩ := bind_eq_ok.1 h
  obtain ⟨receipts', hreceipts, h⟩ := bind_eq_ok.1 h
  have hview : view = viewOfJournal (observations ++ t.accepted) := reduce_ok hreduce
  cases h
  subst hview
  refine ⟨used'.used, ?_, hreceipts⟩
  rw [add_ok hretained, hstorage, encodeBounded_ok hencoded]
  rfl

theorem apply_ok {observations : List Observation} {work : ℕ} {o : Observation}
    {receipt : ApplyOutcome} {t : CandidateState}
    (h : (ofJournal sha256 l observations work).apply sha256 o = .ok (receipt, t))
    (hnew : ∀ p ∈ observations, p.identity ≠ o.identity) :
    receipt.observation = observations.length ∧
      ∃ work', t = ofJournal sha256 l (observations ++ [o]) work' := by
  obtain ⟨_, h⟩ := guard_eq_ok.1 h
  obtain ⟨⟨receipts, t'⟩, happly, h⟩ := bind_eq_ok.1 h
  obtain ⟨s, hexisting, happly⟩ := bind_eq_ok.1 happly
  obtain ⟨s', hinput, happly⟩ := bind_eq_ok.1 happly
  rw [List.foldlM_cons] at hinput
  obtain ⟨s'', hrow, hnil⟩ := bind_eq_ok.1 hinput
  obtain rfl : s'' = s' := Except.ok.inj hnil
  obtain ⟨hstorage, hseen, haccepted, hreceipts⟩ := existing_run hexisting
  rw [List.zipIdx_map_fst] at hstorage
  have hfind : s.find o = none := by
    rw [Staging.find, hseen, Option.map_eq_none_iff, List.find?_eq_none]
    intro x hx hsame
    obtain ⟨p, hp, rfl⟩ := List.mem_map.1 hx
    have hmem : p.1 ∈ observations := by
      rw [← List.zipIdx_map_fst 0 observations]
      exact List.mem_map_of_mem hp
    rw [Bool.and_eq_true] at hsame
    exact hnew p.1 hmem (of_decide_eq_true hsame.1)
  rcases input_ok hrow with ⟨index, hfound, _⟩ | ⟨_, hstorage', haccepted', hreceipts'⟩
  · rw [hfind] at hfound
    cases hfound
  have hrows : s''.accepted = [o] := by
    rw [haccepted', haccepted]
    rfl
  have hreceipt : s''.receipts = [.inr observations.length] := by
    rw [hreceipts', hreceipts, haccepted]
    rfl
  have hnonempty : s''.accepted ≠ [] := by
    rw [hrows]
    exact List.cons_ne_nil o []
  rw [if_neg hnonempty] at happly
  have hsum : s''.storage = storageOf (observations ++ s''.accepted) := by
    rw [hrows, hstorage', hstorage, storageOf, storageOf, List.map_append, List.sum_append,
      List.map_singleton, List.sum_singleton]
    exact congrArg (· + o.encoded.utf8ByteSize) (Nat.zero_add _)
  obtain ⟨work', rfl, hreceived⟩ := commit_ok sha256 hsum happly
  rw [hreceipt, hrows] at hreceived
  rw [List.mapM_cons, List.mapM_nil] at hreceived
  obtain ⟨first, hfirst, hreceived⟩ := bind_eq_ok.1 hreceived
  cases hreceived
  cases h
  refine ⟨?_, work', by rw [hrows]⟩
  have houtcomes := outcomes_viewOfJournal (observations ++ [o])
  unfold CandidateState.receipt at hfirst
  dsimp only at hfirst
  split at hfirst
  · rename_i outcome houtcome
    cases hfirst
    have hindex := congrArg (fun l => l[observations.length]?) houtcomes
    simp only [List.getElem?_map, houtcome, List.length_append, List.length_singleton,
      Option.map_some] at hindex
    rw [List.getElem?_range (by omega)] at hindex
    exact Option.some.inj hindex
  · cases hfirst

end Journals

end CandidateState
end PcapEvidence.Bgp.State
