import PcapEvidence.StreamRun
import PcapEvidence.Words

/-!
# The sweep with its indices checked

`finish` indexes segments by number and cuts their bytes between casts of signed offsets. Here each
of these operators stops the program outside its range, as in the source.
-/

namespace PcapEvidence.StreamAssembler

open OrderedMap IntervalSweep Words SortedVec

def rawWords (s : Segment) (a b : ℤ) : Words (List U8) :=
  slice s.bytes.data (asUsize (a - s.start)) (asUsize (b - s.start))

structure Gathered where
  conflict : Bool
  packets : List PacketId
  duplicates : ℕ

def observeOther (segments : List Segment) (a b : ℤ) (chosen : ℕ) (selected : List U8)
    (o : Gathered) (i : ℕ) : Words Gathered := do
  let other ← index segments i
  let bytes ← rawWords other a b
  .ok {
    conflict := o.conflict || bytes ≠ selected
    packets := o.packets ++ rawPackets other a b
    duplicates := o.duplicates + if i ≠ chosen ∧ bytes = selected then bytes.length else 0 }

def Gathered.settle (o : Gathered) (a b : ℤ) (result : StreamResult) : StreamResult := { result with
  duplicateObservedBytes := o.duplicates
  conflicts := if o.conflict then result.conflicts ++ [⟨a, b, sortDedup o.packets⟩]
    else result.conflicts }

/-- The body of the sweep with its indices checked. -/
def windowWords (limit : ℕ) (policy : OverlapPolicy) (segments : List Segment) (a b : ℤ)
    (active : List ℕ) (result : StreamResult) : Words StreamResult :=
  if active.isEmpty then .ok { result with gaps := result.gaps ++ [⟨a, b, "missing_capture_bytes"⟩] }
  else do
    let chosen ← orElse (choose policy active) (Error.limit "sweep")
    let segment ← index segments chosen
    let selected ← rawWords segment a b
    let o ← active.foldlM (observeOther segments a b chosen selected)
      ⟨false, [], result.duplicateObservedBytes⟩
    let result := o.settle a b result
    if o.conflict ∧ policy = .rejectConflict then
      .ok { result with gaps := result.gaps ++ [⟨a, b, "conflicting_capture_bytes"⟩] }
    else do
      let bytes ← ofResult
        (segment.bytes.slice (asUsize (a - segment.start)) (asUsize (b - segment.start)))
      let chunks ← ofResult (pushChunk limit result.chunks a bytes)
      .ok { result with chunks := chunks }

def sweepWords (events : Events) (body : ℤ → ℤ → List ℕ → StreamResult → Words StreamResult) :
    List ℤ → OrdSet ℕ → StreamResult → Words StreamResult
  | a :: b :: rest, active, result => do
    let event ← orStop (events.get? a)
    let active := advance active event
    let result ← body a b active.keys result
    sweepWords events body (b :: rest) active result
  | _, _, result => .ok result

def finishWords (s : StreamAssembler) (policy : OverlapPolicy) : Words StreamResult := do
  ofResult s.limits.validate
  if s.segments.isEmpty then .ok { s.blank with gaps := s.unobserved }
  else if s.fin.any (fun stop => s.max > stop) then fail beyondFin
  else
    let events := eventsOf (intervals s.segments) s.marks
    sweepWords events (windowWords s.limits.maxStreamSpan policy s.segments) events.keys .empty s.blank

section Window

variable {segments : List Segment} {limit : ℕ} {low high a b : ℤ}

theorem rawWords_eq (hb : Bounds segments limit low high) (hel : Elementary (intervals segments) a b)
    {s : Segment} (hs : s ∈ segments) (hcov : s.Covers a) :
    rawWords s a b = .ok (raw s a b) ∧ asUsize (a - s.start) = (a - s.start).toNat ∧
      asUsize (b - s.start) = (b - s.start).toNat := by
  obtain ⟨hab, hel⟩ := hel
  have hstop : b ≤ s.stop := (hel _ (List.mem_map_of_mem hs)).2.1 hcov.2
  obtain ⟨hlow, hhigh⟩ := hb.range s hs
  obtain ⟨hstart, -⟩ := hcov
  have hspan := hb.span
  have hword : (limit : ℤ) < 2 ^ 64 := by
    have := hb.word
    unfold wordBound at this
    exact_mod_cast this
  have ha : asUsize (a - s.start) = (a - s.start).toNat := asUsize_of (by omega) (by omega)
  have hbw : asUsize (b - s.start) = (b - s.start).toNat := asUsize_of (by omega) (by omega)
  rw [s.stop_eq] at hstop
  refine ⟨?_, ha, hbw⟩
  rw [rawWords, ha, hbw, slice_of (by omega) (by omega), raw]

theorem segmentAt_mem {i : ℕ} (hi : i ∈ covering (intervals segments) a) :
    segments[i]? = some (segmentAt segments i) ∧ segmentAt segments i ∈ segments ∧
      (segmentAt segments i).Covers a := by
  obtain ⟨iv, hiv, hcov⟩ := (mem_covering _ _ _).1 hi
  rw [intervals, List.getElem?_map] at hiv
  obtain ⟨s, hs, rfl⟩ := Option.map_eq_some_iff.1 hiv
  have hat : segmentAt segments i = s := by rw [segmentAt, List.getD_eq_getElem?_getD, hs]; rfl
  rw [hat]
  exact ⟨hs, List.mem_of_getElem? hs, hcov⟩

/-- What the accounting of a window states, on top of `o`. -/
def gathered (segments : List Segment) (a b : ℤ) (active : List ℕ) (chosen : ℕ) (selected : List U8)
    (o : Gathered) : Gathered where
  conflict := o.conflict || active.any (fun i => raw (segmentAt segments i) a b ≠ selected)
  packets := o.packets ++ active.flatMap (fun i => rawPackets (segmentAt segments i) a b)
  duplicates := o.duplicates +
    ((active.filter (fun i => i ≠ chosen ∧ raw (segmentAt segments i) a b = selected)).map
      (fun i => (raw (segmentAt segments i) a b).length)).sum

theorem account_gathered (segments : List Segment) (a b : ℤ) (active : List ℕ) (chosen : ℕ)
    (result : StreamResult) :
    let o := gathered segments a b active chosen (raw (segmentAt segments chosen) a b)
      ⟨false, [], result.duplicateObservedBytes⟩
    account segments a b active chosen result = (o.conflict, o.settle a b result) := by
  simp only [account, gathered, Gathered.settle, Bool.false_or, List.nil_append]

theorem foldlM_observeOther (hb : Bounds segments limit low high)
    (hel : Elementary (intervals segments) a b) {active : List ℕ}
    (hactive : ∀ i ∈ active, i ∈ covering (intervals segments) a) (chosen : ℕ) (selected : List U8)
    (o : Gathered) : active.foldlM (observeOther segments a b chosen selected) o =
      .ok (gathered segments a b active chosen selected o) := by
  induction active generalizing o with
  | nil => simp [pure, Except.pure, gathered]
  | cons i rest ih =>
    obtain ⟨hat, hmem, hcov⟩ := segmentAt_mem (hactive i (by simp))
    have hraw := (rawWords_eq hb hel hmem hcov).1
    rw [List.foldlM_cons, observeOther, index_of hat, ok_bind, hraw, ok_bind, ok_bind,
      ih fun j hj => hactive j (by simp [hj])]
    unfold gathered
    congr 2
    · rw [List.any_cons, Bool.or_assoc]
    · rw [List.flatMap_cons, List.append_assoc]
    · rw [List.filter_cons]
      by_cases hrep : i ≠ chosen ∧ raw (segmentAt segments i) a b = selected
      · rw [if_pos hrep, if_pos (by simpa using hrep), List.map_cons, List.sum_cons, Nat.add_assoc]
      · rw [if_neg hrep, if_neg (by simpa using hrep), Nat.add_zero]

theorem windowWords_eq (hb : Bounds segments limit low high)
    (hel : Elementary (intervals segments) a b) (policy : OverlapPolicy) (result : StreamResult) :
    windowWords limit policy segments a b (covering (intervals segments) a) result =
      ofResult (window limit policy segments a b (covering (intervals segments) a) result) := by
  unfold windowWords window
  cases hc : choose policy (covering (intervals segments) a) with
  | none =>
    rw [choose_eq_none.1 hc]
    rfl
  | some chosen =>
    have hchosen := choose_mem hc
    obtain ⟨hat, hmem, hcov⟩ := segmentAt_mem hchosen
    obtain ⟨hraw, ha, hbw⟩ := rawWords_eq hb hel hmem hcov
    have hne : (covering (intervals segments) a).isEmpty = false := by
      rw [List.isEmpty_eq_false_iff]
      exact List.ne_nil_of_mem hchosen
    rw [hne, if_neg Bool.false_ne_true, orElse, ok_bind, index_of hat, ok_bind, hraw, ok_bind,
      foldlM_observeOther hb hel (fun _ hi => hi), ok_bind, ha, hbw]
    dsimp only
    rw [account_gathered]
    generalize gathered segments a b (covering (intervals segments) a) chosen
      (raw (segmentAt segments chosen) a b) ⟨false, [], result.duplicateObservedBytes⟩ = o
    dsimp only
    by_cases hconflict : o.conflict = true ∧ policy = .rejectConflict
    · rw [if_pos hconflict, if_pos hconflict]
      rfl
    · rw [if_neg hconflict, if_neg hconflict]
      cases (segmentAt segments chosen).bytes.slice
          (a - (segmentAt segments chosen).start).toNat
          (b - (segmentAt segments chosen).start).toNat with
      | error e => rfl
      | ok bytes =>
        rw [ofResult_ok, ok_bind]
        dsimp only
        cases pushChunk limit (o.settle a b result).chunks a bytes <;> rfl

end Window

theorem sweepWords_eq (events : Events)
    (body : ℤ → ℤ → List ℕ → StreamResult → Words StreamResult) {boundaries : List ℤ}
    (hmem : ∀ p ∈ boundaries, p ∈ events.keys) (active : OrdSet ℕ) (result : StreamResult) :
    sweepWords events body boundaries active result = sweep events body boundaries active result := by
  induction boundaries generalizing active result with
  | nil => rfl
  | cons a rest ih =>
    cases rest with
    | nil => rfl
    | cons b rest =>
      obtain ⟨event, hevent⟩ := (OrdMap.mem_keys _ _).1 (hmem a (by simp))
      have hat : eventAt events a = event := by rw [eventAt, hevent]; rfl
      rw [sweepWords, sweep, hevent, orStop, ok_bind, hat]
      dsimp only
      cases body a b (advance active event).keys result with
      | error e => rfl
      | ok next => exact ih (fun p hp => hmem p (by simp [hp])) _ next

theorem scan_ofResult {intervals : List Interval} {bodyWords : ℤ → ℤ → StreamResult → Words StreamResult}
    {body : ℤ → ℤ → StreamResult → Result StreamResult}
    (h : ∀ a b result, Elementary intervals a b →
      bodyWords a b result = ofResult (body a b result)) {a : ℤ} {rest : List ℤ}
    (hc : Complete intervals a (a :: rest)) (result : StreamResult) :
    scan bodyWords (a :: rest) result = ofResult (scan body (a :: rest) result) := by
  induction rest generalizing a result with
  | nil => rfl
  | cons b rest ih =>
    rw [scan, scan, h a b result hc.elementary]
    cases body a b result with
    | error e => rfl
    | ok next => exact ih hc.tail next

/-- `finish` never leaves a slice: the checked computation is its result. -/
theorem Placed.finishWords_eq {s : StreamAssembler} (h : Placed s) (policy : OverlapPolicy) :
    s.finishWords policy = ofResult (s.finish policy) := by
  unfold finishWords finish
  cases s.limits.validate with
  | error e => rfl
  | ok u =>
    rw [ofResult_ok, ok_bind]
    change _ = ofResult (if _ then _ else _)
    by_cases hempty : s.segments.isEmpty = true
    · rw [if_pos hempty, if_pos hempty]
      rfl
    · rw [if_neg hempty, if_neg hempty]
      by_cases hfin : s.fin.any (fun stop => s.max > stop) = true
      · rw [if_pos hfin, if_pos hfin]
        rfl
      · rw [if_neg hfin, if_neg hfin]
        obtain ⟨a, rest, hbounds, hc⟩ := boundaries_complete (s := s) (by simpa using hempty)
        rw [boundaries] at hbounds
        dsimp only
        rw [sweepWords_eq _ _ fun _ hp => hp, sweep_eq_scan h.bounds.start_lt,
          sweep_eq_scan h.bounds.start_lt, hbounds]
        exact scan_ofResult (fun a b result hel => windowWords_eq h.bounds hel policy result) hc _

end PcapEvidence.StreamAssembler
