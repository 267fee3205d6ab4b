import PcapEvidence.HistorySorted

/-!
# The extent of a direction

The rows of one direction of a generation stand together in the sorted index. The scan starts at
the cut of the search and stops at the first row of another direction, so it meets all of them, or
it reports that there are more than the caller allows.
-/

namespace PcapEvidence.History

namespace Row

def Belongs (generation : Digest) (direction : U8) (r : Row) : Prop :=
  r.generation = generation ∧ r.direction = direction

instance (generation : Digest) (direction : U8) : DecidablePred (Belongs generation direction) :=
  fun _ => inferInstanceAs (Decidable (_ ∧ _))

end Row

/-- An extent that covers one more row. -/
def widen (found : Option (ℤ × ℤ)) (r : Row) : Option (ℤ × ℤ) :=
  match found with
  | some (a, b) => some (min a r.start, max b r.stop)
  | none => some (r.start, r.stop)

def Index.extentFrom (x : Index) (generation : Digest) (direction : U8) (maxRows : U64) :
    ℕ → ℕ → ℕ → Option (ℤ × ℤ) → Result (Option (ℤ × ℤ))
  | 0, _, _, found => .ok found
  | fuel + 1, position, scanned, found =>
    if position < x.count then do
      let row ← x.at position
      if row.generation ≠ generation ∨ row.direction ≠ direction then .ok found
      else if scanned + 1 > maxRows.toNat then .error (Error.limit "extent_scan")
      else
        extentFrom x generation direction maxRows fuel (position + 1) (scanned + 1)
          (widen found row)
    else .ok found

def SealedHistory.extent (h : SealedHistory) (generation : Digest) (direction : U8)
    (maxRows : U64) : Result (Option (ℤ × ℤ)) :=
  if direction.toNat > 1 ∨ maxRows = 0 then .error (Error.limit "extent_scan")
  else do
    let position ← h.index.lowerBound generation direction (-2 ^ 63)
    h.index.extentFrom generation direction maxRows h.index.count position 0 none

def ownRows (generation : Digest) (direction : U8) (rows : List Row) : List Row :=
  rows.filter (Row.Belongs generation direction ·)

def Spans (rows : List Row) : Option (ℤ × ℤ) → Prop
  | none => rows = []
  | some (a, b) => IsLeast {v | ∃ r ∈ rows, r.start = v} a ∧
      IsGreatest {v | ∃ r ∈ rows, r.stop = v} b

theorem Spans.unique {rows : List Row} {found found' : Option (ℤ × ℤ)} (h : Spans rows found)
    (h' : Spans rows found') : found = found' := by
  match found, found' with
  | none, none => rfl
  | some (a, b), some (a', b') => rw [h.1.unique h'.1, h.2.unique h'.2]
  | none, some (a, b) =>
    obtain ⟨r, hr, -⟩ := h'.1.1
    rw [show rows = [] from h] at hr
    cases hr
  | some (a, b), none =>
    obtain ⟨r, hr, -⟩ := h.1.1
    rw [show rows = [] from h'] at hr
    cases hr

theorem Spans.widen {rows : List Row} {found : Option (ℤ × ℤ)} (h : Spans rows found) (r : Row) :
    Spans (rows ++ [r]) (widen found r) := by
  match found with
  | none =>
    obtain rfl : rows = [] := h
    simp [History.widen, Spans, IsLeast, IsGreatest, lowerBounds, upperBounds]
  | some (a, b) =>
    obtain ⟨⟨⟨ra, hra, rfl⟩, hleast⟩, ⟨rb, hrb, rfl⟩, hgreatest⟩ := h
    refine ⟨⟨?_, ?_⟩, ?_, ?_⟩
    · rcases min_choice ra.start r.start with hmin | hmin
      · exact ⟨ra, by simp [hra], hmin.symm⟩
      · exact ⟨r, by simp, hmin.symm⟩
    · rintro _ ⟨s, hs, rfl⟩
      rcases List.mem_append.1 hs with hs | hs
      · exact (min_le_left _ _).trans (hleast ⟨s, hs, rfl⟩)
      · rw [List.mem_singleton.1 hs]
        exact min_le_right _ _
    · rcases max_choice rb.stop r.stop with hmax | hmax
      · exact ⟨rb, by simp [hrb], hmax.symm⟩
      · exact ⟨r, by simp, hmax.symm⟩
    · rintro _ ⟨s, hs, rfl⟩
      rcases List.mem_append.1 hs with hs | hs
      · exact (hgreatest ⟨s, hs, rfl⟩).trans (le_max_left _ _)
      · rw [List.mem_singleton.1 hs]
        exact le_max_right _ _

section Scan

variable {x : Index} {rows : List Row} {generation : Digest} {direction : U8} {maxRows : U64}

theorem Index.Lists.extentFrom (hx : x.Lists rows) (hsorted : rows.Pairwise (· ≤ ·))
    {fuel position scanned : ℕ} {found : Option (ℤ × ℤ)} (hfuel : rows.length ≤ fuel + position)
    (hcut : ∀ r ∈ rows.drop position, searchKey generation direction (-2 ^ 63) ≤ r.rangeKey)
    (hscanned : scanned ≤ maxRows.toNat) :
    x.extentFrom generation direction maxRows fuel position scanned found =
      if scanned + (ownRows generation direction (rows.drop position)).length ≤ maxRows.toNat then
        .ok ((ownRows generation direction (rows.drop position)).foldl widen found)
      else .error (Error.limit "extent_scan") := by
  induction fuel generalizing position scanned found with
  | zero =>
    rw [List.drop_eq_nil_of_le (by omega)]
    exact (if_pos hscanned).symm
  | succ fuel ih =>
    rw [Index.extentFrom]
    by_cases hposition : position < rows.length
    · rw [if_pos (hx.1 ▸ hposition), hx.2 position hposition]
      change (if _ then _ else _) = _
      have hdrop := List.drop_eq_getElem_cons hposition
      by_cases hown : Row.Belongs generation direction rows[position]
      · rw [if_neg (by rw [not_or, not_not, not_not]; exact hown), hdrop, ownRows,
          List.filter_cons_of_pos (by simpa using hown), List.length_cons, List.foldl_cons]
        by_cases hmany : scanned + 1 > maxRows.toNat
        · rw [if_pos hmany, if_neg (by omega)]
        · rw [if_neg hmany, ih (by omega) (fun r hr => hcut r (hdrop ▸ List.mem_cons_of_mem _ hr))
            (by omega), Nat.add_right_comm, Nat.add_assoc, ownRows]
      · have hbehind := hsorted.drop (i := position)
        rw [hdrop, List.pairwise_cons] at hbehind
        have hnone : ownRows generation direction (rows.drop position) = [] := by
          refine List.filter_eq_nil_iff.2 fun r hr hr' => ?_
          have hmem := List.mem_of_mem_drop hr
          obtain ⟨-, hstart, hstop⟩ := hx.ok_of_mem hmem
          have hle : rows[position] ≤ r := by
            rw [hdrop] at hr
            rcases List.mem_cons.1 hr with rfl | hr
            · exact le_rfl
            · exact hbehind.1 r hr
          rw [decide_eq_true_eq] at hr'
          have hover : r.Overlaps generation direction (-2 ^ 63 - 1) (2 ^ 63) :=
            ⟨hr'.1, hr'.2, hstart.2, lt_of_lt_of_le (by norm_num) hstop.1⟩
          have hhead := hcut rows[position] (hdrop ▸ List.mem_cons_self)
          exact Row.not_overlaps_of_le hle hhead
            ((not_and_or.1 hown).imp_right Or.inl) hover
        rw [if_pos (by rw [← not_and_or]; exact hown), hnone]
        exact (if_pos hscanned).symm
    · rw [if_neg (hx.1 ▸ hposition), List.drop_eq_nil_of_le (by omega)]
      exact (if_pos hscanned).symm

theorem foldl_widen_spans (rows' : List Row) {found : Option (ℤ × ℤ)} (h : Spans rows found) :
    Spans (rows ++ rows') (rows'.foldl widen found) := by
  induction rows' generalizing rows found with
  | nil => rwa [List.append_nil]
  | cons r rows' ih =>
    have hrest := ih (h.widen r)
    rwa [List.append_assoc, List.singleton_append] at hrest

theorem before_cut_not_belongs {k : ℕ} (hx : x.Lists rows)
    (hbefore : ∀ r ∈ rows.take k, r.rangeKey < searchKey generation direction (-2 ^ 63)) :
    ownRows generation direction (rows.take k) = [] := by
  refine List.filter_eq_nil_iff.2 fun r hr hown => ?_
  rw [decide_eq_true_eq] at hown
  have hlt := (Row.rangeKey_lt_iff hown.1 hown.2).1 (hbefore r hr)
  obtain ⟨-, hstart, -⟩ := hx.ok_of_mem (List.mem_of_mem_take hr)
  exact absurd hlt (not_lt.2 hstart.1)

theorem SealedHistory.extent_eq {h : SealedHistory} (hx : h.index.Lists rows)
    (hsorted : rows.Pairwise (· ≤ ·)) : h.extent generation direction maxRows =
      if direction.toNat ≤ 1 ∧ maxRows ≠ 0 ∧
          (ownRows generation direction rows).length ≤ maxRows.toNat then
        .ok ((ownRows generation direction rows).foldl widen none)
      else .error (Error.limit "extent_scan") := by
  obtain ⟨k, hk, hle, hbefore, hbehind⟩ := @Index.lowerBound_ok _ _ generation direction (-2 ^ 63) hx
    hsorted
  have hown : ownRows generation direction (rows.drop k) = ownRows generation direction rows := by
    rw [← List.nil_append (ownRows _ _ (rows.drop k)), ← before_cut_not_belongs hx hbefore,
      ownRows, ownRows, ← List.filter_append, List.take_append_drop]
    rfl
  have hscan := @Index.Lists.extentFrom _ _ _ _ maxRows hx hsorted h.index.count k 0 none
    (by rw [hx.1]; omega) hbehind (Nat.zero_le _)
  rw [hown, Nat.zero_add] at hscan
  unfold SealedHistory.extent
  split_ifs with hbad hallowed hallowed
  · rcases hbad with hbad | hbad
    · exact absurd hallowed.1 (by omega)
    · exact absurd hbad hallowed.2.1
  · rfl
  · rw [hk]
    exact hscan.trans (if_pos hallowed.2.2)
  · rw [hk]
    exact hscan.trans (if_neg fun hfits => hallowed ⟨by omega, by tauto, hfits⟩)

/-- The extent of a direction is the least interval around its rows, if there are any, and a scan
that would need more rows than the caller allows is an error, never a shorter extent. -/
theorem SealedHistory.extent_exact {h : SealedHistory} (hx : h.index.Lists rows)
    (hsorted : rows.Pairwise (· ≤ ·)) (generation : Digest) (direction : U8) (maxRows : U64) :
    let own := ownRows generation direction rows
    let allowed := direction.toNat ≤ 1 ∧ maxRows ≠ 0 ∧ own.length ≤ maxRows.toNat
    (∀ found, h.extent generation direction maxRows = .ok found ↔ allowed ∧ Spans own found) ∧
      (¬ allowed → h.extent generation direction maxRows = .error (Error.limit "extent_scan")) := by
  intro own allowed
  have hspans : Spans own (own.foldl widen none) := foldl_widen_spans own (show Spans [] none from rfl)
  rw [extent_eq hx hsorted]
  refine ⟨fun found => ?_, fun hnot => if_neg hnot⟩
  by_cases hallowed : allowed
  · rw [if_pos hallowed]
    refine ⟨fun hfound => ⟨hallowed, Except.ok.inj hfound ▸ hspans⟩, fun ⟨_, hfound⟩ => ?_⟩
    rw [hspans.unique hfound]
  · rw [if_neg hallowed]
    exact ⟨fun hfound => (nomatch hfound), fun hfound => absurd hfound.1 hallowed⟩

theorem SealedHistory.extent_exact_sample :
    let own := ownRows noDigest 0 [payloadRow]
    let allowed := (0 : U8).toNat ≤ 1 ∧ (9 : U64) ≠ 0 ∧ own.length ≤ (9 : U64).toNat
    (∀ found, payloadHistory.extent noDigest 0 9 = .ok found ↔ allowed ∧ Spans own found) ∧
      (¬ allowed → payloadHistory.extent noDigest 0 9 = .error (Error.limit "extent_scan")) :=
  extent_exact payload_lists (List.pairwise_singleton _ _) noDigest 0 9

theorem Spans.perm {rows' : List Row} (h : rows.Perm rows') {found : Option (ℤ × ℤ)}
    (hspans : Spans rows found) : Spans rows' found := by
  match found with
  | none =>
    obtain rfl : rows = [] := hspans
    exact List.nil_perm.1 h
  | some (a, b) =>
    simp only [Spans, h.mem_iff] at hspans
    exact hspans

end Scan

/-- Queries and extents speak of these placements, in whatever order. -/
def SealedHistory.Answers (h : SealedHistory) (rows : List Row) : Prop :=
  ∀ (sha256 : List U8 → Digest) (generation : Digest) (direction : U8),
    (∀ start stop observations pieces,
      h.query sha256 generation direction start stop = .ok (observations, pieces) →
      SortedRanges.Tiles (pieces.map fun p => (p.start, p.stop)) start stop ∧
      (observations.map (·.row)).Perm
        (rows.filter (Row.Overlaps generation direction start stop))) ∧
    ∀ maxRows found, h.extent generation direction maxRows = .ok found →
      Spans (ownRows generation direction rows) found

namespace RangeSort

open Method

variable {τ : Type} {check : Method τ Error Unit} {fuel entries fanIn : ℕ} {w : Workspace τ}

theorem sorted_index_answers (hcheck : ∀ g, (check g).1 = .ok ())
    (hentries : 2 ≤ entries ∧ entries ≤ 1000000) (hfan : 2 ≤ fanIn ∧ fanIn ≤ 64)
    {rows : List Row} {file : List U8} (hrange : ∀ r ∈ rows, r.InRange)
    (hencode : Encoder.all Row.encode rows = .ok file) (hplacements : w.placements = some file)
    (hranges : w.ranges = none) (hruns : w.runs = none)
    (hquota : w.quota.used + file.length ≤ w.quota.maximum) (hmaximum : w.quota.maximum < wordBound)
    (hfuel : rows.length < fuel) :
    ∃ w' sorted x, sortChecked check fuel entries fanIn w = (.ok rows.length, w') ∧
      w'.ranges = some sorted ∧ Index.open sorted = .ok x ∧
      ∀ h : SealedHistory, h.index = x → h.Answers rows := by
  obtain ⟨hvalid, rfl⟩ := all_encode_iff.1 hencode
  have hlength := length_rowBytes hvalid
  have hperm : (rows.insertionSort (· ≤ ·)).Perm rows := List.perm_insertionSort _ _
  have hsorted : Encoder.all Row.encode (rows.insertionSort (· ≤ ·)) =
      .ok (rowBytes (rows.insertionSort (· ≤ ·))) :=
    all_encode_iff.2 ⟨fun r hr => hvalid r (hperm.mem_iff.1 hr), rfl⟩
  have hsize := length_rowBytes fun r hr => hvalid r (hperm.mem_iff.1 hr)
  rw [hperm.length_eq] at hsize
  rw [hlength] at hquota
  obtain ⟨total, w', hrun, rfl, hw'⟩ := (succeeds_sortChecked hcheck hentries hfan
    (fun r hr => ⟨hvalid r hr, hrange r hr⟩) hfuel hplacements hranges hruns hquota
    hmaximum).exists_ok
  obtain ⟨x, hopen, hx⟩ := Index.lists_of_encode
    (fun r hr => hrange r (hperm.mem_iff.1 hr)) hsorted (by omega)
  refine ⟨w', _, x, hrun, hw'.ranges, hopen, ?_⟩
  rintro h rfl sha256 generation direction
  have hpairs : (rows.insertionSort (· ≤ ·)).Pairwise (· ≤ ·) := List.pairwise_insertionSort _ _
  refine ⟨fun start stop observations pieces hquery => ?_, fun maxRows found hfound => ?_⟩
  · obtain ⟨htiles, hrows, -⟩ := SealedHistory.query_ok hx hpairs hquery
    exact ⟨htiles, hrows ▸ hperm.filter _⟩
  · rw [SealedHistory.extent_eq hx hpairs] at hfound
    split_ifs at hfound
    cases hfound
    exact (foldl_widen_spans _ (show Spans [] none from rfl)).perm (hperm.filter _)

theorem sorted_index_answers_sample : ∃ w' sorted x,
    sortChecked (pure ()) 6 2 2 pairWorkspace = (.ok 5, w') ∧
    w'.ranges = some sorted ∧ Index.open sorted = .ok x ∧
    ∀ h : SealedHistory, h.index = x → h.Answers pairRows := by
  have hvalid : ∀ r ∈ pairRows, r.Valid := by decide
  have hquota : pairWorkspace.quota.used + (rowBytes pairRows).length ≤
      pairWorkspace.quota.maximum := by
    rw [length_rowBytes hvalid]
    decide
  exact sorted_index_answers (fun _ => rfl) (by decide) (by decide) (by decide)
    (all_encode_iff.2 ⟨hvalid, rfl⟩) rfl rfl rfl hquota (by decide) (by decide)

end RangeSort

end PcapEvidence.History
