import PcapEvidence.HistoryQuery

/-!
# What a query reports

The index of a sealed history is sorted by generation, direction and start, and no row is longer
than a payload. So the rows behind the cut of the search, up to the first one that cannot reach the
range, hold every row that does.
-/

namespace PcapEvidence.History

open Method ByteCodec

/-! ### Rows in the order of the index -/

namespace Index

/-- The file holds these rows. -/
def Lists (x : Index) (rows : List Row) : Prop :=
  x.count = rows.length ∧ ∀ i (h : i < rows.length), x.at i = .ok (rows[i])

end Index

namespace Row

/-- The row is one of the range's: it reaches into `start` to `stop`. -/
def Overlaps (generation : Digest) (direction : U8) (start stop : ℤ) (r : Row) : Prop :=
  r.generation = generation ∧ r.direction = direction ∧ r.start < stop ∧ start < r.stop

instance (generation : Digest) (direction : U8) (start stop : ℤ) :
    DecidablePred (Overlaps generation direction start stop) := fun _ =>
  inferInstanceAs (Decidable (_ ∧ _))

theorem rangeKey_mono {r r' : Row} (h : r ≤ r') : r.rangeKey ≤ r'.rangeKey := by
  change r.orderKey ≤ r'.orderKey at h
  simp only [orderKey, Prod.Lex.toLex_le_toLex] at h
  simp only [Row.rangeKey, searchKey, Prod.Lex.toLex_le_toLex]
  rcases h with h | ⟨hg, h | ⟨hd, h | ⟨hs, -⟩⟩⟩
  · exact .inl h
  · exact .inr ⟨hg, .inl h⟩
  · exact .inr ⟨hg, .inr ⟨hd, h.le⟩⟩
  · exact .inr ⟨hg, .inr ⟨hd, hs.le⟩⟩

theorem rangeKey_lt_iff {generation : Digest} {direction : U8} {r : Row} {bound : ℤ}
    (hg : r.generation = generation) (hd : r.direction = direction) :
    r.rangeKey < searchKey generation direction bound ↔ r.start < bound := by
  simp [Row.rangeKey, searchKey, Prod.Lex.toLex_lt_toLex, hg, hd]

theorem not_overlaps_of_le {generation : Digest} {direction : U8} {start stop low : ℤ} {r r' : Row}
    (hle : r ≤ r') (hlow : searchKey generation direction low ≤ r.rangeKey)
    (hstop : r.generation ≠ generation ∨ r.direction ≠ direction ∨ stop ≤ r.start) :
    ¬ r'.Overlaps generation direction start stop := by
  rintro ⟨hg, hd, hstart, -⟩
  have hr := rangeKey_mono hle
  have hr' : r'.rangeKey = searchKey generation direction r'.start := by
    rw [Row.rangeKey, hg, hd]
  rw [hr'] at hr
  simp only [Row.rangeKey, searchKey, Prod.Lex.toLex_le_toLex] at hlow hr
  have hkey : digestKey r.generation = digestKey generation := by
    rcases hlow with hlow | ⟨h, -⟩
    · rcases hr with hr | ⟨h, -⟩
      · exact absurd (hlow.trans hr) (lt_irrefl _)
      · exact h
    · exact h.symm
  have hgen := digestKey_injective hkey
  simp only [hkey, lt_irrefl, true_and, false_or] at hlow hr
  have hdir : r.direction = direction := by
    refine BitVec.eq_of_toNat_eq ?_
    omega
  simp only [hdir, lt_irrefl, true_and, false_or] at hr
  rcases hstop with h | h | h
  · exact h hgen
  · exact h hdir
  · exact absurd (h.trans hr) (not_le.2 hstart)

end Row

/-! ### The search and the walk -/

section Search

variable {x : Index} {rows : List Row} {generation : Digest} {direction : U8} {start stop low : ℤ}

theorem Index.at_ok {i : ℕ} {r : Row} (h : x.at i = .ok r) : r.Valid ∧ r.InRange := by
  obtain ⟨-, h⟩ := guard_eq_ok.1 h
  obtain ⟨-, h⟩ := guard_eq_ok.1 h
  obtain ⟨found, hfound, h⟩ := bind_eq_ok.1 h
  rw [okOr_eq_ok_iff] at h
  subst h
  rw [readRow] at hfound
  split at hfound
  · cases hfound
  · obtain ⟨-, hfound⟩ := guard_eq_ok.1 hfound
    obtain ⟨r', hr, hfound⟩ := bind_eq_ok.1 hfound
    cases hfound
    obtain ⟨hvalid, -⟩ := guard_eq_ok.1 (Row.canonical.encode_decode _ _ hr)
    exact ⟨not_not.1 hvalid, Row.canonical.fits _ _ hr⟩

theorem Index.Lists.ok_of_mem (hx : x.Lists rows) {r : Row} (hr : r ∈ rows) :
    r.Valid ∧ r.InRange := by
  obtain ⟨i, hi, rfl⟩ := List.getElem_of_mem hr
  exact Index.at_ok (hx.2 i hi)

theorem Index.lowerBound_ok (hx : x.Lists rows) (hsorted : rows.Pairwise (· ≤ ·)) :
    ∃ k, x.lowerBound generation direction low = .ok k ∧ k ≤ rows.length ∧
      (∀ r ∈ rows.take k, r.rangeKey < searchKey generation direction low) ∧
      ∀ r ∈ rows.drop k, searchKey generation direction low ≤ r.rangeKey := by
  have hmono : ∀ i j (hi : i < rows.length) (hj : j < rows.length), i ≤ j →
      rows[i].rangeKey ≤ rows[j].rangeKey := fun i j hi hj hij => by
    rcases hij.eq_or_lt with rfl | hij
    · exact le_rfl
    · exact Row.rangeKey_mono (List.pairwise_iff_getElem.1 hsorted i j hi hj hij)
  have hsearch : ∃ k, x.lowerBound generation direction low = .ok k ∧ SortedRanges.IsCut
      (fun i => ∃ h : i < rows.length, rows[i].rangeKey < searchKey generation direction low)
      x.count k := by
    refine SortedRanges.bisect_isCut (fun i hi => ?_) (fun i j hij hj ⟨hj', h⟩ => ?_)
      (by omega) (by omega) le_rfl (fun i hi => absurd hi (by omega))
      (fun i hi hc => absurd hi (by omega))
    · rw [hx.1] at hi
      rw [hx.2 i hi]
      exact congrArg Except.ok (decide_eq_decide.2 ⟨fun h => ⟨hi, h⟩, fun ⟨_, h⟩ => h⟩)
    · exact ⟨by omega, (hmono i j (by omega) hj' hij).trans_lt h⟩
  obtain ⟨k, hk, hle, hbefore, hbehind⟩ := hsearch
  rw [hx.1] at hle hbehind
  refine ⟨k, hk, hle, fun r hr => ?_, fun r hr => ?_⟩
  · obtain ⟨i, hi, rfl⟩ := List.getElem_of_mem hr
    rw [List.length_take] at hi
    obtain ⟨hlen, h⟩ := hbefore i (by omega)
    rwa [List.getElem_take]
  · obtain ⟨i, hi, rfl⟩ := List.getElem_of_mem hr
    rw [List.length_drop] at hi
    rw [List.getElem_drop]
    exact not_lt.1 fun h => hbehind (k + i) (by omega) (by omega) ⟨by omega, h⟩

theorem Row.not_overlaps_of_lt {r : Row} (hr : r.Valid ∧ r.InRange)
    (hlt : r.rangeKey < searchKey generation direction (max (start - 65535) (-2 ^ 63))) :
    ¬ r.Overlaps generation direction start stop := by
  rintro ⟨hg, hd, -, hstop⟩
  rw [Row.rangeKey_lt_iff hg hd] at hlt
  obtain ⟨⟨-, -, hlength, -⟩, hstart, -⟩ := hr
  have hmin : -2 ^ 63 ≤ r.start := hstart.1
  omega

end Search

namespace SealedHistory

variable (sha256 : List U8 → Digest)

/-- The record at the place of the row, decoded, with a payload of its length. -/
def Observed (h : SealedHistory) (generation : Digest) (direction : U8) (o : RangeObservation) : Prop :=
  ∃ record, (Reader.indexed sha256 o.row.recordOffset.toNat o.row.recordDigest h.journal).1 =
      .ok record ∧
    (record.kind = TCP ∧ record.sequence = o.row.ordinal.toNat) ∧
    decodeTcpRecord record.body h.config = .ok (o.input, o.decision) ∧
    o.row.stop - o.row.start = o.input.payload.length ∧
    ⟨generation, direction, o.row.start, o.row.selected⟩ ∈ o.decision.placements

variable {sha256} {h : SealedHistory} {generation : Digest} {direction : U8} {start stop : ℤ}

theorem observe_ok {row : Row} {work work' : ℕ} {o : RangeObservation}
    (hok : h.observe sha256 generation direction row work = .ok (o, work')) :
    o.row = row ∧ h.Observed sha256 generation direction o := by
  obtain ⟨record, hrecord, hok⟩ := bind_eq_ok.1 hok
  obtain ⟨htag, hok⟩ := guard_eq_ok.1 hok
  obtain ⟨work₁, -, hok⟩ := bind_eq_ok.1 hok
  obtain ⟨⟨input, decision⟩, hdecode, hok⟩ := bind_eq_ok.1 hok
  obtain ⟨hplaced, hok⟩ := guard_eq_ok.1 hok
  obtain ⟨work₂, -, hok⟩ := bind_eq_ok.1 hok
  cases hok
  simp only [not_or, not_not] at htag hplaced
  exact ⟨rfl, record, hrecord, htag, hdecode, hplaced⟩

def Ends (start stop : ℤ) (observations : List RangeObservation) (v : ℤ) : Prop :=
  ∃ o ∈ observations, v = max o.row.start start ∨ v = min o.row.stop stop

theorem Ends.cons {o : RangeObservation} {observations : List RangeObservation} {v : ℤ} :
    Ends start stop (o :: observations) v ↔
      (v = max o.row.start start ∨ v = min o.row.stop stop) ∨ Ends start stop observations v := by
  simp [Ends]

structure Seen (sha256 : List U8 → Digest) (h : SealedHistory) (generation : Digest) (direction : U8) (start stop : ℤ)
    (rows : List Row) (s t : Scan) (seen : List RangeObservation) : Prop where
  observations : t.observations = s.observations ++ seen
  rows : seen.map (·.row) = rows.filter (Row.Overlaps generation direction start stop)
  observed : ∀ o ∈ seen, h.Observed sha256 generation direction o
  boundaries : ∀ v, v ∈ t.boundaries ↔ v ∈ s.boundaries ∨ Ends start stop seen v

theorem scan_ok {rows : List Row} (hx : h.index.Lists rows) (hsorted : rows.Pairwise (· ≤ ·))
    {low : ℤ} (n : ℕ) {i : ℕ} (hi : i + n = rows.length)
    (hlow : ∀ r ∈ rows.drop i, searchKey generation direction low ≤ r.rangeKey) {s t : Scan}
    (hok : h.scan sha256 generation direction start stop n i s = .ok t) :
    ∃ seen, Seen sha256 h generation direction start stop (rows.drop i) s t seen := by
  induction n generalizing i s with
  | zero =>
    cases hok
    rw [List.drop_of_length_le (by omega)]
    exact ⟨[], by simp, rfl, by simp, by simp [Ends]⟩
  | succ n ih =>
    obtain ⟨-, hok⟩ := guard_eq_ok.1 hok
    obtain ⟨work, -, hok⟩ := bind_eq_ok.1 hok
    obtain ⟨row, hrow, hok⟩ := bind_eq_ok.1 hok
    have hlt : i < rows.length := by omega
    obtain rfl : rows[i] = row := Except.ok.inj ((hx.2 i hlt).symm.trans hrow)
    have hdrop : rows.drop i = rows[i] :: rows.drop (i + 1) := List.drop_eq_getElem_cons hlt
    have hbehind : ∀ r ∈ rows.drop (i + 1), searchKey generation direction low ≤ r.rangeKey :=
      fun r hr => hlow r (by rw [hdrop]; exact List.mem_cons_of_mem _ hr)
    split at hok
    next hbreak =>
      -- the walk stops: no row from here on reaches the range
      cases hok
      refine ⟨[], by simp, ?_, by simp, by simp [Ends]⟩
      refine (List.filter_eq_nil_iff.2 fun r hr => ?_).symm
      rw [decide_eq_true_eq]
      have hhead : rows[i] ∈ rows.drop i := by
        rw [hdrop]
        exact List.mem_cons_self
      refine Row.not_overlaps_of_le ?_ (hlow rows[i] hhead) hbreak
      have hsuffix := hsorted.sublist (List.drop_sublist i rows)
      rw [hdrop] at hsuffix hr
      rcases List.mem_cons.1 hr with rfl | hr
      · exact le_rfl
      · exact (List.pairwise_cons.1 hsuffix).1 r hr
    next hgo =>
      simp only [not_or, not_not, not_le] at hgo
      obtain ⟨hg, hd, hstart⟩ := hgo
      split at hok
      next hskip =>
        obtain ⟨seen, hseen⟩ := ih (by omega) hbehind hok
        refine ⟨seen, hseen.observations, ?_, hseen.observed, hseen.boundaries⟩
        rw [hseen.rows, hdrop, List.filter_cons_of_neg]
        rw [decide_eq_true_eq]
        exact fun hover => absurd hover.2.2.2 (not_lt.2 hskip)
      next hreach =>
        obtain ⟨-, hok⟩ := guard_eq_ok.1 hok
        obtain ⟨⟨o, work'⟩, ho, hok⟩ := bind_eq_ok.1 hok
        obtain ⟨hrow', hobserved⟩ := observe_ok ho
        obtain ⟨seen, hseen⟩ := ih (by omega) hbehind hok
        refine ⟨o :: seen, by simp [hseen.observations], ?_, by simpa using
          ⟨hobserved, hseen.observed⟩, fun v => ?_⟩
        · have hover : rows[i].Overlaps generation direction start stop :=
            ⟨hg, hd, hstart, not_le.1 hreach⟩
          rw [hdrop, List.filter_cons_of_pos (by simpa using hover), List.map_cons, hseen.rows,
            hrow']
        · rw [hseen.boundaries v, Ends.cons, hrow']
          simp only [List.mem_append, List.mem_pair]
          tauto

/-! ### The pieces -/

/-- The observation lies over the whole of the range from `a` to `b`. -/
def Over (a b : ℤ) (o : RangeObservation) : Prop := o.row.start ≤ a ∧ b ≤ o.row.stop

instance (a b : ℤ) : DecidablePred (Over a b) := fun _ => inferInstanceAs (Decidable (_ ∧ _))

structure Collected (a b : ℤ) (s : Cover) (l : List (RangeObservation × ℕ)) : Prop where
  selected : s.selected = none ↔ l = []
  carried : ∀ v ∈ s.selected, ∃ o ∈ l, o.1.carried a b = v
  conflict : s.conflict = false ↔ ∀ o ∈ l, s.selected = some (o.1.carried a b)
  uncertain : s.uncertain = false ↔ ∀ o ∈ l, o.1.row.selected = true
  ids : s.ids = l.map (·.2)

variable {a b : ℤ}

theorem Collected.cover {s t : Cover} {l : List (RangeObservation × ℕ)} (hs : Collected a b s l)
    {o : RangeObservation × ℕ} (hok : h.cover a b s o = .ok t) :
    Collected a b t (l ++ [o].filter fun o => Over a b o.1) := by
  obtain ⟨work, -, hok⟩ := bind_eq_ok.1 hok
  split at hok
  next hover =>
    obtain ⟨work', -, hok⟩ := bind_eq_ok.1 hok
    obtain ⟨-, hok⟩ := guard_eq_ok.1 hok
    cases hok
    have hfilter : ([o].filter fun o => Over a b o.1) = [o] :=
      List.filter_eq_self.2 fun x hx => List.mem_singleton.1 hx ▸ decide_eq_true hover
    rw [hfilter]
    cases hfirst : s.selected with
    | none =>
      obtain rfl := hs.selected.1 hfirst
      have hconflict := hs.conflict.2 (by simp)
      have huncertain := hs.uncertain.2 (by simp)
      have hids := hs.ids
      exact ⟨by simp, by simp, by simp [hconflict], by simp [huncertain], by simp [hids]⟩
    | some first =>
      have hne : l ≠ [] := fun hl => by simp [hs.selected.2 hl] at hfirst
      have hconflict := hs.conflict
      rw [hfirst] at hconflict
      refine ⟨by simp, fun v hv => ?_, ?_, ?_, by simp [hs.ids]⟩
      · obtain ⟨o', ho', hv'⟩ := hs.carried v (by rw [hfirst]; exact hv)
        exact ⟨o', List.mem_append_left _ ho', hv'⟩
      · simp only [Option.getD_some, Option.any_some, Bool.or_eq_false_iff, hconflict,
          List.forall_mem_append, List.forall_mem_singleton, Option.some.injEq]
        simp
      · simp only [Bool.or_eq_false_iff, hs.uncertain, List.forall_mem_append,
          List.forall_mem_singleton, Bool.not_eq_false']
  next hover =>
    cases hok
    have hfilter : ([o].filter fun o => Over a b o.1) = [] :=
      List.filter_eq_nil_iff.2 fun x hx => List.mem_singleton.1 hx ▸ mt of_decide_eq_true hover
    rw [hfilter, List.append_nil]
    exact ⟨hs.selected, hs.carried, hs.conflict, hs.uncertain, hs.ids⟩

theorem Collected.foldlM {s t : Cover} {l rest : List (RangeObservation × ℕ)} (hs : Collected a b s l)
    (hok : rest.foldlM (h.cover a b) s = .ok t) :
    Collected a b t (l ++ rest.filter fun o => Over a b o.1) := by
  induction rest generalizing s l with
  | nil =>
    cases hok
    simpa using hs
  | cons o rest ih =>
    obtain ⟨u, hu, hok⟩ := bind_eq_ok.1 hok
    have hrest := ih (hs.cover hu) hok
    rwa [List.append_assoc, ← List.filter_append, List.singleton_append] at hrest

structure Reported (observations : List RangeObservation) (p : Piece) : Prop where
  ids : p.observationIds.Pairwise (· < ·)
  mem_ids : ∀ i, i ∈ p.observationIds ↔ ∃ o, observations[i]? = some o ∧ Over p.start p.stop o
  gap : p.status = .gap ↔ ∀ o ∈ observations, ¬ Over p.start p.stop o
  conflict : p.status = .conflictingBytes ↔ ∃ o ∈ observations, ∃ o' ∈ observations,
    Over p.start p.stop o ∧ Over p.start p.stop o' ∧
      o.carried p.start p.stop ≠ o'.carried p.start p.stop
  bytes : ∀ v, p.bytes = some v ↔ (∃ o ∈ observations, Over p.start p.stop o) ∧
    ∀ o ∈ observations, Over p.start p.stop o →
      o.row.selected = true ∧ o.carried p.start p.stop = v

def numbered (observations : List RangeObservation) (a b : ℤ) : List (RangeObservation × ℕ) :=
  observations.zipIdx.filter fun o => Over a b o.1

theorem mem_numbered {observations : List RangeObservation} {o : RangeObservation} {i : ℕ} :
    (o, i) ∈ numbered observations a b ↔ observations[i]? = some o ∧ Over a b o := by
  rw [numbered, List.mem_filter, List.mem_zipIdx_iff_getElem?, decide_eq_true_eq]

theorem forall_numbered {observations : List RangeObservation} {P : RangeObservation → Prop} :
    (∀ o ∈ numbered observations a b, P o.1) ↔ ∀ o ∈ observations, Over a b o → P o := by
  refine ⟨fun h o ho hover => ?_, fun h o ho => ?_⟩
  · obtain ⟨i, hi⟩ := List.mem_iff_getElem?.1 ho
    exact h (o, i) (mem_numbered.2 ⟨hi, hover⟩)
  · obtain ⟨hi, hover⟩ := mem_numbered.1 ho
    exact h o.1 (List.mem_of_getElem? hi) hover

theorem exists_numbered {observations : List RangeObservation} {P : RangeObservation → Prop} :
    (∃ o ∈ numbered observations a b, P o.1) ↔ ∃ o ∈ observations, Over a b o ∧ P o := by
  have h := not_congr (@forall_numbered a b observations fun o => ¬ P o)
  push Not at h
  exact h

theorem pairwise_numbered (observations : List RangeObservation) :
    ((numbered observations a b).map (·.2)).Pairwise (· < ·) := by
  have hsub : ((numbered observations a b).map (·.2)).Sublist (observations.zipIdx.map (·.2)) :=
    List.filter_sublist.map _
  refine List.Pairwise.sublist hsub ?_
  rw [List.zipIdx_map_snd]
  exact List.pairwise_lt_range' 1

theorem Collected.reported {observations : List RangeObservation} {s : Cover}
    (hs : Collected a b s (numbered observations a b)) : Reported observations (piece a b s) := by
  have hgap : s.selected = none ↔ ∀ o ∈ observations, ¬ Over a b o := by
    rw [hs.selected, List.eq_nil_iff_forall_not_mem]
    exact forall_numbered (P := fun _ => False)
  have hnone : s.selected = none → s.conflict = false := fun h => by
    rw [hs.conflict, hs.selected.1 h]
    simp
  have hagree : s.conflict = false ↔
      ∀ o ∈ observations, Over a b o → s.selected = some (o.carried a b) := by
    rw [hs.conflict]
    exact forall_numbered (P := fun o => s.selected = some (o.carried a b))
  have huncertain : s.uncertain = false ↔
      ∀ o ∈ observations, Over a b o → o.row.selected = true := by
    rw [hs.uncertain]
    exact forall_numbered (P := fun o => o.row.selected = true)
  have hcarried : ∀ v ∈ s.selected, ∃ o ∈ observations, Over a b o ∧ o.carried a b = v :=
    fun v hv => exists_numbered.1 (hs.carried v hv)
  refine ⟨?_, fun i => ?_, ?_, ?_, fun v => ?_⟩
  · change s.ids.Pairwise (· < ·)
    rw [hs.ids]
    exact pairwise_numbered observations
  · change i ∈ s.ids ↔ ∃ o, observations[i]? = some o ∧ Over a b o
    rw [hs.ids, List.mem_map]
    exact ⟨fun ⟨⟨o, j⟩, ho, hj⟩ => ⟨o, hj ▸ mem_numbered.1 ho⟩,
      fun ⟨o, ho⟩ => ⟨(o, i), mem_numbered.2 ho, rfl⟩⟩
  · change _ ↔ ∀ o ∈ observations, ¬ Over a b o
    rw [← hgap, piece]
    cases s.selected with
    | none => simp
    | some v =>
      dsimp only
      split_ifs <;> simp_all
  · change _ ↔ ∃ o ∈ observations, ∃ o' ∈ observations, Over a b o ∧ Over a b o' ∧
      o.carried a b ≠ o'.carried a b
    have hstatus : (piece a b s).status = .conflictingBytes ↔ s.conflict = true := by
      rw [piece]
      dsimp only
      split_ifs <;> simp_all
    rw [hstatus, ← Bool.not_eq_false, hagree]
    push Not
    constructor
    · rintro ⟨o, ho, hover, hne⟩
      cases hselected : s.selected with
      | none => exact absurd hover (hgap.1 hselected o ho)
      | some v =>
        obtain ⟨o', ho', hover', hv⟩ := hcarried v hselected
        refine ⟨o', ho', o, ho, hover', hover, fun heq => hne ?_⟩
        rw [hselected, ← heq, hv]
    · rintro ⟨o, ho, o', ho', hover, hover', hne⟩
      by_contra hall
      push Not at hall
      exact hne (Option.some.inj ((hall o ho hover).symm.trans (hall o' ho' hover')))
  · change (if s.conflict ∨ s.uncertain then none else s.selected) = some v ↔
      (∃ o ∈ observations, Over a b o) ∧
        ∀ o ∈ observations, Over a b o → o.row.selected = true ∧ o.carried a b = v
    constructor
    · intro hbytes
      split_ifs at hbytes with hbad
      simp only [not_or, Bool.not_eq_true] at hbad
      obtain ⟨o, ho, hover, -⟩ := hcarried v hbytes
      refine ⟨⟨o, ho, hover⟩, fun o' ho' hover' => ⟨huncertain.1 hbad.2 o' ho' hover', ?_⟩⟩
      exact Option.some.inj ((hagree.1 hbad.1 o' ho' hover').symm.trans hbytes)
    · rintro ⟨⟨o, ho, hover⟩, hall⟩
      have hselected : s.selected = some v := by
        cases hselected : s.selected with
        | none => exact absurd hover (hgap.1 hselected o ho)
        | some x =>
          obtain ⟨o', ho', hover', hx⟩ := hcarried x hselected
          rw [← hx, (hall o' ho' hover').2]
      have hconflict := hagree.2 fun o ho hover => by rw [hselected, (hall o ho hover).2]
      have hcertain := huncertain.2 fun o ho hover => (hall o ho hover).1
      rw [hconflict, hcertain, if_neg (by simp), hselected]

theorem cut_ok {observations : List RangeObservation} {ws : List (ℤ × ℤ)} {s t : Pieces}
    (hok : ws.foldlM (h.cut observations) s = .ok t) :
    ∃ added, t.pieces = s.pieces ++ added ∧ added.map (fun p => (p.start, p.stop)) = ws ∧
      ∀ p ∈ added, Reported observations p := by
  induction ws generalizing s with
  | nil =>
    cases hok
    exact ⟨[], by simp, rfl, by simp⟩
  | cons w ws ih =>
    obtain ⟨u, hu, hok⟩ := bind_eq_ok.1 hok
    obtain ⟨c, hc, hu⟩ := bind_eq_ok.1 hu
    cases hu
    obtain ⟨added, hadded, hwindows, hreported⟩ := ih hok
    have hstart : Collected w.1 w.2 ⟨s.work, s.references, none, false, false, []⟩ [] :=
      ⟨by simp, by simp, by simp, by simp, rfl⟩
    refine ⟨piece w.1 w.2 c :: added, by simp [hadded], by rw [List.map_cons, hwindows]; rfl, ?_⟩
    rw [List.forall_mem_cons]
    exact ⟨(hstart.foldlM hc).reported, hreported⟩

theorem Ends.between {observations : List RangeObservation}
    (hover : ∀ o ∈ observations, o.row.Overlaps generation direction start stop)
    (hlt : start < stop) {v : ℤ} (hv : Ends start stop observations v) : start ≤ v ∧ v ≤ stop := by
  obtain ⟨o, ho, hv⟩ := hv
  obtain ⟨-, -, hstart, hstop⟩ := hover o ho
  rcases hv with rfl | rfl <;> omega

theorem over_or_beside {observations : List RangeObservation} {cuts : List ℤ} {w : ℤ × ℤ}
    (hsorted : cuts.Pairwise (· < ·)) (hw : w ∈ SortedRanges.windows cuts)
    (hends : ∀ v, Ends start stop observations v → v ∈ cuts) (hrange : ∀ v ∈ cuts, start ≤ v ∧ v ≤ stop)
    {o : RangeObservation} (ho : o ∈ observations) :
    Over w.1 w.2 o ∨ o.row.stop ≤ w.1 ∨ w.2 ≤ o.row.start := by
  obtain ⟨hfirst, hlast⟩ := SortedRanges.mem_of_mem_windows hw
  have hstart := SortedRanges.le_or_le_of_mem_windows hsorted hw (hends _ ⟨o, ho, .inl rfl⟩)
  have hstop := SortedRanges.le_or_le_of_mem_windows hsorted hw (hends _ ⟨o, ho, .inr rfl⟩)
  have hlow := (hrange _ hfirst).1
  have hhigh := (hrange _ hlast).2
  have hlt := SortedRanges.lt_of_mem_windows hsorted hw
  unfold Over
  omega

theorem length_carried {o : RangeObservation} (ho : h.Observed sha256 generation direction o)
    (hover : Over a b o) (hab : a ≤ b) : (o.carried a b).length = (b - a).toNat := by
  obtain ⟨record, -, -, -, hlength, -⟩ := ho
  obtain ⟨hstart, hstop⟩ := hover
  rw [RangeObservation.carried, List.length_drop, List.length_take]
  omega

theorem query_ok {rows : List Row} (hx : h.index.Lists rows) (hsorted : rows.Pairwise (· ≤ ·))
    {observations : List RangeObservation} {pieces : List Piece}
    (hok : h.query sha256 generation direction start stop = .ok (observations, pieces)) :
    SortedRanges.Tiles (pieces.map fun p => (p.start, p.stop)) start stop ∧
      observations.map (·.row) = rows.filter (Row.Overlaps generation direction start stop) ∧
      (∀ o ∈ observations, h.Observed sha256 generation direction o) ∧
      ∀ p ∈ pieces, Reported observations p ∧ ∀ o ∈ observations,
        Over p.start p.stop o ∧ (o.carried p.start p.stop).length = (p.stop - p.start).toNat ∨
          o.row.stop ≤ p.start ∨ p.stop ≤ o.row.start := by
  obtain ⟨hpositive, hok⟩ := guard_eq_ok.1 hok
  obtain ⟨-, hok⟩ := guard_eq_ok.1 hok
  obtain ⟨k, hk, hok⟩ := bind_eq_ok.1 hok
  obtain ⟨s, hs, hok⟩ := bind_eq_ok.1 hok
  obtain ⟨t, ht, hok⟩ := bind_eq_ok.1 hok
  cases hok
  obtain ⟨k', hk', hle, hbefore, hbehind⟩ := @Index.lowerBound_ok _ _ generation
    direction (max (start - 65535) (-2 ^ 63)) hx hsorted
  obtain rfl : k' = k := Except.ok.inj (hk'.symm.trans hk)
  rw [hx.1] at hs
  obtain ⟨seen, hseen⟩ := scan_ok hx hsorted _ (by omega) hbehind hs
  obtain rfl : s.observations = seen := hseen.observations
  obtain ⟨added, hadded, hwindows, hreported⟩ := cut_ok ht
  obtain rfl : t.pieces = added := hadded
  have hlt : start < stop := by
    have hsize := (not_not.1 hpositive).2
    omega
  have hcuts : (SortedVec.sortDedup s.boundaries).Pairwise (· < ·) :=
    SortedVec.sortDedup_sorted _
  have hmem : ∀ v, v ∈ SortedVec.sortDedup s.boundaries ↔
      (v = start ∨ v = stop) ∨ Ends start stop s.observations v := fun v => by
    rw [SortedVec.mem_sortDedup, hseen.boundaries v, List.mem_pair]
  have hrows : s.observations.map (·.row) =
      rows.filter (Row.Overlaps generation direction start stop) := by
    have hnone : (rows.take k').filter (Row.Overlaps generation direction start stop) = [] :=
      List.filter_eq_nil_iff.2 fun r hr => by
        rw [decide_eq_true_eq]
        exact Row.not_overlaps_of_lt (hx.ok_of_mem (List.mem_of_mem_take hr)) (hbefore r hr)
    rw [hseen.rows, ← List.nil_append (List.filter _ (rows.drop k')), ← hnone,
      ← List.filter_append, List.take_append_drop]
  have hover : ∀ o ∈ s.observations, o.row.Overlaps generation direction start stop :=
    fun o ho => by
      have hrow : o.row ∈ s.observations.map (·.row) := List.mem_map_of_mem ho
      rw [hrows, List.mem_filter, decide_eq_true_eq] at hrow
      exact hrow.2
  have hrange : ∀ v ∈ SortedVec.sortDedup s.boundaries, start ≤ v ∧ v ≤ stop := fun v hv => by
    rcases (hmem v).1 hv with (rfl | rfl) | hends
    · exact ⟨le_rfl, hlt.le⟩
    · exact ⟨hlt.le, le_rfl⟩
    · exact hends.between hover hlt
  refine ⟨?_, hrows, hseen.observed, fun p hp => ⟨hreported p hp, fun o ho => ?_⟩⟩
  · rw [hwindows]
    exact SortedRanges.tiles_windows hcuts
      (SortedRanges.head?_of_le hcuts ((hmem start).2 (.inl (.inl rfl))) fun v hv => (hrange v hv).1)
      (SortedRanges.getLast?_of_ge hcuts ((hmem stop).2 (.inl (.inr rfl))) fun v hv => (hrange v hv).2)
  · have hw : (p.start, p.stop) ∈ SortedRanges.windows (SortedVec.sortDedup s.boundaries) := by
      rw [← hwindows]
      exact List.mem_map_of_mem (f := fun p : Piece => (p.start, p.stop)) hp
    have hlt := SortedRanges.lt_of_mem_windows hcuts hw
    refine (over_or_beside hcuts hw (fun v hv => (hmem v).2 (.inr hv)) hrange ho).imp_left ?_
    exact fun hover => ⟨hover, length_carried (hseen.observed o ho) hover hlt.le⟩

theorem range_of_query {observations : List RangeObservation} {pieces : List Piece}
    (hquery : h.query sha256 generation direction start stop = .ok (observations, pieces))
    (hsize : (h.report sha256 generation direction observations pieces).encodedLen ≤
      h.config.maxRecordBytes) :
    h.range sha256 generation direction start stop =
      .ok (h.report sha256 generation direction observations pieces) := by
  have hencode : (h.report sha256 generation direction observations pieces).encodeBounded
      h.config.maxRecordBytes =
        .ok (h.report sha256 generation direction observations pieces).encode := if_pos hsize
  rw [range, hquery]
  change (Bgp.Json.encodeBounded _ _ >>= _) = _
  rw [hencode]
  rfl

/-- A query reports the rows that reach into the range and cuts it into pieces with the same
observations throughout. A piece shows bytes only where all selected placements carry them. -/
theorem range_reports {rows : List Row} (hx : h.index.Lists rows)
    (hsorted : rows.Pairwise (· ≤ ·)) {json : Bgp.Json}
    (hok : h.range sha256 generation direction start stop = .ok json) :
    ∃ observations pieces, json = h.report sha256 generation direction observations pieces ∧
      SortedRanges.Tiles (pieces.map fun p => (p.start, p.stop)) start stop ∧
      observations.map (·.row) = rows.filter (Row.Overlaps generation direction start stop) ∧
      (∀ o ∈ observations, h.Observed sha256 generation direction o) ∧
      ∀ p ∈ pieces, Reported observations p ∧ ∀ o ∈ observations,
        Over p.start p.stop o ∧ (o.carried p.start p.stop).length = (p.stop - p.start).toNat ∨
          o.row.stop ≤ p.start ∨ p.stop ≤ o.row.start := by
  obtain ⟨⟨observations, pieces⟩, hquery, hok⟩ := bind_eq_ok.1 hok
  obtain ⟨text, -, hok⟩ := bind_eq_ok.1 hok
  cases hok
  exact ⟨observations, pieces, rfl, query_ok hx hsorted hquery⟩

end SealedHistory

/-! ### Index files -/

section Files

variable {rows : List Row} {e : List U8}

theorem length_all (h : Encoder.all Row.encode rows = .ok e) :
    e.length = rows.length * Row.WIDTH := by
  induction rows generalizing e with
  | nil =>
    cases h
    rfl
  | cons r rows ih =>
    obtain ⟨first, rest, hfirst, hrest, rfl⟩ := all_cons_ok h
    rw [List.length_append, Row.length_encode hfirst, ih hrest, List.length_cons, Nat.succ_mul,
      Nat.add_comm]

theorem drop_all (h : Encoder.all Row.encode rows = .ok e) (i : ℕ) (hi : i < rows.length) :
    ∃ b rest, rows[i].encode = .ok b ∧ e.drop (i * Row.WIDTH) = b ++ rest := by
  induction rows generalizing e i with
  | nil => exact absurd hi (by simp)
  | cons r rows ih =>
    obtain ⟨first, rest, hfirst, hrest, rfl⟩ := all_cons_ok h
    cases i with
    | zero => exact ⟨first, rest, hfirst, by simp⟩
    | succ i =>
      obtain ⟨b, tail, hb, htail⟩ := ih hrest i (by simpa using hi)
      refine ⟨b, tail, hb, ?_⟩
      rw [Nat.succ_mul, Nat.add_comm, ← List.drop_drop, ← Row.length_encode hfirst,
        List.drop_left, Row.length_encode hfirst, htail]

theorem Index.lists_of_encode (hrows : ∀ r ∈ rows, r.InRange)
    (h : Encoder.all Row.encode rows = .ok e) (hsize : e.length < wordBound) :
    ∃ x, Index.open e = .ok x ∧ x.Lists rows := by
  have hlength := length_all h
  have hwidth : 0 < Row.WIDTH := by decide
  refine ⟨⟨e, e.length / Row.WIDTH⟩, if_neg (by simp [hlength]), ?_, fun i hi => ?_⟩
  · rw [hlength, Nat.mul_div_cancel _ hwidth]
  · obtain ⟨b, rest, hb, hdrop⟩ := drop_all h i hi
    have hb' := Row.length_encode hb
    have hcount : ¬ i ≥ e.length / Row.WIDTH := by
      rw [hlength, Nat.mul_div_cancel _ hwidth]
      omega
    have hoffset : ¬ i * Row.WIDTH ≥ wordBound := by
      have := Nat.mul_lt_mul_of_pos_right hi hwidth
      omega
    have htake : (e.drop (i * Row.WIDTH)).take Row.WIDTH = b := by
      rw [hdrop, ← hb', List.take_left]
    have hread : readRow (e.drop (i * Row.WIDTH)) = .ok (some rows[i]) := by
      rw [readRow, htake, hb', if_neg (by decide), if_neg (by omega),
        Row.canonical.decode_encode _ _ (hrows _ (List.getElem_mem hi)) hb]
      rfl
    rw [Index.at, if_neg hcount, if_neg hoffset, hread]
    rfl

end Files

/-- Four octets of payload in front of nothing else. -/
def payloadRecord : TcpInput := { portsRecord 5 with
  raw := portsSegment ++ [1, 2, 3, 4]
  witnesses := [⟨0, 24, 1, 0, 0, 0⟩] }

def noDigest : Digest := Vector.replicate 32 0

def payloadDecision : Decision := ⟨noDigest, noDigest, [⟨noDigest, 0, 0, true⟩], [], false⟩

def payloadRow : Row := ⟨noDigest, 0, true, 0, 4, 32, noDigest, 1⟩

def encoded (r : Result (List U8)) : List U8 := r.toOption.getD []

def payloadBody : List U8 :=
  encoded (do
    let input ← payloadRecord.encode
    let decision ← payloadDecision.encode
    let input ← Encoder.bytes input
    let decision ← Encoder.bytes decision
    .ok (input ++ decision))

def payloadJournal : Reader where
  contents := noDigest.toList ++ Encoder.u32 (BitVec.ofNat 32 (payloadBody.length + 9)) ++
    Writer.payloadOf TCP 1 payloadBody ++ noDigest.toList
  unread := []
  header := ⟨⟨noDigest, 24⟩, .default, noDigest, 32⟩
  count := 1
  position := 32
  previous := noDigest
  sealed := true
  aborted := false
  ended := true

def payloadHistory : SealedHistory where
  source := payloadRecord.raw
  journal := payloadJournal
  index := ⟨encoded payloadRow.encode, 1⟩
  packets := Encoder.u64 1 ++ Encoder.u64 0 ++ Encoder.u64 0 ++ Encoder.u32 24 ++ Encoder.u32 24 ++
    Encoder.u32 0 ++ Encoder.u32 0 ++ Encoder.u32 1 ++ Encoder.u32 0 ++ noDigest.toList
  config := .default
  identity := ⟨noDigest, 24⟩

def payloadPieces : List Piece :=
  [⟨0, 4, .candidate, [0], some [1, 2, 3, 4]⟩, ⟨4, 6, .gap, [], none⟩]

def payloadObservations : List RangeObservation := [⟨payloadRow, payloadRecord, payloadDecision⟩]

theorem payload_query : payloadHistory.query (fun _ => noDigest) noDigest 0 0 6 =
    .ok (payloadObservations, payloadPieces) := by
  decide +kernel

theorem payload_range : payloadHistory.range (fun _ => noDigest) noDigest 0 0 6 =
    .ok (payloadHistory.report (fun _ => noDigest) noDigest 0 payloadObservations payloadPieces) :=
  SealedHistory.range_of_query payload_query (by decide +kernel)

theorem payload_lists : payloadHistory.index.Lists [payloadRow] := by
  refine ⟨rfl, fun i hi => ?_⟩
  have hrow : payloadHistory.index.at 0 = .ok payloadRow := by decide +kernel
  obtain rfl : i = 0 := by simpa using hi
  exact hrow

/-- A query over four observed octets and two that nobody has seen. -/
theorem range_reports_sample : ∃ observations pieces,
    payloadHistory.report (fun _ => noDigest) noDigest 0 payloadObservations payloadPieces =
      payloadHistory.report (fun _ => noDigest) noDigest 0 observations pieces ∧
    SortedRanges.Tiles (pieces.map fun p => (p.start, p.stop)) 0 6 ∧
    observations.map (·.row) = [payloadRow].filter (Row.Overlaps noDigest 0 0 6) ∧
    (∀ o ∈ observations, payloadHistory.Observed (fun _ => noDigest) noDigest 0 o) ∧
    ∀ p ∈ pieces, SealedHistory.Reported observations p ∧ ∀ o ∈ observations,
      SealedHistory.Over p.start p.stop o ∧
          (o.carried p.start p.stop).length = (p.stop - p.start).toNat ∨
        o.row.stop ≤ p.start ∨ p.stop ≤ o.row.start :=
  SealedHistory.range_reports payload_lists (List.pairwise_singleton _ _) payload_range

/-- Over a gap all of the observations, which are none, agree, and no bytes are shown. -/
theorem range_gap_without_bytes :
    ¬ ∀ (sha256 : List U8 → Digest) (h : SealedHistory) (rows : List Row) (generation : Digest)
      (direction : U8) (start stop : ℤ) (observations : List RangeObservation) (pieces : List Piece),
      h.index.Lists rows → rows.Pairwise (· ≤ ·) →
      h.query sha256 generation direction start stop = .ok (observations, pieces) →
      h.range sha256 generation direction start stop =
        .ok (h.report sha256 generation direction observations pieces) →
      ∀ p ∈ pieces, p.bytes.isSome ↔ ∃ v, ∀ o ∈ observations,
        SealedHistory.Over p.start p.stop o →
          o.row.selected = true ∧ o.carried p.start p.stop = v := by
  intro hall
  have hgap := hall _ _ _ _ _ _ _ _ _ payload_lists (List.pairwise_singleton _ _) payload_query
    payload_range ⟨4, 6, .gap, [], none⟩ (by simp [payloadPieces])
  have hover : ∀ o ∈ payloadObservations, ¬ SealedHistory.Over 4 6 o := by decide +kernel
  exact absurd (hgap.2 ⟨[], fun o ho h => absurd h (hover o ho)⟩) (by decide)

end PcapEvidence.History
