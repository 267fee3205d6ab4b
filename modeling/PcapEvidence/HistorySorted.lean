import PcapEvidence.HistoryRange
import PcapEvidence.HistorySort

/-!
# The external sort sorts

Every phase keeps the rows as a multiset: the runs of a pass are sorted lists that together are the
placements. A merge of some of them goes through the states of the abstract merge, and the passes end
because a merge takes at least two runs whenever there are two.
-/

namespace PcapEvidence.History

open Method ByteCodec OrderedMap

/-! ### Rows as bytes -/

namespace Row

instance (r : Row) : Decidable r.InRange := inferInstanceAs (Decidable (_ ∧ _))

/-- A row that is encoded and decoded to itself. -/
def Good (r : Row) : Prop := r.Valid ∧ r.InRange

def bytes (r : Row) : List U8 := r.encode.toOption.getD []

theorem encode_bytes {r : Row} (h : r.Valid) : r.encode = .ok r.bytes := by
  have hencode : r.encode = .ok _ := if_neg (not_not.2 h)
  rw [bytes, hencode]
  rfl

theorem length_bytes {r : Row} (h : r.Valid) : r.bytes.length = WIDTH :=
  length_encode (encode_bytes h)

end Row

def rowBytes (rows : List Row) : List U8 := rows.flatMap Row.bytes

section Bytes

variable {rows : List Row} {r : Row}

@[simp] theorem rowBytes_nil : rowBytes [] = [] := rfl

@[simp] theorem rowBytes_cons : rowBytes (r :: rows) = r.bytes ++ rowBytes rows := by
  simp [rowBytes]

@[simp] theorem rowBytes_append (rows' : List Row) :
    rowBytes (rows ++ rows') = rowBytes rows ++ rowBytes rows' := by
  simp [rowBytes]

theorem length_rowBytes (h : ∀ r ∈ rows, r.Valid) : (rowBytes rows).length = Row.WIDTH * rows.length := by
  induction rows with
  | nil => rfl
  | cons r rows ih =>
    rw [List.forall_mem_cons] at h
    rw [rowBytes_cons, List.length_append, Row.length_bytes h.1, ih h.2, List.length_cons,
      Nat.mul_succ, Nat.add_comm]

theorem all_encode_iff {e : List U8} :
    Encoder.all Row.encode rows = .ok e ↔ (∀ r ∈ rows, r.Valid) ∧ e = rowBytes rows := by
  induction rows generalizing e with
  | nil => simp [Encoder.all, eq_comm]
  | cons r rows ih =>
    rw [List.forall_mem_cons]
    constructor
    · intro h
      obtain ⟨first, rest, hfirst, hrest, rfl⟩ := all_cons_ok h
      obtain ⟨hrows, rfl⟩ := ih.1 hrest
      have hr : r.Valid := not_not.1 (guard_eq_ok.1 hfirst).1
      rw [rowBytes_cons, Except.ok.inj (hfirst.symm.trans (Row.encode_bytes hr))]
      exact ⟨⟨hr, hrows⟩, rfl⟩
    · rintro ⟨⟨hr, hrows⟩, rfl⟩
      rw [rowBytes_cons]
      exact all_cons (Row.encode_bytes hr) (ih.2 ⟨hrows, rfl⟩)

theorem nextRow_nil : nextRow [] = .ok none := rfl

theorem nextRow_cons (h : r.Good) (rest : List U8) :
    nextRow (r.bytes ++ rest) = .ok (some (r, rest)) := by
  have hlength := Row.length_bytes h.1
  have htake : (r.bytes ++ rest).take Row.WIDTH = r.bytes := by
    rw [← hlength, List.take_left]
  have hdrop : (r.bytes ++ rest).drop Row.WIDTH = rest := by
    rw [← hlength, List.drop_left]
  have hread : readRow (r.bytes ++ rest) = .ok (some r) := by
    rw [readRow, htake, hlength, if_neg (by decide), if_neg (by omega),
      Row.canonical.decode_encode _ _ h.2 (Row.encode_bytes h.1)]
    rfl
  rw [nextRow, hread, hdrop]
  rfl

end Bytes

/-! ### What a call leaves in the workspace -/

structure Keeps {τ : Type} (w : Workspace τ) (placements ranges : Option (List U8))
    (runs : OrdMap (ℕ ×ₗ ℕ) (List U8)) (used maximum : ℕ) : Prop where
  placements : w.placements = placements
  ranges : w.ranges = ranges
  runs : w.runs = some runs
  used : w.quota.used = used
  maximum : w.quota.maximum = maximum

theorem Keeps.setRuns {τ : Type} {w : Workspace τ} {p q : Option (List U8)} {u m : ℕ}
    {runs : OrdMap (ℕ ×ₗ ℕ) (List U8)} (hw : Keeps w p q runs u m)
    (runs' : OrdMap (ℕ ×ₗ ℕ) (List U8)) : Keeps { w with runs := some runs' } p q runs' u m :=
  ⟨hw.placements, hw.ranges, rfl, hw.used, hw.maximum⟩

namespace SortM

variable {τ α : Type} {w : Workspace τ} {p q : Option (List U8)} {u m : ℕ}
  {runs : OrdMap (ℕ ×ₗ ℕ) (List U8)} {k : ℕ ×ₗ ℕ} {b : List U8}

theorem succeeds_result {r : Result α} {a : α} (h : r = .ok a) (hw : Keeps w p q runs u m) :
    Succeeds (result r) w fun a' w => a' = a ∧ Keeps w p q runs u m := by
  rw [h]
  exact .of_eq rfl ⟨rfl, hw⟩

theorem succeeds_check {check : Method τ Error Unit} (hcheck : ∀ g, (check g).1 = .ok ())
    (hw : Keeps w p q runs u m) : Succeeds (ofCheck check) w fun _ w => Keeps w p q runs u m := by
  refine .of_eq (t := { w with guard := (check w.guard).2 }) (a := ()) ?_
    ⟨hw.placements, hw.ranges, hw.runs, hw.used, hw.maximum⟩
  have hok := hcheck w.guard
  unfold ofCheck
  rcases hg : check w.guard with ⟨r, g⟩
  rw [hg] at hok
  obtain rfl : r = .ok () := hok
  rfl

theorem succeeds_checkEvery {check : Method τ Error Unit} (hcheck : ∀ g, (check g).1 = .ok ())
    (hw : Keeps w p q runs u m) (n : ℕ) :
    Succeeds (checkEvery check n) w fun _ w => Keeps w p q runs u m := by
  unfold checkEvery
  split
  · exact succeeds_check hcheck hw
  · exact .pure hw
variable (hw : Keeps w p q runs u m)
include hw

theorem succeeds_charge {n : ℕ} (hn : u + n ≤ m) (hm : m < wordBound) :
    Succeeds (ofQuota (DiskBudget.charge n)) w fun _ w => Keeps w p q runs (u + n) m := by
  have hcharge : DiskBudget.charge n w.quota = (.ok (), { w.quota with
      used := w.quota.used + n
      peak := max w.quota.peak (w.quota.used + n) }) := by
    have hadd : checkedAdd w.quota.used n = some (w.quota.used + n) :=
      checkedAdd_of_lt (by rw [hw.used]; omega)
    rw [DiskBudget.charge, read_bind, hadd]
    change (if _ then _ else _ : Method DiskBudget Error Unit) w.quota = _
    rw [if_neg (by rw [hw.used, hw.maximum]; omega)]
    rfl
  refine .of_eq (a := ()) (t := { w with quota := _ }) (by rw [ofQuota, hcharge]; rfl) ?_
  exact ⟨hw.placements, hw.ranges, hw.runs, congrArg (· + n) hw.used, hw.maximum⟩

theorem succeeds_release {n : ℕ} (hn : n ≤ u) :
    Succeeds (ofQuota (DiskBudget.release n)) w fun _ w => Keeps w p q runs (u - n) m := by
  have hrelease : DiskBudget.release n w.quota = (.ok (), { w.quota with
      used := w.quota.used - n }) := by
    rw [DiskBudget.release, read_bind, if_pos (by rw [hw.used]; exact hn)]
    rfl
  refine .of_eq (a := ()) (t := { w with quota := _ }) (by rw [ofQuota, hrelease]; rfl) ?_
  exact ⟨hw.placements, hw.ranges, hw.runs, congrArg (· - n) hw.used, hw.maximum⟩

theorem succeeds_directory : Succeeds directory w fun d w => d = runs ∧ Keeps w p q runs u m := by
  refine .of_eq (a := runs) (t := w) ?_ ⟨rfl, hw⟩
  rw [directory, read_bind, hw.runs]
  rfl

theorem succeeds_openRun (hk : runs.get? k = some b) :
    Succeeds (openRun k) w fun b' w => b' = b ∧ Keeps w p q runs u m := by
  refine (succeeds_directory hw).bind ?_
  rintro d w ⟨rfl, hw⟩
  rw [hk]
  exact .pure ⟨rfl, hw⟩

theorem succeeds_createRun (hk : runs.get? k = none) :
    Succeeds (createRun k) w fun _ w => Keeps w p q (runs.insert k []) u m := by
  refine (succeeds_directory hw).bind ?_
  rintro d w ⟨rfl, hw⟩
  rw [hk]
  exact .of_eq rfl (hw.setRuns _)

omit hw

theorem succeeds_writeRow {r : Row} (hw : Keeps w p q (runs.insert k b) u m) (hr : r.Valid)
    (hn : u + Row.WIDTH ≤ m) (hm : m < wordBound) :
    Succeeds (writeRow k r) w fun _ w =>
      Keeps w p q (runs.insert k (b ++ r.bytes)) (u + Row.WIDTH) m := by
  refine (succeeds_charge hw hn hm).bind fun _ w hw => ?_
  refine (succeeds_result (Row.encode_bytes hr) hw).bind ?_
  rintro e w ⟨rfl, hw⟩
  refine (succeeds_directory hw).bind ?_
  rintro d w ⟨rfl, hw⟩
  refine (succeeds_openRun hw (OrdMap.get?_insert_self _ _ _)).bind ?_
  rintro b' w ⟨rfl, hw⟩
  rw [OrdMap.insert_insert]
  exact .of_eq rfl (hw.setRuns _)

theorem succeeds_removeRun (hw : Keeps w p q runs u m) (hk : runs.get? k = some b)
    (hb : b.length ≤ u) :
    Succeeds (removeRun k) w fun _ w => Keeps w p q (runs.erase k) (u - b.length) m := by
  refine (succeeds_directory hw).bind ?_
  rintro d w ⟨rfl, hw⟩
  refine (succeeds_openRun hw hk).bind ?_
  rintro b' w ⟨rfl, hw⟩
  exact succeeds_release (hw.setRuns _) hb

end SortM

/-! ### The runs of a pass -/

/-- The run files of the lists, numbered from `first`. -/
def runsAt (pass first : ℕ) (ls : List (List Row)) (k : ℕ ×ₗ ℕ) : Option (List U8) :=
  if (ofLex k).1 = pass ∧ first ≤ (ofLex k).2 then (ls[(ofLex k).2 - first]?).map rowBytes else none

theorem runsAt_toLex (pass first : ℕ) (ls : List (List Row)) (a b : ℕ) :
    runsAt pass first ls (toLex (a, b)) =
      if a = pass ∧ first ≤ b then (ls[b - first]?).map rowBytes else none := rfl

theorem toLex_eq_iff {a b c d : ℕ} : (toLex (a, b) : ℕ ×ₗ ℕ) = toLex (c, d) ↔ a = c ∧ b = d := by
  rw [EmbeddingLike.apply_eq_iff_eq, Prod.mk.injEq]

theorem runsAt_append (pass first : ℕ) (ls : List (List Row)) (l : List Row) (k : ℕ ×ₗ ℕ) :
    runsAt pass first (ls ++ [l]) k =
      if k = toLex (pass, first + ls.length) then some (rowBytes l) else runsAt pass first ls k := by
  obtain ⟨⟨a, b⟩, rfl⟩ := toLex.surjective k
  rw [runsAt_toLex, runsAt_toLex]
  by_cases hk : a = pass ∧ first ≤ b
  · rw [if_pos hk, if_pos hk]
    rcases lt_trichotomy (b - first) ls.length with hlt | heq | hgt
    · rw [List.getElem?_append_left hlt, if_neg (by rw [toLex_eq_iff]; omega)]
    · rw [if_pos (by rw [toLex_eq_iff]; omega), heq, List.getElem?_concat_length]
      rfl
    · rw [if_neg (by rw [toLex_eq_iff]; omega), List.getElem?_eq_none (by simp; omega),
        List.getElem?_eq_none hgt.le]
  · rw [if_neg hk, if_neg hk, if_neg (by rw [toLex_eq_iff]; omega)]

theorem runsAt_cons (pass first : ℕ) (ls : List (List Row)) (l : List Row) (k : ℕ ×ₗ ℕ) :
    runsAt pass (first + 1) ls k =
      if k = toLex (pass, first) then none else runsAt pass first (l :: ls) k := by
  obtain ⟨⟨a, b⟩, rfl⟩ := toLex.surjective k
  rw [runsAt_toLex, runsAt_toLex]
  by_cases hk : a = pass ∧ first + 1 ≤ b
  · have hsub : b - first = b - (first + 1) + 1 := by omega
    rw [if_pos hk, if_neg (by rw [toLex_eq_iff]; omega), if_pos (by omega), hsub,
      List.getElem?_cons_succ]
  · rw [if_neg hk]
    by_cases hb : a = pass ∧ b = first
    · rw [if_pos (toLex_eq_iff.2 hb)]
    · rw [if_neg (toLex_eq_iff.not.2 hb), if_neg (by omega)]

@[simp] theorem runsAt_nil (pass first : ℕ) (k : ℕ ×ₗ ℕ) : runsAt pass first [] k = none := by
  simp [runsAt]

def Runs (runs : OrdMap (ℕ ×ₗ ℕ) (List U8)) (pass first : ℕ) (ls ms : List (List Row)) : Prop :=
  ∀ k, runs.get? k = (runsAt pass first ls k).or (runsAt (pass + 1) 0 ms k)

namespace Runs

variable {runs : OrdMap (ℕ ×ₗ ℕ) (List U8)} {pass first : ℕ} {ls ms : List (List Row)}

theorem get (h : Runs runs pass first ls ms) {i : ℕ} (hi : i < ls.length) :
    runs.get? (toLex (pass, first + i)) = some (rowBytes ls[i]) := by
  rw [h]
  simp [runsAt, hi]

theorem create (h : Runs runs pass first ls ms) :
    runs.get? (toLex (pass + 1, ms.length)) = none := by
  rw [h]
  simp [runsAt]

theorem insert (h : Runs runs pass first ls ms) (l : List Row) :
    Runs (runs.insert (toLex (pass + 1, ms.length)) (rowBytes l)) pass first ls (ms ++ [l]) := by
  intro k
  rw [OrdMap.get?_insert, h, runsAt_append, Nat.zero_add]
  by_cases hk : k = toLex (pass + 1, ms.length)
  · simp [hk, runsAt]
  · simp [hk]

theorem erase {l : List Row} (h : Runs runs pass first (l :: ls) ms) :
    Runs (runs.erase (toLex (pass, first))) pass (first + 1) ls ms := by
  intro k
  rw [OrdMap.get?_erase, h, runsAt_cons pass first ls l]
  by_cases hk : k = toLex (pass, first)
  · simp [hk, runsAt]
  · simp [hk]

theorem add (h : Runs runs pass 0 ls []) (l : List Row) :
    Runs (runs.insert (toLex (pass, ls.length)) (rowBytes l)) pass 0 (ls ++ [l]) [] := by
  intro k
  rw [OrdMap.get?_insert, h, runsAt_append, Nat.zero_add, runsAt_nil, Option.or_none,
    Option.or_none]

theorem free (h : Runs runs pass 0 ls []) : runs.get? (toLex (pass, ls.length)) = none := by
  rw [h]
  simp [runsAt]

theorem next (h : Runs runs pass first [] ms) : Runs runs (pass + 1) 0 ms [] := by
  intro k
  rw [h]
  simp

end Runs

/-! ### The first pass -/

namespace RangeSort

open SortM KWayMerge

variable {rows : List Row} {pass : ℕ} {b : List U8}
variable {τ : Type} {check : Method τ Error Unit} {fuel entries fanIn : ℕ} {w : Workspace τ}
  {p q : Option (List U8)} {u m : ℕ} {runs : OrdMap (ℕ ×ₗ ℕ) (List U8)} {k : ℕ ×ₗ ℕ}

theorem succeeds_nextRow (hrows : ∀ r ∈ rows, r.Good) (hw : Keeps w p q runs u m) :
    Succeeds (result (nextRow (rowBytes rows))) w fun next w => Keeps w p q runs u m ∧
      (rows = [] ∧ next = none ∨ ∃ r rest, rows = r :: rest ∧ next = some (r, rowBytes rest)) := by
  cases rows with
  | nil =>
    refine (succeeds_result nextRow_nil hw).mono ?_
    rintro next w ⟨rfl, hw⟩
    exact ⟨hw, .inl ⟨rfl, rfl⟩⟩
  | cons r rest =>
    rw [rowBytes_cons]
    refine (succeeds_result (nextRow_cons (hrows r (by simp)) _) hw).mono ?_
    rintro next w ⟨rfl, hw⟩
    exact ⟨hw, .inr ⟨r, rest, rfl, rfl⟩⟩

theorem succeeds_readChunk (hcheck : ∀ g, (check g).1 = .ok ())
    (hrows : ∀ r ∈ rows, r.Good) (hfuel : rows.length < fuel) (hw : Keeps w p q runs u m) :
    Succeeds (readChunk check fuel entries (rowBytes rows)) w fun out w => Keeps w p q runs u m ∧
      out = (rows.take entries, rowBytes (rows.drop entries)) := by
  refine succeeds_loop (I := fun s w => Keeps w p q runs u m ∧ ∃ rest, s.1 ++ rest = rows ∧
    s.2 = rowBytes rest ∧ s.1.length ≤ entries) (fun s => rows.length - s.1.length) ?_
    ⟨hw, rows, rfl, rfl, Nat.zero_le _⟩ (by simpa using hfuel)
  rintro ⟨chunk, unread⟩ w ⟨hw, rest, hsplit, hunread, hlength⟩
  dsimp only at hsplit hunread hlength ⊢
  subst hunread
  by_cases hmore : chunk.length < entries
  · rw [if_pos hmore]
    refine (succeeds_checkEvery hcheck hw _).bind fun _ w hw => ?_
    have hrest : ∀ r ∈ rest, r.Good := fun r hr => hrows r (hsplit ▸ List.mem_append_right _ hr)
    refine (succeeds_nextRow hrest hw).bind ?_
    rintro next w ⟨hw, ⟨rfl, rfl⟩ | ⟨r, rest', rfl, rfl⟩⟩
    · rw [List.append_nil] at hsplit
      subst hsplit
      refine .pure ⟨hw, ?_⟩
      rw [List.take_of_length_le hmore.le, List.drop_of_length_le hmore.le]
    · refine .pure ⟨⟨hw, rest', by simpa using hsplit, rfl, by simpa using hmore⟩, ?_⟩
      have hcount := congrArg List.length hsplit
      simp only [List.length_append, List.length_cons, List.length_nil] at hcount ⊢
      omega
  · rw [if_neg hmore]
    refine .pure ⟨hw, ?_⟩
    have hfull : chunk.length = entries := by omega
    rw [← hsplit, ← hfull, List.take_left, List.drop_left]

theorem succeeds_writeChunk {chunk : List Row} {total : ℕ} (hchunk : ∀ r ∈ chunk, r.Valid)
    (hw : Keeps w p q (runs.insert k []) u m) (hn : u + Row.WIDTH * chunk.length ≤ m)
    (hm : m < wordBound) (htotal : total + chunk.length < wordBound) :
    Succeeds (writeChunk k chunk total) w fun total' w => total' = total + chunk.length ∧
      Keeps w p q (runs.insert k (rowBytes chunk)) (u + Row.WIDTH * chunk.length) m := by
  refine (succeeds_foldlM (fun rest total' w => ∃ done, done ++ rest = chunk ∧
    total' = total + done.length ∧
    Keeps w p q (runs.insert k (rowBytes done)) (u + Row.WIDTH * done.length) m) ?_
    ⟨[], rfl, rfl, hw⟩).mono ?_
  · rintro r rest total' w ⟨done, rfl, rfl, hw⟩
    rw [List.length_append, List.length_cons] at hn htotal
    have hr : r.Valid := hchunk r (by simp)
    have hroom : u + Row.WIDTH * done.length + Row.WIDTH ≤ m := by
      have hle : Row.WIDTH * (done.length + 1) ≤ Row.WIDTH * (done.length + (rest.length + 1)) :=
        Nat.mul_le_mul_left _ (by omega)
      rw [Nat.mul_succ] at hle
      omega
    refine (succeeds_writeRow hw hr hroom hm).bind fun _ w hw => ?_
    have hadd : checkedAdd (total + done.length) 1 = some (total + done.length + 1) :=
      checkedAdd_of_lt (by omega)
    refine (succeeds_result (a := total + done.length + 1) (by rw [hadd]; rfl) hw).mono ?_
    rintro total' w ⟨rfl, hw⟩
    refine ⟨done ++ [r], by simp, by simp [Nat.add_assoc], ?_⟩
    rwa [rowBytes_append, rowBytes_cons, rowBytes_nil, List.append_nil, List.length_append,
      List.length_singleton, Nat.mul_succ, ← Nat.add_assoc]
  · rintro total' w ⟨done, hdone, rfl, hw⟩
    rw [List.append_nil] at hdone
    subst hdone
    exact ⟨rfl, hw⟩

structure Parts (ls : List (List Row)) (total : Multiset Row) : Prop where
  sorted : ∀ l ∈ ls, l.Pairwise (· ≤ ·)
  pool : pool ls = total

theorem pool_append (ls ls' : List (List Row)) : pool (ls ++ ls') = pool ls + pool ls' := by
  simp [KWayMerge.pool]

theorem pool_singleton (l : List Row) : pool [l] = Multiset.ofList l := by
  simp [KWayMerge.pool]

theorem Parts.append {ls : List (List Row)} {total : Multiset Row} (h : Parts ls total)
    {l : List Row} (hl : l.Pairwise (· ≤ ·)) : Parts (ls ++ [l]) (total + Multiset.ofList l) := by
  refine ⟨fun l' hl' => ?_, by rw [pool_append, pool_singleton, h.pool]⟩
  rcases List.mem_append.1 hl' with hl' | hl'
  · exact h.sorted l' hl'
  · rw [List.mem_singleton.1 hl']
    exact hl

theorem succeeds_writeRuns (hcheck : ∀ g, (check g).1 = .ok ()) (hentries : 2 ≤ entries) (hrows : ∀ r ∈ rows, r.Good) (hfuel : rows.length < fuel)
    (hw : Keeps w p q .empty u m) (hn : u + Row.WIDTH * rows.length ≤ m) (hm : m < wordBound) :
    Succeeds (writeRuns check fuel entries (rowBytes rows)) w fun out w => ∃ ls runs,
      out = (ls.length, rows.length) ∧ Parts ls (Multiset.ofList rows) ∧ ls.length ≤ rows.length ∧
        Runs runs 0 0 ls [] ∧ Keeps w p q runs (u + Row.WIDTH * rows.length) m := by
  refine succeeds_loop (I := fun s w => ∃ ls done rest runs, s = (rowBytes rest, ls.length, done) ∧
    done + rest.length = rows.length ∧ Parts ls (pool ls) ∧
    pool ls + Multiset.ofList rest = Multiset.ofList rows ∧ ls.length ≤ done ∧ Runs runs 0 0 ls [] ∧
    Keeps w p q runs (u + Row.WIDTH * done) m) (fun s => rows.length - s.2.2) ?_
    ⟨[], 0, rows, .empty, rfl, by simp, ⟨by simp, rfl⟩, by simp [KWayMerge.pool], by simp,
      fun k => by simp, hw⟩ (by simpa using hfuel)
  rintro s w ⟨ls, done, rest, runs, rfl, hdone, hparts, hpool, hfew, hruns, hw⟩
  have hmem : ∀ r ∈ rest, r ∈ rows := fun r hr => by
    rw [← Multiset.mem_coe, ← hpool, Multiset.mem_add]
    exact .inr hr
  refine (succeeds_check hcheck hw).bind fun _ w hw => ?_
  refine (succeeds_readChunk hcheck (fun r hr => hrows r (hmem r hr)) (by omega) hw).bind ?_
  rintro ⟨chunk, unread⟩ w ⟨hw, hchunk⟩
  obtain ⟨rfl, rfl⟩ := Prod.mk.inj hchunk
  dsimp only
  by_cases hnil : rest.take entries = []
  · rw [if_pos hnil]
    obtain rfl : rest = [] := by
      rcases List.take_eq_nil_iff.1 hnil with h | h
      · omega
      · exact h
    obtain rfl : done = rows.length := by simpa using hdone
    refine .pure ⟨ls, runs, rfl, ⟨hparts.sorted, ?_⟩, hfew, hruns, hw⟩
    simpa using hpool
  · rw [if_neg hnil]
    have hsplit : (rest.take entries).length + (rest.drop entries).length = rest.length := by
      rw [← List.length_append, List.take_append_drop]
    have hpos : 0 < (rest.take entries).length := List.length_pos_of_ne_nil hnil
    have hlength : ((rest.take entries).insertionSort (· ≤ ·)).length =
        (rest.take entries).length := List.length_insertionSort _ _
    have hvalid : ∀ r ∈ (rest.take entries).insertionSort (· ≤ ·), r.Valid := fun r hr =>
      (hrows r (hmem r (List.mem_of_mem_take ((List.mem_insertionSort _).1 hr)))).1
    have hroom : u + Row.WIDTH * done + Row.WIDTH * (rest.take entries).length ≤ m := by
      have hle : Row.WIDTH * (done + (rest.take entries).length) ≤ Row.WIDTH * rows.length :=
        Nat.mul_le_mul_left _ (by omega)
      rw [Nat.mul_add] at hle
      omega
    have hcount : rows.length ≤ Row.WIDTH * rows.length := Nat.le_mul_of_pos_left _ (by decide)
    refine (succeeds_createRun hw hruns.free).bind fun _ w hw => ?_
    refine (succeeds_writeChunk hvalid hw (by rw [hlength]; exact hroom) hm (by omega)).bind ?_
    rintro total w ⟨rfl, hw⟩
    rw [hlength, Nat.add_assoc, ← Nat.mul_add] at hw
    have hsorted := List.pairwise_insertionSort (· ≤ ·) (rest.take entries)
    refine .pure ⟨⟨ls ++ [(rest.take entries).insertionSort (· ≤ ·)], _, rest.drop entries, _, ?_,
      ?_, ?_, ?_, ?_, hruns.add _, hw⟩, ?_⟩
    · simp
    · omega
    · exact ⟨(hparts.append hsorted).sorted, rfl⟩
    · rw [pool_append, pool_singleton, ← hpool,
        Multiset.coe_eq_coe.2 (List.perm_insertionSort (· ≤ ·) (rest.take entries)), add_assoc,
        Multiset.coe_add, List.take_append_drop]
    · rw [List.length_append, List.length_singleton]
      omega
    · dsimp only
      omega

/-! ### A merge -/

theorem succeeds_openFronts {first stop : ℕ} {g rest ms : List (List Row)}
    (hruns : Runs runs pass first (g ++ rest) ms) (hgood : ∀ l ∈ g, ∀ r ∈ l, r.Good)
    (hsorted : ∀ l ∈ g, l.Pairwise (· ≤ ·)) (hstop : stop = first + g.length)
    (hw : Keeps w p q runs u m) :
    Succeeds (openFronts pass first stop) w fun fronts w => Keeps w p q runs u m ∧
      ∃ s : State Row, Merging (pool g) s [] ∧ s.out = [] ∧
        fronts = (s.heap, s.sources.map rowBytes) := by
  refine (succeeds_foldlM (fun ns (fronts : Fronts) w => ∃ (done todo : List (List Row)) (s : State Row),
    done ++ todo = g ∧ ns = List.range' (first + done.length) todo.length ∧
    (Merging (pool done) s [] ∧ s.out = [] ∧ s.sources.length = done.length) ∧
    fronts = (s.heap, s.sources.map rowBytes) ∧ Keeps w p q runs u m) ?_
    ⟨[], g, ⟨[], [], []⟩, rfl, by simp [hstop], ⟨Merging.empty, rfl, rfl⟩, rfl, hw⟩).mono ?_
  · rintro n ns fronts w ⟨done, todo, s, hg, hns, ⟨hmerge, hout, hcount⟩, rfl, hw⟩
    cases todo with
    | nil => cases hns
    | cons l todo =>
      rw [List.length_cons, List.range'_succ] at hns
      obtain ⟨rfl, rfl⟩ := List.cons.inj hns
      have hlt : done.length < (g ++ rest).length := by
        rw [← hg]
        simp
      have hl : (g ++ rest)[done.length] = l := by simp [← hg]
      have hmem : l ∈ g := hg ▸ (by simp)
      have hfile := hruns.get hlt
      rw [hl] at hfile
      refine (succeeds_openRun hw hfile).bind ?_
      rintro f w ⟨rfl, hw⟩
      refine (succeeds_nextRow (hgood l hmem) hw).bind ?_
      have hpush := hmerge.push hout (hsorted l hmem)
      rw [← pool_singleton, ← pool_append] at hpush
      have hnext : List.range' (first + done.length + 1) todo.length =
          List.range' (first + (done ++ [l]).length) todo.length := by
        rw [List.length_append, List.length_singleton, Nat.add_assoc]
      rintro next w ⟨hw, ⟨rfl, rfl⟩ | ⟨r, tail, rfl, rfl⟩⟩
      · rw [push_nil] at hpush
        refine .pure ⟨done ++ [[]], todo, _, by simpa using hg, hnext, ⟨hpush, hout, ?_⟩, ?_, hw⟩
        · simp [hcount]
        · simp
      · rw [push_cons] at hpush
        refine .pure ⟨done ++ [r :: tail], todo, _, by simpa using hg, hnext, ⟨hpush, hout, ?_⟩, ?_,
          hw⟩
        · simp [hcount]
        · simp
  · rintro fronts w ⟨done, todo, s, hg, hns, ⟨hmerge, hout, -⟩, rfl, hw⟩
    obtain rfl : todo = [] := by
      cases todo with
      | nil => rfl
      | cons l todo => cases hns
    rw [List.append_nil] at hg
    subst hg
    exact ⟨hw, s, hmerge, hout, rfl⟩

theorem getD_map_rowBytes (sources : List (List Row)) (i : ℕ) :
    (sources.map rowBytes).getD i [] = rowBytes (sources.getD i []) := by
  rcases lt_or_ge i sources.length with hi | hi
  · simp [List.getD, hi]
  · simp [List.getD, hi]

theorem succeeds_mergeFronts (hcheck : ∀ g, (check g).1 = .ok ()) {total : Multiset Row}
    {s : State Row} (hmerge : Merging total s []) (hout : s.out = [])
    (hgood : ∀ r ∈ total, r.Good) (hfuel : total.card < fuel)
    (hw : Keeps w p q (runs.insert k []) u m) (hn : u + Row.WIDTH * total.card ≤ m)
    (hm : m < wordBound) :
    Succeeds (mergeFronts check fuel k (s.heap, s.sources.map rowBytes)) w fun _ w =>
      ∃ out, out.Pairwise (· ≤ ·) ∧ Multiset.ofList out = total ∧
        Keeps w p q (runs.insert k (rowBytes out)) (u + Row.WIDTH * total.card) m := by
  refine succeeds_loop (I := fun (a : Fronts × ℕ) w => ∃ s : State Row, Merging total s [] ∧
    a = ((s.heap, s.sources.map rowBytes), s.out.length) ∧
    Keeps w p q (runs.insert k (rowBytes s.out)) (u + Row.WIDTH * s.out.length) m)
    (fun a => total.card - a.2) ?_ ⟨s, hmerge, by rw [hout]; rfl, by rw [hout]; exact hw⟩
    (by dsimp only; omega)
  rintro a w ⟨s, hs, rfl, hw⟩
  dsimp only
  have hcard := hs.card
  cases hpop : pop s.heap with
  | none =>
    have hheap := pop_eq_none.1 hpop
    obtain ⟨hsorted, htotal⟩ := hs.done hheap
    refine .pure ⟨s.out, hsorted, htotal, ?_⟩
    rw [← htotal, Multiset.coe_card]
    exact hw
  | some top =>
    obtain ⟨front, heap⟩ := top
    have hmem : front ∈ s.heap := (pop_eq_some hpop).1.mem_iff.2 (by simp)
    have hlt : s.out.length < total.card := by
      have hpos := List.length_pos_of_mem hmem
      omega
    have hroom : u + Row.WIDTH * s.out.length + Row.WIDTH ≤ m := by
      have hle : Row.WIDTH * (s.out.length + 1) ≤ Row.WIDTH * total.card :=
        Nat.mul_le_mul_left _ hlt
      rw [Nat.mul_succ] at hle
      omega
    have hrow := hgood _ (hs.mem_front hmem)
    refine (succeeds_checkEvery hcheck hw _).bind fun _ w hw => ?_
    refine (succeeds_writeRow hw hrow.1 hroom hm).bind fun _ w hw => ?_
    rw [Nat.add_assoc, ← Nat.mul_succ] at hw
    have hout' : rowBytes s.out ++ (ofLex front).1.bytes = rowBytes (s.out ++ [(ofLex front).1]) := by
      simp
    rw [hout'] at hw
    have hsource : ∀ r ∈ s.sources.getD (ofLex front).2 [], r.Good := fun r hr =>
      hgood r (hs.mem_source hr)
    have htake := (hs.take hpop).refill (by simp)
    rw [getD_map_rowBytes]
    refine (succeeds_nextRow hsource hw).bind ?_
    rintro next w ⟨hw, ⟨hnil, rfl⟩ | ⟨r, tail, hcons, rfl⟩⟩
    · rw [refill] at htake
      dsimp only at htake
      rw [hnil] at htake
      refine .pure ⟨⟨_, htake, by simp, by simpa using hw⟩, ?_⟩
      dsimp only
      omega
    · rw [refill] at htake
      dsimp only at htake
      rw [hcons] at htake
      refine .pure ⟨⟨_, htake, by simp [List.map_set], by simpa using hw⟩, ?_⟩
      dsimp only
      omega

theorem succeeds_removeRuns {first : ℕ} {g rest ms : List (List Row)}
    (hruns : Runs runs pass first (g ++ rest) ms) (hvalid : ∀ l ∈ g, ∀ r ∈ l, r.Valid)
    (hw : Keeps w p q runs (u + Row.WIDTH * (pool g).card) m) :
    Succeeds ((List.range' first g.length).foldlM (fun _ n => removeRun (toLex (pass, n))) ()) w
      fun _ w => ∃ runs, Runs runs pass (first + g.length) rest ms ∧ Keeps w p q runs u m := by
  refine (succeeds_foldlM (fun ns (_ : Unit) w => ∃ first' todo runs,
    ns = List.range' first' todo.length ∧ first' + todo.length = first + g.length ∧
    (∀ l ∈ todo, ∀ r ∈ l, r.Valid) ∧ Runs runs pass first' (todo ++ rest) ms ∧
    Keeps w p q runs (u + Row.WIDTH * (pool todo).card) m) ?_
    ⟨first, g, runs, rfl, rfl, hvalid, hruns, hw⟩).mono ?_
  · rintro n ns _ w ⟨first', todo, runs, hns, hfirst, hvalid, hruns, hw⟩
    cases todo with
    | nil => cases hns
    | cons l todo =>
      rw [List.length_cons, List.range'_succ] at hns
      obtain ⟨rfl, rfl⟩ := List.cons.inj hns
      have hfile : runs.get? (toLex (pass, n)) = some (rowBytes l) := hruns.get (i := 0) (by simp)
      have hlength : (rowBytes l).length = Row.WIDTH * l.length :=
        length_rowBytes (hvalid l (by simp))
      have hcard : (pool (l :: todo)).card = l.length + (pool todo).card :=
        Multiset.card_add (Multiset.ofList l) (pool todo)
      rw [hcard, Nat.mul_add] at hw
      refine (succeeds_removeRun hw hfile (by rw [hlength]; omega)).mono ?_
      rintro _ w hw
      refine ⟨n + 1, todo, _, rfl, ?_, fun l' hl' => hvalid l' (List.mem_cons_of_mem l hl'),
        hruns.erase, ?_⟩
      · rw [List.length_cons] at hfirst
        omega
      · have hused : u + (Row.WIDTH * l.length + Row.WIDTH * (pool todo).card) -
            Row.WIDTH * l.length = u + Row.WIDTH * (pool todo).card := by omega
        rw [hlength, hused] at hw
        exact hw
  · rintro _ w ⟨first', todo, runs, hns, hfirst, -, hruns, hw⟩
    obtain rfl : todo = [] := by
      cases todo with
      | nil => rfl
      | cons l todo => cases hns
    obtain rfl : first' = first + g.length := hfirst
    exact ⟨runs, hruns, by simpa [KWayMerge.pool] using hw⟩

/-! ### The passes -/

theorem Parts.mem {ls : List (List Row)} {total : Multiset Row} (h : Parts ls total) {l : List Row}
    (hl : l ∈ ls) {r : Row} (hr : r ∈ l) : r ∈ total :=
  h.pool ▸ mem_pool.2 ⟨l, hl, hr⟩

theorem succeeds_mergePass (hcheck : ∀ g, (check g).1 = .ok ()) (hfan : 2 ≤ fanIn)
    {ls : List (List Row)} {total : Multiset Row} (hparts : Parts ls total) (hne : ls ≠ [])
    (hgood : ∀ r ∈ total, r.Good) (hfuel : total.card < fuel) (hlength : ls.length < fuel)
    (hruns : Runs runs pass 0 ls []) (hw : Keeps w p q runs u m)
    (hn : u + Row.WIDTH * total.card ≤ m) (hm : m < wordBound) :
    Succeeds (mergePass check fuel fanIn pass ls.length) w fun next w => ∃ ms runs,
      next = ms.length ∧ ms ≠ [] ∧ 2 * ms.length ≤ ls.length + 1 ∧ Parts ms total ∧
        Runs runs (pass + 1) 0 ms [] ∧ Keeps w p q runs u m := by
  refine succeeds_loop (I := fun (s : ℕ × ℕ) w => ∃ todo ms runs, s = (s.1, ms.length) ∧
    s.1 + todo.length = ls.length ∧ Parts (todo ++ ms) total ∧
    (2 * ms.length ≤ s.1 + 1 ∧ (todo ≠ [] → 2 * ms.length ≤ s.1) ∧ (s.1 ≠ 0 → ms ≠ [])) ∧
    Runs runs pass s.1 todo ms ∧ Keeps w p q runs u m) (fun s => ls.length - s.1) ?_
    ⟨ls, [], runs, rfl, by simp, by simpa using hparts, by simp, hruns, hw⟩ (by simpa using hlength)
  rintro ⟨first, next⟩ w ⟨todo, ms, runs, hnext, hcount, hparts, ⟨hfew, hhalf, hsome⟩, hruns, hw⟩
  obtain rfl : next = ms.length := (Prod.mk.inj hnext).2
  dsimp only at hcount hfew hhalf hsome hruns ⊢
  by_cases hlt : first < ls.length
  · rw [if_pos hlt]
    have htodo : todo ≠ [] := by
      rintro rfl
      simp only [List.length_nil] at hcount
      omega
    have hpos := List.length_pos_of_ne_nil htodo
    have hhalf := hhalf htodo
    have hg : (todo.take fanIn).length = min fanIn todo.length := List.length_take
    have hstop : min ls.length (first + fanIn) = first + (todo.take fanIn).length := by omega
    have hsplit : todo.take fanIn ++ todo.drop fanIn = todo := List.take_append_drop _ _
    have hmem : ∀ l ∈ todo.take fanIn, l ∈ todo ++ ms := fun l hl =>
      List.mem_append_left _ (List.mem_of_mem_take hl)
    have hpool : pool (todo.take fanIn) ≤ total := by
      have hall := hparts.pool
      rw [← hsplit, pool_append, pool_append] at hall
      rw [← hall, add_assoc]
      exact Multiset.le_add_right _ _
    have hcard := Multiset.card_le_card hpool
    have hroom : u + Row.WIDTH * (pool (todo.take fanIn)).card ≤ m :=
      (Nat.add_le_add_left (Nat.mul_le_mul_left _ hcard) u).trans hn
    rw [hstop, Nat.add_sub_cancel_left]
    rw [← hsplit] at hruns
    have hrows : ∀ l ∈ todo.take fanIn, ∀ r ∈ l, r.Good := fun l hl r hr =>
      hgood r (hparts.mem (hmem l hl) hr)
    refine (succeeds_check hcheck hw).bind fun _ w hw => ?_
    refine (succeeds_openFronts hruns hrows (fun l hl => hparts.sorted l (hmem l hl)) rfl hw).bind ?_
    rintro fronts w ⟨hw, s, hmerge, hout, rfl⟩
    refine (succeeds_createRun hw hruns.create).bind fun _ w hw => ?_
    refine (succeeds_mergeFronts hcheck hmerge hout
      (fun r hr => hgood r (Multiset.mem_of_le hpool hr)) (by omega) hw hroom hm).bind ?_
    rintro _ w ⟨out, hsorted, hperm, hw⟩
    refine (succeeds_removeRuns (hruns.insert out) (fun l hl r hr => (hrows l hl r hr).1) hw).bind ?_
    rintro _ w ⟨runs', hruns', hw⟩
    refine .pure ⟨⟨todo.drop fanIn, ms ++ [out], runs', by simp, ?_, ⟨?_, ?_⟩, ⟨?_, ?_, by simp⟩,
      hruns', hw⟩, ?_⟩
    · dsimp only
      rw [List.length_drop]
      omega
    · intro l hl
      rw [← List.append_assoc, List.mem_append, List.mem_append] at hl
      rcases hl with (hl | hl) | hl
      · exact hparts.sorted l (List.mem_append_left _ (List.mem_of_mem_drop hl))
      · exact hparts.sorted l (List.mem_append_right _ hl)
      · rw [List.mem_singleton.1 hl]
        exact hsorted
    · rw [pool_append, pool_append, pool_singleton, hperm, ← hparts.pool, pool_append]
      rw [← congrArg pool hsplit, pool_append]
      abel
    · dsimp only
      rw [List.length_append, List.length_singleton]
      omega
    · intro hrest
      dsimp only
      rw [List.length_append, List.length_singleton]
      have hlong : fanIn < todo.length := by
        by_contra hshort
        exact hrest (List.drop_of_length_le (by omega))
      omega
    · dsimp only
      omega
  · rw [if_neg hlt]
    obtain rfl : todo = [] := List.eq_nil_of_length_eq_zero (by omega)
    have hnonempty := List.length_pos_of_ne_nil hne
    simp only [List.length_nil, Nat.add_zero] at hcount
    refine .pure ⟨ms, runs, rfl, hsome (by omega), by omega, by simpa using hparts, hruns.next, hw⟩

theorem succeeds_mergeRuns (hcheck : ∀ g, (check g).1 = .ok ()) (hfan : 2 ≤ fanIn)
    {ls : List (List Row)} {total : Multiset Row} (hparts : Parts ls total) (hne : ls ≠ [])
    (hgood : ∀ r ∈ total, r.Good) (hfuel : total.card < fuel) (hlength : ls.length < fuel)
    (hruns : Runs runs 0 0 ls []) (hw : Keeps w p q runs u m)
    (hn : u + Row.WIDTH * total.card ≤ m) (hm : m < wordBound) :
    Succeeds (mergeRuns check fuel fanIn ls.length) w fun pass w => ∃ l runs,
      l.Pairwise (· ≤ ·) ∧ Multiset.ofList l = total ∧ Runs runs pass 0 [l] [] ∧
        Keeps w p q runs u m := by
  refine succeeds_loop (I := fun (s : ℕ × ℕ) w => ∃ ls runs, s.2 = ls.length ∧ s.2 < fuel ∧
    ls ≠ [] ∧ Parts ls total ∧ Runs runs s.1 0 ls [] ∧ Keeps w p q runs u m) (fun s => s.2) ?_
    ⟨ls, runs, rfl, hlength, hne, hparts, hruns, hw⟩ hlength
  rintro ⟨pass, count⟩ w ⟨ls, runs, hcount, hlength, hne, hparts, hruns, hw⟩
  dsimp only at hcount hlength hruns ⊢
  subst hcount
  by_cases hmany : 1 < ls.length
  · rw [if_pos hmany]
    refine (succeeds_mergePass hcheck hfan hparts hne hgood hfuel hlength hruns hw hn hm).bind ?_
    rintro next w ⟨ms, runs', rfl, hms, hfew, hparts', hruns', hw⟩
    exact .pure ⟨⟨ms, runs', rfl, by dsimp only; omega, hms, hparts', hruns', hw⟩, by dsimp only; omega⟩
  · rw [if_neg hmany]
    obtain ⟨l, rfl⟩ : ∃ l, ls = [l] := List.length_eq_one_iff.1 (by
      have := List.length_pos_of_ne_nil hne
      omega)
    refine .pure ⟨l, runs, hparts.sorted l (by simp), ?_, hruns, hw⟩
    rw [← pool_singleton, hparts.pool]

/-! ### The whole sort -/

theorem succeeds_removePlacements (hw : Keeps w (some b) q runs u m) (hb : b.length ≤ u) :
    Succeeds removePlacements w fun _ w => Keeps w none q runs (u - b.length) m := by
  have hopen : openPlacements w = (.ok b, w) := by
    rw [openPlacements, read_bind, hw.placements]
    rfl
  rw [removePlacements]
  have hread : Succeeds openPlacements w fun b' w' => b' = b ∧ w' = w := .of_eq hopen ⟨rfl, rfl⟩
  refine hread.bind ?_
  rintro b' w' ⟨rfl, rfl⟩
  exact succeeds_release (w := { w' with placements := none })
    ⟨rfl, hw.ranges, hw.runs, hw.used, hw.maximum⟩ hb

theorem size_eq_zero (h : Runs runs 0 0 [] []) : runs.size = 0 := by
  have hempty : runs = .empty := OrdMap.ext_get? fun k => by
    rw [h]
    simp
  rw [hempty]
  rfl

theorem succeeds_renameRun (hw : Keeps w p q runs u m) (hk : runs.get? k = some b) :
    Succeeds (renameRun k) w fun _ w => Keeps w p (some b) (runs.erase k) u m := by
  refine (succeeds_directory hw).bind ?_
  rintro d w ⟨rfl, hw⟩
  refine (succeeds_openRun hw hk).bind ?_
  rintro b' w ⟨rfl, hw⟩
  exact .of_eq rfl ⟨hw.placements, rfl, rfl, hw.used, hw.maximum⟩

theorem succeeds_createRanges (hw : Keeps w p none runs u m) :
    Succeeds createRanges w fun _ w => Keeps w p (some []) runs u m := by
  rw [createRanges]
  refine .of_eq (a := ()) (t := { w with ranges := some [] }) ?_
    ⟨hw.placements, rfl, hw.runs, hw.used, hw.maximum⟩
  rw [read_bind, hw.ranges]
  rfl

structure Sorted (w : Workspace τ) (ranges : List U8) (used maximum : ℕ) : Prop where
  placements : w.placements = none
  runs : w.runs = none
  ranges : w.ranges = some ranges
  used : w.quota.used = used
  maximum : w.quota.maximum = maximum

theorem succeeds_removeDirectory (hw : Keeps w none (some b) runs u m)
    (hsize : runs.size = 0) : Succeeds removeDirectory w fun _ w => Sorted w b u m := by
  refine (succeeds_directory hw).bind ?_
  rintro d w ⟨rfl, hw⟩
  rw [if_pos hsize]
  exact .of_eq rfl ⟨hw.placements, rfl, hw.ranges, hw.used, hw.maximum⟩

/-- The sorted rows are in the index, no run is left, and the budget is used as before. -/
theorem succeeds_sortChecked (hcheck : ∀ g, (check g).1 = .ok ())
    (hentries : 2 ≤ entries ∧ entries ≤ 1000000) (hfan : 2 ≤ fanIn ∧ fanIn ≤ 64) (hrows : ∀ r ∈ rows, r.Good) (hfuel : rows.length < fuel)
    (hplacements : w.placements = some (rowBytes rows)) (hranges : w.ranges = none)
    (hnone : w.runs = none)
    (hn : w.quota.used + Row.WIDTH * rows.length ≤ w.quota.maximum)
    (hm : w.quota.maximum < wordBound) :
    Succeeds (sortChecked check fuel entries fanIn) w fun total w' => total = rows.length ∧
      Sorted w' (rowBytes (rows.insertionSort (· ≤ ·))) w.quota.used w.quota.maximum := by
  have hlength : (rowBytes rows).length = Row.WIDTH * rows.length :=
    length_rowBytes fun r hr => (hrows r hr).1
  have hopen : openPlacements w = (.ok (rowBytes rows), w) := by
    rw [openPlacements, read_bind, hplacements]
    rfl
  have hcreate : createDirectory w = (.ok (), { w with runs := some .empty }) := by
    rw [createDirectory, read_bind, hnone]
    rfl
  have hw : Keeps { w with runs := some .empty } (some (rowBytes rows)) none .empty w.quota.used
      w.quota.maximum := ⟨hplacements, hranges, rfl, rfl, rfl⟩
  rw [sortChecked, if_neg (by omega)]
  have hread : Succeeds openPlacements w fun b w' => b = rowBytes rows ∧ w' = w :=
    .of_eq hopen ⟨rfl, rfl⟩
  have hdirectory : Succeeds createDirectory w fun _ v => v = { w with runs := some .empty } :=
    .of_eq hcreate rfl
  refine hread.bind ?_
  rintro b w' ⟨rfl, rfl⟩
  refine hdirectory.bind ?_
  rintro _ v rfl
  refine (succeeds_writeRuns hcheck hentries.1 hrows hfuel hw hn hm).bind ?_
  rintro out v₁ ⟨ls, runs, rfl, hparts, hfew, hruns, hv₁⟩
  refine (succeeds_removePlacements hv₁ (by omega)).bind fun _ v₂ hv₂ => ?_
  rw [hlength, Nat.add_sub_cancel] at hv₂
  by_cases hls : ls = []
  · subst hls
    obtain rfl : rows = [] := (Multiset.coe_eq_zero rows).1 hparts.pool.symm
    rw [List.length_nil, if_pos rfl]
    refine (succeeds_createRanges hv₂).bind fun _ v₃ hv₃ => ?_
    refine (succeeds_removeDirectory hv₃ (size_eq_zero hruns)).bind fun _ v₄ hv₄ => ?_
    exact .pure ⟨rfl, hv₄⟩
  · have hpos := List.length_pos_of_ne_nil hls
    rw [if_neg (by omega)]
    have hcard : (Multiset.ofList rows).card = rows.length := Multiset.coe_card rows
    refine (succeeds_mergeRuns hcheck hfan.1 hparts hls (fun r hr => hrows r (by simpa using hr))
      (by rwa [hcard]) (by omega) hruns hv₂ (by rwa [hcard]) hm).bind ?_
    rintro pass v₃ ⟨l, runs', hsorted, hperm, hruns', hv₃⟩
    have hsort : l = rows.insertionSort (· ≤ ·) := by
      have hl : l.Perm (rows.insertionSort (· ≤ ·)) :=
        (Multiset.coe_eq_coe.1 hperm).trans (List.perm_insertionSort _ _).symm
      exact hl.eq_of_pairwise (fun a b _ _ hab hba => le_antisymm hab hba) hsorted
        (List.pairwise_insertionSort _ _)
    subst hsort
    have hfile : runs'.get? (toLex (pass, 0)) = some (rowBytes (rows.insertionSort (· ≤ ·))) :=
      hruns'.get (i := 0) (by simp)
    refine (succeeds_renameRun hv₃ hfile).bind fun _ v₄ hv₄ => ?_
    have hempty : (runs'.erase (toLex (pass, 0))).size = 0 := by
      have hnothing : runs'.erase (toLex (pass, 0)) = .empty := OrdMap.ext_get? fun k => by
        rw [hruns'.erase k]
        simp
      rw [hnothing]
      rfl
    refine (succeeds_removeDirectory hv₄ hempty).bind fun _ v₅ hv₅ => ?_
    exact .pure ⟨rfl, hv₅⟩

/-- The call returns the number of rows and leaves an index that lists them in their order. -/
theorem sortChecked_sorts (hcheck : ∀ g, (check g).1 = .ok ())
    (hentries : 2 ≤ entries ∧ entries ≤ 1000000) (hfan : 2 ≤ fanIn ∧ fanIn ≤ 64)
    {rows : List Row} {file : List U8} (hrange : ∀ r ∈ rows, r.InRange)
    (hencode : Encoder.all Row.encode rows = .ok file) (hplacements : w.placements = some file)
    (hranges : w.ranges = none) (hruns : w.runs = none)
    (hquota : w.quota.used + file.length ≤ w.quota.maximum) (hmaximum : w.quota.maximum < wordBound)
    (hfuel : rows.length < fuel) :
    ∃ w' sorted, sortChecked check fuel entries fanIn w = (.ok rows.length, w') ∧
      Encoder.all Row.encode (rows.insertionSort (· ≤ ·)) = .ok sorted ∧
      Sorted w' sorted w.quota.used w.quota.maximum ∧
      ∃ x, Index.open sorted = .ok x ∧ x.Lists (rows.insertionSort (· ≤ ·)) := by
  obtain ⟨hvalid, rfl⟩ := all_encode_iff.1 hencode
  have hlength := length_rowBytes hvalid
  have hmem : ∀ r ∈ rows.insertionSort (· ≤ ·), r ∈ rows := fun r hr =>
    (List.mem_insertionSort _).1 hr
  have hsorted : Encoder.all Row.encode (rows.insertionSort (· ≤ ·)) =
      .ok (rowBytes (rows.insertionSort (· ≤ ·))) :=
    all_encode_iff.2 ⟨fun r hr => hvalid r (hmem r hr), rfl⟩
  have hsize : (rowBytes (rows.insertionSort (· ≤ ·))).length = (rowBytes rows).length := by
    rw [length_rowBytes fun r hr => hvalid r (hmem r hr), List.length_insertionSort, hlength]
  rw [hlength] at hquota
  obtain ⟨total, w', hrun, rfl, hw'⟩ := (succeeds_sortChecked hcheck hentries hfan
    (fun r hr => ⟨hvalid r hr, hrange r hr⟩) hfuel hplacements hranges hruns hquota
    hmaximum).exists_ok
  exact ⟨w', _, hrun, hsorted, hw', Index.lists_of_encode (fun r hr => hrange r (hmem r hr)) hsorted
    (by omega)⟩

def pairRow (start : ℤ) (ordinal : U64) : Row :=
  ⟨noDigest, 0, true, start, start + 2, 32, noDigest, ordinal⟩

def pairRows : List Row := [pairRow 4 1, pairRow (-2) 2, pairRow 4 3, pairRow 0 4, pairRow 4 1]

def pairWorkspace : Workspace Unit := ⟨some (rowBytes pairRows), none, none, ⟨560, 560, 1120⟩, ()⟩

/-- Five rows, one of them twice, in three runs. -/
theorem sortChecked_sorts_sample : ∃ w' sorted,
    sortChecked (pure ()) 6 2 2 pairWorkspace = (.ok 5, w') ∧
    Encoder.all Row.encode (pairRows.insertionSort (· ≤ ·)) = .ok sorted ∧
    Sorted w' sorted 560 1120 ∧
    ∃ x, Index.open sorted = .ok x ∧ x.Lists (pairRows.insertionSort (· ≤ ·)) := by
  have hrange : ∀ r ∈ pairRows, r.InRange := by decide
  have hvalid : ∀ r ∈ pairRows, r.Valid := by decide
  have hquota : pairWorkspace.quota.used + (rowBytes pairRows).length ≤
      pairWorkspace.quota.maximum := by
    rw [length_rowBytes hvalid]
    decide
  exact sortChecked_sorts (fun _ => rfl) (by decide) (by decide) hrange
    (all_encode_iff.2 ⟨hvalid, rfl⟩) rfl rfl rfl hquota (by decide) (by decide)

end RangeSort

end PcapEvidence.History
