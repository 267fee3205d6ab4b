import PcapEvidence.Segments

/-!
# What one call does to a segmented message

The exits of `push` are listed once. A chain that is not poisoned has no number behind its last one,
so one with as many parts as the last number says holds exactly the numbers up to it.
-/

namespace PcapEvidence.Segmentation

open Bgp History OrderedMap SortedVec

theorem eq_range_of_sorted {l : List ℕ} {n : ℕ} (hsorted : l.Pairwise (· < ·))
    (hlt : ∀ x ∈ l, x < n) (hlen : l.length = n) : l = List.range n := by
  have hnodup : l.Nodup := hsorted.imp fun h => h.ne
  have hsub : l ⊆ List.range n := fun x hx => List.mem_range.2 (hlt x hx)
  have hperm : l.Perm (List.range n) :=
    (List.subperm_of_subset hnodup hsub).perm_of_length_le (by simp [hlen])
  exact eq_of_sorted_of_mem_iff hsorted List.pairwise_lt_range fun x => hperm.mem_iff

theorem length_keys {κ ν : Type*} [LinearOrder κ] (m : OrdMap κ ν) : m.keys.length = m.size := by
  simp [OrdMap.keys, OrdMap.size]

theorem keys_eq_range {ν : Type*} {m : OrdMap ℕ ν} {n : ℕ} (hlt : ∀ k ∈ m.keys, k < n)
    (hsize : m.size = n) : m.keys = List.range n :=
  eq_range_of_sorted m.keys_sorted hlt (by rw [length_keys, hsize])

theorem mem_keys_insert {κ ν : Type*} [LinearOrder κ] (m : OrdMap κ ν) (k x : κ) (v : ν) :
    x ∈ (m.insert k v).keys ↔ x = k ∨ x ∈ m.keys := by
  simp only [OrdMap.mem_keys, OrdMap.get?_insert]
  by_cases hx : x = k
  · simp [hx]
  · simp [hx]

theorem erase_of_get?_none {κ ν : Type*} [LinearOrder κ] {m : OrdMap κ ν} {k : κ} {v : ν}
    (f : κ × ν → ℕ) (h : m.get? k = none) : (m.insert k v).total f = f (k, v) + m.total f := by
  rw [OrdMap.total_insert, OrdMap.erase_eq_self h]

namespace Chain

structure Sound (c : Chain) : Prop where
  valid : ∀ p ∈ c.parts.entries, p.2.bytes.Valid
  clean : c.poisoned = false → ∀ k ∈ c.parts.keys, behindLast c.last k = false

theorem sound_default : default.Sound where
  valid := by simp [default, OrdMap.empty]
  clean := by simp [default, OrdMap.empty, OrdMap.keys]

@[simp] theorem bytes_default : default.bytes = 0 := rfl

theorem bytes_accept {c : Chain} {s : Segment} (h : c.parts.get? s.ordinal = none) :
    (c.accept s).bytes = c.bytes + s.bytes.len := by
  have hparts := erase_of_get?_none (v := s) (fun p : ℕ × Segment => p.2.bytes.len) h
  simp only [accept, bytes, hparts]
  omega

theorem bytes_contradict (c : Chain) (s : Segment) :
    (c.contradict s).bytes = c.bytes + s.bytes.len := by
  simp only [contradict, bytes, List.map_append, List.map_cons, List.map_nil, List.sum_append,
    List.sum_cons, List.sum_nil]
  omega

theorem Sound.accept {c : Chain} {s : Segment} (h : c.Sound) (hs : s.bytes.Valid) :
    (c.accept s).Sound where
  valid := by
    intro p hp
    rcases (OrdMap.mem_insert _ _ _ _).1 hp with rfl | hp
    · exact hs
    · exact h.valid p hp.1
  clean := by
    intro hpoisoned k hk
    simp only [Chain.accept, Bool.or_eq_false_iff, List.any_eq_false] at hpoisoned
    rcases (mem_keys_insert _ _ _ _).1 hk with rfl | hk
    · exact hpoisoned.2.1
    · exact Bool.eq_false_iff.2 (hpoisoned.2.2 k hk)

theorem Sound.contradict {c : Chain} (h : c.Sound) (s : Segment) : (c.contradict s).Sound where
  valid := h.valid
  clean := by simp [Chain.contradict]

theorem Sound.keys_of_counted {c : Chain} (h : c.Sound) (hclean : c.poisoned = false)
    (hcounted : c.counted = true) :
    ∃ l, c.last = some l ∧ c.first = true ∧ c.parts.keys = List.range (l + 1) := by
  simp only [counted, Bool.and_eq_true, Option.any_eq_true, decide_eq_true_eq] at hcounted
  obtain ⟨hfirst, l, hlast, hsize⟩ := hcounted
  refine ⟨l, hlast, hfirst, keys_eq_range (fun k hk => ?_) hsize.symm⟩
  have hb := h.clean hclean k hk
  simp only [behindLast, hlast, Option.any_some, gt_iff_lt, decide_eq_false_iff_not,
    not_lt] at hb
  omega

theorem Sound.poisoned_accept {c : Chain} (h : c.Sound) (hclean : c.poisoned = false)
    (hcounted : c.counted = true) {s : Segment} (hnew : c.parts.get? s.ordinal = none) :
    (c.accept s).poisoned = true := by
  obtain ⟨l, hlast, -, hkeys⟩ := h.keys_of_counted hclean hcounted
  have hbehind : l < s.ordinal := by
    by_contra hle
    have hmem : s.ordinal ∈ c.parts.keys := by rw [hkeys, List.mem_range]; omega
    obtain ⟨v, hv⟩ := (OrdMap.mem_keys _ _).1 hmem
    simp [hnew] at hv
  have hne : l ≠ s.ordinal := hbehind.ne
  cases hfinal : s.finalSegment with
  | true => simp [Chain.accept, hlast, hfinal, hne]
  | false => simp [Chain.accept, hlast, hfinal, behindLast, hbehind]

end Chain

theorem append_limit {e other : EvidenceBytes} (he : e.Valid) (ho : other.Valid) (limit : ℕ) :
    (∃ x out, e.append other limit = (.error x, out) ∧ x.code = .limitExceeded) ∨
      ∃ out, e.append other limit = (.ok (), out) ∧ out.Valid ∧
        out.data = e.data ++ other.data := by
  by_cases hw : e.data.length + other.data.length < wordBound
  · by_cases hl : e.data.length + other.data.length ≤ limit
    · obtain ⟨out, hout, hvalid, hdata, -⟩ := EvidenceBytes.append_spec he ho hw hl
      exact Or.inr ⟨out, hout, hvalid, hdata⟩
    · left
      simp only [EvidenceBytes.append, he.1, ho.1, checkedAdd_of_lt hw]
      rw [if_neg (by simp), if_pos (by omega)]
      exact ⟨_, _, rfl, rfl⟩
  · left
    simp only [EvidenceBytes.append, he.1, ho.1, checkedAdd, if_neg hw]
    rw [if_neg (by simp)]
    exact ⟨_, _, rfl, rfl⟩

theorem assemble_spec {limits : Bgp.Limits} {es : List (ℕ × Segment)} {i : ℕ}
    {assembled : EvidenceBytes} (hkeys : es.map Prod.fst = List.range' i es.length)
    (hparts : ∀ p ∈ es, p.2.bytes.Valid) (ha : assembled.Valid) :
    (∃ e, assemble limits es i assembled = .error e ∧ e.code = .limitExceeded) ∨
      ∃ out, assemble limits es i assembled = .ok out ∧ out.Valid ∧
        out.data = assembled.data ++ es.flatMap fun p => p.2.bytes.data := by
  induction es generalizing i assembled with
  | nil => exact Or.inr ⟨assembled, rfl, ha, by simp⟩
  | cons p rest ih =>
    obtain ⟨ordinal, part⟩ := p
    simp only [List.map_cons, List.length_cons, List.range'_succ, List.cons.injEq] at hkeys
    obtain ⟨rfl, hrest⟩ := hkeys
    rw [assemble, if_neg (by simp)]
    split_ifs with hspans
    · exact Or.inl ⟨_, rfl, rfl⟩
    have hpart : part.bytes.Valid := hparts (ordinal, part) (by simp)
    rcases append_limit ha hpart limits.inputBytes with
      ⟨e, out, hout, hcode⟩ | ⟨out, hout, hvalid, hdata⟩
    · exact Or.inl ⟨e, by rw [hout], hcode⟩
    · rw [hout]
      rcases ih hrest (fun q hq => hparts q (by simp [hq])) hvalid with
        hlimit | ⟨final, hfinal, hfvalid, hfdata⟩
      · exact Or.inl hlimit
      · refine Or.inr ⟨final, hfinal, hfvalid, ?_⟩
        rw [hfdata, hdata, List.flatMap_cons, List.append_assoc]

namespace Segments

variable {g : Segments} {scope : String} {s : Segment}

/-- The exits of `push`. -/
inductive PushStep (g : Segments) (scope : String) (s : Segment) :
    Result Outcome × Segments → Prop
  | budget {e : Error} (limit : e.code = .limitExceeded) : PushStep g scope s (.error e, g)
  | misplaced {e : Error} (first : s.first = true) (ordinal : s.ordinal ≠ 0) :
      PushStep g scope s (.error e, g)
  | quarantined {o : Outcome} (poisoned : (g.chain scope).poisoned = true)
      (completed : o.completed = none) : PushStep g scope s (.ok o, g)
  | duplicate {o : Outcome} {old : Segment} (clean : (g.chain scope).poisoned = false)
      (there : (g.chain scope).parts.get? s.ordinal = some old)
      (same : sameSegment old s = true) (completed : o.completed = none) :
      PushStep g scope s (.ok o, g)
  | conflict {o : Outcome} {old : Segment} (clean : (g.chain scope).poisoned = false)
      (there : (g.chain scope).parts.get? s.ordinal = some old)
      (other : sameSegment old s = false) (completed : o.completed = none)
      (room : g.retained + s.bytes.len ≤ g.limits.retainedBytes) :
      PushStep g scope s
        (.ok o, g.store scope ((g.chain scope).contradict s) (g.retained + s.bytes.len))
  | refused {e : Error} (clean : (g.chain scope).poisoned = false)
      (new : (g.chain scope).parts.get? s.ordinal = none) (valid : s.bytes.Valid)
      (completion : completion g.limits ((g.chain scope).accept s) = .error e) :
      PushStep g scope s (.error e, g)
  | part {o : Outcome} (clean : (g.chain scope).poisoned = false)
      (new : (g.chain scope).parts.get? s.ordinal = none) (valid : s.bytes.Valid)
      (completion : completion g.limits ((g.chain scope).accept s) =
        .ok (o.status, o.reason, o.completed))
      (room : g.retained + s.bytes.len ≤ g.limits.retainedBytes) :
      PushStep g scope s
        (.ok o, g.store scope ((g.chain scope).accept s) (g.retained + s.bytes.len))

theorem pushConflict_step {old : Segment} (clean : (g.chain scope).poisoned = false)
    (there : (g.chain scope).parts.get? s.ordinal = some old) (other : sameSegment old s = false) :
    PushStep g scope s (g.pushConflict scope (g.chain scope) s) := by
  unfold pushConflict
  split
  · exact .budget rfl
  · rename_i total htotal
    obtain ⟨hadd, hroom⟩ := Option.filter_eq_some_iff.1 htotal
    obtain ⟨-, rfl⟩ := (checkedAdd_eq_some_iff _ _ _).1 hadd
    split_ifs
    · exact .budget rfl
    · exact .conflict clean there other rfl (by simpa using hroom)

theorem pushPart_step (clean : (g.chain scope).poisoned = false)
    (new : (g.chain scope).parts.get? s.ordinal = none) (valid : s.bytes.Valid) :
    PushStep g scope s (g.pushPart scope (g.chain scope) s) := by
  unfold pushPart
  split
  · exact .budget rfl
  · rename_i total hadd
    obtain ⟨-, rfl⟩ := (checkedAdd_eq_some_iff _ _ _).1 hadd
    split_ifs with hbytes
    · exact .budget rfl
    · exact .budget rfl
    · push Not at hbytes
      dsimp only
      cases hc : completion g.limits ((g.chain scope).accept s) with
      | error e => exact .refused clean new valid hc
      | ok r =>
        obtain ⟨status, reason, complete⟩ := r
        exact .part clean new valid hc hbytes.1

theorem push_step (g : Segments) (scope : String) (s : Segment) :
    PushStep g scope s (g.push scope s) := by
  unfold push
  dsimp only
  split_ifs with hinput hfirst hactive hpoisoned
  · exact .budget rfl
  · exact .misplaced hfirst.1 hfirst.2
  · exact .budget rfl
  · exact .quarantined hpoisoned rfl
  · push Not at hinput
    have hclean : (g.chain scope).poisoned = false := Bool.eq_false_iff.2 hpoisoned
    have hvalid : s.bytes.Valid := (EvidenceBytes.validate_iff _).1 (by simpa using hinput.2.2.1)
    cases hthere : (g.chain scope).parts.get? s.ordinal with
    | none => exact pushPart_step hclean hthere hvalid
    | some old =>
      dsimp only
      split_ifs with hsame
      · exact .duplicate hclean hthere hsame rfl
      · exact pushConflict_step hclean hthere (Bool.eq_false_iff.2 hsame)

end Segments
end PcapEvidence.Segmentation
