import PcapEvidence.BgpAttributes

/-!
# The hops of an AS path

A path as the sequence of its hops: an element of a sequence is one, a nonempty set is one, and a
confederation segment is none. The reconstruction of a path from AS4_PATH keeps leading hops of the
base and puts the hops of the suffix behind them.
-/

namespace PcapEvidence.Bgp.Wire

inductive Hop where
  | element (kind : U8) (asn : U32)
  | set (values : List U32)
  deriving DecidableEq

def AsPathSegment.isSet (s : AsPathSegment) : Bool := s.kind = 1

def AsPathSegment.hops (s : AsPathSegment) : List Hop :=
  if isConfederation s then []
  else if s.kind = 1 then (if s.values = [] then [] else [.set s.values])
  else s.values.map (.element s.kind)

def hops (path : List AsPathSegment) : List Hop := path.flatMap AsPathSegment.hops

section Hops

variable {base : List AsPathSegment} {s : AsPathSegment} {count : ℕ}

theorem hops_cons (s : AsPathSegment) (path : List AsPathSegment) : hops (s :: path) = s.hops ++ hops path :=
  List.flatMap_cons

theorem hops_append (a b : List AsPathSegment) : hops (a ++ b) = hops a ++ hops b :=
  List.flatMap_append

theorem AsPathSegment.hops_confederation (h : isConfederation s) : s.hops = [] :=
  if_pos h

theorem AsPathSegment.hops_set (h : ¬ isConfederation s) (hset : s.kind = 1) :
    s.hops = if s.values = [] then [] else [.set s.values] := by
  rw [AsPathSegment.hops, if_neg h, if_pos hset]

theorem AsPathSegment.hops_sequence (h : ¬ isConfederation s) (hset : s.kind ≠ 1) :
    s.hops = s.values.map (.element s.kind) := by
  rw [AsPathSegment.hops, if_neg h, if_neg hset]

theorem pathCount_eq_length (path : List AsPathSegment) : pathCount path = (hops path).length := by
  induction path with
  | nil => rfl
  | cons s path ih =>
    rw [hops_cons, List.length_append, ← ih]
    unfold pathCount
    by_cases hconf : isConfederation s
    · rw [AsPathSegment.hops_confederation hconf, List.filter_cons_of_neg (by simpa using hconf)]
      simp
    · rw [List.filter_cons_of_pos (by simpa using hconf), List.map_cons, List.sum_cons]
      congr 1
      by_cases hset : s.kind = 1
      · rw [AsPathSegment.hops_set hconf hset, if_pos hset]
        split_ifs <;> rfl
      · rw [AsPathSegment.hops_sequence hconf hset, if_neg hset, List.length_map]

theorem AsPathSegment.hops_take (h : ¬ isConfederation s) (hset : s.kind ≠ 1) (n : ℕ) :
    AsPathSegment.hops ⟨s.kind, s.values.take n⟩ = s.hops.take n := by
  have hcut : ¬ isConfederation ⟨s.kind, s.values.take n⟩ := h
  rw [AsPathSegment.hops_sequence hcut hset, AsPathSegment.hops_sequence h hset, List.map_take]

theorem hops_leadingPath (base : List AsPathSegment) (count : ℕ) :
    hops (leadingPath base count) = (hops base).take count := by
  induction base generalizing count with
  | nil => simp [leadingPath, hops]
  | cons s base ih =>
    rw [leadingPath, hops_cons]
    by_cases hconf : isConfederation s
    · rw [if_pos hconf, hops_cons, AsPathSegment.hops_confederation hconf, ih]
      rfl
    rw [if_neg hconf]
    by_cases hcount : count = 0
    · rw [if_pos hcount, hcount, List.take_zero]
      rfl
    rw [if_neg hcount, List.take_append, hops_append, ih]
    by_cases hset : s.kind = 1
    · rw [AsPathSegment.hops_set hconf hset]
      by_cases hempty : s.values = []
      · simp [hset, hempty, hops]
      · have hpos : s.values.length > 0 := List.length_pos_iff.2 hempty
        have hone : [Hop.set s.values].take count = [Hop.set s.values] :=
          List.take_of_length_le (Nat.one_le_iff_ne_zero.2 hcount)
        have hself : (⟨s.kind, s.values.take s.values.length⟩ : AsPathSegment) = s := by
          rw [List.take_length]
        have hhops : hops [s] = [Hop.set s.values] := by
          rw [hops, List.flatMap_singleton, AsPathSegment.hops_set hconf hset, if_neg hempty]
        rw [if_pos hset, if_pos hpos, hself, hhops, if_neg hempty, hone, if_pos hset, if_pos hpos]
        rfl
    · have htake : s.values.take (min count s.values.length) = s.values.take count := by
        rw [← List.take_take, List.take_length]
      rw [if_neg hset, if_neg hset, htake]
      have hlength : s.hops.length = s.values.length := by
        rw [AsPathSegment.hops_sequence hconf hset, List.length_map]
      congr 1
      · by_cases hempty : s.values = []
        · rw [AsPathSegment.hops_sequence hconf hset]
          simp [hempty, hops]
        · have hpos := List.length_pos_iff.2 hempty
          rw [if_pos (by omega), hops, List.flatMap_singleton, AsPathSegment.hops_take hconf hset]
      · rw [hlength]
        congr 1
        omega

theorem leadingPath_cons (base : List AsPathSegment) (h : ¬ isConfederation s) (hcount : count ≠ 0) :
    ∃ take rest, leadingPath (s :: base) count =
        (if take > 0 then [⟨s.kind, s.values.take take⟩] else []) ++ leadingPath base rest ∧
      (s.kind = 1 → take = s.values.length) := by
  rw [leadingPath, if_neg h, if_neg hcount]
  refine ⟨_, _, rfl, fun hset => ?_⟩
  rw [if_pos hset]

theorem sets_leadingPath (base : List AsPathSegment) (count : ℕ) :
    ((leadingPath base count).filter AsPathSegment.isSet).Sublist
      (base.filter AsPathSegment.isSet) := by
  induction base generalizing count with
  | nil => exact List.Sublist.refl _
  | cons s base ih =>
    by_cases hconf : isConfederation s
    · rw [leadingPath, if_pos hconf]
      by_cases hset : s.isSet
      · rw [List.filter_cons_of_pos hset, List.filter_cons_of_pos hset]
        exact (ih count).cons_cons s
      · rw [List.filter_cons_of_neg hset, List.filter_cons_of_neg hset]
        exact ih count
    by_cases hcount : count = 0
    · rw [leadingPath, if_neg hconf, if_pos hcount]
      exact List.nil_sublist _
    obtain ⟨take, rest, hlead, hwhole⟩ := leadingPath_cons base hconf hcount
    rw [hlead, List.filter_append]
    by_cases hset : s.isSet
    · have hself : (⟨s.kind, s.values.take take⟩ : AsPathSegment) = s := by
        rw [hwhole (of_decide_eq_true hset), List.take_length]
      rw [List.filter_cons_of_pos hset, hself]
      split
      · rw [List.filter_cons_of_pos hset]
        exact (ih rest).cons_cons s
      · exact (ih rest).cons s
    · have hcut : ¬ (⟨s.kind, s.values.take take⟩ : AsPathSegment).isSet := hset
      rw [List.filter_cons_of_neg hset]
      split
      · rw [List.filter_cons_of_neg hcut]
        exact ih rest
      · exact ih rest

theorem confederations_leadingPath (base : List AsPathSegment) (count : ℕ) :
    (leadingPath base count).filter isConfederation <+: base.filter isConfederation := by
  induction base generalizing count with
  | nil => exact List.prefix_rfl
  | cons s base ih =>
    by_cases hconf : isConfederation s
    · rw [leadingPath, if_pos hconf, List.filter_cons_of_pos hconf, List.filter_cons_of_pos hconf]
      exact (List.prefix_cons_inj s).2 (ih count)
    rw [List.filter_cons_of_neg hconf]
    by_cases hcount : count = 0
    · rw [leadingPath, if_neg hconf, if_pos hcount]
      exact List.nil_prefix
    obtain ⟨take, rest, hlead, _⟩ := leadingPath_cons base hconf hcount
    have hcut : ¬ isConfederation ⟨s.kind, s.values.take take⟩ := hconf
    rw [hlead, List.filter_append]
    split
    · rw [List.filter_cons_of_neg hcut]
      exact ih rest
    · exact ih rest

end Hops

section Reconstruction

variable {base as4 : List AsPathSegment}

theorem filter_suffix (as4 : List AsPathSegment) :
    (as4.filter fun s => !isConfederation s).filter isConfederation = [] := by
  rw [List.filter_filter, List.filter_eq_nil_iff]
  intro s _
  simp

theorem reconstructAs4Suffix_kept
    (h : pathCount (as4.filter fun s => !isConfederation s) ≤ pathCount base) :
    (reconstructAs4Suffix base as4).1 =
      leadingPath base (pathCount base - pathCount (as4.filter fun s => !isConfederation s)) ++
        as4.filter fun s => !isConfederation s := by
  rw [reconstructAs4Suffix, if_neg (Nat.not_lt.2 h)]

/-- The hops of a reconstructed path are the leading ones of the base and those of the suffix; sets
stay whole, and confederation segments are dropped from some point on. -/
theorem reconstructAs4Suffix_exact (base as4 : List AsPathSegment) :
    let suffix := as4.filter fun s => !isConfederation s
    let result := (reconstructAs4Suffix base as4).1
    if pathCount suffix > pathCount base then result = base
    else pathCount result = pathCount base ∧
      hops result = (hops base).take (pathCount base - pathCount suffix) ++ hops suffix ∧
      (∃ kept, result = kept ++ suffix ∧
        (kept.filter AsPathSegment.isSet).Sublist (base.filter AsPathSegment.isSet)) ∧
      result.filter isConfederation <+: base.filter isConfederation := by
  intro suffix result
  split
  next hlong => exact congrArg Prod.fst (if_pos hlong)
  next hshort =>
    have hle : pathCount suffix ≤ pathCount base := Nat.not_lt.1 hshort
    have hkept : result = leadingPath base (pathCount base - pathCount suffix) ++ suffix :=
      reconstructAs4Suffix_kept hle
    have hhops : hops result =
        (hops base).take (pathCount base - pathCount suffix) ++ hops suffix := by
      rw [hkept, hops_append, hops_leadingPath]
    refine ⟨?_, hhops, ⟨_, hkept, sets_leadingPath base _⟩, ?_⟩
    · have hlength : (hops suffix).length = pathCount suffix := (pathCount_eq_length suffix).symm
      rw [pathCount_eq_length result, hhops, List.length_append, List.length_take,
        ← pathCount_eq_length base, hlength]
      omega
    · rw [hkept, List.filter_append, filter_suffix, List.append_nil]
      exact confederations_leadingPath base _

/-- A set without values is no hop: it is dropped from the base and leaves no gap. -/
theorem empty_set_is_no_hop :
    ¬ ∀ base as4 : List AsPathSegment,
      let suffix := as4.filter fun s => !isConfederation s
      let eachSet := fun path : List AsPathSegment => path.flatMap fun s =>
        if isConfederation s then [] else if s.kind = 1 then [Hop.set s.values]
        else s.values.map (Hop.element s.kind)
      pathCount suffix ≤ pathCount base →
        eachSet (reconstructAs4Suffix base as4).1 =
          (eachSet base).take (pathCount base - pathCount suffix) ++ eachSet suffix := by
  intro hall
  have h := hall [⟨1, []⟩, ⟨2, [1, 2]⟩] [] (by decide)
  revert h
  decide

end Reconstruction

end PcapEvidence.Bgp.Wire
