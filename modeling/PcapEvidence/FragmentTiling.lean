import PcapEvidence.FragmentRun

/-!
# The parts of a set are the accepted fragments

`history` replays a run and collects, for one key, the fragments accepted since the set of that key
was last created. It is a ghost: the code keeps no such list. As long as the set is not quarantined
its stored parts are exactly these fragments, so a completed payload contains each of them.
-/

namespace PcapEvidence.FragmentReassembler

open Fragment EvidenceBytes OrderedMap

/-- A push took the fragment as a part. -/
def isAccepted : Result FragmentOutcome → Bool
  | .ok .pending => true
  | .ok (.complete _ _) => true
  | _ => false

/-- The part a push adds under `key`, if it adds one. -/
def acceptedPart (key : Key) (r : FragmentReassembler) (datagram : Datagram) (frame : ℕ) :
    List Part :=
  match datagram.fragment with
  | none => []
  | some info =>
    if keyOf datagram info = key ∧ isAccepted (r.push datagram frame).1 then
      [newPart datagram info]
    else []

def track (key : Key) (s : FragmentReassembler × List Part) (op : Op) :
    FragmentReassembler × List Part :=
  let kept := if (s.1.sets.get? key).isSome then s.2 else []
  (s.1.apply op, match op with
    | .push datagram frame => kept ++ acceptedPart key s.1 datagram frame
    | .expire _ => kept)

def history (limits : Limits) (key : Key) (ops : List Op) : List Part :=
  (ops.foldl (track key) (new limits, [])).2

theorem track_run (limits : Limits) (key : Key) (ops : List Op) :
    ops.foldl (track key) (new limits, []) = (run limits ops, history limits key ops) := by
  induction ops using List.reverseRecOn with
  | nil => rfl
  | append_singleton ops op ih =>
    rw [history, run, List.foldl_append, List.foldl_append, ih]
    rfl

theorem history_append (limits : Limits) (key : Key) (ops : List Op) (op : Op) :
    history limits key (ops ++ [op]) =
      (track key (run limits ops, history limits key ops) op).2 := by
  rw [history, List.foldl_append, track_run]
  rfl

/-- The collected fragments are the stored parts, unless the set is quarantined. -/
def Recorded (key : Key) (r : FragmentReassembler) (parts : List Part) : Prop :=
  ∀ a, r.sets.get? key = some a → a.poisoned = false → parts.Perm a.parts

section Track

variable {r next : FragmentReassembler} {key : Key} {parts : List Part} {datagram : Datagram}
  {frame : ℕ}

theorem Recorded.current (h : Recorded key r parts) {info : FragmentInfo}
    (hkey : keyOf datagram info = key) (hclean : (r.current datagram info frame).poisoned = false) :
    (if (r.sets.get? key).isSome then parts else []).Perm (r.current datagram info frame).parts := by
  subst hkey
  unfold FragmentReassembler.current at hclean ⊢
  cases hget : r.sets.get? (keyOf datagram info) with
  | none => simp [openAssembly]
  | some a =>
    rw [hget] at hclean
    simpa using h a hget hclean

theorem Recorded.unchanged (h : Recorded key r parts)
    (hsets : next.sets.get? key = r.sets.get? key) :
    Recorded key next ((if (r.sets.get? key).isSome then parts else []) ++ []) := by
  intro a ha hp
  rw [hsets] at ha
  simpa [ha] using h a ha hp

theorem perm_accepted_parts (info : FragmentInfo) (set : Assembly) (admitted : List PacketId) :
    (accepted datagram info set admitted).parts.Perm (set.parts ++ [newPart datagram info]) :=
  List.perm_insertionSort _ _

theorem acceptedPart_of_other {info : FragmentInfo} (hf : datagram.fragment = some info)
    (hkey : keyOf datagram info ≠ key) : acceptedPart key r datagram frame = [] := by
  simp [acceptedPart, hf, hkey]

theorem acceptedPart_of_not (h : isAccepted (r.push datagram frame).1 = false) :
    acceptedPart key r datagram frame = [] := by
  unfold acceptedPart
  cases datagram.fragment with
  | none => rfl
  | some info => simp [h]

theorem acceptedPart_of_accepted {info : FragmentInfo} (hf : datagram.fragment = some info)
    (h : isAccepted (r.push datagram frame).1 = true) :
    acceptedPart (keyOf datagram info) r datagram frame = [newPart datagram info] := by
  simp [acceptedPart, hf, h]

theorem Recorded.push (h : Recorded key r parts) (hinv : Invariant r) (datagram : Datagram)
    (frame : ℕ) :
    Recorded key (r.push datagram frame).2
      ((if (r.sets.get? key).isSome then parts else []) ++ acceptedPart key r datagram frame) := by
  obtain ⟨hstep, -, -⟩ := hinv.push datagram frame
  generalize hres : (r.push datagram frame).1 = res at hstep
  generalize (r.push datagram frame).2 = next at hstep
  cases hstep with
  | failed e hcode =>
    rw [acceptedPart_of_not (by rw [hres]; rfl)]
    exact h.unchanged rfl
  | whole hf =>
    rw [show acceptedPart key r datagram frame = [] by simp [acceptedPart, hf]]
    exact h.unchanged rfl
  | range info hf =>
    rw [acceptedPart_of_not (by rw [hres]; rfl)]
    exact h.unchanged rfl
  | @quarantined info _ _ _ a _ hadm hpoisoned hpackets hsets =>
    rw [acceptedPart_of_not (by rw [hres]; rfl)]
    by_cases hkey : keyOf datagram info = key
    · intro b hb hp
      rw [hsets, hkey, OrdMap.get?_insert_self] at hb
      cases hb
      simp [hpoisoned] at hp
    · exact h.unchanged (by rw [hsets, OrdMap.get?_insert_of_ne _ _ (Ne.symm hkey)])
  | @pending info _ _ _ hadm hclean hsane hopen hsets =>
    by_cases hkey : keyOf datagram info = key
    · subst hkey
      rw [acceptedPart_of_accepted hadm.fragment (by rw [hres]; rfl)]
      intro b hb hp
      rw [hsets, OrdMap.get?_insert_self] at hb
      cases hb
      exact ((h.current rfl hclean).append_right _).trans (perm_accepted_parts _ _ _).symm
    · rw [acceptedPart_of_other hadm.fragment hkey]
      exact h.unchanged (by rw [hsets, OrdMap.get?_insert_of_ne _ _ (Ne.symm hkey)])
  | @completed info _ _ _ _ _ hadm hclean hsane hstop hvalid hlength hview hoccurs hsets =>
    by_cases hkey : keyOf datagram info = key
    · intro b hb
      rw [hsets, hkey, OrdMap.get?_erase, if_pos rfl] at hb
      cases hb
    · rw [acceptedPart_of_other hadm.fragment hkey]
      exact h.unchanged (by rw [hsets, OrdMap.get?_erase, if_neg (Ne.symm hkey)])

end Track

theorem recorded_run (limits : Limits) (key : Key) (ops : List Op) :
    Recorded key (run limits ops) (history limits key ops) := by
  induction ops using List.reverseRecOn with
  | nil =>
    intro a ha
    cases ha
  | append_singleton ops op ih =>
    have hinv := (invariant_run limits ops).1
    have hrun : run limits (ops ++ [op]) = (run limits ops).apply op := by
      rw [run, List.foldl_append]
      rfl
    rw [hrun, history_append]
    cases op with
    | push datagram frame => exact ih.push hinv datagram frame
    | expire frame =>
      intro a ha hp
      rcases (hinv.expireLoop frame _).2.2 key with hnone | hsame
      · exact absurd (ha.symm.trans hnone) (by simp)
      · have hold : (run limits ops).sets.get? key = some a := hsame.symm.trans ha
        simpa [track, hold] using ih a hold hp

def Contains (payload : List U8) (parts : List Part) : Prop :=
  (∀ p ∈ parts, (payload.drop p.start).take p.bytes.data.length = p.bytes.data) ∧
  (∀ p ∈ parts, p.more = false → p.stop = payload.length) ∧
  ∃ p ∈ parts, p.more = false

theorem complete_contains {limits : Limits} {ops : List Op} {datagram out : Datagram} {frame : ℕ}
    {info : FragmentInfo} {packets : List PacketId} (hf : datagram.fragment = some info)
    (h : ((run limits ops).push datagram frame).1 = .ok (.complete out packets)) :
    Contains out.payload.data
      (history limits (keyOf datagram info) (ops ++ [.push datagram frame])) := by
  have hrec := recorded_run limits (keyOf datagram info) ops
  obtain ⟨hstep, -, -⟩ := (invariant_run limits ops).1.push datagram frame
  rw [history_append]
  have hacc : acceptedPart (keyOf datagram info) (run limits ops) datagram frame =
      [newPart datagram info] := acceptedPart_of_accepted hf (by rw [h]; rfl)
  simp only [track, hacc]
  generalize hnext : ((run limits ops).push datagram frame).2 = next at hstep
  rw [h] at hstep
  cases hstep with
  | whole hnone => simp [hf] at hnone
  | @completed info' _ _ total joined _ hadm hclean hsane hstop hvalid hlength hview hoccurs hsets =>
    have hinfo : info' = info := Option.some.inj (hadm.fragment.symm.trans hf)
    subst hinfo
    have hperm := ((hrec.current rfl hclean).append_right [newPart datagram info']).trans
      (perm_accepted_parts info' _ packets).symm
    refine ⟨fun p hp => hoccurs p (hperm.mem_iff.1 hp), fun p hp hmore => ?_, ?_⟩
    · have hp' := hsane.terminal hclean p (hperm.mem_iff.1 hp) hmore
      rw [hstop] at hp'
      exact (Option.some.inj hp').symm.trans hlength.symm
    · obtain ⟨p, hp, hmore, -⟩ := hsane.terminal_mem hclean total hstop
      exact ⟨p, hperm.mem_iff.2 hp, hmore⟩

end PcapEvidence.FragmentReassembler

/-!
## Tilings complete in every arrival order

Fragments whose ranges tile one datagram are pushed in an arbitrary order. `Stage` is what the
stored set looks like after a proper part of them: their parts in offset order, the total once the
terminal fragment is there, the header metadata once the first one is.
-/

namespace PcapEvidence.FragmentReassembler

open Fragment EvidenceBytes OrderedMap SortedVec

def partOf (d : Datagram) : Part :=
  ⟨d.fragment.elim 0 (·.offset), d.fragment.elim true (·.more), d.payload⟩

/-- The ranges tile one datagram, and exactly one fragment lacks the more flag and ends at `total`.
-/
structure Tiling (key : Key) (total : ℕ) (frags : List Datagram) : Prop where
  ofKey : ∀ d ∈ frags, ∃ info, d.fragment = some info ∧ keyOf d info = key
  payload : ∀ d ∈ frags, d.payload.Valid ∧ d.payload.data ≠ []
  inside : ∀ d ∈ frags, (partOf d).stop ≤ total
  disjoint : frags.Pairwise (fun d d' =>
    (partOf d).stop ≤ (partOf d').start ∨ (partOf d').stop ≤ (partOf d).start)
  cover : ∀ x < total, ∃ d ∈ frags, (partOf d).start ≤ x ∧ x < (partOf d).stop
  terminal : (frags.filter (fun d => !(partOf d).more)).map (fun d => (partOf d).stop) = [total]
  length : ∀ d ∈ frags, (partOf d).start = 0 → total + overhead key d ≤ 65535

structure Budget (r : FragmentReassembler) (frags : List Datagram) : Prop where
  limits : r.limits.Valid
  sets : r.sets.size < r.limits.maxFragmentSets
  fragments : frags.length ≤ r.limits.maxFragmentsPerSet
  packets : (sortDedup (frags.flatMap (·.payload.packets))).length ≤ r.limits.maxFragmentsPerSet
  payload : r.retained + (frags.map (·.payload.data.length)).sum ≤ r.limits.maxRetainedPayload
  -- the limit itself is a machine word
  word : r.limits.maxRetainedPayload < wordBound

def pushAll (r : FragmentReassembler) :
    List (Datagram × ℕ) → List (Result FragmentOutcome) × FragmentReassembler
  | [] => ([], r)
  | (d, frame) :: rest =>
    ((r.push d frame).1 :: ((r.push d frame).2.pushAll rest).1, ((r.push d frame).2.pushAll rest).2)

theorem coverCursor_of_cover {c total : ℕ} {parts : List Part} (hc : c ≤ total)
    (hsorted : parts.Pairwise (fun p q => p.start ≤ q.start))
    (hparts : ∀ p ∈ parts, p.start < p.stop ∧ p.stop ≤ total)
    (hcover : ∀ x, c ≤ x → x < total → ∃ p ∈ parts, p.start ≤ x ∧ x < p.stop) :
    coverCursor c parts = total := by
  induction parts generalizing c with
  | nil =>
    by_contra hne
    have hlt : c < total := lt_of_le_of_ne hc hne
    obtain ⟨p, hp, -⟩ := hcover c le_rfl hlt
    cases hp
  | cons p rest ih =>
    obtain ⟨hfirst, hsorted⟩ := List.pairwise_cons.1 hsorted
    obtain ⟨hne, hle⟩ := hparts p (by simp)
    have hstart : p.start ≤ c := by
      by_contra hgap
      obtain ⟨q, hq, hqc, -⟩ := hcover c le_rfl (by omega)
      rcases List.mem_cons.1 hq with rfl | hq
      · exact hgap hqc
      · exact hgap ((hfirst q hq).trans hqc)
    rw [coverCursor, if_neg (by omega)]
    refine ih (max_le hc hle) hsorted (fun q hq => hparts q (by simp [hq])) ?_
    intro x hx hxt
    obtain ⟨q, hq, hqx⟩ := hcover x (by omega) hxt
    rcases List.mem_cons.1 hq with rfl | hq
    · omega
    · exact ⟨q, hq, hqx⟩

theorem cover_of_chained {c total : ℕ} {parts : List Part} (h : Chained c parts)
    (hreach : reach c parts = total) (x : ℕ) (hx : c ≤ x) (hxt : x < total) :
    ∃ p ∈ parts, p.start ≤ x ∧ x < p.stop := by
  induction parts generalizing c with
  | nil =>
    change c = total at hreach
    omega
  | cons p rest ih =>
    obtain ⟨hstart, hrest⟩ := h
    by_cases hin : x < p.stop
    · exact ⟨p, by simp, by omega, hin⟩
    · obtain ⟨q, hq, hqx⟩ := ih hrest hreach (by omega)
      exact ⟨q, by simp [hq], hqx⟩

theorem eq_flatMap_of_contains {c : ℕ} {parts : List Part} {data : List U8} (h : Chained c parts)
    (hlow : ∀ p ∈ parts, c ≤ p.start)
    (hdisjoint : parts.Pairwise (fun p q => p.stop ≤ q.start))
    (hlen : data.length = reach c parts)
    (hoccurs : ∀ p ∈ parts, (data.drop p.start).take p.bytes.data.length = p.bytes.data) :
    data.drop c = parts.flatMap (·.bytes.data) := by
  induction parts generalizing c with
  | nil =>
    change data.length = c at hlen
    rw [List.drop_eq_nil_of_le (by omega)]
    rfl
  | cons p rest ih =>
    obtain ⟨hstart, hrest⟩ := h
    obtain ⟨hafter, hdisjoint⟩ := List.pairwise_cons.1 hdisjoint
    have hc : p.start = c := le_antisymm hstart (hlow p (by simp))
    have hstop := part_stop p
    have hmax : max c p.stop = p.stop := by omega
    rw [hmax] at hrest
    have htail : data.drop p.stop = rest.flatMap (·.bytes.data) := by
      apply ih hrest hafter hdisjoint
      · rw [hlen]
        change reach (max c p.stop) rest = _
        rw [hmax]
      · exact fun q hq => hoccurs q (by simp [hq])
    rw [List.flatMap_cons, ← htail, ← hoccurs p (by simp), hc, hstop, hc, ← List.drop_drop]
    exact (List.take_append_drop _ _).symm

theorem overlapRejection_of_disjoint {v6 : Bool} {new : Part} {parts : List Part}
    (h : ∀ p ∈ parts, ¬ max p.start new.start < min p.stop new.stop) :
    overlapRejection v6 new none parts = none := by
  induction parts with
  | nil => rfl
  | cons p rest ih =>
    rw [overlapRejection, if_neg (h p (by simp))]
    exact ih (fun q hq => h q (by simp [hq]))

theorem rejection_of_disjoint {key : Key} {set : Assembly} {new : Part}
    (hterm : new.more = false → set.stop = none)
    (hin : ∀ t, (if new.more then set.stop else some new.stop) = some t →
      outside t new.stop new.more = false ∧ ∀ p ∈ set.parts, outside t p.stop p.more = false)
    (hdisjoint : ∀ p ∈ set.parts, ¬ max p.start new.start < min p.stop new.stop) :
    rejection key set new = none := by
  have hfirst : ¬ (!new.more && set.stop.any (· ≠ new.stop)) = true := by
    intro h
    simp only [Bool.and_eq_true, Bool.not_eq_true'] at h
    simp [hterm h.1] at h
  have hsecond : ¬ (if new.more then set.stop else some new.stop).any (fun t =>
      outside t new.stop new.more || set.parts.any (fun p => outside t p.stop p.more)) = true := by
    intro h
    obtain ⟨t, ht, hany⟩ := (Option.any_eq_true _ _).1 h
    obtain ⟨hnew, hold⟩ := hin t ht
    simp only [hnew, Bool.false_or, List.any_eq_true] at hany
    obtain ⟨p, hp, hpo⟩ := hany
    simp [hold p hp] at hpo
  unfold rejection
  dsimp only
  rw [if_neg hfirst, if_neg hsecond]
  exact overlapRejection_of_disjoint hdisjoint

end PcapEvidence.FragmentReassembler
