import PcapEvidence.FragmentRun

/-!
# Budgets and quarantine along a run

The accounting of the reassembler in every state of every run, and the fate of a quarantined set: a
push can only store it again, still quarantined, and an expiry can only drop it. No push of its key
completes in between.
-/

namespace PcapEvidence.FragmentReassembler

open Fragment EvidenceBytes OrderedMap

def Quarantined (r : FragmentReassembler) (key : Key) : Prop :=
  ∃ a, r.sets.get? key = some a ∧ a.poisoned = true

/-- The datagram is a fragment of the set stored under `key`. -/
def OfKey (key : Key) (datagram : Datagram) : Prop :=
  ∃ info, datagram.fragment = some info ∧ keyOf datagram info = key

theorem deadline_eq_some_iff (limits : Limits) (frame d : ℕ) :
    deadline limits frame = some d ↔
      d = frame + limits.fragmentFrameLifetime + 1 ∧ d < wordBound := by
  unfold deadline
  constructor
  · intro h
    obtain ⟨m, hm, hd⟩ := Option.bind_eq_some_iff.1 h
    obtain ⟨-, rfl⟩ := (checkedAdd_eq_some_iff _ _ _).1 hm
    obtain ⟨hlt, rfl⟩ := (checkedAdd_eq_some_iff _ _ _).1 hd
    exact ⟨rfl, hlt⟩
  · rintro ⟨rfl, hlt⟩
    rw [checkedAdd_of_lt (by omega), Option.bind_some, checkedAdd_of_lt hlt]

section Push

variable {r next : FragmentReassembler} {datagram : Datagram} {frame : ℕ} {key : Key}
  {result : Result FragmentOutcome}

theorem PushStep.error_unchanged (h : PushStep r datagram frame result next) {e : Error}
    (he : result = .error e) : next = r := by
  cases h with
  | failed => rfl
  | whole => rfl
  | range => rfl
  | quarantined => cases he
  | pending => cases he
  | completed => cases he

theorem Quarantined.current {info : FragmentInfo} (h : Quarantined r (keyOf datagram info)) :
    (r.current datagram info frame).poisoned = true := by
  obtain ⟨a, ha, hp⟩ := h
  simpa [FragmentReassembler.current, ha] using hp

theorem Quarantined.insert (h : Quarantined r key) {k : Key} {b : Assembly}
    (hb : k = key → b.poisoned = true) (hsets : next.sets = r.sets.insert k b) :
    Quarantined next key := by
  obtain ⟨a, ha, hp⟩ := h
  by_cases hk : k = key
  · exact ⟨b, by rw [hsets, hk, OrdMap.get?_insert_self], hb hk⟩
  · exact ⟨a, by rw [hsets, OrdMap.get?_insert_of_ne _ _ (Ne.symm hk), ha], hp⟩

theorem PushStep.quarantine (h : PushStep r datagram frame result next) (hq : Quarantined r key) :
    Quarantined next key ∧
      (OfKey key datagram → ∀ d packets, result ≠ .ok (.complete d packets)) := by
  cases h with
  | failed => exact ⟨hq, fun _ _ _ => by simp⟩
  | whole hfragment =>
    refine ⟨hq, ?_⟩
    rintro ⟨info, hinfo, -⟩
    simp [hfragment] at hinfo
  | range => exact ⟨hq, fun _ _ _ => by simp⟩
  | quarantined hadm hpoisoned hpackets hsets =>
    exact ⟨hq.insert (fun _ => hpoisoned) hsets, fun _ _ _ => by simp⟩
  | pending hadm hclean hsane hopen hsets =>
    refine ⟨hq.insert (fun hk => ?_) hsets, fun _ _ _ => by simp⟩
    subst hk
    simp [hq.current] at hclean
  | @completed info _ _ _ _ _ hadm hclean hsane hstop hvalid hlength hview hoccurs hsets =>
    have hk : keyOf datagram info ≠ key := by
      rintro rfl
      simp [hq.current] at hclean
    obtain ⟨a, ha, hp⟩ := hq
    refine ⟨⟨a, by rw [hsets, OrdMap.get?_erase, if_neg (Ne.symm hk), ha], hp⟩, ?_⟩
    rintro ⟨info', hinfo, hkey⟩
    rw [hadm.fragment] at hinfo
    cases hinfo
    exact absurd hkey hk

end Push

theorem Invariant.quarantine_pushes {r : FragmentReassembler} (h : Invariant r) {key : Key}
    (hq : Quarantined r key) (pushes : List (Datagram × ℕ)) :
    Quarantined (pushes.foldl (fun r p => (r.push p.1 p.2).2) r) key := by
  induction pushes generalizing r with
  | nil => exact hq
  | cons p rest ih =>
    obtain ⟨hstep, hinv, -⟩ := h.push p.1 p.2
    exact ih hinv (hstep.quarantine hq).1

/-- Every run has exact accounting, keeps every budget and one deadline for each set, and failed
pushes have no effect. -/
theorem run_accounting (limits : Limits) (ops : List Op) :
    (run limits ops).retained = ((run limits ops).sets.values.map (fun a =>
      (a.parts.map (fun p => p.bytes.data.length)).sum)).sum ∧
    (run limits ops).retained ≤ limits.maxRetainedPayload ∧
    (run limits ops).sets.size ≤ limits.maxFragmentSets ∧
    (∀ key a, (run limits ops).sets.get? key = some a →
      a.parts.length ≤ limits.maxFragmentsPerSet ∧ partBytes a ≤ (run limits ops).retained) ∧
    (∀ d key, toLex (d, key) ∈ (run limits ops).deadlines.keys ↔
      ∃ a, (run limits ops).sets.get? key = some a ∧
        d = a.firstFrame + limits.fragmentFrameLifetime + 1 ∧ d < wordBound) ∧
    (run limits ops).deadlines.keys.Nodup ∧
    (∀ datagram frame e, ((run limits ops).push datagram frame).1 = .error e →
      ((run limits ops).push datagram frame).2 = run limits ops) ∧
    ∀ key, Quarantined (run limits ops) key →
      (∀ pushes : List (Datagram × ℕ),
        Quarantined (pushes.foldl (fun r p => (r.push p.1 p.2).2) (run limits ops)) key) ∧
      (∀ datagram frame, OfKey key datagram → ∀ d packets,
        ((run limits ops).push datagram frame).1 ≠ .ok (.complete d packets)) ∧
      ∀ frame, ((run limits ops).expire frame).2.sets.get? key = none ∨
        ((run limits ops).expire frame).2.sets.get? key = (run limits ops).sets.get? key := by
  obtain ⟨hinv, hrun⟩ := invariant_run limits ops
  have hle := hinv.retained_le
  have hsize := hinv.sets_le
  rw [hrun] at hle hsize
  refine ⟨?_, hle, hsize, ?_, ?_, ?_, ?_, ?_⟩
  · rw [hinv.retained_eq, OrdMap.total, OrdMap.values, List.map_map]
    rfl
  · intro key a ha
    have hparts := (hinv.sane key a ha).parts_le
    rw [hrun] at hparts
    exact ⟨hparts, hinv.partBytes_le ha⟩
  · intro d key
    rw [OrdMap.mem_keys]
    simp only [OrdMap.get?_eq_some_iff]
    constructor
    · rintro ⟨⟨⟩, hmem⟩
      obtain ⟨a, ha, hd⟩ := (hinv.deadlines_iff d key).1 hmem
      rw [hrun, deadline_eq_some_iff] at hd
      exact ⟨a, (OrdMap.get?_eq_some_iff _ _ _).1 ha, hd⟩
    · rintro ⟨a, ha, hd⟩
      refine ⟨(), (hinv.deadlines_iff d key).2 ⟨a, (OrdMap.get?_eq_some_iff _ _ _).2 ha, ?_⟩⟩
      rwa [hrun, deadline_eq_some_iff]
  · exact (OrdMap.keys_sorted _).imp (fun h => h.ne)
  · exact fun datagram frame e he => (hinv.push datagram frame).1.error_unchanged he
  · intro key hq
    exact ⟨hinv.quarantine_pushes hq,
      fun datagram frame hkey => ((hinv.push datagram frame).1.quarantine hq).2 hkey,
      fun frame => (hinv.expireLoop frame _).2.2 key⟩

end PcapEvidence.FragmentReassembler
