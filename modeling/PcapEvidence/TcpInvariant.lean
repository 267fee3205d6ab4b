import PcapEvidence.TcpStep

/-!
# Bookkeeping along every run of the tracker

The invariant holds in a new tracker and is kept by every step, so it holds in every reachable
state. Together with the list of steps this gives the atomicity of a call: it changes nothing, or
appends one input to one flow.
-/

namespace PcapEvidence

namespace Flow

variable (f : Flow) (d : Fin 2) (packets : List PacketId) (when : Option ℤ) (segment : TcpSegment)

theorem note_frame : (f.note when).id = f.id ∧ (f.note when).generation = f.generation ∧
    (f.note when).key = f.key ∧ (f.note when).syn = f.syn ∧ (f.note when).fin = f.fin ∧
    (f.note when).finNext = f.finNext ∧ (f.note when).closed = f.closed ∧
    (f.note when).rstSeen = f.rstSeen ∧ (f.note when).inputs = f.inputs := by
  cases when <;> exact ⟨rfl, rfl, rfl, rfl, rfl, rfl, rfl, rfl, rfl⟩

@[simp] theorem accept_id : (f.accept d packets when segment).id = f.id :=
  (note_frame (f.sequence d segment) when).1

@[simp] theorem accept_generation : (f.accept d packets when segment).generation = f.generation :=
  (note_frame (f.sequence d segment) when).2.1

@[simp] theorem accept_key : (f.accept d packets when segment).key = f.key :=
  (note_frame (f.sequence d segment) when).2.2.1

@[simp] theorem accept_inputs :
    (f.accept d packets when segment).inputs = f.inputs ++ [⟨d, segment⟩] := by
  change ((f.sequence d segment).note when).inputs ++ _ = _
  rw [(note_frame (f.sequence d segment) when).2.2.2.2.2.2.2.2]
  rfl

theorem accept_packets : (f.accept d packets when segment).packets =
    f.packets ++ packets ++ segment.payload.packets := by
  cases when <;> rfl

theorem accept_syn : (f.accept d packets when segment).syn =
    if segment.syn then Function.update f.syn d (some segment.sequence) else f.syn :=
  (note_frame (f.sequence d segment) when).2.2.2.1

theorem accept_closed : (f.accept d packets when segment).closed =
    (f.closed || (f.rstSeen || segment.rst) ||
      ((f.sequence d segment).fin 0 && (f.sequence d segment).fin 1)) := by
  obtain ⟨-, -, -, -, hfin, -, hclosed, hrst, -⟩ := note_frame (f.sequence d segment) when
  change (((f.sequence d segment).note when).closed ||
    (((f.sequence d segment).note when).rstSeen || segment.rst) ||
      (((f.sequence d segment).note when).fin 0 && ((f.sequence d segment).note when).fin 1)) = _
  rw [hfin, hclosed, hrst]
  rfl

theorem accept_closed_of_closed (h : f.closed = true) :
    (f.accept d packets when segment).closed = true := by
  rw [accept_closed, h]
  rfl

end Flow

namespace TcpTracker

open OrderedMap

theorem inputBytes_accept (f : Flow) (d : Fin 2) (packets : List PacketId) (when : Option ℤ)
    (segment : TcpSegment) :
    inputBytes (f.accept d packets when segment) = inputBytes f + segment.payload.data.length := by
  simp [inputBytes]

theorem sum_map_set {α : Type} (g : α → ℕ) (l : List α) {i : ℕ} {x y : α} (h : l[i]? = some x) :
    ((l.set i y).map g).sum + g x = (l.map g).sum + g y := by
  induction l generalizing i with
  | nil => cases h
  | cons z l ih =>
    cases i with
    | zero =>
      cases h
      simp only [List.set_cons_zero, List.map_cons, List.sum_cons]
      omega
    | succ i =>
      have := ih (i := i) (by simpa using h)
      simp only [List.set_cons_succ, List.map_cons, List.sum_cons]
      omega

theorem new_ok {limits : Limits} {idleNs : ℤ} {t : TcpTracker} (h : new limits idleNs = .ok t) :
    limits.Valid ∧ 0 < idleNs ∧ t = ⟨.empty, [], 0, limits, idleNs⟩ := by
  obtain ⟨⟨⟩, hv, h⟩ := bind_eq_ok.1 h
  split_ifs at h with hidle
  exact ⟨hv, by omega, (Except.ok.inj h).symm⟩

theorem invariant_new {limits : Limits} {idleNs : ℤ} {t : TcpTracker}
    (h : new limits idleNs = .ok t) : Invariant t := by
  obtain ⟨hv, -, rfl⟩ := new_ok h
  constructor
  · exact hv
  · intro i f hf
    cases hf
  · intro key i
    simp [history]
  · intro key
    exact List.Pairwise.nil
  · intro key j i f hj
    cases hj
  · rfl
  · exact Nat.zero_le _

section Step

variable {t next : TcpTracker} {c : Call} {result : Result Assignment}

/-- With evidence at hand only the budgets refuse a segment. -/
theorem ingest_error {e : Error} (hpackets : c.packets ≠ []) (h : (t.apply c).1 = .error e) :
    e.code ≠ .invariant := by
  have hrecord (u : TcpTracker) (id : ℕ) (d : Fin 2) (retained : ℕ)
      (hr : (u.record id d c.packets c.when c.segment retained).1 = .error e) :
      e.code ≠ .invariant := by
    unfold record at hr
    dsimp only at hr
    split_ifs at hr
    cases hr
    simp
  unfold apply ingestWithPackets at h
  rw [if_neg hpackets] at h
  split at h
  next =>
    cases h
    simp
  next retained _ =>
    split_ifs at h
    · cases h
      simp
    · dsimp only at h
      unfold commit at h
      split at h
      next => exact hrecord _ _ _ _ h
      next =>
        split at h
        next e' hcreate =>
          cases h
          unfold create at hcreate
          split_ifs at hcreate
          cases hcreate
          simp
        next => exact hrecord _ _ _ _ h
      next => cases h
      next => cases h

theorem Invariant.existing (h : Invariant t) {id : ℕ} {f : Flow} (hget : t.flows[id]? = some f)
    (hle : t.retained + c.segment.payload.data.length ≤ t.limits.maxRetainedPayload) :
    Invariant { t with
      flows := t.flows.set id (f.accept c.direction c.packets c.when c.segment)
      retained := t.retained + c.segment.payload.data.length } := by
  obtain ⟨hlt, -⟩ := List.getElem?_eq_some_iff.1 hget
  -- a flow of the new state has the id, key and generation of the old flow at its place
  have hold (i : ℕ) (g : Flow)
      (hg : (t.flows.set id (f.accept c.direction c.packets c.when c.segment))[i]? = some g) :
      ∃ g₀, t.flows[i]? = some g₀ ∧ g.id = g₀.id ∧ g.key = g₀.key ∧
        g.generation = g₀.generation := by
    rw [List.getElem?_set] at hg
    split_ifs at hg with hi
    · cases hg
      exact ⟨f, hi ▸ hget, by simp, by simp, by simp⟩
    · exact ⟨g, hg, rfl, rfl, rfl⟩
  have hnew (i : ℕ) (g₀ : Flow) (hg : t.flows[i]? = some g₀) :
      ∃ g, (t.flows.set id (f.accept c.direction c.packets c.when c.segment))[i]? = some g ∧
        g.key = g₀.key := by
    rw [List.getElem?_set]
    by_cases hi : id = i
    · rw [if_pos hi, if_pos hlt]
      have : g₀ = f := by
        rw [← hi, hget] at hg
        exact (Option.some.inj hg).symm
      exact ⟨_, rfl, by simp [this]⟩
    · rw [if_neg hi]
      exact ⟨g₀, hg, rfl⟩
  constructor
  · exact h.limits
  · intro i g hg
    obtain ⟨g₀, hg₀, hid, -, -⟩ := hold i g hg
    exact hid.trans (h.ids i g₀ hg₀)
  · intro key i
    refine (h.listed key i).trans ⟨?_, ?_⟩
    · intro hex
      obtain ⟨g₀, hg₀, hkey⟩ := hex
      obtain ⟨g, hg, hgk⟩ := hnew i g₀ hg₀
      exact ⟨g, hg, hgk.trans hkey⟩
    · intro hex
      obtain ⟨g, hg, hkey⟩ := hex
      obtain ⟨g₀, hg₀, -, hgk, -⟩ := hold i g hg
      exact ⟨g₀, hg₀, hgk.symm.trans hkey⟩
  · exact h.increasing
  · intro key j i g hj hg
    obtain ⟨g₀, hg₀, -, -, hgen⟩ := hold i g hg
    exact hgen.trans (h.generations key j i g₀ hj hg₀)
  · have hsum := sum_map_set inputBytes t.flows (y := f.accept c.direction c.packets c.when
      c.segment) hget
    rw [inputBytes_accept] at hsum
    have := h.retained_eq
    dsimp only
    omega
  · exact hle

theorem Invariant.fresh (h : Invariant t) (midstream : Bool)
    (hle : t.retained + c.segment.payload.data.length ≤ t.limits.maxRetainedPayload) :
    Invariant { t with
      keys := t.keys.insert c.key (t.history c.key ++ [t.flows.length])
      flows := t.flows ++ [(Flow.fresh t.flows.length ((t.history c.key).length + 1) c.key
        midstream).accept c.direction c.packets c.when c.segment]
      retained := t.retained + c.segment.payload.data.length } := by
  have hhist (key : FlowKey) : ((t.keys.insert c.key
      (t.history c.key ++ [t.flows.length])).get? key).getD [] =
      if key = c.key then t.history c.key ++ [t.flows.length] else t.history key := by
    rw [OrdMap.get?_insert]
    split_ifs <;> rfl
  have hlt (key : FlowKey) (i : ℕ) (hi : i ∈ t.history key) : i < t.flows.length := by
    obtain ⟨f, hf, -⟩ := (h.listed key i).1 hi
    exact (List.getElem?_eq_some_iff.1 hf).1
  -- the flow at a place is an old one or the new one at the end
  have hflow (g : Flow) (i : ℕ) : (t.flows ++ [(Flow.fresh t.flows.length
      ((t.history c.key).length + 1) c.key midstream).accept c.direction c.packets c.when
        c.segment])[i]? = some g ↔ t.flows[i]? = some g ∨ (i = t.flows.length ∧
      (Flow.fresh t.flows.length ((t.history c.key).length + 1) c.key midstream).accept c.direction
        c.packets c.when c.segment = g) := by
    by_cases hi : i < t.flows.length
    · rw [List.getElem?_append_left hi]
      simp [hi.ne]
    · rw [List.getElem?_append_right (by omega), List.getElem?_eq_none (l := t.flows) (by omega)]
      by_cases heq : i = t.flows.length
      · simp [heq]
      · have hpos : 0 < i - t.flows.length := by omega
        simp [heq, hpos.ne']
  constructor
  · exact h.limits
  · intro i g hg
    rcases (hflow g i).1 hg with hg | ⟨rfl, rfl⟩
    · exact h.ids i g hg
    · simp [Flow.fresh]
  · intro key i
    change i ∈ ((t.keys.insert c.key _).get? key).getD [] ↔ _
    simp only [hhist, hflow]
    by_cases hk : key = c.key
    · subst hk
      rw [if_pos rfl, List.mem_append, h.listed, List.mem_singleton]
      constructor
      · intro hor
        rcases hor with ⟨g, hg, hkey⟩ | rfl
        · exact ⟨g, Or.inl hg, hkey⟩
        · exact ⟨_, Or.inr ⟨rfl, rfl⟩, by simp [Flow.fresh]⟩
      · intro hex
        obtain ⟨g, hg | hg, hkey⟩ := hex
        · exact Or.inl ⟨g, hg, hkey⟩
        · exact Or.inr hg.1
    · rw [if_neg hk, h.listed]
      constructor
      · intro hex
        obtain ⟨g, hg, hkey⟩ := hex
        exact ⟨g, Or.inl hg, hkey⟩
      · intro hex
        obtain ⟨g, hg | ⟨-, rfl⟩, hkey⟩ := hex
        · exact ⟨g, hg, hkey⟩
        · exact absurd hkey.symm (by simpa [Flow.fresh] using hk)
  · intro key
    change (((t.keys.insert c.key _).get? key).getD []).Pairwise _
    rw [hhist]
    split_ifs with hk
    · refine List.pairwise_append.2 ⟨h.increasing _, by simp, fun i hi j hj => ?_⟩
      rw [List.mem_singleton.1 hj]
      exact hlt _ i hi
    · exact h.increasing key
  · intro key j i g hj hg
    change (((t.keys.insert c.key _).get? key).getD [])[j]? = some i at hj
    rw [hhist] at hj
    have hmem : ∀ key, (t.history key)[j]? = some i → i < t.flows.length :=
      fun key hj => hlt key i (List.mem_of_getElem? hj)
    have hkeep (key : FlowKey) (hj : (t.history key)[j]? = some i) : g.generation = j + 1 := by
      rcases (hflow g i).1 hg with hg | ⟨hi, -⟩
      · exact h.generations key j i g hj hg
      · exact absurd hi (hmem key hj).ne
    split_ifs at hj with hk
    · by_cases hjlt : j < (t.history c.key).length
      · rw [List.getElem?_append_left hjlt] at hj
        exact hkeep c.key hj
      · rw [List.getElem?_append_right (by omega)] at hj
        have hjeq : j = (t.history c.key).length := by
          by_contra hne
          have hpos : 0 < j - (t.history c.key).length := by omega
          simp [hpos.ne'] at hj
        subst hjeq
        have hi : i = t.flows.length := by simpa using hj.symm
        rcases (hflow g i).1 hg with hg | ⟨-, rfl⟩
        · rw [hi, List.getElem?_eq_none le_rfl] at hg
          cases hg
        · simp [Flow.fresh]
    · exact hkeep key hj
  · dsimp only
    rw [List.map_append, List.sum_append, ← h.retained_eq]
    simp [inputBytes, Flow.fresh]
  · exact hle

theorem Invariant.step (h : Invariant t) (hs : IngestStep t c result next) : Invariant next := by
  cases hs with
  | unchanged => exact h
  | existing hid hget hclosed hsyn hle => exact h.existing hget hle
  | fresh midstream hle => exact h.fresh midstream hle

theorem Invariant.run (h : Invariant t) (calls : List Call) : Invariant (t.run calls) := by
  induction calls generalizing t with
  | nil => exact h
  | cons c rest ih => exact ih (h.step (h.ingest c))

theorem Reachable.invariant (h : Reachable t) : Invariant t := by
  obtain ⟨limits, idleNs, start, calls, hnew, rfl⟩ := h
  exact (invariant_new hnew).run calls

end Step

end TcpTracker
end PcapEvidence
