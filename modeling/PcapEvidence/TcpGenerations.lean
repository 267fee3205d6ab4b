import PcapEvidence.TcpInvariant

/-!
# Atomic calls and immutable generations

The two run-level results about the tracker. A call that does not assign its segment changes
nothing, and the bookkeeping is exact in every reachable state.
-/

namespace PcapEvidence

namespace Flow

variable {f : Flow} {d : Fin 2} {segment : TcpSegment}

def IsPureAck (segment : TcpSegment) : Prop :=
  segment.syn = false ∧ segment.fin = false ∧ segment.rst = false ∧ segment.ack = true ∧
    segment.payload.data = []

theorem isPureAck_of_isFinalAck (h : f.isFinalAck d segment = true) : IsPureAck segment := by
  unfold isFinalAck at h
  split_ifs at h with hno
  simp only [Bool.or_eq_true, Bool.not_eq_true', not_or, Bool.not_eq_true, Bool.not_eq_false] at hno
  obtain ⟨⟨⟨⟨⟨⟨⟨-, -⟩, -⟩, hsyn⟩, hfin⟩, hrst⟩, hack⟩, hempty⟩ := hno
  exact ⟨hsyn, hfin, hrst, hack, by simpa [EvidenceBytes.isEmpty] using hempty⟩

theorem accept_isFinalAck_of_pureAck (h : IsPureAck segment) (packets : List PacketId)
    (when : Option ℤ) (e : Fin 2) (other : TcpSegment) :
    (f.accept d packets when segment).isFinalAck e other = f.isFinalAck e other := by
  obtain ⟨hsyn, hfin, hrst, -, -⟩ := h
  obtain ⟨-, -, -, -, hnfin, hnnext, -, hnrst, -⟩ := note_frame (f.sequence d segment) when
  have h1 : (f.accept d packets when segment).rstSeen = f.rstSeen := by
    change (((f.sequence d segment).note when).rstSeen || segment.rst) = _
    rw [hnrst, hrst, Bool.or_false]
    rfl
  have h2 : (f.accept d packets when segment).fin = f.fin := by
    change ((f.sequence d segment).note when).fin = _
    rw [hnfin]
    simp [sequence, hfin]
  have h3 : (f.accept d packets when segment).finNext = f.finNext := by
    change ((f.sequence d segment).note when).finNext = _
    rw [hnnext]
    simp [sequence, hfin]
  unfold isFinalAck
  rw [h1, h2, h3]

theorem accept_syn_of_some {packets : List PacketId} {when : Option ℤ}
    (hsyn : segment.syn = true → ∀ v, f.syn d = some v → v = segment.sequence) {e : Fin 2} {v : U32}
    (h : f.syn e = some v) : (f.accept d packets when segment).syn e = some v := by
  rw [accept_syn]
  split_ifs with hs
  · by_cases he : e = d
    · subst he
      rw [Function.update_self, hsyn hs v h]
    · rw [Function.update_of_ne he, h]
  · exact h

end Flow

namespace TcpTracker

variable {t next : TcpTracker} {c : Call} {result : Result Assignment}

theorem IngestStep.flow (h : IngestStep t c result next) {i : ℕ} {f : Flow}
    (hf : t.flows[i]? = some f) :
    next.flows[i]? = some f ∨
    (next.flows[i]? = some (f.accept c.direction c.packets c.when c.segment) ∧
      (f.closed = true → f.isFinalAck c.direction c.segment = true) ∧
      (c.segment.syn = true → ∀ v, f.syn c.direction = some v → v = c.segment.sequence)) := by
  obtain ⟨hlt, -⟩ := List.getElem?_eq_some_iff.1 hf
  cases h with
  | unchanged => exact Or.inl hf
  | @existing id g hid hget hclosed hsyn hle =>
    dsimp only
    rw [List.getElem?_set]
    by_cases hi : id = i
    · subst hi
      obtain rfl : g = f := Option.some.inj (hget.symm.trans hf)
      rw [if_pos rfl, if_pos hlt]
      exact Or.inr ⟨rfl, hclosed, hsyn⟩
    · rw [if_neg hi]
      exact Or.inl hf
  | fresh midstream hle =>
    dsimp only
    rw [List.getElem?_append_left hlt]
    exact Or.inl hf

/-- How a flow of an earlier state looks later in the run. -/
structure Later (f f' : Flow) : Prop where
  syn : ∀ d v, f.syn d = some v → f'.syn d = some v
  closed : f.closed = true → f'.closed = true
  acks : f.closed = true → ∀ d segment, f'.isFinalAck d segment = f.isFinalAck d segment
  inputs : ∃ extra, f'.inputs = f.inputs ++ extra ∧
    (f.closed = true → ∀ x ∈ extra, f.isFinalAck x.direction x.segment = true)

theorem Later.refl (f : Flow) : Later f f :=
  ⟨fun _ _ h => h, fun h => h, fun _ _ _ => rfl, [], by simp, by simp⟩

theorem Later.trans {f g k : Flow} (h : Later f g) (h' : Later g k) : Later f k := by
  obtain ⟨extra, hextra, hacks⟩ := h.inputs
  obtain ⟨extra', hextra', hacks'⟩ := h'.inputs
  refine ⟨fun d v hv => h'.syn d v (h.syn d v hv), fun hc => h'.closed (h.closed hc), ?_,
    extra ++ extra', ?_, ?_⟩
  · intro hc d segment
    rw [h'.acks (h.closed hc), h.acks hc]
  · rw [hextra', hextra, List.append_assoc]
  · intro hc x hx
    rcases List.mem_append.1 hx with hx | hx
    · exact hacks hc x hx
    · rw [← h.acks hc]
      exact hacks' (h.closed hc) x hx

theorem IngestStep.later (h : IngestStep t c result next) {i : ℕ} {f : Flow}
    (hf : t.flows[i]? = some f) : ∃ f', next.flows[i]? = some f' ∧ Later f f' := by
  rcases h.flow hf with hsame | ⟨hnext, hclosed, hsyn⟩
  · exact ⟨f, hsame, Later.refl f⟩
  · refine ⟨_, hnext, ?_, ?_, ?_, [⟨c.direction, c.segment⟩], by simp, ?_⟩
    · exact fun d v hv => Flow.accept_syn_of_some hsyn hv
    · exact fun hc => Flow.accept_closed_of_closed f _ _ _ _ hc
    · intro hc d segment
      exact Flow.accept_isFinalAck_of_pureAck (Flow.isPureAck_of_isFinalAck (hclosed hc)) _ _ _ _
    · intro hc x hx
      rw [List.mem_singleton.1 hx]
      exact hclosed hc

theorem Invariant.later_run (h : Invariant t) (calls : List Call) {i : ℕ} {f : Flow}
    (hf : t.flows[i]? = some f) : ∃ f', (t.run calls).flows[i]? = some f' ∧ Later f f' := by
  induction calls generalizing t f with
  | nil => exact ⟨f, hf, Later.refl f⟩
  | cons c rest ih =>
    have hstep := h.ingest c
    obtain ⟨g, hg, hfg⟩ := hstep.later hf
    obtain ⟨f', hf', hgf⟩ := ih (h.step hstep) hg
    exact ⟨f', hf', hfg.trans hgf⟩

/-- Over any further calls a closed flow stays closed and receives only pure acknowledgements that
are its final ones. -/
theorem closed_generation_immutable (h : Reachable t) (calls : List Call) {i : ℕ} {f : Flow}
    (hf : t.flows[i]? = some f) :
    ∃ f' extra, (t.run calls).flows[i]? = some f' ∧ f'.inputs = f.inputs ++ extra ∧
      (∀ d v, f.syn d = some v → f'.syn d = some v) ∧
      (f.closed = true → f'.closed = true ∧ ∀ x ∈ extra,
        f.isFinalAck x.direction x.segment = true ∧ Flow.IsPureAck x.segment) := by
  obtain ⟨f', hf', hlater⟩ := h.invariant.later_run calls hf
  obtain ⟨extra, hextra, hacks⟩ := hlater.inputs
  refine ⟨f', extra, hf', hextra, hlater.syn, fun hc => ⟨hlater.closed hc, fun x hx => ?_⟩⟩
  have hack := hacks hc x hx
  exact ⟨hack, Flow.isPureAck_of_isFinalAck hack⟩

theorem Invariant.map_generation (h : Invariant t) (key : FlowKey) :
    (t.history key).map (fun i => (t.flowAt i).generation) =
      List.range' 1 (t.history key).length := by
  apply List.ext_getElem
  · simp
  · intro j h1 h2
    have hj : j < (t.history key).length := by simpa using h1
    have hget := List.getElem?_eq_getElem hj
    obtain ⟨f, hf, -⟩ := (h.listed key _).1 (List.mem_of_getElem? hget)
    rw [List.getElem_map, flowAt_eq hf, h.generations key j _ f hget hf, List.getElem_range']
    omega

/-- A call on a reachable tracker is atomic, and the bookkeeping of a reachable tracker is exact. -/
theorem ingest_atomic (h : Reachable t) :
    (∀ c, (∀ id d, (t.apply c).1 ≠ .ok (.assigned id d)) → (t.apply c).2 = t) ∧
    (∀ c id d, (t.apply c).1 = .ok (.assigned id d) →
      d = c.direction ∧
      (t.apply c).2.retained = t.retained + c.segment.payload.data.length ∧
      (∃ f, (t.apply c).2.flows[id]? = some f ∧
        f.inputs = (t.flows[id]?).elim [] (·.inputs) ++ [⟨d, c.segment⟩]) ∧
      ∀ i, i ≠ id → (t.apply c).2.flows[i]? = t.flows[i]?) ∧
    (∀ (i : ℕ) (f : Flow), t.flows[i]? = some f → f.id = i) ∧
    (∀ i, i < t.flows.length → ∃! key, i ∈ t.history key) ∧
    (∀ key, (t.history key).Pairwise (· < ·) ∧
      (t.history key).map (fun i => (t.flowAt i).generation) =
        List.range' 1 (t.history key).length) ∧
    t.retained = (t.flows.map (fun f =>
      (f.inputs.map (fun x => x.segment.payload.data.length)).sum)).sum ∧
    t.retained ≤ t.limits.maxRetainedPayload := by
  have hinv := h.invariant
  refine ⟨fun c hno => ?_, fun c id d hres => ?_, hinv.ids, fun i hi => ?_,
    fun key => ⟨hinv.increasing key, hinv.map_generation key⟩, hinv.retained_eq, hinv.retained_le⟩
  · have hstep := hinv.ingest c
    generalize (t.apply c).1 = result at hstep hno
    generalize (t.apply c).2 = next at hstep
    cases hstep with
    | unchanged => rfl
    | existing => exact absurd rfl (hno _ _)
    | fresh => exact absurd rfl (hno _ _)
  · have hstep := hinv.ingest c
    generalize (t.apply c).1 = result at hstep hres
    generalize (t.apply c).2 = next at hstep
    cases hstep with
    | unchanged hno => exact absurd hres (hno id d)
    | @existing id' f hid hget hclosed hsyn hle =>
      cases hres
      obtain ⟨hlt, -⟩ := List.getElem?_eq_some_iff.1 hget
      refine ⟨rfl, rfl, ⟨f.accept c.direction c.packets c.when c.segment, ?_, ?_⟩, fun i hi => ?_⟩
      · simp [hlt]
      · simp [hget]
      · exact List.getElem?_set_ne (Ne.symm hi)
    | fresh midstream hle =>
      cases hres
      refine ⟨rfl, rfl, ⟨_, List.getElem?_concat_length, ?_⟩, fun i hi => ?_⟩
      · simp [Flow.fresh]
      · dsimp only
        by_cases hlt : i < t.flows.length
        · rw [List.getElem?_append_left hlt]
        · rw [List.getElem?_eq_none (by simp; omega), List.getElem?_eq_none (by omega)]
  · obtain ⟨f, hf⟩ : ∃ f, t.flows[i]? = some f := ⟨_, List.getElem?_eq_getElem hi⟩
    refine ⟨f.key, (hinv.listed f.key i).2 ⟨f, hf, rfl⟩, fun key hkey => ?_⟩
    obtain ⟨g, hg, hgk⟩ := (hinv.listed key i).1 hkey
    obtain rfl : f = g := Option.some.inj (hf.symm.trans hg)
    exact hgk.symm

/-- A segment without payload between two fixed endpoints. -/
def sampleSegment (sequence acknowledgement : U32) (flags : U8) (forward : Bool) : TcpSegment where
  source := if forward then ⟨.v4 (.replicate 4 10), 4000⟩ else ⟨.v4 (.replicate 4 11), 80⟩
  destination := if forward then ⟨.v4 (.replicate 4 11), 80⟩ else ⟨.v4 (.replicate 4 10), 4000⟩
  sequence := sequence
  acknowledgement := acknowledgement
  flags := flags
  checksum := .valid
  payload := .empty

def sampleCall (frame : ℕ) (segment : TcpSegment) : Call :=
  ⟨⟨1, 0, none, []⟩, [⟨Vector.replicate 32 0, frame, 100 * frame⟩], some frame, segment⟩

def sampleReset : List Call :=
  [sampleCall 1 (sampleSegment 100 0 0x02 true), sampleCall 2 (sampleSegment 0 101 0x14 false)]

def sampleTracker : TcpTracker := ⟨.empty, [], 0, .default, 10⟩

theorem sampleTracker_new : new .default 10 = .ok sampleTracker := rfl

theorem ingest_atomic_reset :
    (sampleTracker.run sampleReset).flows.length = 1 ∧
      (sampleTracker.run sampleReset).retained ≤ Limits.default.maxRetainedPayload :=
  ⟨rfl, (ingest_atomic ⟨.default, 10, sampleTracker, sampleReset, sampleTracker_new, rfl⟩).2.2.2.2.2.2⟩

/-- The reset generation, and a later data-less segment that reuses its endpoints. -/
theorem closed_generation_immutable_reset :
    ∃ f f', (sampleTracker.run sampleReset).flows[0]? = some f ∧ f.closed = true ∧
      ((sampleTracker.run sampleReset).run [sampleCall 3 (sampleSegment 101 1 0x10 true)]).flows[0]? =
        some f' ∧ f'.closed = true := by
  have hf : ∃ f, (sampleTracker.run sampleReset).flows[0]? = some f ∧ f.closed = true :=
    ⟨_, rfl, rfl⟩
  obtain ⟨f, hf, hc⟩ := hf
  obtain ⟨f', extra, hf', -, -, hclosed⟩ := closed_generation_immutable
    ⟨.default, 10, sampleTracker, sampleReset, sampleTracker_new, rfl⟩
    [sampleCall 3 (sampleSegment 101 1 0x10 true)] hf
  exact ⟨f, f', hf, hc, hf', (hclosed hc).1⟩

end TcpTracker
end PcapEvidence
