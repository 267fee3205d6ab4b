import PcapEvidence.Dnp3Link

/-!
# The DNP3 probe against the link parser

The probe answers about a growing prefix. A prefix is refuted when no continuation begins with a
link frame, and framed when it already does; both stay so under extension.
-/

namespace PcapEvidence.Dnp3
open EvidenceBytes
open StreamAssembler (offsetBound)

def probeMatch (total : ℕ) : ProbeResult :=
  .matched "dnp3" .completeFrameChecksums total
    "complete_link_frame_with_valid_header_and_data_crcs"

section Probe
variable {input : ProbeInput}

theorem probe_of_header (h : 10 ≤ input.prefixBytes.length) :
    dnp3Probe.probe input =
      if Headed input.prefixBytes then
        if input.prefixBytes.length < linkFrameTotal (byteAt input.prefixBytes 2) then
          .needMore (linkFrameTotal (byteAt input.prefixBytes 2))
        else if Framed input.prefixBytes then
          probeMatch (linkFrameTotal (byteAt input.prefixBytes 2))
        else .noMatch else .noMatch := by
  have hmagic : input.prefixBytes.take 2 = [0x05, 0x64] ↔
      byteAt input.prefixBytes 0 = 0x05 ∧ byteAt input.prefixBytes 1 = 0x64 := by
    rw [take_two (by omega)]
    simp
  simp only [dnp3Probe, probeMatch, Framed, Headed, h, hmagic, true_and]
  split_ifs <;> first | rfl | (exfalso; omega) | simp_all

def Plausible (b : List U8) : Prop :=
  (0 < b.length → byteAt b 0 = 0x05) ∧ (1 < b.length → byteAt b 1 = 0x64) ∧
    (2 < b.length → 5 ≤ (byteAt b 2).toNat)

theorem Plausible.of_append {b more : List U8} (h : Plausible (b ++ more)) : Plausible b := by
  obtain ⟨h0, h1, h2⟩ := h
  rw [List.length_append] at h0 h1 h2
  refine ⟨fun hb => ?_, fun hb => ?_, fun hb => ?_⟩
  · rw [byteAt_append hb] at h0
    exact h0 (by omega)
  · rw [byteAt_append hb] at h1
    exact h1 (by omega)
  · rw [byteAt_append hb] at h2
    exact h2 (by omega)

theorem Headed.likely {b : List U8} (h : Headed b) : Plausible b := by
  obtain ⟨h10, hmagic, hlength, -⟩ := h
  rw [take_two (by omega)] at hmagic
  injection hmagic with h0 hmagic
  injection hmagic with h1 _
  exact ⟨fun _ => h0, fun _ => h1, fun _ => hlength⟩

/-- The octets settle that no link frame begins here, whatever follows. -/
def Refuted (b : List U8) : Prop :=
  ¬ Plausible b ∨ (10 ≤ b.length ∧ ¬ Headed b) ∨
    (Headed b ∧ linkFrameTotal (byteAt b 2) ≤ b.length ∧ ¬ Framed b)

theorem Refuted.append {b : List U8} (h : Refuted b) (more : List U8) : Refuted (b ++ more) := by
  have hlen : b.length ≤ (b ++ more).length := by simp
  rcases h with hp | ⟨h10, hheaded⟩ | ⟨hheaded, htotal, hframed⟩
  · exact .inl fun hmore => hp hmore.of_append
  · exact .inr (.inl ⟨h10.trans hlen, fun hmore => hheaded ((headed_append h10).1 hmore)⟩)
  · have h10 := hheaded.1
    refine .inr (.inr ⟨(headed_append h10).2 hheaded, ?_, ?_⟩)
    · rw [byteAt_append (by omega)]
      exact htotal.trans hlen
    · rwa [framed_append h10 htotal]

theorem Refuted.not_framed {b : List U8} (h : Refuted b) : ¬ Framed b := by
  rcases h with hp | ⟨-, hheaded⟩ | ⟨-, -, hframed⟩
  · exact fun hf => hp hf.1.likely
  · exact fun hf => hheaded hf.1
  · exact hframed

/-- Fewer octets than demanded never begin with a complete frame. -/
structure Demand (b : List U8) (m : ℕ) : Prop where
  lt : b.length < m
  not_refuted : ¬ Refuted b
  le_of_framed : ∀ more, Framed (b ++ more) → m ≤ (b ++ more).length

theorem demand_of_likely {b : List U8} {m : ℕ} (hb : b.length < 10) (h : b.length < m)
    (hm : m ≤ 10) (hp : Plausible b) : Demand b m := by
  refine ⟨h, ?_, fun _ hframed => hm.trans hframed.1.1⟩
  rintro (hnot | ⟨h10, -⟩ | ⟨hheaded, -⟩)
  · exact hnot hp
  · exact hb.not_ge h10
  · exact hb.not_ge hheaded.1

theorem probe_short (h : input.prefixBytes.length < 10) :
    (Refuted input.prefixBytes ∧ dnp3Probe.probe input = .noMatch) ∨
      ∃ m, dnp3Probe.probe input = .needMore m ∧ Demand input.prefixBytes m := by
  simp only [dnp3Probe]
  split_ifs with c0 c1 c2 c3 c4 c5
  · exact .inr ⟨2, rfl, demand_of_likely h (by omega) (by omega)
      ⟨fun _ => by omega, fun _ => by omega, fun _ => by omega⟩⟩
  · exact .inl ⟨.inl fun hp => c1 (hp.1 (by omega)), rfl⟩
  · exact .inr ⟨2, rfl, demand_of_likely h c2 (by omega)
      ⟨fun _ => not_not.1 c1, fun _ => by omega, fun _ => by omega⟩⟩
  · exact .inl ⟨.inl fun hp => c3 (hp.2.1 (by omega)), rfl⟩
  · exact .inr ⟨3, rfl, demand_of_likely h c4 (by omega)
      ⟨fun _ => not_not.1 c1, fun _ => not_not.1 c3, fun _ => by omega⟩⟩
  · exact .inl ⟨.inl fun hp => c5.not_ge (hp.2.2 (by omega)), rfl⟩
  · exact .inr ⟨10, rfl, demand_of_likely h h le_rfl
      ⟨fun _ => not_not.1 c1, fun _ => not_not.1 c3, fun _ => not_lt.1 c5⟩⟩

theorem demand_of_headed {b : List U8} (hheaded : Headed b)
    (h : b.length < linkFrameTotal (byteAt b 2)) : Demand b (linkFrameTotal (byteAt b 2)) := by
  refine ⟨h, ?_, fun more hmore => ?_⟩
  · rintro (hnot | ⟨-, hnot⟩ | ⟨-, htotal, -⟩)
    · exact hnot hheaded.likely
    · exact hnot hheaded
    · exact h.not_ge htotal
  · have h10 := hheaded.1
    have htotal := hmore.2.1
    rwa [byteAt_append (show 2 < b.length by omega)] at htotal

/-- A complete frame matches, a refuted prefix does not, and everything else demands more. -/
theorem probe_cases (input : ProbeInput) :
    (Framed input.prefixBytes ∧
      dnp3Probe.probe input = probeMatch (linkFrameTotal (byteAt input.prefixBytes 2))) ∨
    (Refuted input.prefixBytes ∧ dnp3Probe.probe input = .noMatch) ∨
    ∃ m, dnp3Probe.probe input = .needMore m ∧ Demand input.prefixBytes m := by
  by_cases h10 : input.prefixBytes.length < 10
  · exact .inr (probe_short h10)
  · rw [probe_of_header (not_lt.1 h10)]
    split_ifs with hheaded htotal hframed
    · exact .inr (.inr ⟨_, rfl, demand_of_headed hheaded htotal⟩)
    · exact .inl ⟨hframed, rfl⟩
    · exact .inr (.inl ⟨.inr (.inr ⟨hheaded, not_lt.1 htotal, hframed⟩), rfl⟩)
    · exact .inr (.inl ⟨.inr (.inl ⟨not_lt.1 h10, hheaded⟩), rfl⟩)

theorem probe_framed (h : Framed input.prefixBytes) :
    dnp3Probe.probe input = probeMatch (linkFrameTotal (byteAt input.prefixBytes 2)) := by
  rcases probe_cases input with ⟨-, hp⟩ | ⟨hrefuted, -⟩ | ⟨m, -, hdemand⟩
  · exact hp
  · exact absurd h hrefuted.not_framed
  · have hm := hdemand.le_of_framed [] (by rwa [List.append_nil])
    rw [List.append_nil] at hm
    exact absurd hdemand.lt hm.not_gt

theorem probe_refuted (h : Refuted input.prefixBytes) : dnp3Probe.probe input = .noMatch := by
  rcases probe_cases input with ⟨hframed, -⟩ | ⟨-, hp⟩ | ⟨m, -, hdemand⟩
  · exact absurd hframed h.not_framed
  · exact hp
  · exact absurd h hdemand.not_refuted

theorem framed_of_matched {protocol reason : String} {strength : ProbeStrength} {n : ℕ}
    (h : dnp3Probe.probe input = .matched protocol strength n reason) :
    Framed input.prefixBytes ∧ n = linkFrameTotal (byteAt input.prefixBytes 2) := by
  rcases probe_cases input with ⟨hframed, hp⟩ | ⟨-, hp⟩ | ⟨m, hp, -⟩ <;> rw [hp] at h
  · exact ⟨hframed, (ProbeResult.matched.inj h).2.2.1.symm⟩
  · cases h
  · cases h

theorem refuted_of_noMatch (h : dnp3Probe.probe input = .noMatch) : Refuted input.prefixBytes := by
  rcases probe_cases input with ⟨-, hp⟩ | ⟨hrefuted, -⟩ | ⟨m, hp, -⟩
  · rw [hp] at h
    cases h
  · exact hrefuted
  · rw [hp] at h
    cases h

theorem demand_of_needMore {m : ℕ} (h : dnp3Probe.probe input = .needMore m) :
    Demand input.prefixBytes m := by
  rcases probe_cases input with ⟨-, hp⟩ | ⟨-, hp⟩ | ⟨m', hp, hdemand⟩ <;> rw [hp] at h
  · cases h
  · cases h
  · cases h
    exact hdemand

def extend (input : ProbeInput) (more : List U8) : ProbeInput :=
  { input with prefixBytes := input.prefixBytes ++ more }

/-- A verdict of the probe is final, and a demand is never more than the parser needs. -/
theorem dnp3Probe_parseLink (input : ProbeInput) :
    (∀ (e : EvidenceBytes) (base : ℤ) (n : ℕ), e.Valid → e.data = input.prefixBytes →
      base ≤ offsetBound →
      ((∃ protocol strength reason,
          dnp3Probe.probe input = .matched protocol strength n reason) ↔
        ∃ frame, parseLink e 0 base = .ok (frame, n))) ∧
    (∀ protocol strength n reason more,
      dnp3Probe.probe input = .matched protocol strength n reason →
        dnp3Probe.probe (extend input more) = .matched protocol strength n reason) ∧
    (∀ more, dnp3Probe.probe input = .noMatch → dnp3Probe.probe (extend input more) = .noMatch) ∧
    (∀ m, dnp3Probe.probe input = .needMore m → input.prefixBytes.length < m ∧
      ∀ (more : List U8) (e : EvidenceBytes) (base : ℤ), e.Valid →
        e.data = input.prefixBytes ++ more → e.data.length < m → base ≤ offsetBound →
          ∀ frame n, parseLink e 0 base ≠ .ok (frame, n)) := by
  refine ⟨fun e base n he hdata hbase => ?_, fun protocol strength n reason more h => ?_,
    fun more h => ?_, fun m h => ?_⟩
  · rw [parseLink_zero_eq_ok_iff he hbase, hdata]
    constructor
    · rintro ⟨protocol, strength, reason, h⟩
      exact framed_of_matched h
    · rintro ⟨hframed, rfl⟩
      exact ⟨_, _, _, probe_framed hframed⟩
  · obtain ⟨hframed, -⟩ := framed_of_matched h
    have h10 := hframed.1.1
    have hoctet : byteAt (extend input more).prefixBytes 2 = byteAt input.prefixBytes 2 :=
      byteAt_append (by omega)
    have hextended : Framed (extend input more).prefixBytes :=
      (framed_append h10 hframed.2.1).2 hframed
    rw [probe_framed hextended, hoctet, ← probe_framed hframed, h]
  · exact probe_refuted ((refuted_of_noMatch h).append more)
  · have hdemand := demand_of_needMore h
    refine ⟨hdemand.lt, fun more e base he hdata hshort hbase frame n hok => ?_⟩
    have hframed := ((parseLink_zero_eq_ok_iff he hbase n).1 ⟨frame, hok⟩).1
    rw [hdata] at hframed hshort
    exact (hdemand.le_of_framed more hframed).not_gt hshort

/-- A reset of link states: the shortest frame there is. -/
def sampleFrame : List U8 := [0x05, 0x64, 0x05, 0xc0, 0x01, 0x00, 0x00, 0x04, 0xe9, 0x21]

def sampleInput (b : List U8) : ProbeInput := ⟨.tcp, 20000, 20000, b⟩

def sampleEvidence (b : List U8) : EvidenceBytes := .fromPacket b ⟨Vector.replicate 32 0, 0, 0⟩ 0

theorem dnp3Probe_parseLink_sample :
    (∃ frame, parseLink (sampleEvidence sampleFrame) 0 0 = .ok (frame, 10)) ∧
    dnp3Probe.probe (extend (sampleInput sampleFrame) [0x05]) = probeMatch 10 ∧
    dnp3Probe.probe (extend (sampleInput [0x05, 0x65]) [0x05]) = .noMatch ∧
    ∀ frame n, parseLink (sampleEvidence (sampleFrame.take 8)) 0 0 ≠ .ok (frame, n) := by
  have hmatch : dnp3Probe.probe (sampleInput sampleFrame) = probeMatch 10 := by decide +kernel
  refine ⟨?_, ?_, ?_, ?_⟩
  · exact ((dnp3Probe_parseLink (sampleInput sampleFrame)).1 (sampleEvidence sampleFrame) 0 10
      ((valid_fromPacket_iff _ _ _).2 (by decide)) rfl (by decide)).1 ⟨_, _, _, hmatch⟩
  · exact (dnp3Probe_parseLink (sampleInput sampleFrame)).2.1 _ _ _ _ [0x05] hmatch
  · exact (dnp3Probe_parseLink (sampleInput [0x05, 0x65])).2.2.1 [0x05] (by decide +kernel)
  · exact ((dnp3Probe_parseLink (sampleInput (sampleFrame.take 3))).2.2.2 10
      (by decide +kernel)).2 ((sampleFrame.take 8).drop 3) (sampleEvidence (sampleFrame.take 8)) 0
      ((valid_fromPacket_iff _ _ _).2 (by decide)) rfl (by decide) (by decide)

end Probe

end PcapEvidence.Dnp3
