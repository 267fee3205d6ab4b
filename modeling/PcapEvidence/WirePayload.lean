import PcapEvidence.WireDecode
import PcapEvidence.ProvenanceOps

/-!
# Where a decoded payload lies in its packet

Every successful `decodePacket` hands out one range of the captured packet, attributed to that
packet at its own offset. A datagram that is a fragment carries at least one byte.
-/

namespace PcapEvidence

theorem sliceOf_drop (packet : List U8) (start x y : ℕ) :
    sliceOf (packet.drop start) x y = sliceOf packet (start + x) (start + y) := by
  rw [sliceOf, sliceOf, List.take_drop, List.drop_drop]

@[simp] theorem length_sliceOf (b : List U8) (x y : ℕ) :
    (sliceOf b x y).length = min y b.length - x := by
  simp [sliceOf]

/-- The payload is the range `x..y` of the packet, and a fragment's range is not empty. -/
def RangePayload (packet : List U8) (id : PacketId) (datagram : Datagram) : Prop :=
  ∃ x y, x ≤ y ∧ y ≤ packet.length ∧
    datagram.payload = .fromPacket (sliceOf packet x y) id x ∧
    (datagram.fragment.isSome = true → x < y)

variable {packet : List U8} {id : PacketId} {scope : Scope} {start : ℕ} {datagram : Datagram}

theorem ipv4_payload (h : ipv4 packet start id scope = .ok datagram) :
    RangePayload packet id datagram := by
  unfold ipv4 at h
  simp only [bind_eq_ok, guard_eq_ok, require_eq_ok_iff, List.length_drop] at h
  obtain ⟨-, hpacket, -, hheader, -, hoptions, htotal, -, hlen, -, -, hempty, -, context, -, h⟩ := h
  cases h
  refine ⟨_, _, ?_, ?_, congrArg (EvidenceBytes.fromPacket · id _) (sliceOf_drop packet _ _ _), ?_⟩
  · omega
  · omega
  · intro hfragment
    dsimp only at hfragment
    split_ifs at hfragment with hmore
    · by_contra hge
      exact hempty ⟨hmore, by omega⟩
    · cases hfragment

theorem ipv6Extensions_bound {b : List U8} {total offset fuel : ℕ} {cursor out : Ipv6Cursor}
    (h : ipv6Extensions b total offset fuel cursor = .ok out) (hp : cursor.p ≤ total)
    (hf : cursor.fragment = none) :
    out.p ≤ total ∧ (out.fragment.isSome = true → out.p < total) := by
  induction fuel generalizing cursor with
  | zero =>
    unfold ipv6Extensions at h
    split_ifs at h
    cases h
    exact ⟨hp, by simp [hf]⟩
  | succ fuel ih =>
    unfold ipv6Extensions at h
    by_cases hnext : cursor.next ∈ ([0, 43, 44, 51, 60] : List U8)
    · rw [if_pos hnext] at h
      obtain ⟨⟨⟩, -, h⟩ := bind_eq_ok.1 h
      by_cases hfragment : cursor.next = 44
      · rw [if_pos hfragment] at h
        simp only [bind_eq_ok, guard_eq_ok, require_eq_ok_iff, List.length_take] at h
        obtain ⟨-, hlen, -, -, h⟩ := h
        split_ifs at h with hmore hempty
        · cases h
          exact ⟨by simp only; omega, fun _ => by simp only; omega⟩
        · exact ih h (by simp only; omega) hf
      · rw [if_neg hfragment] at h
        simp only [bind_eq_ok, require_eq_ok_iff, List.length_take] at h
        obtain ⟨-, hlen, context, -, h⟩ := h
        exact ih h (by simp only; omega) hf
    · rw [if_neg hnext] at h
      cases h
      exact ⟨hp, by simp [hf]⟩

theorem ipv6_payload (h : ipv6 packet start id scope = .ok datagram) :
    RangePayload packet id datagram := by
  unfold ipv6 at h
  simp only [bind_eq_ok, guard_eq_ok, require_eq_ok_iff, List.length_drop] at h
  obtain ⟨-, hpacket, -, -, -, hlen, cursor, hcursor, h⟩ := h
  obtain ⟨hp, hfragment⟩ := ipv6Extensions_bound hcursor (by simp only; omega) rfl
  cases h
  refine ⟨_, _, ?_, ?_, congrArg (EvidenceBytes.fromPacket · id _) (sliceOf_drop packet _ _ _), ?_⟩
  · omega
  · omega
  · intro hf
    have := hfragment hf
    omega

theorem decodePacket_payload {linkType : U32}
    (h : decodePacket linkType packet id scope = .ok datagram) :
    RangePayload packet id datagram := by
  obtain ⟨⟨scope', start', etherType⟩, -, h⟩ := bind_eq_ok.1 h
  obtain ⟨⟨scope'', start'', etherType'⟩, -, h⟩ := bind_eq_ok.1 h
  dsimp only at h
  split_ifs at h
  · exact ipv4_payload h
  · exact ipv6_payload h

theorem RangePayload.valid (h : RangePayload packet id datagram)
    (hlen : packet.length < wordBound) : datagram.payload.Valid := by
  obtain ⟨x, y, hxy, hy, hpayload, -⟩ := h
  rw [hpayload, EvidenceBytes.valid_fromPacket_iff, length_sliceOf]
  right
  omega

theorem RangePayload.packets_or (h : RangePayload packet id datagram) :
    datagram.payload.packets = [id] ∨ (datagram.payload.packets = [] ∧ datagram.fragment = none) := by
  obtain ⟨x, y, hxy, hy, hpayload, hfragment⟩ := h
  have hlen : (sliceOf packet x y).length = y - x := by
    rw [length_sliceOf, min_eq_left hy]
  rw [hpayload]
  by_cases hlt : x < y
  · left
    apply EvidenceBytes.packets_fromPacket
    intro hnil
    rw [hnil, List.length_nil] at hlen
    omega
  · right
    have hnil : sliceOf packet x y = [] := List.eq_nil_of_length_eq_zero (by omega)
    rw [hnil]
    refine ⟨rfl, ?_⟩
    rw [← Option.not_isSome_iff_eq_none]
    exact fun hsome => hlt (hfragment hsome)

namespace EvidenceBytes

variable {captured : PacketId → List U8}

theorem sound_fromPacket_sliceOf (id : PacketId) (x y : ℕ) :
    (fromPacket (sliceOf (captured id) x y) id x).Sound captured := by
  intro v hv
  rw [view, origins_fromPacket] at hv
  obtain ⟨i, hi⟩ := List.mem_iff_getElem?.1 hv
  rw [List.getElem?_zip_eq_some, List.getElem?_map] at hi
  obtain ⟨horigin, hbyte⟩ := hi
  obtain ⟨n, hn, hpair⟩ := Option.map_eq_some_iff.1 horigin
  have hlt : i < (sliceOf (captured id) x y).length := (List.getElem?_eq_some_iff.1 hbyte).1
  rw [List.getElem?_range' hlt, Option.some.injEq] at hn
  rw [← hpair, ← hn]
  have hy : (sliceOf (captured id) x y)[i]? = ((captured id).take y)[x + i]? := List.getElem?_drop
  rw [one_mul, ← hbyte]
  change _ = (sliceOf (captured id) x y)[i]?
  rw [hy, List.getElem?_take_of_lt]
  rw [length_sliceOf] at hlt
  omega

theorem Sound.slice {e out : EvidenceBytes} {a b : ℕ} (h : e.Sound captured) (hv : e.Valid)
    (hs : e.slice a b = .ok out) : out.Sound captured := by
  obtain ⟨-, -, hview⟩ := view_slice hv hs
  intro x hx
  rw [hview] at hx
  exact h x (List.mem_of_mem_take (List.mem_of_mem_drop hx))

theorem Sound.getElem? {e : EvidenceBytes} (h : e.Sound captured) (hv : e.Valid) {i : ℕ}
    (hi : i < e.data.length) :
    ∃ s b, e.spans.filter (fun s => s.Covers i) = [s] ∧ e.data[i]? = some b ∧
      (captured s.packet)[s.packetStart + (i - s.start)]? = some b := by
  obtain ⟨s, hs, horigin⟩ := hv.2.exists_covers (Nat.zero_le i) hi
  rw [Nat.sub_zero] at horigin
  have hbyte : e.data[i]? = some e.data[i] := List.getElem?_eq_getElem hi
  have hview : e.view[i]? = some ((s.packet, s.packetStart + (i - s.start)), e.data[i]) := by
    rw [view, List.getElem?_zip_eq_some]
    exact ⟨horigin, hbyte⟩
  exact ⟨s, e.data[i], hs, hbyte, h _ (List.mem_of_getElem? hview)⟩

end EvidenceBytes
end PcapEvidence
