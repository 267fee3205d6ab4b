import PcapEvidence.Provenance

/-!
# Decoded network objects

Scopes, endpoints, datagrams and transport segments as the decoders produce them. The orders are
the field-by-field orders of the source; they fix flow direction and map iteration.
-/

namespace PcapEvidence

inductive IpAddr where
  | v4 (octets : Vector U8 4)
  | v6 (octets : Vector U8 16)

namespace IpAddr

def orderKey : IpAddr → ℕ ×ₗ List ℕ
  | v4 o => toLex (0, o.toList.map BitVec.toNat)
  | v6 o => toLex (1, o.toList.map BitVec.toNat)

theorem orderKey_injective : Function.Injective orderKey := by
  have hoctets {n : ℕ} {o o' : Vector U8 n}
      (h : o.toList.map BitVec.toNat = o'.toList.map BitVec.toNat) : o = o' :=
    Vector.toList_inj.1 (List.map_injective_iff.2 BitVec.toNat_injective h)
  rintro (o | o) (o' | o') h <;>
    simp only [orderKey, EmbeddingLike.apply_eq_iff_eq, Prod.mk.injEq, one_ne_zero, zero_ne_one,
      false_and, true_and] at h
  · rw [hoctets h]
  · rw [hoctets h]

instance : LinearOrder IpAddr := LinearOrder.lift' orderKey orderKey_injective

end IpAddr

structure Scope where
  sectionId : U32
  interface : U32
  linkInterface : Option U32
  vlans : List U16

namespace Scope

def orderKey (s : Scope) : ℕ ×ₗ ℕ ×ₗ List ℕ ×ₗ List ℕ :=
  toLex (s.sectionId.toNat, toLex (s.interface.toNat,
    toLex (s.linkInterface.toList.map BitVec.toNat, s.vlans.map BitVec.toNat)))

theorem orderKey_injective : Function.Injective orderKey := by
  rintro ⟨s, i, l, v⟩ ⟨s', i', l', v'⟩ h
  simp only [orderKey, EmbeddingLike.apply_eq_iff_eq, Prod.mk.injEq] at h
  obtain ⟨hs, hi, hl, hv⟩ := h
  have hl' := List.map_injective_iff.2 BitVec.toNat_injective hl
  have hv' := List.map_injective_iff.2 BitVec.toNat_injective hv
  have hl'' : l = l' := by cases l <;> cases l' <;> simp_all
  rw [BitVec.toNat_injective hs, BitVec.toNat_injective hi, hv', hl'']

instance : LinearOrder Scope := LinearOrder.lift' orderKey orderKey_injective

end Scope

structure Endpoint where
  address : IpAddr
  port : U16

namespace Endpoint

def orderKey (e : Endpoint) : IpAddr ×ₗ ℕ := toLex (e.address, e.port.toNat)

theorem orderKey_injective : Function.Injective orderKey := by
  rintro ⟨a, p⟩ ⟨a', p'⟩ h
  simp only [orderKey, EmbeddingLike.apply_eq_iff_eq, Prod.mk.injEq] at h
  rw [h.1, BitVec.toNat_injective h.2]

instance : LinearOrder Endpoint := LinearOrder.lift' orderKey orderKey_injective

end Endpoint

inductive Checksum where
  | valid | invalid | notPresent | notChecked
  deriving DecidableEq

inductive ChecksumPolicy where
  | observe | requireValid
  deriving DecidableEq

inductive ChecksumContext where
  | baseAddresses
  /-- Network options change pseudo-header operands that are not interpreted. -/
  | unsupported
  deriving DecidableEq

structure FragmentInfo where
  id : U32
  offset : ℕ
  more : Bool
  deriving DecidableEq

structure Datagram where
  scope : Scope
  source : IpAddr
  destination : IpAddr
  protocol : U8
  ipv6 : Bool
  networkHeaderLen : ℕ
  fragment : Option FragmentInfo
  payload : EvidenceBytes
  ipChecksum : Checksum
  checksumContext : ChecksumContext
  deriving DecidableEq

structure TcpSegment where
  source : Endpoint
  destination : Endpoint
  sequence : U32
  acknowledgement : U32
  flags : U8
  checksum : Checksum
  payload : EvidenceBytes

namespace TcpSegment

def syn (s : TcpSegment) : Bool := s.flags &&& 0x02 != 0

def ack (s : TcpSegment) : Bool := s.flags &&& 0x10 != 0

def fin (s : TcpSegment) : Bool := s.flags &&& 0x01 != 0

def rst (s : TcpSegment) : Bool := s.flags &&& 0x04 != 0

def dataSequence (s : TcpSegment) : U32 := s.sequence + (if s.syn then 1 else 0)

end TcpSegment

structure UdpDatagram where
  source : Endpoint
  destination : Endpoint
  checksum : Checksum
  payload : EvidenceBytes

inductive Transport where
  | tcp (segment : TcpSegment)
  | udp (datagram : UdpDatagram)

end PcapEvidence
