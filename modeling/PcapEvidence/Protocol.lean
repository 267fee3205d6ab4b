import PcapEvidence.WireDecode

/-!
# Advisory protocol probes

A registry asks every probe about a contiguous prefix and rejects answers that break the probe
contract: a demand must exceed the input, and a match must have examined some of it.
-/

namespace PcapEvidence

inductive ProbeTransport where
  | tcp | udp
  deriving DecidableEq

inductive ProbeStrength where
  /-- Header layout only. -/
  | headerStructure
  /-- A complete frame with every link CRC checked. -/
  | completeFrameChecksums
  deriving DecidableEq

inductive ProbeResult where
  | noMatch
  /-- Number of contiguous bytes required from the start. -/
  | needMore (minimumTotal : ℕ)
  | matched (protocol : String) (strength : ProbeStrength) (examinedBytes : ℕ) (reason : String)
  deriving DecidableEq

structure ProbeObservation where
  probe : String
  result : ProbeResult

structure ProbeInput where
  transport : ProbeTransport
  sourcePort : U16
  destinationPort : U16
  prefixBytes : List U8

structure ProtocolProbe where
  name : String
  probe : ProbeInput → ProbeResult

structure ProbeRegistry where
  probes : List ProtocolProbe
  maxProbes : ℕ
  maxPrefixBytes : ℕ

def crcBit (crc : U16) : U16 := if crc &&& 1 ≠ 0 then (crc >>> 1) ^^^ 0xa6bc else crc >>> 1

def crc16Dnp (data : List U8) : U16 :=
  ~~~ (data.foldl (fun crc byte => crcBit^[8] (crc ^^^ byte.setWidth 16)) 0)

def le16 (b : List U8) (i : ℕ) : U16 := byteAt b (i + 1) ++ byteAt b i

/-- The loop over the data blocks of a link frame, each followed by its checksum. -/
def dataCrcsValid (b : List U8) : ℕ → ℕ → ℕ → Bool
  | 0, _, _ => true
  | fuel + 1, at_, remaining =>
    if remaining > 0 then
      let count := min remaining 16
      if crc16Dnp (sliceOf b at_ (at_ + count)) ≠ le16 b (at_ + count) then false
      else dataCrcsValid b fuel (at_ + count + 2) (remaining - count)
    else true

def linkFrameTotal (lengthOctet : U8) : ℕ :=
  let userLen := lengthOctet.toNat - 5
  10 + userLen + 2 * ((userLen + 15) / 16)

def dnp3Probe : ProtocolProbe where
  name := "dnp3_link_crc"
  probe input :=
    let b := input.prefixBytes
    if b.length = 0 then .needMore 2
    else if byteAt b 0 ≠ 0x05 then .noMatch
    else if b.length < 2 then .needMore 2
    else if byteAt b 1 ≠ 0x64 then .noMatch
    else if b.length < 3 then .needMore 3
    else if (byteAt b 2).toNat < 5 then .noMatch
    else if b.length < 10 then .needMore 10
    else if crc16Dnp (b.take 8) ≠ le16 b 8 then .noMatch
    else if b.length < linkFrameTotal (byteAt b 2) then .needMore (linkFrameTotal (byteAt b 2))
    else if dataCrcsValid b ((byteAt b 2).toNat - 5) 10 ((byteAt b 2).toNat - 5) then
      .matched "dnp3" .completeFrameChecksums (linkFrameTotal (byteAt b 2))
        "complete_link_frame_with_valid_header_and_data_crcs"
    else .noMatch

def modbusProbe : ProtocolProbe where
  name := "modbus_tcp_mbap"
  probe input :=
    let b := input.prefixBytes
    if input.transport ≠ .tcp then .noMatch
    else if b.length < 4 then .needMore 4
    else if sliceOf b 2 4 ≠ [0, 0] then .noMatch
    else if b.length < 6 then .needMore 6
    else if (be16 b 4).toNat < 2 ∨ 254 < (be16 b 4).toNat then .noMatch
    else if b.length < 6 + (be16 b 4).toNat then .needMore (6 + (be16 b 4).toNat)
    else if byteAt b 7 &&& 0x7f = 0 then .noMatch
    else .matched "modbus" .headerStructure (6 + (be16 b 4).toNat)
      "plausible_complete_mbap_frame_not_a_unique_protocol_signature"

namespace ProbeRegistry

def new (maxProbes maxPrefixBytes : ℕ) : Result ProbeRegistry :=
  if maxProbes = 0 ∨ maxPrefixBytes = 0 then
    .error ⟨.usage, 0, "protocol_probe_limits", "limits must be positive"⟩
  else .ok ⟨[], maxProbes, maxPrefixBytes⟩

def register (registry : ProbeRegistry) (probe : ProtocolProbe) : Result ProbeRegistry :=
  if probe.name = "" ∨ registry.probes.any (·.name = probe.name) then
    .error ⟨.usage, 0, "protocol_probe", "probe names must be nonempty and unique"⟩
  else if registry.probes.length ≥ registry.maxProbes then .error (Error.limit "protocol_probes")
  else .ok { registry with probes := registry.probes ++ [probe] }

def builtins : Result ProbeRegistry := do
  let registry ← new 16 4096
  let registry ← registry.register dnp3Probe
  registry.register modbusProbe

def checkResult (registry : ProbeRegistry) (input : ProbeInput) : ProbeResult → Result Unit
  | .noMatch => .ok ()
  | .needMore minimumTotal =>
    if minimumTotal ≤ input.prefixBytes.length then
      .error ⟨.invariant, 0, "protocol_probe", "NeedMore must require strictly more input"⟩
    else if minimumTotal > registry.maxPrefixBytes then
      .error (Error.limit "protocol_probe_prefix")
    else .ok ()
  | .matched protocol _ examinedBytes _ =>
    if examinedBytes = 0 ∨ examinedBytes > input.prefixBytes.length ∨ protocol = "" then
      .error ⟨.invariant, 0, "protocol_probe", "invalid successful probe extent or protocol name"⟩
    else .ok ()

def inspect (registry : ProbeRegistry) (input : ProbeInput) : Result (List ProbeObservation) :=
  if input.prefixBytes.length > registry.maxPrefixBytes then
    .error (Error.limit "protocol_probe_prefix")
  else registry.probes.mapM (fun probe => do
    registry.checkResult input (probe.probe input)
    .ok ⟨probe.name, probe.probe input⟩)

def Lawful (maxPrefixBytes : ℕ) (probe : ProtocolProbe) : Prop :=
  ∀ input, match probe.probe input with
    | .noMatch => True
    | .needMore minimumTotal =>
      input.prefixBytes.length < minimumTotal ∧ minimumTotal ≤ maxPrefixBytes
    | .matched protocol _ examinedBytes _ =>
      0 < examinedBytes ∧ examinedBytes ≤ input.prefixBytes.length ∧ protocol ≠ ""

theorem linkFrameTotal_bounds (lengthOctet : U8) :
    10 ≤ linkFrameTotal lengthOctet ∧ linkFrameTotal lengthOctet ≤ 292 := by
  have := lengthOctet.isLt
  unfold linkFrameTotal
  dsimp only
  omega

theorem lawful_dnp3Probe : Lawful 4096 dnp3Probe := by
  intro input
  have htotal := linkFrameTotal_bounds (byteAt input.prefixBytes 2)
  simp only [dnp3Probe]
  split_ifs <;> simp <;> omega

theorem lawful_modbusProbe : Lawful 4096 modbusProbe := by
  intro input
  simp only [modbusProbe]
  split_ifs <;> simp <;> omega

theorem checkResult_lawful {registry : ProbeRegistry} {probe : ProtocolProbe}
    (h : Lawful registry.maxPrefixBytes probe) (input : ProbeInput) :
    registry.checkResult input (probe.probe input) = .ok () := by
  have hlaw := h input
  cases hresult : probe.probe input with
  | noMatch => rfl
  | needMore minimumTotal =>
    rw [hresult] at hlaw
    rw [checkResult, if_neg (by omega), if_neg (by omega)]
  | matched protocol strength examinedBytes reason =>
    rw [hresult] at hlaw
    obtain ⟨hpos, hle, hname⟩ := hlaw
    refine if_neg ?_
    rintro (hzero | hlong | hempty)
    · omega
    · omega
    · exact hname hempty

theorem inspect_lawful {registry : ProbeRegistry} {input : ProbeInput}
    (hlaw : ∀ probe ∈ registry.probes, Lawful registry.maxPrefixBytes probe)
    (hlen : input.prefixBytes.length ≤ registry.maxPrefixBytes) :
    registry.inspect input = .ok (registry.probes.map (fun p => ⟨p.name, p.probe input⟩)) := by
  rw [inspect, if_neg (by omega)]
  have hmap (probes : List ProtocolProbe)
      (h : ∀ probe ∈ probes, Lawful registry.maxPrefixBytes probe) :
      probes.mapM (fun probe => do
        registry.checkResult input (probe.probe input)
        .ok (⟨probe.name, probe.probe input⟩ : ProbeObservation)) =
          (.ok (probes.map (fun p => ⟨p.name, p.probe input⟩)) : Result _) := by
    induction probes with
    | nil => rfl
    | cons probe rest ih =>
      rw [List.mapM_cons, checkResult_lawful (h probe (by simp)) input,
        ih (fun p hp => h p (by simp [hp]))]
      rfl
  exact hmap registry.probes hlaw

theorem builtins_ok : builtins = .ok ⟨[dnp3Probe, modbusProbe], 16, 4096⟩ := by
  rfl

end ProbeRegistry
end PcapEvidence
