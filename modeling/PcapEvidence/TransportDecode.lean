import PcapEvidence.WireDecode

/-!
# Transport decoding of a reassembled datagram

IPv6 extension headers that follow a Fragment header are skipped first. TCP and UDP payloads are
slices of the datagram's evidence, so they keep its provenance.
-/

namespace PcapEvidence

def postFragmentExtensions (all : List U8) :
    ℕ → U8 → ℕ → ChecksumContext → Result (U8 × ℕ × ChecksumContext)
  | fuel, protocol, start, context =>
    if protocol ∈ ([0, 43, 51, 60] : List U8) then
      match fuel with
      | 0 => .error (Error.limit "ipv6_extension_depth")
      | fuel + 1 => do
        require all (start + 2) 0 "ipv6_post_fragment_extension"
        let n := extensionLength protocol (byteAt all (start + 1))
        require all (start + n) 0 "ipv6_post_fragment_extension"
        let found ← ipv6ChecksumContext protocol (sliceOf all start (start + n))
        postFragmentExtensions all fuel (byteAt all start) (start + n)
          (if found = .unsupported then .unsupported else context)
    else .ok (protocol, start, context)

def lengthOctets (width n : ℕ) : List U8 :=
  (List.range width).map (fun i => BitVec.ofNat 8 (n / 256 ^ (width - 1 - i)))

def transportChecksum (src dst : IpAddr) (protocol : U8) (bytes : List U8) : Result Checksum :=
  let finish (pseudo : List (List U8)) : Result Checksum :=
    .ok (if ((pseudo ++ [bytes]).foldl InternetChecksum.update .new).finish = 0 then .valid
      else .invalid)
  match src, dst with
  | .v4 a, .v4 b =>
    if bytes.length < 2 ^ 16 then
      finish [a.toList, b.toList, [0, protocol], lengthOctets 2 bytes.length]
    else .error (bad "transport_length" "IPv4 transport exceeds 65535")
  | .v6 a, .v6 b =>
    if bytes.length < 2 ^ 32 then
      finish [a.toList, b.toList, lengthOctets 4 bytes.length, [0, 0, 0, protocol]]
    else .error (bad "transport_length" "IPv6 transport too large")
  | _, _ => .error (bad "address_family" "mixed source/destination address families")

def checkedTransportChecksum (datagram : Datagram) (context : ChecksumContext) (protocol : U8)
    (bytes : List U8) : Result Checksum :=
  match context with
  | .baseAddresses => transportChecksum datagram.source datagram.destination protocol bytes
  | .unsupported => .ok .notChecked

def requireSupportedChecksum (checksum : Checksum) (policy : ChecksumPolicy) : Result Unit :=
  if policy = .requireValid ∧ checksum = .notChecked then
    .error ⟨.unsupportedNetwork, 0, "transport_checksum_operands",
      "network options require unsupported pseudo-header operands"⟩
  else .ok ()

/-- The TCP branch, with `start` the length of the skipped extension headers. -/
def decodeTcp (datagram : Datagram) (policy : ChecksumPolicy) (context : ChecksumContext)
    (start : ℕ) : Result Transport := do
  let data := datagram.payload.data.drop start
  require data 20 0 "tcp"
  let header := (byteAt data 12 >>> 4).toNat * 4
  if header < 20 then .error (bad "tcp_offset" "data offset smaller than fixed header") else do
  require data header 0 "tcp_options"
  let checksum ← checkedTransportChecksum datagram context 6 data
  requireSupportedChecksum checksum policy
  if policy = .requireValid ∧ checksum ≠ .valid then
    .error ⟨.checksum, 0, "tcp", "invalid checksum; capture offload may be relevant"⟩ else do
  let payload ← datagram.payload.slice (start + header) datagram.payload.data.length
  .ok (.tcp {
    source := ⟨datagram.source, be16 data 0⟩
    destination := ⟨datagram.destination, be16 data 2⟩
    sequence := be32 data 4
    acknowledgement := be32 data 8
    flags := byteAt data 13
    checksum := checksum
    payload := payload })

def udpChecksum (datagram : Datagram) (context : ChecksumContext) (data : List U8) (len : ℕ) :
    Result Checksum :=
  if be16 data 6 = 0 then .ok (if datagram.ipv6 then .invalid else .notPresent)
  else checkedTransportChecksum datagram context 17 (data.take len)

def decodeUdp (datagram : Datagram) (policy : ChecksumPolicy) (context : ChecksumContext)
    (start : ℕ) : Result Transport := do
  let data := datagram.payload.data.drop start
  require data 8 0 "udp"
  let len := (be16 data 4).toNat
  if len < 8 then
    .error (bad "udp_length" "UDP length smaller than header or unsupported jumbogram") else do
  require data len 0 "udp_payload"
  let checksum ← udpChecksum datagram context data len
  requireSupportedChecksum checksum policy
  if policy = .requireValid ∧ checksum = .invalid then
    .error ⟨.checksum, 0, "udp", "invalid UDP checksum"⟩ else do
  let payload ← datagram.payload.slice (start + 8) (start + len)
  .ok (.udp {
    source := ⟨datagram.source, be16 data 0⟩
    destination := ⟨datagram.destination, be16 data 2⟩
    checksum := checksum
    payload := payload })

def skipExtensions (datagram : Datagram) : Result (U8 × ℕ × ChecksumContext) :=
  if datagram.ipv6 then
    postFragmentExtensions datagram.payload.data 16 datagram.protocol 0 datagram.checksumContext
  else .ok (datagram.protocol, 0, datagram.checksumContext)

def decodeTransport (datagram : Datagram) (policy : ChecksumPolicy) : Result Transport :=
  if datagram.fragment.isSome then
    .error (bad "fragment" "reassemble IP fragments before parsing transport")
  else if policy = .requireValid ∧ datagram.ipChecksum = .invalid then
    .error ⟨.checksum, 0, "ipv4", "invalid IPv4 checksum"⟩
  else do
    let (protocol, start, context) ← skipExtensions datagram
    if protocol = 6 then decodeTcp datagram policy context start
    else if protocol = 17 then decodeUdp datagram policy context start
    else .error ⟨.unsupportedTransport, 0, "ip_protocol",
      "protocol " ++ toString protocol.toNat ++ " is not decoded"⟩

def Transport.payload : Transport → EvidenceBytes
  | .tcp s => s.payload
  | .udp d => d.payload

theorem decodeTransport_payload {datagram : Datagram} {policy : ChecksumPolicy} {t : Transport}
    (h : decodeTransport datagram policy = .ok t) :
    ∃ a b, datagram.payload.slice a b = .ok t.payload := by
  unfold decodeTransport at h
  split_ifs at h
  obtain ⟨⟨protocol, start, context⟩, -, h⟩ := bind_eq_ok.1 h
  dsimp only at h
  split_ifs at h
  · simp only [decodeTcp, bind_eq_ok] at h
    obtain ⟨-, -, h⟩ := h
    split_ifs at h
    simp only [bind_eq_ok] at h
    obtain ⟨-, -, checksum, -, -, -, h⟩ := h
    split_ifs at h
    obtain ⟨payload, hslice, h⟩ := bind_eq_ok.1 h
    cases h
    exact ⟨_, _, hslice⟩
  · simp only [decodeUdp, bind_eq_ok] at h
    obtain ⟨-, -, h⟩ := h
    split_ifs at h
    simp only [bind_eq_ok] at h
    obtain ⟨-, -, checksum, -, -, -, h⟩ := h
    split_ifs at h
    obtain ⟨payload, hslice, h⟩ := bind_eq_ok.1 h
    cases h
    exact ⟨_, _, hslice⟩

end PcapEvidence
