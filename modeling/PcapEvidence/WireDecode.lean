import PcapEvidence.Wire
import PcapEvidence.InternetChecksum

/-!
# Link and network decoding

`decodePacket` peels the link header and any VLAN tags and hands the rest to the IPv4 or IPv6
decoder. The payload of the resulting datagram is a contiguous range of the captured packet.
An index is read only after `require` has checked the length.
-/

namespace PcapEvidence

def byteAt (b : List U8) (i : ℕ) : U8 := b.getD i 0

/-- The subslice `b[x..y]`. -/
def sliceOf (b : List U8) (x y : ℕ) : List U8 := (b.take y).drop x

def be16 (b : List U8) (i : ℕ) : U16 := byteAt b i ++ byteAt b (i + 1)

def be32 (b : List U8) (i : ℕ) : U32 :=
  byteAt b i ++ byteAt b (i + 1) ++ byteAt b (i + 2) ++ byteAt b (i + 3)

def le32 (b : List U8) (i : ℕ) : U32 :=
  byteAt b (i + 3) ++ byteAt b (i + 2) ++ byteAt b (i + 1) ++ byteAt b i

def bad (field detail : String) : Error := ⟨.malformedPacket, 0, field, detail⟩

def hex4 (v : U16) : String :=
  "0x" ++ String.ofList (List.leftpad 4 '0' (Nat.toDigits 16 v.toNat))

def loopbackFamily (linkType : ℕ) (packet : List U8) : U32 :=
  if linkType = 108 ∨ be32 packet 0 ∈ [2, 10, 24, 28, 30] then be32 packet 0 else le32 packet 0

/-- The first match of `decodePacket`: the scope, the network start and the EtherType. -/
def linkHeader (linkType : U32) (packet : List U8) (id : PacketId) (scope : Scope) :
    Result (Scope × ℕ × U16) :=
  match linkType.toNat with
  | 1 => do
    require packet 14 id.recordOffset "ethernet"
    .ok (scope, 14, be16 packet 12)
  | 113 => do
    require packet 16 id.recordOffset "linux_sll"
    .ok (scope, 16, be16 packet 14)
  | 276 => do
    require packet 20 id.recordOffset "linux_sll2"
    .ok ({ scope with linkInterface := some (be32 packet 4) }, 20, be16 packet 0)
  | 101 => do
    require packet 1 id.recordOffset "raw_ip"
    if byteAt packet 0 >>> 4 = 4 then .ok (scope, 0, 0x0800)
    else if byteAt packet 0 >>> 4 = 6 then .ok (scope, 0, 0x86dd)
    else .error (bad "raw_ip" "unknown version")
  | 228 => .ok (scope, 0, 0x0800)
  | 229 => .ok (scope, 0, 0x86dd)
  | 0 | 108 => do
    require packet 4 id.recordOffset "loopback"
    if loopbackFamily linkType.toNat packet = 2 then .ok (scope, 4, 0x0800)
    else if loopbackFamily linkType.toNat packet ∈ [10, 24, 28, 30] then .ok (scope, 4, 0x86dd)
    else .error (bad "loopback" "unsupported address family")
  | _ => .error ⟨.unsupportedLink, id.recordOffset, "link_type",
      "LINKTYPE " ++ toString linkType.toNat ++ " has no decoder"⟩

def vlanTags (packet : List U8) (id : PacketId) :
    ℕ → Scope → ℕ → U16 → Result (Scope × ℕ × U16)
  | fuel, scope, start, etherType =>
    if etherType = 0x8100 ∨ etherType = 0x88a8 ∨ etherType = 0x9100 then
      match fuel with
      | 0 => .error (Error.limit "vlan_depth")
      | fuel + 1 => do
        require packet (start + 4) id.recordOffset "vlan"
        vlanTags packet id fuel { scope with vlans := scope.vlans ++ [be16 packet start &&& 0x0fff] }
          (start + 4) (be16 packet (start + 2))
    else .ok (scope, start, etherType)

def ipv4OptionContext (options : List U8) :
    ℕ → ℕ → ChecksumContext → Result ChecksumContext
  | 0, _, context => .ok context
  | fuel + 1, p, context =>
    if p < options.length then
      if byteAt options p = 0 then .ok context
      else if byteAt options p = 1 then ipv4OptionContext options fuel (p + 1) context
      else do
        require options (p + 2) 0 "ipv4_option_length"
        if (byteAt options (p + 1)).toNat < 2 then
          .error (bad "ipv4_option_length" "option shorter than type and length")
        else do
          require options (p + (byteAt options (p + 1)).toNat) 0 "ipv4_option_length"
          ipv4OptionContext options fuel (p + (byteAt options (p + 1)).toNat)
            (if byteAt options p = 131 ∨ byteAt options p = 137 then .unsupported else context)
    else .ok context

def ipv4ChecksumContext (options : List U8) : Result ChecksumContext :=
  ipv4OptionContext options (options.length + 1) 0 .baseAddresses

def ipv6OptionContext (header : List U8) : ℕ → ℕ → ChecksumContext → Result ChecksumContext
  | 0, _, context => .ok context
  | fuel + 1, p, context =>
    if p < header.length then
      if byteAt header p = 0 then ipv6OptionContext header fuel (p + 1) context
      else do
        require header (p + 2) 0 "ipv6_option_length"
        require header (p + ((byteAt header (p + 1)).toNat + 2)) 0 "ipv6_option_length"
        ipv6OptionContext header fuel (p + ((byteAt header (p + 1)).toNat + 2))
          (if byteAt header p = 0xc9 then .unsupported else context)
    else .ok context

def ipv6ChecksumContext (protocol : U8) (header : List U8) : Result ChecksumContext :=
  if protocol = 43 then .ok .unsupported
  else if protocol ≠ 0 ∧ protocol ≠ 60 then .ok .baseAddresses
  else ipv6OptionContext header (header.length + 1) 2 .baseAddresses

def ipv4Address (b : List U8) (i : ℕ) : IpAddr :=
  .v4 #v[byteAt b i, byteAt b (i + 1), byteAt b (i + 2), byteAt b (i + 3)]

def ipv6Address (b : List U8) (i : ℕ) : IpAddr := .v6 (Vector.ofFn (fun j => byteAt b (i + j)))

/-- The IPv4 decoder on the packet from `start`, with `b` the remaining bytes. -/
def ipv4 (packet : List U8) (start : ℕ) (id : PacketId) (scope : Scope) : Result Datagram := do
  require packet (start + 20) id.recordOffset "ipv4"
  let b := packet.drop start
  if byteAt b 0 >>> 4 ≠ 4 then .error (bad "ipv4" "version mismatch") else do
  let header := (byteAt b 0 &&& 15).toNat * 4
  if header < 20 then .error (bad "ipv4_ihl" "header shorter than 20 bytes") else do
  require b header (id.recordOffset + start) "ipv4_options"
  let total := (be16 b 2).toNat
  if total < header then .error (bad "ipv4_total_length" "length smaller than header") else do
  require b total (id.recordOffset + start) "ipv4_payload"
  let flags := be16 b 6
  let off := (flags &&& 0x1fff).toNat * 8
  let more := flags &&& 0x2000 != 0
  if flags &&& 0x8000 ≠ 0 then .error (bad "ipv4_flags" "reserved flag set") else
  if more ∧ (total - header) % 8 ≠ 0 then
    .error (bad "ipv4_fragment" "non-final fragment length not a multiple of 8") else
  if (more ∨ off ≠ 0) ∧ total = header then .error (bad "ipv4_fragment" "empty fragment") else
  if ¬ ((checkedAdd off (total - header)).any (· ≤ 65535)) then
    .error (bad "ipv4_fragment" "fragment range too large") else do
  let context ← ipv4ChecksumContext (sliceOf b 20 header)
  .ok {
    scope := scope
    source := ipv4Address b 12
    destination := ipv4Address b 16
    protocol := byteAt b 9
    ipv6 := false
    networkHeaderLen := header
    fragment := if more ∨ off ≠ 0 then some ⟨(be16 b 4).setWidth 32, off, more⟩ else none
    payload := .fromPacket (sliceOf b header total) id (start + header)
    ipChecksum := if internetChecksum (b.take header) = 0 then .valid else .invalid
    checksumContext := context }

structure Ipv6Cursor where
  next : U8
  p : ℕ
  fragment : Option FragmentInfo
  context : ChecksumContext

def extensionLength (protocol lengthOctet : U8) : ℕ :=
  if protocol = 51 then (lengthOctet.toNat + 2) * 4 else (lengthOctet.toNat + 1) * 8

def ipv6Extensions (b : List U8) (total offset : ℕ) : ℕ → Ipv6Cursor → Result Ipv6Cursor
  | fuel, cursor =>
    if cursor.next ∈ ([0, 43, 44, 51, 60] : List U8) then
      match fuel with
      | 0 => .error (Error.limit "ipv6_extension_depth")
      | fuel + 1 => do
        require (b.take total) (cursor.p + 2) offset "ipv6_extension"
        if cursor.next = 44 then do
          require (b.take total) (cursor.p + 8) offset "ipv6_fragment"
          let bits := be16 b (cursor.p + 2)
          if bits &&& 0x0006 ≠ 0 ∨ byteAt b (cursor.p + 1) ≠ 0 then
            .error (bad "ipv6_fragment" "reserved bits set") else
          let off := (bits &&& 0xfff8).toNat
          let more := bits &&& 1 != 0
          let fragId := be32 b (cursor.p + 4)
          let after := { cursor with next := byteAt b cursor.p, p := cursor.p + 8 }
          if more ∧ (total - after.p) % 8 ≠ 0 then
            .error (bad "ipv6_fragment" "non-final fragment length not a multiple of 8") else
          -- an atomic fragment is passed through rather than combined with other traffic
          if more ∨ off ≠ 0 then
            if total = after.p then .error (bad "ipv6_fragment" "empty fragment")
            else .ok { after with fragment := some ⟨fragId, off, more⟩ }
          else ipv6Extensions b total offset fuel after
        else do
          let ext := extensionLength cursor.next (byteAt b (cursor.p + 1))
          require (b.take total) (cursor.p + ext) offset "ipv6_extension_length"
          let context ← ipv6ChecksumContext cursor.next (sliceOf b cursor.p (cursor.p + ext))
          ipv6Extensions b total offset fuel { cursor with
            next := byteAt b cursor.p
            p := cursor.p + ext
            context := if context = .unsupported then .unsupported else cursor.context }
    else .ok cursor

def ipv6 (packet : List U8) (start : ℕ) (id : PacketId) (scope : Scope) : Result Datagram := do
  require packet (start + 40) id.recordOffset "ipv6"
  let b := packet.drop start
  if byteAt b 0 >>> 4 ≠ 6 then .error (bad "ipv6" "version mismatch") else do
  let n := (be16 b 4).toNat
  if n = 0 ∧ byteAt b 6 = 0 ∧ b.length > 40 then
    .error ⟨.unsupportedNetwork, id.recordOffset, "ipv6_jumbo",
      "jumbogram semantics are not implemented"⟩ else do
  let total := 40 + n
  require b total (id.recordOffset + start) "ipv6_payload"
  let cursor ← ipv6Extensions b total (id.recordOffset + start) 16
    ⟨byteAt b 6, 40, none, .baseAddresses⟩
  .ok {
    scope := scope
    source := ipv6Address b 8
    destination := ipv6Address b 24
    protocol := cursor.next
    ipv6 := true
    networkHeaderLen := cursor.p
    fragment := cursor.fragment
    payload := .fromPacket (sliceOf b cursor.p total) id (start + cursor.p)
    ipChecksum := .notPresent
    checksumContext := cursor.context }

def decodePacket (linkType : U32) (packet : List U8) (id : PacketId) (scope : Scope) :
    Result Datagram := do
  let (scope, start, etherType) ← linkHeader linkType packet id scope
  let (scope, start, etherType) ← vlanTags packet id (8 - scope.vlans.length) scope start etherType
  if etherType = 0x0800 then ipv4 packet start id scope
  else if etherType = 0x86dd then ipv6 packet start id scope
  else .error ⟨.unsupportedNetwork, id.recordOffset + start, "ether_type", hex4 etherType⟩

end PcapEvidence
