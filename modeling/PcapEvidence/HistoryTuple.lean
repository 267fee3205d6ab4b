import PcapEvidence.HistoryModel

/-!
# Tuples and TCP inputs of the history engine

The key of a TCP tuple, the witnesses of its bytes and one input segment, each with its canonical
encoding. The header fields of an input are derived from its raw bytes, never read back.
-/

namespace PcapEvidence.History

open Method ByteCodec

structure Key where
  sectionId : U32
  interface : U32
  /-- The identity of the link header, independent of the capture interface. -/
  linkInterface : Option U32
  vlans : List U16
  tunnels : List String
  a : Endpoint
  b : Endpoint
  deriving DecidableEq

def isControl (c : Char) : Bool := c.val < 0x20 || (0x7f ≤ c.val && c.val < 0xa0)

namespace Encoder

def endpoint (p : Endpoint) : List U8 :=
  (match p.address with
    | .v4 octets => u8 4 ++ octets.toList
    | .v6 octets => u8 6 ++ octets.toList) ++ u16 p.port

def all {α : Type} (encode : α → Result (List U8)) : List α → Result (List U8)
  | [] => .ok []
  | v :: vs => do
    let first ← encode v
    let rest ← all encode vs
    .ok (first ++ rest)

end Encoder

namespace Decoder

def octets (n : ℕ) : DecoderM (Vector U8 n) := do
  let b ← take n
  pure (Vector.ofFn fun i => byteAt b i)

def address : DecoderM IpAddr := do
  let family ← u8
  if family = 4 then do
    let o ← octets 4
    pure (.v4 o)
  else if family = 6 then do
    let o ← octets 16
    pure (.v6 o)
  else fail (bad "history_address" "unknown family")

def endpoint : DecoderM Endpoint := do
  let a ← address
  let port ← u16
  pure ⟨a, port⟩

end Decoder

namespace Key

def Canonical (k : Key) : Prop :=
  k.a ≤ k.b ∧ k.vlans.length ≤ 8 ∧ k.vlans.all (fun v => v.toNat ≤ 4095) ∧
    k.tunnels.length ≤ 16 ∧
    ∀ s ∈ k.tunnels, (Encoder.utf8 s).length ≤ 512 ∧ s.toList.all (fun c => !isControl c)

instance (k : Key) : Decidable k.Canonical := inferInstanceAs (Decidable (_ ∧ _))

def encode (k : Key) : Result (List U8) :=
  if ¬ k.Canonical then .error (bad "history_tuple" "noncanonical or excessive tuple scope")
  else do
    let tunnels ← Encoder.all Encoder.text k.tunnels
    .ok (Encoder.u32 k.sectionId ++ Encoder.u32 k.interface ++ Encoder.optionU32 k.linkInterface ++
      Encoder.u8 (BitVec.ofNat 8 k.vlans.length) ++ k.vlans.flatMap Encoder.u16 ++
      Encoder.u8 (BitVec.ofNat 8 k.tunnels.length) ++ tunnels ++
      Encoder.endpoint k.a ++ Encoder.endpoint k.b)

def decodeM : DecoderM Key := do
  let sectionId ← Decoder.u32
  let interface ← Decoder.u32
  let linkInterface ← Decoder.optionU32
  let n ← Decoder.u8
  if n.toNat > 8 then fail (Error.limit "vlans")
  else do
    let vlans ← repeated Decoder.u16 n.toNat
    let n ← Decoder.u8
    if n.toNat > 16 then fail (Error.limit "tunnels")
    else do
      let tunnels ← repeated (Decoder.text 512) n.toNat
      let a ← Decoder.endpoint
      let b ← Decoder.endpoint
      Decoder.finish
      let k : Key := ⟨sectionId, interface, linkInterface, vlans, tunnels, a, b⟩
      let _ ← lift k.encode
      pure k

def decode (b : List U8) : Result Key := Decoder.run decodeM b

def digest (sha256 : List U8 → Digest) (k : Key) : Result Digest := do
  let b ← k.encode
  .ok (sha256 b)

end Key

structure Witness where
  start : U32
  stop : U32
  frame : U64
  recordOffset : U64
  packetStart : U32
  sourceOffset : U64
  deriving DecidableEq

namespace Witness

def encode (w : Witness) : List U8 :=
  Encoder.u32 w.start ++ Encoder.u32 w.stop ++ Encoder.u64 w.frame ++
    Encoder.u64 w.recordOffset ++ Encoder.u32 w.packetStart ++ Encoder.u64 w.sourceOffset

def decode : DecoderM Witness := do
  let start ← Decoder.u32
  let stop ← Decoder.u32
  let frame ← Decoder.u64
  let recordOffset ← Decoder.u64
  let packetStart ← Decoder.u32
  let sourceOffset ← Decoder.u64
  pure ⟨start, stop, frame, recordOffset, packetStart, sourceOffset⟩

/-- The layout of one witness behind the bytes that are covered so far. -/
def Lays (raw cursor : ℕ) (w : Witness) : Prop :=
  w.start.toNat = cursor ∧ w.start.toNat < w.stop.toNat ∧ w.stop.toNat ≤ raw ∧ w.frame ≠ 0 ∧
    w.sourceOffset.toNat + (w.stop.toNat - w.start.toNat) < 2 ^ 64 ∧
    w.packetStart.toNat + (w.stop.toNat - w.start.toNat) < 2 ^ 32

instance (raw cursor : ℕ) (w : Witness) : Decidable (w.Lays raw cursor) :=
  inferInstanceAs (Decidable (_ ∧ _))

/-- The witnesses in order; the end of the last one. -/
def covered (raw : ℕ) : ℕ → List Witness → Result ℕ
  | cursor, [] => .ok cursor
  | cursor, w :: rest =>
    if w.Lays raw cursor then covered raw w.stop.toNat rest
    else .error (bad "tcp_witness" "invalid source-span layout")

end Witness

structure TcpInput where
  key : Key
  direction : U8
  frame : U64
  /-- A signed time in nanoseconds. -/
  when_ : Option (BitVec 128)
  raw : List U8
  witnesses : List Witness
  sequence : U32
  acknowledgement : U32
  flags : U16
  window : U16
  timestampValue : Option U32
  headerBytes : ℕ
  deriving DecidableEq

namespace TcpInput

/-- The walk over the header options; every option takes a byte. -/
def options (raw : List U8) (headerBytes : ℕ) : ℕ → ℕ → Option U32 → Result (Option U32)
  | 0, _, value => .ok value
  | fuel + 1, i, value =>
    if headerBytes ≤ i then .ok value
    else if byteAt raw i = 0 then .ok value
    else if byteAt raw i = 1 then options raw headerBytes fuel (i + 1) value
    else if raw.length ≤ i + 1 then .error (bad "tcp_option" "missing length")
    else
      let n := (byteAt raw (i + 1)).toNat
      if n < 2 ∨ headerBytes < i + n then .error (bad "tcp_option" "invalid option extent")
      else if byteAt raw i = 8 then
        if n ≠ 10 ∨ value.isSome then
          .error (bad "tcp_timestamp" "invalid/duplicate timestamp option")
        else options raw headerBytes fuel (i + n) (some (be32 raw (i + 2)))
      else options raw headerBytes fuel (i + n) value

def new (key : Key) (direction : U8) (frame : U64) (when_ : Option (BitVec 128)) (raw : List U8)
    (witnesses : List Witness) (c : Config) : Result TcpInput := do
  c.validate
  let _ ← key.encode
  if direction.toNat > 1 ∨ frame = 0 ∨ raw.length < 20 ∨ raw.length > 65535 ∨
      witnesses.length > c.maxWitnesses then
    .error (bad "tcp_input" "invalid input bounds")
  else
    let headerBytes := (byteAt raw 12 >>> 4).toNat * 4
    if ¬ (20 ≤ headerBytes ∧ headerBytes ≤ 60) ∨ headerBytes > raw.length then
      .error (bad "tcp_header" "invalid header length")
    else
      let (src, dst) := if direction = 0 then (key.a, key.b) else (key.b, key.a)
      if be16 raw 0 ≠ src.port ∨ be16 raw 2 ≠ dst.port then
        .error (bad "tcp_ports" "tuple disagrees with transport header")
      else do
        let cursor ← Witness.covered raw.length 0 witnesses
        if cursor ≠ raw.length then
          .error (bad "tcp_witness" "raw bytes lack complete witnesses")
        else do
          let timestampValue ← options raw headerBytes headerBytes 20 none
          .ok {
            key := key
            direction := direction
            frame := frame
            when_ := when_
            raw := raw
            witnesses := witnesses
            sequence := be32 raw 4
            acknowledgement := be32 raw 8
            flags := (byteAt raw 13).setWidth 16 ||| ((byteAt raw 12 &&& 1).setWidth 16 <<< 8)
            window := be16 raw 14
            timestampValue := timestampValue
            headerBytes := headerBytes }

def syn (p : TcpInput) : Bool := p.flags &&& 2 != 0

def fin (p : TcpInput) : Bool := p.flags &&& 1 != 0

def rst (p : TcpInput) : Bool := p.flags &&& 4 != 0

def ack (p : TcpInput) : Bool := p.flags &&& 16 != 0

def dataSequence (p : TcpInput) : U32 := p.sequence + (if p.syn then 1 else 0)

def payload (p : TcpInput) : List U8 := p.raw.drop p.headerBytes

def encode (p : TcpInput) : Result (List U8) := do
  let key ← p.key.encode
  let key ← Encoder.bytes key
  let raw ← Encoder.bytes p.raw
  if p.witnesses.length ≥ 2 ^ 32 then .error (Error.limit "witnesses")
  else .ok (key ++ Encoder.u8 p.direction ++ Encoder.u64 p.frame ++ Encoder.optionI128 p.when_ ++
    raw ++ Encoder.u32 (BitVec.ofNat 32 p.witnesses.length) ++ p.witnesses.flatMap Witness.encode)

def decodeM (c : Config) : DecoderM TcpInput := do
  let blob ← Decoder.bytes 10000
  let key ← lift (Key.decode blob)
  let direction ← Decoder.u8
  let frame ← Decoder.u64
  let when_ ← Decoder.optionI128
  let raw ← Decoder.bytes 65535
  let n ← Decoder.u32
  if n.toNat > c.maxWitnesses then fail (Error.limit "witnesses")
  else do
    let witnesses ← repeated Witness.decode n.toNat
    Decoder.finish
    lift (new key direction frame when_ raw witnesses c)

def decode (b : List U8) (c : Config) : Result TcpInput := Decoder.run (decodeM c) b

end TcpInput

end PcapEvidence.History
