import PcapEvidence.CaptureIter

/-!
# Writers of new captures

`PcapWriter` and `PcapNgWriter` validate before each write. An output takes bytes until it fails;
a writer whose output has failed refuses every later call, because it cannot know how much of the
last block was written.
-/

namespace PcapEvidence

open Method

namespace Endian

def putU16 (e : Endian) (v : U16) : List U8 :=
  match e with
  | little => [v.extractLsb' 0 8, v.extractLsb' 8 8]
  | big => [v.extractLsb' 8 8, v.extractLsb' 0 8]

def putU32 (e : Endian) (v : U32) : List U8 :=
  match e with
  | little => [v.extractLsb' 0 8, v.extractLsb' 8 8, v.extractLsb' 16 8, v.extractLsb' 24 8]
  | big => [v.extractLsb' 24 8, v.extractLsb' 16 8, v.extractLsb' 8 8, v.extractLsb' 0 8]

def putU64 (e : Endian) (v : U64) : List U8 :=
  match e with
  | little => little.putU32 (v.extractLsb' 0 32) ++ little.putU32 (v.extractLsb' 32 32)
  | big => big.putU32 (v.extractLsb' 32 32) ++ big.putU32 (v.extractLsb' 0 32)

end Endian

structure Output where
  written : List U8
  fault : Option (ℕ × String)
  deriving DecidableEq

namespace Output

def writeAll (data : List U8) : Method Output Error Unit := fun o =>
  match o.fault with
  | none => (.ok (), { o with written := o.written ++ data })
  | some (room, detail) =>
    if data.length ≤ room then (.ok (), ⟨o.written ++ data, some (room - data.length, detail)⟩)
    else (.error (Error.io detail), ⟨o.written ++ data.take room, some (0, detail)⟩)

/-- One write after the other, up to the first that fails. -/
def writeEach : List (List U8) → Method Output Error Unit
  | [] => pure ()
  | data :: rest => do
    writeAll data
    writeEach rest

end Output

def writerFailed : Error := ⟨.io, 0, "writer_failed",
  "an earlier write failed; discard this writer rather than retrying an unknown partial write"⟩

structure PcapWriter where
  output : Output
  endian : Endian
  nanos : Bool
  snaplen : U32
  limits : Limits
  failed : Bool

namespace PcapWriter

def header (endian : Endian) (nanos : Bool) (linkType : U16) (snaplen : U32) : List U8 :=
  endian.putU32 (if nanos then 0xa1b23c4d else 0xa1b2c3d4) ++ endian.putU16 2 ++ endian.putU16 4 ++
    endian.putU32 0 ++ endian.putU32 0 ++ endian.putU32 snaplen ++
    endian.putU32 (linkType.setWidth 32)

def new (output : Output) (endian : Endian) (nanos : Bool) (linkType : U16) (snaplen : U32)
    (limits : Limits) : Result PcapWriter := do
  limits.validate
  if snaplen = 0 then .error ⟨.invalidLength, 0, "snaplen", "must be nonzero"⟩
  else match output.writeAll (header endian nanos linkType snaplen) with
    | (.error e, _) => .error e
    | (.ok (), output) => .ok ⟨output, endian, nanos, snaplen, limits, false⟩

def emit (pieces : List (List U8)) : Method PcapWriter Error Unit := fun w =>
  match Output.writeEach pieces w.output with
  | (.ok (), output) => (.ok (), { w with output := output })
  | (.error e, output) => (.error e, { w with output := output, failed := true })

def packetHeader (endian : Endian) (sec frac cap originalLen : U32) : List U8 :=
  endian.putU32 sec ++ endian.putU32 frac ++ endian.putU32 cap ++ endian.putU32 originalLen

def packet (timestamp : Timestamp) (originalLen : U32) (data : List U8) :
    Method PcapWriter Error Unit := do
  let w ← read
  if w.failed then fail writerFailed
  else if data.length > w.limits.maxPacketBytes ∨ data.length > w.snaplen.toNat ∨
      data.length > originalLen.toNat then
    fail ⟨.invalidLength, 0, "packet",
      "capture length exceeds budget, snaplen, or original length"⟩
  else do
    let parts ← lift (timestamp.legacyParts w.nanos)
    if data.length ≥ 2 ^ 32 then fail (Error.limit "packet_bytes")
    else emit [packetHeader w.endian parts.1 parts.2 (BitVec.ofNat 32 data.length) originalLen, data]

end PcapWriter

structure PcapNgWriter where
  output : Output
  endian : Endian
  interfaces : List Interface
  limits : Limits
  failed : Bool
  deriving DecidableEq

namespace PcapNgWriter

def emit (pieces : List (List U8)) : Method PcapNgWriter Error Unit := fun w =>
  match Output.writeEach pieces w.output with
  | (.ok (), output) => (.ok (), { w with output := output })
  | (.error e, output) => (.error e, { w with output := output, failed := true })

def block (type : U32) (body : List U8) : Method PcapNgWriter Error Unit := do
  let w ← read
  if w.failed then fail writerFailed
  else match checkedAdd body.length 12 with
    | none => fail (Error.limit "block_bytes")
    | some total =>
      if total > w.limits.maxBlockBytes ∨ total % 4 ≠ 0 then fail (Error.limit "block_bytes")
      else if total ≥ 2 ^ 32 then fail (Error.limit "block_bytes")
      else emit [w.endian.putU32 type ++ w.endian.putU32 (BitVec.ofNat 32 total), body,
        w.endian.putU32 (BitVec.ofNat 32 total)]

def sectionBody (endian : Endian) : List U8 :=
  endian.putU32 0x1a2b3c4d ++ endian.putU16 1 ++ endian.putU16 0 ++ endian.putU64 (-1)

def new (output : Output) (endian : Endian) (limits : Limits) : Result PcapNgWriter := do
  limits.validate
  match block Decoder.SHB (sectionBody endian) ⟨output, endian, [], limits, false⟩ with
  | (.error e, _) => .error e
  | (.ok (), w) => .ok w

def option (endian : Endian) (code : U16) (value : List U8) (body : List U8) : Result (List U8) :=
  if value.length ≥ 2 ^ 16 then .error (Error.limit "option")
  else do
    let body := body ++ endian.putU16 code ++ endian.putU16 (BitVec.ofNat 16 value.length) ++ value
    let padded ← Decoder.align4 body.length
    .ok (body ++ List.replicate (padded - body.length) 0)

def interfaceBody (endian : Endian) (linkType : U16) (snaplen : U32) (res : U8)
    (offsetSeconds : U64) : Result (List U8) := do
  let body := endian.putU16 linkType ++ endian.putU16 0 ++ endian.putU32 snaplen
  let body ← option endian 9 [res] body
  let body ← option endian 14 (endian.putU64 offsetSeconds) body
  option endian 0 [] body

def interface (linkType : U16) (snaplen : U32) (resolution : Resolution) (offsetSeconds : U64) :
    Method PcapNgWriter Error U32 := do
  let w ← read
  if w.failed then fail writerFailed
  else if w.interfaces.length ≥ w.limits.maxInterfaces then fail (Error.limit "interfaces")
  else do
    let res ← lift resolution.toPcapng
    if w.interfaces.length ≥ 2 ^ 32 then fail (Error.limit "interfaces")
    else do
      let id := BitVec.ofNat 32 w.interfaces.length
      let body ← lift (interfaceBody w.endian linkType snaplen res offsetSeconds)
      block 1 body
      update (fun w => { w with
        interfaces := w.interfaces ++
          [⟨0, id, linkType.setWidth 32, snaplen, resolution, offsetSeconds⟩] })
      pure id

def packetBody (endian : Endian) (interfaceId : U32) (ticks : U64) (cap originalLen : U32)
    (data : List U8) (total : ℕ) : List U8 :=
  let body := endian.putU32 interfaceId ++ endian.putU32 (ticks.extractLsb' 32 32) ++
    endian.putU32 (ticks.extractLsb' 0 32) ++ endian.putU32 cap ++ endian.putU32 originalLen ++ data
  body ++ List.replicate (total - body.length) 0

def packet (interfaceId : U32) (timestamp : Timestamp) (originalLen : U32) (data : List U8) :
    Method PcapNgWriter Error Unit := do
  let w ← read
  if w.failed then fail writerFailed
  else match w.interfaces[interfaceId.toNat]? with
    | none => fail ⟨.missingInterface, 0, "interface", "declare interface before packet"⟩
    | some iface =>
      if timestamp.resolution ≠ iface.resolution ∨
          timestamp.offsetSeconds ≠ iface.offsetSeconds then
        fail ⟨.invalidTimestamp, 0, "timestamp",
          "raw clock semantics must match the interface exactly"⟩
      else if data.length > w.limits.maxPacketBytes ∨ data.length > originalLen.toNat ∨
          (iface.snaplen ≠ 0 ∧ data.length > iface.snaplen.toNat) then
        fail ⟨.invalidLength, 0, "packet", "invalid captured length"⟩
      else do
        let total ← lift (Decoder.alignedEnd 20 data.length "block_bytes")
        if (checkedAdd total 12).all (· > w.limits.maxBlockBytes) then
          fail (Error.limit "block_bytes")
        else if data.length ≥ 2 ^ 32 then fail (Error.limit "packet_bytes")
        else block 6 (packetBody w.endian interfaceId timestamp.ticks
          (BitVec.ofNat 32 data.length) originalLen data total)

end PcapNgWriter
end PcapEvidence
