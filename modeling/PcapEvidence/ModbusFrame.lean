import PcapEvidence.Dnp3Decode
import PcapEvidence.Engine

/-!
# Modbus/TCP framing

Messages follow each other without a signature to resynchronize at, so a chunk is read from its
start until a header is cut off or implausible. Every message keeps the verdict about the shape of
its PDU under the configured role. A response matches a request when their identifiers and the
fields that the response repeats agree.
-/

namespace PcapEvidence.Modbus
open EvidenceBytes Dnp3
open StreamAssembler (offsetBound)

structure ModbusMessage where
  streamOffset : ℤ
  transaction : U16
  unit : U8
  function : U8
  role : Role
  shapeValid : Bool
  semanticsSupported : Bool
  boundaryVerified : Bool
  raw : EvidenceBytes

structure ModbusResult where
  messages : List ModbusMessage
  issues : List ProtocolIssue

def quantity (pdu : List U8) (max : ℕ) : Bool :=
  if pdu.length < 5 then false
  else
    let start := (be16 pdu 1).toNat
    let count := (be16 pdu 3).toNat
    1 ≤ count ∧ count ≤ max ∧ start + count ≤ 65536

def exceptionCodes : List U8 := [1, 2, 3, 4, 5, 6, 8, 10, 11]

def roleShape (pdu : List U8) (role : Role) : Bool :=
  if pdu.length = 0 then false
  else
    let f := byteAt pdu 0
    let count := (byteAt pdu 1).toNat
    if f &&& 0x7f = 0 then false
    else if f &&& 0x80 ≠ 0 then
      role = .response ∧ pdu.length = 2 ∧ byteAt pdu 1 ∈ exceptionCodes
    else if (f = 1 ∨ f = 2) ∧ role = .request then pdu.length = 5 ∧ quantity pdu 2000
    else if (f = 3 ∨ f = 4) ∧ role = .request then pdu.length = 5 ∧ quantity pdu 125
    else if (f = 1 ∨ f = 2) ∧ role = .response then
      pdu.length ≥ 3 ∧ count ≤ 250 ∧ count = pdu.length - 2
    else if (f = 3 ∨ f = 4) ∧ role = .response then
      pdu.length ≥ 4 ∧ count ≤ 250 ∧ count % 2 = 0 ∧ count = pdu.length - 2
    else if f = 5 then pdu.length = 5 ∧ (be16 pdu 3 = 0x0000 ∨ be16 pdu 3 = 0xff00)
    else if f = 6 then pdu.length = 5
    else if f = 15 ∧ role = .request then
      pdu.length ≥ 7 ∧ quantity pdu 1968 ∧
        (byteAt pdu 5).toNat = ((be16 pdu 3).toNat + 7) / 8 ∧
        (byteAt pdu 5).toNat = pdu.length - 6
    else if f = 16 ∧ role = .request then
      pdu.length ≥ 8 ∧ quantity pdu 123 ∧ (byteAt pdu 5).toNat = 2 * (be16 pdu 3).toNat ∧
        (byteAt pdu 5).toNat = pdu.length - 6
    else if f = 15 ∧ role = .response then pdu.length = 5 ∧ quantity pdu 1968
    else if f = 16 ∧ role = .response then pdu.length = 5 ∧ quantity pdu 123
    else true

def pduShape (pdu : List U8) (role : Role) : Bool :=
  if role = .unknown then roleShape pdu .request || roleShape pdu .response
  else roleShape pdu role

def capacity (out : ModbusResult) (additions : ℕ) (limits : Limits) : Result Unit :=
  match (checkedAdd out.messages.length out.issues.length).bind (checkedAdd · additions) with
  | none => .error (Error.limit "modbus_messages")
  | some used =>
    if used > limits.maxProtocolMessages then .error (Error.limit "modbus_messages") else .ok ()

def addIssue (out : ModbusResult) (code : String) (bytes : EvidenceBytes) (at_ : ℤ)
    (limits : Limits) : Result ModbusResult := do
  capacity out 1 limits
  .ok { out with issues := out.issues ++ [⟨code, bytes.packets, at_⟩] }

def addIssueIf (condition : Bool) (out : ModbusResult) (code : String) (bytes : EvidenceBytes)
    (at_ : ℤ) (limits : Limits) : Result ModbusResult :=
  if condition then addIssue out code bytes at_ limits else .ok out

def fieldFunctions : List U8 := [1, 2, 3, 4, 5, 6, 15, 16]

/-- A complete ADU of a plausible length. -/
def decodeAdu (chunk : StreamChunk) (verified : Bool) (role : Role) (limits : Limits)
    (out : ModbusResult) (p total : ℕ) : Result ModbusResult := do
  let bytes := chunk.bytes.data.drop p
  let at_ := chunk.offset + p
  let valid := pduShape (sliceOf bytes 7 total) role
  let supported : Bool := byteAt bytes 7 &&& 0x7f ∈ fieldFunctions ∧ role ≠ .unknown
  capacity out (1 + (!supported).toNat + (!valid).toNat) limits
  let raw ← chunk.bytes.slice p (p + total)
  let out ← addIssueIf (!supported) out "unsupported_modbus_function_or_role" raw at_ limits
  let out ← addIssueIf (!valid) out "invalid_modbus_pdu_shape" raw at_ limits
  .ok { out with messages := out.messages ++ [{
    streamOffset := at_
    transaction := be16 bytes 0
    unit := byteAt bytes 6
    function := byteAt bytes 7
    role
    shapeValid := valid
    semanticsSupported := supported
    boundaryVerified := verified
    raw }] }

def giveUp (chunk : StreamChunk) (limits : Limits) (out : ModbusResult) (p : ℕ) (code : String) :
    Result ModbusResult := do
  let rest ← chunk.bytes.slice p chunk.bytes.len
  addIssue out code rest (chunk.offset + p) limits

/-- The loop over the messages of a chunk; every message has octets. -/
def decodeFrom (chunk : StreamChunk) (verified : Bool) (role : Role) (limits : Limits) :
    ℕ → ModbusResult → ℕ → Result ModbusResult
  | 0, out, _ => .ok out
  | fuel + 1, out, p =>
    let bytes := chunk.bytes.data.drop p
    let length := (be16 bytes 4).toNat
    if p ≥ chunk.bytes.len then .ok out
    else if bytes.length < 7 then giveUp chunk limits out p "truncated_modbus_mbap"
    else if be16 bytes 2 ≠ 0 ∨ ¬ (2 ≤ length ∧ length ≤ 254) then
      giveUp chunk limits out p "modbus_framing_lost"
    else if length + 6 > limits.maxApplicationBytes then .error (Error.limit "modbus_adu_bytes")
    else if bytes.length < length + 6 then giveUp chunk limits out p "truncated_modbus_adu"
    else do
      let out ← decodeAdu chunk verified role limits out p (length + 6)
      decodeFrom chunk verified role limits fuel out (p + (length + 6))

def decodeChunk (anchoredBySyn : Bool) (role : Role) (limits : Limits) (out : ModbusResult)
    (chunk : StreamChunk) : Result ModbusResult :=
  if (chunk.bytes.len : ℤ) > offsetBound ∨ chunk.stop > offsetBound then
    .error (Error.limit "stream_offset")
  else if !chunk.bytes.validate then
    .error ⟨.invariant, 0, "provenance", "invalid Modbus source spans"⟩
  else do
    let verified : Bool := anchoredBySyn ∧ chunk.offset = 0
    let out ← addIssueIf (!verified) out "modbus_start_boundary_unverified" chunk.bytes
      chunk.offset limits
    decodeFrom chunk verified role limits chunk.bytes.len out 0

def decode (stream : StreamResult) (role : Role) (limits : Limits) : Result ModbusResult := do
  limits.validate
  stream.chunks.foldlM (decodeChunk stream.anchoredBySyn role limits) ⟨[], []⟩

def paddingIsZero (quantity : U16) (bytes : List U8) : Bool :=
  if quantity = 0 ∨ bytes.length ≠ (quantity.toNat + 7) / 8 then false
  else
    let used := quantity.toNat % 8
    used = 0 ∨ bytes.getLast?.any fun last => last &&& ((0xff : U8) <<< used) = 0

def metadataAgrees (message : ModbusMessage) : Bool :=
  let raw := message.raw.data
  raw.length ≥ 8 ∧ be16 raw 2 = 0 ∧ (be16 raw 4).toNat + 6 = raw.length ∧
    message.transaction = be16 raw 0 ∧ message.unit = byteAt raw 6 ∧
    message.function = byteAt raw 7

def fieldsMatch (function : U8) (req rsp : List U8) : Bool :=
  if (function = 1 ∨ function = 2) ∧ req.length = 12 ∧ rsp.length ≥ 9 then
    (byteAt rsp 8).toNat = ((be16 req 10).toNat + 7) / 8 ∧ paddingIsZero (be16 req 10) (rsp.drop 9)
  else if (function = 3 ∨ function = 4) ∧ req.length = 12 ∧ rsp.length ≥ 9 then
    (byteAt rsp 8).toNat = 2 * (be16 req 10).toNat
  else if function ∈ [5, 6, 15, 16] ∧ req.length ≥ 12 ∧ rsp.length = 12 then
    sliceOf req 8 12 = sliceOf rsp 8 12
  else false

def responseMatches (request response : ModbusMessage) : Bool :=
  if request.function ∉ fieldFunctions ∨ !request.raw.validate ∨ !response.raw.validate ∨
      request.role ≠ .request ∨ response.role ≠ .response ∨ !request.shapeValid ∨
      !response.shapeValid ∨ !request.semanticsSupported ∨ !response.semanticsSupported ∨
      request.transaction ≠ response.transaction ∨ request.unit ≠ response.unit ∨
      request.function ≠ response.function &&& 0x7f then false
  else if !metadataAgrees request ∨ !metadataAgrees response then false
  else
    let req := request.raw.data
    let rsp := response.raw.data
    if req.length < 8 ∨ rsp.length < 8 then false
    else if !pduShape (req.drop 7) .request ∨ !pduShape (rsp.drop 7) .response then false
    else if response.function &&& 0x80 ≠ 0 then true
    else fieldsMatch request.function req rsp

structure Emitted (role : Role) (m : ModbusMessage) : Prop where
  valid : m.raw.Valid
  sameRole : m.role = role
  protocol : be16 m.raw.data 2 = 0
  two_le : 2 ≤ (be16 m.raw.data 4).toNat
  le : (be16 m.raw.data 4).toNat ≤ 254
  length : m.raw.data.length = (be16 m.raw.data 4).toNat + 6
  transaction : m.transaction = be16 m.raw.data 0
  unit : m.unit = byteAt m.raw.data 6
  function : m.function = byteAt m.raw.data 7
  shape : m.shapeValid = pduShape (m.raw.data.drop 7) role
  supported : m.semanticsSupported =
    decide (byteAt m.raw.data 7 &&& 0x7f ∈ fieldFunctions ∧ role ≠ .unknown)

section Emit
variable {chunk : StreamChunk} {verified : Bool} {role : Role} {limits : Limits}
  {out out' : ModbusResult}

theorem addIssue_messages {code : String} {bytes : EvidenceBytes} {at_ : ℤ}
    (h : addIssue out code bytes at_ limits = .ok out') : out'.messages = out.messages := by
  obtain ⟨_, _, h⟩ := bind_eq_ok.1 h
  cases h
  rfl

theorem addIssueIf_messages {condition : Bool} {code : String} {bytes : EvidenceBytes} {at_ : ℤ}
    (h : addIssueIf condition out code bytes at_ limits = .ok out') :
    out'.messages = out.messages := by
  cases condition with
  | false =>
    cases h
    rfl
  | true => exact addIssue_messages h

theorem giveUp_messages {p : ℕ} {code : String}
    (h : giveUp chunk limits out p code = .ok out') : out'.messages = out.messages := by
  obtain ⟨_, _, h⟩ := bind_eq_ok.1 h
  exact addIssue_messages h

theorem byteAt_take {b : List U8} {i n : ℕ} (h : i < n) : byteAt (b.take n) i = byteAt b i := by
  rw [byteAt, byteAt, List.getD_eq_getElem?_getD, List.getD_eq_getElem?_getD,
    List.getElem?_take_of_lt h]

theorem be16_take {b : List U8} {i n : ℕ} (h : i + 1 < n) : be16 (b.take n) i = be16 b i := by
  rw [be16, be16, byteAt_take h, byteAt_take (Nat.lt_of_succ_lt h)]

theorem decodeAdu_emitted (hvalid : chunk.bytes.Valid) {p : ℕ}
    (hprotocol : be16 (chunk.bytes.data.drop p) 2 = 0)
    (hlow : 2 ≤ (be16 (chunk.bytes.data.drop p) 4).toNat)
    (hhigh : (be16 (chunk.bytes.data.drop p) 4).toNat ≤ 254)
    (hlen : (be16 (chunk.bytes.data.drop p) 4).toNat + 6 ≤ (chunk.bytes.data.drop p).length)
    (h : decodeAdu chunk verified role limits out p
      ((be16 (chunk.bytes.data.drop p) 4).toNat + 6) = .ok out') :
    ∃ m, Emitted role m ∧ out'.messages = out.messages ++ [m] := by
  obtain ⟨_, _, h⟩ := bind_eq_ok.1 h
  obtain ⟨raw, hslice, h⟩ := bind_eq_ok.1 h
  obtain ⟨first, hfirst, h⟩ := bind_eq_ok.1 h
  obtain ⟨second, hsecond, h⟩ := bind_eq_ok.1 h
  obtain ⟨hraw, hdata, -⟩ := view_slice hvalid hslice
  rw [List.drop_take, Nat.add_sub_cancel_left] at hdata
  cases h
  refine ⟨_, ?_, by rw [addIssueIf_messages hsecond, addIssueIf_messages hfirst]⟩
  have hbe (i : ℕ) (hi : i < 6) : be16 raw.data i = be16 (chunk.bytes.data.drop p) i := by
    rw [hdata, be16_take (by omega)]
  have hbyte (i : ℕ) (hi : i < 8) : byteAt raw.data i = byteAt (chunk.bytes.data.drop p) i := by
    rw [hdata, byteAt_take (by omega)]
  refine ⟨hraw, rfl, ?_, ?_, ?_, ?_, ?_, ?_, ?_, ?_, ?_⟩
  · rw [hbe 2 (by decide), hprotocol]
  · rwa [hbe 4 (by decide)]
  · rwa [hbe 4 (by decide)]
  · rw [hbe 4 (by decide), hdata, List.length_take, Nat.min_eq_left hlen]
  · rw [hbe 0 (by decide)]
  · rw [hbyte 6 (by decide)]
  · rw [hbyte 7 (by decide)]
  · rw [hdata]
    rfl
  · rw [hbyte 7 (by decide)]

theorem decodeFrom_emitted (hvalid : chunk.bytes.Valid) (fuel p : ℕ)
    (hout : ∀ m ∈ out.messages, Emitted role m)
    (h : decodeFrom chunk verified role limits fuel out p = .ok out') :
    ∀ m ∈ out'.messages, Emitted role m := by
  induction fuel generalizing out p with
  | zero =>
    cases h
    exact hout
  | succ fuel ih =>
    simp only [decodeFrom] at h
    split at h
    · cases h
      exact hout
    split at h
    · rwa [giveUp_messages h]
    split at h
    · rwa [giveUp_messages h]
    rename_i hheader
    obtain ⟨-, h⟩ := guard_eq_ok.1 h
    split at h
    · rwa [giveUp_messages h]
    rename_i hlen
    obtain ⟨mid, hmid, h⟩ := bind_eq_ok.1 h
    push Not at hheader
    obtain ⟨m, hm, hmessages⟩ := decodeAdu_emitted hvalid hheader.1 hheader.2.1 hheader.2.2
      (not_lt.1 hlen) hmid
    refine ih _ (fun x hx => ?_) h
    rw [hmessages] at hx
    rcases List.mem_append.1 hx with hx | hx
    · exact hout x hx
    · rw [List.mem_singleton.1 hx]
      exact hm

theorem decode_emitted {stream : StreamResult} (h : decode stream role limits = .ok out) :
    ∀ m ∈ out.messages, Emitted role m := by
  obtain ⟨-, -, h⟩ := bind_eq_ok.1 h
  have hchunks (chunks : List StreamChunk) (start : ModbusResult)
      (hstart : ∀ m ∈ start.messages, Emitted role m)
      (hrun : chunks.foldlM (decodeChunk stream.anchoredBySyn role limits) start = .ok out) :
      ∀ m ∈ out.messages, Emitted role m := by
    induction chunks generalizing start with
    | nil =>
      cases hrun
      exact hstart
    | cons chunk rest ih =>
      obtain ⟨next, hnext, hrun⟩ := bind_eq_ok.1 hrun
      obtain ⟨-, hnext⟩ := guard_eq_ok.1 hnext
      obtain ⟨hvalid, hnext⟩ := guard_eq_ok.1 hnext
      obtain ⟨mid, hmid, hnext⟩ := bind_eq_ok.1 hnext
      refine ih next (decodeFrom_emitted ((validate_iff _).1 (by simpa using hvalid)) _ _ ?_ hnext)
        hrun
      rwa [addIssueIf_messages hmid]
  exact hchunks _ _ (by simp) h

end Emit

end PcapEvidence.Modbus
