import PcapEvidence.Dnp3Link

/-!
# DNP3 decoding of a stream

Every contiguous chunk of a stream is scanned for link frames. The user data of accepted frames are
joined to transport segments, segments to application fragments and fragments to messages; what
does not fit is reported as an issue.
-/

namespace PcapEvidence.Dnp3
open EvidenceBytes OrderedMap SortedVec
open StreamAssembler (offsetBound)

structure ProtocolIssue where
  code : String
  packets : List PacketId
  streamOffset : ℤ

inductive MessageClass where
  | request | response | unsolicited | confirm | unknown
  deriving DecidableEq

namespace MessageClass

def rank : MessageClass → ℕ
  | request => 0
  | response => 1
  | unsolicited => 2
  | confirm => 3
  | unknown => 4

def all : List MessageClass := [request, response, unsolicited, confirm, unknown]

end MessageClass

structure ApplicationFragment where
  source : U16
  destination : U16
  control : U8
  function : U8
  sequence : U8
  cls : MessageClass
  iin : Option U16
  first : Bool
  finalFragment : Bool
  confirmationRequested : Bool
  frames : List ℕ
  raw : EvidenceBytes
  objects : EvidenceBytes

structure ApplicationMessage where
  source : U16
  destination : U16
  function : U8
  firstSequence : U8
  cls : MessageClass
  complete : Bool
  fragments : List ℕ
  packets : List PacketId
  objects : EvidenceBytes

structure RejectedLinkRange where
  streamOffset : ℤ
  declaredLength : Option ℕ
  code : String
  incomplete : Bool
  raw : EvidenceBytes

structure Dnp3Result where
  frames : List LinkFrame
  fragments : List ApplicationFragment
  messages : List ApplicationMessage
  issues : List ProtocolIssue
  rejectedLinkRanges : List RejectedLinkRange

def Dnp3Result.empty : Dnp3Result := ⟨[], [], [], [], []⟩

structure TransportAssembly where
  lastSequence : U8
  seenSegments : OrdMap ℕ (List U8)
  direction : Bool
  bytes : EvidenceBytes
  frames : List ℕ

structure AppAssembly where
  direction : Bool
  source : U16
  destination : U16
  function : U8
  firstSequence : U8
  lastSequence : U8
  cls : MessageClass
  fragments : List ℕ
  objects : EvidenceBytes
  packets : List PacketId

/-- A pair of link addresses, and such a pair with a message class, in the order of the maps. -/
abbrev Address := ℕ ×ₗ ℕ
abbrev AppKey := ℕ ×ₗ ℕ ×ₗ ℕ

def addressKey (source destination : U16) : Address := toLex (source.toNat, destination.toNat)

def appKey (key : Address) (cls : MessageClass) : AppKey :=
  toLex ((ofLex key).1, toLex ((ofLex key).2, cls.rank))

structure Work where
  out : Dnp3Result
  transport : OrdMap Address TransportAssembly
  applications : OrdMap AppKey AppAssembly

def issue (out : Dnp3Result) (code : String) (packets : List PacketId) (at_ : ℤ)
    (limits : Limits) : Result Dnp3Result :=
  if out.issues.length ≥ limits.maxProtocolMessages then .error (Error.limit "dnp3_issues")
  else .ok { out with issues := out.issues ++ [⟨code, packets, at_⟩] }

def emitApp (out : Dnp3Result) (app : AppAssembly) (complete : Bool) (limits : Limits) :
    Result Dnp3Result :=
  if out.messages.length ≥ limits.maxProtocolMessages then .error (Error.limit "dnp3_messages")
  else .ok { out with messages := out.messages ++ [{
    source := app.source
    destination := app.destination
    function := app.function
    firstSequence := app.firstSequence
    cls := app.cls
    complete
    fragments := app.fragments
    packets := sortDedup app.packets
    objects := app.objects }] }

def issueIf (condition : Bool) (out : Dnp3Result) (code : String) (packets : List PacketId)
    (at_ : ℤ) (limits : Limits) : Result Dnp3Result :=
  if condition then issue out code packets at_ limits else .ok out

def emitPending (out : Dnp3Result) (app : Option AppAssembly) (complete : Bool) (limits : Limits) :
    Result Dnp3Result :=
  match app with
  | none => .ok out
  | some app => emitApp out app complete limits

def messageClass (control function : U8) : MessageClass :=
  let unsolicited : Bool := control &&& 0x10 ≠ 0
  if function = 0 then .confirm
  else if 1 ≤ function.toNat ∧ function.toNat ≤ 31 ∧ !unsolicited then .request
  else if function = 0x81 ∧ !unsolicited then .response
  else if function = 0x82 ∧ unsolicited then .unsolicited
  else .unknown

def appFragment (bytes : EvidenceBytes) (source destination : U16) (frames : List ℕ) :
    Result ApplicationFragment :=
  let raw := bytes.data
  if raw.length < 2 then
    .error ⟨.truncated, 0, "dnp3_application", "missing application control/function"⟩
  else
    let control := byteAt raw 0
    let function := byteAt raw 1
    let response : Bool := function = 0x81 ∨ function = 0x82
    let header := if response then 4 else 2
    if raw.length < header then .error ⟨.truncated, 0, "dnp3_iin", "response is missing IIN"⟩
    else (bytes.slice header bytes.len).map fun objects =>
      { source
        destination
        control
        function
        sequence := control &&& 15
        cls := messageClass control function
        iin := if response then some (le16 raw 2) else none
        first := control &&& 0x80 ≠ 0
        finalFragment := control &&& 0x40 ≠ 0
        confirmationRequested := control &&& 0x20 ≠ 0
        frames
        raw := bytes
        objects }

def interruptApplications (w : Work) (key : Address) (limits : Limits) : Result Work :=
  MessageClass.all.foldlM (fun w cls =>
    match w.applications.get? (appKey key cls) with
    | none => .ok w
    | some pending => do
      let out ← emitApp w.out pending false limits
      .ok { w with out, applications := w.applications.erase (appKey key cls) }) w

/-- An issue about the frame's data that ends everything pending under its addresses. -/
def abandon (w : Work) (key : Address) (code : String) (packets : List PacketId) (at_ : ℤ)
    (limits : Limits) : Result Work := do
  let out ← issue w.out code packets at_ limits
  interruptApplications { w with out, transport := w.transport.erase key } key limits

def abandonIf (condition : Bool) (w : Work) (key : Address) (code : String)
    (packets : List PacketId) (at_ : ℤ) (limits : Limits) : Result Work :=
  if condition then abandon w key code packets at_ limits else .ok w

def addressKind (address : U16) : String :=
  if address.toNat ≤ 0xffef then "individual"
  else if address.toNat ≤ 0xfffb then "reserved"
  else if address.toNat = 0xfffc then "self_address"
  else "broadcast"

def linkIssue (control : U8) (source destination : U16) (userLength : ℕ) :
    Option (ErrorCode × String) :=
  let c := linkControl control
  let supported : Bool :=
    if c.primary then c.function ∈ [0, 2, 3, 4, 9] else c.function ∈ [0, 1, 11, 15]
  let userFunction : Bool := c.primary ∧ c.function ∈ [3, 4]
  if !c.primary ∧ c.reserved = some true then
    some (.protocolFraming, "dnp3_secondary_reserved_control_bit")
  else if !supported then some (.unsupportedTransport, "dnp3_link_function_outside_subset")
  else if c.primary ∧ c.fcv ≠ some (decide (c.function ∈ [2, 3])) then
    some (.protocolFraming, "dnp3_link_fcv_function_conflict")
  else if addressKind source ≠ "individual" then
    some (.protocolFraming, "dnp3_non_individual_source_address")
  else if addressKind destination = "reserved" then
    some (.protocolFraming, "dnp3_reserved_destination_address")
  else if addressKind destination = "self_address" then
    some (.unsupportedTransport, "dnp3_self_address_not_resolved")
  else if isBroadcast destination ∧ (!c.direction ∨ !userFunction) then
    some (.protocolFraming, "dnp3_broadcast_direction_or_function_conflict")
  else if userFunction = (userLength = 0 : Bool) then
    some (.protocolFraming, "dnp3_link_function_length_conflict")
  else none

def controlIssues (out : Dnp3Result) (frame : LinkFrame) (limits : Limits) : Result Dnp3Result := do
  let out ← issueIf (frame.linkControl.reserved = some true) out "dnp3_reserved_link_control_bit"
    frame.raw.packets frame.streamOffset limits
  issueIf (frame.linkControl.functionName ∈ ["primary_unknown", "secondary_unknown"]) out
    "unsupported_dnp3_link_function" frame.raw.packets frame.streamOffset limits

/-- The application side of a complete fragment: it opens, continues or breaks a message. -/
def joinFragment (w : Work) (frag : ApplicationFragment) (direction : Bool)
    (packets : List PacketId) (at_ : ℤ) (limits : Limits) : Result Work :=
  let fragId := w.out.fragments.length
  let key := appKey (addressKey frag.source frag.destination) frag.cls
  if frag.first then do
    let out ← emitPending w.out (w.applications.get? key) false limits
    .ok { w with out, applications := w.applications.insert key {
      direction
      source := frag.source
      destination := frag.destination
      function := frag.function
      firstSequence := frag.sequence
      lastSequence := frag.sequence
      cls := frag.cls
      fragments := [fragId]
      objects := frag.objects
      packets } }
  else match w.applications.get? key with
    | none => do
      let out ← issue w.out "orphan_dnp3_application_fragment" packets at_ limits
      .ok { w with out }
    | some previous =>
      if frag.sequence = (previous.lastSequence + 1) &&& 15 ∧ frag.function = previous.function then do
        let appended := previous.objects.append frag.objects limits.maxApplicationBytes
        appended.1
        .ok { w with applications := w.applications.insert key { previous with
          lastSequence := frag.sequence
          fragments := previous.fragments ++ [fragId]
          packets := previous.packets ++ packets
          objects := appended.2 } }
      else do
        let out ← issue w.out "dnp3_application_sequence_gap_or_conflict" packets at_ limits
        let out ← emitApp out previous false limits
        .ok { w with out, applications := w.applications.erase key }

def finishSegment (w : Work) (frame : LinkFrame) (complete : TransportAssembly) (direction : Bool)
    (limits : Limits) : Result Work :=
  let key := addressKey frame.source frame.destination
  let at_ := frame.streamOffset
  match appFragment complete.bytes frame.source frame.destination complete.frames with
  | .error _ => abandon w key "invalid_dnp3_application_header" complete.bytes.packets at_ limits
  | .ok frag =>
    if w.out.fragments.length ≥ limits.maxProtocolMessages then
      .error (Error.limit "dnp3_fragments")
    else do
      let packets := sortDedup (frag.frames.flatMap fun i =>
        ((w.out.frames[i]?).map fun f => f.raw.packets).getD [])
      let out ← issueIf (frag.cls = .unknown) w.out
        "unsupported_or_inconsistent_dnp3_application_function" packets at_ limits
      let w ← joinFragment { w with out } frag direction packets at_ limits
      let w := { w with out := { w.out with fragments := w.out.fragments ++ [frag] } }
      let key := appKey (addressKey frag.source frag.destination) frag.cls
      if frag.finalFragment then do
        let out ← emitPending w.out (w.applications.get? key) true limits
        .ok { w with out, applications := w.applications.erase key }
      else .ok w

def nextSegment (assembly : TransportAssembly) : U8 := (assembly.lastSequence + 1) &&& 63

def repeats (assembly : TransportAssembly) (seq : U8) (data : List U8) : Bool :=
  seq ≠ nextSegment assembly ∧ assembly.seenSegments.get? seq.toNat = some data

/-- The second component says whether the segment was taken. -/
def placeSegment (w : Work) (frame : LinkFrame) (frameId : ℕ) (limits : Limits) :
    Result (Work × Bool) :=
  let key := addressKey frame.source frame.destination
  let data := frame.userData
  let seq := byteAt data.data 0 &&& 63
  let at_ := frame.streamOffset
  if byteAt data.data 0 &&& 0x40 ≠ 0 then do
    let old := w.transport.get? key
    let w ← abandonIf old.isSome w key "dnp3_transport_restart_before_fin"
      ((old.map fun old => old.bytes.packets).getD []) at_ limits
    if data.len - 1 > limits.maxApplicationBytes then .error (Error.limit "dnp3_application_bytes")
    else do
      let bytes ← data.slice 1 data.len
      .ok ({ w with transport := w.transport.insert key {
        lastSequence := seq
        seenSegments := OrdMap.empty.insert seq.toNat data.data
        direction := frame.linkControl.direction
        bytes
        frames := [frameId] } }, true)
  else match w.transport.get? key with
    | none => (abandon w key "orphan_dnp3_transport_segment" data.packets at_ limits).map (·, false)
    | some assembly =>
      if seq ≠ nextSegment assembly then
        (abandon w key "dnp3_transport_sequence_gap_or_conflict"
          (sortDedup (assembly.bytes.packets ++ data.packets)) at_ limits).map (·, false)
      else do
        let segment ← data.slice 1 data.len
        let appended := assembly.bytes.append segment limits.maxApplicationBytes
        appended.1
        if assembly.frames.length ≥ limits.maxProtocolMessages then
          .error (Error.limit "dnp3_transport_frames")
        else .ok ({ w with transport := w.transport.insert key { assembly with
          lastSequence := seq
          seenSegments := assembly.seenSegments.insert seq.toNat data.data
          bytes := appended.2
          frames := assembly.frames ++ [frameId] } }, true)

def takeSegment (w : Work) (frame : LinkFrame) (frameId : ℕ) (limits : Limits) : Result Work :=
  let key := addressKey frame.source frame.destination
  let data := frame.userData
  let seq := byteAt data.data 0 &&& 63
  let at_ := frame.streamOffset
  match (w.transport.get? key).filter (repeats · seq data.data) with
  | some previous =>
    if previous.frames.length ≥ limits.maxProtocolMessages then
      .error (Error.limit "dnp3_transport_frames")
    else do
      let out ← issue w.out
        (if previous.lastSequence = seq then "duplicate_dnp3_transport_segment"
          else "reordered_duplicate_dnp3_transport_segment") data.packets at_ limits
      .ok { w with out, transport := w.transport.insert key { previous with
        frames := previous.frames ++ [frameId] } }
  | none =>
    match (w.transport.get? key).filter fun p => byteAt data.data 0 &&& 0x40 = 0 ∧
        seq ≠ nextSegment p ∧ (p.seenSegments.get? seq.toNat).isSome with
    | some old =>
      abandon w key "conflicting_dnp3_transport_duplicate"
        (sortDedup (old.bytes.packets ++ data.packets)) at_ limits
    | none => do
      let placed ← placeSegment w frame frameId limits
      if placed.2 ∧ byteAt data.data 0 &&& 0x80 ≠ 0 then
        match placed.1.transport.get? key with
        | none => .error (Error.limit "dnp3_state")
        | some complete =>
          finishSegment { placed.1 with transport := placed.1.transport.erase key } frame complete
            frame.linkControl.direction limits
      else .ok placed.1

/-- Something pending under the addresses came from the other direction. -/
def directionChanged (w : Work) (key : Address) (direction : Bool) : Bool :=
  (w.transport.get? key).any (·.direction ≠ direction) ∨
    MessageClass.all.any fun cls =>
      (w.applications.get? (appKey key cls)).any (·.direction ≠ direction)

def acceptFrame (w : Work) (frame : LinkFrame) (limits : Limits) : Result Work :=
  if w.out.frames.length ≥ limits.maxProtocolMessages then .error (Error.limit "dnp3_frames")
  else do
    let key := addressKey frame.source frame.destination
    let frameId := w.out.frames.length
    let data := frame.userData
    let at_ := frame.streamOffset
    let out ← controlIssues w.out frame limits
    let w := { w with out := { out with frames := out.frames ++ [frame] } }
    match linkIssue frame.control frame.source frame.destination data.len with
    | some (_, code) => abandon w key code frame.raw.packets at_ limits
    | none =>
      if data.isEmpty then .ok w
      else if !(frame.linkControl.primary ∧ frame.linkControl.function ∈ [3, 4]) then
        abandon w key "unsupported_dnp3_link_function_with_data" data.packets at_ limits
      else do
        let w ← abandonIf (directionChanged w key frame.linkControl.direction) w key
          "dnp3_link_direction_changed_within_assembly" data.packets at_ limits
        takeSegment w frame frameId limits

def flush (w : Work) (code : String) (at_ : ℤ) (limits : Limits) : Result Work := do
  let out ← w.transport.entries.foldlM (fun out entry =>
    issue out code entry.2.bytes.packets at_ limits) w.out
  let out ← w.applications.entries.foldlM (fun out entry => emitApp out entry.2 false limits) out
  .ok ⟨out, OrdMap.empty, OrdMap.empty⟩

structure Cursor where
  work : Work
  rejectedBytes : ℕ
  p : ℕ
  skipped : ℕ

def declaredLength (tail : List U8) : Option ℕ :=
  if tail.length ≥ 10 ∧ (byteAt tail 2).toNat ≥ 5 ∧ crc16Dnp (tail.take 8) = le16 tail 8 then
    some (linkFrameTotal (byteAt tail 2))
  else none

def rejectCode (e : Error) : String :=
  if e.code = .checksum then "dnp3_crc_failure" else "dnp3_invalid_or_truncated_frame"

/-- A frame that could not be read: the declared range is skipped as a whole, and without a
declared range the rest of the chunk is given up. The second component says whether to stop. -/
def rejectFrame (chunk : StreamChunk) (limits : Limits) (c : Cursor) (e : Error) :
    Result (Cursor × Bool) := do
  let at_ := chunk.offset + c.p
  let w ← flush c.work "transport_interrupted_by_bad_frame" at_ limits
  let head ← chunk.bytes.slice c.p (min (c.p + 10) chunk.bytes.len)
  let out ← issue w.out (rejectCode e) head.packets at_ limits
  let tail := chunk.bytes.data.drop c.p
  let declared := declaredLength tail
  let captured := min (declared.getD tail.length) tail.length
  if c.rejectedBytes + captured ≥ wordBound ∨
      c.rejectedBytes + captured > limits.maxApplicationBytes then
    .error (Error.limit "dnp3_rejected_link_bytes")
  else if out.rejectedLinkRanges.length ≥ limits.maxProtocolMessages then
    .error (Error.limit "dnp3_rejected_link_ranges")
  else do
    let raw ← chunk.bytes.slice c.p (c.p + captured)
    let out := { out with rejectedLinkRanges := out.rejectedLinkRanges ++
      [⟨at_, declared, e.field, e.code = .truncated, raw⟩] }
    match declared with
    | some declared => do
      let rejected := min declared tail.length
      let range ← chunk.bytes.slice c.p (c.p + rejected)
      let out ← issue out "dnp3_rejected_declared_link_range" range.packets at_ limits
      -- The run before the frame is forgotten here without an issue of its own.
      .ok (⟨{ w with out }, c.rejectedBytes + captured, c.p + rejected, 0⟩, false)
    | none => do
      let rest ← chunk.bytes.slice c.p chunk.bytes.len
      let out ← issue out "dnp3_link_boundary_lost_no_resynchronization" rest.packets at_ limits
      .ok (⟨{ w with out }, c.rejectedBytes + captured, c.p, c.skipped⟩, true)

/-- What was skipped before an accepted frame ends everything pending. -/
def resynchronize (chunk : StreamChunk) (limits : Limits) (c : Cursor) : Result Work :=
  if c.skipped > 0 then do
    let w ← flush c.work "transport_interrupted_by_resynchronization" (chunk.offset + c.p) limits
    let run ← chunk.bytes.slice (c.p - c.skipped) c.p
    let out ← issue w.out "dnp3_link_resynchronized" run.packets
      (chunk.offset + (c.p - c.skipped : ℕ)) limits
    .ok { w with out }
  else .ok c.work

def step (chunk : StreamChunk) (limits : Limits) (c : Cursor) : Result (Cursor × Bool) :=
  if sliceOf chunk.bytes.data c.p (c.p + 2) ≠ [0x05, 0x64] then
    .ok ({ c with p := c.p + 1, skipped := c.skipped + 1 }, false)
  else match parseLink chunk.bytes c.p chunk.offset with
    | .error e => rejectFrame chunk limits c e
    | .ok (frame, used) => do
      let w ← resynchronize chunk limits c
      let w ← acceptFrame w frame limits
      .ok (⟨w, c.rejectedBytes, c.p + used, 0⟩, false)

def scan (chunk : StreamChunk) (limits : Limits) : ℕ → Cursor → Result Cursor
  | 0, c => .ok c
  | fuel + 1, c =>
    if c.p < chunk.bytes.len then
      match step chunk limits c with
      | .error e => .error e
      | .ok (c, true) => .ok c
      | .ok (c, false) => scan chunk limits fuel c
    else .ok c

def reportTrailing (chunk : StreamChunk) (limits : Limits) (c : Cursor) : Result Dnp3Result :=
  if c.skipped > 0 then do
    let run ← chunk.bytes.slice (c.p - c.skipped) c.p
    issue c.work.out "trailing_unframed_dnp3_bytes" run.packets
      (chunk.offset + (c.p - c.skipped : ℕ)) limits
  else .ok c.work.out

/-- One chunk, beside the retained octets of rejected frames so far. -/
def decodeChunk (limits : Limits) (s : Dnp3Result × ℕ) (chunk : StreamChunk) :
    Result (Dnp3Result × ℕ) :=
  if (chunk.bytes.len : ℤ) > offsetBound ∨ chunk.stop > offsetBound then
    .error (Error.limit "stream_offset")
  else if !chunk.bytes.validate then
    .error ⟨.invariant, 0, "provenance", "invalid DNP3 source spans"⟩
  else do
    let c ← scan chunk limits chunk.bytes.len ⟨⟨s.1, OrdMap.empty, OrdMap.empty⟩, s.2, 0, 0⟩
    let out ← reportTrailing chunk limits c
    let w ← flush { c.work with out } "incomplete_dnp3_transport_at_gap_or_eof" chunk.stop limits
    .ok (w.out, c.rejectedBytes)

def decode (stream : StreamResult) (limits : Limits) : Result Dnp3Result := do
  limits.validate
  let s ← stream.chunks.foldlM (decodeChunk limits) (Dnp3Result.empty, 0)
  .ok s.1

end PcapEvidence.Dnp3
