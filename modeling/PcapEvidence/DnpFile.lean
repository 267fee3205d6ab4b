import PcapEvidence.OrderedMap
import PcapEvidence.Protocol
import PcapEvidence.JsonText

/-!
# Reconciliation of DNP3 file transfers

The Group 70 objects of verified messages are collected for each pair of endpoints and file handle.
The first content of a block is kept, a different one makes the block conflicting, and the latest
status object declares the file.
-/

namespace PcapEvidence.DnpFile

open Bgp (Json decimalText hex)
open FiniteMap OrderedMap History

def truncated (field : String) (offset : ℕ) : Error :=
  ⟨.truncated, offset, field, "file object ended before the required field"⟩

def unsupported (field : String) : Error :=
  ⟨.unsupportedTransport, 0, field, "file object variation is outside the reconciliation subset"⟩

def nameRange : Error :=
  ⟨.invalidLength, 0, "dnp_file_name_range", "descriptor filename range is not exact"⟩

structure Descriptor where
  fileSize : ℕ
  maximumBlockSize : ℕ
  deriving DecidableEq

structure Block where
  length : ℕ
  sha256 : Digest
  deriving DecidableEq

structure Scope where
  session : ℕ
  low : U16
  high : U16
  deriving DecidableEq

inductive FileObject where
  | descriptor (variation : U8) (requestId : U16) (declared : Descriptor)
  | status (variation : U8) (handle : U32) (requestId : U16) (declared : Descriptor) (status : U8)
  | block (variation : U8) (handle : U32) (number : U32) (content : Block)
  | blockStatus (variation : U8) (handle : U32) (number : U32) (status : U8)
  | specification (variation : U8)
  | authentication
  deriving DecidableEq

inductive Parsed where
  | none
  | objects (objects : List FileObject)
  | unsupported (reason : String)
  | incomplete (reason : String)

/-- A file name must fill the object behind its fixed fields. -/
def nameFits (b : List U8) (fixed : ℕ) : Bool :=
  (le16 b 0).toNat = fixed && checkedAdd (le16 b 0).toNat (le16 b 2).toNat = some b.length

def parseObject (variation : U8) (b : List U8) : Result FileObject :=
  match variation.toNat with
  | 2 => .ok .authentication
  | 3 =>
    if b.length < 26 then .error (truncated "dnp_file_command" b.length)
    else if !nameFits b 26 then .error nameRange
    else .ok (.descriptor variation (le16 b 24) ⟨(le32 b 16).toNat, (le16 b 22).toNat⟩)
  | 4 =>
    if b.length < 13 then .error (truncated "dnp_file_status" b.length)
    else .ok (.status variation (le32 b 0) (le16 b 10) ⟨(le32 b 4).toNat, (le16 b 8).toNat⟩ (byteAt b 12))
  | 5 =>
    if b.length < 8 then .error (truncated "dnp_file_transport" b.length)
    else .ok (.block variation (le32 b 0) (le32 b 4) ⟨b.length - 8, Sha256.digest (b.drop 8)⟩)
  | 6 =>
    if b.length < 9 then .error (truncated "dnp_file_transport_status" b.length)
    else .ok (.blockStatus variation (le32 b 0) (le32 b 4) (byteAt b 8))
  | 7 =>
    if b.length < 20 then .error (truncated "dnp_file_descriptor" b.length)
    else if !nameFits b 20 then .error nameRange
    else .ok (.descriptor variation (le16 b 18) ⟨(le32 b 6).toNat, 0⟩)
  | 8 => .ok (.specification variation)
  | _ => .error (unsupported "dnp_file_variation")

def parseObjects (b : List U8) (variation : U8) :
    ℕ → ℕ → List FileObject → Result (Parsed ⊕ (ℕ × List FileObject))
  | 0, p, objects => .ok (.inr (p, objects))
  | count + 1, p, objects =>
    if b.length - p < 2 then .ok (.inl (.incomplete "file_object_length_truncated"))
    else match checkedAdd (p + 2) (le16 b p).toNat with
      | none => .error (Error.limit "dnp_file_object")
      | some stop =>
        if stop > b.length then .ok (.inl (.incomplete "file_object_truncated"))
        else do
          let object ← parseObject variation (sliceOf b (p + 2) stop)
          parseObjects b variation count stop (objects ++ [object])

def parseHeaders (b : List U8) (limits : Bgp.Limits) : ℕ → ℕ → List FileObject → Result Parsed
  | 0, _, objects => .ok (.objects objects)
  | fuel + 1, p, objects =>
    if p ≥ b.length then .ok (.objects objects)
    else if b.length - p < 4 then .ok (.incomplete "file_object_header_truncated")
    else if byteAt b p ≠ 70 ∨ byteAt b (p + 2) ≠ 0x5b then
      .ok (if objects = [] then .none else .unsupported "mixed_file_and_non_file_objects")
    else if (byteAt b (p + 3)).toNat > limits.elements - objects.length then
      .error (Error.limit "dnp_file_objects")
    else do
      match ← parseObjects b (byteAt b (p + 1)) (byteAt b (p + 3)).toNat (p + 4) objects with
      | .inl parsed => .ok parsed
      | .inr (p, objects) => parseHeaders b limits fuel p objects

def parse (bytes : EvidenceBytes) (limits : Bgp.Limits) : Result Parsed :=
  if bytes.data = [] then .ok .none
  else if bytes.data.length < 4 then .ok (.incomplete "file_object_header_truncated")
  else parseHeaders bytes.data limits bytes.data.length 0 []

structure Key where
  scope : Scope
  handle : U32
  deriving DecidableEq

structure State where
  key : Key
  lastFunction : U8
  requestIds : OrdSet ℕ
  variations : OrdSet ℕ
  directions : OrdSet ℕ
  blocks : OrdMap ℕ Block
  duplicateBlocks : OrdSet ℕ
  conflictingBlocks : OrdSet ℕ
  statusWithoutContentBlocks : OrdSet ℕ
  metadataConflict : Bool
  statusCodes : OrdSet ℕ
  declared : Option Descriptor
  witnesses : List Json

namespace State

def new (key : Key) (function : U8) : State :=
  ⟨key, function, .empty, .empty, .empty, .empty, .empty, .empty, .empty, false, .empty, none, []⟩

def contradicts (a b : Descriptor) : Bool :=
  a.fileSize ≠ b.fileSize ||
    (a.maximumBlockSize > 0 && b.maximumBlockSize > 0 && a.maximumBlockSize ≠ b.maximumBlockSize)

def touch (s : State) (variation direction : U8) : State :=
  { s with
    variations := s.variations.insert variation.toNat ()
    directions := s.directions.insert direction.toNat () }

def addStatus (s : State) (variation direction : U8) (requestId : U16) (declared : Descriptor)
    (status : U8) (pending : Option Descriptor) : State :=
  { s.touch variation direction with
    requestIds := s.requestIds.insert requestId.toNat ()
    statusCodes := s.statusCodes.insert status.toNat ()
    metadataConflict := s.metadataConflict || s.declared.any (contradicts · declared) ||
      pending.any (contradicts · declared)
    declared := some declared }

def addBlock (s : State) (variation direction : U8) (number : ℕ) (content : Block) : State :=
  match s.blocks.get? number with
  | some old =>
    if old = content then
      { s.touch variation direction with duplicateBlocks := s.duplicateBlocks.insert number () }
    else { s.touch variation direction with conflictingBlocks := s.conflictingBlocks.insert number () }
  | none => { s.touch variation direction with blocks := s.blocks.insert number content }

def addBlockStatus (s : State) (variation direction : U8) (number : ℕ) (status : U8) : State :=
  { s.touch variation direction with
    statusCodes := s.statusCodes.insert status.toNat ()
    statusWithoutContentBlocks := if (s.blocks.get? number).isSome then s.statusWithoutContentBlocks
      else s.statusWithoutContentBlocks.insert number () }

end State

structure FileReconciler where
  pending : FinMap (Scope × U16) Descriptor
  states : FinMap Key State

structure Observation where
  session : ℕ
  direction : U8
  source : U16
  destination : U16
  function : U8
  objects : EvidenceBytes
  evidence : Json

def Observation.scope (o : Observation) : Scope :=
  ⟨o.session, if o.source.toNat ≤ o.destination.toNat then o.source else o.destination,
    if o.source.toNat ≤ o.destination.toNat then o.destination else o.source⟩

inductive Status where
  | ambiguous | candidateCompleteSourceCoverage | incomplete
  deriving DecidableEq

def Status.name : Status → String
  | ambiguous => "ambiguous"
  | candidateCompleteSourceCoverage => "candidate_complete_source_coverage"
  | incomplete => "incomplete"

structure Projection where
  status : Status
  key : Key
  lastFunction : U8
  requestIds : List ℕ
  variations : List ℕ
  directions : List ℕ
  statusCodes : List ℕ
  declaredFileSize : Option ℕ
  maximumBlockSize : Option ℕ
  contentBytesObserved : ℕ
  observedBlocks : List (ℕ × Block)
  duplicateBlocks : List ℕ
  conflictingBlocks : List ℕ
  statusWithoutContentBlocks : List ℕ
  metadataConflict : Bool
  missingBlocks : List ℕ
  witnesses : List Json

/-- What a caller gets: a notice with its status and reason, or a projection. -/
inductive Output where
  | notice (status reason : String)
  | projection (p : Projection)

namespace FileReconciler

def new : FileReconciler := ⟨.empty, .empty⟩

def resetSession (r : FileReconciler) (session : ℕ) : FileReconciler where
  pending := r.pending.retain fun k => k.1.session ≠ session
  states := r.states.retain fun k => k.scope.session ≠ session

def expected (s : State) : Option ℕ :=
  (s.declared.filter (·.maximumBlockSize > 0)).map fun d =>
    (d.fileSize + d.maximumBlockSize - 1) / d.maximumBlockSize

def addLength (sum : ℕ) (block : Block) : Result ℕ :=
  match checkedAdd sum block.length with
  | none => .error (Error.limit "dnp_file_content_bytes")
  | some sum => .ok sum

/-- The octets of all blocks, within a word. -/
def contentBytes (s : State) : Result ℕ := s.blocks.values.foldlM addLength 0

def upper (s : State) : ℕ := (expected s).getD ((s.blocks.keys.getLast?.map (· + 1)).getD 0)

def missing (s : State) : List ℕ :=
  (List.range (upper s)).filter fun n => (s.blocks.get? (n % 2 ^ 32)).isNone

def coverageComplete (s : State) (content : ℕ) : Bool :=
  s.conflictingBlocks.keys.isEmpty && (missing s).isEmpty && s.declared.any (·.fileSize = content)

def projection (s : State) (limits : Bgp.Limits) : Result Projection :=
  if s.blocks.size > limits.elements ∨ s.witnesses.length > limits.elements ∨
      s.requestIds.size > limits.elements then
    .error (Error.limit "dnp_file_projection")
  else do
    let content ← contentBytes s
    if upper s > limits.elements then .error (Error.limit "dnp_file_expected_blocks")
    else if (missing s).length > limits.elements then .error (Error.limit "dnp_file_missing_blocks")
    else .ok {
      status := if s.metadataConflict || !s.conflictingBlocks.keys.isEmpty then .ambiguous
        else if coverageComplete s content then .candidateCompleteSourceCoverage else .incomplete
      key := s.key
      lastFunction := s.lastFunction
      requestIds := s.requestIds.keys
      variations := s.variations.keys
      directions := s.directions.keys
      statusCodes := s.statusCodes.keys
      declaredFileSize := s.declared.map (·.fileSize)
      maximumBlockSize := s.declared.map (·.maximumBlockSize)
      contentBytesObserved := content
      observedBlocks := s.blocks.entries
      duplicateBlocks := s.duplicateBlocks.keys
      conflictingBlocks := s.conflictingBlocks.keys
      statusWithoutContentBlocks := s.statusWithoutContentBlocks.keys
      metadataConflict := s.metadataConflict
      missingBlocks := missing s
      witnesses := s.witnesses }

/-- A change of the state of a transfer, which is created when there is room for it. -/
def edit (key : Key) (function : U8) (limits : Bgp.Limits) (f : State → State) :
    Method FileReconciler Error Unit := do
  let r ← Method.read
  match r.states.get key with
  | some s => Method.update fun r => { r with states := r.states.insert key (f s) }
  | none =>
    if r.states.keys.card ≥ limits.active then Method.fail (Error.limit "dnp_file_sessions")
    else Method.update fun r => { r with states := r.states.insert key (f (State.new key function)) }

def applyObject (o : Observation) (limits : Bgp.Limits) :
    FileObject → Method FileReconciler Error (Option U32)
  | .authentication | .specification _ => pure none
  | .descriptor _ requestId declared => do
    let r ← Method.read
    if r.pending.keys.card ≥ limits.active ∧ (r.pending.get (o.scope, requestId)).isNone then
      Method.fail (Error.limit "dnp_file_descriptors")
    else do
      Method.update fun r => { r with pending := r.pending.insert (o.scope, requestId) declared }
      pure none
  | .status variation handle requestId declared status => do
    let r ← Method.read
    Method.update fun r => { r with pending := r.pending.retain fun k => k ≠ (o.scope, requestId) }
    edit ⟨o.scope, handle⟩ o.function limits fun s =>
      s.addStatus variation o.direction requestId declared status (r.pending.get (o.scope, requestId))
    pure (some handle)
  | .block variation handle number content => do
    edit ⟨o.scope, handle⟩ o.function limits fun s =>
      s.addBlock variation o.direction number.toNat content
    pure (some handle)
  | .blockStatus variation handle number status => do
    edit ⟨o.scope, handle⟩ o.function limits fun s =>
      s.addBlockStatus variation o.direction number.toNat status
    pure (some handle)

def applyObjects (o : Observation) (limits : Bgp.Limits) :
    List FileObject → OrdSet ℕ → Method FileReconciler Error (Option (OrdSet ℕ))
  | [], touched => pure (some touched)
  | .authentication :: _, _ => pure none
  | object :: rest, touched => do
    match ← applyObject o limits object with
    | none => applyObjects o limits rest touched
    | some handle => applyObjects o limits rest (touched.insert handle.toNat ())

/-- The evidence of the message for every transfer that it touched. -/
def addWitnesses (o : Observation) (limits : Bgp.Limits) : List ℕ → Method FileReconciler Error Unit
  | [] => pure ()
  | handle :: rest => do
    let r ← Method.read
    let key : Key := ⟨o.scope, BitVec.ofNat 32 handle⟩
    match r.states.get key with
    | none => addWitnesses o limits rest
    | some s =>
      if s.witnesses.length ≥ limits.elements then Method.fail (Error.limit "dnp_file_witnesses")
      else do
        let witnessed := { s with witnesses := s.witnesses ++ [o.evidence], lastFunction := o.function }
        Method.update fun r => { r with states := r.states.insert key witnessed }
        addWitnesses o limits rest

def report (o : Observation) (limits : Bgp.Limits) : List ℕ → Method FileReconciler Error (Option Output)
  | [] => pure none
  | [handle] => do
    let r ← Method.read
    match r.states.get ⟨o.scope, BitVec.ofNat 32 handle⟩ with
    | none => pure none
    | some s => do
      let p ← Method.lift (projection s limits)
      pure (some (.projection p))
  | _ => pure (some (.notice "ambiguous" "one_application_message_contains_multiple_file_handles"))

def observe (o : Observation) (limits : Bgp.Limits) : Method FileReconciler Error (Option Output) := do
  match ← Method.lift (parse o.objects limits) with
  | .none => pure none
  | .unsupported reason => pure (some (.notice "unsupported" reason))
  | .incomplete reason => pure (some (.notice "incomplete" reason))
  | .objects objects =>
    match ← applyObjects o limits objects .empty with
    | none => pure (some (.notice "unsupported" "file_authentication_credentials_not_reconciled"))
    | some touched => do
      addWitnesses o limits touched.keys
      report o limits touched.keys

end FileReconciler

end PcapEvidence.DnpFile
