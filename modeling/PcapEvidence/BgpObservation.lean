import PcapEvidence.BgpImport

/-!
# Observations read from normalized evidence

A normalized envelope is checked and read into an observation: its source, its import context and its
routes. The validators of attribute values only refuse, so they are parameters, and so are the texts
of network addresses.
-/

namespace PcapEvidence.Bgp.State

open Json History Candidate Import

def routeSchema : String := "pcap-evidence.bgp.route-evidence.v1"

def badAt (offset : ℕ) (field detail : String) : Error := ⟨.protocolFraming, offset, field, detail⟩

structure ImportScope where
  generation : ℕ
  direction : U8

structure Source extends Candidate.Source where
  observedAtNs : Option ℤ
  peer : Option String
  localEnd : Option String

structure RouteObservation extends Candidate.RouteObservation where
  semanticIdentity : Json
  fieldStart : ℕ
  fieldEnd : ℕ

/-- Network addresses and their texts. -/
structure Net where
  parseIpv4 : String → Option (List U8)
  showIpv4 : List U8 → String
  parseIpv6 : String → Option (List U8)
  showIpv6 : List U8 → String

/-- The validators of wire values inside an envelope. -/
structure Checks where
  net : Net
  capturedEvidence : Json → Limits → Result (ℕ × ℕ × String)
  capturedValues : List Json → Limits → Result Unit
  messageClosure : Json → List Json → ℕ → String → Limits → Result Unit
  occurrenceValues : List Json → ℕ → Limits → Result Unit
  semanticIdentity : Json → Json → Json → List Json → SourceKind → Limits → Result Unit

def kindName : ObservationKind → String
  | .routes => "routes"
  | .openMessage => "open"
  | .notification => "notification"
  | .keepalive => "keepalive"
  | .routeRefresh => "route_refresh"
  | .reset => "caller_reset"

def sourceName : SourceKind → String
  | .captured => "captured"
  | .imported => "imported"

def numberJson {w : ℕ} (n : BitVec w) : Json := .number (BitVec.ofNat 64 n.toNat)

def sourceJson (s : Source) : Json :=
  objectOf [("source_kind", .string (sourceName s.kind)),
    ("source_id", .string s.sourceId),
    ("record_id", .string s.recordId),
    ("session", optional s.session),
    ("generation", optionalNumber s.generation),
    ("direction", s.direction.elim .null numberJson),
    ("observed_at_ns", s.observedAtNs.elim .null fun n => .string (toString n)),
    ("peer", optional s.peer),
    ("local", optional s.localEnd)]

def prefixJson (p : PrefixIdentity) : Json :=
  objectOf [("afi", numberJson p.afi), ("safi", numberJson p.safi), ("length", numberJson p.length),
    ("address", .string p.address)]

def readAction (raw : Json) : Result RouteAction := do
  match ← text (← member raw "action") with
  | "announce" => .ok .announce
  | "withdraw" => .ok .withdraw
  | _ => .error (bad "bgp_state_action" "unknown route action")

def readPathId (raw : Json) : Result RoutePathId := do
  match ← optionalMember raw "path_id" with
  | none => .ok .absent
  | some value =>
    let n ← number value
    if n ≥ 2 ^ 32 then .error (bad "bgp_state_path_id" "path identifier out of range")
    else return .present (BitVec.ofNat 32 n)

def readPrefix (p : Json) : Result PrefixIdentity := do
  let afi ← number (← member p "afi")
  if afi ≥ 2 ^ 16 then .error (bad "bgp_state_prefix" "AFI out of range")
  else
    let safi ← byte (← member p "safi")
    let length ← byte (← member p "length")
    let address ← text (← member p "address")
    return ⟨BitVec.ofNat 16 afi, safi, length, address⟩

/-- The bits of an address behind its first `n`. -/
def hostBits (address : List U8) (n : ℕ) : List Bool :=
  (address.flatMap fun b => (List.range 8).map fun i => b.getMsbD i).drop n

/-- An address of the two known families is kept in one spelling. -/
def canonicalPrefix (net : Net) (p : PrefixIdentity) : Result PrefixIdentity := do
  if p.afi = 1 ∨ p.afi = 2 then
    let parsed := if p.afi = 1 then net.parseIpv4 p.address else net.parseIpv6 p.address
    match parsed with
    | none => .error (bad "bgp_state_prefix"
        (if p.afi = 1 then "invalid IPv4 address" else "invalid IPv6 address"))
    | some address =>
      if p.length.toNat > address.length * 8 ∨ (hostBits address p.length.toNat).any id then
        .error (bad "bgp_state_prefix" "noncanonical prefix or excessive prefix length")
      else
        return { p with address := if p.afi = 1 then net.showIpv4 address else net.showIpv6 address }
  else return p

def position (v : Json) : Result ℕ := number v

def isComplete (identity : Json) : Bool :=
  match optionalMember identity "completeness" with
  | .ok (some (.string value)) => value = "complete"
  | _ => false

def claimsComplete (raw : Json) : Result Bool := do
  return (← optionalMember raw "semantic_identity").any isComplete

def mismatch (detail : String) : Error := bad "bgp_state_semantic_identity" detail

def inventoryNames : List String :=
  ["schema", "coordinate_system", "message_length", "message_sha256", "occurrences",
    "message_prefix_hex", "message_suffix_hex"]

def validateHash (value : String) : Result Unit :=
  if ¬ isHash value then .error (mismatch "invalid SHA-256 shape") else .ok ()

/-- Whether an inventory is of the older form without the rest of its message. -/
def legacyCarrier (inventory : Json) : Result Bool := do
  let fields ← object inventory
  if fields.length ≠ 5 then return false
  else if (← optionalMember inventory "message_prefix_hex").isSome then return false
  else return (← optionalMember inventory "message_suffix_hex").isNone

def checkInventory (inventory : Json) (legacy : Bool) : Result Unit := do
  let invalid := mismatch "imported occurrence inventory schema"
  let fields ← object inventory
  if (fields.length ≠ inventoryNames.length ∧ legacy = false) ∨
      fields.any (·.1 ∉ inventoryNames) then .error invalid
  else if (← text (← member inventory "schema")) ≠
      "pcap-evidence.bgp.imported-attribute-occurrences.v1" then .error invalid
  else if (← text (← member inventory "coordinate_system")) ≠ "bgp-message-relative" then
    .error invalid
  else return ()

def checkCarrier (k : Checks) (raw inventory : Json) (occurrences : List Json) (length : ℕ)
    (digest : String) (legacy : Bool) (l : Limits) : Result Unit :=
  if legacy then do
    if ← claimsComplete raw then
      .error (mismatch "complete imported identity needs message closure")
    else return ()
  else k.messageClosure inventory occurrences length digest l

def readInventory (k : Checks) (raw inventory : Json) (context : Option ImportContext) (l : Limits) :
    Result (List Json × ℕ) := do
  match context with
  | none => .error (mismatch "imported inventory needs source context")
  | some context =>
    let legacy ← legacyCarrier inventory
    checkInventory inventory legacy
    let length ← position (← member inventory "message_length")
    let digest ← text (← member inventory "message_sha256")
    validateHash digest
    if length < 19 ∨ length > l.inputBytes ∨ context.provenance.all (fun range =>
        ¬ (range.start ≤ range.stop ∧ range.stop - range.start = length ∧
          range.sha256 = some digest)) then
      .error (mismatch "imported message source extent or digest")
    else
      let occurrences ← array (← member inventory "occurrences")
      checkCarrier k raw inventory occurrences length digest legacy l
      k.occurrenceValues occurrences length l
      return (occurrences, length)

def checkCaptured (k : Checks) (kind : SourceKind) (ranges : List Json) (l : Limits) : Result Unit :=
  if kind = .captured then k.capturedValues ranges l else .ok ()

def readRanges (k : Checks) (raw : Json) (kind : SourceKind) (extent : ℕ)
    (context : Option ImportContext) (l : Limits) : Result (List Json × ℕ) := do
  let ranges ← array (← member raw "attribute_ranges")
  if kind = .imported ∧ ranges ≠ [] then
    .error (bad "bgp_state_import" "imported attributes cannot assert wire ranges")
  else
    checkCaptured k kind ranges l
    match ← optionalMember raw "imported_attribute_occurrences" with
    | none =>
      if kind = .imported ∧ context.any (·.direction.isSome) ∧ (← claimsComplete raw) then
        .error (mismatch "complete imported wire identity needs occurrence inventory")
      else return (ranges, extent)
    | some inventory =>
      if kind ≠ .imported then .error (mismatch "imported inventory on captured route")
      else readInventory k raw inventory context l

def readSemanticIdentity (k : Checks) (raw : Json) (route : PrefixIdentity) (attributes : Json)
    (ranges : List Json) (kind : SourceKind) (l : Limits) : Result Json := do
  match ← optionalMember raw "semantic_identity" with
  | none => return .null
  | some identity =>
    k.semanticIdentity identity (objectOf [("prefix", prefixJson route)]) attributes ranges kind l
    return identity.canonical

def identityIncomplete (identity : Json) : Result Bool := do
  if identity = .null then return false
  else match ← optionalMember identity "completeness" with
    | none => return false
    | some (.string value) => return value ≠ "complete"
    | some _ => return true

structure RangeScan where
  types : List U8
  ambiguous : Bool
  identities : List Json

def offsetNames : List String := ["start", "end", "value_start", "value_end", "value_hex"]

def rangeIdentity (fields : List (String × Json)) : Json :=
  (objectOf (fields.filter (·.1 ∉ offsetNames))).canonical

def unresolvedNames : List Json :=
  [.string "unresolved_asn_width", .string "unresolved_next_hop_context",
    .string "unresolved_capability_context"]

def checkValueRange (range : Json) (start stop : ℕ) : Result Unit := do
  match ← optionalMember range "value_start", ← optionalMember range "value_end" with
  | some a, some b =>
    let flags ← number (← member range "flags")
    let expected := start + if flags &&& 0x10 ≠ 0 then 4 else 3
    if expected ≥ wordBound then .error (Error.limit "bgp_state_range")
    else if (← position a) ≠ expected then
      .error (badAt start "bgp_state_range" "attribute value range disagrees with envelope")
    else if (← position b) ≠ stop ∨ expected > stop then
      .error (badAt start "bgp_state_range" "attribute value range disagrees with envelope")
    else return ()
  | none, none => return ()
  | _, _ => .error (badAt start "bgp_state_range" "partial attribute value range")

def scanRange (extent : ℕ) (s : RangeScan) (range : Json) : Result RangeScan := do
  let code ← byte (← member range "type")
  let _ ← byte (← member range "flags")
  let start ← position (← member range "start")
  let stop ← position (← member range "end")
  if start ≥ stop ∨ stop > extent then
    .error (badAt start "bgp_state_range" "attribute range outside evidence")
  else
    let _ ← text (← member range "sha256")
    checkValueRange range start stop
    let duplicate := s.types.contains code
    let discarded ← if duplicate then
        (member range "disposition" >>= text).map fun disposition =>
          disposition = "discard_later_occurrence" && code ≠ 14 && code ≠ 15
      else .ok false
    let fields ← object range
    return ⟨code :: s.types,
      s.ambiguous || (duplicate && !discarded) ||
        fields.any (fun p => p.1 = "interpretation" && p.2 ∈ unresolvedNames),
      s.identities ++ [rangeIdentity fields]⟩

def parseRoute (k : Checks) (raw : Json) (kind : SourceKind) (extent : ℕ)
    (context : Option ImportContext) (l : Limits) : Result RouteObservation := do
  let action ← readAction raw
  let p ← member raw "prefix"
  let pathId ← readPathId raw
  let route ← canonicalPrefix k.net (← readPrefix p)
  let fieldStart ← position (← member raw "field_start")
  let fieldEnd ← position (← member raw "field_end")
  if (kind = .captured ∧ (fieldStart ≥ fieldEnd ∨ fieldEnd > extent)) ∨
      (kind = .imported ∧ (fieldStart ≠ 0 ∨ fieldEnd ≠ 0)) then
    .error (badAt fieldStart "bgp_state_range" "route range outside source evidence")
  else
    let attributes ← member raw "attributes"
    let _ ← object attributes
    let (ranges, extent) ← readRanges k raw kind extent context l
    let semanticIdentity ← readSemanticIdentity k raw route attributes ranges kind l
    let incomplete ← identityIncomplete semanticIdentity
    let scan ← ranges.foldlM (scanRange extent) ⟨[], action = .announce && incomplete, []⟩
    return {
      route := route
      pathId := pathId
      action := action
      attributes := attributes.canonical
      attributeIdentity := arrayOf scan.identities
      semanticIdentity := semanticIdentity
      fieldStart := fieldStart
      fieldEnd := fieldEnd
      ambiguousAttributes := scan.ambiguous }

structure Imported where
  context : ImportContext
  boundary : Option GenerationBoundary

structure Observation where
  source : Source
  kind : ObservationKind
  routes : List RouteObservation
  normalized : Json
  encoded : String
  capturedLocator : Option String
  nodes : ℕ
  spans : ℕ
  imported : Option Imported

namespace Observation

variable (o : Observation)

def importContext : Option ImportContext := o.imported.map Imported.context

def importBoundary : Option GenerationBoundary := o.imported.bind Imported.boundary

def locator : Locator :=
  match o.importContext, o.capturedLocator with
  | some c, _ => .partition c.partition
  | none, some text => .captured text
  | none, none => .blank

def reduced : Candidate.Observation where
  source := o.source.toSource
  kind := o.kind
  routes := o.routes.map RouteObservation.toRouteObservation
  encoded := o.encoded
  locator := o.locator

def identity : Identity := o.reduced.identity

def sessionKey : Option Candidate.SessionKey := o.reduced.sessionKey

def json (sha256 : List U8 → Digest) : Json :=
  objectOf [("source", sourceJson o.source), ("kind", .string (kindName o.kind)),
    ("observation_sha256", .string (hex (sha256 (Encoder.utf8 o.encoded)).toList)),
    ("normalized", o.normalized)]

end Observation

def checkAuthority (value : Json) : Result Unit := do
  ["endpoint_state_established", "causality_established"].forM fun name => do
    if (← member value name) ≠ .bool false then
      .error (bad "bgp_state_authority" "authority claims are not accepted")
    else return ()
  ["rib_established", "best_path_selected", "reachability_established",
      "source_authority_established", "normative_conformance_certified"].forM fun name => do
    if (← optionalMember value name).any (· ≠ .bool false) then
      .error (bad "bgp_state_authority" "optional authority claims must be absent or false")
    else return ()

def readKind (value : Json) : Result SourceKind := do
  match ← text (← member value "source_kind") with
  | "captured" => .ok .captured
  | "imported" => .ok .imported
  | _ => .error (bad "bgp_state_source" "unknown source kind")

def readSource (value : Json) (kind : SourceKind) : Result Source := do
  let sourceId ← identityText (← member value "source_id")
  let recordId ← identityText (← member value "record_id")
  let session ← State.optionalIdentity (← member value "session")
  let generation ← optionalU64 (← member value "generation")
  let direction ← optionalDirection (← member value "direction")
  let observedAtNs ← optionalTime (← member value "observed_at_ns")
  let peer ← optionalText (← member value "peer")
  let localEnd ← optionalText (← member value "local")
  return { kind, sourceId, recordId, session, generation, direction, observedAtNs, peer, localEnd }

def readMessage (value : Json) (kind : SourceKind) : Result ObservationKind := do
  match kind, ← number (← member value "message_type") with
  | .imported, 0 => .ok .routes
  | .captured, 2 => .ok .routes
  | .captured, 1 => .ok .openMessage
  | .captured, 3 => .ok .notification
  | .captured, 4 => .ok .keepalive
  | .captured, 5 => .ok .routeRefresh
  | _, _ => .error (bad "bgp_state_message" "source/message type mismatch")

def readContext (value : Json) (l : Limits) : Result (Option ImportContext) := do
  match ← optionalMember value "import_context" with
  | none => return none
  | some .null => return none
  | some context => return some (← ImportContext.fromJson context l)

def readBoundary (value : Json) (context : Option ImportContext) (l : Limits) :
    Result (Option GenerationBoundary) := do
  match ← optionalMember value "import_boundary" with
  | none => return none
  | some .null => return none
  | some boundary =>
    match context with
    | none => .error (bad "bgp_import_boundary" "boundary context missing")
    | some context => return some (← GenerationBoundary.fromJson boundary context l)

structure Scoping where
  source : Source
  kind : ObservationKind
  extent : ℕ
  spans : ℕ
  locator : Option String

def scopeCaptured (k : Checks) (value : Json) (source : Source) (kind : ObservationKind)
    (context : Option ImportContext) (boundary : Option GenerationBoundary)
    (scope : Option ImportScope) (l : Limits) : Result Scoping := do
  if scope.isSome ∨ context ≠ none ∨ boundary ≠ none then
    .error (bad "bgp_state_scope" "cannot override captured scope or assert import context")
  else if source.generation = none then
    .error (bad "bgp_state_scope" "captured generation is required")
  else
    let (extent, spans, locator) ← k.capturedEvidence (← member value "evidence") l
    return ⟨source, kind, extent, spans, some locator⟩

def scopeImported (value : Json) (source : Source) (kind : ObservationKind)
    (context : Option ImportContext) (boundary : Option GenerationBoundary)
    (scope : Option ImportScope) (l : Limits) : Result Scoping := do
  if (← member value "evidence") ≠ .null then
    .error (bad "bgp_state_import" "imported observations cannot assert wire evidence")
  else match context with
    | some c =>
      if scope.isSome ∨ source.sourceId ≠ c.sourceId ∨ source.session ≠ some c.session ∨
          source.generation ≠ some c.generation ∨ source.direction ≠ c.direction ∨
          source.peer ≠ c.peer ∨ source.localEnd ≠ c.localEnd then
        .error (bad "bgp_import_context"
          "envelope and context identities disagree or scope was overridden")
      else
        let _ ← (partitionJson c.partition).encodeBounded l.inputBytes
        return ⟨source, if boundary.isSome then .reset else kind, 0, c.provenance.length, none⟩
    | none =>
      if source.direction ≠ none ∨ source.generation.any (· ≠ 0) then
        .error (bad "bgp_state_import"
          "unscoped legacy import cannot assert generation or direction")
      else
        let assigned := { source with
          generation := scope.map ImportScope.generation
          direction := scope.map ImportScope.direction }
        if assigned.direction.any (· > 1) then
          .error (bad "bgp_state_direction" "direction must be zero or one")
        else return ⟨assigned, kind, 0, 0, none⟩

def readScoping (k : Checks) (value : Json) (kind : SourceKind) (source : Source)
    (message : ObservationKind) (context : Option ImportContext)
    (boundary : Option GenerationBoundary) (scope : Option ImportScope) (l : Limits) :
    Result Scoping :=
  match kind with
  | .captured => scopeCaptured k value source message context boundary scope l
  | .imported => scopeImported value source message context boundary scope l

def checkClosures (routes : List Json) (l : Limits) : Result Unit := do
  let exceeded := Error.limit "bgp_state_semantic_identity"
  let _ ← routes.foldlM (fun work route => do
    match ← optionalMember route "imported_attribute_occurrences" with
    | none => return work
    | some inventory =>
      if (← optionalMember inventory "message_prefix_hex").isNone then return work
      else if (← optionalMember inventory "message_suffix_hex").isNone then return work
      else
        let front ← text (← member inventory "message_prefix_hex")
        let back ← text (← member inventory "message_suffix_hex")
        let values ← (← array (← member inventory "occurrences")).mapM fun range => do
          text (← member range "value_hex")
        let length ← position (← member inventory "message_length")
        let work := work + front.utf8ByteSize + back.utf8ByteSize +
          (values.map String.utf8ByteSize).sum + length * 4
        if work > l.work then .error exceeded else return work) 0
  return ()

def checkRawValues (routes : List Json) (l : Limits) : Result Unit := do
  let exceeded := Error.limit "bgp_state_raw_extended"
  let lengths ← routes.mapM fun route => do
    (← array (← member route "attribute_ranges")).mapM fun range => do
      match ← optionalMember range "value_hex" with
      | none => return 0
      | some raw => return (← text raw).utf8ByteSize
  if (lengths.flatten.map (· / 2)).sum > l.retainedBytes ∨ (lengths.flatten.map (· * 6)).sum > l.work
  then .error exceeded
  else return ()

def checkWork (kind : SourceKind) (routes : List Json) (l : Limits) : Result Unit :=
  match kind with
  | .imported => checkClosures routes l
  | .captured => checkRawValues routes l

def finish (scoping : Scoping) (routes : List RouteObservation) (value : Json) (nodes : ℕ)
    (context : Option ImportContext) (boundary : Option GenerationBoundary) (l : Limits) :
    Result Observation := do
  let normalized := value.canonical
  let encoded ← (objectOf [("source", sourceJson scoping.source),
    ("kind", .string (kindName scoping.kind)), ("normalized", normalized)]).encodeBounded
      l.retainedBytes
  return ⟨scoping.source, scoping.kind, routes, normalized, encoded, scoping.locator, nodes,
    scoping.spans, context.map fun c => ⟨c, boundary⟩⟩

def fromNormalized (k : Checks) (value : Json) (scope : Option ImportScope) (l : Limits) :
    Result Observation := do
  l.validate
  let nodes ← treeBudget value l
  let _ ← value.encodeBounded l.inputBytes
  if (← text (← member value "schema")) ≠ routeSchema then
    .error (bad "bgp_state_schema" "expected normalized route evidence")
  else
    checkAuthority value
    let kind ← readKind value
    let source ← readSource value kind
    let message ← readMessage value kind
    let _ ← (← array (← member value "issues")).mapM text
    let context ← readContext value l
    let boundary ← readBoundary value context l
    let _ ← member value "evidence"
    let scoping ← readScoping k value kind source message context boundary scope l
    let raw ← array (← member value "routes")
    if raw.length > l.elements then .error (Error.limit "bgp_state_routes")
    else if scoping.kind ≠ .routes ∧ raw ≠ [] then
      .error (bad "bgp_state_message" "control message contains routes")
    else
      checkWork kind raw l
      let routes ← raw.mapM fun route => parseRoute k route kind scoping.extent context l
      finish scoping routes value nodes context boundary l

end PcapEvidence.Bgp.State
