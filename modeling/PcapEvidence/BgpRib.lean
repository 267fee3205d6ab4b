import Mathlib
import PcapEvidence.FiniteMap
import PcapEvidence.HistoryCodec

/-!
# Adj-RIB-In candidates

An event is applied to a stage that holds copies of the selected entries only, and the stage is
then committed. Maps and sets are compared and summed but never read in key order. Charges are
exact sums: the source saturates them, and a saturated sum passes no check. The check of a single
event is a parameter, so what follows holds for any such check.
-/

namespace PcapEvidence.Bgp

open FiniteMap History

mutual

inductive Json where
  | null
  | bool (b : Bool)
  | number (n : U64)
  | string (s : String)
  | array (items : JsonItems)
  | object (fields : JsonFields)
  deriving DecidableEq

inductive JsonItems where
  | nil
  | cons (item : Json) (rest : JsonItems)
  deriving DecidableEq

inductive JsonFields where
  | nil
  | cons (key : String) (value : Json) (rest : JsonFields)
  deriving DecidableEq

end

def usizeMax : ℕ := 2 ^ 64 - 1

def bad (field detail : String) : Error := ⟨.protocolFraming, 0, field, detail⟩

structure Limits where
  inputBytes : ℕ
  fields : ℕ
  elements : ℕ
  depth : ℕ
  spans : ℕ
  active : ℕ
  retainedBytes : ℕ
  work : ℕ
  outputBytes : ℕ
  deriving DecidableEq

namespace Limits

def default : Limits where
  inputBytes := 1024 * 1024
  fields := 4096
  elements := 1024
  depth := 32
  spans := 4096
  active := 128
  retainedBytes := 16 * 1024 * 1024
  work := 8 * 1024 * 1024
  outputBytes := 8 * 1024 * 1024

def validate (l : Limits) : Result Unit :=
  if 0 ∈ [l.inputBytes, l.fields, l.elements, l.depth, l.spans, l.active, l.retainedBytes, l.work,
      l.outputBytes] ∨ l.depth > 64 ∨ l.inputBytes > 64 * 1024 * 1024 ∨ l.fields > 65536 ∨
      l.active > 65536 then
    .error (Error.limit "depth_configuration")
  else .ok ()

end Limits

inductive PartitionKind where
  | captured | imported
  deriving DecidableEq

structure SourcePartition where
  kind : PartitionKind
  sourceId : String
  partitionId : String
  deriving DecidableEq

structure SessionKey where
  source : SourcePartition
  session : String
  deriving DecidableEq

structure Family where
  afi : U16
  safi : U8
  deriving DecidableEq

inductive StaleKind where
  | graceful | longLivedGraceful
  deriving DecidableEq

structure PrefixIdentity where
  afi : U16
  safi : U8
  length : U8
  address : String
  deriving DecidableEq

inductive PathId where
  | absent
  | present (id : U32)
  | unknown
  deriving DecidableEq

structure RibScope where
  source : SourcePartition
  session : String
  generation : ℕ
  direction : Option U8
  peer : Option String
  deriving DecidableEq

def RibScope.sessionKey (s : RibScope) : SessionKey := ⟨s.source, s.session⟩

structure RouteKey where
  scope : RibScope
  family : Family
  pathId : PathId
  route : PrefixIdentity
  deriving DecidableEq

inductive RibAction where
  | announce (route : PrefixIdentity) (pathId : PathId) (attributes : Json)
      (attributeIdentity : String)
  | withdraw (route : PrefixIdentity) (pathId : PathId)
  | reject (route : PrefixIdentity) (pathId : PathId) (reason : String)
  deriving DecidableEq

inductive RibEventKind where
  | update (actions : List RibAction)
  | endOfRib (family : Family)
  | stale (family : Family) (kind : StaleKind)
  | gap (reason : String)
  | reset (previousGeneration : ℕ) (reason : String)
  deriving DecidableEq

structure RibEvent where
  scope : RibScope
  recordId : String
  kind : RibEventKind
  deriving DecidableEq

inductive RouteStatus where
  | active
  | stale (kind : StaleKind)
  | staleAtEor
  | withdrawn
  | superseded
  | unresolved
  | rejected
  deriving DecidableEq

inductive VersionDisposition where
  | current | replaced | withdrawn | superseded | conflicting
  deriving DecidableEq

structure NativeVersionOccurrence where
  eventIndex : ℕ
  observationSha256 : Digest
  routeIndex : ℕ
  deriving DecidableEq

structure VersionBinding where
  key : RouteKey
  versionIndex : ℕ
  routeIndex : ℕ

structure RouteVersion where
  attributes : Json
  attributeIdentity : String
  witnesses : List String
  occurrences : List NativeVersionOccurrence
  disposition : VersionDisposition
  deriving DecidableEq

structure RouteEntry where
  versions : List RouteVersion
  status : RouteStatus
  lastWitness : String
  deriving DecidableEq

structure FamilyMarker where
  scope : RibScope
  family : Family
  recordId : String

structure RejectedRecord where
  key : RouteKey
  recordId : String
  reason : String

inductive ApplyStatus where
  | applied | identicalReplay | historical | missingScope | identityConflict
  deriving DecidableEq

structure AdjRibIn where
  /-- The identity of the reducer that plans are prepared for. -/
  owner : ℕ
  limits : Limits
  events : List RibEvent
  entries : FinMap RouteKey RouteEntry
  generations : FinMap SessionKey ℕ
  gaps : List (RibScope × String)
  eors : List FamilyMarker
  rejections : List RejectedRecord
  taintedSessions : Finset SessionKey
  recordIndex : FinMap (SessionKey × String) (List ℕ)
  gapIndex : Finset (SessionKey × ℕ)
  peerIndex : FinMap RibScope (Finset (Option String))
  entryCharges : FinMap RouteKey ℕ
  versionBindings : FinMap ℕ (List VersionBinding)
  originIndex : Finset (ℕ × Digest)
  originElements : ℕ
  retained : ℕ
  work : ℕ
  actions : ℕ
  versions : ℕ

def baseScope (scope : RibScope) : RibScope := { scope with peer := none }

def sameSessionIdentity (scope : RibScope) (source : SourcePartition) (session : String) : Bool :=
  scope.source = source && scope.session = session

def sameSession (scope : RibScope) (session : SessionKey) : Bool :=
  sameSessionIdentity scope session.source session.session

def sameFamilyScope (key : RouteKey) (scope : RibScope) (family : Family) : Bool :=
  key.scope = scope && key.family = family

def sameBaseScope (left right : RibScope) : Bool :=
  sameSessionIdentity left right.source right.session && left.generation = right.generation &&
    left.direction = right.direction

def isRouteScoped : RibEventKind → Bool
  | .update _ | .endOfRib _ | .stale _ _ => true
  | .gap _ | .reset _ _ => false

def routeKey (scope : RibScope) (route : PrefixIdentity) (pathId : PathId) : RouteKey :=
  ⟨scope, ⟨route.afi, route.safi⟩, pathId, route⟩

def supported (route : PrefixIdentity) : Bool :=
  (route.afi = 1 || route.afi = 2) && (route.safi = 1 || route.safi = 2)

def NODE : ℕ := 256
def CONTAINER : ℕ := 64
def SLOT : ℕ := 32
def OCCURRENCE_CHARGE : ℕ := NODE + 48 + SLOT
def ORIGIN_INDEX_CHARGE : ℕ := NODE + 40

def chargeText (value : String) : ℕ := SLOT + value.utf8ByteSize * 6

def chargePeer (peer : Option String) : ℕ := 8 + peer.elim 0 chargeText

def chargeSource (source : SourcePartition) : ℕ :=
  NODE + chargeText source.sourceId + chargeText source.partitionId + 8

def chargeSession (session : SessionKey) : ℕ :=
  NODE + chargeSource session.source + chargeText session.session

def chargeScope (scope : RibScope) : ℕ :=
  NODE + chargeSource scope.source + chargeText scope.session + 16 + chargePeer scope.peer

def chargePrefix (route : PrefixIdentity) : ℕ := NODE + 8 + chargeText route.address

def chargeActionKey (scope : RibScope) (route : PrefixIdentity) : ℕ :=
  NODE + chargeScope scope + 16 + chargePrefix route

def chargeKey (key : RouteKey) : ℕ := chargeActionKey key.scope key.route

mutual

def chargeJson : Json → ℕ
  | .string s => NODE + chargeText s
  | .array items => NODE + CONTAINER + chargeItems items
  | .object fields => NODE + CONTAINER + chargeFields fields
  | .null | .bool _ | .number _ => NODE

def chargeItems : JsonItems → ℕ
  | .nil => 0
  | .cons item rest => SLOT + chargeJson item + chargeItems rest

def chargeFields : JsonFields → ℕ
  | .nil => 0
  | .cons key value rest => SLOT + chargeText key + chargeJson value + chargeFields rest

end

def chargeAction : RibAction → ℕ
  | .announce route _ attributes attributeIdentity =>
    NODE + chargePrefix route + 8 + chargeJson attributes + chargeText attributeIdentity
  | .withdraw route _ => NODE + chargePrefix route + 8
  | .reject route _ reason => NODE + chargePrefix route + 8 + chargeText reason

def chargeKind : RibEventKind → ℕ
  | .update actions => NODE + CONTAINER + (actions.map fun a => SLOT + chargeAction a).sum
  | .endOfRib _ | .stale _ _ => NODE + 16
  | .gap reason | .reset _ reason => NODE + 8 + chargeText reason

def chargeEvent (event : RibEvent) : ℕ :=
  NODE + chargeScope event.scope + chargeText event.recordId + chargeKind event.kind

def occurrence (eventIndex : ℕ) (origin : Option Digest) (routeIndex : ℕ) :
    List NativeVersionOccurrence :=
  origin.toList.map fun digest => ⟨eventIndex, digest, routeIndex⟩

def chargeBindingList (bindings : List VersionBinding) : ℕ :=
  NODE + 8 + CONTAINER + (bindings.map fun b => NODE + 16 + SLOT + chargeKey b.key).sum

def chargeBindings (bindings : FinMap ℕ (List VersionBinding)) : ℕ :=
  bindings.total fun _ => chargeBindingList

def chargeVersion (version : RouteVersion) : ℕ :=
  NODE + chargeJson version.attributes + chargeText version.attributeIdentity + CONTAINER + 8 +
    (version.witnesses.map fun w => SLOT + chargeText w).sum + CONTAINER +
    version.occurrences.length * OCCURRENCE_CHARGE

def chargeStoredEntry (key : RouteKey) (entry : RouteEntry) : ℕ :=
  NODE * 3 + chargeKey key * 3 + CONTAINER + 16 + chargeText entry.lastWitness +
    (entry.versions.map fun v => SLOT + chargeVersion v).sum

def mutationCharge (event : RibEvent) (origin : Bool) : RibAction → ℕ
  | .announce route _ attributes attributeIdentity =>
    CONTAINER + NODE + 16 + SLOT + chargeActionKey event.scope route +
      (if origin then OCCURRENCE_CHARGE else 0) +
      (NODE * 4 + chargeActionKey event.scope route * 3 + CONTAINER * 2 + SLOT * 2 + 24 +
        chargeText event.recordId * 2 + chargeJson attributes + chargeText attributeIdentity)
  | .withdraw route _ =>
    NODE * 3 + chargeActionKey event.scope route * 3 + CONTAINER + 16 + chargeText event.recordId
  | .reject route _ reason =>
    NODE + chargeActionKey event.scope route + chargeText event.recordId + chargeText reason

def RibAction.isAnnounce : RibAction → Bool
  | .announce .. => true
  | _ => false

def mutationBound (event : RibEvent) (origin : Bool) : ℕ :=
  let session := event.scope.sessionKey
  NODE * 2 + chargeSession session * 2 + 8 +
    (match event.kind with
      | .update actions =>
        (if actions.any RibAction.isAnnounce then
          NODE + 8 + CONTAINER + (if origin then ORIGIN_INDEX_CHARGE else 0) else 0) +
          (actions.map (mutationCharge event origin)).sum
      | .endOfRib _ => NODE + chargeScope event.scope + 8 + chargeText event.recordId
      | _ => 0) +
    NODE * 2 + chargeScope event.scope + chargeText event.recordId + chargeSession session + 8

def eventActions (event : RibEvent) : ℕ :=
  match event.kind with
  | .update actions => actions.length
  | _ => 1

def validateGeneration (event : RibEvent) (current : Option ℕ) : Result Unit :=
  match event.kind with
  | .reset previousGeneration _ =>
    if event.scope.direction.isSome ∨ current ≠ some previousGeneration ∨
        event.scope.generation ≤ previousGeneration ∨
        (event.scope.source.kind = .imported ∧ previousGeneration + 1 ≠ event.scope.generation) then
      .error (bad "bgp_rib_reset" "explicit advancing predecessor required")
    else .ok ()
  | _ =>
    if current.any (fun g => g < event.scope.generation) then
      .error (bad "bgp_rib_generation" "generation change needs reset")
    else .ok ()

namespace AdjRibIn

def initial (owner : ℕ) (limits : Limits) : AdjRibIn where
  owner := owner
  limits := limits
  events := []
  entries := .empty
  generations := .empty
  gaps := []
  eors := []
  rejections := []
  taintedSessions := ∅
  recordIndex := .empty
  gapIndex := ∅
  peerIndex := .empty
  entryCharges := .empty
  versionBindings := .empty
  originIndex := ∅
  originElements := 0
  retained := 0
  work := 0
  actions := 0
  versions := 0

def new (owner : ℕ) (limits : Limits) : Result AdjRibIn := do
  limits.validate
  .ok (initial owner limits)

def updateEntries (p : RouteKey → Bool) (f : RouteEntry → RouteEntry) (s : AdjRibIn) : AdjRibIn :=
  { s with entries := s.entries.mapVal fun k e => if p k then f e else e }

def setDisposition (p : VersionDisposition → Bool) (d : VersionDisposition) (e : RouteEntry) :
    RouteEntry :=
  { e with versions := e.versions.map fun v => if p v.disposition then { v with disposition := d }
    else v }

def quarantineSession (session : SessionKey) : AdjRibIn → AdjRibIn :=
  updateEntries (fun k => sameSession k.scope session) fun e =>
    { setDisposition (fun _ => true) .conflicting e with status := .unresolved }

def quarantineScope (scope : RibScope) : AdjRibIn → AdjRibIn :=
  updateEntries (fun k => sameBaseScope k.scope scope) fun e => { e with status := .unresolved }

def bind (eventIndex routeIndex : ℕ) (origin : Option Digest) (key : RouteKey) (entry : RouteEntry)
    (s : AdjRibIn) : AdjRibIn :=
  { s with
    entries := s.entries.insert key entry
    versionBindings := s.versionBindings.insert eventIndex
      ((s.versionBindings.get eventIndex).getD [] ++
        [⟨key, entry.versions.length - 1, routeIndex⟩])
    originElements := s.originElements + (1 + if origin.isSome then 1 else 0) }

def applyConflict (event : RibEvent) (eventIndex : ℕ) (origin : Option Digest) (s : AdjRibIn)
    (x : RibAction × ℕ) : AdjRibIn :=
  match x.1 with
  | .announce route pathId attributes attributeIdentity =>
    if event.scope.direction.isSome then
      let key := routeKey event.scope route pathId
      let entry := (s.entries.get key).getD ⟨[], .unresolved, event.recordId⟩
      s.bind eventIndex x.2 origin key { entry with
        versions := entry.versions ++ [⟨attributes, attributeIdentity, [event.recordId],
          occurrence eventIndex origin x.2, .conflicting⟩]
        status := .unresolved }
    else s
  | _ => s

def witnessed (recordId : String) (occurrences : List NativeVersionOccurrence)
    (versions : List RouteVersion) : List RouteVersion :=
  match versions.getLast? with
  | none => []
  | some v => versions.dropLast ++ [{ v with
      witnesses := v.witnesses ++ [recordId]
      occurrences := v.occurrences ++ occurrences }]

def announced (recordId : String) (attributes : Json) (attributeIdentity : String)
    (occurrences : List NativeVersionOccurrence) (entry : RouteEntry) : List RouteVersion :=
  if entry.status = .active ∧ entry.versions.getLast?.any (fun v =>
      v.attributes = attributes && v.attributeIdentity = attributeIdentity) then
    witnessed recordId occurrences entry.versions
  else (setDisposition (· = .current) .replaced entry).versions ++
    [⟨attributes, attributeIdentity, [recordId], occurrences, .current⟩]

def applyAction (event : RibEvent) (gap : Bool) (eventIndex : ℕ) (origin : Option Digest)
    (s : AdjRibIn) (x : RibAction × ℕ) : AdjRibIn :=
  match x.1 with
  | .announce route pathId attributes attributeIdentity =>
    let key := routeKey event.scope route pathId
    let entry := (s.entries.get key).getD ⟨[], .unresolved, event.recordId⟩
    s.bind eventIndex x.2 origin key {
      versions := announced event.recordId attributes attributeIdentity
        (occurrence eventIndex origin x.2) entry
      status := if gap || pathId = .unknown || !supported route then .unresolved else .active
      lastWitness := event.recordId }
  | .withdraw route pathId =>
    let key := routeKey event.scope route pathId
    let entry := (s.entries.get key).getD ⟨[], .withdrawn, event.recordId⟩
    { s with entries := s.entries.insert key {
      versions := (setDisposition (· = .current) .withdrawn entry).versions
      status := if gap then .unresolved else .withdrawn
      lastWitness := event.recordId } }
  | .reject route pathId reason =>
    { s with rejections := s.rejections ++
      [⟨routeKey event.scope route pathId, event.recordId, reason⟩] }

def finishOrigin (eventIndex : ℕ) (origin : Option Digest) (s : AdjRibIn) : AdjRibIn :=
  match origin with
  | some digest =>
    if (s.versionBindings.get eventIndex).isSome then
      { s with
        originIndex := insert (eventIndex, digest) s.originIndex
        originElements := s.originElements + 1 }
    else s
  | none => s

def pushGap (event : RibEvent) (s : AdjRibIn) : AdjRibIn :=
  { s with gaps := s.gaps ++ [(event.scope, event.recordId)] }

def pushEor (marker : FamilyMarker) (s : AdjRibIn) : AdjRibIn :=
  { s with eors := s.eors ++ [marker] }

def updateActions : RibEventKind → List RibAction
  | .update actions => actions
  | _ => []

def conflictStep (event : RibEvent) (eventIndex : ℕ) (origin : Option Digest) (s : AdjRibIn) :
    AdjRibIn :=
  let s := s.quarantineSession event.scope.sessionKey
  let s := { s with taintedSessions := insert event.scope.sessionKey s.taintedSessions }
  let s := (updateActions event.kind).zipIdx.foldl (applyConflict event eventIndex origin) s
  (s.finishOrigin eventIndex origin).pushGap event

def resetStep (event : RibEvent) (previousGeneration : ℕ) (s : AdjRibIn) : AdjRibIn :=
  let s := s.updateEntries (fun k => sameSession k.scope event.scope.sessionKey &&
      k.scope.generation = previousGeneration) fun e =>
    { setDisposition (· = .current) .superseded e with status := .superseded }
  { s with generations := s.generations.insert event.scope.sessionKey event.scope.generation }

def routeStep (event : RibEvent) (gap : Bool) (eventIndex : ℕ) (origin : Option Digest)
    (s : AdjRibIn) : AdjRibIn :=
  match event.kind with
  | .gap _ => (s.pushGap event).updateEntries (fun k =>
    sameSession k.scope event.scope.sessionKey && k.scope.generation = event.scope.generation)
    fun e => { e with status := .unresolved }
  | .endOfRib family => (s.pushEor ⟨event.scope, family, event.recordId⟩).updateEntries
      (fun k => sameFamilyScope k event.scope family) fun e =>
        match e.status with
        | .stale _ => { e with status := .staleAtEor }
        | _ => e
  | .stale family kind => s.updateEntries (fun k => sameFamilyScope k event.scope family) fun e =>
    if e.status = .active then { e with status := .stale kind } else e
  | .update actions =>
    (actions.zipIdx.foldl (applyAction event gap eventIndex origin) s).finishOrigin eventIndex origin
  | .reset _ _ => s

def RibEventKind.isGap : RibEventKind → Bool
  | .gap _ => true
  | _ => false

def enterGeneration (event : RibEvent) (s : AdjRibIn) : AdjRibIn :=
  match s.generations.get event.scope.sessionKey with
  | some _ => s
  | none => { s with
      generations := s.generations.insert event.scope.sessionKey event.scope.generation }

def applyCurrent (event : RibEvent) (gap peerMismatch : Bool) (eventIndex : ℕ)
    (origin : Option Digest) (s : AdjRibIn) : Result (ApplyStatus × AdjRibIn) :=
  let current := s.generations.get event.scope.sessionKey
  if current.any (fun g => event.scope.generation < g) then .ok (.historical, s)
  else do
    validateGeneration event current
    let s := s.enterGeneration event
    if event.scope.direction = none ∧ RibEventKind.isGap event.kind = false then
      .ok (.missingScope, s)
    else if isRouteScoped event.kind ∧ peerMismatch then
      .ok (.missingScope, (s.quarantineScope event.scope).pushGap event)
    else .ok (.applied, s.routeStep event gap eventIndex origin)

def applyInner (event : RibEvent) (conflict gap peerMismatch : Bool) (eventIndex : ℕ)
    (origin : Option Digest) (s : AdjRibIn) : Result (ApplyStatus × AdjRibIn) :=
  let session := event.scope.sessionKey
  if session ∈ s.taintedSessions then .ok (.identityConflict, s)
  else if conflict then .ok (.identityConflict, s.conflictStep event eventIndex origin)
  else match event.kind with
    | .reset previousGeneration _ => do
      validateGeneration event (s.generations.get session)
      .ok (.applied, s.resetStep event previousGeneration)
    | _ => s.applyCurrent event gap peerMismatch eventIndex origin

def peerBindingMismatch (s : AdjRibIn) (scope : RibScope) : Bool :=
  (s.peerIndex.get (baseScope scope)).any fun peers => 1 < peers.card ∨ scope.peer ∉ peers

def checkSizes (s : AdjRibIn) (size : ℕ) : Result Unit :=
  if size ≥ usizeMax ∨ size > s.limits.retainedBytes ∨ size > s.limits.outputBytes then
    .error (Error.limit "bgp_rib_budget")
  else .ok ()

def checkWork (s : AdjRibIn) (extra : ℕ) : Result Unit :=
  if extra ≥ usizeMax ∨ s.work + extra > s.limits.work then .error (Error.limit "bgp_rib_budget")
  else .ok ()

def peerGrowth (s : AdjRibIn) (event : RibEvent) : ℕ :=
  if isRouteScoped event.kind then
    match s.peerIndex.get (baseScope event.scope) with
    | none => NODE + chargeScope (baseScope event.scope) + CONTAINER + NODE +
        chargePeer event.scope.peer
    | some peers => if event.scope.peer ∈ peers then 0 else NODE + chargePeer event.scope.peer
  else 0

def eventIndexGrowth (s : AdjRibIn) (event : RibEvent) : ℕ :=
  SLOT + (if (s.recordIndex.get (event.scope.sessionKey, event.recordId)).isSome then 0
    else NODE + chargeSession event.scope.sessionKey + chargeText event.recordId + CONTAINER) +
  s.peerGrowth event

def chargeMetadataDelta (old stage : AdjRibIn) (session : SessionKey) : ℕ :=
  (if (old.generations.get session).isNone ∧ (stage.generations.get session).isSome then
    NODE + chargeSession session + 8 else 0) +
  (if session ∉ old.taintedSessions ∧ session ∈ stage.taintedSessions then
    NODE + chargeSession session else 0) +
  (stage.gaps.map fun g => NODE + chargeScope g.1 + chargeText g.2 +
    if (g.1.sessionKey, g.1.generation) ∈ old.gapIndex then 0
    else NODE + chargeSession g.1.sessionKey + 8).sum +
  (stage.eors.map fun m => NODE + chargeScope m.scope + 8 + chargeText m.recordId).sum +
  (stage.rejections.map fun r =>
    NODE + chargeKey r.key + chargeText r.recordId + chargeText r.reason).sum

structure PreparedRibEvent where
  owner : ℕ
  revision : ℕ
  status : ApplyStatus
  event : Option RibEvent
  stage : AdjRibIn
  charges : FinMap RouteKey ℕ
  retained : ℕ
  work : ℕ
  actions : ℕ
  versions : ℕ
  originElements : ℕ

/-- The identical record under the label of an event, if there is one, and the work so far. -/
def compareRecords (s : AdjRibIn) (event : RibEvent) : List ℕ → ℕ → Result (Option ℕ × ℕ)
  | [], admission => .ok (none, admission)
  | i :: rest, admission =>
    match s.events[i]? with
    | none => s.compareRecords event rest admission
    | some old =>
      let admission := admission + chargeEvent event + chargeEvent old
      if admission ≥ usizeMax ∨ admission > s.limits.work then
        .error (Error.limit "bgp_rib_budget")
      else if old = event then .ok (some i, admission)
      else s.compareRecords event rest admission

def affected (s : AdjRibIn) (event : RibEvent) (conflict peerMismatch : Bool) (key : RouteKey) :
    Bool :=
  if conflict then sameSession key.scope event.scope.sessionKey
  else match event.kind with
    | .reset previousGeneration _ =>
      sameSession key.scope event.scope.sessionKey && key.scope.generation = previousGeneration
    | kind =>
      if peerMismatch && isRouteScoped kind then sameBaseScope key.scope event.scope
      else match kind with
        | .gap _ => sameSession key.scope event.scope.sessionKey &&
            key.scope.generation = event.scope.generation
        | .endOfRib family => sameFamilyScope key event.scope family &&
            (s.entries.get key).any fun e => match e.status with
              | .stale _ => true
              | _ => false
        | .stale family _ => sameFamilyScope key event.scope family &&
            (s.entries.get key).any fun e => e.status = .active
        | _ => false

def wide (event : RibEvent) (conflict historical peerMismatch : Bool) : Bool :=
  conflict || (match event.kind with
    | .reset _ _ => true
    | .update _ => !historical && peerMismatch
    | .endOfRib _ | .stale _ _ | .gap _ => !historical)

def actionKey (scope : RibScope) (conflict : Bool) : RibAction → Option RouteKey
  | .announce route pathId _ _ => some (routeKey scope route pathId)
  | .withdraw route pathId => if conflict then none else some (routeKey scope route pathId)
  | .reject .. => none

def selectedKeys (s : AdjRibIn) (event : RibEvent) (tainted conflict historical peerMismatch : Bool) :
    Finset RouteKey :=
  if tainted then ∅
  else
    (if wide event conflict historical peerMismatch then
      s.entries.keys.filter fun k => s.affected event conflict peerMismatch k else ∅) ∪
    (if conflict || (!historical && event.scope.direction.isSome && !peerMismatch) then
      ((updateActions event.kind).filterMap (actionKey event.scope conflict)).toFinset else ∅)

def bindingGrowth (event : RibEvent) (origin : Option Digest) : ℕ :=
  let announcements := (updateActions event.kind).filter RibAction.isAnnounce
  let growth := ((updateActions event.kind).map fun a => match a with
    | .announce route _ _ _ => NODE + 16 + SLOT + chargeActionKey event.scope route
    | _ => 0).sum
  if announcements = [] then growth
  else growth + (NODE + 8 + CONTAINER) +
    if origin.isSome then ORIGIN_INDEX_CHARGE + announcements.length * OCCURRENCE_CHARGE else 0

def stageOf (s : AdjRibIn) (session : SessionKey) (selected : Finset RouteKey) : AdjRibIn :=
  { s with
    events := []
    entries := s.entries.restrict selected
    generations := s.generations.restrict {session}
    gaps := []
    eors := []
    rejections := []
    taintedSessions := if session ∈ s.taintedSessions then {session} else ∅
    recordIndex := .empty
    gapIndex := ∅
    peerIndex := .empty
    entryCharges := .empty
    versionBindings := .empty
    originIndex := ∅
    originElements := 0
    retained := 0
    actions := 0
    versions := 0 }

def versionCount (entries : FinMap RouteKey RouteEntry) : ℕ :=
  entries.total fun _ e => e.versions.length

def removedCharge (s : AdjRibIn) (selected : Finset RouteKey) : ℕ :=
  ∑ k ∈ selected, (s.entryCharges.get k).getD 0

def replayStage (s : AdjRibIn) (eventIndex : ℕ) (digest : Digest) (bindings : List VersionBinding) :
    FinMap RouteKey RouteEntry :=
  bindings.foldl (fun entries b =>
    match entries.get b.key with
    | none => entries
    | some e => entries.insert b.key { e with
        versions := e.versions.modify b.versionIndex fun v =>
          { v with occurrences := v.occurrences ++ [⟨eventIndex, digest, b.routeIndex⟩] } })
    (s.entries.restrict (bindings.map (·.key)).toFinset)

def emptyStage (s : AdjRibIn) : AdjRibIn :=
  { s.stageOf ⟨⟨.captured, "", ""⟩, ""⟩ ∅ with
    entries := .empty
    generations := .empty
    taintedSessions := ∅ }

def inertReplay (s : AdjRibIn) : PreparedRibEvent where
  owner := s.owner
  revision := s.events.length
  status := .identicalReplay
  event := none
  stage := s.emptyStage
  charges := .empty
  retained := s.retained
  work := s.work
  actions := s.actions
  versions := s.versions
  originElements := s.originElements

def prepareOriginReplay (s : AdjRibIn) (eventIndex : ℕ) (origin : Option Digest) (admission : ℕ) :
    Result PreparedRibEvent :=
  match origin, s.versionBindings.get eventIndex with
  | some digest, some bindings =>
    if (eventIndex, digest) ∈ s.originIndex then .ok s.inertReplay
    else do
      let keys := (bindings.map (·.key)).toFinset
      let admission := admission + ORIGIN_INDEX_CHARGE * 2 +
        bindings.length * OCCURRENCE_CHARGE * 2 +
        (bindings.map fun b => NODE + 16 + SLOT + chargeKey b.key).sum +
        2 * s.removedCharge keys
      s.checkWork admission
      let removed := s.removedCharge keys
      s.checkSizes (s.retained - removed + ORIGIN_INDEX_CHARGE +
        bindings.length * OCCURRENCE_CHARGE)
      let originElements := s.originElements + bindings.length + 1
      if s.actions + s.versions + originElements > s.limits.elements then
        .error (Error.limit "bgp_rib_elements")
      else do
        let entries := s.replayStage eventIndex digest bindings
        let added := entries.total chargeStoredEntry
        let retained := s.retained - removed + added + ORIGIN_INDEX_CHARGE
        s.checkSizes retained
        s.checkWork admission
        .ok { s.inertReplay with
          stage := { s.emptyStage with
            entries := entries
            originIndex := {(eventIndex, digest)} }
          charges := entries.mapTo chargeStoredEntry
          retained := retained
          work := s.work + admission
          originElements := originElements }
  | _, _ => .ok s.inertReplay

def scanCharge (s : AdjRibIn) (scans : Bool) (selected : Finset RouteKey) : ℕ :=
  (if scans then ∑ k ∈ s.entries.keys, chargeKey k else 0) + 2 * s.removedCharge selected

section Flags

variable (s : AdjRibIn) (event : RibEvent)

def recorded : Bool := (s.recordIndex.get (event.scope.sessionKey, event.recordId)).isSome

def tainted : Bool := event.scope.sessionKey ∈ s.taintedSessions

def historical : Bool :=
  (s.generations.get event.scope.sessionKey).any fun g => event.scope.generation < g

def gapped : Bool := (event.scope.sessionKey, event.scope.generation) ∈ s.gapIndex

def selection : Finset RouteKey :=
  s.selectedKeys event (s.tainted event) (s.recorded event) (s.historical event)
    (s.peerBindingMismatch event.scope)

def freshWork (origin : Option Digest) : ℕ :=
  2 * mutationBound event origin.isSome + 2 * s.eventIndexGrowth event +
    s.scanCharge (!s.tainted event && wide event (s.recorded event) (s.historical event)
      (s.peerBindingMismatch event.scope)) (s.selection event)

def minimum : ℕ :=
  s.retained - s.removedCharge (s.selection event) + chargeEvent event + s.eventIndexGrowth event

/-- Whether the announcements of an event are bound to versions. -/
def binds : Bool :=
  !s.tainted event && event.scope.direction.isSome &&
    (s.recorded event || (!s.historical event && !s.peerBindingMismatch event.scope))

def checkGeneration : Result Unit :=
  if !s.tainted event && !s.recorded event then
    validateGeneration event (s.generations.get event.scope.sessionKey)
  else .ok ()

end Flags

def prepareFresh (s : AdjRibIn) (event : RibEvent) (origin : Option Digest) (admission : ℕ) :
    Result PreparedRibEvent := do
  let session := event.scope.sessionKey
  s.checkWork admission
  s.checkGeneration event
  let admission := admission + s.freshWork event origin
  s.checkWork admission
  s.checkSizes (s.minimum event + if s.binds event then bindingGrowth event origin else 0)
  let stage := s.stageOf session (s.selection event)
  let (status, staged) ← stage.applyInner event (s.recorded event) (s.gapped event)
    (s.peerBindingMismatch event.scope) s.events.length origin
  let metadata := chargeMetadataDelta s staged session + chargeBindings staged.versionBindings +
    staged.originIndex.card * ORIGIN_INDEX_CHARGE
  let originElements := s.originElements + staged.originElements
  let retained := s.minimum event + staged.entries.total chargeStoredEntry + metadata
  s.checkSizes retained
  let actions := s.actions + eventActions event
  let versions := s.versions - versionCount stage.entries + versionCount staged.entries
  if actions + versions + originElements > s.limits.elements ∨
      s.entries.keys.card + (staged.entries.keys \ s.entries.keys).card > s.limits.active then
    .error (Error.limit "bgp_rib_elements")
  else
    .ok {
      owner := s.owner
      revision := s.events.length
      status := status
      event := some event
      stage := staged
      charges := staged.entries.mapTo chargeStoredEntry
      retained := retained
      work := s.work + admission
      actions := actions
      versions := versions
      originElements := originElements }

def prepareInner (check : RibEvent → Limits → Result Unit) (s : AdjRibIn) (event : RibEvent)
    (origin : Option Digest) : Result PreparedRibEvent := do
  check event s.limits
  let records := (s.recordIndex.get (event.scope.sessionKey, event.recordId)).getD []
  let (found, admission) ← s.compareRecords event records (3 * chargeEvent event)
  match found with
  | some i => s.prepareOriginReplay i origin admission
  | none => s.prepareFresh event origin admission

def preparedCurrent (s : AdjRibIn) (plan : PreparedRibEvent) : Bool :=
  s.owner = plan.owner && s.events.length = plan.revision && s.work = plan.stage.work

def recordEvent (event : RibEvent) (s : AdjRibIn) : AdjRibIn :=
  let label := (event.scope.sessionKey, event.recordId)
  let base := baseScope event.scope
  { s with
    recordIndex := s.recordIndex.insert label
      ((s.recordIndex.get label).getD [] ++ [s.events.length])
    peerIndex := if isRouteScoped event.kind then
        s.peerIndex.insert base (insert event.scope.peer ((s.peerIndex.get base).getD ∅))
      else s.peerIndex
    events := s.events ++ [event] }

def commit (s : AdjRibIn) (plan : PreparedRibEvent) : AdjRibIn :=
  let s := match plan.event with
    | some event => s.recordEvent event
    | none => s
  { s with
    versionBindings := plan.stage.versionBindings.overlay s.versionBindings
    originIndex := s.originIndex ∪ plan.stage.originIndex
    gapIndex := s.gapIndex ∪
      (plan.stage.gaps.map fun g => (g.1.sessionKey, g.1.generation)).toFinset
    entries := plan.stage.entries.overlay s.entries
    entryCharges := plan.charges.overlay s.entryCharges
    generations := plan.stage.generations.overlay s.generations
    taintedSessions := s.taintedSessions ∪ plan.stage.taintedSessions
    gaps := s.gaps ++ plan.stage.gaps
    eors := s.eors ++ plan.stage.eors
    rejections := s.rejections ++ plan.stage.rejections
    retained := plan.retained
    work := plan.work
    actions := plan.actions
    versions := plan.versions
    originElements := plan.originElements }

def apply (check : RibEvent → Limits → Result Unit) (s : AdjRibIn) (event : RibEvent)
    (origin : Option Digest) : Result (ApplyStatus × AdjRibIn) := do
  let plan ← s.prepareInner check event origin
  .ok (plan.status, s.commit plan)

def commitAll (check : RibEvent → Limits → Result Unit) (s : AdjRibIn) :
    List (RibEvent × Option Digest) → Result (List PreparedRibEvent × AdjRibIn)
  | [] => .ok ([], s)
  | (event, origin) :: rest => do
    let plan ← s.prepareInner check event origin
    let (plans, t) ← (s.commit plan).commitAll check rest
    .ok (plan :: plans, t)

/-- The plans that were committed on the way from one state to another. -/
inductive Trace (check : RibEvent → Limits → Result Unit) (s : AdjRibIn) :
    List PreparedRibEvent → AdjRibIn → Prop
  | nil : Trace check s [] s
  | snoc {plans : List PreparedRibEvent} {t : AdjRibIn} {event : RibEvent} {origin : Option Digest}
      {plan : PreparedRibEvent} (before : Trace check s plans t)
      (prepared : t.prepareInner check event origin = .ok plan) :
      Trace check s (plans ++ [plan]) (t.commit plan)

/-- A state after any events, each with or without an origin. -/
def Reachable (check : RibEvent → Limits → Result Unit) (s : AdjRibIn) : Prop :=
  ∃ owner limits start plans, AdjRibIn.new owner limits = .ok start ∧ Trace check start plans s

inductive NativeContinuityKind where
  | gap
  | reset (previousGeneration nextGeneration : ℕ)

inductive NativeContinuityEffect where
  | sessionGeneration | sessionAllGenerations | baseDirectionalGeneration

structure NativeContinuityRef where
  recordId : String
  scope : RibScope
  status : ApplyStatus
  kind : NativeContinuityKind
  effect : NativeContinuityEffect
  reason : String

def continuityAffectsScope (kind : NativeContinuityKind) (effect : NativeContinuityEffect)
    (boundary candidate : RibScope) : Bool :=
  match effect with
  | .sessionAllGenerations => sameSessionIdentity candidate boundary.source boundary.session
  | .sessionGeneration =>
    let generation := match kind with
      | .gap => boundary.generation
      | .reset previousGeneration _ => previousGeneration
    sameSessionIdentity candidate boundary.source boundary.session &&
      candidate.generation = generation
  | .baseDirectionalGeneration => sameBaseScope boundary candidate

def PreparedRibEvent.continuityEffect (plan : PreparedRibEvent) : Option NativeContinuityRef :=
  plan.event.bind fun event =>
    match plan.status with
    | .identityConflict =>
      if plan.stage.gaps = [] then none
      else some ⟨event.recordId, event.scope, plan.status, .gap, .sessionAllGenerations,
        "record_identity_conflict"⟩
    | .missingScope =>
      if plan.stage.gaps = [] then none
      else some ⟨event.recordId, event.scope, plan.status, .gap, .baseDirectionalGeneration,
        "peer_binding_mismatch"⟩
    | .applied =>
      match event.kind with
      | .gap reason =>
        if plan.stage.gaps = [] then none
        else some ⟨event.recordId, event.scope, plan.status, .gap, .sessionGeneration, reason⟩
      | .reset previousGeneration reason =>
        some ⟨event.recordId, event.scope, plan.status,
          .reset previousGeneration event.scope.generation, .sessionGeneration, reason⟩
      | _ => none
    | _ => none

end AdjRibIn

end PcapEvidence.Bgp
