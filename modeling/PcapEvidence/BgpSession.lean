import PcapEvidence.BgpRib
import PcapEvidence.HistoryTuple

/-!
# Offline observations of one BGP session

The observer keeps the journal of all events of a session and a view of the current generation. An
ordinary message is appended to both; everything else is applied to a copy that is measured and then
published. Layout sizes of the target are parameters. A chain of checked additions fails exactly when
its sum leaves the word, so charges are exact sums with one check. The supplemental work counters,
which nothing reads, are left out.
-/

namespace PcapEvidence.Bgp.Session

open FiniteMap History

inductive ProtocolResetKind where
  | notification | updateError
  deriving DecidableEq

structure Capability where
  code : U8
  valueSha256 : String
  deriving DecidableEq

structure OpenAdvertisement where
  capabilities : List Capability
  ambiguous : Bool
  deriving DecidableEq

inductive EventKind where
  | open (advertisement : OpenAdvertisement)
  | capturedOpen (advertisement : OpenAdvertisement) (messageSha256 : Digest)
  | keepalive
  | update
  | notification
  | protocolReset (nextGeneration : ℕ) (kind : ProtocolResetKind)
  | routeRefresh (family : Family) (subtype : Option U8)
  | endOfRib (family : Family)
  | stale (family : Family) (kind : StaleKind)
  | gap (reason : String)
  | reset (previousGeneration : ℕ) (reason : String)
  deriving DecidableEq

structure Event where
  session : SessionKey
  generation : ℕ
  direction : Option U8
  recordId : String
  kind : EventKind
  deriving DecidableEq

structure OpenAlternative where
  advertisement : OpenAdvertisement
  capturedMessageSha256 : Option Digest
  witnesses : List String

structure DirectionView where
  opens : List OpenAlternative
  keepalives : List String
  updates : List String
  notifications : List String
  refreshes : List (Family × Option U8 × String)
  eors : List (Family × String)
  stale : List (Family × StaleKind × String)

def DirectionView.default : DirectionView := ⟨[], [], [], [], [], [], []⟩

inductive CapabilityContext where
  | unresolved (reason : String)
  | bilateralCandidate (commonCodes : Finset U8)

structure Directions where
  left : DirectionView
  right : DirectionView

def Directions.modify (sides : Directions) (direction : U8) (f : DirectionView → DirectionView) :
    Directions :=
  if direction = 0 then { sides with left := f sides.left }
  else { sides with right := f sides.right }

structure SessionView where
  generation : ℕ
  directions : Directions
  context : CapabilityContext
  gaps : List String
  unscoped : List String
  unscopedOpen : Bool
  resets : List String
  closedByNotification : Bool
  identityConflict : Bool

inductive ApplyStatus where
  | applied | identicalReplay | historical | closed | identityConflict
  deriving DecidableEq

inductive OpenContinuityVerdict where
  | preserved
  | contradiction (session : SessionKey) (generation : ℕ)

/-- The sizes of the source's types on the target; no type fills more than half of the memory. -/
structure Layout where
  observer : ℕ
  observer_lt : observer < 2 ^ 63
  event : ℕ
  string : ℕ
  vec : ℕ
  usize : ℕ
  capability : ℕ
  alternative : ℕ
  refresh : ℕ
  eor : ℕ
  stale : ℕ

structure SessionObserver where
  /-- The identity of the observer that plans are prepared for. -/
  owner : ℕ
  key : SessionKey
  limits : Limits
  events : List Event
  recordIndex : FinMap String (List ℕ)
  bytes : ℕ
  workUnits : ℕ
  view : Option SessionView

inductive SessionPlan where
  | inert
  | append (event : Event) (projectionRecord indexRecord : String) (indices : List ℕ) (bytes : ℕ)
  | staged (next : SessionObserver)

def SessionPlan.isAppend : SessionPlan → Bool
  | .append .. => true
  | .inert | .staged _ => false

structure PreparedSessionEvent where
  owner : ℕ
  revision : ℕ
  status : ApplyStatus
  plan : SessionPlan
  admittedWork : ℕ

def isWhitespace (c : Char) : Bool :=
  (9 ≤ c.toNat && c.toNat ≤ 13) || c.toNat = 0x20 || c.toNat = 0x85 || c.toNat = 0xa0 ||
    c.toNat = 0x1680 || (0x2000 ≤ c.toNat && c.toNat ≤ 0x200a) || c.toNat = 0x2028 ||
    c.toNat = 0x2029 || c.toNat = 0x202f || c.toNat = 0x205f || c.toNat = 0x3000

def checkText (value : String) (limits : Limits) : Result Unit :=
  if value.toList.all isWhitespace ∨ value.utf8ByteSize > min limits.inputBytes 1024 ∨
      value.toList.any isControl then
    .error (Bgp.bad "bgp_session_identity" "nonempty bounded identity required")
  else .ok ()

def isLowerHex (c : Char) : Bool :=
  (('0' ≤ c && c ≤ '9') || ('a' ≤ c && c ≤ 'f'))

def checkSha256 (value : String) : Result Unit :=
  if value.utf8ByteSize ≠ 64 ∨ value.toList.all isLowerHex = false then
    .error (Bgp.bad "bgp_session_capability_hash"
      "expected 64 lowercase SHA-256 hexadecimal digits")
  else .ok ()

def checkFamily (family : Family) : Result Unit :=
  if family.afi = 0 ∨ family.safi = 0 then
    .error (Bgp.bad "bgp_session_family" "nonzero AFI and SAFI required")
  else .ok ()

def EventKind.advertisement : EventKind → Option OpenAdvertisement
  | .open advertisement => some advertisement
  | .capturedOpen advertisement _ => some advertisement
  | _ => none

def checkCapabilities (limits : Limits) (kind : EventKind) : Result Unit :=
  match kind.advertisement with
  | some advertisement =>
    if advertisement.capabilities.length > limits.elements then
      .error (Error.limit "bgp_session_capabilities")
    else advertisement.capabilities.forM fun cap => checkSha256 cap.valueSha256
  | none => .ok ()

def checkReason (limits : Limits) : EventKind → Result Unit
  | .gap reason | .reset _ reason => checkText reason limits
  | _ => .ok ()

def checkProtocolReset (event : Event) : Result Unit :=
  match event.kind with
  | .protocolReset nextGeneration _ =>
    if checkedAdd event.generation 1 ≠ some nextGeneration then
      .error (Bgp.bad "bgp_session_protocol_reset"
        "protocol reset must name the exact next generation")
    else .ok ()
  | _ => .ok ()

def checkKindFamily : EventKind → Result Unit
  | .routeRefresh family _ | .endOfRib family | .stale family _ => checkFamily family
  | _ => .ok ()

section Sizes

variable (m : Layout)

def addSize (a b : ℕ) : Result ℕ :=
  if a + b < wordBound then .ok (a + b) else .error (Error.limit "bgp_session_budget")

def textStorage (text : String) : ℕ := m.string + text.utf8ByteSize

def newRecordIndexSize (record : String) : ℕ := textStorage m record + m.vec + m.usize

def advertisementDynamicSize (advertisement : OpenAdvertisement) : ℕ :=
  (advertisement.capabilities.map fun cap => m.capability + cap.valueSha256.utf8ByteSize).sum

def eventSize (event : Event) : ℕ :=
  m.event + event.session.source.sourceId.utf8ByteSize +
    event.session.source.partitionId.utf8ByteSize + event.session.session.utf8ByteSize +
    event.recordId.utf8ByteSize +
    match event.kind with
    | .open advertisement | .capturedOpen advertisement _ => advertisementDynamicSize m advertisement
    | .gap reason | .reset _ reason => reason.utf8ByteSize
    | _ => 0

def textsSize (texts : List String) : ℕ := (texts.map (textStorage m)).sum

def alternativeSize (o : OpenAlternative) : ℕ :=
  m.alternative + advertisementDynamicSize m o.advertisement + textsSize m o.witnesses

def sideSize (side : DirectionView) : ℕ :=
  (side.opens.map (alternativeSize m)).sum + textsSize m side.keepalives +
    textsSize m side.updates + textsSize m side.notifications +
    (side.refreshes.map fun r => m.refresh + r.2.2.utf8ByteSize).sum +
    (side.eors.map fun e => m.eor + e.2.utf8ByteSize).sum +
    (side.stale.map fun s => m.stale + s.2.2.utf8ByteSize).sum

def contextSize : CapabilityContext → ℕ
  | .bilateralCandidate commonCodes => commonCodes.card
  | .unresolved _ => 0

def viewDynamicSize (view : SessionView) : ℕ :=
  textsSize m view.gaps + textsSize m view.unscoped + textsSize m view.resets +
    contextSize view.context + sideSize m view.directions.left + sideSize m view.directions.right

end Sizes

def emptyView (generation : ℕ) : SessionView where
  generation := generation
  directions := ⟨.default, .default⟩
  context := .unresolved "bilateral_open_missing"
  gaps := []
  unscoped := []
  unscopedOpen := false
  resets := []
  closedByNotification := false
  identityConflict := false

def codes (advertisement : OpenAdvertisement) : Finset U8 :=
  (advertisement.capabilities.map (·.code)).toFinset

def singular (o : OpenAlternative) : Bool :=
  o.witnesses.length = 1 || o.capturedMessageSha256.isSome

def context (view : SessionView) : CapabilityContext :=
  if view.identityConflict then .unresolved "record_identity_conflict"
  else if view.gaps ≠ [] then .unresolved "explicit_gap"
  else if view.unscopedOpen then .unresolved "unscoped_open_alternative"
  else if view.closedByNotification then .unresolved "notification_observed"
  else match view.directions.left.opens, view.directions.right.opens with
    | [left], [right] =>
      if !singular left || !singular right then .unresolved "bilateral_unique_open_missing"
      else if left.advertisement.ambiguous || right.advertisement.ambiguous then
        .unresolved "open_capability_ambiguous"
      else .bilateralCandidate (codes left.advertisement ∩ codes right.advertisement)
    | _, _ => .unresolved "bilateral_unique_open_missing"

namespace SessionView

def restart (view : SessionView) (generation : ℕ) (record : String) : SessionView :=
  { emptyView generation with resets := view.resets ++ [record] }

def applyUnscoped (view : SessionView) (event : Event) : SessionView :=
  let view := { view with unscoped := view.unscoped ++ [event.recordId] }
  match event.kind with
  | .open _ | .capturedOpen _ _ =>
    { view with unscopedOpen := true, context := .unresolved "unscoped_open_alternative" }
  | .notification =>
    { view with closedByNotification := true, context := .unresolved "notification_observed" }
  | _ => view

def addOpen (record : String) (advertisement : OpenAdvertisement) (digest : Option Digest) :
    List OpenAlternative → List OpenAlternative
  | [] => [⟨advertisement, digest, [record]⟩]
  | o :: rest =>
    if o.advertisement = advertisement ∧ o.capturedMessageSha256 = digest then
      { o with witnesses := o.witnesses ++ [record] } :: rest
    else o :: addOpen record advertisement digest rest

def applySide (record : String) (kind : EventKind) (side : DirectionView) : DirectionView :=
  match kind with
  | .open advertisement => { side with opens := addOpen record advertisement none side.opens }
  | .capturedOpen advertisement digest =>
    { side with opens := addOpen record advertisement (some digest) side.opens }
  | .keepalive => { side with keepalives := side.keepalives ++ [record] }
  | .update => { side with updates := side.updates ++ [record] }
  | .notification => { side with notifications := side.notifications ++ [record] }
  | .routeRefresh family subtype =>
    { side with refreshes := side.refreshes ++ [(family, subtype, record)] }
  | .endOfRib family =>
    { side with
      eors := side.eors ++ [(family, record)]
      stale := side.stale.filter fun s => s.1 ≠ family }
  | .stale family kind => { side with stale := side.stale ++ [(family, kind, record)] }
  -- taken before the direction is looked at
  | .protocolReset _ _ | .gap _ | .reset _ _ => side

def applyDirected (view : SessionView) (event : Event) (direction : U8) : SessionView :=
  let view := { view with
    directions := view.directions.modify direction (applySide event.recordId event.kind)
    closedByNotification :=
      view.closedByNotification || decide (event.kind = EventKind.notification) }
  { view with context := Session.context view }

def applyCurrent (view : SessionView) (event : Event) : ApplyStatus × SessionView :=
  if view.closedByNotification then (.closed, view)
  else match event.kind with
    | .gap _ => (.applied, { view with
        gaps := view.gaps ++ [event.recordId], context := .unresolved "explicit_gap" })
    | _ => match event.direction with
      | none => (.applied, view.applyUnscoped event)
      | some direction => (.applied, view.applyDirected event direction)

/-- The events of a session without a conflict; a reset first notes a notification in the view. -/
def applyClean (kind : PartitionKind) (view : SessionView) (event : Event) :
    Result (ApplyStatus × SessionView) :=
  match event.kind with
  | .reset previousGeneration _ =>
    if event.direction.isSome ∨ previousGeneration ≠ view.generation ∨
        event.generation ≤ view.generation ∨
        (kind = .imported ∧ checkedAdd view.generation 1 ≠ some event.generation) then
      .error (Bgp.bad "bgp_session_reset" "explicit advancing reset required")
    else .ok (.applied, view.restart event.generation event.recordId)
  | .protocolReset nextGeneration _ =>
    if event.generation ≠ view.generation then
      if event.generation < view.generation then .ok (.historical, view)
      else .error (Bgp.bad "bgp_session_generation"
        "protocol reset skipped an observed generation")
    else .ok (.applied, view.restart nextGeneration event.recordId)
  | _ =>
    if event.generation < view.generation then .ok (.historical, view)
    else if event.generation > view.generation then
      .error (Bgp.bad "bgp_session_generation" "new generation needs reset")
    else .ok (view.applyCurrent event)

end SessionView

namespace SessionObserver

def initial (m : Layout) (owner : ℕ) (key : SessionKey) (limits : Limits) : SessionObserver where
  owner := owner
  key := key
  limits := limits
  events := []
  recordIndex := .empty
  bytes := m.observer + key.source.sourceId.utf8ByteSize + key.source.partitionId.utf8ByteSize +
    key.session.utf8ByteSize
  workUnits := 0
  view := none

def new (m : Layout) (owner : ℕ) (key : SessionKey) (limits : Limits) : Result SessionObserver := do
  limits.validate
  checkText key.source.sourceId limits
  checkText key.source.partitionId limits
  checkText key.session limits
  .ok (initial m owner key limits)

def openContinuity (s : SessionObserver) (event : Event) : OpenContinuityVerdict :=
  match event.kind, s.view with
  | .capturedOpen _ digest, some view =>
    if s.key.source.kind ≠ .captured ∨ event.session ≠ s.key ∨
        event.generation ≠ view.generation ∨ event.direction = none ∨ view.identityConflict ∨
        view.closedByNotification then .preserved
    else
      let previous := s.events.filterMap fun old =>
        if old.generation = event.generation ∧ old.direction = event.direction then
          match old.kind with
          | .capturedOpen _ previous => some previous
          | _ => none
        else none
      if digest ∈ previous then .preserved
      else if previous = [] then .preserved
      else .contradiction s.key event.generation
  | _, _ => .preserved

def checkBudget (s : SessionObserver) (bytes work : ℕ) : Result Unit :=
  if bytes > s.limits.retainedBytes ∨ bytes > s.limits.outputBytes ∨ work > s.limits.work then
    .error (Error.limit "bgp_session_budget")
  else .ok ()

def size (m : Layout) (s : SessionObserver) : ℕ :=
  m.observer + s.key.source.sourceId.utf8ByteSize + s.key.source.partitionId.utf8ByteSize +
    s.key.session.utf8ByteSize + (s.events.map (eventSize m)).sum +
    (s.recordIndex.total fun record indices =>
      newRecordIndexSize m record + (indices.length - 1) * m.usize) +
    s.view.elim 0 (viewDynamicSize m)

def measureSize (m : Layout) (s : SessionObserver) : Result ℕ := addSize (s.size m) 0

def applyInner (s : SessionObserver) (event : Event) (conflict : Bool) :
    Result (ApplyStatus × SessionObserver) :=
  match s.view, event.kind with
  | none, .reset _ _ => .error (Bgp.bad "bgp_session_reset" "reset needs observed predecessor")
  | _, _ =>
    let view := s.view.getD (emptyView event.generation)
    if conflict then .ok (.identityConflict, { s with view := some { view with
      identityConflict := true, context := .unresolved "record_identity_conflict" } })
    else if view.identityConflict then .ok (.identityConflict, { s with view := some view })
    else do
      let (status, view) ← view.applyClean s.key.source.kind event
      .ok (status, { s with view := some view })

def pushEvent (s : SessionObserver) (event : Event) : SessionObserver :=
  { s with
    recordIndex := s.recordIndex.insert event.recordId
      ((s.recordIndex.get event.recordId).getD [] ++ [s.events.length])
    events := s.events ++ [event] }

def stage (m : Layout) (s : SessionObserver) (event : Event) (conflict : Bool) :
    Result (ApplyStatus × SessionObserver) := do
  let (status, next) ← s.applyInner event conflict
  let next := next.pushEvent event
  let bytes ← next.measureSize m
  .ok (status, { next with bytes := bytes })

def checkEvent (s : SessionObserver) (event : Event) : Result Unit :=
  if event.session ≠ s.key then
    .error (Bgp.bad "bgp_session_scope" "session identity changed")
  else do
    checkText event.recordId s.limits
    if event.direction.any (· > 1) then
      .error (Bgp.bad "bgp_session_direction" "direction must be zero or one")
    else do
      checkCapabilities s.limits event.kind
      checkReason s.limits event.kind
      checkProtocolReset event
      checkKindFamily event.kind

def replays (s : SessionObserver) (event : Event) : Bool :=
  (s.recordIndex.get event.recordId).any fun indices =>
    indices.any fun i => s.events[i]? = some event

def ordinary (s : SessionObserver) (event : Event) : Bool :=
  (s.recordIndex.get event.recordId).isNone && event.direction.isSome &&
    (event.kind = EventKind.update || event.kind = EventKind.keepalive) &&
    s.view.any fun view => view.generation = event.generation && !view.identityConflict &&
      !view.closedByNotification

def prepareAppend (m : Layout) (s : SessionObserver) (event : Event) :
    Result PreparedSessionEvent := do
  let bytes ← addSize s.bytes (eventSize m event)
  let bytes ← addSize bytes (newRecordIndexSize m event.recordId)
  let bytes ← addSize bytes (textStorage m event.recordId)
  let units ← addSize (bytes - s.bytes) (bytes - s.bytes)
  let admittedWork ← addSize s.workUnits units
  s.checkBudget bytes admittedWork
  .ok ⟨s.owner, s.events.length, .applied,
    .append event event.recordId event.recordId [s.events.length] bytes, admittedWork⟩

def prepareStaged (m : Layout) (s : SessionObserver) (event : Event) (conflict : Bool) :
    Result PreparedSessionEvent := do
  let copyWork ← addSize s.workUnits s.bytes
  s.checkBudget s.bytes copyWork
  let (status, next) ← s.stage m event conflict
  let admittedWork ← addSize copyWork next.bytes
  next.checkBudget next.bytes admittedWork
  .ok ⟨s.owner, s.events.length, status, .staged next, admittedWork⟩

def prepare (m : Layout) (s : SessionObserver) (event : Event) : Result PreparedSessionEvent := do
  s.checkEvent event
  if s.replays event then
    .ok ⟨s.owner, s.events.length, .identicalReplay, .inert, s.workUnits⟩
  else if s.events.length ≥ s.limits.elements then .error (Error.limit "bgp_session_events")
  else if s.ordinary event then s.prepareAppend m event
  else s.prepareStaged m event (s.recordIndex.get event.recordId).isSome

def preparedCurrent (s : SessionObserver) (prepared : PreparedSessionEvent) : Bool :=
  s.owner = prepared.owner && s.events.length = prepared.revision

def admitPrepared (s : SessionObserver) (prepared : PreparedSessionEvent) : Result Unit :=
  if !s.preparedCurrent prepared then
    .error (Bgp.bad "bgp_session_revision" "prepared session revision changed")
  else .ok ()

def witness (event : Event) (record : String) (view : SessionView) : SessionView :=
  { view with directions := view.directions.modify (event.direction.getD 0) fun side =>
      if event.kind = .update then { side with updates := side.updates ++ [record] }
      else { side with keepalives := side.keepalives ++ [record] } }

def commit (s : SessionObserver) (prepared : PreparedSessionEvent) : SessionObserver :=
  let s := match prepared.plan with
    | .inert => s
    | .staged next => next
    | .append event projectionRecord indexRecord indices bytes => { s with
        view := s.view.map (witness event projectionRecord)
        recordIndex := s.recordIndex.insert indexRecord indices
        events := s.events ++ [event]
        bytes := bytes }
  { s with workUnits := prepared.admittedWork }

def apply (m : Layout) (s : SessionObserver) (event : Event) :
    Result (ApplyStatus × SessionObserver) := do
  let prepared ← s.prepare m event
  s.admitPrepared prepared
  .ok (prepared.status, s.commit prepared)

/-- A state of an observer after any events that were admitted. -/
inductive Reachable (m : Layout) : SessionObserver → Prop
  | new {owner : ℕ} {key : SessionKey} {limits : Limits} {s : SessionObserver}
      (h : new m owner key limits = .ok s) : Reachable m s
  | apply {s t : SessionObserver} {event : Event} {status : ApplyStatus} (before : Reachable m s)
      (h : s.apply m event = .ok (status, t)) : Reachable m t

end SessionObserver
end PcapEvidence.Bgp.Session
