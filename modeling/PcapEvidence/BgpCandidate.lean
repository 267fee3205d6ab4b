import PcapEvidence.BgpRib

/-!
# Candidate routes of a journal

A journal of observations is reduced to session views, candidate routes and one receipt for each row.
The maps are compared and counted but never read in key order; only the groups of one row are. All
charges of a row after its first fail with one error, so they are summed.
-/

namespace PcapEvidence.Candidate

open FiniteMap History Bgp

inductive SourceKind where
  | captured | imported
  deriving DecidableEq

inductive ObservationKind where
  | routes | openMessage | notification | keepalive | routeRefresh | reset
  deriving DecidableEq

inductive RouteAction where
  | announce | withdraw
  deriving DecidableEq

inductive RoutePathId where
  | absent
  | present (id : U32)
  deriving DecidableEq

structure SourceBatch where
  batchId : Option String
  sha256 : Option String
  byteLength : Option U64
  deriving DecidableEq

structure ImportPartition where
  sourceSchema : String
  sourceVersion : Option String
  batch : SourceBatch
  checkpointId : String
  peer : Option String
  localEnd : Option String
  deriving DecidableEq

/-- Where a record was found: the packets and spans of a captured record, or the partition of an
imported one in its canonical text. -/
inductive Locator where
  | blank
  | captured (text : String)
  | partition (partition : ImportPartition)
  deriving DecidableEq

def Locator.partition? : Locator → Option ImportPartition
  | .partition p => some p
  | _ => none

structure Source where
  kind : SourceKind
  sourceId : String
  recordId : String
  session : Option String
  generation : Option ℕ
  direction : Option U8
  deriving DecidableEq

structure RouteObservation where
  route : PrefixIdentity
  pathId : RoutePathId
  action : RouteAction
  attributes : Json
  attributeIdentity : Json
  ambiguousAttributes : Bool
  deriving DecidableEq

structure Observation where
  source : Source
  kind : ObservationKind
  routes : List RouteObservation
  encoded : String
  locator : Locator
  deriving DecidableEq

structure SessionKey where
  kind : SourceKind
  sourceId : String
  session : String
  partition : Option ImportPartition
  deriving DecidableEq

structure Identity where
  kind : SourceKind
  sourceId : String
  session : Option String
  recordId : String
  locator : Locator
  deriving DecidableEq

structure RouteKey where
  session : SessionKey
  direction : U8
  route : PrefixIdentity
  pathId : RoutePathId
  deriving DecidableEq

namespace Observation

def importPartition (o : Observation) : Option ImportPartition := o.locator.partition?

def sessionKey (o : Observation) : Option SessionKey :=
  o.source.session.map fun s => ⟨o.source.kind, o.source.sourceId, s, o.importPartition⟩

def identity (o : Observation) : Identity where
  kind := o.source.kind
  sourceId := o.source.sourceId
  session := o.source.session
  recordId := o.source.recordId
  locator := o.locator

theorem sessionKey_of_identity {o o' : Observation} (h : o.identity = o'.identity) :
    o.sessionKey = o'.sessionKey := by
  simp only [identity, Identity.mk.injEq] at h
  obtain ⟨hkind, hsource, hsession, -, hlocator⟩ := h
  simp only [sessionKey, importPartition, hkind, hsource, hsession, hlocator]

end Observation

inductive ApplyStatus where
  | applied
  | identicalReplay
  | missingScope
  | lateGeneration
  | closedGeneration
  | identityConflict
  | reset
  | nonAdvancingReset
  | notification
  | metadataOnly

inductive EffectKind where
  | announced
  | repeatedAnnouncement
  | conflictingAnnouncement
  | withdrawn
  | absentWithdrawal
  | mixedActions
  | unsupportedPrefix

structure RouteEffect where
  route : PrefixIdentity
  pathId : RoutePathId
  kind : EffectKind
  routes : List ℕ

structure ApplyOutcome where
  observation : ℕ
  status : ApplyStatus
  effects : List RouteEffect

structure RouteRef where
  observation : ℕ
  route : ℕ

structure Alternative where
  action : RouteAction
  attributes : Json
  attributeIdentity : Json
  ambiguousAttributes : Bool
  witnesses : List RouteRef

structure CandidateRoute where
  sourceKind : SourceKind
  sourceId : String
  session : String
  generation : ℕ
  direction : U8
  route : PrefixIdentity
  pathId : RoutePathId
  alternatives : List Alternative
  importPartition : Option ImportPartition

def CandidateRoute.conflicting (c : CandidateRoute) : Bool :=
  c.alternatives.length != 1 ||
    c.alternatives.any fun a => a.ambiguousAttributes || a.action = .withdraw

structure SessionView where
  sourceKind : SourceKind
  sourceId : String
  session : String
  generation : ℕ
  closed : Bool
  identityConflict : Bool
  generationWitness : ℕ
  importPartition : Option ImportPartition
  deriving DecidableEq

def sessionView (o : Observation) (generation index : ℕ) : SessionView where
  sourceKind := o.source.kind
  sourceId := o.source.sourceId
  session := o.source.session.getD ""
  generation := generation
  closed := false
  identityConflict := false
  generationWitness := index
  importPartition := o.importPartition

structure View where
  sessions : FinMap SessionKey SessionView
  routes : FinMap RouteKey CandidateRoute
  outcomes : List ApplyOutcome

def View.initial : View := ⟨.empty, .empty, []⟩

structure Work where
  used : ℕ
  limit : ℕ

def Work.charge (w : Work) (n : ℕ) : Result Work :=
  if w.used + n > w.limit then .error (Error.limit "bgp_state_work") else .ok ⟨w.used + n, w.limit⟩

structure Conflicts where
  identities : FinMap Identity ℕ
  tainted : Finset SessionKey
  rows : Finset ℕ

def Conflicts.initial : Conflicts := ⟨.empty, ∅, ∅⟩

def Conflicts.add (c : Conflicts) (x : Observation × ℕ) : Conflicts :=
  match c.identities.get x.1.identity with
  | none => { c with identities := c.identities.insert x.1.identity x.2 }
  | some previous => {
      identities := c.identities.insert x.1.identity x.2
      tainted := x.1.sessionKey.elim c.tainted (insert · c.tainted)
      rows := insert previous (insert x.2 c.rows) }

def scan (observations : List Observation) (w : Work) : Result (Conflicts × Work) :=
  observations.zipIdx.foldlM (fun s x => do
    let w ← s.2.charge x.1.encoded.utf8ByteSize
    return (s.1.add x, w)) (.initial, w)

def Alternative.sameContent (a : Alternative) (r : RouteObservation) : Bool :=
  a.action = r.action && a.attributes = r.attributes && a.attributeIdentity = r.attributeIdentity

def addWitness (r : RouteObservation) (witness : RouteRef) : List Alternative → List Alternative
  | [] => [⟨r.action, r.attributes, r.attributeIdentity, r.ambiguousAttributes, [witness]⟩]
  | a :: rest =>
    if a.sameContent r then { a with witnesses := a.witnesses ++ [witness] } :: rest
    else a :: addWitness r witness rest

def comparisons (r : RouteObservation) : List Alternative → ℕ
  | [] => 0
  | a :: rest => if a.sameContent r then 1 else comparisons r rest + 1

abbrev GroupKey := PrefixIdentity × RoutePathId

def RouteObservation.groupKey (r : RouteObservation) : GroupKey := (r.route, r.pathId)

def RoutePathId.rank : RoutePathId → ℕ
  | .absent => 0
  | .present id => id.toNat + 1

def sortKey (k : GroupKey) : ℕ ×ₗ ℕ ×ₗ ℕ ×ₗ String ×ₗ ℕ :=
  toLex (k.1.afi.toNat, toLex (k.1.safi.toNat, toLex (k.1.length.toNat, toLex (k.1.address,
    k.2.rank))))

def groupKeys (o : Observation) : List GroupKey :=
  (o.routes.map RouteObservation.groupKey).dedup.mergeSort fun a b => decide (sortKey a ≤ sortKey b)

def members (o : Observation) (k : GroupKey) : List (RouteObservation × ℕ) :=
  o.routes.zipIdx.filter fun x => x.1.groupKey = k

def announces (o : Observation) (k : GroupKey) : Bool :=
  (members o k).any fun x => x.1.action = .announce

def withdraws (o : Observation) (k : GroupKey) : Bool :=
  (members o k).any fun x => x.1.action = .withdraw

def newCandidate (key : RouteKey) (generation : ℕ) : CandidateRoute where
  sourceKind := key.session.kind
  sourceId := key.session.sourceId
  session := key.session.session
  generation := generation
  direction := key.direction
  route := key.route
  pathId := key.pathId
  alternatives := []
  importPartition := key.session.partition

def addMembers (index : ℕ) (l : List (RouteObservation × ℕ)) (alternatives : List Alternative) :
    List Alternative × ℕ :=
  l.foldl (fun s x => (addWitness x.1 ⟨index, x.2⟩ s.1, s.2 + comparisons x.1 s.1)) (alternatives, 0)

def applyGroup (o : Observation) (index : ℕ) (key : RouteKey) (generation : ℕ)
    (routes : FinMap RouteKey CandidateRoute) : FinMap RouteKey CandidateRoute × EffectKind × ℕ :=
  let group := members o (key.route, key.pathId)
  if !supported key.route then (routes, .unsupportedPrefix, group.length)
  else if !announces o (key.route, key.pathId) then
    (routes.retain (· ≠ key),
      if (routes.get key).isSome then .withdrawn else .absentWithdrawal, group.length)
  else
    let entry := (routes.get key).getD (newCandidate key generation)
    let added := addMembers index group entry.alternatives
    let entry' := { entry with alternatives := added.1 }
    (routes.insert key entry',
      if withdraws o (key.route, key.pathId) then .mixedActions
      else if entry'.conflicting then .conflictingAnnouncement
      else if entry.alternatives ≠ [] ∨ group.length > 1 then .repeatedAnnouncement
      else .announced,
      group.length + added.2 * o.encoded.utf8ByteSize)

structure Applied where
  routes : FinMap RouteKey CandidateRoute
  effects : List RouteEffect
  cost : ℕ

def applyGroups (o : Observation) (index : ℕ) (session : SessionKey) (direction : U8)
    (generation : ℕ) (routes : FinMap RouteKey CandidateRoute) : Applied :=
  (groupKeys o).foldl (fun s k =>
    let result := applyGroup o index ⟨session, direction, k.1, k.2⟩ generation s.routes
    ⟨result.1, s.effects ++ [⟨k.1, k.2, result.2.1, (members o k).map Prod.snd⟩],
      s.cost + result.2.2⟩) ⟨routes, [], 0⟩

namespace View

def push (v : View) (index : ℕ) (status : ApplyStatus) (effects : List RouteEffect) : View :=
  { v with outcomes := v.outcomes ++ [⟨index, status, effects⟩] }

def quarantine (v : View) (key : SessionKey) (generation : ℕ) (x : Observation × ℕ) : View :=
  let session := (v.sessions.get key).getD (sessionView x.1 generation x.2)
  { v with sessions := v.sessions.insert key { session with identityConflict := true } }

def advances (v : View) (key : SessionKey) (generation : ℕ) : Bool :=
  (v.sessions.get key).all (·.generation < generation)

def dropRoutes (v : View) (key : SessionKey) : View :=
  { v with routes := v.routes.retain (·.session ≠ key) }

def advance (v : View) (key : SessionKey) (generation : ℕ) (x : Observation × ℕ) : View :=
  if v.advances key generation then
    { v.dropRoutes key with sessions := v.sessions.insert key (sessionView x.1 generation x.2) }
  else v

def close (v : View) (key : SessionKey) (session : SessionView) : View :=
  { v.dropRoutes key with sessions := v.sessions.insert key { session with closed := true } }

def take (v : View) (key : SessionKey) (session : SessionView) (generation : ℕ)
    (x : Observation × ℕ) : View × ℕ :=
  if session.closed then (v.push x.2 .closedGeneration [], 0)
  else match x.1.kind with
    | .notification =>
      ((v.close key session).push x.2 .notification [], v.routes.keys.card)
    | .reset => (v.push x.2 .reset [], 0)
    | .routes =>
      let result := applyGroups x.1 x.2 key (x.1.source.direction.getD 0) generation v.routes
      ({ v with routes := result.routes }.push x.2 .applied result.effects, result.cost)
    | _ => (v.push x.2 .metadataOnly [], 0)

def scopedRow (v : View) (c : Conflicts) (key : SessionKey) (generation : ℕ)
    (x : Observation × ℕ) : View × ℕ :=
  if key ∈ c.tainted then ((v.quarantine key generation x).push x.2 .identityConflict [], 0)
  else if x.1.kind = .routes ∧ x.1.source.direction = none then (v.push x.2 .missingScope [], 0)
  else if (v.sessions.get key).any (generation < ·.generation) then
    (v.push x.2 .lateGeneration [], 0)
  else if x.1.kind = .reset ∧ (v.sessions.get key).any (generation ≤ ·.generation) then
    (v.push x.2 .nonAdvancingReset [], 0)
  else
    let advanced := v.advance key generation x
    let result := advanced.take key
      ((advanced.sessions.get key).getD (sessionView x.1 generation x.2)) generation x
    (result.1, (if v.advances key generation then v.routes.keys.card else 0) + result.2)

def unscopedRow (v : View) (c : Conflicts) (x : Observation × ℕ) : View :=
  v.push x.2 (if x.2 ∈ c.rows then .identityConflict else .missingScope) []

end View

def reduceRow (limits : Bgp.Limits) (c : Conflicts) (s : View × Work) (x : Observation × ℕ) :
    Result (View × Work) := do
  let w ← s.2.charge 1
  match x.1.sessionKey, x.1.source.generation with
  | some key, some generation =>
    if key ∉ s.1.sessions.keys ∧ s.1.sessions.keys.card ≥ limits.active then
      .error (Error.limit "bgp_state_sessions")
    else
      let w ← w.charge (s.1.scopedRow c key generation x).2
      return ((s.1.scopedRow c key generation x).1, w)
  | _, _ => return (s.1.unscopedRow c x, w)

def reduce (observations : List Observation) (limits : Bgp.Limits) (w : Work) :
    Result (View × Work) := do
  let (c, w) ← scan observations w
  observations.zipIdx.foldlM (reduceRow limits c) (.initial, w)

end PcapEvidence.Candidate
