import PcapEvidence.Wire
import PcapEvidence.OrderedMap

/-!
# Bounded IP fragment reconstruction

A reassembler holds one assembly for each fragment key, an ordered set of expiry deadlines and the
number of retained payload bytes. `push` admits a fragment against every budget before it touches
the state, then updates the assembly, and joins the parts once they cover the datagram.
-/

namespace PcapEvidence

open SortedVec OrderedMap

namespace Fragment

structure Key where
  scope : Scope
  source : IpAddr
  destination : IpAddr
  protocol : U8
  id : U32
  ipv6 : Bool

namespace Key

def orderKey (k : Key) : Scope ×ₗ IpAddr ×ₗ IpAddr ×ₗ ℕ ×ₗ ℕ ×ₗ Bool :=
  toLex (k.scope, toLex (k.source, toLex (k.destination,
    toLex (k.protocol.toNat, toLex (k.id.toNat, k.ipv6)))))

theorem orderKey_injective : Function.Injective orderKey := by
  rintro ⟨s, a, b, p, i, v⟩ ⟨s', a', b', p', i', v'⟩ h
  simp only [orderKey, EmbeddingLike.apply_eq_iff_eq, Prod.mk.injEq] at h
  obtain ⟨rfl, rfl, rfl, hp, hi, rfl⟩ := h
  rw [BitVec.toNat_injective hp, BitVec.toNat_injective hi]

instance : LinearOrder Key := LinearOrder.lift' orderKey orderKey_injective

end Key

structure Part where
  start : ℕ
  more : Bool
  bytes : EvidenceBytes
  deriving DecidableEq

def Part.stop (p : Part) : ℕ := p.start + p.bytes.len

structure Assembly where
  template : Datagram
  parts : List Part
  stop : Option ℕ
  firstFrame : ℕ
  packets : List PacketId
  poisoned : Bool

end Fragment

structure FragmentNotice where
  code : String
  packets : List PacketId

inductive FragmentOutcome where
  | pending
  | complete (datagram : Datagram) (packets : List PacketId)
  | rejected (notice : FragmentNotice)

structure FragmentReassembler where
  sets : OrdMap Fragment.Key Fragment.Assembly
  deadlines : OrdSet (ℕ ×ₗ Fragment.Key)
  retained : ℕ
  limits : Limits

namespace FragmentReassembler

open Fragment

def new (limits : Limits) : FragmentReassembler := ⟨.empty, .empty, 0, limits⟩

/-- The frame after which a set created at `frame` expires, if it is representable. -/
def deadline (limits : Limits) (frame : ℕ) : Option ℕ :=
  (checkedAdd frame limits.fragmentFrameLifetime).bind (checkedAdd · 1)

def addDeadline (r : FragmentReassembler) (key : Key) (frame : ℕ) : OrdSet (ℕ ×ₗ Key) :=
  match deadline r.limits frame with
  | some d => r.deadlines.insert (toLex (d, key)) ()
  | none => r.deadlines

def eraseDeadline (r : FragmentReassembler) (key : Key) (frame : ℕ) : OrdSet (ℕ ×ₗ Key) :=
  match deadline r.limits frame with
  | some d => r.deadlines.erase (toLex (d, key))
  | none => r.deadlines

def partBytes (a : Assembly) : ℕ := (a.parts.map (fun p => p.bytes.len)).sum

def remove (r : FragmentReassembler) (key : Key) : Option Assembly × FragmentReassembler :=
  match r.sets.get? key with
  | none => (none, r)
  | some a => (some a, { r with
      sets := r.sets.erase key
      deadlines := r.eraseDeadline key a.firstFrame
      retained := r.retained - partBytes a })

def expireLoop (frame : ℕ) : ℕ → FragmentReassembler → List FragmentNotice × FragmentReassembler
  | 0, r => ([], r)
  | fuel + 1, r =>
    match r.deadlines.first? with
    | none => ([], r)
    | some (entry, ()) =>
      if (ofLex entry).1 ≤ frame then
        let popped := { r with deadlines := r.deadlines.erase entry }
        match popped.remove (ofLex entry).2 with
        | (none, next) => expireLoop frame fuel next
        | (some a, next) =>
          let (notices, last) := expireLoop frame fuel next
          (⟨"fragment_expired", a.packets⟩ :: notices, last)
      else ([], r)

def expire (r : FragmentReassembler) (frame : ℕ) : List FragmentNotice × FragmentReassembler :=
  expireLoop frame r.deadlines.size r

def keyOf (datagram : Datagram) (info : FragmentInfo) : Key where
  scope := datagram.scope
  source := datagram.source
  destination := datagram.destination
  protocol := if datagram.ipv6 then 0 else datagram.protocol
  id := info.id
  ipv6 := datagram.ipv6

def openAssembly (datagram : Datagram) (frame : ℕ) : Assembly where
  template := { datagram with payload := .empty }
  parts := []
  stop := none
  firstFrame := frame
  packets := []
  poisoned := false

def openSet (r : FragmentReassembler) (key : Key) (datagram : Datagram) (frame : ℕ) :
    FragmentReassembler := { r with
  sets := r.sets.insert key (openAssembly datagram frame)
  deadlines := r.addDeadline key frame }

def updateTemplate (template datagram : Datagram) (info : FragmentInfo) : Datagram :=
  let t := if datagram.ipChecksum = .invalid then { template with ipChecksum := .invalid }
    else template
  let t := if datagram.checksumContext = .unsupported then
      { t with checksumContext := .unsupported }
    else t
  if info.offset = 0 then
    { t with protocol := datagram.protocol, networkHeaderLen := datagram.networkHeaderLen }
  else t

def outside (total stop : ℕ) (more : Bool) : Bool := stop > total || (more && stop ≥ total)

/-- Two parts differ somewhere on their common range. -/
def disagree (previous new : Part) : Bool :=
  let a := max previous.start new.start
  let b := min previous.stop new.stop
  (previous.bytes.data.take (b - previous.start)).drop (a - previous.start) ≠
    (new.bytes.data.take (b - new.start)).drop (a - new.start)

def overlapRejection (ipv6 : Bool) (new : Part) (found : Option String) : List Part → Option String
  | [] => found
  | previous :: rest =>
    let found :=
      if max previous.start new.start < min previous.stop new.stop then
        if ipv6 then some "ipv6_overlapping_fragments"
        else if disagree previous new then some "conflicting_fragment_bytes"
        else found
      else found
    overlapRejection ipv6 new found rest

/-- The three checks against the stored set, in the order in which they overwrite each other. -/
def rejection (key : Key) (set : Assembly) (new : Part) : Option String :=
  let conflict := if !new.more && set.stop.any (· ≠ new.stop) then
      some "conflicting_fragment_terminal_length"
    else none
  let total := if new.more then set.stop else some new.stop
  let conflict := if total.any (fun t => outside t new.stop new.more ||
        set.parts.any (fun p => outside t p.stop p.more)) then
      some "fragment_outside_terminal_length"
    else conflict
  overlapRejection key.ipv6 new conflict set.parts

def coverCursor : ℕ → List Part → ℕ
  | cursor, [] => cursor
  | cursor, p :: rest =>
    if p.start > cursor then cursor else coverCursor (max cursor p.stop) rest

def overhead (key : Key) (template : Datagram) : ℕ :=
  if key.ipv6 then template.networkHeaderLen - 48 else template.networkHeaderLen

def join : EvidenceBytes → List Part → Result EvidenceBytes
  | joined, [] => .ok joined
  | joined, part :: rest =>
    let skip := min (joined.len - part.start) part.bytes.len
    if skip < part.bytes.len then
      match part.bytes.slice skip part.bytes.len with
      | .error e => .error e
      | .ok piece =>
        match joined.append piece 65535 with
        | (.error e, _) => .error e
        | (.ok (), joined) => join joined rest
    else join joined rest

def store (r : FragmentReassembler) (key : Key) (set : Assembly) : FragmentReassembler :=
  { r with sets := r.sets.insert key set }

def complete (r : FragmentReassembler) (key : Key) : Result FragmentOutcome × FragmentReassembler :=
  match r.remove key with
  | (none, r) => (.error (Error.limit "fragment_state"), r)
  | (some set, r) =>
    match join .empty set.parts with
    | .error e => (.error e, r)
    | .ok joined =>
      (.ok (.complete { set.template with payload := joined, fragment := none } set.packets), r)

def acceptPart (set : Assembly) (new : Part) : Assembly :=
  { set with parts := (set.parts ++ [new]).insertionSort (fun a b => a.start ≤ b.start) }

/-- The part of `push` that runs with the set in hand. -/
def pushSet (r : FragmentReassembler) (key : Key) (set : Assembly) (datagram : Datagram)
    (info : FragmentInfo) (admitted : List PacketId) (newSize : ℕ) :
    Result FragmentOutcome × FragmentReassembler :=
  let set := { set with packets := admitted }
  if set.poisoned then
    (.ok (.rejected ⟨"fragment_set_quarantined", admitted⟩), r.store key set)
  else
    let new : Part := ⟨info.offset, info.more, datagram.payload⟩
    let found := rejection key set new
    let set := { set with
      template := updateTemplate set.template datagram info
      stop := if info.more then set.stop else some new.stop }
    match found with
    | some code =>
      (.ok (.rejected ⟨code, admitted⟩), r.store key { set with poisoned := true })
    | none =>
      let set := acceptPart set new
      let r := { r with retained := newSize }
      match set.stop with
      | none => (.ok .pending, r.store key set)
      | some total =>
        if coverCursor 0 set.parts = total then
          if total + overhead key set.template > 65535 then
            (.ok (.rejected ⟨"reassembled_ip_length_overflow", admitted⟩),
              r.store key { set with poisoned := true })
          else (r.store key set).complete key
        else (.ok .pending, r.store key set)

/-- The packets of the set once the fragment's own packets are added. -/
def admittedPackets (existing : Option Assembly) (datagram : Datagram) : List PacketId :=
  sortDedup (existing.elim [] (·.packets) ++ datagram.payload.packets)

def admittedSize (r : FragmentReassembler) (existing : Option Assembly) (datagram : Datagram) :
    Option ℕ :=
  if existing.any (·.poisoned) then some r.retained
  else checkedAdd r.retained datagram.payload.len

/-- The admission checks of `push` for a fragment with a known range, none of which mutates. -/
def admission (r : FragmentReassembler) (key : Key) (datagram : Datagram) :
    Result (List PacketId × ℕ) :=
  let existing := r.sets.get? key
  if !datagram.payload.validate then
    .error ⟨.invariant, 0, "provenance", "invalid fragment source spans"⟩
  else if (admittedPackets existing datagram).length > r.limits.maxFragmentsPerSet ∨
      existing.any (fun set => set.parts.length ≥ r.limits.maxFragmentsPerSet) then
    .error (Error.limit "fragments_per_set")
  else
    match r.admittedSize existing datagram with
    | none => .error (Error.limit "fragment_payload")
    | some newSize =>
      if newSize > r.limits.maxRetainedPayload then .error (Error.limit "fragment_payload")
      else if existing.isNone ∧ r.sets.size ≥ r.limits.maxFragmentSets then
        .error (Error.limit "fragment_sets")
      else .ok (admittedPackets existing datagram, newSize)

def push (r : FragmentReassembler) (datagram : Datagram) (frame : ℕ) :
    Result FragmentOutcome × FragmentReassembler :=
  match r.limits.validate with
  | .error e => (.error e, r)
  | .ok () =>
    match datagram.fragment with
    | none => (.ok (.complete datagram datagram.payload.packets), r)
    | some info =>
      let key := keyOf datagram info
      match checkedAdd info.offset datagram.payload.len with
      | none => (.error (Error.limit "fragment_range"), r)
      | some stop =>
        if stop > 65535 ∨ datagram.payload.isEmpty then
          (.ok (.rejected ⟨"invalid_fragment_range", datagram.payload.packets⟩), r)
        else
          match r.admission key datagram with
          | .error e => (.error e, r)
          | .ok (admitted, newSize) =>
            let r := if (r.sets.get? key).isNone then r.openSet key datagram frame else r
            match r.sets.get? key with
            | none => (.error (Error.limit "fragment_state"), r)
            | some set => r.pushSet key set datagram info admitted newSize

def finish (r : FragmentReassembler) : List FragmentNotice :=
  r.sets.values.map (fun set =>
    ⟨if set.poisoned then "fragment_quarantine_at_eof" else "incomplete_fragment_set_at_eof",
      set.packets⟩)

end FragmentReassembler
end PcapEvidence
