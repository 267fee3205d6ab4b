import PcapEvidence.Dnp3Decode
import PcapEvidence.Semantics
import PcapEvidence.Sha256

/-!
# Direction witnesses of DNP3 messages

A message takes part in pairing only after its fragments have been derived again from the retained
link frames. The packets that such a verification returns are never empty and belong to one
capture.
-/

namespace PcapEvidence.Dnp3Workflow
open EvidenceBytes Dnp3 SortedVec OrderedMap
open Semantics (fail need uint)

structure Header where
  control : U8
  function : U8
  length : ℕ

namespace Header

def sequence (h : Header) : U8 := h.control &&& 15

def first (h : Header) : Bool := h.control &&& 0x80 ≠ 0

def finalFragment (h : Header) : Bool := h.control &&& 0x40 ≠ 0

def confirmRequested (h : Header) : Bool := h.control &&& 0x20 ≠ 0

def unsolicited (h : Header) : Bool := h.control &&& 0x10 ≠ 0

end Header

def headerRules (b : List U8) (h : Header) : Result Header :=
  if h.function ∈ [0x20, 0x21, 0x83, 0x1d] then
    .error (fail .unsupportedTransport 1 "dnp3_authentication_workflow_opaque")
  else if ¬ (h.function.toNat ≤ 0x1f ∨ h.function = 0x81 ∨ h.function = 0x82) then
    .error (fail .unsupportedTransport 1 "dnp3_reserved_application_function")
  else if (h.function = 0x82 ∧ !h.unsolicited) ∨
      (h.function ≠ 0 ∧ h.function ≠ 0x82 ∧ h.unsolicited) ∨
      (h.function.toNat < 0x80 ∧ h.confirmRequested) then
    .error (fail .protocolFraming 0 "dnp3_application_control_function_conflict")
  else if h.function ∈ [0, 23, 24] ∧ (b.length ≠ 2 ∨ !h.first ∨ !h.finalFragment) then
    .error (fail .protocolFraming 0 "dnp3_header_only_workflow_shape")
  else .ok h

def header (raw : EvidenceBytes) : Result Header :=
  let b := raw.data
  if !raw.validate then .error (fail .invariant 0 "dnp3_workflow_provenance")
  else do
    need b 0 2 "dnp3_workflow_header_truncated"
    let h : Header :=
      ⟨byteAt b 0, byteAt b 1, if byteAt b 1 ∈ [0x81, 0x82, 0x83] then 4 else 2⟩
    need b 0 h.length "dnp3_workflow_iin_truncated"
    headerRules b h

def charge (amount limit : ℕ) : Method ℕ Error Unit := do
  let work ← Method.read
  match (checkedAdd work amount).filter (· ≤ limit) with
  | none => Method.fail (Error.limit "dnp3_correlation_work")
  | some n => Method.update fun _ => n

structure FragmentLinkWitness where
  frame : ℕ
  control : U8
  header : EvidenceBytes
  transportControl : U8
  transportHeader : EvidenceBytes
  frameLength : ℕ
  frameSha256 : Vector U8 32

structure FragmentWitness where
  source : U16
  destination : U16
  linkDirection : Bool
  header : Header
  headerBytes : EvidenceBytes
  packets : List PacketId
  links : List FragmentLinkWitness

def firstCapture (packets : List PacketId) : Vector U8 32 :=
  (packets.head?.map (·.capture)).getD (Vector.replicate 32 0)

def fragmentMismatch : Error := fail .invariant 0 "dnp3_fragment_witness_mismatch"

def pairingMismatch : Error := fail .invariant 0 "dnp3_pairing_witness_mismatch"

structure LinkWalk where
  transport : EvidenceBytes
  packets : List PacketId
  links : List FragmentLinkWitness
  direction : Option Bool
  previous : Option U8
  finalSeen : Bool
  seen : OrdMap ℕ (List U8)
  frameIndices : OrdSet ℕ

def LinkWalk.new : LinkWalk := ⟨.empty, [], [], none, none, false, .empty, .empty⟩

def witnessClass (function : U8) : Result MessageClass :=
  if function = 0 then .ok .confirm
  else if function.toNat ≤ 30 then .ok .request
  else if function = 31 then .error (fail .unsupportedTransport 1 "dnp3_workflow_outside_subset")
  else if function = 0x81 then .ok .response
  else if function = 0x82 then .ok .unsolicited
  else .error fragmentMismatch

/-- The published fields of a fragment are those that its octets give. -/
def fragmentAgrees (fragment : ApplicationFragment) (h : Header) (cls : MessageClass) : Bool :=
  fragment.control = h.control ∧ fragment.function = h.function ∧
    fragment.sequence = h.sequence ∧ fragment.cls = cls ∧ fragment.first = h.first ∧
    fragment.finalFragment = h.finalFragment ∧
    fragment.confirmationRequested = h.confirmRequested ∧
    fragment.iin =
      if h.length = 4 then some (BitVec.ofNat 16 (uint fragment.raw.data 2 2 true)) else none

/-- The published fields of a frame are those of its reparse, under the fragment's addresses. -/
def frameAgrees (fragment : ApplicationFragment) (direction : Option Bool) (frame parsed : LinkFrame)
    (used : ℕ) : Bool :=
  used = frame.raw.len ∧ frame.control = parsed.control ∧
    frame.linkControl = parsed.linkControl ∧ frame.source = parsed.source ∧
    frame.destination = parsed.destination ∧ frame.broadcast = parsed.broadcast ∧
    frame.userData = parsed.userData ∧ parsed.source = fragment.source ∧
    parsed.destination = fragment.destination ∧
    direction.all (· = parsed.linkControl.direction) ∧ parsed.linkControl.primary ∧
    parsed.linkControl.function ∈ [3, 4] ∧
    linkIssue parsed.control parsed.source parsed.destination parsed.userData.len = none

def takeSegment (walk : LinkWalk) (userData : EvidenceBytes) (limits : Limits) : Result LinkWalk :=
  let b := userData.data
  let sequence := byteAt b 0 &&& 63
  let expected := walk.previous.map fun last => (last + 1) &&& 63
  let duplicate : Bool := expected ≠ some sequence ∧ walk.seen.get? sequence.toNat = some b
  if walk.finalSeen then .error fragmentMismatch
  else if duplicate then .ok walk
  else if walk.previous.isNone ≠ (byteAt b 0 &&& 64 ≠ 0 : Bool) ∨
      (walk.previous.isSome ∧ expected ≠ some sequence) then .error fragmentMismatch
  else do
    let segment ← userData.slice 1 b.length
    let appended := walk.transport.append segment limits.maxApplicationBytes
    appended.1
    .ok { walk with
      transport := appended.2
      previous := some sequence
      finalSeen := byteAt b 0 &&& 128 ≠ 0
      seen := walk.seen.insert sequence.toNat b }

def linkWitness (index : ℕ) (parsed : LinkFrame) : Result FragmentLinkWitness := do
  let header ← parsed.raw.slice 0 10
  let transportHeader ← parsed.userData.slice 0 1
  .ok {
    frame := index
    control := parsed.control
    header
    transportControl := byteAt parsed.userData.data 0
    transportHeader
    frameLength := parsed.raw.len
    frameSha256 := Sha256.digest parsed.raw.data }

def verifyLink (result : Dnp3Result) (fragment : ApplicationFragment) (capture : Vector U8 32)
    (limits : Limits) (walk : LinkWalk) (index : ℕ) : Method ℕ Error LinkWalk := do
  charge 1 limits.maxCorrelationChecks
  if (walk.frameIndices.get? index).isSome then Method.fail fragmentMismatch
  else do
  let frame ← Method.lift ((result.frames[index]?).elim (.error fragmentMismatch) .ok)
  charge frame.raw.len limits.maxCorrelationChecks
  charge frame.raw.spans.length limits.maxCorrelationChecks
  charge frame.userData.len limits.maxCorrelationChecks
  charge frame.userData.spans.length limits.maxCorrelationChecks
  if ¬ (frame.raw.validate ∧ ∀ s ∈ frame.raw.spans, s.packet.capture = capture) then
    Method.fail fragmentMismatch
  else do
  let parsed ← Method.lift (parseLink frame.raw 0 frame.streamOffset)
  if ¬ frameAgrees fragment walk.direction frame parsed.1 parsed.2 then
    Method.fail fragmentMismatch
  else do
  let next ← Method.lift (takeSegment walk parsed.1.userData limits)
  let link ← Method.lift (linkWitness index parsed.1)
  pure { next with
    direction := some parsed.1.linkControl.direction
    packets := walk.packets ++ parsed.1.raw.packets
    links := walk.links ++ [link]
    frameIndices := walk.frameIndices.insert index () }

def verifiedFragmentWitness (result : Dnp3Result) (fragment : ApplicationFragment)
    (limits : Limits) : Method ℕ Error FragmentWitness := do
  charge 1 limits.maxCorrelationChecks
  charge fragment.raw.len limits.maxCorrelationChecks
  charge fragment.raw.spans.length limits.maxCorrelationChecks
  charge fragment.objects.len limits.maxCorrelationChecks
  charge fragment.objects.spans.length limits.maxCorrelationChecks
  if fragment.raw.len > limits.maxApplicationBytes then
    Method.fail (Error.limit "dnp3_fragment_witness_bytes")
  else do
  let h ← Method.lift (header fragment.raw)
  let cls ← Method.lift (witnessClass h.function)
  if ¬ fragmentAgrees fragment h cls then Method.fail fragmentMismatch
  else do
  let objects ← Method.lift (fragment.raw.slice h.length fragment.raw.len)
  if fragment.objects ≠ objects ∨ fragment.frames = [] then Method.fail fragmentMismatch
  else if addressKind fragment.source ≠ "individual" ∨
      addressKind fragment.destination ≠ "individual" then
    Method.fail (fail .unsupportedTransport 0 "dnp3_confirmation_non_individual_address")
  else do
  let first ← Method.lift ((fragment.raw.spans.head?).elim (.error fragmentMismatch) .ok)
  let walk ← fragment.frames.foldlM (verifyLink result fragment first.packet.capture limits) .new
  if ¬ (walk.finalSeen ∧ walk.transport = fragment.raw) then Method.fail fragmentMismatch
  else do
  let direction ← Method.lift (walk.direction.elim (.error fragmentMismatch) .ok)
  let headerBytes ← Method.lift (fragment.raw.slice 0 h.length)
  pure {
    source := fragment.source
    destination := fragment.destination
    linkDirection := direction
    header := h
    headerBytes
    packets := sortDedup walk.packets
    links := walk.links }

/-- What the loop over the fragments of a message has derived so far. -/
structure FragmentWalk where
  objects : EvidenceBytes
  packets : List PacketId
  expectedSequence : U8
  fragmentIndices : OrdSet ℕ
  frameIndices : OrdSet ℕ
  capture : Option (Vector U8 32)

def claimFrame (limits : Limits) (frames : OrdSet ℕ) (link : FragmentLinkWitness) :
    Method ℕ Error (OrdSet ℕ) := do
  charge 1 limits.maxCorrelationChecks
  if (frames.get? link.frame).isSome then Method.fail pairingMismatch
  else pure (frames.insert link.frame ())

def witnessContinues (message : ApplicationMessage) (direction : Bool) (walk : FragmentWalk)
    (ordinal : ℕ) (fragment : ApplicationFragment) (witness : FragmentWitness) : Bool :=
  fragment.source = message.source ∧ fragment.destination = message.destination ∧
    witness.header.function = message.function ∧ fragment.cls = message.cls ∧
    witness.linkDirection = direction ∧ witness.header.first = (ordinal = 0 : Bool) ∧
    witness.header.finalFragment = (ordinal + 1 = message.fragments.length : Bool) ∧
    witness.header.sequence = walk.expectedSequence ∧
    walk.capture.all (· = firstCapture witness.packets)

def verifyFragment (result : Dnp3Result) (message : ApplicationMessage) (direction : Bool)
    (limits : Limits) (walk : FragmentWalk) (place : ℕ × ℕ) :
    Method ℕ Error FragmentWalk := do
  let index := place.1
  charge 1 limits.maxCorrelationChecks
  if (walk.fragmentIndices.get? index).isSome then Method.fail pairingMismatch
  else do
  let fragment ← Method.lift ((result.fragments[index]?).elim (.error pairingMismatch) .ok)
  let witness ← verifiedFragmentWitness result fragment limits
  if ¬ witnessContinues message direction walk place.2 fragment witness then
    Method.fail pairingMismatch
  else do
  let frameIndices ← witness.links.foldlM (claimFrame limits) walk.frameIndices
  let appended := walk.objects.append fragment.objects limits.maxApplicationBytes
  Method.lift appended.1
  pure {
    objects := appended.2
    packets := walk.packets ++ witness.packets
    expectedSequence := (witness.header.sequence + 1) &&& 15
    fragmentIndices := walk.fragmentIndices.insert index ()
    frameIndices
    capture := some (firstCapture witness.packets) }

def classDirection (cls : MessageClass) : Result Bool :=
  match cls with
  | .request | .confirm => .ok true
  | .response | .unsolicited => .ok false
  | .unknown => .error pairingMismatch

def verifiedMessageDirection (result : Dnp3Result) (message : ApplicationMessage)
    (limits : Limits) : Method ℕ Error Bool := do
  if !message.complete ∨ message.fragments = [] then
    Method.fail (fail .truncated 0 "dnp3_pairing_incomplete_message")
  else if addressKind message.source ≠ "individual" ∨
      addressKind message.destination ≠ "individual" then
    Method.fail (fail .unsupportedTransport 0 "dnp3_pairing_non_individual_address")
  else do
  let direction ← Method.lift (classDirection message.cls)
  let walk ← message.fragments.zipIdx.foldlM
    (verifyFragment result message direction limits)
    ⟨.empty, [], message.firstSequence, .empty, .empty, none⟩
  charge message.objects.len limits.maxCorrelationChecks
  charge message.objects.spans.length limits.maxCorrelationChecks
  charge message.packets.length limits.maxCorrelationChecks
  if walk.objects ≠ message.objects ∨ sortDedup walk.packets ≠ message.packets then
    Method.fail pairingMismatch
  else pure direction

/-! ### What a verification returns -/

def OneCapture (capture : Vector U8 32) (packets : List PacketId) : Prop :=
  packets ≠ [] ∧ ∀ p ∈ packets, p.capture = capture

section OneCapture
variable {capture : Vector U8 32} {packets more : List PacketId}

theorem OneCapture.append (h : ∀ p ∈ packets, p.capture = capture) (hmore : OneCapture capture more) :
    OneCapture capture (packets ++ more) := by
  constructor
  · simp [hmore.1]
  · intro p hp
    rcases List.mem_append.1 hp with hp | hp
    · exact h p hp
    · exact hmore.2 p hp

theorem OneCapture.sortDedup (h : OneCapture capture packets) :
    OneCapture capture (sortDedup packets) := by
  obtain ⟨p, hp⟩ := List.exists_mem_of_ne_nil _ h.1
  exact ⟨List.ne_nil_of_mem ((mem_sortDedup _ p).2 hp), fun q hq => h.2 q ((mem_sortDedup _ q).1 hq)⟩

theorem OneCapture.first (h : OneCapture capture packets) : firstCapture packets = capture := by
  obtain ⟨hne, hall⟩ := h
  cases packets with
  | nil => exact absurd rfl hne
  | cons p rest => exact hall p (by simp)

end OneCapture

theorem parseLink_raw {e : EvidenceBytes} {base : ℤ} {frame : LinkFrame} {n : ℕ}
    (h : parseLink e 0 base = .ok (frame, n)) : e.slice 0 n = .ok frame.raw ∧ 10 ≤ n := by
  unfold parseLink at h
  cases hoffset : checkedOffset base 0 with
  | none =>
    rw [hoffset] at h
    cases h
  | some streamOffset =>
    rw [hoffset] at h
    dsimp only at h
    obtain ⟨-, h⟩ := guard_eq_ok.1 h
    obtain ⟨-, h⟩ := guard_eq_ok.1 h
    obtain ⟨-, h⟩ := guard_eq_ok.1 h
    obtain ⟨-, h⟩ := guard_eq_ok.1 h
    obtain ⟨-, h⟩ := guard_eq_ok.1 h
    obtain ⟨-, h⟩ := guard_eq_ok.1 h
    obtain ⟨userData, -, h⟩ := bind_eq_ok.1 h
    obtain ⟨raw, hraw, h⟩ := bind_eq_ok.1 h
    simp only [Except.ok.injEq, Prod.mk.injEq] at h
    obtain ⟨rfl, rfl⟩ := h
    refine ⟨by simpa using hraw, ?_⟩
    simp only [linkFrameTotal]
    omega

theorem parseLink_oneCapture {e : EvidenceBytes} {base : ℤ} {frame : LinkFrame} {n : ℕ}
    {capture : Vector U8 32} (he : e.validate) (hcapture : ∀ s ∈ e.spans, s.packet.capture = capture)
    (h : parseLink e 0 base = .ok (frame, n)) : OneCapture capture frame.raw.packets := by
  obtain ⟨hslice, hn⟩ := parseLink_raw h
  obtain ⟨-, -, hlen⟩ := slice_ok_range hslice
  obtain ⟨hvalid, hdata, -⟩ := view_slice ((validate_iff e).1 he) hslice
  constructor
  · have hlength : frame.raw.view.length = n := by
      rw [length_view hvalid, hdata]
      simp [Nat.min_eq_left hlen]
    obtain ⟨x, hx⟩ := List.exists_mem_of_length_pos (by omega : 0 < frame.raw.view.length)
    exact List.ne_nil_of_mem ((mem_packets_iff_view hvalid x.1.1).2 ⟨x, hx, rfl⟩)
  · intro p hp
    obtain ⟨s, hs, rfl⟩ := (mem_packets e p).1 (mem_packets_of_slice hslice hp)
    exact hcapture s hs

/-- What every step of a loop keeps holds at its end; what a step establishes holds there when the
list is not empty. -/
theorem foldlM_inv {σ ε α β : Type} {f : β → α → Method σ ε β} {P : β → Prop}
    (hstep : ∀ b a s c t, P b → f b a s = (.ok c, t) → P c) (l : List α) {b c : β} {s t : σ}
    (hb : P b) (h : l.foldlM f b s = (.ok c, t)) : P c := by
  induction l generalizing b s with
  | nil =>
    cases h
    exact hb
  | cons a rest ih =>
    rw [List.foldlM_cons] at h
    obtain ⟨next, u, hnext, hrest⟩ := Method.bind_ok h
    exact ih (hstep b a s next u hb hnext) hrest

theorem foldlM_reach {σ ε α β : Type} {f : β → α → Method σ ε β} {P Q : β → Prop}
    (hstep : ∀ b a s c t, P b → f b a s = (.ok c, t) → Q c) (hQ : ∀ b, Q b → P b) {l : List α}
    (hl : l ≠ []) {b c : β} {s t : σ} (hb : P b) (h : l.foldlM f b s = (.ok c, t)) : Q c := by
  cases l with
  | nil => exact absurd rfl hl
  | cons a rest =>
    rw [List.foldlM_cons] at h
    obtain ⟨next, u, hnext, hrest⟩ := Method.bind_ok h
    exact foldlM_inv (fun b a s c t hb => hstep b a s c t (hQ b hb)) rest
      (hstep b a s next u hb hnext) hrest

section Verified
variable {result : Dnp3Result} {fragment : ApplicationFragment} {message : ApplicationMessage}
  {capture : Vector U8 32} {limits : Limits} {direction : Bool} {work work' : ℕ}

theorem verifyLink_oneCapture {walk next : LinkWalk} {index : ℕ}
    (hwalk : ∀ p ∈ walk.packets, p.capture = capture)
    (h : verifyLink result fragment capture limits walk index work = (.ok next, work')) :
    OneCapture capture next.packets := by
  unfold verifyLink at h
  obtain ⟨-, w₁, -, h⟩ := Method.bind_ok h
  obtain ⟨-, h⟩ := Method.guard_ok h
  obtain ⟨frame, -, h⟩ := Method.lift_bind_ok h
  obtain ⟨-, w₂, -, h⟩ := Method.bind_ok h
  obtain ⟨-, w₃, -, h⟩ := Method.bind_ok h
  obtain ⟨-, w₄, -, h⟩ := Method.bind_ok h
  obtain ⟨-, w₅, -, h⟩ := Method.bind_ok h
  obtain ⟨hscope, h⟩ := Method.guard_ok h
  rw [not_not] at hscope
  obtain ⟨parsed, hparsed, h⟩ := Method.lift_bind_ok h
  obtain ⟨-, h⟩ := Method.guard_ok h
  obtain ⟨taken, -, h⟩ := Method.lift_bind_ok h
  obtain ⟨link, -, h⟩ := Method.lift_bind_ok h
  cases h
  exact .append hwalk (parseLink_oneCapture hscope.1 hscope.2 hparsed)

theorem verifiedFragmentWitness_oneCapture {witness : FragmentWitness}
    (h : verifiedFragmentWitness result fragment limits work = (.ok witness, work')) :
    ∃ capture, OneCapture capture witness.packets := by
  unfold verifiedFragmentWitness at h
  obtain ⟨-, w₁, -, h⟩ := Method.bind_ok h
  obtain ⟨-, w₂, -, h⟩ := Method.bind_ok h
  obtain ⟨-, w₃, -, h⟩ := Method.bind_ok h
  obtain ⟨-, w₄, -, h⟩ := Method.bind_ok h
  obtain ⟨-, w₅, -, h⟩ := Method.bind_ok h
  obtain ⟨-, h⟩ := Method.guard_ok h
  obtain ⟨head, -, h⟩ := Method.lift_bind_ok h
  obtain ⟨cls, -, h⟩ := Method.lift_bind_ok h
  obtain ⟨-, h⟩ := Method.guard_ok h
  obtain ⟨objects, -, h⟩ := Method.lift_bind_ok h
  obtain ⟨hframes, h⟩ := Method.guard_ok h
  rw [not_or] at hframes
  obtain ⟨-, h⟩ := Method.guard_ok h
  obtain ⟨first, -, h⟩ := Method.lift_bind_ok h
  obtain ⟨walk, w₆, hwalk, h⟩ := Method.bind_ok h
  obtain ⟨-, h⟩ := Method.guard_ok h
  obtain ⟨direction, -, h⟩ := Method.lift_bind_ok h
  obtain ⟨headerBytes, -, h⟩ := Method.lift_bind_ok h
  cases h
  have hone : OneCapture first.packet.capture walk.packets :=
    foldlM_reach (P := fun b => ∀ p ∈ b.packets, p.capture = first.packet.capture)
      (fun b a s c t hb => verifyLink_oneCapture hb) (fun b hb => hb.2) hframes.2
      (by simp [LinkWalk.new]) hwalk
  exact ⟨_, hone.sortDedup⟩

def FragmentWalk.Scoped (walk : FragmentWalk) : Prop :=
  ∃ capture, walk.capture = some capture ∧ OneCapture capture walk.packets

theorem verifyFragment_scoped {walk next : FragmentWalk} {place : ℕ × ℕ}
    (hwalk : walk.capture = none ∧ walk.packets = [] ∨ walk.Scoped)
    (h : verifyFragment result message direction limits walk place work = (.ok next, work')) :
    next.Scoped := by
  unfold verifyFragment at h
  obtain ⟨-, w₁, -, h⟩ := Method.bind_ok h
  obtain ⟨-, h⟩ := Method.guard_ok h
  obtain ⟨fragment, -, h⟩ := Method.lift_bind_ok h
  obtain ⟨witness, w₂, hwitness, h⟩ := Method.bind_ok h
  obtain ⟨hcontinues, h⟩ := Method.guard_ok h
  obtain ⟨frames, w₃, -, h⟩ := Method.bind_ok h
  obtain ⟨-, -, h⟩ := Method.lift_bind_ok h
  cases h
  obtain ⟨capture, hone⟩ := verifiedFragmentWitness_oneCapture hwitness
  refine ⟨firstCapture witness.packets, rfl, ?_⟩
  rw [hone.first]
  rcases hwalk with ⟨-, hpackets⟩ | ⟨noted, hnoted, hscoped⟩
  · simpa [hpackets] using hone
  · have hsame : noted = capture := by
      simp only [not_not, witnessContinues, hnoted, Option.all_some, decide_eq_true_eq,
        hone.first] at hcontinues
      exact hcontinues.2.2.2.2.2.2.2.2
    exact .append (hsame ▸ hscoped.2) hone

theorem verifiedMessageDirection_oneCapture
    (h : verifiedMessageDirection result message limits work = (.ok direction, work')) :
    OneCapture (firstCapture message.packets) message.packets := by
  unfold verifiedMessageDirection at h
  obtain ⟨hcomplete, h⟩ := Method.guard_ok h
  rw [not_or] at hcomplete
  obtain ⟨-, h⟩ := Method.guard_ok h
  obtain ⟨side, -, h⟩ := Method.lift_bind_ok h
  obtain ⟨walk, w₁, hwalk, h⟩ := Method.bind_ok h
  obtain ⟨-, w₂, -, h⟩ := Method.bind_ok h
  obtain ⟨-, w₃, -, h⟩ := Method.bind_ok h
  obtain ⟨-, w₄, -, h⟩ := Method.bind_ok h
  obtain ⟨hpackets, -⟩ := Method.guard_ok h
  rw [not_or, not_not, not_not] at hpackets
  have hne : message.fragments.zipIdx ≠ [] := by simpa using hcomplete.2
  obtain ⟨capture, -, hone⟩ : walk.Scoped :=
    foldlM_reach (P := fun walk => walk.capture = none ∧ walk.packets = [] ∨ walk.Scoped)
      (fun b a s c t hb => verifyFragment_scoped hb) (fun b hb => .inr hb) hne
      (.inl ⟨rfl, rfl⟩) hwalk
  have hmessage : OneCapture capture message.packets := hpackets.2 ▸ hone.sortDedup
  rwa [hmessage.first]

end Verified

end PcapEvidence.Dnp3Workflow
