import PcapEvidence.BmpReplay
import PcapEvidence.MrtSessions

/-!
# What one monitoring record can do

A record moves the streams of its peer, or of all peers. A stream that it publishes in keeps its
generation with an UPDATE and enters the next one with a boundary; no other stream that has been used
changes its generation.
-/

namespace PcapEvidence.Bgp.Bmp

open FiniteMap History Import Wire
open Mrt (AffectedScope Basis LayoutContext OpenState SessionState numberField_inj append_inj_of_size)
open State (Checks)

theorem Stream.label_injective : Function.Injective Stream.label := by
  intro a b h
  cases a <;> cases b <;> first | rfl | exact absurd h (by decide)

theorem streamId_inj {e f : PeerState} {a b : Stream} (h : streamId e a = streamId f b) :
    e.index = f.index ∧ a = b := by
  obtain ⟨hindex, hlabel⟩ := numberField_inj (append_inj_of_size rfl h).2
  exact ⟨hindex, Stream.label_injective hlabel⟩

theorem streamId_congr {e f : PeerState} (h : f.index = e.index) (stream : Stream) :
    streamId f stream = streamId e stream := by
  rw [streamId, streamId, h]

theorem recordId_inj {r q : BmpRecord} {a b : Stream} (h : recordId r a = recordId q b) :
    r.offset = q.offset :=
  (numberField_inj (append_inj_of_size rfl h).2).1

theorem used_nodup (e : PeerState) : (used e).Nodup := List.Nodup.filter _ (by decide)

theorem mem_used {e : PeerState} {stream : Stream} :
    stream ∈ used e ↔ e.usedStreams stream = true := by
  rw [used, List.mem_filter]
  refine and_iff_right ?_
  cases stream <;> decide

section Streams

variable {new : List Published}

def inStream (label : String) (l : List Published) : List Published := l.filter (·.session = label)

@[simp] theorem inStream_append (label : String) (l m : List Published) :
    inStream label (l ++ m) = inStream label l ++ inStream label m := List.filter_append ..

theorem inStream_cons_self {label : String} {o : Published} (l : List Published)
    (h : o.session = label) : inStream label (o :: l) = o :: inStream label l :=
  List.filter_cons_of_pos (decide_eq_true h)

theorem inStream_cons_ne {label : String} {o : Published} (l : List Published)
    (h : o.session ≠ label) : inStream label (o :: l) = inStream label l :=
  List.filter_cons_of_neg (by simpa using h)

def Follows (generation : ℕ) (o : Published) : Prop :=
  match o.content with
  | .boundary b => b.previousGeneration = generation ∧ o.generation = generation + 1
  | .update .. => o.generation = generation

def Published.isUpdate (o : Published) : Bool :=
  match o.content with
  | .boundary _ => false
  | .update .. => true

def MovesStream (new : List Published) (e e' : PeerState) (stream : Stream) : Prop :=
  (inStream (streamId e stream) new = [] ∧ e'.usedStreams stream = e.usedStreams stream ∧
    (e.usedStreams stream = true → e'.decoder.generation = e.decoder.generation)) ∨
  ∃ o, inStream (streamId e stream) new = [o] ∧ e'.usedStreams stream = true ∧
    o.generation = e'.decoder.generation ∧
    (e.usedStreams stream = true → Follows e.decoder.generation o)

structure Moves (new : List Published) (e e' : PeerState) : Prop where
  index : e'.index = e.index
  stream : ∀ stream, MovesStream new e e' stream

theorem Moves.of_silent {e e' : PeerState} (hindex : e'.index = e.index)
    (hused : e'.usedStreams = e.usedStreams) (hgeneration : e'.decoder.generation = e.decoder.generation)
    (hnew : ∀ stream, inStream (streamId e stream) new = []) : Moves new e e' :=
  ⟨hindex, fun stream => Or.inl ⟨hnew stream, congrFun hused stream, fun _ => hgeneration⟩⟩

theorem Moves.refl (e : PeerState) : Moves [] e e := .of_silent rfl rfl rfl fun _ => rfl

theorem Moves.congr {new' : List Published} {e e' : PeerState} (h : Moves new e e')
    (hnew : ∀ stream, inStream (streamId e stream) new' = inStream (streamId e stream) new) :
    Moves new' e e' := by
  refine ⟨h.index, fun stream => ?_⟩
  have hstream := h.stream stream
  rw [MovesStream, ← hnew stream] at hstream
  exact hstream

theorem Moves.of_foreign {e f : PeerState} (hne : f.index ≠ e.index)
    (h : ∀ o ∈ new, ∃ stream, o.session = streamId f stream) : Moves new e e := by
  refine .of_silent rfl rfl rfl fun stream => List.filter_eq_nil_iff.2 fun o ho hlabel => ?_
  obtain ⟨other, hother⟩ := h o ho
  exact hne (streamId_inj (hother.symm.trans (of_decide_eq_true hlabel))).1

theorem inStream_of_forall₂ {P : Stream → Published → Prop} {e : PeerState} {l : List Stream} (hl : l.Nodup)
    (h : List.Forall₂ (fun stream o => o.session = streamId e stream ∧ P stream o) l new)
    (stream : Stream) :
    (stream ∉ l → inStream (streamId e stream) new = []) ∧
      (stream ∈ l → ∃ o, inStream (streamId e stream) new = [o] ∧ P stream o) := by
  induction h with
  | nil => exact ⟨fun _ => rfl, fun hmem => absurd hmem List.not_mem_nil⟩
  | @cons a o l new ho _ ih =>
    obtain ⟨hfresh, hl⟩ := List.nodup_cons.1 hl
    obtain ⟨hno, hyes⟩ := ih hl
    by_cases hstream : stream = a
    · subst hstream
      refine ⟨fun hmem => absurd List.mem_cons_self hmem, fun _ => ⟨o, ?_, ho.2⟩⟩
      rw [inStream_cons_self new ho.1, hno hfresh]
    · have hother : o.session ≠ streamId e stream :=
        fun hsame => hstream (streamId_inj (hsame.symm.trans ho.1)).2
      rw [inStream_cons_ne new hother]
      exact ⟨fun hmem => hno fun h => hmem (List.mem_cons_of_mem _ h),
        fun hmem => hyes ((List.mem_cons.1 hmem).resolve_left hstream)⟩

theorem mem_of_forall₂ {α β : Type} {R : α → β → Prop} {l : List α} {m : List β}
    (h : List.Forall₂ R l m) {b : β} (hb : b ∈ m) : ∃ a ∈ l, R a b := by
  induction h with
  | nil => cases hb
  | @cons a c l m hac _ ih =>
    rcases List.mem_cons.1 hb with rfl | hb
    · exact ⟨a, List.mem_cons_self, hac⟩
    · obtain ⟨x, hx, hxb⟩ := ih hb
      exact ⟨x, List.mem_cons_of_mem _ hx, hxb⟩

theorem forall₂_mapM {α β ε : Type} {f : α → Except ε β} {l : List α} {r : List β}
    (h : l.mapM f = .ok r) : List.Forall₂ (fun a b => f a = .ok b) l r := by
  induction l generalizing r with
  | nil =>
    cases h
    exact .nil
  | cons a l ih =>
    rw [List.mapM_cons] at h
    obtain ⟨b, hb, h⟩ := bind_eq_ok.1 h
    obtain ⟨bs, hbs, h⟩ := bind_eq_ok.1 h
    cases h
    exact .cons hb (ih hbs)

end Streams

section Reset

variable {e e' : PeerState} {reason : String} {new : List Published}
variable {k : Checks} {batch : BmpBatch} {record : BmpRecord} {l : Bgp.Limits} {peer : BmpPeer}

theorem context_ok {stream : Stream} {direction : Option U8} {range : SourceRange}
    {c : ImportContext} (h : context k batch l peer e stream direction range = .ok c) :
    c = contextOf k batch peer e stream direction range := by
  obtain ⟨_, _, h⟩ := bind_eq_ok.1 h
  cases h
  rfl

theorem normalizeBoundary_ok {c : ImportContext} {b : GenerationBoundary} {id : String}
    {at_ : Option ℤ} {o : Published} (h : normalizeBoundary k c b id at_ l = .ok o) :
    o = ⟨c, id, at_, c.generation, .boundary b⟩ := by
  obtain ⟨_, _, h⟩ := bind_eq_ok.1 h
  obtain ⟨_, _, h⟩ := bind_eq_ok.1 h
  obtain ⟨_, _, h⟩ := bind_eq_ok.1 h
  obtain ⟨_, h⟩ := guard_eq_ok.1 h
  obtain ⟨_, _, h⟩ := bind_eq_ok.1 h
  cases h
  rfl

theorem boundaryOf_ok {previous : ℕ} {stream : Stream}
    {o : Published} (h : boundaryOf k batch record l peer e previous reason stream = .ok o) :
    o.session = streamId e stream ∧ o.recordId = recordId record stream ∧
      o.generation = e.decoder.generation ∧ o.content = .boundary ⟨previous, reason⟩ := by
  obtain ⟨c, hc, h⟩ := bind_eq_ok.1 h
  rw [context_ok hc] at h
  rw [normalizeBoundary_ok h]
  exact ⟨rfl, rfl, rfl, rfl⟩

structure WasReset (e e' : PeerState) : Prop where
  index : e'.index = e.index
  used : e'.usedStreams = e.usedStreams
  generation : e'.decoder.generation = e.decoder.generation + 1
  down : e'.reportedUp = false
variable (h : reset k batch record l peer e reason = .ok (new, e'))
include h

theorem reset_ok :
    WasReset e e' ∧ List.Forall₂ (fun stream o => o.session = streamId e stream ∧
      o.recordId = recordId record stream ∧ o.generation = e.decoder.generation + 1 ∧
        o.content = .boundary ⟨e.decoder.generation, reason⟩) (used e) new := by
  obtain ⟨decoder, hdecoder, h⟩ := bind_eq_ok.1 h
  obtain ⟨observations, hobservations, h⟩ := bind_eq_ok.1 h
  cases h
  have hnext : decoder.generation = e.decoder.generation + 1 := by
    unfold SessionState.reset at hdecoder
    split at hdecoder
    · cases hdecoder
      rfl
    · cases hdecoder
  refine ⟨⟨rfl, rfl, hnext, rfl⟩, (forall₂_mapM hobservations).imp fun stream o ho => ?_⟩
  obtain ⟨hsession, hrecord, hgeneration, hcontent⟩ := boundaryOf_ok ho
  exact ⟨hsession, hrecord, hgeneration.trans hnext, hcontent⟩

theorem reset_moves : Moves new e e' := by
  obtain ⟨⟨hindex, hused, hgeneration, _⟩, hnew⟩ := reset_ok h
  refine ⟨hindex, fun stream => ?_⟩
  obtain ⟨hno, hyes⟩ := inStream_of_forall₂ (used_nodup e) hnew stream
  by_cases hstream : e.usedStreams stream = true
  · obtain ⟨o, ho, _, hnext, hcontent⟩ := hyes (mem_used.2 hstream)
    refine Or.inr ⟨o, ho, by rw [hused, hstream], hnext.trans hgeneration.symm, fun _ => ?_⟩
    rw [Follows, hcontent]
    exact ⟨rfl, hnext⟩
  · exact Or.inl ⟨hno fun hmem => hstream (mem_used.1 hmem), congrFun hused stream,
      fun h => absurd h hstream⟩

def Owned (record : BmpRecord) (e : PeerState) (new : List Published) : Prop :=
  ∀ o ∈ new, ∃ stream, o.session = streamId e stream ∧ o.recordId = recordId record stream

theorem reset_owned : Owned record e new ∧ ∀ o ∈ new, o.isUpdate = false := by
  obtain ⟨_, hnew⟩ := reset_ok h
  constructor
  · intro o ho
    obtain ⟨stream, _, hsession, hrecord, _⟩ := mem_of_forall₂ hnew ho
    exact ⟨stream, hsession, hrecord⟩
  · intro o ho
    obtain ⟨stream, _, _, _, _, hcontent⟩ := mem_of_forall₂ hnew ho
    rw [Published.isUpdate, hcontent]

omit h

end Reset

section Peers

variable (sha256 : List U8 → Digest) (j : Projection) (batch : BmpBatch) (l : Bgp.Limits)

def OpensAccepted (peer : BmpPeer) (body : BmpBody) : Prop :=
  ∃ localAddress localPort remotePort sentOpen receivedOpen information sent received opens,
    body = .peerUp localAddress localPort remotePort sentOpen receivedOpen information ∧
      batch.rangeBytes sha256 sentOpen = .ok sent ∧
      batch.rangeBytes sha256 receivedOpen = .ok received ∧
      parseOpens j l peer sent received sentOpen receivedOpen = .ok opens

def Upsets (body : BmpBody) (status : Status) : Prop :=
  (∃ reason data, body = .peerDown reason data) ∨
    status ∈ [.reportedPeerUp, .quarantinedPeerUp, .quarantinedMalformedUpdate,
      .quarantinedSessionReset]

def Resolved (e : PeerState) : Prop := e.reportedUp = true ∧ e.contextUnresolved = false

structure PeerStep (record : BmpRecord) (peer : BmpPeer) (closed : Bool) (body : BmpBody)
    (e e' : PeerState) (o : Outcome) : Prop where
  moves : Moves o.observations e e'
  owned : Owned record e o.observations
  up : Resolved e' → OpensAccepted sha256 j batch l peer body ∨
    (Resolved e ∧ ¬ Upsets body o.status)
  published : (∃ x ∈ o.observations, x.isUpdate = true) → closed = false ∧ Resolved e

variable {sha256 j batch l} {record : BmpRecord} {peer : BmpPeer} {closed : Bool} {body : BmpBody}
  {e e' : PeerState} {o : Outcome}

theorem PeerStep.of_unresolved (hnew : o.observations = []) :
    PeerStep sha256 j batch l record peer closed body e (unresolved e) o where
  moves := by
    rw [hnew]
    exact .of_silent rfl rfl rfl fun _ => rfl
  owned := by
    rw [hnew]
    exact fun _ h => nomatch h
  up h := nomatch h.2
  published := by
    rw [hnew]
    exact fun ⟨_, h, _⟩ => nomatch h

theorem PeerStep.of_same (hnew : o.observations = []) (hbody : ¬ Upsets body o.status) :
    PeerStep sha256 j batch l record peer closed body e e o where
  moves := by
    rw [hnew]
    exact .refl e
  owned := by
    rw [hnew]
    exact fun _ h => nomatch h
  up h := Or.inr ⟨h, hbody⟩
  published := by
    rw [hnew]
    exact fun ⟨_, h, _⟩ => nomatch h

theorem PeerStep.of_reset {reason : String}
    (h : reset j.checks batch record l peer e reason = .ok (o.observations, e')) :
    PeerStep sha256 j batch l record peer closed body e e' o where
  moves := reset_moves h
  owned := (reset_owned h).1
  up hup := by
    have hdown := (reset_ok h).1.down
    rw [hup.1] at hdown
    cases hdown
  published := by
    rintro ⟨x, hx, hupdate⟩
    rw [(reset_owned h).2 x hx] at hupdate
    cases hupdate

theorem contained_ok {α : Type} {r : Result α} {a : α} (h : contained r = .ok (some a)) :
    r = .ok a := by
  unfold contained at h
  cases r with
  | ok b =>
    cases h
    rfl
  | error e =>
    dsimp only at h
    split at h <;> cases h

theorem replayPeerUp_ok {localAddress : IpAddr} {localPort remotePort : U16}
    {sentOpen receivedOpen : SourceRange} {information : List BmpTlv}
    (h : replayPeerUp sha256 j batch record l peer e sentOpen receivedOpen = .ok (o, e')) :
    PeerStep sha256 j batch l record peer closed
      (.peerUp localAddress localPort remotePort sentOpen receivedOpen information) e e' o := by
  obtain ⟨sent, hsent, h⟩ := bind_eq_ok.1 h
  obtain ⟨received, hreceived, h⟩ := bind_eq_ok.1 h
  obtain ⟨opens, hopens, h⟩ := bind_eq_ok.1 h
  cases opens with
  | none =>
    obtain ⟨gaps, _, h⟩ := bind_eq_ok.1 h
    cases h
    exact .of_unresolved rfl
  | some opens =>
    have haccepted : OpensAccepted sha256 j batch l peer
        (.peerUp localAddress localPort remotePort sentOpen receivedOpen information) :=
      ⟨_, _, _, _, _, _, sent, received, opens, rfl, hsent, hreceived, contained_ok hopens⟩
    obtain ⟨⟨observations, next⟩, hnext, h⟩ := bind_eq_ok.1 h
    cases h
    unfold restart at hnext
    split at hnext
    · obtain ⟨⟨hindex, hused, hgeneration, _⟩, _⟩ := reset_ok hnext
      refine ⟨⟨hindex, (reset_moves hnext).stream⟩, (reset_owned hnext).1,
        fun _ => Or.inl haccepted, ?_⟩
      rintro ⟨x, hx, hupdate⟩
      rw [(reset_owned hnext).2 x hx] at hupdate
      cases hupdate
    · cases hnext
      exact ⟨⟨rfl, (Moves.refl e).stream⟩, (fun _ h => nomatch h), fun _ => Or.inl haccepted,
        fun ⟨_, h, _⟩ => nomatch h⟩

theorem replayPeerDown_ok {reason : U8}
    (h : replayPeerDown j batch record l peer e reason = .ok (o, e')) :
    PeerStep sha256 j batch l record peer closed body e e' o := by
  obtain ⟨affected, _, h⟩ := bind_eq_ok.1 h
  obtain ⟨⟨observations, next⟩, hnext, h⟩ := bind_eq_ok.1 h
  cases h
  exact .of_reset hnext

theorem publishUpdate_ok {parsed : ParsedUpdate} {basis : Basis} {bytes : List U8}
    {message : SourceRange} {x : Published}
    (h : publishUpdate j batch record l peer e parsed basis bytes message = .ok x) :
    x.session = streamId e (streamOf peer) ∧ x.recordId = recordId record (streamOf peer) ∧
      x.generation = e.decoder.generation ∧ x.isUpdate = true := by
  obtain ⟨_, _, h⟩ := bind_eq_ok.1 h
  obtain ⟨c, hc, h⟩ := bind_eq_ok.1 h
  obtain ⟨_, _, h⟩ := bind_eq_ok.1 h
  cases h
  rw [context_ok hc]
  exact ⟨rfl, rfl, rfl, rfl⟩

theorem PeerStep.of_update {x : Published} (hnew : o.observations = [x])
    (hsession : x.session = streamId e (streamOf peer))
    (hrecord : x.recordId = recordId record (streamOf peer))
    (hgeneration : x.generation = e.decoder.generation) (hupdate : x.isUpdate = true)
    (hopen : closed = false ∧ Resolved e) (hbody : ¬ Upsets body o.status) :
    PeerStep sha256 j batch l record peer closed body e
      { e with usedStreams := Function.update e.usedStreams (streamOf peer) true } o where
  moves := by
    refine ⟨rfl, fun stream => ?_⟩
    rw [hnew]
    by_cases hstream : stream = streamOf peer
    · subst hstream
      refine Or.inr ⟨x, inStream_cons_self [] hsession, Function.update_self .., hgeneration,
        fun _ => ?_⟩
      unfold Published.isUpdate at hupdate
      unfold Follows
      cases hcontent : x.content with
      | boundary b =>
        rw [hcontent] at hupdate
        cases hupdate
      | update routes parsed basis message => exact hgeneration
    · have hother : x.session ≠ streamId e stream := by
        intro hsame
        exact hstream (streamId_inj (hsame.symm.trans hsession)).2
      exact Or.inl ⟨inStream_cons_ne [] hother, Function.update_of_ne hstream .., fun _ => rfl⟩
  owned := by
    rw [hnew]
    intro y hy
    rw [List.mem_singleton.1 hy]
    exact ⟨_, hsession, hrecord⟩
  up _ := Or.inr ⟨hopen.2, hbody⟩
  published _ := hopen

theorem published_calm (message : SourceRange) (gap : Bool) :
    ¬ Upsets (.routeMonitoring message) (if gap then .opaqueRouteMonitoringContinuityGap
      else .decodedRouteMonitoringCandidate) := by
  cases gap <;> simp [Upsets]

theorem applyUpdate_ok {parsed : ParsedUpdate} {basis : Basis} {bytes : List U8}
    {message : SourceRange} (hopen : closed = false ∧ Resolved e)
    (h : applyUpdate j batch record l peer e parsed basis bytes message = .ok (o, e')) :
    PeerStep sha256 j batch l record peer closed (.routeMonitoring message) e e' o := by
  unfold applyUpdate at h
  dsimp only at h
  split at h
  · obtain ⟨affected, _, h⟩ := bind_eq_ok.1 h
    obtain ⟨⟨observations, next⟩, hnext, h⟩ := bind_eq_ok.1 h
    cases h
    exact .of_reset hnext
  · obtain ⟨x, hx, h⟩ := bind_eq_ok.1 h
    cases h
    obtain ⟨hsession, hrecord, hgeneration, hupdate⟩ := publishUpdate_ok hx
    exact .of_update rfl hsession hrecord hgeneration hupdate hopen (published_calm _ _)

theorem replayRouteMonitoring_ok {relationship : PeerRelationship} {message : SourceRange}
    (h : replayRouteMonitoring sha256 j batch record l peer e closed relationship message =
      .ok (o, e')) :
    PeerStep sha256 j batch l record peer closed (.routeMonitoring message) e e' o := by
  have hquarantine : ¬ Upsets (.routeMonitoring message) .quarantinedRouteMonitoring := by
    simp [Upsets]
  unfold replayRouteMonitoring at h
  split at h
  · cases h
    exact .of_same rfl hquarantine
  · rename_i hopen
    rw [not_or, not_or] at hopen
    obtain ⟨hclosed, hup, hresolved⟩ := hopen
    have hopen : closed = false ∧ Resolved e :=
      ⟨by simpa using hclosed, by simpa using hup, by simpa using hresolved⟩
    unfold decodeMonitoring at h
    dsimp only at h
    split at h
    · cases h
      exact .of_same rfl hquarantine
    · obtain ⟨bytes, _, h⟩ := bind_eq_ok.1 h
      obtain ⟨parsed, _, h⟩ := bind_eq_ok.1 h
      cases parsed with
      | none =>
        obtain ⟨gaps, _, h⟩ := bind_eq_ok.1 h
        cases h
        exact .of_unresolved rfl
      | some parsed => exact applyUpdate_ok hopen h

theorem replayBody_ok {s : ReplayState}
    (h : replayBody sha256 j batch record l peer e s body = .ok (o, e')) :
    PeerStep sha256 j batch l record peer s.monitorClosed body e e' o := by
  cases body with
  | peerUp localAddress localPort remotePort sentOpen receivedOpen information =>
    exact replayPeerUp_ok h
  | peerDown reason data => exact replayPeerDown_ok h
  | routeMonitoring message => exact replayRouteMonitoring_ok h
  | initiation information | termination information | opaqueBytes reason errorOffset =>
    cases h
    exact .of_same rfl (by simp [Upsets, Outcome.bare])

end Peers

end PcapEvidence.Bgp.Bmp
