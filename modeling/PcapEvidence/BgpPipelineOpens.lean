import PcapEvidence.BgpPipelineReplay
import PcapEvidence.MrtEvidence

/-!
# Contradictory OPEN messages

The decoder keeps every OPEN of a generation that the observer has an event of. Two that differ make
the layout of the generation ambiguous, so that no later UPDATE announces a route in it, and the
routes that were announced before end with a gap.
-/

namespace PcapEvidence.Bgp

open FiniteMap History Session Wire
open Mrt (OpenState layoutEvidence unambiguousOpen_spec)

namespace Wire

variable {c : Carrier} {bytes : EvidenceBytes} {metadata : PcapMetadata} {w next : WireState}
  {limits : Bgp.Limits} {record : Decoded}

section Evidence

variable {issues : List String}

def WireState.Faithful (w : WireState) : Prop :=
  ∀ d, ∀ o ∈ w.opensOf d, o.state.bytes = o.witness.evidence.data

def WireState.HasOpen (w : WireState) (d : U8) (digest : Digest) : Prop :=
  ∃ o ∈ w.opensOf d, o.state.messageSha256 = digest

/-- Two OPEN messages of one direction differ. -/
def WireState.Contradictory (w : WireState) : Prop :=
  ∃ d a b, w.HasOpen d a ∧ w.HasOpen d b ∧ a ≠ b

structure OpensKept (w next : WireState) : Prop where
  faithful : w.Faithful → next.Faithful
  kept : ∀ d digest, w.HasOpen d digest → next.HasOpen d digest

theorem OpensKept.refl (w : WireState) : OpensKept w w := ⟨id, fun _ _ h => h⟩

theorem opensOf_pushOpen (w : WireState) (direction : U8) (o : WitnessedOpen) (d : U8) :
    (w.pushOpen direction o).opensOf d =
      if d = direction then w.opensOf d ++ [o] else w.opensOf d := by
  unfold WireState.pushOpen WireState.opensOf
  dsimp only
  rw [FinMap.get_insert]
  split_ifs with hd
  · rw [hd]
    rfl
  · rfl

theorem opensKept_pushOpen {direction : U8} {o : WitnessedOpen}
    (ho : o.state.bytes = o.witness.evidence.data) : OpensKept w (w.pushOpen direction o) where
  faithful := by
    intro h d x hx
    rw [opensOf_pushOpen] at hx
    split_ifs at hx
    · rcases List.mem_append.1 hx with hx | hx
      · exact h d x hx
      · rwa [List.mem_singleton.1 hx]
    · exact h d x hx
  kept := by
    rintro d digest ⟨x, hx, hdigest⟩
    refine ⟨x, ?_, hdigest⟩
    rw [opensOf_pushOpen]
    split_ifs
    · exact List.mem_append_left _ hx
    · exact hx

theorem retainOpen_kept {direction : U8} {o : WitnessedOpen}
    (ho : o.state.bytes = o.witness.evidence.data)
    (h : retainOpen w direction o limits = .ok (next, issues)) :
    OpensKept w next ∧ (w.Faithful → next.HasOpen direction o.state.messageSha256) := by
  unfold retainOpen at h
  dsimp only at h
  by_cases hsame : (w.opensOf direction).any (fun x => x.witness = o.witness) = true
  · rw [if_pos hsame] at h
    cases h
    refine ⟨OpensKept.refl w, fun hw => ?_⟩
    obtain ⟨x, hx, hwitness⟩ := List.any_eq_true.1 hsame
    have hbytes : x.state.bytes = o.state.bytes := by
      rw [hw direction x hx, ho, of_decide_eq_true hwitness]
    exact ⟨x, hx, congrArg Sha256.digest hbytes⟩
  · rw [if_neg hsame] at h
    obtain ⟨-, h⟩ := guard_eq_ok.1 h
    obtain ⟨-, h⟩ := guard_eq_ok.1 h
    cases h
    refine ⟨opensKept_pushOpen ho, fun _ => ⟨o, ?_, rfl⟩⟩
    rw [opensOf_pushOpen, if_pos rfl]
    simp

theorem parseOpenBody_bytes {b : List U8} {state : OpenState} {detail : OpenDetail}
    (h : parseOpenBody b limits = .ok (state, detail)) : state.bytes = b := by
  obtain ⟨_, -, h⟩ := bind_eq_ok.1 h
  obtain ⟨-, h⟩ := guard_eq_ok.1 h
  dsimp only at h
  split at h
  all_goals
    obtain ⟨_, -, h⟩ := bind_eq_ok.1 h
    obtain ⟨-, h⟩ := guard_eq_ok.1 h
    obtain ⟨scan, -, h⟩ := bind_eq_ok.1 h
    obtain ⟨-, h⟩ := guard_eq_ok.1 h
    obtain ⟨-, h⟩ := guard_eq_ok.1 h
    cases h
    rfl

theorem decodeOpen_kept {message : Message}
    (h : decodeOpen bytes metadata w limits = .ok (message, issues, next)) :
    OpensKept w next ∧ ∀ d, metadata.session.isSome → metadata.direction = some d → w.Faithful →
      next.HasOpen d (Sha256.digest bytes.data) := by
  obtain ⟨⟨state, detail⟩, hparse, h⟩ := bind_eq_ok.1 h
  obtain ⟨⟨next', issues'⟩, hobserve, h⟩ := bind_eq_ok.1 h
  cases h
  have hbytes := parseOpenBody_bytes hparse
  unfold observeOpen at hobserve
  cases hd : metadata.direction with
  | none =>
    simp only [hd] at hobserve
    cases hobserve
    exact ⟨OpensKept.refl w, fun d _ hno => by cases hno⟩
  | some d =>
    simp only [hd, PcapMetadata.scoped, Option.isSome_some, Bool.and_true] at hobserve
    split_ifs at hobserve with hs
    · obtain ⟨hkept, hopen⟩ := retainOpen_kept hbytes hobserve
      refine ⟨hkept, fun d' _ hd' hw => ?_⟩
      obtain rfl := Option.some.inj hd'
      rw [← hbytes]
      exact hopen hw
    · cases hobserve
      exact ⟨OpensKept.refl w, fun d' hs' => absurd hs' hs⟩

theorem decodeBody_kept {kind : U8} {message : Message} {reset : Bool}
    (h : decodeBody kind bytes metadata w limits = .ok (message, issues, next, reset)) :
    OpensKept w next ∧ ∀ detail, message = .open detail → reset = false ∧
      ∀ d, metadata.session.isSome → metadata.direction = some d → w.Faithful →
        next.HasOpen d (Sha256.digest bytes.data) := by
  unfold decodeBody at h
  dsimp only at h
  split at h
  · obtain ⟨⟨message', issues', next'⟩, hopen, h⟩ := bind_eq_ok.1 h
    cases h
    obtain ⟨hkept, hwitnessed⟩ := decodeOpen_kept hopen
    exact ⟨hkept, fun _ _ => ⟨rfl, hwitnessed⟩⟩
  · obtain ⟨⟨message', issues', reset'⟩, hupdate, h⟩ := bind_eq_ok.1 h
    cases h
    refine ⟨OpensKept.refl w, ?_⟩
    rintro detail rfl
    obtain ⟨parsed, -, hupdate⟩ := bind_eq_ok.1 hupdate
    dsimp only at hupdate
    split_ifs at hupdate <;> cases hupdate
  · obtain ⟨_, -, h⟩ := bind_eq_ok.1 h
    cases h
    exact ⟨OpensKept.refl w, by simp⟩
  · obtain ⟨-, h⟩ := guard_eq_ok.1 h
    cases h
    exact ⟨OpensKept.refl w, by simp⟩
  · obtain ⟨⟨message', issues'⟩, hrefresh, h⟩ := bind_eq_ok.1 h
    cases h
    refine ⟨OpensKept.refl w, ?_⟩
    rintro detail rfl
    obtain ⟨-, hrefresh⟩ := guard_eq_ok.1 hrefresh
    cases hrefresh
  · cases h

structure OpensStep (w next : WireState) (bytes : EvidenceBytes) (metadata : PcapMetadata)
    (message : Message) : Prop where
  faithful : w.Faithful → next.Faithful
  kept : next.generation = w.generation → ∀ d digest, w.HasOpen d digest → next.HasOpen d digest
  witnessed : ∀ detail d, message = .open detail → metadata.session.isSome →
    metadata.direction = some d → w.Faithful → next.HasOpen d (Sha256.digest bytes.data)

theorem opensOf_empty (h : w.opens = .empty) (d : U8) : w.opensOf d = [] := by
  rw [WireState.opensOf, h]
  rfl

theorem faithful_empty (h : w.opens = .empty) : w.Faithful := by
  intro d o ho
  rw [opensOf_empty h] at ho
  cases ho

theorem decode_opens (h : decode c bytes metadata w limits = .ok (record, next)) :
    OpensStep w next bytes metadata record.message := by
  obtain ⟨kind, bound, body, message, issues, reset, hgen, hopens, hbody, -, hmessage, -, hsettle⟩ :=
    decode_ok h
  obtain ⟨hkept, hopen⟩ := decodeBody_kept hbody
  have hbound : OpensKept w bound := by
    have hsame : bound.opensOf = w.opensOf := by
      funext d
      rw [WireState.opensOf, hopens, WireState.opensOf]
    exact ⟨fun hw => by rwa [WireState.Faithful, hsame], fun d digest hd => by
      rwa [WireState.HasOpen, hsame]⟩
  rw [hmessage]
  unfold settle at hsettle
  split_ifs at hsettle with hreset
  · obtain ⟨hmoved, hempty⟩ := reset_ok hsettle
    refine ⟨fun _ => faithful_empty hempty, fun hsame => ?_, fun detail d hm => ?_⟩
    · rw [hmoved, decodeBody_generation hbody, hgen] at hsame
      omega
    · rw [(hopen detail hm).1] at hreset
      cases hreset
  · cases hsettle
    exact ⟨fun hw => hkept.faithful (hbound.faithful hw),
      fun _ d digest hd => hkept.kept d digest (hbound.kept d digest hd),
      fun detail d hm hs hd hw => (hopen detail hm).2 d hs hd (hbound.faithful hw)⟩

end Evidence

theorem contradictory_layout (hw : w.Contradictory) :
    (layoutEvidence w.decoder true).2 = .ambiguousOpenEvidence := by
  obtain ⟨d, _, _, ⟨a, ha, rfl⟩, ⟨b, hb, rfl⟩, hne⟩ := hw
  have hstates : (w.decoder.opens.get d).getD [] = (w.opensOf d).map (·.state) := by
    rw [WireState.decoder, FinMap.get_mapTo, WireState.opensOf]
    cases w.opens.get d <;> rfl
  have hkey : d ∈ w.decoder.opens.keys := by
    rw [w.decoder.opens.mem_keys]
    cases hget : w.decoder.opens.get d with
    | none =>
      rw [hget] at hstates
      rw [List.map_eq_nil_iff.1 hstates.symm] at ha
      cases ha
    | some opens => rfl
  have hnone : w.decoder.unambiguousOpen d = none := by
    cases hopen : w.decoder.unambiguousOpen d with
    | none => rfl
    | some first =>
      obtain ⟨-, hall⟩ := unambiguousOpen_spec hopen
      rw [hstates] at hall
      exact absurd ((hall _ (List.mem_map_of_mem ha)).2.trans
        (hall _ (List.mem_map_of_mem hb)).2.symm) hne
  have hexists : ∃ d ∈ w.decoder.opens.keys,
      ((w.decoder.unambiguousOpen d).all fun o => !o.capabilities.valid) = true :=
    ⟨d, hkey, by rw [hnone]; rfl⟩
  rw [layoutEvidence, if_neg (by simp), if_pos hexists]

theorem withLater_snd (ranges : List AttributeRange) : (withLater ranges).map (·.2) = ranges := by
  rw [withLater, List.map_map]
  exact List.zipIdx_map_fst 0 ranges

theorem ambiguousAttributes_unresolved {r : RouteRecord} (h : r.action = .announce) :
    ambiguousAttributes (unresolvedRecord r) = true := by
  rw [ambiguousAttributes, Bool.or_eq_true]
  by_cases hseen : ∃ x ∈ r.attributeRanges, x.code = 2
  · obtain ⟨x, hx, hcode⟩ := hseen
    have hmem : unresolvedRange x ∈ (withLater (unresolvedRecord r).attributeRanges).map (·.2) := by
      rw [withLater_snd]
      exact List.mem_map_of_mem hx
    obtain ⟨y, hy, hsame⟩ := List.mem_map.1 hmem
    refine .inr (List.any_eq_true.2 ⟨y, hy, ?_⟩)
    simp [ambiguousOccurrence, hsame, unresolvedRange, hcode]
  · left
    have hcode (x : AttributeRange) : (unresolvedRange x).code = x.code := by
      unfold unresolvedRange
      split_ifs <;> rfl
    have hmissing : (unresolvedRecord r).attributeRanges.any (·.code = 2) = false := by
      simp only [unresolvedRecord, List.any_map, List.any_eq_false, Function.comp_apply, hcode,
        decide_eq_true_eq]
      exact fun x hx hx' => hseen ⟨x, hx, hx'⟩
    have hreason : "mandatory_attribute_missing" ∈ incompletenessReasons (unresolvedRecord r) := by
      simp only [incompletenessReasons, hmissing, Bool.and_false, Bool.false_eq_true, if_false,
        List.mem_append, List.mem_singleton, or_true, true_or]
    have haction : (unresolvedRecord r).action = .announce := h
    simp [haction, List.ne_nil_of_mem hreason]

theorem decode_ambiguous (h : decode c bytes metadata w limits = .ok (record, next))
    (hw : w.Contradictory) (hscoped : metadata.scoped = true) {r : RouteRecord}
    (hr : r ∈ record.message.records) (haction : r.action = .announce) :
    ambiguousAttributes r = true := by
  obtain ⟨kind, bound, body, message, issues, reset, -, hopens, hbody, -, hmessage, -, -⟩ :=
    decode_ok h
  have hbound : bound.Contradictory := by
    simpa only [WireState.Contradictory, WireState.HasOpen, WireState.opensOf, hopens] using hw
  rw [hmessage] at hr
  unfold decodeBody at hbody
  dsimp only at hbody
  split at hbody
  · obtain ⟨⟨message', issues', next'⟩, hopen, hbody⟩ := bind_eq_ok.1 hbody
    obtain ⟨⟨state, detail⟩, -, hopen⟩ := bind_eq_ok.1 hopen
    obtain ⟨_, -, hopen⟩ := bind_eq_ok.1 hopen
    cases hopen
    cases hbody
    cases hr
  · obtain ⟨⟨message', issues', reset'⟩, hupdate, hbody⟩ := bind_eq_ok.1 hbody
    cases hbody
    obtain ⟨parsed, -, hupdate⟩ := bind_eq_ok.1 hupdate
    rw [hscoped, contradictory_layout hbound] at hupdate
    cases hupdate
    obtain ⟨old, -, rfl⟩ := List.mem_map.1 hr
    exact ambiguousAttributes_unresolved haction
  · obtain ⟨_, -, hbody⟩ := bind_eq_ok.1 hbody
    cases hbody
    cases hr
  · obtain ⟨-, hbody⟩ := guard_eq_ok.1 hbody
    cases hbody
    cases hr
  · obtain ⟨⟨message', issues'⟩, hrefresh, hbody⟩ := bind_eq_ok.1 hbody
    obtain ⟨-, hrefresh⟩ := guard_eq_ok.1 hrefresh
    cases hrefresh
    cases hbody
    cases hr
  · cases hbody

end Wire

namespace Pipeline.CapturedSessionPipeline

variable {m : Layout} {c : Carrier} {s t : CapturedSessionPipeline} {bytes : EvidenceBytes}
  {metadata : PcapMetadata} {event : Event} {plan : PreparedSessionEvent} {next : WireState}
  {change : Option RibEvent} {ribStatus : Option Bgp.ApplyStatus}

def openDigest : EventKind → Option Digest
  | .capturedOpen _ digest => some digest
  | _ => none

def Saw (events : List Event) (g : ℕ) (d : U8) (digest : Digest) : Prop :=
  ∃ old ∈ events, old.generation = g ∧ old.direction = some d ∧ openDigest old.kind = some digest

structure OpensRecorded (s : CapturedSessionPipeline) : Prop where
  captured : s.observer.key.source.kind = .captured
  faithful : s.wire.Faithful
  recorded : s.tainted = false → ∀ d digest, Saw s.observer.events s.wire.generation d digest →
    s.wire.HasOpen d digest

theorem Lockstep.bound (h : Lockstep m c s) (ht : s.tainted = false) :
    ∀ old ∈ s.observer.events, old.generation ≤ s.wire.generation := by
  intro old hold
  have hinv := h.observer.invariant
  cases hview : s.observer.view with
  | none =>
    rw [hinv.started.1 hview] at hold
    cases hold
  | some view =>
    rw [← h.view view hview]
    exact hinv.bound view hview ((h.usable ht).1 view hview).1 old hold

theorem Lockstep.wire_mono (h : Lockstep m c s) (e : Effect m c s t event plan next change ribStatus) :
    s.wire.generation ≤ t.wire.generation := by
  obtain ⟨-, -, -, -, hgen⟩ | ⟨-, hwire, -⟩ | ⟨-, -, hle, -⟩ := h.session_step e
  · exact hgen.ge
  · rw [hwire]
  · exact hle

theorem OpensRecorded.effect (h : OpensRecorded s) (hlock : Lockstep m c s)
    (e : Effect m c s t event plan next change ribStatus)
    (hfaithful : s.wire.Faithful → next.Faithful)
    (hkept : next.generation = s.wire.generation →
      ∀ d digest, s.wire.HasOpen d digest → next.HasOpen d digest)
    (hopen : ∀ digest d, openDigest event.kind = some digest → event.direction = some d →
      next.HasOpen d digest) : OpensRecorded t where
  captured := by
    rw [e.observer, SessionObserver.commit_key (SessionObserver.prepare_prepared e.prepared).2]
    exact h.captured
  faithful := by
    rw [e.wire]
    split_ifs
    · exact h.faithful
    · exact hfaithful h.faithful
  recorded := by
    rintro ht d digest ⟨old, hold, hgen, hd, hk⟩
    have hclear : plan.status ≠ .identityConflict := by
      rw [e.tainted, boundaryTaint, Bool.or_eq_false_iff, decide_eq_false_iff_not] at ht
      exact ht.1
    have hwire : t.wire = next := by rw [e.wire, if_neg hclear]
    have hmono := hlock.wire_mono e
    rw [hwire] at hgen hmono ⊢
    -- An event from before the call is of the current generation only if the call stayed in it.
    have hearlier (hin : old ∈ s.observer.events) : next.HasOpen d digest := by
      have hle := hlock.bound e.usable old hin
      have hsame : next.generation = s.wire.generation := by omega
      exact hkept hsame d digest (h.recorded e.usable d digest ⟨old, hin, hgen.trans hsame, hd, hk⟩)
    rw [e.observer] at hold
    obtain ⟨-, -, hevents⟩ | ⟨-, -, hevents⟩ :=
      SessionObserver.prepare_events hlock.observer.invariant e.prepared
    · exact hearlier (hevents ▸ hold)
    · rw [hevents] at hold
      rcases List.mem_append.1 hold with hin | hin
      · exact hearlier hin
      · obtain rfl := List.mem_singleton.1 hin
        exact hopen digest d hk hd

theorem Planned.opened {plan : MessagePlan} {record : Decoded} {observation : Observation}
    {message : Event} (scope : s.InScope bytes metadata)
    (h : Planned m c s bytes metadata plan record next observation message event change) :
    (∀ digest, openDigest event.kind = some digest →
      (∃ detail, record.message = .open detail) ∧ digest = Sha256.digest bytes.data) ∧
    (∀ detail, record.message = .open detail →
      event.kind = .capturedOpen (openAdvertisement detail) (Sha256.digest bytes.data)) ∧
    event.direction = metadata.direction := by
  obtain ⟨-, -, hrecord, hmetadata⟩ := h.event_record scope
  obtain ⟨hkind, -, hdirection, -, -⟩ := sessionEvent_ok h.described
  obtain ⟨-, -, hcaptured, -⟩ := messageKind_ok hkind
  rw [hrecord] at hkind
  rw [h.captured]
  refine ⟨fun digest hk => ?_, fun detail hm => ?_, ?_⟩
  · cases hm : message.kind with
    | «open» advertisement =>
      simp only [hm, capturedKind, openDigest, Option.some.injEq] at hk
      refine ⟨?_, hk.symm⟩
      rw [hm] at hkind
      cases hmessage : record.message with
      | «open» detail => exact ⟨detail, rfl⟩
      | update parsed =>
        rw [hmessage] at hkind
        simp only [messageKind, updateKind] at hkind
        split_ifs at hkind
        · cases hkind
        · cases hkind
        · obtain ⟨family, -, hkind⟩ := bind_eq_ok.1 hkind
          cases family <;> cases hkind
      | _ =>
        rw [hmessage] at hkind
        cases hkind
    | capturedOpen a' digest' => exact absurd hm (hcaptured a' digest')
    | _ =>
      rw [hm] at hk
      cases hk
  · rw [hm] at hkind
    have hopen : EventKind.open (openAdvertisement detail) = message.kind := Except.ok.inj hkind
    rw [← hopen]
    rfl
  · exact hdirection.trans (by rw [hrecord, hmetadata])

section Announced

variable {observation : Observation}

theorem ribEvent_announces {limits : Bgp.Limits} {e : RibEvent}
    {key : RouteKey} (h : ribEvent c limits observation event = .ok (some e))
    (ha : AdjRibIn.AnnouncesRoute e key) :
    e.scope.direction = observation.record.metadata.direction ∧
      ∃ r ∈ observation.routes, r.action = .announce ∧ r.ambiguousAttributes = false := by
  obtain ⟨kind, hkind, h⟩ := bind_eq_ok.1 h
  obtain ⟨kind', hsome, rfl⟩ := Option.map_eq_some_iff.1 (Except.ok.inj h)
  obtain ⟨route, pathId, attributes, identity, hmem, -⟩ := ha
  unfold ribKind at hkind
  cases hk : event.kind with
  | update =>
    rw [hk] at hkind
    obtain ⟨actions, hactions, hkind⟩ := bind_eq_ok.1 hkind
    rw [hsome] at hkind
    have hsame : kind' = .update actions := by
      have hinj := Except.ok.inj hkind
      split_ifs at hinj
      exact (Option.some.inj hinj).symm
    subst hsame
    obtain ⟨r, hr, haction⟩ := mem_mapM hactions _ hmem
    refine ⟨rfl, r, hr, ?_⟩
    unfold ribAction at haction
    cases hact : r.action with
    | withdraw =>
      rw [hact] at haction
      cases haction
    | announce =>
      rw [hact] at haction
      dsimp only at haction
      split_ifs at haction with hambiguous
      · cases haction
      · exact ⟨rfl, Bool.eq_false_iff.2 hambiguous⟩
  | _ =>
    rw [hk] at hkind
    have hinj := (Except.ok.inj hkind).trans hsome
    cases hinj <;> cases hmem

theorem ribEventFor_announces {verdict : OpenContinuityVerdict}
    {status : Session.ApplyStatus} {e : RibEvent} {key : RouteKey}
    (h : s.ribEventFor c observation event verdict status = .ok (some e))
    (ha : AdjRibIn.AnnouncesRoute e key) : ribEvent c s.limits observation event = .ok (some e) := by
  obtain ⟨candidate, hcandidate, h⟩ := bind_eq_ok.1 h
  have hsame : candidate = some e := by
    have hinj := Except.ok.inj h
    split at hinj
    · split_ifs at hinj
      exact hinj
    · exact hinj
  subst hsame
  obtain ⟨route, pathId, attributes, identity, hmem, -⟩ := ha
  unfold candidateFor at hcandidate
  by_cases hstatus : status = .identityConflict
  · rw [if_pos hstatus] at hcandidate
    cases hcandidate
    cases hmem
  rw [if_neg hstatus] at hcandidate
  split at hcandidate
  · split_ifs at hcandidate
    · cases hcandidate
      cases hmem
    · cases hcandidate
  · exact hcandidate

structure OpenEffect (m : Layout) (c : Carrier) (s t : CapturedSessionPipeline) (event : Event)
    (plan : PreparedSessionEvent) (next : WireState) (change : Option RibEvent)
    (ribStatus : Option Bgp.ApplyStatus) : Prop where
  effect : Effect m c s t event plan next change ribStatus
  faithful : s.wire.Faithful → next.Faithful
  kept : next.generation = s.wire.generation →
    ∀ d digest, s.wire.HasOpen d digest → next.HasOpen d digest
  witnessed : ∀ digest d, openDigest event.kind = some digest → event.direction = some d →
    s.wire.Faithful → next.HasOpen d digest
  silent : s.wire.Contradictory → ∀ e ∈ change, e.scope.direction.isSome →
    ∀ key, ¬ AdjRibIn.AnnouncesRoute e key

theorem message_openEffect {plan : MessagePlan} {record : Decoded}
    {message : Event} (scope : s.InScope bytes metadata) (usable : s.tainted = false)
    (h : Planned m c s bytes metadata plan record next observation message event change) :
    OpenEffect m c s (s.published metadata plan) event plan.sessionPlan next change
      plan.receipt.ribStatus := by
  have hopens := decode_opens h.decoded
  obtain ⟨hopen, -, hdirection⟩ := h.opened scope
  have hs : metadata.session.isSome := by simp [scope.1.2]
  refine ⟨message_effect scope usable h, hopens.faithful, hopens.kept, ?_, ?_⟩
  · intro digest d hk hd hw
    obtain ⟨⟨detail, hmessage⟩, rfl⟩ := hopen digest hk
    exact hopens.witnessed detail d hmessage hs (hdirection ▸ hd) hw
  · rintro hw e rfl hd key ha
    obtain ⟨hscope, r, hr, haction, hclear⟩ :=
      ribEvent_announces (ribEventFor_announces h.changed ha) ha
    obtain ⟨-, -, hrecord, hmetadata⟩ := h.event_record scope
    rw [hscope, hrecord, hmetadata] at hd
    have hroutes : observation.routes =
        record.message.records.map (Observation.routeObservation c) := by
      have hobserved := h.observed
      unfold Observation.fromNormalized at hobserved
      split at hobserved
      · cases hobserved
      · cases hobserved
        rfl
    rw [hroutes] at hr
    obtain ⟨old, hold, rfl⟩ := List.mem_map.1 hr
    have hambiguous := decode_ambiguous h.decoded hw (by simp [PcapMetadata.scoped, hs, hd]) hold
      haction
    have hsame : ambiguousAttributes old = false := hclear
    rw [hambiguous] at hsame
    cases hsame

theorem call_openEffect (x : Call) : (call m c s x).2 = s ∨
    ∃ event plan next change ribStatus,
      OpenEffect m c s (call m c s x).2 event plan next change ribStatus := by
  cases x with
  | message bytes metadata =>
    have hstep := applyMessage_step m c s bytes metadata
    unfold call
    dsimp only
    generalize (applyMessage m c bytes metadata s).1 = result at hstep
    generalize (applyMessage m c bytes metadata s).2 = t at hstep ⊢
    cases hstep with
    | refused e => exact .inl rfl
    | replayed scope hretained => exact .inl rfl
    | applied scope fresh usable planned =>
      obtain ⟨record, next, observation, message, event, change, hplanned⟩ :=
        planMessage_ok planned
      exact .inr ⟨_, _, _, _, _, message_openEffect scope usable hplanned⟩
  | gap recordId reason =>
    have hstep := boundary_step s .gap recordId reason fun s => s.gapTransaction m c recordId reason
    unfold call observeGap
    dsimp only
    generalize boundary .gap recordId reason (fun s => s.gapTransaction m c recordId reason) s
      = answer at hstep ⊢
    obtain ⟨result, t⟩ := answer
    dsimp only at hstep ⊢
    cases hstep with
    | refused e => exact .inl rfl
    | replayed hretained => exact .inl rfl
    | applied fresh usable done =>
      obtain ⟨event, plan, change, ribStatus, heffect, -, -, -, hdirection, rfl⟩ :=
        gap_effect usable done
      refine .inr ⟨event, plan, s.wire, _, ribStatus, heffect, id, fun _ _ _ h => h, ?_, ?_⟩
      · intro digest d _ hd
        rw [hdirection] at hd
        cases hd
      · rintro - e he hd
        cases he
        cases hd
  | reset recordId reason =>
    have hstep := boundary_step s .reset recordId reason
      fun s => s.resetTransaction m c recordId reason
    unfold call resetGeneration
    dsimp only
    generalize boundary .reset recordId reason (fun s => s.resetTransaction m c recordId reason) s
      = answer at hstep ⊢
    obtain ⟨result, t⟩ := answer
    dsimp only at hstep ⊢
    cases hstep with
    | refused e => exact .inl rfl
    | replayed hretained => exact .inl rfl
    | applied fresh usable done =>
      obtain ⟨event, plan, wire, change, ribStatus, heffect, -, -, -, hdirection, hboundary,
        hmoved, hopens⟩ := reset_effect usable done
      refine .inr ⟨event, plan, wire, change, ribStatus, heffect,
        fun _ => faithful_empty hopens, fun hsame => by omega, ?_, ?_⟩
      · intro digest d _ hd
        rw [hdirection] at hd
        cases hd
      · rintro - e he hd
        cases heffect.move with
        | conflict =>
          cases he
          cases hd
        | stay clear inside =>
          rw [hboundary] at inside
          cases inside
        | advance =>
          split_ifs at he
          · cases he
            cases hd
          · cases he

end Announced

section Runs

variable {u : CapturedSessionPipeline} {calls : List Call} {g : ℕ}

theorem opensRecorded_call (h : OpensRecorded s) (hlock : Lockstep m c s) (x : Call) :
    OpensRecorded (call m c s x).2 := by
  obtain hsame | ⟨event, plan, next, change, ribStatus, e⟩ :=
    call_openEffect (m := m) (c := c) (s := s) x
  · rwa [hsame]
  · exact h.effect hlock e.effect e.faithful e.kept
      fun digest d hk hd => e.witnessed digest d hk hd h.faithful

theorem opensRecorded_new {observerOwner ribOwner : ℕ} {captureNamespace : Vector U8 32}
    {sourceId : String} {session : U64} {limits : Bgp.Limits}
    (h : new m observerOwner ribOwner captureNamespace sourceId session limits = .ok s) :
    OpensRecorded s := by
  obtain ⟨_, -, h⟩ := bind_eq_ok.1 h
  obtain ⟨observer, hobserver, h⟩ := bind_eq_ok.1 h
  obtain ⟨rib, -, h⟩ := bind_eq_ok.1 h
  cases h
  obtain ⟨hinitial, -⟩ := SessionObserver.new_ok hobserver
  refine ⟨by rw [hinitial]; rfl, faithful_empty rfl, ?_⟩
  rintro - d digest ⟨old, hold, -⟩
  rw [hinitial] at hold
  cases hold

theorem Reachable.opensRecorded (h : Reachable m c s) : OpensRecorded s := by
  obtain ⟨_, _, _, _, _, _, start, calls, hnew, hrun⟩ := h
  have hall : Lockstep m c s ∧ OpensRecorded s := by
    induction hrun with
    | nil => exact ⟨lockstep_new hnew, opensRecorded_new hnew⟩
    | snoc before x ih => exact ⟨ih.1.call x, opensRecorded_call ih.2 ih.1 x⟩
  exact hall.2

theorem run_rib_events (hlock : Lockstep m c s) (hrun : Run m c s calls t) :
    s.rib.events ⊆ t.rib.events := by
  induction hrun with
  | nil => exact List.Subset.refl _
  | snoc before x ih =>
    rename_i earlier mid
    obtain hsame | ⟨event, plan, next, change, ribStatus, e⟩ :=
      call_openEffect (m := m) (c := c) (s := mid) x
    · rwa [hsame]
    · intro old hold
      exact (e.effect.rib.mem_events (hlock.run before).rib old).2 (.inl (ih hold))

structure Quiet (g : ℕ) (s : CapturedSessionPipeline) : Prop where
  silent : ∀ old ∈ s.rib.events, old.scope.generation = g → old.scope.direction.isSome →
    ∀ key, ¬ AdjRibIn.AnnouncesRoute old key
  contradictory : s.wire.generation = g → s.wire.Contradictory
  passed : g ≤ s.wire.generation

theorem Quiet.effect (h : Quiet g s) (hlock : Lockstep m c s)
    (e : OpenEffect m c s t event plan next change ribStatus) : Quiet g t where
  silent := by
    intro old hold hgen hd
    rcases (e.effect.rib.mem_events hlock.rib old).1 hold with hin | hchange
    · exact h.silent old hin hgen hd
    · cases hmove : e.effect.move with
      | conflict =>
        cases hchange
        cases hd
      | stay clear inside same kept within =>
        obtain ⟨-, hcurrent, -⟩ := within old hchange
        exact e.silent (h.contradictory (hcurrent.symm.trans hgen)) old hchange hd
      | advance =>
        split_ifs at hchange
        cases hchange
        cases hd
  contradictory := by
    intro hgen
    have hmono := hlock.wire_mono e.effect
    have hpassed := h.passed
    have hw := h.contradictory (by omega)
    rw [e.effect.wire] at hgen ⊢
    split_ifs at hgen ⊢
    · exact hw
    · obtain ⟨d, a, b, ha, hb, hne⟩ := hw
      have hsame : next.generation = s.wire.generation := by
        rw [e.effect.wire, if_neg ‹_›] at hmono
        omega
      exact ⟨d, a, b, e.kept hsame d a ha, e.kept hsame d b hb, hne⟩
  passed := h.passed.trans (hlock.wire_mono e.effect)

theorem Quiet.run (h : Quiet g s) (hlock : Lockstep m c s) (hrun : Run m c s calls t) :
    Quiet g t := by
  induction hrun with
  | nil => exact h
  | snoc before x ih =>
    rename_i earlier mid
    obtain hsame | ⟨event, plan, next, change, ribStatus, e⟩ :=
      call_openEffect (m := m) (c := c) (s := mid) x
    · rwa [hsame]
    · exact ih.effect (hlock.run before) e

theorem Quiet.inactive (h : Quiet g s) (hlock : Lockstep m c s) {k : RouteKey} {e : RouteEntry}
    (hget : s.rib.entries.get k = some e) (hgen : k.scope.generation = g) : e.status ≠ .active := by
  intro ha
  obtain ⟨⟨old, hold, hannounces⟩, -⟩ := AdjRibIn.current_generation hlock.rib hget (.inl ha)
  obtain ⟨-, -, -, hd, -⟩ := (AdjRibIn.entriesInv_reachable hlock.rib k e hget).active ha
  have hscope : k.scope = old.scope := by
    obtain ⟨route, pathId, attributes, identity, -, hkey⟩ := hannounces
    rw [hkey]
    rfl
  rw [hscope] at hgen hd
  exact h.silent old hold hgen hd k hannounces

theorem Lockstep.gap_inactive (h : Lockstep m c s) {old : RibEvent} (hold : old ∈ s.rib.events)
    (hgap : AdjRibIn.RibEventKind.isGap old.kind = true) {k : RouteKey} {e : RouteEntry}
    (hget : s.rib.entries.get k = some e) (hgen : k.scope.generation = old.scope.generation) :
    e.status ≠ .active := by
  intro ha
  obtain ⟨-, -, -, hsilent⟩ := AdjRibIn.current_generation h.rib hget (.inl ha)
  exact hsilent ha ⟨old, hold, hgap, (h.session old hold).trans (h.live hget (.inl ha)).1.symm,
    hgen.symm⟩

theorem openContinuity_iff {o : SessionObserver} {a : OpenAdvertisement} {digest : Digest} {d : U8}
    (hinv : o.Invariant m) (hlive : o.Live) (hcaptured : o.key.source.kind = .captured)
    (hview : ∀ view, o.view = some view → view.generation = event.generation)
    (hsession : event.session = o.key) (hkind : event.kind = .capturedOpen a digest)
    (hd : event.direction = some d) :
    o.openContinuity event = .contradiction o.key event.generation ↔
      (∃ previous, Saw o.events event.generation d previous) ∧
        ¬ Saw o.events event.generation d digest := by
  unfold SessionObserver.openContinuity
  rw [hkind]
  cases hv : o.view with
  | none =>
    have hempty := hinv.started.1 hv
    simp [Saw, hempty]
  | some view =>
    obtain ⟨hflag, hopen⟩ := hlive view hv
    dsimp only
    rw [if_neg (by simp [hcaptured, hsession, hview view hv, hd, hflag, hopen])]
    generalize hprevious : o.events.filterMap _ = previous
    have hmem (x : Digest) : x ∈ previous ↔ Saw o.events event.generation d x := by
      rw [← hprevious, List.mem_filterMap, hd]
      refine exists_congr fun old => and_congr_right fun _ => ?_
      by_cases hsame : old.generation = event.generation ∧ old.direction = some d
      · rw [if_pos hsame]
        cases old.kind <;> simp [hsame, openDigest]
      · rw [if_neg hsame]
        refine iff_of_false (by simp) fun hsaw => hsame ⟨hsaw.1, hsaw.2.1⟩
    rw [← hmem]
    simp only [← hmem]
    split_ifs with hin hnil
    · simp [hin]
    · simp [hnil]
    · simp [hin, List.exists_mem_of_ne_nil _ hnil]

/-- Behind an OPEN that differs from the earlier ones of its direction and generation, no route of
the generation is active in any later state. -/
theorem contradictory_open_silences (hr : Reachable m c s) {receipt : ApplyReceipt}
    (happly : applyMessage m c bytes metadata s = (.ok receipt, t))
    (happlied : receipt.sessionStatus = .applied) {detail : OpenDetail}
    (hopen : receipt.normalized.message = .open detail)
    (hgeneration : receipt.normalized.generation = some g) {d : U8}
    (hd : metadata.direction = some d)
    (hearlier : ∃ previous, Saw s.observer.events g d previous)
    (hdiffers : ¬ Saw s.observer.events g d (Sha256.digest bytes.data))
    (hrun : Run m c t calls u) {k : RouteKey} {e : RouteEntry}
    (hget : u.rib.entries.get k = some e) (hk : k.scope.generation = g) : e.status ≠ .active := by
  have hlock := hr.lockstep
  have hstart : Lockstep m c t := by
    have hcall := hlock.call (.message bytes metadata)
    rwa [show (call m c s (.message bytes metadata)).2 = t by simp only [call, happly]] at hcall
  have hstep := applyMessage_step m c s bytes metadata
  rw [happly] at hstep
  dsimp only at hstep
  generalize hresult : (Except.ok receipt : Result ApplyReceipt) = result at hstep
  cases hstep with
  | refused => cases hresult
  | replayed scope hretained =>
    obtain ⟨_, -, hresult⟩ := bind_eq_ok.1 hresult.symm
    cases hresult
    cases happlied
  | applied scope fresh usable planned =>
    rename_i plan
    obtain rfl := Except.ok.inj hresult
    obtain ⟨record, next, observation, message, event, change, hplanned⟩ := planMessage_ok planned
    have effect := message_openEffect scope usable hplanned
    obtain ⟨-, hevent, -, -⟩ := hplanned.event_record scope
    obtain ⟨-, hcaptured, hdirection⟩ := hplanned.opened scope
    have hkind := hcaptured detail (hplanned.normalized ▸ hopen)
    obtain rfl : s.wire.generation = g := by
      obtain ⟨-, hrecorded⟩ := decode_generation hplanned.decoded (by simp [scope.1.2])
      rw [hplanned.normalized, hrecorded] at hgeneration
      exact Option.some.inj hgeneration
    have hrecord := hr.opensRecorded
    have hstatus : plan.sessionPlan.status = .applied := hplanned.sessionStatus.symm.trans happlied
    have hverdict : s.observer.openContinuity event =
        .contradiction s.observer.key event.generation := by
      rw [openContinuity_iff hlock.observer.invariant (hlock.usable usable).1 hrecord.captured
        (fun view hview => (hlock.view view hview).trans hevent.symm)
        (SessionObserver.prepare_prepared hplanned.prepared).1 hkind (hdirection.trans hd), hevent]
      exact ⟨hearlier, hdiffers⟩
    have hchange : (if s.hasRibGeneration s.wire.generation then
        some (gapEvent s.observer.key s.wire.generation event.recordId contradictionReason)
        else none) = change := by
      have hchanged := hplanned.changed
      rw [hverdict, hstatus, hevent] at hchanged
      obtain ⟨candidate, hcandidate, hchanged⟩ := bind_eq_ok.1 hchanged
      have hcandidate := Except.ok.inj hcandidate
      subst hcandidate
      rw [← Except.ok.inj hchanged]
      split_ifs <;> rfl
    have hrib := effect.effect.rib.mem_events hlock.rib
    by_cases hhas : s.hasRibGeneration s.wire.generation = true
    · -- The routes that were announced before end with the gap of this call.
      rw [if_pos hhas] at hchange
      exact (hstart.run hrun).gap_inactive (run_rib_events hstart hrun ((hrib _).2 (.inr hchange.symm)))
        rfl hget hk
    · -- No route was announced before, and none will be.
      rw [if_neg hhas] at hchange
      have hkept : next.generation = s.wire.generation := by
        cases hmove : effect.effect.move with
        | conflict hconflict => simp [hstatus] at hconflict
        | stay clear inside same kept => exact kept
        | advance clear hnext => simp [Event.next, hkind] at hnext
      have hwire : plan.wire = next := by
        rw [hplanned.wire, if_neg (by simp [hstatus])]
      obtain ⟨previous, hprevious⟩ := hearlier
      have hquiet : Quiet s.wire.generation (s.published metadata plan) := {
        silent := by
          intro old hold hgen
          rcases (hrib old).1 hold with hin | hin
          · exact absurd (hasRibGeneration_iff.2 ⟨old, hin, hlock.session old hin, hgen⟩) hhas
          · rw [← hchange] at hin
            cases hin
        contradictory := by
          intro _
          change plan.wire.Contradictory
          rw [hwire]
          refine ⟨d, previous, Sha256.digest bytes.data,
            effect.kept hkept d previous (hrecord.recorded usable d previous hprevious),
            effect.witnessed _ d (by rw [hkind]; rfl) (hdirection.trans hd) hrecord.faithful, ?_⟩
          rintro rfl
          exact hdiffers hprevious
        passed := hlock.wire_mono effect.effect }
      exact (hquiet.run hstart hrun).inactive (hstart.run hrun) hget hk

end Runs

def sampleOpen (asn : U8) : List U8 := [4, 0, asn, 0, 90, 192, 0, 2, 1, 0]

def sampleOpened : CapturedSessionPipeline :=
  callAll SessionObserver.sampleLayout sampleCarrier sampleStart
    [.message sampleWithdrawal (sampleMetadata "w" 0), sampleMessage "a" 0 1 (sampleOpen 1)]

def HasRoute (g : ℕ) (s : CapturedSessionPipeline) : Prop :=
  ∃ k ∈ s.rib.entries.keys, k.scope.generation = g

instance (g : ℕ) : Decidable (HasRoute g s) := inferInstanceAs (Decidable (∃ k ∈ _, _))

theorem answer_of_map {α β σ : Type} {f : α → β} {p : σ → Prop} {x : Result α × σ} {b : β}
    (h : x.1.map f = .ok b) (hp : p x.2) : ∃ a t, x = (.ok a, t) ∧ p t ∧ b = f a := by
  obtain ⟨a, ha, hb⟩ := map_ok h
  exact ⟨a, x.2, Prod.ext ha rfl, hp, hb⟩

/-- Another OPEN of the same direction. -/
theorem contradictory_open_silences_route : ∃ (t : CapturedSessionPipeline) (k : RouteKey)
    (e : RouteEntry), t.rib.entries.get k = some e ∧ k.scope.generation = 0 ∧ e.status ≠ .active := by
  have hanswer : (applyMessage SessionObserver.sampleLayout sampleCarrier
      (sampleBytes 1 (sampleOpen 2)) (sampleMetadata "b" 0) sampleOpened).1.map
        (fun r => (r.sessionStatus, r.normalized.generation, r.normalized.message)) =
      .ok (.applied, some 0, .open ⟨2, 90, 0xc0000201, none, false, [], [], false⟩) := by
    decide +kernel
  have hroute : HasRoute 0 (applyMessage SessionObserver.sampleLayout sampleCarrier
      (sampleBytes 1 (sampleOpen 2)) (sampleMetadata "b" 0) sampleOpened).2 := by
    decide +kernel
  obtain ⟨receipt, t, happly, ⟨k, hk, hgen⟩, hsame⟩ := answer_of_map (p := HasRoute 0) hanswer hroute
  obtain ⟨hstatus, hrest⟩ := Prod.mk.inj hsame
  obtain ⟨hgeneration, hmessage⟩ := Prod.mk.inj hrest
  obtain ⟨e, he⟩ := Option.isSome_iff_exists.1 ((FinMap.mem_keys _ k).1 hk)
  have hearlier : ∃ old ∈ sampleOpened.observer.events, old.generation = 0 ∧
      old.direction = some 0 ∧ (openDigest old.kind).isSome := by
    decide +kernel
  obtain ⟨old, hold, hzero, hside, hsome⟩ := hearlier
  obtain ⟨previous, hprevious⟩ := Option.isSome_iff_exists.1 hsome
  have hdiffers : ¬ ∃ old ∈ sampleOpened.observer.events, old.generation = 0 ∧
      old.direction = some 0 ∧ openDigest old.kind =
        some (Sha256.digest (sampleBytes 1 (sampleOpen 2)).data) := by
    decide +kernel
  have hside' : (sampleMetadata "b" 0).direction = some 0 := rfl
  exact ⟨t, k, e, he, hgen, contradictory_open_silences (reachable_sample _) happly hstatus.symm
    hmessage.symm hgeneration.symm hside' ⟨previous, old, hold, hzero, hside, hprevious⟩ hdiffers
    .nil he hgen⟩

end Pipeline.CapturedSessionPipeline

end PcapEvidence.Bgp
