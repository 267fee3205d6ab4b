import PcapEvidence.MrtSessions

/-!
# Evidence behind an observation

The evidence of a session is read off the published account of each record: how often the session
was reset, and since it was last reset or cleared, the state that was last reported, the chain of
transitions and the OPEN messages.
-/

namespace PcapEvidence.Mrt

open FiniteMap History Bgp ImportedSession

section Account

/-- What the account of a record says about a session. -/
inductive Effect where
  | silent
  | moved (old new : U16)
  | opened (direction : U8) (message : OpenState)
  | reset
  | cleared

structure OpenRecord where
  direction : U8
  message : OpenState
  reported : Option U16

/-- The evidence of a session. The chain and the OPEN messages are those since the last record that
reset the session or cleared it. -/
structure Evidence where
  resets : ℕ
  reported : Option U16
  chain : List (U16 × U16)
  opens : List OpenRecord

def Evidence.initial : Evidence := ⟨0, none, [], []⟩

/-- A transition that begins a new generation. -/
def restarts (old new : U16) : Prop := new.toNat = 1 ∨ old.toNat = 4 ∧ new.toNat = 3

instance (old new : U16) : Decidable (restarts old new) := inferInstanceAs (Decidable (_ ∨ _))

def Evidence.add (e : Evidence) : Effect → Evidence
  | .silent => e
  | .moved old new =>
    if restarts old new then ⟨e.resets + 1, some new, [], []⟩
    else { e with reported := some new, chain := e.chain ++ [(old, new)] }
  | .opened direction message => { e with opens := e.opens ++ [⟨direction, message, e.reported⟩] }
  | .reset => ⟨e.resets + 1, none, [], []⟩
  | .cleared => ⟨e.resets, none, [], []⟩

variable (g : Grammar) (limits : Bgp.Limits)

def messageEffect (outer : Bgp4mp) (bytes : List U8) (event : Event) : Effect :=
  match event.parseStatus with
  | .decodedOpen =>
    match g.parseOpen bytes limits with
    | .ok body => .opened (directionOf outer) (openOf outer bytes body)
    | .error _ => .silent
  | .decodedNotificationReset | .quarantinedSessionReset => .reset
  | .rejected => if event.issues = [frameRejected] then .cleared else .silent
  | _ => .silent

/-- What a record says about the session it was assigned to. -/
def ownEffect (event : Event) : MrtRecord → Effect
  | .message _ outer _ bytes => messageEffect g limits outer bytes event
  | .state _ _ old new => if event.parseStatus = .reportedTransition then .moved old new else .reset
  | .malformed _ _ => .cleared

/-- A record that is not assigned clears the sessions that its account names. -/
def effect (id : String) (record : MrtRecord) : Result ReplayRecord → Effect
  | .error _ => .silent
  | .ok out =>
    if out.event.session = some id then ownEffect g limits out.event record
    else if id ∈ out.event.affected.map AffectedScope.session then .cleared else .silent

def evidence (id : String) (records : List MrtRecord) : Evidence :=
  (records.foldl (fun x record => ((replay g limits x.1 record).1,
    x.2.add (effect g limits id record (replay g limits x.1 record).2)))
      (([], .initial) : ReplayState × Evidence)).2

theorem evidence_snoc (id : String) (records : List MrtRecord) (record : MrtRecord) :
    evidence g limits id (records ++ [record]) = (evidence g limits id records).add
      (effect g limits id record (replay g limits (after g limits records) record).2) := by
  have hstate : ∀ (state : ReplayState) (e : Evidence), (records.foldl (fun x record =>
      ((replay g limits x.1 record).1,
        x.2.add (effect g limits id record (replay g limits x.1 record).2))) (state, e)).1 =
      records.foldl (fun state record => (replay g limits state record).1) state := by
    induction records with
    | nil => exact fun _ _ => rfl
    | cons record records ih => exact fun _ _ => ih _ _
  rw [evidence, evidence, List.foldl_append, after, ← hstate [] .initial]
  rfl

end Account

section Backing

structure Backed (s : ImportedSession) (e : Evidence) : Prop where
  generation : s.decoder.generation = e.resets
  reported : s.fsm = e.reported
  opens : ∀ d, (s.decoder.opens.get d).getD [] =
    (e.opens.filter fun x => x.direction = d).map OpenRecord.message

/-- OPENs were taken while a connection was opening; transitions are legal and linked. -/
structure Evidence.Sound (e : Evidence) : Prop where
  sided : ∀ x ∈ e.opens, x.direction = 0 ∨ x.direction = 1
  taken : ∀ x ∈ e.opens, ∃ f ∈ x.reported, 2 ≤ f.toNat ∧ f.toNat ≤ 4
  legal : ∀ x ∈ e.chain, validFsmTransition x.1 x.2 = true
  linked : e.chain.IsChain fun x y => x.2 = y.1
  ends : ∀ x ∈ e.chain.getLast?, e.reported = some x.2
  started : e.chain = [] → e.reported ≠ some 6

variable {s s' : ImportedSession} {e : Evidence} {old new : U16}

theorem sound_of_empty {resets : ℕ} {reported : Option U16} (h : reported ≠ some 6) :
    Evidence.Sound ⟨resets, reported, [], []⟩ where
  sided := by simp
  taken := by simp
  legal := by simp
  linked := by simp
  ends := by simp
  started := fun _ => h

theorem backed_of_empty {resets : ℕ} {reported : Option U16}
    (hgeneration : s.decoder.generation = resets) (hreported : s.fsm = reported)
    (hopens : s.decoder.opens = .empty) : Backed s ⟨resets, reported, [], []⟩ where
  generation := hgeneration
  reported := hreported
  opens d := by simp [hopens]

theorem reset_eq {d d' : SessionState} (h : d.reset = .ok d') : d' = ⟨d.generation + 1, .empty⟩ := by
  simp only [SessionState.reset] at h
  split at h
  · exact (Except.ok.inj h).symm
  · cases h

theorem Backed.clearGrammar (h : Backed s e) : Backed s.clearGrammar (e.add .cleared) :=
  backed_of_empty h.generation rfl rfl

theorem Evidence.Sound.cleared (e : Evidence) : (e.add .cleared).Sound := sound_of_empty (by simp)

theorem Evidence.Sound.reset (e : Evidence) : (e.add .reset).Sound := sound_of_empty (by simp)

theorem Backed.pushOpen (h : Backed s e) (direction : U8) (message : OpenState) :
    Backed (s.pushOpen direction message) (e.add (.opened direction message)) where
  generation := h.generation
  reported := h.reported
  opens d := by
    simp only [ImportedSession.pushOpen, Evidence.add, List.filter_append, List.map_append, ← h.opens]
    by_cases hd : d = direction
    · subst hd
      simp
    · rw [FinMap.get_insert_of_ne _ hd]
      simp [Ne.symm hd]

theorem Evidence.Sound.opened (h : e.Sound) {direction : U8} (message : OpenState)
    (hside : direction = 0 ∨ direction = 1)
    (htaken : ∃ f ∈ e.reported, 2 ≤ f.toNat ∧ f.toNat ≤ 4) :
    (e.add (.opened direction message)).Sound where
  sided x hx := by
    rcases List.mem_append.1 hx with hx | hx
    · exact h.sided x hx
    · obtain rfl : x = _ := by simpa using hx
      exact hside
  taken x hx := by
    rcases List.mem_append.1 hx with hx | hx
    · exact h.taken x hx
    · obtain rfl : x = _ := by simpa using hx
      exact htaken
  legal := h.legal
  linked := h.linked
  ends := h.ends
  started := h.started

theorem Evidence.Sound.moved (h : e.Sound) (hvalid : validFsmTransition old new = true)
    (hold : ∀ f ∈ e.reported, f = old) : (e.add (.moved old new)).Sound := by
  rw [Evidence.add]
  split
  next hrestarts =>
    refine sound_of_empty fun hnew => ?_
    obtain rfl : new = 6 := Option.some.inj hnew
    revert hrestarts
    simp [restarts]
  · refine ⟨h.sided, h.taken, ?_, ?_, by simp, by simp⟩
    · intro x hx
      rcases List.mem_append.1 hx with hx | hx
      · exact h.legal x hx
      · obtain rfl : x = _ := by simpa using hx
        exact hvalid
    · refine List.isChain_append.2 ⟨h.linked, by simp, ?_⟩
      intro x hx y hy
      obtain rfl : (old, new) = y := by simpa using hy
      exact hold x.2 (h.ends x hx)

theorem Backed.moved (h : Backed s e) {decoder : SessionState}
    (hdecoder : s.transitionDecoder old new = .ok decoder) :
    Backed { s with decoder := decoder, fsm := some new, stateConflict := false }
      (e.add (.moved old new)) := by
  simp only [transitionDecoder] at hdecoder
  rw [Evidence.add]
  by_cases hrestarts : restarts old new
  · rw [if_pos hrestarts]
    rw [restarts] at hrestarts
    rw [if_pos hrestarts] at hdecoder
    rw [reset_eq hdecoder]
    exact backed_of_empty (congrArg (· + 1) h.generation) rfl rfl
  · rw [if_neg hrestarts]
    rw [restarts] at hrestarts
    rw [if_neg hrestarts] at hdecoder
    obtain rfl := Except.ok.inj hdecoder
    exact ⟨h.generation, rfl, h.opens⟩

end Backing

section Steps

variable {g : Grammar} {limits : Bgp.Limits} {s s' : ImportedSession} {e : Evidence}

theorem effect_own {id : String} (record : MrtRecord) {out : ReplayRecord}
    (h : out.event.session = some id) :
    effect g limits id record (.ok out) = ownEffect g limits out.event record := if_pos h

theorem effect_other {id other : String} (record : MrtRecord) {out : ReplayRecord}
    (h : out.event.session = some id) (haffected : out.event.affected = []) (hne : other ≠ id) :
    effect g limits other record (.ok out) = .silent := by
  simp [effect, h, haffected, Ne.symm hne]

theorem messageEffect_quiet {outer : Bgp4mp} {bytes : List U8} {event : Event}
    (h : Quiet event.parseStatus event.issues) :
    messageEffect g limits outer bytes event = .silent := by
  obtain ⟨hopen, hnotification, hreset, hframe⟩ := h
  rw [messageEffect]
  split
  next hstatus => exact absurd hstatus hopen
  next hstatus => exact absurd hstatus hnotification
  next hstatus => exact absurd hstatus hreset
  next hstatus => exact if_neg fun hissues => hframe ⟨hstatus, hissues⟩
  · rfl

theorem taken_of_opening (h : Backed s e) (hopening : s.opening = true) :
    ∃ f ∈ e.reported, 2 ≤ f.toNat ∧ f.toNat ≤ 4 := by
  rw [ImportedSession.opening, Bool.and_eq_true, h.reported, Option.any_eq_true] at hopening
  obtain ⟨-, f, hf, hrange⟩ := hopening
  exact ⟨f, hf, by simpa using hrange⟩

theorem directionOf_side (outer : Bgp4mp) : directionOf outer = 0 ∨ directionOf outer = 1 := by
  rw [directionOf]
  split
  · exact .inr rfl
  · exact .inl rfl

theorem message_backed {outer : Bgp4mp} {bytes : List U8} {out : Result ReplayRecord}
    (hstep : s.MessageStep g limits outer bytes s' out) (h : Backed s e) (hsound : e.Sound)
    (source : MrtSource) (timed : Bool) :
    Backed s' (e.add (effect g limits s.id (.message source outer timed bytes) out)) ∧
      (e.add (effect g limits s.id (.message source outer timed bytes) out)).Sound := by
  cases hstep with
  | failed error => exact ⟨h, hsound⟩
  | quiet status issues hquiet =>
    rw [effect_own _ rfl, ownEffect, messageEffect_quiet hquiet]
    exact ⟨h, hsound⟩
  | opened body issues hparse hopening =>
    have heffect : effect g limits s.id (.message source outer timed bytes)
        (.ok (s.report (some (directionOf outer)) s.decoder.generation .message .decodedOpen issues)) =
        .opened (directionOf outer) (openOf outer bytes body) := by
      rw [effect_own _ rfl, ownEffect, messageEffect, report]
      simp only [hparse]
    rw [heffect]
    exact ⟨h.pushOpen _ _, hsound.opened _ (directionOf_side outer) (taken_of_opening h hopening)⟩
  | reset status issues decoder hstatus hreset =>
    have heffect : effect g limits s.id (.message source outer timed bytes)
        (.ok (s.report (some (directionOf outer)) s.decoder.generation .message status issues)) =
        .reset := by
      rw [effect_own _ rfl]
      rcases hstatus with rfl | rfl <;> rfl
    rw [heffect, reset_eq hreset]
    exact ⟨backed_of_empty (congrArg (· + 1) h.generation) rfl rfl, .reset e⟩
  | cleared =>
    rw [effect_own _ rfl]
    exact ⟨h.clearGrammar, .cleared e⟩
  | observed status issues routes gap hquiet hestablished hbilateral =>
    rw [effect_own _ rfl, ownEffect, messageEffect_quiet hquiet]
    exact ⟨h, hsound⟩

/-- A reported transition leaves its session with the evidence that its account gives. -/
theorem state_backed {old new : U16} {out : Result ReplayRecord}
    (hstep : s.StateStep old new s' out) (h : Backed s e) (hsound : e.Sound) (source : MrtSource)
    (outer : Bgp4mp) :
    Backed s' (e.add (effect g limits s.id (.state source outer old new) out)) ∧
      (e.add (effect g limits s.id (.state source outer old new) out)).Sound := by
  cases hstep with
  | failed error => exact ⟨h, hsound⟩
  | refused status issues decoder hstatus hreset =>
    rw [effect_own _ rfl, ownEffect, if_neg (by simpa [report] using hstatus), reset_eq hreset]
    exact ⟨backed_of_empty (congrArg (· + 1) h.generation) rfl rfl, .reset e⟩
  | moved issues decoder hvalid hold hdecoder =>
    rw [effect_own _ rfl, ownEffect, if_pos (by simp [report])]
    exact ⟨h.moved hdecoder, hsound.moved hvalid (h.reported ▸ hold)⟩

def Speaks (id : String) (out : Result ReplayRecord) : Prop :=
  ∀ record, out = .ok record → record.event.session = some id ∧ record.event.affected = []

theorem message_speaks {outer : Bgp4mp} {bytes : List U8} {out : Result ReplayRecord}
    (hstep : s.MessageStep g limits outer bytes s' out) : Speaks s.id out := by
  rintro record rfl
  cases hstep <;> exact ⟨rfl, rfl⟩

theorem state_speaks {old new : U16} {out : Result ReplayRecord}
    (hstep : s.StateStep old new s' out) : Speaks s.id out := by
  rintro record rfl
  cases hstep <;> exact ⟨rfl, rfl⟩

theorem Speaks.silent {id other : String} {out : Result ReplayRecord} (h : Speaks id out)
    (record : MrtRecord) (hne : other ≠ id) : effect g limits other record out = .silent := by
  cases out with
  | error e => rfl
  | ok out => exact effect_other record (h out rfl).1 (h out rfl).2 hne

end Steps

section Runs

structure Kept (state : ReplayState) (ev : String → Evidence) : Prop where
  backed : ∀ s ∈ state, Backed s (ev s.id)
  sound : ∀ id, (ev id).Sound
  fresh : ∀ id, id ∉ state.map ImportedSession.id → ev id = .initial

structure Sustains (g : Grammar) (limits : Bgp.Limits) (record : MrtRecord)
    (f : ImportedSession → ImportedSession × Result ReplayRecord) : Prop where
  keeps : ∀ s, (f s).1.id = s.id
  backed : ∀ s e, Backed s e → e.Sound →
    Backed (f s).1 (e.add (effect g limits s.id record (f s).2)) ∧
      (e.add (effect g limits s.id record (f s).2)).Sound
  speaks : ∀ s, Speaks s.id (f s).2

variable {g : Grammar} {limits : Bgp.Limits} {state state' : ReplayState} {ev : String → Evidence}

theorem ids_eq (state : ReplayState) :
    (roster state).map Prod.fst = state.map ImportedSession.id := by
  simp [roster, Function.comp_def]

theorem Apart.eq_of_id (h : Apart (roster state)) {i j : ℕ} {s t : ImportedSession}
    (hs : state[i]? = some s) (ht : state[j]? = some t) (hid : s.id = t.id) : i = j := by
  have hnodup := ids_eq state ▸ h.ids
  have hi : (state.map ImportedSession.id)[i]? = some s.id := by rw [List.getElem?_map, hs]; rfl
  have hj : (state.map ImportedSession.id)[j]? = some s.id := by
    rw [List.getElem?_map, ht, hid]
    rfl
  exact (List.getElem?_inj (List.getElem?_eq_some_iff.1 hi).1 hnodup).1 (hi.trans hj.symm)

theorem ids_set {index : ℕ} {s t : ImportedSession} (hs : state[index]? = some s)
    (hid : t.id = s.id) :
    (state.set index t).map ImportedSession.id = state.map ImportedSession.id := by
  obtain ⟨hlt, rfl⟩ := List.getElem?_eq_some_iff.1 hs
  rw [List.map_set, hid, ← List.map_set, List.set_getElem_self]

theorem Resolves.kept {source : MrtSource} {outer : Bgp4mp} {result : Result SessionResolution}
    (h : Resolves source outer state state' result) (hkept : Kept state ev)
    (hapart : Apart (roster state)) (hclear : ∀ scopes, result ≠ .ok (.ambiguous scopes)) :
    Kept state' ev := by
  cases h with
  | refused e => exact hkept
  | created hnew =>
    refine ⟨fun s hs => ?_, hkept.sound, fun id hid => ?_⟩
    · rcases List.mem_append.1 hs with hs | hs
      · exact hkept.backed s hs
      · obtain rfl : s = _ := by simpa using hs
        have hid := hapart.new_id source outer
        rw [ids_eq] at hid
        simp only [roster, List.countP_map, Function.comp_def] at hid
        rw [newSession, hkept.fresh _ hid]
        exact backed_of_empty rfl rfl rfl
    · refine hkept.fresh id fun hmem => hid ?_
      rw [List.map_append]
      exact List.mem_append_left _ hmem
  | known index s hs hcompatible honly =>
    refine ⟨fun t ht => ?_, hkept.sound, fun id hid => ?_⟩
    · rcases List.mem_or_eq_of_mem_set ht with ht | rfl
      · exact hkept.backed t ht
      · have hbacked := hkept.backed s (List.mem_of_getElem? hs)
        exact ⟨hbacked.generation, hbacked.reported, hbacked.opens⟩
    · refine hkept.fresh id fun hmem => hid ?_
      rwa [ids_set (t := { s with identity := s.identity.enrich (.fromRecord source outer) }) hs rfl]
  | unclear => exact absurd rfl (hclear _)

theorem Kept.onSession {record : MrtRecord}
    {f : ImportedSession → ImportedSession × Result ReplayRecord} (hkept : Kept state ev)
    (hapart : Apart (roster state)) (hf : Sustains g limits record f) (index : ℕ) :
    Kept (onSession state index f).1
      fun id => (ev id).add (effect g limits id record (Mrt.onSession state index f).2) := by
  rw [Mrt.onSession]
  split
  · exact hkept
  next s hs =>
    have hmem := List.mem_of_getElem? hs
    have hown := hf.backed s _ (hkept.backed s hmem) (hkept.sound s.id)
    have hother : ∀ id, id ≠ s.id → effect g limits id record (f s).2 = .silent :=
      fun id hne => (hf.speaks s).silent record hne
    refine ⟨fun t ht => ?_, fun id => ?_, fun id hid => ?_⟩
    · obtain ⟨j, hj⟩ := List.mem_iff_getElem?.1 ht
      by_cases hji : j = index
      · subst hji
        obtain rfl : (f s).1 = t := by
          rw [List.getElem?_set_self (List.getElem?_eq_some_iff.1 hs).1] at hj
          exact Option.some.inj hj
        rw [hf.keeps s]
        exact hown.1
      · rw [List.getElem?_set_ne (Ne.symm hji)] at hj
        have hne : t.id ≠ s.id := fun hid => hji (hapart.eq_of_id hj hs hid)
        rw [hother _ hne]
        exact hkept.backed t (List.mem_of_getElem? hj)
    · by_cases hid : id = s.id
      · rw [hid]
        exact hown.2
      · rw [hother id hid]
        exact hkept.sound id
    · rw [ids_set hs (hf.keeps s)] at hid
      have hne : id ≠ s.id := fun h => hid (h ▸ List.mem_map_of_mem hmem)
      rw [hother id hne]
      exact hkept.fresh id hid

theorem Kept.cleared {record : MrtRecord} {out : ReplayRecord} (hkept : Kept state ev)
    (hapart : Apart (roster state)) (p : ImportedSession → Bool)
    (hsession : out.event.session = none)
    (haffected : out.event.affected = (state.filter p).map fun s => ⟨s.id, s.decoder.generation⟩) :
    Kept (state.map fun s => if p s then s.clearGrammar else s)
      fun id => (ev id).add (effect g limits id record (.ok out)) := by
  have hnodup : (state.map ImportedSession.id).Nodup := ids_eq state ▸ hapart.ids
  have hnamed : ∀ id, id ∈ out.event.affected.map AffectedScope.session ↔
      ∃ s ∈ state, p s = true ∧ s.id = id := by
    intro id
    simp [haffected, and_assoc]
  have hids : (state.map fun s => if p s then s.clearGrammar else s).map ImportedSession.id =
      state.map ImportedSession.id := by
    rw [List.map_map]
    refine List.map_congr_left fun s _ => ?_
    simp only [Function.comp_apply]
    split <;> rfl
  simp only [effect, hsession, reduceCtorEq, ↓reduceIte]
  refine ⟨fun t ht => ?_, fun id => ?_, fun id hid => ?_⟩
  · obtain ⟨s, hs, rfl⟩ := List.mem_map.1 ht
    have hbacked := hkept.backed s hs
    by_cases hp : p s = true
    · rw [if_pos hp, if_pos ((hnamed s.clearGrammar.id).2 ⟨s, hs, hp, rfl⟩)]
      exact hbacked.clearGrammar
    · rw [if_neg hp, if_neg]
      · exact hbacked
      · rw [hnamed]
        rintro ⟨t, ht, hpt, hid⟩
        exact hp (List.inj_on_of_nodup_map hnodup ht hs hid ▸ hpt)
  · split
    · exact .cleared _
    · exact hkept.sound id
  · rw [hids] at hid
    rw [if_neg]
    · exact hkept.fresh id hid
    · rw [hnamed]
      rintro ⟨s, hs, -, rfl⟩
      exact hid (List.mem_map_of_mem hs)

theorem Kept.resolved {record : MrtRecord} {source : MrtSource} {outer : Bgp4mp}
    {direction : Option U8} {kind : EventKind}
    {f : ImportedSession → ImportedSession × Result ReplayRecord} (hkept : Kept state ev)
    (hapart : Apart (roster state)) (hf : Sustains g limits record f) :
    Kept (resolved limits source outer direction kind f state).1 fun id => (ev id).add
      (effect g limits id record (Mrt.resolved limits source outer direction kind f state).2) := by
  have hresolves := resolveSession_resolves limits source outer state
  rw [Mrt.resolved]
  split
  next hresult =>
    rw [hresult] at hresolves
    exact hresolves.kept hkept hapart (by simp)
  next hresult =>
    rw [hresult] at hresolves
    cases hresolves
    exact hkept.cleared hapart _ rfl rfl
  next index hresult =>
    rw [hresult] at hresolves
    exact (hresolves.kept hkept hapart (by simp)).onSession (hresolves.apart hapart) hf index

theorem message_sustains (source : MrtSource) (outer : Bgp4mp) (timed : Bool) (bytes : List U8) :
    Sustains g limits (.message source outer timed bytes)
      fun s => s.replayMessage g limits outer timed bytes where
  keeps s := (s.replayMessage_step g limits outer timed bytes).keeps.1
  backed s _ h hsound :=
    message_backed (s.replayMessage_step g limits outer timed bytes) h hsound source timed
  speaks s := message_speaks (s.replayMessage_step g limits outer timed bytes)

theorem state_sustains (source : MrtSource) (outer : Bgp4mp) (old new : U16) :
    Sustains g limits (.state source outer old new) fun s => s.replayState old new where
  keeps s := (s.replayState_step old new).keeps.1
  backed s _ h hsound := state_backed (s.replayState_step old new) h hsound source outer
  speaks s := state_speaks (s.replayState_step old new)

theorem malformed_sustains (source : MrtSource) (scope : Option Bgp4mp) :
    Sustains g limits (.malformed source scope) ImportedSession.replayMalformed where
  keeps _ := rfl
  backed s e h _ := by
    rw [ImportedSession.replayMalformed, effect_own _ rfl]
    exact ⟨h.clearGrammar, .cleared e⟩
  speaks s := by
    rintro record h
    obtain rfl := Except.ok.inj h
    exact ⟨rfl, rfl⟩

theorem Kept.replay (hkept : Kept state ev) (hapart : Apart (roster state)) (record : MrtRecord) :
    Kept (replay g limits state record).1 fun id =>
      (ev id).add (effect g limits id record (Mrt.replay g limits state record).2) := by
  cases record with
  | message source outer timed bytes =>
    exact hkept.resolved hapart (message_sustains source outer timed bytes)
  | state source outer old new => exact hkept.resolved hapart (state_sustains source outer old new)
  | malformed source scope =>
    cases scope with
    | some outer => exact hkept.resolved hapart (malformed_sustains source (some outer))
    | none =>
      rw [Mrt.replay]
      split
      · exact hkept
      next scopes hscopes =>
        refine hkept.cleared hapart (fun _ => true) rfl ?_
        rw [List.filter_true]
        exact affectedScopes_eq hscopes

theorem kept_after (g : Grammar) (limits : Bgp.Limits) (records : List MrtRecord) :
    Kept (after g limits records) fun id => evidence g limits id records := by
  induction records using List.reverseRecOn with
  | nil => exact ⟨by simp [after], fun id => sound_of_empty (by simp), fun id _ => rfl⟩
  | append_singleton records record ih =>
    simp only [after_snoc, evidence_snoc]
    exact ih.replay (apart_after g limits records) record

end Runs

section Admission

variable {g : Grammar} {limits : Bgp.Limits} {state : ReplayState} {ev : String → Evidence}

structure Admits (s : ImportedSession) (obs : Observation) : Prop where
  session : s.id = obs.session
  generation : s.decoder.generation = obs.generation
  established : s.established = true
  bilateral : (layoutEvidence s.decoder true).2.bilateral = true

theorem message_admits {s s' : ImportedSession} {outer : Bgp4mp} {bytes : List U8}
    {out : ReplayRecord} {obs : Observation}
    (hstep : s.MessageStep g limits outer bytes s' (.ok out)) (hobs : out.observation = some obs) :
    Admits s obs := by
  cases hstep with
  | quiet status issues hquiet => cases hobs
  | opened body issues hparse hopening => cases hobs
  | reset status issues decoder hstatus hreset => cases hobs
  | cleared => cases hobs
  | observed status issues routes gap hquiet hestablished hbilateral =>
    obtain rfl := Option.some.inj hobs
    exact ⟨rfl, rfl, hestablished, hbilateral⟩

theorem state_no_observation {s s' : ImportedSession} {old new : U16} {out : ReplayRecord}
    (hstep : s.StateStep old new s' (.ok out)) : out.observation = none := by
  cases hstep <;> rfl

theorem resolved_admits {source : MrtSource} {outer : Bgp4mp} {direction : Option U8}
    {kind : EventKind} {f : ImportedSession → ImportedSession × Result ReplayRecord}
    {out : ReplayRecord} {obs : Observation} (hkept : Kept state ev) (hapart : Apart (roster state))
    (hout : (resolved limits source outer direction kind f state).2 = .ok out)
    (hobs : out.observation = some obs)
    (hf : ∀ s, (f s).2 = .ok out → Admits s obs) : ∃ s, Backed s (ev s.id) ∧ Admits s obs := by
  have hresolves := resolveSession_resolves limits source outer state
  rw [Mrt.resolved] at hout
  split at hout
  next hresult => cases hout
  next hresult =>
    obtain rfl := Except.ok.inj hout
    cases hobs
  next state' index hresult =>
    rw [hresult] at hresolves
    have hkept' := hresolves.kept hkept hapart (by simp)
    rw [Mrt.onSession] at hout
    split at hout
    · cases hout
    next s hs => exact ⟨s, hkept'.backed s (List.mem_of_getElem? hs), hf s hout⟩

theorem replay_admits {record : MrtRecord} {out : ReplayRecord} {obs : Observation}
    (hkept : Kept state ev) (hapart : Apart (roster state))
    (hout : (replay g limits state record).2 = .ok out) (hobs : out.observation = some obs) :
    ∃ s, Backed s (ev s.id) ∧ Admits s obs := by
  cases record with
  | message source outer timed bytes =>
    refine resolved_admits hkept hapart hout hobs fun s hs => ?_
    have hstep := s.replayMessage_step g limits outer timed bytes
    rw [hs] at hstep
    exact message_admits hstep hobs
  | state source outer old new =>
    refine resolved_admits hkept hapart hout hobs fun s hs => ?_
    have hstep := s.replayState_step old new
    rw [hs] at hstep
    rw [state_no_observation hstep] at hobs
    cases hobs
  | malformed source scope =>
    cases scope with
    | some outer =>
      refine resolved_admits hkept hapart hout hobs fun s hs => ?_
      obtain rfl := Except.ok.inj hs
      cases hobs
    | none =>
      rw [Mrt.replay] at hout
      split at hout
      · cases hout
      · obtain rfl := Except.ok.inj hout
        cases hobs

theorem unambiguousOpen_spec {d : SessionState} {direction : U8} {first : OpenState}
    (h : d.unambiguousOpen direction = some first) :
    first ∈ (d.opens.get direction).getD [] ∧ ∀ o ∈ (d.opens.get direction).getD [],
      o.ambiguous = false ∧ o.messageSha256 = first.messageSha256 := by
  rw [SessionState.unambiguousOpen, Option.bind_eq_some_iff] at h
  obtain ⟨opens, hopens, h⟩ := h
  obtain ⟨o, hhead, h⟩ := Option.bind_eq_some_iff.1 h
  split at h
  next hall =>
    obtain rfl := Option.some.inj h
    rw [hopens]
    refine ⟨List.mem_of_mem_head? hhead, fun o' ho' => ?_⟩
    simpa using List.all_eq_true.1 hall o' ho'
  · cases h

theorem bilateral_opens {d : SessionState} (h : (layoutEvidence d true).2.bilateral = true)
    {direction : U8} (hside : direction = 0 ∨ direction = 1) :
    ∃ first, d.unambiguousOpen direction = some first := by
  simp only [layoutEvidence, Bool.not_true, Bool.false_eq_true, ↓reduceIte] at h
  split at h
  · cases h
  split at h
  next a b ha hb =>
    rcases hside with rfl | rfl
    · exact ⟨a, ha⟩
    · exact ⟨b, hb⟩
  · cases h

theorem Backed.mem_opens {s : ImportedSession} {e : Evidence} (h : Backed s e) {direction : U8}
    {message : OpenState} :
    message ∈ (s.decoder.opens.get direction).getD [] ↔
      ∃ x ∈ e.opens, x.direction = direction ∧ x.message = message := by
  rw [h.opens, List.mem_map]
  simp [and_assoc]

/-- Two messages that SHA-256 does not tell apart. -/
def Collides (a b : List U8) : Prop := a ≠ b ∧ Sha256.digest a = Sha256.digest b

theorem eq_or_collides {a b : List U8} (h : Sha256.digest a = Sha256.digest b) :
    a = b ∨ Collides a b := by
  by_cases hab : a = b
  · exact .inl hab
  · exact .inr ⟨hab, h⟩

def sampleMessage (messageType : U8) (locallyGenerated : Bool) : MrtRecord :=
  .message sampleSource (sampleOuter 65000 locallyGenerated) true
    (List.replicate 18 255 ++ [messageType])

def sampleConnection : List MrtRecord :=
  [.state sampleSource (sampleOuter 65000 false) 3 4, sampleMessage 1 false, sampleMessage 1 true,
    .state sampleSource (sampleOuter 65000 false) 4 5,
    .state sampleSource (sampleOuter 65000 false) 5 6]

def sampleObservation : Observation where
  session := sessionKey sampleSource (sampleOuter 65000 false) 0
  direction := 0
  generation := 0
  routes := [⟨1, 1, none⟩]
  issues := []

def sampleUpdate : ReplayRecord where
  event := ⟨some sampleObservation.session, some 0, 0, .message, .decodedUpdateCandidate, [], []⟩
  observation := some sampleObservation
  continuityGap := false

end Admission

end PcapEvidence.Mrt
