import PcapEvidence.JsonEncode
import PcapEvidence.MrtReplay

/-!
# Sessions of a replay stay apart

The fields of an identity are filled in by later records, so compatibility is not transitive. What
holds is that an identity only learns: a session that knows more is compatible with less.
-/

namespace PcapEvidence.Mrt

open FiniteMap History Bgp

theorem colon_notMem_repr (n : ℕ) : ':' ∉ n.repr.toList := by
  intro h
  rw [Nat.repr_eq_ofList_toDigits, String.toList_ofList] at h
  have hdigit := Nat.isDigit_of_mem_toDigits (by decide) (by decide) h
  exact absurd hdigit (by decide)

theorem numberField_inj {n m : ℕ} {r t : String} (h : numberField n r = numberField m t) :
    n = m ∧ r = t := by
  have hlist := congrArg String.toList h
  have hcolon : ":".toList = [':'] := rfl
  simp only [numberField, String.toList_append, hcolon, List.singleton_append] at hlist
  obtain ⟨hn, hr⟩ := Json.cut_inj (colon_notMem_repr n) (colon_notMem_repr m) hlist
  exact ⟨Nat.repr_injective (String.toList_injective hn), String.toList_injective hr⟩

theorem append_inj_of_size {s t u v : String} (hsize : s.utf8ByteSize = u.utf8ByteSize)
    (h : s ++ t = u ++ v) : s = u ∧ t = v := by
  have hbytes := congrArg (fun x => x.toByteArray.data.toList) h
  simp only [String.toByteArray_append, ByteArray.data_append, Array.toList_append] at hbytes
  obtain ⟨hs, ht⟩ := List.append_inj hbytes (by simpa using hsize)
  exact ⟨String.toByteArray_inj.1 (ByteArray.ext (Array.toList_inj.1 hs)),
    String.toByteArray_inj.1 (ByteArray.ext (Array.toList_inj.1 ht))⟩

theorem sizedField_inj {a b r t : String} (h : sizedField a r = sizedField b t) :
    a = b ∧ r = t := by
  obtain ⟨hsize, hrest⟩ := numberField_inj h
  obtain ⟨hab, hrest⟩ := append_inj_of_size hsize hrest
  exact ⟨hab, (append_inj_of_size rfl hrest).2⟩

theorem sessionKey_inj {source source' : MrtSource} {outer outer' : Bgp4mp} {slot slot' : ℕ}
    (h : sessionKey source outer slot = sessionKey source' outer' slot') :
    (SessionIdentity.fromRecord source outer).samePartitionAndAddresses
      (SessionIdentity.fromRecord source' outer') = true ∧ slot = slot' := by
  have h := (append_inj_of_size rfl h).2
  obtain ⟨hsource, h⟩ := sizedField_inj h
  obtain ⟨hcheckpoint, h⟩ := sizedField_inj h
  obtain ⟨hafi, h⟩ := numberField_inj h
  obtain ⟨hpeer, h⟩ := sizedField_inj h
  obtain ⟨hlocal, h⟩ := sizedField_inj h
  obtain ⟨-, h⟩ := numberField_inj h
  obtain ⟨-, h⟩ := numberField_inj h
  obtain ⟨-, h⟩ := numberField_inj h
  have hafi : outer.addressAfi = outer'.addressAfi := BitVec.eq_of_toNat_eq hafi
  refine ⟨?_, Nat.repr_injective h⟩
  simp [SessionIdentity.samePartitionAndAddresses, SessionIdentity.fromRecord, hsource,
    hcheckpoint, hafi, hpeer, hlocal]

theorem compatibleValue_iff {α : Type} [DecidableEq α] {left right : Option α} :
    compatibleValue left right = true ↔ ∀ v ∈ left, ∀ w ∈ right, v = w := by
  cases left <;> cases right <;> simp [compatibleValue]

theorem compatibleValue_comm {α : Type} [DecidableEq α] (left right : Option α) :
    compatibleValue left right = compatibleValue right left := by
  rw [Bool.eq_iff_iff, compatibleValue_iff, compatibleValue_iff]
  exact ⟨fun h v hv w hw => (h w hw v hv).symm, fun h v hv w hw => (h w hw v hv).symm⟩

namespace SessionIdentity

variable {a b c : SessionIdentity}

theorem samePartition_iff : a.samePartitionAndAddresses b = true ↔
    a.sourceId = b.sourceId ∧ a.checkpointId = b.checkpointId ∧ a.addressAfi = b.addressAfi ∧
      a.peerAddress = b.peerAddress ∧ a.localAddress = b.localAddress := by
  simp [samePartitionAndAddresses, and_assoc]

theorem samePartition_comm : a.samePartitionAndAddresses b = b.samePartitionAndAddresses a := by
  rw [Bool.eq_iff_iff, samePartition_iff, samePartition_iff]
  simp [eq_comm]

theorem samePartition_trans (hab : a.samePartitionAndAddresses b = true)
    (hbc : b.samePartitionAndAddresses c = true) : a.samePartitionAndAddresses c = true := by
  rw [samePartition_iff] at *
  obtain ⟨h₁, h₂, h₃, h₄, h₅⟩ := hab
  rw [h₁, h₂, h₃, h₄, h₅]
  exact hbc

theorem samePartition_congr (hab : a.samePartitionAndAddresses b = true) (c : SessionIdentity) :
    a.samePartitionAndAddresses c = b.samePartitionAndAddresses c := by
  rw [Bool.eq_iff_iff]
  exact ⟨samePartition_trans (samePartition_comm ▸ hab), samePartition_trans hab⟩

theorem compatible_iff : a.compatible b = true ↔ a.samePartitionAndAddresses b = true ∧
    compatibleValue a.peerAsn b.peerAsn = true ∧ compatibleValue a.localAsn b.localAsn = true ∧
      compatibleValue a.interfaceIndex b.interfaceIndex = true := by
  simp [compatible, and_assoc]

theorem compatible_comm : a.compatible b = b.compatible a := by
  simp only [compatible, samePartition_comm (a := a), compatibleValue_comm a.peerAsn,
    compatibleValue_comm a.localAsn, compatibleValue_comm a.interfaceIndex]

structure Knows (a b : SessionIdentity) : Prop where
  partition : a.samePartitionAndAddresses b = true
  peerAsn : ∀ v ∈ b.peerAsn, v ∈ a.peerAsn
  localAsn : ∀ v ∈ b.localAsn, v ∈ a.localAsn
  interfaceIndex : ∀ v ∈ b.interfaceIndex, v ∈ a.interfaceIndex

theorem Knows.refl (a : SessionIdentity) : a.Knows a :=
  ⟨by simp [samePartitionAndAddresses], fun _ h => h, fun _ h => h, fun _ h => h⟩

theorem Knows.trans (hab : a.Knows b) (hbc : b.Knows c) : a.Knows c where
  partition := samePartition_trans hab.partition hbc.partition
  peerAsn v hv := hab.peerAsn v (hbc.peerAsn v hv)
  localAsn v hv := hab.localAsn v (hbc.localAsn v hv)
  interfaceIndex v hv := hab.interfaceIndex v (hbc.interfaceIndex v hv)

theorem Knows.compatible_of (h : a.Knows b) (hac : a.compatible c = true) : b.compatible c = true := by
  simp only [compatible_iff, compatibleValue_iff] at hac ⊢
  obtain ⟨hpartition, hpeer, hlocal, hinterface⟩ := hac
  exact ⟨samePartition_congr h.partition c ▸ hpartition,
    fun v hv => hpeer v (h.peerAsn v hv), fun v hv => hlocal v (h.localAsn v hv),
    fun v hv => hinterface v (h.interfaceIndex v hv)⟩

theorem Knows.agree (hab : a.Knows b) (hac : a.Knows c) : b.compatible c = true := by
  refine hab.compatible_of ?_
  rw [compatible_comm]
  refine hac.compatible_of ?_
  simp [compatible, compatibleValue, samePartitionAndAddresses]

theorem enrich_knows (a b : SessionIdentity) : (a.enrich b).Knows a where
  partition := by simp [samePartitionAndAddresses, enrich]
  peerAsn v hv := by simp_all [enrich]
  localAsn v hv := by simp_all [enrich]
  interfaceIndex v hv := by simp_all [enrich]

theorem or_mem {α : Type} [DecidableEq α] {left right : Option α}
    (h : compatibleValue left right = true) : ∀ v ∈ right, v ∈ left.or right := by
  intro v hv
  cases left with
  | none => simpa using hv
  | some w =>
    have hw : w = v := compatibleValue_iff.1 h w rfl v hv
    simp [hw]

theorem enrich_knows_incoming (h : a.compatible b = true) : (a.enrich b).Knows b := by
  obtain ⟨hpartition, hpeer, hlocal, hinterface⟩ := compatible_iff.1 h
  exact ⟨hpartition, or_mem hpeer, or_mem hlocal, or_mem hinterface⟩

end SessionIdentity

section Rosters

/-- The ids of the sessions and what is known of each. -/
abbrev Roster := List (String × SessionIdentity)

def roster (state : ReplayState) : Roster := state.map fun s => (s.id, s.identity)

/-- Every session keeps its place and its id, and may learn. -/
def Learned (r r' : Roster) : Prop := List.Forall₂ (fun p q => q.1 = p.1 ∧ q.2.Knows p.2) r r'

/-- The sessions cannot be taken for each other, and the next key of their addresses is new. -/
structure Apart (r : Roster) : Prop where
  pairwise : r.Pairwise fun p q => p.2.compatible q.2 = false
  ids : (r.map Prod.fst).Nodup
  keyed : ∀ p ∈ r, ∃ source outer slot, p.1 = sessionKey source outer slot ∧
    p.2.samePartitionAndAddresses (.fromRecord source outer) = true ∧
    slot < r.countP fun q => q.2.samePartitionAndAddresses p.2

variable {r r' : Roster}

theorem Learned.refl (r : Roster) : Learned r r :=
  List.forall₂_same.2 fun p _ => ⟨rfl, .refl p.2⟩

theorem Learned.ids (h : Learned r r') : r'.map Prod.fst = r.map Prod.fst := by
  induction h with
  | nil => rfl
  | cons hpq _ ih => simp [hpq.1, ih]

theorem Learned.countP (h : Learned r r') (x : SessionIdentity) :
    r'.countP (fun q => q.2.samePartitionAndAddresses x) =
      r.countP fun q => q.2.samePartitionAndAddresses x := by
  induction h with
  | nil => rfl
  | cons hpq _ ih => simp [List.countP_cons, ih, SessionIdentity.samePartition_congr hpq.2.partition]

theorem Learned.exists_of_mem (h : Learned r r') {q : String × SessionIdentity} (hq : q ∈ r') :
    ∃ p ∈ r, q.1 = p.1 ∧ q.2.Knows p.2 := by
  induction h with
  | nil => simp at hq
  | cons hpq _ ih =>
    rcases List.mem_cons.1 hq with rfl | hq
    · exact ⟨_, List.mem_cons_self, hpq⟩
    · obtain ⟨p, hp, hknows⟩ := ih hq
      exact ⟨p, List.mem_cons_of_mem _ hp, hknows⟩

theorem incompatible_of_knows {a b c d : SessionIdentity} (hab : a.Knows b) (hcd : c.Knows d)
    (h : b.compatible d = false) : a.compatible c = false := by
  rw [Bool.eq_false_iff] at h ⊢
  intro hac
  have hdb := hcd.compatible_of (SessionIdentity.compatible_comm ▸ hab.compatible_of hac)
  exact h (SessionIdentity.compatible_comm ▸ hdb)

theorem Learned.pairwise (h : Learned r r') (hr : r.Pairwise fun p q => p.2.compatible q.2 = false) :
    r'.Pairwise fun p q => p.2.compatible q.2 = false := by
  induction h with
  | nil => exact .nil
  | cons hpq hrest ih =>
    obtain ⟨hhead, hrest'⟩ := List.pairwise_cons.1 hr
    refine List.pairwise_cons.2 ⟨fun q hq => ?_, ih hrest'⟩
    obtain ⟨p, hp, -, hknows⟩ := Learned.exists_of_mem hrest hq
    exact incompatible_of_knows hpq.2 hknows (hhead p hp)

theorem Apart.learned (h : Apart r) (hlearned : Learned r r') : Apart r' where
  pairwise := hlearned.pairwise h.pairwise
  ids := hlearned.ids ▸ h.ids
  keyed q hq := by
    obtain ⟨p, hp, hid, hknows⟩ := hlearned.exists_of_mem hq
    obtain ⟨source, outer, slot, hkey, hpartition, hslot⟩ := h.keyed p hp
    refine ⟨source, outer, slot, hid.trans hkey,
      SessionIdentity.samePartition_trans hknows.partition hpartition, ?_⟩
    rw [hlearned.countP]
    simpa only [SessionIdentity.samePartition_comm (b := q.2),
      SessionIdentity.samePartition_congr hknows.partition,
      SessionIdentity.samePartition_comm (a := p.2)] using hslot

def entry (source : MrtSource) (outer : Bgp4mp) (slot : ℕ) : String × SessionIdentity :=
  (sessionKey source outer slot, .fromRecord source outer)

theorem Apart.new_id (h : Apart r) (source : MrtSource) (outer : Bgp4mp) :
    sessionKey source outer (r.countP fun q =>
      q.2.samePartitionAndAddresses (.fromRecord source outer)) ∉ r.map Prod.fst := by
  intro hmem
  obtain ⟨p, hp, hid⟩ := List.mem_map.1 hmem
  obtain ⟨source', outer', slot, hkey, hpartition, hslot⟩ := h.keyed p hp
  obtain ⟨hsame, rfl⟩ := sessionKey_inj (hkey.symm.trans hid)
  have hp : p.2.samePartitionAndAddresses (.fromRecord source outer) = true :=
    SessionIdentity.samePartition_trans hpartition hsame
  simp only [SessionIdentity.samePartition_comm (b := p.2),
    SessionIdentity.samePartition_congr hp,
    SessionIdentity.samePartition_comm (b := .fromRecord source outer)] at hslot
  simp only [SessionIdentity.samePartition_comm (a := .fromRecord source outer)] at hslot
  exact lt_irrefl _ hslot

theorem Apart.created (h : Apart r) (source : MrtSource) (outer : Bgp4mp)
    (hnew : ∀ p ∈ r, p.2.compatible (.fromRecord source outer) = false) :
    Apart (r ++ [entry source outer (r.countP fun q =>
      q.2.samePartitionAndAddresses (.fromRecord source outer))]) where
  pairwise := by
    rw [List.pairwise_append]
    exact ⟨h.pairwise, List.pairwise_singleton _ _, by simpa [entry] using hnew⟩
  ids := by
    rw [List.map_append, List.nodup_append]
    refine ⟨h.ids, by simp, ?_⟩
    rintro id hid _ hlast rfl
    obtain rfl : id = _ := by simpa [entry] using hlast
    exact h.new_id source outer hid
  keyed p hp := by
    rcases List.mem_append.1 hp with hp | hp
    · obtain ⟨source', outer', slot, hkey, hpartition, hslot⟩ := h.keyed p hp
      refine ⟨source', outer', slot, hkey, hpartition, ?_⟩
      rw [List.countP_append]
      omega
    · obtain rfl : p = _ := by simpa using hp
      refine ⟨source, outer, _, rfl, (SessionIdentity.Knows.refl _).partition, ?_⟩
      rw [List.countP_append]
      have hself := (SessionIdentity.Knows.refl (.fromRecord source outer)).partition
      simp [entry, hself]

end Rosters

/-- What the resolution of a record can do. -/
inductive Resolves (source : MrtSource) (outer : Bgp4mp) (state : ReplayState) :
    ReplayState → Result SessionResolution → Prop
  | refused (e : Error) : Resolves source outer state state (.error e)
  | created (hnew : ∀ s ∈ state, s.identity.compatible (.fromRecord source outer) = false) :
      Resolves source outer state
        (state ++ [newSession source outer (state.countP fun s =>
          s.identity.samePartitionAndAddresses (.fromRecord source outer))])
        (.ok (.selected state.length))
  | known (index : ℕ) (s : ImportedSession) (hs : state[index]? = some s)
      (hcompatible : s.identity.compatible (.fromRecord source outer) = true)
      (honly : ∀ j t, state[j]? = some t →
        t.identity.compatible (.fromRecord source outer) = true → j = index) :
      Resolves source outer state
        (state.set index { s with identity := s.identity.enrich (.fromRecord source outer) })
        (.ok (.selected index))
  | unclear : Resolves source outer state
      (state.map (clearCompatible (.fromRecord source outer)))
      (.ok (.ambiguous ((state.filter fun s =>
        s.identity.compatible (.fromRecord source outer)).map fun s => ⟨s.id, s.decoder.generation⟩)))

theorem mem_compatibleIndices {state : ReplayState} {incoming : SessionIdentity} {index : ℕ} :
    index ∈ compatibleIndices state incoming ↔
      ∃ s, state[index]? = some s ∧ s.identity.compatible incoming = true := by
  rw [compatibleIndices, List.mem_findIdxs_iff_exists_getElem_pos]
  constructor
  · rintro ⟨hlt, h⟩
    exact ⟨state[index], by simp, h⟩
  · rintro ⟨s, hs, h⟩
    obtain ⟨hlt, rfl⟩ := List.getElem?_eq_some_iff.1 hs
    exact ⟨hlt, h⟩

theorem affectedScopes_eq {limits : Bgp.Limits} {sessions : List ImportedSession}
    {scopes : List AffectedScope} (h : affectedScopes limits sessions = .ok scopes) :
    scopes = sessions.map fun s => ⟨s.id, s.decoder.generation⟩ := by
  simp only [affectedScopes] at h
  split at h
  · cases h
  · exact (Except.ok.inj h).symm

theorem resolveSession_resolves (limits : Bgp.Limits) (source : MrtSource) (outer : Bgp4mp)
    (state : ReplayState) : Resolves source outer state
      (resolveSession limits source outer state).1 (resolveSession limits source outer state).2 := by
  simp only [resolveSession]
  split
  next hindices =>
    split
    · exact .refused _
    · refine .created fun s hs => ?_
      obtain ⟨i, hi⟩ := List.mem_iff_getElem?.1 hs
      by_contra hc
      have hmem := mem_compatibleIndices.2 ⟨s, hi, Bool.eq_true_of_not_eq_false hc⟩
      rw [hindices] at hmem
      cases hmem
  next index hindices =>
    have hmem : index ∈ compatibleIndices state (.fromRecord source outer) := by simp [hindices]
    obtain ⟨s, hs, hc⟩ := mem_compatibleIndices.1 hmem
    have hset := List.modify_eq_set_getElem? (fun s : ImportedSession =>
      { s with identity := s.identity.enrich (.fromRecord source outer) }) index state
    rw [hset, hs]
    refine .known index s hs hc fun j t ht htc => ?_
    simpa [hindices] using mem_compatibleIndices.2 ⟨t, ht, htc⟩
  · split
    · exact .refused _
    next scopes hscopes =>
      rw [affectedScopes_eq hscopes]
      exact .unclear

namespace ImportedSession

def Quiet (status : ParseStatus) (issues : List String) : Prop :=
  status ≠ .decodedOpen ∧ status ≠ .decodedNotificationReset ∧ status ≠ .quarantinedSessionReset ∧
    ¬(status = .rejected ∧ issues = [frameRejected])

def directionOf (outer : Bgp4mp) : U8 := if outer.locallyGenerated then 1 else 0

/-- What a message can do to its session. -/
inductive MessageStep (g : Grammar) (limits : Bgp.Limits) (outer : Bgp4mp) (bytes : List U8)
    (s : ImportedSession) : ImportedSession → Result ReplayRecord → Prop
  | failed (e : Error) : MessageStep g limits outer bytes s s (.error e)
  | quiet (status : ParseStatus) (issues : List String) (hquiet : Quiet status issues) :
      MessageStep g limits outer bytes s s
        (.ok (s.report (some (directionOf outer)) s.decoder.generation .message status issues))
  | opened (body : OpenBody) (issues : List String) (hparse : g.parseOpen bytes limits = .ok body)
      (hopening : s.opening = true) :
      MessageStep g limits outer bytes s (s.pushOpen (directionOf outer) (openOf outer bytes body))
        (.ok (s.report (some (directionOf outer)) s.decoder.generation .message .decodedOpen issues))
  | reset (status : ParseStatus) (issues : List String) (decoder : SessionState)
      (hstatus : status = .decodedNotificationReset ∨ status = .quarantinedSessionReset)
      (hreset : s.decoder.reset = .ok decoder) :
      MessageStep g limits outer bytes s { s with decoder := decoder, fsm := none }
        (.ok (s.report (some (directionOf outer)) s.decoder.generation .message status issues))
  | cleared : MessageStep g limits outer bytes s s.clearGrammar
      (.ok (s.report (some (directionOf outer)) s.decoder.generation .message .rejected
        [frameRejected]))
  | observed (status : ParseStatus) (issues : List String) (routes : List UpdateRoute) (gap : Bool)
      (hquiet : Quiet status issues) (hestablished : s.established = true)
      (hbilateral : (layoutEvidence s.decoder true).2.bilateral = true) :
      MessageStep g limits outer bytes s s
        (.ok ⟨⟨some s.id, some (directionOf outer), s.decoder.generation, .message, status, issues,
          []⟩, some ⟨s.id, directionOf outer, s.decoder.generation, routes, issues⟩, gap⟩)

variable (g : Grammar) (limits : Bgp.Limits) (s : ImportedSession) (outer : Bgp4mp) (timed : Bool)
  (bytes : List U8)

theorem replayOpen_step : MessageStep g limits outer bytes s
    (s.replayOpen g limits outer (directionOf outer) bytes).1
    (s.replayOpen g limits outer (directionOf outer) bytes).2 := by
  simp only [replayOpen]
  split
  · split
    · exact .failed _
    · exact .quiet _ _ (by simp [Quiet, frameRejected])
  next body hbody =>
    split
    next hopening =>
      split
      · exact .failed _
      · exact .opened body _ hbody hopening
    · exact .quiet _ _ (by simp [Quiet])

theorem finishUpdate_step {negotiated : LayoutContext} {u : ParsedUpdate}
    (hestablished : s.established = true)
    (hbilateral : (layoutEvidence s.decoder true).2.bilateral = true) :
    MessageStep g limits outer bytes s
      (s.finishUpdate g limits outer timed (directionOf outer) negotiated u).1
      (s.finishUpdate g limits outer timed (directionOf outer) negotiated u).2 := by
  simp only [finishUpdate]
  split
  · exact .quiet _ _ (by simp [Quiet])
  split
  · exact .quiet _ _ (by simp [Quiet])
  split
  · split
    · exact .failed _
    next decoder hreset => exact .reset _ _ decoder (.inr rfl) hreset
  · split
    · exact .failed _
    · refine .observed _ _ _ _ ?_ hestablished hbilateral
      split <;> simp [Quiet]

theorem replayUpdate_step : MessageStep g limits outer bytes s
    (s.replayUpdate g limits outer timed (directionOf outer) bytes).1
    (s.replayUpdate g limits outer timed (directionOf outer) bytes).2 := by
  simp only [replayUpdate]
  split
  · exact .quiet _ _ (by simp [Quiet])
  next hestablished =>
    have hestablished : s.established = true := by simpa using hestablished
    rw [hestablished]
    split
    · exact .quiet _ _ (by simp [Quiet])
    next hbilateral =>
      split
      · exact .quiet _ _ (by simp [Quiet])
      split
      · split
        · exact .failed _
        · exact .quiet _ _ (by simp [Quiet, frameRejected])
      · exact finishUpdate_step g limits s outer timed bytes hestablished (by simpa using hbilateral)

theorem replayNotification_step : MessageStep g limits outer bytes s
    (s.replayNotification (directionOf outer) bytes).1
    (s.replayNotification (directionOf outer) bytes).2 := by
  simp only [replayNotification]
  split
  · exact .quiet _ _ (by simp [Quiet, frameRejected])
  split
  · exact .failed _
  next decoder hreset => exact .reset _ _ decoder (.inl rfl) hreset

theorem replayKeepalive_step : MessageStep g limits outer bytes s s
    (.ok (s.replayKeepalive (directionOf outer) bytes)) := by
  simp only [replayKeepalive]
  split
  · exact .quiet _ _ (by simp [Quiet, frameRejected])
  split
  · exact .quiet _ _ (by simp [Quiet])
  · exact .quiet _ _ (by simp [Quiet])

theorem replayRouteRefresh_step : MessageStep g limits outer bytes s s
    (.ok (s.replayRouteRefresh (directionOf outer) bytes)) := by
  simp only [replayRouteRefresh]
  split
  · exact .quiet _ _ (by simp [Quiet, frameRejected])
  split
  · exact .quiet _ _ (by simp [Quiet])
  split
  · exact .quiet _ _ (by simp [Quiet])
  split
  · exact .quiet _ _ (by simp [Quiet])
  · exact .quiet _ _ (by simp [Quiet])

theorem replayMessage_step : MessageStep g limits outer bytes s
    (s.replayMessage g limits outer timed bytes).1
    (s.replayMessage g limits outer timed bytes).2 := by
  have hdirection : (if outer.locallyGenerated = true then (1 : U8) else 0) = directionOf outer := rfl
  simp only [replayMessage, hdirection]
  split
  · split
    · exact .failed _
    · exact .cleared
  · split
    · exact replayOpen_step g limits s outer bytes
    · exact replayUpdate_step g limits s outer timed bytes
    · exact replayNotification_step g limits s outer bytes
    · exact replayKeepalive_step g limits s outer bytes
    · exact replayRouteRefresh_step g limits s outer bytes
    · exact .quiet _ _ (by simp [Quiet, frameRejected])

/-- What a reported transition can do to its session. -/
inductive StateStep (old new : U16) (s : ImportedSession) :
    ImportedSession → Result ReplayRecord → Prop
  | failed (e : Error) : StateStep old new s s (.error e)
  | refused (status : ParseStatus) (issues : List String) (decoder : SessionState)
      (hstatus : status ≠ .reportedTransition) (hreset : s.decoder.reset = .ok decoder) :
      StateStep old new s { s with decoder := decoder, fsm := none, stateConflict := true }
        (.ok (s.report none decoder.generation .stateChange status issues))
  | moved (issues : List String) (decoder : SessionState)
      (hvalid : validFsmTransition old new = true) (hold : ∀ f ∈ s.fsm, f = old)
      (hdecoder : s.transitionDecoder old new = .ok decoder) :
      StateStep old new s { s with decoder := decoder, fsm := some new, stateConflict := false }
        (.ok (s.report none decoder.generation .stateChange .reportedTransition issues))

theorem refuseTransition_step (old new : U16) {status : ParseStatus} (issue : String)
    (hstatus : status ≠ .reportedTransition) : StateStep old new s
      (s.refuseTransition status issue).1 (s.refuseTransition status issue).2 := by
  simp only [refuseTransition]
  split
  · exact .failed _
  next decoder hreset => exact .refused _ _ decoder hstatus hreset

theorem replayState_step (old new : U16) : StateStep old new s
    (s.replayState old new).1 (s.replayState old new).2 := by
  simp only [replayState]
  split
  · exact s.refuseTransition_step old new _ (by simp)
  split
  · exact s.refuseTransition_step old new _ (by simp)
  next hvalid =>
    split
    · exact s.refuseTransition_step old new _ (by simp)
    next hold =>
      split
      · exact .failed _
      next decoder hdecoder =>
        refine .moved _ decoder (by simpa using hvalid) (fun f hf => ?_) hdecoder
        rw [hf] at hold
        simpa using hold

end ImportedSession

section Growth

/-- Every session is still in its place under its id, and knows what it knew. -/
def Grows (r r' : Roster) : Prop :=
  ∀ (index : ℕ) (p : String × SessionIdentity), r[index]? = some p →
    ∃ q, r'[index]? = some q ∧ q.1 = p.1 ∧ q.2.Knows p.2

theorem Grows.trans {r r' r'' : Roster} (h : Grows r r') (h' : Grows r' r'') : Grows r r'' := by
  intro index p hp
  obtain ⟨q, hq, hid, hknows⟩ := h index p hp
  obtain ⟨q', hq', hid', hknows'⟩ := h' index q hq
  exact ⟨q', hq', hid'.trans hid, hknows'.trans hknows⟩

theorem Learned.grows {r r' : Roster} (h : Learned r r') : Grows r r' := by
  intro index p hp
  induction h generalizing index with
  | nil => simp at hp
  | cons hpq _ ih =>
    cases index with
    | zero =>
      obtain rfl : _ = p := by simpa using hp
      exact ⟨_, rfl, hpq⟩
    | succ index =>
      rw [List.getElem?_cons_succ] at hp ⊢
      exact ih index hp

theorem Grows.append (r r' : Roster) : Grows r (r ++ r') := by
  intro index p hp
  have hlt := (List.getElem?_eq_some_iff.1 hp).1
  exact ⟨p, by rw [List.getElem?_append_left hlt, hp], rfl, .refl _⟩

theorem Learned.set {r : Roster} {index : ℕ} {p q : String × SessionIdentity}
    (hp : r[index]? = some p) (hid : q.1 = p.1) (hknows : q.2.Knows p.2) :
    Learned r (r.set index q) := by
  induction r generalizing index with
  | nil => exact .nil
  | cons x r ih =>
    cases index with
    | zero =>
      obtain rfl : x = p := by simpa using hp
      exact .cons ⟨hid, hknows⟩ (Learned.refl r)
    | succ index =>
      rw [List.getElem?_cons_succ] at hp
      exact .cons ⟨rfl, .refl _⟩ (ih hp)

theorem roster_set (state : ReplayState) (index : ℕ) (t : ImportedSession) :
    roster (state.set index t) = (roster state).set index (t.id, t.identity) := by
  rw [roster, roster, List.map_set]

theorem roster_getElem? {state : ReplayState} {index : ℕ} {s : ImportedSession}
    (h : state[index]? = some s) : (roster state)[index]? = some (s.id, s.identity) := by
  rw [roster, List.getElem?_map, h]
  rfl

theorem exists_of_roster_getElem? {state : ReplayState} {index : ℕ} {p : String × SessionIdentity}
    (h : (roster state)[index]? = some p) :
    ∃ s, state[index]? = some s ∧ p = (s.id, s.identity) := by
  rw [roster, List.getElem?_map, Option.map_eq_some_iff] at h
  obtain ⟨s, hs, rfl⟩ := h
  exact ⟨s, hs, rfl⟩

theorem roster_map {f : ImportedSession → ImportedSession} (state : ReplayState)
    (hid : ∀ s, (f s).id = s.id) (hidentity : ∀ s, (f s).identity = s.identity) :
    roster (state.map f) = roster state := by
  simp only [roster, List.map_map, Function.comp_def, hid, hidentity]

variable {source : MrtSource} {outer : Bgp4mp} {state state' : ReplayState}
  {result : Result SessionResolution}

theorem roster_clearCompatible (incoming : SessionIdentity) (state : ReplayState) :
    roster (state.map (clearCompatible incoming)) = roster state := by
  refine roster_map state (fun s => ?_) (fun s => ?_) <;>
    · rw [clearCompatible]
      split <;> rfl

theorem roster_append_newSession (state : ReplayState) :
    roster (state ++ [newSession source outer (state.countP fun s =>
      s.identity.samePartitionAndAddresses (.fromRecord source outer))]) =
    roster state ++ [entry source outer ((roster state).countP fun q =>
      q.2.samePartitionAndAddresses (.fromRecord source outer))] := by
  simp [roster, entry, newSession, List.countP_map, Function.comp_def]

theorem learned_enrich {index : ℕ} {s : ImportedSession} (hs : state[index]? = some s)
    (incoming : SessionIdentity) : Learned (roster state)
      (roster (state.set index { s with identity := s.identity.enrich incoming })) := by
  rw [roster_set]
  exact .set (roster_getElem? hs) rfl (SessionIdentity.enrich_knows _ _)

theorem Resolves.apart (h : Resolves source outer state state' result)
    (hapart : Apart (roster state)) : Apart (roster state') := by
  cases h with
  | refused e => exact hapart
  | created hnew =>
    rw [roster_append_newSession]
    refine hapart.created source outer fun p hp => ?_
    obtain ⟨s, hs, rfl⟩ := List.mem_map.1 hp
    exact hnew s hs
  | known index s hs hcompatible honly => exact hapart.learned (learned_enrich hs _)
  | unclear =>
    rw [roster_clearCompatible]
    exact hapart

theorem Resolves.grows (h : Resolves source outer state state' result) :
    Grows (roster state) (roster state') := by
  cases h with
  | refused e => exact (Learned.refl _).grows
  | created hnew =>
    rw [roster_append_newSession]
    exact .append _ _
  | known index s hs hcompatible honly => exact (learned_enrich hs _).grows
  | unclear =>
    rw [roster_clearCompatible]
    exact (Learned.refl _).grows

theorem Resolves.selected_knows {index : ℕ}
    (h : Resolves source outer state state' (.ok (.selected index))) :
    ∃ s, state'[index]? = some s ∧ s.identity.Knows (.fromRecord source outer) := by
  cases h with
  | created hnew => exact ⟨_, List.getElem?_concat_length, .refl _⟩
  | known index s hs hcompatible honly =>
    have hlt := (List.getElem?_eq_some_iff.1 hs).1
    exact ⟨_, List.getElem?_set_self hlt, SessionIdentity.enrich_knows_incoming hcompatible⟩

theorem Resolves.selected_only {index : ℕ}
    (h : Resolves source outer state state' (.ok (.selected index))) {j : ℕ} {t : ImportedSession}
    (ht : state[j]? = some t ∨ state'[j]? = some t)
    (hcompatible : t.identity.compatible (.fromRecord source outer) = true) : j = index := by
  cases h with
  | created hnew =>
    have hold : state[j]? ≠ some t := by
      intro hj
      have hfalse := hnew t (List.mem_of_getElem? hj)
      rw [hcompatible] at hfalse
      cases hfalse
    have hj := ht.resolve_left hold
    have hlt := (List.getElem?_eq_some_iff.1 hj).1
    rw [List.length_append, List.length_singleton] at hlt
    by_contra hne
    exact hold (by rwa [List.getElem?_append_left (by omega)] at hj)
  | known index s hs hcompatible' honly =>
    by_contra hne
    rcases ht with ht | ht
    · exact hne (honly j t ht hcompatible)
    · rw [List.getElem?_set_ne (fun h => hne h.symm)] at ht
      exact hne (honly j t ht hcompatible)

end Growth

section Runs

def MrtRecord.scope : MrtRecord → Option (MrtSource × Bgp4mp)
  | .message source outer _ _ => some (source, outer)
  | .state source outer _ _ => some (source, outer)
  | .malformed source outer => outer.map fun outer => (source, outer)

def after (g : Grammar) (limits : Bgp.Limits) (records : List MrtRecord) : ReplayState :=
  records.foldl (fun state record => (replay g limits state record).1) []

def Assigned (g : Grammar) (limits : Bgp.Limits) (records : List MrtRecord) (index : ℕ)
    (identity : SessionIdentity) : Prop :=
  ∃ earlier record later source outer, records = earlier ++ record :: later ∧
    record.scope = some (source, outer) ∧ identity = .fromRecord source outer ∧
    (resolveSession limits source outer (after g limits earlier)).2 = .ok (.selected index)

variable (g : Grammar) (limits : Bgp.Limits)

theorem after_snoc (records : List MrtRecord) (record : MrtRecord) :
    after g limits (records ++ [record]) = (replay g limits (after g limits records) record).1 := by
  rw [after, List.foldl_append]
  rfl

theorem ImportedSession.MessageStep.keeps {outer : Bgp4mp} {bytes : List U8}
    {s s' : ImportedSession} {out : Result ReplayRecord}
    (h : s.MessageStep g limits outer bytes s' out) : s'.id = s.id ∧ s'.identity = s.identity := by
  cases h <;> exact ⟨rfl, rfl⟩

theorem ImportedSession.StateStep.keeps {old new : U16} {s s' : ImportedSession}
    {out : Result ReplayRecord} (h : s.StateStep old new s' out) :
    s'.id = s.id ∧ s'.identity = s.identity := by
  cases h <;> exact ⟨rfl, rfl⟩

theorem roster_onSession {f : ImportedSession → ImportedSession × Result ReplayRecord}
    (hf : ∀ s, (f s).1.id = s.id ∧ (f s).1.identity = s.identity) (state : ReplayState) (index : ℕ) :
    roster (onSession state index f).1 = roster state := by
  rw [onSession]
  split
  · rfl
  next s hs =>
    rw [roster_set, (hf s).1, (hf s).2]
    obtain ⟨hlt, hentry⟩ := List.getElem?_eq_some_iff.1 (roster_getElem? hs)
    rw [← hentry, List.set_getElem_self]

theorem roster_resolved {f : ImportedSession → ImportedSession × Result ReplayRecord}
    (hf : ∀ s, (f s).1.id = s.id ∧ (f s).1.identity = s.identity) (source : MrtSource)
    (outer : Bgp4mp) (direction : Option U8) (kind : EventKind) (state : ReplayState) :
    roster (resolved limits source outer direction kind f state).1 =
      roster (resolveSession limits source outer state).1 := by
  rw [resolved]
  split
  next h => rw [h]
  next h => rw [h]
  next h => rw [h, roster_onSession hf]

theorem roster_replay (state : ReplayState) {record : MrtRecord} {source : MrtSource}
    {outer : Bgp4mp} (hscope : record.scope = some (source, outer)) :
    roster (replay g limits state record).1 =
      roster (resolveSession limits source outer state).1 := by
  cases record with
  | message source' outer' timed bytes =>
    obtain ⟨rfl, rfl⟩ : source' = source ∧ outer' = outer := by simpa [MrtRecord.scope] using hscope
    exact roster_resolved limits (fun s =>
      (s.replayMessage_step g limits outer' timed bytes).keeps) _ _ _ _ _
  | state source' outer' old new =>
    obtain ⟨rfl, rfl⟩ : source' = source ∧ outer' = outer := by simpa [MrtRecord.scope] using hscope
    exact roster_resolved limits (fun s => (s.replayState_step old new).keeps) _ _ _ _ _
  | malformed source' scope =>
    obtain ⟨outer', rfl, rfl, rfl⟩ : ∃ outer', scope = some outer' ∧ source' = source ∧
        outer' = outer := by simpa [MrtRecord.scope] using hscope
    exact roster_resolved limits (fun s => ⟨rfl, rfl⟩) _ _ _ _ _

theorem roster_replay_of_scope_none (state : ReplayState) {record : MrtRecord}
    (hscope : record.scope = none) : roster (replay g limits state record).1 = roster state := by
  cases record with
  | message source outer timed bytes => cases hscope
  | state source outer old new => cases hscope
  | malformed source scope =>
    obtain rfl : scope = none := by simpa [MrtRecord.scope] using hscope
    simp only [replay]
    split
    · rfl
    · exact roster_map state (fun s => rfl) (fun s => rfl)

theorem replay_roster_step (state : ReplayState) (record : MrtRecord)
    (hapart : Apart (roster state)) : Apart (roster (replay g limits state record).1) ∧
      Grows (roster state) (roster (replay g limits state record).1) := by
  cases hscope : record.scope with
  | none =>
    rw [roster_replay_of_scope_none g limits state hscope]
    exact ⟨hapart, (Learned.refl _).grows⟩
  | some scope =>
    obtain ⟨source, outer⟩ := scope
    have hresolves := resolveSession_resolves limits source outer state
    rw [roster_replay g limits state hscope]
    exact ⟨hresolves.apart hapart, hresolves.grows⟩

theorem apart_after (records : List MrtRecord) : Apart (roster (after g limits records)) := by
  induction records using List.reverseRecOn with
  | nil => exact ⟨.nil, .nil, by simp [after, roster]⟩
  | append_singleton records record ih =>
    rw [after_snoc]
    exact (replay_roster_step g limits _ record ih).1

theorem grows_after (records more : List MrtRecord) :
    Grows (roster (after g limits records)) (roster (after g limits (records ++ more))) := by
  induction more using List.reverseRecOn with
  | nil =>
    rw [List.append_nil]
    exact (Learned.refl _).grows
  | append_singleton more record ih =>
    rw [← List.append_assoc, after_snoc]
    exact ih.trans (replay_roster_step g limits _ record (apart_after g limits _)).2

theorem Assigned.knows {records : List MrtRecord} {index : ℕ} {identity : SessionIdentity}
    (h : Assigned g limits records index identity) :
    ∃ s, (after g limits records)[index]? = some s ∧ s.identity.Knows identity := by
  obtain ⟨earlier, record, later, source, outer, rfl, hscope, rfl, hselected⟩ := h
  have hresolves := resolveSession_resolves limits source outer (after g limits earlier)
  rw [hselected] at hresolves
  obtain ⟨s, hs, hknows⟩ := hresolves.selected_knows
  have hgrows := grows_after g limits (earlier ++ [record]) later
  rw [after_snoc, roster_replay g limits _ hscope, List.append_assoc] at hgrows
  obtain ⟨q, hq, -, hlater⟩ := hgrows index _ (roster_getElem? hs)
  obtain ⟨t, ht, rfl⟩ := exists_of_roster_getElem? hq
  exact ⟨t, ht, hlater.trans hknows⟩

/-- The sessions have ids of their own and no two of them are compatible, and a record is compatible
with the session it is assigned to and with no other. -/
theorem sessions_apart (records : List MrtRecord) :
    (after g limits records).Pairwise (fun a b => a.identity.compatible b.identity = false) ∧
    ((after g limits records).map ImportedSession.id).Nodup ∧
    (∀ source outer index,
      (resolveSession limits source outer (after g limits records)).2 = .ok (.selected index) →
      (∃ s, (resolveSession limits source outer (after g limits records)).1[index]? = some s ∧
        s.identity.compatible (.fromRecord source outer) = true) ∧
      ∀ j t, (after g limits records)[j]? = some t ∨
          (resolveSession limits source outer (after g limits records)).1[j]? = some t →
        t.identity.compatible (.fromRecord source outer) = true → j = index) ∧
    (∀ index a b, Assigned g limits records index a → Assigned g limits records index b →
      compatibleValue a.peerAsn b.peerAsn = true ∧ compatibleValue a.localAsn b.localAsn = true ∧
      compatibleValue a.interfaceIndex b.interfaceIndex = true) ∧
    ∀ (more : List MrtRecord) (index : ℕ) (s : ImportedSession),
      (after g limits records)[index]? = some s →
      ∃ t : ImportedSession, (after g limits (records ++ more))[index]? = some t ∧ t.id = s.id ∧
        t.identity.Knows s.identity := by
  have hapart := apart_after g limits records
  refine ⟨List.pairwise_map.1 hapart.pairwise, ?_, ?_, ?_, ?_⟩
  · simpa only [roster, List.map_map, Function.comp_def] using hapart.ids
  · intro source outer index hselected
    have hresolves := resolveSession_resolves limits source outer (after g limits records)
    rw [hselected] at hresolves
    obtain ⟨s, hs, hknows⟩ := hresolves.selected_knows
    exact ⟨⟨s, hs, (SessionIdentity.Knows.refl _).agree hknows⟩,
      fun j t ht hcompatible => hresolves.selected_only ht hcompatible⟩
  · intro index a b ha hb
    obtain ⟨s, hs, hknowsA⟩ := ha.knows
    obtain ⟨t, ht, hknowsB⟩ := hb.knows
    obtain rfl : s = t := Option.some.inj (hs.symm.trans ht)
    exact (SessionIdentity.compatible_iff.1 (hknowsA.agree hknowsB)).2
  · intro more index s hs
    obtain ⟨q, hq, hid, hknows⟩ := grows_after g limits records more index _ (roster_getElem? hs)
    obtain ⟨t, ht, rfl⟩ := exists_of_roster_getElem? hq
    exact ⟨t, ht, hid, hknows⟩

/-- One router, whose records do or do not know the ASN of its peer. -/
def sampleSource : MrtSource := ⟨"router", "1"⟩

def sampleOuter (peerAsn : U32) (locallyGenerated : Bool) : Bgp4mp where
  peerAsn := peerAsn
  localAsn := 65000
  asnWidth := 2
  interfaceIndex := 0
  addressAfi := 1
  peerAddress := "192.0.2.1"
  localAddress := "192.0.2.2"
  locallyGenerated := locallyGenerated
  addPath := false

def sampleCapabilities : CapabilitySet where
  fourOctetAsn := none
  mp := ∅
  addPath := .empty
  addPathMalformed := false
  extendedMessages := false
  enhancedRefresh := false
  unsupportedIpv6NextHopLayout := false
  valid := true

def sampleGrammar : Grammar where
  validateMessageFrame := fun bytes _ => .ok ((bytes[18]?).getD 0)
  parseOpen := fun _ _ => .ok ⟨65000, none, sampleCapabilities, [], false⟩
  parseUpdate := fun _ _ _ _ => .ok ⟨[⟨1, 1, none⟩], false, [], false, false⟩
  checkObservation := fun _ _ => .ok ()

/-- The second record tells the ASN that the first one left open. -/
def sampleLearning : List MrtRecord :=
  [.state sampleSource (sampleOuter 0 false) 1 2, .state sampleSource (sampleOuter 65000 false) 2 4]

theorem sessions_apart_sampleLearning :
    Assigned sampleGrammar .default sampleLearning 0
      (.fromRecord sampleSource (sampleOuter 0 false)) ∧
    Assigned sampleGrammar .default sampleLearning 0
      (.fromRecord sampleSource (sampleOuter 65000 false)) ∧
    compatibleValue (SessionIdentity.fromRecord sampleSource (sampleOuter 0 false)).peerAsn
      (SessionIdentity.fromRecord sampleSource (sampleOuter 65000 false)).peerAsn = true := by
  have hfirst : Assigned sampleGrammar .default sampleLearning 0
      (.fromRecord sampleSource (sampleOuter 0 false)) :=
    ⟨[], _, _, _, _, rfl, rfl, rfl, by decide +kernel⟩
  have hsecond : Assigned sampleGrammar .default sampleLearning 0
      (.fromRecord sampleSource (sampleOuter 65000 false)) :=
    ⟨[.state sampleSource (sampleOuter 0 false) 1 2], _, [], _, _, rfl, rfl, rfl, by decide +kernel⟩
  exact ⟨hfirst, hsecond, ((sessions_apart sampleGrammar .default sampleLearning).2.2.2.1 0 _ _
    hfirst hsecond).1⟩

end Runs

end PcapEvidence.Mrt
