import PcapEvidence.BmpReplayStep
import PcapEvidence.Sha256Numbers

/-!
# Replay of a whole batch

The observations of a batch form one admissible chain in each stream, and an UPDATE is published only
behind a Peer Up that nothing has upset since. The argument keeps what is known of every peer beside
the records that have been replayed.
-/

namespace PcapEvidence.Bgp.Bmp

open FiniteMap History Import Wire

section Sessions

variable {x : BmpPeerIdentity × PeerState} {mid : Sessions}

structure WellFormed (s : Sessions) : Prop where
  keys : (s.map Prod.fst).Nodup
  indices : (s.map fun x => x.2.index).Nodup
  bound : ∀ x ∈ s, x.2.index < s.length

theorem mem_of_get {s : Sessions} {p : BmpPeerIdentity} {e : PeerState} (h : s.get p = some e) :
    (p, e) ∈ s := by
  obtain ⟨x, hx, rfl⟩ := Option.map_eq_some_iff.1 h
  have hkey : x.1 = p := by simpa using List.find?_some hx
  exact hkey ▸ List.mem_of_find?_eq_some hx

theorem ne_of_get {s : Sessions} {p : BmpPeerIdentity} (h : s.get p = none) : ∀ x ∈ s, x.1 ≠ p := by
  intro x hx
  have hnone := List.find?_eq_none.1 (Option.map_eq_none_iff.1 h) x hx
  simpa using hnone

theorem WellFormed.eq_of_key {s : Sessions} (hs : WellFormed s) {y : BmpPeerIdentity × PeerState}
    (hx : x ∈ s) (hy : y ∈ s) (h : x.1 = y.1) : x = y :=
  List.inj_on_of_nodup_map hs.keys hx hy h

theorem WellFormed.key_of_index {s : Sessions} (hs : WellFormed s)
    {y : BmpPeerIdentity × PeerState} (hx : x ∈ s) (hy : y ∈ s) (h : x.2.index = y.2.index) :
    x.1 = y.1 :=
  congrArg Prod.fst (List.inj_on_of_nodup_map hs.indices hx hy h)

theorem insert_perm (s : Sessions) (p : BmpPeerIdentity) (e : PeerState) :
    (s.insert p e).Perm ((p, e) :: s) := List.perm_orderedInsert ..

/-- The peers before a record, with the one that is seen for the first time. -/
inductive Tracked (s : Sessions) : Sessions → Prop where
  | same : Tracked s s
  | fresh (p : BmpPeerIdentity) (h : ∀ x ∈ s, x.1 ≠ p) :
      Tracked s (s.insert p (PeerState.fresh s.length))

theorem Tracked.subset {s : Sessions} (h : Tracked s mid) : s ⊆ mid := by
  intro x hx
  cases h with
  | same => exact hx
  | fresh p h => exact (insert_perm ..).mem_iff.2 (List.mem_cons_of_mem _ hx)

theorem Tracked.mem {s : Sessions} (h : Tracked s mid)
    (hx : x ∈ mid) : x ∈ s ∨ x.2 = PeerState.fresh s.length := by
  cases h with
  | same => exact Or.inl hx
  | fresh p h =>
    rcases List.mem_cons.1 ((insert_perm ..).mem_iff.1 hx) with rfl | hx
    · exact Or.inr rfl
    · exact Or.inl hx

theorem Tracked.wellFormed {s : Sessions} (hs : WellFormed s) (h : Tracked s mid) :
    WellFormed mid := by
  cases h with
  | same => exact hs
  | fresh p h =>
    have hperm := insert_perm s p (PeerState.fresh s.length)
    refine ⟨(hperm.map Prod.fst).nodup_iff.2 ?_, (hperm.map _).nodup_iff.2 ?_, ?_⟩
    · refine List.nodup_cons.2 ⟨fun hmem => ?_, hs.keys⟩
      obtain ⟨x, hx, hkey⟩ := List.mem_map.1 hmem
      exact h x hx hkey
    · refine List.nodup_cons.2 ⟨fun hmem => ?_, hs.indices⟩
      obtain ⟨x, hx, hindex⟩ := List.mem_map.1 hmem
      exact absurd hindex (hs.bound x hx).ne
    · intro x hx
      rw [hperm.length_eq, List.length_cons]
      rcases List.mem_cons.1 (hperm.mem_iff.1 hx) with rfl | hx
      · exact Nat.lt_succ_self _
      · exact Nat.lt_succ_of_lt (hs.bound x hx)

theorem map_eq_of_forall₂ {α β γ : Type} {R : α → β → Prop} {f : α → γ} {g : β → γ} {l : List α}
    {m : List β} (h : List.Forall₂ R l m) (hR : ∀ a b, R a b → g b = f a) : m.map g = l.map f := by
  induction h with
  | nil => rfl
  | cons hab _ ih => exact congrArg₂ List.cons (hR _ _ hab) ih

/-- Peers that keep their identity and move with the observations of a record. -/
def Moved (new : List Published) (s t : Sessions) : Prop :=
  List.Forall₂ (fun x y => y.1 = x.1 ∧ Moves new x.2 y.2) s t

theorem Moved.wellFormed {new : List Published} {s t : Sessions} (hs : WellFormed s)
    (h : Moved new s t) : WellFormed t := by
  have hkeys : t.map Prod.fst = s.map Prod.fst := map_eq_of_forall₂ h fun _ _ hxy => hxy.1
  have hindices : (t.map fun x => x.2.index) = s.map fun x => x.2.index :=
    map_eq_of_forall₂ h fun _ _ hxy => hxy.2.index
  refine ⟨hkeys ▸ hs.keys, hindices ▸ hs.indices, fun y hy => ?_⟩
  obtain ⟨x, hx, _, hmoves⟩ := mem_of_forall₂ h hy
  rw [hmoves.index, ← h.length_eq]
  exact hs.bound x hx

theorem Moved.refl (s : Sessions) : Moved [] s s :=
  List.forall₂_same.2 fun x _ => ⟨rfl, .refl x.2⟩

theorem moved_set {s : Sessions} (hs : WellFormed s) {p : BmpPeerIdentity} {e e' : PeerState}
    (hmem : (p, e) ∈ s) {new : List Published} (hmoves : Moves new e e')
    (hnew : ∀ o ∈ new, ∃ stream, o.session = streamId e stream) : Moved new s (s.set p e') := by
  refine List.forall₂_map_right_iff.2 (List.forall₂_same.2 fun x hx => ?_)
  by_cases hkey : x.1 = p
  · obtain rfl : x = (p, e) := hs.eq_of_key hx hmem hkey
    rw [if_pos rfl]
    exact ⟨rfl, hmoves⟩
  · rw [if_neg hkey]
    exact ⟨rfl, .of_foreign (fun hindex => hkey (hs.key_of_index hx hmem hindex.symm)) hnew⟩

theorem mem_set {s : Sessions} {p : BmpPeerIdentity} {e : PeerState} (h : x ∈ s.set p e) : x = (p, e) ∨ (x ∈ s ∧ x.1 ≠ p) := by
  obtain ⟨y, hy, rfl⟩ := List.mem_map.1 h
  split
  · exact Or.inl rfl
  · rename_i hne
    exact Or.inr ⟨hy, hne⟩

theorem moved_flatMap {record : BmpRecord} {s : Sessions}
    {settled : List (BmpPeerIdentity × List Published × PeerState)}
    (h : List.Forall₂ (fun x y => y.1 = x.1 ∧ Moves y.2.1 x.2 y.2.2 ∧ Owned record x.2 y.2.1) s
      settled) (hindices : (s.map fun x => x.2.index).Nodup) :
    Moved (settled.flatMap fun y => y.2.1) s (settled.map fun y => (y.1, y.2.2)) := by
  induction h with
  | nil => exact .nil
  | @cons x y s settled hxy htail ih =>
    obtain ⟨hfresh, hindices⟩ := List.nodup_cons.1 hindices
    obtain ⟨hkey, hmoves, howned⟩ := hxy
    have hother : ∀ z ∈ s, z.2.index ≠ x.2.index := by
      intro z hz hsame
      exact hfresh (List.mem_map.2 ⟨z, hz, hsame⟩)
    have hrest : ∀ stream, inStream (streamId x.2 stream) (settled.flatMap fun y => y.2.1) = [] := by
      intro stream
      refine List.filter_eq_nil_iff.2 fun o ho hlabel => ?_
      obtain ⟨w, hw, ho⟩ := List.mem_flatMap.1 ho
      obtain ⟨z, hz, _, _, hzowned⟩ := mem_of_forall₂ htail hw
      obtain ⟨other, hsession, _⟩ := hzowned o ho
      exact hother z hz (streamId_inj (hsession.symm.trans (of_decide_eq_true hlabel))).1
    refine .cons ⟨hkey, hmoves.congr fun stream => ?_⟩ ?_
    · rw [List.flatMap_cons, inStream_append, hrest, List.append_nil]
    · have hboth : List.Forall₂ (fun z w => z.2.index ≠ x.2.index ∧ w.1 = z.1 ∧
          Moves (settled.flatMap fun y => y.2.1) z.2 w.2) s
          (settled.map fun y => (y.1, y.2.2)) :=
        (List.forall₂_and_left ..).2 ⟨hother, ih hindices⟩
      refine hboth.imp fun z w hzw => ⟨hzw.2.1, hzw.2.2.congr fun stream => ?_⟩
      rw [List.flatMap_cons, inStream_append]
      refine List.append_left_eq_self.2 (List.filter_eq_nil_iff.2 fun o ho hlabel => ?_)
      obtain ⟨other, hsession, _⟩ := howned o ho
      exact hzw.1 (streamId_inj ((of_decide_eq_true hlabel).symm.trans hsession)).1

end Sessions

section Records

variable {p : BmpPeerIdentity}
variable (sha256 : List U8 → Digest) (j : Projection) (batch : BmpBatch) (l : Bgp.Limits)

def Concerns (record : BmpRecord) (p : BmpPeerIdentity) : Prop :=
  record.peer.map BmpPeer.identity = some p

def AcceptsOpens (record : BmpRecord) (p : BmpPeerIdentity) : Prop :=
  ∃ peer, record.peer = some peer ∧ peer.identity = p ∧
    OpensAccepted sha256 j batch l peer record.body

def Cuts (record : BmpRecord) (status : Status) (p : BmpPeerIdentity) : Prop :=
  (∃ information, record.body = .termination information) ∨
    (Concerns record p ∧ Upsets record.body status) ∨
    ∃ reason errorOffset, record.body = .opaqueBytes reason errorOffset ∧
      invalidating record reason = true ∧ (record.peer = none ∨ Concerns record p)

structure RecordStep (record : BmpRecord) (s t : ReplayState) (o : Outcome) : Prop where
  moved : ∃ mid, Tracked s.sessions mid ∧ Moved o.observations mid t.sessions ∧
    ∀ x ∈ o.observations, ∃ y ∈ mid, ∃ stream, x.session = streamId y.2 stream ∧
      x.recordId = recordId record stream
  up : ∀ y ∈ t.sessions, Resolved y.2 → AcceptsOpens sha256 j batch l record y.1 ∨
    (∃ x ∈ s.sessions, x.1 = y.1 ∧ Resolved x.2) ∧ ¬ Cuts record o.status y.1
  monitor : t.monitorClosed = false → (∃ information, record.body = .initiation information) ∨
    (s.monitorClosed = false ∧ ¬ ∃ information, record.body = .termination information)
  published : (∃ x ∈ o.observations, x.isUpdate = true) → s.monitorClosed = false ∧
    ∃ peer, record.peer = some peer ∧ ∃ x ∈ s.sessions, x.1 = peer.identity ∧ Resolved x.2

variable {sha256 j batch l} {peerLimit : ℕ} {record : BmpRecord} {s t : ReplayState} {o : Outcome}

theorem RecordStep.of_same (hsessions : t.sessions = s.sessions) (hnew : o.observations = [])
    (hcuts : ∀ y ∈ s.sessions, ¬ Cuts record o.status y.1)
    (hmonitor : t.monitorClosed = false → (∃ information, record.body = .initiation information) ∨
      (s.monitorClosed = false ∧ ¬ ∃ information, record.body = .termination information)) :
    RecordStep sha256 j batch l record s t o where
  moved := by
    rw [hnew, hsessions]
    exact ⟨_, .same, .refl _, fun _ h => nomatch h⟩
  up := by
    rw [hsessions]
    exact fun y hy hup => Or.inr ⟨⟨y, hy, rfl, hup⟩, hcuts y hy⟩
  monitor := hmonitor
  published := by
    rw [hnew]
    exact fun ⟨_, h, _⟩ => nomatch h

theorem replayTermination_ok (hs : WellFormed s.sessions)
    (h : replayTermination j.checks batch record l s = .ok (o, t)) :
    RecordStep sha256 j batch l record s t o := by
  obtain ⟨affected, _, h⟩ := bind_eq_ok.1 h
  obtain ⟨settled, hsettled, h⟩ := bind_eq_ok.1 h
  cases h
  have hreset : List.Forall₂ (fun x y => y.1 = x.1 ∧ reset j.checks batch record l (unclocked x.1) x.2
      "bmp_monitor_termination" = .ok y.2) s.sessions settled := by
    refine (forall₂_mapM hsettled).imp fun x y hxy => ?_
    obtain ⟨r, hr, rfl⟩ := map_ok hxy
    exact ⟨rfl, hr⟩
  refine ⟨⟨s.sessions, .same, ?_, ?_⟩, ?_, fun h => (nomatch h), ?_⟩
  · exact moved_flatMap (hreset.imp fun x y hxy =>
      ⟨hxy.1, reset_moves hxy.2, (reset_owned hxy.2).1⟩) hs.indices
  · intro x hx
    obtain ⟨y, hy, hx⟩ := List.mem_flatMap.1 hx
    obtain ⟨z, hz, _, hr⟩ := mem_of_forall₂ hreset hy
    exact ⟨z, hz, (reset_owned hr).1 x hx⟩
  · intro y hy hup
    obtain ⟨w, hw, rfl⟩ := List.mem_map.1 hy
    obtain ⟨z, _, _, hr⟩ := mem_of_forall₂ hreset hw
    have hdown := (reset_ok hr).1.down
    rw [hup.1] at hdown
    cases hdown
  · rintro ⟨x, hx, hupdate⟩
    obtain ⟨y, hy, hx⟩ := List.mem_flatMap.1 hx
    obtain ⟨z, _, _, hr⟩ := mem_of_forall₂ hreset hy
    rw [(reset_owned hr).2 x hx] at hupdate
    cases hupdate

theorem not_resolved_unresolved (e : PeerState) : ¬ Resolved (unresolved e) := fun h => nomatch h.2

theorem moves_unresolved (e : PeerState) : Moves [] e (unresolved e) :=
  .of_silent rfl rfl rfl fun _ => rfl

theorem cuts_of_quarantine {reason : OpaqueReason} {errorOffset : Option ℕ}
    (hbody : record.body = .opaqueBytes reason errorOffset)
    (h : Cuts record .opaqueQuarantine p) :
    invalidating record reason = true ∧ (record.peer = none ∨ Concerns record p) := by
  rcases h with ⟨information, h⟩ | ⟨_, ⟨r, d, h⟩ | h⟩ | ⟨reason', errorOffset', h, hinvalid, hpeer⟩
  · rw [hbody] at h
    cases h
  · rw [hbody] at h
    cases h
  · simp at h
  · rw [hbody] at h
    cases h
    exact ⟨hinvalid, hpeer⟩

theorem replayOpaque_ok {reason : OpaqueReason} {errorOffset : Option ℕ}
    (hs : WellFormed s.sessions) (hbody : record.body = .opaqueBytes reason errorOffset)
    (h : replayOpaque j.checks batch record l reason s = .ok (o, t)) :
    RecordStep sha256 j batch l record s t o := by
  have hmonitor : s.monitorClosed = false → (∃ information, record.body = .initiation information) ∨
      (s.monitorClosed = false ∧ ¬ ∃ information, record.body = .termination information) := by
    intro hopen
    refine Or.inr ⟨hopen, fun ⟨information, h⟩ => ?_⟩
    rw [hbody] at h
    cases h
  unfold replayOpaque at h
  dsimp only at h
  split at h
  · rename_i hinvalid
    cases hpeer : record.peer with
    | some peer =>
      rw [hpeer] at h
      dsimp only at h
      cases hget : s.sessions.get peer.identity with
      | some session =>
        rw [hget] at h
        obtain ⟨affected, _, h⟩ := bind_eq_ok.1 h
        obtain ⟨gaps, _, h⟩ := bind_eq_ok.1 h
        cases h
        have hmem := mem_of_get hget
        refine ⟨⟨s.sessions, .same, moved_set hs hmem (moves_unresolved session)
          (fun _ h => nomatch h), fun _ h => nomatch h⟩, ?_, hmonitor,
          fun ⟨_, h, _⟩ => nomatch h⟩
        intro y hy hup
        rcases mem_set hy with rfl | ⟨hy, hne⟩
        · exact absurd hup (not_resolved_unresolved session)
        · refine Or.inr ⟨⟨y, hy, rfl, hup⟩, fun hcuts => ?_⟩
          rcases (cuts_of_quarantine hbody hcuts).2 with hnone | hconcerns
          · rw [hpeer] at hnone
            cases hnone
          · rw [Concerns, hpeer] at hconcerns
            exact hne (Option.some.inj hconcerns).symm
      | none =>
        rw [hget] at h
        cases h
        refine .of_same rfl rfl (fun y hy hcuts => ?_) hmonitor
        rcases (cuts_of_quarantine hbody hcuts).2 with hnone | hconcerns
        · rw [hpeer] at hnone
          cases hnone
        · rw [Concerns, hpeer] at hconcerns
          exact ne_of_get hget y hy (Option.some.inj hconcerns).symm
    | none =>
      rw [hpeer] at h
      obtain ⟨affected, _, h⟩ := bind_eq_ok.1 h
      obtain ⟨gaps, _, h⟩ := bind_eq_ok.1 h
      cases h
      refine ⟨⟨s.sessions, .same, ?_, fun _ h => nomatch h⟩, ?_, hmonitor,
        fun ⟨_, h, _⟩ => nomatch h⟩
      · exact List.forall₂_map_right_iff.2 (List.forall₂_same.2 fun x _ =>
          ⟨rfl, moves_unresolved x.2⟩)
      · intro y hy hup
        obtain ⟨x, _, rfl⟩ := List.mem_map.1 hy
        exact absurd hup (not_resolved_unresolved x.2)
  · rename_i hvalid
    cases h
    exact .of_same rfl rfl (fun y _ hcuts => hvalid (cuts_of_quarantine hbody hcuts).1) hmonitor

theorem track_ok {e : PeerState} {mid : ReplayState} (h : track l peerLimit s p = .ok (e, mid)) :
    Tracked s.sessions mid.sessions ∧ (p, e) ∈ mid.sessions ∧
      mid.monitorClosed = s.monitorClosed := by
  unfold track at h
  cases hget : s.sessions.get p with
  | some session =>
    rw [hget] at h
    cases h
    exact ⟨.same, mem_of_get hget, rfl⟩
  | none =>
    rw [hget] at h
    dsimp only at h
    split at h
    · cases h
    · cases h
      exact ⟨.fresh p (ne_of_get hget), (insert_perm ..).mem_iff.2 List.mem_cons_self, rfl⟩

theorem not_cuts_of_peer {status : Status}
    (htermination : ∀ information, record.body ≠ .termination information)
    (hquarantine : ∀ reason errorOffset, record.body ≠ .opaqueBytes reason errorOffset)
    (h : Concerns record p → ¬ Upsets record.body status) : ¬ Cuts record status p := by
  rintro (⟨information, hbody⟩ | ⟨hconcerns, hupsets⟩ | ⟨reason, errorOffset, hbody, _⟩)
  · exact htermination information hbody
  · exact h hconcerns hupsets
  · exact hquarantine reason errorOffset hbody

theorem replayPeer_ok (hs : WellFormed s.sessions)
    (htermination : ∀ information, record.body ≠ .termination information)
    (hquarantine : ∀ reason errorOffset, record.body ≠ .opaqueBytes reason errorOffset)
    (h : replayPeer sha256 j batch l peerLimit record s = .ok (o, t)) :
    RecordStep sha256 j batch l record s t o := by
  unfold replayPeer at h
  cases hpeer : record.peer with
  | none =>
    rw [hpeer] at h
    cases h
  | some peer =>
    rw [hpeer] at h
    obtain ⟨⟨e, mid⟩, htrack, h⟩ := bind_eq_ok.1 h
    obtain ⟨⟨outcome, e'⟩, hreplay, h⟩ := bind_eq_ok.1 h
    cases h
    obtain ⟨htracked, hmem, hclosed⟩ := track_ok htrack
    have hstep := replayBody_ok hreplay
    have hmid := htracked.wellFormed hs
    -- A peer that is seen for the first time is not up.
    have hold : Resolved e → (peer.identity, e) ∈ s.sessions := by
      intro hup
      refine (htracked.mem hmem).resolve_right fun hfresh => ?_
      rw [show e = PeerState.fresh s.sessions.length from hfresh] at hup
      cases hup.1
    refine ⟨⟨mid.sessions, htracked, moved_set hmid hmem hstep.moves ?_, ?_⟩, ?_, ?_, ?_⟩
    · intro x hx
      obtain ⟨stream, hsession, _⟩ := hstep.owned x hx
      exact ⟨stream, hsession⟩
    · intro x hx
      exact ⟨_, hmem, hstep.owned x hx⟩
    · intro y hy hup
      rcases mem_set hy with rfl | ⟨hy, hne⟩
      · rcases hstep.up hup with haccepted | ⟨hresolved, hcalm⟩
        · exact Or.inl ⟨peer, hpeer, rfl, haccepted⟩
        · exact Or.inr ⟨⟨_, hold hresolved, rfl, hresolved⟩,
            not_cuts_of_peer htermination hquarantine fun _ => hcalm⟩
      · have hy : y ∈ s.sessions := by
          refine (htracked.mem hy).resolve_right fun hfresh => ?_
          rw [hfresh] at hup
          cases hup.1
        refine Or.inr ⟨⟨y, hy, rfl, hup⟩, not_cuts_of_peer htermination hquarantine fun hconcerns => ?_⟩
        rw [Concerns, hpeer] at hconcerns
        exact absurd (Option.some.inj hconcerns).symm hne
    · intro hopen
      exact Or.inr ⟨hclosed ▸ hopen, fun ⟨information, hbody⟩ => htermination information hbody⟩
    · intro hupdate
      obtain ⟨hopen, hresolved⟩ := hstep.published hupdate
      exact ⟨hclosed ▸ hopen, peer, hpeer, _, hold hresolved, rfl, hresolved⟩

theorem replayOutcome_ok (hs : WellFormed s.sessions)
    (h : replayOutcome sha256 j batch l peerLimit record s = .ok (o, t)) :
    RecordStep sha256 j batch l record s t o := by
  unfold replayOutcome at h
  cases hbody : record.body with
  | initiation information =>
    rw [hbody] at h
    cases h
    refine .of_same rfl rfl (fun y _ hcuts => ?_) fun _ => Or.inl ⟨information, hbody⟩
    simp [Cuts, Upsets, hbody, Outcome.bare] at hcuts
  | termination information =>
    rw [hbody] at h
    exact replayTermination_ok hs h
  | opaqueBytes reason errorOffset =>
    rw [hbody] at h
    exact replayOpaque_ok hs hbody h
  | routeMonitoring message =>
    rw [hbody] at h
    exact replayPeer_ok hs (by simp [hbody]) (by simp [hbody]) h
  | peerUp localAddress localPort remotePort sentOpen receivedOpen information =>
    rw [hbody] at h
    exact replayPeer_ok hs (by simp [hbody]) (by simp [hbody]) h
  | peerDown reason data =>
    rw [hbody] at h
    exact replayPeer_ok hs (by simp [hbody]) (by simp [hbody]) h

end Records

section Histories

variable (sha256 : List U8 → Digest) (j : Projection) (batch : BmpBatch) (l : Bgp.Limits)

/-- The records of a run with what they published. -/
abbrev History : Type := List (BmpRecord × ReplayRecord)

def History.observations (h : History) : List Published := h.flatMap fun x => x.2.observations

def Established (h : History) (p : BmpPeerIdentity) : Prop :=
  ∃ before x after, h = before ++ x :: after ∧ AcceptsOpens sha256 j batch l x.1 p ∧
    ∀ y ∈ after, ¬ Cuts y.1 y.2.event.status p

def Monitored (h : History) : Prop :=
  ∀ before x after, h = before ++ x :: after →
    (∃ information, x.1.body = .termination information) →
      ∃ y ∈ after, ∃ information, y.1.body = .initiation information

def Publishes (x : BmpRecord × ReplayRecord) : Prop := ∃ o ∈ x.2.observations, o.isUpdate = true

structure Tracks (l : List Published) (e : PeerState) (stream : Stream) : Prop where
  chain : l.IsChain fun a b => Follows a.generation b
  fresh : e.usedStreams stream = false → l = []
  last : ∀ o, l.getLast? = some o → o.generation = e.decoder.generation

structure Traced (h : History) (s : ReplayState) : Prop where
  wellFormed : WellFormed s.sessions
  labelled : ∀ o ∈ h.observations, ∃ x ∈ s.sessions, ∃ stream, o.session = streamId x.2 stream
  tracks : ∀ x ∈ s.sessions, ∀ stream,
    Tracks (inStream (streamId x.2 stream) h.observations) x.2 stream
  recorded : ∀ o ∈ h.observations, ∃ x ∈ h, ∃ stream, o.recordId = recordId x.1 stream
  distinct : (h.observations.map fun o => (o.session, o.recordId)).Nodup
  up : ∀ x ∈ s.sessions, Resolved x.2 → Established sha256 j batch l h x.1
  monitor : s.monitorClosed = false → Monitored h
  published : ∀ before x after, h = before ++ x :: after → Publishes x →
    ∃ peer, x.1.peer = some peer ∧ Established sha256 j batch l before peer.identity ∧
      Monitored before

theorem Tracks.moves {l new : List Published} {e e' : PeerState} {stream : Stream}
    (h : Tracks l e stream) (hnew : MovesStream new e e' stream) :
    Tracks (l ++ inStream (streamId e stream) new) e' stream := by
  rcases hnew with ⟨hnone, hused, hsame⟩ | ⟨o, hone, hused, hgeneration, hfollows⟩
  · rw [hnone, List.append_nil]
    refine ⟨h.chain, fun hfresh => h.fresh (hused ▸ hfresh), fun o ho => ?_⟩
    have hstream : e.usedStreams stream = true := by
      by_contra hfresh
      rw [h.fresh (Bool.not_eq_true _ ▸ hfresh)] at ho
      cases ho
    rw [hsame hstream, h.last o ho]
  · rw [hone]
    refine ⟨List.isChain_append.2 ⟨h.chain, .singleton _, fun a ha b hb => ?_⟩, ?_, ?_⟩
    · obtain rfl : o = b := Option.some.inj hb
      have ha : l.getLast? = some a := ha
      have hstream : e.usedStreams stream = true := by
        by_contra hfresh
        rw [h.fresh (Bool.not_eq_true _ ▸ hfresh)] at ha
        cases ha
      rw [h.last a ha]
      exact hfollows hstream
    · intro hfresh
      rw [hused] at hfresh
      cases hfresh
    · intro x hx
      rw [List.getLast?_concat] at hx
      rw [← Option.some.inj hx, hgeneration]

variable {sha256 j batch l} {h : History} {x : BmpRecord × ReplayRecord} {s t : ReplayState}
  {o : Outcome}

theorem split_concat {α : Type} {m before after : List α} {a b : α}
    (h : m ++ [a] = before ++ b :: after) :
    (before = m ∧ b = a ∧ after = []) ∨ ∃ rest, after = rest ++ [a] ∧ m = before ++ b :: rest := by
  rcases List.eq_nil_or_concat after with rfl | ⟨rest, c, rfl⟩
  · obtain ⟨rfl, hb⟩ := List.append_inj' h rfl
    exact Or.inl ⟨rfl, (List.cons.inj hb).1.symm, rfl⟩
  · rw [List.concat_eq_append, ← List.cons_append, ← List.append_assoc] at h
    obtain ⟨hm, ha⟩ := List.append_inj' h rfl
    rw [List.concat_eq_append, (List.cons.inj ha).1]
    exact Or.inr ⟨rest, rfl, hm⟩

theorem Established.keep {p : BmpPeerIdentity} (hp : Established sha256 j batch l h p)
    (hx : ¬ Cuts x.1 x.2.event.status p) : Established sha256 j batch l (h ++ [x]) p := by
  obtain ⟨before, y, after, rfl, haccepts, hcalm⟩ := hp
  refine ⟨before, y, after ++ [x], by simp, haccepts, fun z hz => ?_⟩
  rcases List.mem_append.1 hz with hz | hz
  · exact hcalm z hz
  · rwa [List.mem_singleton.1 hz]

theorem Established.begin {p : BmpPeerIdentity} (h : History)
    (hx : AcceptsOpens sha256 j batch l x.1 p) : Established sha256 j batch l (h ++ [x]) p :=
  ⟨h, x, [], rfl, hx, fun _ hy => nomatch hy⟩

theorem Monitored.keep (hh : Monitored h)
    (hx : ¬ ∃ information, x.1.body = .termination information) : Monitored (h ++ [x]) := by
  intro before y after hsplit hy
  rcases split_concat hsplit with ⟨_, rfl, _⟩ | ⟨rest, rfl, hrest⟩
  · exact absurd hy hx
  · obtain ⟨z, hz, hinitiation⟩ := hh before y rest hrest hy
    exact ⟨z, List.mem_append_left _ hz, hinitiation⟩

theorem Monitored.begin (h : History) (hx : ∃ information, x.1.body = .initiation information) :
    Monitored (h ++ [x]) := by
  intro before y after hsplit hy
  rcases split_concat hsplit with ⟨_, rfl, _⟩ | ⟨rest, rfl, _⟩
  · obtain ⟨information, hx⟩ := hx
    obtain ⟨information', hy⟩ := hy
    rw [hx] at hy
    cases hy
  · exact ⟨x, List.mem_append_right _ (List.mem_singleton_self x), hx⟩

theorem observations_concat (h : History) (x : BmpRecord × ReplayRecord) :
    (h ++ [x]).observations = h.observations ++ x.2.observations := by
  simp [History.observations]

/-- The observations of one record have labels of their own. -/
theorem nodup_of_moved {new : List Published} {mid sessions : Sessions}
    (hmoved : Moved new mid sessions)
    (hlabels : ∀ o ∈ new, ∃ y ∈ mid, ∃ stream, o.session = streamId y.2 stream) :
    (new.map Published.session).Nodup := by
  refine List.nodup_iff_count_le_one.2 fun label => ?_
  rw [List.count_eq_countP, List.countP_map, List.countP_eq_length_filter]
  by_cases hmem : ∃ o ∈ new, o.session = label
  · obtain ⟨o, ho, rfl⟩ := hmem
    obtain ⟨y, hy, stream, hlabel⟩ := hlabels o ho
    obtain ⟨z, _, _, hmoves⟩ := mem_of_forall₂ hmoved.flip hy
    have hone : (inStream (streamId y.2 stream) new).length ≤ 1 := by
      rcases hmoves.stream stream with ⟨hnone, _⟩ | ⟨a, ha, _⟩
      · rw [hnone]
        exact Nat.zero_le _
      · rw [ha]
        exact le_rfl
    have hsame : new.filter ((· == o.session) ∘ Published.session) =
        inStream (streamId y.2 stream) new :=
      List.filter_congr fun a _ => hlabel ▸ beq_eq_decide ..
    rw [hsame]
    exact hone
  · have hnone : new.filter ((· == label) ∘ Published.session) = [] :=
      List.filter_eq_nil_iff.2 fun o ho hlabel => hmem ⟨o, ho, by simpa using hlabel⟩
    rw [hnone]
    exact Nat.zero_le _

theorem Traced.step (hh : Traced sha256 j batch l h s) (hstep : RecordStep sha256 j batch l x.1 s t o)
    (hobservations : x.2.observations = o.observations) (hstatus : x.2.event.status = o.status)
    (hoffset : ∀ y ∈ h, y.1.offset < x.1.offset) : Traced sha256 j batch l (h ++ [x]) t := by
  obtain ⟨mid, htracked, hmoved, hnew⟩ := hstep.moved
  have hmid := htracked.wellFormed hh.wellFormed
  have hlabels : ∀ a ∈ o.observations, ∃ y ∈ mid, ∃ stream, a.session = streamId y.2 stream := by
    intro a ha
    obtain ⟨y, hy, stream, hsession, _⟩ := hnew a ha
    exact ⟨y, hy, stream, hsession⟩
  have hset : (h ++ [x]).observations = h.observations ++ o.observations := by
    rw [observations_concat, hobservations]
  refine ⟨hmoved.wellFormed hmid, ?_, ?_, ?_, ?_, ?_, ?_, ?_⟩
  · intro a ha
    rw [hset] at ha
    have hlabel : ∃ y ∈ mid, ∃ stream, a.session = streamId y.2 stream := by
      rcases List.mem_append.1 ha with ha | ha
      · obtain ⟨y, hy, stream, hsession⟩ := hh.labelled a ha
        exact ⟨y, htracked.subset hy, stream, hsession⟩
      · exact hlabels a ha
    obtain ⟨y, hy, stream, hsession⟩ := hlabel
    obtain ⟨z, hz, _, hmoves⟩ := mem_of_forall₂ hmoved.flip hy
    exact ⟨z, hz, stream, hsession.trans (streamId_congr hmoves.index stream).symm⟩
  · intro z hz stream
    obtain ⟨y, hy, _, hmoves⟩ := mem_of_forall₂ hmoved hz
    rw [hset, inStream_append, streamId_congr hmoves.index]
    refine Tracks.moves ?_ (hmoves.stream stream)
    rcases htracked.mem hy with hy' | hfresh
    · exact hh.tracks y hy' stream
    · -- A new index has no label among the observations so far.
      have hnone : inStream (streamId y.2 stream) h.observations = [] := by
        refine List.filter_eq_nil_iff.2 fun a ha hlabel => ?_
        obtain ⟨w, hw, other, hsession⟩ := hh.labelled a ha
        have hindex := (streamId_inj (hsession.symm.trans (of_decide_eq_true hlabel))).1
        have hbound := hh.wellFormed.bound w hw
        rw [hindex, hfresh] at hbound
        exact absurd hbound (lt_irrefl _)
      rw [hnone]
      exact ⟨.nil, fun _ => rfl, fun _ h => nomatch h⟩
  · intro a ha
    rw [hset] at ha
    rcases List.mem_append.1 ha with ha | ha
    · obtain ⟨y, hy, stream, hrecord⟩ := hh.recorded a ha
      exact ⟨y, List.mem_append_left _ hy, stream, hrecord⟩
    · obtain ⟨_, _, stream, _, hrecord⟩ := hnew a ha
      exact ⟨x, List.mem_append_right _ (List.mem_singleton_self x), stream, hrecord⟩
  · rw [hset, List.map_append]
    refine List.nodup_append.2 ⟨hh.distinct, ?_, ?_⟩
    · exact List.Nodup.of_map Prod.fst (by
        rw [List.map_map]
        exact nodup_of_moved hmoved hlabels)
    · intro a ha b hb hab
      obtain ⟨c, hc, rfl⟩ := List.mem_map.1 ha
      obtain ⟨d, hd, rfl⟩ := List.mem_map.1 hb
      obtain ⟨y, hy, stream, hrecord⟩ := hh.recorded c hc
      obtain ⟨_, _, other, _, hrecord'⟩ := hnew d hd
      have hsame : recordId y.1 stream = recordId x.1 other := by
        rw [← hrecord, ← hrecord']
        exact congrArg Prod.snd hab
      exact absurd (recordId_inj hsame) (hoffset y hy).ne
  · intro z hz hup
    rcases hstep.up z hz hup with haccepts | ⟨⟨y, hy, hkey, hresolved⟩, hcalm⟩
    · exact .begin h haccepts
    · rw [← hstatus] at hcalm
      exact (hkey ▸ hh.up y hy hresolved).keep hcalm
  · intro hopen
    rcases hstep.monitor hopen with hinitiation | ⟨hopen, htermination⟩
    · exact .begin h hinitiation
    · exact (hh.monitor hopen).keep htermination
  · intro before y after hsplit hpublishes
    rcases split_concat hsplit with ⟨rfl, rfl, _⟩ | ⟨rest, _, hrest⟩
    · rw [Publishes, hobservations] at hpublishes
      obtain ⟨hopen, peer, hpeer, z, hz, hkey, hresolved⟩ := hstep.published hpublishes
      exact ⟨peer, hpeer, hkey ▸ hh.up z hz hresolved, hh.monitor hopen⟩
    · exact hh.published before y rest hrest hpublishes

theorem Traced.start (relationship : Option PeerRelationship) :
    Traced sha256 j batch l [] (ReplayState.new relationship) where
  wellFormed := ⟨List.nodup_nil, List.nodup_nil, fun _ h => nomatch h⟩
  labelled _ h := nomatch h
  tracks _ h := nomatch h
  recorded _ h := nomatch h
  distinct := List.nodup_nil
  up _ h := nomatch h
  monitor _ _ _ _ h := absurd h (by simp)
  published _ _ _ h := absurd h (by simp)

theorem replayRecord_ok {peerLimit : ℕ} {record : BmpRecord} {out : ReplayRecord}
    (hs : WellFormed s.sessions)
    (h : replayRecord sha256 j batch l peerLimit record s = .ok (out, t)) :
    ∃ o, RecordStep sha256 j batch l record s t o ∧ out.observations = o.observations ∧
      out.event.status = o.status := by
  obtain ⟨⟨o, u⟩, ho, h⟩ := bind_eq_ok.1 h
  obtain ⟨affected, _, h⟩ := bind_eq_ok.1 h
  cases h
  exact ⟨o, replayOutcome_ok hs ho, rfl, rfl⟩

theorem Traced.run {peerLimit : ℕ} {records : List BmpRecord} {outs : List ReplayRecord}
    (hh : Traced sha256 j batch l h s)
    (hsorted : (h.map Prod.fst ++ records).Pairwise fun a b => a.offset < b.offset)
    (hrun : replayRecords sha256 j batch l peerLimit records s = .ok (outs, t)) :
    outs.length = records.length ∧ Traced sha256 j batch l (h ++ records.zip outs) t := by
  induction records generalizing h s outs with
  | nil =>
    cases hrun
    exact ⟨rfl, by simpa using hh⟩
  | cons record rest ih =>
    obtain ⟨⟨out, u⟩, hout, hrun⟩ := bind_eq_ok.1 hrun
    obtain ⟨⟨outs, v⟩, houts, hrun⟩ := bind_eq_ok.1 hrun
    cases hrun
    obtain ⟨o, hstep, hobservations, hstatus⟩ := replayRecord_ok hh.wellFormed hout
    have hoffset : ∀ y ∈ h, y.1.offset < record.offset := by
      intro y hy
      exact (List.pairwise_append.1 hsorted).2.2 _ (List.mem_map_of_mem hy) _ List.mem_cons_self
    have hnext := hh.step (x := (record, out)) hstep hobservations hstatus hoffset
    obtain ⟨hlength, htraced⟩ := ih hnext (by simpa using hsorted) houts
    exact ⟨congrArg Nat.succ hlength, by simpa using htraced⟩

end Histories

def sampleSizes : Sizes := ⟨256, 64, 64⟩

def sampleProjection : Projection where
  checks :=
    { net := ⟨fun _ => none, fun _ => "192.0.2.1", fun _ => none, fun _ => ""⟩
      capturedEvidence := fun _ _ => .error (bad "" "")
      capturedValues := fun _ _ => .ok ()
      messageClosure := fun _ _ _ _ _ => .ok ()
      occurrenceValues := fun _ _ _ => .ok ()
      semanticIdentity := fun _ _ _ _ _ _ => .ok () }
  checkOpen _ _ _ _ := .ok ()
  checkInventory _ _ _ _ := .ok ()
  checkEnvelope _ _ _ := .ok ()

def sampleFrame (kind : U8) (body : List U8) : List U8 :=
  [3, 0, 0, 0, BitVec.ofNat 8 (body.length + 6), kind] ++ body

def samplePeer : List U8 :=
  List.replicate 22 0 ++ [192, 0, 2, 1, 0, 0, 253, 233, 10, 0, 0, 1] ++ List.replicate 8 0

def sampleOpen (asn id : U8) : List U8 :=
  List.replicate 16 255 ++ [0, 29, 1, 4, 253, asn, 0, 90, 10, 0, 0, id, 0]

/-- A Peer Up, an Initiation without its system name, and an UPDATE that withdraws a route. -/
def sampleInput : List U8 :=
  sampleFrame 3 (samplePeer ++ List.replicate 12 0 ++ [192, 0, 2, 254, 0, 179, 0, 179] ++
    sampleOpen 232 254 ++ sampleOpen 233 1) ++
  sampleFrame 4 [] ++
  sampleFrame 0 (samplePeer ++ List.replicate 16 255 ++ [0, 25, 2, 0, 2, 8, 10, 0, 0])

def sampleParse : Result BmpBatch :=
  BmpBatch.parse Sha256.digest .default sampleSizes sampleInput ⟨"a", "b"⟩

def sampleReplay (batch : BmpBatch) : Result (List ReplayRecord × ReplayState) :=
  replayRecords Sha256.digest sampleProjection batch Limits.default 16 (batch.records.take 3)
    (ReplayState.new none)

def MalformedFor (record : BmpRecord) (p : BmpPeerIdentity) : Prop :=
  (∃ errorOffset, record.body = .opaqueBytes .malformedKnownRecord errorOffset) ∧
    (record.peer = none ∨ Concerns record p)

def Published.routes (o : Published) : List RouteRecord :=
  match o.content with
  | .boundary _ => []
  | .update routes .. => routes

def sampleShape (batch : BmpBatch) (outs : List ReplayRecord) : Bool :=
  match (batch.records.take 3).zip outs with
  | [_, y, x] => y.1.body = .opaqueBytes .malformedKnownRecord (some 132) && y.1.peer = none &&
    x.1.peer.isSome && x.2.observations.any fun o => o.routes ≠ []
  | _ => false

end PcapEvidence.Bgp.Bmp
