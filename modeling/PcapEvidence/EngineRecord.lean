import PcapEvidence.EngineStep

/-!
# One record and the ledger

The reassembler's outcome decides who holds the new packet: its set, with every packet the set has,
or the flow of the completed datagram, or nobody. With that, decoding and observing a packet advance
the ledger by one observation, and no check of the engine fails.
-/

namespace PcapEvidence.Engine

open Custody Fragment OrderedMap FragmentReassembler EvidencePipeline

variable {δ μ τ κ : Type} {s u : State δ} {obs : PacketObservation} {network : Datagram}
  {info : FragmentInfo} {admitted : List PacketId} {newSize frame : ℕ} {data : List U8}

theorem mem_admitted_iff (hadm : Admitted u.fragments network info admitted newSize)
    (hpackets : network.payload.packets = [obs.id]) (id : PacketId) :
    id ∈ admitted ↔ Held u id (.set (keyOf network info)) ∨ id = obs.id := by
  rw [hadm.mem_admitted 0, hpackets, List.mem_singleton]
  apply or_congr_left
  simp only [Held, FragmentReassembler.current]
  cases u.fragments.sets.get? (keyOf network info) with
  | none => simp [openAssembly]
  | some a => simp

theorem held_insert (hadm : Admitted u.fragments network info admitted newSize)
    (hpackets : network.payload.packets = [obs.id]) {t : State δ} {a : Assembly}
    (hsets : t.fragments.sets = u.fragments.sets.insert (keyOf network info) a)
    (ha : a.packets = admitted) (htracker : t.tracker = u.tracker) (id : PacketId)
    (holder : Holder) :
    Held t id holder ↔ Held u id holder ∨ (holder = .set (keyOf network info) ∧ id = obs.id) := by
  cases holder with
  | flow index => simp [Held, htracker]
  | set key =>
    simp only [Holder.set.injEq]
    by_cases hkey : key = keyOf network info
    · subst hkey
      rw [and_iff_right rfl, ← mem_admitted_iff hadm hpackets id]
      simp [Held, hsets, ha]
    · simp [Held, hsets, OrdMap.get?_insert, hkey]

theorem held_erase {t : State δ} {key : Key} (hsets : t.fragments.sets = u.fragments.sets.erase key)
    (htracker : t.tracker = u.tracker) (id : PacketId) (holder : Holder) :
    Held t id holder ↔ Held u id holder ∧ ¬ holder = .set key := by
  cases holder with
  | flow index => simp [Held, htracker]
  | set key' =>
    simp only [Held, hsets, OrdMap.get?_erase, Holder.set.injEq]
    by_cases hkey : key' = key
    · simp [hkey]
    · simp [hkey]

theorem holder_of_admitted (hexclusive : Exclusive (Held u))
    (hfree : ∀ holder, ¬ Held u obs.id holder)
    (hadm : Admitted u.fragments network info admitted newSize)
    (hpackets : network.payload.packets = [obs.id]) :
    ∀ id ∈ admitted, ∀ holder, Held u id holder → holder = .set (keyOf network info) := by
  intro id hid holder hheld
  rcases (mem_admitted_iff hadm hpackets id).1 hid with hset | rfl
  · exact hexclusive id _ _ hheld hset
  · exact absurd hheld (hfree holder)

theorem packets_joined {limits : Limits} {a : Assembly} {joined : EvidenceBytes}
    (hsane : Sane limits a) (hvalid : joined.Valid)
    (hview : ∀ x ∈ joined.view, ∃ p ∈ a.parts, x ∈ p.bytes.view) :
    ∀ id ∈ joined.packets, id ∈ a.packets := by
  intro id hid
  obtain ⟨x, hx, rfl⟩ := (EvidenceBytes.mem_packets_iff_view hvalid id).1 hid
  obtain ⟨p, hp, hmem⟩ := hview x hx
  refine hsane.packets p hp _ ?_
  exact (EvidenceBytes.mem_packets_iff_view (hsane.parts_valid p hp).1 _).2 ⟨x, hmem, rfl⟩

theorem Observed.note (h : Observed s obs u [obs.id]) (code : String) {items : List PacketId}
    {fragments : FragmentReassembler} {target : Option Holder} (hmem : obs.id ∈ items)
    (hknown : ∀ id ∈ items, ∃ p ∈ s.packets ++ [obs], p.id = id)
    (htarget : target = none ∨ ∃ key, target = some (.set key))
    (hmoved : Moved (Held s) (Held { u with fragments := fragments }) items target)
    (hfragments : FragmentReassembler.Invariant fragments) :
    Advanced s (noteFragment { u with fragments := fragments } ⟨code, items⟩) := by
  have hu : Numbered u.packets := h.packets.numbered h.numbered
  obtain ⟨t, ht, hfrag, htrack, hrelabel⟩ := noteFragment_ok ⟨code, items⟩
    (s := { u with fragments := fragments }) hu
    (fun id hid => h.packets.mem_id (hknown id hid))
  rw [ht]
  rw [← held_congr hfrag htrack] at hmoved
  refine h.advance hmem hknown hrelabel hmoved ?_ (by rw [hfrag]; exact hfragments)
    (by rw [htrack]; exact h.tracker)
  rintro d ⟨reason, rfl⟩
  rcases htarget with rfl | ⟨key, rfl⟩
  · exact ⟨by simp, by simp, by simp⟩
  · exact ⟨by simp, by simp⟩

theorem Observed.reassemble (h : Observed s obs u [obs.id]) (hheld : Held u = Held s)
    (hpayload : RangePayload data obs.id network) (hlen : data.length < wordBound)
    (A : Analyzers δ μ τ κ) (config : Config) (metadata : PacketMeta) :
    Advanced s (reassemble A config u obs.id metadata network) := by
  obtain ⟨hstep, hinv, -⟩ := h.fragments.push network metadata.frame
  have hvalid : network.payload.Valid := hpayload.valid hlen
  have hfree (holder : Holder) : ¬ Held u obs.id holder := by
    rw [hheld]
    exact h.free holder
  have hexclusive : Exclusive (Held u) := by
    rw [hheld]
    exact h.ledger.exclusive
  have hone : ∀ id ∈ [obs.id], ∃ p ∈ s.packets ++ [obs], p.id = id := h.known
  have hfragmented {info : FragmentInfo} (hinfo : network.fragment = some info) :
      network.payload.packets = [obs.id] := by
    rcases hpayload.packets_or with hp | ⟨-, hnone⟩
    · exact hp
    · cases hinfo.symm.trans hnone
  -- every admitted packet has been observed
  have hadmitted {info : FragmentInfo} {admitted : List PacketId} {newSize : ℕ}
      (hadm : Admitted u.fragments network info admitted newSize) :
      ∀ id ∈ admitted, ∃ p ∈ s.packets ++ [obs], p.id = id := by
    intro id hid
    rcases (mem_admitted_iff hadm (hfragmented hadm.fragment) id).1 hid with hset | rfl
    · rw [hheld] at hset
      obtain ⟨p, hp, hpid⟩ := h.ledger.known id _ hset
      exact ⟨p, List.mem_append_left _ hp, hpid⟩
    · exact hone _ (by simp)
  unfold Engine.reassemble
  match hpush : u.fragments.push network metadata.frame with
  | (result, fragments) =>
  rw [hpush] at hstep hinv
  cases hstep with
  | failed e hcode => exact yields_error (hcode hvalid)
  | whole hnone =>
    have hids : contributors network.payload.packets obs.id = [obs.id] := by
      rcases hpayload.packets_or with hp | ⟨hp, -⟩
      · simp [contributors, hp]
      · simp [contributors, hp]
    dsimp only
    rw [hids]
    refine h.deliver A config _ (fun id hid => ?_)
    rcases hpayload.packets_or with hp | ⟨hp, -⟩
    · rwa [hp] at hid
    · rw [hp] at hid
      cases hid
  | range info hinfo =>
    dsimp only
    rw [hfragmented hinfo]
    exact h.note _ (by simp) hone (Or.inl rfl) h.moved hinv
  | @quarantined info admitted newSize code a next hadm hpoisoned hpackets hsets =>
    have hp := hfragmented hadm.fragment
    have htake := held_insert hadm hp (t := { u with fragments := fragments }) hsets hpackets rfl
    refine h.note code ((mem_admitted_iff hadm hp _).2 (Or.inr rfl)) (hadmitted hadm)
      (Or.inr ⟨keyOf network info, rfl⟩) ?_ hinv
    rw [← hheld]
    refine moved_of_take (holder_of_admitted hexclusive hfree hadm hp) (fun id holder => ?_)
    rw [htake id holder, mem_admitted_iff hadm hp id]
    constructor
    · rintro (hk | ⟨hk, hid⟩)
      · exact Or.inl hk
      · exact Or.inr ⟨hk, Or.inr hid⟩
    · rintro (hk | ⟨rfl, hk | hid⟩)
      · exact Or.inl hk
      · exact Or.inl hk
      · exact Or.inr ⟨rfl, hid⟩
  | @pending info admitted newSize next hadm hclean hsane hopen hsets =>
    have hp := hfragmented hadm.fragment
    have htake := held_insert hadm hp (t := { u with fragments := fragments }) hsets rfl rfl
    have hmoved : Moved (Held s) (Held { u with fragments := fragments }) [obs.id]
        (some (.set (keyOf network info))) := by
      rw [← hheld]
      refine moved_of_take (fun id hid holder hk => ?_) (fun id holder => ?_)
      · rw [List.mem_singleton.1 hid] at hk
        exact absurd hk (hfree holder)
      · rw [List.mem_singleton]
        exact htake id holder
    refine h.advance (P := fun d => d = .fragmentPending) (by simp) hone
      (h.markLast_relabeled (fun p => ⟨rfl, rfl, rfl⟩)) hmoved ?_ hinv h.tracker
    rintro d rfl
    exact ⟨by simp, by simp⟩
  | @completed info admitted newSize total joined next hadm hclean hsane hstop hjoined hlength hview
      hoccurs hsets =>
      have hp := hfragmented hadm.fragment
      have hmem : obs.id ∈ admitted := (mem_admitted_iff hadm hp _).2 (Or.inr rfl)
      have hids : contributors admitted obs.id = admitted := by
        rw [contributors, if_neg (List.ne_nil_of_mem hmem)]
      have hobserved : Observed s obs { u with fragments := fragments } admitted := by
        refine ⟨h.ledger, h.metaFrame, h.idFrame, h.packets, hmem, hadmitted hadm, ?_, hinv,
          h.tracker⟩
        rw [← hheld]
        refine moved_of_release (fun holder => holder = .set (keyOf network info))
          (holder_of_admitted hexclusive hfree hadm hp) ?_ (held_erase hsets rfl)
        rintro id holder hk rfl
        exact (mem_admitted_iff hadm hp id).2 (Or.inl hk)
      dsimp only
      rw [hids]
      exact hobserved.deliver A config _ (packets_joined hsane hjoined hview)

theorem Observed.decodeNetwork (h : Observed s obs u [obs.id]) (hheld : Held u = Held s)
    (hlen : data.length < wordBound) (A : Analyzers δ μ τ κ) (config : Config)
    (metadata : PacketMeta) : Advanced s (decodeNetwork A config u obs.id metadata data) := by
  unfold Engine.decodeNetwork
  cases hdecode : decodePacket metadata.linkType data obs.id
      ⟨metadata.sectionId, metadata.interface, none, []⟩ with
  | error e => exact h.markLast_rejected _ _
  | ok network =>
    have hpayload : RangePayload data obs.id network := decodePacket_payload hdecode
    dsimp only
    by_cases hchecksum : network.ipChecksum = .invalid
    · have hwarn := h.warn (fun p => p.warnings ++ ["invalid_ipv4_checksum_observed"])
      rw [if_pos hchecksum]
      split_ifs
      · exact hwarn.markLast_rejected _ _
      · exact hwarn.reassemble ((held_congr rfl rfl).trans hheld) hpayload hlen A config metadata
    · rw [if_neg hchecksum, if_neg (fun hand => hchecksum hand.2)]
      exact h.reassemble hheld hpayload hlen A config metadata

theorem Ledger.analyzePacket (h : Ledger s) (A : Analyzers δ μ τ κ) (config : Config)
    (identity : Vector U8 32) (record : Record) {metadata : PacketMeta}
    (hframe : metadata.frame = s.packets.length + 1) (hlen : data.length < wordBound) :
    Advanced s (analyzePacket A config identity s record metadata data) := by
  obtain ⟨t, ht, hledger, hcount⟩ := h.expireFragments metadata.frame
  have hnext : metadata.frame = t.packets.length + 1 := by rw [hframe, hcount]
  let obs : PacketObservation := {
    id := packetId identity record metadata
    metadata := metadata
    packetSha256 := A.digest data
    source := none
    destination := none
    transport := none
    disposition := .pending
    warnings := observationWarnings record metadata }
  have hobserve : observe A identity t record metadata data =
      .ok { t with packets := t.packets ++ [obs] } := if_neg (not_not.2 hnext)
  have hobserved : Observed t obs { t with packets := t.packets ++ [obs] } [obs.id] := by
    refine ⟨hledger, hnext, hnext, .refl _ _, by simp, by simp, ?_, hledger.fragments,
      hledger.tracker⟩
    rw [held_congr rfl rfl]
    refine moved_of_free (fun id hid holder hheld => ?_)
    rw [List.mem_singleton.1 hid] at hheld
    exact hledger.unobserved hnext holder hheld
  have hadvanced := hobserved.decodeNetwork (held_congr rfl rfl) hlen A config metadata
  unfold Engine.analyzePacket
  rw [ht]
  change Advanced s (observe A identity t record metadata data >>= _)
  rw [hobserve]
  refine ⟨hadvanced.1, fun v hv => ?_⟩
  rw [← hcount]
  exact hadvanced.2 v hv

def added (record : Record) : ℕ := if record.packet.isSome then 1 else 0

theorem Ledger.of_same {t : State δ} (h : Ledger s) (hfragments : t.fragments = s.fragments)
    (htracker : t.tracker = s.tracker) (hpackets : t.packets = s.packets) : Ledger t := by
  have hheld : Held t = Held s := held_congr hfragments htracker
  constructor
  · rw [hpackets]
    exact h.numbered
  · rw [hfragments]
    exact h.fragments
  · rw [htracker]
    exact h.tracker
  · rw [hheld, hpackets]
    exact h.known
  · rw [hheld]
    exact h.exclusive
  · rw [hheld, hpackets]
    exact h.fits

theorem Ledger.analyzeRecord (h : Ledger s) (A : Analyzers δ μ τ κ) (config : Config)
    (identity : Vector U8 32) (record : Record)
    (hpacket : ∀ metadata data, record.packet = some (metadata, data) →
      metadata.frame = s.packets.length + 1 ∧ data.length < wordBound) :
    Yields (analyzeRecord A config identity s record)
      (fun t => Ledger t ∧ t.packets.length = s.packets.length + added record) := by
  unfold Engine.analyzeRecord
  match hrecord : record.packet with
  | some (metadata, data) =>
    obtain ⟨hframe, hlen⟩ := hpacket metadata data hrecord
    have hcounted : Ledger { s with records := s.records + 1 } := h.of_same rfl rfl rfl
    simp only [added, hrecord, Option.isSome_some, if_true]
    exact hcounted.analyzePacket A config identity record hframe hlen
  | none =>
    refine yields_ok ⟨h.of_same rfl rfl rfl, ?_⟩
    simp [added, hrecord]

end PcapEvidence.Engine
