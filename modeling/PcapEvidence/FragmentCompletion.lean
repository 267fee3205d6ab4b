import PcapEvidence.FragmentOrder

/-!
# Completion in every order

Assembles the two results about completed datagrams: a tiling completes with its last fragment
whatever the order, and any completed datagram contains every fragment accepted on the way.
-/

namespace PcapEvidence.FragmentReassembler

open Fragment EvidenceBytes OrderedMap SortedVec

/-- The datagram joined from the fragments `frags`. -/
structure JoinedFrom (frags : List Datagram) (out : Datagram) (packets : List PacketId) : Prop where
  payload : out.payload.data =
    ((frags.map partOf).insertionSort (fun p q => p.start ≤ q.start)).flatMap (·.bytes.data)
  header : ∃ first ∈ frags, (partOf first).start = 0 ∧ out.protocol = first.protocol ∧
    out.networkHeaderLen = first.networkHeaderLen
  fragment : out.fragment = none
  packets : packets = sortDedup (frags.flatMap (·.payload.packets))

section Step

variable {r₀ r : FragmentReassembler} {key : Key} {total : ℕ} {done rest : List Datagram}
  {d : Datagram}

namespace Tiling
variable (h : Tiling key total done)
include h

theorem total_pos : 0 < total := by
  have hlast : total ∈ (done.filter (fun d => !(partOf d).more)).map (fun d => (partOf d).stop) := by
    rw [h.terminal]
    simp
  obtain ⟨e, he, hes⟩ := List.mem_map.1 hlast
  have := h.partOf_lt (List.mem_filter.1 he).1
  omega

theorem first : ∃ d ∈ done, (partOf d).start = 0 := by
  obtain ⟨d, hd, hstart, -⟩ := h.cover 0 h.total_pos
  exact ⟨d, hd, by omega⟩

theorem total_le : total ≤ 65535 := by
  obtain ⟨d, hd, hstart⟩ := h.first
  have := h.length d hd hstart
  omega

theorem pairwise_sorted {parts : List Part}
    (hperm : parts.Perm (done.map partOf)) (hsorted : parts.Pairwise (fun p q => p.start ≤ q.start)) :
    parts.Pairwise (fun p q => p.stop ≤ q.start) := by
  have hdisjoint : parts.Pairwise (fun p q => p.stop ≤ q.start ∨ q.stop ≤ p.start) :=
    (hperm.pairwise_iff (fun h => h.symm)).2 (List.pairwise_map.2 h.disjoint)
  refine (hdisjoint.and hsorted).imp_of_mem ?_
  intro p q hp hq hpq
  obtain ⟨e, he, rfl⟩ := List.mem_map.1 (hperm.mem_iff.1 hq)
  have := h.partOf_lt he
  omega

theorem sorted_eq {parts : List Part}
    (hperm : parts.Perm (done.map partOf)) (hsorted : parts.Pairwise (fun p q => p.start ≤ q.start)) :
    parts = (done.map partOf).insertionSort (fun p q => p.start ≤ q.start) := by
  have : IsTrans Part (fun a b => a.start ≤ b.start) := ⟨fun _ _ _ => le_trans⟩
  have : Std.Total (fun a b : Part => a.start ≤ b.start) := ⟨fun _ _ => le_total _ _⟩
  have hperm' := (List.perm_insertionSort (fun p q : Part => p.start ≤ q.start) (done.map partOf))
  have hone := h.pairwise_sorted hperm hsorted
  have htwo := h.pairwise_sorted hperm' (List.pairwise_insertionSort _ _)
  refine (hperm.trans hperm'.symm).eq_of_pairwise ?_ hone htwo
  intro p q hp hq hpq hqp
  obtain ⟨e, he, rfl⟩ := List.mem_map.1 (hperm.mem_iff.1 hp)
  obtain ⟨e', he', rfl⟩ := List.mem_map.1 (hperm'.mem_iff.1 hq)
  have := h.partOf_lt he
  have := h.partOf_lt he'
  omega

omit h

end Tiling

theorem Stage.open_cover {a : Assembly} {limits : Limits} (h : Stage total done a)
    (hs : Sane limits a) (ht : Tiling key total (done ++ d :: rest)) (t : ℕ)
    (hstop : a.stop = some t) : coverCursor 0 a.parts ≠ t := by
  intro hcover
  obtain ⟨hchain, hreach⟩ := chained_of_coverCursor
    (fun p hp => ⟨(hs.parts_valid p hp).2.1, hs.inside h.clean t hstop p hp⟩) hcover
  have htotal : t = total := by
    rw [h.stop] at hstop
    split_ifs at hstop
    exact (Option.some.inj hstop).symm
  have hd : d ∈ done ++ d :: rest := by simp
  have hlt := ht.partOf_lt hd
  have hle := ht.inside d hd
  -- the first byte of the missing fragment would be covered by a pushed one
  obtain ⟨p, hp, hpx⟩ := cover_of_chained hchain (hreach.trans htotal) (partOf d).start
    (Nat.zero_le _) (by omega)
  obtain ⟨e, he, rfl⟩ := List.mem_map.1 (h.parts.mem_iff.1 hp)
  have := ht.apart (e := e) (by simp [he])
  have := ht.partOf_lt (d := e) (by simp [he])
  omega

theorem Stage.closed_cover {a : Assembly} {limits : Limits} (h : Stage total done a)
    (hs : Sane limits a) (ht : Tiling key total done) :
    a.stop = some total ∧ coverCursor 0 a.parts = total := by
  constructor
  · rw [h.stop, if_pos]
    have hlast : total ∈ (done.filter (fun d => !(partOf d).more)).map
        (fun d => (partOf d).stop) := by
      rw [ht.terminal]
      simp
    obtain ⟨e, he, -⟩ := List.mem_map.1 hlast
    obtain ⟨he, hmore⟩ := List.mem_filter.1 he
    exact List.any_eq_true.2 ⟨e, he, hmore⟩
  · have hof (p : Part) (hp : p ∈ a.parts) : ∃ e ∈ done, partOf e = p :=
      List.mem_map.1 (h.parts.mem_iff.1 hp)
    apply coverCursor_of_cover (Nat.zero_le _) hs.sorted
    · intro p hp
      obtain ⟨e, he, rfl⟩ := hof p hp
      exact ⟨ht.partOf_lt he, ht.inside e he⟩
    · intro x _ hx
      obtain ⟨e, he, hex⟩ := ht.cover x hx
      exact ⟨partOf e, h.parts.mem_iff.2 (List.mem_map_of_mem he), hex⟩

theorem Progress.push_pending {e : Datagram} (h : Progress r₀ r key total done)
    (hb : Budget r₀ (done ++ d :: e :: rest)) (ht : Tiling key total (done ++ d :: e :: rest))
    (frame : ℕ) :
    ∃ next, r.push d frame = (.ok .pending, next) ∧ Progress r₀ next key total (done ++ [d]) := by
  obtain ⟨info, hf, hkey⟩ := ht.ofKey d (by simp)
  have ha := h.admitted hb ht ht.total_le hf hkey
  have hstage := h.stage d info frame hkey
  have hrej := ht.rejection_eq_none hstage
  have hnext := hstage.accepted ht hf
  subst hkey
  rw [← Tiling.newPart_eq hf] at hrej
  have hsane := Sane.accept ha h.inv.sane_current hstage.clean hrej
  have ht' : Tiling (keyOf d info) total ((done ++ [d]) ++ e :: rest) := by simpa using ht
  have hpush := ha.push_eq (by rw [h.limits]; exact hb.word) frame
  obtain ⟨-, hinv, hlimits⟩ := h.inv.push d frame
  rcases (r.opened d info frame).pushSet_cases d info (keyOf d info) (r.current d info frame) _ _
    with ⟨hp, -⟩ | ⟨-, code, hcode, -⟩ | ⟨-, -, -, hout⟩ | ⟨-, -, t, hstop, hcover, -⟩ |
    ⟨-, -, t, hstop, hcover, -⟩
  · simp [hstage.clean] at hp
  · simp [hrej] at hcode
  · rw [hpush, hout] at hinv hlimits
    refine ⟨_, hpush.trans hout, hinv, hlimits.trans h.limits, rfl, ?_, ?_⟩
    · intro hnone
      simp [store] at hnone
    · intro d' info' frame' hkey'
      unfold FragmentReassembler.current
      rw [hkey', store, OrdMap.get?_insert_self]
      exact hnext
  · exact absurd hcover (hnext.open_cover hsane ht' t hstop)
  · exact absurd hcover (hnext.open_cover hsane ht' t hstop)

theorem Progress.push_complete (h : Progress r₀ r key total done) (hb : Budget r₀ (done ++ [d]))
    (ht : Tiling key total (done ++ [d])) (frame : ℕ) :
    ∃ out packets next, r.push d frame = (.ok (.complete out packets), next) ∧
      JoinedFrom (done ++ [d]) out packets := by
  obtain ⟨info, hf, hkey⟩ := ht.ofKey d (by simp)
  have ha := h.admitted hb ht ht.total_le hf hkey
  have hstage := h.stage d info frame hkey
  have hrej := ht.rejection_eq_none hstage
  have hnext := hstage.accepted ht hf
  subst hkey
  rw [← Tiling.newPart_eq hf] at hrej
  have hsane := Sane.accept ha h.inv.sane_current hstage.clean hrej
  obtain ⟨hstop, hcover⟩ := hnext.closed_cover hsane ht
  obtain ⟨first, hfirst, hzero⟩ := ht.first
  have hhead := hnext.head first hfirst hzero
  have hpush := ha.push_eq (by rw [h.limits]; exact hb.word) frame
  rcases (r.opened d info frame).pushSet_cases d info (keyOf d info) (r.current d info frame) _ _
    with ⟨hp, -⟩ | ⟨-, code, hcode, -⟩ | ⟨-, -, hopen, -⟩ | ⟨-, -, t, htotal, -, hover, -⟩ |
    ⟨-, -, t, -, -, -, hout⟩
  · simp [hstage.clean] at hp
  · simp [hrej] at hcode
  · exact absurd hcover (hopen total hstop)
  · rw [hstop] at htotal
    cases htotal
    have := ht.length first hfirst hzero
    simp only [overhead, hhead.2] at hover this
    omega
  · obtain ⟨joined, next, hok, -, -, -, -, hlen, -, hoccurs⟩ :=
      (h.inv.storeAccepted ha hstage.clean rfl rfl hsane).complete (OrdMap.get?_insert_self _ _ _)
        hnext.clean hstop hcover
    refine ⟨_, _, next, hpush.trans (hout.trans hok), ?_, ⟨first, hfirst, hzero, hhead⟩, rfl, rfl⟩
    obtain ⟨hchain, hreach⟩ := chained_of_coverCursor (fun p hp =>
      ⟨(hsane.parts_valid p hp).2.1, hsane.inside hnext.clean total hstop p hp⟩) hcover
    rw [← ht.sorted_eq hnext.parts hsane.sorted]
    exact eq_flatMap_of_contains hchain (fun _ _ => Nat.zero_le _)
      (ht.pairwise_sorted hnext.parts hsane.sorted) (hlen.trans hreach.symm) hoccurs

theorem Progress.pushAll (order : List (Datagram × ℕ)) (hne : order ≠ [])
    (h : Progress r₀ r key total done) (hb : Budget r₀ (done ++ order.map Prod.fst))
    (ht : Tiling key total (done ++ order.map Prod.fst)) :
    ∃ out packets, (r.pushAll order).1 =
        List.replicate (order.length - 1) (.ok .pending) ++ [.ok (.complete out packets)] ∧
      JoinedFrom (done ++ order.map Prod.fst) out packets := by
  induction order generalizing r done with
  | nil => exact absurd rfl hne
  | cons p rest ih =>
    obtain ⟨d, frame⟩ := p
    cases rest with
    | nil =>
      obtain ⟨out, packets, next, hpush, hjoined⟩ := h.push_complete hb ht frame
      exact ⟨out, packets, by simp [FragmentReassembler.pushAll, hpush], hjoined⟩
    | cons q rest =>
      obtain ⟨next, hpush, hnext⟩ := h.push_pending hb ht frame
      have hsplit : done ++ ((d, frame) :: q :: rest).map Prod.fst =
          (done ++ [d]) ++ (q :: rest).map Prod.fst := by simp
      rw [hsplit] at hb ht ⊢
      obtain ⟨out, packets, hrun, hjoined⟩ := ih (by simp) hnext hb ht
      refine ⟨out, packets, ?_, hjoined⟩
      rw [FragmentReassembler.pushAll, hpush]
      dsimp only
      rw [hrun]
      rfl

end Step

/-- A tiling pushed in any order stays pending until its last fragment and then yields the
concatenation, and what completes contains every fragment accepted since its set was created. -/
theorem fragments_reassemble (limits : Limits) (ops : List Op) :
    (∀ (key : Key) (total : ℕ) (order : List (Datagram × ℕ)),
      (run limits ops).sets.get? key = none →
      Budget (run limits ops) (order.map Prod.fst) →
      Tiling key total (order.map Prod.fst) →
      ∃ out packets, ((run limits ops).pushAll order).1 =
          List.replicate (order.length - 1) (.ok .pending) ++ [.ok (.complete out packets)] ∧
        JoinedFrom (order.map Prod.fst) out packets) ∧
    ∀ (datagram out : Datagram) (info : FragmentInfo) (frame : ℕ) (packets : List PacketId),
      datagram.fragment = some info →
      ((run limits ops).push datagram frame).1 = .ok (.complete out packets) →
      Contains out.payload.data
        (history limits (keyOf datagram info) (ops ++ [.push datagram frame])) := by
  refine ⟨?_, fun _ _ _ _ _ hf h => complete_contains hf h⟩
  intro key total order hnone hb ht
  have hstart : Progress (run limits ops) (run limits ops) key total [] := by
    refine ⟨(invariant_run limits ops).1, rfl, by simp, fun _ => hb.sets, ?_⟩
    intro d info frame hkey
    subst hkey
    simpa [FragmentReassembler.current, hnone] using stage_openAssembly total d frame
  have hne : order ≠ [] := by
    rintro rfl
    obtain ⟨d, hd, -⟩ := ht.first
    cases hd
  exact hstart.pushAll order hne (by simpa using hb) (by simpa using ht)

def sampleFragment (offset : ℕ) (more : Bool) (data : List U8) (frame : ℕ) : Datagram where
  scope := ⟨1, 0, none, []⟩
  source := .v4 #v[10, 0, 0, 1]
  destination := .v4 #v[10, 0, 0, 2]
  protocol := 17
  ipv6 := false
  networkHeaderLen := 20
  fragment := some ⟨7, offset, more⟩
  payload := .fromPacket data ⟨Vector.replicate 32 0, frame, 100 * frame⟩ 34
  ipChecksum := .valid
  checksumContext := .baseAddresses

def sampleOrder : List (Datagram × ℕ) :=
  [(sampleFragment 8 false [9, 10, 11] 1, 1),
    (sampleFragment 0 true [1, 2, 3, 4, 5, 6, 7, 8] 2, 2)]

theorem sampleOrder_tiling : Tiling (keyOf (sampleFragment 0 true [] 0) ⟨7, 0, true⟩) 11
    (sampleOrder.map Prod.fst) := by
  constructor
  · simp [sampleOrder, sampleFragment, keyOf]
  · simp only [← validate_iff]
    decide
  all_goals decide

theorem sampleOrder_budget : Budget (run .default []) (sampleOrder.map Prod.fst) := by
  constructor <;> decide

/-- Two fragments in reverse order: pending, then the joined datagram. -/
theorem fragments_reassemble_reversed :
    (∃ out packets, ((run .default []).pushAll sampleOrder).1 =
        [.ok .pending, .ok (.complete out packets)] ∧
      JoinedFrom (sampleOrder.map Prod.fst) out packets) :=
  (fragments_reassemble .default []).1 _ 11 sampleOrder rfl sampleOrder_budget sampleOrder_tiling

end PcapEvidence.FragmentReassembler
