import PcapEvidence.DnpFileCoverage

/-!
# File objects in another order

Messages of one transfer, each with one object, are observed in two orders. The conflicting blocks
and the status codes do not depend on the order.
-/

namespace PcapEvidence.DnpFile

open FiniteMap OrderedMap

section Declarations

/-- Some declaration contradicts the one before it. -/
def clashes : List Descriptor → Bool
  | a :: b :: rest => State.contradicts a b || clashes (b :: rest)
  | _ => false

def Contradictory (declared : List Descriptor) : Prop :=
  ∃ a ∈ declared, ∃ b ∈ declared, a.fileSize ≠ b.fileSize ∨
    (0 < a.maximumBlockSize ∧ 0 < b.maximumBlockSize ∧ a.maximumBlockSize ≠ b.maximumBlockSize)

/-- Where declarations agree on the size and contradict in the block size, two neighbours do. -/
def Neighbouring (declared : List Descriptor) : Prop :=
  (∀ a ∈ declared, ∀ b ∈ declared, a.fileSize = b.fileSize) →
    (∃ a ∈ declared, ∃ b ∈ declared, 0 < a.maximumBlockSize ∧ 0 < b.maximumBlockSize ∧
      a.maximumBlockSize ≠ b.maximumBlockSize) →
    ∃ before a b after, declared = before ++ a :: b :: after ∧ 0 < a.maximumBlockSize ∧
      0 < b.maximumBlockSize ∧ a.maximumBlockSize ≠ b.maximumBlockSize

variable {declared : List Descriptor} {d : Descriptor}

theorem contradicts_iff {a b : Descriptor} : State.contradicts a b = true ↔ a.fileSize ≠ b.fileSize ∨
    (0 < a.maximumBlockSize ∧ 0 < b.maximumBlockSize ∧ a.maximumBlockSize ≠ b.maximumBlockSize) := by
  simp [State.contradicts, and_assoc]

theorem clashes_snoc (declared : List Descriptor) (d : Descriptor) :
    clashes (declared ++ [d]) = (clashes declared || declared.getLast?.any (State.contradicts · d)) := by
  induction declared with
  | nil => rfl
  | cons a rest ih =>
    cases rest with
    | nil => simp [clashes]
    | cons b rest =>
      rw [List.cons_append, List.cons_append, clashes, ← List.cons_append, ih, clashes,
        List.getLast?_cons_cons, Bool.or_assoc]

theorem clashes_iff : clashes declared = true ↔
    ∃ before a b after, declared = before ++ a :: b :: after ∧ State.contradicts a b = true := by
  induction declared with
  | nil =>
    constructor
    · intro h
      cases h
    · rintro ⟨before, a, b, after, h, _⟩
      cases before <;> cases h
  | cons x rest ih =>
    cases rest with
    | nil =>
      constructor
      · intro h
        cases h
      · rintro ⟨before, a, b, after, h, _⟩
        have hlength := congrArg List.length h
        simp at hlength
        omega
    | cons y rest =>
      rw [clashes, Bool.or_eq_true, ih]
      constructor
      · rintro (hxy | ⟨before, a, b, after, h, hab⟩)
        · exact ⟨[], x, y, rest, rfl, hxy⟩
        · exact ⟨x :: before, a, b, after, by rw [h]; rfl, hab⟩
      · rintro ⟨before, a, b, after, h, hab⟩
        cases before with
        | nil =>
          cases h
          exact .inl hab
        | cons z before =>
          obtain ⟨_, hrest⟩ := List.cons.inj h
          exact .inr ⟨before, a, b, after, hrest, hab⟩

theorem fileSize_of_not_clashes (h : clashes declared = false) :
    ∀ a ∈ declared, ∀ b ∈ declared, a.fileSize = b.fileSize := by
  cases declared with
  | nil =>
    intro a ha
    cases ha
  | cons first rest =>
    have hfirst : ∀ a ∈ first :: rest, a.fileSize = first.fileSize := by
      induction rest generalizing first with
      | nil =>
        intro a ha
        rw [List.mem_singleton.1 ha]
      | cons y rest ih =>
        rw [clashes, Bool.or_eq_false_iff] at h
        have hxy : first.fileSize = y.fileSize := by
          by_contra hne
          have := contradicts_iff.2 (.inl hne)
          rw [h.1] at this
          cases this
        intro a ha
        rcases List.mem_cons.1 ha with rfl | ha
        · rfl
        · exact (ih y h.2 a ha).trans hxy.symm
    intro a ha b hb
    exact (hfirst a ha).trans (hfirst b hb).symm

theorem contradictory_of_clashes (h : clashes declared = true) : Contradictory declared := by
  obtain ⟨before, a, b, after, rfl, hab⟩ := clashes_iff.1 h
  exact ⟨a, by simp, b, by simp, contradicts_iff.1 hab⟩

/-- Comparing neighbours finds every contradiction exactly when one stands between neighbours. -/
theorem clashes_iff_contradictory :
    (clashes declared = true ↔ Contradictory declared) ↔ Neighbouring declared := by
  constructor
  · intro h hsize hblock
    obtain ⟨a, ha, b, hb, hab⟩ := hblock
    obtain ⟨before, x, y, after, hsplit, hxy⟩ :=
      clashes_iff.1 (h.2 ⟨a, ha, b, hb, .inr hab⟩)
    have hx : x ∈ declared := hsplit ▸ by simp
    have hy : y ∈ declared := hsplit ▸ by simp
    refine ⟨before, x, y, after, hsplit, ?_⟩
    exact (contradicts_iff.1 hxy).resolve_left fun hne => hne (hsize x hx y hy)
  · intro hneighbour
    refine ⟨contradictory_of_clashes, fun hcontra => ?_⟩
    by_contra hno
    have hsize := fileSize_of_not_clashes (Bool.eq_false_iff.2 hno)
    obtain ⟨a, ha, b, hb, hab⟩ := hcontra
    have hblock := hab.resolve_left fun hne => hne (hsize a ha b hb)
    obtain ⟨before, x, y, after, hsplit, hxy⟩ := hneighbour hsize ⟨a, ha, b, hb, hblock⟩
    exact hno (clashes_iff.2 ⟨before, x, y, after, hsplit, contradicts_iff.2 (.inr hxy)⟩)

theorem contradictory_perm {declared' : List Descriptor} (h : declared.Perm declared') :
    Contradictory declared ↔ Contradictory declared' := by
  unfold Contradictory
  simp only [h.mem_iff]

end Declarations

section Order

variable {objects objects' : List FileObject} {s s' : State}

theorem eq_of_keys {a b : OrdSet ℕ} (h : ∀ n, n ∈ a.keys ↔ n ∈ b.keys) : a = b := by
  apply OrdMap.ext_get?
  intro n
  have hn := h n
  rw [OrdMap.mem_keys, OrdMap.mem_keys] at hn
  cases ha : a.get? n with
  | none =>
    cases hb : b.get? n with
    | none => rfl
    | some u =>
      obtain ⟨v, hv⟩ := hn.2 ⟨u, hb⟩
      rw [ha] at hv
      cases hv
  | some u =>
    obtain ⟨v, hv⟩ := hn.1 ⟨u, ha⟩
    rw [hv]

theorem head?_perm {α : Type} {l l' : List α} (h : l.Perm l') (hone : ∀ a ∈ l, ∀ b ∈ l, a = b) :
    l.head? = l'.head? := by
  cases l with
  | nil => rw [List.Perm.nil_eq h]
  | cons a l =>
    cases l' with
    | nil => exact absurd h.length_eq (Nat.succ_ne_zero _)
    | cons b l' =>
      have hb : b ∈ a :: l := h.mem_iff.2 List.mem_cons_self
      rw [List.head?_cons, List.head?_cons, hone a List.mem_cons_self b hb]

theorem Describes.conflicting_perm (hd : Describes objects s) (hd' : Describes objects' s')
    (h : objects.Perm objects') : s.conflictingBlocks = s'.conflictingBlocks := by
  apply eq_of_keys
  intro n
  have hcontents : (contents objects n).Perm (contents objects' n) := h.filterMap _
  rw [hd.conflicting, hd'.conflicting]
  simp only [hcontents.mem_iff]

theorem Describes.codes_perm (hd : Describes objects s) (hd' : Describes objects' s')
    (h : objects.Perm objects') : s.statusCodes = s'.statusCodes := by
  apply eq_of_keys
  intro c
  have hcodes : (codes objects).Perm (codes objects') := h.filterMap _
  rw [hd.statusCodes, hd'.statusCodes]
  exact hcodes.mem_iff

theorem Describes.blocks_perm (hd : Describes objects s) (hd' : Describes objects' s')
    (h : objects.Perm objects') (hno : s.conflictingBlocks.keys = []) : s.blocks = s'.blocks := by
  apply OrdMap.ext_get?
  intro n
  have hcontents : (contents objects n).Perm (contents objects' n) := h.filterMap _
  rw [hd.blocks, hd'.blocks]
  apply head?_perm hcontents
  intro a ha b hb
  by_contra hne
  have hmem := (hd.conflicting n).2 ⟨a, ha, b, hb, hne⟩
  rw [hno] at hmem
  cases hmem

end Order

namespace FileReconciler

def single (m : Observation × Bgp.Limits) : Option FileObject :=
  match parse m.1.objects m.2 with
  | .ok (.objects [x]) => some x
  | _ => none

/-- A message with one status, block or block status object of a transfer. -/
structure Carries (k : Key) (m : Observation × Bgp.Limits) : Prop where
  scope : m.1.scope = k.scope
  object : ∃ x, parse m.1.objects m.2 = .ok (.objects [x]) ∧ x.handle? = some k.handle

def observeAll (messages : List (Observation × Bgp.Limits)) :
    Method FileReconciler Error (Option Output) :=
  messages.foldlM (fun _ m => observe m.1 m.2) none

/-- What is known of a transfer whose messages have carried these objects. -/
structure Transfer (k : Key) (objects : List FileObject) (r : FileReconciler) : Prop where
  pending : r.pending = .empty
  absent : r.states.get k = none → objects = []
  present : ∀ s, r.states.get k = some s →
    Describes objects s ∧ s.metadataConflict = clashes (declarations objects)

section Step

variable {k : Key} {objects : List FileObject} {s : State} {r t : FileReconciler}

theorem metadataConflict_take (hd : Describes objects s)
    (hclash : s.metadataConflict = clashes (declarations objects)) (direction : U8) {x : FileObject}
    {handle : U32} (hx : x.handle? = some handle) :
    (s.take direction none x).metadataConflict = clashes (declarations (objects ++ [x])) := by
  cases x with
  | status variation handle requestId declared status =>
    rw [declarations_snoc, FileObject.declared?, Option.toList_some, clashes_snoc, ← hclash,
      ← hd.declared]
    exact Bool.or_false _
  | block variation handle number content =>
    rw [declarations_other rfl, ← hclash]
    simp only [State.take, State.addBlock]
    split
    · split <;> rfl
    · rfl
  | blockStatus variation handle number status =>
    rw [declarations_other rfl, ← hclash]
    rfl
  | descriptor | specification | authentication => cases hx

theorem Transfer.taken {o : Observation} {x : FileObject} (h : Transfer k objects r)
    (hscope : o.scope = k.scope) (ht : Taken o x k.handle r t) : Transfer k (objects ++ [x]) t := by
  have hkey : (⟨o.scope, k.handle⟩ : Key) = k := by rw [hscope]
  obtain ⟨pending, hstates, hnone⟩ := ht.states
  obtain rfl := hnone h.pending
  rw [hkey] at hstates
  refine ⟨ht.pending h.pending, fun hs => ?_, fun s hs => ?_⟩
  · rw [hstates, FinMap.get_insert_self] at hs
    cases hs
  · rw [hstates, FinMap.get_insert_self] at hs
    obtain rfl := Option.some.inj hs
    cases hold : r.states.get k with
    | none =>
      rw [h.absent hold]
      have hdesc := describes_new k o.function
      exact ⟨hdesc.take ht.handle_eq, metadataConflict_take hdesc rfl _ ht.handle_eq⟩
    | some s =>
      obtain ⟨hdesc, hclash⟩ := h.present s hold
      exact ⟨hdesc.take ht.handle_eq, metadataConflict_take hdesc hclash _ ht.handle_eq⟩

theorem applyObjects_single {o : Observation} {limits : Bgp.Limits} {x : FileObject}
    {touched : Option (OrdSet ℕ)} (hx : x.handle? = some k.handle)
    (h : applyObjects o limits [x] .empty r = (.ok touched, t)) :
    Taken o x k.handle r t ∧ touched = some (OrdMap.empty.insert k.handle.toNat ()) := by
  have hauth : x ≠ .authentication := by
    rintro rfl
    cases hx
  rw [applyObjects] at h
  · obtain ⟨handle, u, happly, h⟩ := Method.bind_ok h
    cases handle with
    | none =>
      have hnone := (applyObject_none happly).1
      rw [hx] at hnone
      cases hnone
    | some handle =>
      have htaken := applyObject_some happly
      have hhandle : handle = k.handle := Option.some.inj (htaken.handle_eq.symm.trans hx)
      cases h
      rw [← hhandle]
      exact ⟨htaken, rfl⟩
  · exact hauth

theorem Transfer.observe {m : Observation × Bgp.Limits} {x : FileObject} {out : Option Output}
    (h : Transfer k objects r) (hscope : m.1.scope = k.scope)
    (hparse : parse m.1.objects m.2 = .ok (.objects [x])) (hx : x.handle? = some k.handle)
    (hok : observe m.1 m.2 r = (.ok out, t)) :
    Transfer k (objects ++ [x]) t ∧ ∃ s p, t.states.get k = some s ∧
      projection s m.2 = .ok p ∧ out = some (.projection p) := by
  have hkey : (⟨m.1.scope, BitVec.ofNat 32 k.handle.toNat⟩ : Key) = k := by
    rw [hscope, BitVec.ofNat_toNat, BitVec.setWidth_eq]
  unfold FileReconciler.observe at hok
  rw [hparse, Method.lift_bind rfl] at hok
  dsimp only at hok
  obtain ⟨touched, u, happly, hok⟩ := Method.bind_ok hok
  obtain ⟨htaken, rfl⟩ := applyObjects_single hx happly
  have hstep := h.taken hscope htaken
  have hkeys : (OrdMap.empty.insert k.handle.toNat () : OrdSet ℕ).keys = [k.handle.toNat] := rfl
  dsimp only at hok
  rw [hkeys] at hok
  obtain ⟨_, v, hwitness, hreport⟩ := Method.bind_ok hok
  unfold addWitnesses at hwitness
  rw [Method.read_bind, hkey] at hwitness
  obtain ⟨s, hs⟩ : ∃ s, u.states.get k = some s := by
    apply Option.ne_none_iff_exists'.1
    intro hnone
    exact List.append_ne_nil_of_right_ne_nil _ (List.cons_ne_nil _ _) (hstep.absent hnone)
  rw [hs] at hwitness
  dsimp only at hwitness
  obtain ⟨_, hwitness⟩ := Method.guard_ok hwitness
  rw [Method.update_bind] at hwitness
  cases hwitness
  obtain ⟨hdesc, hclash⟩ := hstep.present s hs
  have ht := (congrArg Prod.snd hreport).symm.trans (report_state _)
  obtain rfl := ht
  unfold report at hreport
  dsimp only at hreport
  rw [Method.read_bind, hkey] at hreport
  dsimp only at hreport
  rw [FinMap.get_insert_self] at hreport
  obtain ⟨p, hp, hreport⟩ := Method.lift_bind_ok hreport
  cases hreport
  refine ⟨⟨hstep.pending, fun hnone => ?_, fun s' hs' => ?_⟩, _, p, FinMap.get_insert_self _ _ _, hp,
    rfl⟩
  · dsimp only at hnone
    rw [FinMap.get_insert_self] at hnone
    cases hnone
  · dsimp only at hs'
    rw [FinMap.get_insert_self] at hs'
    obtain rfl := Option.some.inj hs'
    exact ⟨Describes.congr hdesc rfl rfl rfl rfl, hclash⟩

theorem Transfer.run {messages : List (Observation × Bgp.Limits)} {init out : Option Output}
    (h : Transfer k objects r) (hall : ∀ m ∈ messages, Carries k m)
    (hok : messages.foldlM (fun _ m => FileReconciler.observe m.1 m.2) init r = (.ok out, t)) :
    Transfer k (objects ++ messages.filterMap single) t ∧ (messages = [] ∧ out = init ∨
      ∃ s p limits, t.states.get k = some s ∧ projection s limits = .ok p ∧
        out = some (.projection p)) := by
  induction messages generalizing objects r init with
  | nil =>
    cases hok
    rw [List.filterMap_nil, List.append_nil]
    exact ⟨h, .inl ⟨rfl, rfl⟩⟩
  | cons m rest ih =>
    obtain ⟨hscope, x, hparse, hx⟩ := hall m List.mem_cons_self
    rw [List.foldlM_cons] at hok
    obtain ⟨next, u, hobserve, hok⟩ := Method.bind_ok hok
    obtain ⟨hstep, s, p, hs, hp, rfl⟩ := h.observe hscope hparse hx hobserve
    have hsingle : single m = some x := by
      unfold single
      rw [hparse]
    obtain ⟨hrun, hout⟩ := ih hstep (fun m hm => hall m (List.mem_cons_of_mem _ hm)) hok
    rw [List.filterMap_cons_some hsingle]
    rw [List.append_assoc, List.singleton_append] at hrun
    refine ⟨hrun, .inr ?_⟩
    rcases hout with ⟨rfl, rfl⟩ | hout
    · cases hok
      exact ⟨s, p, m.2, hs, hp, rfl⟩
    · exact hout

theorem transfer_new : Transfer k [] new :=
  ⟨rfl, fun _ => rfl, fun s hs => by cases hs⟩

end Step

def declaredBy (messages : List (Observation × Bgp.Limits)) : List Descriptor :=
  declarations (messages.filterMap single)

structure OrderFree (messages : List (Observation × Bgp.Limits)) (p p' : Projection) : Prop where
  conflicting : p.conflictingBlocks = p'.conflictingBlocks
  metadata : p.metadataConflict = p'.metadataConflict
  observed : p.conflictingBlocks = [] → p.observedBlocks = p'.observedBlocks ∧
    p.contentBytesObserved = p'.contentBytesObserved ∧ p.statusCodes = p'.statusCodes
  verdict : p.metadataConflict = true ↔ Contradictory (declaredBy messages)
  verdict' : p'.metadataConflict = true ↔ Contradictory (declaredBy messages)

/-- Messages tell the same in two orders exactly when in both of them a contradiction between block
sizes alone stands between neighbouring status objects. -/
theorem order_exact {k : Key} {messages messages' : List (Observation × Bgp.Limits)}
    (hperm : messages.Perm messages') (hall : ∀ m ∈ messages, Carries k m)
    {out out' : Option Output} {t t' : FileReconciler}
    (h : observeAll messages new = (.ok out, t)) (h' : observeAll messages' new = (.ok out', t')) :
    messages = [] ∨ ∃ p p', out = some (.projection p) ∧ out' = some (.projection p') ∧
      (OrderFree messages p p' ↔
        Neighbouring (declaredBy messages) ∧ Neighbouring (declaredBy messages')) := by
  have hall' : ∀ m ∈ messages', Carries k m := fun m hm => hall m (hperm.mem_iff.2 hm)
  obtain ⟨hrun, hout⟩ := transfer_new.run hall h
  obtain ⟨hrun', hout'⟩ := transfer_new.run hall' h'
  rcases hout with ⟨hempty, _⟩ | ⟨s, p, limits, hs, hp, rfl⟩
  · exact .inl hempty
  rcases hout' with ⟨hempty, _⟩ | ⟨s', p', limits', hs', hp', rfl⟩
  · exact .inl ((hempty ▸ hperm).eq_nil)
  have hobjects : (messages.filterMap single).Perm (messages'.filterMap single) := hperm.filterMap _
  obtain ⟨hdesc, hclash⟩ := hrun.present s hs
  obtain ⟨hdesc', hclash'⟩ := hrun'.present s' hs'
  rw [List.nil_append] at hdesc hclash hdesc' hclash'
  obtain ⟨content, hcontent, _, _, hcodes, hbytes, hblocks, hconf, hmeta, _⟩ := projection_ok hp
  obtain ⟨content', hcontent', _, _, hcodes', hbytes', hblocks', hconf', hmeta', _⟩ :=
    projection_ok hp'
  have hcontra : Contradictory (declaredBy messages) ↔ Contradictory (declaredBy messages') :=
    contradictory_perm (hobjects.filterMap _)
  rw [hclash] at hmeta
  rw [hclash'] at hmeta'
  refine .inr ⟨p, p', rfl, rfl, fun hfree => ?_, fun ⟨hn, hn'⟩ => ?_⟩
  · have hverdict := hfree.verdict
    have hverdict' := hfree.verdict'.trans hcontra
    rw [hmeta] at hverdict
    rw [hmeta'] at hverdict'
    exact ⟨clashes_iff_contradictory.1 hverdict, clashes_iff_contradictory.1 hverdict'⟩
  · have hverdict : p.metadataConflict = true ↔ Contradictory (declaredBy messages) :=
      hmeta ▸ clashes_iff_contradictory.2 hn
    have hverdict' : p'.metadataConflict = true ↔ Contradictory (declaredBy messages) :=
      (hmeta' ▸ clashes_iff_contradictory.2 hn').trans hcontra.symm
    refine ⟨?_, Bool.eq_iff_iff.2 (hverdict.trans hverdict'.symm), fun hno => ?_, hverdict, hverdict'⟩
    · rw [hconf, hconf', hdesc.conflicting_perm hdesc' hobjects]
    · have hsame : s.blocks = s'.blocks := hdesc.blocks_perm hdesc' hobjects (hconf ▸ hno)
      refine ⟨?_, ?_, ?_⟩
      · rw [hblocks, hblocks', hsame]
      · rw [hbytes, hbytes', contentBytes_ok hcontent, contentBytes_ok hcontent', hsame]
      · rw [hcodes, hcodes', hdesc.codes_perm hdesc' hobjects]

/-- A status object for a file of ten octets in blocks of some size. -/
def sampleDeclared (maximum : U8) : Observation × Bgp.Limits :=
  (sampleMessage [70, 4, 0x5b, 1, 13, 0, 9, 0, 0, 0, 10, 0, 0, 0, maximum, 0, 1, 0, 0], .default)

/-- Two sizes with a status object between them that declares none. -/
def sampleParted : List (Observation × Bgp.Limits) := [100, 0, 200].map sampleDeclared

def sampleNeighbours : List (Observation × Bgp.Limits) := [100, 200, 0].map sampleDeclared

theorem sample_perm : sampleParted.Perm sampleNeighbours :=
  ((List.Perm.swap 200 0 []).cons 100).map sampleDeclared

theorem sampleParted_carries : ∀ m ∈ sampleParted, Carries sampleKey m := by
  rintro m hm
  simp only [sampleParted, List.map_cons, List.map_nil, List.mem_cons, List.not_mem_nil,
    or_false] at hm
  rcases hm with rfl | rfl | rfl
  · exact ⟨rfl, .status 4 9 1 ⟨10, 100⟩ 0, rfl, rfl⟩
  · exact ⟨rfl, .status 4 9 1 ⟨10, 0⟩ 0, rfl, rfl⟩
  · exact ⟨rfl, .status 4 9 1 ⟨10, 200⟩ 0, rfl, rfl⟩

def verdict (messages : List (Observation × Bgp.Limits)) : Option Bool :=
  match (observeAll messages new).1 with
  | .ok (some (.projection p)) => some p.metadataConflict
  | _ => none

theorem verdict_some {messages : List (Observation × Bgp.Limits)} {b : Bool}
    (h : verdict messages = some b) : ∃ p t,
    observeAll messages new = (.ok (some (.projection p)), t) ∧ p.metadataConflict = b := by
  unfold verdict at h
  split at h
  next p hp => exact ⟨p, _, Prod.ext hp rfl, Option.some.inj h⟩
  next => cases h

theorem sample_verdicts : verdict sampleParted = some false ∧ verdict sampleNeighbours = some true := by
  decide +kernel

theorem order_exact_sample : ∃ p t p' t',
    observeAll sampleParted new = (.ok (some (.projection p)), t) ∧
    observeAll sampleNeighbours new = (.ok (some (.projection p')), t') ∧
    (sampleParted = [] ∨ ∃ q q', some (Output.projection p) = some (.projection q) ∧
      some (Output.projection p') = some (.projection q') ∧ (OrderFree sampleParted q q' ↔
        Neighbouring (declaredBy sampleParted) ∧ Neighbouring (declaredBy sampleNeighbours))) := by
  obtain ⟨p, t, hp, _⟩ := verdict_some sample_verdicts.1
  obtain ⟨p', t', hp', _⟩ := verdict_some sample_verdicts.2
  exact ⟨p, t, p', t', hp, hp', order_exact sample_perm sampleParted_carries hp hp'⟩

/-- Block sizes of 100 and 200 contradict each other in one order and not in the other. -/
theorem order_matters :
    ¬ ∀ (k : Key) (messages messages' : List (Observation × Bgp.Limits)) (p p' : Projection)
      (t t' : FileReconciler), messages.Perm messages' → (∀ m ∈ messages, Carries k m) →
      observeAll messages new = (.ok (some (.projection p)), t) →
      observeAll messages' new = (.ok (some (.projection p')), t') → OrderFree messages p p' := by
  intro hall
  obtain ⟨p, t, hp, hfalse⟩ := verdict_some sample_verdicts.1
  obtain ⟨p', t', hp', htrue⟩ := verdict_some sample_verdicts.2
  have hfree := hall _ _ _ p p' t t' sample_perm sampleParted_carries hp hp'
  have hsame := hfree.metadata
  rw [hfalse, htrue] at hsame
  cases hsame

end FileReconciler

end PcapEvidence.DnpFile
