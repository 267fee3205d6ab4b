import PcapEvidence.ConfirmationsRun

/-!
# The rows of confirmed fragments

A rejected fragment has a row of its own and a verified confirmation stands in one row.
-/

namespace PcapEvidence.Confirmations
open EvidenceBytes Dnp3 OrderedMap Dnp3Workflow

section Lists
variable {α β κ : Type}

theorem filter_filterMap_eq_singleton {l : List α} {f : α → Option β} {key : α → κ} {q : β → Bool}
    {x : α} {y : β} (hnodup : (l.map key).Nodup) (hx : x ∈ l) (hy : f x = some y)
    (hq : ∀ z ∈ l, ∀ r, f z = some r → (q r = true ↔ key z = key x)) :
    (l.filterMap f).filter q = [y] := by
  obtain ⟨before, after, rfl⟩ := List.append_of_mem hx
  rw [List.map_append, List.map_cons, List.nodup_append] at hnodup
  obtain ⟨-, hafter, hdisjoint⟩ := hnodup
  have hbefore : (before.filterMap f).filter q = [] := by
    rw [List.filter_eq_nil_iff]
    intro r hr hqr
    obtain ⟨z, hz, hzr⟩ := List.mem_filterMap.1 hr
    have hkey := (hq z (by simp [hz]) r hzr).1 hqr
    exact hdisjoint (key z) (List.mem_map_of_mem hz) (key x) (by simp) hkey
  have hrest : (after.filterMap f).filter q = [] := by
    rw [List.filter_eq_nil_iff]
    intro r hr hqr
    obtain ⟨z, hz, hzr⟩ := List.mem_filterMap.1 hr
    have hkey := (hq z (by simp [hz]) r hzr).1 hqr
    exact (List.nodup_cons.1 hafter).1 (hkey ▸ List.mem_map_of_mem hz)
  have hself : q y = true := (hq x (by simp) y hy).2 rfl
  rw [List.filterMap_append, List.filterMap_cons_some hy, List.filter_append, hbefore,
    List.filter_cons_of_pos hself, hrest, List.nil_append]

theorem eq_singleton_iff_of_nodup {l : List α} (h : l.Nodup) {x : α} :
    l = [x] ↔ ∀ y, y ∈ l ↔ y = x := by
  constructor
  · rintro rfl y
    exact List.mem_singleton
  · intro hall
    exact List.perm_singleton.1
      ((List.perm_ext_iff_of_nodup h (List.nodup_singleton x)).2 (by simpa using hall))

end Lists

/-! ### What a group becomes -/

def oppositionOf (confirms : List Dnp3ConfirmationFragment) (response : Dnp3ConfirmationFragment) :
    Opposition :=
  confirms.foldl (·.with response ·) ⟨false, false, false⟩

def targetsOf (confirms responses : List Dnp3ConfirmationFragment) : Targets :=
  responses.foldl (fun t response => t.add response (oppositionOf confirms response)) ⟨[], []⟩

/-- The rejected fragments that bar a group. -/
def unclassifiedOf (invalid : OrdMap InvalidScope (List FragmentRef)) (key : Key) :
    List FragmentRef :=
  (invalid.get? (.capture key.capture key.flow)).getD [] ++
    (invalid.get? (.unknownCapture key.flow)).getD []

def rowOf? (invalid : OrdMap InvalidScope (List FragmentRef)) (entry : Key × Group) :
    Option Dnp3ConfirmationCandidate :=
  if entry.2.confirms.isEmpty then none
  else some (groupRow entry.1.flow entry.2.confirms (targetsOf entry.2.confirms entry.2.responses)
    (invalid.get? (.unknownCapture entry.1.flow)).isSome (unclassifiedOf invalid entry.1))

section Groups
variable {limits : Limits} {invalid : OrdMap InvalidScope (List FragmentRef)}
  {confirms responses : List Dnp3ConfirmationFragment} {s t : ℕ}

theorem addResponse_ok {response : Dnp3ConfirmationFragment} {before after : Targets}
    (h : addResponse limits confirms before response s = (.ok after, t)) :
    after = before.add response (oppositionOf confirms response) := by
  unfold addResponse at h
  obtain ⟨-, u, -, h⟩ := Method.bind_ok h
  obtain ⟨o, v, ho, h⟩ := Method.bind_ok h
  cases h
  have hopposition : o = oppositionOf confirms response := by
    refine Method.foldlM_eq (fun o confirm s o' t _ h => ?_) ho
    unfold oppose at h
    obtain ⟨-, u, -, h⟩ := Method.bind_ok h
    cases h
    rfl
  rw [hopposition]

theorem addUnclassified_ok {refs refs' : List FragmentRef} {scope : InvalidScope}
    (h : addUnclassified limits invalid refs scope s = (.ok refs', t)) :
    refs' = refs ++ (invalid.get? scope).getD [] := by
  unfold addUnclassified at h
  cases hscope : invalid.get? scope with
  | none =>
    simp only [hscope] at h
    cases h
    exact (List.append_nil refs).symm
  | some more =>
    simp only [hscope] at h
    obtain ⟨-, u, -, h⟩ := Method.bind_ok h
    cases h
    rfl

theorem settleGroup_ok {entry : Key × Group} {output output' : List Dnp3ConfirmationCandidate}
    (h : settleGroup limits invalid output entry s = (.ok output', t)) :
    output' = output ++ (rowOf? invalid entry).toList := by
  unfold settleGroup at h
  unfold rowOf?
  by_cases hempty : entry.2.confirms.isEmpty = true
  · rw [if_pos hempty] at h ⊢
    cases h
    exact (List.append_nil output).symm
  · rw [if_neg hempty] at h ⊢
    obtain ⟨-, u, -, h⟩ := Method.bind_ok h
    obtain ⟨targets, v, htargets, h⟩ := Method.bind_ok h
    obtain ⟨refs, x, hrefs, h⟩ := Method.bind_ok h
    cases h
    have htargets' := Method.foldlM_eq (fun _ _ _ _ _ _ h => addResponse_ok h) htargets
    have hrefs' := Method.foldlM_eq (fun _ _ _ _ _ _ h => addUnclassified_ok h) hrefs
    rw [htargets', hrefs']
    rfl

end Groups

theorem dnp3ConfirmationCandidates_ok {applications : List Correlate.ApplicationAnalysis}
    {limits : Limits} {out : List Dnp3ConfirmationCandidate}
    (h : dnp3ConfirmationCandidates applications limits = .ok out) :
    ∃ settled c, settled.map Settled.place = places applications ∧
      (∀ v ∈ settled, v.Sound limits) ∧ Collects settled c ∧
      out = c.output ++ c.groups.entries.filterMap (rowOf? c.invalid) := by
  unfold dnp3ConfirmationCandidates at h
  dsimp only at h
  obtain ⟨c, s, hcollect, hsettle⟩ := Method.bind_ok (Prod.ext h rfl)
  obtain ⟨settled, hplaces, hsound, hcollects⟩ := foldlM_collects
    (fun entry _ _ _ _ _ _ h hadd => addApplication_collects h hadd) collects_new hcollect
  refine ⟨settled, c, hplaces, hsound, by simpa using hcollects, ?_⟩
  rw [Method.foldlM_eq (fun _ _ _ _ _ _ h => settleGroup_ok h) hsettle, List.foldl_append_eq_append,
    ← List.flatMap_def, ← List.filterMap_eq_flatMap_toList]

/-! ### The settled fragments of a finished query -/

structure Member (applications : List Correlate.ApplicationAnalysis) (limits : Limits) (key : Key)
    (roles : List U8) (f : Dnp3ConfirmationFragment) : Prop where
  place : ∃ p ∈ places applications, p.Settles limits (.ok f.witness) ∧ f = p.observed f.witness ∧
    keyOf p.flow f.witness = key
  role : f.witness.header.function ∈ roles

/-- Every fragment of the flow that fails verification comes from another capture. -/
def Clear (applications : List Correlate.ApplicationAnalysis) (limits : Limits) (flow : ℕ)
    (capture : Vector U8 32) : Prop :=
  ∀ p ∈ places applications, p.flow = flow → ∀ e, p.Settles limits (.error e) →
    ∃ other, p.CapturedIn other ∧ other ≠ capture

theorem nodup_places (applications : List Correlate.ApplicationAnalysis) :
    ((places applications).map Place.reference).Nodup := by
  rw [places, List.map_flatMap, List.nodup_flatMap]
  have hrefs (entry : Correlate.ApplicationAnalysis × ℕ) (reference : FragmentRef)
      (h : reference ∈ (placesOf entry).map Place.reference) : reference.application = entry.2 := by
    unfold placesOf at h
    cases hdata : entry.1.data with
    | dnp3 result =>
      simp only [hdata, List.map_map, List.mem_map] at h
      obtain ⟨f, -, rfl⟩ := h
      rfl
    | modbus result => simp [hdata] at h
    | failed error => simp [hdata] at h
  constructor
  · intro entry _
    unfold placesOf
    cases hdata : entry.1.data with
    | dnp3 result =>
      simp only [List.map_map]
      have hindex : (result.fragments.zipIdx.map Prod.snd).Nodup := by
        rw [List.zipIdx_map_snd]
        exact List.nodup_range'
      rw [List.nodup_iff_pairwise_ne, List.pairwise_map] at hindex ⊢
      exact hindex.imp fun hne h => hne (FragmentRef.mk.inj h).2
    | modbus result => simp
    | failed error => simp
  · have hindex : (applications.zipIdx.map Prod.snd).Nodup := by
      rw [List.zipIdx_map_snd]
      exact List.nodup_range'
    refine (List.pairwise_map.1 hindex).imp fun hne => ?_
    rw [Function.onFun, List.disjoint_left]
    intro reference ha hb
    exact hne ((hrefs _ _ ha).symm.trans (hrefs _ _ hb))

section Query
variable {applications : List Correlate.ApplicationAnalysis} {limits : Limits}
  {settled : List Settled} {c : Collection} {key : Key} {f : Dnp3ConfirmationFragment}

theorem member?_eq_some {v : Settled} : v.member? key = some f ↔
    v.verdict = .ok f.witness ∧ takesPart f.witness = true ∧ keyOf v.place.flow f.witness = key ∧
      f = v.place.observed f.witness := by
  unfold Settled.member?
  cases hv : v.verdict with
  | error e => simp
  | ok w =>
    dsimp only
    constructor
    · intro h
      split_ifs at h with hw
      cases h
      exact ⟨rfl, hw.1, hw.2, rfl⟩
    · rintro ⟨hsame, hpart, hkey, hf⟩
      obtain rfl : w = f.witness := Except.ok.inj hsame
      rw [if_pos ⟨hpart, hkey⟩, ← hf]

/-- The fragments of a query and their verdicts, found one from the other. -/
structure Settling (applications : List Correlate.ApplicationAnalysis) (limits : Limits)
    (settled : List Settled) : Prop where
  places : settled.map Settled.place = places applications
  sound : ∀ v ∈ settled, v.Sound limits

namespace Settling
variable (h : Settling applications limits settled)
include h

theorem nodup : (settled.map fun v => v.place.reference).Nodup := by
  have := nodup_places applications
  rwa [← h.places, List.map_map] at this

theorem mem_of_place {p : Place}
    {v : Except Error FragmentWitness} (hp : p ∈ Confirmations.places applications)
    (hv : p.Settles limits v) : (⟨p, v⟩ : Settled) ∈ settled := by
  rw [← h.places] at hp
  obtain ⟨s, hs, rfl⟩ := List.mem_map.1 hp
  rwa [← (h.sound s hs).unique hv]

theorem place_of_mem {v : Settled} (hv : v ∈ settled) :
    v.place ∈ Confirmations.places applications ∧ v.place.Settles limits v.verdict := by
  rw [← h.places]
  exact ⟨List.mem_map_of_mem hv, h.sound v hv⟩

theorem mem_members :
    f ∈ settled.filterMap (Settled.member? key) ↔
      Member applications limits key [0, 0x81, 0x82] f := by
  rw [List.mem_filterMap]
  constructor
  · rintro ⟨v, hv, hmember⟩
    obtain ⟨hverdict, hpart, hkey, hf⟩ := member?_eq_some.1 hmember
    obtain ⟨hplace, hsettles⟩ := h.place_of_mem hv
    rw [hverdict] at hsettles
    exact ⟨⟨v.place, hplace, hsettles, hf, hkey⟩, by simpa [takesPart] using hpart⟩
  · rintro ⟨⟨p, hp, hsettles, hf, hkey⟩, hrole⟩
    exact ⟨_, h.mem_of_place hp hsettles,
      member?_eq_some.2 ⟨rfl, by simpa [takesPart] using hrole, hkey, hf⟩⟩

theorem mem_confirms :
    f ∈ (groupOf key settled).confirms ↔ Member applications limits key [0] f := by
  rw [groupOf, List.mem_filter, h.mem_members]
  constructor
  · rintro ⟨hmember, hrole⟩
    exact ⟨hmember.place, by simpa using hrole⟩
  · rintro ⟨hplace, hrole⟩
    rw [List.mem_singleton] at hrole
    exact ⟨⟨hplace, by simp [hrole]⟩, by simp [hrole]⟩

theorem mem_responses :
    f ∈ (groupOf key settled).responses ↔ Member applications limits key [0x81, 0x82] f := by
  rw [groupOf, List.mem_filter, h.mem_members]
  constructor
  · rintro ⟨⟨hplace, hmember⟩, hrole⟩
    exact ⟨hplace, (List.mem_cons.1 hmember).resolve_left (by simpa using hrole)⟩
  · rintro ⟨hplace, hrole⟩
    refine ⟨⟨hplace, List.mem_cons_of_mem _ hrole⟩, ?_⟩
    rcases List.mem_cons.1 hrole with hrole | hrole
    · simp [hrole]
    · simp [List.mem_singleton.1 hrole]

theorem nodup_responses : (groupOf key settled).responses.Nodup := by
  apply List.Nodup.filter
  apply List.Pairwise.filterMap _ _ (List.pairwise_map.1 h.nodup)
  intro v v' hne f hf f' hf' hsame
  rw [(member?_eq_some.1 hf).2.2.2, (member?_eq_some.1 hf').2.2.2] at hsame
  exact hne (congrArg Dnp3ConfirmationFragment.reference hsame)

theorem unclassifiedOf_eq_nil_iff (hc : Collects settled c) :
    unclassifiedOf c.invalid key = [] ↔ Clear applications limits key.flow key.capture := by
  rw [unclassifiedOf, List.append_eq_nil_iff, hc.invalid, hc.invalid, List.filterMap_eq_nil_iff,
    List.filterMap_eq_nil_iff]
  constructor
  · rintro ⟨hcapture, hunknown⟩ p hp hflow e he
    have hmem := h.mem_of_place hp he
    have hcapture := hcapture _ hmem
    have hunknown := hunknown _ hmem
    simp only [Settled.rejectedIn?, ite_eq_right_iff, reduceCtorEq, imp_false] at hcapture hunknown
    rcases p.scope_cases with ⟨other, hscope⟩ | hscope
    · refine ⟨other, Place.capturedIn_iff.2 hscope, ?_⟩
      rintro rfl
      exact hcapture (hflow ▸ hscope)
    · exact absurd (hflow ▸ hscope) hunknown
  · intro hclear
    have hscope (v : Settled) (hv : v ∈ settled) (e : Error) (he : v.verdict = .error e)
        (hflow : v.place.flow = key.flow) :
        ∃ other, v.place.scope = .capture other key.flow ∧ other ≠ key.capture := by
      obtain ⟨hplace, hsettles⟩ := h.place_of_mem hv
      rw [he] at hsettles
      obtain ⟨other, hin, hne⟩ := hclear v.place hplace hflow e hsettles
      exact ⟨other, hflow ▸ Place.capturedIn_iff.1 hin, hne⟩
    have hflow (v : Settled) : v.place.scope = .capture key.capture key.flow ∨
        v.place.scope = .unknownCapture key.flow → v.place.flow = key.flow := by
      rcases v.place.scope_cases with ⟨other, h⟩ | h <;> simp [h]
    constructor <;> intro v hv <;> unfold Settled.rejectedIn? <;> cases he : v.verdict with
    | ok w => rfl
    | error e =>
      apply if_neg
      intro hsame
      obtain ⟨other, hother, hne⟩ := hscope v hv e he (hflow v (by simp [hsame]))
      rw [hsame] at hother
      cases hother
      try exact hne rfl

omit h

theorem group_eq (hc : Collects settled c) {entry : Key × Group} (hentry : entry ∈ c.groups.entries) :
    entry.2 = groupOf entry.1 settled := by
  rw [← hc.groups, (c.groups.get?_eq_some_iff entry.1 entry.2).2 hentry]
  rfl

end Settling

/-! ### The targets of a group -/

theorem foldl_add {confirms responses : List Dnp3ConfirmationFragment} (t : Targets) :
    responses.foldl (fun t response => t.add response (oppositionOf confirms response)) t =
      ⟨t.targets ++ responses.filter fun r => exclusion r (oppositionOf confirms r) = none,
        t.excluded ++ responses.filterMap fun r =>
          (exclusion r (oppositionOf confirms r)).map (⟨r, ·⟩)⟩ := by
  induction responses generalizing t with
  | nil => simp
  | cons r rest ih =>
    rw [List.foldl_cons, ih, Targets.add]
    cases hr : exclusion r (oppositionOf confirms r) <;> simp [hr]

theorem exclusion_eq_none_iff {response : Dnp3ConfirmationFragment} {o : Opposition} :
    exclusion response o = none ↔ response.witness.header.confirmRequested = true ∧
      o.capture = true ∧ o.link = true ∧ o.joint = true := by
  obtain ⟨capture, link, joint⟩ := o
  cases h : response.witness.header.confirmRequested <;> cases capture <;> cases link <;>
    cases joint <;> simp [exclusion, h]

theorem exclusion_single {confirm response : Dnp3ConfirmationFragment} :
    exclusion response (oppositionOf [confirm] response) = none ↔
      response.witness.header.confirmRequested = true ∧
        response.direction ≠ confirm.direction ∧
        response.witness.linkDirection ≠ confirm.witness.linkDirection := by
  rw [exclusion_eq_none_iff, ne_comm, @ne_comm _ response.witness.linkDirection]
  simp only [oppositionOf, Opposition.with, List.foldl_cons, List.foldl_nil, Bool.false_or,
    decide_eq_true_eq, Bool.and_eq_true]
  tauto

theorem targetsOf_single {confirm response : Dnp3ConfirmationFragment}
    {responses : List Dnp3ConfirmationFragment} :
    (targetsOf [confirm] responses).targets = [response] ∧
        (targetsOf [confirm] responses).excluded = [] ↔
      responses = [response] ∧ exclusion response (oppositionOf [confirm] response) = none := by
  rw [targetsOf, foldl_add, List.nil_append, List.nil_append]
  constructor
  · rintro ⟨htargets, hexcluded⟩
    have hall (r : Dnp3ConfirmationFragment) (hr : r ∈ responses) :
        exclusion r (oppositionOf [confirm] r) = none := by
      simpa using List.filterMap_eq_nil_iff.1 hexcluded r hr
    have hfilter : responses.filter (fun r => exclusion r (oppositionOf [confirm] r) = none) =
        responses := List.filter_eq_self.2 fun r hr => decide_eq_true (hall r hr)
    rw [hfilter] at htargets
    have hsingle : responses = [response] := htargets
    exact ⟨hsingle, hall response (by simp [hsingle])⟩
  · rintro ⟨rfl, hnone⟩
    simp [hnone]

theorem verdict_candidate_iff {confirms : List Dnp3ConfirmationFragment} {t : Targets}
    {unknown : Bool} {refs : List FragmentRef} :
    (verdict confirms t unknown refs).1 = "candidate_confirmation" ↔
      unknown = false ∧ refs = [] ∧ confirms.length ≤ 1 ∧
        ∃ target, t.targets = [target] ∧ t.excluded = [] := by
  unfold verdict
  split_ifs with hunknown hrefs hconfirms htargets hmany <;> simp_all
  · rintro target htarget
    exact hmany.resolve_left (by simp [htarget])
  · exact List.length_eq_one_iff.1 (le_antisymm hmany.1 (List.length_pos_iff.2 htargets))

end Query

section Main
variable {applications : List Correlate.ApplicationAnalysis} {limits : Limits}
  {out : List Dnp3ConfirmationCandidate}

theorem groupRow_status {flow : ℕ} {confirms : List Dnp3ConfirmationFragment} {t : Targets}
    {unknown : Bool} {refs : List FragmentRef} :
    (groupRow flow confirms t unknown refs).status ≠ "unclassified" := by
  change (verdict confirms t unknown refs).1 ≠ "unclassified"
  unfold verdict
  split_ifs <;> decide

theorem rowOf?_eq_some {invalid : OrdMap InvalidScope (List FragmentRef)} {entry : Key × Group}
    {row : Dnp3ConfirmationCandidate} (h : rowOf? invalid entry = some row) :
    entry.2.confirms ≠ [] ∧ row = groupRow entry.1.flow entry.2.confirms
      (targetsOf entry.2.confirms entry.2.responses)
      (invalid.get? (.unknownCapture entry.1.flow)).isSome (unclassifiedOf invalid entry.1) := by
  unfold rowOf? at h
  split_ifs at h with hempty
  exact ⟨by simpa using hempty, (Option.some.inj h).symm⟩

section Rows
variable {settled : List Settled} {c : Collection} {p : Place} {w : FragmentWitness} {e : Error}
  {row : Dnp3ConfirmationCandidate}

theorem place_unique {p' : Place} (hp : p ∈ places applications) (hp' : p' ∈ places applications)
    (h : p'.reference = p.reference) : p' = p :=
  List.inj_on_of_nodup_map (nodup_places applications) hp' hp h

theorem rejected_row (hs : Settling applications limits settled) (hc : Collects settled c)
    (hp : p ∈ places applications) (he : p.Settles limits (.error e)) :
    (c.output ++ c.groups.entries.filterMap (rowOf? c.invalid)).filter (fun row =>
      row.status = "unclassified" ∧ row.unclassifiedFragments = [p.reference]) =
        [unclassifiedRow p.flow p.reference e] := by
  have hgroups : (c.groups.entries.filterMap (rowOf? c.invalid)).filter (fun row =>
      row.status = "unclassified" ∧ row.unclassifiedFragments = [p.reference]) = [] := by
    rw [List.filter_eq_nil_iff]
    intro row hrow
    obtain ⟨entry, -, hrow⟩ := List.mem_filterMap.1 hrow
    rw [(rowOf?_eq_some hrow).2]
    simp [groupRow_status]
  rw [List.filter_append, hgroups, List.append_nil, hc.rows]
  have hrow : (⟨p, .error e⟩ : Settled).row? = some (unclassifiedRow p.flow p.reference e) := rfl
  apply filter_filterMap_eq_singleton hs.nodup (hs.mem_of_place hp he) hrow
  intro v hv r hr
  unfold Settled.row? at hr
  cases hverdict : v.verdict with
  | ok w => simp [hverdict] at hr
  | error e' =>
    simp only [hverdict, Option.some.injEq] at hr
    subst hr
    simp [unclassifiedRow]

theorem Member.eq_observed {key : Key} {roles : List U8} {f : Dnp3ConfirmationFragment}
    (hf : Member applications limits key roles f) (hp : p ∈ places applications)
    (hw : p.Settles limits (.ok w)) (href : f.reference = p.reference) :
    f = p.observed w ∧ key = keyOf p.flow w := by
  obtain ⟨⟨p', hp', hsettles, hobserved, hkey⟩, -⟩ := hf
  have hplace : p' = p := place_unique hp hp' (by rw [← href, hobserved]; rfl)
  subst hplace
  obtain rfl : f.witness = w := Except.ok.inj (hsettles.unique hw)
  exact ⟨hobserved, hkey.symm⟩

theorem confirm_row (hs : Settling applications limits settled) (hc : Collects settled c)
    (hp : p ∈ places applications) (hw : p.Settles limits (.ok w)) (hrole : w.header.function = 0) :
    ∃ row, (c.output ++ c.groups.entries.filterMap (rowOf? c.invalid)).filter (fun row =>
        p.reference ∈ row.confirms.map (·.reference)) = [row] ∧
      row.confirms.filter (·.reference = p.reference) = [p.observed w] := by
  have hmember : p.observed w ∈ (groupOf (keyOf p.flow w) settled).confirms :=
    hs.mem_confirms.2 ⟨⟨p, hp, hw, rfl, rfl⟩, by simpa [Place.observed] using hrole⟩
  obtain ⟨group, hget⟩ : ∃ group, c.groups.get? (keyOf p.flow w) = some group := by
    cases hget : c.groups.get? (keyOf p.flow w) with
    | some group => exact ⟨group, rfl⟩
    | none =>
      have hempty := hc.groups (keyOf p.flow w)
      rw [hget, Option.getD_none] at hempty
      rw [← hempty] at hmember
      simp [Group.empty] at hmember
  have hentry := (c.groups.get?_eq_some_iff _ _).1 hget
  have hgroup : group = groupOf (keyOf p.flow w) settled := Settling.group_eq hc hentry
  have hne : group.confirms ≠ [] := by
    rw [hgroup]
    exact List.ne_nil_of_mem hmember
  have hrow : ∃ row, rowOf? c.invalid (keyOf p.flow w, group) = some row := by
    rw [rowOf?, if_neg (by simpa using hne)]
    exact ⟨_, rfl⟩
  obtain ⟨row, hrow⟩ := hrow
  have hconfirms : row.confirms = group.confirms := by
    rw [(rowOf?_eq_some hrow).2]
    rfl
  refine ⟨row, ?_, ?_⟩
  · have houtput : c.output.filter (fun row => p.reference ∈ row.confirms.map (·.reference)) = [] := by
      rw [List.filter_eq_nil_iff, hc.rows]
      intro r hr
      obtain ⟨v, -, hv⟩ := List.mem_filterMap.1 hr
      unfold Settled.row? at hv
      cases hverdict : v.verdict with
      | ok w => simp [hverdict] at hv
      | error e =>
        simp only [hverdict, Option.some.injEq] at hv
        subst hv
        simp [unclassifiedRow]
    rw [List.filter_append, houtput, List.nil_append]
    have hkeys : (c.groups.entries.map Prod.fst).Nodup := c.groups.keys_sorted.imp ne_of_lt
    apply filter_filterMap_eq_singleton hkeys hentry hrow
    intro entry hentry' r hr
    rw [decide_eq_true_eq, (rowOf?_eq_some hr).2]
    constructor
    · intro hin
      obtain ⟨f, hf, href⟩ := List.mem_map.1 hin
      rw [groupRow, Settling.group_eq hc hentry'] at hf
      exact ((hs.mem_confirms.1 hf).eq_observed hp hw href).2
    · intro hkey
      obtain rfl := OrdMap.eq_of_key_eq c.groups.sorted hentry' hentry hkey
      exact List.mem_map.2 ⟨p.observed w, by simpa [groupRow, hgroup] using hmember, rfl⟩
  · rw [hconfirms, hgroup, groupOf, List.filter_filter]
    apply filter_filterMap_eq_singleton hs.nodup (hs.mem_of_place hp hw)
    · exact member?_eq_some.2 ⟨rfl, by simp [takesPart, Place.observed, hrole], rfl, rfl⟩
    · intro v hv f hf
      obtain ⟨hverdict, -, -, hobserved⟩ := member?_eq_some.1 hf
      have href : f.reference = v.place.reference := by rw [hobserved]; rfl
      rw [Bool.and_eq_true, decide_eq_true_eq, decide_eq_true_eq, href]
      refine ⟨fun h => h.1, fun h => ⟨h, ?_⟩⟩
      obtain ⟨hplace, hsettles⟩ := hs.place_of_mem hv
      rw [place_unique hp hplace h, hverdict] at hsettles
      rw [Except.ok.inj (hsettles.unique hw)]
      exact hrole

theorem candidate_iff (hs : Settling applications limits settled) (hc : Collects settled c)
    (hrow : row ∈ c.output ++ c.groups.entries.filterMap (rowOf? c.invalid)) :
    row.status = "candidate_confirmation" ↔ ∃ confirm response,
      row.confirms = [confirm] ∧
      (∀ f, Member applications limits (keyOf row.flow confirm.witness) [0x81, 0x82] f ↔
        f = response) ∧
      response.witness.header.confirmRequested = true ∧
      response.direction ≠ confirm.direction ∧
      response.witness.linkDirection ≠ confirm.witness.linkDirection ∧
      Clear applications limits row.flow (firstCapture confirm.witness.packets) := by
  rcases List.mem_append.1 hrow with hrow | hrow
  · rw [hc.rows] at hrow
    obtain ⟨v, -, hv⟩ := List.mem_filterMap.1 hrow
    unfold Settled.row? at hv
    cases hverdict : v.verdict with
    | ok w => simp [hverdict] at hv
    | error e =>
      simp only [hverdict, Option.some.injEq] at hv
      subst hv
      simp [unclassifiedRow]
  · obtain ⟨entry, hentry, hrow⟩ := List.mem_filterMap.1 hrow
    obtain ⟨hne, rfl⟩ := rowOf?_eq_some hrow
    have hgroup := Settling.group_eq hc hentry
    have hkey (confirm : Dnp3ConfirmationFragment) (hf : confirm ∈ entry.2.confirms) :
        keyOf entry.1.flow confirm.witness = entry.1 := by
      rw [hgroup] at hf
      obtain ⟨⟨p, -, -, -, hkey⟩, -⟩ := hs.mem_confirms.1 hf
      rwa [← congrArg Key.flow hkey]
    have hresponses (response : Dnp3ConfirmationFragment) : entry.2.responses = [response] ↔
        ∀ f, Member applications limits entry.1 [0x81, 0x82] f ↔ f = response := by
      rw [hgroup, eq_singleton_iff_of_nodup hs.nodup_responses]
      exact forall_congr' fun f => by rw [hs.mem_responses]
    have hclear := @Settling.unclassifiedOf_eq_nil_iff _ _ _ _ entry.1 hs hc
    change (verdict _ _ _ _).1 = _ ↔ _
    rw [verdict_candidate_iff, hclear]
    constructor
    · rintro ⟨-, hfree, hlength, response, htargets⟩
      obtain ⟨confirm, hconfirm⟩ := List.length_eq_one_iff.1
        (le_antisymm hlength (List.length_pos_iff.2 hne))
      rw [hconfirm] at htargets
      obtain ⟨hresponse, hnone⟩ := targetsOf_single.1 htargets
      obtain ⟨hrequested, hdirection, hlink⟩ := exclusion_single.1 hnone
      have hk := hkey confirm (by simp [hconfirm])
      refine ⟨confirm, response, hconfirm, ?_, hrequested, hdirection, hlink, ?_⟩
      · change ∀ f, Member applications limits (keyOf entry.1.flow confirm.witness) _ f ↔ _
        rw [hk]
        exact (hresponses response).1 hresponse
      · have hcapture : firstCapture confirm.witness.packets = entry.1.capture :=
          congrArg Key.capture hk
        rw [hcapture]
        exact hfree
    · rintro ⟨confirm, response, hconfirm, hmembers, hrequested, hdirection, hlink, hfree⟩
      have hconfirm : entry.2.confirms = [confirm] := hconfirm
      have hk := hkey confirm (by simp [hconfirm])
      have hcapture : firstCapture confirm.witness.packets = entry.1.capture :=
        congrArg Key.capture hk
      rw [hcapture] at hfree
      change ∀ f, Member applications limits (keyOf entry.1.flow confirm.witness) _ f ↔ _ at hmembers
      rw [hk] at hmembers
      refine ⟨?_, hfree, by simp [hconfirm], response, ?_⟩
      · have hrefs := hclear.2 hfree
        cases hunknown : c.invalid.get? (.unknownCapture entry.1.flow) with
        | none => rfl
        | some refs =>
          rw [unclassifiedOf, hunknown, List.append_eq_nil_iff] at hrefs
          exact absurd hrefs.2 (hc.nonempty _ refs hunknown)
      · rw [hconfirm]
        exact targetsOf_single.2 ⟨(hresponses response).2 hmembers,
          exclusion_single.2 ⟨hrequested, hdirection, hlink⟩⟩

end Rows

/-- Every fragment that fails verification has one row of its own, every verified confirmation
stands in one row, and a row is a candidate exactly when one verified response answers its one
confirmation. -/
theorem dnp3ConfirmationCandidates_exact
    (h : dnp3ConfirmationCandidates applications limits = .ok out) :
    (∀ p ∈ places applications, ∀ e, p.Settles limits (.error e) →
      out.filter (fun row => row.status = "unclassified" ∧
        row.unclassifiedFragments = [p.reference]) = [unclassifiedRow p.flow p.reference e]) ∧
    (∀ p ∈ places applications, ∀ w, p.Settles limits (.ok w) → w.header.function = 0 →
      ∃ row, out.filter (fun row => p.reference ∈ row.confirms.map (·.reference)) = [row] ∧
        row.confirms.filter (·.reference = p.reference) = [p.observed w]) ∧
    ∀ row ∈ out, row.status = "candidate_confirmation" ↔ ∃ confirm response,
      row.confirms = [confirm] ∧
      (∀ f, Member applications limits (keyOf row.flow confirm.witness) [0x81, 0x82] f ↔
        f = response) ∧
      response.witness.header.confirmRequested = true ∧
      response.direction ≠ confirm.direction ∧
      response.witness.linkDirection ≠ confirm.witness.linkDirection ∧
      Clear applications limits row.flow (firstCapture confirm.witness.packets) := by
  obtain ⟨settled, c, hplaces, hsound, hc, rfl⟩ := dnp3ConfirmationCandidates_ok h
  have hs : Settling applications limits settled := ⟨hplaces, hsound⟩
  exact ⟨fun p hp e he => rejected_row hs hc hp he,
    fun p hp w hw hrole => confirm_row hs hc hp hw hrole, fun row hrow => candidate_iff hs hc hrow⟩

end Main

def sampleResult (octets : List U8) (frame : ℕ) : Dnp3Result :=
  (decode ⟨some 0, true, [⟨0, .fromPacket octets ⟨Vector.replicate 32 0, frame, 0⟩ 0⟩], [], [], 0⟩
    .default).toOption.getD .empty

/-- A confirmation of station 1 and a response of station 1024 that requests it. -/
def sampleApplications : List Correlate.ApplicationAnalysis :=
  [⟨0, 0, "dnp3", .dnp3 (sampleResult [0x05, 0x64, 0x08, 0xc4, 0x00, 0x04, 0x01, 0x00, 0x9a, 0x19,
      0xc0, 0xc3, 0x00, 0x98, 0x26] 1)⟩,
    ⟨0, 1, "dnp3", .dnp3 (sampleResult [0x05, 0x64, 0x0a, 0x44, 0x01, 0x00, 0x00, 0x04, 0x67, 0x88,
      0xc0, 0xe3, 0x81, 0x00, 0x00, 0xea, 0xe1] 2)⟩]

def proposes (r : Result (List Dnp3ConfirmationCandidate)) : Bool :=
  r.toOption.any fun out => out.any fun row => row.status = "candidate_confirmation"

theorem dnp3ConfirmationCandidates_exact_sample : ∃ out,
    dnp3ConfirmationCandidates sampleApplications .default = .ok out ∧
    ∃ row ∈ out, ∃ confirm response, row.confirms = [confirm] ∧
      (∀ f, Member sampleApplications .default (keyOf row.flow confirm.witness) [0x81, 0x82] f ↔
        f = response) ∧
      response.witness.header.confirmRequested = true ∧
      response.direction ≠ confirm.direction ∧
      response.witness.linkDirection ≠ confirm.witness.linkDirection ∧
      Clear sampleApplications .default row.flow (firstCapture confirm.witness.packets) := by
  have hok : proposes (dnp3ConfirmationCandidates sampleApplications .default) = true := by
    decide +kernel
  cases h : dnp3ConfirmationCandidates sampleApplications .default with
  | error e =>
    rw [h] at hok
    cases hok
  | ok out =>
    rw [h] at hok
    obtain ⟨row, hrow, hstatus⟩ := List.any_eq_true.1 hok
    exact ⟨out, rfl, row, hrow,
      ((dnp3ConfirmationCandidates_exact h).2.2 row hrow).1 (of_decide_eq_true hstatus)⟩

end PcapEvidence.Confirmations
