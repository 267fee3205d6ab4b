import PcapEvidence.Confirmations

/-!
# What the rows of confirmed fragments say

The charges of a query depend on what was looked at before, its verdicts do not: unless the work runs
out, a fragment is verified with one witness or fails with one error. So a finished query is a
function of the list of its fragments with their verdicts, and the rows are read off that list.
-/

namespace PcapEvidence

namespace Method

section Steady
variable {σ ε α β γ : Type} {stops : ε → Prop}

def Steady (stops : ε → Prop) (m : Method σ ε α) : Prop :=
  ∃ r : Except ε α, ∀ s, (m s).1 = r ∨ ∃ e, (m s).1 = .error e ∧ stops e

theorem steady_pure (a : α) : Steady stops (pure a : Method σ ε α) := ⟨.ok a, fun _ => .inl rfl⟩

theorem steady_fail (e : ε) : Steady stops (fail e : Method σ ε α) := ⟨.error e, fun _ => .inl rfl⟩

theorem steady_lift (r : Except ε α) : Steady stops (lift r : Method σ ε α) := ⟨r, fun _ => .inl rfl⟩

theorem Steady.bind {m : Method σ ε α} {f : α → Method σ ε β} (hm : Steady stops m)
    (hf : ∀ a, Steady stops (f a)) : Steady stops (m >>= f) := by
  obtain ⟨r, hr⟩ := hm
  have hstop {s : σ} {e : ε} (h : (m s).1 = .error e) : ((m >>= f) s).1 = .error e := by
    rcases hms : m s with ⟨result, t⟩
    rw [hms] at h
    subst h
    rw [bind_of_error hms]
  cases r with
  | error e =>
    refine ⟨.error e, fun s => ?_⟩
    rcases hr s with h | ⟨e', h, he⟩
    · exact .inl (hstop h)
    · exact .inr ⟨e', hstop h, he⟩
  | ok a =>
    obtain ⟨r', hr'⟩ := hf a
    refine ⟨r', fun s => ?_⟩
    rcases hr s with h | ⟨e, h, he⟩
    · rcases hms : m s with ⟨result, t⟩
      rw [hms] at h
      subst h
      rw [bind_of_ok hms]
      exact hr' t
    · exact .inr ⟨e, hstop h, he⟩

theorem Steady.ite {c : Prop} [Decidable c] {m n : Method σ ε α} (hm : Steady stops m)
    (hn : Steady stops n) : Steady stops (if c then m else n) := by
  by_cases hc : c
  · rwa [if_pos hc]
  · rwa [if_neg hc]

theorem steady_foldlM {l : List γ} {f : α → γ → Method σ ε α} (h : ∀ a x, Steady stops (f a x))
    (a : α) : Steady stops (l.foldlM f a) := by
  induction l generalizing a with
  | nil => exact steady_pure a
  | cons x rest ih =>
    rw [List.foldlM_cons]
    exact (h a x).bind ih

theorem Steady.unique {m : Method σ ε α} (h : Steady stops m) {r r' : Except ε α} {s s' t t' : σ}
    (hr : m s = (r, t)) (hr' : m s' = (r', t')) (hstop : ∀ e, r = .error e → ¬ stops e)
    (hstop' : ∀ e, r' = .error e → ¬ stops e) : r = r' := by
  obtain ⟨r₀, hr₀⟩ := h
  have hsettled {s t : σ} {r : Except ε α} (hr : m s = (r, t))
      (hstop : ∀ e, r = .error e → ¬ stops e) : r = r₀ := by
    have hs := hr₀ s
    rw [hr] at hs
    rcases hs with h | ⟨e, h, he⟩
    · exact h
    · exact absurd he (hstop e h)
  rw [hsettled hr hstop, hsettled hr' hstop']

theorem foldlM_eq {l : List γ} {f : α → γ → Method σ ε α} {g : α → γ → α}
    (hstep : ∀ a x s b t, x ∈ l → f a x s = (.ok b, t) → b = g a x) {a b : α} {s t : σ}
    (h : l.foldlM f a s = (.ok b, t)) : b = l.foldl g a := by
  induction l generalizing a s with
  | nil =>
    cases h
    rfl
  | cons x rest ih =>
    rw [List.foldlM_cons] at h
    obtain ⟨next, u, hnext, hrest⟩ := bind_ok h
    obtain rfl := hstep a x s next u (by simp) hnext
    exact ih (fun a y s b t hy => hstep a y s b t (List.mem_cons_of_mem x hy)) hrest

end Steady

end Method

namespace Confirmations
open EvidenceBytes Dnp3 OrderedMap Dnp3Workflow
open Correlate (captureScope)

/-! ### Verdicts do not depend on the work -/

/-- The error that ends the whole query. -/
def Exhausted (e : Error) : Prop := e.code = .limitExceeded

section Steady
variable {result : Dnp3Result} {fragment : ApplicationFragment} {limits : Limits}

theorem steady_charge (amount limit : ℕ) :
    Method.Steady Exhausted (Dnp3Workflow.charge amount limit) := by
  refine ⟨.ok (), fun work => ?_⟩
  unfold Dnp3Workflow.charge
  rw [Method.read_bind]
  cases (checkedAdd work amount).filter (· ≤ limit) with
  | none => exact .inr ⟨_, rfl, rfl⟩
  | some n => exact .inl rfl

theorem steady_verifyLink (capture : Vector U8 32) (walk : LinkWalk) (index : ℕ) :
    Method.Steady Exhausted (verifyLink result fragment capture limits walk index) := by
  unfold verifyLink
  apply (steady_charge _ _).bind
  intro _
  apply (Method.steady_fail _).ite
  apply (Method.steady_lift _).bind
  intro frame
  iterate 4
    apply (steady_charge _ _).bind
    intro _
  apply (Method.steady_fail _).ite
  apply (Method.steady_lift _).bind
  intro parsed
  apply (Method.steady_fail _).ite
  apply (Method.steady_lift _).bind
  intro next
  apply (Method.steady_lift _).bind
  intro link
  exact Method.steady_pure _

theorem steady_verifiedFragmentWitness :
    Method.Steady Exhausted (verifiedFragmentWitness result fragment limits) := by
  unfold verifiedFragmentWitness
  iterate 5
    apply (steady_charge _ _).bind
    intro _
  apply (Method.steady_fail _).ite
  apply (Method.steady_lift _).bind
  intro h
  apply (Method.steady_lift _).bind
  intro cls
  apply (Method.steady_fail _).ite
  apply (Method.steady_lift _).bind
  intro objects
  apply (Method.steady_fail _).ite
  apply (Method.steady_fail _).ite
  apply (Method.steady_lift _).bind
  intro first
  apply (Method.steady_foldlM (steady_verifyLink _) _).bind
  intro walk
  apply (Method.steady_fail _).ite
  apply (Method.steady_lift _).bind
  intro direction
  apply (Method.steady_lift _).bind
  intro headerBytes
  exact Method.steady_pure _

theorem steady_verified (application : Correlate.ApplicationAnalysis) :
    Method.Steady Exhausted (verified application result fragment limits) :=
  steady_verifiedFragmentWitness.ite (Method.steady_fail _)

end Steady

/-! ### The fragments and their verdicts -/

structure Place where
  reference : FragmentRef
  application : Correlate.ApplicationAnalysis
  result : Dnp3Result
  fragment : ApplicationFragment

def placesOf (entry : Correlate.ApplicationAnalysis × ℕ) : List Place :=
  match entry.1.data with
  | .dnp3 result => result.fragments.zipIdx.map fun f => ⟨⟨entry.2, f.2⟩, entry.1, result, f.1⟩
  | _ => []

def places (applications : List Correlate.ApplicationAnalysis) : List Place :=
  applications.zipIdx.flatMap placesOf

namespace Place

def flow (p : Place) : ℕ := p.application.flow

def Settles (p : Place) (limits : Limits) (v : Except Error FragmentWitness) : Prop :=
  (∀ e, v = .error e → ¬ Exhausted e) ∧
    ∃ work work', verified p.application p.result p.fragment limits work = (v, work')

def CapturedIn (p : Place) (capture : Vector U8 32) : Prop :=
  captureScope p.fragment.raw = some capture ∧ ∀ index ∈ p.fragment.frames,
    ∃ frame, p.result.frames[index]? = some frame ∧ captureScope frame.raw = some capture

def observed (p : Place) (w : FragmentWitness) : Dnp3ConfirmationFragment :=
  ⟨p.reference, p.application.direction, w⟩

theorem Settles.unique {p : Place} {limits : Limits} {v v' : Except Error FragmentWitness}
    (h : p.Settles limits v) (h' : p.Settles limits v') : v = v' := by
  obtain ⟨hstop, s, t, h⟩ := h
  obtain ⟨hstop', s', t', h'⟩ := h'
  exact (steady_verified p.application).unique h h' hstop hstop'

end Place

/-! ### What a query has collected -/

structure Settled where
  place : Place
  verdict : Except Error FragmentWitness

namespace Settled

def Sound (limits : Limits) (s : Settled) : Prop := s.place.Settles limits s.verdict

def row? (s : Settled) : Option Dnp3ConfirmationCandidate :=
  match s.verdict with
  | .ok _ => none
  | .error e => some (unclassifiedRow s.place.flow s.place.reference e)

def member? (key : Key) (s : Settled) : Option Dnp3ConfirmationFragment :=
  match s.verdict with
  | .ok w => if takesPart w ∧ keyOf s.place.flow w = key then some (s.place.observed w) else none
  | .error _ => none

end Settled

namespace Place

def framesIn (p : Place) (capture : Vector U8 32) : Bool :=
  p.fragment.frames.all fun index =>
    (p.result.frames[index]?).any fun frame => captureScope frame.raw = some capture

def scope (p : Place) : InvalidScope :=
  match captureScope p.fragment.raw with
  | none => .unknownCapture p.flow
  | some capture => if p.framesIn capture then .capture capture p.flow else .unknownCapture p.flow

theorem framesIn_iff {p : Place} {capture : Vector U8 32} : p.framesIn capture = true ↔
    ∀ index ∈ p.fragment.frames,
      ∃ frame, p.result.frames[index]? = some frame ∧ captureScope frame.raw = some capture := by
  simp [framesIn, Option.any_eq_true]

theorem capturedIn_iff {p : Place} {capture : Vector U8 32} :
    p.CapturedIn capture ↔ p.scope = .capture capture p.flow := by
  unfold CapturedIn scope
  rw [← framesIn_iff]
  cases h : captureScope p.fragment.raw with
  | none => simp
  | some found =>
    by_cases hframes : p.framesIn found = true
    · simp only [hframes, if_true, Option.some.injEq, InvalidScope.capture.injEq, and_true]
      exact ⟨fun h => h.1, fun h => ⟨h, h ▸ hframes⟩⟩
    · simp only [hframes, Bool.false_eq_true, if_false, reduceCtorEq, iff_false]
      rintro ⟨hsame, hin⟩
      exact hframes ((Option.some.inj hsame) ▸ hin)

theorem scope_cases (p : Place) :
    (∃ capture, p.scope = .capture capture p.flow) ∨ p.scope = .unknownCapture p.flow := by
  unfold scope
  split
  · exact .inr rfl
  · split_ifs
    · exact .inl ⟨_, rfl⟩
    · exact .inr rfl

end Place

def Settled.rejectedIn? (scope : InvalidScope) (s : Settled) : Option FragmentRef :=
  match s.verdict with
  | .ok _ => none
  | .error _ => if s.place.scope = scope then some s.place.reference else none

def groupOf (key : Key) (settled : List Settled) : Group :=
  let members := settled.filterMap (Settled.member? key)
  ⟨members.filter (·.witness.header.function = 0), members.filter (·.witness.header.function ≠ 0)⟩

structure Collects (settled : List Settled) (c : Collection) : Prop where
  rows : c.output = settled.filterMap Settled.row?
  groups : ∀ key, (c.groups.get? key).getD .empty = groupOf key settled
  invalid : ∀ scope, (c.invalid.get? scope).getD [] = settled.filterMap (Settled.rejectedIn? scope)
  nonempty : ∀ scope refs, c.invalid.get? scope = some refs → refs ≠ []

theorem collects_new : Collects [] .new := ⟨rfl, fun _ => rfl, fun _ => rfl, fun _ _ h => by cases h⟩

section Step
variable {limits : Limits} {settled : List Settled} {c d : Collection} {p : Place} {w : FragmentWitness}
  {e : Error} {s t : ℕ}

theorem Collects.reject (h : Collects settled c) :
    Collects (settled ++ [⟨p, .error e⟩]) (c.reject p.scope p.flow p.reference e) where
  rows := by
    rw [List.filterMap_append, ← h.rows]
    rfl
  groups key := by
    simpa [groupOf, Collection.reject, Settled.member?, List.filterMap_cons] using h.groups key
  invalid scope := by
    rw [List.filterMap_append, ← h.invalid scope]
    by_cases hs : scope = p.scope
    · subst hs
      simp [Collection.reject, Settled.rejectedIn?]
    · simp [Collection.reject, Settled.rejectedIn?, OrdMap.get?_insert_of_ne _ _ hs, Ne.symm hs]
  nonempty scope refs hrefs := by
    by_cases hs : scope = p.scope
    · subst hs
      simp only [Collection.reject, OrdMap.get?_insert_self, Option.some.injEq] at hrefs
      simp [← hrefs]
    · simp only [Collection.reject, OrdMap.get?_insert_of_ne _ _ hs] at hrefs
      exact h.nonempty scope refs hrefs

theorem Collects.skip (h : Collects settled c) (hpart : takesPart w = false) :
    Collects (settled ++ [⟨p, .ok w⟩]) c where
  rows := by simpa [Settled.row?, List.filterMap_cons] using h.rows
  groups key := by
    simpa [groupOf, Settled.member?, hpart, List.filterMap_cons] using h.groups key
  invalid scope := by simpa [Settled.rejectedIn?, List.filterMap_cons] using h.invalid scope
  nonempty := h.nonempty

theorem Collects.take (h : Collects settled c) (hpart : takesPart w = true) :
    Collects (settled ++ [⟨p, .ok w⟩]) (c.take p.flow (p.observed w)) where
  rows := by simpa [Settled.row?, List.filterMap_cons, Collection.take] using h.rows
  groups key := by
    have hgroup := h.groups key
    by_cases hk : key = keyOf p.flow w
    · have hsame : keyOf p.flow (p.observed w).witness = key := hk.symm
      simp only [Collection.take, hsame, OrdMap.get?_insert_self, Option.getD_some, hgroup]
      unfold groupOf Group.join
      by_cases hconfirm : w.header.function = 0#8 <;>
        simp [Settled.member?, hpart, hk, Place.observed,
          hconfirm]
    · have hother : key ≠ keyOf p.flow (p.observed w).witness := hk
      simp only [Collection.take, OrdMap.get?_insert_of_ne _ _ hother, hgroup]
      simp [groupOf, Settled.member?, Ne.symm hk]
  invalid scope := by
    simpa [Settled.rejectedIn?, List.filterMap_cons, Collection.take] using h.invalid scope
  nonempty := h.nonempty

theorem framesOf_ok {result : Dnp3Result} {capture : Vector U8 32} {frames : List ℕ} {b : Bool}
    (h : framesOf result capture limits frames s = (.ok b, t)) :
    b = frames.all fun index =>
      (result.frames[index]?).any fun frame => captureScope frame.raw = some capture := by
  induction frames generalizing s with
  | nil =>
    cases h
    rfl
  | cons index rest ih =>
    rw [framesOf] at h
    obtain ⟨-, u, -, h⟩ := Method.bind_ok h
    rw [List.all_cons]
    cases hframe : result.frames[index]? with
    | none =>
      simp only [hframe] at h
      cases h
      rfl
    | some frame =>
      simp only [hframe] at h
      obtain ⟨-, v, -, h⟩ := Method.bind_ok h
      by_cases hscope : captureScope frame.raw = some capture
      · rw [if_neg (not_not.2 hscope)] at h
        rw [ih h]
        simp [hscope]
      · rw [if_pos hscope] at h
        cases h
        simp [hscope]

theorem invalidScope_ok {scope : InvalidScope}
    (h : invalidScope p.result p.fragment p.flow limits s = (.ok scope, t)) : scope = p.scope := by
  unfold invalidScope at h
  obtain ⟨-, u, -, h⟩ := Method.bind_ok h
  unfold Place.scope
  cases hraw : captureScope p.fragment.raw with
  | none =>
    simp only [hraw] at h
    cases h
    rfl
  | some capture =>
    simp only [hraw] at h
    obtain ⟨coherent, v, hframes, h⟩ := Method.bind_ok h
    cases h
    rw [framesOf_ok hframes]
    rfl

theorem addFragment_collects (h : Collects settled c)
    (hadd : addFragment limits p.application p.result p.reference p.fragment c s = (.ok d, t)) :
    ∃ v, p.Settles limits v ∧ Collects (settled ++ [⟨p, v⟩]) d := by
  unfold addFragment at hadd
  obtain ⟨-, s₁, -, hadd⟩ := Method.bind_ok hadd
  obtain ⟨counted, hcounted, hadd⟩ := Method.lift_bind_ok hadd
  have hcollects : Collects settled counted := by
    unfold Collection.counted at hcounted
    split at hcounted
    · cases hcounted
    · cases hcounted
      exact ⟨h.rows, h.groups, h.invalid, h.nonempty⟩
  obtain ⟨v, s₂, hverdict, hadd⟩ := Method.bind_ok hadd
  obtain ⟨hv, hs₂⟩ := Prod.mk.inj hverdict
  have hrun : verified p.application p.result p.fragment limits s₁ = (v, s₂) :=
    Prod.ext (Except.ok.inj hv) hs₂
  cases v with
  | ok w =>
    refine ⟨.ok w, ⟨by simp, s₁, s₂, hrun⟩, ?_⟩
    by_cases hpart : takesPart w = true
    · simp only [hpart, if_true] at hadd
      cases hadd
      exact hcollects.take hpart
    · rw [Bool.not_eq_true] at hpart
      simp only [hpart, Bool.false_eq_true, if_false] at hadd
      cases hadd
      exact hcollects.skip hpart
  | error e =>
    by_cases he : e.code = .limitExceeded
    · simp only [he, if_true] at hadd
      cases hadd
    · simp only [he, if_false] at hadd
      obtain ⟨scope, s₃, hscope, hadd⟩ := Method.bind_ok hadd
      cases hadd
      obtain rfl := invalidScope_ok hscope
      exact ⟨.error e, ⟨by simpa [Exhausted] using he, s₁, s₂, hrun⟩, hcollects.reject⟩

theorem foldlM_collects {γ : Type} {l : List γ} {f : Collection → γ → Method ℕ Error Collection}
    {ps : γ → List Place}
    (hstep : ∀ x ∈ l, ∀ settled c d s t, Collects settled c → f c x s = (.ok d, t) →
      ∃ more, more.map Settled.place = ps x ∧ (∀ v ∈ more, v.Sound limits) ∧
        Collects (settled ++ more) d)
    (h : Collects settled c) (hfold : l.foldlM f c s = (.ok d, t)) :
    ∃ more, more.map Settled.place = l.flatMap ps ∧ (∀ v ∈ more, v.Sound limits) ∧
      Collects (settled ++ more) d := by
  induction l generalizing settled c s with
  | nil =>
    cases hfold
    exact ⟨[], rfl, by simp, by simpa using h⟩
  | cons x rest ih =>
    rw [List.foldlM_cons] at hfold
    obtain ⟨next, u, hnext, hrest⟩ := Method.bind_ok hfold
    obtain ⟨first, hplaces, hsound, hcollects⟩ := hstep x (by simp) settled c next s u h hnext
    obtain ⟨others, hplaces', hsound', hcollects'⟩ :=
      ih (fun y hy => hstep y (List.mem_cons_of_mem x hy)) hcollects hrest
    refine ⟨first ++ others, ?_, ?_, ?_⟩
    · rw [List.map_append, hplaces, hplaces', List.flatMap_cons]
    · intro v hv
      exact (List.mem_append.1 hv).elim (hsound v) (hsound' v)
    · rwa [← List.append_assoc]

theorem addApplication_collects {entry : Correlate.ApplicationAnalysis × ℕ} (h : Collects settled c)
    (hadd : addApplication limits c entry s = (.ok d, t)) :
    ∃ more, more.map Settled.place = placesOf entry ∧ (∀ v ∈ more, v.Sound limits) ∧
      Collects (settled ++ more) d := by
  unfold addApplication at hadd
  obtain ⟨-, s₁, -, hadd⟩ := Method.bind_ok hadd
  unfold placesOf
  cases hdata : entry.1.data with
  | dnp3 result =>
    simp only [hdata] at hadd ⊢
    rw [List.map_eq_flatMap]
    refine foldlM_collects (fun f hf settled c d s t h hadd => ?_) h hadd
    obtain ⟨v, hv, hcollects⟩ :=
      addFragment_collects (p := ⟨⟨entry.2, f.2⟩, entry.1, result, f.1⟩) h hadd
    exact ⟨[⟨_, v⟩], rfl, by simpa [Settled.Sound] using hv, hcollects⟩
  | modbus result =>
    simp only [hdata] at hadd ⊢
    cases hadd
    exact ⟨[], rfl, by simp, by simpa using h⟩
  | failed error =>
    simp only [hdata] at hadd ⊢
    cases hadd
    exact ⟨[], rfl, by simp, by simpa using h⟩

end Step

end Confirmations

end PcapEvidence
