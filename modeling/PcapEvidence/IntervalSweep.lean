import PcapEvidence.OrderedMap
import PcapEvidence.SortedVec

/-!
# Sweeping the boundaries of a list of intervals

Every interval `[start, stop)` of a list contributes its index to the event at its start and to the
event at its stop; further positions can be marked as boundaries without events. The sweep visits
the boundaries in order, keeps the set of active indices up to date and hands each pair of
neighbouring boundaries, with that set, to a body.

The rule that matters is `sweep_eq_scan`: for non-empty intervals the set handed over at a boundary
is exactly the set of intervals that contain it, so the sweep is a plain scan of the boundaries.
-/

namespace IntervalSweep

open OrderedMap

variable {a b : ℤ} {rest : List ℤ}
variable {ε σ : Type*}

abbrev Interval := ℤ × ℤ

/-- The indices that start and the indices that stop at a boundary. -/
abbrev Event := List ℕ × List ℕ

abbrev Events := OrdMap ℤ Event

def eventAt (events : Events) (p : ℤ) : Event := (events.get? p).getD ([], [])

/-- Updates the event at a position, which becomes a boundary. -/
def touch (events : Events) (p : ℤ) (f : Event → Event) : Events :=
  events.insert p (f (eventAt events p))

def addInterval (events : Events) (i : ℕ) (iv : Interval) : Events :=
  touch (touch events iv.1 (fun e => (e.1 ++ [i], e.2))) iv.2 (fun e => (e.1, e.2 ++ [i]))

/-- Adds the intervals with indices counted from `i`. -/
def addIntervals : Events → ℕ → List Interval → Events
  | events, _, [] => events
  | events, i, iv :: rest => addIntervals (addInterval events i iv) (i + 1) rest

def addMarks (events : Events) (marks : List ℤ) : Events :=
  marks.foldl (fun events p => touch events p id) events

def eventsOf (intervals : List Interval) (marks : List ℤ) : Events :=
  addMarks (addIntervals .empty 0 intervals) marks

def advance (active : OrdSet ℕ) (e : Event) : OrdSet ℕ :=
  e.1.foldl (fun s i => s.insert i ()) (e.2.foldl (fun s i => s.erase i) active)

/-- The loop over neighbouring boundaries. -/
def sweep (events : Events) (body : ℤ → ℤ → List ℕ → σ → Except ε σ) :
    List ℤ → OrdSet ℕ → σ → Except ε σ
  | a :: b :: rest, active, s =>
    match body a b (advance active (eventAt events a)).keys s with
    | .error e => .error e
    | .ok s => sweep events body (b :: rest) (advance active (eventAt events a)) s
  | _, _, s => .ok s

def scan (body : ℤ → ℤ → σ → Except ε σ) : List ℤ → σ → Except ε σ
  | a :: b :: rest, s =>
    match body a b s with
    | .error e => .error e
    | .ok s => scan body (b :: rest) s
  | _, s => .ok s

/-- The indices of the intervals that contain a position, in order. -/
def covering (intervals : List Interval) (p : ℤ) : List ℕ :=
  (List.range intervals.length).filter (fun i =>
    (intervals[i]?).any (fun iv => iv.1 ≤ p ∧ p < iv.2))

theorem mem_covering (intervals : List Interval) (p : ℤ) (i : ℕ) :
    i ∈ covering intervals p ↔ ∃ iv, intervals[i]? = some iv ∧ iv.1 ≤ p ∧ p < iv.2 := by
  simp only [covering, List.mem_filter, List.mem_range, Option.any_eq_true, decide_eq_true_eq]
  constructor
  · rintro ⟨-, h⟩
    exact h
  · rintro ⟨iv, hiv, h⟩
    exact ⟨(List.getElem?_eq_some_iff.1 hiv).1, iv, hiv, h⟩

theorem covering_sorted (intervals : List Interval) (p : ℤ) :
    (covering intervals p).Pairwise (· < ·) :=
  List.pairwise_lt_range.filter _

section Events

variable (events : Events)

theorem eventAt_touch (p q : ℤ) (f : Event → Event) :
    eventAt (touch events p f) q = if q = p then f (eventAt events p) else eventAt events q := by
  unfold eventAt touch
  rw [OrdMap.get?_insert]
  split_ifs <;> rfl

theorem mem_keys_touch (p q : ℤ) (f : Event → Event) :
    q ∈ (touch events p f).keys ↔ q = p ∨ q ∈ events.keys := by
  simp only [OrdMap.mem_keys, touch, OrdMap.get?_insert]
  by_cases h : q = p <;> simp [h]

theorem eventAt_addInterval (i : ℕ) {iv : Interval} (h : iv.1 < iv.2) (p : ℤ) :
    eventAt (addInterval events i iv) p =
      ((eventAt events p).1 ++ (if iv.1 = p then [i] else []),
        (eventAt events p).2 ++ (if iv.2 = p then [i] else [])) := by
  rw [addInterval, eventAt_touch, eventAt_touch, eventAt_touch]
  by_cases h1 : p = iv.1
  · subst h1
    simp [h.ne, h.ne']
  · by_cases h2 : p = iv.2
    · subst h2
      simp [h.ne, h.ne']
    · simp [h1, h2, Ne.symm h1, Ne.symm h2]

theorem mem_eventAt_addIntervals (intervals : List Interval) (h : ∀ iv ∈ intervals, iv.1 < iv.2)
    (i : ℕ) (p : ℤ) (j : ℕ) :
    (j ∈ (eventAt (addIntervals events i intervals) p).1 ↔ j ∈ (eventAt events p).1 ∨
      ∃ k iv, j = i + k ∧ intervals[k]? = some iv ∧ iv.1 = p) ∧
    (j ∈ (eventAt (addIntervals events i intervals) p).2 ↔ j ∈ (eventAt events p).2 ∨
      ∃ k iv, j = i + k ∧ intervals[k]? = some iv ∧ iv.2 = p) := by
  induction intervals generalizing events i with
  | nil => simp [addIntervals]
  | cons iv rest ih =>
    -- an index of the longer list is the head's or one further on in the tail
    have hsplit (f : Interval → ℤ) : (∃ k iv', j = i + k ∧ (iv :: rest)[k]? = some iv' ∧ f iv' = p) ↔
        (f iv = p ∧ j = i) ∨ ∃ k iv', j = i + 1 + k ∧ rest[k]? = some iv' ∧ f iv' = p := by
      constructor
      · rintro ⟨k, iv', rfl, hk, hp⟩
        cases k with
        | zero =>
          cases hk
          exact Or.inl ⟨hp, rfl⟩
        | succ k => exact Or.inr ⟨k, iv', by omega, hk, hp⟩
      · rintro (⟨hp, rfl⟩ | ⟨k, iv', rfl, hk, hp⟩)
        · exact ⟨0, iv, rfl, rfl, hp⟩
        · exact ⟨k + 1, iv', by omega, hk, hp⟩
    obtain ⟨h1, h2⟩ := ih (addInterval events i iv) (fun iv' h' => h iv' (by simp [h'])) (i + 1)
    have hev := eventAt_addInterval events i (h iv (by simp)) p
    rw [addIntervals, h1, h2, hev, hsplit Prod.fst, hsplit Prod.snd]
    constructor
    · by_cases hp : iv.1 = p <;> simp [hp, or_assoc]
    · by_cases hp : iv.2 = p <;> simp [hp, or_assoc]

theorem mem_keys_addIntervals (intervals : List Interval) (i : ℕ) (p : ℤ) :
    p ∈ (addIntervals events i intervals).keys ↔
      p ∈ events.keys ∨ ∃ iv ∈ intervals, p = iv.1 ∨ p = iv.2 := by
  induction intervals generalizing events i with
  | nil => simp [addIntervals]
  | cons iv rest ih =>
    rw [addIntervals, ih, addInterval, mem_keys_touch, mem_keys_touch]
    simp only [List.mem_cons, exists_eq_or_imp]
    grind

theorem addMarks_spec (marks : List ℤ) (p : ℤ) :
    eventAt (addMarks events marks) p = eventAt events p ∧
      (p ∈ (addMarks events marks).keys ↔ p ∈ events.keys ∨ p ∈ marks) := by
  induction marks generalizing events with
  | nil => simp [addMarks]
  | cons q rest ih =>
    obtain ⟨h1, h2⟩ := ih (touch events q id)
    constructor
    · refine h1.trans ?_
      rw [eventAt_touch]
      by_cases hp : p = q <;> simp [hp]
    · refine h2.trans ?_
      rw [mem_keys_touch, List.mem_cons]
      tauto

end Events

theorem mem_keys_eventsOf (intervals : List Interval) (marks : List ℤ) (p : ℤ) :
    p ∈ (eventsOf intervals marks).keys ↔ (∃ iv ∈ intervals, p = iv.1 ∨ p = iv.2) ∨ p ∈ marks := by
  rw [eventsOf, (addMarks_spec _ marks p).2, mem_keys_addIntervals]
  simp [OrdMap.keys, OrdMap.empty]

theorem mem_eventAt_eventsOf {intervals : List Interval} (h : ∀ iv ∈ intervals, iv.1 < iv.2)
    (marks : List ℤ) (p : ℤ) (j : ℕ) :
    (j ∈ (eventAt (eventsOf intervals marks) p).1 ↔ ∃ iv, intervals[j]? = some iv ∧ iv.1 = p) ∧
    (j ∈ (eventAt (eventsOf intervals marks) p).2 ↔ ∃ iv, intervals[j]? = some iv ∧ iv.2 = p) := by
  obtain ⟨h1, h2⟩ := mem_eventAt_addIntervals .empty intervals h 0 p j
  rw [eventsOf, (addMarks_spec _ marks p).1, h1, h2]
  simp [eventAt]

theorem mem_keys_foldl_insert (js : List ℕ) (s : OrdSet ℕ) (i : ℕ) :
    i ∈ (js.foldl (fun s i => s.insert i ()) s).keys ↔ i ∈ s.keys ∨ i ∈ js := by
  induction js generalizing s with
  | nil => simp
  | cons j rest ih =>
    rw [List.foldl_cons, ih, OrdMap.mem_keys, OrdMap.get?_insert, List.mem_cons]
    by_cases h : i = j <;> simp [h, OrdMap.mem_keys]

theorem mem_keys_foldl_erase (js : List ℕ) (s : OrdSet ℕ) (i : ℕ) :
    i ∈ (js.foldl (fun s i => s.erase i) s).keys ↔ i ∈ s.keys ∧ i ∉ js := by
  induction js generalizing s with
  | nil => simp
  | cons j rest ih =>
    rw [List.foldl_cons, ih, OrdMap.mem_keys, OrdMap.get?_erase, List.mem_cons]
    by_cases h : i = j <;> simp [h, OrdMap.mem_keys]

theorem mem_keys_advance (active : OrdSet ℕ) (e : Event) (i : ℕ) :
    i ∈ (advance active e).keys ↔ (i ∈ active.keys ∧ i ∉ e.2) ∨ i ∈ e.1 := by
  rw [advance, mem_keys_foldl_insert, mem_keys_foldl_erase]

def Arrived (intervals : List Interval) (a : ℤ) (active : OrdSet ℕ) : Prop :=
  ∀ i, i ∈ active.keys ↔ ∃ iv, intervals[i]? = some iv ∧ iv.1 < a ∧ a ≤ iv.2

theorem advance_keys {intervals : List Interval} (h : ∀ iv ∈ intervals, iv.1 < iv.2)
    (marks : List ℤ) {active : OrdSet ℕ} (ha : Arrived intervals a active) :
    (advance active (eventAt (eventsOf intervals marks) a)).keys = covering intervals a := by
  refine SortedVec.eq_of_sorted_of_mem_iff (OrdMap.keys_sorted _) (covering_sorted _ _) (fun i => ?_)
  obtain ⟨hstart, hstop⟩ := mem_eventAt_eventsOf h marks a i
  rw [mem_keys_advance, ha, hstart, hstop, mem_covering]
  cases hi : intervals[i]? with
  | none => simp
  | some iv =>
    have := h iv (List.mem_of_getElem? hi)
    simp only [Option.some.injEq, exists_eq_left']
    omega

/-- Inside `[a, b)` nothing starts or stops. -/
def Elementary (intervals : List Interval) (a b : ℤ) : Prop :=
  a < b ∧ ∀ iv ∈ intervals, (iv.1 ≤ a ↔ iv.1 < b) ∧ (a < iv.2 ↔ b ≤ iv.2)

theorem arrived_next {intervals : List Interval} {active : OrdSet ℕ}
    (hkeys : active.keys = covering intervals a) (hgap : Elementary intervals a b) :
    Arrived intervals b active := by
  intro i
  rw [hkeys, mem_covering]
  cases hi : intervals[i]? with
  | none => simp
  | some iv =>
    have := hgap.2 iv (List.mem_of_getElem? hi)
    simp only [Option.some.injEq, exists_eq_left', this]

/-- A list of boundaries, from `a` on, that misses no endpoint of the intervals. -/
def Complete (intervals : List Interval) (a : ℤ) (boundaries : List ℤ) : Prop :=
  boundaries.Pairwise (· < ·) ∧
    ∀ iv ∈ intervals, (a ≤ iv.1 → iv.1 ∈ boundaries) ∧ (a ≤ iv.2 → iv.2 ∈ boundaries)

theorem Complete.tail {intervals : List Interval}
    (h : Complete intervals a (a :: b :: rest)) : Complete intervals b (b :: rest) := by
  obtain ⟨hsorted, hmem⟩ := h
  obtain ⟨hfirst, htail⟩ := List.pairwise_cons.1 hsorted
  have hab := hfirst b (by simp)
  refine ⟨htail, fun iv hiv => ⟨fun hle => ?_, fun hle => ?_⟩⟩
  · exact (List.mem_cons.1 ((hmem iv hiv).1 (by omega))).resolve_left (by omega)
  · exact (List.mem_cons.1 ((hmem iv hiv).2 (by omega))).resolve_left (by omega)

theorem Complete.elementary {intervals : List Interval}
    (h : Complete intervals a (a :: b :: rest)) : Elementary intervals a b := by
  obtain ⟨hsorted, hmem⟩ := h
  obtain ⟨hfirst, htail⟩ := List.pairwise_cons.1 hsorted
  have hab := hfirst b (by simp)
  -- an endpoint at or after `a` is `a` itself or not before `b`
  have hskip (p : ℤ) (hp : p ∈ a :: b :: rest) : p = a ∨ b ≤ p := by
    rcases List.mem_cons.1 hp with rfl | hp
    · exact Or.inl rfl
    · rcases List.mem_cons.1 hp with rfl | hp
      · exact Or.inr le_rfl
      · exact Or.inr ((List.pairwise_cons.1 htail).1 p hp).le
  refine ⟨hab, fun iv hiv => ⟨?_, ?_⟩⟩
  · by_cases hle : a ≤ iv.1
    · have := hskip _ ((hmem iv hiv).1 hle)
      omega
    · omega
  · by_cases hle : a ≤ iv.2
    · have := hskip _ ((hmem iv hiv).2 hle)
      omega
    · omega

theorem sweep_eq_scan_from {intervals : List Interval} (h : ∀ iv ∈ intervals, iv.1 < iv.2)
    (marks : List ℤ) (body : ℤ → ℤ → List ℕ → σ → Except ε σ)
    {active : OrdSet ℕ} (hc : Complete intervals a (a :: rest)) (ha : Arrived intervals a active)
    (s : σ) :
    sweep (eventsOf intervals marks) body (a :: rest) active s =
      scan (fun a b => body a b (covering intervals a)) (a :: rest) s := by
  induction rest generalizing a active s with
  | nil => rfl
  | cons b rest ih =>
    have hkeys := advance_keys h marks ha
    rw [sweep, scan, hkeys]
    cases body a b (covering intervals a) s with
    | error e => rfl
    | ok s => exact ih hc.tail (arrived_next hkeys hc.elementary) s

theorem sweep_eq_scan {intervals : List Interval} (h : ∀ iv ∈ intervals, iv.1 < iv.2)
    (marks : List ℤ) (body : ℤ → ℤ → List ℕ → σ → Except ε σ) (s : σ) :
    sweep (eventsOf intervals marks) body (eventsOf intervals marks).keys .empty s =
      scan (fun a b => body a b (covering intervals a)) (eventsOf intervals marks).keys s := by
  cases hb : (eventsOf intervals marks).keys with
  | nil => rfl
  | cons a rest =>
    have hsorted := OrdMap.keys_sorted (eventsOf intervals marks)
    rw [hb] at hsorted
    have hmem (iv : Interval) (hiv : iv ∈ intervals) : iv.1 ∈ a :: rest ∧ iv.2 ∈ a :: rest := by
      rw [← hb]
      simp only [mem_keys_eventsOf]
      exact ⟨Or.inl ⟨iv, hiv, Or.inl rfl⟩, Or.inl ⟨iv, hiv, Or.inr rfl⟩⟩
    apply sweep_eq_scan_from h marks body
    · exact ⟨hsorted, fun iv hiv => ⟨fun _ => (hmem iv hiv).1, fun _ => (hmem iv hiv).2⟩⟩
    · -- nothing starts before the first boundary
      intro i
      simp only [OrdMap.keys, OrdMap.empty, List.map_nil, List.not_mem_nil, false_iff, not_exists,
        not_and]
      intro iv hi hlt
      have hin := (hmem iv (List.mem_of_getElem? hi)).1
      rcases List.mem_cons.1 hin with heq | hin
      · omega
      · have := (List.pairwise_cons.1 hsorted).1 _ hin
        omega

theorem sweep_map {τ : Type*} (g : σ → τ) (events : Events)
    {body : ℤ → ℤ → List ℕ → σ → Except ε σ} {body' : ℤ → ℤ → List ℕ → τ → Except ε τ}
    (h : ∀ a b active s, body' a b active (g s) = (body a b active s).map g) (boundaries : List ℤ)
    (active : OrdSet ℕ) (s : σ) :
    sweep events body' boundaries active (g s) = (sweep events body boundaries active s).map g := by
  induction boundaries generalizing active s with
  | nil => rfl
  | cons a rest ih =>
    cases rest with
    | nil => rfl
    | cons b rest =>
      rw [sweep, sweep, h]
      cases body a b (advance active (eventAt events a)).keys s with
      | error e => rfl
      | ok s => exact ih _ s

/-- If every window keeps a relation of two scans, they are related at the end. -/
theorem scan_simulation {τ : Type*} {intervals : List Interval} (R : ℤ → σ → τ → Prop)
    (body : ℤ → ℤ → σ → Except ε σ) (body' : ℤ → ℤ → τ → Except ε τ)
    (hstep : ∀ a b s t, Elementary intervals a b → R a s t →
      ∃ s' t', body a b s = .ok s' ∧ body' a b t = .ok t' ∧ R b s' t') (hc : Complete intervals a (a :: rest)) {s : σ} {t : τ} (h : R a s t) :
    ∃ s' t', scan body (a :: rest) s = .ok s' ∧ scan body' (a :: rest) t = .ok t' ∧
      R ((a :: rest).getLast (by simp)) s' t' := by
  induction rest generalizing a s t with
  | nil => exact ⟨s, t, rfl, rfl, h⟩
  | cons b rest ih =>
    obtain ⟨s₁, t₁, hs, ht, h₁⟩ := hstep a b s t hc.elementary h
    obtain ⟨s', t', hs', ht', h'⟩ := ih hc.tail h₁
    exact ⟨s', t', by simp only [scan, hs, hs'], by simp only [scan, ht, ht'], h'⟩

theorem scan_invariant {intervals : List Interval} (P : ℤ → σ → Prop)
    (body : ℤ → ℤ → σ → Except ε σ)
    (hstep : ∀ a b s, Elementary intervals a b → P a s → ∃ s', body a b s = .ok s' ∧ P b s') (hc : Complete intervals a (a :: rest)) {s : σ} (h : P a s) :
    ∃ s', scan body (a :: rest) s = .ok s' ∧ P ((a :: rest).getLast (by simp)) s' := by
  have hpair : ∀ a b s t, Elementary intervals a b → (s = t ∧ P a s) →
      ∃ s' t', body a b s = .ok s' ∧ body a b t = .ok t' ∧ s' = t' ∧ P b s' := by
    rintro a b s t hgap ⟨rfl, hs⟩
    obtain ⟨s', hs', h'⟩ := hstep a b s hgap hs
    exact ⟨s', s', hs', hs', rfl, h'⟩
  obtain ⟨s', -, hs, -, -, hlast⟩ := scan_simulation _ body body hpair hc ⟨rfl, h⟩
  exact ⟨s', hs, hlast⟩

end IntervalSweep
