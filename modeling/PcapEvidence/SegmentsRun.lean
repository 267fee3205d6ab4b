import PcapEvidence.SegmentsStep

/-!
# Segmentation over whole runs

The invariant of the store is kept by every call. Between two cuts of a scope its chain only grows
towards being complete or poisoned, and out of both no push completes a message.
-/

namespace PcapEvidence.Segmentation

open Bgp History OrderedMap SortedVec

namespace Segments

inductive Call where
  | push (scope : String) (s : Segment)
  | cut (scope reason : String)
  | expire (frame maxIdleFrames : ℕ)

def apply (g : Segments) : Call → Segments
  | .push scope s => (g.push scope s).2
  | .cut scope reason => (g.cut scope reason).2
  | .expire frame maxIdleFrames => (g.expire frame maxIdleFrames).2

def after (g : Segments) (calls : List Call) : Segments := calls.foldl apply g

@[simp] theorem after_nil (g : Segments) : g.after [] = g := rfl

@[simp] theorem after_cons (g : Segments) (c : Call) (calls : List Call) :
    g.after (c :: calls) = (g.apply c).after calls := rfl

def releases (g : Segments) (scope : String) : Call → Bool
  | .push _ _ => false
  | .cut other _ => other = scope
  | .expire frame maxIdleFrames => scope ∈ g.idle frame maxIdleFrames

def Held (scope : String) : Segments → List Call → Prop
  | _, [] => True
  | g, c :: calls => g.releases scope c = false ∧ Held scope (g.apply c) calls

def pushes (scope : String) : Segments → List Call → List (Segment × Result Outcome)
  | _, [] => []
  | g, c :: calls =>
    (match c with
      | .push other s => if other = scope then [(s, (g.push other s).1)] else []
      | _ => []) ++ pushes scope (g.apply c) calls

/-- Whether the result of a push is a whole message. -/
def completes (p : Segment × Result Outcome) : Bool :=
  match p.2 with
  | .ok o => o.completed.isSome
  | .error _ => false

structure Invariant (g : Segments) : Prop where
  retained : g.retained = g.chains.total fun e => e.2.bytes
  within : g.retained ≤ g.limits.retainedBytes
  sound : ∀ e ∈ g.chains.entries, e.2.Sound

section Lookups

variable {g : Segments} {scope : String}

theorem chain_of_get? {c : Chain} (h : g.chains.get? scope = some c) : g.chain scope = c := by
  simp [chain, h]

@[simp] theorem chain_store (g : Segments) (scope other : String) (c : Chain) (total : ℕ) :
    (g.store scope c total).chain other = if other = scope then c else g.chain other := by
  simp only [chain, store, OrdMap.get?_insert]
  split_ifs with h
  · rfl
  · rfl

@[simp] theorem chain_cut (g : Segments) (scope other reason : String) :
    (g.cut scope reason).2.chain other = if other = scope then .default else g.chain other := by
  unfold cut
  cases h : g.chains.get? scope with
  | none =>
    by_cases ho : other = scope
    · subst ho
      simp [chain, h]
    · simp [ho]
  | some old =>
    simp only [chain, OrdMap.get?_erase]
    by_cases ho : other = scope
    · simp [ho]
    · simp [ho]

theorem chain_cutAll (g : Segments) (other reason : String) {scopes : List String}
    (h : other ∉ scopes) : (g.cutAll reason scopes).2.chain other = g.chain other := by
  induction scopes generalizing g with
  | nil => rfl
  | cons scope rest ih =>
    rw [List.mem_cons, not_or] at h
    simp only [cutAll]
    rw [ih _ h.2, chain_cut, if_neg h.1]

theorem chain_apply_of_other {c : Call} (hheld : g.releases scope c = false)
    (hpush : ∀ s, c ≠ .push scope s) : (g.apply c).chain scope = g.chain scope := by
  cases c with
  | push other s =>
    have hne : scope ≠ other := fun h => hpush s (by rw [h])
    have hstep := g.push_step other s
    simp only [apply]
    generalize g.push other s = r at hstep ⊢
    cases hstep with
    | conflict => simp [hne]
    | part => simp [hne]
    | _ => rfl
  | cut other reason =>
    have hne : scope ≠ other := fun h => by simp [releases, h] at hheld
    simp [apply, hne]
  | expire frame maxIdleFrames =>
    simp only [releases, decide_eq_false_iff_not] at hheld
    exact chain_cutAll g scope _ hheld

end Lookups

namespace Invariant

variable {g : Segments}
variable (h : g.Invariant)
include h

theorem chain_sound (scope : String) : (g.chain scope).Sound := by
  cases hc : g.chains.get? scope with
  | none => simpa [chain, hc] using Chain.sound_default
  | some c => simpa [chain, hc] using h.sound _ ((OrdMap.get?_eq_some_iff _ _ _).1 hc)

theorem total_eq (scope : String) :
    g.retained = (g.chain scope).bytes + (g.chains.erase scope).total fun e => e.2.bytes := by
  cases hc : g.chains.get? scope with
  | none => simpa [chain, hc, OrdMap.erase_eq_self hc] using h.retained
  | some c =>
    rw [h.retained, OrdMap.total_of_get? _ hc]
    simp [chain, hc]

theorem bytes_le (scope : String) : (g.chain scope).bytes ≤ g.retained := by
  have := h.total_eq scope
  omega

theorem store {scope : String} {c : Chain} {k : ℕ}
    (hbytes : c.bytes = (g.chain scope).bytes + k) (hsound : c.Sound)
    (hroom : g.retained + k ≤ g.limits.retainedBytes) :
    (g.store scope c (g.retained + k)).Invariant where
  retained := by
    have htotal := h.total_eq scope
    simp only [Segments.store, OrdMap.total_insert]
    omega
  within := hroom
  sound := by
    intro e he
    rcases (OrdMap.mem_insert _ _ _ _).1 he with rfl | he
    · exact hsound
    · exact h.sound e he.1

theorem cut (scope reason : String) : (g.cut scope reason).2.Invariant := by
  unfold Segments.cut
  cases hc : g.chains.get? scope with
  | none => exact h
  | some old =>
    have htotal := h.total_eq scope
    rw [chain_of_get? hc] at htotal
    refine ⟨by simp only []; omega, le_trans (Nat.sub_le _ _) h.within, fun e he => ?_⟩
    exact h.sound e ((OrdMap.mem_erase _ _ _).1 he).1

theorem cutAll (reason : String) (scopes : List String) : (g.cutAll reason scopes).2.Invariant := by
  induction scopes generalizing g with
  | nil => exact h
  | cons scope rest ih => exact ih (h.cut scope reason)

theorem push (scope : String) (s : Segment) : (g.push scope s).2.Invariant := by
  have hsound := h.chain_sound scope
  have hstep := g.push_step scope s
  generalize g.push scope s = r at hstep ⊢
  cases hstep with
  | conflict clean there other completed room =>
    exact h.store (Chain.bytes_contradict _ _) (hsound.contradict s) room
  | part clean new valid completion room =>
    exact h.store (Chain.bytes_accept new) (hsound.accept valid) room
  | _ => exact h

theorem apply (c : Call) : (g.apply c).Invariant := by
  cases c with
  | push scope s => exact h.push scope s
  | cut scope reason => exact h.cut scope reason
  | expire frame maxIdleFrames => exact h.cutAll _ _

theorem after (calls : List Call) : (g.after calls).Invariant := by
  induction calls generalizing g with
  | nil => exact h
  | cons c calls ih => exact ih (h.apply c)

omit h

end Invariant

theorem new_ok {limits : Bgp.Limits} {g : Segments} (h : new limits = .ok g) :
    g = ⟨limits, .empty, 0⟩ := by
  obtain ⟨-, -, hg⟩ := bind_eq_ok.1 h
  exact (Except.ok.inj hg).symm

theorem invariant_new {limits : Bgp.Limits} {g : Segments} (h : new limits = .ok g) :
    g.Invariant := by
  rw [new_ok h]
  exact ⟨rfl, Nat.zero_le _, by simp [OrdMap.empty]⟩

section Once

variable {g : Segments} {scope : String}

theorem push_error_unchanged {s : Segment} {e : Error} (h : (g.push scope s).1 = .error e) :
    (g.push scope s).2 = g := by
  have hstep := g.push_step scope s
  generalize g.push scope s = r at hstep h ⊢
  revert h
  cases hstep with
  | conflict => exact fun h => nomatch h
  | part => exact fun h => nomatch h
  | _ => exact fun _ => rfl

theorem poisoned_push (h : (g.chain scope).poisoned = true) (s : Segment) :
    (g.push scope s).2 = g := by
  have hstep := g.push_step scope s
  generalize g.push scope s = r at hstep ⊢
  cases hstep with
  | conflict clean => simp [h] at clean
  | part clean => simp [h] at clean
  | _ => rfl

theorem poisoned_apply {c : Call} (h : (g.chain scope).poisoned = true)
    (hheld : g.releases scope c = false) : ((g.apply c).chain scope).poisoned = true := by
  by_cases hpush : ∃ s, c = .push scope s
  · obtain ⟨s, rfl⟩ := hpush
    simpa only [apply, poisoned_push h s] using h
  · rw [chain_apply_of_other hheld (by simpa using hpush)]
    exact h

theorem poisoned_after {calls : List Call} (h : (g.chain scope).poisoned = true)
    (hheld : Held scope g calls) : ((g.after calls).chain scope).poisoned = true := by
  induction calls generalizing g with
  | nil => exact h
  | cons c calls ih => exact ih (poisoned_apply h hheld.1) hheld.2

/-- A chain out of which no push completes a message. -/
def Spent (c : Chain) : Prop := c.poisoned = true ∨ c.counted = true

theorem push_spent (hinv : g.Invariant) (s : Segment) :
    (completes (s, (g.push scope s).1) = true → ¬ Spent (g.chain scope) ∧
      Spent ((g.push scope s).2.chain scope)) ∧
    (Spent (g.chain scope) → Spent ((g.push scope s).2.chain scope)) := by
  have hsound := hinv.chain_sound scope
  have hstep := g.push_step scope s
  generalize g.push scope s = r at hstep ⊢
  cases hstep with
  | budget => exact ⟨by simp [completes], id⟩
  | misplaced => exact ⟨by simp [completes], id⟩
  | refused => exact ⟨by simp [completes], id⟩
  | quarantined poisoned completed => exact ⟨by simp [completes, completed], id⟩
  | duplicate clean there same completed => exact ⟨by simp [completes, completed], id⟩
  | conflict clean there other completed =>
    refine ⟨by simp [completes, completed], fun _ => ?_⟩
    simp [Spent, Chain.contradict]
  | part clean new valid completion room =>
    have hspent (h : Spent (g.chain scope)) :
        ((g.chain scope).accept s).poisoned = true := by
      rcases h with h | h
      · simp [clean] at h
      · exact hsound.poisoned_accept clean h new
    simp only [chain_store, if_true]
    refine ⟨fun hdone => ?_, fun h => Or.inl (hspent h)⟩
    unfold Segmentation.Segments.completion at completion
    split_ifs at completion with hp hc
    · simp only [Except.ok.injEq, Prod.mk.injEq] at completion
      simp [completes, ← completion.2.2] at hdone
    · exact ⟨fun h => hp (hspent h), Or.inr hc⟩
    · simp only [Except.ok.injEq, Prod.mk.injEq] at completion
      simp [completes, ← completion.2.2] at hdone

theorem pushes_of_other {c : Call} (hpush : ∀ s, c ≠ .push scope s) (calls : List Call) :
    g.pushes scope (c :: calls) = (g.apply c).pushes scope calls := by
  cases c with
  | push other s =>
    have hne : other ≠ scope := fun h => hpush s (by rw [h])
    simp [pushes, hne]
  | cut other reason => rfl
  | expire frame maxIdleFrames => rfl

theorem pushes_spent {calls : List Call} (hinv : g.Invariant) (hheld : Held scope g calls) :
    ((g.pushes scope calls).countP completes ≤ 1) ∧
      (Spent (g.chain scope) → (g.pushes scope calls).countP completes = 0) := by
  induction calls generalizing g with
  | nil => simp [pushes]
  | cons c calls ih =>
    obtain ⟨hle, hzero⟩ := ih (hinv.apply c) hheld.2
    by_cases hpush : ∃ s, c = .push scope s
    · obtain ⟨s, rfl⟩ := hpush
      obtain ⟨hdone, hkeep⟩ : (completes (s, (g.push scope s).1) = true →
            ¬ Spent (g.chain scope) ∧ Spent ((g.push scope s).2.chain scope)) ∧
          (Spent (g.chain scope) → Spent ((g.push scope s).2.chain scope)) :=
        push_spent hinv s
      simp only [apply] at hle hzero
      simp only [pushes, if_true, apply, List.singleton_append, List.countP_cons]
      cases hcomp : completes (s, (g.push scope s).1) with
      | true =>
        obtain ⟨hnot, hspent⟩ := hdone hcomp
        exact ⟨by simp [hzero hspent], fun h => absurd h hnot⟩
      | false => exact ⟨by simpa using hle, fun h => by simpa using hzero (hkeep h)⟩
    · have hother : ∀ s, c ≠ .push scope s := by simpa using hpush
      rw [pushes_of_other hother, ← chain_apply_of_other hheld.1 hother]
      exact ⟨hle, hzero⟩

end Once

section AnyOrder

/-- A segment that is the part of a message under its number. -/
structure CopyOf (n : ℕ) (content : ℕ → List U8) (s : Segment) : Prop where
  ordinal : s.ordinal ≤ n
  first : s.first = decide (s.ordinal = 0)
  final : s.finalSegment = decide (s.ordinal = n)
  data : s.bytes.data = content s.ordinal

/-- The number is the last one of `0 .. n` that was missing. -/
def LastMissing (n : ℕ) (seen : List ℕ) (k : ℕ) : Prop :=
  k ∉ seen ∧ ∀ i ≤ n, i ∈ seen ∨ i = k

structure Filled (n : ℕ) (content : ℕ → List U8) (seen : List ℕ) (c : Chain) : Prop where
  clean : c.poisoned = false
  keys : ∀ k, k ∈ c.parts.keys ↔ k ∈ seen
  parts : ∀ p ∈ c.parts.entries, p.2.ordinal = p.1 ∧ CopyOf n content p.2
  first : c.first = decide (0 ∈ seen)
  last : c.last = if n ∈ seen then some n else none

variable {n : ℕ} {content : ℕ → List U8} {seen : List ℕ} {c : Chain} {s : Segment}

theorem filled_default (n : ℕ) (content : ℕ → List U8) : Filled n content [] .default where
  clean := rfl
  keys := by simp [Chain.default, OrdMap.keys, OrdMap.empty]
  parts := by simp [Chain.default, OrdMap.empty]
  first := rfl
  last := rfl

namespace Filled
variable (h : Filled n content seen c)
include h

theorem key_le {k : ℕ} (hk : k ∈ c.parts.keys) : k ≤ n := by
  obtain ⟨v, hv⟩ := (OrdMap.mem_keys _ _).1 hk
  obtain ⟨ho, hcopy⟩ := h.parts _ ((OrdMap.get?_eq_some_iff _ _ _).1 hv)
  have hle := hcopy.ordinal
  rwa [ho] at hle

theorem of_seen {more : List ℕ} (hseen : ∀ k, k ∈ seen ↔ k ∈ more) :
    Filled n content more c where
  clean := h.clean
  keys := fun k => (h.keys k).trans (hseen k)
  parts := h.parts
  first := by rw [h.first, decide_eq_decide]; exact hseen 0
  last := by rw [h.last]; simp only [hseen n]

/-- A part under a new number neither stands behind the last one nor moves it. -/
theorem accept (hs : CopyOf n content s) : Filled n content (seen ++ [s.ordinal]) (c.accept s) := by
  have hlast : (if s.finalSegment then some s.ordinal else c.last) =
      if n ∈ seen ++ [s.ordinal] then some n else none := by
    by_cases hn : s.ordinal = n
    · simp [hs.final, hn]
    · have hn' : n ≠ s.ordinal := fun h => hn h.symm
      simp [hs.final, hn, hn', h.last]
  have hbehind (k : ℕ) (hk : k ≤ n) :
      Chain.behindLast (if n ∈ seen ++ [s.ordinal] then some n else none) k = false := by
    unfold Chain.behindLast
    split_ifs
    · simpa using hk
    · rfl
  have hother : (s.finalSegment && c.last.any fun l => l ≠ s.ordinal) = false := by
    by_cases hn : s.ordinal = n
    · by_cases hseen : n ∈ seen
      · simp [h.last, hseen, hn]
      · simp [h.last, hseen]
    · simp [hs.final, hn]
  refine ⟨?_, fun k => ?_, ?_, ?_, hlast⟩
  · simp only [Chain.accept, h.clean, hother, hlast, hbehind _ hs.ordinal, Bool.false_or,
      List.any_eq_false]
    intro k hk
    rw [hbehind k (h.key_le hk)]
    simp
  · simp only [Chain.accept, mem_keys_insert, h.keys k, List.mem_append, List.mem_singleton]
    exact or_comm
  · intro p hp
    rcases (OrdMap.mem_insert _ _ _ _).1 hp with rfl | hp
    · exact ⟨rfl, hs⟩
    · exact h.parts p hp.1
  · have hzero : (0 = s.ordinal) = (s.ordinal = 0) := propext eq_comm
    simp [Chain.accept, h.first, hs.first, hzero]

theorem keys_of_all (hall : ∀ i ≤ n, i ∈ seen) : c.parts.keys = List.range (n + 1) := by
  refine eq_of_sorted_of_mem_iff c.parts.keys_sorted List.pairwise_lt_range fun k => ?_
  rw [List.mem_range, Nat.lt_succ_iff]
  exact ⟨h.key_le, fun hk => (h.keys k).2 (hall k hk)⟩

theorem counted_iff : c.counted = true ↔ ∀ i ≤ n, i ∈ seen := by
  constructor
  · intro hc i hi
    simp only [Chain.counted, Bool.and_eq_true, h.last, Option.any_eq_true,
      decide_eq_true_eq] at hc
    obtain ⟨-, l, hl, hsize⟩ := hc
    have hln : l = n := by
      split_ifs at hl
      exact (Option.some.inj hl).symm
    have hkeys := keys_eq_range (n := n + 1) (fun k hk => Nat.lt_succ_of_le (h.key_le hk))
      (by omega)
    rw [← h.keys i, hkeys, List.mem_range]
    omega
  · intro hall
    have hsize : c.parts.size = n + 1 := by rw [← length_keys, h.keys_of_all hall, List.length_range]
    simp [Chain.counted, h.first, h.last, hall n le_rfl, hall 0 (Nat.zero_le n), hsize]

theorem assemble (hsound : c.Sound) (hall : ∀ i ≤ n, i ∈ seen) (limits : Bgp.Limits) :
    (∃ e, Segmentation.assemble limits c.parts.entries 0 .empty = .error e ∧
      e.code = .limitExceeded) ∨
    ∃ b, Segmentation.assemble limits c.parts.entries 0 .empty = .ok b ∧
      b.data = (List.range (n + 1)).flatMap content := by
  have hkeys := h.keys_of_all hall
  have hrange : c.parts.entries.map Prod.fst = List.range' 0 c.parts.entries.length := by
    have hlen : c.parts.entries.length = n + 1 := by
      rw [← List.length_map Prod.fst]
      exact (congrArg List.length hkeys).trans List.length_range
    rw [hlen, ← List.range_eq_range']
    exact hkeys
  have hassemble : (∃ e, Segmentation.assemble limits c.parts.entries 0 .empty = .error e ∧
        e.code = .limitExceeded) ∨
      ∃ out, Segmentation.assemble limits c.parts.entries 0 .empty = .ok out ∧ out.Valid ∧
        out.data = EvidenceBytes.empty.data ++ c.parts.entries.flatMap fun p => p.2.bytes.data :=
    assemble_spec hrange hsound.valid EvidenceBytes.valid_empty
  rcases hassemble with hlimit | ⟨b, hb, -, hdata⟩
  · exact Or.inl hlimit
  · refine Or.inr ⟨b, hb, ?_⟩
    have hcontent : (c.parts.entries.flatMap fun p => p.2.bytes.data) =
        c.parts.keys.flatMap content := by
      rw [OrdMap.keys, List.flatMap_map]
      refine List.flatMap_congr fun p hp => ?_
      obtain ⟨ho, hcopy⟩ := h.parts p hp
      rw [hcopy.data, ho]
    rw [hdata, hcontent, hkeys]
    rfl

omit h

end Filled

def Answers (n : ℕ) (content : ℕ → List U8) (seen : List ℕ) (p : Segment × Result Outcome) : Prop :=
  ∃ o, p.2 = .ok o ∧
    (LastMissing n seen p.1.ordinal →
      ∃ b, o.completed = some b ∧ b.data = (List.range (n + 1)).flatMap content) ∧
    (¬ LastMissing n seen p.1.ordinal → o.completed = none)

variable {g : Segments} {scope : String}

theorem filled_push (hinv : g.Invariant) (h : Filled n content seen (g.chain scope))
    (hs : CopyOf n content s)
    (hlimit : ∀ e, (g.push scope s).1 = .error e → e.code ≠ .limitExceeded) :
    Answers n content seen (s, (g.push scope s).1) ∧
      Filled n content (seen ++ [s.ordinal]) ((g.push scope s).2.chain scope) := by
  have hsound := hinv.chain_sound scope
  have hstep := g.push_step scope s
  generalize g.push scope s = r at hstep hlimit ⊢
  cases hstep with
  | budget limit => exact absurd limit (hlimit _ rfl)
  | misplaced first ordinal => simp [hs.first, ordinal] at first
  | quarantined poisoned => simp [h.clean] at poisoned
  | duplicate clean there same completed =>
    have hmem : s.ordinal ∈ seen :=
      (h.keys _).1 ((OrdMap.mem_keys _ _).2 ⟨_, there⟩)
    refine ⟨⟨_, rfl, fun hlast => absurd hmem hlast.1, fun _ => completed⟩, h.of_seen ?_⟩
    intro k
    rw [List.mem_append, List.mem_singleton]
    exact ⟨Or.inl, fun hk => hk.elim id fun hk => hk ▸ hmem⟩
  | conflict clean there other =>
    obtain ⟨ho, hcopy⟩ := h.parts _ ((OrdMap.get?_eq_some_iff _ _ _).1 there)
    have hsame : ∀ old : Segment, old.ordinal = s.ordinal → CopyOf n content old →
        sameSegment old s = true := by
      intro old ho hold
      simp [sameSegment, hold.data, hs.data, hold.first, hs.first, hold.final, hs.final, ho]
    simp [hsame _ ho hcopy] at other
  | refused clean new valid completion =>
    have haccept := h.accept hs
    have hclean := haccept.clean
    unfold Segmentation.Segments.completion at completion
    rw [hclean, if_neg (by simp)] at completion
    split_ifs at completion with hcounted
    rcases haccept.assemble (hsound.accept valid) (haccept.counted_iff.1 hcounted) g.limits with
      ⟨e, he, hcode⟩ | ⟨b, hb, -⟩
    · simp only [he, Except.error.injEq] at completion
      exact absurd (completion ▸ hcode) (hlimit _ rfl)
    · simp [hb] at completion
  | part clean new valid completion room =>
    have haccept := h.accept hs
    have hclean := haccept.clean
    have hnew : s.ordinal ∉ seen := by
      intro hmem
      obtain ⟨v, hv⟩ := (OrdMap.mem_keys _ _).1 ((h.keys _).2 hmem)
      simp [new] at hv
    have hlast : LastMissing n seen s.ordinal ↔ ((g.chain scope).accept s).counted = true := by
      rw [haccept.counted_iff]
      simp [LastMissing, hnew]
    refine ⟨⟨_, rfl, ?_⟩, by simpa using haccept⟩
    rw [hlast]
    unfold Segmentation.Segments.completion at completion
    rw [hclean, if_neg (by simp)] at completion
    split_ifs at completion with hcounted
    · refine ⟨fun _ => ?_, fun hn => absurd hcounted hn⟩
      rcases haccept.assemble (hsound.accept valid) (haccept.counted_iff.1 hcounted) g.limits
        with ⟨e, he, -⟩ | ⟨b, hb, hdata⟩
      · simp [he] at completion
      · simp only [hb, Except.ok.injEq, Prod.mk.injEq] at completion
        exact ⟨b, completion.2.2.symm, hdata⟩
    · simp only [Except.ok.injEq, Prod.mk.injEq] at completion
      exact ⟨fun h => absurd h hcounted, fun _ => completion.2.2.symm⟩

theorem filled_pushes {calls : List Call} (hinv : g.Invariant)
    (h : Filled n content seen (g.chain scope)) (hheld : Held scope g calls)
    (hcopies : ∀ p ∈ g.pushes scope calls, CopyOf n content p.1 ∧
      ∀ e, p.2 = .error e → e.code ≠ .limitExceeded)
    {before later : List (Segment × Result Outcome)} {p : Segment × Result Outcome}
    (hsplit : g.pushes scope calls = before ++ p :: later) :
    Answers n content (seen ++ before.map fun q => q.1.ordinal) p := by
  induction calls generalizing g seen before with
  | nil => simp [pushes] at hsplit
  | cons c calls ih =>
    by_cases hpush : ∃ s, c = .push scope s
    · obtain ⟨s, rfl⟩ := hpush
      have hcons : g.pushes scope (.push scope s :: calls) =
          (s, (g.push scope s).1) :: (g.push scope s).2.pushes scope calls := by
        simp [pushes, apply]
      rw [hcons] at hsplit hcopies
      obtain ⟨hs, hlimit⟩ := hcopies _ List.mem_cons_self
      obtain ⟨hanswer, hfilled⟩ := filled_push hinv h hs hlimit
      cases before with
      | nil =>
        obtain ⟨rfl, -⟩ := List.cons.inj hsplit
        simpa using hanswer
      | cons q before =>
        obtain ⟨rfl, hrest⟩ := List.cons.inj hsplit
        have := ih (hinv.push scope s) hfilled hheld.2
          (fun r hr => hcopies r (List.mem_cons_of_mem _ hr)) hrest
        simpa using this
    · have hother : ∀ s, c ≠ .push scope s := by simpa using hpush
      rw [pushes_of_other hother] at hsplit hcopies
      refine ih (hinv.apply c) ?_ hheld.2 hcopies hsplit
      rwa [chain_apply_of_other hheld.1 hother]

/-- A list with every number up to `n` brings the last missing one somewhere. -/
theorem exists_lastMissing {l : List ℕ} (hall : ∀ i ≤ n, i ∈ l) :
    ∃ before k later, l = before ++ k :: later ∧ LastMissing n before k := by
  induction l using List.reverseRecOn with
  | nil => exact absurd (hall 0 (Nat.zero_le n)) (by simp)
  | append_singleton init k ih =>
    by_cases hinit : ∀ i ≤ n, i ∈ init
    · obtain ⟨before, k', later, rfl, hlast⟩ := ih hinit
      exact ⟨before, k', later ++ [k], by simp, hlast⟩
    · have hmem (i : ℕ) (hi : i ≤ n) : i ∈ init ∨ i = k := by simpa using hall i hi
      refine ⟨init, k, [], rfl, fun hk => hinit fun i hi => ?_, hmem⟩
      exact (hmem i hi).elim id fun h => h ▸ hk

end AnyOrder

theorem limits_apply (g : Segments) (c : Call) : (g.apply c).limits = g.limits := by
  have hcut (g : Segments) (scope reason : String) :
      (g.cut scope reason).2.limits = g.limits := by
    unfold cut
    cases g.chains.get? scope with
    | none => rfl
    | some old => rfl
  cases c with
  | push scope s =>
    have hstep := g.push_step scope s
    simp only [apply]
    generalize g.push scope s = r at hstep ⊢
    cases hstep <;> rfl
  | cut scope reason => exact hcut g scope reason
  | expire frame maxIdleFrames =>
    simp only [apply, expire]
    generalize g.idle frame maxIdleFrames = scopes
    induction scopes generalizing g with
    | nil => rfl
    | cons scope rest ih => exact (ih _).trans (hcut g scope _)

theorem limits_after (g : Segments) (calls : List Call) : (g.after calls).limits = g.limits := by
  induction calls generalizing g with
  | nil => rfl
  | cons c calls ih => exact (ih _).trans (limits_apply g c)

/-- The account is exact, a poisoned scope stays so until it is cut, a scope completes at most one
message between two cuts, and the parts of a message in any order complete it. -/
theorem segments_exact {limits : Bgp.Limits} {start : Segments} (hnew : new limits = .ok start)
    (calls : List Call) :
    let g := start.after calls
    (g.retained = (g.chains.total fun e => e.2.bytes) ∧ g.retained ≤ limits.retainedBytes ∧
      ∀ scope c, g.chains.get? scope = some c → c.bytes ≤ g.retained) ∧
    (∀ scope s e, (g.push scope s).1 = .error e → (g.push scope s).2 = g) ∧
    ∀ scope more, Held scope g more →
      ((g.chain scope).poisoned = true → ((g.after more).chain scope).poisoned = true) ∧
      (g.pushes scope more).countP completes ≤ 1 ∧
      ∀ (n : ℕ) (content : ℕ → List U8), g.chains.get? scope = none →
        (∀ p ∈ g.pushes scope more, CopyOf n content p.1 ∧
          ∀ e, p.2 = .error e → e.code ≠ .limitExceeded) →
        (∀ before p later, g.pushes scope more = before ++ p :: later →
          Answers n content (before.map fun q => q.1.ordinal) p) ∧
        ((∀ i ≤ n, ∃ p ∈ g.pushes scope more, p.1.ordinal = i) →
          ∃ p ∈ g.pushes scope more, completes p = true) := by
  intro g
  have hinv : g.Invariant := (invariant_new hnew).after calls
  have hlimits : g.limits = limits := by rw [limits_after, new_ok hnew]
  refine ⟨⟨hinv.retained, hlimits ▸ hinv.within, fun scope c hc => ?_⟩,
    fun scope s e he => push_error_unchanged he, fun scope more hheld => ?_⟩
  · have hle := hinv.bytes_le scope
    rwa [chain_of_get? hc] at hle
  refine ⟨fun hp => poisoned_after hp hheld, (pushes_spent hinv hheld).1, ?_⟩
  intro n content hnone hcopies
  have hfilled : Filled n content [] (g.chain scope) := by
    simpa [chain, hnone] using filled_default n content
  have hanswers {before later : List (Segment × Result Outcome)} {p : Segment × Result Outcome}
      (hsplit : g.pushes scope more = before ++ p :: later) :
      Answers n content (before.map fun q => q.1.ordinal) p := by
    simpa using filled_pushes hinv hfilled hheld hcopies hsplit
  refine ⟨fun before p later hsplit => hanswers hsplit, fun hall => ?_⟩
  obtain ⟨before, k, later, hl, hlast⟩ :=
    exists_lastMissing (l := (g.pushes scope more).map fun q => q.1.ordinal) (n := n)
      (fun i hi => by simpa using hall i hi)
  obtain ⟨before', rest, hsplit, rfl, hrest⟩ := List.map_eq_append_iff.1 hl
  obtain ⟨p, later', rfl, rfl, -⟩ := List.map_eq_cons_iff.1 hrest
  obtain ⟨o, ho, hdone, -⟩ := hanswers hsplit
  obtain ⟨b, hb, -⟩ := hdone hlast
  exact ⟨p, by simp [hsplit], by simp [completes, ho, hb]⟩

def sampleSegment (ordinal : ℕ) (byte : U8) : Segment where
  ordinal := ordinal
  first := ordinal = 0
  finalSegment := ordinal = 1
  bytes := .fromPacket [byte] ⟨Vector.replicate 32 0, 1, 0⟩ 0
  frame := 1

def sampleStart : Segments := ⟨Bgp.Limits.default, .empty, 0⟩

/-- The last part, a copy of it and then the first part. -/
def sampleCalls : List Call :=
  [.push "tsdu" (sampleSegment 1 20), .push "tsdu" (sampleSegment 1 20),
    .push "tsdu" (sampleSegment 0 10)]

def sampleContent (i : ℕ) : List U8 := if i = 0 then [10] else [20]

theorem copy_sampleSegment {i : ℕ} (h : i ≤ 1) (b : U8) (hb : [b] = sampleContent i) :
    CopyOf 1 sampleContent (sampleSegment i b) := ⟨h, rfl, rfl, hb⟩

theorem sampleCalls_ok : (sampleStart.pushes "tsdu" sampleCalls).all (fun p => p.2.isOk) = true := by
  decide +kernel

theorem sampleCalls_copies : ∀ p ∈ sampleStart.pushes "tsdu" sampleCalls,
    CopyOf 1 sampleContent p.1 ∧ ∀ e, p.2 = .error e → e.code ≠ .limitExceeded := by
  intro p hp
  refine ⟨?_, fun e he => ?_⟩
  · have hsegments : (sampleStart.pushes "tsdu" sampleCalls).map Prod.fst =
        [sampleSegment 1 20, sampleSegment 1 20, sampleSegment 0 10] := rfl
    have hmem : p.1 ∈ (sampleStart.pushes "tsdu" sampleCalls).map Prod.fst :=
      List.mem_map_of_mem hp
    simp only [hsegments, List.mem_cons, List.not_mem_nil, or_false] at hmem
    rcases hmem with h | h | h <;> rw [h] <;> exact copy_sampleSegment (by decide) _ rfl
  · have hok := List.all_eq_true.1 sampleCalls_ok p hp
    simp [he, Except.isOk, Except.toBool] at hok

theorem segments_exact_reversed : ∃ p ∈ sampleStart.pushes "tsdu" sampleCalls, ∃ o b,
    p.2 = .ok o ∧ o.completed = some b ∧ b.data = [10, 20] := by
  have hnew : new Bgp.Limits.default = .ok sampleStart := rfl
  obtain ⟨-, -, hruns⟩ := segments_exact hnew []
  obtain ⟨-, -, hmessage⟩ := hruns "tsdu" sampleCalls ⟨rfl, rfl, rfl, trivial⟩
  obtain ⟨hanswers, -⟩ := hmessage 1 sampleContent rfl sampleCalls_copies
  obtain ⟨o, ho, hdone, -⟩ := hanswers [_, _] _ [] rfl
  obtain ⟨b, hb, hdata⟩ := hdone ⟨by decide, by decide⟩
  exact ⟨_, by simp [sampleCalls, pushes], o, b, ho, hb, hdata⟩

end Segments
end PcapEvidence.Segmentation
