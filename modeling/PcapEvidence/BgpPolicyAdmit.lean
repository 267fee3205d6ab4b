import PcapEvidence.BgpPolicyRender
import PcapEvidence.BgpPolicyWinner

/-!
# What an evaluation admits

The candidates are kept by their identifiers, so their order in the list does not matter. A part of the
candidates takes no more octets and no more work than all of them, at every budget of the evaluation.
-/

namespace PcapEvidence.Bgp.Policy

open Json OrderedMap History
open State (Net)

section Order

variable {net : Net} {limits : Limits} {l : List PolicyCandidate} {m : OrdMap String PolicyCandidate}
  {c d : PolicyCandidate}

theorem order_from {m' : OrdMap String PolicyCandidate} : order net limits l m = .ok m' ↔
    (∀ c ∈ l, checkCandidate net limits c = .ok ()) ∧ Distinct l ∧ (∀ c ∈ l, m.get? c.id = none) ∧
      m' = l.foldl (fun m c => m.insert c.id c) m := by
  induction l generalizing m with
  | nil =>
    rw [order]
    constructor
    · intro h
      obtain rfl := Except.ok.inj h
      exact ⟨List.forall_mem_nil _, List.nodup_nil, List.forall_mem_nil _, rfl⟩
    · rintro ⟨_, _, _, rfl⟩
      rfl
  | cons c rest ih =>
    rw [order, bind_eq_ok, distinct_cons, List.forall_mem_cons, List.forall_mem_cons, List.foldl_cons]
    constructor
    · rintro ⟨_, hcheck, h⟩
      obtain ⟨hfresh, h⟩ := guard_eq_ok.1 h
      obtain ⟨hchecks, hdistinct, habsent, rfl⟩ := ih.1 h
      have hids : ∀ d ∈ rest, d.id ≠ c.id := by
        intro d hd heq
        have := habsent d hd
        rw [heq, OrdMap.get?_insert_self] at this
        cases this
      refine ⟨⟨hcheck, hchecks⟩, ⟨hids, hdistinct⟩, ⟨by simpa using hfresh, fun d hd => ?_⟩, rfl⟩
      have := habsent d hd
      rwa [OrdMap.get?_insert_of_ne _ _ (hids d hd)] at this
    · rintro ⟨⟨hcheck, hchecks⟩, ⟨hids, hdistinct⟩, ⟨hfresh, habsent⟩, rfl⟩
      refine ⟨(), hcheck, guard_eq_ok.2 ⟨by simp [hfresh], ih.2 ⟨hchecks, hdistinct, ?_, rfl⟩⟩⟩
      intro d hd
      rw [OrdMap.get?_insert_of_ne _ _ (hids d hd)]
      exact habsent d hd

def Ordered (l : List PolicyCandidate) (m : OrdMap String PolicyCandidate) : Prop :=
  ∀ k c, m.get? k = some c ↔ c ∈ l ∧ c.id = k

theorem get?_foldl_insert (hdistinct : Distinct l) (k : String) :
    (l.foldl (fun m c => m.insert c.id c) m).get? k = (l.find? (·.id = k)).or (m.get? k) := by
  induction l generalizing m with
  | nil => rfl
  | cons c rest ih =>
    obtain ⟨hids, hrest⟩ := distinct_cons.1 hdistinct
    rw [List.foldl_cons, ih hrest, List.find?_cons, OrdMap.get?_insert]
    by_cases hk : c.id = k
    · have hnone : rest.find? (·.id = k) = none := by
        rw [List.find?_eq_none]
        intro d hd
        simpa [← hk] using hids d hd
      simp [hk, hnone]
    · simp [hk, Ne.symm hk]

theorem find?_id (hdistinct : Distinct l) {k : String} :
    l.find? (·.id = k) = some c ↔ c ∈ l ∧ c.id = k := by
  constructor
  · intro hfind
    exact ⟨List.mem_of_find?_eq_some hfind, by simpa using List.find?_some hfind⟩
  · rintro ⟨hc, rfl⟩
    cases hfind : l.find? (·.id = c.id) with
    | none =>
      have := List.find?_eq_none.1 hfind c hc
      simp at this
    | some d =>
      have hid : d.id = c.id := by simpa using List.find?_some hfind
      rw [eq_of_id hdistinct (List.mem_of_find?_eq_some hfind) hc hid]

theorem order_eq_ok : order net limits l .empty = .ok m ↔
    (∀ c ∈ l, checkCandidate net limits c = .ok ()) ∧ Distinct l ∧ Ordered l m := by
  rw [order_from]
  constructor
  · rintro ⟨hchecks, hdistinct, _, rfl⟩
    refine ⟨hchecks, hdistinct, fun k c => ?_⟩
    rw [get?_foldl_insert hdistinct, OrdMap.get?_empty, Option.or_none]
    exact find?_id hdistinct
  · rintro ⟨hchecks, hdistinct, hordered⟩
    refine ⟨hchecks, hdistinct, fun _ _ => rfl, OrdMap.ext_get? fun k => ?_⟩
    rw [get?_foldl_insert hdistinct, OrdMap.get?_empty, Option.or_none]
    apply Option.ext
    intro c
    rw [hordered k c, find?_id hdistinct]

theorem order_perm {l' : List PolicyCandidate} (h : l'.Perm l)
    (hok : order net limits l .empty = .ok m) : order net limits l' .empty = .ok m := by
  obtain ⟨hchecks, hdistinct, hordered⟩ := order_eq_ok.1 hok
  refine order_eq_ok.2 ⟨fun c hc => hchecks c (h.mem_iff.1 hc),
    (h.map PolicyCandidate.id).nodup_iff.2 hdistinct, fun k c => ?_⟩
  rw [hordered k c, h.mem_iff]

theorem Ordered.mem_values (h : Ordered l m) : c ∈ m.values ↔ c ∈ l := by
  unfold OrdMap.values
  rw [List.mem_map]
  constructor
  · rintro ⟨⟨k, c⟩, hmem, rfl⟩
    exact ((h k c).1 ((OrdMap.get?_eq_some_iff m k c).2 hmem)).1
  · intro hc
    exact ⟨(c.id, c), (OrdMap.get?_eq_some_iff m c.id c).1 ((h c.id c).2 ⟨hc, rfl⟩), rfl⟩

theorem Ordered.key_eq (h : Ordered l m) {e : String × PolicyCandidate} (he : e ∈ m.entries) :
    e.1 = e.2.id := ((h e.1 e.2).1 ((OrdMap.get?_eq_some_iff m e.1 e.2).2 he)).2.symm

theorem Ordered.distinct (h : Ordered l m) : Distinct m.values := by
  have hids : m.values.map PolicyCandidate.id = m.keys := by
    unfold OrdMap.values OrdMap.keys
    rw [List.map_map]
    apply List.map_congr_left
    intro e he
    exact (h.key_eq he).symm
  unfold Distinct
  rw [hids]
  exact m.keys_sorted.imp ne_of_lt

def without (d : PolicyCandidate) (l : List PolicyCandidate) : List PolicyCandidate :=
  l.filter (·.id ≠ d.id)

theorem erase_eq_without (hdistinct : Distinct l) (hd : d ∈ l) : l.erase d = without d l := by
  rw [(List.Nodup.of_map _ hdistinct).erase_eq_filter d]
  apply List.filter_congr
  intro c hc
  by_cases hid : c.id = d.id
  · rw [eq_of_id hdistinct hc hd hid]
    simp
  · have hne : c ≠ d := fun h => hid (congrArg PolicyCandidate.id h)
    simp [hid, hne]

theorem without_of_inactive (hdistinct : Distinct l) (hd : d ∈ l) (hactive : d.status = .active) :
    (without d l).filter (·.status ≠ .active) = l.filter (·.status ≠ .active) := by
  unfold without
  rw [List.filter_filter]
  apply List.filter_congr
  intro c hc
  by_cases hstatus : c.status = .active
  · simp [hstatus]
  · have hid : c.id ≠ d.id := fun heq => hstatus (eq_of_id hdistinct hc hd heq ▸ hactive)
    simp [hstatus, hid]

theorem activeOf_without : activeOf (without d l) = without d (activeOf l) :=
  List.filter_comm _ _ l

theorem order_without (hok : order net limits l .empty = .ok m) (hd : d ∈ l) :
    ∃ m', order net limits (l.erase d) .empty = .ok m' ∧ m'.values = without d m.values := by
  obtain ⟨hchecks, hdistinct, hordered⟩ := order_eq_ok.1 hok
  have hsub : (without d l).Sublist l := List.filter_sublist
  refine ⟨m.erase d.id, ?_, ?_⟩
  · rw [erase_eq_without hdistinct hd]
    refine order_eq_ok.2 ⟨fun c hc => hchecks c (hsub.subset hc), ?_, fun k c => ?_⟩
    · exact (hsub.map PolicyCandidate.id).nodup hdistinct
    · rw [OrdMap.get?_erase]
      unfold without
      rw [List.mem_filter]
      by_cases hk : k = d.id
      · subst hk
        simp
      · rw [if_neg hk, hordered k c]
        constructor
        · rintro ⟨hc, rfl⟩
          exact ⟨⟨hc, by simpa using hk⟩, rfl⟩
        · rintro ⟨⟨hc, _⟩, rfl⟩
          exact ⟨hc, rfl⟩
  · unfold OrdMap.values OrdMap.erase without
    rw [List.filter_map]
    apply congrArg
    apply List.filter_congr
    intro e he
    simp [hordered.key_eq he]

end Order

section Shrinks

/-- Where the second computation succeeds, the first one does, with related values. -/
def Shrinks {α β : Type} (R : α → β → Prop) (x : Result α) (y : Result β) : Prop :=
  ∀ b, y = .ok b → ∃ a, x = .ok a ∧ R a b

/-- Where the second number exists, the first one does and is not larger. -/
def Below (x y : Option ℕ) : Prop := ∀ n, y = some n → ∃ m, x = some m ∧ m ≤ n

variable {α β γ δ : Type} {R : α → β → Prop} {S : γ → δ → Prop} {a b c d : ℕ}

theorem Shrinks.bind {x : Result α} {y : Result β} {f : α → Result γ} {g : β → Result δ}
    (h : Shrinks R x y) (hnext : ∀ a b, R a b → Shrinks S (f a) (g b)) :
    Shrinks S (x >>= f) (y >>= g) := by
  intro r hr
  obtain ⟨b, hb, hr⟩ := bind_eq_ok.1 hr
  obtain ⟨a, ha, hR⟩ := h b hb
  obtain ⟨q, hq, hS⟩ := hnext a b hR r hr
  exact ⟨q, bind_eq_ok.2 ⟨a, ha, hq⟩, hS⟩

theorem shrinks_ok {a : α} {b : β} (h : R a b) : Shrinks R (.ok a) (.ok b) := by
  intro r hr
  obtain rfl := Except.ok.inj hr
  exact ⟨a, rfl, h⟩

theorem Shrinks.guard {x : Result α} {y : Result β} {p q : Prop} [Decidable p] [Decidable q]
    {e e' : Error} (h : Shrinks R x y) (hpq : p → q) :
    Shrinks R (if p then .error e else x) (if q then .error e' else y) := by
  intro r hr
  obtain ⟨hq, hr⟩ := guard_eq_ok.1 hr
  obtain ⟨a, ha, hR⟩ := h r hr
  exact ⟨a, guard_eq_ok.2 ⟨fun hp => hq (hpq hp), ha⟩, hR⟩

theorem Below.checked {x y : Option ℕ} {e e' : Error} (h : Below x y) :
    Shrinks (· ≤ ·) (checked x e) (checked y e') := by
  intro n hn
  obtain ⟨m, rfl, hle⟩ := h n (checked_ok hn)
  exact ⟨m, rfl, hle⟩

theorem Below.bind {x y : Option ℕ} {f g : ℕ → Option ℕ} (h : Below x y)
    (hnext : ∀ m n, m ≤ n → Below (f m) (g n)) : Below (x >>= f) (y >>= g) := by
  intro r hr
  obtain ⟨n, hn, hr⟩ := Option.bind_eq_some_iff.1 hr
  obtain ⟨m, hm, hle⟩ := h n hn
  obtain ⟨q, hq, hqr⟩ := hnext m n hle r hr
  exact ⟨q, Option.bind_eq_some_iff.2 ⟨m, hm, hq⟩, hqr⟩

theorem below_some (h : a ≤ b) : Below (some a) (some b) := by
  intro n hn
  obtain rfl := Option.some.inj hn
  exact ⟨a, rfl, h⟩

theorem below_add (hab : a ≤ b) (hcd : c ≤ d) : Below (checkedAdd a c) (checkedAdd b d) := by
  intro n hn
  obtain ⟨hlt, rfl⟩ := (checkedAdd_eq_some_iff _ _ _).1 hn
  exact ⟨a + c, (checkedAdd_eq_some_iff _ _ _).2 ⟨by omega, rfl⟩, by omega⟩

theorem below_mul (hab : a ≤ b) (hcd : c ≤ d) : Below (checkedMul a c) (checkedMul b d) := by
  intro n hn
  have hle : a * c ≤ b * d := Nat.mul_le_mul hab hcd
  unfold checkedMul at hn ⊢
  split at hn
  next hlt =>
    obtain rfl := Option.some.inj hn
    exact ⟨a * c, if_pos (by omega), hle⟩
  next => cases hn

theorem Below.half {x y : Option ℕ} (h : Below x y) : Below (x.map (· / 2)) (y.map (· / 2)) := by
  intro r hr
  obtain ⟨n, hn, rfl⟩ := Option.map_eq_some_iff.1 hr
  obtain ⟨m, rfl, hle⟩ := h n hn
  exact ⟨m / 2, rfl, Nat.div_le_div_right hle⟩

theorem shrinks_refl (x : Result α) : Shrinks Eq x x := fun b hb => ⟨b, hb, rfl⟩

theorem shrinks_sub (hlimit : d ≤ c) (h : a ≤ b) {e e' : Error} :
    Shrinks (fun m n => n ≤ m) (checked (checkedSub c a) e) (checked (checkedSub d b) e') := by
  intro n hn
  have hn := checked_ok hn
  unfold checkedSub at hn
  split at hn
  next hle =>
    obtain rfl := Option.some.inj hn
    refine ⟨c - a, ?_, by omega⟩
    rw [checkedSub, if_pos (by omega)]
    rfl
  next => cases hn

theorem shrinks_encodedLen (j : Json) (h : b ≤ a) :
    Shrinks Eq (j.encodedLenBounded a) (j.encodedLenBounded b) := by
  intro n hn
  unfold encodedLenBounded at hn ⊢
  cases hlen : j.encodedLen? with
  | none =>
    rw [hlen] at hn
    cases hn
  | some size =>
    rw [hlen] at hn
    by_cases hle : size ≤ b
    · rw [Option.filter_some_pos (by simpa using hle)] at hn
      rw [Option.filter_some_pos (by simpa using hle.trans h)]
      exact ⟨size, rfl, Except.ok.inj hn⟩
    · rw [Option.filter_some_neg (by simpa using hle)] at hn
      cases hn

end Shrinks

section Budgets

variable {net : Net} {sha256 : List U8 → Digest} {sizes : Sizes} {config : PolicyConfig}
  {limits : Limits} {l l' : List PolicyCandidate} {a b : ℕ}

theorem shrinks_fingerprintFrom (limit : ℕ) (h : l'.Sublist l) (bytes bytes' : List U8) (hab : a ≤ b) :
    Shrinks (fun x y => x.2 ≤ y.2) (fingerprintFrom net limit l' bytes' a)
      (fingerprintFrom net limit l bytes b) := by
  induction h generalizing bytes bytes' a b with
  | slnil => exact shrinks_ok hab
  | @cons l' l c _ ih =>
    intro r hr
    rw [fingerprintFrom] at hr
    obtain ⟨remaining, _, hr⟩ := bind_eq_ok.1 hr
    obtain ⟨jsonLimit, _, hr⟩ := bind_eq_ok.1 hr
    obtain ⟨size, _, hr⟩ := bind_eq_ok.1 hr
    obtain ⟨next, hnext, hr⟩ := bind_eq_ok.1 hr
    obtain ⟨n, hn, hsum⟩ := Option.bind_eq_some_iff.1 (checked_ok hnext)
    have hn := ((checkedAdd_eq_some_iff _ _ _).1 hn).2
    have hsum := ((checkedAdd_eq_some_iff _ _ _).1 hsum).2
    exact ih _ _ (by omega) r hr
  | @cons_cons l' l c _ ih =>
    rw [fingerprintFrom, fingerprintFrom]
    apply (shrinks_sub (le_refl limit) hab).bind
    intro remaining' remaining hremaining
    apply (shrinks_sub hremaining (le_refl 8)).bind
    intro jsonLimit' jsonLimit hjson
    apply (shrinks_encodedLen _ hjson).bind
    rintro size _ rfl
    have hnext : Below (checkedAdd a 8 >>= fun n => checkedAdd n size)
        (checkedAdd b 8 >>= fun n => checkedAdd n size) :=
      (below_add hab le_rfl).bind fun m n hmn => below_add hmn le_rfl
    apply hnext.checked.bind
    intro next' next hle
    exact ih _ _ hle

/-- Fingerprints of the same kind, of no more octets. -/
structure IdentityShrinks (sha256 : List U8 → Digest) (x y : IdentityWitness) : Prop where
  config : x.config = y.config
  candidates : ∃ s t, x.candidates = hexDigest sha256 s ∧ y.candidates = hexDigest sha256 t
  bytes : x.bytes ≤ y.bytes

theorem shrinks_fingerprintCandidates (limit : ℕ) (h : l'.Sublist l) :
    Shrinks (fun x y => (∃ s t, x.1 = hexDigest sha256 s ∧ y.1 = hexDigest sha256 t) ∧ x.2 ≤ y.2)
      (fingerprintCandidates sha256 net l' limit) (fingerprintCandidates sha256 net l limit) := by
  unfold fingerprintCandidates
  apply (shrinks_fingerprintFrom limit h candidateDomain candidateDomain le_rfl).bind
  rintro ⟨bytes', used'⟩ ⟨bytes, used⟩ hle
  exact shrinks_ok ⟨⟨bytes', bytes, rfl, rfl⟩, hle⟩

theorem shrinks_identify (h : l'.Sublist l) : Shrinks (IdentityShrinks sha256)
    (identify sha256 net config l' limits) (identify sha256 net config l limits) := by
  unfold identify
  apply (shrinks_refl _).bind
  rintro ⟨configText, configBytes⟩ _ rfl
  apply (shrinks_refl _).bind
  rintro candidateLimit _ rfl
  apply (shrinks_fingerprintCandidates candidateLimit h).bind
  rintro ⟨text', used'⟩ ⟨text, used⟩ ⟨htext, hle⟩
  dsimp only at htext hle ⊢
  apply (below_add (le_refl configBytes) hle).checked.bind
  intro bytes' bytes hbytes
  have hidentity : IdentityShrinks sha256 ⟨configText, text', bytes'⟩ ⟨configText, text, bytes⟩ :=
    ⟨rfl, htext, hbytes⟩
  apply (shrinks_ok hidentity).guard
  rintro (h | h)
  · exact .inl (by omega)
  · exact .inr (by omega)

theorem below_idBytes (h : l'.Sublist l) (hab : a ≤ b) :
    Below (l'.foldlM (fun sum c => checkedAdd sum c.id.utf8ByteSize) a)
      (l.foldlM (fun sum c => checkedAdd sum c.id.utf8ByteSize) b) := by
  induction h generalizing a b with
  | slnil => exact below_some hab
  | @cons l' l c _ ih =>
    intro r hr
    rw [List.foldlM_cons] at hr
    obtain ⟨n, hn, hr⟩ := Option.bind_eq_some_iff.1 hr
    have hn := ((checkedAdd_eq_some_iff _ _ _).1 hn).2
    exact ih (by omega) r hr
  | @cons_cons l' l c _ ih =>
    rw [List.foldlM_cons, List.foldlM_cons]
    exact (below_add hab le_rfl).bind fun m n hmn => ih hmn

theorem below_pairCount {m n : ℕ} (h : m ≤ n) : Below (pairCount m) (pairCount n) :=
  (below_mul h (Nat.sub_le_sub_right h 1)).half

def BudgetShrinks (x y : TraceBudget) : Prop := x.bytes ≤ y.bytes ∧ x.work ≤ y.work

theorem budgetOf_shrinks (h : l'.Sublist l) (hab : a ≤ b) {y : TraceBudget}
    (hy : budgetOf sizes l b = some y) : ∃ x, budgetOf sizes l' a = some x ∧ BudgetShrinks x y := by
  have hlength : l'.length - 1 ≤ l.length - 1 := Nat.sub_le_sub_right h.length_le 1
  unfold budgetOf at hy
  obtain ⟨pairs, hpairs, hy⟩ := Option.bind_eq_some_iff.1 hy
  obtain ⟨ids, hids, hy⟩ := Option.bind_eq_some_iff.1 hy
  obtain ⟨perPair, hperPair, hy⟩ := Option.bind_eq_some_iff.1 hy
  obtain ⟨fixed, hfixed, hy⟩ := Option.bind_eq_some_iff.1 hy
  obtain ⟨bytes, hbytes, hy⟩ := Option.bind_eq_some_iff.1 hy
  obtain ⟨once, honce, hy⟩ := Option.bind_eq_some_iff.1 hy
  obtain ⟨work, hwork, hy⟩ := Option.bind_eq_some_iff.1 hy
  obtain ⟨admitted, hadmitted, hy⟩ := Option.bind_eq_some_iff.1 hy
  obtain rfl := Option.some.inj hy
  obtain ⟨pairs', hpairs', hpairsLe⟩ := below_pairCount h.length_le pairs hpairs
  obtain ⟨ids', hids', hidsLe⟩ := below_idBytes h le_rfl ids hids
  obtain ⟨perPair', hperPair', hperPairLe⟩ := below_mul hidsLe hlength perPair hperPair
  have hbytesBelow : Below (do checkedAdd (← checkedMul pairs' fixed) (← checkedMul perPair' 2))
      (do checkedAdd (← checkedMul pairs fixed) (← checkedMul perPair 2)) :=
    (below_mul hpairsLe le_rfl).bind fun _ _ hle =>
      (below_mul hperPairLe le_rfl).bind fun _ _ hle' => below_add hle hle'
  obtain ⟨bytes', hbytes', hbytesLe⟩ := hbytesBelow bytes hbytes
  have honceBelow : Below
      (do
        let steps ← checkedMul (← checkedMul pairs' ORDER.length) 64
        checkedAdd steps (← checkedMul perPair' 2))
      (do
        let steps ← checkedMul (← checkedMul pairs ORDER.length) 64
        checkedAdd steps (← checkedMul perPair 2)) :=
    (below_mul hpairsLe le_rfl).bind fun _ _ hle =>
      (below_mul hle le_rfl).bind fun _ _ hle' =>
        (below_mul hperPairLe le_rfl).bind fun _ _ hle'' => below_add hle' hle''
  obtain ⟨once', honce', honceLe⟩ := honceBelow once honce
  obtain ⟨work', hwork', hworkLe⟩ := below_mul honceLe (le_refl 2) work hwork
  obtain ⟨admitted', hadmitted', hadmittedLe⟩ := below_add hab hworkLe admitted hadmitted
  refine ⟨⟨bytes', admitted'⟩, ?_, hbytesLe, hadmittedLe⟩
  unfold budgetOf
  apply Option.bind_eq_some_iff.2 ⟨pairs', hpairs', _⟩
  apply Option.bind_eq_some_iff.2 ⟨ids', hids', _⟩
  apply Option.bind_eq_some_iff.2 ⟨perPair', hperPair', _⟩
  apply Option.bind_eq_some_iff.2 ⟨fixed, hfixed, _⟩
  apply Option.bind_eq_some_iff.2 ⟨bytes', hbytes', _⟩
  apply Option.bind_eq_some_iff.2 ⟨once', honce', _⟩
  apply Option.bind_eq_some_iff.2 ⟨work', hwork', _⟩
  exact Option.bind_eq_some_iff.2 ⟨admitted', hadmitted', rfl⟩

theorem shrinks_admitTrace (h : l'.Sublist l) (hab : a ≤ b) : Shrinks BudgetShrinks
    (admitTrace sizes l' a limits) (admitTrace sizes l b limits) := by
  intro y hy
  unfold admitTrace at hy
  cases hbudget : budgetOf sizes l b with
  | none =>
    rw [hbudget] at hy
    cases hy
  | some budget =>
    rw [hbudget] at hy
    obtain ⟨hadmits, hy⟩ := guard_eq_ok.1 hy
    obtain rfl := Except.ok.inj hy
    obtain ⟨x, hx, hbytes, hwork⟩ := budgetOf_shrinks h hab hbudget
    refine ⟨x, ?_, hbytes, hwork⟩
    unfold admitTrace
    rw [hx]
    exact guard_eq_ok.2 ⟨by omega, rfl⟩

end Budgets

section Scan

variable {config : PolicyConfig} {limit : ℕ} {s s' t : PairScan}

theorem sublist_pairsOf {α : Type} {l l' : List α} (h : l'.Sublist l) :
    (pairsOf l').Sublist (pairsOf l) := by
  induction h with
  | slnil => exact List.Sublist.slnil
  | cons _ _ ih => exact ih.trans (List.sublist_append_right _ _)
  | cons_cons _ hrest ih => exact (hrest.map _).append ih

def ScanShrinks (s' s : PairScan) : Prop := s'.bytes ≤ s.bytes ∧ (s'.compared ≠ 0 → s.compared ≠ 0)

theorem shrinks_comparePair (h : ScanShrinks s' s) (p : PolicyCandidate × PolicyCandidate) :
    Shrinks ScanShrinks (comparePair config limit s' p) (comparePair config limit s p) := by
  unfold comparePair
  have hseparated : Below (if s'.compared ≠ 0 then checkedAdd s'.bytes 1 else some s'.bytes)
      (if s.compared ≠ 0 then checkedAdd s.bytes 1 else some s.bytes) := by
    by_cases hs' : s'.compared ≠ 0
    · rw [if_pos hs', if_pos (h.2 hs')]
      exact below_add h.1 le_rfl
    · rw [if_neg hs']
      by_cases hs : s.compared ≠ 0
      · rw [if_pos hs]
        intro n hn
        have hn := ((checkedAdd_eq_some_iff _ _ _).1 hn).2
        exact ⟨s'.bytes, rfl, by have := h.1; omega⟩
      · rw [if_neg hs]
        exact below_some h.1
  apply hseparated.checked.bind
  intro separated' separated hle
  apply (shrinks_sub (le_refl limit) hle).bind
  intro remaining' remaining hremaining
  have hsize : Shrinks Eq
      (checked ((comparisonJson (compare p.1 p.2 config)).encodedLenBounded remaining').toOption
        outputBytes)
      (checked ((comparisonJson (compare p.1 p.2 config)).encodedLenBounded remaining).toOption
        outputBytes) := by
    intro n hn
    have hok := checked_ok hn
    cases hlen : (comparisonJson (compare p.1 p.2 config)).encodedLenBounded remaining with
    | error e =>
      rw [hlen] at hok
      cases hok
    | ok size =>
      rw [hlen] at hok
      obtain rfl := Option.some.inj hok
      obtain ⟨_, hlen', rfl⟩ := shrinks_encodedLen _ hremaining _ hlen
      rw [hlen']
      exact ⟨_, rfl, rfl⟩
  apply hsize.bind
  rintro size _ rfl
  apply (below_add hle le_rfl).checked.bind
  intro bytes' bytes hbytes
  apply shrinks_ok
  obtain ⟨hnote', hcompared'⟩ := PairScan.note_bytes
    { s' with bytes := bytes', compared := s'.compared + 1 } (compare p.1 p.2 config)
  obtain ⟨hnote, hcompared⟩ := PairScan.note_bytes
    { s with bytes := bytes, compared := s.compared + 1 } (compare p.1 p.2 config)
  constructor
  · rw [hnote', hnote]
    exact hbytes
  · rw [hcompared]
    exact fun _ => Nat.succ_ne_zero _

theorem comparePair_grows {p : PolicyCandidate × PolicyCandidate} (h : ScanShrinks s' s)
    (hok : comparePair config limit s p = .ok t) : ScanShrinks s' t := by
  unfold comparePair at hok
  obtain ⟨separated, hseparated, hok⟩ := bind_eq_ok.1 hok
  obtain ⟨remaining, _, hok⟩ := bind_eq_ok.1 hok
  obtain ⟨size, _, hok⟩ := bind_eq_ok.1 hok
  obtain ⟨bytes, hbytes, hok⟩ := bind_eq_ok.1 hok
  obtain rfl := Except.ok.inj hok
  obtain ⟨hnote, hcompared⟩ := PairScan.note_bytes
    { s with bytes := bytes, compared := s.compared + 1 } (compare p.1 p.2 config)
  have hbytes := ((checkedAdd_eq_some_iff _ _ _).1 (checked_ok hbytes)).2
  have hseparated : s.bytes ≤ separated := by
    have hseparated := checked_ok hseparated
    split at hseparated
    · have := ((checkedAdd_eq_some_iff _ _ _).1 hseparated).2
      omega
    · exact (Option.some.inj hseparated).le
  constructor
  · rw [hnote]
    have := h.1
    dsimp only
    omega
  · rw [hcompared]
    exact fun _ => Nat.succ_ne_zero _

theorem shrinks_scan {pairs pairs' : List (PolicyCandidate × PolicyCandidate)}
    (h : pairs'.Sublist pairs) (hs : ScanShrinks s' s) :
    Shrinks ScanShrinks (pairs'.foldlM (comparePair config limit) s')
      (pairs.foldlM (comparePair config limit) s) := by
  induction h generalizing s s' with
  | slnil => exact shrinks_ok hs
  | @cons pairs' pairs p _ ih =>
    intro t ht
    rw [List.foldlM_cons] at ht
    obtain ⟨u, hu, ht⟩ := bind_eq_ok.1 ht
    exact ih (comparePair_grows hs hu) t ht
  | @cons_cons pairs' pairs p _ ih =>
    rw [List.foldlM_cons, List.foldlM_cons]
    exact (shrinks_comparePair hs p).bind fun _ _ hnext => ih hnext

theorem shrinks_scanPairs {limits : Limits} {l l' : List PolicyCandidate} (h : l'.Sublist l) :
    Shrinks ScanShrinks (scanPairs config limits l') (scanPairs config limits l) := by
  apply shrinks_scan (sublist_pairsOf h)
  exact ⟨le_rfl, fun hne => hne⟩

theorem two_le_objectOf (fields : List (String × Json)) :
    2 ≤ (objectOf fields).encode.utf8ByteSize := by
  have hbrace : "\x7b".utf8ByteSize = 1 := rfl
  rw [encode_objectOf, String.utf8ByteSize_append, utf8ByteSize_encodeFields, fieldsSize, hbrace]
  omega

theorem shrinks_admitSize {limits : Limits} {p p' : Preflight}
    (hlimit : min limits.outputBytes limits.retainedBytes < wordBound)
    (hresult : p'.result.toJson.encode.utf8ByteSize ≤ p.result.toJson.encode.utf8ByteSize)
    (hcontent : p'.contentBytes ≤ p.contentBytes) (hidentity : p'.identityBytes ≤ p.identityBytes)
    (hbudget : BudgetShrinks p'.budget p.budget) :
    Shrinks (· ≤ ·) (admitSize limits p') (admitSize limits p) := by
  unfold admitSize
  have hempty : Shrinks (fun m n => m ≤ n ∧ m = p'.result.toJson.encode.utf8ByteSize)
      (p'.result.encodedLen (min limits.outputBytes limits.retainedBytes))
      (p.result.encodedLen (min limits.outputBytes limits.retainedBytes)) := by
    intro n hn
    rw [encodedLen_eq hlimit] at hn
    split at hn
    next hle =>
      obtain rfl := Except.ok.inj hn
      refine ⟨_, ?_, hresult, rfl⟩
      rw [encodedLen_eq hlimit, if_pos (hresult.trans hle)]
    next => cases hn
  apply hempty.bind
  rintro empty' empty ⟨hle, hdocument⟩
  have hbrackets : 2 ≤ empty' := hdocument ▸ two_le_objectOf _
  have hinside : Below (checkedSub empty' 2) (checkedSub empty 2) := by
    unfold checkedSub
    rw [if_pos hbrackets, if_pos (hbrackets.trans hle)]
    exact below_some (by omega)
  have hsize := hinside.bind fun _ _ h => (below_add h (le_refl 2)).bind fun _ _ h =>
    below_add h hcontent
  apply hsize.checked.bind
  intro size' size hsizeLe
  refine Shrinks.guard ?_ fun h => by omega
  apply (below_add hbudget.2 hsizeLe).checked.bind
  intro work' work hwork
  have hretained := (below_add hbudget.1 hidentity).bind fun _ _ h => below_add h hsizeLe
  apply hretained.checked.bind
  intro retained' retained hretainedLe
  exact (shrinks_ok hsizeLe).guard fun h => by omega

end Scan

end PcapEvidence.Bgp.Policy
