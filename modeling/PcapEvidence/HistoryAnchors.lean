import Mathlib
import PcapEvidence.HistoryState
import PcapEvidence.Sha256

/-!
# Anchors of tuple generations

Relative offset 0 of a direction is meant to be the first byte behind its SYN. A generation anchors
a direction at the first segment it takes there and never moves the anchor, so this holds exactly as
long as no SYN is recorded on a generation that an earlier segment has anchored elsewhere.
-/

namespace PcapEvidence.History

open Method

theorem residue_modEq (a b : U32) : ((a - b).toNat : ℤ) ≡ a.toNat - b.toNat [ZMOD MODULUS] := by
  have ha := a.isLt
  have hb := b.isLt
  rw [BitVec.toNat_sub, Int.ModEq, MODULUS]
  omega

theorem epochCandidates_modEq {sequence anchor : U32} {low high : ℤ} {max : ℕ} {l : List ℤ}
    (h : epochCandidates sequence anchor low high max = .ok l) :
    ∀ x ∈ l, x ≡ sequence.toNat - anchor.toNat [ZMOD MODULUS] := by
  intro x hx
  unfold epochCandidates at h
  dsimp only at h
  split_ifs at h with hbad hempty hmany
  · cases h
    cases hx
  · obtain ⟨k, -, hk⟩ := mem_mapM h x hx
    split_ifs at hk
    cases hk
    refine Int.ModEq.trans ?_ (residue_modEq sequence anchor)
    rw [Int.ModEq, Int.add_mul_emod_self_right]

section Candidates

variable {sha256 : List U8 → Digest} {p : TcpInput} {s : SourceIdentity} {c : Config}
  {t t' : TupleState} {g g' : Generation} {choice : Choice}

theorem offsetsIn_ok {l : List ℤ} (h : p.offsetsIn c g = .ok l) {x : ℤ} (hx : x ∈ l) :
    (∃ a, g.anchor.get p.dir = some a ∧ x ≡ p.dataSequence.toNat - a.toNat [ZMOD MODULUS]) ∨
      (g.anchor.get p.dir = none ∧ x = 0) := by
  unfold TcpInput.offsetsIn at h
  by_cases hclosed : p.syn = true ∧ (g.closed = true ∨
      (g.syn.get p.dir).any (· ≠ p.sequence) = true)
  · rw [if_pos hclosed] at h
    cases h
    cases hx
  rw [if_neg hclosed] at h
  by_cases hpeer : p.syn = true ∧ (g.syn.get (!p.dir)).any
      (fun peer => !p.ack || p.acknowledgement ≠ peer + 1) = true
  · rw [if_pos hpeer] at h
    cases h
    cases hx
  rw [if_neg hpeer] at h
  cases hanchor : g.anchor.get p.dir with
  | some a =>
    rw [hanchor] at h
    obtain ⟨high, -, h⟩ := bind_eq_ok.1 h
    obtain ⟨low, -, h⟩ := bind_eq_ok.1 h
    exact Or.inl ⟨a, rfl, epochCandidates_modEq h x hx⟩
  | none =>
    rw [hanchor] at h
    right
    dsimp only at h
    split_ifs at h with hdone
    · cases h
      cases hx
    · cases h
      exact ⟨rfl, List.mem_singleton.1 hx⟩

theorem placesFrom_ok {i : ℕ} {gs : List Generation} {places : List (ℕ × ℤ)}
    (h : p.placesFrom c i gs = .ok places) {x : ℕ × ℤ} (hx : x ∈ places) :
    ∃ k g, x.1 = i + k ∧ gs[k]? = some g ∧
      ((∃ a, g.anchor.get p.dir = some a ∧ x.2 ≡ p.dataSequence.toNat - a.toNat [ZMOD MODULUS]) ∨
        (g.anchor.get p.dir = none ∧ x.2 = 0)) := by
  induction gs generalizing i places with
  | nil =>
    cases h
    cases hx
  | cons g gs ih =>
    obtain ⟨offsets, hoffsets, h⟩ := bind_eq_ok.1 h
    obtain ⟨more, hmore, h⟩ := bind_eq_ok.1 h
    cases h
    rcases List.mem_append.1 hx with hx | hx
    · obtain ⟨offset, hoffset, rfl⟩ := List.mem_map.1 hx
      exact ⟨0, g, rfl, rfl, offsetsIn_ok hoffsets hoffset⟩
    · obtain ⟨k, g', hk, hg', hplace⟩ := ih hmore hx
      exact ⟨k + 1, g', by omega, hg', hplace⟩

theorem repeatsFrom_mem {i : ℕ} {gs : List Generation} {x : ℕ × ℤ} (hx : x ∈ p.repeatsFrom i gs) :
    ∃ k g, x.1 = i + k ∧ gs[k]? = some g ∧ x.2 = 0 ∧ g.syn.get p.dir = some p.sequence := by
  induction gs generalizing i with
  | nil => cases hx
  | cons g gs ih =>
    have htail (hx : x ∈ p.repeatsFrom (i + 1) gs) : ∃ k g', x.1 = i + k ∧
        (g :: gs)[k]? = some g' ∧ x.2 = 0 ∧ g'.syn.get p.dir = some p.sequence := by
      obtain ⟨k, g', hk, hg', hrest⟩ := ih hx
      exact ⟨k + 1, g', by omega, hg', hrest⟩
    unfold TcpInput.repeatsFrom at hx
    split_ifs at hx with hsyn
    · rcases List.mem_cons.1 hx with rfl | hx
      · exact ⟨0, g, rfl, rfl, rfl, hsyn.2⟩
      · exact htail hx
    · exact htail hx

structure Generation.Fresh (g : Generation) : Prop where
  syn : ∀ d, g.syn.get d = none
  anchor : ∀ d, g.anchor.get d = none
  low : ∀ d, g.low.get d = 0
  high : ∀ d, g.high.get d = 0

theorem create_ok (h : TupleState.create sha256 p s c t = .ok t') :
    ∃ g, g.Fresh ∧ t' = { t with generations := t.generations ++ [g] } := by
  unfold TupleState.create at h
  split_ifs at h with hfull
  obtain ⟨name, -, h⟩ := bind_eq_ok.1 h
  obtain ⟨key, -, h⟩ := bind_eq_ok.1 h
  obtain ⟨blob, -, h⟩ := bind_eq_ok.1 h
  cases h
  refine ⟨_, ⟨?_, ?_, ?_, ?_⟩, rfl⟩ <;> (intro d; cases d <;> rfl)

/-- What the candidates of a segment are: a generation of its own, open generations of the same
SYN, the generation of a simultaneous open, or places relative to anchors. -/
inductive Offers (p : TcpInput) (t : TupleState) : Choice → Prop
  | started {g : Generation} {reasons : List String} (hg : g.Fresh) :
      Offers p t ⟨{ t with generations := t.generations ++ [g] }, [(t.generations.length, 0)],
        reasons⟩
  | repeated {candidates : List (ℕ × ℤ)} {reasons : List String} (hsyn : p.syn = true)
      (h : ∀ x ∈ candidates, ∃ g, t.generations[x.1]? = some g ∧ x.2 = 0 ∧
        g.syn.get p.dir = some p.sequence) : Offers p t ⟨t, candidates, reasons⟩
  | simultaneous {reasons : List String} (hsyn : p.syn = true) :
      Offers p t ⟨t, [(t.generations.length - 1, 0)], reasons⟩
  | placed {candidates : List (ℕ × ℤ)} {reasons : List String}
      (h : ∀ x ∈ candidates, ∃ g, t.generations[x.1]? = some g ∧
        ∀ a, g.anchor.get p.dir = some a → x.2 ≡ p.dataSequence.toNat - a.toNat [ZMOD MODULUS]) :
      Offers p t ⟨t, candidates, reasons⟩

theorem start_ok {reason : String} (h : TupleState.start sha256 p s c reason t = .ok choice) :
    Offers p t choice := by
  obtain ⟨t', ht', h⟩ := bind_eq_ok.1 h
  obtain ⟨g, hg, rfl⟩ := create_ok ht'
  cases h
  exact .started hg

theorem candidates_ok (h : TupleState.candidates sha256 p s c t = .ok choice) :
    Offers p t choice := by
  unfold TupleState.candidates at h
  dsimp only at h
  split_ifs at h with hsyn hrepeats hboth hempty
  · cases h
    exact .simultaneous hsyn.1
  · exact start_ok h
  · cases h
    refine .repeated hsyn.1 fun x hx => ?_
    obtain ⟨k, g, hk, hg, hrest⟩ := repeatsFrom_mem hx
    rw [Nat.zero_add] at hk
    exact ⟨g, by rw [hk]; exact hg, hrest⟩
  · exact start_ok h
  · obtain ⟨places, hplaces, h⟩ := bind_eq_ok.1 h
    split_ifs at h with hnone
    · exact start_ok h
    · cases h
      refine .placed fun x hx => ?_
      obtain ⟨k, g, hk, hg, hplace⟩ := placesFrom_ok hplaces hx
      rw [Nat.zero_add] at hk
      refine ⟨g, by rw [hk]; exact hg, fun a ha => ?_⟩
      rcases hplace with ⟨b, hb, hmod⟩ | ⟨hnone, -⟩
      · rw [ha] at hb
        cases hb
        exact hmod
      · rw [ha] at hnone
        cases hnone

end Candidates

section Step

variable {sha256 : List U8 → Digest} {p : TcpInput} {s : SourceIdentity} {c : Config}
  {t t' : TupleState} {g g' : Generation} {choice : Choice} {reasons : List String}

structure Generation.Sound (g : Generation) : Prop where
  range : ∀ d, g.low.get d ≤ 0 ∧ 0 ≤ g.high.get d
  anchored : ∀ d n, g.syn.get d = some n → g.anchor.get d = some (n + 1)

def TupleState.Sound (t : TupleState) : Prop := ∀ g ∈ t.generations, g.Sound

theorem Generation.Fresh.sound (h : g.Fresh) : g.Sound where
  range d := by rw [h.low d, h.high d]; exact ⟨le_rfl, le_rfl⟩
  anchored d n hsyn := by
    rw [h.syn d] at hsyn
    cases hsyn

theorem observe_ok {offset : ℤ} (h : g.observe p offset = .ok (g', reasons)) :
    ∃ stop, g'.syn = (if p.syn then g.syn.set p.dir (some p.sequence) else g.syn) ∧
      g'.anchor = g.anchor.set p.dir (some ((g.anchor.get p.dir).getD p.dataSequence)) ∧
      g'.low = g.low.set p.dir (min (g.low.get p.dir) offset) ∧
      g'.high = g.high.set p.dir (max (g.high.get p.dir) stop) := by
  obtain ⟨stop, -, h⟩ := bind_eq_ok.1 h
  cases h
  exact ⟨stop, rfl, rfl, rfl, rfl⟩

theorem Generation.Sound.observe {offset : ℤ} (hg : g.Sound)
    (h : g.observe p offset = .ok (g', reasons))
    (hsyn : p.syn = true → ∀ a, g.anchor.get p.dir = some a → a = p.dataSequence) : g'.Sound := by
  obtain ⟨stop, hs, ha, hl, hh⟩ := observe_ok h
  refine ⟨fun d => ?_, fun d n hn => ?_⟩
  · have hrange := hg.range d
    rw [hl, hh]
    by_cases hd : d = p.dir
    · subst hd
      rw [Dirs.get_set_self, Dirs.get_set_self]
      exact ⟨(min_le_left _ _).trans hrange.1, hrange.2.trans (le_max_left _ _)⟩
    · rwa [Dirs.get_set_of_ne _ hd, Dirs.get_set_of_ne _ hd]
  · rw [hs] at hn
    rw [ha]
    by_cases hd : d = p.dir
    · subst hd
      rw [Dirs.get_set_self]
      by_cases hp : p.syn = true
      · rw [if_pos hp, Dirs.get_set_self] at hn
        cases hn
        have hdata : p.dataSequence = p.sequence + 1 := by rw [TcpInput.dataSequence, if_pos hp]
        cases hanchor : g.anchor.get p.dir with
        | none => rw [Option.getD_none, hdata]
        | some a => rw [Option.getD_some, hsyn hp a hanchor, hdata]
      · rw [if_neg hp] at hn
        rw [hg.anchored _ n hn, Option.getD_some]
    · rw [Dirs.get_set_of_ne _ hd]
      apply hg.anchored
      by_cases hp : p.syn = true
      · rwa [if_pos hp, Dirs.get_set_of_ne _ hd] at hn
      · rwa [if_neg hp] at hn

def Choice.chosen (choice : Choice) (p : TcpInput) (c : Config) : Option (ℕ × ℤ) :=
  (select p.dir c choice.state choice.candidates).1.bind (choice.candidates[·]?)

theorem Choice.chosen_mem {x : ℕ × ℤ} (h : choice.chosen p c = some x) : x ∈ choice.candidates := by
  obtain ⟨j, -, hj⟩ := Option.bind_eq_some_iff.1 h
  exact List.mem_of_getElem? hj

theorem observe_cases
    (h : TupleState.observe p (select p.dir c choice.state choice.candidates).1 choice =
      .ok (t', reasons)) :
    (t' = choice.state ∧ ∀ x ∈ choice.chosen p c, choice.state.generations[x.1]? = none) ∨
      ∃ i offset g g' rs, choice.chosen p c = some (i, offset) ∧
      choice.state.generations[i]? = some g ∧ g.observe p offset = .ok (g', rs) ∧
      t' = { choice.state with generations := choice.state.generations.set i g' } := by
  unfold TupleState.observe at h
  cases hchosen : choice.chosen p c with
  | none =>
    rw [Choice.chosen] at hchosen
    rw [hchosen] at h
    cases h
    exact Or.inl ⟨rfl, by simp⟩
  | some x =>
    obtain ⟨i, offset⟩ := x
    rw [Choice.chosen] at hchosen
    rw [hchosen] at h
    dsimp only at h
    cases hg : choice.state.generations[i]? with
    | none =>
      rw [hg] at h
      cases h
      refine Or.inl ⟨rfl, fun x hx => ?_⟩
      cases hx
      exact hg
    | some g =>
      rw [hg] at h
      obtain ⟨⟨g', rs⟩, hobserve, h⟩ := bind_eq_ok.1 h
      cases h
      exact Or.inr ⟨i, offset, g, g', rs, rfl, hg, hobserve, rfl⟩

end Step

structure Call where
  input : TcpInput
  source : SourceIdentity
  config : Config

namespace Call

variable (sha256 : List U8 → Digest)

def run (call : Call) : Method TupleState Error Decision :=
  TupleState.ingest sha256 call.input call.source call.config

/-- The segment with its header fields derived again. -/
def rederived (call : Call) : Result TcpInput := do
  let b ← call.input.encode
  TcpInput.decode b call.config

def Misanchors (call : Call) (t : TupleState) : Prop :=
  ∃ (decision : Decision) (t' : TupleState) (p : TcpInput) (choice : Choice) (i : ℕ) (offset : ℤ)
    (g : Generation) (a : U32), call.run sha256 t = (.ok decision, t') ∧
    call.rederived = .ok p ∧
    TupleState.candidates sha256 p call.source call.config t = .ok choice ∧
    choice.chosen p call.config = some (i, offset) ∧ t.generations[i]? = some g ∧
    p.syn = true ∧ g.anchor.get p.dir = some a ∧ a ≠ p.dataSequence

/-- Every placement is in a generation of the tuple, and where that was there before and anchored,
its offset is the distance of the data from the anchor. -/
def Places (call : Call) (t : TupleState) : Prop :=
  ∀ (decision : Decision) (t' : TupleState) (p : TcpInput),
    call.run sha256 t = (.ok decision, t') → call.rederived = .ok p →
    ∀ x ∈ decision.placements, x.direction = p.direction ∧
      ∃ (i : ℕ) (g' : Generation), t'.generations[i]? = some g' ∧ x.generation = g'.id ∧
        ∀ g a, t.generations[i]? = some g → g.anchor.get p.dir = some a →
          x.offset ≡ p.dataSequence.toNat - a.toNat [ZMOD MODULUS]

variable {sha256} {call : Call} {t t' : TupleState} {decision : Decision}

theorem run_ok (h : call.run sha256 t = (.ok decision, t')) :
    ∃ p choice reasons, call.rederived = .ok p ∧
      TupleState.candidates sha256 p call.source call.config t = .ok choice ∧
      TupleState.observe p (select p.dir call.config choice.state choice.candidates).1 choice =
        .ok (t', reasons) ∧
      decision.placements = TupleState.placements p t'
        (select p.dir call.config choice.state choice.candidates).1 choice.candidates := by
  rw [run, TupleState.ingest] at h
  generalize hinner : (do
    call.config.validate
    if call.input.raw.length > 65535 ∨ call.input.witnesses.length > call.config.maxWitnesses ∨
        t.generations.length > call.config.maxGenerations then
      .error (Error.limit "history_state_input")
    else do
      let _ ← t.key.encode
      TupleState.ingestInner sha256 call.input call.source call.config t :
        Result (Decision × TupleState)) = result at h
  cases result with
  | error e => cases h
  | ok out =>
    cases h
    obtain ⟨⟨⟩, -, hinner⟩ := bind_eq_ok.1 hinner
    obtain ⟨-, hinner⟩ := guard_eq_ok.1 hinner
    obtain ⟨key, -, hinner⟩ := bind_eq_ok.1 hinner
    obtain ⟨⟨⟩, -, hinner⟩ := bind_eq_ok.1 hinner
    obtain ⟨b, hb, hinner⟩ := bind_eq_ok.1 hinner
    obtain ⟨p, hp, hinner⟩ := bind_eq_ok.1 hinner
    obtain ⟨-, hinner⟩ := guard_eq_ok.1 hinner
    obtain ⟨encoded, -, hinner⟩ := bind_eq_ok.1 hinner
    obtain ⟨choice, hchoice, hinner⟩ := bind_eq_ok.1 hinner
    dsimp only at hinner
    obtain ⟨⟨t', reasons⟩, hobserve, hinner⟩ := bind_eq_ok.1 hinner
    obtain ⟨after, -, hinner⟩ := bind_eq_ok.1 hinner
    cases hinner
    refine ⟨p, choice, reasons, ?_, hchoice, hobserve, rfl⟩
    exact bind_eq_ok.2 ⟨b, hb, hp⟩

theorem run_error {e : Error} (h : call.run sha256 t = (.error e, t')) : t' = t := by
  rw [run, TupleState.ingest] at h
  split at h
  · cases h
  · cases h
    rfl

theorem kept {p : TcpInput} {choice : Choice} (h : Offers p t choice) {i : ℕ} {g : Generation}
    (hg : t.generations[i]? = some g) : choice.state.generations[i]? = some g := by
  cases h with
  | started _ =>
    obtain ⟨hi, -⟩ := List.getElem?_eq_some_iff.1 hg
    exact (List.getElem?_append_left hi).trans hg
  | repeated _ _ => exact hg
  | simultaneous _ => exact hg
  | placed _ => exact hg

theorem sound_state {p : TcpInput} {choice : Choice} (h : Offers p t choice) (ht : t.Sound) :
    choice.state.Sound := by
  cases h with
  | started hg =>
    intro g hmem
    rcases List.mem_append.1 hmem with hmem | hmem
    · exact ht g hmem
    · rw [List.mem_singleton.1 hmem]
      exact hg.sound
  | repeated _ _ => exact ht
  | simultaneous _ => exact ht
  | placed _ => exact ht

theorem chosen_generation {p : TcpInput} {choice : Choice} (h : Offers p t choice) {i : ℕ}
    {offset : ℤ} (hchosen : choice.chosen p call.config = some (i, offset)) {g : Generation}
    (hg : choice.state.generations[i]? = some g) :
    t.generations[i]? = some g ∨ ∀ d, g.anchor.get d = none := by
  cases h with
  | started hfresh =>
    have hi := List.mem_singleton.1 (Choice.chosen_mem hchosen)
    cases hi
    right
    rw [List.getElem?_append_right le_rfl, Nat.sub_self] at hg
    cases hg
    exact hfresh.anchor
  | repeated _ _ => exact Or.inl hg
  | simultaneous _ => exact Or.inl hg
  | placed _ => exact Or.inl hg

theorem sound_step (ht : t.Sound) (hcall : ¬ call.Misanchors sha256 t) :
    (call.run sha256 t).2.Sound := by
  rcases hrun : call.run sha256 t with ⟨result, t'⟩
  cases result with
  | error e =>
    rw [run_error hrun]
    exact ht
  | ok decision =>
    obtain ⟨p, choice, reasons, hp, hchoice, hobserve, -⟩ := run_ok hrun
    have hoffers := candidates_ok hchoice
    have hstate := sound_state hoffers ht
    rcases observe_cases hobserve with ⟨rfl, -⟩ | ⟨i, offset, g, g', rs, hchosen, hg, hgo, rfl⟩
    · exact hstate
    · intro x hx
      rcases List.mem_or_eq_of_mem_set hx with hx | rfl
      · exact hstate x hx
      · refine (hstate g (List.mem_of_getElem? hg)).observe hgo fun hsyn a ha => ?_
        rcases chosen_generation hoffers hchosen hg with hold | hnone
        · by_contra hne
          exact hcall ⟨decision, _, p, choice, i, offset, g, a, hrun, hp, hchoice, hchosen, hold,
            hsyn, ha, hne⟩
        · rw [hnone] at ha
          cases ha

theorem places_step (ht : t.Sound) (hcall : ¬ call.Misanchors sha256 t) : call.Places sha256 t := by
  intro decision t' p hrun hp x hx
  obtain ⟨p', choice, reasons, hp', hchoice, hobserve, hplacements⟩ := run_ok hrun
  rw [hp] at hp'
  cases hp'
  rw [hplacements, TupleState.placements] at hx
  obtain ⟨⟨⟨i, offset⟩, j⟩, hmem, hx⟩ := List.mem_filterMap.1 hx
  obtain ⟨g', hg', rfl⟩ := Option.map_eq_some_iff.1 hx
  refine ⟨rfl, i, g', hg', rfl, fun g a hg ha => ?_⟩
  have hcandidate : (i, offset) ∈ choice.candidates := List.fst_mem_of_mem_zipIdx hmem
  have hoffers := candidates_ok hchoice
  have hdata (hsyn : p.syn = true) : p.dataSequence = p.sequence + 1 := by
    rw [TcpInput.dataSequence, if_pos hsyn]
  cases hoffers with
  | started _ =>
    cases List.mem_singleton.1 hcandidate
    rw [List.getElem?_eq_none le_rfl] at hg
    cases hg
  | repeated hsyn h =>
    obtain ⟨g₁, hg₁, hzero, hsame⟩ := h _ hcandidate
    rw [hg] at hg₁
    cases hg₁
    have hanchor := (ht g (List.mem_of_getElem? hg)).anchored _ _ hsame
    rw [ha] at hanchor
    cases hanchor
    dsimp only at hzero
    rw [hzero, hdata hsyn, sub_self]
  | simultaneous hsyn =>
    -- the only candidate is chosen, so its anchor stands behind this SYN
    cases List.mem_singleton.1 hcandidate
    have hanchor : a = p.dataSequence := by
      by_contra hne
      exact hcall ⟨decision, t', p, _, _, _, g, a, hrun, hp, hchoice, rfl, hg, hsyn, ha, hne⟩
    rw [hanchor, sub_self]
  | placed h =>
    obtain ⟨g₁, hg₁, hmod⟩ := h _ hcandidate
    rw [hg] at hg₁
    cases hg₁
    exact hmod a ha

/-- A SYN on a generation that is anchored elsewhere leaves an unsound generation behind. -/
theorem not_sound_of_misanchors (h : call.Misanchors sha256 t) : ¬ (call.run sha256 t).2.Sound := by
  obtain ⟨decision, t', p, choice, i, offset, g, a, hrun, hp, hchoice, hchosen, hg, hsyn, ha, hne⟩ :=
    h
  obtain ⟨p', choice', reasons, hp', hchoice', hobserve, -⟩ := run_ok hrun
  rw [hp] at hp'
  cases hp'
  rw [hchoice] at hchoice'
  cases hchoice'
  have hkept := kept (candidates_ok hchoice) hg
  rw [hrun]
  intro hsound
  rcases observe_cases hobserve with ⟨-, hnone⟩ | ⟨i', offset', g₁, g', rs, hchosen', hg₁, hgo, rfl⟩
  · rw [hnone _ hchosen] at hkept
    cases hkept
  · rw [hchosen] at hchosen'
    cases hchosen'
    rw [hkept] at hg₁
    cases hg₁
    obtain ⟨hi, -⟩ := List.getElem?_eq_some_iff.1 hkept
    obtain ⟨stop, hs, hanchor, -, -⟩ := observe_ok hgo
    have hbad := (hsound g' (List.mem_iff_getElem?.2 ⟨i, List.getElem?_set_self hi⟩)).anchored
      p.dir p.sequence (by rw [hs, if_pos hsyn, Dirs.get_set_self])
    rw [hanchor, Dirs.get_set_self, ha, Option.getD_some] at hbad
    apply hne
    rw [TcpInput.dataSequence, if_pos hsyn]
    exact Option.some.inj hbad

end Call

def TupleState.after (sha256 : List U8 → Digest) (t : TupleState) (calls : List Call) : TupleState :=
  calls.foldl (fun t call => (call.run sha256 t).2) t

theorem TupleState.after_concat (sha256 : List U8 → Digest) (t : TupleState) (calls : List Call)
    (call : Call) :
    t.after sha256 (calls ++ [call]) = (call.run sha256 (t.after sha256 calls)).2 := by
  rw [after, List.foldl_append]
  rfl

/-- Ports 1000 and 2000 of two hosts. -/
def sampleKey : Key where
  sectionId := 0
  interface := 0
  linkInterface := none
  vlans := []
  tunnels := []
  a := ⟨.v4 (Vector.replicate 4 10), 1000⟩
  b := ⟨.v4 (Vector.replicate 4 11), 2000⟩

/-- A bare header from the first endpoint. -/
def sampleCall (frame : U64) (sequence flags : List U8) : Call where
  input := {
    key := sampleKey
    direction := 0
    frame := frame
    when_ := none
    raw := [3, 232, 7, 208] ++ sequence ++ [0, 0, 0, 0, 80] ++ flags ++ [16, 0, 0, 0, 0, 0]
    witnesses := [⟨0, 20, frame, 0, 0, 0⟩]
    sequence := 0
    acknowledgement := 0
    flags := 0
    window := 0
    timestampValue := none
    headerBytes := 0 }
  source := ⟨Vector.replicate 32 0, 1⟩
  config := .default

end PcapEvidence.History
