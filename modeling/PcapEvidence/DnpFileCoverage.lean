import PcapEvidence.DnpFileRun

/-!
# What complete coverage of a file says

A projection that calls its coverage complete has one content for each block, and the lengths add
up to the declared size. The blocks below the declared count are all there.
-/

namespace PcapEvidence.DnpFile

open FiniteMap OrderedMap

section Coverage

variable (objects : List FileObject)

def GapFree : Prop := ∃ n, ∀ m, m ∈ blockNumbers objects ↔ m < n

def OneContent : Prop := ∀ n, ∀ a ∈ contents objects n, ∀ b ∈ contents objects n, a = b

def firstLength (n : ℕ) : ℕ := ((contents objects n).head?.map (·.length)).getD 0

def Covers : Prop := ∃ d, (declarations objects).getLast? = some d ∧
  ((blockNumbers objects).dedup.map (firstLength objects)).sum = d.fileSize

def Follows : Prop := ∀ d, (declarations objects).getLast? = some d → 0 < d.maximumBlockSize →
  ∀ n ∈ blockNumbers objects, d.fileSize ≤ n * d.maximumBlockSize →
    n = 0 ∨ n - 1 ∈ blockNumbers objects

variable {objects}

theorem blockNumbers_lt {n : ℕ} (h : n ∈ blockNumbers objects) : n < 2 ^ 32 := by
  obtain ⟨x, _, hn⟩ := List.mem_filterMap.1 h
  cases x with
  | block variation handle number content =>
    rw [← Option.some.inj hn]
    exact number.isLt
  | _ => cases hn

/-- Numbers of which each follows another are the first ones. -/
theorem exists_bound_of_closed {l : List ℕ} (h : ∀ n ∈ l, n = 0 ∨ n - 1 ∈ l) :
    ∃ n, ∀ m, m ∈ l ↔ m < n := by
  have hbelow : ∀ n ∈ l, ∀ m ≤ n, m ∈ l := by
    intro n
    induction n with
    | zero =>
      intro hn m hm
      rw [Nat.le_zero.1 hm]
      exact hn
    | succ n ih =>
      intro hn m hm
      rcases Nat.lt_or_ge n m with hlt | hle
      · rw [show m = n + 1 by omega]
        exact hn
      · have hprev : n ∈ l := (h (n + 1) hn).resolve_left (Nat.succ_ne_zero n)
        exact ih hprev m hle
  cases hmax : l.max? with
  | none =>
    rw [List.max?_eq_none_iff.1 hmax]
    exact ⟨0, by simp⟩
  | some top =>
    obtain ⟨htop, hle⟩ := List.max?_eq_some_iff.1 hmax
    refine ⟨top + 1, fun m => ⟨fun hm => Nat.lt_succ_of_le (hle m hm), fun hm => ?_⟩⟩
    exact hbelow top htop m (Nat.le_of_lt_succ hm)

theorem closed_of_gapFree (h : GapFree objects) {n : ℕ} (hn : n ∈ blockNumbers objects) :
    n = 0 ∨ n - 1 ∈ blockNumbers objects := by
  obtain ⟨count, hcount⟩ := h
  have hlt := (hcount n).1 hn
  rcases Nat.eq_zero_or_pos n with hzero | hpos
  · exact .inl hzero
  · exact .inr ((hcount (n - 1)).2 (by omega))

end Coverage

section Projection

variable {objects : List FileObject} {s : State} {limits : Bgp.Limits} {p : Projection}

open FileReconciler

theorem projection_ok (h : projection s limits = .ok p) : ∃ content, contentBytes s = .ok content ∧
    p.status = (if s.metadataConflict || !s.conflictingBlocks.keys.isEmpty then .ambiguous
      else if coverageComplete s content then .candidateCompleteSourceCoverage else .incomplete) ∧
    p.key = s.key ∧ p.statusCodes = s.statusCodes.keys ∧ p.contentBytesObserved = content ∧
    p.observedBlocks = s.blocks.entries ∧ p.conflictingBlocks = s.conflictingBlocks.keys ∧
    p.metadataConflict = s.metadataConflict ∧ p.missingBlocks = missing s := by
  unfold projection at h
  obtain ⟨_, h⟩ := guard_eq_ok.1 h
  obtain ⟨content, hcontent, h⟩ := bind_eq_ok.1 h
  obtain ⟨_, h⟩ := guard_eq_ok.1 h
  obtain ⟨_, h⟩ := guard_eq_ok.1 h
  cases h
  exact ⟨content, hcontent, rfl, rfl, rfl, rfl, rfl, rfl, rfl, rfl⟩

theorem foldlM_addLength {l : List Block} {init sum : ℕ} (h : l.foldlM addLength init = .ok sum) :
    sum = init + (l.map (·.length)).sum := by
  induction l generalizing init with
  | nil =>
    cases h
    rfl
  | cons b l ih =>
    rw [List.foldlM_cons] at h
    obtain ⟨next, hnext, h⟩ := bind_eq_ok.1 h
    have hadd : next = init + b.length := by
      unfold addLength at hnext
      cases hc : checkedAdd init b.length with
      | none =>
        rw [hc] at hnext
        cases hnext
      | some n =>
        rw [hc] at hnext
        cases hnext
        exact ((checkedAdd_eq_some_iff _ _ _).1 hc).2
    rw [ih h, hadd, List.map_cons, List.sum_cons, Nat.add_assoc]

theorem contentBytes_ok {content : ℕ} (h : contentBytes s = .ok content) :
    content = (s.blocks.entries.map fun e => e.2.length).sum := by
  rw [foldlM_addLength h, Nat.zero_add, OrdMap.values, List.map_map]
  rfl

theorem Describes.mem_keys (hd : Describes objects s) (n : ℕ) :
    n ∈ s.blocks.keys ↔ n ∈ blockNumbers objects := by
  rw [OrdMap.mem_keys, ← contents_ne_nil, hd.blocks n, Ne, ← List.head?_eq_none_iff]
  exact Option.ne_none_iff_exists'.symm

theorem Describes.sum_lengths (hd : Describes objects s) :
    (s.blocks.entries.map fun e => e.2.length).sum =
      ((blockNumbers objects).dedup.map (firstLength objects)).sum := by
  have hlengths : (s.blocks.entries.map fun e => e.2.length) =
      s.blocks.keys.map (firstLength objects) := by
    rw [OrdMap.keys, List.map_map]
    apply List.map_congr_left
    intro e he
    have hget : s.blocks.get? e.1 = some e.2 := (s.blocks.get?_eq_some_iff e.1 e.2).2 he
    rw [hd.blocks] at hget
    rw [Function.comp_apply, firstLength, hget]
    rfl
  have hperm : s.blocks.keys.Perm (blockNumbers objects).dedup := by
    have hnodup : s.blocks.keys.Nodup := s.blocks.keys_sorted.imp Nat.ne_of_lt
    apply (List.perm_ext_iff_of_nodup hnodup (List.nodup_dedup _)).2
    intro n
    rw [List.mem_dedup]
    exact hd.mem_keys n
  rw [hlengths]
  exact (hperm.map _).sum_eq

theorem Describes.mem_of_missing (hd : Describes objects s) (h : missing s = []) {n : ℕ}
    (hn : n < upper s) (hword : n < 2 ^ 32) : n ∈ blockNumbers objects := by
  rw [← hd.mem_keys, OrdMap.mem_keys, ← Option.isSome_iff_exists]
  have hnot := List.filter_eq_nil_iff.1 h n (List.mem_range.2 hn)
  rw [Nat.mod_eq_of_lt hword] at hnot
  cases hget : s.blocks.get? n with
  | none =>
    rw [hget] at hnot
    exact absurd rfl hnot
  | some b => rfl

theorem lt_expected {size maximum n : ℕ} (hmax : 0 < maximum) :
    n < (size + maximum - 1) / maximum ↔ n * maximum < size := by
  rw [← Nat.succ_le_iff, Nat.le_div_iff_mul_le hmax, Nat.succ_mul]
  omega

theorem lt_upper_of_undeclared {d : Descriptor} (hdeclared : s.declared = some d)
    (hmax : ¬ 0 < d.maximumBlockSize) {n : ℕ} (hn : n ∈ s.blocks.keys) : n < upper s := by
  have hexpected : expected s = none := by
    rw [expected, hdeclared, Option.filter_some_neg (by simpa using hmax)]
    rfl
  rw [upper, hexpected, Option.getD_none]
  have hne : s.blocks.keys ≠ [] := List.ne_nil_of_mem hn
  rw [List.getLast?_eq_some_getLast hne]
  have hle : n ≤ s.blocks.keys.getLast hne :=
    (s.blocks.keys_sorted.imp Nat.le_of_lt).rel_getLast hn
  exact Nat.lt_succ_of_le hle

theorem Describes.gapFree_iff (hd : Describes objects s) (h : missing s = []) {d : Descriptor}
    (hdeclared : s.declared = some d) : GapFree objects ↔ Follows objects := by
  constructor
  · intro hgap d' _ _ n hn _
    exact closed_of_gapFree hgap hn
  · intro hfollows
    apply exists_bound_of_closed
    intro n hn
    have hword := blockNumbers_lt hn
    by_cases hmax : 0 < d.maximumBlockSize
    · by_cases hend : d.fileSize ≤ n * d.maximumBlockSize
      · exact hfollows d (hd.declared ▸ hdeclared) hmax n hn hend
      · have hexpected : upper s = (d.fileSize + d.maximumBlockSize - 1) / d.maximumBlockSize := by
          rw [upper, expected, hdeclared, Option.filter_some_pos (by simpa using hmax)]
          rfl
        have hlt : n < upper s := hexpected ▸ (lt_expected hmax).2 (Nat.not_le.1 hend)
        exact .inr (hd.mem_of_missing h (by omega) (by omega))
    · have hlt := lt_upper_of_undeclared hdeclared hmax ((hd.mem_keys n).2 hn)
      exact .inr (hd.mem_of_missing h (by omega) (by omega))

theorem complete_ok (h : projection s limits = .ok p)
    (hstatus : p.status = .candidateCompleteSourceCoverage) :
    s.conflictingBlocks.keys = [] ∧ missing s = [] ∧ ∃ d content, s.declared = some d ∧
      contentBytes s = .ok content ∧ d.fileSize = content := by
  obtain ⟨content, hcontent, hs, _⟩ := projection_ok h
  rw [hs] at hstatus
  split at hstatus
  · cases hstatus
  split at hstatus
  next hcomplete =>
    rw [coverageComplete, Bool.and_eq_true, Bool.and_eq_true, List.isEmpty_iff,
      List.isEmpty_iff] at hcomplete
    obtain ⟨⟨hconflict, hmissing⟩, hdeclared⟩ := hcomplete
    cases hd : s.declared with
    | none =>
      rw [hd] at hdeclared
      cases hdeclared
    | some d =>
      rw [hd] at hdeclared
      exact ⟨hconflict, hmissing, d, content, rfl, hcontent, of_decide_eq_true hdeclared⟩
  · cases hstatus

theorem Describes.complete (hd : Describes objects s) (h : projection s limits = .ok p)
    (hstatus : p.status = .candidateCompleteSourceCoverage) :
    OneContent objects ∧ Covers objects ∧ p.missingBlocks = [] ∧
      (GapFree objects ↔ Follows objects) := by
  obtain ⟨hconflict, hmissing, d, content, hdeclared, hcontent, hsize⟩ := complete_ok h hstatus
  obtain ⟨_, _, _, _, _, _, _, _, _, hp⟩ := projection_ok h
  refine ⟨fun n a ha b hb => ?_, ⟨d, hd.declared ▸ hdeclared, ?_⟩, hp.trans hmissing,
    hd.gapFree_iff hmissing hdeclared⟩
  · by_contra hne
    have hmem := (hd.conflicting n).2 ⟨a, ha, b, hb, hne⟩
    rw [hconflict] at hmem
    cases hmem
  · rw [← hd.sum_lengths, ← contentBytes_ok hcontent, hsize]

end Projection

namespace FileReconciler

/-- A call on the reconciler. -/
inductive Call where
  | observe (o : Observation) (limits : Bgp.Limits)
  | resetSession (session : ℕ)
  | reset

/-- A call, with the histories of what was taken since the states were created. -/
def Call.step : Call → FileReconciler × History → FileReconciler × History
  | observe o limits, (r, h) => ((r.observe o limits).2, h.extend o (observed o limits r))
  | resetSession session, (r, h) =>
    (r.resetSession session, fun k => if k.scope.session = session then [] else h k)
  | reset, _ => (new, fun _ => [])

def run (calls : List Call) : FileReconciler × History :=
  calls.foldl (fun t call => call.step t) (new, fun _ => [])

section Run

variable {o : Observation} {limits : Bgp.Limits} {r t : FileReconciler} {h : History} {p : Projection}

theorem Known.resetSession (hk : Known h r) (session : ℕ) :
    Known (fun k => if k.scope.session = session then [] else h k) (r.resetSession session) := by
  constructor
  · intro k hnone
    change (r.states.retain _).get k = none at hnone
    rw [FinMap.get_retain] at hnone
    by_cases hsession : k.scope.session = session
    · exact if_pos hsession
    · rw [if_pos (decide_eq_true hsession)] at hnone
      exact (if_neg hsession).trans (hk.absent k hnone)
  · intro k s hs
    change (r.states.retain _).get k = some s at hs
    rw [FinMap.get_retain] at hs
    by_cases hsession : k.scope.session = session
    · rw [if_neg (by simpa using hsession)] at hs
      cases hs
    · rw [if_pos (decide_eq_true hsession)] at hs
      simp only [if_neg hsession]
      exact hk.present k s hs

theorem Known.step {t : FileReconciler × History} (hk : Known t.2 t.1) (call : Call) :
    Known (call.step t).2 (call.step t).1 := by
  cases call with
  | observe o limits => exact hk.observe
  | resetSession session => exact hk.resetSession session
  | reset => exact known_new

theorem known_run (calls : List Call) : Known (run calls).2 (run calls).1 := by
  induction calls using List.reverseRecOn with
  | nil => exact known_new
  | append_singleton calls call ih =>
    rw [run, List.foldl_concat]
    exact Known.step ih call

theorem report_ok {handles : List ℕ} (h : report o limits handles r = (.ok (some (.projection p)), t)) :
    ∃ k s, t.states.get k = some s ∧ projection s limits = .ok p := by
  have hstate : t = r := (congrArg Prod.snd h).symm.trans (report_state handles)
  rw [hstate]
  unfold report at h
  split at h
  · cases (Prod.mk.inj h).1
  next handle =>
    rw [Method.read_bind] at h
    cases hs : r.states.get ⟨o.scope, BitVec.ofNat 32 handle⟩ with
    | none =>
      rw [hs] at h
      cases (Prod.mk.inj h).1
    | some s =>
      rw [hs] at h
      obtain ⟨q, hq, h⟩ := Method.lift_bind_ok h
      cases (Prod.mk.inj h).1
      exact ⟨_, s, hs, hq⟩
  · cases (Prod.mk.inj h).1

theorem observe_projection (h : observe o limits r = (.ok (some (.projection p)), t)) :
    ∃ k s, t.states.get k = some s ∧ projection s limits = .ok p := by
  unfold observe at h
  obtain ⟨parsed, _, h⟩ := Method.lift_bind_ok h
  cases parsed with
  | none | unsupported | incomplete => cases (Prod.mk.inj h).1
  | objects objects =>
    obtain ⟨touched, _, _, h⟩ := Method.bind_ok h
    cases touched with
    | none => cases (Prod.mk.inj h).1
    | some touched =>
      obtain ⟨_, _, _, h⟩ := Method.bind_ok h
      exact report_ok h

end Run

def sampleMessage (objects : List U8) : Observation where
  session := 7
  direction := 1
  source := 1
  destination := 2
  function := 129
  objects := ⟨objects, [], true⟩
  evidence := .null

def sampleStatus : List U8 := [70, 4, 0x5b, 1, 13, 0, 9, 0, 0, 0, 10, 0, 0, 0, 10, 0, 1, 0, 0]

def sampleBlock (number : U8) (content : List U8) : List U8 :=
  [70, 5, 0x5b, 1, BitVec.ofNat 8 (content.length + 8), 0, 9, 0, 0, 0, number, 0, 0, 0] ++ content

def sampleCalls : List Call :=
  [.observe (sampleMessage sampleStatus) .default,
    .observe (sampleMessage (sampleBlock 0 [1, 2, 3, 4, 5])) .default]

def sampleKey : Key := ⟨⟨7, 1, 2⟩, 9⟩

def sampleProjection (number : U8) : Option Projection :=
  match ((run sampleCalls).1.observe (sampleMessage (sampleBlock number [6, 7, 8, 9, 10])) .default).1 with
  | .ok (some (.projection p)) => some p
  | _ => none

theorem sample_complete : ((sampleProjection 1).any fun p =>
    p.status = .candidateCompleteSourceCoverage) = true := by
  decide +kernel

def sampleObjects (k : Key) : List FileObject :=
  (run (sampleCalls ++ [.observe (sampleMessage (sampleBlock 1 [6, 7, 8, 9, 10])) .default])).2 k

end FileReconciler

end PcapEvidence.DnpFile
