import Mathlib.Tactic

/-!
# What an iterator yields

An iterator is a step function on a state that returns an item, an error or nothing. `Drains` is
its complete observable behaviour when that is finite: some items, then an end or one error, and
nothing ever after. It determines the items and the end.
-/

namespace PcapEvidence.IterTrace

variable {σ ι ε : Type} {next : σ → Option (Except ε ι) × σ}

def after (next : σ → Option (Except ε ι) × σ) (s : σ) : ℕ → σ
  | 0 => s
  | n + 1 => after next (next s).2 n

/-- Every further call yields nothing. -/
def Silent (next : σ → Option (Except ε ι) × σ) (s : σ) : Prop :=
  ∀ n, (next (after next s n)).1 = none

/-- The state yields exactly these items, then the end (`none`) or one error, then nothing. -/
inductive Drains (next : σ → Option (Except ε ι) × σ) : σ → List ι → Option ε → Prop
  | done {s : σ} (hnone : (next s).1 = none) (hsilent : Silent next (next s).2) :
      Drains next s [] none
  | failed {s : σ} {e : ε} (herror : (next s).1 = some (.error e))
      (hsilent : Silent next (next s).2) : Drains next s [] (some e)
  | item {s : σ} {x : ι} {xs : List ι} {stop : Option ε} (hitem : (next s).1 = some (.ok x))
      (hrest : Drains next (next s).2 xs stop) : Drains next s (x :: xs) stop

theorem Drains.unique {s : σ} {xs ys : List ι} {stop stop' : Option ε} (h : Drains next s xs stop)
    (h' : Drains next s ys stop') : xs = ys ∧ stop = stop' := by
  induction h generalizing ys with
  | done hnone _ =>
    cases h' with
    | done => exact ⟨rfl, rfl⟩
    | failed herror => exact absurd (hnone.symm.trans herror) (by simp)
    | item hitem => exact absurd (hnone.symm.trans hitem) (by simp)
  | failed herror _ =>
    cases h' with
    | done hnone => exact absurd (hnone.symm.trans herror) (by simp)
    | failed herror' =>
      have hsame := herror.symm.trans herror'
      exact ⟨rfl, congrArg some (Except.error.inj (Option.some.inj hsame))⟩
    | item hitem => exact absurd (herror.symm.trans hitem) (by simp)
  | item hitem _ ih =>
    cases h' with
    | done hnone => exact absurd (hnone.symm.trans hitem) (by simp)
    | failed herror => exact absurd (herror.symm.trans hitem) (by simp)
    | item hitem' hrest' =>
      obtain ⟨rfl, rfl⟩ := ih hrest'
      have hsame := hitem.symm.trans hitem'
      exact ⟨congrArg (· :: _) (Except.ok.inj (Option.some.inj hsame)), rfl⟩

theorem silent_of_fixed {s : σ} (h : next s = (none, s)) : Silent next s := by
  have hafter (n : ℕ) : after next s n = s := by
    induction n with
    | zero => rfl
    | succ n ih => rw [after, h, ih]
  intro n
  rw [hafter n, h]

end PcapEvidence.IterTrace
