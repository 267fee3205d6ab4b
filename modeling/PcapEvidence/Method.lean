import Mathlib.Tactic

/-!
# Methods on a mutable state

A method takes a state and returns a result beside the state it leaves behind, so a failing method
shows what it has already changed. `Sat` is the pre- and postcondition reading of one call, with
separate postconditions for success and failure; its rules follow the way methods are composed.
-/

namespace PcapEvidence

/-- The result of a call and the state after it. -/
def Method (σ ε α : Type) : Type := σ → Except ε α × σ

namespace Method

variable {σ ε α β : Type}

instance : Monad (Method σ ε) where
  pure a := fun s => (.ok a, s)
  bind m f := fun s =>
    match m s with
    | (.ok a, t) => f a t
    | (.error e, t) => (.error e, t)

def read : Method σ ε σ := fun s => (.ok s, s)

def update (f : σ → σ) : Method σ ε Unit := fun s => (.ok (), f s)

def fail (e : ε) : Method σ ε α := fun s => (.error e, s)

/-- A check or a computation that does not touch the state. -/
def lift (r : Except ε α) : Method σ ε α := fun s => (r, s)

section Run

variable {s : σ}

theorem read_bind (f : σ → Method σ ε β) : (read >>= f) s = f s s := rfl

theorem update_bind (g : σ → σ) (f : Unit → Method σ ε β) : (update g >>= f) s = f () (g s) := rfl

theorem lift_bind {r : Except ε α} {a : α} (h : r = .ok a) (f : α → Method σ ε β) :
    (lift r >>= f) s = f a s := by
  rw [h]
  rfl

theorem lift_bind_error {r : Except ε α} {e : ε} (h : r = .error e) (f : α → Method σ ε β) :
    (lift r >>= f) s = (.error e, s) := by
  rw [h]
  rfl

theorem bind_of_ok {m : Method σ ε α} {a : α} {t : σ} (h : m s = (.ok a, t))
    (f : α → Method σ ε β) : (m >>= f) s = f a t := by
  change (match m s with | (.ok a, t) => f a t | (.error e, t) => (.error e, t)) = _
  rw [h]

theorem bind_of_error {m : Method σ ε α} {e : ε} {t : σ} (h : m s = (.error e, t))
    (f : α → Method σ ε β) : (m >>= f) s = (.error e, t) := by
  change (match m s with | (.ok a, t) => f a t | (.error e, t) => (.error e, t)) = _
  rw [h]

theorem bind_ok {m : Method σ ε α} {f : α → Method σ ε β} {b : β} {u : σ}
    (h : (m >>= f) s = (.ok b, u)) : ∃ a t, m s = (.ok a, t) ∧ f a t = (.ok b, u) := by
  change (match m s with | (.ok a, t) => f a t | (.error e, t) => (.error e, t)) = _ at h
  rcases hm : m s with ⟨result, t⟩
  rw [hm] at h
  cases result with
  | ok a => exact ⟨a, t, rfl, h⟩
  | error e => cases h

theorem lift_bind_ok {r : Except ε α} {f : α → Method σ ε β} {b : β} {u : σ}
    (h : (lift r >>= f) s = (.ok b, u)) : ∃ a, r = .ok a ∧ f a s = (.ok b, u) := by
  cases r with
  | ok a => exact ⟨a, rfl, h⟩
  | error e => cases h

theorem guard_ok {c : Prop} [Decidable c] {e : ε} {m : Method σ ε α} {a : α} {t : σ}
    (h : (if c then fail e else m) s = (.ok a, t)) : ¬ c ∧ m s = (.ok a, t) := by
  by_cases hc : c
  · rw [if_pos hc] at h
    cases h
  · rw [if_neg hc] at h
    exact ⟨hc, h⟩

end Run

/-- The call from `s` ends in `ok`, or fails in `err`. -/
def Sat (m : Method σ ε α) (s : σ) (ok : α → σ → Prop) (err : ε → σ → Prop) : Prop :=
  match m s with
  | (.ok a, t) => ok a t
  | (.error e, t) => err e t

section Rules

variable {s : σ} {ok : α → σ → Prop} {ok' : β → σ → Prop} {err : ε → σ → Prop}

theorem sat_pure {a : α} (h : ok a s) : Sat (pure a : Method σ ε α) s ok err := h

theorem sat_fail {e : ε} (h : err e s) : Sat (fail e : Method σ ε α) s ok err := h

theorem sat_bind {m : Method σ ε α} {f : α → Method σ ε β}
    (h : Sat m s (fun a t => Sat (f a) t ok' err) err) : Sat (m >>= f) s ok' err := by
  unfold Sat at h ⊢
  change (match (match m s with | (.ok a, t) => f a t | (.error e, t) => (.error e, t)) with
    | (.ok b, t) => ok' b t | (.error e, t) => err e t)
  match hm : m s with
  | (.ok a, t) =>
    rw [hm] at h
    exact h
  | (.error e, t) =>
    rw [hm] at h
    exact h

theorem sat_read_bind {f : σ → Method σ ε β} (h : Sat (f s) s ok' err) :
    Sat (read >>= f) s ok' err := h

theorem sat_update_bind {g : σ → σ} {f : Unit → Method σ ε β} (h : Sat (f ()) (g s) ok' err) :
    Sat (update g >>= f) s ok' err := h

theorem sat_lift_bind {r : Except ε α} {f : α → Method σ ε β}
    (hok : ∀ a, r = .ok a → Sat (f a) s ok' err) (herr : ∀ e, r = .error e → err e s) :
    Sat (lift r >>= f) s ok' err := by
  cases r with
  | ok a => exact hok a rfl
  | error e => exact herr e rfl

theorem sat_ite {c : Prop} [Decidable c] {m n : Method σ ε α} (hpos : c → Sat m s ok err)
    (hneg : ¬ c → Sat n s ok err) : Sat (if c then m else n) s ok err := by
  by_cases hc : c
  · rw [if_pos hc]
    exact hpos hc
  · rw [if_neg hc]
    exact hneg hc

theorem Sat.mono {m : Method σ ε α} {ok₁ : α → σ → Prop} {err₁ : ε → σ → Prop}
    (h : Sat m s ok err) (hok : ∀ a t, ok a t → ok₁ a t) (herr : ∀ e t, err e t → err₁ e t) :
    Sat m s ok₁ err₁ := by
  unfold Sat at h ⊢
  match hm : m s with
  | (.ok a, t) =>
    rw [hm] at h
    exact hok a t h
  | (.error e, t) =>
    rw [hm] at h
    exact herr e t h

theorem sat_of_eq {m : Method σ ε α} {a : α} {t : σ} (hm : m s = (.ok a, t)) (h : ok a t) :
    Sat m s ok err := by
  unfold Sat
  rw [hm]
  exact h

theorem Sat.of_ok {m : Method σ ε α} {a : α} {t : σ} (h : Sat m s ok err) (hm : m s = (.ok a, t)) :
    ok a t := by
  unfold Sat at h
  rwa [hm] at h

theorem Sat.of_error {m : Method σ ε α} {e : ε} {t : σ} (h : Sat m s ok err)
    (hm : m s = (.error e, t)) : err e t := by
  unfold Sat at h
  rwa [hm] at h

end Rules

end Method
end PcapEvidence

/-!
## Loops of methods

A loop repeats a method until it says that it is done. It runs on fuel and fails with an error of
its own when that has not been enough, so its rule has to show that it ends: an invariant, with a
measure that every turn decreases.
-/

namespace PcapEvidence.Method

variable {σ ε α β : Type}

/-- The turns of a loop from `a`: `.inl` starts another one and `.inr` ends the loop. -/
def loop (stuck : ε) (body : α → Method σ ε (α ⊕ β)) : ℕ → α → Method σ ε β
  | 0, _ => fail stuck
  | fuel + 1, a => do
    let r ← body a
    match r with
    | .inl a => loop stuck body fuel a
    | .inr b => pure b

def Succeeds (m : Method σ ε α) (s : σ) (ok : α → σ → Prop) : Prop := Sat m s ok fun _ _ => False

section Succeeds

variable {s : σ} {m : Method σ ε α} {ok : α → σ → Prop} {ok' : β → σ → Prop}

theorem Succeeds.of_eq {a : α} {t : σ} (hm : m s = (.ok a, t)) (h : ok a t) : Succeeds m s ok :=
  sat_of_eq hm h

theorem Succeeds.pure {a : α} (h : ok a s) : Succeeds (Pure.pure a : Method σ ε α) s ok := h

theorem Succeeds.bind {f : α → Method σ ε β} (hm : Succeeds m s ok)
    (hf : ∀ a t, ok a t → Succeeds (f a) t ok') : Succeeds (m >>= f) s ok' :=
  sat_bind (hm.mono hf fun _ _ he => he)

theorem Succeeds.mono {ok₁ : α → σ → Prop} (h : Succeeds m s ok) (hok : ∀ a t, ok a t → ok₁ a t) :
    Succeeds m s ok₁ :=
  Sat.mono h hok fun _ _ he => he

theorem Succeeds.exists_ok (h : Succeeds m s ok) : ∃ a t, m s = (.ok a, t) ∧ ok a t := by
  unfold Succeeds Sat at h
  rcases hm : m s with ⟨result, t⟩
  rw [hm] at h
  cases result with
  | ok a => exact ⟨a, t, rfl, h⟩
  | error e => exact h.elim

end Succeeds

def Turn (I : α → σ → Prop) (μ : α → ℕ) (ok : β → σ → Prop) (a : α) : α ⊕ β → σ → Prop
  | .inl a', t => I a' t ∧ μ a' < μ a
  | .inr b, t => ok b t

theorem succeeds_loop {stuck : ε} {body : α → Method σ ε (α ⊕ β)} {I : α → σ → Prop} (μ : α → ℕ)
    {ok : β → σ → Prop} (hbody : ∀ a s, I a s → Succeeds (body a) s (Turn I μ ok a)) {fuel : ℕ}
    {a : α} {s : σ} (ha : I a s) (hfuel : μ a < fuel) : Succeeds (loop stuck body fuel a) s ok := by
  induction fuel generalizing a s with
  | zero => omega
  | succ fuel ih =>
    refine (hbody a s ha).bind fun r t hr => ?_
    cases r with
    | inl a' => exact ih hr.1 (by have := hr.2; omega)
    | inr b => exact .pure hr

theorem succeeds_foldlM {γ : Type} {f : α → γ → Method σ ε α} (I : List γ → α → σ → Prop)
    (hstep : ∀ x rest a s, I (x :: rest) a s → Succeeds (f a x) s (I rest)) {l : List γ} {a : α}
    {s : σ} (hs : I l a s) : Succeeds (l.foldlM f a) s (I []) := by
  induction l generalizing a s with
  | nil => exact .pure hs
  | cons x rest ih => exact (hstep x rest a s hs).bind fun b t ht => ih ht

end PcapEvidence.Method
