import PcapEvidence.DnpFileObjects

/-!
# File reconciliation over a run

Every state of a run is described by the objects that were taken for its transfer since it was last
reset. One object, one message and one reset keep this, so every run does.
-/

namespace PcapEvidence.DnpFile

open FiniteMap OrderedMap

namespace FileReconciler

section Object

variable {o : Observation} {limits : Bgp.Limits} {r t : FileReconciler} {x : FileObject}

theorem edit_ok {key : Key} {function : U8} {f : State → State} {u : Unit}
    (h : edit key function limits f r = (.ok u, t)) :
    t = ⟨r.pending, r.states.insert key (f ((r.states.get key).getD (State.new key function)))⟩ := by
  unfold edit at h
  rw [Method.read_bind] at h
  cases hs : r.states.get key with
  | some s =>
    rw [hs] at h
    exact (Prod.mk.inj h).2.symm
  | none =>
    rw [hs] at h
    dsimp only at h
    obtain ⟨_, h⟩ := Method.guard_ok h
    exact (Prod.mk.inj h).2.symm

theorem edit_error {key : Key} {function : U8} {f : State → State} {e : Error}
    (h : edit key function limits f r = (.error e, t)) : t = r := by
  unfold edit at h
  rw [Method.read_bind] at h
  cases hs : r.states.get key with
  | some s =>
    rw [hs] at h
    cases (Prod.mk.inj h).1
  | none =>
    rw [hs] at h
    dsimp only at h
    split at h
    · exact (Prod.mk.inj h).2.symm
    · cases (Prod.mk.inj h).1

structure Taken (o : Observation) (x : FileObject) (handle : U32) (r t : FileReconciler) : Prop where
  handle_eq : x.handle? = some handle
  states : ∃ pending, t.states = r.states.insert ⟨o.scope, handle⟩
    (((r.states.get ⟨o.scope, handle⟩).getD (State.new ⟨o.scope, handle⟩ o.function)).take
      o.direction pending x) ∧ (r.pending = .empty → pending = none)
  pending : r.pending = .empty → t.pending = .empty

theorem retain_empty {κ ν : Type} [DecidableEq κ] (p : κ → Bool) :
    (FinMap.empty : FinMap κ ν).retain p = .empty := by
  ext k : 1
  rw [FinMap.get_retain, FinMap.get_empty, ite_self]

theorem applyObject_some {handle : U32} (h : applyObject o limits x r = (.ok (some handle), t)) :
    Taken o x handle r t := by
  cases x with
  | descriptor variation requestId declared =>
    unfold applyObject at h
    dsimp only at h
    rw [Method.read_bind] at h
    obtain ⟨_, h⟩ := Method.guard_ok h
    cases (Prod.mk.inj h).1
  | specification | authentication => cases (Prod.mk.inj h).1
  | status variation handle' requestId declared status =>
    unfold applyObject at h
    dsimp only at h
    rw [Method.read_bind, Method.update_bind] at h
    obtain ⟨_, _, hedit, hpure⟩ := Method.bind_ok h
    obtain ⟨hhandle, rfl⟩ := Prod.mk.inj hpure
    cases hhandle
    obtain rfl := edit_ok hedit
    refine ⟨rfl, ⟨r.pending.get (o.scope, requestId), rfl, fun hempty => ?_⟩, fun hempty => ?_⟩
    · rw [hempty]
      rfl
    · dsimp only
      rw [hempty]
      exact retain_empty _
  | block variation handle' number content =>
    obtain ⟨_, _, hedit, hpure⟩ := Method.bind_ok h
    obtain ⟨hhandle, rfl⟩ := Prod.mk.inj hpure
    cases hhandle
    obtain rfl := edit_ok hedit
    exact ⟨rfl, ⟨none, rfl, fun _ => rfl⟩, id⟩
  | blockStatus variation handle' number status =>
    obtain ⟨_, _, hedit, hpure⟩ := Method.bind_ok h
    obtain ⟨hhandle, rfl⟩ := Prod.mk.inj hpure
    cases hhandle
    obtain rfl := edit_ok hedit
    exact ⟨rfl, ⟨none, rfl, fun _ => rfl⟩, id⟩

theorem applyObject_none (h : applyObject o limits x r = (.ok none, t)) :
    x.handle? = none ∧ t.states = r.states := by
  cases x with
  | descriptor variation requestId declared =>
    unfold applyObject at h
    dsimp only at h
    rw [Method.read_bind] at h
    obtain ⟨_, h⟩ := Method.guard_ok h
    obtain ⟨_, rfl⟩ := Prod.mk.inj h
    exact ⟨rfl, rfl⟩
  | specification | authentication =>
    obtain ⟨_, rfl⟩ := Prod.mk.inj h
    exact ⟨rfl, rfl⟩
  | status variation handle' requestId declared status =>
    unfold applyObject at h
    dsimp only at h
    rw [Method.read_bind, Method.update_bind] at h
    obtain ⟨_, _, _, h⟩ := Method.bind_ok h
    cases (Prod.mk.inj h).1
  | block variation handle' number content =>
    obtain ⟨_, _, _, h⟩ := Method.bind_ok h
    cases (Prod.mk.inj h).1
  | blockStatus variation handle' number status =>
    obtain ⟨_, _, _, h⟩ := Method.bind_ok h
    cases (Prod.mk.inj h).1

theorem bind_error {σ α β : Type} {m : Method σ Error α} {f : α → Method σ Error β} {s u : σ}
    {e : Error} (h : (m >>= f) s = (.error e, u)) :
    m s = (.error e, u) ∨ ∃ a v, m s = (.ok a, v) ∧ f a v = (.error e, u) := by
  rcases hm : m s with ⟨_ | a, v⟩
  · rw [Method.bind_of_error hm] at h
    cases h
    exact .inl rfl
  · rw [Method.bind_of_ok hm] at h
    exact .inr ⟨a, v, rfl, h⟩

theorem applyObject_error {e : Error} (h : applyObject o limits x r = (.error e, t)) :
    t.states = r.states := by
  cases x with
  | descriptor variation requestId declared =>
    unfold applyObject at h
    dsimp only at h
    rw [Method.read_bind] at h
    split at h
    · exact congrArg states (Prod.mk.inj h).2.symm
    · cases (Prod.mk.inj h).1
  | specification | authentication => cases (Prod.mk.inj h).1
  | status variation handle' requestId declared status =>
    unfold applyObject at h
    dsimp only at h
    rw [Method.read_bind, Method.update_bind] at h
    rcases bind_error h with h | ⟨_, _, _, h⟩
    · rw [edit_error h]
    · cases (Prod.mk.inj h).1
  | block variation handle' number content =>
    rcases bind_error h with h | ⟨_, _, _, h⟩
    · rw [edit_error h]
    · cases (Prod.mk.inj h).1
  | blockStatus variation handle' number status =>
    rcases bind_error h with h | ⟨_, _, _, h⟩
    · rw [edit_error h]
    · cases (Prod.mk.inj h).1

end Object

/-- The objects that were taken for each transfer. -/
abbrev History := Key → List FileObject

def History.extend (h : History) (o : Observation) (objects : List FileObject) : History := fun k =>
  if k.scope = o.scope then h k ++ objects.filter (·.handle? = some k.handle) else h k

def takenObjects (o : Observation) (limits : Bgp.Limits) :
    List FileObject → FileReconciler → List FileObject
  | [], _ => []
  | .authentication :: _, _ => []
  | x :: rest, r =>
    match applyObject o limits x r with
    | (.ok _, t) => x :: takenObjects o limits rest t
    | (.error _, _) => []

def observed (o : Observation) (limits : Bgp.Limits) (r : FileReconciler) : List FileObject :=
  match parse o.objects limits with
  | .ok (.objects objects) => takenObjects o limits objects r
  | _ => []

structure Known (h : History) (r : FileReconciler) : Prop where
  absent : ∀ k, r.states.get k = none → h k = []
  present : ∀ k s, r.states.get k = some s → Describes (h k) s ∧ s.key = k

section Run

variable {o : Observation} {limits : Bgp.Limits} {r t : FileReconciler} {x : FileObject} {h : History}

theorem extend_nil : h.extend o [] = h := by
  funext k
  rw [History.extend, List.filter_nil, List.append_nil, ite_self]

theorem extend_cons (objects : List FileObject) :
    h.extend o (x :: objects) = (h.extend o [x]).extend o objects := by
  funext k
  simp only [History.extend]
  split
  · rw [List.append_assoc, ← List.filter_append, List.singleton_append]
  · rfl

theorem extend_none (hx : x.handle? = none) : h.extend o [x] = h := by
  funext k
  rw [History.extend, List.filter_cons_of_neg (by simp [hx]), List.filter_nil, List.append_nil,
    ite_self]

theorem Known.congr (hk : Known h r) (hstates : t.states = r.states) : Known h t :=
  ⟨fun k => hstates ▸ hk.absent k, fun k => hstates ▸ hk.present k⟩

theorem known_new : Known (fun _ => []) new :=
  ⟨fun _ _ => rfl, fun _ _ hs => by cases hs⟩

theorem Known.getD (hk : Known h r) (k : Key) (function : U8) :
    Describes (h k) ((r.states.get k).getD (State.new k function)) ∧
      ((r.states.get k).getD (State.new k function)).key = k := by
  cases hs : r.states.get k with
  | none =>
    rw [hk.absent k hs]
    exact ⟨describes_new k function, rfl⟩
  | some s => exact hk.present k s hs

theorem Known.taken {handle : U32} (hk : Known h r) (ht : Taken o x handle r t) :
    Known (h.extend o [x]) t := by
  obtain ⟨pending, hstates, _⟩ := ht.states
  have hself : (h.extend o [x]) ⟨o.scope, handle⟩ = h ⟨o.scope, handle⟩ ++ [x] := by
    rw [History.extend, if_pos rfl, List.filter_cons_of_pos (by simp [ht.handle_eq]), List.filter_nil]
  have hother : ∀ k : Key, k ≠ ⟨o.scope, handle⟩ → (h.extend o [x]) k = h k := by
    intro k hne
    rw [History.extend]
    split
    next hscope =>
      have hhandle : x.handle? ≠ some k.handle := by
        intro heq
        rw [ht.handle_eq] at heq
        apply hne
        rw [Option.some.inj heq, ← hscope]
      rw [List.filter_cons_of_neg (by simpa using hhandle), List.filter_nil, List.append_nil]
    next => rfl
  constructor
  · intro k hs
    rw [hstates] at hs
    by_cases hkey : k = ⟨o.scope, handle⟩
    · subst hkey
      rw [FinMap.get_insert_self] at hs
      cases hs
    · rw [FinMap.get_insert_of_ne _ hkey] at hs
      rw [hother k hkey]
      exact hk.absent k hs
  · intro k s hs
    rw [hstates] at hs
    by_cases hkey : k = ⟨o.scope, handle⟩
    · subst hkey
      rw [FinMap.get_insert_self] at hs
      obtain rfl := Option.some.inj hs
      obtain ⟨hdesc, hkey⟩ := hk.getD ⟨o.scope, handle⟩ o.function
      rw [hself]
      exact ⟨hdesc.take ht.handle_eq, (key_take _ _ _ x).trans hkey⟩
    · rw [FinMap.get_insert_of_ne _ hkey] at hs
      rw [hother k hkey]
      exact hk.present k s hs

theorem Known.applyObjects (o : Observation) (limits : Bgp.Limits) (hk : Known h r)
    (objects : List FileObject) (touched : OrdSet ℕ) :
    Known (h.extend o (takenObjects o limits objects r))
      (applyObjects o limits objects touched r).2 := by
  induction objects generalizing h r touched with
  | nil =>
    rw [takenObjects, extend_nil]
    exact hk
  | cons x rest ih =>
    by_cases hauth : x = .authentication
    · subst hauth
      rw [takenObjects, extend_nil]
      exact hk
    rw [takenObjects, FileReconciler.applyObjects]
    · rcases happly : applyObject o limits x r with ⟨_ | handle, t⟩
      · rw [Method.bind_of_error happly]
        dsimp only
        rw [extend_nil]
        exact hk.congr (applyObject_error happly)
      · rw [Method.bind_of_ok happly]
        dsimp only
        rw [extend_cons]
        cases handle with
        | none =>
          obtain ⟨hnone, hstates⟩ := applyObject_none happly
          rw [extend_none hnone]
          exact ih (hk.congr hstates) touched
        | some handle => exact ih (hk.taken (applyObject_some happly)) _
    · exact fun heq => hauth heq
    · exact fun heq => hauth heq

theorem Describes.congr {objects : List FileObject} {s u : State} (hd : Describes objects s)
    (hblocks : u.blocks = s.blocks) (hconflicting : u.conflictingBlocks = s.conflictingBlocks)
    (hdeclared : u.declared = s.declared) (hcodes : u.statusCodes = s.statusCodes) :
    Describes objects u :=
  ⟨hblocks ▸ hd.blocks, hconflicting ▸ hd.conflicting, hdeclared ▸ hd.declared,
    hcodes ▸ hd.statusCodes⟩

theorem Known.addWitnesses (o : Observation) (limits : Bgp.Limits) (hk : Known h r)
    (handles : List ℕ) : Known h (addWitnesses o limits handles r).2 := by
  induction handles generalizing r with
  | nil => exact hk
  | cons handle rest ih =>
    unfold FileReconciler.addWitnesses
    rw [Method.read_bind]
    cases hs : r.states.get ⟨o.scope, BitVec.ofNat 32 handle⟩ with
    | none => exact ih hk
    | some s =>
      dsimp only
      split
      · exact hk
      apply ih
      obtain ⟨hdesc, hkey⟩ := hk.present _ s hs
      constructor
      · intro k hnone
        by_cases heq : k = ⟨o.scope, BitVec.ofNat 32 handle⟩
        · subst heq
          rw [FinMap.get_insert_self] at hnone
          cases hnone
        · rw [FinMap.get_insert_of_ne _ heq] at hnone
          exact hk.absent k hnone
      · intro k u hu
        by_cases heq : k = ⟨o.scope, BitVec.ofNat 32 handle⟩
        · subst heq
          rw [FinMap.get_insert_self] at hu
          obtain rfl := Option.some.inj hu
          exact ⟨Describes.congr hdesc rfl rfl rfl rfl, hkey⟩
        · rw [FinMap.get_insert_of_ne _ heq] at hu
          exact hk.present k u hu

theorem report_state (handles : List ℕ) : (report o limits handles r).2 = r := by
  unfold report
  split
  · rfl
  next handle =>
    rw [Method.read_bind]
    cases r.states.get ⟨o.scope, BitVec.ofNat 32 handle⟩ with
    | none => rfl
    | some s =>
      dsimp only
      cases hp : projection s limits with
      | error e => rfl
      | ok p => rfl
  · rfl

theorem Known.observe (hk : Known h r) :
    Known (h.extend o (observed o limits r)) (observe o limits r).2 := by
  unfold FileReconciler.observe observed
  cases hparse : parse o.objects limits with
  | error e =>
    rw [Method.lift_bind_error rfl, extend_nil]
    exact hk
  | ok parsed =>
    rw [Method.lift_bind rfl]
    cases parsed with
    | none | unsupported | incomplete =>
      rw [extend_nil]
      exact hk
    | objects objects =>
      dsimp only
      have hobjects := hk.applyObjects o limits objects .empty
      rcases happly : FileReconciler.applyObjects o limits objects .empty r with ⟨_ | touched, t⟩
      · rw [happly] at hobjects
        rw [Method.bind_of_error happly]
        exact hobjects
      · rw [happly] at hobjects
        rw [Method.bind_of_ok happly]
        cases touched with
        | none => exact hobjects
        | some touched =>
          dsimp only
          have hwitness := hobjects.addWitnesses o limits touched.keys
          rcases hadd : FileReconciler.addWitnesses o limits touched.keys t with ⟨_ | u, t'⟩
          · rw [hadd] at hwitness
            rw [Method.bind_of_error hadd]
            exact hwitness
          · rw [hadd] at hwitness
            rw [Method.bind_of_ok hadd, report_state]
            exact hwitness

end Run

end FileReconciler

end PcapEvidence.DnpFile
