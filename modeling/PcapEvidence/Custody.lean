import Mathlib.Tactic

/-!
# Items with at most one holder

`held x h` says that holder `h` has item `x`. Custody is exclusive when no item has two holders. A
move hands a list of items to one holder, or to none, and leaves the others where they are.
-/

namespace PcapEvidence.Custody

variable {ι η : Type} {held held' held'' : ι → η → Prop} {items : List ι} {target : Option η}

def Exclusive (held : ι → η → Prop) : Prop := ∀ x h h', held x h → held x h' → h = h'

structure Moved (held held' : ι → η → Prop) (items : List ι) (target : Option η) : Prop where
  others : ∀ x ∉ items, ∀ h, held' x h ↔ held x h
  those : ∀ x ∈ items, ∀ h, held' x h ↔ target = some h

theorem Moved.exclusive (hm : Moved held held' items target) (h : Exclusive held) :
    Exclusive held' := by
  intro x a b ha hb
  by_cases hx : x ∈ items
  · have ha' := (hm.those x hx a).1 ha
    have hb' := (hm.those x hx b).1 hb
    exact Option.some.inj (ha'.symm.trans hb')
  · exact h x a b ((hm.others x hx a).1 ha) ((hm.others x hx b).1 hb)

theorem moved_of_free (hfree : ∀ x ∈ items, ∀ h, ¬ held x h) : Moved held held items none := by
  refine ⟨fun _ _ _ => Iff.rfl, fun x hx h => ?_⟩
  simp [hfree x hx h]

theorem Moved.trans (hm : Moved held held' items none) (hm' : Moved held' held'' items target) :
    Moved held held'' items target := by
  refine ⟨fun x hx h => ?_, hm'.those⟩
  rw [hm'.others x hx h, hm.others x hx h]

theorem moved_of_take {h : η} (hitems : ∀ x ∈ items, ∀ k, held x k → k = h)
    (htake : ∀ x k, held' x k ↔ held x k ∨ (k = h ∧ x ∈ items)) :
    Moved held held' items (some h) := by
  refine ⟨fun x hx k => ?_, fun x hx k => ?_⟩
  · rw [htake]
    exact ⟨fun hk => hk.elim id (fun hk => absurd hk.2 hx), Or.inl⟩
  · rw [htake, Option.some.injEq]
    constructor
    · rintro (hk | ⟨rfl, -⟩)
      · exact (hitems x hx k hk).symm
      · rfl
    · rintro rfl
      exact Or.inr ⟨rfl, hx⟩

theorem moved_of_release (gone : η → Prop) (hitems : ∀ x ∈ items, ∀ k, held x k → gone k)
    (hall : ∀ x k, held x k → gone k → x ∈ items)
    (hrelease : ∀ x k, held' x k ↔ held x k ∧ ¬ gone k) : Moved held held' items none := by
  refine ⟨fun x hx k => ?_, fun x hx k => ?_⟩
  · rw [hrelease]
    exact ⟨And.left, fun hk => ⟨hk, fun hgone => hx (hall x k hk hgone)⟩⟩
  · rw [hrelease]
    simp only [reduceCtorEq, iff_false, not_and, not_not]
    exact hitems x hx k

end PcapEvidence.Custody
