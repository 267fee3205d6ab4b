import PcapEvidence.DnpFile

/-!
# What the objects of a transfer say

The state of a transfer is described by the objects that were taken for it, in their order: the first
content of each block, the blocks with two contents, the latest declaration and the status codes.
-/

namespace PcapEvidence.DnpFile

open FiniteMap OrderedMap

namespace FileObject

def handle? : FileObject → Option U32
  | status _ handle _ _ _ | block _ handle _ _ | blockStatus _ handle _ _ => some handle
  | _ => none

def number? : FileObject → Option ℕ
  | block _ _ number _ => some number.toNat
  | _ => none

def content? (n : ℕ) : FileObject → Option Block
  | block _ _ number content => if number.toNat = n then some content else none
  | _ => none

def declared? : FileObject → Option Descriptor
  | status _ _ _ declared _ => some declared
  | _ => none

def code? : FileObject → Option ℕ
  | status _ _ _ _ code | blockStatus _ _ _ code => some code.toNat
  | _ => none

end FileObject

section Objects

variable (objects : List FileObject)

def blockNumbers : List ℕ := objects.filterMap FileObject.number?

def contents (n : ℕ) : List Block := objects.filterMap (FileObject.content? n)

def declarations : List Descriptor := objects.filterMap FileObject.declared?

def codes : List ℕ := objects.filterMap FileObject.code?

variable {objects}

theorem contents_snoc (n : ℕ) (x : FileObject) :
    contents (objects ++ [x]) n = contents objects n ++ (x.content? n).toList := by
  rw [contents, List.filterMap_append, contents]
  cases h : x.content? n <;> simp [h]

theorem declarations_snoc (x : FileObject) :
    declarations (objects ++ [x]) = declarations objects ++ x.declared?.toList := by
  rw [declarations, List.filterMap_append, declarations]
  cases h : x.declared? <;> simp [h]

theorem codes_snoc (x : FileObject) : codes (objects ++ [x]) = codes objects ++ x.code?.toList := by
  rw [codes, List.filterMap_append, codes]
  cases h : x.code? <;> simp [h]

theorem contents_ne_nil {n : ℕ} : contents objects n ≠ [] ↔ n ∈ blockNumbers objects := by
  rw [blockNumbers, List.mem_filterMap, ← List.length_pos_iff, List.length_pos_iff_exists_mem]
  unfold contents
  constructor
  · rintro ⟨b, hb⟩
    obtain ⟨x, hx, hbx⟩ := List.mem_filterMap.1 hb
    refine ⟨x, hx, ?_⟩
    cases x with
    | block v handle number content =>
      rw [FileObject.content?] at hbx
      split at hbx
      next h => exact congrArg some h
      next => cases hbx
    | _ => cases hbx
  · rintro ⟨x, hx, hn⟩
    cases x with
    | block v handle number content =>
      exact ⟨content, List.mem_filterMap.2 ⟨_, hx, if_pos (Option.some.inj hn)⟩⟩
    | _ => cases hn

end Objects

def State.take (s : State) (direction : U8) (pending : Option Descriptor) : FileObject → State
  | .status variation _ requestId declared status =>
    s.addStatus variation direction requestId declared status pending
  | .block variation _ number content => s.addBlock variation direction number.toNat content
  | .blockStatus variation _ number status => s.addBlockStatus variation direction number.toNat status
  | _ => s

structure Describes (objects : List FileObject) (s : State) : Prop where
  blocks : ∀ n, s.blocks.get? n = (contents objects n).head?
  conflicting : ∀ n, n ∈ s.conflictingBlocks.keys ↔
    ∃ a ∈ contents objects n, ∃ b ∈ contents objects n, a ≠ b
  declared : s.declared = (declarations objects).getLast?
  statusCodes : ∀ c, c ∈ s.statusCodes.keys ↔ c ∈ codes objects

section Step

variable {objects : List FileObject} {s : State} {direction : U8} {pending : Option Descriptor}

theorem describes_new (key : Key) (function : U8) : Describes [] (State.new key function) where
  blocks _ := rfl
  conflicting n := by
    constructor
    · intro h
      cases h
    · rintro ⟨a, ha, _⟩
      cases ha
  declared := rfl
  statusCodes c := by
    constructor <;> intro h <;> cases h

theorem mem_keys_insert (m : OrdSet ℕ) (k c : ℕ) : c ∈ (m.insert k ()).keys ↔ c ∈ m.keys ∨ c = k := by
  rw [OrdMap.mem_keys, OrdMap.mem_keys]
  constructor
  · rintro ⟨v, hv⟩
    by_cases hc : c = k
    · exact .inr hc
    · rw [OrdMap.get?_insert_of_ne m () hc] at hv
      exact .inl ⟨v, hv⟩
  · rintro (⟨v, hv⟩ | rfl)
    · by_cases hc : c = k
      · exact ⟨(), hc ▸ OrdMap.get?_insert_self m k ()⟩
      · exact ⟨v, by rw [OrdMap.get?_insert_of_ne m () hc]; exact hv⟩
    · exact ⟨(), OrdMap.get?_insert_self m c ()⟩

theorem contents_other {x : FileObject} {n : ℕ} (h : x.content? n = none) :
    contents (objects ++ [x]) n = contents objects n := by
  rw [contents_snoc, h, Option.toList_none, List.append_nil]

theorem declarations_other {x : FileObject} (h : x.declared? = none) :
    declarations (objects ++ [x]) = declarations objects := by
  rw [declarations_snoc, h, Option.toList_none, List.append_nil]

theorem codes_other {x : FileObject} (h : x.code? = none) : codes (objects ++ [x]) = codes objects := by
  rw [codes_snoc, h, Option.toList_none, List.append_nil]

theorem Describes.status (h : Describes objects s) (variation : U8) (handle : U32) (requestId : U16)
    (declared : Descriptor) (status : U8) :
    Describes (objects ++ [.status variation handle requestId declared status])
      (s.addStatus variation direction requestId declared status pending) where
  blocks n := by
    rw [contents_other rfl]
    exact h.blocks n
  conflicting n := by
    rw [contents_other rfl]
    exact h.conflicting n
  declared := by
    rw [declarations_snoc, FileObject.declared?, Option.toList_some, List.getLast?_concat]
    rfl
  statusCodes c := by
    rw [codes_snoc, FileObject.code?, Option.toList_some, List.mem_append, List.mem_singleton]
    exact (mem_keys_insert _ _ c).trans (or_congr_left (h.statusCodes c))

theorem Describes.blockStatus (h : Describes objects s) (variation : U8) (handle number : U32)
    (status : U8) :
    Describes (objects ++ [.blockStatus variation handle number status])
      (s.addBlockStatus variation direction number.toNat status) where
  blocks n := by
    rw [contents_other rfl]
    exact h.blocks n
  conflicting n := by
    rw [contents_other rfl]
    exact h.conflicting n
  declared := by
    rw [declarations_other rfl]
    exact h.declared
  statusCodes c := by
    rw [codes_snoc, FileObject.code?, Option.toList_some, List.mem_append, List.mem_singleton]
    exact (mem_keys_insert _ _ c).trans (or_congr_left (h.statusCodes c))

theorem contents_block (variation : U8) (handle number : U32) (content : Block) (n : ℕ) :
    contents (objects ++ [.block variation handle number content]) n =
      contents objects n ++ if number.toNat = n then [content] else [] := by
  rw [contents_snoc, FileObject.content?]
  split <;> rfl

theorem conflict_snoc {α : Type} {l : List α} {first a : α} (h : l.head? = some first) :
    (∃ x ∈ l ++ [a], ∃ y ∈ l ++ [a], x ≠ y) ↔ (∃ x ∈ l, ∃ y ∈ l, x ≠ y) ∨ first ≠ a := by
  have hfirst : first ∈ l := List.mem_of_mem_head? h
  constructor
  · rintro ⟨x, hx, y, hy, hne⟩
    by_contra hno
    obtain ⟨hall, heq⟩ := not_or.1 hno
    push Not at hall heq
    have hone : ∀ z ∈ l ++ [a], z = first := by
      intro z hz
      rcases List.mem_append.1 hz with hz | hz
      · exact hall z hz first hfirst
      · exact (List.mem_singleton.1 hz).trans heq.symm
    exact hne ((hone x hx).trans (hone y hy).symm)
  · rintro (⟨x, hx, y, hy, hne⟩ | hne)
    · exact ⟨x, List.mem_append_left _ hx, y, List.mem_append_left _ hy, hne⟩
    · exact ⟨first, List.mem_append_left _ hfirst, a, List.mem_append_right _ List.mem_cons_self, hne⟩

theorem Describes.block (h : Describes objects s) (variation : U8) (handle number : U32)
    (content : Block) :
    Describes (objects ++ [.block variation handle number content])
      (s.addBlock variation direction number.toNat content) := by
  have hdeclared : declarations (objects ++ [.block variation handle number content]) =
      declarations objects := declarations_other rfl
  have hcodes : codes (objects ++ [.block variation handle number content]) = codes objects := codes_other rfl
  have hother : ∀ n, number.toNat ≠ n →
      contents (objects ++ [.block variation handle number content]) n = contents objects n := by
    intro n hn
    rw [contents_block, if_neg hn, List.append_nil]
  have hself : contents (objects ++ [.block variation handle number content]) number.toNat =
      contents objects number.toNat ++ [content] := by
    rw [contents_block, if_pos rfl]
  have hblocks := h.blocks number.toNat
  unfold State.addBlock
  cases hold : s.blocks.get? number.toNat with
  | none =>
    rw [hold] at hblocks
    have hempty : contents objects number.toNat = [] := List.head?_eq_none_iff.1 hblocks.symm
    refine ⟨fun n => ?_, fun n => ?_, hdeclared ▸ h.declared, hcodes ▸ h.statusCodes⟩
    · by_cases hn : number.toNat = n
      · subst hn
        rw [hself, hempty]
        exact OrdMap.get?_insert_self _ _ _
      · rw [hother n hn, ← h.blocks n]
        exact OrdMap.get?_insert_of_ne _ _ (Ne.symm hn)
    · by_cases hn : number.toNat = n
      · subst hn
        rw [hself, hempty]
        refine (h.conflicting _).trans ?_
        rw [hempty]
        simp
      · rw [hother n hn]
        exact h.conflicting n
  | some old =>
    rw [hold] at hblocks
    have hfirst : ∀ n, (contents (objects ++ [.block variation handle number content]) n).head? =
        (contents objects n).head? := by
      intro n
      by_cases hn : number.toNat = n
      · subst hn
        rw [hself, List.head?_append, ← hblocks]
        rfl
      · rw [hother n hn]
    have hconflict : ∀ n,
        (∃ a ∈ contents (objects ++ [.block variation handle number content]) n,
          ∃ b ∈ contents (objects ++ [.block variation handle number content]) n, a ≠ b) ↔
        (∃ a ∈ contents objects n, ∃ b ∈ contents objects n, a ≠ b) ∨
          (number.toNat = n ∧ old ≠ content) := by
      intro n
      by_cases hn : number.toNat = n
      · subst hn
        rw [hself, conflict_snoc hblocks.symm]
        simp only [true_and]
      · rw [hother n hn]
        simp only [hn, false_and, or_false]
    dsimp only
    split
    next heq =>
      refine ⟨fun n => ?_, fun n => ?_, hdeclared ▸ h.declared, hcodes ▸ h.statusCodes⟩
      · rw [hfirst]
        exact h.blocks n
      · rw [hconflict]
        refine (h.conflicting n).trans (or_iff_left ?_).symm
        exact fun hne => hne.2 heq
    next hne =>
      refine ⟨fun n => ?_, fun n => ?_, hdeclared ▸ h.declared, hcodes ▸ h.statusCodes⟩
      · rw [hfirst]
        exact h.blocks n
      · rw [hconflict]
        refine (mem_keys_insert _ _ n).trans (or_congr (h.conflicting n) ?_)
        exact ⟨fun hn => ⟨hn.symm, hne⟩, fun hn => hn.1.symm⟩

theorem Describes.take (h : Describes objects s) {x : FileObject} {handle : U32}
    (hx : x.handle? = some handle) : Describes (objects ++ [x]) (s.take direction pending x) := by
  cases x with
  | status variation handle requestId declared status => exact h.status ..
  | block variation handle number content => exact h.block ..
  | blockStatus variation handle number status => exact h.blockStatus ..
  | descriptor | specification | authentication => cases hx

theorem key_take (s : State) (direction : U8) (pending : Option Descriptor) (x : FileObject) :
    (s.take direction pending x).key = s.key := by
  cases x with
  | block variation handle number content =>
    simp only [State.take, State.addBlock]
    split
    · split <;> rfl
    · rfl
  | _ => rfl

end Step

end PcapEvidence.DnpFile
