import PcapEvidence.JsonSize
import Mathlib.Logic.Relation
import Mathlib.Algebra.BigOperators.Group.List.Basic

/-!
# The order of members

Two values can differ only in the order in which their objects list their members. Where no object
repeats a key they have one canonical form, and the canonical form has a text of the same size.
-/

namespace PcapEvidence.Bgp

namespace Json

def textSize (v : Json) : ℕ := v.encode.utf8ByteSize

theorem textSize_array (items : JsonItems) :
    (Json.array items).textSize = 2 + (items.toList.length - 1) + itemsSize items := by
  have hbracket : "[".utf8ByteSize = 1 := rfl
  rw [textSize, encode, String.utf8ByteSize_append, utf8ByteSize_encodeItems, hbracket, if_pos rfl]
  omega

theorem itemsSize_cons (item : Json) (rest : JsonItems) :
    itemsSize (.cons item rest) = item.textSize + itemsSize rest := rfl

theorem fieldsSize_cons (key : String) (v : Json) (rest : JsonFields) :
    fieldsSize (.cons key v rest) = (escape key).utf8ByteSize + 1 + v.textSize + fieldsSize rest :=
  rfl

theorem textSize_object (fields : JsonFields) :
    (Json.object fields).textSize = 2 + (fields.toList.length - 1) + fieldsSize fields := by
  have hbrace : "\x7b".utf8ByteSize = 1 := rfl
  rw [textSize, encode, String.utf8ByteSize_append, utf8ByteSize_encodeFields, hbrace, if_pos rfl]
  omega

mutual

def NoRepeats : Json → Prop
  | .array items => NoRepeatsItems items
  | .object fields => (fields.toList.map Prod.fst).Nodup ∧ NoRepeatsFields fields
  | .null => True
  | .bool _ => True
  | .number _ => True
  | .string _ => True

def NoRepeatsItems : JsonItems → Prop
  | .nil => True
  | .cons item rest => NoRepeats item ∧ NoRepeatsItems rest

def NoRepeatsFields : JsonFields → Prop
  | .nil => True
  | .cons _ value rest => NoRepeats value ∧ NoRepeatsFields rest

end

theorem noRepeatsItems_iff (items : JsonItems) :
    NoRepeatsItems items ↔ ∀ j ∈ items.toList, NoRepeats j := by
  cases items with
  | nil => simp [NoRepeatsItems, JsonItems.toList]
  | cons item rest => simp [NoRepeatsItems, JsonItems.toList, noRepeatsItems_iff rest]

theorem noRepeatsFields_iff (fields : JsonFields) :
    NoRepeatsFields fields ↔ ∀ p ∈ fields.toList, NoRepeats p.2 := by
  cases fields with
  | nil => simp [NoRepeatsFields, JsonFields.toList]
  | cons key value rest => simp [NoRepeatsFields, JsonFields.toList, noRepeatsFields_iff rest]

theorem noRepeats_arrayOf {l : List Json} : NoRepeats (arrayOf l) ↔ ∀ j ∈ l, NoRepeats j := by
  rw [arrayOf, NoRepeats, noRepeatsItems_iff, toList_itemsOf]

theorem noRepeats_objectOf {l : List (String × Json)} :
    NoRepeats (objectOf l) ↔ (l.map Prod.fst).Nodup ∧ ∀ p ∈ l, NoRepeats p.2 := by
  rw [objectOf, NoRepeats, noRepeatsFields_iff, toList_fieldsOf]

/-- One reordering of the members of one object, at any depth. -/
inductive Reorders : Json → Json → Prop
  | members {l l' : List (String × Json)} : l.Perm l' → Reorders (objectOf l) (objectOf l')
  | item {v v' : Json} (before after : List Json) : Reorders v v' →
      Reorders (arrayOf (before ++ v :: after)) (arrayOf (before ++ v' :: after))
  | member {v v' : Json} (before after : List (String × Json)) (key : String) : Reorders v v' →
      Reorders (objectOf (before ++ (key, v) :: after)) (objectOf (before ++ (key, v') :: after))

/-- Two values that differ only in the order of the members of their objects. -/
def SameMembers : Json → Json → Prop := Relation.ReflTransGen Reorders

theorem Reorders.symm {v v' : Json} (h : Reorders v v') : Reorders v' v := by
  induction h with
  | members hperm => exact .members hperm.symm
  | item before after _ ih => exact .item before after ih
  | member before after key _ ih => exact .member before after key ih

theorem SameMembers.symm {v v' : Json} (h : SameMembers v v') : SameMembers v' v := by
  induction h with
  | refl => exact .refl
  | tail _ hstep ih => exact .head hstep.symm ih

theorem sortByKey_perm {l l' : List (String × Json)} (h : l.Perm l')
    (hnodup : (l.map Prod.fst).Nodup) : sortByKey l = sortByKey l' := by
  have hperm : (sortByKey l).Perm (sortByKey l') :=
    (List.perm_insertionSort keyLe l).trans (h.trans (List.perm_insertionSort keyLe l').symm)
  refine hperm.eq_of_pairwise ?_ (sortByKey_sorted l) (sortByKey_sorted l')
  intro p q hp hq hpq hqp
  have hkey : p.1 = q.1 := le_antisymm hpq hqp
  have hpl := (List.perm_insertionSort keyLe l).mem_iff.1 hp
  have hql := h.mem_iff.2 ((List.perm_insertionSort keyLe l').mem_iff.1 hq)
  exact List.inj_on_of_nodup_map hnodup hpl hql hkey

theorem Reorders.noRepeats {v v' : Json} (h : Reorders v v') (hv : NoRepeats v) : NoRepeats v' := by
  induction h with
  | members hperm =>
    rw [noRepeats_objectOf] at hv ⊢
    exact ⟨((hperm.map Prod.fst).nodup_iff).1 hv.1, fun p hp => hv.2 p (hperm.mem_iff.2 hp)⟩
  | item before after _ ih =>
    rw [noRepeats_arrayOf] at hv ⊢
    intro j hj
    rcases List.mem_append.1 hj with hj | hj
    · exact hv j (by simp [hj])
    · rcases List.mem_cons.1 hj with rfl | hj
      · exact ih (hv _ (by simp))
      · exact hv j (by simp [hj])
  | member before after key _ ih =>
    rw [noRepeats_objectOf] at hv ⊢
    refine ⟨by simpa using hv.1, ?_⟩
    intro p hp
    rcases List.mem_append.1 hp with hp | hp
    · exact hv.2 p (by simp [hp])
    · rcases List.mem_cons.1 hp with rfl | hp
      · exact ih (hv.2 (key, _) (by simp))
      · exact hv.2 p (by simp [hp])

theorem Reorders.canonical_eq {v v' : Json} (h : Reorders v v') (hv : NoRepeats v) :
    v.canonical = v'.canonical := by
  induction h with
  | members hperm =>
    rw [canonical_objectOf, canonical_objectOf]
    refine congrArg objectOf (sortByKey_perm (hperm.map _) ?_)
    rw [List.map_map]
    exact (noRepeats_objectOf.1 hv).1
  | item before after _ ih =>
    have hitem := ih (noRepeats_arrayOf.1 hv _ (by simp))
    rw [canonical_arrayOf, canonical_arrayOf, List.map_append, List.map_append, List.map_cons,
      List.map_cons, hitem]
  | member before after key _ ih =>
    have hmember := ih ((noRepeats_objectOf.1 hv).2 (key, _) (by simp))
    rw [canonical_objectOf, canonical_objectOf, List.map_append, List.map_append, List.map_cons,
      List.map_cons, hmember]

theorem SameMembers.noRepeats {v v' : Json} (h : SameMembers v v') (hv : NoRepeats v) :
    NoRepeats v' := by
  induction h with
  | refl => exact hv
  | tail _ hstep ih => exact hstep.noRepeats ih

theorem SameMembers.canonical_eq {v v' : Json} (h : SameMembers v v') (hv : NoRepeats v) :
    v.canonical = v'.canonical := by
  induction h with
  | refl => rfl
  | tail hpath hstep ih => exact ih.trans (hstep.canonical_eq (SameMembers.noRepeats hpath hv))

mutual

theorem textSize_canonical : ∀ v : Json, v.canonical.textSize = v.textSize
  | .null => rfl
  | .bool _ => rfl
  | .number _ => rfl
  | .string _ => rfl
  | .array items => by
    rw [canonical, textSize_array, textSize_array, toList_canonicalItems, List.length_map,
      itemsSize_canonicalItems]
  | .object fields => by
    have hperm : (sortByKey (canonicalFields fields)).Perm (canonicalFields fields) :=
      List.perm_insertionSort keyLe (canonicalFields fields)
    have hsum : fieldsSize (fieldsOf (sortByKey (canonicalFields fields))) =
        fieldsSize (fieldsOf (canonicalFields fields)) := by
      rw [fieldsSize, fieldsSize, toList_fieldsOf, toList_fieldsOf]
      exact (hperm.map _).sum_eq
    have hlength : (sortByKey (canonicalFields fields)).length = fields.toList.length := by
      rw [hperm.length_eq, canonicalFields_eq, List.length_map]
    rw [canonical, objectOf, textSize_object, textSize_object, hsum, toList_fieldsOf, hlength,
      fieldsSize_canonicalFields]

theorem itemsSize_canonicalItems : ∀ items : JsonItems,
    itemsSize (canonicalItems items) = itemsSize items
  | .nil => rfl
  | .cons item rest => by
    have hitem := textSize_canonical item
    have hrest := itemsSize_canonicalItems rest
    simp only [itemsSize, canonicalItems, JsonItems.toList, List.map_cons, List.sum_cons] at hrest ⊢
    rw [hrest]
    exact congrArg (· + _) hitem

theorem fieldsSize_canonicalFields : ∀ fields : JsonFields,
    fieldsSize (fieldsOf (canonicalFields fields)) = fieldsSize fields
  | .nil => rfl
  | .cons key value rest => by
    have hvalue := textSize_canonical value
    have hrest := fieldsSize_canonicalFields rest
    simp only [fieldsSize, canonicalFields, fieldsOf, JsonFields.toList, List.map_cons,
      List.sum_cons] at hrest ⊢
    rw [hrest]
    simp only [textSize] at hvalue
    rw [hvalue]

end

end Json

end PcapEvidence.Bgp
