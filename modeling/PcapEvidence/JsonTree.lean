import PcapEvidence.HistoryTuple
import PcapEvidence.JsonText

/-!
# Trees of JSON values

The canonical form sorts the fields of every object by key. The sort is stable, so a member is read
in the same place before and after it, and the readers agree with the canonical form.
-/

namespace PcapEvidence.Bgp

def JsonItems.toList : JsonItems → List Json
  | .nil => []
  | .cons item rest => item :: rest.toList

def JsonFields.toList : JsonFields → List (String × Json)
  | .nil => []
  | .cons key value rest => (key, value) :: rest.toList

namespace Json

@[simp] theorem toList_itemsOf (l : List Json) : (itemsOf l).toList = l := by
  induction l with
  | nil => rfl
  | cons j l ih => exact congrArg (j :: ·) ih

@[simp] theorem toList_fieldsOf (l : List (String × Json)) : (fieldsOf l).toList = l := by
  induction l with
  | nil => rfl
  | cons p l ih => exact congrArg (p :: ·) ih

theorem itemsOf_toList : ∀ items : JsonItems, itemsOf items.toList = items
  | .nil => rfl
  | .cons item rest => congrArg (JsonItems.cons item) (itemsOf_toList rest)

def keyLe (p q : String × Json) : Prop := p.1 ≤ q.1

instance instDecidableKeyLe : DecidableRel keyLe := fun p q => inferInstanceAs (Decidable (p.1 ≤ q.1))

instance instTotalKeyLe : Std.Total keyLe := ⟨fun p q => le_total p.1 q.1⟩

instance instTransKeyLe : IsTrans (String × Json) keyLe := ⟨fun _ _ _ => le_trans⟩

/-- The fields in the order of their keys; equal keys stay in their order. -/
def sortByKey (l : List (String × Json)) : List (String × Json) := l.insertionSort keyLe

mutual

def canonical : Json → Json
  | .object fields => objectOf (sortByKey (canonicalFields fields))
  | .array items => .array (canonicalItems items)
  | .null => .null
  | .bool b => .bool b
  | .number n => .number n
  | .string s => .string s

def canonicalItems : JsonItems → JsonItems
  | .nil => .nil
  | .cons item rest => .cons (canonical item) (canonicalItems rest)

def canonicalFields : JsonFields → List (String × Json)
  | .nil => []
  | .cons key value rest => (key, canonical value) :: canonicalFields rest

end

theorem toList_canonicalItems : ∀ items : JsonItems,
    (canonicalItems items).toList = items.toList.map canonical
  | .nil => rfl
  | .cons item rest => congrArg (canonical item :: ·) (toList_canonicalItems rest)

theorem canonical_arrayOf (l : List Json) : (arrayOf l).canonical = arrayOf (l.map canonical) := by
  rw [arrayOf, arrayOf, canonical]
  apply congrArg
  rw [← itemsOf_toList (canonicalItems (itemsOf l)), toList_canonicalItems, toList_itemsOf]

theorem canonicalFields_eq : ∀ fields : JsonFields,
    canonicalFields fields = fields.toList.map fun p => (p.1, canonical p.2)
  | .nil => rfl
  | .cons key value rest => congrArg ((key, canonical value) :: ·) (canonicalFields_eq rest)

theorem filter_sortByKey (l : List (String × Json)) (name : String) :
    (sortByKey l).filter (·.1 = name) = l.filter (·.1 = name) := by
  have hkeys : (l.filter (·.1 = name)).Pairwise keyLe := by
    refine List.pairwise_of_forall_mem_list fun p hp q hq => ?_
    have hp' := of_decide_eq_true (List.mem_filter.1 hp).2
    have hq' := of_decide_eq_true (List.mem_filter.1 hq).2
    exact (hp'.trans hq'.symm).le
  have hsub : (l.filter (·.1 = name)).Sublist (sortByKey l) :=
    List.sublist_insertionSort hkeys List.filter_sublist
  have hlen : ((sortByKey l).filter (·.1 = name)).length = (l.filter (·.1 = name)).length :=
    ((List.perm_insertionSort keyLe l).filter _).length_eq
  have hsub' := hsub.filter (·.1 = name)
  rw [List.filter_filter] at hsub'
  simp only [Bool.and_self] at hsub'
  exact (hsub'.eq_of_length hlen.symm).symm

theorem find_sortByKey (l : List (String × Json)) (name : String) :
    (sortByKey l).find? (·.1 = name) = l.find? (·.1 = name) := by
  rw [← List.head?_filter, ← List.head?_filter, filter_sortByKey]

theorem sortByKey_sorted (l : List (String × Json)) : (sortByKey l).Pairwise keyLe :=
  List.pairwise_insertionSort keyLe l

theorem sortByKey_sortByKey (l : List (String × Json)) : sortByKey (sortByKey l) = sortByKey l :=
  List.Pairwise.insertionSort_eq (sortByKey_sorted l)

theorem sortByKey_cons (a : String × Json) (l : List (String × Json)) :
    sortByKey (a :: l) = (sortByKey l).orderedInsert keyLe a := rfl

theorem filter_orderedInsert_of_neg (p : String → Bool) {a : String × Json} (ha : p a.1 = false)
    (l : List (String × Json)) : (l.orderedInsert keyLe a).filter (fun q => p q.1) =
      l.filter fun q => p q.1 := by
  induction l with
  | nil => simp [ha]
  | cons b l ih =>
    by_cases hab : keyLe a b
    · rw [List.orderedInsert_cons, if_pos hab, List.filter_cons_of_neg (by simp [ha])]
    · rw [List.orderedInsert_cons, if_neg hab, List.filter_cons, List.filter_cons, ih]

theorem filter_orderedInsert_of_pos (p : String → Bool) {a : String × Json} (ha : p a.1 = true)
    {l : List (String × Json)} (hl : l.Pairwise keyLe) : (l.orderedInsert keyLe a).filter (fun q => p q.1) =
      (l.filter fun q => p q.1).orderedInsert keyLe a := by
  induction l with
  | nil => simp [ha]
  | cons b l ih =>
    obtain ⟨hb, hl⟩ := List.pairwise_cons.1 hl
    by_cases hab : keyLe a b
    · -- Nothing that is kept stands before the new field.
      have hhead : ∀ q ∈ (b :: l).filter fun q => p q.1, keyLe a q := by
        intro q hq
        rcases List.mem_cons.1 (List.mem_filter.1 hq).1 with rfl | hq
        · exact hab
        · exact le_trans hab (hb q hq)
      rw [List.orderedInsert_cons, if_pos hab, List.filter_cons_of_pos (by simp [ha])]
      cases hkept : (b :: l).filter fun q => p q.1 with
      | nil => rfl
      | cons q rest =>
        rw [List.orderedInsert_cons, if_pos (hhead q (hkept ▸ List.mem_cons_self))]
    · rw [List.orderedInsert_cons, if_neg hab, List.filter_cons, List.filter_cons, ih hl]
      by_cases hpb : p b.1 = true
      · rw [if_pos hpb, if_pos hpb, List.orderedInsert_cons, if_neg hab]
      · rw [if_neg hpb, if_neg hpb]

theorem sortByKey_filter (p : String → Bool) (l : List (String × Json)) :
    (sortByKey l).filter (fun q => p q.1) = sortByKey (l.filter fun q => p q.1) := by
  induction l with
  | nil => rfl
  | cons a l ih =>
    by_cases ha : p a.1 = true
    · rw [sortByKey_cons, filter_orderedInsert_of_pos p ha (sortByKey_sorted l),
        List.filter_cons_of_pos (by simp [ha]), sortByKey_cons, ih]
    · rw [Bool.not_eq_true] at ha
      rw [sortByKey_cons, filter_orderedInsert_of_neg p ha, List.filter_cons_of_neg (by simp [ha]), ih]

theorem sortByKey_map_canonical (l : List (String × Json)) :
    (sortByKey l).map (fun p => (p.1, p.2.canonical)) =
      sortByKey (l.map fun p => (p.1, p.2.canonical)) :=
  List.map_insertionSort keyLe keyLe _ l fun _ _ _ _ => Iff.rfl

theorem canonical_objectOf (l : List (String × Json)) :
    (objectOf l).canonical = objectOf (sortByKey (l.map fun p => (p.1, p.2.canonical))) := by
  rw [objectOf, canonical, canonicalFields_eq, toList_fieldsOf]

mutual

theorem canonical_canonical : ∀ v : Json, v.canonical.canonical = v.canonical
  | .null => rfl
  | .bool _ => rfl
  | .number _ => rfl
  | .string _ => rfl
  | .array items => congrArg Json.array (canonicalItems_canonicalItems items)
  | .object fields => by
    have hmem : ∀ p ∈ sortByKey (canonicalFields fields), p.2.canonical = p.2 :=
      fun p hp => canonicalFields_canonical fields p
        ((List.perm_insertionSort keyLe _).mem_iff.1 hp)
    have hmap : (sortByKey (canonicalFields fields)).map (fun p => (p.1, p.2.canonical)) =
        sortByKey (canonicalFields fields) := by
      conv_rhs => rw [← List.map_id (sortByKey (canonicalFields fields))]
      exact List.map_congr_left fun p hp => Prod.ext rfl (hmem p hp)
    simp only [canonical, objectOf, canonicalFields_eq (fieldsOf _), toList_fieldsOf, hmap]
    rw [sortByKey, List.Pairwise.insertionSort_eq (sortByKey_sorted _)]

theorem canonicalItems_canonicalItems : ∀ items : JsonItems,
    canonicalItems (canonicalItems items) = canonicalItems items
  | .nil => rfl
  | .cons item rest => congrArg₂ JsonItems.cons (canonical_canonical item)
      (canonicalItems_canonicalItems rest)

theorem canonicalFields_canonical : ∀ fields : JsonFields, ∀ p ∈ canonicalFields fields,
    p.2.canonical = p.2
  | .nil => by simp [canonicalFields]
  | .cons key value rest => by
    intro p hp
    rcases List.mem_cons.1 hp with rfl | hp
    · exact canonical_canonical value
    · exact canonicalFields_canonical rest p hp

end

theorem encodeBounded_ok {v : Json} {limit : ℕ} {s : String} (h : v.encodeBounded limit = .ok s) :
    s = v.encode := by
  rw [encodeBounded] at h
  split at h
  · exact (Except.ok.inj h).symm
  · cases h

end Json

open Json History

namespace State

def object : Json → Result (List (String × Json))
  | .object fields => .ok fields.toList
  | _ => .error (bad "bgp_state_shape" "expected object")

def optionalMember (v : Json) (name : String) : Result (Option Json) := do
  let items ← object v
  return (items.find? (·.1 = name)).map Prod.snd

def member (v : Json) (name : String) : Result Json := do
  match ← optionalMember v name with
  | some value => .ok value
  | none => .error (bad "bgp_state_shape" "required field absent")

def text : Json → Result String
  | .string s => .ok s
  | _ => .error (bad "bgp_state_shape" "expected string")

def array : Json → Result (List Json)
  | .array items => .ok items.toList
  | _ => .error (bad "bgp_state_shape" "expected array")

def digits (l : List Char) : Option ℕ :=
  if l ≠ [] ∧ l.all Char.isDigit = true then some (Nat.ofDigitChars 10 l 0) else none

def number : Json → Result ℕ
  | .number n => .ok n.toNat
  | .string s =>
    match (digits s.toList).filter fun n => n < wordBound ∧ n.repr = s with
    | some n => .ok n
    | none => .error (bad "bgp_state_number" "expected exact unsigned decimal")
  | _ => .error (bad "bgp_state_number" "expected unsigned integer")

def byte (v : Json) : Result U8 := do
  let n ← number v
  if n ≥ 2 ^ 8 then .error (bad "bgp_state_byte" "octet out of range") else return BitVec.ofNat 8 n

def optionalDirection (v : Json) : Result (Option U8) :=
  if v = .null then .ok none
  else do
    let d ← byte v
    if d > 1 then .error (bad "bgp_state_direction" "direction must be zero or one")
    else return some d

def optionalText (v : Json) : Result (Option String) :=
  if v = .null then .ok none else (text v).map some

def identityText (v : Json) : Result String := do
  let s ← text v
  if s = "" ∨ s.utf8ByteSize > 1024 ∨ s.toList.any isControl then
    .error (bad "bgp_state_identity" "empty, control-containing or oversized identity")
  else return s

def optionalIdentity (v : Json) : Result (Option String) :=
  if v = .null then .ok none else (identityText v).map some

/-- `str::parse::<i64>`, with an optional sign. -/
def signed (l : List Char) : Option ℤ :=
  (match l with
    | '-' :: rest => (digits rest).map fun n => -(n : ℤ)
    | '+' :: rest => (digits rest).map fun n => (n : ℤ)
    | rest => (digits rest).map fun n => (n : ℤ)).filter fun n => -2 ^ 63 ≤ n ∧ n < 2 ^ 63

def optionalTime (v : Json) : Result (Option ℤ) :=
  if v = .null then .ok none
  else do
    let s ← text v
    match signed s.toList with
    | none => .error (bad "bgp_state_time" "expected signed decimal timestamp")
    | some n =>
      if toString n ≠ s then .error (bad "bgp_state_time" "noncanonical timestamp")
      else return some n

structure Count where
  nodes : ℕ
  work : ℕ

def Count.charge (l : Limits) (c : Count) (amount : ℕ) : Result Count :=
  if c.work + amount > l.work then .error (Error.limit "bgp_state_work")
  else .ok { c with work := c.work + amount }

def Count.enter (l : Limits) (depth : ℕ) (c : Count) : Result Count :=
  if depth > l.depth then .error (Error.limit "bgp_state_depth")
  else if c.nodes + 1 > l.fields then .error (Error.limit "bgp_state_fields")
  else { c with nodes := c.nodes + 1 }.charge l 1

mutual

def visit (l : Limits) : Json → ℕ → Count → Result Count
  | .string s, depth, c => do
    let c ← c.enter l depth
    let c ← c.charge l s.utf8ByteSize
    if s.utf8ByteSize > l.inputBytes then .error (Error.limit "bgp_state_input") else return c
  | .array items, depth, c => do
    let c ← c.enter l depth
    if items.toList.length > l.fields then .error (Error.limit "bgp_state_fields")
    else visitItems l items (depth + 1) c
  | .object fields, depth, c => do
    let c ← c.enter l depth
    if fields.toList.length > l.fields then .error (Error.limit "bgp_state_fields")
    else visitFields l fields (depth + 1) [] c
  | .null, depth, c => c.enter l depth
  | .bool _, depth, c => c.enter l depth
  | .number _, depth, c => c.enter l depth

def visitItems (l : Limits) : JsonItems → ℕ → Count → Result Count
  | .nil, _, c => .ok c
  | .cons item rest, depth, c => do
    let c ← visit l item depth c
    visitItems l rest depth c

def visitFields (l : Limits) : JsonFields → ℕ → List String → Count → Result Count
  | .nil, _, _, c => .ok c
  | .cons key value rest, depth, keys, c => do
    let c ← c.charge l key.utf8ByteSize
    if key ∈ keys then .error (bad "bgp_state_duplicate_field" "duplicate JSON key")
    else
      let c ← visit l value depth c
      visitFields l rest depth (key :: keys) c

end

def treeBudget (value : Json) (l : Limits) : Result ℕ :=
  (visit l value 1 ⟨0, 0⟩).map Count.nodes

@[simp] theorem canonical_eq_null {v : Json} : v.canonical = .null ↔ v = .null := by
  cases v <;> simp [canonical, objectOf]

theorem object_canonical (v : Json) :
    object v.canonical = (object v).map fun l => sortByKey (l.map fun p => (p.1, p.2.canonical)) := by
  cases v with
  | object fields =>
    simp only [canonical, objectOf, object, toList_fieldsOf, canonicalFields_eq, Except.map]
  | null | bool b | number n | string s | array items => rfl

theorem optionalMember_canonical (v : Json) (name : String) :
    optionalMember v.canonical name = (optionalMember v name).map (Option.map canonical) := by
  rw [optionalMember, optionalMember, object_canonical]
  cases object v with
  | error e => rfl
  | ok l =>
    simp only [Except.map, bind, Except.bind, pure, Except.pure, find_sortByKey, List.find?_map,
      Option.map_map]
    rfl

theorem member_canonical (v : Json) (name : String) :
    member v.canonical name = (member v name).map canonical := by
  rw [member, member, optionalMember_canonical]
  rcases optionalMember v name with e | _ | value <;> rfl

@[simp] theorem text_canonical (v : Json) : text v.canonical = text v := by
  cases v <;> rfl

theorem array_canonical (v : Json) : array v.canonical = (array v).map (List.map canonical) := by
  cases v with
  | array items => simp only [canonical, array, toList_canonicalItems, Except.map]
  | null | bool b | number n | string s | object fields => rfl

@[simp] theorem number_canonical (v : Json) : number v.canonical = number v := by
  cases v <;> rfl

@[simp] theorem byte_canonical (v : Json) : byte v.canonical = byte v := by
  simp only [byte, number_canonical]

@[simp] theorem optionalDirection_canonical (v : Json) :
    optionalDirection v.canonical = optionalDirection v := by
  simp only [optionalDirection, canonical_eq_null, byte_canonical]

@[simp] theorem optionalText_canonical (v : Json) : optionalText v.canonical = optionalText v := by
  simp only [optionalText, canonical_eq_null, text_canonical]

@[simp] theorem identityText_canonical (v : Json) : identityText v.canonical = identityText v := by
  simp only [identityText, text_canonical]

@[simp] theorem optionalIdentity_canonical (v : Json) :
    optionalIdentity v.canonical = optionalIdentity v := by
  simp only [optionalIdentity, canonical_eq_null, identityText_canonical]

@[simp] theorem optionalTime_canonical (v : Json) : optionalTime v.canonical = optionalTime v := by
  simp only [optionalTime, canonical_eq_null, text_canonical]

end State
end PcapEvidence.Bgp
