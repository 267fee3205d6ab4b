import PcapEvidence.BgpFeedSchedule
import PcapEvidence.JsonOrder

/-!
# Which documents are one observation

A state takes a row for a replay when the identities and the texts agree. The budget of a document
refuses repeated keys, and a document is reordered into its canonical form, so the text of an import
says which members the document has, and nothing else.
-/

namespace PcapEvidence.Bgp

namespace Json

theorem SameMembers.items {l : List Json} (before : List Json)
    (h : ∀ j ∈ l, SameMembers j j.canonical) :
    SameMembers (arrayOf (before ++ l)) (arrayOf (before ++ l.map canonical)) := by
  induction l generalizing before with
  | nil => exact .refl
  | cons j l ih =>
    have hfirst : SameMembers (arrayOf (before ++ j :: l)) (arrayOf (before ++ j.canonical :: l)) :=
      (h j List.mem_cons_self).lift (fun v => arrayOf (before ++ v :: l)) fun _ _ => .item before l
    have hrest := ih (before ++ [j.canonical]) fun k hk => h k (List.mem_cons_of_mem _ hk)
    rw [List.append_assoc, List.append_assoc] at hrest
    exact hfirst.trans hrest

theorem SameMembers.fields {l : List (String × Json)} (before : List (String × Json))
    (h : ∀ p ∈ l, SameMembers p.2 p.2.canonical) :
    SameMembers (objectOf (before ++ l)) (objectOf (before ++ l.map fun p => (p.1, p.2.canonical))) := by
  induction l generalizing before with
  | nil => exact .refl
  | cons p l ih =>
    have hfirst : SameMembers (objectOf (before ++ p :: l))
        (objectOf (before ++ (p.1, p.2.canonical) :: l)) :=
      (h p List.mem_cons_self).lift (fun v => objectOf (before ++ (p.1, v) :: l))
        fun _ _ => .member before l p.1
    have hrest := ih (before ++ [(p.1, p.2.canonical)]) fun q hq => h q (List.mem_cons_of_mem _ hq)
    rw [List.append_assoc, List.append_assoc] at hrest
    exact hfirst.trans hrest

theorem fieldsOf_toList (fields : JsonFields) : fieldsOf fields.toList = fields := by
  cases fields with
  | nil => rfl
  | cons key value rest => exact congrArg (JsonFields.cons key value) (fieldsOf_toList rest)

mutual

theorem sameMembers_canonical : ∀ v : Json, SameMembers v v.canonical
  | .null => .refl
  | .bool _ => .refl
  | .number _ => .refl
  | .string _ => .refl
  | .array items => by
    have hitems := SameMembers.items [] (sameMembers_items items)
    rw [List.nil_append, List.nil_append, ← canonical_arrayOf] at hitems
    rwa [arrayOf, itemsOf_toList] at hitems
  | .object fields => by
    have hfields := SameMembers.fields [] (sameMembers_fields fields)
    rw [List.nil_append, List.nil_append] at hfields
    have hsort : SameMembers (objectOf (fields.toList.map fun p => (p.1, p.2.canonical)))
        (objectOf fields.toList).canonical := by
      rw [canonical_objectOf]
      exact .single (.members (List.perm_insertionSort keyLe _).symm)
    have hwhole := hfields.trans hsort
    rwa [objectOf, fieldsOf_toList] at hwhole

theorem sameMembers_items : ∀ items : JsonItems, ∀ j ∈ items.toList, SameMembers j j.canonical
  | .nil => fun _ hj => absurd hj List.not_mem_nil
  | .cons item rest => List.forall_mem_cons.2 ⟨sameMembers_canonical item, sameMembers_items rest⟩

theorem sameMembers_fields : ∀ fields : JsonFields, ∀ p ∈ fields.toList,
    SameMembers p.2 p.2.canonical
  | .nil => fun _ hp => absurd hp List.not_mem_nil
  | .cons _ value rest =>
    List.forall_mem_cons.2 ⟨sameMembers_canonical value, sameMembers_fields rest⟩

end

theorem canonical_eq_iff {v v' : Json} (hv : NoRepeats v) :
    v.canonical = v'.canonical ↔ SameMembers v v' := by
  refine ⟨fun h => ?_, fun h => h.canonical_eq hv⟩
  have hv' := (sameMembers_canonical v').symm
  rw [← h] at hv'
  exact (sameMembers_canonical v).trans hv'

end Json

namespace State

open Json

mutual

theorem visit_noRepeats {l : Limits} : ∀ {v : Json} {depth : ℕ} {c c' : Count},
    visit l v depth c = .ok c' → NoRepeats v
  | .null, _, _, _, _ => by simp [NoRepeats]
  | .bool _, _, _, _, _ => by simp [NoRepeats]
  | .number _, _, _, _, _ => by simp [NoRepeats]
  | .string _, _, _, _, _ => by simp [NoRepeats]
  | .array items, _, _, _, h => by
    rw [visit] at h
    obtain ⟨_, _, h⟩ := bind_eq_ok.1 h
    obtain ⟨_, h⟩ := guard_eq_ok.1 h
    rw [NoRepeats]
    exact visitItems_noRepeats h
  | .object fields, _, _, _, h => by
    rw [visit] at h
    obtain ⟨_, _, h⟩ := bind_eq_ok.1 h
    obtain ⟨_, h⟩ := guard_eq_ok.1 h
    obtain ⟨hnodup, -, hfields⟩ := visitFields_noRepeats h
    rw [NoRepeats]
    exact ⟨hnodup, hfields⟩

theorem visitItems_noRepeats {l : Limits} : ∀ {items : JsonItems} {depth : ℕ} {c c' : Count},
    visitItems l items depth c = .ok c' → NoRepeatsItems items
  | .nil, _, _, _, _ => by simp [NoRepeatsItems]
  | .cons item rest, _, _, _, h => by
    rw [visitItems] at h
    obtain ⟨_, hitem, hrest⟩ := bind_eq_ok.1 h
    rw [NoRepeatsItems]
    exact ⟨visit_noRepeats hitem, visitItems_noRepeats hrest⟩

theorem visitFields_noRepeats {l : Limits} : ∀ {fields : JsonFields} {depth : ℕ}
    {keys : List String} {c c' : Count}, visitFields l fields depth keys c = .ok c' →
      (fields.toList.map Prod.fst).Nodup ∧ (∀ p ∈ fields.toList, p.1 ∉ keys) ∧ NoRepeatsFields fields
  | .nil, _, _, _, _, _ => by simp [JsonFields.toList, NoRepeatsFields]
  | .cons key value rest, _, keys, _, _, h => by
    rw [visitFields] at h
    obtain ⟨_, _, h⟩ := bind_eq_ok.1 h
    obtain ⟨hfresh, h⟩ := guard_eq_ok.1 h
    obtain ⟨_, hvalue, h⟩ := bind_eq_ok.1 h
    obtain ⟨hnodup, hkeys, hrest⟩ := visitFields_noRepeats h
    have hclean := visit_noRepeats hvalue
    rw [JsonFields.toList, NoRepeatsFields]
    refine ⟨?_, ?_, hclean, hrest⟩
    · rw [List.map_cons, List.nodup_cons]
      refine ⟨fun hmem => ?_, hnodup⟩
      obtain ⟨p, hp, hkey⟩ := List.mem_map.1 hmem
      exact hkeys p hp (hkey ▸ List.mem_cons_self)
    · intro p hp hmem
      rcases List.mem_cons.1 hp with rfl | hp
      · exact hfresh hmem
      · exact hkeys p hp (List.mem_cons_of_mem _ hmem)

end

theorem fromNormalized_noRepeats {k : Checks} {v : Json} {scope : Option ImportScope} {l : Limits}
    {o : Observation} (h : fromNormalized k v scope l = .ok o) : NoRepeats v := by
  obtain ⟨_, _, h⟩ := bind_eq_ok.1 h
  obtain ⟨_, hbudget, _⟩ := bind_eq_ok.1 h
  rw [treeBudget] at hbudget
  cases hvisit : visit l v 1 ⟨0, 0⟩ with
  | error e =>
    rw [hvisit] at hbudget
    cases hbudget
  | ok c => exact visit_noRepeats hvisit

/-- Two accepted imports pass for replays of each other exactly when their documents differ in the
order of members only, and then they are one observation. -/
theorem replay_iff_sameMembers {k : Checks} {v v' : Json} {l l' : Limits} {o o' : Observation}
    (h : fromNormalized k v none l = .ok o) (h' : fromNormalized k v' none l' = .ok o')
    (hkind : o.source.kind = .imported) (hkind' : o'.source.kind = .imported)
    (hcontext : o.importContext ≠ none) (hcontext' : o'.importContext ≠ none) :
    (o.identity = o'.identity ∧ o.encoded = o'.encoded ↔ SameMembers v v') ∧
      (SameMembers v v' → { o with nodes := 0 } = { o' with nodes := 0 }) := by
  have hreads := fromNormalized_reads h hkind hcontext
  have hreads' := fromNormalized_reads h' hkind' hcontext'
  have hclean := fromNormalized_noRepeats h
  have hone (hsame : SameMembers v v') : { o with nodes := 0 } = { o' with nodes := 0 } :=
    hreads.inj hreads' (hsame.canonical_eq hclean)
  refine ⟨⟨fun ⟨_, htext⟩ => ?_, fun hsame => ?_⟩, hone⟩
  · rw [hreads.encoded, hreads'.encoded, hreads.normalized, hreads'.normalized] at htext
    exact (canonical_eq_iff hclean).1 (JsonFields.cons.inj (JsonFields.cons.inj (JsonFields.cons.inj
      (Json.object.inj (encode_inj htext))).2.2).2.2).2.1
  · have hidentity : ({ o with nodes := 0 } : Observation).identity =
        ({ o' with nodes := 0 } : Observation).identity := congrArg _ (hone hsame)
    have htext : ({ o with nodes := 0 } : Observation).encoded =
        ({ o' with nodes := 0 } : Observation).encoded := congrArg _ (hone hsame)
    exact ⟨hidentity, htext⟩

section Sample

open Feed FeedReplay

def sampleMembers : List (String × Json) :=
  [("schema", .string routeSchema), ("endpoint_state_established", .bool false),
    ("causality_established", .bool false), ("source_kind", .string "imported"),
    ("source_id", .string "feed"), ("record_id", .string "r"), ("session", .string "s"),
    ("generation", .string "1"), ("direction", .null), ("observed_at_ns", .null), ("peer", .null),
    ("local", .null), ("message_type", .number 0), ("issues", arrayOf []),
    ("import_context", sampleContext.json), ("evidence", .null), ("routes", arrayOf [])]

def sampleRead (members : List (String × Json)) : Result Observation :=
  fromNormalized sampleChecks (objectOf members) none Limits.default

theorem sampleRead_ok {members : List (String × Json)}
    (h : members ∈ [sampleMembers, sampleMembers.reverse]) : ∃ o, sampleRead members = .ok o ∧
      o.source.kind = .imported ∧ o.importContext ≠ none := by
  have hall : ∀ m ∈ [sampleMembers, sampleMembers.reverse], ((sampleRead m).toOption.any fun o =>
      decide (o.source.kind = .imported ∧ o.importContext ≠ none)) = true := by
    decide +kernel
  have hread := hall members h
  cases hr : sampleRead members with
  | error e =>
    rw [hr] at hread
    cases hread
  | ok o =>
    rw [hr] at hread
    exact ⟨o, rfl, of_decide_eq_true hread⟩

theorem replay_iff_sameMembers_sample : ∃ o o', sampleRead sampleMembers = .ok o ∧
    sampleRead sampleMembers.reverse = .ok o' ∧
    (o.identity = o'.identity ∧ o.encoded = o'.encoded ↔
      SameMembers (objectOf sampleMembers) (objectOf sampleMembers.reverse)) ∧
    (SameMembers (objectOf sampleMembers) (objectOf sampleMembers.reverse) →
      { o with nodes := 0 } = { o' with nodes := 0 }) := by
  obtain ⟨o, ho, hkind, hcontext⟩ := @sampleRead_ok sampleMembers (by simp)
  obtain ⟨o', ho', hkind', hcontext'⟩ := @sampleRead_ok sampleMembers.reverse (by simp)
  exact ⟨o, o', ho, ho', replay_iff_sameMembers ho ho' hkind hkind' hcontext hcontext'⟩

end Sample

end State

end PcapEvidence.Bgp
