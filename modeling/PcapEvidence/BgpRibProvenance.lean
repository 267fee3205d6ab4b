import PcapEvidence.BgpRibInvariant

/-!
# Where the versions of a route come from

Every announcement is bound to the version that it made or confirmed. Versions keep their places, so
the witnesses and the occurrences of a version are those of its bindings, over the whole run.
-/

namespace PcapEvidence.Bgp.AdjRibIn

open FiniteMap FinMap History

variable {check : RibEvent → Limits → Result Unit} {s t : AdjRibIn} {event : RibEvent}
  {origin : Option Digest} {plan : PreparedRibEvent} {admission i : ℕ} {status : ApplyStatus}

section Views

variable {route : PrefixIdentity} {pathId : PathId}

def stripVersion (v : RouteVersion) : RouteVersion := { v with disposition := .current }

def view (entries : FinMap RouteKey RouteEntry) (k : RouteKey) : List RouteVersion :=
  ((entries.get k).map fun e => e.versions.map stripVersion).getD []

def bindAt (bindings : FinMap ℕ (List VersionBinding)) (e : ℕ) : List VersionBinding :=
  (bindings.get e).getD []

def boundTo (k : RouteKey) (n : ℕ) (b : VersionBinding) : Bool := b.key = k && b.versionIndex = n

def recordsOf (events : List RibEvent) (bindings : FinMap ℕ (List VersionBinding)) (k : RouteKey)
    (n : ℕ) : List String :=
  events.zipIdx.flatMap fun x => ((bindAt bindings x.2).filter (boundTo k n)).map fun _ => x.1.recordId

structure Announces (events : List RibEvent) (versions : RouteKey → List RouteVersion) (e : ℕ)
    (b : VersionBinding) : Prop where
  announced : ∃ event v route pathId, events[e]? = some event ∧
    (versions b.key)[b.versionIndex]? = some v ∧ b.key = routeKey event.scope route pathId ∧
    (updateActions event.kind)[b.routeIndex]? =
      some (.announce route pathId v.attributes v.attributeIdentity)

structure Prov (events : List RibEvent) (counted : ℕ → Digest → Prop)
    (versions : RouteKey → List RouteVersion) (bindings : FinMap ℕ (List VersionBinding)) : Prop where
  bound : ∀ e, ∀ b ∈ bindAt bindings e, Announces events versions e b
  positions : ∀ e, ((bindAt bindings e).map (·.routeIndex)).Nodup
  witnesses : ∀ (k : RouteKey) (n : ℕ) (v : RouteVersion), (versions k)[n]? = some v → v.witnesses = recordsOf events bindings k n
  distinct : ∀ (k : RouteKey) (n : ℕ) (v : RouteVersion), (versions k)[n]? = some v → v.occurrences.Nodup
  occurrences : ∀ (k : RouteKey) (n : ℕ) (v : RouteVersion), (versions k)[n]? = some v → ∀ o, o ∈ v.occurrences ↔
    counted o.eventIndex o.observationSha256 ∧ ∃ b ∈ bindAt bindings o.eventIndex,
      boundTo k n b = true ∧ b.routeIndex = o.routeIndex

variable {events : List RibEvent} {counted counted' : ℕ → Digest → Prop}
  {versions versions' : RouteKey → List RouteVersion} {bindings : FinMap ℕ (List VersionBinding)}

theorem view_insert (entries : FinMap RouteKey RouteEntry) (key k : RouteKey) (e : RouteEntry) :
    view (entries.insert key e) k =
      if k = key then e.versions.map stripVersion else view entries k := by
  unfold view
  rw [get_insert]
  split_ifs
  · rfl
  · rfl

theorem view_getD (entries : FinMap RouteKey RouteEntry) (k : RouteKey) (st : RouteStatus)
    (witness : String) :
    ((entries.get k).getD ⟨[], st, witness⟩).versions.map stripVersion = view entries k := by
  unfold view
  cases entries.get k <;> rfl

theorem strip_setDisposition (p : VersionDisposition → Bool) (d : VersionDisposition)
    (e : RouteEntry) :
    (setDisposition p d e).versions.map stripVersion = e.versions.map stripVersion := by
  simp only [setDisposition, List.map_map]
  refine List.map_congr_left fun v _ => ?_
  simp only [Function.comp_apply]
  split_ifs <;> rfl

theorem view_updateEntries {p : RouteKey → Bool} {f : RouteEntry → RouteEntry}
    (hf : ∀ e, (f e).versions.map stripVersion = e.versions.map stripVersion) (s : AdjRibIn) :
    view (s.updateEntries p f).entries = view s.entries := by
  funext k
  simp only [view, updateEntries, get_mapVal]
  cases s.entries.get k with
  | none => rfl
  | some e =>
    simp only [Option.map_some, Option.getD_some]
    split_ifs
    · exact hf e
    · rfl

theorem Prov.counted_congr (h : Prov events counted versions bindings)
    (hc : ∀ e d, bindAt bindings e ≠ [] → (counted e d ↔ counted' e d)) :
    Prov events counted' versions bindings :=
  { h with
    occurrences := by
      intro k n v hv o
      rw [h.occurrences k n v hv o]
      constructor
      · rintro ⟨ho, b, hb, hrest⟩
        exact ⟨(hc _ _ (List.ne_nil_of_mem hb)).1 ho, b, hb, hrest⟩
      · rintro ⟨ho, b, hb, hrest⟩
        exact ⟨(hc _ _ (List.ne_nil_of_mem hb)).2 ho, b, hb, hrest⟩ }

theorem Prov.record (h : Prov events counted versions bindings)
    (hnew : bindAt bindings events.length = []) (event : RibEvent) :
    Prov (events ++ [event]) counted versions bindings :=
  { h with
    bound := by
      intro e b hb
      obtain ⟨old, v, route, pathId, hold, hrest⟩ := (h.bound e b hb).announced
      exact ⟨old, v, route, pathId, by
        rw [List.getElem?_append_left (List.getElem?_eq_some_iff.1 hold).1, hold], hrest⟩
    witnesses := by
      intro k n v hv
      rw [h.witnesses k n v hv, recordsOf, recordsOf, List.zipIdx_append, List.flatMap_append]
      simp [hnew] }

theorem mem_occurrence {o : NativeVersionOccurrence} {r : ℕ} :
    o ∈ occurrence i origin r ↔
      o.eventIndex = i ∧ origin = some o.observationSha256 ∧ o.routeIndex = r := by
  obtain ⟨e, d, r'⟩ := o
  simp only [occurrence, List.mem_map, Option.mem_toList, NativeVersionOccurrence.mk.injEq]
  constructor
  · rintro ⟨d', hd, rfl, rfl, rfl⟩
    exact ⟨rfl, hd, rfl⟩
  · rintro ⟨rfl, hd, rfl⟩
    exact ⟨d, hd, rfl, rfl, rfl⟩

theorem nodup_occurrence (r : ℕ) : (occurrence i origin r).Nodup := by
  cases origin <;> simp [occurrence]

theorem bindAt_insert (l : List VersionBinding) (e : ℕ) :
    bindAt (bindings.insert i l) e = if e = i then l else bindAt bindings e := by
  unfold bindAt
  rw [get_insert]
  split_ifs
  · rfl
  · rfl

theorem recordsOf_insert (b : VersionBinding) (k : RouteKey) (n : ℕ) :
    recordsOf (events ++ [event]) (bindings.insert events.length (bindAt bindings events.length ++ [b]))
        k n =
      recordsOf (events ++ [event]) bindings k n ++ if boundTo k n b then [event.recordId] else [] := by
  have hbefore : ∀ x ∈ events.zipIdx,
      bindAt (bindings.insert events.length (bindAt bindings events.length ++ [b])) x.2 =
        bindAt bindings x.2 := by
    intro x hx
    have hlt := List.snd_lt_of_mem_zipIdx hx
    rw [bindAt_insert, if_neg (by omega)]
  have hsame : events.zipIdx.flatMap (fun x => ((bindAt (bindings.insert events.length
      (bindAt bindings events.length ++ [b])) x.2).filter (boundTo k n)).map fun _ => x.1.recordId) =
      events.zipIdx.flatMap fun x =>
        ((bindAt bindings x.2).filter (boundTo k n)).map fun _ => x.1.recordId := by
    rw [List.flatMap_def, List.flatMap_def]
    congr 1
    refine List.map_congr_left fun x hx => ?_
    rw [hbefore x hx]
  unfold recordsOf
  rw [List.zipIdx_append, List.flatMap_append, List.flatMap_append, hsame, List.append_assoc]
  congr 1
  simp only [List.zipIdx_cons, List.zipIdx_nil, List.flatMap_cons, List.flatMap_nil, List.append_nil,
    Nat.zero_add, bindAt_insert, if_true, List.filter_append, List.map_append]
  congr 1
  split_ifs with hb
  · simp [hb]
  · simp [hb]

theorem Prov.lt_length (h : Prov events counted versions bindings) {e : ℕ} {b : VersionBinding}
    (hb : b ∈ bindAt bindings e) : b.versionIndex < (versions b.key).length := by
  obtain ⟨_, v, _, _, -, hv, -⟩ := (h.bound e b hb).announced
  exact (List.getElem?_eq_some_iff.1 hv).1

/-- The bound version gets the record id and the occurrence, and the others are as they were. -/
theorem Prov.bind {key : RouteKey} {n r : ℕ}
    {old : List NativeVersionOccurrence} (h : Prov (events ++ [event]) counted versions bindings)
    (target : RouteVersion)
    (hcounted : ∀ d, counted events.length d ↔ origin = some d)
    (hkey : key = routeKey event.scope route pathId)
    (haction : (updateActions event.kind)[r]? =
      some (.announce route pathId target.attributes target.attributeIdentity))
    (hfresh : r ∉ (bindAt bindings events.length).map (·.routeIndex))
    (hkept : ∀ (k : RouteKey) (m : ℕ) (v : RouteVersion), (versions k)[m]? = some v →
      ∃ v' : RouteVersion, (versions' k)[m]? = some v' ∧ v'.attributes = v.attributes ∧ v'.attributeIdentity = v.attributeIdentity)
    (hothers : ∀ (k : RouteKey) (m : ℕ) (v : RouteVersion), (versions' k)[m]? = some v → (k, m) ≠ (key, n) → (versions k)[m]? = some v)
    (htarget : (versions' key)[n]? = some target)
    (hwitnesses : target.witnesses = recordsOf (events ++ [event]) bindings key n ++ [event.recordId])
    (hold : old.Nodup ∧ ∀ o, o ∈ old ↔ counted o.eventIndex o.observationSha256 ∧
      ∃ b ∈ bindAt bindings o.eventIndex, boundTo key n b = true ∧ b.routeIndex = o.routeIndex)
    (hoccurrences : target.occurrences = old ++ occurrence events.length origin r) :
    Prov (events ++ [event]) counted versions'
      (bindings.insert events.length (bindAt bindings events.length ++ [⟨key, n, r⟩])) where
  bound := by
    intro e b hb
    have hcases : b ∈ bindAt bindings e ∨ e = events.length ∧ b = ⟨key, n, r⟩ := by
      rw [bindAt_insert] at hb
      split_ifs at hb with he
      · rcases List.mem_append.1 hb with hb | hb
        · exact .inl (he ▸ hb)
        · exact .inr ⟨he, List.mem_singleton.1 hb⟩
      · exact .inl hb
    rcases hcases with hb | ⟨rfl, rfl⟩
    · obtain ⟨ev, v, rt, pid, hev, hv, hk, ha⟩ := (h.bound e b hb).announced
      obtain ⟨v', hv', hattr, hid⟩ := hkept _ _ _ hv
      exact ⟨ev, v', rt, pid, hev, hv', hk, by rw [hattr, hid]; exact ha⟩
    · exact ⟨event, target, route, pathId, by simp, htarget, hkey, haction⟩
  positions := by
    intro e
    rw [bindAt_insert]
    split_ifs with he
    · rw [List.map_append]
      refine List.Nodup.append (h.positions _) (List.nodup_singleton _) ?_
      simpa using hfresh
    · exact h.positions e
  witnesses := by
    intro k m v hv
    rw [recordsOf_insert]
    by_cases hk : (k, m) = (key, n)
    · cases hk
      rw [htarget] at hv
      cases hv
      simp [hwitnesses, boundTo]
    · have hno : boundTo k m ⟨key, n, r⟩ = false := by
        simp only [boundTo, Bool.and_eq_false_iff, decide_eq_false_iff_not]
        by_contra hand
        simp only [not_or, not_not] at hand
        exact hk (by rw [hand.1, hand.2])
      simp only [hno, Bool.false_eq_true, if_false, List.append_nil]
      exact h.witnesses k m v (hothers k m v hv hk)
  distinct := by
    intro k m v hv
    by_cases hk : (k, m) = (key, n)
    · cases hk
      rw [htarget] at hv
      cases hv
      rw [hoccurrences]
      refine List.Nodup.append hold.1 (nodup_occurrence r) ?_
      intro o ho ho'
      obtain ⟨hi, -, hr⟩ := mem_occurrence.1 ho'
      obtain ⟨-, b, hb, -, hbr⟩ := (hold.2 o).1 ho
      rw [hi] at hb
      exact hfresh (List.mem_map.2 ⟨b, hb, hbr.trans hr⟩)
    · exact h.distinct k m v (hothers k m v hv hk)
  occurrences := by
    intro k m v hv o
    -- The new binding counts for the target only.
    have hnew : (∃ b ∈ bindAt (bindings.insert events.length (bindAt bindings events.length ++
        [⟨key, n, r⟩])) o.eventIndex, boundTo k m b = true ∧ b.routeIndex = o.routeIndex) ↔
        (∃ b ∈ bindAt bindings o.eventIndex, boundTo k m b = true ∧ b.routeIndex = o.routeIndex) ∨
        o.eventIndex = events.length ∧ (key = k ∧ n = m) ∧ r = o.routeIndex := by
      rw [bindAt_insert]
      split_ifs with he
      · simp [he, boundTo, or_and_right, exists_or]
      · simp [he]
    rw [hnew]
    by_cases hk : (k, m) = (key, n)
    · cases hk
      rw [htarget] at hv
      cases hv
      rw [hoccurrences, List.mem_append, hold.2 o, mem_occurrence]
      constructor
      · rintro (⟨hc, hb⟩ | ⟨hi, hd, hr⟩)
        · exact ⟨hc, .inl hb⟩
        · exact ⟨hi ▸ (hcounted _).2 hd, .inr ⟨hi, ⟨rfl, rfl⟩, hr.symm⟩⟩
      · rintro ⟨hc, hb | ⟨hi, -, hr⟩⟩
        · exact .inl ⟨hc, hb⟩
        · exact .inr ⟨hi, (hcounted _).1 (hi ▸ hc), hr.symm⟩
    · rw [h.occurrences k m v (hothers k m v hv hk) o]
      constructor
      · rintro ⟨hc, hb⟩
        exact ⟨hc, .inl hb⟩
      · rintro ⟨hc, hb | ⟨-, ⟨rfl, rfl⟩, -⟩⟩
        · exact ⟨hc, hb⟩
        · exact absurd rfl hk

theorem Prov.unbound (h : Prov events counted versions bindings) {k : RouteKey} {e : ℕ}
    {b : VersionBinding} (hb : b ∈ bindAt bindings e) : boundTo k (versions k).length b = false := by
  by_contra hbound
  simp only [boundTo, Bool.not_eq_false, Bool.and_eq_true, decide_eq_true_eq] at hbound
  have hlt := h.lt_length hb
  rw [hbound.1, hbound.2] at hlt
  omega

theorem Prov.push {r : ℕ} {attributes : Json} {attributeIdentity : String}
    (h : Prov (events ++ [event]) counted versions bindings)
    (hcounted : ∀ d, counted events.length d ↔ origin = some d)
    (haction : (updateActions event.kind)[r]? =
      some (.announce route pathId attributes attributeIdentity))
    (hfresh : r ∉ (bindAt bindings events.length).map (·.routeIndex))
    (hversions : ∀ k, versions' k = if k = routeKey event.scope route pathId then
      versions k ++ [⟨attributes, attributeIdentity, [event.recordId],
        occurrence events.length origin r, .current⟩] else versions k) :
    Prov (events ++ [event]) counted versions' (bindings.insert events.length
      (bindAt bindings events.length ++ [⟨routeKey event.scope route pathId,
        (versions (routeKey event.scope route pathId)).length, r⟩])) := by
  have hrecords : recordsOf (events ++ [event]) bindings (routeKey event.scope route pathId)
      (versions (routeKey event.scope route pathId)).length = [] := by
    rw [recordsOf, List.flatMap_eq_nil_iff]
    intro x _
    rw [List.map_eq_nil_iff, List.filter_eq_nil_iff]
    intro b hb
    simp [h.unbound hb]
  refine h.bind ⟨attributes, attributeIdentity, [event.recordId],
    occurrence events.length origin r, .current⟩ hcounted rfl haction hfresh ?_ ?_
    (by rw [hversions, if_pos rfl, List.getElem?_concat_length]) (by rw [hrecords]; rfl)
    ⟨List.nodup_nil, ?_⟩ rfl
  · intro k m v hv
    refine ⟨v, ?_, rfl, rfl⟩
    rw [hversions]
    split_ifs with hk
    · rw [List.getElem?_append_left (List.getElem?_eq_some_iff.1 hv).1, hv]
    · exact hv
  · intro k m v hv hne
    rw [hversions] at hv
    split_ifs at hv with hk
    · have hm : m ≠ (versions k).length := by
        rintro rfl
        exact hne (by rw [hk])
      have hlt := (List.getElem?_eq_some_iff.1 hv).1
      rw [List.length_append, List.length_singleton] at hlt
      rwa [List.getElem?_append_left (by omega)] at hv
    · exact hv
  · intro o
    simp only [List.not_mem_nil, false_iff, not_and, not_exists]
    intro _ b hb hbound
    rw [h.unbound hb] at hbound
    cases hbound

theorem Prov.confirm {r : ℕ} {last : RouteVersion}
    (h : Prov (events ++ [event]) counted versions bindings)
    (hcounted : ∀ d, counted events.length d ↔ origin = some d)
    (hlast : (versions (routeKey event.scope route pathId)).getLast? = some last)
    (haction : (updateActions event.kind)[r]? =
      some (.announce route pathId last.attributes last.attributeIdentity))
    (hfresh : r ∉ (bindAt bindings events.length).map (·.routeIndex))
    (hversions : ∀ k, versions' k = if k = routeKey event.scope route pathId then
      (versions k).dropLast ++ [{ last with
        witnesses := last.witnesses ++ [event.recordId]
        occurrences := last.occurrences ++ occurrence events.length origin r }] else versions k) :
    Prov (events ++ [event]) counted versions' (bindings.insert events.length
      (bindAt bindings events.length ++ [⟨routeKey event.scope route pathId,
        (versions (routeKey event.scope route pathId)).length - 1, r⟩])) := by
  have hget : (versions (routeKey event.scope route pathId))[(versions (routeKey event.scope route
      pathId)).length - 1]? = some last := by rw [← List.getLast?_eq_getElem?, hlast]
  have hpos : 0 < (versions (routeKey event.scope route pathId)).length := by
    have hlt := (List.getElem?_eq_some_iff.1 hget).1
    omega
  have hdrop : (versions (routeKey event.scope route pathId)).dropLast.length =
      (versions (routeKey event.scope route pathId)).length - 1 := List.length_dropLast
  have htarget : (versions' (routeKey event.scope route pathId))[(versions (routeKey event.scope
      route pathId)).length - 1]? = some { last with
        witnesses := last.witnesses ++ [event.recordId]
        occurrences := last.occurrences ++ occurrence events.length origin r } := by
    rw [hversions, if_pos rfl, ← hdrop, List.getElem?_concat_length]
  refine h.bind { last with
    witnesses := last.witnesses ++ [event.recordId]
    occurrences := last.occurrences ++ occurrence events.length origin r } hcounted rfl haction hfresh ?_ ?_ htarget
    (by rw [← h.witnesses _ _ _ hget]) ⟨h.distinct _ _ _ hget, h.occurrences _ _ _ hget⟩ rfl
  · intro k m v hv
    by_cases hk : k = routeKey event.scope route pathId
    · subst hk
      have hlt := (List.getElem?_eq_some_iff.1 hv).1
      by_cases hm : m = (versions (routeKey event.scope route pathId)).length - 1
      · subst hm
        rw [hget] at hv
        cases hv
        exact ⟨_, htarget, rfl, rfl⟩
      · refine ⟨v, ?_, rfl, rfl⟩
        rw [hversions, if_pos rfl, List.getElem?_append_left (by omega), List.getElem?_dropLast,
          if_pos (by omega), hv]
    · exact ⟨v, by rw [hversions, if_neg hk, hv], rfl, rfl⟩
  · intro k m v hv hne
    rw [hversions] at hv
    split_ifs at hv with hk
    · subst hk
      have hm : m ≠ (versions (routeKey event.scope route pathId)).length - 1 := by
        rintro rfl
        exact hne rfl
      have hlt := (List.getElem?_eq_some_iff.1 hv).1
      rw [List.length_append, List.length_singleton] at hlt
      rw [List.getElem?_append_left (by omega), List.getElem?_dropLast, if_pos (by omega)] at hv
      exact hv
    · exact hv

theorem prov_bind_push {r : ℕ} {attributes : Json} {attributeIdentity : String} {entry : RouteEntry}
    (h : Prov (events ++ [event]) counted (view s.entries) s.versionBindings)
    (hcounted : ∀ d, counted events.length d ↔ origin = some d)
    (haction : (updateActions event.kind)[r]? =
      some (.announce route pathId attributes attributeIdentity))
    (hfresh : r ∉ (bindAt s.versionBindings events.length).map (·.routeIndex))
    (hentry : entry.versions.map stripVersion = view s.entries (routeKey event.scope route pathId) ++
      [⟨attributes, attributeIdentity, [event.recordId], occurrence events.length origin r,
        .current⟩]) :
    Prov (events ++ [event]) counted
      (view (s.bind events.length r origin (routeKey event.scope route pathId) entry).entries)
      (s.bind events.length r origin (routeKey event.scope route pathId) entry).versionBindings := by
  have hlength : entry.versions.length - 1 =
      (view s.entries (routeKey event.scope route pathId)).length := by
    have hl := congrArg List.length hentry
    simp only [List.length_map, List.length_append, List.length_singleton] at hl
    omega
  simp only [AdjRibIn.bind, hlength]
  refine h.push hcounted haction hfresh fun k => ?_
  rw [view_insert, hentry]
  split_ifs with hk
  · rw [hk]
  · rfl

theorem prov_bind_confirm {r : ℕ} {last : RouteVersion}
    {entry : RouteEntry} (h : Prov (events ++ [event]) counted (view s.entries) s.versionBindings)
    (hcounted : ∀ d, counted events.length d ↔ origin = some d)
    (hlast : (view s.entries (routeKey event.scope route pathId)).getLast? = some last)
    (haction : (updateActions event.kind)[r]? =
      some (.announce route pathId last.attributes last.attributeIdentity))
    (hfresh : r ∉ (bindAt s.versionBindings events.length).map (·.routeIndex))
    (hentry : entry.versions.map stripVersion =
      (view s.entries (routeKey event.scope route pathId)).dropLast ++ [{ last with
        witnesses := last.witnesses ++ [event.recordId]
        occurrences := last.occurrences ++ occurrence events.length origin r }]) :
    Prov (events ++ [event]) counted
      (view (s.bind events.length r origin (routeKey event.scope route pathId) entry).entries)
      (s.bind events.length r origin (routeKey event.scope route pathId) entry).versionBindings := by
  have hlength : entry.versions.length - 1 =
      (view s.entries (routeKey event.scope route pathId)).length - 1 := by
    have hl := congrArg List.length hentry
    simp only [List.length_map, List.length_append, List.length_singleton, List.length_dropLast] at hl
    omega
  simp only [AdjRibIn.bind, hlength]
  refine h.confirm hcounted hlast haction hfresh fun k => ?_
  rw [view_insert, hentry]
  split_ifs with hk
  · rw [hk]
  · rfl

theorem prov_applyConflict (x : RibAction × ℕ)
    (h : Prov (events ++ [event]) counted (view s.entries) s.versionBindings)
    (hcounted : ∀ d, counted events.length d ↔ origin = some d)
    (haction : (updateActions event.kind)[x.2]? = some x.1)
    (hfresh : x.2 ∉ (bindAt s.versionBindings events.length).map (·.routeIndex)) :
    Prov (events ++ [event]) counted (view (s.applyConflict event events.length origin x).entries)
      (s.applyConflict event events.length origin x).versionBindings := by
  obtain ⟨action, r⟩ := x
  cases action with
  | announce route pathId attributes attributeIdentity =>
    simp only [applyConflict]
    split_ifs with hd
    · refine prov_bind_push h hcounted haction hfresh ?_
      rw [List.map_append, view_getD]
      rfl
    · exact h
  | withdraw route pathId => exact h
  | reject route pathId reason => exact h

theorem strip_announced (recordId : String) (attributes : Json) (attributeIdentity : String)
    (occurrences : List NativeVersionOccurrence) (entry : RouteEntry) :
    (announced recordId attributes attributeIdentity occurrences entry).map stripVersion =
        entry.versions.map stripVersion ++
          [⟨attributes, attributeIdentity, [recordId], occurrences, .current⟩] ∨
      ∃ last, (entry.versions.map stripVersion).getLast? = some last ∧
        last.attributes = attributes ∧ last.attributeIdentity = attributeIdentity ∧
        (announced recordId attributes attributeIdentity occurrences entry).map stripVersion =
          (entry.versions.map stripVersion).dropLast ++ [{ last with
            witnesses := last.witnesses ++ [recordId]
            occurrences := last.occurrences ++ occurrences }] := by
  unfold announced
  split_ifs with hsame
  · right
    cases hlast : entry.versions.getLast? with
    | none => simp [hlast] at hsame
    | some v =>
      simp only [hlast, Option.any_some, Bool.and_eq_true, decide_eq_true_eq] at hsame
      refine ⟨stripVersion v, by rw [List.getLast?_map, hlast]; rfl, hsame.2.1, hsame.2.2, ?_⟩
      simp only [witnessed, hlast, List.map_append, List.map_dropLast]
      rfl
  · left
    rw [List.map_append, strip_setDisposition]
    rfl

theorem prov_applyAction (gap : Bool) (x : RibAction × ℕ)
    (h : Prov (events ++ [event]) counted (view s.entries) s.versionBindings)
    (hcounted : ∀ d, counted events.length d ↔ origin = some d)
    (haction : (updateActions event.kind)[x.2]? = some x.1)
    (hfresh : x.2 ∉ (bindAt s.versionBindings events.length).map (·.routeIndex)) :
    Prov (events ++ [event]) counted (view (s.applyAction event gap events.length origin x).entries)
      (s.applyAction event gap events.length origin x).versionBindings := by
  obtain ⟨action, r⟩ := x
  cases action with
  | announce route pathId attributes attributeIdentity =>
    simp only [applyAction]
    obtain hpush | ⟨last, hlast, rfl, rfl, hconfirm⟩ := strip_announced event.recordId attributes
      attributeIdentity (occurrence events.length origin r)
      ((s.entries.get (routeKey event.scope route pathId)).getD ⟨[], .unresolved, event.recordId⟩)
    · rw [view_getD] at hpush
      exact prov_bind_push h hcounted haction hfresh hpush
    · rw [view_getD] at hlast hconfirm
      exact prov_bind_confirm h hcounted hlast haction hfresh hconfirm
  | withdraw route pathId =>
    have hview : view (s.applyAction event gap events.length origin
        (.withdraw route pathId, r)).entries = view s.entries := by
      funext k
      simp only [applyAction, view_insert]
      split_ifs with hk
      · rw [strip_setDisposition, view_getD, hk]
      · rfl
    rw [hview]
    exact h
  | reject route pathId reason => exact h

/-- What a step adds to the bindings of its event. -/
def Extends (i r : ℕ) (s t : AdjRibIn) : Prop :=
  ∀ b ∈ bindAt t.versionBindings i, b ∈ bindAt s.versionBindings i ∨ b.routeIndex = r

theorem extends_bind {r : ℕ} {key : RouteKey} {entry : RouteEntry} :
    Extends i r s (s.bind i r origin key entry) := by
  intro b hb
  simp only [AdjRibIn.bind, bindAt_insert, if_true] at hb
  rcases List.mem_append.1 hb with hb | hb
  · exact .inl hb
  · rw [List.mem_singleton.1 hb]
    exact .inr rfl

theorem extends_applyConflict (x : RibAction × ℕ) :
    Extends i x.2 s (s.applyConflict event i origin x) := by
  unfold applyConflict
  split
  · split_ifs
    · exact extends_bind
    · exact fun b hb => .inl hb
  · exact fun b hb => .inl hb

theorem extends_applyAction {gap : Bool} (x : RibAction × ℕ) :
    Extends i x.2 s (s.applyAction event gap i origin x) := by
  unfold applyAction
  split
  · exact extends_bind
  · exact fun b hb => .inl hb
  · exact fun b hb => .inl hb

theorem prov_foldl {f : AdjRibIn → RibAction × ℕ → AdjRibIn} (l : List (RibAction × ℕ))
    (hstep : ∀ x ∈ l, ∀ s, Prov (events ++ [event]) counted (view s.entries) s.versionBindings →
      x.2 ∉ (bindAt s.versionBindings events.length).map (·.routeIndex) →
      Prov (events ++ [event]) counted (view (f s x).entries) (f s x).versionBindings)
    (hextends : ∀ x s, Extends events.length x.2 s (f s x))
    (hnodup : (l.map (·.2)).Nodup)
    (hfresh : ∀ b ∈ bindAt s.versionBindings events.length, b.routeIndex ∉ l.map (·.2))
    (h : Prov (events ++ [event]) counted (view s.entries) s.versionBindings) :
    Prov (events ++ [event]) counted (view (l.foldl f s).entries) (l.foldl f s).versionBindings := by
  induction l generalizing s with
  | nil => exact h
  | cons x rest ih =>
    rw [List.map_cons, List.nodup_cons] at hnodup
    rw [List.foldl_cons]
    refine ih (fun y hy => hstep y (List.mem_cons_of_mem x hy)) hnodup.2 ?_
      (hstep x List.mem_cons_self s h ?_)
    · intro b hb
      rcases hextends x s b hb with hold | hr
      · exact fun hin => hfresh b hold (List.mem_cons_of_mem _ hin)
      · rw [hr]
        exact hnodup.1
    · intro hin
      obtain ⟨b, hb, hr⟩ := List.mem_map.1 hin
      exact hfresh b hb (hr ▸ List.mem_cons_self)

end Views

structure ProvInv (s : AdjRibIn) : Prop where
  prov : Prov s.events (fun e d => (e, d) ∈ s.originIndex) (view s.entries) s.versionBindings
  origins : ∀ x ∈ s.originIndex, (s.versionBindings.get x.1).isSome
  events : s.events.Nodup

theorem bindAt_ne_nil {bindings : FinMap ℕ (List VersionBinding)} {e : ℕ}
    (h : bindAt bindings e ≠ []) : (bindings.get e).isSome := by
  cases hget : bindings.get e with
  | none => exact absurd (by rw [bindAt, hget]; rfl) h
  | some l => rfl
variable (hi : Indexed s)
include hi

theorem bindAt_length : bindAt s.versionBindings s.events.length = [] := by
  by_contra hne
  have hlt := hi.bindings _ (bindAt_ne_nil hne)
  omega

def countedWith (s : AdjRibIn) (origin : Option Digest) (e : ℕ) (d : Digest) : Prop :=
  (e, d) ∈ s.originIndex ∨ e = s.events.length ∧ origin = some d

theorem not_mem_origins (h : ProvInv s) (d : Digest) : (s.events.length, d) ∉ s.originIndex := by
  intro hin
  have hlt := hi.bindings _ (h.origins _ hin)
  exact absurd hlt (lt_irrefl _)

theorem countedWith_length (h : ProvInv s) (d : Digest) :
    countedWith s origin s.events.length d ↔ origin = some d := by
  simp [countedWith, not_mem_origins hi h]

theorem prov_record (h : ProvInv s) (event : RibEvent) (origin : Option Digest) :
    Prov (s.events ++ [event]) (countedWith s origin) (view s.entries) s.versionBindings := by
  refine (h.prov.record (bindAt_length hi) event).counted_congr fun e d hne => ?_
  have hlt := hi.bindings _ (bindAt_ne_nil hne)
  have hout : e ≠ s.events.length := by omega
  simp [countedWith, hout]

theorem prov_finishOrigin (h : ProvInv s) {w : AdjRibIn} (ho : w.originIndex = s.originIndex)
    (hw : Prov (s.events ++ [event]) (countedWith s origin) (view w.entries) w.versionBindings) :
    Prov (s.events ++ [event])
        (fun e d => (e, d) ∈ (w.finishOrigin s.events.length origin).originIndex)
        (view (w.finishOrigin s.events.length origin).entries)
        (w.finishOrigin s.events.length origin).versionBindings ∧
      ∀ x ∈ (w.finishOrigin s.events.length origin).originIndex, x ∈ s.originIndex ∨
        ((w.finishOrigin s.events.length origin).versionBindings.get x.1).isSome := by
  have hframe : view (w.finishOrigin s.events.length origin).entries = view w.entries ∧
      (w.finishOrigin s.events.length origin).versionBindings = w.versionBindings := by
    rw [finishOrigin_frame]
    exact ⟨rfl, rfl⟩
  rw [hframe.1, hframe.2]
  have hnot := not_mem_origins hi h
  cases origin with
  | none =>
    refine ⟨hw.counted_congr fun e d _ => ?_, fun x hx => .inl (ho ▸ hx)⟩
    simp [countedWith, finishOrigin, ho]
  | some digest =>
    by_cases hb : (w.versionBindings.get s.events.length).isSome = true
    · simp only [finishOrigin, if_pos hb, ho]
      refine ⟨hw.counted_congr fun e d _ => ?_, fun x hx => ?_⟩
      · simp only [countedWith, Finset.mem_insert, Prod.mk.injEq, Option.some.injEq]
        constructor
        · rintro (hin | ⟨rfl, rfl⟩)
          · exact .inr hin
          · exact .inl ⟨rfl, rfl⟩
        · rintro (⟨rfl, rfl⟩ | hin)
          · exact .inr ⟨rfl, rfl⟩
          · exact .inl hin
      · rcases Finset.mem_insert.1 hx with rfl | hin
        · exact .inr hb
        · exact .inl hin
    · simp only [finishOrigin, if_neg hb, ho]
      refine ⟨hw.counted_congr fun e d hne => ?_, fun x hx => .inl hx⟩
      have he : e ≠ s.events.length := by
        rintro rfl
        exact hb (bindAt_ne_nil hne)
      simp [countedWith, he]

theorem prov_actions (h : ProvInv s) {w : AdjRibIn}
    {f : AdjRibIn → RibAction × ℕ → AdjRibIn} (l : List RibAction)
    (hl : l = updateActions event.kind)
    (hstep : ∀ x s', Prov (s.events ++ [event]) (countedWith s origin) (view s'.entries)
        s'.versionBindings → (updateActions event.kind)[x.2]? = some x.1 →
      x.2 ∉ (bindAt s'.versionBindings s.events.length).map (·.routeIndex) →
      Prov (s.events ++ [event]) (countedWith s origin) (view (f s' x).entries)
        (f s' x).versionBindings)
    (hextends : ∀ x s', Extends s.events.length x.2 s' (f s' x))
    (hview : view w.entries = view s.entries) (hbindings : w.versionBindings = s.versionBindings) :
    Prov (s.events ++ [event]) (countedWith s origin) (view (l.zipIdx.foldl f w).entries)
      (l.zipIdx.foldl f w).versionBindings := by
  refine prov_foldl l.zipIdx (fun x hx s' hs' hfresh => hstep x s' hs' ?_ hfresh) hextends ?_ ?_ ?_
  · rw [← hl]
    exact List.mem_zipIdx_iff_getElem?.1 hx
  · have hsnd : l.zipIdx.map (·.2) = List.range' 0 l.length := by
      simp [List.zipIdx_map_snd]
    rw [hsnd]
    exact List.nodup_range'
  · rw [hbindings, bindAt_length hi]
    simp
  · rw [hview, hbindings]
    exact prov_record hi h event origin

theorem prov_outcome (h : ProvInv s) (ho : Outcome s event origin status t) :
    Prov (s.events ++ [event]) (fun e d => (e, d) ∈ t.originIndex) (view t.entries)
        t.versionBindings ∧
      ∀ x ∈ t.originIndex, x ∈ s.originIndex ∨ (t.versionBindings.get x.1).isSome := by
  have hbase := h.prov.record (bindAt_length hi) event
  have henter := enterGeneration_frame s event
  -- Most outcomes change statuses and dispositions only.
  have hsame : ∀ {t : AdjRibIn}, view t.entries = view s.entries →
      t.originIndex = s.originIndex → t.versionBindings = s.versionBindings →
      Prov (s.events ++ [event]) (fun e d => (e, d) ∈ t.originIndex) (view t.entries)
          t.versionBindings ∧
        ∀ x ∈ t.originIndex, x ∈ s.originIndex ∨ (t.versionBindings.get x.1).isSome := by
    intro t hview horigin hbindings
    rw [hview, horigin, hbindings]
    exact ⟨hbase, fun x hx => .inl hx⟩
  cases ho with
  | tainted ht => exact hsame rfl rfl rfl
  | conflict ht hc =>
    have hquarantine : view (s.quarantineSession event.scope.sessionKey).entries =
        view s.entries := by
      unfold quarantineSession
      rw [view_updateEntries]
      exact fun e => strip_setDisposition (fun _ => true) .conflicting e
    have hw := prov_actions (f := applyConflict event s.events.length origin) hi h
      (updateActions event.kind) rfl
      (fun x s' hs' ha hf => prov_applyConflict x hs' (countedWith_length hi h) ha hf)
      (fun x s' => extends_applyConflict x)
      (show view ({ s.quarantineSession event.scope.sessionKey with
        taintedSessions := insert event.scope.sessionKey s.taintedSessions } :
          AdjRibIn).entries = view s.entries from hquarantine) rfl
    refine prov_finishOrigin hi h ?_ hw
    rw [foldl_applyConflict_frame]
    rfl
  | reset ht hk hg hlt =>
    refine hsame ?_ rfl rfl
    change view (updateEntries _ _ _).entries = view s.entries
    rw [view_updateEntries]
    exact fun e => strip_setDisposition (· = .current) .superseded e
  | historical ht hk hg hlt => exact hsame rfl rfl rfl
  | undirected ht hk hg hd hgap =>
    rw [henter]
    exact hsame rfl rfl rfl
  | mismatch ht hk hg hd hp =>
    rw [henter]
    refine hsame ?_ rfl rfl
    change view (updateEntries _ _ _).entries = view s.entries
    rw [view_updateEntries]
    exact fun e => rfl
  | route ht hk hg hd hp hc =>
    rw [henter]
    unfold routeStep
    cases hkind : event.kind with
    | update actions =>
      have hw := prov_actions (f := applyAction event (s.gapBefore event) s.events.length origin)
        hi h actions (by rw [hkind]; rfl)
        (fun x s' hs' ha hf => prov_applyAction (s.gapBefore event) x hs'
          (countedWith_length hi h) ha hf) (fun x s' => extends_applyAction x)
        (show view ({ s with generations := (s.enterGeneration event).generations } :
          AdjRibIn).entries = view s.entries from rfl) rfl
      refine prov_finishOrigin hi h ?_ hw
      rw [foldl_applyAction_frame]
    | endOfRib family =>
      refine hsame ?_ rfl rfl
      dsimp only
      rw [view_updateEntries]
      · rfl
      · intro e
        split <;> rfl
    | stale family kind =>
      refine hsame ?_ rfl rfl
      dsimp only
      rw [view_updateEntries]
      intro e
      split_ifs <;> rfl
    | gap reason =>
      refine hsame ?_ rfl rfl
      dsimp only
      rw [view_updateEntries]
      · rfl
      · exact fun e => rfl
    | reset g r => exact absurd hkind (hk g r)

omit hi

def addOccurrence (o : NativeVersionOccurrence) (v : RouteVersion) : RouteVersion :=
  { v with occurrences := v.occurrences ++ [o] }

def replayBinding (j : ℕ) (digest : Digest) (entries : FinMap RouteKey RouteEntry)
    (b : VersionBinding) : FinMap RouteKey RouteEntry :=
  match entries.get b.key with
  | none => entries
  | some e => entries.insert b.key { e with
      versions := e.versions.modify b.versionIndex (addOccurrence ⟨j, digest, b.routeIndex⟩) }

theorem replayStage_eq (j : ℕ) (digest : Digest) (bindings : List VersionBinding) :
    s.replayStage j digest bindings = bindings.foldl (replayBinding j digest)
      (s.entries.restrict (bindings.map (·.key)).toFinset) := rfl

theorem view_replayBinding (j : ℕ) (digest : Digest) (entries : FinMap RouteKey RouteEntry)
    (b : VersionBinding) (k : RouteKey) (n : ℕ) :
    (view (replayBinding j digest entries b) k)[n]? = ((view entries k)[n]?).map fun v =>
      if boundTo k n b then addOccurrence ⟨j, digest, b.routeIndex⟩ v else v := by
  unfold replayBinding
  cases hget : entries.get b.key with
  | none =>
    by_cases hk : b.key = k
    · subst hk
      simp [view, hget]
    · simp [boundTo, hk]
  | some e =>
    simp only [view_insert]
    by_cases hk : k = b.key
    · subst hk
      have hview : view entries b.key = e.versions.map stripVersion := by simp [view, hget]
      simp only [if_true, hview, List.getElem?_map, List.getElem?_modify, boundTo, decide_true,
        Bool.true_and, decide_eq_true_eq]
      cases e.versions[n]? with
      | none => rfl
      | some v =>
        simp only [Option.map_some]
        split_ifs <;> rfl
    · have hne : ¬b.key = k := fun he => hk he.symm
      simp [hk, boundTo, hne]

def replayed (j : ℕ) (digest : Digest) (bindings : List VersionBinding) (k : RouteKey) (n : ℕ) :
    List NativeVersionOccurrence :=
  (bindings.filter (boundTo k n)).map fun b => ⟨j, digest, b.routeIndex⟩

theorem view_foldl_replay (j : ℕ) (digest : Digest) (bindings : List VersionBinding)
    (entries : FinMap RouteKey RouteEntry) (k : RouteKey) (n : ℕ) :
    (view (bindings.foldl (replayBinding j digest) entries) k)[n]? =
      ((view entries k)[n]?).map fun v =>
        { v with occurrences := v.occurrences ++ replayed j digest bindings k n } := by
  induction bindings generalizing entries with
  | nil => simp [replayed]
  | cons b rest ih =>
    rw [List.foldl_cons, ih, view_replayBinding, Option.map_map]
    refine congrArg (fun f => Option.map f _) (funext fun v => ?_)
    simp only [Function.comp_apply, replayed, List.filter_cons]
    split_ifs with hb
    · simp [addOccurrence]
    · rfl

theorem view_replay (j : ℕ) (digest : Digest) (bindings : List VersionBinding) (k : RouteKey)
    (n : ℕ) :
    (view ((s.replayStage j digest bindings).overlay s.entries) k)[n]? =
      ((view s.entries k)[n]?).map fun v =>
        { v with occurrences := v.occurrences ++ replayed j digest bindings k n } := by
  have hplain := replayStage_plain (s := s) j digest bindings k
  have hfold := view_foldl_replay j digest bindings
    (s.entries.restrict (bindings.map (·.key)).toFinset) k n
  rw [← replayStage_eq] at hfold
  by_cases hk : k ∈ (bindings.map (·.key)).toFinset
  · have hstart : view (s.entries.restrict (bindings.map (·.key)).toFinset) k = view s.entries k := by
      rw [view, view, get_restrict, if_pos hk]
    have hover : view ((s.replayStage j digest bindings).overlay s.entries) k =
        view (s.replayStage j digest bindings) k := by
      rw [get_restrict, if_pos hk] at hplain
      rw [view, view, get_overlay]
      cases hstage : (s.replayStage j digest bindings).get k with
      | some e => rfl
      | none =>
        rw [hstage] at hplain
        cases hold : s.entries.get k with
        | none => rfl
        | some e => simp [hold] at hplain
    rw [hover, hfold, hstart]
  · have hover : view ((s.replayStage j digest bindings).overlay s.entries) k = view s.entries k := by
      rw [get_restrict, if_neg hk] at hplain
      have hnone : (s.replayStage j digest bindings).get k = none := by simpa using hplain
      rw [view, view, get_overlay, hnone, Option.none_or]
    have hnil : replayed j digest bindings k n = [] := by
      rw [replayed, List.map_eq_nil_iff, List.filter_eq_nil_iff]
      intro b hb hbound
      simp only [boundTo, Bool.and_eq_true, decide_eq_true_eq] at hbound
      exact hk (List.mem_toFinset.2 (List.mem_map.2 ⟨b, hb, hbound.1⟩))
    rw [hover, hnil]
    simp

theorem prov_replay {j : ℕ} {digest : Digest} {bindings : List VersionBinding} (h : ProvInv s)
    (hp : OriginPlan s j digest bindings admission plan) : ProvInv (s.commit plan) := by
  have hbind : bindAt s.versionBindings j = bindings := by rw [bindAt, hp.bound]; rfl
  have hprov := h.prov
  rw [commit_originReplay hp]
  -- A version of the new state is one of the old state with the occurrences of the replay.
  have hback : ∀ (k : RouteKey) (n : ℕ) (v : RouteVersion), (view ((s.replayStage j digest bindings).overlay s.entries) k)[n]? =
      some v → ∃ w : RouteVersion, (view s.entries k)[n]? = some w ∧
        v = { w with occurrences := w.occurrences ++ replayed j digest bindings k n } := by
    intro k n v hv
    rw [view_replay, Option.map_eq_some_iff] at hv
    obtain ⟨w, hw, rfl⟩ := hv
    exact ⟨w, hw, rfl⟩
  have hmem : ∀ (k : RouteKey) (n : ℕ) (o : NativeVersionOccurrence), o ∈ replayed j digest bindings k n ↔ (o.eventIndex = j ∧
      o.observationSha256 = digest) ∧ ∃ b ∈ bindAt s.versionBindings o.eventIndex,
        boundTo k n b = true ∧ b.routeIndex = o.routeIndex := by
    rintro k n ⟨e, d, r⟩
    simp only [replayed, List.mem_map, List.mem_filter, NativeVersionOccurrence.mk.injEq]
    constructor
    · rintro ⟨b, ⟨hb, hbound⟩, rfl, rfl, rfl⟩
      exact ⟨⟨rfl, rfl⟩, b, hbind.symm ▸ hb, hbound, rfl⟩
    · rintro ⟨⟨rfl, rfl⟩, b, hb, hbound, rfl⟩
      exact ⟨b, ⟨hbind ▸ hb, hbound⟩, rfl, rfl, rfl⟩
  exact {
    prov := {
      bound := by
        intro e b hb
        obtain ⟨ev, v, route, pathId, hev, hv, hk, ha⟩ := (hprov.bound e b hb).announced
        have hv' := view_replay (s := s) j digest bindings b.key b.versionIndex
        rw [hv, Option.map_some] at hv'
        exact ⟨ev, _, route, pathId, hev, hv', hk, ha⟩
      positions := hprov.positions
      witnesses := by
        intro k n v hv
        obtain ⟨w, hw, rfl⟩ := hback k n v hv
        exact hprov.witnesses k n w hw
      distinct := by
        intro k n v hv
        obtain ⟨w, hw, rfl⟩ := hback k n v hv
        refine List.Nodup.append (hprov.distinct k n w hw) ?_ ?_
        · have hpos := hprov.positions j
          rw [hbind] at hpos
          refine List.Nodup.map_on ?_ ((List.Nodup.of_map _ hpos).filter _)
          intro a ha b hb hab
          simp only [NativeVersionOccurrence.mk.injEq, true_and] at hab
          exact List.inj_on_of_nodup_map hpos (List.mem_of_mem_filter ha)
            (List.mem_of_mem_filter hb) hab
        · intro o ho ho'
          have hcounted := ((hprov.occurrences k n w hw o).1 ho).1
          obtain ⟨⟨he, hd⟩, -⟩ := (hmem k n o).1 ho'
          rw [he, hd] at hcounted
          exact hp.unseen hcounted
      occurrences := by
        intro k n v hv o
        obtain ⟨w, hw, rfl⟩ := hback k n v hv
        rw [List.mem_append, hprov.occurrences k n w hw o, hmem, ← or_and_right]
        simp only [Finset.mem_union, Finset.mem_singleton, Prod.mk.injEq] }
    origins := by
      intro x hx
      rcases Finset.mem_union.1 hx with hx | hx
      · exact h.origins x hx
      · rw [Finset.mem_singleton.1 hx, hp.bound]
        rfl
    events := h.events }

theorem prov_initial (owner : ℕ) (limits : Limits) : ProvInv (initial owner limits) where
  prov := {
    bound := by simp [initial, bindAt]
    positions := by simp [initial, bindAt]
    witnesses := by simp [initial, view]
    distinct := by simp [initial, view]
    occurrences := by simp [initial, view] }
  origins := by simp [initial]
  events := by simp [initial]

theorem prov_prepared (hi : Indexed s) (h : ProvInv s)
    (hplan : s.prepareInner check event origin = .ok plan) : ProvInv (s.commit plan) := by
  cases prepares hi hplan with
  | inert _ =>
    rw [commit_inertReplay]
    exact h
  | replay _ _ horigin => exact prov_replay h horigin
  | @fresh _ _ _ whole hnew _ hfresh hdirect hc =>
    obtain ⟨hprov, horigins⟩ := prov_outcome hi h (outcome_of_direct hdirect)
    have hevents : whole.events = s.events := by rw [hc.frame]
    rw [commit_fresh hfresh hc]
    exact {
      prov := by
        change Prov (whole.events ++ [event]) (fun e d => (e, d) ∈ whole.originIndex)
          (view whole.entries) whole.versionBindings
        rw [hevents]
        exact hprov
      origins := by
        intro x hx
        rcases horigins x hx with hold | hsome
        · exact hc.bindings.kept _ (h.origins x hold)
        · exact hsome
      events := by
        change (whole.events ++ [event]).Nodup
        rw [hevents]
        exact List.nodup_append.2 ⟨h.events, List.nodup_singleton _, by
          intro a ha b hb he
          rw [List.mem_singleton.1 hb] at he
          exact hnew (he ▸ ha)⟩ }

theorem prov_reachable (h : Reachable check s) : ProvInv s :=
  reachable_induction h prov_initial fun ht hprov hplan =>
    prov_prepared (indexed_reachable ht) hprov hplan

structure ProvenanceExact (s : AdjRibIn) : Prop where
  bindings : ∀ e l b, s.versionBindings.get e = some l → b ∈ l →
    ∃ entry v event route pathId, s.entries.get b.key = some entry ∧
      entry.versions[b.versionIndex]? = some v ∧ s.events[e]? = some event ∧
      b.key = routeKey event.scope route pathId ∧
      (updateActions event.kind)[b.routeIndex]? =
        some (.announce route pathId v.attributes v.attributeIdentity)
  witnesses : ∀ k entry (n : ℕ) (v : RouteVersion), s.entries.get k = some entry → entry.versions[n]? = some v →
    v.witnesses = recordsOf s.events s.versionBindings k n
  distinct : ∀ k entry (n : ℕ) (v : RouteVersion), s.entries.get k = some entry → entry.versions[n]? = some v →
    v.occurrences.Nodup
  occurrences : ∀ k entry (n : ℕ) (v : RouteVersion), s.entries.get k = some entry → entry.versions[n]? = some v →
    ∀ o, o ∈ v.occurrences ↔ (o.eventIndex, o.observationSha256) ∈ s.originIndex ∧
      ∃ l b, s.versionBindings.get o.eventIndex = some l ∧ b ∈ l ∧ b.key = k ∧
        b.versionIndex = n ∧ b.routeIndex = o.routeIndex

theorem mem_bindAt {bindings : FinMap ℕ (List VersionBinding)} {e : ℕ} {b : VersionBinding} :
    b ∈ bindAt bindings e ↔ ∃ l, bindings.get e = some l ∧ b ∈ l := by
  unfold bindAt
  cases bindings.get e <;> simp

theorem provenanceExact_of_inv (h : ProvInv s) : ProvenanceExact s := by
  have hview : ∀ k entry (n : ℕ) (v : RouteVersion), s.entries.get k = some entry → entry.versions[n]? = some v →
      (view s.entries k)[n]? = some (stripVersion v) := by
    intro k entry n v hentry hv
    simp [view, hentry, hv]
  exact {
    bindings := by
      intro e l b hl hb
      obtain ⟨event, v, route, pathId, hevent, hv, hkey, haction⟩ :=
        (h.prov.bound e b (mem_bindAt.2 ⟨l, hl, hb⟩)).announced
      cases hentry : s.entries.get b.key with
      | none => simp [view, hentry] at hv
      | some entry =>
        simp only [view, hentry, Option.map_some, Option.getD_some, List.getElem?_map,
          Option.map_eq_some_iff] at hv
        obtain ⟨w, hw, rfl⟩ := hv
        exact ⟨entry, w, event, route, pathId, rfl, hw, hevent, hkey, haction⟩
    witnesses := fun k entry n v hentry hv =>
      h.prov.witnesses k n (stripVersion v) (hview k entry n v hentry hv)
    distinct := fun k entry n v hentry hv =>
      h.prov.distinct k n (stripVersion v) (hview k entry n v hentry hv)
    occurrences := by
      intro k entry n v hentry hv o
      refine (h.prov.occurrences k n _ (hview k entry n v hentry hv) o).trans ?_
      simp only [mem_bindAt, boundTo, Bool.and_eq_true, decide_eq_true_eq]
      constructor
      · rintro ⟨ho, b, ⟨l, hl, hb⟩, ⟨hk, hn⟩, hr⟩
        exact ⟨ho, l, b, hl, hb, hk, hn, hr⟩
      · rintro ⟨ho, l, b, hl, hb, hk, hn, hr⟩
        exact ⟨ho, b, ⟨l, hl, hb⟩, ⟨hk, hn⟩, hr⟩ }

/-- In every reachable state the provenance of versions is exact, and an event that is recorded with
its origin changes nothing. -/
theorem provenance_exact (hr : Reachable check s) :
    ProvenanceExact s ∧ ∀ event origin status t, event ∈ s.events →
      (origin = none ∨ ∃ digest j, origin = some digest ∧ s.events[j]? = some event ∧
        (j, digest) ∈ s.originIndex) →
      s.apply check event origin = .ok (status, t) → status = .identicalReplay ∧ t = s := by
  have hi := indexed_reachable hr
  have hprov := prov_reachable hr
  refine ⟨provenanceExact_of_inv hprov, fun event origin status t hold horigin happly => ?_⟩
  obtain ⟨plan, hplan, hcommit⟩ := bind_eq_ok.1 happly
  cases hcommit
  cases prepares hi hplan with
  | inert _ => exact ⟨rfl, commit_inertReplay s⟩
  | @replay j _ _ _ _ hj _ hp =>
    rcases horigin with hnone | ⟨d, j', hsome, hj', hin⟩
    · cases hnone
    · cases hsome
      -- The event was recorded once, so this is its position.
      have hsame : j = j' := by
        obtain ⟨hlt, hget⟩ := List.getElem?_eq_some_iff.1 hj
        obtain ⟨hlt', hget'⟩ := List.getElem?_eq_some_iff.1 hj'
        exact (List.Nodup.getElem_inj_iff hprov.events).1 (hget.trans hget'.symm)
      exact absurd (hsame ▸ hin) hp.unseen
  | fresh hnew => exact absurd hold hnew

theorem provenance_exact_sampleAnnounce :
    ∃ plans s, (initial 0 .default).commitAll anyEvent
        [(sampleAnnounce "record" "a", some sampleDigest)] = .ok (plans, s) ∧
      ProvenanceExact s := by
  have hok : ((initial 0 .default).commitAll anyEvent
      [(sampleAnnounce "record" "a", some sampleDigest)]).isOk = true := by decide +kernel
  cases hs : (initial 0 .default).commitAll anyEvent
      [(sampleAnnounce "record" "a", some sampleDigest)] with
  | error e =>
    rw [hs] at hok
    cases hok
  | ok r => exact ⟨r.1, r.2, rfl, (provenance_exact (reachable_commitAll (by decide) hs)).1⟩

end PcapEvidence.Bgp.AdjRibIn
