import PcapEvidence.BgpObservation

/-!
# An observation is read from the canonical form

Two envelopes with one canonical form that are both accepted give one observation, up to the count of
its nodes. The readers give the same on a value and on its canonical form; the validators are not
asked to.
-/

namespace PcapEvidence.Bgp.State

open Json History Candidate Import

theorem reads_eq {α : Type} {f : Json → Result α} (hf : ∀ v, f v.canonical = f v) {v w : Json} {x y : α}
    (h : v.canonical = w.canonical) (hx : f v = .ok x) (hy : f w = .ok y) : x = y := by
  rw [← hf, h, hf, hy] at hx
  exact (Except.ok.inj hx).symm

section Routes

variable {k : Checks} {context : Option ImportContext}

theorem bind_member_canonical {α : Type} {f : Json → Result α} (hf : ∀ v, f v.canonical = f v)
    (v : Json) (name : String) : (member v.canonical name >>= f) = (member v name >>= f) := by
  rw [member_canonical, map_bind]
  exact congrArg _ (funext hf)

@[simp] theorem readAction_canonical (v : Json) : readAction v.canonical = readAction v := by
  simp only [readAction, member_canonical, map_bind, text_canonical]

@[simp] theorem readPathId_canonical (v : Json) : readPathId v.canonical = readPathId v := by
  simp only [readPathId, optionalMember_canonical, map_bind]
  refine congrArg _ (funext fun value => ?_)
  cases value with
  | none => rfl
  | some value => simp only [Option.map_some, number_canonical]

@[simp] theorem readPrefix_canonical (v : Json) : readPrefix v.canonical = readPrefix v := by
  simp only [readPrefix, member_canonical, map_bind, number_canonical, byte_canonical, text_canonical]

@[simp] theorem position_canonical (v : Json) : position v.canonical = position v :=
  number_canonical v

theorem canonical_mem_unresolved {v : Json} : v.canonical ∈ unresolvedNames ↔ v ∈ unresolvedNames := by
  cases v <;> simp [unresolvedNames, canonical, objectOf]

theorem checkValueRange_canonical (v : Json) (start stop : ℕ) :
    checkValueRange v.canonical start stop = checkValueRange v start stop := by
  simp only [checkValueRange, optionalMember_canonical, map_bind]
  refine congrArg _ (funext fun a => congrArg _ (funext fun b => ?_))
  cases a <;> cases b <;>
    simp only [Option.map_some, Option.map_none, member_canonical, map_bind, number_canonical,
      position_canonical]

theorem rangeIdentity_sorted (l : List (String × Json)) :
    rangeIdentity (sortByKey (l.map fun p => (p.1, p.2.canonical))) = rangeIdentity l := by
  simp only [rangeIdentity, canonical_objectOf]
  rw [sortByKey_filter fun name => decide (name ∉ offsetNames), sortByKey_map_canonical,
    sortByKey_sortByKey, List.filter_map, List.map_map]
  simp only [Function.comp_def, canonical_canonical]

theorem unresolved_sorted (l : List (String × Json)) :
    (sortByKey (l.map fun p => (p.1, p.2.canonical))).any
        (fun p => p.1 = "interpretation" && p.2 ∈ unresolvedNames) =
      l.any fun p => p.1 = "interpretation" && p.2 ∈ unresolvedNames := by
  rw [sortByKey, (List.perm_insertionSort keyLe _).any_eq, List.any_map]
  simp only [Function.comp_def, canonical_mem_unresolved]

theorem scanRange_canonical (extent : ℕ) (s : RangeScan) (range : Json) :
    scanRange extent s range.canonical = scanRange extent s range := by
  have hdisposition : (member range.canonical "disposition" >>= text) =
      (member range "disposition" >>= text) := bind_member_canonical text_canonical range _
  simp only [scanRange, member_canonical, map_bind, byte_canonical, position_canonical,
    text_canonical, checkValueRange_canonical, object_canonical, rangeIdentity_sorted,
    unresolved_sorted]

theorem foldlM_scanRange_canonical (extent : ℕ) (s : RangeScan) (ranges : List Json) :
    (ranges.map canonical).foldlM (scanRange extent) s = ranges.foldlM (scanRange extent) s := by
  rw [List.foldlM_map]
  simp only [scanRange_canonical]

def attributesOf (raw : Json) : Result Json := (member raw "attributes").map canonical

theorem attributesOf_canonical (v : Json) : attributesOf v.canonical = attributesOf v := by
  rw [attributesOf, attributesOf, member_canonical]
  cases member v "attributes" with
  | error e => rfl
  | ok a => exact congrArg Except.ok (canonical_canonical a)

def semanticOf (raw : Json) : Result Json := do
  match ← optionalMember raw "semantic_identity" with
  | none => return .null
  | some identity => return identity.canonical

theorem semanticOf_canonical (v : Json) : semanticOf v.canonical = semanticOf v := by
  simp only [semanticOf, optionalMember_canonical, map_bind]
  refine congrArg _ (funext fun identity => ?_)
  cases identity with
  | none => rfl
  | some identity => simp only [Option.map_some, canonical_canonical]

def rangesOf (extent : ℕ) (raw : Json) : Result (List Json × ℕ) := do
  match ← optionalMember raw "imported_attribute_occurrences" with
  | none => return ([], extent)
  | some inventory =>
    let length ← position (← member inventory "message_length")
    let occurrences ← array (← member inventory "occurrences")
    return (occurrences.map canonical, length)

theorem rangesOf_canonical (extent : ℕ) (v : Json) :
    rangesOf extent v.canonical = rangesOf extent v := by
  simp only [rangesOf, optionalMember_canonical, map_bind]
  refine congrArg _ (funext fun inventory => ?_)
  cases inventory with
  | none => rfl
  | some inventory =>
    simp only [Option.map_some, member_canonical, map_bind, position_canonical, array_canonical,
      List.map_map, Function.comp_def, canonical_canonical]

theorem readInventory_reads {raw inventory : Json}
    {l : Limits} {r : List Json × ℕ} (h : readInventory k raw inventory context l = .ok r) :
    (member inventory "message_length" >>= position) = .ok r.2 ∧
      (member inventory "occurrences" >>= array) = .ok r.1 := by
  unfold readInventory at h
  cases context with
  | none => cases h
  | some context =>
    obtain ⟨legacy, _, h⟩ := bind_eq_ok.1 h
    obtain ⟨_, _, h⟩ := bind_eq_ok.1 h
    obtain ⟨field, hfield, h⟩ := bind_eq_ok.1 h
    obtain ⟨length, hlength, h⟩ := bind_eq_ok.1 h
    obtain ⟨_, _, h⟩ := bind_eq_ok.1 h
    obtain ⟨_, _, h⟩ := bind_eq_ok.1 h
    obtain ⟨_, _, h⟩ := bind_eq_ok.1 h
    obtain ⟨_, h⟩ := guard_eq_ok.1 h
    obtain ⟨items, hitems, h⟩ := bind_eq_ok.1 h
    obtain ⟨occurrences, hoccurrences, h⟩ := bind_eq_ok.1 h
    obtain ⟨_, _, h⟩ := bind_eq_ok.1 h
    obtain ⟨_, _, h⟩ := bind_eq_ok.1 h
    cases h
    refine ⟨?_, ?_⟩
    · rw [hfield]
      exact hlength
    · rw [hitems]
      exact hoccurrences

theorem readRanges_reads {raw : Json} {extent : ℕ}
    {l : Limits} {r : List Json × ℕ} (h : readRanges k raw .imported extent context l = .ok r) :
    rangesOf extent raw = .ok (r.1.map canonical, r.2) := by
  unfold readRanges at h
  obtain ⟨items, _, h⟩ := bind_eq_ok.1 h
  obtain ⟨ranges, _, h⟩ := bind_eq_ok.1 h
  obtain ⟨hempty, h⟩ := guard_eq_ok.1 h
  obtain rfl : ranges = [] := by
    by_contra hne
    exact hempty ⟨rfl, hne⟩
  obtain ⟨_, _, h⟩ := bind_eq_ok.1 h
  obtain ⟨inventory, hinventory, h⟩ := bind_eq_ok.1 h
  unfold rangesOf
  rw [hinventory]
  cases inventory with
  | none =>
    obtain ⟨_, _, h⟩ := bind_eq_ok.1 h
    obtain ⟨_, h⟩ := guard_eq_ok.1 h
    cases h
    rfl
  | some inventory =>
    obtain ⟨_, h⟩ := guard_eq_ok.1 h
    obtain ⟨hlength, hoccurrences⟩ := readInventory_reads h
    obtain ⟨field, hfield, hlength⟩ := bind_eq_ok.1 hlength
    obtain ⟨items, hitems, hoccurrences⟩ := bind_eq_ok.1 hoccurrences
    simp only [bind, Except.bind, hfield, hlength, hitems, hoccurrences, pure, Except.pure]

theorem readSemanticIdentity_reads {raw attributes : Json} {route : PrefixIdentity}
    {ranges : List Json} {kind : SourceKind} {l : Limits} {s : Json}
    (h : readSemanticIdentity k raw route attributes ranges kind l = .ok s) :
    semanticOf raw = .ok s := by
  obtain ⟨identity, hidentity, h⟩ := bind_eq_ok.1 h
  unfold semanticOf
  rw [hidentity]
  cases identity with
  | none => exact h
  | some identity =>
    obtain ⟨_, _, h⟩ := bind_eq_ok.1 h
    exact h

structure RouteReads (net : Net) (raw : Json) (extent : ℕ) (r : RouteObservation) : Prop where
  action : readAction raw = .ok r.action
  pathId : readPathId raw = .ok r.pathId
  route : ((member raw "prefix" >>= readPrefix) >>= canonicalPrefix net) = .ok r.route
  fieldStart : (member raw "field_start" >>= position) = .ok r.fieldStart
  fieldEnd : (member raw "field_end" >>= position) = .ok r.fieldEnd
  attributes : attributesOf raw = .ok r.attributes
  semantic : semanticOf raw = .ok r.semanticIdentity
  scan : (do
    let (ranges, extent) ← rangesOf extent raw
    let incomplete ← identityIncomplete r.semanticIdentity
    let scan ← ranges.foldlM (scanRange extent) ⟨[], r.action = RouteAction.announce && incomplete, []⟩
    return (arrayOf scan.identities, scan.ambiguous)) =
      .ok (r.attributeIdentity, r.ambiguousAttributes)

theorem parseRoute_reads {raw : Json} {extent : ℕ}
    {l : Limits} {r : RouteObservation} (h : parseRoute k raw .imported extent context l = .ok r) :
    RouteReads k.net raw extent r := by
  unfold parseRoute at h
  obtain ⟨action, haction, h⟩ := bind_eq_ok.1 h
  obtain ⟨p, hp, h⟩ := bind_eq_ok.1 h
  obtain ⟨pathId, hpath, h⟩ := bind_eq_ok.1 h
  obtain ⟨parsed, hparsed, h⟩ := bind_eq_ok.1 h
  obtain ⟨route, hroute, h⟩ := bind_eq_ok.1 h
  obtain ⟨first, hfirst, h⟩ := bind_eq_ok.1 h
  obtain ⟨start, hstart, h⟩ := bind_eq_ok.1 h
  obtain ⟨last, hlast, h⟩ := bind_eq_ok.1 h
  obtain ⟨stop, hstop, h⟩ := bind_eq_ok.1 h
  obtain ⟨_, h⟩ := guard_eq_ok.1 h
  obtain ⟨attributes, hattributes, h⟩ := bind_eq_ok.1 h
  obtain ⟨_, _, h⟩ := bind_eq_ok.1 h
  obtain ⟨⟨ranges, bound⟩, hranges, h⟩ := bind_eq_ok.1 h
  obtain ⟨semantic, hsemantic, h⟩ := bind_eq_ok.1 h
  obtain ⟨incomplete, hincomplete, h⟩ := bind_eq_ok.1 h
  obtain ⟨scan, hscan, h⟩ := bind_eq_ok.1 h
  cases h
  refine ⟨haction, hpath, ?_, ?_, ?_, ?_, readSemanticIdentity_reads hsemantic, ?_⟩
  · simp only [bind, Except.bind, hp, hparsed, hroute]
  · simp only [bind, Except.bind, hfirst, hstart]
  · simp only [bind, Except.bind, hlast, hstop]
  · rw [attributesOf, hattributes]
    rfl
  · rw [readRanges_reads hranges]
    simp only [bind, Except.bind, hincomplete, foldlM_scanRange_canonical, hscan, pure, Except.pure]

theorem RouteReads.inj {net : Net} {v w : Json} {extent : ℕ} {r r' : RouteObservation}
    (hv : RouteReads net v extent r) (hw : RouteReads net w extent r')
    (h : v.canonical = w.canonical) : r = r' := by
  have hroute : ∀ u : Json, ((member u.canonical "prefix" >>= readPrefix) >>= canonicalPrefix net) =
      ((member u "prefix" >>= readPrefix) >>= canonicalPrefix net) :=
    fun u => congrArg (· >>= canonicalPrefix net) (bind_member_canonical readPrefix_canonical u _)
  have haction := reads_eq readAction_canonical h hv.action hw.action
  have hsemantic := reads_eq semanticOf_canonical h hv.semantic hw.semantic
  have hscan := hv.scan
  rw [← rangesOf_canonical, h, rangesOf_canonical, haction, hsemantic, hw.scan] at hscan
  obtain ⟨hidentity, hambiguous⟩ := Prod.mk.inj (Except.ok.inj hscan)
  have hpath := reads_eq readPathId_canonical h hv.pathId hw.pathId
  have hroute := reads_eq (f := fun u => (member u "prefix" >>= readPrefix) >>= canonicalPrefix net)
    hroute h hv.route hw.route
  have hstart := reads_eq (f := fun u => member u "field_start" >>= position)
    (fun u => bind_member_canonical position_canonical u _) h hv.fieldStart hw.fieldStart
  have hstop := reads_eq (f := fun u => member u "field_end" >>= position)
    (fun u => bind_member_canonical position_canonical u _) h hv.fieldEnd hw.fieldEnd
  have hattributes := reads_eq attributesOf_canonical h hv.attributes hw.attributes
  rcases r with ⟨⟨route, pathId, action, attributes, identity, ambiguous⟩, semantic, start, stop⟩
  rcases r' with
    ⟨⟨route', pathId', action', attributes', identity', ambiguous'⟩, semantic', start', stop'⟩
  cases haction
  cases hsemantic
  cases hidentity
  cases hambiguous
  cases hpath
  cases hroute
  cases hstart
  cases hstop
  cases hattributes
  rfl

theorem parseRoutes_inj {extent : ℕ} {l l' : Limits}
    {raw raw' : List Json} {routes routes' : List RouteObservation}
    (hv : raw.mapM (fun r => parseRoute k r .imported extent context l) = .ok routes)
    (hw : raw'.mapM (fun r => parseRoute k r .imported extent context l') = .ok routes')
    (h : raw.map canonical = raw'.map canonical) : routes = routes' := by
  induction raw generalizing raw' routes routes' with
  | nil =>
    obtain rfl : raw' = [] := List.map_eq_nil_iff.1 h.symm
    cases hv
    cases hw
    rfl
  | cons v raw ih =>
    cases raw' with
    | nil => cases h
    | cons w raw' =>
      obtain ⟨hhead, htail⟩ := List.cons.inj h
      rw [List.mapM_cons] at hv hw
      obtain ⟨r, hr, hv⟩ := bind_eq_ok.1 hv
      obtain ⟨rest, hrest, hv⟩ := bind_eq_ok.1 hv
      obtain ⟨r', hr', hw⟩ := bind_eq_ok.1 hw
      obtain ⟨rest', hrest', hw⟩ := bind_eq_ok.1 hw
      cases hv
      cases hw
      exact congrArg₂ List.cons ((parseRoute_reads hr).inj (parseRoute_reads hr') hhead)
        (ih hrest hrest' htail)

end Routes

section Envelopes

variable {l : Limits} {c : ImportContext} {o : Observation} {w : Json}

theorem readSource_canonical (kind : SourceKind) (v : Json) :
    readSource v.canonical kind = readSource v kind := by
  simp only [readSource, member_canonical, map_bind, identityText_canonical,
    optionalIdentity_canonical, optionalU64_canonical, optionalDirection_canonical,
    optionalTime_canonical, optionalText_canonical]

theorem readMessage_canonical (kind : SourceKind) (v : Json) :
    readMessage v.canonical kind = readMessage v kind := by
  simp only [readMessage, member_canonical, map_bind, number_canonical]

theorem optionalMember_inj {v x y : Json} {name : String}
    (hv : optionalMember v name = .ok (some x)) (hw : optionalMember w name = .ok (some y))
    (h : v.canonical = w.canonical) : x.canonical = y.canonical := by
  have hread := optionalMember_canonical v name
  rw [h, optionalMember_canonical, hv, hw] at hread
  exact (Option.some.inj (Except.ok.inj hread)).symm

theorem readContext_reads {v : Json}
    (h : readContext v l = .ok (some c)) : ∃ context, optionalMember v "import_context" =
      .ok (some context) ∧ ImportContext.fromJson context l = .ok c := by
  obtain ⟨m, hm, h⟩ := bind_eq_ok.1 h
  split at h
  · cases h
  · cases h
  · rename_i context _
    obtain ⟨c', hc, h⟩ := bind_eq_ok.1 h
    cases h
    exact ⟨context, hm, hc⟩

theorem readContext_inj {v : Json} {l' : Limits} {c' : ImportContext}
    (hv : readContext v l = .ok (some c)) (hw : readContext w l' = .ok (some c'))
    (h : v.canonical = w.canonical) : c = c' := by
  obtain ⟨x, hx, hcx⟩ := readContext_reads hv
  obtain ⟨y, hy, hcy⟩ := readContext_reads hw
  exact fromJson_canonical_inj hcx hcy (optionalMember_inj hx hy h)

def boundaryOf (value : Json) : Result (Option GenerationBoundary) := do
  match ← optionalMember value "import_boundary" with
  | none => return none
  | some boundary =>
    if boundary = .null then return none else return some (← GenerationBoundary.read boundary)

theorem boundaryOf_canonical (v : Json) : boundaryOf v.canonical = boundaryOf v := by
  simp only [boundaryOf, optionalMember_canonical, map_bind]
  refine congrArg _ (funext fun boundary => ?_)
  cases boundary with
  | none => rfl
  | some boundary => simp only [Option.map_some, canonical_eq_null, readBoundary_canonical]

theorem readBoundary_reads {v : Json}
    {b : Option GenerationBoundary} (h : readBoundary v (some c) l = .ok b) :
    boundaryOf v = .ok b := by
  obtain ⟨m, hm, h⟩ := bind_eq_ok.1 h
  unfold boundaryOf
  rw [hm]
  split at h
  · exact h
  · exact h
  · rename_i boundary hnull
    obtain ⟨b', hb, h⟩ := bind_eq_ok.1 h
    cases h
    simp only [bind, Except.bind, if_neg hnull, boundary_read hb, pure, Except.pure]

def routesOf (value : Json) : Result (List Json) :=
  (member value "routes" >>= array).map (List.map canonical)

theorem routesOf_canonical (v : Json) : routesOf v.canonical = routesOf v := by
  rw [routesOf, routesOf, member_canonical]
  cases member v "routes" with
  | error e => rfl
  | ok routes =>
    change (array routes.canonical).map _ = (array routes).map _
    rw [array_canonical]
    cases array routes with
    | error e => rfl
    | ok l =>
      simp only [Except.map, List.map_map, Function.comp_def, canonical_canonical]

theorem Observation.imported_eq (h : o.importContext = some c) :
    o.imported = some ⟨c, o.importBoundary⟩ := by
  rcases o with ⟨source, kind, routes, normalized, encoded, locator, nodes, spans, imported⟩
  cases imported with
  | none => cases h
  | some imported =>
    cases h
    rfl

structure EnvelopeReads (k : Checks) (v : Json) (l : Limits) (o : Observation) : Prop where
  kind : o.source.kind = .imported
  source : readSource v .imported = .ok o.source
  message : ∃ message, readMessage v .imported = .ok message ∧
    o.kind = if o.importBoundary.isSome then .reset else message
  context : ∃ c, o.importContext = some c ∧ readContext v l = .ok (some c) ∧
    o.spans = c.provenance.length ∧ o.source.generation = some c.generation ∧
    o.source.session = some c.session ∧ o.source.sourceId = c.sourceId ∧
    o.source.direction = c.direction
  boundary : boundaryOf v = .ok o.importBoundary
  routes : ∃ raw : List Json, routesOf v = .ok (raw.map canonical) ∧
    raw.mapM (fun r => parseRoute k r .imported 0 o.importContext l) = .ok o.routes
  normalized : o.normalized = v.canonical
  encoded : o.encoded = (objectOf [("source", sourceJson o.source),
    ("kind", .string (kindName o.kind)), ("normalized", o.normalized)]).encode
  locator : o.capturedLocator = none

theorem scopeImported_reads {v : Json} {source : Source} {message : ObservationKind} {boundary : Option GenerationBoundary} {s : Scoping}
    (h : scopeImported v source message (some c) boundary none l = .ok s) :
    s = ⟨source, if boundary.isSome then .reset else message, 0, c.provenance.length, none⟩ ∧
      source.generation = some c.generation ∧ source.session = some c.session ∧
      source.sourceId = c.sourceId ∧ source.direction = c.direction := by
  obtain ⟨_, _, h⟩ := bind_eq_ok.1 h
  obtain ⟨_, h⟩ := guard_eq_ok.1 h
  obtain ⟨hsame, h⟩ := guard_eq_ok.1 h
  obtain ⟨_, _, h⟩ := bind_eq_ok.1 h
  cases h
  simp only [not_or, ne_eq, not_not] at hsame
  obtain ⟨_, hid, hsession, hgeneration, hdirection, _⟩ := hsame
  exact ⟨rfl, hgeneration, hsession, hid, hdirection⟩

theorem finish_reads {scoping : Scoping} {routes : List RouteObservation} {v : Json} {nodes : ℕ}
    {context : Option ImportContext} {boundary : Option GenerationBoundary} (h : finish scoping routes v nodes context boundary l = .ok o) :
    o = ⟨scoping.source, scoping.kind, routes, v.canonical,
      (objectOf [("source", sourceJson scoping.source), ("kind", .string (kindName scoping.kind)),
        ("normalized", v.canonical)]).encode, scoping.locator, nodes, scoping.spans,
      context.map fun c => ⟨c, boundary⟩⟩ := by
  obtain ⟨encoded, hencoded, h⟩ := bind_eq_ok.1 h
  cases h
  rw [encodeBounded_ok hencoded]

theorem fromNormalized_reads {k : Checks} {v : Json}
    (h : fromNormalized k v none l = .ok o) (hkind : o.source.kind = .imported)
    (hcontext : o.importContext ≠ none) : EnvelopeReads k v l o := by
  unfold fromNormalized at h
  obtain ⟨_, _, h⟩ := bind_eq_ok.1 h
  obtain ⟨nodes, _, h⟩ := bind_eq_ok.1 h
  obtain ⟨_, _, h⟩ := bind_eq_ok.1 h
  obtain ⟨_, _, h⟩ := bind_eq_ok.1 h
  obtain ⟨_, _, h⟩ := bind_eq_ok.1 h
  obtain ⟨_, h⟩ := guard_eq_ok.1 h
  obtain ⟨_, _, h⟩ := bind_eq_ok.1 h
  obtain ⟨kind, hk, h⟩ := bind_eq_ok.1 h
  obtain ⟨source, hsource, h⟩ := bind_eq_ok.1 h
  obtain ⟨message, hmessage, h⟩ := bind_eq_ok.1 h
  obtain ⟨_, _, h⟩ := bind_eq_ok.1 h
  obtain ⟨_, _, h⟩ := bind_eq_ok.1 h
  obtain ⟨_, _, h⟩ := bind_eq_ok.1 h
  obtain ⟨context, hc, h⟩ := bind_eq_ok.1 h
  obtain ⟨boundary, hb, h⟩ := bind_eq_ok.1 h
  obtain ⟨_, _, h⟩ := bind_eq_ok.1 h
  obtain ⟨scoping, hscoping, h⟩ := bind_eq_ok.1 h
  obtain ⟨field, hfield, h⟩ := bind_eq_ok.1 h
  obtain ⟨raw, hraw, h⟩ := bind_eq_ok.1 h
  obtain ⟨_, h⟩ := guard_eq_ok.1 h
  obtain ⟨_, h⟩ := guard_eq_ok.1 h
  obtain ⟨_, _, h⟩ := bind_eq_ok.1 h
  obtain ⟨routes, hroutes, h⟩ := bind_eq_ok.1 h
  have ho := finish_reads h
  have hkind' : scoping.source.kind = .imported := by
    rw [← hkind, ho]
  cases context with
  | none =>
    rw [ho] at hcontext
    exact absurd rfl hcontext
  | some c =>
    cases kind with
    | captured =>
      unfold readScoping scopeCaptured at hscoping
      obtain ⟨hscope, _⟩ := guard_eq_ok.1 hscoping
      exact absurd (Or.inr (Or.inl (Option.some_ne_none c))) hscope
    | imported =>
      obtain ⟨hs, hgeneration, hsession, hid, hdirection⟩ := scopeImported_reads hscoping
      subst hs
      subst ho
      refine ⟨hkind', hsource, ⟨message, hmessage, rfl⟩, ⟨c, rfl, hc, rfl, hgeneration, hsession,
        hid, hdirection⟩, readBoundary_reads hb, ⟨raw, ?_, hroutes⟩, rfl, rfl, rfl⟩
      rw [routesOf, hfield]
      exact congrArg (Except.map _) hraw

theorem EnvelopeReads.inj {k : Checks} {v : Json} {l' : Limits} {o' : Observation}
    (hv : EnvelopeReads k v l o) (hw : EnvelopeReads k w l' o') (h : v.canonical = w.canonical) :
    { o with nodes := 0 } = { o' with nodes := 0 } := by
  obtain ⟨message, hmessage, hkind⟩ := hv.message
  obtain ⟨message', hmessage', hkind'⟩ := hw.message
  obtain ⟨c, hc, hread, hspans, _⟩ := hv.context
  obtain ⟨c', hc', hread', hspans', _⟩ := hw.context
  obtain ⟨raw, hraw, hroutes⟩ := hv.routes
  obtain ⟨raw', hraw', hroutes'⟩ := hw.routes
  have hsource := reads_eq (f := fun u => readSource u .imported) (readSource_canonical .imported) h
    hv.source hw.source
  have hmessages := reads_eq (f := fun u => readMessage u .imported)
    (readMessage_canonical .imported) h hmessage hmessage'
  have hcontexts := readContext_inj hread hread' h
  have hboundary := reads_eq boundaryOf_canonical h hv.boundary hw.boundary
  have hraws := reads_eq routesOf_canonical h hraw hraw'
  have hlocator := hv.locator.trans hw.locator.symm
  have hnormalized := (hv.normalized.trans h).trans hw.normalized.symm
  rw [hmessages, hboundary, ← hkind'] at hkind
  have hencoded : o.encoded = o'.encoded := by
    rw [hv.encoded, hw.encoded, hsource, hkind, hnormalized]
  have hcontext : o.importContext = o'.importContext := by
    rw [hc, hc', hcontexts]
  have hspan : o.spans = o'.spans := by
    rw [hspans, hspans', hcontexts]
  rw [hcontext] at hroutes
  have hroute := parseRoutes_inj hroutes hroutes' hraws
  have himported : o.imported = o'.imported := by
    rw [Observation.imported_eq hc, Observation.imported_eq hc', hcontexts, hboundary]
  rcases o with ⟨source, kind, routes, normalized, encoded, locator, nodes, spans, imported⟩
  rcases o' with ⟨source', kind', routes', normalized', encoded', locator', nodes', spans', imported'⟩
  cases hsource
  cases hkind
  cases hroute
  cases hnormalized
  cases hencoded
  cases hlocator
  cases hspan
  cases himported
  rfl

end Envelopes

end PcapEvidence.Bgp.State
