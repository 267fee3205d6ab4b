import PcapEvidence.Correlate

/-!
# Every message is reported once

While the messages are placed, the references in the rows and in the groups together are those of
the messages seen so far, each group holds messages of its own key only, and a row outside the
groups is about one message.
-/

namespace PcapEvidence.Correlate
open EvidenceBytes Dnp3 Modbus OrderedMap Dnp3Workflow

def Transaction.references (t : Transaction) : List MessageRef := t.requests ++ t.responses

def Group.references (g : Group) : List MessageRef := g.requests ++ g.responses

def sourceCapture (packets : List PacketId) : Option (Vector U8 32) :=
  packets.head?.bind fun first =>
    if packets.all (·.capture = first.capture) then some first.capture else none

def keyOf (application : ApplicationAnalysis) : Observed → Option (Key × Bool)
  | .dnp3 message =>
    if message.cls = .request ∨ message.cls = .response then
      (sourceCapture message.packets).map fun capture =>
        (dnp3Key application message capture, message.cls = .request)
    else none
  | .modbus message =>
    if message.role = .unknown then none
    else (sourceCapture message.raw.packets).map fun capture =>
      (modbusKey application message capture, message.role = .request)

def keyAt (applications : List ApplicationAnalysis) (reference : MessageRef) :
    Option (Key × Bool) :=
  (observedAt applications reference).bind fun seen => keyOf seen.1 seen.2

/-- The rows that say that a request or response was not admitted to pairing. -/
def notAdmitted : List String := ["incomplete", "unclassified", "no_response_expected"]

theorem sourceCapture_of_oneCapture {capture : Vector U8 32} {packets : List PacketId}
    (h : OneCapture capture packets) : sourceCapture packets = some capture := by
  obtain ⟨hne, hall⟩ := h
  cases packets with
  | nil => exact absurd rfl hne
  | cons p rest =>
    have hp : p.capture = capture := hall p (by simp)
    have hrest : ∀ q ∈ rest, q.capture = capture := fun q hq => hall q (by simp [hq])
    simpa [sourceCapture, hp] using hrest

theorem captureScope_oneCapture {raw : EvidenceBytes} {capture : Vector U8 32}
    (h : captureScope raw = some capture) : OneCapture capture raw.packets := by
  unfold captureScope at h
  split at h
  · cases h
  · obtain ⟨first, hfirst, h⟩ := Option.bind_eq_some_iff.1 h
    split at h
    next hall =>
      cases h
      constructor
      · exact List.ne_nil_of_mem ((mem_packets raw _).2 ⟨first, List.mem_of_mem_head? hfirst, rfl⟩)
      · intro p hp
        obtain ⟨s, hs, rfl⟩ := (mem_packets raw p).1 hp
        simpa using List.all_eq_true.1 hall s hs
    next => cases h

/-! ### The references of all messages -/

def applicationRefs (entry : ApplicationAnalysis × ℕ) : List MessageRef :=
  (List.range (observations entry.1.data).length).map fun m => ⟨entry.2, m⟩

def allRefs (applications : List ApplicationAnalysis) : List MessageRef :=
  applications.zipIdx.flatMap applicationRefs

theorem mem_allRefs (applications : List ApplicationAnalysis) (reference : MessageRef) :
    reference ∈ allRefs applications ↔ (observedAt applications reference).isSome := by
  simp only [allRefs, List.mem_flatMap, applicationRefs, List.mem_map, List.mem_range,
    observedAt, Prod.exists, List.mem_zipIdx_iff_getElem?]
  constructor
  · rintro ⟨application, index, hat, message, hmessage, rfl⟩
    simp [hat, hmessage]
  · intro h
    cases hat : applications[reference.application]? with
    | none => simp [hat] at h
    | some application =>
      simp only [hat, Option.bind_some, Option.isSome_map, isSome_getElem?] at h
      exact ⟨application, reference.application, hat, reference.message, h, rfl⟩

theorem nodup_allRefs (applications : List ApplicationAnalysis) : (allRefs applications).Nodup := by
  rw [allRefs, List.nodup_flatMap]
  constructor
  · intro entry _
    exact List.nodup_range.map fun m m' h => (MessageRef.mk.inj h).2
  · have hindex : (applications.zipIdx.map Prod.snd).Nodup := by
      rw [List.zipIdx_map_snd]
      exact List.nodup_range'
    refine (List.pairwise_map.1 hindex).imp fun hne => ?_
    rw [Function.onFun, List.disjoint_left]
    intro reference ha hb
    simp only [applicationRefs, List.mem_map] at ha hb
    obtain ⟨m, -, rfl⟩ := ha
    obtain ⟨m', -, h⟩ := hb
    exact hne (MessageRef.mk.inj h).1.symm

/-! ### The invariant of the placement -/

/-- What holds when the messages of the references `seen` have been placed. -/
structure Booked (applications : List ApplicationAnalysis) (seen : List MessageRef)
    (c : Correlation) : Prop where
  accounted : (c.output.flatMap Transaction.references ++
    c.groups.entries.flatMap fun e => e.2.references).Perm seen
  rows : ∀ t ∈ c.output, t.status ≠ "candidate_pair" ∧ ∃ reference,
    t.references = [reference] ∧ ((keyAt applications reference).isSome → t.status ∈ notAdmitted)
  requests : ∀ e ∈ c.groups.entries, ∀ reference ∈ e.2.requests,
    keyAt applications reference = some (e.1, true)
  responses : ∀ e ∈ c.groups.entries, ∀ reference ∈ e.2.responses,
    keyAt applications reference = some (e.1, false)

theorem booked_new (applications : List ApplicationAnalysis) : Booked applications [] .new :=
  ⟨by simp [Correlation.new, OrdMap.empty], by simp [Correlation.new],
    by simp [Correlation.new, OrdMap.empty], by simp [Correlation.new, OrdMap.empty]⟩

section Booked
variable {applications : List ApplicationAnalysis} {seen : List MessageRef} {c : Correlation}
  {reference : MessageRef}

theorem Booked.of_eq {d : Correlation} (h : Booked applications seen c)
    (hgroups : d.groups = c.groups) (houtput : d.output = c.output) : Booked applications seen d := by
  obtain ⟨groups, output, count, work⟩ := d
  obtain rfl : groups = c.groups := hgroups
  obtain rfl : output = c.output := houtput
  exact ⟨h.accounted, h.rows, h.requests, h.responses⟩

theorem Booked.row (h : Booked applications seen c) (protocol : String) (flow : ℕ) (request : Bool)
    {status : String} (reason : String) (hpair : status ≠ "candidate_pair")
    (hstatus : (keyAt applications reference).isSome → status ∈ notAdmitted) :
    Booked applications (seen ++ [reference])
      (c.row protocol flow reference request status reason) := by
  have hrefs : ∀ t : Transaction, t.requests = (if request then [reference] else []) →
      t.responses = (if request then [] else [reference]) → t.references = [reference] := by
    intro t hreq hrsp
    rw [Transaction.references, hreq, hrsp]
    cases request <;> rfl
  refine ⟨?_, ?_, h.requests, h.responses⟩
  · simp only [Correlation.row, List.flatMap_append, List.flatMap_cons, List.flatMap_nil,
      List.append_nil]
    rw [hrefs _ rfl rfl]
    refine List.Perm.trans ?_ (h.accounted.append_right [reference])
    rw [List.append_assoc, List.append_assoc]
    exact List.perm_append_comm.append_left _
  · intro t ht
    rcases List.mem_append.1 ht with ht | ht
    · exact h.rows t ht
    · rw [List.mem_singleton.1 ht]
      exact ⟨hpair, reference, hrefs _ rfl rfl, hstatus⟩

theorem groups_perm (m : OrdMap Key Group) (key : Key) :
    (m.entries.flatMap fun e => e.2.references).Perm
      (((m.get? key).getD .empty).references ++
        (m.erase key).entries.flatMap fun e => e.2.references) := by
  cases hkey : m.get? key with
  | none =>
    rw [OrdMap.erase_eq_self hkey]
    rfl
  | some group => simpa using (OrdMap.entries_perm_of_get? hkey).flatMap_right _

theorem Booked.join (h : Booked applications seen c) {key : Key} {request : Bool} (uncertain : Bool)
    (hkey : keyAt applications reference = some (key, request)) :
    Booked applications (seen ++ [reference]) (c.join key reference request uncertain) := by
  have hsame : ∀ e ∈ (c.join key reference request uncertain).groups.entries,
      e ∈ c.groups.entries ∨ e.1 = key ∧
        (e.2.requests = ((c.groups.get? key).getD .empty).requests ++
          if request then [reference] else []) ∧
        (e.2.responses = ((c.groups.get? key).getD .empty).responses ++
          if request then [] else [reference]) := by
    intro e he
    rcases (OrdMap.mem_insert _ _ _ _).1 he with rfl | ⟨he, -⟩
    · right
      cases request <;> simp
    · exact .inl he
  have hold : ∀ {refs : Group → List MessageRef} {side : Bool},
      (∀ e ∈ c.groups.entries, ∀ r ∈ refs e.2, keyAt applications r = some (e.1, side)) →
      refs .empty = [] → ∀ r ∈ refs ((c.groups.get? key).getD .empty),
        keyAt applications r = some (key, side) := by
    intro refs side hrefs hempty r hr
    cases hget : c.groups.get? key with
    | none => simp [hget, hempty] at hr
    | some group =>
      rw [hget] at hr
      exact hrefs (key, group) ((OrdMap.get?_eq_some_iff _ _ _).1 hget) r hr
  refine ⟨?_, h.rows, ?_, ?_⟩
  · rw [List.perm_iff_count]
    intro r
    have hbefore := h.accounted.count_eq r
    have hgroups := (groups_perm c.groups key).count_eq r
    have hafter := (groups_perm (c.join key reference request uncertain).groups key).count_eq r
    simp only [Correlation.join, OrdMap.get?_insert_self, OrdMap.erase_insert, Option.getD_some,
      Group.references, List.count_append] at hbefore hgroups hafter ⊢
    rw [hafter]
    cases request <;> simp <;> omega
  · intro e he r hr
    rcases hsame e he with he | ⟨rfl, hreq, -⟩
    · exact h.requests e he r hr
    · rw [hreq, List.mem_append] at hr
      rcases hr with hr | hr
      · exact hold h.requests rfl r hr
      · cases request with
        | false => simp at hr
        | true => rw [List.mem_singleton.1 hr, hkey]
  · intro e he r hr
    rcases hsame e he with he | ⟨rfl, -, hrsp⟩
    · exact h.responses e he r hr
    · rw [hrsp, List.mem_append] at hr
      rcases hr with hr | hr
      · exact hold h.responses rfl r hr
      · cases request with
        | false => rw [List.mem_singleton.1 hr, hkey]
        | true => simp at hr

end Booked

/-! ### One message -/

theorem counted_booked {applications : List ApplicationAnalysis} {seen : List MessageRef}
    {c d : Correlation} {limits : Limits} (h : Booked applications seen c)
    (hcount : c.counted limits = .ok d) : Booked applications seen d := by
  obtain ⟨-, hd⟩ := guard_eq_ok.1 hcount
  cases hd
  exact h.of_eq rfl rfl

theorem dnp3Exclusion_status {message : ApplicationMessage} {verified : Result Bool}
    {status reason : String} (h : dnp3Exclusion message verified = some (status, reason)) :
    status ≠ "candidate_pair" ∧
      (message.cls = .request ∨ message.cls = .response → status ∈ notAdmitted) := by
  unfold dnp3Exclusion at h
  split at h
  · cases h
    exact ⟨by decide, fun _ => by decide⟩
  · split at h
    · cases h
      exact ⟨by decide, fun _ => by decide⟩
    · split at h
      · cases h
        exact ⟨by decide, fun _ => by decide⟩
      · -- what is left is unsolicited, a confirmation or of no known class
        split at h <;> cases h <;> simp_all

theorem dnp3Exclusion_none {message : ApplicationMessage} {verified : Result Bool}
    (h : dnp3Exclusion message verified = none) : (∃ direction, verified = .ok direction) ∧
      (message.cls = .request ∨ message.cls = .response) := by
  unfold dnp3Exclusion at h
  split at h
  · cases h
  · split at h
    next => cases h
    next direction =>
      refine ⟨⟨direction, rfl⟩, ?_⟩
      split at h
      · cases h
      · split at h
        next hcls => exact .inl hcls
        next hcls => exact .inr hcls
        all_goals cases h

section Step
variable {applications : List ApplicationAnalysis} {seen : List MessageRef} {c d : Correlation}
  {reference : MessageRef} {limits : Limits} {application : ApplicationAnalysis}

theorem addDnp3_booked {result : Dnp3Result} {message : ApplicationMessage}
    (hat : observedAt applications reference = some (application, .dnp3 message))
    (h : Booked applications seen c)
    (hadd : addDnp3 limits application result reference message c = .ok d) :
    Booked applications (seen ++ [reference]) d := by
  obtain ⟨counted, hcounted, hadd⟩ := bind_eq_ok.1 hadd
  have hbooked := counted_booked h hcounted
  have hkey : keyAt applications reference = keyOf application (.dnp3 message) := by
    rw [keyAt, hat]
    rfl
  cases hverified : dnp3Verified limits application result message counted.work with
  | mk verified work =>
    rw [hverified] at hadd
    obtain ⟨-, hadd⟩ := guard_eq_ok.1 hadd
    have hwork : Booked applications seen { counted with work } := hbooked.of_eq rfl rfl
    cases hexclusion : dnp3Exclusion message verified with
    | some verdict =>
      obtain ⟨status, reason⟩ := verdict
      rw [hexclusion] at hadd
      cases hadd
      obtain ⟨hpair, hstatus⟩ := dnp3Exclusion_status hexclusion
      refine hwork.row _ _ _ _ hpair fun hsome => hstatus ?_
      by_contra hcls
      rw [hkey, keyOf, if_neg hcls] at hsome
      cases hsome
    | none =>
      rw [hexclusion] at hadd
      cases hadd
      obtain ⟨⟨direction, rfl⟩, hcls⟩ := dnp3Exclusion_none hexclusion
      refine hwork.join _ ?_
      unfold dnp3Verified at hverified
      split at hverified
      · rw [hkey, keyOf, if_pos hcls,
          sourceCapture_of_oneCapture (verifiedMessageDirection_oneCapture hverified)]
        rfl
      · cases hverified

theorem addModbus_booked {message : ModbusMessage}
    (hat : observedAt applications reference = some (application, .modbus message))
    (h : Booked applications seen c)
    (hadd : addModbus limits application reference message c = .ok d) :
    Booked applications (seen ++ [reference]) d := by
  obtain ⟨counted, hcounted, hadd⟩ := bind_eq_ok.1 hadd
  obtain ⟨work, -, hadd⟩ := bind_eq_ok.1 hadd
  have hbooked := counted_booked h hcounted
  have hkey : keyAt applications reference = keyOf application (.modbus message) := by
    rw [keyAt, hat]
    rfl
  have hwork : Booked applications seen { counted with work } := hbooked.of_eq rfl rfl
  have hstatus : (keyAt applications reference).isSome → "unclassified" ∈ notAdmitted :=
    fun _ => by decide
  cases hscope : captureScope message.raw with
  | none =>
    rw [hscope] at hadd
    cases hadd
    exact hwork.row _ _ _ _ (by decide) hstatus
  | some capture =>
    rw [hscope] at hadd
    dsimp only at hadd
    split at hadd
    · cases hadd
      exact hwork.row _ _ _ _ (by decide) hstatus
    · next hshape =>
        cases hadd
        simp only [not_or] at hshape
        refine hwork.join _ ?_
        rw [hkey, keyOf, if_neg hshape.2.2,
          sourceCapture_of_oneCapture (captureScope_oneCapture hscope)]
        rfl

/-! ### All messages -/

theorem foldlM_booked {γ : Type} {l : List γ} {f : Correlation → γ → Result Correlation}
    {refs : γ → List MessageRef}
    (hstep : ∀ x ∈ l, ∀ seen c d, Booked applications seen c → f c x = .ok d →
      Booked applications (seen ++ refs x) d)
    (h : Booked applications seen c) (hfold : l.foldlM f c = .ok d) :
    Booked applications (seen ++ l.flatMap refs) d := by
  induction l generalizing seen c with
  | nil =>
    cases hfold
    simpa using h
  | cons x rest ih =>
    rw [List.foldlM_cons] at hfold
    obtain ⟨next, hnext, hrest⟩ := bind_eq_ok.1 hfold
    have hbooked := ih (fun y hy => hstep y (List.mem_cons_of_mem x hy))
      (hstep x (by simp) seen c next h hnext) hrest
    rwa [List.append_assoc] at hbooked

theorem flatMap_zipIdx_refs {α : Type} (l : List α) (index : ℕ) :
    (l.zipIdx.flatMap fun m => [MessageRef.mk index m.2]) =
      (List.range l.length).map fun m => ⟨index, m⟩ := by
  rw [← List.map_eq_flatMap, List.range_eq_range', ← List.zipIdx_map_snd 0 l, List.map_map]
  rfl

theorem addApplication_booked {entry : ApplicationAnalysis × ℕ} (hat : entry ∈ applications.zipIdx)
    (h : Booked applications seen c) (hadd : addApplication limits c entry = .ok d) :
    Booked applications (seen ++ applicationRefs entry) d := by
  obtain ⟨application, index⟩ := entry
  have hat : applications[index]? = some application := List.mem_zipIdx_iff_getElem?.1 hat
  unfold addApplication at hadd
  cases hdata : application.data with
  | dnp3 result =>
    simp only [hdata] at hadd
    have hrefs : applicationRefs (application, index) =
        result.messages.zipIdx.flatMap fun m => [MessageRef.mk index m.2] := by
      simp [applicationRefs, hdata, observations, flatMap_zipIdx_refs]
    rw [hrefs]
    refine foldlM_booked (fun m hm seen c d hbooked hstep => ?_) h hadd
    refine addDnp3_booked ?_ hbooked hstep
    have hm := List.mem_zipIdx_iff_getElem?.1 hm
    simp [observedAt, hat, hdata, observations, hm]
  | modbus result =>
    simp only [hdata] at hadd
    have hrefs : applicationRefs (application, index) =
        result.messages.zipIdx.flatMap fun m => [MessageRef.mk index m.2] := by
      simp [applicationRefs, hdata, observations, flatMap_zipIdx_refs]
    rw [hrefs]
    refine foldlM_booked (fun m hm seen c d hbooked hstep => ?_) h hadd
    refine addModbus_booked ?_ hbooked hstep
    have hm := List.mem_zipIdx_iff_getElem?.1 hm
    simp [observedAt, hat, hdata, observations, hm]
  | failed error =>
    simp only [hdata] at hadd
    cases hadd
    simpa [applicationRefs, hdata, observations] using h

end Step

section Run
variable {applications : List ApplicationAnalysis} {limits : Limits} {out : List Transaction}

theorem transactions_booked (h : transactions applications limits = .ok out) :
    ∃ c, Booked applications (allRefs applications) c ∧
      out = c.output ++ c.groups.entries.map (settle applications) := by
  obtain ⟨c, hfold, hout⟩ := bind_eq_ok.1 h
  cases hout
  have hbooked : Booked applications ([] ++ applications.zipIdx.flatMap applicationRefs) c :=
    foldlM_booked (fun entry hentry _ _ _ h hadd => addApplication_booked hentry h hadd)
      (booked_new applications) hfold
  exact ⟨c, hbooked, rfl⟩

theorem settleGroup_pair {protocol : String} {group : Group}
    (h : (settleGroup applications protocol group).1 = "candidate_pair") :
    ∃ request response, group.requests = [request] ∧ group.responses = [response] := by
  unfold settleGroup at h
  split at h
  next request response hreq hrsp => exact ⟨request, response, hreq, hrsp⟩
  next => exact absurd h (by decide)
  next => exact absurd h (by decide)
  next => exact absurd h (by decide)

/-- Every message is referenced once. A candidate pair is a request and a response of one key, and
any other message of that key has a row that says why it was not admitted. -/
theorem transactions_reported (h : transactions applications limits = .ok out) :
    (∀ reference, (out.flatMap Transaction.references).count reference =
      if (observedAt applications reference).isSome then 1 else 0) ∧
    ∀ t ∈ out, t.status = "candidate_pair" → ∃ request response key,
      t.requests = [request] ∧ t.responses = [response] ∧
      keyAt applications request = some (key, true) ∧
      keyAt applications response = some (key, false) ∧
      t.protocol = key.protocol ∧ t.flow = key.flow ∧
      ∀ other side, other ≠ request → other ≠ response →
        keyAt applications other = some (key, side) →
        ∃ row ∈ out, row.references = [other] ∧ row.status ∈ notAdmitted := by
  obtain ⟨c, hbooked, rfl⟩ := transactions_booked h
  have hrefs : (c.output ++ c.groups.entries.map (settle applications)).flatMap
      Transaction.references = c.output.flatMap Transaction.references ++
        c.groups.entries.flatMap fun e => e.2.references := by
    rw [List.flatMap_append, List.flatMap_map]
    rfl
  constructor
  · intro reference
    rw [hrefs, hbooked.accounted.count_eq]
    split_ifs with hat
    · exact List.count_eq_one_of_mem (nodup_allRefs applications) ((mem_allRefs _ _).2 hat)
    · exact List.count_eq_zero.2 fun hmem => hat ((mem_allRefs _ _).1 hmem)
  · intro t ht hpair
    rcases List.mem_append.1 ht with ht | ht
    · exact absurd hpair (hbooked.rows t ht).1
    · obtain ⟨entry, hentry, rfl⟩ := List.mem_map.1 ht
      obtain ⟨request, response, hreq, hrsp⟩ := settleGroup_pair hpair
      refine ⟨request, response, entry.1, hreq, hrsp,
        hbooked.requests entry hentry request (by simp [hreq]),
        hbooked.responses entry hentry response (by simp [hrsp]), rfl, rfl, ?_⟩
      intro other side hne hne' hkey
      have hseen : other ∈ allRefs applications := by
        refine (mem_allRefs _ _).2 ?_
        cases hat : observedAt applications other with
        | none => simp [keyAt, hat] at hkey
        | some seen => rfl
      rcases List.mem_append.1 (hbooked.accounted.mem_iff.2 hseen) with hrow | hgroup
      · obtain ⟨row, hrow, hother⟩ := List.mem_flatMap.1 hrow
        obtain ⟨-, reference, href, hstatus⟩ := hbooked.rows row hrow
        rw [href, List.mem_singleton] at hother
        subst hother
        exact ⟨row, List.mem_append_left _ hrow, href, hstatus (by simp [hkey])⟩
      · -- a grouped message of this key is in this very group
        obtain ⟨entry', hentry', hother⟩ := List.mem_flatMap.1 hgroup
        have hsame : entry'.1 = entry.1 := by
          rcases List.mem_append.1 hother with hother | hother
          · have := hbooked.requests entry' hentry' other hother
            rw [hkey] at this
            simpa using (congrArg Prod.fst (Option.some.inj this)).symm
          · have := hbooked.responses entry' hentry' other hother
            rw [hkey] at this
            simpa using (congrArg Prod.fst (Option.some.inj this)).symm
        obtain rfl := OrdMap.eq_of_key_eq c.groups.sorted hentry' hentry hsame
        simp [Group.references, hreq, hrsp, hne, hne'] at hother

end Run

def sampleMessage (role : Role) (shapeValid : Bool) (frame : ℕ) (octets : List U8) :
    ModbusMessage :=
  { streamOffset := 0
    transaction := 1
    unit := 1
    function := 3
    role
    shapeValid
    semanticsSupported := true
    boundaryVerified := true
    raw := .fromPacket octets ⟨Vector.replicate 32 0, frame, 0⟩ 0 }

/-- Two requests with the same identifiers, the second for no register at all, and a response. -/
def sampleApplications : List ApplicationAnalysis :=
  [⟨0, 0, "modbus", .modbus ⟨[
      sampleMessage .request true 1 [0, 1, 0, 0, 0, 6, 1, 3, 0, 0, 0, 1],
      sampleMessage .request false 2 [0, 1, 0, 0, 0, 6, 1, 3, 0, 0, 0, 0]], []⟩⟩,
    ⟨0, 1, "modbus", .modbus ⟨[
      sampleMessage .response true 3 [0, 1, 0, 0, 0, 5, 1, 3, 2, 0, 7]], []⟩⟩]

def sampleTransactions : List Transaction :=
  [⟨"modbus", 0, [⟨0, 1⟩], [], "unclassified", "invalid_or_unsupported_pdu_shape_or_endpoint_role"⟩,
    ⟨"modbus", 0, [⟨0, 0⟩], [⟨1, 0⟩], "candidate_pair",
      "matching_protocol_identifiers_not_attack_proof"⟩]

def sampleKey : Key := ⟨"modbus", Vector.replicate 32 0, 0, 1, 0, 1, 3⟩

theorem transactions_sample :
    transactions sampleApplications .default = .ok sampleTransactions := by
  decide +kernel

/-- A request of its own row shares the key of a candidate pair. -/
theorem transactions_unadmitted_request : ¬ ∀ applications limits out,
    transactions applications limits = .ok out → ∀ t ∈ out, t.status = "candidate_pair" →
      ∃ request response key, t.requests = [request] ∧ t.responses = [response] ∧
        keyAt applications request = some (key, true) ∧
        keyAt applications response = some (key, false) ∧
        ∀ other side, other ≠ request → other ≠ response →
          keyAt applications other ≠ some (key, side) := by
  intro hall
  obtain ⟨request, response, key, hreq, hrsp, hkey, -, hother⟩ :=
    hall sampleApplications .default sampleTransactions transactions_sample
      sampleTransactions[1] (by decide) rfl
  obtain rfl : (⟨0, 0⟩ : MessageRef) = request := by simpa [sampleTransactions] using hreq
  obtain rfl : (⟨1, 0⟩ : MessageRef) = response := by simpa [sampleTransactions] using hrsp
  have hfirst : keyAt sampleApplications ⟨0, 0⟩ = some (sampleKey, true) := by decide +kernel
  obtain rfl : sampleKey = key := by
    rw [hfirst] at hkey
    exact congrArg Prod.fst (Option.some.inj hkey)
  exact hother ⟨0, 1⟩ true (by decide) (by decide) (by decide +kernel)

theorem transactions_reported_sample :
    (∀ reference, (sampleTransactions.flatMap Transaction.references).count reference =
      if (observedAt sampleApplications reference).isSome then 1 else 0) ∧
    ∀ t ∈ sampleTransactions, t.status = "candidate_pair" → ∃ request response key,
      t.requests = [request] ∧ t.responses = [response] ∧
      keyAt sampleApplications request = some (key, true) ∧
      keyAt sampleApplications response = some (key, false) ∧
      t.protocol = key.protocol ∧ t.flow = key.flow ∧
      ∀ other side, other ≠ request → other ≠ response →
        keyAt sampleApplications other = some (key, side) →
        ∃ row ∈ sampleTransactions, row.references = [other] ∧ row.status ∈ notAdmitted :=
  transactions_reported transactions_sample

end PcapEvidence.Correlate
