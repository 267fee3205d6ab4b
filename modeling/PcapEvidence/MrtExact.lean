import PcapEvidence.MrtRecords

/-!
# Exact MRT containers

The records of a container tile its octets, every RIB belongs to the peer table of its series, a
record is found by its offset alone, and an embedded message is found where it was read.
-/

namespace PcapEvidence.MrtContainer

open Bgp.Wire History

section Tiles

variable {start : ℕ} {table : Option Table}
variable {input : List U8}

def MrtRecord.stop (r : MrtRecord) : ℕ := r.offset + 12 + r.length.toNat

def Tiles (input : List U8) : ℕ → List MrtRecord → Prop
  | start, [] => start = input.length
  | start, r :: more =>
    r.offset = start ∧ r.sha256 = Sha256.digest (sliceOf input r.offset r.stop) ∧ Tiles input r.stop more

def Extents (input : List U8) : ℕ → List (ℕ × ℕ) → Prop
  | start, [] => start = input.length
  | start, e :: more => e.1 = start ∧ start + 12 ≤ e.2 ∧ e.2 ≤ input.length ∧ Extents input e.2 more

theorem preflight_extents {l : MrtLimits} {fuel : ℕ} {done starts : List (ℕ × ℕ)}
    (hstart : start ≤ input.length) (hfuel : input.length ≤ start + fuel)
    (h : preflight input l fuel start done = .ok starts) :
    ∃ more, starts = done ++ more ∧ Extents input start more := by
  induction fuel generalizing start done with
  | zero =>
    cases h
    exact ⟨[], (List.append_nil _).symm, le_antisymm hstart hfuel⟩
  | succ fuel ih =>
    unfold preflight at h
    by_cases hend : start ≥ input.length
    · rw [if_pos hend] at h
      cases h
      exact ⟨[], (List.append_nil _).symm, le_antisymm hstart hend⟩
    · rw [if_neg hend] at h
      obtain ⟨-, h⟩ := guard_eq_ok.1 h
      obtain ⟨-, h⟩ := guard_eq_ok.1 h
      obtain ⟨hle, h⟩ := guard_eq_ok.1 h
      obtain ⟨-, h⟩ := guard_eq_ok.1 h
      obtain ⟨more, rfl, hmore⟩ := ih (not_lt.1 hle) (by omega) h
      refine ⟨_ :: more, List.append_assoc .., rfl, ?_, not_lt.1 hle, hmore⟩
      omega

/-- The records of a container, each decoded behind the ones in front of it. -/
inductive Run (input : List U8) : ℕ → Option Table → List MrtRecord → Prop
  | done {table : Option Table} : Run input input.length table []
  | step {start stop : ℕ} {table table' : Option Table} {record : MrtRecord} {more : List MrtRecord} :
      start + 12 ≤ stop → stop ≤ input.length →
      Decoded (sliceOf input start stop) start table record table' → Run input stop table' more →
      Run input start table (record :: more)

theorem decodeRecords_run {starts : List (ℕ × ℕ)} {m m' : Meter}
    {records : List MrtRecord} (hextents : Extents input start starts)
    (h : decodeRecords input starts table m = .ok (records, m')) : Run input start table records := by
  induction starts generalizing start table m records with
  | nil =>
    cases h
    obtain rfl : start = input.length := hextents
    exact .done
  | cons e starts ih =>
    obtain ⟨from', stop⟩ := e
    obtain ⟨rfl, hstart, hstop, hmore⟩ := hextents
    obtain ⟨⟨record, table', m1⟩, hrecord, h⟩ := bind_eq_ok.1 h
    obtain ⟨⟨records, m2⟩, hrecords, h⟩ := bind_eq_ok.1 h
    cases h
    exact .step hstart hstop (decodeRecord_ok hrecord) (ih hmore hrecords)

theorem Decoded.stop_eq {stop : ℕ} {table' : Option Table} {record : MrtRecord}
    (h : Decoded (sliceOf input start stop) start table record table') (hle : start ≤ stop)
    (hstop : stop ≤ input.length) : record.stop = stop := by
  have hlength := h.length
  rw [length_sliceOf_of_le hle hstop] at hlength
  unfold MrtRecord.stop
  rw [h.place]
  omega

theorem Run.tiles {records : List MrtRecord}
    (h : Run input start table records) : Tiles input start records := by
  induction h with
  | done => rfl
  | step hstart hstop hdecoded _ ih =>
    have heq := hdecoded.stop_eq (by omega) hstop
    refine ⟨hdecoded.place, ?_, ?_⟩
    · rw [heq, hdecoded.place]
      exact hdecoded.sha256
    · rw [heq]
      exact ih

end Tiles

section Peers

variable {start : ℕ}
variable {input : List U8} {done records : List MrtRecord} {table : Option Table}

def InBetween (r : MrtRecord) : Prop :=
  r.recordType = 13 ∧ inSeries r.subtype ∧ ∀ index, r.body ≠ .peerIndex index

def Nearest (done : List MrtRecord) (pit : MrtRecord) (index : PeerIndex) : Prop :=
  pit.body = .peerIndex index ∧
    ∃ before between, done = before ++ pit :: between ∧ ∀ r ∈ between, InBetween r

def AtHand (done : List MrtRecord) (table : Option Table) : Prop :=
  ∀ t, table = some t → ∃ pit index, Nearest done pit index ∧
    t = ⟨pit.offset, pit.sha256, index.peers.length⟩

theorem AtHand.step {raw : List U8} {table' : Option Table} {record : MrtRecord}
    (h : AtHand done table) (hrecord : Decoded raw start table record table') :
    AtHand (done ++ [record]) table' := by
  intro t ht
  have hbehind := hrecord.behind
  rw [ht] at hbehind
  by_cases hpeers : ∃ index, record.body = .peerIndex index
  · obtain ⟨index, hbody⟩ := hpeers
    rw [hbody] at hbehind
    obtain rfl := Option.some.inj hbehind
    refine ⟨record, index, ⟨hbody, done, [], rfl, ?_⟩, ?_⟩
    · simp
    · rw [hrecord.place]
  · push Not at hpeers
    have hseries : seriesTable record.recordType record.subtype table = some t := by
      rw [hbehind]
      unfold tableBehind
      cases hbody : record.body with
      | peerIndex index => exact absurd hbody (hpeers index)
      | rib rib => rfl
      | bgp4mp message => rfl
      | opaqueBody reason bytes => rfl
    have hkept : ¬ (record.recordType ≠ 13 ∨ !inSeries record.subtype) := by
      intro hout
      unfold seriesTable at hseries
      rw [if_pos hout] at hseries
      cases hseries
    push Not at hkept
    obtain ⟨pit, index, ⟨hbody, before, between, rfl, hbetween⟩, rfl⟩ :=
      h t (seriesTable_eq_some hseries)
    refine ⟨pit, index, ⟨hbody, before, between ++ [record], ?_, ?_⟩, rfl⟩
    · rw [List.append_assoc, List.cons_append]
    · intro r hr
      obtain hr | hr := List.mem_append.1 hr
      · exact hbetween r hr
      · obtain rfl := List.mem_singleton.1 hr
        exact ⟨hkept.1, by simpa using hkept.2, hpeers⟩

def Associated (records : List MrtRecord) : Prop :=
  ∀ front record back rib, records = front ++ record :: back → record.body = .rib rib →
    ∃ pit index, Nearest front pit index ∧ Bound rib ⟨pit.offset, pit.sha256, index.peers.length⟩

theorem Run.associated_from (h : Run input start table records) (hdone : AtHand done table) :
    ∀ front record back rib, records = front ++ record :: back → record.body = .rib rib →
      ∃ pit index, Nearest (done ++ front) pit index ∧
        Bound rib ⟨pit.offset, pit.sha256, index.peers.length⟩ := by
  induction h generalizing done with
  | done =>
    intro front record back rib hsplit
    simp at hsplit
  | step hstart hstop hdecoded _ ih =>
    intro front record back rib hsplit hrib
    cases front with
    | nil =>
      obtain ⟨rfl, rfl⟩ := List.cons.inj hsplit
      obtain ⟨-, -, t, htable, hbound⟩ := hdecoded.ribs rib hrib
      obtain ⟨pit, index, hnearest, rfl⟩ := hdone t htable
      rw [List.append_nil]
      exact ⟨pit, index, hnearest, hbound⟩
    | cons first front =>
      obtain ⟨rfl, hmore⟩ := List.cons.inj hsplit
      obtain ⟨pit, index, hnearest, hbound⟩ := ih (hdone.step hdecoded) front record back rib hmore hrib
      rw [List.append_assoc] at hnearest
      exact ⟨pit, index, hnearest, hbound⟩

theorem Run.associated (h : Run input start none records) : Associated records := by
  have hnone : AtHand [] none := by
    intro t ht
    cases ht
  exact h.associated_from hnone

end Peers

section Lookup

variable {records : List MrtRecord}
variable {input : List U8} {b : MrtBatch} {offset : ℕ}

theorem Tiles.le_offset {start : ℕ} (h : Tiles input start records) :
    ∀ r ∈ records, start ≤ r.offset := by
  induction records generalizing start with
  | nil => simp
  | cons first more ih =>
    obtain ⟨rfl, -, hmore⟩ := h
    intro r hr
    obtain rfl | hr := List.mem_cons.1 hr
    · rfl
    · have := ih hmore r hr
      unfold MrtRecord.stop at this
      omega

theorem Tiles.increasing {start : ℕ} (h : Tiles input start records) :
    records.Pairwise fun r s => r.offset < s.offset := by
  induction records generalizing start with
  | nil => exact .nil
  | cons first more ih =>
    obtain ⟨-, -, hmore⟩ := h
    refine .cons ?_ (ih hmore)
    intro r hr
    have := hmore.le_offset r hr
    unfold MrtRecord.stop at this
    omega

structure Separates (records : List MrtRecord) (offset low high : ℕ) : Prop where
  smaller : ∀ i r, records[i]? = some r → i < low → r.offset < offset
  others : ∀ i r, records[i]? = some r → high ≤ i → offset ≤ r.offset

theorem Separates.halve {low high middle : ℕ}
    (hinc : records.Pairwise fun r s => r.offset < s.offset) (h : Separates records offset low high)
    (hmiddle : middle < records.length) :
    if (records[middle]?.map (·.offset)).any (· < offset) then Separates records offset (middle + 1) high
    else Separates records offset low middle := by
  rw [List.pairwise_iff_getElem] at hinc
  rw [List.getElem?_eq_getElem hmiddle]
  split
  · next hless =>
    have hless' : records[middle].offset < offset := by simpa using hless
    refine ⟨?_, h.others⟩
    intro i r hr hi
    obtain ⟨hlength, rfl⟩ := List.getElem?_eq_some_iff.1 hr
    obtain rfl | hlt := Nat.eq_or_lt_of_le (Nat.le_of_lt_succ hi)
    · exact hless'
    · exact (hinc i middle hlength hmiddle hlt).trans hless'
  · next hge =>
    have hge' : offset ≤ records[middle].offset := by simpa using hge
    refine ⟨h.smaller, ?_⟩
    intro i r hr hi
    obtain ⟨hlength, rfl⟩ := List.getElem?_eq_some_iff.1 hr
    obtain rfl | hlt := Nat.eq_or_lt_of_le hi
    · exact hge'
    · exact hge'.trans (hinc middle i hmiddle hlength hlt).le

theorem MrtBatch.lowerBound_separates (hinc : b.records.Pairwise fun r s => r.offset < s.offset)
    {fuel low high probes : ℕ} (hlow : low ≤ high) (hhigh : high ≤ b.records.length)
    (hfuel : high ≤ low + fuel) (h : Separates b.records offset low high) :
    Separates b.records offset (b.lowerBound offset fuel low high probes).1
      (b.lowerBound offset fuel low high probes).1 := by
  induction fuel generalizing low high probes with
  | zero =>
    obtain rfl : low = high := le_antisymm hlow hfuel
    exact h
  | succ fuel ih =>
    unfold lowerBound
    split
    · next hless =>
      have hhalve := @Separates.halve b.records offset low high (low + (high - low) / 2) hinc h
        (by omega)
      dsimp only
      split
      · next hsmall =>
        rw [if_pos hsmall] at hhalve
        exact ih (by omega) hhigh (by omega) hhalve
      · next hlarge =>
        rw [if_neg hlarge] at hhalve
        exact ih (by omega) (by omega) (by omega) hhalve
    · next hmet =>
      obtain rfl : low = high := by omega
      exact h

theorem MrtBatch.recordIndexByOffset_iff (hinc : b.records.Pairwise fun r s => r.offset < s.offset)
    {i : ℕ} : (∃ probes, b.recordIndexByOffset offset = some (i, probes)) ↔
      ∃ r, b.records[i]? = some r ∧ r.offset = offset := by
  have hwhole : Separates b.records offset 0 b.records.length := by
    constructor
    · intro i r _ hi
      omega
    · intro i r hr hi
      have := (List.getElem?_eq_some_iff.1 hr).1
      omega
  have hfound := @MrtBatch.lowerBound_separates b offset hinc b.records.length 0 b.records.length 0
    (Nat.zero_le _) le_rfl (by omega) hwhole
  unfold recordIndexByOffset
  generalize b.lowerBound offset b.records.length 0 b.records.length 0 = found at hfound ⊢
  obtain ⟨low, probes⟩ := found
  dsimp only at hfound ⊢
  constructor
  · rintro ⟨_, h⟩
    cases hrecord : b.records[low]? with
    | none =>
      rw [hrecord] at h
      cases h
    | some r =>
      rw [hrecord] at h
      dsimp only at h
      split at h
      · next heq =>
        cases h
        exact ⟨r, hrecord, heq⟩
      · cases h
  · rintro ⟨r, hr, rfl⟩
    have hlength := (List.getElem?_eq_some_iff.1 hr).1
    -- the record is neither in front of the position nor behind it
    have hle : low ≤ i := by
      by_contra hlt
      exact absurd (hfound.smaller i r hr (not_le.1 hlt)) (lt_irrefl _)
    obtain rfl | hlt := Nat.eq_or_lt_of_le hle
    · rw [hr]
      exact ⟨probes + 1, if_pos rfl⟩
    · have hlow : low < b.records.length := hlt.trans hlength
      have hge := hfound.others low b.records[low] (List.getElem?_eq_getElem hlow) le_rfl
      have hless := (List.pairwise_iff_getElem.1 hinc) low i hlow hlength hlt
      rw [(List.getElem?_eq_some_iff.1 hr).2] at hless
      exact absurd hge (not_le.2 hless)

end Lookup

section Ranges

variable {kind : Bgp4mpKind}
variable {input : List U8} {b : MrtBatch} {start stop : ℕ} {table table' : Option Table}
  {record : MrtRecord} {message : Bgp4mp} {bytes : List U8}

theorem messageKind_of_bgp4mpKind {subtype : U16}
    (h : bgp4mpKind subtype = some kind) (hstate : kind.state = false) :
    messageKind subtype = some (kind.width, kind.locallyGenerated, kind.addPath) := by
  unfold bgp4mpKind at h
  unfold messageKind
  generalize subtype.toNat = n at h ⊢
  split at h <;> cases h <;> first | rfl | cases hstate

theorem Headed.addressBytes {subtype : U16} {ipv6 : Bool}
    (h : Headed subtype message kind ipv6) : addressBytes message = some (addressWidthOf ipv6) := by
  have hafi := h.afi
  have hpeer := h.peerAddress
  have hlocal := h.localAddress
  unfold MrtContainer.addressBytes
  rw [hafi]
  cases hp : message.peerAddress <;> cases hl : message.localAddress <;> rw [hp] at hpeer <;>
    rw [hl] at hlocal <;> dsimp only [IpAddr.isV6] at hpeer hlocal <;> subst hpeer <;>
    cases hlocal <;> rfl

theorem Headed.not_layoutDisagrees {ipv6 : Bool} (h : Headed record.subtype message kind ipv6)
    (htypes : record.recordType = 16 ∨ record.recordType = 17)
    (htime : decide (record.recordType = 17) = record.time.microseconds.isSome) :
    ¬ layoutDisagrees record message (kind.width, kind.locallyGenerated, kind.addPath) := by
  unfold layoutDisagrees
  push Not
  refine ⟨?_, htime, h.width, h.source, h.locallyGenerated, h.addPath, ?_⟩
  · intro hplain
    exact htypes.resolve_left hplain
  · intro hwidth
    exact ⟨h.peerAsn hwidth, h.localAsn hwidth⟩

theorem Decoded.messageRange (h : Decoded (sliceOf input start stop) start table record table')
    (hstart : start + 12 ≤ stop) (hstop : stop ≤ input.length)
    (hinput : input.length ≤ 64 * 1024 * 1024) (hlength : b.byteLength = input.length)
    (hbody : record.body = .bgp4mp message) (hpayload : message.payload = .message bytes) :
    b.messageRange record message bytes =
        .ok (some ⟨stop - bytes.length, stop, some (Sha256.digest bytes)⟩) ∧
      sliceOf input (stop - bytes.length) stop = bytes := by
  obtain ⟨htypes, htime, kind, ipv6, hheaded, hstate, hle, hbytes, hne⟩ :=
    h.messages message bytes hbody hpayload
  have hraw := length_sliceOf_of_le (by omega : start ≤ stop) hstop
  have hdeclared := h.length
  rw [hraw] at hle hdeclared
  have hsize : 12 + extension record.recordType + headerLength kind ipv6 + bytes.length = stop - start := by
    rw [hbytes, List.length_drop, hraw]
    omega
  have hword : 64 * 1024 * 1024 + 1024 * 1024 < wordBound := by decide
  constructor
  · unfold MrtBatch.messageRange
    rw [messageKind_of_bgp4mpKind hheaded.known hstate]
    dsimp only
    rw [if_neg (hheaded.not_layoutDisagrees htypes htime), hheaded.addressBytes]
    dsimp only
    rw [if_neg hne]
    have hpreamble : (if record.recordType = 17 then 4 else 0) + kind.width.toNat * 2 + 4 +
        addressWidthOf ipv6 * 2 = extension record.recordType + headerLength kind ipv6 := by
      unfold extension headerLength
      omega
    rw [hpreamble, h.place]
    have hadd : checkedAdd (extension record.recordType + headerLength kind ipv6) bytes.length =
        some record.length.toNat := by
      rw [checkedAdd_eq_some_iff]
      omega
    rw [if_neg (not_not.2 hadd), if_neg (by omega), if_neg (by omega)]
    congr 3 <;> omega
  · have hfrom : stop - bytes.length = start + (12 + extension record.recordType + headerLength kind ipv6) := by
      omega
    rw [hfrom, hbytes]
    unfold sliceOf
    rw [List.drop_drop]

theorem length_headerBytes : (MrtBatch.headerBytes record).length = 12 := by
  unfold MrtBatch.headerBytes
  simp

theorem Decoded.verifyRange {range : SourceRange}
    (h : Decoded (sliceOf input start stop) start table record table')
    (hstart : start + 12 ≤ stop) (hstop : stop ≤ input.length) (hrange : range.stop = stop)
    (hle : range.start ≤ stop) (hbody : record.body = .bgp4mp message)
    (hpayload : message.payload = .message bytes) (hslice : sliceOf input range.start stop = bytes) :
    MrtBatch.verifyRange record input range = .ok (some range) := by
  have hraw := length_sliceOf_of_le (by omega : start ≤ stop) hstop
  have hheader := h.header.sliceOf_eq
  rw [length_headerBytes] at hheader
  unfold MrtBatch.verifyRange
  rw [if_neg (by rw [hrange, h.place]; omega)]
  dsimp only
  rw [hrange, h.place, if_neg, if_neg, hbody]
  · dsimp only
    rw [hpayload]
    dsimp only
    rw [if_neg (not_not.2 ⟨hle, hslice⟩)]
  · cases htime : record.time.microseconds with
    | none => simp
    | some us =>
      have hcarries := h.time us htime
      have hsixteen := hcarries.length_le (by omega)
      have hextension := hcarries.sliceOf_eq
      rw [Endian.length_putU32] at hsixteen hextension
      rw [hraw] at hsixteen
      simp [hraw, hsixteen, hextension]
  · push Not
    refine ⟨by omega, ?_, h.sha256.symm⟩
    simpa [sliceOf] using hheader

end Ranges

section Containers

variable {input : List U8} {b : MrtBatch} {source : MrtSource} {l : MrtLimits}

theorem Run.decoded {start : ℕ} {table : Option Table} {records : List MrtRecord}
    (h : Run input start table records) {record : MrtRecord} (hmem : record ∈ records) :
    ∃ from' stop t t', from' + 12 ≤ stop ∧ stop ≤ input.length ∧
      Decoded (sliceOf input from' stop) from' t record t' := by
  induction h with
  | done => cases hmem
  | step hstart hstop hdecoded _ ih =>
    obtain rfl | hmem := List.mem_cons.1 hmem
    · exact ⟨_, _, _, _, hstart, hstop, hdecoded⟩
    · exact ih hmem

structure MrtBatch.Reads (input : List U8) (b : MrtBatch) : Prop where
  sha256 : b.sha256 = Sha256.digest input
  byteLength : b.byteLength = input.length
  small : input.length ≤ 64 * 1024 * 1024
  run : Run input 0 none b.records

theorem MrtBatch.parse_reads (h : MrtBatch.parse input source l = .ok b) : b.Reads input := by
  obtain ⟨_, hlimits, h⟩ := bind_eq_ok.1 h
  obtain ⟨hinput, h⟩ := guard_eq_ok.1 h
  obtain ⟨-, h⟩ := guard_eq_ok.1 h
  obtain ⟨starts, hstarts, h⟩ := bind_eq_ok.1 h
  obtain ⟨m, -, h⟩ := bind_eq_ok.1 h
  obtain ⟨⟨records, m1⟩, hrecords, h⟩ := bind_eq_ok.1 h
  cases h
  obtain ⟨more, rfl, hextents⟩ := preflight_extents (Nat.zero_le _) (by omega) hstarts
  obtain ⟨hlimits, -⟩ := guard_eq_ok.1 hlimits
  push Not at hlimits hinput
  constructor
  · rfl
  · rfl
  · exact hinput.2.1.trans hlimits.2.1
  · exact decodeRecords_run hextents hrecords

theorem MrtBatch.Reads.verified (h : b.Reads input) {i : ℕ} {record : MrtRecord} {message : Bgp4mp}
    {bytes : List U8} (hrecord : b.records[i]? = some record) (hbody : record.body = .bgp4mp message)
    (hpayload : message.payload = .message bytes) :
    ∃ range, b.verifiedBgp4mpMessageSourceRange i input = .ok (some range) ∧
      range.stop ≤ input.length ∧ range.stop = range.start + bytes.length ∧
        sliceOf input range.start range.stop = bytes := by
  obtain ⟨start, stop, t, t', hstart, hstop, hdecoded⟩ := h.run.decoded (List.mem_of_getElem? hrecord)
  obtain ⟨hrange, hslice⟩ := hdecoded.messageRange hstart hstop h.small h.byteLength hbody hpayload
  have hword : 64 * 1024 * 1024 + 12 < wordBound := by decide
  have hsmall := h.small
  have hheader := (Carries.trans (@carries_sliceOf input start stop) hdecoded.header).sliceOf_eq
  rw [Nat.add_zero, length_headerBytes] at hheader
  have hfound : b.bgp4mpMessageSourceRange i =
      .ok (some ⟨stop - bytes.length, stop, some (Sha256.digest bytes)⟩) := by
    unfold MrtBatch.bgp4mpMessageSourceRange
    rw [hrecord]
    dsimp only
    rw [hbody]
    dsimp only
    rw [hpayload]
    exact hrange
  refine ⟨⟨stop - bytes.length, stop, some (Sha256.digest bytes)⟩, ?_, hstop, ?_, hslice⟩
  · unfold MrtBatch.verifiedBgp4mpMessageSourceRange
    rw [if_neg (by rw [h.byteLength]; omega), if_neg (not_not.2 h.sha256.symm), hrecord]
    dsimp only
    rw [hdecoded.place, if_neg (by omega), if_neg (by omega), if_neg (not_not.2 hheader), hfound]
    exact hdecoded.verifyRange hstart hstop rfl (Nat.sub_le _ _) hbody hpayload hslice
  · have hlength := congrArg List.length hslice
    rw [length_sliceOf_of_le (Nat.sub_le _ _) hstop] at hlength
    dsimp only
    omega

/-- A published container is exact. -/
theorem MrtBatch.parse_exact (h : MrtBatch.parse input source l = .ok b) :
    Tiles input 0 b.records ∧ Associated b.records ∧
      (∀ offset i, (∃ probes, b.recordIndexByOffset offset = some (i, probes)) ↔
        ∃ r, b.records[i]? = some r ∧ r.offset = offset) ∧
      ∀ i record message bytes, b.records[i]? = some record → record.body = .bgp4mp message →
        message.payload = .message bytes →
        ∃ range, b.verifiedBgp4mpMessageSourceRange i input = .ok (some range) ∧
          range.stop ≤ input.length ∧ range.stop = range.start + bytes.length ∧
            sliceOf input range.start range.stop = bytes := by
  have hreads := MrtBatch.parse_reads h
  have htiles := hreads.run.tiles
  refine ⟨htiles, hreads.run.associated, ?_, ?_⟩
  · intro offset i
    exact MrtBatch.recordIndexByOffset_iff htiles.increasing
  · intro i record message bytes hrecord hbody hpayload
    exact hreads.verified hrecord hbody hpayload

/-- A peer table with one peer, a RIB of one entry and a message of an extended record. -/
def sampleContainer : List U8 :=
  [0, 0, 0, 0, 0, 13, 0, 1, 0, 0, 0, 19, 1, 1, 1, 1, 0, 0, 0, 1, 0, 2, 2, 2, 2, 10, 0, 0, 2, 0, 7,
    0, 0, 0, 0, 0, 13, 0, 2, 0, 0, 0, 16, 0, 0, 0, 0, 8, 10, 0, 1, 0, 0, 0, 0, 0, 0, 0, 0,
    0, 0, 0, 0, 0, 17, 0, 4, 0, 0, 0, 25, 0, 0, 0, 9, 0, 0, 0, 7, 0, 0, 0, 8, 0, 0, 0, 1,
    10, 0, 0, 1, 10, 0, 0, 2, 255]

theorem MrtBatch.parse_exact_sample :
    ∃ b, MrtBatch.parse sampleContainer ⟨"collector", "first"⟩ .default = .ok b ∧
      Tiles sampleContainer 0 b.records ∧ Associated b.records := by
  have hok : (MrtBatch.parse sampleContainer ⟨"collector", "first"⟩ .default).isOk = true := by
    decide +kernel
  cases hparse : MrtBatch.parse sampleContainer ⟨"collector", "first"⟩ .default with
  | error e =>
    rw [hparse] at hok
    cases hok
  | ok b => exact ⟨b, rfl, (MrtBatch.parse_exact hparse).1, (MrtBatch.parse_exact hparse).2.1⟩

end Containers

end PcapEvidence.MrtContainer
