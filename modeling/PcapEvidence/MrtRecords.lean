import PcapEvidence.BgpWireLists
import PcapEvidence.MrtContainer

/-!
# The records of an MRT container

What a decoded record says about its octets: the common header is at its start, an embedded message at
its end, and the peer table behind it is the one of its series.
-/

namespace PcapEvidence.MrtContainer

open Bgp.Wire History

section Cursors

variable {c d : Cursor} {n : ℕ} {b : List U8}

theorem Cursor.take_ok (h : c.take n = .ok (b, d)) :
    c.place + n ≤ c.bytes.length ∧ b = sliceOf c.bytes c.place (c.place + n) ∧
      d = { c with place := c.place + n } := by
  unfold take at h
  cases hstop : checkedAdd c.place n with
  | none =>
    rw [hstop] at h
    cases h
  | some stop =>
    rw [hstop] at h
    obtain ⟨-, rfl⟩ := (checkedAdd_eq_some_iff ..).1 hstop
    obtain ⟨hle, h⟩ := guard_eq_ok.1 h
    cases h
    exact ⟨not_lt.1 hle, rfl, rfl⟩

theorem be16_sliceOf {l : List U8} {i : ℕ} (h : i + 2 ≤ l.length) :
    be16 (sliceOf l i (i + 2)) 0 = be16 l i := by
  have hlength := length_sliceOf_of_le (Nat.le_add_right i 2) h
  exact (@Carries.be16_inner l _ i 0 carries_sliceOf (by omega)).symm

theorem be32_sliceOf {l : List U8} {i : ℕ} (h : i + 4 ≤ l.length) :
    be32 (sliceOf l i (i + 4)) 0 = be32 l i := by
  have hlength := length_sliceOf_of_le (Nat.le_add_right i 4) h
  exact (@Carries.be32_inner l _ i 0 carries_sliceOf (by omega)).symm

theorem Cursor.u16_ok {v : U16} (h : c.u16 = .ok (v, d)) :
    c.place + 2 ≤ c.bytes.length ∧ v = be16 c.bytes c.place ∧ d = { c with place := c.place + 2 } := by
  obtain ⟨⟨b, e⟩, htake, h⟩ := bind_eq_ok.1 h
  obtain ⟨hle, rfl, rfl⟩ := take_ok htake
  cases h
  exact ⟨hle, be16_sliceOf hle, rfl⟩

theorem Cursor.u32_ok {v : U32} (h : c.u32 = .ok (v, d)) :
    c.place + 4 ≤ c.bytes.length ∧ v = be32 c.bytes c.place ∧ d = { c with place := c.place + 4 } := by
  obtain ⟨⟨b, e⟩, htake, h⟩ := bind_eq_ok.1 h
  obtain ⟨hle, rfl, rfl⟩ := take_ok htake
  cases h
  exact ⟨hle, be32_sliceOf hle, rfl⟩

def addressWidthOf (ipv6 : Bool) : ℕ := if ipv6 then 16 else 4

def IpAddr.isV6 : IpAddr → Bool
  | .v4 _ => false
  | .v6 _ => true

theorem address_ok {ipv6 : Bool} {a : IpAddr} (h : address c ipv6 = .ok (a, d)) :
    c.place + addressWidthOf ipv6 ≤ c.bytes.length ∧ a.isV6 = ipv6 ∧
      d = { c with place := c.place + addressWidthOf ipv6 } := by
  unfold address at h
  cases ipv6 with
  | true =>
    obtain ⟨⟨b, e⟩, htake, h⟩ := bind_eq_ok.1 h
    obtain ⟨hle, rfl, rfl⟩ := Cursor.take_ok htake
    cases h
    exact ⟨hle, rfl, rfl⟩
  | false =>
    obtain ⟨⟨b, e⟩, htake, h⟩ := bind_eq_ok.1 h
    obtain ⟨hle, rfl, rfl⟩ := Cursor.take_ok htake
    cases h
    exact ⟨hle, rfl, rfl⟩

theorem readAsn_ok {wide : Bool} {asn : U32} (h : readAsn c wide = .ok (asn, d)) :
    c.place + (if wide then 4 else 2) ≤ c.bytes.length ∧ (wide = false → asn.toNat ≤ 65535) ∧
      d = { c with place := c.place + if wide then 4 else 2 } := by
  unfold readAsn at h
  cases wide with
  | true =>
    obtain ⟨hle, -, rfl⟩ := Cursor.u32_ok h
    exact ⟨hle, by simp, rfl⟩
  | false =>
    obtain ⟨⟨v, e⟩, hread, h⟩ := bind_eq_ok.1 h
    obtain ⟨hle, -, rfl⟩ := Cursor.u16_ok hread
    cases h
    refine ⟨hle, fun _ => ?_, rfl⟩
    have := v.isLt
    rw [BitVec.toNat_setWidth, Nat.mod_eq_of_lt (by omega)]
    omega

end Cursors

section Messages

variable {body : List U8} {base : ℕ} {subtype : U16} {m m' : Meter} {outer message : Bgp4mp}
  {c : Cursor} {state : Bool}

/-- The octets in front of the payload of a BGP4MP record. -/
def headerLength (kind : Bgp4mpKind) (ipv6 : Bool) : ℕ :=
  kind.width.toNat * 2 + 4 + addressWidthOf ipv6 * 2

structure Headed (subtype : U16) (outer : Bgp4mp) (kind : Bgp4mpKind) (ipv6 : Bool) : Prop where
  known : bgp4mpKind subtype = some kind
  width : outer.asnWidth = kind.width
  source : outer.asnWidthSource = .bgp4mpSubtype
  locallyGenerated : outer.locallyGenerated = kind.locallyGenerated
  addPath : outer.addPath = kind.addPath
  peerAsn : kind.width = 2 → outer.peerAsn.toNat ≤ 65535
  localAsn : kind.width = 2 → outer.localAsn.toNat ≤ 65535
  afi : outer.addressAfi = if ipv6 then 2 else 1
  peerAddress : outer.peerAddress.isV6 = ipv6
  localAddress : outer.localAddress.isV6 = ipv6

theorem bgp4mpKind_width {kind : Bgp4mpKind} (h : bgp4mpKind subtype = some kind) :
    kind.width = 2 ∨ kind.width = 4 := by
  unfold bgp4mpKind at h
  split at h <;> cases h <;> simp

theorem asnWidth_eq {kind : Bgp4mpKind} (h : bgp4mpKind subtype = some kind) :
    (if decide (kind.width = 4) then 4 else 2) = kind.width.toNat := by
  obtain hw | hw := bgp4mpKind_width h <;> rw [hw] <;> rfl

theorem parseBgp4mpHeader_ok (h : parseBgp4mpHeader body base subtype = .ok (some (outer, c, state))) :
    ∃ kind ipv6, Headed subtype outer kind ipv6 ∧ state = kind.state ∧
      c = ⟨body, headerLength kind ipv6, base⟩ ∧ c.place ≤ body.length := by
  unfold parseBgp4mpHeader at h
  cases hkind : bgp4mpKind subtype with
  | none =>
    rw [hkind] at h
    cases h
  | some kind =>
    rw [hkind] at h
    have hwidth := asnWidth_eq hkind
    obtain ⟨⟨peerAsn, c1⟩, hpeerAsn, h⟩ := bind_eq_ok.1 h
    obtain ⟨⟨localAsn, c2⟩, hlocalAsn, h⟩ := bind_eq_ok.1 h
    obtain ⟨⟨interface, c3⟩, hinterface, h⟩ := bind_eq_ok.1 h
    obtain ⟨⟨afi, c4⟩, hafi, h⟩ := bind_eq_ok.1 h
    obtain ⟨-, hpeer, rfl⟩ := readAsn_ok hpeerAsn
    obtain ⟨-, hlocal, rfl⟩ := readAsn_ok hlocalAsn
    obtain ⟨-, -, rfl⟩ := Cursor.u16_ok hinterface
    obtain ⟨-, -, rfl⟩ := Cursor.u16_ok hafi
    dsimp only at h
    by_cases hfamily : afi ≠ 1 ∧ afi ≠ 2
    · rw [if_pos hfamily] at h
      cases h
    · rw [if_neg hfamily] at h
      obtain ⟨⟨peerAddress, c5⟩, hpeerAddress, h⟩ := bind_eq_ok.1 h
      obtain ⟨⟨localAddress, c6⟩, hlocalAddress, h⟩ := bind_eq_ok.1 h
      obtain ⟨-, hpeerFamily, rfl⟩ := address_ok hpeerAddress
      obtain ⟨hle, hlocalFamily, rfl⟩ := address_ok hlocalAddress
      cases h
      have hnarrow : kind.width = 2 → decide (kind.width = 4) = false := by
        intro hw
        rw [hw]
        rfl
      refine ⟨kind, decide (afi = 2), ⟨hkind, rfl, rfl, rfl, rfl, fun hw => hpeer (hnarrow hw),
        fun hw => hlocal (hnarrow hw), ?_, hpeerFamily, hlocalFamily⟩, rfl, ?_, hle⟩
      · by_cases htwo : afi = 2
        · simp [htwo]
        · have hone : afi = 1 := by
            by_contra hone
            exact hfamily ⟨hone, htwo⟩
          simp [hone]
      · unfold headerLength
        rw [← hwidth]
        simp only [Cursor.new]
        congr 1
        omega

theorem readPayload_message {bytes : List U8} {d : Cursor}
    (h : readPayload c state m = .ok (.message bytes, d, m')) :
    state = false ∧ bytes = c.bytes.drop c.place ∧ bytes ≠ [] := by
  unfold readPayload at h
  cases state with
  | true =>
    obtain ⟨⟨old, c1⟩, -, h⟩ := bind_eq_ok.1 h
    obtain ⟨⟨new, c2⟩, -, h⟩ := bind_eq_ok.1 h
    cases h
  | false =>
    obtain ⟨hne, h⟩ := guard_eq_ok.1 h
    obtain ⟨m1, -, h⟩ := bind_eq_ok.1 h
    cases h
    exact ⟨rfl, rfl, hne⟩

theorem parseBgp4mp_message {bytes : List U8}
    (h : parseBgp4mp body base subtype m = .ok (some (message, m')))
    (hpayload : message.payload = .message bytes) :
    ∃ kind ipv6, Headed subtype message kind ipv6 ∧ kind.state = false ∧
      headerLength kind ipv6 ≤ body.length ∧ bytes = body.drop (headerLength kind ipv6) ∧
        bytes ≠ [] := by
  obtain ⟨found, hheader, h⟩ := bind_eq_ok.1 h
  cases found with
  | none => cases h
  | some found =>
    obtain ⟨outer, c, state⟩ := found
    obtain ⟨⟨payload, d, m1⟩, hread, h⟩ := bind_eq_ok.1 h
    obtain ⟨_, -, h⟩ := bind_eq_ok.1 h
    cases h
    obtain ⟨kind, ipv6, hheaded, rfl, rfl, hle⟩ := parseBgp4mpHeader_ok hheader
    obtain rfl : payload = .message bytes := hpayload
    obtain ⟨hstate, hbytes, hne⟩ := readPayload_message hread
    refine ⟨kind, ipv6, ?_, hstate, hle, hbytes, hne⟩
    exact ⟨hheaded.known, hheaded.width, hheaded.source, hheaded.locallyGenerated, hheaded.addPath,
      hheaded.peerAsn, hheaded.localAsn, hheaded.afi, hheaded.peerAddress, hheaded.localAddress⟩

end Messages

section Ribs

variable {c d : Cursor} {m m' : Meter} {size count : ℕ} {table : Option Table} {rib : Rib}

theorem readEntry_ok {entry : RibEntry} (h : readEntry c size m = .ok (entry, d, m')) :
    entry.peerIndex.toNat < size := by
  obtain ⟨⟨index, c1⟩, -, h⟩ := bind_eq_ok.1 h
  obtain ⟨hsize, h⟩ := guard_eq_ok.1 h
  obtain ⟨⟨seconds, c2⟩, -, h⟩ := bind_eq_ok.1 h
  obtain ⟨⟨n, c3⟩, -, h⟩ := bind_eq_ok.1 h
  obtain ⟨⟨octets, c4⟩, -, h⟩ := bind_eq_ok.1 h
  obtain ⟨m1, -, h⟩ := bind_eq_ok.1 h
  obtain ⟨m2, -, h⟩ := bind_eq_ok.1 h
  cases h
  exact not_le.1 hsize

theorem readEntries_ok {entries : List RibEntry} (h : readEntries size count c m = .ok (entries, d, m')) :
    ∀ entry ∈ entries, entry.peerIndex.toNat < size := by
  induction count generalizing c m entries with
  | zero =>
    cases h
    simp
  | succ count ih =>
    obtain ⟨⟨entry, c1, m1⟩, hentry, h⟩ := bind_eq_ok.1 h
    obtain ⟨⟨more, c2, m2⟩, hmore, h⟩ := bind_eq_ok.1 h
    cases h
    intro e he
    obtain rfl | he := List.mem_cons.1 he
    · exact readEntry_ok hentry
    · exact ih hmore e he

structure Bound (rib : Rib) (table : Table) : Prop where
  offset : rib.peerTableOffset = table.offset
  sha256 : rib.peerTableSha256 = table.sha256
  indexes : ∀ entry ∈ rib.entries, entry.peerIndex.toNat < table.size

theorem parseRoutes_bound {body : List U8} {base : ℕ} {sequence : U32} {afi : U16} {safi : U8}
    (h : parseRoutes body base sequence afi safi c table m = .ok (rib, m')) :
    ∃ t, table = some t ∧ Bound rib t := by
  cases table with
  | none => cases h
  | some t =>
    obtain ⟨⟨p, c1⟩, -, h⟩ := bind_eq_ok.1 h
    obtain ⟨⟨count, c2⟩, -, h⟩ := bind_eq_ok.1 h
    obtain ⟨m1, -, h⟩ := bind_eq_ok.1 h
    obtain ⟨-, h⟩ := guard_eq_ok.1 h
    obtain ⟨⟨entries, c3, m2⟩, hentries, h⟩ := bind_eq_ok.1 h
    obtain ⟨_, -, h⟩ := bind_eq_ok.1 h
    cases h
    exact ⟨t, rfl, rfl, rfl, readEntries_ok hentries⟩

theorem parseRib_bound {body : List U8} {base : ℕ} {subtype : U16}
    (h : parseRib body base subtype table m = .ok (some (rib, m'))) :
    ∃ t, table = some t ∧ Bound rib t := by
  obtain ⟨⟨sequence, c1⟩, -, h⟩ := bind_eq_ok.1 h
  obtain ⟨⟨⟨afi, safi⟩, c2⟩, -, h⟩ := bind_eq_ok.1 h
  dsimp only at h
  split at h
  · cases h
  · cases hroutes : parseRoutes body base sequence afi safi c2 table m with
    | error e =>
      rw [hroutes] at h
      cases h
    | ok found =>
      rw [hroutes] at h
      cases h
      exact parseRoutes_bound hroutes

end Ribs

section Bodies

variable {payload : List U8} {start base : ℕ} {digest : Digest} {recordType subtype : U16}
  {table table' : Option Table} {m m' : Meter} {body : MrtBody}

def tableBehind (start : ℕ) (digest : Digest) (table : Option Table) : MrtBody → Option Table
  | .peerIndex index => some ⟨start, digest, index.peers.length⟩
  | _ => table

structure Bodied (payload : List U8) (start : ℕ) (digest : Digest) (recordType subtype : U16)
    (table : Option Table) (body : MrtBody) (table' : Option Table) : Prop where
  behind : table' = tableBehind start digest table body
  peers : ∀ index, body = .peerIndex index → recordType = 13 ∧ subtype = 1
  ribs : ∀ rib, body = .rib rib → recordType = 13 ∧ inSeries subtype ∧ ∃ t, table = some t ∧ Bound rib t
  messages : ∀ message bytes, body = .bgp4mp message → message.payload = .message bytes →
    (recordType = 16 ∨ recordType = 17) ∧ ∃ kind ipv6, Headed subtype message kind ipv6 ∧
      kind.state = false ∧ headerLength kind ipv6 ≤ payload.length ∧
        bytes = payload.drop (headerLength kind ipv6) ∧ bytes ≠ []

theorem opaquely_ok {reason : String} (h : opaquely reason payload table m = .ok (body, table', m')) :
    body = .opaqueBody reason payload ∧ table' = table := by
  obtain ⟨m1, -, h⟩ := bind_eq_ok.1 h
  cases h
  exact ⟨rfl, rfl⟩

theorem opaquely_bodied {kept : List U8} {reason : String}
    (h : opaquely reason kept table m = .ok (body, table', m')) :
    Bodied payload start digest recordType subtype table body table' := by
  obtain ⟨rfl, rfl⟩ := opaquely_ok h
  constructor
  · rfl
  · intro index hbody
    cases hbody
  · intro rib hbody
    cases hbody
  · intro message bytes hbody
    cases hbody

theorem decodeBody_bodied
    (h : decodeBody payload start base digest recordType subtype table m = .ok (body, table', m')) :
    Bodied payload start digest recordType subtype table body table' := by
  unfold decodeBody at h
  split at h
  · next hpeers =>
    obtain ⟨⟨index, m1⟩, -, h⟩ := bind_eq_ok.1 h
    cases h
    constructor
    · rfl
    · intro _ _
      exact hpeers
    · intro rib hbody
      cases hbody
    · intro message bytes hbody
      cases hbody
  split at h
  · next hribs =>
    obtain ⟨found, hrib, h⟩ := bind_eq_ok.1 h
    cases found with
    | none => exact opaquely_bodied h
    | some found =>
      obtain ⟨rib, m1⟩ := found
      cases h
      constructor
      · rfl
      · intro index hbody
        cases hbody
      · intro rib' hbody
        cases hbody
        refine ⟨hribs.1, ?_, parseRib_bound hrib⟩
        obtain hsubtype | hsubtype | hsubtype := hribs.2 <;> rw [hsubtype] <;> rfl
      · intro message bytes hbody
        cases hbody
  split at h
  · next htype =>
    cases hparse : parseBgp4mp payload base subtype m with
    | error e =>
      rw [hparse] at h
      dsimp only at h
      split at h
      · cases h
      · exact opaquely_bodied h
    | ok found =>
      rw [hparse] at h
      cases found with
      | none => exact opaquely_bodied h
      | some found =>
        obtain ⟨message, m1⟩ := found
        cases h
        constructor
        · rfl
        · intro index hbody
          cases hbody
        · intro rib hbody
          cases hbody
        · intro message' bytes hbody hmessage
          cases hbody
          exact ⟨htype, parseBgp4mp_message hparse hmessage⟩
  · exact opaquely_bodied h

end Bodies

section Records

variable {raw : List U8} {offset : ℕ} {table table' : Option Table} {m m' : Meter} {record : MrtRecord}

def extension (recordType : U16) : ℕ := if recordType = 17 then 4 else 0

structure Decoded (raw : List U8) (offset : ℕ) (table : Option Table) (record : MrtRecord)
    (table' : Option Table) : Prop where
  place : record.offset = offset
  length : record.length.toNat + 12 = raw.length
  sha256 : record.sha256 = Sha256.digest raw
  header : Carries raw 0 (MrtBatch.headerBytes record)
  time : ∀ us, record.time.microseconds = some us → Carries raw 12 (Endian.big.putU32 us)
  behind : table' = tableBehind offset record.sha256
    (seriesTable record.recordType record.subtype table) record.body
  peers : ∀ index, record.body = .peerIndex index → record.recordType = 13 ∧ record.subtype = 1
  ribs : ∀ rib, record.body = .rib rib → record.recordType = 13 ∧ inSeries record.subtype ∧
    ∃ t, table = some t ∧ Bound rib t
  messages : ∀ message bytes, record.body = .bgp4mp message → message.payload = .message bytes →
    (record.recordType = 16 ∨ record.recordType = 17) ∧
      decide (record.recordType = 17) = record.time.microseconds.isSome ∧
        ∃ kind ipv6, Headed record.subtype message kind ipv6 ∧ kind.state = false ∧
          12 + extension record.recordType + headerLength kind ipv6 ≤ raw.length ∧
            bytes = raw.drop (12 + extension record.recordType + headerLength kind ipv6) ∧ bytes ≠ []

theorem readMicroseconds_ok {recordType : U16} {payload : List U8} {found : Option U32}
    (h : readMicroseconds recordType payload offset = .ok found) :
    (found = none ∧ ¬ (recordType = 17 ∧ ¬ payload.length < 4)) ∨
      (found = some (be32 payload 0) ∧ recordType = 17 ∧ 4 ≤ payload.length) := by
  unfold readMicroseconds at h
  split at h
  · next hextended =>
    obtain ⟨⟨us, c⟩, hread, h⟩ := bind_eq_ok.1 h
    obtain ⟨-, rfl, -⟩ := Cursor.u32_ok hread
    cases h
    exact .inr ⟨rfl, hextended.1, not_lt.1 hextended.2⟩
  · next hplain =>
    cases h
    exact .inl ⟨rfl, hplain⟩

theorem decodePayload_bodied {payload : List U8} {digest : Digest} {recordType subtype : U16}
    {found : Option U32} {body : MrtBody} (htime : readMicroseconds recordType payload offset = .ok found)
    (h : decodePayload payload offset digest recordType subtype found table m = .ok (body, table', m')) :
    Bodied (payload.drop (extension recordType)) offset digest recordType subtype table body table' ∧
      (∀ message, body = .bgp4mp message →
        decide (recordType = 17) = found.isSome ∧ extension recordType ≤ payload.length) := by
  unfold decodePayload at h
  split at h
  · obtain ⟨rfl, -⟩ := opaquely_ok h
    refine ⟨opaquely_bodied h, ?_⟩
    intro message hbody
    cases hbody
  · next hshort =>
    obtain ⟨rfl, hplain⟩ | ⟨rfl, htype, hlength⟩ := readMicroseconds_ok htime
    · have htype : recordType ≠ 17 := by
        intro htype
        exact hplain ⟨htype, fun hless => hshort ⟨htype, hless⟩⟩
      have hnone : extension recordType = 0 := if_neg htype
      rw [hnone]
      refine ⟨decodeBody_bodied h, fun _ _ => ⟨?_, Nat.zero_le _⟩⟩
      exact decide_eq_false htype
    · have hsome : extension recordType = 4 := if_pos htype
      rw [hsome]
      refine ⟨decodeBody_bodied h, fun _ _ => ⟨?_, hlength⟩⟩
      exact decide_eq_true htype

theorem seriesTable_eq_some {recordType subtype : U16} {t : Table}
    (h : seriesTable recordType subtype table = some t) : table = some t := by
  unfold seriesTable at h
  split at h
  · cases h
  · exact h

theorem take_carries {k : ℕ} : Carries raw 0 (raw.take k) :=
  List.take_prefix k raw

theorem decodeRecord_ok (h : decodeRecord raw offset table m = .ok (record, table', m')) :
    Decoded raw offset table record table' := by
  obtain ⟨-, h⟩ := guard_eq_ok.1 h
  obtain ⟨hheader, h⟩ := guard_eq_ok.1 h
  obtain ⟨hlength, h⟩ := guard_eq_ok.1 h
  obtain ⟨⟨seconds, h1⟩, hseconds, h⟩ := bind_eq_ok.1 h
  obtain ⟨⟨recordType, h2⟩, htype, h⟩ := bind_eq_ok.1 h
  obtain ⟨⟨subtype, h3⟩, hsubtype, h⟩ := bind_eq_ok.1 h
  obtain ⟨⟨declared, h4⟩, hdeclared, h⟩ := bind_eq_ok.1 h
  obtain ⟨-, h⟩ := guard_eq_ok.1 h
  obtain ⟨found, htime, h⟩ := bind_eq_ok.1 h
  obtain ⟨⟨body, t, m1⟩, hbody, h⟩ := bind_eq_ok.1 h
  cases h
  push Not at hheader hlength
  obtain ⟨-, rfl, rfl⟩ := Cursor.u32_ok hseconds
  obtain ⟨-, rfl, rfl⟩ := Cursor.u16_ok htype
  obtain ⟨-, rfl, rfl⟩ := Cursor.u16_ok hsubtype
  have htwelve : (raw.take 12).length = 12 := by
    rw [List.length_take]
    omega
  dsimp only [Cursor.new, Nat.zero_add, Nat.reduceAdd] at htime hbody ⊢
  obtain ⟨hbodied, hextended⟩ := decodePayload_bodied htime hbody
  have hseconds' : be32 (raw.take 12) 0 = be32 raw 0 := (take_carries.be32_inner (by omega)).symm
  have htype' : be16 (raw.take 12) 4 = be16 raw 4 := (take_carries.be16_inner (by omega)).symm
  have hsubtype' : be16 (raw.take 12) 6 = be16 raw 6 := (take_carries.be16_inner (by omega)).symm
  constructor
  · rfl
  · exact hlength
  · rfl
  · unfold MrtBatch.headerBytes
    dsimp only
    rw [carries_append, carries_append, carries_append, carries_putU32, carries_putU16, carries_putU16,
      carries_putU32]
    refine ⟨⟨⟨⟨by omega, hseconds'.symm⟩, ?_, htype'.symm⟩, ?_, hsubtype'.symm⟩, ?_, rfl⟩
    all_goals simp
    all_goals omega
  · intro us hus
    dsimp only at hus
    subst hus
    obtain ⟨hnone, -⟩ | ⟨hsome, -, hfour⟩ := readMicroseconds_ok htime
    · cases hnone
    · obtain rfl := Option.some.inj hsome
      have hdrop : Carries raw 12 (raw.drop 12) := List.prefix_refl _
      rw [List.length_drop] at hfour
      rw [carries_putU32]
      exact ⟨by omega, @Carries.be32_inner raw _ 12 0 hdrop (by rw [List.length_drop]; omega)⟩
  · exact hbodied.behind
  · exact hbodied.peers
  · intro rib hrib
    obtain ⟨htypeRib, hseries, t, htable, hbound⟩ := hbodied.ribs rib hrib
    exact ⟨htypeRib, hseries, t, seriesTable_eq_some htable, hbound⟩
  · intro message bytes hmessage hpayload
    obtain ⟨htypes, kind, ipv6, hheaded, hstate, hle, hbytes, hne⟩ :=
      hbodied.messages message bytes hmessage hpayload
    obtain ⟨hsome, hextension⟩ := hextended message hmessage
    refine ⟨htypes, hsome, kind, ipv6, hheaded, hstate, ?_, ?_, hne⟩
    · rw [List.length_drop, List.length_drop] at hle
      rw [List.length_drop] at hextension
      dsimp only
      omega
    · rw [hbytes, List.drop_drop, List.drop_drop, Nat.add_assoc]

end Records

end PcapEvidence.MrtContainer
