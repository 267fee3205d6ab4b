import PcapEvidence.HistoryCanonical
import PcapEvidence.JournalRoundTrip

/-!
# What the journal reader accepts

The round trip says that the reader accepts what the writer wrote. Here is the converse: a header
that opens and a record that is read have the shape of written ones, so a file that reads to its
end is a header and a chain of frames.
-/

namespace PcapEvidence.History

open Method ByteCodec IterTrace

variable {sha256 : List U8 → Digest}

theorem run_ok {α : Type} {m : DecoderM α} {b : List U8} {v : α} (h : Decoder.run m b = .ok v) :
    ∃ t, m b = (.ok v, t) := by
  rcases hm : m b with ⟨result, t⟩
  rw [Decoder.run, hm] at h
  exact ⟨t, congrArg (·, t) h⟩

theorem decodeTag_ok {payload rest : List U8} {kind : U8} {seq : ℕ}
    (h : Decoder.run Reader.decodeTag payload = .ok (kind, seq, rest)) :
    payload = Writer.payloadOf kind seq rest ∧ seq < 2 ^ 64 := by
  obtain ⟨t, hm⟩ := run_ok h
  obtain ⟨k, s₁, hk, hm⟩ := bind_ok hm
  obtain ⟨v, s₂, hv, hm⟩ := bind_ok hm
  rw [read_bind] at hm
  cases hm
  have hlt := v.isLt
  refine ⟨?_, hlt⟩
  rw [takes_u8 _ _ _ hk, takes_u64 _ _ _ hv, Writer.payloadOf, BitVec.ofNat_toNat, BitVec.setWidth_eq,
    List.append_assoc]

theorem decodeRest_ok {n : ℕ} {rest body : List U8}
    (h : Decoder.run (Reader.decodeRest n) rest = .ok body) : body = rest := by
  obtain ⟨t, hm⟩ := run_ok h
  obtain ⟨b, s₁, hb, hm⟩ := bind_ok hm
  obtain ⟨⟨⟩, s₂, hfinish, hm⟩ := bind_ok hm
  cases hm
  rw [Decoder.finish, read_bind] at hfinish
  by_cases hnil : s₁ = []
  · obtain ⟨rfl, -⟩ := take_ok hb
    rw [hnil, List.append_nil]
  · rw [if_neg hnil] at hfinish
    cases hfinish

namespace Reader

variable {r t : Reader}

theorem exact_ok_inv {n : ℕ} {a : List U8} (h : exact n r = (.ok a, t)) :
    ∃ b, r.unread = a ++ b ∧ a.length = n ∧ t = r.reading b := by
  rw [exact, History.exact] at h
  by_cases hle : n ≤ r.unread.length
  · rw [if_pos hle] at h
    cases h
    exact ⟨r.unread.drop n, (List.take_append_drop n _).symm, List.length_take_of_le hle, rfl⟩
  · rw [if_neg hle] at h
    cases h

theorem readBody_ok {length : List U8} {x : Record} (hlength : length.length = 4)
    (h : readBody sha256 length r = (.ok x, t)) :
    r.Framed x.kind x.body ∧ x = recordAt sha256 r x.kind x.body ∧ length = lengthField x.body ∧
      ∃ rest, r.unread = Writer.payloadOf x.kind (r.count + 1) x.body ++
        ((frameDigest sha256 r.previous r.count x.kind x.body).toList ++ rest) ∧
        t = r.advance x rest := by
  rw [readBody, read_bind] at h
  obtain ⟨hlimits, h⟩ := guard_ok h
  obtain ⟨payload, r₁, hpayload, h⟩ := bind_ok h
  obtain ⟨rest₁, hunread, hplen, rfl⟩ := exact_ok_inv hpayload
  obtain ⟨stored, r₂, hstored, h⟩ := bind_ok h
  obtain ⟨rest, hrest, hslen, rfl⟩ := exact_ok_inv hstored
  obtain ⟨hdigest, h⟩ := guard_ok h
  obtain ⟨⟨kind, seq, body⟩, htag, h⟩ := lift_bind_ok h
  obtain ⟨hseq, h⟩ := guard_ok h
  obtain ⟨b, hb, h⟩ := lift_bind_ok h
  obtain ⟨position, hposition, h⟩ := lift_bind_ok h
  obtain ⟨hroom, rfl⟩ := (checkedAdd_eq_some_iff _ _ _).1 (okOr_eq_ok_iff.1 hposition)
  cases decodeRest_ok hb
  obtain ⟨rfl, -⟩ := decodeTag_ok htag
  push Not at hlimits hdigest hseq
  obtain ⟨rfl, hkind⟩ := hseq
  rw [length_payloadOf] at hplen
  have hfield : length = lengthField body := by
    have hlt := leNat_lt length
    rw [hlength] at hlt
    have hnat : (BitVec.ofNat 32 (body.length + 9)).toNat = leNat length := by
      rw [hplen, BitVec.toNat_ofNat, Nat.mod_eq_of_lt (by omega)]
    rw [lengthField, Encoder.u32, hnat, ← hlength, leBytes_leNat]
  have hwhole : r.unread = Writer.payloadOf kind (r.count + 1) body ++
      ((frameDigest sha256 r.previous r.count kind body).toList ++ rest) := by
    rw [hunread, frameDigest, ← hfield]
    exact congrArg _ (hrest.trans (by rw [← hdigest]))
  have hsize : leNat length + 36 = body.length + 45 := by omega
  cases h
  rw [hsize] at hroom
  refine ⟨⟨hkind, by rw [hplen]; exact hlimits.1.2, hlimits.2, hroom⟩, ?_, hfield, rest, hwhole, ?_⟩
  · rw [hfield]
    rfl
  · rw [hsize, hfield]
    rfl

theorem readRecord_cases (hended : r.ended = false) {out : Option Record}
    (h : readRecord sha256 r = (.ok out, t)) :
    (out = none ∧ r.unread = []) ∨
      ∃ first unread three rest x, r.sealed = false ∧ r.aborted = false ∧ out = some x ∧
        r.unread = first :: unread ∧ unread = three ++ rest ∧ three.length = 3 ∧
        readBody sha256 (first :: three) (r.reading rest) = (.ok x, t) := by
  rw [readRecord, read_bind, if_neg (by simp [hended])] at h
  cases hunread : r.unread with
  | nil =>
    rw [hunread] at h
    cases h
    exact Or.inl ⟨rfl, rfl⟩
  | cons first unread =>
    rw [hunread] at h
    right
    change (do
      update (fun r => r.reading unread)
      if r.sealed ∨ r.aborted then _ else _ : Method Reader Error (Option Record)) r = _ at h
    rw [update_bind] at h
    obtain ⟨hrunning, h⟩ := guard_ok h
    obtain ⟨three, r₁, hthree, h⟩ := bind_ok h
    obtain ⟨rest, hrest, hlen, rfl⟩ := exact_ok_inv hthree
    obtain ⟨x, r₂, hx, h⟩ := bind_ok h
    cases h
    push Not at hrunning
    exact ⟨first, unread, three, rest, x, by simpa using hrunning.1, by simpa using hrunning.2,
      rfl, rfl, hrest, hlen, hx⟩

theorem next_ok_inv (hended : r.ended = false) (hc : r.header.config.Valid) {x : Record}
    (h : next sha256 r = (some (.ok x), t)) :
    r.Running ∧ r.Framed x.kind x.body ∧ x = recordAt sha256 r x.kind x.body ∧
      ∃ rest, r.unread = frame sha256 r.previous r.count x.kind x.body ++ rest ∧
        t = r.advance x rest := by
  rw [next, nextRecord] at h
  rcases hread : readRecord sha256 r with ⟨out, u⟩
  rw [hread] at h
  cases out with
  | error e => cases h
  | ok out =>
    cases out with
    | none => cases h
    | some y =>
      cases h
      rcases readRecord_cases hended hread with ⟨hnone, -⟩ |
        ⟨first, unread, three, rest, y, hsealed, haborted, hy, hunread, hthree, hlen, hbody⟩
      · cases hnone
      · cases hy
        have hlength : (first :: three).length = 4 := by rw [List.length_cons, hlen]
        obtain ⟨hframed, hx, hfield, tail, htail, ht⟩ :=
          readBody_ok (r := r.reading rest) hlength hbody
        have htail' : rest = Writer.payloadOf x.kind (r.count + 1) x.body ++
            ((frameDigest sha256 r.previous r.count x.kind x.body).toList ++ tail) := htail
        refine ⟨⟨hc, hsealed, haborted, hended⟩, ⟨hframed.kind, hframed.length, hframed.count,
          hframed.position⟩, hx, tail, ?_, ht⟩
        rw [hunread, hthree, ← List.cons_append, hfield, htail', frame]
        simp only [List.append_assoc]

theorem next_none_inv (hended : r.ended = false) (h : (next sha256 r).1 = none) : r.unread = [] := by
  rw [next, nextRecord] at h
  rcases hread : readRecord sha256 r with ⟨out, u⟩
  rw [hread] at h
  cases out with
  | error e => cases h
  | ok out =>
    cases out with
    | none =>
      rcases readRecord_cases hended hread with ⟨-, hunread⟩ | ⟨_, _, _, _, _, _, _, hy, -⟩
      · exact hunread
      · cases hy
    | some y => cases h

theorem frames_of_drains {records : List Record} (hended : r.ended = false)
    (hc : r.header.config.Valid) (h : Drains (next sha256) r records none) :
    Frames sha256 r.header.config r.previous r.count r.position records r.unread := by
  generalize hstop : (none : Option Error) = stop at h
  induction h with
  | done hnone _ =>
    rw [next_none_inv hended hnone]
    exact .nil _ _ _
  | failed _ _ => cases hstop
  | @item s x xs stop hitem hrest ih =>
    rcases hnext : next sha256 s with ⟨out, t⟩
    rw [hnext] at hitem hrest ih
    simp only at hitem
    rw [hitem] at hnext
    obtain ⟨hrun, hframed, hx, rest, hunread, rfl⟩ := next_ok_inv hended hc hnext
    have htail := ih hended hc hstop
    rw [hunread, hx]
    refine .cons hframed.kind hframed.length hframed.count hframed.position ?_ ?_
    · -- behind a terminal record the reader accepts nothing
      intro hterminal
      cases hrest with
      | done _ _ => rfl
      | failed _ _ => cases hstop
      | @item _ y ys _ hitem' _ =>
        rcases hnext' : next sha256 (s.advance x rest) with ⟨out', t'⟩
        rw [hnext'] at hitem'
        simp only at hitem'
        rw [hitem'] at hnext'
        obtain ⟨hrunning, -⟩ := next_ok_inv (r := s.advance x rest) hended hc hnext'
        rcases hterminal with hk | hk
        · have habort := hrunning.running.2.1
          simp [advance, hk] at habort
        · have hseal := hrunning.running.1
          simp [advance, hk] at hseal
    · rw [hx] at htail
      exact htail

theorem config_valid {b : List U8} {c : Config} (h : Config.decode b = .ok c) : c.Valid := by
  obtain ⟨t, hm⟩ := run_ok h
  obtain ⟨engine, s₁, -, hm⟩ := bind_ok hm
  obtain ⟨-, hm⟩ := guard_ok hm
  obtain ⟨v, s₂, -, hm⟩ := bind_ok hm
  obtain ⟨-, hm⟩ := guard_ok hm
  obtain ⟨policy, s₃, -, hm⟩ := bind_ok hm
  obtain ⟨⟨⟩, s₄, -, hm⟩ := bind_ok hm
  obtain ⟨⟨⟩, hvalid, hm⟩ := lift_bind_ok hm
  cases hm
  exact Config.validate_ok hvalid

theorem decodeHeader_valid {body : List U8} {source : SourceIdentity} {c : Config}
    (h : Decoder.run decodeHeader body = .ok (source, c)) : c.Valid := by
  obtain ⟨t, hm⟩ := run_ok h
  obtain ⟨sha, s₁, -, hm⟩ := bind_ok hm
  obtain ⟨bytes, s₂, -, hm⟩ := bind_ok hm
  obtain ⟨blob, s₃, -, hm⟩ := bind_ok hm
  obtain ⟨config, hconfig, hm⟩ := lift_bind_ok hm
  obtain ⟨⟨⟩, s₄, -, hm⟩ := bind_ok hm
  cases hm
  exact config_valid hconfig

theorem source_exact_ok {n : ℕ} {s t a : List U8} (h : History.exact n s = (.ok a, t)) :
    s = a ++ t ∧ a.length = n := by
  rw [History.exact] at h
  by_cases hle : n ≤ s.length
  · rw [if_pos hle] at h
    cases h
    exact ⟨(List.take_append_drop n s).symm, List.length_take_of_le hle⟩
  · rw [if_neg hle] at h
    cases h

theorem open_ok {b : List U8} (h : Reader.open sha256 b = .ok r) :
    ∃ front, b = front ++ (r.header.digest.toList ++ r.unread) ∧
      front.length + 32 = r.header.bytes ∧ r.header.config.Valid ∧
      r = opened b r.unread r.header ∧
      ∀ rest, Reader.open sha256 (front ++ (r.header.digest.toList ++ rest)) =
        .ok (opened (front ++ (r.header.digest.toList ++ rest)) rest r.header) := by
  rw [Reader.open] at h
  rcases hm : openM sha256 b b with ⟨result, t⟩
  rw [hm] at h
  simp only at h
  rw [h, openM] at hm
  obtain ⟨front, s₁, hfront, hm⟩ := bind_ok hm
  obtain ⟨rfl, hflen⟩ := source_exact_ok hfront
  obtain ⟨hmagic, hm⟩ := guard_ok hm
  obtain ⟨hsize, hm⟩ := guard_ok hm
  obtain ⟨body, s₂, hbody, hm⟩ := bind_ok hm
  obtain ⟨rfl, hblen⟩ := source_exact_ok hbody
  obtain ⟨stored, s₃, hstored, hm⟩ := bind_ok hm
  obtain ⟨rfl, hslen⟩ := source_exact_ok hstored
  obtain ⟨hdigest, hm⟩ := guard_ok hm
  obtain ⟨⟨source, config⟩, hheader, hm⟩ := lift_bind_ok hm
  obtain ⟨hsource, hm⟩ := guard_ok hm
  rw [read_bind] at hm
  cases hm
  have hstored' : (sha256 (front ++ body)).toList = stored := not_not.1 hdigest
  refine ⟨front ++ body, ?_, ?_, decodeHeader_valid hheader, rfl, fun rest => ?_⟩
  · rw [hstored', List.append_assoc]
  · rw [List.length_append, hflen, hblen]
  · rw [Reader.open, openM]
    simp only [hstored']
    generalize hcontents : front ++ body ++ (stored ++ rest) = contents
    rw [← hcontents, List.append_assoc, bind_of_ok (exact_ok hflen),
      if_neg hmagic, if_neg hsize, bind_of_ok (exact_ok hblen), bind_of_ok (exact_ok hslen),
      if_neg hdigest, lift_bind hheader]
    simp only
    rw [if_neg hsource]
    rfl

end Reader

end PcapEvidence.History
