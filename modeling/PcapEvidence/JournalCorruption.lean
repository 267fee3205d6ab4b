import PcapEvidence.JournalAccepts
import PcapEvidence.Sha256Numbers

/-!
# Changed bytes in a journal

When one byte of a record is changed, the records before it still read. Without hash collisions the
file can then not read to its end, since its last digest binds all that precedes it; what decides
between corruption and a torn tail is whether a length field sends the reader past the end.
-/

namespace PcapEvidence.History

open Method ByteCodec IterTrace

variable {sha256 : List U8 → Digest}

def Torn (c : Config) (count : ℕ) (bytes : List U8) : Prop :=
  bytes ≠ [] ∧ (bytes.length < 4 ∨ (count < c.maxRecords.toNat ∧ 9 ≤ leNat (bytes.take 4) ∧
    leNat (bytes.take 4) ≤ c.maxRecordBytes ∧ bytes.length < leNat (bytes.take 4) + 36))

instance (c : Config) (count : ℕ) (bytes : List U8) : Decidable (Torn c count bytes) :=
  inferInstanceAs (Decidable (_ ∧ _))

/-- Bytes that lead past the end of the file, at once or behind whole records. -/
inductive RunsPast (sha256 : List U8 → Digest) (c : Config) : Digest → ℕ → List U8 → Prop
  | torn {previous : Digest} {count : ℕ} {bytes : List U8} (h : Torn c count bytes) :
      RunsPast sha256 c previous count bytes
  | behind {previous : Digest} {count : ℕ} {kind : U8} {body bytes : List U8}
      (hkind : kind ∈ recordKinds) (hopen : ¬ (kind = ABORT ∨ kind = SEAL))
      (hlen : body.length + 9 ≤ c.maxRecordBytes) (hcount : count < c.maxRecords.toNat)
      (h : RunsPast sha256 c (frameDigest sha256 previous count kind body) (count + 1) bytes) :
      RunsPast sha256 c previous count (frame sha256 previous count kind body ++ bytes)

section Shape

variable {body' : List U8}
variable {c : Config} {previous : Digest} {count : ℕ} {kind : U8} {body bytes : List U8}

theorem frame_append (bytes : List U8) :
    frame sha256 previous count kind body ++ bytes = lengthField body ++
      (Writer.payloadOf kind (count + 1) body ++
        ((frameDigest sha256 previous count kind body).toList ++ bytes)) := by
  simp only [frame, List.append_assoc]

theorem not_torn_of_field (hc : c.Valid) (hlen : body.length + 9 ≤ c.maxRecordBytes)
    {tail : List U8} (htail : body.length + 41 ≤ tail.length) :
    ¬ Torn c count (lengthField body ++ tail) := by
  have hfield := leNat_lengthField hc hlen
  rintro ⟨-, hshort | ⟨-, -, -, hshort⟩⟩
  · rw [List.length_append, length_lengthField] at hshort
    omega
  · rw [List.take_left' (length_lengthField body), hfield, List.length_append,
      length_lengthField] at hshort
    omega

theorem payloadOf_inj {kind' : U8} {seq : ℕ}
    (h : Writer.payloadOf kind seq body = Writer.payloadOf kind' seq body') :
    kind = kind' ∧ body = body' := by
  simp only [Writer.payloadOf, Encoder.u8, List.cons_append, List.nil_append,
    List.cons.injEq] at h
  exact ⟨h.1, List.append_cancel_left h.2⟩

theorem length_eq_of_field (hc : c.Valid)
    (hlen : body.length + 9 ≤ c.maxRecordBytes) (hlen' : body'.length + 9 ≤ c.maxRecordBytes)
    (h : lengthField body = lengthField body') : body.length = body'.length := by
  have hfield := leNat_lengthField hc hlen
  rw [h, leNat_lengthField hc hlen'] at hfield
  omega

theorem frame_inj {kind' : U8} {bytes' : List U8} (hc : c.Valid)
    (hlen : body.length + 9 ≤ c.maxRecordBytes) (hlen' : body'.length + 9 ≤ c.maxRecordBytes)
    (h : frame sha256 previous count kind body ++ bytes =
      frame sha256 previous count kind' body' ++ bytes') :
    kind = kind' ∧ body = body' ∧ bytes = bytes' := by
  rw [frame_append, frame_append] at h
  obtain ⟨hfield, h⟩ := List.append_inj h (by simp)
  have hsame := length_eq_of_field hc hlen hlen' hfield
  obtain ⟨hpayload, h⟩ := List.append_inj h (by simp [hsame])
  obtain ⟨rfl, rfl⟩ := payloadOf_inj hpayload
  exact ⟨rfl, rfl, List.append_cancel_left h⟩

theorem not_runsPast_nil : ¬ RunsPast sha256 c previous count [] := by
  intro h
  generalize hnil : ([] : List U8) = bytes at h
  cases h with
  | torn h => exact h.1 hnil.symm
  | behind => simp [frame, lengthField, Encoder.u32, leBytes] at hnil

theorem runsPast_frame (hc : c.Valid) (hkind : kind ∈ recordKinds)
    (hlen : body.length + 9 ≤ c.maxRecordBytes) (hcount : count < c.maxRecords.toNat) :
    RunsPast sha256 c previous count (frame sha256 previous count kind body ++ bytes) ↔
      ¬ (kind = ABORT ∨ kind = SEAL) ∧
        RunsPast sha256 c (frameDigest sha256 previous count kind body) (count + 1) bytes := by
  constructor
  · intro h
    generalize hbytes : frame sha256 previous count kind body ++ bytes = all at h
    cases h with
    | torn h =>
      subst hbytes
      rw [frame_append] at h
      exact absurd h (not_torn_of_field hc hlen (by simp; omega))
    | behind _ hopen hlen' _ h =>
      obtain ⟨rfl, rfl, rfl⟩ := frame_inj hc hlen hlen' hbytes
      exact ⟨hopen, h⟩
  · rintro ⟨hopen, h⟩
    exact .behind hkind hopen hlen hcount h

theorem not_runsPast_of_mismatch (hc : c.Valid) (hlen : body.length + 9 ≤ c.maxRecordBytes)
    {payload stored : List U8} (hpayload : payload.length = body.length + 9)
    (hstored : stored.length = 32)
    (hne : (chainHash sha256 previous (lengthField body) payload).toList ≠ stored) :
    ¬ RunsPast sha256 c previous count (lengthField body ++ (payload ++ (stored ++ bytes))) := by
  intro h
  generalize hall : lengthField body ++ (payload ++ (stored ++ bytes)) = all at h
  cases h with
  | torn h =>
    subst hall
    exact not_torn_of_field hc hlen (by simp only [List.length_append]; omega) h
  | @behind _ _ kind' body' bytes' _ _ hlen' _ _ =>
    rw [frame_append] at hall
    obtain ⟨hfield, hbehind⟩ := List.append_inj hall (by simp)
    have hsame := length_eq_of_field hc hlen hlen' hfield
    obtain ⟨rfl, hdigest⟩ := List.append_inj hbehind (by rw [hpayload, length_payloadOf, hsame])
    obtain ⟨rfl, -⟩ := List.append_inj hdigest (by rw [hstored, Vector.length_toList])
    exact hne (by rw [frameDigest, hfield])

end Shape

theorem decodeTag_of_length {payload : List U8} (h : 9 ≤ payload.length) :
    ∃ kind seq, Decoder.run Reader.decodeTag payload = .ok (kind, seq, payload.drop 9) := by
  obtain ⟨kind, rest, rfl⟩ : ∃ kind rest, payload = kind :: rest := by
    cases payload with
    | nil => cases h
    | cons kind rest => exact ⟨kind, rest, rfl⟩
  have hsplit : kind :: rest = Encoder.u8 kind ++ (Encoder.u64 (BitVec.ofNat 64
      (leNat (rest.take 8))) ++ rest.drop 8) := by
    have hlen : (rest.take 8).length = 8 := List.length_take_of_le (by simpa using h)
    have hlt := leNat_lt (rest.take 8)
    rw [hlen] at hlt
    have hnat : (BitVec.ofNat 64 (leNat (rest.take 8))).toNat = leNat (rest.take 8) := by
      rw [BitVec.toNat_ofNat, Nat.mod_eq_of_lt (by omega)]
    have hfield : Encoder.u64 (BitVec.ofNat 64 (leNat (rest.take 8))) = rest.take 8 := by
      have hinv := leBytes_leNat (rest.take 8)
      rw [hlen] at hinv
      rw [Encoder.u64, hnat, hinv]
    rw [hfield, List.take_append_drop]
    rfl
  refine ⟨kind, (BitVec.ofNat 64 (leNat (rest.take 8))).toNat, ?_⟩
  conv_lhs => rw [hsplit]
  rw [Decoder.run, Reader.decodeTag, bind_of_ok (reads_u8 kind _), bind_of_ok (reads_u64 _ _),
    read_bind, List.drop_succ_cons]
  rfl

namespace Reader

variable {r t : Reader} {length payload tail unread : List U8} {e : Error}

theorem readBody_error (hpayload : payload.length = leNat length) {stored rest : List U8}
    (hstored : stored.length = 32)
    (h : readBody sha256 length (r.reading (payload ++ (stored ++ rest))) = (.error e, t)) :
    e.code ≠ .truncated := by
  rw [readBody, read_bind] at h
  by_cases hlimits : ¬ (9 ≤ leNat length ∧ leNat length ≤
      (r.reading (payload ++ (stored ++ rest))).header.config.maxRecordBytes) ∨
      (r.reading (payload ++ (stored ++ rest))).count ≥
        (r.reading (payload ++ (stored ++ rest))).header.config.maxRecords.toNat
  · rw [if_pos hlimits] at h
    cases h
    simp [Error.limit]
  rw [if_neg hlimits, bind_of_ok (exact_append hpayload), bind_of_ok (exact_append hstored)] at h
  by_cases hdigest : (chainHash sha256 (r.reading (payload ++ (stored ++ rest))).previous length
      payload).toList ≠ stored
  · rw [if_pos hdigest] at h
    cases h
    simp [bad]
  have hnine : 9 ≤ payload.length := by
    push Not at hlimits
    rw [hpayload]
    exact hlimits.1.1
  obtain ⟨kind, seq, htag⟩ := decodeTag_of_length hnine
  rw [if_neg hdigest, lift_bind htag] at h
  simp only at h
  by_cases hseq : seq ≠ (r.reading (payload ++ (stored ++ rest))).count + 1 ∨ kind ∉ recordKinds
  · rw [if_pos hseq] at h
    cases h
    simp [bad]
  have hrest : Decoder.run (decodeRest (leNat length - 9)) (payload.drop 9) =
      .ok (payload.drop 9) := by
    rw [← hpayload, ← List.length_drop]
    exact decodeRest_body
  rw [if_neg hseq, lift_bind hrest] at h
  cases hroom : checkedAdd (r.reading (payload ++ (stored ++ rest))).position
      (leNat length + 36) with
  | none =>
    rw [hroom] at h
    cases h
    simp [Error.limit]
  | some position =>
    rw [hroom] at h
    cases h

theorem readBody_short (hcount : r.count < r.header.config.maxRecords.toNat)
    (hrange : 9 ≤ leNat length ∧ leNat length ≤ r.header.config.maxRecordBytes)
    (hshort : tail.length < leNat length + 32) :
    readBody sha256 length (r.reading tail) = (.error partialField, r.reading []) := by
  have hlimits : ¬ (¬ (9 ≤ leNat length ∧ leNat length ≤
      (r.reading tail).header.config.maxRecordBytes) ∨
      (r.reading tail).count ≥ (r.reading tail).header.config.maxRecords.toNat) := by
    rintro (hbad | hfull)
    · exact hbad hrange
    · exact absurd hcount (Nat.not_lt.2 hfull)
  rw [readBody, read_bind, if_neg hlimits]
  by_cases hpayload : tail.length < leNat length
  · exact bind_of_error (exact_short hpayload) _
  · have hexact : exact (leNat length) (r.reading tail) =
        (.ok (tail.take (leNat length)), r.reading (tail.drop (leNat length))) := by
      conv_lhs => rw [← List.take_append_drop (leNat length) tail]
      exact exact_append (List.length_take_of_le (by omega))
    rw [bind_of_ok hexact]
    refine bind_of_error (exact_short ?_) _
    rw [List.length_drop]
    omega

theorem readBody_limit (h : ¬ (r.count < r.header.config.maxRecords.toNat ∧ 9 ≤ leNat length ∧
      leNat length ≤ r.header.config.maxRecordBytes)) :
    readBody sha256 length (r.reading tail) =
      (.error (Error.limit "history_record"), r.reading tail) := by
  have hlimits : ¬ (9 ≤ leNat length ∧ leNat length ≤
      (r.reading tail).header.config.maxRecordBytes) ∨
      (r.reading tail).count ≥ (r.reading tail).header.config.maxRecords.toNat := by
    by_cases hcount : r.count < r.header.config.maxRecords.toNat
    · exact Or.inl fun hrange => h ⟨hcount, hrange⟩
    · exact Or.inr (Nat.not_lt.1 hcount)
  rw [readBody, read_bind, if_pos hlimits]
  rfl

theorem readBody_truncated_iff (hlength : length.length = 4)
    (h : readBody sha256 length (r.reading tail) = (.error e, t)) :
    e.code = .truncated ↔ Torn r.header.config r.count (length ++ tail) := by
  have htake : (length ++ tail).take 4 = length := List.take_left' hlength
  have hsize : (length ++ tail).length = tail.length + 4 := by
    rw [List.length_append, hlength, Nat.add_comm]
  have hne : length ++ tail ≠ [] := by
    intro hnil
    rw [hnil] at hsize
    cases hsize
  rw [Torn, htake, hsize]
  by_cases hrange : r.count < r.header.config.maxRecords.toNat ∧ 9 ≤ leNat length ∧
      leNat length ≤ r.header.config.maxRecordBytes
  · by_cases hshort : tail.length < leNat length + 32
    · rw [readBody_short hrange.1 hrange.2 hshort] at h
      cases h
      exact iff_of_true rfl ⟨hne, Or.inr ⟨hrange.1, hrange.2.1, hrange.2.2, by omega⟩⟩
    · have hsplit : tail = tail.take (leNat length) ++ ((tail.drop (leNat length)).take 32 ++
          (tail.drop (leNat length)).drop 32) := by
        rw [List.take_append_drop, List.take_append_drop]
      rw [hsplit] at h
      refine iff_of_false (readBody_error (List.length_take_of_le (by omega))
        (List.length_take_of_le (by rw [List.length_drop]; omega)) h) ?_
      rintro ⟨-, hfour | ⟨-, -, -, hover⟩⟩
      · omega
      · omega
  · rw [readBody_limit hrange] at h
    cases h
    refine iff_of_false (by simp [Error.limit]) ?_
    rintro ⟨-, hfour | ⟨hcount, hlow, hhigh, -⟩⟩
    · omega
    · exact hrange ⟨hcount, hlow, hhigh⟩

theorem Running.next_error (h : r.Running) (hne : unread ≠ [])
    (herror : next sha256 (r.reading unread) = (some (.error e), t)) :
    t.ended = true ∧ (e.code = .truncated ↔ Torn r.header.config r.count unread) := by
  obtain ⟨first, rest, rfl⟩ := List.exists_cons_of_ne_nil hne
  rcases hread : readRecord sha256 (r.reading (first :: rest)) with ⟨out, u⟩
  rw [next, nextRecord, hread] at herror
  cases out with
  | ok out => cases out <;> cases herror
  | error e' =>
    cases herror
    refine ⟨rfl, ?_⟩
    rw [h.readRecord_cons] at hread
    by_cases hthree : rest.length < 3
    · rw [bind_of_error (exact_short hthree)] at hread
      cases hread
      refine iff_of_true rfl ⟨hne, Or.inl ?_⟩
      rw [List.length_cons]
      omega
    · have htake : (rest.take 3).length = 3 := List.length_take_of_le (by omega)
      have hexact : exact 3 (r.reading rest) = (.ok (rest.take 3), r.reading (rest.drop 3)) := by
        conv_lhs => rw [← List.take_append_drop 3 rest]
        exact exact_append htake
      rw [bind_of_ok hexact] at hread
      rcases hbody : readBody sha256 (first :: rest.take 3) (r.reading (rest.drop 3)) with
        ⟨out, u'⟩
      cases out with
      | ok x =>
        rw [bind_of_ok hbody] at hread
        cases hread
      | error e' =>
        rw [bind_of_error hbody] at hread
        cases hread
        have hiff := readBody_truncated_iff (by rw [List.length_cons, htake]) hbody
        rwa [List.cons_append, List.take_append_drop] at hiff

theorem Running.next_cases (h : r.Running) (sha256 : List U8 → Digest) (hne : unread ≠ []) :
    (∃ kind body rest, r.Framed kind body ∧
      unread = frame sha256 r.previous r.count kind body ++ rest) ∨
    ∃ e, Drains (next sha256) (r.reading unread) [] (some e) ∧
      (e.code = .truncated ↔ Torn r.header.config r.count unread) := by
  rcases hnext : next sha256 (r.reading unread) with ⟨out, t⟩
  cases out with
  | none => exact absurd (next_none_inv (r := r.reading unread) h.running.2.2
      (congrArg Prod.fst hnext)) hne
  | some result =>
    cases result with
    | ok x =>
      obtain ⟨-, hframed, -, rest, hunread, -⟩ :=
        next_ok_inv (r := r.reading unread) h.running.2.2 h.valid hnext
      exact Or.inl ⟨x.kind, x.body, rest,
        ⟨hframed.kind, hframed.length, hframed.count, hframed.position⟩, hunread⟩
    | error e =>
      obtain ⟨hended, hiff⟩ := h.next_error hne hnext
      refine Or.inr ⟨e, .failed (by rw [hnext]) ?_, hiff⟩
      rw [hnext]
      exact silent_of_ended hended

theorem drains_terminal (hended : r.ended = false) (hterminal : r.sealed = true ∨ r.aborted = true)
    (hne : unread ≠ []) :
    Drains (next sha256) (r.reading unread) []
      (some (bad "history_terminal" "data after terminal record")) := by
  obtain ⟨first, rest, rfl⟩ := List.exists_cons_of_ne_nil hne
  have hopen : ¬ ((r.reading (first :: rest)).ended = true) := by simp [reading, hended]
  have hread : readRecord sha256 (r.reading (first :: rest)) =
      (.error (bad "history_terminal" "data after terminal record"), r.reading rest) := by
    rw [Reader.readRecord, read_bind, if_neg hopen]
    change (do
      update (fun r => r.reading rest)
      if (r.reading (first :: rest)).sealed ∨ (r.reading (first :: rest)).aborted then _
      else _ : Method Reader Error (Option Record)) _ = _
    have hclosed : (r.reading (first :: rest)).sealed = true ∨
        (r.reading (first :: rest)).aborted = true := hterminal
    rw [update_bind, if_pos hclosed]
    rfl
  have hnext := next_of_readRecord_error hread
  refine .failed (by rw [hnext]) ?_
  rw [hnext]
  exact silent_of_ended rfl

/-- A journal ends in a truncation exactly when the bytes lead past the end of the file. -/
theorem Running.ends (h : r.Running) (sha256 : List U8 → Digest)
    (hroom : r.position + unread.length < wordBound) :
    ∃ items stop, Drains (next sha256) (r.reading unread) items stop ∧
      items.length ≤ unread.length ∧
      ((∃ e, stop = some e ∧ e.code = .truncated) ↔
        RunsPast sha256 r.header.config r.previous r.count unread) := by
  induction hn : unread.length using Nat.strong_induction_on generalizing r unread with
  | _ n ih =>
  by_cases hnil : unread = []
  · subst hnil
    refine ⟨[], none, drains_nil h.running.2.2, Nat.zero_le _, ?_⟩
    exact iff_of_false (by simp) not_runsPast_nil
  rcases h.next_cases sha256 hnil with ⟨kind, body, rest, hframed, rfl⟩ | ⟨e, hdrains, hiff⟩
  · have hnext := h.next_frame sha256 hframed rest
    rw [List.length_append, length_frame] at hn hroom
    rw [runsPast_frame h.valid hframed.kind hframed.length hframed.count]
    -- the item in front of whatever follows it
    have hitem (items : List Record) (stop : Option Error)
        (hrest : Drains (next sha256) (r.advance (recordAt sha256 r kind body) rest) items stop) :
        Drains (next sha256)
          (r.reading (frame sha256 r.previous r.count kind body ++ rest))
          (recordAt sha256 r kind body :: items) stop := by
      refine .item (by rw [hnext]) ?_
      rw [hnext]
      exact hrest
    by_cases hterminal : kind = ABORT ∨ kind = SEAL
    · by_cases hrest : rest = []
      · subst hrest
        have hend := @drains_nil sha256 (r.advance (recordAt sha256 r kind body) []) h.running.2.2
        refine ⟨_, none, hitem [] none hend, ?_, ?_⟩
        · simp only [List.length_singleton]
          omega
        · exact iff_of_false (by simp) (fun hpast => hpast.1 hterminal)
      · have hflags : (r.advance (recordAt sha256 r kind body) rest).sealed = true ∨
            (r.advance (recordAt sha256 r kind body) rest).aborted = true := by
          rcases hterminal with hk | hk
          · exact Or.inr (decide_eq_true hk)
          · exact Or.inl (decide_eq_true hk)
        refine ⟨_, _, hitem [] _ (drains_terminal (r := r.advance (recordAt sha256 r kind body) rest)
          h.running.2.2 hflags hrest), ?_, ?_⟩
        · simp only [List.length_singleton]
          omega
        · refine iff_of_false ?_ (fun hpast => hpast.1 hterminal)
          rintro ⟨e, he, hcode⟩
          cases he
          cases hcode
    · have hrun : (r.advance (recordAt sha256 r kind body) rest).Running :=
        ⟨h.valid, decide_eq_false fun hk => hterminal (Or.inr hk),
          decide_eq_false fun hk => hterminal (Or.inl hk), h.running.2.2⟩
      obtain ⟨items, stop, hdrains, hitems, hiff⟩ := ih rest.length (by omega) hrun
        (by simp only [advance, recordAt]; omega) rfl
      refine ⟨_, stop, hitem items stop hdrains, ?_, ?_⟩
      · rw [List.length_cons]
        omega
      · rw [hiff]
        exact ⟨fun hpast => ⟨hterminal, hpast⟩, fun hpast => hpast.2⟩
  · refine ⟨[], some e, hdrains, Nat.zero_le _, ?_⟩
    constructor
    · rintro ⟨e', he, hcode⟩
      cases he
      exact .torn (hiff.1 hcode)
    · intro hpast
      refine ⟨e, rfl, hiff.2 ?_⟩
      cases hpast with
      | torn htorn => exact htorn
      | @behind _ _ kind body rest hkind _ hlen hcount _ =>
        -- a whole record would have been read
        rw [List.length_append, length_frame] at hroom
        have hnext := h.next_frame sha256 ⟨hkind, hlen, hcount, by omega⟩ rest
        cases hdrains with
        | failed herror _ =>
          rw [hnext] at herror
          cases herror

end Reader

theorem set_ne {l : List U8} {j : ℕ} {v : U8} (hj : j < l.length) (hv : l[j]? ≠ some v) :
    l.set j v ≠ l := by
  intro h
  apply hv
  rw [← h, List.getElem?_set_self hj]

section Chain

variable {c : Config} {previous : Digest} {count position : ℕ} {bytes bytes' : List U8}
  {records records' : List Record}

def lastDigest (previous : Digest) (records : List Record) : Digest :=
  (records.getLast?.map (·.digest)).getD previous

def hashedString (previous : Digest) (x : Record) : List U8 :=
  DOMAIN ++ previous.toList ++ lengthField x.body ++ Writer.payloadOf x.kind x.sequence x.body

def hashedStrings : Digest → List Record → List (List U8)
  | _, [] => []
  | previous, x :: records => hashedString previous x :: hashedStrings x.digest records

theorem lastDigest_cons (previous : Digest) (x : Record) (records : List Record) :
    lastDigest previous (x :: records) = lastDigest x.digest records := by
  cases records with
  | nil => rfl
  | cons y records => simp [lastDigest, List.getLast?_cons]

theorem lastDigest_concat (previous : Digest) (records : List Record) (x : Record) :
    lastDigest previous (records ++ [x]) = x.digest := by
  simp [lastDigest]

theorem hashedStrings_concat (previous : Digest) (records : List Record) (x : Record) :
    hashedStrings previous (records ++ [x]) =
      hashedStrings previous records ++ [hashedString (lastDigest previous records) x] := by
  induction records generalizing previous with
  | nil => rfl
  | cons y records ih =>
    rw [List.cons_append, hashedStrings, ih, lastDigest_cons, hashedStrings, List.cons_append]

theorem mem_hashedStrings (previous : Digest) (before after : List Record) (x : Record) :
    hashedString (lastDigest previous before) x ∈ hashedStrings previous (before ++ x :: after) := by
  induction before generalizing previous with
  | nil => exact List.mem_cons_self
  | cons y before ih =>
    rw [lastDigest_cons]
    exact List.mem_cons_of_mem _ (ih y.digest)

theorem Frames.concat {x : Record}
    (h : Frames sha256 c previous count position (records ++ [x]) bytes) :
    ∃ lead, Frames sha256 c previous count position records lead ∧
      x.digest = sha256 (hashedString (lastDigest previous records) x) ∧
      x.sequence = count + records.length + 1 ∧
      bytes = lead ++ frame sha256 (lastDigest previous records) (count + records.length) x.kind
        x.body := by
  induction records generalizing previous count position bytes with
  | nil =>
    cases h with
    | @cons _ _ _ kind body _ bytes _ _ _ _ _ hrest =>
      cases hrest
      exact ⟨[], .nil _ _ _, rfl, rfl, List.append_nil _⟩
  | cons y records ih =>
    cases h with
    | @cons _ _ _ kind body _ bytes hkind hlen hcount hposition hlast hrest =>
      obtain ⟨lead, hlead, hdigest, hsequence, hbytes⟩ := ih hrest
      have hopen : kind = ABORT ∨ kind = SEAL → records = [] := by
        intro hterminal
        have hnil := hlast hterminal
        simp at hnil
      refine ⟨frame sha256 previous count kind body ++ lead,
        .cons hkind hlen hcount hposition hopen hlead, ?_, ?_, ?_⟩
      · rw [lastDigest_cons]
        exact hdigest
      · rw [hsequence, List.length_cons]
        omega
      · rw [lastDigest_cons, hbytes, List.append_assoc, List.length_cons,
          show count + (records.length + 1) = count + 1 + records.length by omega]

theorem Frames.ends_with (h : Frames sha256 c previous count position records bytes) :
    ∃ front, previous.toList ++ bytes = front ++ (lastDigest previous records).toList := by
  induction h with
  | nil previous => exact ⟨[], by simp [lastDigest]⟩
  | @cons previous count position kind body records bytes _ _ _ _ _ _ ih =>
    obtain ⟨front, hfront⟩ := ih
    refine ⟨previous.toList ++ (lengthField body ++ (Writer.payloadOf kind (count + 1) body ++
      front)), ?_⟩
    rw [lastDigest_cons, frame_append, hfront]
    simp only [List.append_assoc]

/-- Without collisions, two chains of one size with the same last digest have the same bytes. -/
theorem Frames.eq_of_last (h : Frames sha256 c previous count position records bytes)
    (h' : Frames sha256 c previous count position records' bytes')
    (hsize : bytes.length = bytes'.length)
    (hlast : lastDigest previous records = lastDigest previous records')
    (hcollision : ∀ s ∈ hashedStrings previous records, ∀ t ∈ hashedStrings previous records',
      sha256 s = sha256 t → s = t) : bytes = bytes' := by
  induction records using List.reverseRecOn generalizing records' bytes bytes' with
  | nil =>
    cases h
    rw [List.length_nil] at hsize
    exact (List.eq_nil_of_length_eq_zero hsize.symm).symm
  | append_singleton records x ih =>
    obtain ⟨lead, hlead, hdigest, hsequence, rfl⟩ := h.concat
    rw [List.length_append, length_frame] at hsize
    rcases List.eq_nil_or_concat records' with rfl | ⟨records', y, rfl⟩
    · cases h'
      simp at hsize
    · rw [List.concat_eq_append] at h' hlast hcollision
      obtain ⟨lead', hlead', hdigest', hsequence', rfl⟩ := h'.concat
      rw [List.length_append, length_frame] at hsize
      rw [lastDigest_concat, lastDigest_concat, hdigest, hdigest'] at hlast
      rw [hashedStrings_concat, hashedStrings_concat] at hcollision
      have hsame := hcollision _ (List.mem_append_right _ (List.mem_singleton.2 rfl)) _
        (List.mem_append_right _ (List.mem_singleton.2 rfl)) hlast
      simp only [hashedString, List.append_assoc] at hsame
      obtain ⟨hprevious, hsame⟩ := List.append_inj (List.append_cancel_left hsame) (by simp)
      obtain ⟨hfield, hpayload⟩ := List.append_inj hsame (by simp)
      rw [hsequence, hsequence'] at hpayload
      have hbody : x.body.length = y.body.length := by
        have hlen := congrArg List.length hpayload
        rw [length_payloadOf, length_payloadOf] at hlen
        omega
      have hprevious' := Vector.toList_inj.1 hprevious
      have hframe : frame sha256 (lastDigest previous records) (count + records.length) x.kind
          x.body = frame sha256 (lastDigest previous records') (count + records'.length) y.kind
            y.body := by
        simp only [frame, frameDigest, hfield, hpayload, hprevious']
      have hleads := ih hlead hlead' (by omega) hprevious' fun s hs t ht =>
        hcollision s (List.mem_append_left _ hs) t (List.mem_append_left _ ht)
      rw [hleads, hframe]

theorem suffix_eq {a b c d : List U8} (h : a ++ b = c ++ d) (hle : d.length ≤ b.length) :
    d = b.drop (b.length - d.length) := by
  have hlen := congrArg List.length h
  rw [List.length_append, List.length_append] at hlen
  have hdrop := congrArg (List.drop c.length) h
  rw [List.drop_left, show c.length = a.length + (b.length - d.length) by omega,
    List.drop_length_add_append] at hdrop
  exact hdrop.symm

theorem Frames.not_of_set {front rest : List U8} {j : ℕ} {v : U8}
    (h : Frames sha256 c previous count position records (front ++ rest))
    (h' : Frames sha256 c previous count position records' (front.set j v ++ rest))
    (hj : j < front.length) (hv : front[j]? ≠ some v) (hrest : 32 ≤ rest.length)
    (hcollision : ∀ s ∈ hashedStrings previous records, ∀ t ∈ hashedStrings previous records',
      sha256 s = sha256 t → s = t) : False := by
  obtain ⟨a, ha⟩ := h.ends_with
  obtain ⟨b, hb⟩ := h'.ends_with
  rw [← List.append_assoc] at ha hb
  have hlast : lastDigest previous records = lastDigest previous records' := by
    apply Vector.toList_inj.1
    rw [suffix_eq ha (by simpa using hrest), suffix_eq hb (by simpa using hrest)]
    simp only [Vector.length_toList]
  have hsame := h.eq_of_last h' (by simp) hlast hcollision
  exact set_ne hj hv (List.append_cancel_right hsame).symm

end Chain

namespace Reader

def hashed (r : Reader) : Option (List U8) :=
  if r.sealed = false ∧ r.aborted = false ∧ r.count < r.header.config.maxRecords.toNat ∧
      9 ≤ leNat (r.unread.take 4) ∧ leNat (r.unread.take 4) ≤ r.header.config.maxRecordBytes ∧
      leNat (r.unread.take 4) + 36 ≤ r.unread.length then
    some (DOMAIN ++ r.previous.toList ++ r.unread.take 4 ++
      (r.unread.drop 4).take (leNat (r.unread.take 4)))
  else none

def hashes (sha256 : List U8 → Digest) : ℕ → Reader → List (List U8)
  | 0, _ => []
  | n + 1, r =>
    match next sha256 r with
    | (none, _) => []
    | (some _, t) => r.hashed.toList ++ hashes sha256 n t

variable {r : Reader} {length payload stored : List U8}

theorem Running.hashed_eq (h : r.Running) (rest : List U8)
    (hcount : r.count < r.header.config.maxRecords.toNat) (hlength : length.length = 4)
    (hlow : 9 ≤ leNat length) (hhigh : leNat length ≤ r.header.config.maxRecordBytes)
    (hpayload : payload.length = leNat length) (hstored : stored.length = 32) :
    (r.reading (length ++ (payload ++ (stored ++ rest)))).hashed =
      some (DOMAIN ++ r.previous.toList ++ length ++ payload) := by
  obtain ⟨hsealed, haborted, -⟩ := h.running
  have htake : (length ++ (payload ++ (stored ++ rest))).take 4 = length := List.take_left' hlength
  have hdrop : (length ++ (payload ++ (stored ++ rest))).drop 4 = payload ++ (stored ++ rest) :=
    List.drop_left' hlength
  simp only [hashed, reading, htake, hdrop]
  rw [if_pos, List.take_left' hpayload]
  refine ⟨hsealed, haborted, hcount, hlow, hhigh, ?_⟩
  simp only [List.length_append]
  omega

theorem Running.mem_hashes (h : r.Running) {n : ℕ} {unread s : List U8} (hne : unread ≠ [])
    (hs : (r.reading unread).hashed = some s) : s ∈ hashes sha256 (n + 1) (r.reading unread) := by
  rcases hnext : next sha256 (r.reading unread) with ⟨out, t⟩
  cases out with
  | none =>
    exact absurd (next_none_inv (r := r.reading unread) h.running.2.2 (congrArg Prod.fst hnext)) hne
  | some result =>
    rw [hashes, hnext, hs]
    exact List.mem_cons_self

theorem Running.hashes_frame (h : r.Running) {kind : U8} {body : List U8}
    (hframed : r.Framed kind body) (n : ℕ) (rest : List U8) :
    hashes sha256 (n + 1) (r.reading (frame sha256 r.previous r.count kind body ++ rest)) =
      hashedString r.previous (recordAt sha256 r kind body) ::
        hashes sha256 n (r.advance (recordAt sha256 r kind body) rest) := by
  have hfield := leNat_lengthField h.valid hframed.length
  have hdigest : (frameDigest sha256 r.previous r.count kind body).toList.length = 32 := by simp
  have hhashed := h.hashed_eq rest hframed.count (length_lengthField body) (by omega)
    (by rw [hfield]; exact hframed.length)
    (by rw [hfield]; exact length_payloadOf kind (r.count + 1) body) hdigest
  rw [hashes, h.next_frame sha256 hframed rest]
  rw [frame_append, hhashed]
  rfl

end Reader

section Changed

variable {r : Reader} {records : List Record} {n : ℕ}
variable {c : Config} {previous : Digest} {count position : ℕ} {bytes : List U8}
  {before after : List Record} {x : Record}

structure Reader.Reaches (sha256 : List U8 → Digest) (r : Reader) (bytes : List U8)
    (before : List Record) (x : Record) (rx : Reader) (lead rest : List U8) : Prop where
  split : bytes = lead ++ (frame sha256 rx.previous rx.count x.kind x.body ++ rest)
  place : r.position + lead.length = x.offset
  running : rx.Running
  framed : rx.Framed x.kind x.body
  header : rx.header = r.header
  drains : ∀ (tail : List U8) (items : List Record) (stop : Option Error),
    Drains (next sha256) (rx.reading tail) items stop →
      Drains (next sha256) (r.reading (lead ++ tail)) (before ++ items) stop
  hashes : ∀ (tail : List U8) (n : ℕ),
    hashes sha256 n (rx.reading tail) ⊆ hashes sha256 (n + before.length) (r.reading (lead ++ tail))
  last : rx.previous = lastDigest r.previous before
  count : rx.count = r.count + before.length
  record : x = recordAt sha256 rx x.kind x.body
  size : before.length ≤ lead.length

theorem Frames.reaches (h : Frames sha256 c previous count position (before ++ x :: after) bytes) (hr : r.Facing c previous count position (before ++ x :: after)) :
    ∃ rx lead rest, r.Reaches sha256 bytes before x rx lead rest ∧
      (after ≠ [] → 45 ≤ rest.length) := by
  induction before generalizing previous count position bytes r with
  | nil =>
    obtain ⟨hsealed, haborted⟩ := hr.running (by simp)
    obtain ⟨hvalid, rfl, rfl, rfl, rfl, hended, -⟩ := hr
    cases h with
    | @cons _ _ _ kind body records bytes hkind hlen hcount hposition hlast hrest =>
      refine ⟨r, [], bytes, ⟨rfl, rfl, ⟨hvalid, hsealed, haborted, hended⟩,
        ⟨hkind, hlen, hcount, hposition⟩, rfl, fun _ _ _ hdrains => hdrains,
        fun _ _ _ hs => hs, rfl, rfl, rfl, le_rfl⟩, fun hne => ?_⟩
      cases hrest with
      | nil => exact absurd rfl hne
      | cons =>
        rw [List.length_append, length_frame]
        omega
  | cons y before ih =>
    obtain ⟨hsealed, haborted⟩ := hr.running (by simp)
    obtain ⟨hvalid, rfl, rfl, rfl, rfl, hended, -⟩ := hr
    cases h with
    | @cons _ _ _ kind body records bytes hkind hlen hcount hposition hlast hrest =>
      have hopen : ¬ (kind = ABORT ∨ kind = SEAL) := by
        intro hterminal
        have hnil := hlast hterminal
        simp at hnil
      have hrun : r.Running := ⟨hvalid, hsealed, haborted, hended⟩
      have hframed : r.Framed kind body := ⟨hkind, hlen, hcount, hposition⟩
      obtain ⟨rx, lead, rest, hreach, hafter⟩ :=
        ih (r := r.advance (Reader.recordAt sha256 r kind body) bytes) hrest
          ⟨hvalid, rfl, rfl, rfl, rfl, hended, fun _ =>
            ⟨decide_eq_false fun hk => hopen (Or.inr hk),
              decide_eq_false fun hk => hopen (Or.inl hk)⟩⟩
      obtain ⟨hsplit, hplace, hrunning, hrx, hheader, hdrains, hhashes, hlast,
        hcounted, hrecord, hbefore⟩ := hreach
      refine ⟨rx, frame sha256 r.previous r.count kind body ++ lead, rest, ⟨?_, ?_, hrunning, hrx,
        hheader, ?_, ?_, ?_, ?_, hrecord, ?_⟩, hafter⟩
      · rw [hsplit, List.append_assoc]
      · rw [List.length_append, length_frame, ← hplace]
        simp only [Reader.advance, Reader.recordAt]
        omega
      · intro tail items stop htail
        have hnext := hrun.next_frame sha256 hframed (lead ++ tail)
        rw [List.append_assoc, List.cons_append]
        refine .item (by rw [hnext]; rfl) ?_
        rw [hnext]
        exact hdrains tail items stop htail
      · intro tail n s hs
        rw [List.append_assoc, List.length_cons, ← Nat.add_assoc, hrun.hashes_frame hframed]
        exact List.mem_cons_of_mem _ (hhashes tail n hs)
      · rw [hlast, lastDigest_cons]
        rfl
      · rw [hcounted, List.length_cons]
        simp only [Reader.advance, Reader.recordAt]
        omega
      · rw [List.length_cons, List.length_append, length_frame]
        omega
variable (h : Frames sha256 c previous count position records bytes)
include h

theorem Frames.room (hne : records ≠ []) : position + bytes.length < wordBound := by
  induction h with
  | nil => exact absurd rfl hne
  | @cons previous count position kind body records bytes _ _ _ hposition _ hrest ih =>
    rw [List.length_append, length_frame]
    by_cases hnil : records = []
    · subst hnil
      cases hrest
      exact hposition
    · have := ih hnil
      omega

theorem Frames.length_le : records.length ≤ bytes.length := by
  induction h with
  | nil => exact le_rfl
  | cons _ _ _ _ _ _ ih =>
    rw [List.length_cons, List.length_append, length_frame]
    omega

theorem Frames.hashes_subset
    (hr : r.Facing c previous count position records) (hn : records.length ≤ n) :
    hashedStrings previous records ⊆ Reader.hashes sha256 n (r.reading bytes) := by
  induction h generalizing r n with
  | nil => exact List.nil_subset _
  | @cons previous count position kind body records bytes hkind hlen hcount hposition hlast hrest
      ih =>
      obtain ⟨hsealed, haborted⟩ := hr.running (by simp)
      obtain ⟨hvalid, rfl, rfl, rfl, rfl, hended, -⟩ := hr
      have hrun : r.Running := ⟨hvalid, hsealed, haborted, hended⟩
      obtain ⟨n, rfl⟩ : ∃ m, n = m + 1 := ⟨n - 1, by rw [List.length_cons] at hn; omega⟩
      rw [hrun.hashes_frame ⟨hkind, hlen, hcount, hposition⟩, hashedStrings]
      refine List.cons_subset_cons _
        (ih (r := r.advance (Reader.recordAt sha256 r kind body) bytes) ?_ (by simpa using hn))
      refine ⟨hvalid, rfl, rfl, rfl, rfl, hended, fun hne => ⟨decide_eq_false fun hk => ?_,
        decide_eq_false fun hk => ?_⟩⟩
      · exact hne (hlast (Or.inr hk))
      · exact hne (hlast (Or.inl hk))

omit h

theorem Reader.Running.not_runsPast_set {rx : Reader} (h : rx.Running) {kind : U8} {body : List U8}
    (hframed : rx.Framed kind body) {rest : List U8} {j : ℕ} {v : U8} (hlow : 4 ≤ j)
    (hhigh : j < body.length + 45)
    (hv : (frame sha256 rx.previous rx.count kind body ++ rest)[j]? ≠ some v)
    (hcollision : ∀ s,
      (rx.reading ((frame sha256 rx.previous rx.count kind body ++ rest).set j v)).hashed = some s →
        sha256 s = sha256 (hashedString rx.previous (recordAt sha256 rx kind body)) →
          s = hashedString rx.previous (recordAt sha256 rx kind body)) :
    ¬ RunsPast sha256 rx.header.config rx.previous rx.count
      ((frame sha256 rx.previous rx.count kind body ++ rest).set j v) := by
  have hfield := leNat_lengthField h.valid hframed.length
  have hL := length_lengthField body
  have hP := length_payloadOf kind (rx.count + 1) body
  have hD : (frameDigest sha256 rx.previous rx.count kind body).toList.length = 32 := by simp
  have hhash : frameDigest sha256 rx.previous rx.count kind body =
      sha256 (hashedString rx.previous (recordAt sha256 rx kind body)) := rfl
  rw [frame_append] at hv hcollision ⊢
  rw [List.set_append_right _ _ (by omega), hL] at hcollision ⊢
  rw [List.getElem?_append_right (by omega), hL] at hv
  by_cases hmid : j - 4 < body.length + 9
  · -- the payload, while its old hash is stored
    rw [List.set_append_left _ _ (by omega)] at hcollision ⊢
    rw [List.getElem?_append_left (by omega)] at hv
    have hset : ((Writer.payloadOf kind (rx.count + 1) body).set (j - 4) v).length =
        body.length + 9 := by
      rw [List.length_set, hP]
    refine not_runsPast_of_mismatch h.valid hframed.length hset hD fun hmatch => ?_
    have hsame := hcollision _
      (h.hashed_eq rest hframed.count hL (by omega) (by rw [hfield]; exact hframed.length)
        (by rw [hset, hfield]) hD) (by rw [← hhash]; exact Vector.toList_inj.1 hmatch)
    exact set_ne (by omega) hv (List.append_cancel_left hsame)
  · -- the stored hash
    rw [List.set_append_right _ _ (by omega), hP, List.set_append_left _ _ (by omega)]
    rw [List.getElem?_append_right (by omega), hP, List.getElem?_append_left (by omega)] at hv
    refine not_runsPast_of_mismatch h.valid hframed.length hP (by rw [List.length_set, hD])
      fun hmatch => set_ne (by omega) hv hmatch.symm

/-- The reader yields the records in front of the change and then stops with an error. -/
theorem Reader.Reaches.change {rx : Reader} {lead rest : List U8} {j : ℕ} {v : U8}
    (h : r.Reaches sha256 bytes before x rx lead rest)
    (hframes : Frames sha256 r.header.config r.previous r.count r.position (before ++ x :: after)
      bytes)
    (hr : ∀ records, r.Facing r.header.config r.previous r.count r.position records)
    (hrest : 32 ≤ rest.length) (hj : j < x.body.length + 45)
    (hv : (frame sha256 rx.previous rx.count x.kind x.body ++ rest)[j]? ≠ some v)
    (hn : bytes.length < n)
    (hcollision : ∀ s ∈ hashedStrings r.previous (before ++ x :: after),
      ∀ t ∈ Reader.hashes sha256 n (r.reading (lead ++
        (frame sha256 rx.previous rx.count x.kind x.body ++ rest).set j v)),
        sha256 s = sha256 t → s = t) :
    ∃ more e, Drains (next sha256) (r.reading (lead ++
        (frame sha256 rx.previous rx.count x.kind x.body ++ rest).set j v)) (before ++ more)
        (some e) ∧
      (before ++ more).length ≤ bytes.length ∧
      (e.code = .truncated ↔ RunsPast sha256 rx.header.config rx.previous rx.count
        ((frame sha256 rx.previous rx.count x.kind x.body ++ rest).set j v)) ∧
      (4 ≤ j → ¬ RunsPast sha256 rx.header.config rx.previous rx.count
        ((frame sha256 rx.previous rx.count x.kind x.body ++ rest).set j v)) := by
  have hwhole : bytes.length =
      lead.length + (frame sha256 rx.previous rx.count x.kind x.body ++ rest).length := by
    rw [h.split, List.length_append]
  have hroom : rx.position +
      ((frame sha256 rx.previous rx.count x.kind x.body ++ rest).set j v).length < wordBound := by
    have hend := hframes.room (by simp)
    have hplace := h.place
    have hoffset : x.offset = rx.position := congrArg Record.offset h.record
    rw [List.length_set]
    omega
  obtain ⟨more, stop, hends, hsize, hiff⟩ := h.running.ends sha256 hroom
  have hdrains := h.drains _ _ _ hends
  cases stop with
  | none =>
    -- a clean end would be a second chain in front of the same last digest
    exfalso
    have hframes' : Frames sha256 r.header.config r.previous r.count r.position
        (before ++ more) (lead ++
          (frame sha256 rx.previous rx.count x.kind x.body ++ rest).set j v) :=
      frames_of_drains (r := r.reading (lead ++
        (frame sha256 rx.previous rx.count x.kind x.body ++ rest).set j v)) (hr []).ended
        (hr []).valid hdrains
    have hstrings := hframes'.hashes_subset (hr _) (n := n)
      (hframes'.length_le.trans (by rw [List.length_append, List.length_set]; omega))
    rw [List.set_append_left _ _ (by rw [length_frame]; omega), ← List.append_assoc] at hframes'
    rw [h.split, ← List.append_assoc] at hframes
    rw [List.getElem?_append_left (by rw [length_frame]; omega)] at hv
    refine hframes.not_of_set (j := lead.length + j) (v := v) ?_ ?_ ?_ hrest
      fun s hs t ht => hcollision s hs t (hstrings ht)
    · rwa [List.set_append_right _ _ (by omega), Nat.add_sub_cancel_left]
    · rw [List.length_append, length_frame]
      omega
    · rwa [List.getElem?_append_right (by omega), Nat.add_sub_cancel_left]
  | some e =>
    refine ⟨more, e, hdrains, ?_, ?_, fun hlow => ?_⟩
    · have hbefore := h.size
      rw [List.length_set] at hsize
      rw [List.length_append]
      omega
    · rw [← hiff]
      simp
    · refine h.running.not_runsPast_set h.framed hlow hj hv fun s hs hsha => ?_
      have hmem : hashedString rx.previous (recordAt sha256 rx x.kind x.body) ∈
          hashedStrings r.previous (before ++ x :: after) := by
        rw [← h.record, h.last]
        exact mem_hashedStrings _ _ _ _
      have hne : (frame sha256 rx.previous rx.count x.kind x.body ++ rest).set j v ≠ [] := by
        intro hnil
        have hlen := congrArg List.length hnil
        simp at hlen
      obtain ⟨m, rfl⟩ : ∃ m, n = m + 1 + before.length := ⟨n - 1 - before.length, by
        have hbefore := h.size
        rw [List.length_append, length_frame] at hwhole
        omega⟩
      exact (hcollision _ hmem s (h.hashes _ _ (h.running.mem_hashes hne hs)) hsha.symm).symm

/-- A recovery of torn tails gets through exactly when the file ends in a truncation. -/
theorem Reader.recoverPrefix_of_drains {items : List Record} {e : Error}
    (h : Drains (next sha256) r items (some e)) (hn : items.length < n) (kept : ℕ) :
    (∃ k, recoverPrefix sha256 true n r kept = .ok k) ↔ e.code = .truncated := by
  generalize hstop : some e = stop at h
  induction h generalizing n kept with
  | done _ _ => cases hstop
  | @failed s e' herror _ =>
    cases hstop
    obtain ⟨n, rfl⟩ : ∃ m, n = m + 1 := ⟨n - 1, by omega⟩
    rcases hnext : next sha256 s with ⟨out, t⟩
    rw [hnext] at herror
    cases herror
    rw [recoverPrefix, hnext]
    by_cases hcode : e.code = .truncated
    · simp [hcode]
    · simp [hcode]
  | @item s x xs stop hitem _ ih =>
    rw [List.length_cons] at hn
    obtain ⟨n, rfl⟩ : ∃ m, n = m + 1 := ⟨n - 1, by omega⟩
    rcases hnext : next sha256 s with ⟨out, t⟩
    rw [hnext] at hitem ih
    cases hitem
    rw [recoverPrefix, hnext]
    exact ih (by omega) _ hstop

theorem Reader.recoverable_of_open {file : List U8}
    (h : Reader.open sha256 file = .ok r) (allowTornTail : Bool) :
    recoverable sha256 allowTornTail file =
      recoverPrefix sha256 allowTornTail (file.length + 1) r r.header.bytes := by
  rw [recoverable, h]
  rfl

def journalHashes (sha256 : List U8 → Digest) (contents : List U8) : List (List U8) :=
  match Reader.open sha256 contents with
  | .ok r => Reader.hashes sha256 (contents.length + 1) r
  | .error _ => []

theorem journalHashes_of_open {file : List U8} (h : Reader.open sha256 file = .ok r) :
    journalHashes sha256 file = Reader.hashes sha256 (file.length + 1) r := by
  rw [journalHashes, h]

/-- The records in front of a changed byte still read, and the error behind them is taken for a torn
tail exactly when the bytes from the changed record on lead past the end of the file. -/
theorem interior_change (sha256 : List U8 → Digest) {file : List U8} {r : Reader} {q : ℕ} {v : U8}
    (hopen : Reader.open sha256 file = .ok r)
    (hread : Drains (Reader.next sha256) r (before ++ x :: after) none) (hafter : after ≠ [])
    (hlow : x.offset ≤ q) (hhigh : q < x.stop) (hv : file[q]? ≠ some v)
    (hcollision : ∀ s ∈ journalHashes sha256 file, ∀ t ∈ journalHashes sha256 (file.set q v),
      sha256 s = sha256 t → s = t) :
    ∃ r' more e, Reader.open sha256 (file.set q v) = .ok r' ∧
      Drains (Reader.next sha256) r' (before ++ more) (some e) ∧
      (e.code ≠ .truncated ↔ ¬ RunsPast sha256 r.header.config
        (lastDigest r.header.digest before) before.length ((file.set q v).drop x.offset)) ∧
      ((¬ ∃ k, Reader.recoverable sha256 true (file.set q v) = .ok k) ↔
        ¬ RunsPast sha256 r.header.config (lastDigest r.header.digest before) before.length
          ((file.set q v).drop x.offset)) ∧
      (x.offset + 4 ≤ q → ¬ RunsPast sha256 r.header.config
        (lastDigest r.header.digest before) before.length ((file.set q v).drop x.offset)) := by
  obtain ⟨front, hfile, hfront, hvalid, hr, hreopen⟩ := Reader.open_ok hopen
  have hframes : Frames sha256 r.header.config r.header.digest 0 r.header.bytes
      (before ++ x :: after) r.unread := by
    have h := Reader.frames_of_drains (by rw [hr]; rfl) hvalid hread
    rwa [hr] at h
  have hfacing (contents unread : List U8) (records : List Record) :
      (Reader.opened contents unread r.header).Facing r.header.config r.header.digest 0
        r.header.bytes records :=
    ⟨hvalid, rfl, rfl, rfl, rfl, rfl, fun _ => ⟨rfl, rfl⟩⟩
  obtain ⟨rx, lead, rest, hreach, hrest⟩ := hframes.reaches (hfacing (file.set q v) r.unread _)
  have hplace : r.header.bytes + lead.length = x.offset := hreach.place
  have hstart : (front ++ (r.header.digest.toList ++ lead)).length = x.offset := by
    simp
    omega
  rw [Record.stop] at hhigh
  obtain ⟨j, rfl⟩ : ∃ j, q = x.offset + j := ⟨q - x.offset, by omega⟩
  have hsplit : file = front ++ (r.header.digest.toList ++ lead) ++
      (frame sha256 rx.previous rx.count x.kind x.body ++ rest) := by
    rw [hfile, hreach.split]
    simp only [List.append_assoc]
  have hchanged : file.set (x.offset + j) v = front ++ (r.header.digest.toList ++ lead) ++
      (frame sha256 rx.previous rx.count x.kind x.body ++ rest).set j v := by
    rw [hsplit, List.set_append_right _ _ (by omega), hstart, Nat.add_sub_cancel_left]
  have hv' : (frame sha256 rx.previous rx.count x.kind x.body ++ rest)[j]? ≠ some v := by
    rw [hsplit, List.getElem?_append_right (by omega), hstart, Nat.add_sub_cancel_left] at hv
    exact hv
  have hreopened := hreopen (lead ++
    (frame sha256 rx.previous rx.count x.kind x.body ++ rest).set j v)
  rw [← List.append_assoc r.header.digest.toList, ← List.append_assoc, ← hchanged] at hreopened
  have hsize : r.unread.length < (file.set (x.offset + j) v).length + 1 := by
    rw [List.length_set, hfile]
    simp
    omega
  have hold : hashedStrings r.header.digest (before ++ x :: after) ⊆
      journalHashes sha256 file := by
    have hsub := hframes.hashes_subset (hfacing file r.unread _) (n := file.length + 1)
      (hframes.length_le.trans (by rw [List.length_set] at hsize; omega))
    rw [journalHashes_of_open hopen, hr]
    exact hsub
  obtain ⟨more, e, hdrains, hlength, hiff, hbehind⟩ := hreach.change hframes
    (hfacing (file.set (x.offset + j) v) r.unread) (le_trans (by omega) (hrest hafter)) (by omega)
    hv' hsize (fun s hs t ht => hcollision s (hold hs) t 
      (by rw [journalHashes_of_open hreopened]; exact ht))
  have hlast : lastDigest r.header.digest before = rx.previous := hreach.last.symm
  have hcount : before.length = rx.count := by
    have h : rx.count = 0 + before.length := hreach.count
    omega
  have hheader : r.header.config = rx.header.config := congrArg Header.config hreach.header.symm
  have hdrop : (file.set (x.offset + j) v).drop x.offset =
      (frame sha256 rx.previous rx.count x.kind x.body ++ rest).set j v := by
    rw [hchanged, List.drop_left' hstart]
  rw [hdrop, hlast, hcount, hheader]
  refine ⟨_, more, e, hreopened, hdrains, not_congr hiff, ?_, fun hq => hbehind (by omega)⟩
  rw [← hiff, ← Reader.recoverPrefix_of_drains hdrains (lt_of_le_of_lt hlength hsize)
    r.header.bytes, Reader.recoverable_of_open hreopened]
  rfl

end Changed

def sealedAppends : List Writer.AppendCall := [⟨PACKET, [1]⟩, ⟨SEAL, []⟩]

def sealedJournal : List U8 :=
  match Writer.create Sha256.digest Writer.sampleSource .default ⟨0, 0, 4096⟩ with
  | .ok w => (Writer.appendAll Sha256.digest sealedAppends w).2.file
  | .error _ => []

theorem sealedJournal_reads : ∃ r x after, Reader.open Sha256.digest sealedJournal = .ok r ∧
    Drains (Reader.next Sha256.digest) r ([] ++ x :: after) none ∧ x.offset = 251 ∧
    x.body.length = 1 ∧ (after.map (·.kind)) = [SEAL] := by
  have hok : ((Writer.create Sha256.digest Writer.sampleSource .default
      ⟨0, 0, 4096⟩).toOption.any fun w₀ =>
      decide (((Writer.appendAll Sha256.digest sealedAppends w₀).1.toOption.map
        (·.map Prod.fst)) = some [251, 297])) = true := by
    rw [Sha256.digest_numbers]
    decide +kernel
  cases hcreate : Writer.create Sha256.digest Writer.sampleSource .default ⟨0, 0, 4096⟩ with
  | error e =>
    rw [hcreate] at hok
    cases hok
  | ok w₀ =>
    rw [hcreate] at hok
    have hplaces := of_decide_eq_true hok
    rcases hrun : Writer.appendAll Sha256.digest sealedAppends w₀ with ⟨result, w⟩
    cases result with
    | error e =>
      rw [hrun] at hplaces
      cases hplaces
    | ok receipts =>
      obtain ⟨hheader, hkept, hzero, hstart⟩ := Writer.create_ok hcreate
      obtain ⟨bytes, hfile, -, hframes⟩ := Writer.appendAll_frames hrun
      rw [hkept, hzero, hstart] at hframes
      obtain ⟨r, hopen, hdrains, -⟩ := Writer.reads_whole hcreate (by decide) hframes
      have hjournal : sealedJournal = w₀.file ++ bytes := by
        rw [← hfile]
        unfold sealedJournal
        rw [hcreate]
        exact congrArg (fun p => p.2.file) hrun
      rw [hrun] at hplaces
      obtain ⟨a, b, rfl⟩ : ∃ a b, receipts = [a, b] :=
        List.length_eq_two.1 (Writer.appendAll_length hrun)
      have hfirst : a.1 = 251 := List.head_eq_of_cons_eq (Option.some.inj hplaces)
      exact ⟨r, _, _, by rw [hjournal]; exact hopen, hdrains, hfirst, rfl, rfl⟩

/-- A changed body byte of the sample is found by the hash. -/
theorem interior_change_sample : ∃ r x after r' more e,
    Reader.open Sha256.digest sealedJournal = .ok r ∧
    Drains (Reader.next Sha256.digest) r (x :: after) none ∧ after.getLast?.map (·.kind) = some SEAL ∧
    Reader.open Sha256.digest (sealedJournal.set 264 9) = .ok r' ∧
    Drains (Reader.next Sha256.digest) r' more (some e) ∧ e.code ≠ .truncated ∧
    ¬ ∃ k, Reader.recoverable Sha256.digest true (sealedJournal.set 264 9) = .ok k := by
  obtain ⟨r, x, after, hopen, hread, hoffset, hbody, hafter⟩ := sealedJournal_reads
  have hne : after ≠ [] := by
    rintro rfl
    cases hafter
  have hcollision : ∀ t ∈ journalHashes Sha256.digest (sealedJournal.set 264 9),
      ∀ s ∈ journalHashes Sha256.digest sealedJournal,
        Sha256.digest s = Sha256.digest t → s = t := by
    unfold sealedJournal
    rw [Sha256.digest_numbers]
    decide +kernel
  obtain ⟨r', more, e, hopen', hdrains, hcode, hrecover, hbehind⟩ :=
    interior_change Sha256.digest (q := 264) (v := 9) hopen hread hne (by omega)
      (by rw [Record.stop]; omega) (by decide +kernel) fun s hs t ht => hcollision t ht s hs
  have hkeeps := hbehind (by omega)
  refine ⟨r, x, after, r', more, e, hopen, hread, ?_, hopen', hdrains, hcode.2 hkeeps,
    hrecover.2 hkeeps⟩
  rw [← List.getLast?_map, hafter]
  rfl

/-- A changed length field leads past the end, and a recovery of torn tails gets through. -/
theorem interior_change_torn : ∃ r x after r' more e,
    Reader.open Sha256.digest sealedJournal = .ok r ∧
    Drains (Reader.next Sha256.digest) r (x :: after) none ∧ after.getLast?.map (·.kind) = some SEAL ∧
    x.offset ≤ 252 ∧ 252 < x.stop ∧ sealedJournal[252]? ≠ some 1 ∧
    (∀ s ∈ journalHashes Sha256.digest sealedJournal,
      ∀ t ∈ journalHashes Sha256.digest (sealedJournal.set 252 1),
        Sha256.digest s = Sha256.digest t → s = t) ∧
    Reader.open Sha256.digest (sealedJournal.set 252 1) = .ok r' ∧
    Drains (Reader.next Sha256.digest) r' more (some e) ∧ e.code = .truncated ∧
    ∃ k, Reader.recoverable Sha256.digest true (sealedJournal.set 252 1) = .ok k := by
  obtain ⟨r, x, after, hopen, hread, hoffset, hbody, hafter⟩ := sealedJournal_reads
  have htorn : ((Reader.open Sha256.digest (sealedJournal.set 252 1)).toOption.any fun r' =>
      decide (Torn r'.header.config 0 r'.unread ∧ r'.header.bytes + r'.unread.length < wordBound ∧
        r'.unread.length < (sealedJournal.set 252 1).length + 1 ∧
        Reader.hashes Sha256.digest ((sealedJournal.set 252 1).length + 1) r' = [])) = true := by
    unfold sealedJournal
    rw [Sha256.digest_numbers]
    decide +kernel
  cases hopen' : Reader.open Sha256.digest (sealedJournal.set 252 1) with
  | error e =>
    rw [hopen'] at htorn
    cases htorn
  | ok r' =>
    rw [hopen'] at htorn
    obtain ⟨hpast, hroom, hfuel, hnone⟩ := of_decide_eq_true htorn
    obtain ⟨-, -, -, hvalid, hr', -⟩ := Reader.open_ok hopen'
    have hrun : r'.Running := ⟨hvalid, congrArg Reader.sealed hr', congrArg Reader.aborted hr',
      congrArg Reader.ended hr'⟩
    have hposition : r'.position = r'.header.bytes := congrArg Reader.position hr'
    have hcount : r'.count = 0 := congrArg Reader.count hr'
    rw [← hposition] at hroom
    obtain ⟨more, stop, hdrains, hmore, hiff⟩ := hrun.ends Sha256.digest hroom
    rw [hcount] at hiff
    obtain ⟨e, rfl, hcode⟩ := hiff.2 (.torn hpast)
    refine ⟨r, x, after, r', more, e, hopen, hread, ?_, by omega, by rw [Record.stop]; omega,
      by decide +kernel, ?_, rfl, hdrains, hcode, ?_⟩
    · rw [← List.getLast?_map, hafter]
      rfl
    · rw [journalHashes_of_open hopen', hnone]
      simp
    · rw [Reader.recoverable_of_open hopen']
      exact (Reader.recoverPrefix_of_drains hdrains (by omega) _).2 hcode

end PcapEvidence.History
