import PcapEvidence.CaptureStep
import PcapEvidence.CaptureIter

/-!
# The streaming reader agrees with the slice iterator

However the source splits the bytes, the read loop ends with the decoder's view of the whole rest
of the input: the same refusal, the same record, or a truncation. They can differ only in the error
after the record budget is used up, because the reader asks for the size of one more record first.
-/

namespace PcapEvidence

open IterTrace

namespace Source

def Willing (s : Source) : Prop := ∀ detail, .failed detail ∉ s.schedule

structure ReadStep (s : Source) (count : ℕ) (out : Delivery × Source) : Prop where
  willing : out.2.Willing
  delivery : (out.1 = .interrupted ∧ out.2.remaining = s.remaining) ∨
    ∃ data, out.1 = .bytes data ∧ data ++ out.2.remaining = s.remaining ∧ data.length ≤ count ∧
      (data = [] → s.remaining = [])

theorem Willing.read {s : Source} (h : s.Willing) {count : ℕ} (hcount : 0 < count) :
    ReadStep s count (s.read count) := by
  have htake (k : ℕ) (hk : 0 < k) (hle : k ≤ count) (rest : List ReadOutcome)
      (hrest : ∀ detail, .failed detail ∉ rest) : ReadStep s count (s.take k rest) := by
    refine ⟨hrest, Or.inr ⟨_, rfl, List.take_append_drop _ _, ?_, fun hnil => ?_⟩⟩
    · rw [List.length_take]
      omega
    · rcases List.take_eq_nil_iff.1 hnil with hzero | hnil
      · omega
      · exact hnil
  unfold Source.read
  cases hs : s.schedule with
  | nil => exact htake count hcount le_rfl [] (by simp)
  | cons outcome rest =>
    have hrest : ∀ detail, .failed detail ∉ rest := by
      intro detail hmem
      exact h detail (by rw [hs]; exact List.mem_cons_of_mem _ hmem)
    cases outcome with
    | interrupted => exact ⟨hrest, Or.inl ⟨rfl, rfl⟩⟩
    | failed detail => exact absurd (by rw [hs]; exact List.mem_cons_self) (h detail)
    | bytes atMost => exact htake _ (by omega) (by omega) rest hrest

end Source

namespace CaptureReader

variable {r : CaptureReader} {buffer input : List U8}

/-- How the read loop ends, told by the whole rest of the input. -/
inductive LoopEnd (r : CaptureReader) (input : List U8) :
    Result (Option Record) × CaptureReader → Prop
  | refused {e : Error} {next : CaptureReader} (hreq : r.decoder.required input r.offset = .error e) :
      LoopEnd r input (.error e, next)
  | short {need : ℕ} {next : CaptureReader} (hreq : r.decoder.required input r.offset = .ok need)
      (hlt : input.length < need) (hterminal : next.terminal = true) :
      LoopEnd r input (r.endOfInput input need, next)
  | complete {need : ℕ} {reader : Source} (hreq : r.decoder.required input r.offset = .ok need)
      (hreq' : r.decoder.required (input.take need) r.offset = .ok need)
      (hle : need ≤ input.length) (hremaining : reader.remaining = input.drop need)
      (hwilling : reader.Willing) :
      LoopEnd r input ({ r with reader := reader }.emit (input.take need))

theorem LoopEnd.of_reader {reader : Source} {out : Result (Option Record) × CaptureReader}
    (h : LoopEnd { r with reader := reader } input out) : LoopEnd r input out := by
  cases h with
  | refused hreq => exact .refused hreq
  | short hreq hlt hterminal => exact .short hreq hlt hterminal
  | complete hreq hreq' hle hremaining hwilling => exact .complete hreq hreq' hle hremaining hwilling

theorem readLoop_end (hwilling : r.reader.Willing)
    (hword : r.offset + (buffer ++ r.reader.remaining).length < wordBound)
    (hbudget : r.offset + (buffer ++ r.reader.remaining).length ≤ r.maxInput)
    (hfit : ∀ need, r.decoder.required (buffer ++ r.reader.remaining) r.offset = .ok need →
      buffer.length ≤ need) : LoopEnd r (buffer ++ r.reader.remaining) (r.readLoop buffer) := by
  induction hm : r.reader.measure using Nat.strong_induction_on generalizing r buffer with
  | _ m ih =>
    subst hm
    have hextends := Decoder.required_append (d := r.decoder) hword
    rw [readLoop]
    split
    next e hreq =>
      rcases hextends with hsame | ⟨need, hshort, -, -⟩
      · exact .refused (hsame.trans hreq)
      · rw [hreq] at hshort
        cases hshort
    next need hreq =>
      by_cases hneed : need ≤ buffer.length
      · -- the record is complete, and the buffer holds nothing beyond it
        rw [if_pos hneed]
        rcases hextends with hsame | ⟨need', hshort, hlt, -⟩
        · have hreq' := hsame.trans hreq
          have hlen : need = buffer.length := le_antisymm hneed (hfit need hreq')
          have htake : (buffer ++ r.reader.remaining).take need = buffer := by
            rw [hlen, List.take_left]
          have hend : LoopEnd r (buffer ++ r.reader.remaining)
              ({ r with reader := r.reader }.emit ((buffer ++ r.reader.remaining).take need)) :=
            .complete hreq' (by rw [htake]; exact hreq) (by rw [List.length_append]; omega)
              (by rw [hlen, List.drop_left]) hwilling
          rwa [htake] at hend
        · rw [hreq] at hshort
          cases hshort
          omega
      rw [if_neg hneed]
      have hcount : 0 < min (need - buffer.length) 8192 := by omega
      have hstep := hwilling.read hcount
      have hmeasure := read_measure_lt r.reader hcount
      split
      next reader hread =>
        rw [hread] at hstep hmeasure
        obtain ⟨hwilling', hdelivery⟩ := hstep
        have hremaining : reader.remaining = r.reader.remaining := by
          rcases hdelivery with ⟨-, hsame⟩ | ⟨data, hdata, -⟩
          · exact hsame
          · cases hdata
        have hloop : LoopEnd { r with reader := reader } (buffer ++ reader.remaining)
            ({ r with reader := reader }.readLoop buffer) :=
          ih _ (hmeasure.1 rfl) hwilling' (by rwa [hremaining]) (by rwa [hremaining])
            (by rwa [hremaining]) rfl
        rw [hremaining] at hloop
        exact hloop.of_reader
      next detail reader hread =>
        rw [hread] at hstep
        rcases hstep.delivery with ⟨hdata, -⟩ | ⟨data, hdata, -⟩
        · cases hdata
        · cases hdata
      next data reader hread =>
        rw [hread] at hstep hmeasure
        obtain ⟨hwilling', hdelivery⟩ := hstep
        rcases hdelivery with ⟨hdata, -⟩ | ⟨data', hdata, happend, hlength, hempty⟩
        · cases hdata
        cases hdata
        by_cases hnil : data = []
        · -- the end of the input
          rw [if_pos hnil]
          have hrem := hempty hnil
          rw [hrem, List.append_nil]
          have hend : LoopEnd { r with reader := reader } buffer
              ({ r with reader := reader }.endOfInput buffer need,
                { r with reader := reader, terminal := true }) :=
            .short hreq (by omega) rfl
          exact hend.of_reader
        rw [if_neg hnil]
        have htotal : (buffer ++ data ++ reader.remaining) = buffer ++ r.reader.remaining := by
          rw [List.append_assoc, happend]
        have hlen : (buffer ++ r.reader.remaining).length =
            buffer.length + data.length + reader.remaining.length := by
          rw [← htotal, List.length_append, List.length_append]
        have hbound : ¬ (checkedAdd r.offset (buffer.length + data.length)).all
            (· > r.maxInput) = true := by
          rw [checkedAdd_of_lt (by omega), Option.all_some, decide_eq_true_eq]
          omega
        rw [if_neg hbound]
        have hfit' (n : ℕ) (hn : r.decoder.required (buffer ++ data ++ reader.remaining)
            r.offset = .ok n) : (buffer ++ data).length ≤ n := by
          rw [htotal] at hn
          rw [List.length_append]
          rcases hextends with hsame | ⟨need', hshort, -, hgrow⟩
          · rw [hsame, hreq] at hn
            cases hn
            omega
          · rw [hreq] at hshort
            cases hshort
            have := hgrow n hn
            omega
        have hloop : LoopEnd { r with reader := reader } (buffer ++ data ++ reader.remaining)
            ({ r with reader := reader }.readLoop (buffer ++ data)) :=
          ih _ (hmeasure.2 data rfl hnil) hwilling' (by rwa [htotal]) (by rwa [htotal]) hfit' rfl
        rw [htotal] at hloop
        exact hloop.of_reader

theorem emit_error {e : Error} {d : Decoder}
    (h : Decoder.decode buffer r.offset r.decoder = (.error e, d)) :
    r.emit buffer = (.error e, { r with decoder := d }) := by
  rw [emit, h]

theorem emit_record {record : Record} {d : Decoder}
    (h : Decoder.decode buffer r.offset r.decoder = (.ok (.record record), d))
    (hword : r.offset + record.raw.length < wordBound) :
    r.emit buffer = (.ok (some record), { r with
      decoder := d, offset := r.offset + record.raw.length }) := by
  rw [emit, h]
  simp only [checkedAdd_of_lt hword]

end CaptureReader

structure Synced (it : CaptureIter) (r : CaptureReader) : Prop where
  running : it.terminal = false ∧ r.terminal = false
  decoder : r.decoder = it.decoder
  offset : r.offset = it.position
  position_le : it.position ≤ it.data.length
  remaining : r.reader.remaining = it.data.drop it.position
  willing : r.reader.Willing
  budget : it.data.length ≤ r.maxInput
  word : it.data.length < wordBound
  legacy : it.decoder.format = some .pcap → it.decoder.legacy.isSome

/-- What two errors have in common when they report the same failure. -/
def Error.place (e : Error) : ErrorCode × ℕ × String := (e.code, e.offset, e.field)

theorem CaptureIter.silent_of_terminal {it : CaptureIter} (h : it.terminal = true) :
    Silent CaptureIter.next it := by
  apply silent_of_fixed
  rw [CaptureIter.next, if_pos h]

theorem CaptureReader.silent_of_terminal {r : CaptureReader} (h : r.terminal = true) :
    Silent CaptureReader.next r := by
  apply silent_of_fixed
  rw [CaptureReader.next, CaptureReader.nextRecord, if_pos h]

theorem CaptureReader.drains_of_error {r next : CaptureReader} {e : Error}
    (hr : r.terminal = false) (h : r.readLoop [] = (.error e, next)) :
    Drains CaptureReader.next r [] (some e) := by
  have hnext : r.next = (some (.error e), { next with terminal := true }) := by
    rw [CaptureReader.next, nextRecord, if_neg (by simp [hr]), h]
  apply Drains.failed
  · rw [hnext]
  · rw [hnext]
    exact silent_of_terminal rfl

theorem CaptureIter.drains_of_error {it next : CaptureIter} {e : Error}
    (h : it.next = (some (.error e), next)) (hterminal : next.terminal = true) :
    Drains CaptureIter.next it [] (some e) := by
  apply Drains.failed
  · rw [h]
  · rw [h]
    exact silent_of_terminal hterminal

/-- Both iterators yield the same records from here on and end alike. -/
def Agree (it : CaptureIter) (r : CaptureReader) : Prop :=
  ∃ records iterEnd readerEnd, Drains CaptureIter.next it records iterEnd ∧
    Drains CaptureReader.next r records readerEnd ∧ iterEnd.isSome = readerEnd.isSome ∧
    (it.decoder.records + records.length < it.decoder.limits.maxRecords →
      iterEnd.map Error.place = readerEnd.map Error.place)

namespace Synced

variable {it : CaptureIter} {r : CaptureReader}
variable (h : Synced it r)
include h

theorem loopEnd : CaptureReader.LoopEnd r (it.data.drop it.position) (r.readLoop []) := by
  have hle := h.position_le
  have hbudget := h.budget
  have hword := h.word
  have hlen : r.offset + (it.data.drop it.position).length = it.data.length := by
    rw [h.offset, List.length_drop]
    omega
  have hend : CaptureReader.LoopEnd r ([] ++ r.reader.remaining) (r.readLoop []) := by
    apply CaptureReader.readLoop_end h.willing
    · rw [List.nil_append, h.remaining]
      omega
    · rw [List.nil_append, h.remaining]
      omega
    · exact fun _ _ => Nat.zero_le _
  rwa [List.nil_append, h.remaining] at hend

theorem agree_of_end (hend : it.position = it.data.length) : Agree it r := by
  have hloop := h.loopEnd
  rw [hend, List.drop_length] at hloop
  have hword : r.offset < wordBound := by
    rw [h.offset, hend]
    exact h.word
  -- the loop can only have met the end of the input
  obtain ⟨need, next, hread, hterminal⟩ : ∃ need next,
      r.readLoop [] = (r.endOfInput [] need, next) ∧ next.terminal = true := by
    obtain ⟨need₀, hreq₀, hpos⟩ := Decoder.required_nil (d := r.decoder) hword
    generalize hout : r.readLoop [] = out at hloop
    cases hloop with
    | refused hreq => cases hreq₀.symm.trans hreq
    | short hreq hlt hterminal => exact ⟨_, _, rfl, hterminal⟩
    | complete hreq hreq' hle => exact absurd (Decoder.required_pos hreq) (by simpa using hle)
  have hiter : it.terminal = false := h.running.1
  have hfinish : r.decoder.finish r.offset = it.decoder.finish it.position := by
    rw [h.decoder, h.offset]
  rw [CaptureReader.endOfInput, if_pos rfl, hfinish] at hread
  cases hcheck : it.decoder.finish it.position with
  | ok u =>
    rw [hcheck] at hread
    have hnext : it.next = (none, { it with terminal := true }) := by
      rw [CaptureIter.next, if_neg (by simp [hiter]), if_pos hend, hcheck]
    have hnext' : r.next = (none, next) := by
      rw [CaptureReader.next, CaptureReader.nextRecord, if_neg (by simp [h.running.2]), hread]
      rfl
    refine ⟨[], none, none, .done ?_ ?_, .done ?_ ?_, rfl, fun _ => rfl⟩
    · rw [hnext]
    · rw [hnext]
      exact CaptureIter.silent_of_terminal rfl
    · rw [hnext']
    · rw [hnext']
      exact CaptureReader.silent_of_terminal hterminal
  | error e =>
    rw [hcheck] at hread
    have hnext : it.next = (some (.error e), { it with terminal := true }) := by
      rw [CaptureIter.next, if_neg (by simp [hiter]), if_pos hend, hcheck]
    exact ⟨[], some e, some e, CaptureIter.drains_of_error hnext rfl,
      CaptureReader.drains_of_error h.running.2 hread, rfl, fun _ => rfl⟩

theorem next_of_decode (hend : it.position ≠ it.data.length) {out : Result Decode} {d : Decoder}
    (hdecode : Decoder.decode (it.data.drop it.position) it.position it.decoder = (out, d)) :
    (∀ e, out = .error e → it.next = (some (.error e), { it with decoder := d, terminal := true })) ∧
    (∀ need, out = .ok (.needMore need) → ∃ e, it.next =
      (some (.error e), { it with decoder := d, terminal := true }) ∧
      e.place = (.truncated, it.position, "record")) ∧
    ∀ record, out = .ok (.record record) → it.next = (some (.ok record), { it with
      position := it.position + record.raw.length, decoder := d }) := by
  have hrunning : ¬ it.terminal = true := by simp [h.running.1]
  refine ⟨?_, ?_, ?_⟩
  · rintro e rfl
    rw [CaptureIter.next, if_neg hrunning, if_neg hend, hdecode]
  · rintro need rfl
    rw [CaptureIter.next, if_neg hrunning, if_neg hend, hdecode]
    exact ⟨_, rfl, rfl⟩
  · rintro record rfl
    rw [CaptureIter.next, if_neg hrunning, if_neg hend, hdecode]

/-- With the budget used up both iterators fail, each in its own way. -/
theorem agree_of_full (hend : it.position ≠ it.data.length)
    (hfull : it.decoder.limits.maxRecords ≤ it.decoder.records) : Agree it r := by
  obtain ⟨herror, -, -⟩ := h.next_of_decode hend (Decoder.decode_of_full hfull)
  have hiter := CaptureIter.drains_of_error (herror _ rfl) rfl
  have hne : it.data.drop it.position ≠ [] := by
    have := h.position_le
    simp only [ne_eq, List.drop_eq_nil_iff]
    omega
  obtain ⟨e, next, hread⟩ : ∃ e next, r.readLoop [] = (.error e, next) := by
    have hloop := h.loopEnd
    generalize r.readLoop [] = out at hloop
    cases hloop with
    | refused hreq => exact ⟨_, _, rfl⟩
    | short hreq hlt hterminal =>
      rw [CaptureReader.endOfInput, if_neg hne]
      exact ⟨_, _, rfl⟩
    | complete hreq hreq' hle hremaining hwilling =>
      rw [← h.decoder] at hfull
      exact ⟨_, _, CaptureReader.emit_error (Decoder.decode_of_full hfull)⟩
  refine ⟨[], _, _, hiter, CaptureReader.drains_of_error h.running.2 hread, rfl, fun hlt => ?_⟩
  simp only [List.length_nil] at hlt
  omega

/-- One round of both iterators: the same failure, or the same record and synchronized states. -/
theorem step (hend : it.position ≠ it.data.length)
    (hroom : it.decoder.records < it.decoder.limits.maxRecords) :
    (∃ e e', Drains CaptureIter.next it [] (some e) ∧ Drains CaptureReader.next r [] (some e') ∧
      e.place = e'.place) ∨
    ∃ record it' r', it.next = (some (.ok record), it') ∧ r.next = (some (.ok record), r') ∧
      Synced it' r' ∧ it'.data = it.data ∧ it.position < it'.position ∧
      it'.decoder.records = it.decoder.records + 1 ∧
      it'.decoder.limits = it.decoder.limits := by
  have hposition := h.position_le
  have hword := h.word
  have hne : it.data.drop it.position ≠ [] := by
    simp only [ne_eq, List.drop_eq_nil_iff]
    omega
  have hlen : (it.data.drop it.position).length = it.data.length - it.position := List.length_drop
  have hloop := h.loopEnd
  generalize hout : r.readLoop [] = out at hloop
  cases hloop with
  | refused hreq =>
    rw [h.decoder, h.offset] at hreq
    obtain ⟨herror, -, -⟩ := h.next_of_decode hend (Decoder.decode_of_refused hroom hreq)
    exact Or.inl ⟨_, _, CaptureIter.drains_of_error (herror _ rfl) rfl,
      CaptureReader.drains_of_error h.running.2 hout, rfl⟩
  | short hreq hlt hterminal =>
    rw [CaptureReader.endOfInput, if_neg hne] at hout
    rw [h.decoder, h.offset] at hreq
    obtain ⟨-, hshort, -⟩ := h.next_of_decode hend (Decoder.decode_of_short hroom hreq hlt)
    obtain ⟨e, hnext, hplace⟩ := hshort _ rfl
    refine Or.inl ⟨e, _, CaptureIter.drains_of_error hnext rfl,
      CaptureReader.drains_of_error h.running.2 hout, ?_⟩
    rw [hplace, h.offset]
    rfl
  | @complete need reader hreq hreq' hle hremaining hwilling =>
    rw [h.decoder, h.offset] at hreq hreq'
    have htake : ((it.data.drop it.position).take need).length = need := by
      rw [List.length_take]
      omega
    have hpos := Decoder.required_pos hreq
    -- both sides decode the same bytes in the same state
    have hdecode := Decoder.decode_of_complete hroom hreq hle
    have hdecode' : Decoder.decode ((it.data.drop it.position).take need) r.offset r.decoder =
        Decoder.complete ((it.data.drop it.position).take need) it.position it.decoder := by
      rw [h.decoder, h.offset, Decoder.decode_of_complete hroom hreq' htake.ge, List.take_take,
        min_self]
    have hspec : Method.Sat (Decoder.complete ((it.data.drop it.position).take need) it.position)
        it.decoder (fun out t => ∃ record, out = .record record ∧
          Decoder.RecordStep ((it.data.drop it.position).take need) it.position it.decoder record t)
        (Decoder.Refused it.decoder) := by
      apply Decoder.complete_spec h.legacy
      intro hf
      have := Decoder.required_pcap hf hreq hle
      omega
    match hcomplete : Decoder.complete ((it.data.drop it.position).take need) it.position
      it.decoder with
    | (.error e, t) =>
      rw [hcomplete] at hdecode hdecode'
      obtain ⟨herror, -, -⟩ := h.next_of_decode hend hdecode
      have hemit : { r with reader := reader }.emit ((it.data.drop it.position).take need) =
          (.error e, { r with reader := reader, decoder := t }) :=
        CaptureReader.emit_error hdecode'
      exact Or.inl ⟨e, e, CaptureIter.drains_of_error (herror e rfl) rfl,
        CaptureReader.drains_of_error h.running.2 (hout.trans hemit), rfl⟩
    | (.ok out, t) =>
      obtain ⟨record, rfl, hstep⟩ := hspec.of_ok hcomplete
      rw [hcomplete] at hdecode hdecode'
      obtain ⟨-, -, hrecord⟩ := h.next_of_decode hend hdecode
      have hraw : record.raw.length = need := by rw [hstep.raw, htake]
      have hemit : { r with reader := reader }.emit ((it.data.drop it.position).take need) =
          (.ok (some record), { r with
            reader := reader, decoder := t, offset := r.offset + record.raw.length }) := by
        refine CaptureReader.emit_record hdecode' ?_
        change r.offset + _ < _
        rw [h.offset]
        omega
      refine Or.inr ⟨record, _, { r with
        reader := reader, decoder := t, offset := r.offset + record.raw.length },
        hrecord record rfl, ?_, ?_, rfl, ?_, hstep.records, hstep.limits⟩
      · rw [CaptureReader.next, CaptureReader.nextRecord, if_neg (by simp [h.running.2]), hout,
          hemit]
      · refine ⟨h.running, rfl, ?_, ?_, ?_, hwilling, h.budget, h.word, hstep.legacy⟩
        · rw [h.offset]
        · simp only
          omega
        · simp only
          rw [hremaining, List.drop_drop, hraw]
      · simp only
        omega

/-- From synchronized states both iterators run to the end in step. -/
theorem agree : Agree it r := by
  induction hm : it.data.length - it.position using Nat.strong_induction_on generalizing it r with
  | _ m ih =>
    by_cases hend : it.position = it.data.length
    · exact h.agree_of_end hend
    by_cases hfull : it.decoder.limits.maxRecords ≤ it.decoder.records
    · exact h.agree_of_full hend hfull
    rcases h.step hend (by omega) with ⟨e, e', hiter, hreader, hplace⟩ |
      ⟨record, it', r', hnext, hnext', hsynced, hdata, hmove, hrecords, hlimits⟩
    · refine ⟨[], some e, some e', hiter, hreader, rfl, fun _ => ?_⟩
      rw [Option.map_some, Option.map_some, hplace]
    · have hle := h.position_le
      have hle' := hsynced.position_le
      rw [hdata] at hle'
      obtain ⟨records, iterEnd, readerEnd, hiter, hreader, hsome, hsame⟩ :=
        ih (it'.data.length - it'.position) (by rw [hdata]; omega) hsynced rfl
      refine ⟨record :: records, iterEnd, readerEnd, .item ?_ ?_, .item ?_ ?_, hsome,
        fun hlt => ?_⟩
      · rw [hnext]
      · rw [hnext]
        exact hiter
      · rw [hnext']
      · rw [hnext']
        exact hreader
      · apply hsame
        rw [hrecords, hlimits]
        rw [List.length_cons] at hlt
        omega

end Synced

/-- However a source splits the data into reads, the reader and the slice iterator yield the same
records and then both end or both fail; within the record budget they fail alike. -/
theorem CaptureReader.agrees_with_iter {data : List U8} {limits : Limits} (mode : ParseMode)
    {schedule : List ReadOutcome} (hlimits : limits.Valid)
    (hdata : data.length ≤ limits.maxInputBytes) (hword : data.length < wordBound)
    (hschedule : ∀ detail, .failed detail ∉ schedule) :
    ∃ it r records iterEnd readerEnd,
      CaptureIter.new data limits mode = .ok it ∧
      CaptureReader.new ⟨data, schedule⟩ limits mode = .ok r ∧
      Drains CaptureIter.next it records iterEnd ∧ Drains CaptureReader.next r records readerEnd ∧
      iterEnd.isSome = readerEnd.isSome ∧
      (records.length < limits.maxRecords →
        iterEnd.map Error.place = readerEnd.map Error.place) := by
  have hdecoder : ∃ d, Decoder.new limits mode = .ok d ∧ d.limits = limits ∧ d.records = 0 ∧
      d.format = none := by
    rw [Decoder.new, hlimits]
    exact ⟨_, rfl, rfl, rfl, rfl⟩
  obtain ⟨d, hd, hdlimits, hdrecords, hdformat⟩ := hdecoder
  have hsynced : Synced ⟨data, 0, d, false⟩ ⟨⟨data, schedule⟩, d, 0, false, limits.maxInputBytes⟩ :=
    ⟨⟨rfl, rfl⟩, rfl, rfl, Nat.zero_le _, by simp, hschedule, hdata, hword,
      by simp [hdformat]⟩
  obtain ⟨records, iterEnd, readerEnd, hiter, hreader, hsome, hsame⟩ := hsynced.agree
  refine ⟨_, _, records, iterEnd, readerEnd, ?_, ?_, hiter, hreader, hsome, fun hlt => ?_⟩
  · rw [CaptureIter.new, if_neg (by omega), hd]
    rfl
  · rw [CaptureReader.new, hd]
    rfl
  · apply hsame
    simp only [hdlimits, hdrecords, Nat.zero_add]
    exact hlt

def sampleCapture : List U8 :=
  [0xd4, 0xc3, 0xb2, 0xa1, 2, 0, 4, 0, 0, 0, 0, 0, 0, 0, 0, 0, 0xff, 0xff, 0, 0, 1, 0, 0, 0,
    10, 0, 0, 0, 20, 0, 0, 0, 2, 0, 0, 0, 2, 0, 0, 0, 7, 8]

/-- Interruptions and single-byte reads do not matter. -/
theorem CaptureReader.agrees_with_iter_interrupted : ∃ it r records iterEnd readerEnd,
    CaptureIter.new sampleCapture .default .strict = .ok it ∧
    CaptureReader.new ⟨sampleCapture, [.interrupted, .bytes 1, .bytes 2, .interrupted, .bytes 40]⟩
      .default .strict = .ok r ∧
    Drains CaptureIter.next it records iterEnd ∧ Drains CaptureReader.next r records readerEnd ∧
    iterEnd.isSome = readerEnd.isSome ∧
    (records.length < Limits.default.maxRecords →
      iterEnd.map Error.place = readerEnd.map Error.place) :=
  CaptureReader.agrees_with_iter .strict Limits.valid_default (by decide) (by decide) (by simp)

end PcapEvidence
