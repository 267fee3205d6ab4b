import PcapEvidence.CaptureDecoder
import PcapEvidence.IterTrace

/-!
# The slice iterator and the streaming reader

`CaptureIter` walks a slice that is there as a whole. `CaptureReader` pulls bytes from a source and
asks the decoder for the required size after every read, with whatever part of the record it has by
then.
-/

namespace PcapEvidence

structure CaptureIter where
  data : List U8
  position : ℕ
  decoder : Decoder
  terminal : Bool

namespace CaptureIter

def new (data : List U8) (limits : Limits) (mode : ParseMode) : Result CaptureIter :=
  if data.length > limits.maxInputBytes then .error (Error.limit "input_bytes")
  else do
    let decoder ← Decoder.new limits mode
    .ok ⟨data, 0, decoder, false⟩

def next (it : CaptureIter) : Option (Result Record) × CaptureIter :=
  if it.terminal then (none, it)
  else if it.position = it.data.length then
    (match it.decoder.finish it.position with
      | .ok () => none
      | .error e => some (.error e), { it with terminal := true })
  else match Decoder.decode (it.data.drop it.position) it.position it.decoder with
    | (.ok (.record record), decoder) =>
      (some (.ok record), { it with
        position := it.position + record.raw.length
        decoder := decoder })
    | (.ok (.needMore need), decoder) =>
      (some (.error ⟨.truncated, it.position, "record",
        "need " ++ toString need ++ " bytes; have " ++ toString (it.data.length - it.position)⟩),
        { it with decoder := decoder, terminal := true })
    | (.error e, decoder) =>
      (some (.error e), { it with decoder := decoder, terminal := true })

end CaptureIter

/-- How a source answers one read. A positive number is an upper bound on the bytes delivered. -/
inductive ReadOutcome where
  | interrupted
  | failed (detail : String)
  | bytes (atMost : ℕ)

/-- A byte source with the outcomes of its next reads; later reads deliver all that is asked for. -/
structure Source where
  remaining : List U8
  schedule : List ReadOutcome

namespace Source

inductive Delivery where
  | interrupted
  | failed (detail : String)
  | bytes (data : List U8)

def take (s : Source) (count : ℕ) (schedule : List ReadOutcome) : Delivery × Source :=
  (.bytes (s.remaining.take count), ⟨s.remaining.drop count, schedule⟩)

def read (s : Source) (count : ℕ) : Delivery × Source :=
  match s.schedule with
  | [] => s.take count []
  | .interrupted :: rest => (.interrupted, { s with schedule := rest })
  | .failed detail :: rest => (.failed detail, { s with schedule := rest })
  | .bytes atMost :: rest => s.take (min (max 1 atMost) count) rest

def measure (s : Source) : ℕ := s.schedule.length + s.remaining.length

end Source

def Error.io (detail : String) : Error := ⟨.io, 0, "io", detail⟩

structure CaptureReader where
  reader : Source
  decoder : Decoder
  offset : ℕ
  terminal : Bool
  maxInput : ℕ

namespace CaptureReader

def new (reader : Source) (limits : Limits) (mode : ParseMode) : Result CaptureReader := do
  let decoder ← Decoder.new limits mode
  .ok ⟨reader, decoder, 0, false, limits.maxInputBytes⟩

def endOfInput (r : CaptureReader) (buffer : List U8) (need : ℕ) : Result (Option Record) :=
  if buffer = [] then (r.decoder.finish r.offset).map (fun _ => none)
  else .error ⟨.truncated, r.offset, "record",
    "EOF after " ++ toString buffer.length ++ " bytes; need " ++ toString need⟩

def emit (r : CaptureReader) (buffer : List U8) : Result (Option Record) × CaptureReader :=
  match Decoder.decode buffer r.offset r.decoder with
  | (.error e, decoder) => (.error e, { r with decoder := decoder })
  | (.ok (.needMore _), decoder) =>
    (.error ⟨.invariant, r.offset, "decoder", "required/decode disagreement"⟩,
      { r with decoder := decoder })
  | (.ok (.record record), decoder) =>
    match checkedAdd r.offset record.raw.length with
    | none => (.error (Error.limit "file_offset"), { r with decoder := decoder })
    | some offset => (.ok (some record), { r with decoder := decoder, offset := offset })

theorem take_measure_lt {s : Source} {count : ℕ} {rest : List ReadOutcome}
    (hrest : rest.length ≤ s.schedule.length) (hcount : 0 < count) (hs : s.remaining ≠ []) :
    (⟨s.remaining.drop count, rest⟩ : Source).measure < s.measure := by
  have hlen : 0 < s.remaining.length := List.length_pos_iff.2 hs
  simp only [Source.measure, List.length_drop]
  omega

theorem read_measure_lt (s : Source) {count : ℕ} (hcount : 0 < count) :
    ((s.read count).1 = .interrupted → (s.read count).2.measure < s.measure) ∧
      ∀ data, (s.read count).1 = .bytes data → data ≠ [] →
        (s.read count).2.measure < s.measure := by
  unfold Source.read
  cases hs : s.schedule with
  | nil =>
    refine ⟨by simp [Source.take], fun data hdata hne => ?_⟩
    cases hdata
    have hrem : s.remaining ≠ [] := by
      rintro hnil
      exact hne (by rw [hnil, List.take_nil])
    exact take_measure_lt (by simp) hcount hrem
  | cons outcome rest =>
    cases outcome with
    | interrupted =>
      refine ⟨fun _ => ?_, by simp⟩
      simp [Source.measure, hs]
    | failed detail => exact ⟨by simp, by simp⟩
    | bytes atMost =>
      refine ⟨by simp [Source.take], fun data hdata hne => ?_⟩
      cases hdata
      have hrem : s.remaining ≠ [] := by
        rintro hnil
        exact hne (by rw [hnil, List.take_nil])
      exact take_measure_lt (by simp [hs]) (by omega) hrem

def readLoop (r : CaptureReader) (buffer : List U8) : Result (Option Record) × CaptureReader :=
  match r.decoder.required buffer r.offset with
  | .error e => (.error e, r)
  | .ok need =>
    if need ≤ buffer.length then r.emit buffer
    else
      match _hread : r.reader.read (min (need - buffer.length) 8192) with
      | (.interrupted, reader) => readLoop { r with reader := reader } buffer
      | (.failed detail, reader) => (.error (Error.io detail), { r with reader := reader })
      | (.bytes data, reader) =>
        if data = [] then
          ({ r with reader := reader }.endOfInput buffer need,
            { r with reader := reader, terminal := true })
        else if (checkedAdd r.offset (buffer.length + data.length)).all (· > r.maxInput) then
          (.error (Error.limit "input_bytes"), { r with reader := reader })
        else readLoop { r with reader := reader } (buffer ++ data)
termination_by r.reader.measure
decreasing_by
  · have hcount : 0 < min (need - buffer.length) 8192 := by omega
    have h := (read_measure_lt r.reader hcount).1 (by rw [_hread])
    rwa [_hread] at h
  · have hcount : 0 < min (need - buffer.length) 8192 := by omega
    have h := (read_measure_lt r.reader hcount).2 data (by rw [_hread]) ‹_›
    rwa [_hread] at h

def nextRecord (r : CaptureReader) : Result (Option Record) × CaptureReader :=
  if r.terminal then (.ok none, r)
  else match r.readLoop [] with
    | (.error e, r) => (.error e, { r with terminal := true })
    | (.ok result, r) => (.ok result, r)

def next (r : CaptureReader) : Option (Result Record) × CaptureReader :=
  match r.nextRecord with
  | (.ok (some record), r) => (some (.ok record), r)
  | (.ok none, r) => (none, r)
  | (.error e, r) => (some (.error e), r)

end CaptureReader
end PcapEvidence
