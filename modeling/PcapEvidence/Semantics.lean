import PcapEvidence.Method
import PcapEvidence.ProvenanceOps
import PcapEvidence.WireDecode

/-!
# Bounded semantic reports

A semantic decoder reads one framed message and appends records to a report. Every record is
checked against the source and paid for out of budgets for records, fields, spans and work; a
decoder that stops leaves the records before the stop and says how far it came.
-/

namespace PcapEvidence.Semantics
open EvidenceBytes

structure Limits where
  maxInputBytes : ℕ
  maxRecords : ℕ
  maxFields : ℕ
  maxSourceSpans : ℕ
  maxWork : ℕ
  maxJsonBytes : ℕ

namespace Limits

def default : Limits where
  maxInputBytes := 65536
  maxRecords := 2048
  maxFields := 8192
  maxSourceSpans := 16384
  maxWork := 1048576
  maxJsonBytes := 4 * 1024 * 1024

def validate (l : Limits) : Result Unit :=
  if l.maxInputBytes = 0 ∨ l.maxRecords = 0 ∨ l.maxFields = 0 ∨ l.maxSourceSpans = 0 ∨
      l.maxWork = 0 ∨ l.maxJsonBytes = 0 ∨ l.maxInputBytes > 16 * 1024 * 1024 ∨
      l.maxRecords > 65536 ∨ l.maxFields > 262144 ∨ l.maxSourceSpans > 1048576 ∨
      l.maxWork > 64 * 1024 * 1024 ∨ l.maxJsonBytes > 64 * 1024 * 1024 then
    .error ⟨.usage, 0, "semantic_limits", "zero or excessive limit"⟩
  else .ok ()

end Limits

inductive Status where
  | decodedSubset | incomplete | unsupported | rejected | limited
  deriving DecidableEq

/-- Floats stay bit patterns and wire times raw counts. -/
inductive Value where
  | unsigned (n : ℕ)
  | signed (n : ℤ)
  | boolean (b : Bool)
  | float32Bits (bits : U32)
  | float64Bits (bits : BitVec 64)
  | octetsSha256 (length : ℕ) (digest : Vector U8 32)
  | milliseconds48 (n : ℕ)
  | relativeMilliseconds16 (n : U16)

structure Field where
  name : String
  value : Value
  start : ℕ
  stop : ℕ
  bit : Option ℕ
  basis : String

namespace Field

def new (name : String) (value : Value) (start stop : ℕ) : Field :=
  ⟨name, value, start, stop, none, "direct_wire_field"⟩

def bitField (name : String) (value : Bool) (byte bit : ℕ) : Field :=
  ⟨name, .boolean value, byte, byte + 1, some bit, "lsb_zero_bit_position"⟩

def derived (name : String) (value : ℕ) (start stop : ℕ) (basis : String) : Field :=
  ⟨name, .unsigned value, start, stop, none, basis⟩

end Field

structure Record where
  kind : String
  start : ℕ
  stop : ℕ
  fields : List Field

structure Issue where
  code : String
  start : ℕ
  stop : ℕ

structure Report where
  source : EvidenceBytes
  protocol : String
  context : String
  limits : Limits
  status : Status
  consumed : ℕ
  records : List Record
  issues : List Issue
  fields : ℕ
  spans : ℕ
  work : ℕ

def fail (code : ErrorCode) (at_ : ℕ) (field : String) : Error :=
  ⟨code, at_, field, "semantic subset stopped; tail retained without resynchronization"⟩

def need (bytes : List U8) (at_ count : ℕ) (field : String) : Result Unit :=
  if at_ + count > bytes.length then .error (fail .truncated at_ field) else .ok ()

def uint (bytes : List U8) (at_ count : ℕ) (little : Bool) : ℕ :=
  let octets := sliceOf bytes at_ (at_ + count)
  (if little then octets.reverse else octets).foldl (fun n b => n * 256 + b.toNat) 0

def spanCount (source : EvidenceBytes) (start stop : ℕ) : ℕ :=
  ((source.spans.dropWhile fun s => s.stop ≤ start).takeWhile fun s => s.start < stop).length

/-- The loop of `add` over the fields of a record. -/
def fieldSpans (source : EvidenceBytes) : List Field → ℕ → Result ℕ
  | [], spans => .ok spans
  | f :: rest, spans =>
    if f.start ≥ f.stop ∨ f.stop > source.len ∨ f.bit.any (7 < ·) then
      .error ⟨.invariant, 0, "semantic_field", "invalid field witness"⟩
    else match checkedAdd spans (spanCount source f.start f.stop) with
      | none => .error (Error.limit "semantic_spans")
      | some spans => fieldSpans source rest spans

namespace Report

def new (source : EvidenceBytes) (protocol context : String) (limits : Limits) :
    Result Report := do
  limits.validate
  if source.len > limits.maxInputBytes ∨ source.spans.length > limits.maxSourceSpans then
    .error (Error.limit "semantic_input")
  else if !source.validate then
    .error ⟨.invariant, 0, "semantic_provenance", "invalid source spans"⟩
  else match (checkedAdd source.len source.spans.length).filter (· ≤ limits.maxWork) with
    | none => .error (Error.limit "semantic_work")
    | some work => .ok ⟨source, protocol, context, limits, .decodedSubset, 0, [], [], 0, 0, work⟩

def account (r : Report) (count spans : ℕ) : Result (ℕ × ℕ × ℕ) :=
  match checkedAdd r.fields count, checkedAdd r.spans spans,
      (checkedAdd r.work spans).bind (checkedAdd · count) with
  | none, _, _ => .error (Error.limit "semantic_fields")
  | some _, none, _ => .error (Error.limit "semantic_spans")
  | some _, some _, none => .error (Error.limit "semantic_work")
  | some fields, some total, some work =>
    if r.records.length ≥ r.limits.maxRecords ∨ fields > r.limits.maxFields ∨
        total > r.limits.maxSourceSpans ∨ work > r.limits.maxWork then
      .error (Error.limit "semantic_output")
    else .ok (fields, total, work)

def charge (r : Report) (record : Record) : Result (ℕ × ℕ × ℕ) := do
  let spans ← fieldSpans r.source record.fields 0
  r.account record.fields.length spans

def push (r : Report) (record : Record) (counters : ℕ × ℕ × ℕ) : Report :=
  { r with
    records := r.records ++ [record]
    fields := counters.1
    spans := counters.2.1
    work := counters.2.2 }

def add (record : Record) : Method Report Error Unit := do
  let r ← Method.read
  if record.start > record.stop ∨ record.stop > r.source.len then
    Method.fail ⟨.invariant, 0, "semantic_record", "invalid record range"⟩
  else do
    let counters ← Method.lift (r.charge record)
    Method.update (·.push record counters)

def advance (n : ℕ) : Method Report Error Unit := Method.update ({ · with consumed := n })

def warned (code : String) (start stop : ℕ) (r : Report) : Report :=
  if r.issues.length < r.limits.maxRecords then
    { r with issues := r.issues ++ [⟨code, start, stop⟩] }
  else { r with status := .limited }

def warn (code : String) (start stop : ℕ) : Method Report Error Unit :=
  Method.update (warned code start stop)

def statusOf : ErrorCode → Status
  | .truncated => .incomplete
  | .unsupportedTransport => .unsupported
  | .unsupportedVersion => .unsupported
  | .limitExceeded => .limited
  | _ => .rejected

def stop (r : Report) (error : Error) (at_ : ℕ) : Report :=
  let consumed := min at_ r.source.len
  warned error.field consumed r.source.len { r with status := statusOf error.code, consumed }

def run (r : Report) (body : Method Report Error Unit) : Report :=
  match body r with
  | (.ok _, t) => t
  | (.error e, t) => t.stop e t.consumed

end Report

/-- What the budgets of a report still hold: `k` records with `f` fields that meet `n` spans. -/
structure Room (r : Report) (k f n : ℕ) : Prop where
  records : r.records.length + k ≤ r.limits.maxRecords
  fields : r.fields + f ≤ r.limits.maxFields
  spans : r.spans + n ≤ r.limits.maxSourceSpans
  work : r.work + n + f ≤ r.limits.maxWork

def Field.Within (source : EvidenceBytes) (f : Field) : Prop :=
  f.start < f.stop ∧ f.stop ≤ source.len ∧ ∀ bit ∈ f.bit, bit ≤ 7

structure Record.Within (source : EvidenceBytes) (record : Record) : Prop where
  start_le : record.start ≤ record.stop
  stop_le : record.stop ≤ source.len
  fields : ∀ f ∈ record.fields, f.Within source

def Record.width (record : Record) : ℕ := (record.fields.map fun f => f.stop - f.start).sum

structure Sound (r : Report) : Prop where
  valid : r.source.Valid
  limits : r.limits.validate = .ok ()

section Spans
variable {c n a b : ℕ} {spans : List SourceSpan}

theorem takeWhile_start_le (h : Tiled c spans n) :
    (spans.takeWhile fun s => s.start < b).length ≤ b - c := by
  induction spans generalizing c with
  | nil => simp
  | cons s rest ih =>
    obtain ⟨hstart, hlt, -, hrest⟩ := h
    by_cases hb : s.start < b
    · rw [List.takeWhile_cons_of_pos (by simpa using hb), List.length_cons]
      have := ih hrest
      omega
    · rw [List.takeWhile_cons_of_neg (by simpa using hb)]
      exact Nat.zero_le _

theorem meeting_spans_le (h : Tiled c spans n) (hab : a < b) :
    ((spans.dropWhile fun s => s.stop ≤ a).takeWhile fun s => s.start < b).length ≤ b - a := by
  induction spans generalizing c with
  | nil => simp
  | cons s rest ih =>
    obtain ⟨hstart, hlt, -, hrest⟩ := h
    by_cases ha : s.stop ≤ a
    · rw [List.dropWhile_cons_of_pos (by simpa using ha)]
      exact ih hrest
    · rw [List.dropWhile_cons_of_neg (by simpa using ha)]
      by_cases hb : s.start < b
      · have hle := takeWhile_start_le (b := b) hrest
        rw [List.takeWhile_cons_of_pos (by simpa using hb), List.length_cons]
        omega
      · rw [List.takeWhile_cons_of_neg (by simpa using hb)]
        exact Nat.zero_le _

theorem length_spans_le (h : Tiled c spans n) : c + spans.length ≤ n := by
  induction spans generalizing c with
  | nil => exact h.le
  | cons s rest ih =>
    obtain ⟨hstart, hlt, -, hrest⟩ := h
    have := ih hrest
    rw [List.length_cons]
    omega

end Spans

section Budget
variable {source : EvidenceBytes} {r t : Report} {record : Record}

theorem spanCount_le (h : source.Valid) {f : Field} (hf : f.Within source) :
    spanCount source f.start f.stop ≤ f.stop - f.start :=
  meeting_spans_le h.2 hf.1

theorem fieldSpans_within (h : source.Valid) {fields : List Field}
    (hf : ∀ f ∈ fields, f.Within source) (acc : ℕ) :
    (∃ n, fieldSpans source fields acc = .ok n ∧
      n ≤ acc + (fields.map fun f => f.stop - f.start).sum) ∨
    (fieldSpans source fields acc = .error (Error.limit "semantic_spans") ∧
      wordBound ≤ acc + (fields.map fun f => f.stop - f.start).sum) := by
  induction fields generalizing acc with
  | nil => exact .inl ⟨acc, rfl, by simp⟩
  | cons f rest ih =>
    have hfirst := hf f List.mem_cons_self
    have hcount := spanCount_le h hfirst
    have hguard : ¬ (f.start ≥ f.stop ∨ f.stop > source.len ∨ f.bit.any (7 < ·)) := by
      rintro (hle | hgt | hbit)
      · exact hfirst.1.not_ge hle
      · exact hfirst.2.1.not_gt hgt
      · obtain ⟨bit, hmem, hlt⟩ := (Option.any_eq_true _ _).1 hbit
        exact (hfirst.2.2 bit hmem).not_gt (by simpa using hlt)
    rw [fieldSpans, if_neg hguard, List.map_cons, List.sum_cons]
    by_cases hadd : acc + spanCount source f.start f.stop < wordBound
    · rw [checkedAdd_of_lt hadd]
      rcases ih (fun g hg => hf g (List.mem_cons_of_mem _ hg))
        (acc + spanCount source f.start f.stop) with ⟨n, hok, hle⟩ | ⟨herr, hge⟩
      · exact .inl ⟨n, hok, by omega⟩
      · exact .inr ⟨herr, by omega⟩
    · rw [checkedAdd, if_neg hadd]
      exact .inr ⟨rfl, by omega⟩

theorem limits_bounds {l : Limits} (h : l.validate = .ok ()) :
    l.maxFields ≤ 262144 ∧ l.maxSourceSpans ≤ 1048576 ∧ l.maxWork ≤ 64 * 1024 * 1024 ∧
      0 < l.maxRecords := by
  obtain ⟨hguard, -⟩ := guard_eq_ok.1 (show (if _ then _ else _) = _ from h)
  push Not at hguard
  omega

theorem account_cases (hl : r.limits.validate = .ok ()) (count spans : ℕ) :
    (r.account count spans = .ok (r.fields + count, r.spans + spans, r.work + spans + count) ∧
      Room r 1 count spans) ∨
    (∃ e, r.account count spans = .error e ∧ e.code = .limitExceeded ∧ ¬ Room r 1 count spans) := by
  have hbounds := limits_bounds hl
  have hword : 64 * 1024 * 1024 < wordBound := by decide
  by_cases hroom : Room r 1 count spans
  · obtain ⟨hrecords, hfields, hspans, hwork⟩ := hroom
    have hguard : ¬ (r.records.length ≥ r.limits.maxRecords ∨ r.fields + count > r.limits.maxFields ∨
        r.spans + spans > r.limits.maxSourceSpans ∨ r.work + spans + count > r.limits.maxWork) := by
      omega
    refine .inl ⟨?_, hrecords, hfields, hspans, hwork⟩
    rw [Report.account, checkedAdd_of_lt (by omega), checkedAdd_of_lt (by omega),
      checkedAdd_of_lt (by omega), Option.bind_some, checkedAdd_of_lt (by omega)]
    exact if_neg hguard
  · right
    rw [Report.account]
    split
    · exact ⟨_, rfl, rfl, hroom⟩
    · exact ⟨_, rfl, rfl, hroom⟩
    · exact ⟨_, rfl, rfl, hroom⟩
    · rename_i fields total work hfields htotal hwork
      obtain ⟨-, rfl⟩ := (checkedAdd_eq_some_iff _ _ _).1 hfields
      obtain ⟨-, rfl⟩ := (checkedAdd_eq_some_iff _ _ _).1 htotal
      obtain ⟨mid, hmid, hwork⟩ := Option.bind_eq_some_iff.1 hwork
      obtain ⟨-, rfl⟩ := (checkedAdd_eq_some_iff _ _ _).1 hmid
      obtain ⟨-, rfl⟩ := (checkedAdd_eq_some_iff _ _ _).1 hwork
      have hguard : r.records.length ≥ r.limits.maxRecords ∨ r.fields + count > r.limits.maxFields ∨
          r.spans + spans > r.limits.maxSourceSpans ∨
          r.work + spans + count > r.limits.maxWork := by
        by_contra hnot
        push Not at hnot
        exact hroom ⟨hnot.1, hnot.2.1, hnot.2.2.1, hnot.2.2.2⟩
      exact ⟨_, if_pos hguard, rfl, hroom⟩

structure Paid (r : Report) (record : Record) (t : Report) : Prop where
  push : ∃ counters, t = r.push record counters
  room : ∀ k f n, Room r (k + 1) (record.fields.length + f) (record.width + n) → Room t k f n

theorem charge_within (hr : Sound r) (hrecord : record.Within r.source) :
    (∃ counters, r.charge record = .ok counters ∧ Paid r record (r.push record counters)) ∨
    (∃ e, r.charge record = .error e ∧ e.code = .limitExceeded ∧
      ¬ Room r 1 record.fields.length record.width) := by
  rcases fieldSpans_within hr.valid hrecord.fields 0 with ⟨n, hok, hle⟩ | ⟨herr, hge⟩
  · rw [Nat.zero_add] at hle
    have hcharge : r.charge record = r.account record.fields.length n := by
      rw [Report.charge, hok]
      rfl
    rw [hcharge]
    rcases account_cases hr.limits record.fields.length n with ⟨haccount, -⟩ | ⟨e, herr, hcode, hno⟩
    · refine .inl ⟨_, haccount, ⟨_, rfl⟩, fun k f m hroom => ?_⟩
      obtain ⟨hrecords, hfields, hspans, hwork⟩ := hroom
      rw [Record.width] at hspans hwork
      refine ⟨?_, ?_, ?_, ?_⟩ <;>
        simp only [Report.push, List.length_append, List.length_singleton] <;> omega
    · refine .inr ⟨e, herr, hcode, fun hroom => hno ?_⟩
      obtain ⟨hrecords, hfields, hspans, hwork⟩ := hroom
      rw [Record.width] at hspans hwork
      exact ⟨hrecords, hfields, by omega, by omega⟩
  · have hbounds := limits_bounds hr.limits
    have hword : 64 * 1024 * 1024 < wordBound := by decide
    refine .inr ⟨Error.limit "semantic_spans", ?_, rfl, fun hroom => ?_⟩
    · rw [Report.charge, herr]
      rfl
    · have := hroom.spans
      rw [Record.width] at this
      omega

theorem add_sat (hr : Sound r) (hrecord : record.Within r.source) {ok : Unit → Report → Prop}
    {err : Error → Report → Prop} (hok : ∀ t, Paid r record t → ok () t)
    (herr : ∀ e, e.code = .limitExceeded → ¬ Room r 1 record.fields.length record.width → err e r) :
    Method.Sat (Report.add record) r ok err := by
  have hguard : ¬ (record.start > record.stop ∨ record.stop > r.source.len) := by
    have hstart := hrecord.start_le
    have hstop := hrecord.stop_le
    omega
  refine Method.sat_read_bind ?_
  rw [if_neg hguard]
  refine Method.sat_lift_bind (fun counters hcharge => ?_) (fun e hcharge => ?_)
  · rcases charge_within hr hrecord with ⟨counters', hok', hpaid⟩ | ⟨e, herr', -⟩
    · rw [hok'] at hcharge
      cases hcharge
      exact hok _ hpaid
    · rw [herr'] at hcharge
      cases hcharge
  · rcases charge_within hr hrecord with ⟨counters', hok', -⟩ | ⟨e', herr', hcode, hno⟩
    · rw [hok'] at hcharge
      cases hcharge
    · rw [herr'] at hcharge
      cases hcharge
      exact herr _ hcode hno

end Budget

end PcapEvidence.Semantics
