import PcapEvidence.ModbusSemantics

/-!
# The framing validator and the field decoder agree

`Settles` says of a part of the field decoder what shape of the octets it succeeds on, that any
other failure than an exhausted budget refutes that shape, and how much of the budgets it uses at
most. Its rules follow the composition of the parts. The shape of the whole decoder is `pduShape`.
-/

namespace PcapEvidence.ModbusSemantics
open Semantics
open Semantics.Report (add advance warn)
open Modbus (ModbusMessage ModbusResult exceptionCodes fieldFunctions paddingIsZero pduShape
  roleShape Emitted)

/-- The parts of a report that no body changes before it succeeds. -/
structure Calm (r t : Report) : Prop where
  source : t.source = r.source
  limits : t.limits = r.limits
  status : t.status = r.status

/-- The body succeeds only on octets of the shape, and fails otherwise or for want of room. -/
def Settles (b : List U8) (shape : Prop) (k f n w : ℕ) (m : Body) : Prop :=
  ∀ r, Sound r → r.source.data = b → r.issues = [] →
    Method.Sat m r (fun _ t => shape ∧ Calm r t ∧ t.issues.length ≤ w)
      (fun e t => Calm r t ∧ t.issues = [] ∧ (e.code = .limitExceeded → ¬ Room r k f n) ∧
        (e.code ≠ .limitExceeded → ¬ shape))

section Rules
variable {b : List U8} {shape : Prop} {k f n w : ℕ} {r t : Report} {m : Body}

theorem Calm.refl : Calm r r := ⟨rfl, rfl, rfl⟩

theorem Calm.trans {u : Report} (h : Calm r t) (h' : Calm t u) : Calm r u :=
  ⟨h'.source.trans h.source, h'.limits.trans h.limits, h'.status.trans h.status⟩

theorem Calm.sound (h : Calm r t) (hr : Sound r) : Sound t :=
  ⟨h.source ▸ hr.valid, h.limits ▸ hr.limits⟩

theorem room_mono {k' f' n' : ℕ} (h : Room r k' f' n') (hk : k ≤ k') (hf : f ≤ f') (hn : n ≤ n') :
    Room r k f n := by
  obtain ⟨hrecords, hfields, hspans, hwork⟩ := h
  exact ⟨by omega, by omega, by omega, by omega⟩

theorem settles_pure (h : shape) : Settles b shape k f n w (pure ()) :=
  fun _ _ _ hissues => Method.sat_pure ⟨h, .refl, by rw [hissues]; exact Nat.zero_le w⟩

theorem settles_check {α : Type} {x : Result α} {rest : α → Body}
    (hok : ∀ a, x = .ok a → Settles b shape k f n w (rest a))
    (herr : ∀ e, x = .error e → e.code ≠ .limitExceeded ∧ ¬ shape) :
    Settles b shape k f n w (Method.lift x >>= rest) := by
  intro r hr hb hissues
  refine Method.sat_lift_bind (fun a ha => hok a ha r hr hb hissues) (fun e he => ?_)
  obtain ⟨hcode, hnot⟩ := herr e he
  exact ⟨.refl, hissues, fun hlimit => absurd hlimit hcode, fun _ => hnot⟩

theorem settles_advance {rest : Body} {i : ℕ} (h : Settles b shape k f n w rest) :
    Settles b shape k f n w (advance i >>= fun _ => rest) :=
  fun r hr hb hissues => Method.sat_update_bind
    ((h { r with consumed := i } ⟨hr.valid, hr.limits⟩ hb hissues).mono
      (fun _ _ hok => ⟨hok.1, ⟨hok.2.1.source, hok.2.1.limits, hok.2.1.status⟩, hok.2.2⟩)
      (fun _ _ herr => ⟨⟨herr.1.source, herr.1.limits, herr.1.status⟩, herr.2.1,
        fun hlimit hroom => herr.2.2.1 hlimit ⟨hroom.1, hroom.2, hroom.3, hroom.4⟩, herr.2.2.2⟩))

theorem settles_add {record : Semantics.Record} {rest : Body}
    (hrecord : ∀ source : EvidenceBytes, source.data = b → record.Within source)
    (h : Settles b shape k f n w rest) :
    Settles b shape (k + 1) (record.fields.length + f) (record.width + n) w
      (add record >>= fun _ => rest) := by
  intro r hr hb hissues
  refine Method.sat_bind (add_sat hr (hrecord _ hb) (fun t hpaid => ?_) (fun e hcode hno => ?_))
  · obtain ⟨counters, rfl⟩ := hpaid.push
    refine (h (r.push record counters) ⟨hr.valid, hr.limits⟩ hb hissues).mono (fun _ u hok => ?_)
      (fun e u herr => ?_)
    · exact ⟨hok.1, ⟨hok.2.1.source, hok.2.1.limits, hok.2.1.status⟩, hok.2.2⟩
    · exact ⟨⟨herr.1.source, herr.1.limits, herr.1.status⟩, herr.2.1,
        fun hlimit hroom => herr.2.2.1 hlimit (hpaid.room k f n hroom), herr.2.2.2⟩
  · exact ⟨.refl, hissues, fun _ hroom => hno (room_mono hroom (by omega) (by omega) (by omega)),
      fun hne => absurd hcode hne⟩

theorem Settles.mono {shape' : Prop} {k' f' n' w' : ℕ} (h : Settles b shape k f n w m)
    (hshape : shape ↔ shape') (hk : k ≤ k') (hf : f ≤ f') (hn : n ≤ n') (hw : w ≤ w') :
    Settles b shape' k' f' n' w' m := by
  intro r hr hb hissues
  refine (h r hr hb hissues).mono (fun _ t hok => ⟨hshape.1 hok.1, hok.2.1, hok.2.2.trans hw⟩)
    (fun e t herr => ⟨herr.1, herr.2.1, fun hlimit hroom => ?_, fun hne => ?_⟩)
  · exact herr.2.2.1 hlimit (room_mono hroom hk hf hn)
  · rw [← hshape]
    exact herr.2.2.2 hne

theorem settles_add_last {record : Semantics.Record}
    (hrecord : ∀ source : EvidenceBytes, source.data = b → record.Within source) (h : shape) :
    Settles b shape 1 record.fields.length record.width w (add record) := by
  intro r hr hb hissues
  refine add_sat hr (hrecord _ hb) (fun t hpaid => ?_) (fun e hcode hno => ?_)
  · obtain ⟨counters, rfl⟩ := hpaid.push
    exact ⟨h, ⟨rfl, rfl, rfl⟩, by change r.issues.length ≤ w; rw [hissues]; exact Nat.zero_le w⟩
  · exact ⟨.refl, hissues, fun _ => hno, fun hne => absurd hcode hne⟩

theorem warned_calm {code : String} {start stop : ℕ} (hr : Sound r) (hissues : r.issues.length = 0) :
    Calm r (Report.warned code start stop r) ∧
      (Report.warned code start stop r).issues.length ≤ 1 := by
  have hpos := (limits_bounds hr.limits).2.2.2
  rw [Report.warned, if_pos (by omega)]
  refine ⟨⟨rfl, rfl, rfl⟩, ?_⟩
  rw [List.length_append, List.length_singleton, hissues]

theorem settles_warn_last {code : String} {start stop : ℕ} (h : Settles b shape k f n 0 m) :
    Settles b shape k f n 1 (m >>= fun _ => warn code start stop) := by
  intro r hr hb hissues
  refine Method.sat_bind ((h r hr hb hissues).mono (fun _ t hok => ?_) (fun _ _ herr => herr))
  have hcalm : Calm t (Report.warned code start stop t) ∧
      (Report.warned code start stop t).issues.length ≤ 1 :=
    warned_calm (hok.2.1.sound hr) (Nat.le_zero.1 hok.2.2)
  exact ⟨hok.1, hok.2.1.trans hcalm.1, hcalm.2⟩

end Rules

/-- The quantity of a message is in range and its addresses do not wrap around. -/
def Ranged (b : List U8) (max : ℕ) : Prop :=
  1 ≤ (be16 b 10).toNat ∧ (be16 b 10).toNat ≤ max ∧ (be16 b 8).toNat + (be16 b 10).toNat ≤ 65536

instance (b : List U8) (max : ℕ) : Decidable (Ranged b max) :=
  inferInstanceAs (Decidable (_ ∧ _ ∧ _))

section Fields
variable {shape : Prop} {e : Error}
variable {b : List U8} {max function : ℕ} {role : Role}

theorem sliceOf_two {i : ℕ} (h : i + 2 ≤ b.length) :
    sliceOf b i (i + 2) = [byteAt b i, byteAt b (i + 1)] := by
  have hi : i < b.length := by omega
  have hi' : i + 1 < b.length := by omega
  rw [sliceOf, List.drop_take, Nat.add_sub_cancel_left, List.drop_eq_getElem_cons hi,
    List.drop_eq_getElem_cons hi', byteAt, byteAt, List.getD_eq_getElem _ _ hi,
    List.getD_eq_getElem _ _ hi']
  rfl

theorem toNat_be16 (i : ℕ) :
    (be16 b i).toNat = (byteAt b i).toNat * 256 + (byteAt b (i + 1)).toNat := by
  have hlt := (byteAt b (i + 1)).isLt
  rw [be16, BitVec.toNat_append, ← Nat.shiftLeft_add_eq_or_of_lt hlt, Nat.shiftLeft_eq]

theorem uint_two {i : ℕ} (h : i + 2 ≤ b.length) : uint b i 2 false = (be16 b i).toNat := by
  rw [toNat_be16]
  simp only [uint, sliceOf_two h, Bool.false_eq_true, if_false, List.foldl_cons, List.foldl_nil]
  omega

theorem reject_error {condition : Prop} [Decidable condition] {e' : Error}
    (h : reject condition e = .error e') : condition ∧ e' = e := by
  unfold reject at h
  split_ifs at h with hc
  · exact ⟨hc, (Except.error.inj h).symm⟩

theorem reject_ok {condition : Prop} [Decidable condition] {u : Unit}
    (h : reject condition e = .ok u) : ¬ condition :=
  (guard_eq_ok.1 h).1

theorem need_ok {i count : ℕ} {name : String} {u : Unit} (h : need b i count name = .ok u) :
    i + count ≤ b.length :=
  not_lt.1 (guard_eq_ok.1 h).1

theorem need_error {i count : ℕ} {name : String} (h : need b i count name = .error e) :
    b.length < i + count ∧ e.code = .truncated := by
  unfold need at h
  split_ifs at h with hc
  · exact ⟨hc, congrArg Error.code (Except.error.inj h).symm⟩

theorem quantity_of_length (h : 12 ≤ b.length) :
    quantity b max = if Ranged b max then .ok ((be16 b 8).toNat, (be16 b 10).toNat)
      else .error (invalid 8 "modbus_address_quantity_range") := by
  have hneed : need b 8 4 "modbus_address_quantity_truncated" = .ok () := if_neg (by omega)
  rw [quantity, hneed]
  change (if uint b 10 2 false = 0 ∨ _ then _ else _) = _
  rw [uint_two (by omega), uint_two (by omega)]
  by_cases hranged : Ranged b max
  · obtain ⟨hlow, hhigh, hsum⟩ := hranged
    rw [if_neg (by omega), if_pos ⟨hlow, hhigh, hsum⟩]
  · rw [if_pos (by unfold Ranged at hranged; omega), if_neg hranged]

theorem addressFields_of_length (h : 12 ≤ b.length) :
    addressFields b max = if Ranged b max then
        .ok [num "starting_address_zero_based" (be16 b 8).toNat 8 10,
          num "quantity" (be16 b 10).toNat 10 12]
      else .error (invalid 8 "modbus_address_quantity_range") := by
  rw [addressFields, quantity_of_length h]
  split_ifs <;> rfl

theorem record_within {kind : String} {start stop : ℕ} {fields : List Field} (hle : start ≤ stop)
    (hstop : stop ≤ b.length)
    (hfields : ∀ f ∈ fields, f.start < f.stop ∧ f.stop ≤ b.length ∧ ∀ bit ∈ f.bit, bit ≤ 7) :
    ∀ source : EvidenceBytes, source.data = b →
      Semantics.Record.Within source ⟨kind, start, stop, fields⟩ := by
  rintro source rfl
  exact ⟨hle, hstop, hfields⟩

theorem settles_address {kind : String} :
    Settles b (b.length = 12 ∧ Ranged b max) 1 2 4 0 (do
      Method.lift (exactLength b 12)
      let fields ← Method.lift (addressFields b max)
      add ⟨kind, 8, 12, fields⟩) := by
  refine settles_check (fun _ hlen => ?_) (fun e he => ?_)
  · have h12 : b.length = 12 := not_not.1 (reject_ok hlen)
    refine settles_check (fun fields hfields => ?_) (fun e he => ?_)
    · rw [addressFields_of_length h12.ge] at hfields
      split_ifs at hfields with hranged
      cases hfields
      exact settles_add_last (record_within (by decide) (by omega) (by simp [num, Field.new]; omega))
        ⟨h12, hranged⟩
    · rw [addressFields_of_length h12.ge] at he
      split_ifs at he with hranged
      cases he
      exact ⟨by decide, fun h => hranged h.2⟩
  · obtain ⟨hlen, rfl⟩ := reject_error he
    exact ⟨by decide, fun h => hlen h.1⟩

theorem settles_readRequest :
    Settles b (b.length = 12 ∧ Ranged b max) 1 2 4 0 (readRequest b max) := settles_address

theorem settles_writeEcho :
    Settles b (b.length = 12 ∧ Ranged b max) 1 2 4 0 (writeEcho b max) := settles_address

theorem settles_registers (hshape : shape) {at_ : ℕ} {first : Option ℕ}
    (hfirst : first.isSome → 10 ≤ b.length) (count i : ℕ)
    (hlen : at_ + (i + count) * 2 ≤ b.length) :
    Settles b shape count (2 * count) (4 * count) 0 (registers b at_ first count i) := by
  induction count generalizing i with
  | zero => exact settles_pure hshape
  | succ count ih =>
    rw [registers]
    refine settles_check (fun _ _ => ?_) (fun e he => ?_)
    · have hrecord : ∀ source : EvidenceBytes, source.data = b →
          (registerRecord b (at_ + i * 2) (first.map (· + i))).Within source := by
        refine record_within (by omega) (by omega) ?_
        cases first with
        | none =>
          simp [num, Field.new]
          omega
        | some first =>
          have := hfirst rfl
          simp [num, Field.new, Field.derived]
          omega
      have hrest := settles_advance (i := at_ + i * 2 + 2) (ih (i + 1) (by omega))
      refine (settles_add hrecord hrest).mono Iff.rfl (by omega) ?_ ?_ le_rfl
      · cases first <;> simp [registerRecord] <;> omega
      · cases first <;> simp [registerRecord, Semantics.Record.width, num, Field.new,
          Field.derived] <;> omega
    · have := (need_error he).1
      omega

theorem settles_packedOctets (hshape : shape) (count i : ℕ) (hlen : 9 + (i + count) ≤ b.length) :
    Settles b shape count count count 0 (packedOctets b count i) := by
  induction count generalizing i with
  | zero => exact settles_pure hshape
  | succ count ih =>
    rw [packedOctets]
    have hrecord : ∀ source : EvidenceBytes, source.data = b →
        (octetRecord b (9 + i)).Within source :=
      record_within (by omega) (by omega) (by simp [num, Field.new]; omega)
    have hrest := settles_advance (i := 9 + i + 1) (ih (i + 1) (by omega))
    refine (settles_add hrecord hrest).mono Iff.rfl (by omega) ?_ ?_ le_rfl
    · simp [octetRecord]
      omega
    · simp [octetRecord, Semantics.Record.width, num, Field.new]
      omega

theorem settles_coils (hshape : shape) {first : ℕ} (count i : ℕ)
    (hlen : 13 + (i + count + 7) / 8 ≤ b.length) :
    Settles b shape count (2 * count) (3 * count) 0 (coils b first count i) := by
  induction count generalizing i with
  | zero => exact settles_pure hshape
  | succ count ih =>
    rw [coils]
    have hrecord : ∀ source : EvidenceBytes, source.data = b →
        (coilRecord b first i).Within source :=
      record_within (by omega) (by omega) (by simp [Field.derived, Field.bitField]; omega)
    refine (settles_add hrecord (ih (i + 1) (by omega))).mono Iff.rfl (by omega) ?_ ?_ le_rfl
    · simp [coilRecord]
      omega
    · simp [coilRecord, Semantics.Record.width, Field.derived, Field.bitField]
      omega

def ReadShape (b : List U8) (function : ℕ) : Prop :=
  b.length = 9 + (byteAt b 8).toNat ∧ (byteAt b 8).toNat ≠ 0 ∧ (byteAt b 8).toNat ≤ 250 ∧
    (function ≥ 3 → (byteAt b 8).toNat % 2 = 0)

theorem settles_readValues (hshape : shape) {count : ℕ} (hcount : count ≤ 250)
    (hlen : b.length = 9 + count) :
    Settles b shape 250 250 500 1 (readValues b function count) := by
  unfold readValues
  split_ifs
  · exact (settles_registers hshape (by simp) (count / 2) 0 (by omega)).mono Iff.rfl (by omega)
      (by omega) (by omega) (by omega)
  · exact (settles_warn_last (settles_packedOctets hshape count 0 (by omega))).mono Iff.rfl
      (by omega) (by omega) (by omega) le_rfl

theorem settles_readResponse :
    Settles b (ReadShape b function) 251 251 501 1 (readResponse b function) := by
  refine settles_check (fun _ hneed => ?_) (fun e he => ?_)
  · have h9 := need_ok hneed
    refine settles_check (fun _ hcount => ?_) (fun e he => ?_)
    · have hnot := reject_ok hcount
      push Not at hnot
      obtain ⟨hzero, hhigh, hlen, hparity⟩ := hnot
      have hshape : ReadShape b function := ⟨hlen, hzero, hhigh, hparity⟩
      have hvalues : Settles b (ReadShape b function) 250 250 500 1
          (readValues b function (byteAt b 8).toNat) := settles_readValues hshape hhigh hlen
      have hrest := settles_advance (i := 9) hvalues
      refine (settles_add (record_within (by decide) (by omega) ?_) hrest).mono Iff.rfl le_rfl ?_ ?_
        le_rfl
      · simp [num, Field.new]
        omega
      · simp
      · simp [Semantics.Record.width, num, Field.new]
    · obtain ⟨hbad, rfl⟩ := reject_error he
      refine ⟨by decide, fun hshape => ?_⟩
      obtain ⟨hlen, hzero, hhigh, hparity⟩ := hshape
      rcases hbad with hbad | hbad | hbad | ⟨hbad, hodd⟩
      · exact hzero hbad
      · omega
      · exact hbad hlen
      · exact hodd (hparity hbad)
  · obtain ⟨hlt, hcode⟩ := need_error he
    exact ⟨by rw [hcode]; decide, fun hshape => by have := hshape.1; omega⟩

def SingleShape (b : List U8) (function : ℕ) : Prop :=
  b.length = 12 ∧ (function = 5 → (be16 b 10).toNat = 0 ∨ (be16 b 10).toNat = 0xff00)

theorem settles_writeSingle :
    Settles b (SingleShape b function) 1 3 6 0 (writeSingle b function role) := by
  refine settles_check (fun _ hlen => ?_) (fun e he => ?_)
  · have h12 : b.length = 12 := not_not.1 (reject_ok hlen)
    rw [uint_two (show 10 + 2 ≤ b.length by omega)]
    refine settles_check (fun _ hvalue => ?_) (fun e he => ?_)
    · have hnot := reject_ok hvalue
      have hshape : SingleShape b function :=
        ⟨h12, fun h5 => not_not.1 fun hno => hnot ⟨h5, hno⟩⟩
      by_cases h5 : function = 5
      · simp only [if_pos h5]
        refine (settles_add_last (record_within (by decide) (by omega) ?_) hshape).mono Iff.rfl le_rfl
          ?_ ?_ le_rfl
        · simp [num, Field.new]
          omega
        · simp
        · simp [Semantics.Record.width, num, Field.new]
      · simp only [if_neg h5]
        refine (settles_add_last (record_within (by decide) (by omega) ?_) hshape).mono Iff.rfl le_rfl
          ?_ ?_ le_rfl
        · simp [num, Field.new]
          omega
        · simp
        · simp [Semantics.Record.width, num, Field.new]
    · obtain ⟨⟨h5, hvalue⟩, rfl⟩ := reject_error he
      exact ⟨by decide, fun hshape => hvalue (hshape.2 h5)⟩
  · obtain ⟨hlen, rfl⟩ := reject_error he
    exact ⟨by decide, fun hshape => hlen hshape.1⟩

theorem settles_padding {k f n count : ℕ} {m : Body} (h : Settles b shape k f n 0 m) :
    Settles b shape k f n 1 (m >>= fun _ => padding b count) := by
  unfold padding
  split_ifs
  · exact settles_warn_last h
  · intro r hr hb hissues
    exact Method.sat_bind ((h r hr hb hissues).mono
      (fun _ t hok => ⟨hok.1, hok.2.1, hok.2.2.trans (Nat.zero_le 1)⟩) (fun _ _ herr => herr))

theorem settles_coilBudget {k f n w count : ℕ} {rest : Body} (hk : count ≤ k)
    (h : Settles b shape k f n w rest) :
    Settles b shape k f n w (coilBudget count >>= fun _ => rest) := by
  intro r hr hb hissues
  refine Method.sat_bind (Method.sat_read_bind ?_)
  by_cases hover : count > r.limits.maxRecords - r.records.length
  · have hfail : reject (count > r.limits.maxRecords - r.records.length)
        (fail .limitExceeded 13 "modbus_coil_record_budget") =
          .error (fail .limitExceeded 13 "modbus_coil_record_budget") := if_pos hover
    rw [hfail]
    refine ⟨.refl, hissues, fun _ hroom => ?_, fun hne => absurd rfl hne⟩
    have := hroom.records
    omega
  · have hpass : reject (count > r.limits.maxRecords - r.records.length)
        (fail .limitExceeded 13 "modbus_coil_record_budget") = .ok () := if_neg hover
    rw [hpass]
    exact h r hr hb hissues

def expectedOctets (function count : ℕ) : ℕ := if function = 15 then (count + 7) / 8 else count * 2

def maxQuantity (function : ℕ) : ℕ := if function = 15 then 1968 else 123

def WriteShape (b : List U8) (function : ℕ) : Prop :=
  Ranged b (maxQuantity function) ∧
    (byteAt b 12).toNat = expectedOctets function (be16 b 10).toNat ∧
    b.length = 13 + expectedOctets function (be16 b 10).toNat

theorem settles_writeValues (hshape : shape) {first count : ℕ}
    (hfunction : function = 15 ∨ function = 16)
    (hcount : count ≤ maxQuantity function) (hlen : b.length = 13 + expectedOctets function count) :
    Settles b shape 1968 3936 5904 1 (writeValues b function first count) := by
  unfold writeValues
  rcases hfunction with rfl | rfl
  · simp only [maxQuantity, expectedOctets, if_true] at hcount hlen
    rw [if_neg (by decide)]
    exact settles_coilBudget hcount ((settles_padding
      (settles_coils hshape count 0 (by omega))).mono Iff.rfl hcount (by omega) (by omega) le_rfl)
  · simp only [maxQuantity, expectedOctets, Nat.reduceEqDiff, if_false] at hcount hlen
    rw [if_pos rfl]
    exact (settles_registers hshape (fun _ => by omega) count 0 (by omega)).mono Iff.rfl
      (by omega) (by omega) (by omega) (by omega)

theorem settles_writeMultiple (hfunction : function = 15 ∨ function = 16) :
    Settles b (WriteShape b function) 1969 3939 5909 1 (writeMultiple b function) := by
  refine settles_check (fun _ hneed => ?_) (fun e he => ?_)
  · have h13 := need_ok hneed
    change Settles b _ _ _ _ _ (Method.lift (quantity b (maxQuantity function)) >>= fun _ => _)
    refine settles_check (fun pair hpair => ?_) (fun e he => ?_)
    · rw [quantity_of_length (by omega)] at hpair
      split_ifs at hpair with hranged
      cases hpair
      change Settles b _ _ _ _ _ (Method.lift (reject (_ ≠ expectedOctets function _ ∨
        _ ≠ 13 + expectedOctets function _) _) >>= fun _ => _)
      refine settles_check (fun _ hcount => ?_) (fun e he => ?_)
      · have hnot := reject_ok hcount
        push Not at hnot
        have hshape : WriteShape b function := ⟨hranged, hnot.1, hnot.2⟩
        refine settles_check (fun fields hfields => ?_) (fun e he => ?_)
        · change addressFields b (maxQuantity function) = _ at hfields
          rw [addressFields_of_length (by omega), if_pos hranged] at hfields
          cases hfields
          have hvalues : Settles b (WriteShape b function) 1968 3936 5904 1
              (writeValues b function (be16 b 8).toNat (be16 b 10).toNat) :=
            settles_writeValues hshape hfunction hranged.2.1 hnot.2
          have hrest := settles_advance (i := 13) hvalues
          refine (settles_add (record_within (by decide) (by omega) ?_) hrest).mono Iff.rfl le_rfl
            ?_ ?_ le_rfl
          · simp [num, Field.new]
            omega
          · simp
          · simp [Semantics.Record.width, num, Field.new]
        · change addressFields b (maxQuantity function) = _ at he
          rw [addressFields_of_length (by omega), if_pos hranged] at he
          cases he
      · obtain ⟨hbad, rfl⟩ := reject_error he
        refine ⟨by decide, fun hshape => ?_⟩
        rcases hbad with hbad | hbad
        · exact hbad hshape.2.1
        · exact hbad hshape.2.2
    · rw [quantity_of_length (by omega)] at he
      split_ifs at he with hranged
      cases he
      exact ⟨by decide, fun hshape => hranged hshape.1⟩
  · obtain ⟨hlt, hcode⟩ := need_error he
    exact ⟨by rw [hcode]; decide, fun hshape => by have := hshape.2.2; omega⟩

def ExceptionShape (b : List U8) (role : Role) : Prop :=
  b.length = 9 ∧ role = .response ∧ byteAt b 8 ∈ exceptionCodes

theorem settles_exceptionBody :
    Settles b (ExceptionShape b role) 1 1 1 0 (exceptionBody b role) := by
  refine settles_check (fun _ hlen => ?_) (fun e he => ?_)
  · have h9 : b.length = 9 := not_not.1 (reject_ok hlen)
    refine settles_check (fun _ hcode => ?_) (fun e he => ?_)
    · have hnot := reject_ok hcode
      push Not at hnot
      have hrest := settles_advance (i := 9) (settles_pure (b := b) (k := 0) (f := 0) (n := 0)
        (w := 0) (show ExceptionShape b role from ⟨h9, hnot.1, hnot.2⟩))
      refine (settles_add (record_within (by decide) (by omega) ?_) hrest).mono Iff.rfl le_rfl ?_ ?_
        le_rfl
      · simp [num, Field.new]
        omega
      · simp
      · simp [Semantics.Record.width, num, Field.new]
    · obtain ⟨hbad, rfl⟩ := reject_error he
      refine ⟨by decide, fun hshape => ?_⟩
      rcases hbad with hbad | hbad
      · exact hbad hshape.2.1
      · exact hbad hshape.2.2
  · obtain ⟨hlen, rfl⟩ := reject_error he
    exact ⟨by decide, fun hshape => hlen hshape.1⟩

end Fields

/-- The shape of the octets for a function code without the exception bit. -/
def FieldShape (b : List U8) (function : ℕ) (role : Role) : Prop :=
  if function ≤ 4 then
    if role = .request then b.length = 12 ∧ Ranged b (if function ≤ 2 then 2000 else 125)
    else ReadShape b function
  else if function = 5 ∨ function = 6 then SingleShape b function
  else if role = .response then b.length = 12 ∧ Ranged b (maxQuantity function)
  else WriteShape b function

def PduShape (b : List U8) (role : Role) : Prop :=
  byteAt b 7 &&& 0x7f ∈ fieldFunctions ∧
    if byteAt b 7 &&& 0x80 ≠ 0 then ExceptionShape b role
    else FieldShape b (byteAt b 7).toNat role

structure Framed (b : List U8) : Prop where
  protocol : be16 b 2 = 0
  two_le : 2 ≤ (be16 b 4).toNat
  le : (be16 b 4).toNat ≤ 254
  length : b.length = (be16 b 4).toNat + 6

section Whole
variable {b : List U8} {role : Role} {r t : Report}

theorem fieldFunction_cases {f : U8} (hbit : f &&& 0x80 = 0) (hf : f &&& 0x7f ∈ fieldFunctions) :
    f ∈ fieldFunctions := by
  have hsplit : ∀ f : U8, f &&& 0x80 = 0 → f &&& 0x7f = f := by decide +kernel
  rwa [hsplit f hbit] at hf

theorem settles_functionBody (hrole : role ≠ .unknown) {function : ℕ}
    (hfunction : function ∈ fieldFunctions.map BitVec.toNat) :
    Settles b (FieldShape b function role) 1969 3939 5909 1 (functionBody b function role) := by
  have hcases : (1 ≤ function ∧ function ≤ 4) ∨ (function = 5 ∨ function = 6) ∨
      (function = 15 ∨ function = 16) := by
    simp [fieldFunctions] at hfunction
    omega
  unfold functionBody FieldShape
  rcases hcases with ⟨hlow, hhigh⟩ | hsingle | hmultiple
  · simp only [hlow, hhigh, true_and, if_true]
    cases role with
    | request =>
      exact settles_readRequest.mono Iff.rfl (by decide) (by decide) (by decide) (by decide)
    | response =>
      exact settles_readResponse.mono Iff.rfl (by decide) (by decide) (by decide) le_rfl
    | unknown => exact absurd rfl hrole
  · have hnot : ¬ function ≤ 4 := by omega
    simp only [hnot, and_false, false_and, if_false, if_pos hsingle]
    exact settles_writeSingle.mono Iff.rfl (by decide) (by decide) (by decide) (by decide)
  · have hnot : ¬ function ≤ 4 := by omega
    have hnot' : ¬ (function = 5 ∨ function = 6) := by omega
    simp only [hnot, and_false, false_and, if_false, if_neg hnot', hmultiple, true_and]
    cases role with
    | request => exact (settles_writeMultiple hmultiple).mono Iff.rfl le_rfl le_rfl le_rfl le_rfl
    | response =>
      exact settles_writeEcho.mono Iff.rfl (by decide) (by decide) (by decide) (by decide)
    | unknown => exact absurd rfl hrole

theorem settles_pduBody (hrole : role ≠ .unknown)
    (hfunction : byteAt b 7 &&& 0x7f ∈ fieldFunctions) :
    Settles b (PduShape b role) 1969 3939 5909 1 (pduBody b role) := by
  unfold pduBody PduShape
  by_cases hbit : byteAt b 7 &&& 0x80 ≠ 0
  · simp only [if_pos hbit, hfunction, true_and]
    exact settles_exceptionBody.mono Iff.rfl (by decide) (by decide) (by decide) (by decide)
  · simp only [if_neg hbit, hfunction, true_and]
    have hmem := List.mem_map_of_mem (f := BitVec.toNat)
      (fieldFunction_cases (not_not.1 hbit) hfunction)
    intro r hr hb hissues
    exact Method.sat_bind ((settles_functionBody hrole hmem r hr hb hissues).mono
      (fun _ t hok => ⟨hok.1, ⟨hok.2.1.source, hok.2.1.limits, hok.2.1.status⟩, hok.2.2⟩)
      (fun _ _ herr => herr))

theorem settles_decodeBody (hframed : Framed b) (hrole : role ≠ .unknown) :
    Settles b (PduShape b role) 1970 3944 5917 1 (decodeBody b role) := by
  have h8 : 8 ≤ b.length := by have := hframed.length; have := hframed.two_le; omega
  have hlen : uint b 4 2 false = (be16 b 4).toNat := uint_two (by omega)
  have hprotocol : uint b 2 2 false = 0 := by
    rw [uint_two (by omega), hframed.protocol]
    rfl
  have hlow := hframed.two_le
  have hhigh := hframed.le
  have hlength := hframed.length
  unfold decodeBody
  rw [hlen, hprotocol]
  refine settles_check (fun _ _ => ?_) (fun e he => ?_)
  · refine settles_check (fun _ _ => ?_) (fun e he => ?_)
    · refine settles_check (fun _ _ => ?_) (fun e he => ?_)
      · refine settles_check (fun _ _ => ?_) (fun e he => ?_)
        · refine (settles_add (record_within (by decide) (by omega) ?_) (settles_advance
            (settles_check (fun _ _ => settles_check (fun _ hsupported => ?_) (fun e he => ?_))
              (fun e he => ?_)))).mono (k := 1 + 1969) (f := 5 + 3939) (n := 8 + 5909) Iff.rfl
                le_rfl le_rfl le_rfl le_rfl
          · simp [num, Field.new]
            omega
          · exact settles_pduBody hrole (not_not.1 (reject_ok hsupported))
          · obtain ⟨hnot, rfl⟩ := reject_error he
            exact ⟨by decide, fun hshape => hnot hshape.1⟩
          · exact absurd (reject_error he).1 hrole
        · exact absurd hlength (reject_error he).1
      · have := (reject_error he).1
        omega
    · have := (reject_error he).1
      omega
  · have := (need_error he).1
    omega

theorem byteAt_drop (n i : ℕ) : byteAt (b.drop n) i = byteAt b (n + i) := by
  rw [byteAt, byteAt, List.getD_eq_getElem?_getD, List.getD_eq_getElem?_getD, List.getElem?_drop]

theorem be16_drop (n i : ℕ) : be16 (b.drop n) i = be16 b (n + i) := by
  rw [be16, be16, byteAt_drop, byteAt_drop, Nat.add_assoc]

theorem frame_quantity (max : ℕ) :
    Modbus.quantity (b.drop 7) max = true ↔ 12 ≤ b.length ∧ Ranged b max := by
  have hlen : (b.drop 7).length = b.length - 7 := List.length_drop
  unfold Modbus.quantity Ranged
  split_ifs with hshort
  · simp only [false_iff]
    omega
  · simp only [decide_eq_true_eq, be16_drop]
    have h12 : 12 ≤ b.length := by omega
    simp [h12]

theorem pduShape_iff (hrole : role ≠ .unknown) (h8 : 8 ≤ b.length)
    (hfunction : byteAt b 7 &&& 0x7f ∈ fieldFunctions) :
    pduShape (b.drop 7) role = true ↔ PduShape b role := by
  have hlen : (b.drop 7).length = b.length - 7 := List.length_drop
  have hzero : ¬ byteAt b 7 &&& 0x7f = 0 := by
    intro hz
    rw [hz] at hfunction
    exact absurd hfunction (by decide)
  rw [pduShape, if_neg hrole, roleShape, if_neg (by omega), PduShape]
  simp only [byteAt_drop, be16_drop, hlen, Nat.add_zero, if_neg hzero, hfunction, true_and]
  by_cases hbit : byteAt b 7 &&& 0x80 ≠ 0
  · rw [if_pos hbit, if_pos hbit, decide_eq_true_eq, ExceptionShape]
    constructor
    · rintro ⟨hresponse, hnine, hcode⟩
      exact ⟨by omega, hresponse, hcode⟩
    · rintro ⟨hnine, hresponse, hcode⟩
      exact ⟨hresponse, by omega, hcode⟩
  · rw [if_neg hbit, if_neg hbit]
    have hmem := fieldFunction_cases (not_not.1 hbit) hfunction
    simp only [fieldFunctions, List.mem_cons, List.not_mem_nil, or_false] at hmem
    rcases hmem with hf | hf | hf | hf | hf | hf | hf | hf <;> cases role <;>
      simp [hf, FieldShape, frame_quantity, ReadShape, SingleShape, WriteShape, maxQuantity,
        expectedOctets] at hrole ⊢
    all_goals first
      | omega
      | (unfold Ranged; omega)
      | (simp only [← BitVec.toNat_inj]; simp; omega)

theorem exceptionBody_consumed {u : Unit} (h : exceptionBody b role r = (.ok u, t)) :
    t.consumed = b.length := by
  obtain ⟨_, hlen, h⟩ := Method.lift_bind_ok h
  obtain ⟨_, _, h⟩ := Method.lift_bind_ok h
  obtain ⟨_, mid, _, h⟩ := Method.bind_ok h
  cases h
  exact (not_not.1 (reject_ok hlen)).symm

theorem decodeBody_consumed {u : Unit} (h : decodeBody b role r = (.ok u, t)) :
    t.consumed = b.length := by
  obtain ⟨_, _, h⟩ := Method.lift_bind_ok h
  obtain ⟨_, _, h⟩ := Method.lift_bind_ok h
  obtain ⟨_, _, h⟩ := Method.lift_bind_ok h
  obtain ⟨_, _, h⟩ := Method.lift_bind_ok h
  obtain ⟨_, _, _, h⟩ := Method.bind_ok h
  obtain ⟨_, _, _, h⟩ := Method.bind_ok h
  obtain ⟨_, _, h⟩ := Method.lift_bind_ok h
  obtain ⟨_, _, h⟩ := Method.lift_bind_ok h
  unfold pduBody at h
  split_ifs at h with hbit
  · exact exceptionBody_consumed h
  · obtain ⟨_, _, _, h⟩ := Method.bind_ok h
    cases h
    rfl

theorem stop_status {e : Error} {at_ : ℕ} (hr : Sound r) (hissues : r.issues = []) :
    (r.stop e at_).status = Report.statusOf e.code := by
  have hpos := (limits_bounds hr.limits).2.2.2
  rw [Report.stop, Report.warned, if_pos (by rw [hissues]; exact hpos)]

theorem statusOf_ne_decoded (code : ErrorCode) : Report.statusOf code ≠ .decodedSubset := by
  cases code <;> decide

theorem statusOf_eq_limited {code : ErrorCode} (h : Report.statusOf code = .limited) :
    code = .limitExceeded := by
  cases code <;> first | rfl | cases h

/-- A decoded report has the shape; any other but a limited one lacks it. -/
theorem run_status (hframed : Framed b) (hrole : role ≠ .unknown) (hr : Sound r)
    (hb : r.source.data = b) (hissues : r.issues = []) (hstatus : r.status = .decodedSubset) :
    ((r.run (decodeBody b role)).status = .decodedSubset ∧ PduShape b role ∧
      (r.run (decodeBody b role)).consumed = b.length) ∨
    ((r.run (decodeBody b role)).status = .limited ∧ ¬ Room r 1970 3944 5917) ∨
    ((r.run (decodeBody b role)).status ≠ .decodedSubset ∧
      (r.run (decodeBody b role)).status ≠ .limited ∧ ¬ PduShape b role) := by
  have hsettles := settles_decodeBody hframed hrole r hr hb hissues
  rcases hrun : decodeBody b role r with ⟨result, t⟩
  cases result with
  | ok u =>
    obtain ⟨hshape, hcalm, -⟩ := hsettles.of_ok hrun
    have hreport : r.run (decodeBody b role) = t := by rw [Report.run, hrun]
    rw [hreport]
    exact .inl ⟨hcalm.status.trans hstatus, hshape, decodeBody_consumed hrun⟩
  | error e =>
    obtain ⟨hcalm, hnone, hlimit, hshape⟩ := hsettles.of_error hrun
    have hreport : (r.run (decodeBody b role)).status = Report.statusOf e.code := by
      rw [Report.run, hrun]
      exact stop_status (hcalm.sound hr) hnone
    rw [hreport]
    by_cases hcode : e.code = .limitExceeded
    · exact .inr (.inl ⟨by rw [hcode]; rfl, hlimit hcode⟩)
    · exact .inr (.inr ⟨statusOf_ne_decoded _, fun h => hcode (statusOf_eq_limited h),
        hshape hcode⟩)

end Whole

structure Ample (l : Semantics.Limits) : Prop where
  accepted : l.validate = .ok ()
  input : 260 ≤ l.maxInputBytes
  records : 1970 ≤ l.maxRecords
  fields : 3944 ≤ l.maxFields
  spans : 5917 ≤ l.maxSourceSpans
  work : 10381 ≤ l.maxWork

theorem ample_default : Ample .default := ⟨rfl, by decide, by decide, by decide, by decide, by decide⟩

section Messages
variable {m : ModbusMessage} {role : Role} {l : Semantics.Limits} {r : Report}

theorem emitted_framed (h : Emitted role m) : Framed m.raw.data :=
  ⟨h.protocol, h.two_le, h.le, h.length⟩

theorem emitted_shape_iff (h : Emitted role m) (hrole : role ≠ .unknown) :
    (m.shapeValid = true ∧ m.semanticsSupported = true) ↔ PduShape m.raw.data role := by
  have h8 : 8 ≤ m.raw.data.length := by have := h.length; have := h.two_le; omega
  rw [h.shape, h.supported, decide_eq_true_eq]
  constructor
  · rintro ⟨hshape, hfunction, -⟩
    exact (pduShape_iff hrole h8 hfunction).1 hshape
  · intro hshape
    exact ⟨(pduShape_iff hrole h8 hshape.1).2 hshape, hshape.1, hrole⟩

theorem new_spec {source : EvidenceBytes} {protocol context : String}
    (h : Report.new source protocol context l = .ok r) :
    Sound r ∧ r = ⟨source, protocol, context, l, .decodedSubset, 0, [], [], 0, 0,
      source.len + source.spans.length⟩ := by
  obtain ⟨_, hlimits, h⟩ := bind_eq_ok.1 h
  obtain ⟨-, h⟩ := guard_eq_ok.1 h
  obtain ⟨hvalid, h⟩ := guard_eq_ok.1 h
  split at h
  · cases h
  · rename_i work hwork
    obtain ⟨hadd, -⟩ := Option.filter_eq_some_iff.1 hwork
    obtain ⟨-, rfl⟩ := (checkedAdd_eq_some_iff _ _ _).1 hadd
    cases h
    exact ⟨⟨(EvidenceBytes.validate_iff _).1 (by simpa using hvalid), hlimits⟩, rfl⟩

theorem new_of_ample (hl : Ample l) {source : EvidenceBytes} (hvalid : source.Valid)
    (hlen : source.len ≤ 260) (protocol context : String) :
    ∃ r, Report.new source protocol context l = .ok r ∧ Room r 1970 3944 5917 := by
  have hspans : source.spans.length ≤ 260 := by
    have hle := length_spans_le hvalid.2
    have hlen' : source.data.length ≤ 260 := hlen
    omega
  have hword : 520 < wordBound := by decide
  obtain ⟨haccepted, hinput, hrecords, hfields, hbudget, hwork⟩ := hl
  have hsum : checkedAdd source.len source.spans.length =
      some (source.len + source.spans.length) := checkedAdd_of_lt (by omega)
  have hfilter : (checkedAdd source.len source.spans.length).filter (· ≤ l.maxWork) =
      some (source.len + source.spans.length) := by
    rw [hsum, Option.filter_some, if_pos (by simp; omega)]
  refine ⟨⟨source, protocol, context, l, .decodedSubset, 0, [], [], 0, 0,
    source.len + source.spans.length⟩, ?_, ⟨?_, ?_, ?_, ?_⟩⟩
  · rw [Report.new, haccepted]
    change (if _ then _ else _) = _
    rw [if_neg (by omega), (EvidenceBytes.validate_iff _).2 hvalid, hfilter]
    rfl
  all_goals simp only [List.length_nil]; omega

/-- A message is valid for the framing validator exactly when the field decoder reads all of it. -/
theorem decode_agrees {stream : StreamResult} {limits : PcapEvidence.Limits} {out : ModbusResult}
    (h : Modbus.decode stream role limits = .ok out) (hrole : role ≠ .unknown) :
    ∀ m ∈ out.messages, ∀ l : Semantics.Limits,
      (∀ report, decode m.raw role l = .ok report → report.status ≠ .limited →
        ((m.shapeValid = true ∧ m.semanticsSupported = true) ↔ report.status = .decodedSubset) ∧
        (report.status = .decodedSubset → report.consumed = m.raw.len)) ∧
      (Ample l → ∃ report, decode m.raw role l = .ok report ∧ report.status ≠ .limited) := by
  intro m hm l
  have hemitted := Modbus.decode_emitted h m hm
  have hframed := emitted_framed hemitted
  refine ⟨fun report hreport hlimited => ?_, fun hample => ?_⟩
  · obtain ⟨r, hnew, hreport⟩ := bind_eq_ok.1 hreport
    obtain ⟨hr, rfl⟩ := new_spec hnew
    cases hreport
    rw [emitted_shape_iff hemitted hrole]
    rcases run_status hframed hrole hr rfl rfl rfl with ⟨hdecoded, hshape, hconsumed⟩ |
      ⟨hlimit, -⟩ | ⟨hdecoded, -, hshape⟩
    · exact ⟨iff_of_true hshape hdecoded, fun _ => hconsumed⟩
    · exact absurd hlimit hlimited
    · exact ⟨iff_of_false hshape hdecoded, fun h => absurd h hdecoded⟩
  · have hlen : m.raw.len ≤ 260 := by
      have := hframed.length
      have := hframed.le
      change m.raw.data.length ≤ 260
      omega
    obtain ⟨r, hnew, hroom⟩ := new_of_ample hample hemitted.valid hlen "modbus" (roleName role)
    obtain ⟨hr, rfl⟩ := new_spec hnew
    refine ⟨_, by rw [decode, hnew]; rfl, ?_⟩
    rcases run_status hframed hrole hr rfl rfl rfl with ⟨hdecoded, -⟩ | ⟨-, hno⟩ | ⟨-, hlimited, -⟩
    · rw [hdecoded]
      decide
    · exact absurd hroom hno
    · exact hlimited

def readOne : EvidenceBytes :=
  .fromPacket [0, 1, 0, 0, 0, 6, 1, 3, 0, 0, 0, 1] ⟨Vector.replicate 32 0, 0, 0⟩ 0

def readStream : StreamResult := ⟨some 0, true, [⟨0, readOne⟩], [], [], 0⟩

theorem decode_agrees_readOne : ∃ out report, ∃ m ∈ out.messages,
    Modbus.decode readStream .request .default = .ok out ∧
      decode m.raw .request .default = .ok report ∧ report.status ≠ .limited ∧
      ((m.shapeValid = true ∧ m.semanticsSupported = true) ↔ report.status = .decodedSubset) := by
  have hok : ((Modbus.decode readStream .request .default).map
      (·.messages.length)) = .ok 1 := by decide +kernel
  obtain ⟨out, hout, hlen⟩ := map_ok hok
  obtain ⟨m, hm⟩ := List.exists_mem_of_length_pos (show 0 < out.messages.length by omega)
  obtain ⟨hiff, hample⟩ := decode_agrees hout (by decide) m hm .default
  obtain ⟨report, hreport, hlimited⟩ := hample ample_default
  exact ⟨out, report, m, hm, hout, hreport, hlimited, (hiff report hreport hlimited).1⟩

end Messages

end PcapEvidence.ModbusSemantics
