import PcapEvidence.ModbusFrame
import PcapEvidence.Semantics

/-!
# Modbus/TCP fields

Addresses are zero-based wire addresses, and a read response alone cannot reveal how many bits were
requested. One arm of the decoder handles each group of function codes in each role.
-/

namespace PcapEvidence.ModbusSemantics
open Semantics
open Semantics.Report (add advance warn)
open Modbus (exceptionCodes fieldFunctions paddingIsZero)

abbrev Body := Method Report Error Unit

def num (name : String) (value start stop : ℕ) : Field := .new name (.unsigned value) start stop

def invalid (at_ : ℕ) (code : String) : Error := fail .invalidLength at_ code

def reject (condition : Prop) [Decidable condition] (e : Error) : Result Unit :=
  if condition then .error e else .ok ()

def quantity (b : List U8) (max : ℕ) : Result (ℕ × ℕ) := do
  need b 8 4 "modbus_address_quantity_truncated"
  let first := uint b 8 2 false
  let count := uint b 10 2 false
  if count = 0 ∨ count > max ∨ first + count > 65536 then
    .error (invalid 8 "modbus_address_quantity_range")
  else .ok (first, count)

def exactLength (b : List U8) (expected : ℕ) : Result Unit :=
  reject (b.length ≠ expected) (invalid 0 "modbus_pdu_shape")

def addressFields (b : List U8) (max : ℕ) : Result (List Field) := do
  let (first, count) ← quantity b max
  .ok [num "starting_address_zero_based" first 8 10, num "quantity" count 10 12]

def registerRecord (b : List U8) (p : ℕ) (address : Option ℕ) : Semantics.Record :=
  ⟨"register", p, p + 2, num "register_u16" (uint b p 2 false) p (p + 2) ::
    (address.map fun address => Field.derived "address_zero_based" address 8 10
      "starting_address_plus_record_ordinal").toList⟩

/-- The loop of `registers` from the `i`-th register on. -/
def registers (b : List U8) (at_ : ℕ) (first : Option ℕ) : ℕ → ℕ → Body
  | 0, _ => pure ()
  | count + 1, i => do
    Method.lift (need b (at_ + i * 2) 2 "modbus_register_truncated")
    add (registerRecord b (at_ + i * 2) (first.map (· + i)))
    advance (at_ + i * 2 + 2)
    registers b at_ first count (i + 1)

def octetRecord (b : List U8) (p : ℕ) : Semantics.Record :=
  ⟨"packed_response_octet", p, p + 1, [num "packed_lsb_first" (byteAt b p).toNat p (p + 1)]⟩

def packedOctets (b : List U8) : ℕ → ℕ → Body
  | 0, _ => pure ()
  | count + 1, i => do
    add (octetRecord b (9 + i))
    advance (9 + i + 1)
    packedOctets b count (i + 1)

def coilRecord (b : List U8) (first i : ℕ) : Semantics.Record :=
  ⟨"coil", 13 + i / 8, 13 + i / 8 + 1,
    [Field.derived "address_zero_based" (first + i) 8 10 "starting_address_plus_record_ordinal",
      Field.bitField "value" (byteAt b (13 + i / 8) &&& (1 <<< (i % 8)) ≠ 0) (13 + i / 8) (i % 8)]⟩

def coils (b : List U8) (first : ℕ) : ℕ → ℕ → Body
  | 0, _ => pure ()
  | count + 1, i => do
    add (coilRecord b first i)
    coils b first count (i + 1)

def readRequest (b : List U8) (max : ℕ) : Body := do
  Method.lift (exactLength b 12)
  let fields ← Method.lift (addressFields b max)
  add ⟨"read_request", 8, 12, fields⟩

def readValues (b : List U8) (function count : ℕ) : Body :=
  if function ≥ 3 then registers b 9 none (count / 2) 0
  else do
    packedOctets b count 0
    warn "requested_bit_count_and_addresses_require_request" 9 b.length

def readResponse (b : List U8) (function : ℕ) : Body := do
  Method.lift (need b 8 1 "modbus_byte_count_truncated")
  let count := (byteAt b 8).toNat
  Method.lift (reject (count = 0 ∨ count > 250 ∨ b.length ≠ 9 + count ∨
    (function ≥ 3 ∧ count % 2 ≠ 0)) (invalid 8 "modbus_read_response_byte_count"))
  add ⟨"read_response", 8, 9, [num "byte_count" count 8 9]⟩
  advance 9
  readValues b function count

def writeSingle (b : List U8) (function : ℕ) (role : Role) : Body := do
  Method.lift (exactLength b 12)
  let value := uint b 10 2 false
  Method.lift (reject (function = 5 ∧ ¬ (value = 0 ∨ value = 0xff00))
    (invalid 10 "modbus_single_coil_encoding"))
  let fields := [num "address_zero_based" (uint b 8 2 false) 8 10, num "wire_value" value 10 12]
  let coil := if function = 5 then [Field.new "coil_value" (.boolean (value = 0xff00)) 10 12] else []
  add ⟨if role = .request then "write_request" else "write_echo_response", 8, 12, fields ++ coil⟩

def writeEcho (b : List U8) (max : ℕ) : Body := do
  Method.lift (exactLength b 12)
  let fields ← Method.lift (addressFields b max)
  add ⟨"write_echo_response", 8, 12, fields⟩

def padding (b : List U8) (count : ℕ) : Body :=
  if !paddingIsZero (BitVec.ofNat 16 count) (b.drop 13) then
    warn "write_unused_bits_nonzero_recommendation" (b.length - 1) b.length
  else pure ()

def coilBudget (count : ℕ) : Body := do
  let out ← Method.read
  Method.lift (reject (count > out.limits.maxRecords - out.records.length)
    (fail .limitExceeded 13 "modbus_coil_record_budget"))

def writeValues (b : List U8) (function first count : ℕ) : Body :=
  if function = 16 then registers b 13 (some first) count 0
  else do
    coilBudget count
    coils b first count 0
    padding b count

def writeMultiple (b : List U8) (function : ℕ) : Body := do
  let max := if function = 15 then 1968 else 123
  Method.lift (need b 8 5 "modbus_write_header_truncated")
  let (first, count) ← Method.lift (quantity b max)
  let expected := if function = 15 then (count + 7) / 8 else count * 2
  Method.lift (reject ((byteAt b 12).toNat ≠ expected ∨ b.length ≠ 13 + expected)
    (invalid 12 "modbus_write_byte_count"))
  let fields ← Method.lift (addressFields b max)
  add ⟨"write_multiple_request", 8, 13, fields ++ [num "byte_count" expected 12 13]⟩
  advance 13
  writeValues b function first count

def exceptionBody (b : List U8) (role : Role) : Body := do
  Method.lift (exactLength b 9)
  Method.lift (reject (role ≠ .response ∨ byteAt b 8 ∉ exceptionCodes)
    (invalid 8 "modbus_exception_role_or_code"))
  add ⟨"exception_response", 8, 9, [num "exception_code" (byteAt b 8).toNat 8 9]⟩
  advance 9

def functionBody (b : List U8) (function : ℕ) (role : Role) : Body :=
  if 1 ≤ function ∧ function ≤ 4 ∧ role = .request then
    readRequest b (if function ≤ 2 then 2000 else 125)
  else if 1 ≤ function ∧ function ≤ 4 ∧ role = .response then readResponse b function
  else if function = 5 ∨ function = 6 then writeSingle b function role
  else if (function = 15 ∨ function = 16) ∧ role = .response then
    writeEcho b (if function = 15 then 1968 else 123)
  else if (function = 15 ∨ function = 16) ∧ role = .request then writeMultiple b function
  else Method.fail (fail .unsupportedTransport 8 "modbus_role_outside_subset")

def mbapRecord (b : List U8) : Semantics.Record :=
  ⟨"mbap", 0, 8, [num "transaction_id" (uint b 0 2 false) 0 2, num "protocol_id" 0 2 4,
    num "length" (uint b 4 2 false) 4 6, num "unit_id" (byteAt b 6).toNat 6 7,
    num "function" (byteAt b 7).toNat 7 8]⟩

def pduBody (b : List U8) (role : Role) : Body :=
  if byteAt b 7 &&& 0x80 ≠ 0 then exceptionBody b role
  else do
    functionBody b (byteAt b 7).toNat role
    advance b.length

def decodeBody (b : List U8) (role : Role) : Body := do
  Method.lift (need b 0 8 "modbus_mbap_truncated")
  let len := uint b 4 2 false
  Method.lift (reject (uint b 2 2 false ≠ 0 ∨ ¬ (2 ≤ len ∧ len ≤ 254))
    (invalid 2 "modbus_mbap_fields"))
  Method.lift (reject (b.length < len + 6) (fail .truncated b.length "modbus_adu_truncated"))
  Method.lift (reject (b.length ≠ len + 6) (invalid 4 "modbus_exactly_one_adu_required"))
  add (mbapRecord b)
  advance 8
  Method.lift (reject (role = .unknown) (fail .unsupportedTransport 8 "modbus_role_not_supplied"))
  Method.lift (reject (byteAt b 7 &&& 0x7f ∉ fieldFunctions)
    (fail .unsupportedTransport 7 "modbus_function_outside_field_subset"))
  pduBody b role

def roleName : Role → String
  | .request => "request"
  | .response => "response"
  | .unknown => "unknown"

def decode (source : EvidenceBytes) (role : Role) (limits : Semantics.Limits) : Result Report := do
  let out ← Report.new source "modbus" (roleName role) limits
  .ok (out.run (decodeBody source.data role))

end PcapEvidence.ModbusSemantics
