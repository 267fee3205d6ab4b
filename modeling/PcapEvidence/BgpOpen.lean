import PcapEvidence.BgpAttributes

/-!
# OPEN messages

The optional parameters of an OPEN and the capabilities in them. A capability that is invalid or
unknown stays in the inventory by its hash; an invalid or contradictory one makes the OPEN ambiguous.
-/

namespace PcapEvidence.Bgp.Wire

open FiniteMap History Mrt

structure OpenParameter where
  kind : U8
  start : ℕ
  stop : ℕ
  valueStart : ℕ
  sha256 : String
  deriving DecidableEq

structure CapabilityOccurrence where
  code : U8
  length : ℕ
  start : ℕ
  stop : ℕ
  parameterStart : ℕ
  parameterEnd : ℕ
  sha256 : String
  valid : Option Bool
  reason : String
  repetition : Repetition
  deriving DecidableEq

structure OpenDetail where
  autonomousSystem : U16
  holdTime : U16
  identifier : U32
  fourOctetAsn : Option U32
  extendedOptionalParameters : Bool
  parameters : List OpenParameter
  capabilityOccurrences : List CapabilityOccurrence
  ambiguous : Bool
  deriving DecidableEq

def payloadSha256 (data : List U8) : String := hex (Sha256.digest data).toList

def addPathTuples (value : List U8) : List ((U16 × U8) × U8) :=
  (List.range (value.length / 4)).map fun i =>
    ((be16 value (4 * i), byteAt value (4 * i + 2)), byteAt value (4 * i + 3))

def validWhen (ok : Bool) (reason : String) : Option Bool × String :=
  if ok then (some true, "valid") else (some false, reason)

def capabilityValue (code : U8) (value : List U8) : Option Bool × String :=
  match code.toNat with
  | 1 => validWhen (value.length = 4) "invalid_length"
  | 2 | 6 | 70 => validWhen (value.length = 0) "invalid_length"
  | 65 =>
    if value = [0, 0, 0, 0] then (some false, "as_zero")
    else validWhen (value.length = 4) "invalid_length"
  | 64 => validWhen (value.length ≥ 2 && (value.length - 2) % 4 = 0) "invalid_length"
  | 71 => validWhen (value.length % 7 = 0) "invalid_length"
  | 69 =>
    if value.length = 0 ∨ value.length % 4 ≠ 0 then (some false, "invalid_length")
    else validWhen ((addPathTuples value).all fun t => 1 ≤ t.2.toNat && t.2.toNat ≤ 3)
      "invalid_send_receive"
  | 9 =>
    if value.length ≠ 1 then (some false, "invalid_length")
    else validWhen ((byteAt value 0).toNat ≤ 4) "unassigned_role_value"
  | _ => (none, "unknown_capability")

structure OpenScan where
  parameters : List OpenParameter
  occurrences : List CapabilityOccurrence
  four : Option U32
  ambiguous : Bool
  capabilities : CapabilitySet
  issues : List String

def OpenScan.start : OpenScan where
  parameters := []
  occurrences := []
  four := none
  ambiguous := false
  capabilities := ⟨none, ∅, .empty, false, false, false, false, true⟩
  issues := []

namespace OpenScan

def issue (s : OpenScan) (issues : List String) : OpenScan := { s with issues := s.issues ++ issues }

def addPathFamily (s : OpenScan) (t : (U16 × U8) × U8) : OpenScan :=
  let inserted := { s with
    capabilities := { s.capabilities with addPath := s.capabilities.addPath.insert t.1 t.2 } }
  if (s.capabilities.addPath.get t.1).any (· ≠ t.2) then
    { inserted with
      ambiguous := true
      issues := s.issues ++ ["conflicting_add_path_family"] }
  else inserted

/-- The typed effect of a valid capability. -/
def advertise (s : OpenScan) (code : U8) (value : List U8) : OpenScan :=
  let caps := s.capabilities
  match code.toNat with
  | 1 => { s with
    capabilities := { caps with mp := insert (be16 value 0, byteAt value 3) caps.mp } }
  | 6 => { s with capabilities := { caps with extendedMessages := true } }
  | 70 => { s with capabilities := { caps with enhancedRefresh := true } }
  | 65 => { s with
    four := s.four.or (some (be32 value 0))
    capabilities := { caps with fourOctetAsn := some (be32 value 0) } }
  | 69 => (addPathTuples value).foldl addPathFamily s
  | _ => s

def interpret (s : OpenScan) (code : U8) (value : List U8) : OpenScan :=
  match (capabilityValue code value).1 with
  | some true => s.advertise code value
  | some false => { s with
    ambiguous := true
    capabilities := { s.capabilities with
      valid := false
      addPathMalformed := s.capabilities.addPathMalformed || code = 69 }
    issues := s.issues ++ ["invalid_declared_capability_retained"] }
  | none => { s with
    capabilities := { s.capabilities with
      unsupportedIpv6NextHopLayout := s.capabilities.unsupportedIpv6NextHopLayout || code = 77 }
    issues := s.issues ++ ["unsupported_capability_retained_by_hash"] }

def capabilityRepetition (s : OpenScan) (code : U8) (hash : String) : Repetition :=
  let prior := s.occurrences.filter (·.code = code)
  if prior = [] then .first
  else if prior.all (·.sha256 = hash) then .duplicateIdentical
  else .conflicting

def repeated (s : OpenScan) (code : U8) (rep : Repetition) : OpenScan :=
  let noted := if rep = .first then s else s.issue ["duplicate_capability_code"]
  if rep = .conflicting then
    { noted with
      ambiguous := noted.ambiguous || decide (code.toNat ∈ [6, 9, 65, 69])
      issues := noted.issues ++ ["conflicting_capability_values"] }
  else noted

def addCapability (b : List U8) (parameterStart parameterEnd q : ℕ) (s : OpenScan) : OpenScan :=
  let code := byteAt b q
  let stop := q + 2 + (byteAt b (q + 1)).toNat
  let value := sliceOf b (q + 2) stop
  let hash := payloadSha256 value
  let rep := s.capabilityRepetition code hash
  let (valid, reason) := capabilityValue code value
  let s := (s.repeated code rep).interpret code value
  { s with occurrences := s.occurrences ++
      [⟨code, stop - (q + 2), q, stop, parameterStart, parameterEnd, hash, valid, reason, rep⟩] }

/-- The capabilities of a parameter; every one takes two bytes, so the length is enough fuel. -/
def capabilityLoop (b : List U8) (parameterStart parameterEnd : ℕ) (limits : Bgp.Limits) :
    ℕ → ℕ → OpenScan → Result OpenScan
  | 0, _, s => .ok s
  | fuel + 1, q, s =>
    if q ≥ parameterEnd then .ok s
    else if q + 2 > parameterEnd then
      .error (badAt "bgp_capability" q "capability header exceeds parameter")
    else if q + 2 + (byteAt b (q + 1)).toNat > parameterEnd then
      .error (badAt "bgp_capability" q "capability exceeds parameter")
    else if s.occurrences.length + s.parameters.length + 1 > limits.elements then
      .error (Error.limit "bgp_producer_capabilities")
    else capabilityLoop b parameterStart parameterEnd limits fuel
      (q + 2 + (byteAt b (q + 1)).toNat) (s.addCapability b parameterStart parameterEnd q)

def parameterLoop (b : List U8) (extended : Bool) (limits : Bgp.Limits) :
    ℕ → ℕ → OpenScan → Result OpenScan
  | 0, _, s => .ok s
  | fuel + 1, p, s =>
    if p ≥ b.length then .ok s
    else do
      let header := if extended then 3 else 2
      need b (p + header) "bgp_open_parameter"
      let length := if extended then (be16 b (p + 1)).toNat else (byteAt b (p + 1)).toNat
      let stop := p + header + length
      if stop > b.length then .error (badAt "bgp_open_parameter" p "parameter exceeds OPEN")
      else if s.parameters.length + s.occurrences.length + 1 > limits.elements then
        .error (Error.limit "bgp_producer_parameters")
      else do
        let parameter : OpenParameter :=
          ⟨byteAt b p, p, stop, p + header, payloadSha256 (sliceOf b (p + header) stop)⟩
        let s : OpenScan := { s with parameters := s.parameters ++ [parameter] }
        let s ← if byteAt b p = 2 then
            s.capabilityLoop b p stop limits length (p + header)
          else .ok (s.issue ["unsupported_open_parameter_retained_by_hash"])
        parameterLoop b extended limits fuel stop s

def fourConflicting (s : OpenScan) : Bool :=
  s.occurrences.any fun x => s.occurrences.any fun y =>
    x.code = 65 && y.code = 65 && x.sha256 ≠ y.sha256

def settleFour (s : OpenScan) : OpenScan :=
  if s.fourConflicting then
    { s with four := none, capabilities := { s.capabilities with fourOctetAsn := none } }
  else s

/-- The fixed fields beside the capabilities. -/
def settleFields (s : OpenScan) (autonomousSystem holdTime : U16) : OpenScan :=
  let inconsistent := s.four.any fun asn =>
    if asn.toNat ≤ 65535 then asn.toNat ≠ autonomousSystem.toNat else autonomousSystem ≠ 23456
  { s with
    ambiguous := s.ambiguous || autonomousSystem = 0 || holdTime = 1 || holdTime = 2 || inconsistent
    issues := s.issues ++
      (if s.occurrences.any (·.code = 71) && !s.occurrences.any (·.code = 64) then
        ["llgr_without_gr_disregarded"] else []) ++
      (if autonomousSystem = 0 then ["open_peer_as_zero"] else []) ++
      (if holdTime = 0 then ["hold_time_zero"] else []) ++
      (if holdTime = 1 || holdTime = 2 then ["open_hold_time_invalid_for_base_subset"] else []) ++
      if inconsistent then ["open_asn_fields_inconsistent"] else [] }

end OpenScan

def parseOpenBody (b : List U8) (limits : Bgp.Limits) : Result (OpenState × OpenDetail) := do
  need b 29 "bgp_open"
  if byteAt b 19 ≠ 4 then .error (badAt "bgp_version" 19 "only BGP-4 is supported")
  else do
    let extended := byteAt b 28 ≠ 0 && b.length > 29 && byteAt b 29 = 255
    if extended then need b 32 "bgp_open_extended_options" else .ok ()
    let start := if extended then 32 else 29
    let length := if extended then (be16 b 30).toNat else (byteAt b 28).toNat
    if start + length ≠ b.length then
      .error (badAt "bgp_open_options" 28 "optional extent does not fill OPEN")
    else do
      let scan ← OpenScan.start.parameterLoop b extended limits length start
      let s := scan.settleFour.settleFields (be16 b 20) (be16 b 22)
      if s.issues.length > limits.elements then .error (Error.limit "bgp_producer_issues")
      else if be32 b 24 = 0 then
        .error (badAt "bgp_identifier" 24 "BGP Identifier must be a nonzero unsigned 32-bit value")
      else
        .ok (⟨b, be16 b 20, s.four, s.capabilities, s.issues, s.ambiguous⟩,
          ⟨be16 b 20, be16 b 22, be32 b 24, s.four, extended, s.parameters, s.occurrences,
            s.ambiguous⟩)

end PcapEvidence.Bgp.Wire
