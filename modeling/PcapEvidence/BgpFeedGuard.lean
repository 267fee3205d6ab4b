import PcapEvidence.BgpCandidateState

/-!
# The work of a replay

A guard measures a tree before it is cloned or written: its depth, its nodes, its references and the
size of its text. The counters describe one tree; the work is carried on through a call.
-/

namespace PcapEvidence.Bgp.Feed

open Json History

structure Guard where
  work : ℕ
  nodes : ℕ
  spans : ℕ

def add (a b : ℕ) : Result ℕ := State.add a b "bgp_replay_budget"

namespace Guard

def charge (l : Limits) (g : Guard) (amount : ℕ) : Result Guard := do
  let work ← add g.work amount
  if work > l.work then .error (Error.limit "bgp_replay_work") else return { g with work := work }

def quotedSize (c : Char) : ℕ :=
  if c ∈ ['"', '\\', '\n', '\r', '\t', '\x08', '\x0c'] then 2
  else if c.toNat < 32 then 6
  else c.utf8Size

def quotedLen (l : Limits) (g : Guard) (value : String) : Result (ℕ × Guard) := do
  if value.utf8ByteSize > l.inputBytes then .error (Error.limit "bgp_replay_string")
  else
    let g ← g.charge l value.utf8ByteSize
    let size ← value.toList.foldlM (fun size c => add size (quotedSize c)) 2
    return (size, g)

def enter (l : Limits) (depth : ℕ) (g : Guard) : Result Guard := do
  if depth > l.depth then .error (Error.limit "bgp_replay_depth")
  else
    let nodes ← add g.nodes 1
    if nodes > l.fields then .error (Error.limit "bgp_replay_fields")
    else Guard.charge l { g with nodes := nodes } 1

/-- The claims that a record cannot make. -/
def authorityKeys : List String :=
  ["endpoint_state_established", "rib_established", "best_path_selected",
    "reachability_established", "attack_established", "causality_established",
    "source_authority_established", "normative_conformance_certified", "wire_verified",
    "source_authenticated", "source_verified", "ordering_established",
    "namespace_equivalence_established"]

def spanKeys : List String := ["spans", "packets", "ranges", "provenance"]

def countSpans (l : Limits) (g : Guard) (key : String) : Json → Result Guard
  | .array items =>
    if key ∈ spanKeys then do
      let spans ← add g.spans items.toList.length
      if spans > l.spans then .error (Error.limit "bgp_replay_spans") else return { g with spans := spans }
    else .ok g
  | _ => .ok g

def countDigits : ℕ → ℕ → ℕ → ℕ
  | 0, _, digits => digits
  | fuel + 1, n, digits => if n ≥ 10 then countDigits fuel (n / 10) (digits + 1) else digits

mutual

def tree (l : Limits) : Json → ℕ → Guard → Result (ℕ × Guard)
  | .null, depth, g => (g.enter l depth).map (4, ·)
  | .bool b, depth, g => (g.enter l depth).map (if b then 4 else 5, ·)
  | .number n, depth, g => do
    let g ← g.enter l depth
    let g ← g.charge l 20
    return (countDigits 20 n.toNat 1, g)
  | .string s, depth, g => do
    let g ← g.enter l depth
    g.quotedLen l s
  | .array items, depth, g => do
    let g ← g.enter l depth
    if items.toList.length > l.fields then .error (Error.limit "bgp_replay_fields")
    else
      let size ← add 2 (items.toList.length - 1)
      treeItems l items (depth + 1) size g
  | .object fields, depth, g => do
    let g ← g.enter l depth
    if fields.toList.length > l.fields then .error (Error.limit "bgp_replay_fields")
    else
      let size ← add 2 (fields.toList.length - 1)
      treeFields l fields (depth + 1) [] size g

def treeItems (l : Limits) : JsonItems → ℕ → ℕ → Guard → Result (ℕ × Guard)
  | .nil, _, size, g => .ok (size, g)
  | .cons item rest, depth, size, g => do
    let (itemSize, g) ← tree l item depth g
    let size ← add size itemSize
    treeItems l rest depth size g

def treeFields (l : Limits) : JsonFields → ℕ → List String → ℕ → Guard → Result (ℕ × Guard)
  | .nil, _, _, size, g => .ok (size, g)
  | .cons key value rest, depth, keys, size, g => do
    let (keySize, g) ← g.quotedLen l key
    let size ← add size (← add keySize 1)
    if key ∈ keys then .error (bad "bgp_replay_duplicate_key" "duplicate JSON field")
    else if key ∈ authorityKeys ∧ value ≠ .bool false then
      .error (bad "bgp_replay_authority" "authority claims must be absent or false")
    else
      let g ← g.countSpans l key value
      let (valueSize, g) ← tree l value depth g
      let size ← add size valueSize
      treeFields l rest depth (key :: keys) size g

end

def measure (l : Limits) (g : Guard) (value : Json) (max : ℕ) : Result (ℕ × Guard) := do
  let (size, phase) ← tree l value 1 ⟨g.work, 0, 0⟩
  if size > max then .error (Error.limit "report_bytes")
  else return (size, { g with work := phase.work })

def prepareEncoding (l : Limits) (g : Guard) (value : Json) (max : ℕ) : Result (ℕ × Guard) := do
  let (size, g) ← g.measure l value (min max l.outputBytes)
  if size * 4 ≥ wordBound then .error (Error.limit "bgp_replay_work")
  else
    let g ← g.charge l (size * 4)
    return (size, g)

def encode (l : Limits) (g : Guard) (value : Json) (max : ℕ) : Result (Json × String × Guard) := do
  let (size, g) ← g.prepareEncoding l value max
  let encoded ← value.canonical.encodeBounded size
  return (value.canonical, encoded, g)

end Guard

end PcapEvidence.Bgp.Feed
