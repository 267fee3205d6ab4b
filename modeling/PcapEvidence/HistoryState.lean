import PcapEvidence.HistoryTuple

/-!
# Generations and sequence hypotheses of a tuple

A tuple keeps its connection generations. A segment is placed in every generation and at every
sequence epoch that could hold it, and only a single candidate, or the nearest one when the policy
says so, changes a generation.
-/

namespace PcapEvidence.History

open Method ByteCodec

def MODULUS : ℤ := 2 ^ 32

/-- One value for each direction of a tuple. -/
structure Dirs (α : Type) where
  forward : α
  backward : α
  deriving DecidableEq

namespace Dirs

variable {α : Type}

def get (x : Dirs α) (d : Bool) : α := if d then x.backward else x.forward

def set (x : Dirs α) (d : Bool) (v : α) : Dirs α :=
  if d then { x with backward := v } else { x with forward := v }

@[simp] theorem get_set_self (x : Dirs α) (d : Bool) (v : α) : (x.set d v).get d = v := by
  cases d <;> rfl

theorem get_set_of_ne (x : Dirs α) {d e : Bool} (h : e ≠ d) (v : α) :
    (x.set d v).get e = x.get e := by
  cases d <;> cases e <;> first | rfl | exact absurd rfl h

end Dirs

instance (v : ℤ) : Decidable (InI64 v) := inferInstanceAs (Decidable (_ ∧ _))

/-- Checked addition of 64-bit signed values; subtraction adds the negative value. -/
def checkedAddI64 (a b : ℤ) : Option ℤ := if InI64 (a + b) then some (a + b) else none

structure Generation where
  id : Digest
  birth : U64
  syn : Dirs (Option U32)
  anchor : Dirs (Option U32)
  low : Dirs ℤ
  high : Dirs ℤ
  fin : Dirs (Option ℤ)
  reset : Bool
  midstream : Bool
  lastTime : Option (BitVec 128)

namespace Generation

def closed (g : Generation) : Bool := g.reset || (g.fin.forward.isSome && g.fin.backward.isSome)

def encode (g : Generation) : List U8 :=
  Encoder.hash g.id ++ Encoder.u64 g.birth ++
    Encoder.optionU32 g.syn.forward ++ Encoder.optionU32 g.syn.backward ++
    Encoder.optionU32 g.anchor.forward ++ Encoder.optionU32 g.anchor.backward ++
    Encoder.i64 g.low.forward ++ Encoder.i64 g.low.backward ++
    Encoder.i64 g.high.forward ++ Encoder.i64 g.high.backward ++
    Encoder.optionI64 g.fin.forward ++ Encoder.optionI64 g.fin.backward ++
    Encoder.boolean g.reset ++ Encoder.boolean g.midstream ++ Encoder.optionI128 g.lastTime

def decodeDirs {α : Type} (m : DecoderM α) : DecoderM (Dirs α) := do
  let forward ← m
  let backward ← m
  pure ⟨forward, backward⟩

def decode : DecoderM Generation := do
  let id ← Decoder.hash
  let birth ← Decoder.u64
  let syn ← decodeDirs Decoder.optionU32
  let anchor ← decodeDirs Decoder.optionU32
  let low ← decodeDirs Decoder.i64
  let high ← decodeDirs Decoder.i64
  let fin ← decodeDirs Decoder.optionI64
  let reset ← Decoder.boolean
  let midstream ← Decoder.boolean
  let lastTime ← Decoder.optionI128
  pure ⟨id, birth, syn, anchor, low, high, fin, reset, midstream, lastTime⟩

end Generation

structure Placement where
  generation : Digest
  direction : U8
  offset : ℤ
  selected : Bool
  deriving DecidableEq

structure Decision where
  before : Digest
  after : Digest
  placements : List Placement
  reasons : List String
  policyAssumption : Bool
  deriving DecidableEq

def epochCandidates (sequence anchor : U32) (low high : ℤ) (max : ℕ) : Result (List ℤ) :=
  if low > high ∨ max = 0 ∨ max > 64 then .error (bad "sequence_epoch" "invalid range/budget")
  else
    let residue : ℤ := (sequence - anchor).toNat
    let first := (low - residue + MODULUS - 1) / MODULUS
    let last := (high - residue) / MODULUS
    if last < first then .ok []
    else if last - first + 1 > max then .error (Error.limit "sequence_epoch_candidates")
    else (List.range (last - first + 1).toNat).mapM fun (k : ℕ) =>
      if InI64 (residue + (first + k) * MODULUS) then .ok (residue + (first + k) * MODULUS)
      else .error (Error.limit "sequence_epoch")

structure TupleState where
  key : Key
  generations : List Generation

namespace TupleState

def new (key : Key) : TupleState := ⟨key, []⟩

def encode (t : TupleState) : Result (List U8) := do
  let key ← t.key.encode
  let key ← Encoder.bytes key
  if t.generations.length ≥ 2 ^ 32 then .error (Error.limit "generations")
  else .ok (key ++ Encoder.u32 (BitVec.ofNat 32 t.generations.length) ++
    t.generations.flatMap Generation.encode)

def decodeM (c : Config) : DecoderM TupleState := do
  let blob ← Decoder.bytes 10000
  let key ← lift (Key.decode blob)
  let n ← Decoder.u32
  if n.toNat > c.maxGenerations then fail (Error.limit "generations")
  else do
    let generations ← repeated Generation.decode n.toNat
    Decoder.finish
    if ∃ g ∈ generations, g.birth = 0 ∨ g.low.forward > g.high.forward ∨
        g.low.backward > g.high.backward then
      fail (bad "history_state" "invalid generation bounds")
    else pure ⟨key, generations⟩

def decode (b : List U8) (c : Config) : Result TupleState := Decoder.run (decodeM c) b

variable (sha256 : List U8 → Digest)

def create (p : TcpInput) (s : SourceIdentity) (c : Config) (t : TupleState) :
    Result TupleState := do
  if t.generations.length ≥ c.maxGenerations then .error (Error.limit "generations_per_tuple")
  else do
    let name ← Encoder.text "pcap-evidence/history-generation/v1"
    let key ← t.key.encode
    let key ← Encoder.bytes key
    let seed := name ++ Encoder.hash s.sha256 ++ key ++ Encoder.u64 p.frame ++
      Encoder.u64 (BitVec.ofNat 64 t.generations.length)
    let g : Generation := {
      id := sha256 seed
      birth := p.frame
      syn := ⟨none, none⟩
      anchor := ⟨none, none⟩
      low := ⟨0, 0⟩
      high := ⟨0, 0⟩
      fin := ⟨none, none⟩
      reset := false
      midstream := !p.syn || p.ack
      lastTime := none }
    .ok { t with generations := t.generations ++ [g] }

end TupleState

namespace TcpInput

def dir (p : TcpInput) : Bool := p.direction ≠ 0

/-- The places in a generation: none when a SYN-ACK contradicts the handshake. -/
def offsetsIn (p : TcpInput) (c : Config) (g : Generation) : Result (List ℤ) :=
  if p.syn ∧ (g.closed ∨ (g.syn.get p.dir).any (· ≠ p.sequence)) then .ok []
  else if p.syn ∧ (g.syn.get (!p.dir)).any (fun peer => !p.ack || p.acknowledgement ≠ peer + 1) then
    .ok []
  else match g.anchor.get p.dir with
    | some anchor => do
      let high ← okOr (Error.limit "sequence_span") (if g.closed then some (g.high.get p.dir)
        else checkedAddI64 (g.high.get p.dir) c.sequenceHorizon)
      let low ← okOr (Error.limit "sequence_span") (if (g.syn.get p.dir).isSome then some 0
        else checkedAddI64 (g.low.get p.dir) (-c.sequenceHorizon))
      epochCandidates p.dataSequence anchor low high c.maxEpochCandidates
    | none => if g.closed then .ok [] else .ok [0]

/-- All places in the generations, numbered from `i`. -/
def placesFrom (p : TcpInput) (c : Config) : ℕ → List Generation → Result (List (ℕ × ℤ))
  | _, [] => .ok []
  | i, g :: rest => do
    let offsets ← p.offsetsIn c g
    let more ← placesFrom p c (i + 1) rest
    .ok (offsets.map (fun offset => (i, offset)) ++ more)

/-- The open generations that a repeated SYN belongs to, numbered from `i`. -/
def repeatsFrom (p : TcpInput) : ℕ → List Generation → List (ℕ × ℤ)
  | _, [] => []
  | i, g :: rest =>
    if g.closed = false ∧ g.syn.get p.dir = some p.sequence then (i, 0) :: repeatsFrom p (i + 1) rest
    else repeatsFrom p (i + 1) rest

def Simultaneous (p : TcpInput) (t : TupleState) : Prop :=
  ∃ g ∈ t.generations.getLast?, g.closed = false ∧ g.midstream = false ∧
    g.syn.get p.dir = none ∧ (g.syn.get (!p.dir)).isSome ∧ g.high = ⟨0, 0⟩

instance (p : TcpInput) (t : TupleState) : Decidable (p.Simultaneous t) :=
  inferInstanceAs (Decidable (∃ g ∈ t.generations.getLast?, _))

end TcpInput

structure Choice where
  state : TupleState
  candidates : List (ℕ × ℤ)
  reasons : List String

namespace TupleState

variable (sha256 : List U8 → Digest)

def start (p : TcpInput) (s : SourceIdentity) (c : Config) (reason : String) (t : TupleState) :
    Result Choice := do
  let t' ← create sha256 p s c t
  .ok ⟨t', [(t.generations.length, 0)], [reason]⟩

def candidates (p : TcpInput) (s : SourceIdentity) (c : Config) (t : TupleState) : Result Choice :=
  if p.syn ∧ p.ack = false then
    let repeats := p.repeatsFrom 0 t.generations
    if repeats = [] then
      if p.Simultaneous t then
        .ok ⟨t, [(t.generations.length - 1, 0)], ["simultaneous_open_candidate"]⟩
      else start sha256 p s c "observed_syn_generation_boundary" t
    else .ok ⟨t, repeats, ["repeated_syn_candidate_not_endpoint_identity"]⟩
  else if t.generations = [] then start sha256 p s c "missing_initial_syn" t
  else do
    let places ← p.placesFrom c 0 t.generations
    if places = [] ∧ p.syn then start sha256 p s c "syn_ack_without_observed_generation" t
    else .ok ⟨t, places, []⟩

end TupleState

def ranked (frontier : ℤ) (candidates : List (ℕ × ℤ)) : List (ℕ × ℕ) :=
  (candidates.zipIdx.map fun x => ((x.1.2 - frontier).natAbs, x.2)).insertionSort fun a b =>
    a.1 < b.1 ∨ (a.1 = b.1 ∧ a.2 ≤ b.2)

def nearest (d : Bool) (t : TupleState) (candidates : List (ℕ × ℤ)) : Option ℕ :=
  match candidates with
  | [] => none
  | first :: _ =>
    if candidates.all (fun x => x.1 = first.1) then
      match t.generations[first.1]? with
      | none => none
      | some g =>
        match ranked (g.high.get d) candidates with
        | [] => none
        | [x] => some x.2
        | x :: y :: _ => if x.1 < y.1 then some x.2 else none
    else none

def select (d : Bool) (c : Config) (t : TupleState) (candidates : List (ℕ × ℤ)) : Option ℕ × Bool :=
  if candidates.length = 1 then (some 0, false)
  else if 1 < candidates.length ∧ c.epochPolicy = .nearestFrontier then
    match nearest d t candidates with
    | some j => (some j, true)
    | none => (none, false)
  else (none, false)

namespace Generation

/-- The reasons that a reader of the decision sees before the generation changes. -/
def lateness (p : TcpInput) (g : Generation) : List String :=
  (if g.closed then ["late_packet_after_observed_close"] else []) ++
    (match p.when_, g.lastTime with
      | some now, some last => if now.slt last then ["capture_clock_reversal"] else []
      | _, _ => []) ++
    if p.when_.isSome then [] else ["timestamp_unavailable"]

def latest (p : TcpInput) (g : Generation) : Option (BitVec 128) :=
  match p.when_ with
  | some now => some (match g.lastTime with
    | none => now
    | some last => if last.slt now then now else last)
  | none => g.lastTime

def observe (p : TcpInput) (offset : ℤ) (g : Generation) : Result (Generation × List String) := do
  let d := p.dir
  let stop ← okOr (Error.limit "sequence_span") (checkedAddI64 offset p.payload.length)
  let beyond := if (g.fin.get d).any (fun fin => fin < stop) ∧ p.payload ≠ [] then
    ["payload_beyond_observed_fin"] else []
  let conflict := (g.fin.get d).any (· ≠ stop)
  .ok ({ g with
    lastTime := g.latest p
    syn := if p.syn then g.syn.set d (some p.sequence) else g.syn
    anchor := g.anchor.set d (some ((g.anchor.get d).getD p.dataSequence))
    low := g.low.set d (min (g.low.get d) offset)
    high := g.high.set d (max (g.high.get d) stop)
    fin := if p.fin ∧ conflict = false then g.fin.set d (some stop) else g.fin
    reset := g.reset || p.rst },
    g.lateness p ++ beyond ++ if p.fin ∧ conflict then ["conflicting_fin_position"] else [])

end Generation

namespace TupleState

variable (sha256 : List U8 → Digest)

def observe (p : TcpInput) (j : Option ℕ) (choice : Choice) : Result (TupleState × List String) :=
  match j.bind (choice.candidates[·]?) with
  | none => .ok (choice.state, [])
  | some (i, offset) =>
    match choice.state.generations[i]? with
    | none => .ok (choice.state, [])
    | some g => do
      let (g', reasons) ← g.observe p offset
      .ok ({ choice.state with generations := choice.state.generations.set i g' }, reasons)

def placements (p : TcpInput) (t : TupleState) (j : Option ℕ) (candidates : List (ℕ × ℤ)) :
    List Placement :=
  candidates.zipIdx.filterMap fun x => t.generations[x.1.1]?.map fun g =>
    ⟨g.id, p.direction, x.1.2, j = some x.2⟩

def ingestInner (input : TcpInput) (s : SourceIdentity) (c : Config) (t : TupleState) :
    Result (Decision × TupleState) := do
  c.validate
  let b ← input.encode
  let p ← TcpInput.decode b c
  if p.key ≠ t.key then .error (bad "history_key" "input tuple changed")
  else do
    let encoded ← t.encode
    let choice ← candidates sha256 p s c t
    let (j, assumption) := select p.dir c choice.state choice.candidates
    let nearestReason := if assumption then
      ["nearest_frontier_epoch_assumption_alternatives_retained"] else []
    let several := if 1 < choice.candidates.length then
      ["multiple_generation_or_sequence_epoch_candidates"] else []
    let outside := if choice.candidates = [] then
      ["outside_observed_generation_hypotheses"] else []
    let window := if p.window = 0 then ["zero_advertised_window_no_scale_inference"] else []
    let (t', reasons) ← observe p j choice
    let after ← t'.encode
    .ok (⟨sha256 encoded, sha256 after, placements p t' j choice.candidates,
      choice.reasons ++ nearestReason ++ several ++ outside ++ window ++ reasons, assumption⟩, t')

def ingest (input : TcpInput) (s : SourceIdentity) (c : Config) :
    Method TupleState Error Decision := fun t =>
  match (do
    c.validate
    if input.raw.length > 65535 ∨ input.witnesses.length > c.maxWitnesses ∨
        t.generations.length > c.maxGenerations then .error (Error.limit "history_state_input")
    else do
      let _ ← t.key.encode
      ingestInner sha256 input s c t : Result (Decision × TupleState)) with
  | .ok (decision, t') => (.ok decision, t')
  | .error e => (.error e, t)

end TupleState

end PcapEvidence.History
