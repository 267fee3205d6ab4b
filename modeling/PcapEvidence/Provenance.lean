import PcapEvidence.Errors
import PcapEvidence.SortedVec
import Mathlib.Data.Prod.Lex
import Mathlib.Data.List.Lex

/-!
# Bytes that remember the packets they came from

`EvidenceBytes` is a run of reconstructed bytes together with spans that map half-open ranges of it
to captured packets.

A method of the source that takes `&mut self` returns its result beside the value it leaves behind,
so that what a failing call has already changed stays visible.
-/

namespace PcapEvidence

open SortedVec

structure PacketId where
  capture : Vector U8 32
  frame : ℕ
  recordOffset : ℕ

namespace PacketId

def orderKey (p : PacketId) : List ℕ ×ₗ ℕ ×ₗ ℕ :=
  toLex (p.capture.toList.map BitVec.toNat, toLex (p.frame, p.recordOffset))

theorem orderKey_injective : Function.Injective orderKey := by
  rintro ⟨c, f, r⟩ ⟨c', f', r'⟩ h
  simp only [orderKey, EmbeddingLike.apply_eq_iff_eq, Prod.mk.injEq] at h
  obtain ⟨hc, rfl, rfl⟩ := h
  have hl : c.toList = c'.toList := List.map_injective_iff.2 BitVec.toNat_injective hc
  rw [Vector.toList_inj.1 hl]

instance : LinearOrder PacketId := LinearOrder.lift' orderKey orderKey_injective

end PacketId

structure SourceSpan where
  start : ℕ
  stop : ℕ
  packet : PacketId
  packetStart : ℕ
  deriving DecidableEq

structure EvidenceBytes where
  data : List U8
  spans : List SourceSpan
  layoutValid : Bool
  deriving DecidableEq

namespace EvidenceBytes

def empty : EvidenceBytes := ⟨[], [], true⟩

instance : Inhabited EvidenceBytes := ⟨empty⟩

def invalid (detail : String) : Error := ⟨.invariant, 0, "provenance", detail⟩

def fromPacket (data : List U8) (packet : PacketId) (packetStart : ℕ) : EvidenceBytes where
  data := data
  spans := if data.isEmpty then [] else [⟨0, data.length, packet, packetStart⟩]
  layoutValid := data.isEmpty || (checkedAdd packetStart data.length).isSome

def len (e : EvidenceBytes) : ℕ := e.data.length

def isEmpty (e : EvidenceBytes) : Bool := e.data.isEmpty

/-- The loop of `slice` over the spans that meet the range `a..b`. -/
def clipSpans (a b : ℕ) : List SourceSpan → Result (List SourceSpan)
  | [] => .ok []
  | s :: rest =>
    if max s.start a < min s.stop b then
      match checkedAdd s.packetStart (max s.start a - s.start) with
      | none => .error (invalid "source offset overflow")
      | some p => (clipSpans a b rest).map
          (⟨max s.start a - a, min s.stop b - a, s.packet, p⟩ :: ·)
    else clipSpans a b rest

def slice (e : EvidenceBytes) (a b : ℕ) : Result EvidenceBytes :=
  if !e.layoutValid then .error (invalid "invalid source-span layout")
  else if a > b ∨ b > e.data.length then
    .error ⟨.invariant, 0, "evidence_slice", "slice outside retained evidence"⟩
  else
    (clipSpans a b ((e.spans.dropWhile (fun s => s.stop ≤ a)).takeWhile (fun s => s.start < b))).map
      (fun spans => ⟨(e.data.take b).drop a, spans, true⟩)

/-- Adds a span at the end, extending the last one when both continue one captured range. -/
def pushSpan (spans : List SourceSpan) (next : SourceSpan) : List SourceSpan :=
  match spans.getLast? with
  | none => [next]
  | some last =>
    if last.packet = next.packet ∧ last.stop = next.start ∧
        checkedAdd last.packetStart (last.stop - last.start) = some next.packetStart then
      spans.dropLast ++ [{ last with stop := next.stop }]
    else spans ++ [next]

def shiftSpan (base : ℕ) (s : SourceSpan) : SourceSpan :=
  { s with start := base + s.start, stop := base + s.stop }

def append (e other : EvidenceBytes) (limit : ℕ) : Result Unit × EvidenceBytes :=
  if !e.layoutValid || !other.layoutValid then (.error (invalid "invalid source-span layout"), e)
  else match checkedAdd e.data.length other.data.length with
    | none => (.error (Error.limit "evidence_bytes"), e)
    | some stop =>
      if stop > limit then (.error (Error.limit "evidence_bytes"), e)
      else (.ok (), { e with
        data := e.data ++ other.data
        spans := (other.spans.map (shiftSpan e.data.length)).foldl pushSpan e.spans })

def packets (e : EvidenceBytes) : List PacketId := sortDedup (e.spans.map (·.packet))

/-- The layout scan of `validate` from a cursor. -/
def scan (len : ℕ) : ℕ → List SourceSpan → Bool
  | cursor, [] => cursor == len
  | cursor, s :: rest =>
    if s.start ≠ cursor ∨ s.stop ≤ s.start ∨ s.stop > len ∨
        checkedAdd s.packetStart (s.stop - s.start) = none then false
    else scan len s.stop rest

def validate (e : EvidenceBytes) : Bool := e.layoutValid && scan e.data.length 0 e.spans

theorem mem_packets (e : EvidenceBytes) (p : PacketId) :
    p ∈ e.packets ↔ ∃ s ∈ e.spans, s.packet = p := by
  simp [packets]

end EvidenceBytes
end PcapEvidence

/-!
## What evidence bytes denote

The spans of a valid layout tile the data, and so name one captured position for every byte.
`origins` lists these positions. Slicing restricts the list and appending concatenates two of them;
span merging is invisible.
-/

namespace PcapEvidence

variable {spans : List SourceSpan}

abbrev Origin := PacketId × ℕ

def SourceSpan.origins (s : SourceSpan) : List Origin :=
  (List.range' s.packetStart (s.stop - s.start)).map (Prod.mk s.packet)

def SourceSpan.Covers (s : SourceSpan) (i : ℕ) : Prop := s.start ≤ i ∧ i < s.stop

instance (s : SourceSpan) (i : ℕ) : Decidable (s.Covers i) := inferInstanceAs (Decidable (_ ∧ _))

def origins (spans : List SourceSpan) : List Origin := spans.flatMap SourceSpan.origins

/-- The spans are non-empty, name representable packet offsets and tile `[c, n)` in order. -/
def Tiled : ℕ → List SourceSpan → ℕ → Prop
  | c, [], n => c = n
  | c, s :: rest, n => s.start = c ∧ s.start < s.stop ∧
      s.packetStart + (s.stop - s.start) < wordBound ∧ Tiled s.stop rest n

@[simp] theorem SourceSpan.length_origins (s : SourceSpan) :
    s.origins.length = s.stop - s.start := by simp [SourceSpan.origins]

@[simp] theorem origins_nil : origins [] = [] := rfl

@[simp] theorem origins_cons (s : SourceSpan) (rest : List SourceSpan) :
    origins (s :: rest) = s.origins ++ origins rest := rfl

theorem origins_append (xs ys : List SourceSpan) : origins (xs ++ ys) = origins xs ++ origins ys :=
  List.flatMap_append

theorem Tiled.le {c n : ℕ} (h : Tiled c spans n) : c ≤ n := by
  induction spans generalizing c with
  | nil => exact le_of_eq h
  | cons s rest ih =>
    obtain ⟨hs, hlt, -, hrest⟩ := h
    have := ih hrest
    omega

theorem Tiled.start_lt {c n : ℕ} (h : Tiled c spans n) : ∀ s ∈ spans, s.start < s.stop := by
  induction spans generalizing c with
  | nil => simp
  | cons s rest ih =>
    obtain ⟨-, hlt, -, hrest⟩ := h
    intro s' hs'
    rcases List.mem_cons.1 hs' with rfl | hs'
    · exact hlt
    · exact ih hrest s' hs'

theorem Tiled.length_origins {c n : ℕ} (h : Tiled c spans n) : (origins spans).length = n - c := by
  induction spans generalizing c with
  | nil => simp [Tiled] at h; simp [h]
  | cons s rest ih =>
    obtain ⟨hs, hlt, -, hrest⟩ := h
    have hle := hrest.le
    rw [origins_cons, List.length_append, s.length_origins, ih hrest]
    omega

theorem tiled_append_iff (c n : ℕ) (xs ys : List SourceSpan) :
    Tiled c (xs ++ ys) n ↔ ∃ m, Tiled c xs m ∧ Tiled m ys n := by
  induction xs generalizing c with
  | nil => simp [Tiled]
  | cons s rest ih =>
    simp only [List.cons_append, Tiled, ih]
    constructor
    · rintro ⟨hs, hlt, hw, m, hx, hy⟩
      exact ⟨m, ⟨hs, hlt, hw, hx⟩, hy⟩
    · rintro ⟨m, ⟨hs, hlt, hw, hx⟩, hy⟩
      exact ⟨hs, hlt, hw, m, hx, hy⟩

theorem Tiled.filter_covers_of_lt {c n i : ℕ} (h : Tiled c spans n)
    (hi : i < c) : spans.filter (fun s => s.Covers i) = [] := by
  induction spans generalizing c with
  | nil => rfl
  | cons s rest ih =>
    obtain ⟨hs, hlt, -, hrest⟩ := h
    have hn : ¬ s.Covers i := by
      rintro ⟨h1, -⟩
      omega
    rw [List.filter_cons_of_neg (by simpa using hn)]
    exact ih hrest (by omega)

theorem Tiled.exists_covers {c n i : ℕ} (h : Tiled c spans n) (hc : c ≤ i) (hi : i < n) :
    ∃ s, spans.filter (fun s => s.Covers i) = [s] ∧
      (origins spans)[i - c]? = some (s.packet, s.packetStart + (i - s.start)) := by
  induction spans generalizing c with
  | nil =>
    have : c = n := h
    omega
  | cons s rest ih =>
    obtain ⟨hs, hlt, -, hrest⟩ := h
    by_cases hin : i < s.stop
    · have hcov : s.Covers i := ⟨by omega, hin⟩
      refine ⟨s, ?_, ?_⟩
      · rw [List.filter_cons_of_pos (by simpa using hcov), hrest.filter_covers_of_lt hin]
      · rw [origins_cons, List.getElem?_append_left (by rw [s.length_origins]; omega)]
        subst hs
        simp [SourceSpan.origins, show i - s.start < s.stop - s.start by omega]
    · have hn : ¬ s.Covers i := fun hcov => hin hcov.2
      obtain ⟨s', hs', ho⟩ := ih hrest (by omega)
      refine ⟨s', ?_, ?_⟩
      · rw [List.filter_cons_of_neg (by simpa using hn), hs']
      · rw [origins_cons, List.getElem?_append_right (by rw [s.length_origins]; omega),
          s.length_origins, show i - c - (s.stop - s.start) = i - s.stop by omega, ho]

namespace EvidenceBytes

def Valid (e : EvidenceBytes) : Prop := e.layoutValid = true ∧ Tiled 0 e.spans e.data.length

theorem scan_eq_true_iff (n c : ℕ) (spans : List SourceSpan) :
    scan n c spans = true ↔ Tiled c spans n := by
  induction spans generalizing c with
  | nil => simp [scan, Tiled]
  | cons s rest ih =>
    have hnone (x y : ℕ) : checkedAdd x y = none ↔ ¬ x + y < wordBound := by simp [checkedAdd]
    simp only [scan, Tiled, hnone]
    split_ifs with hbad
    · simp only [false_iff]
      rintro ⟨hs, hlt, hw, hrest⟩
      have := hrest.le
      omega
    · push Not at hbad
      rw [ih]
      exact ⟨fun hrest => ⟨hbad.1, hbad.2.1, hbad.2.2.2, hrest⟩, fun h => h.2.2.2⟩

theorem validate_iff (e : EvidenceBytes) : e.validate = true ↔ e.Valid := by
  simp [validate, Valid, scan_eq_true_iff]

theorem valid_empty : empty.Valid := ⟨rfl, rfl⟩

theorem valid_fromPacket_iff (data : List U8) (packet : PacketId) (packetStart : ℕ) :
    (fromPacket data packet packetStart).Valid ↔
      data = [] ∨ packetStart + data.length < wordBound := by
  cases data with
  | nil => simp [Valid, fromPacket, Tiled]
  | cons b rest =>
    simp only [Valid, fromPacket, checkedAdd, List.isEmpty_cons, Bool.false_or, Tiled,
      Bool.false_eq_true, if_false, Nat.sub_zero, and_true, true_and, reduceCtorEq, false_or]
    constructor
    · exact fun h => h.2.2
    · intro h
      exact ⟨by rw [if_pos h]; rfl, by simp, h⟩

theorem fromPacket_valid_of_flag {data : List U8} {packet : PacketId} {packetStart : ℕ}
    (h : (fromPacket data packet packetStart).layoutValid = true) :
    (fromPacket data packet packetStart).Valid := by
  rw [valid_fromPacket_iff]
  by_contra hn
  push Not at hn
  simp only [fromPacket, checkedAdd, if_neg hn.2.not_gt, List.isEmpty_iff, hn.1,
    Option.isSome_none, Bool.or_false] at h

theorem origins_fromPacket (data : List U8) (packet : PacketId) (packetStart : ℕ) :
    origins (fromPacket data packet packetStart).spans =
      (List.range' packetStart data.length).map (Prod.mk packet) := by
  cases data with
  | nil => rfl
  | cons b rest => simp [fromPacket, origins, SourceSpan.origins]

end EvidenceBytes
end PcapEvidence
