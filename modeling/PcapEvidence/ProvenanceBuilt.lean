import PcapEvidence.ProvenanceOps

/-!
# Evidence bytes that callers can build

All fields are private to the source, so every value comes from the empty one and from packet slices by
slicing and appending. Each of these keeps the cached flag equal to the full scan of the layout, and
acts on the map from indices to captured bytes as a restriction or as a concatenation.
-/

namespace PcapEvidence.EvidenceBytes

/-- Any composition of the constructors with `slice` and `append`, failed calls of `append` included. -/
inductive Built : EvidenceBytes → Prop
  | empty : Built .empty
  | fromPacket (data : List U8) (packet : PacketId) (packetStart : ℕ) :
      Built (.fromPacket data packet packetStart)
  | slice {e out : EvidenceBytes} {a b : ℕ} : Built e → e.slice a b = .ok out → Built out
  | append {e other out : EvidenceBytes} {limit : ℕ} {r : Result Unit} : Built e → Built other →
      e.append other limit = (r, out) → Built out

def entry (e : EvidenceBytes) (i : ℕ) : Option (PacketId × ℕ × U8) := do
  let s ← e.spans.find? fun s => s.Covers i
  let b ← e.data[i]?
  return (s.packet, s.packetStart + (i - s.start), b)

section Entries
variable {e other out : EvidenceBytes}

theorem length_view_of_valid (h : e.Valid) : e.view.length = e.data.length := by
  have hlen : (origins e.spans).length = e.data.length := by simpa using h.2.length_origins
  rw [view, List.length_zip, hlen, min_self]

theorem entry_eq_view (h : e.Valid) (i : ℕ) :
    e.entry i = e.view[i]?.map fun x => (x.1.1, x.1.2, x.2) := by
  have hlen : (origins e.spans).length = e.data.length := by simpa using h.2.length_origins
  rcases Nat.lt_or_ge i e.data.length with hi | hi
  · obtain ⟨s, hcovers, horigin⟩ := h.2.exists_covers (Nat.zero_le i) hi
    have hfind : (e.spans.find? fun s => s.Covers i) = some s := by
      rw [← List.head?_filter, hcovers]
      rfl
    rw [Nat.sub_zero] at horigin
    have hview : e.view[i]? = some ((s.packet, s.packetStart + (i - s.start)), e.data[i]) := by
      rw [view, List.getElem?_zip_eq_some]
      exact ⟨horigin, List.getElem?_eq_getElem hi⟩
    rw [entry, hfind, hview, List.getElem?_eq_getElem hi]
    rfl
  · have hview : e.view[i]? = none := by
      rw [List.getElem?_eq_none_iff, length_view_of_valid h]
      exact hi
    rw [entry, hview, List.getElem?_eq_none hi]
    cases e.spans.find? fun s => s.Covers i <;> rfl

theorem entry_slice (h : e.Valid) {a b : ℕ} (hs : e.slice a b = .ok out) (i : ℕ) :
    out.entry i = if i < b - a then e.entry (a + i) else none := by
  obtain ⟨hvalid, -, hview⟩ := view_slice h hs
  rw [entry_eq_view hvalid, entry_eq_view h, hview, List.getElem?_drop, List.getElem?_take]
  by_cases hi : i < b - a
  · rw [if_pos hi, if_pos (by omega)]
  · rw [if_neg hi, if_neg (by omega)]
    rfl

theorem entry_append (he : e.Valid) (ho : other.Valid) {limit : ℕ}
    (h : e.append other limit = (.ok (), out)) (i : ℕ) :
    out.entry i = if i < e.len then e.entry i else other.entry (i - e.len) := by
  obtain ⟨hvalid, -, hview⟩ := view_append he ho h
  have hlen : e.view.length = e.len := length_view_of_valid he
  rw [entry_eq_view hvalid, entry_eq_view he, entry_eq_view ho, hview]
  by_cases hi : i < e.len
  · rw [if_pos hi, List.getElem?_append_left (by omega)]
  · rw [if_neg hi, List.getElem?_append_right (by omega), hlen]

/-- The ends of the spans ascend, so a binary search finds the first one behind an offset. -/
theorem Tiled.ends_ascend {c n : ℕ} {spans : List SourceSpan} (h : Tiled c spans n) :
    spans.Pairwise fun s t => s.stop ≤ t.stop := by
  induction spans generalizing c with
  | nil => exact List.Pairwise.nil
  | cons s rest ih =>
    obtain ⟨-, -, -, hrest⟩ := h
    refine List.pairwise_cons.2 ⟨fun t ht => ?_, ih hrest⟩
    obtain ⟨before, after, rfl⟩ := List.append_of_mem ht
    obtain ⟨m, hbefore, htail⟩ := (tiled_append_iff _ _ _ _).1 hrest
    have hm := hbefore.le
    obtain ⟨hstart, hlt, -⟩ := htail
    omega

end Entries

/-- A failed `append` changes nothing, whatever the layouts. -/
theorem append_error {e other out : EvidenceBytes} {limit : ℕ} {err : Error}
    (h : e.append other limit = (.error err, out)) : out = e := by
  unfold append at h
  split at h
  · exact (Prod.mk.inj h).2.symm
  · split at h
    · exact (Prod.mk.inj h).2.symm
    · split at h
      · exact (Prod.mk.inj h).2.symm
      · cases h

theorem Built.valid_of_flag {e : EvidenceBytes} (h : Built e) (hflag : e.layoutValid = true) :
    e.Valid := by
  induction h with
  | empty => exact valid_empty
  | fromPacket data packet packetStart => exact fromPacket_valid_of_flag hflag
  | slice _ hs ih => exact (view_slice (ih (slice_ok_range hs).1) hs).1
  | @append e other out limit r _ _ happend ihe iho =>
    cases r with
    | error err =>
      obtain rfl := append_error happend
      exact ihe hflag
    | ok _ =>
      obtain ⟨he, ho, -⟩ := append_ok happend
      exact (view_append (ihe he) (iho ho) happend).1

/-- What slicing and appending do to the map of a value, and what the search in `slice` rests on. -/
structure Exact (e : EvidenceBytes) : Prop where
  ends : e.spans.Pairwise fun s t => s.stop ≤ t.stop
  slice : ∀ a b, a ≤ b → b ≤ e.len → ∃ out, e.slice a b = .ok out ∧ out.len = b - a ∧
    ∀ i, out.entry i = if i < b - a then e.entry (a + i) else none
  append : ∀ other, Built other → ∀ limit r out, e.append other limit = (r, out) →
    (∃ err, r = .error err ∧ out = e) ∨
      (r = .ok () ∧ out.len = e.len + other.len ∧
        ∀ i, out.entry i = if i < e.len then e.entry i else other.entry (i - e.len))

theorem exact_of_valid {e : EvidenceBytes} (h : e.Valid) : e.Exact where
  ends := Tiled.ends_ascend h.2
  slice a b hab hb := by
    obtain ⟨out, hs, -, hdata, -⟩ := slice_spec h hab hb
    refine ⟨out, hs, ?_, entry_slice h hs⟩
    have hfits : b ≤ e.data.length := hb
    rw [len, hdata, List.length_drop, List.length_take, Nat.min_eq_left hfits]
  append other hother limit r out happend := by
    cases r with
    | error err => exact .inl ⟨err, rfl, append_error happend⟩
    | ok _ =>
      obtain ⟨-, hflag, -⟩ := append_ok happend
      have ho := hother.valid_of_flag hflag
      obtain ⟨-, hdata, -⟩ := view_append h ho happend
      refine .inr ⟨rfl, ?_, entry_append h ho happend⟩
      rw [len, hdata, List.length_append]
      rfl

/-- The cached flag is the full scan, and a valid value is sliced and appended as the map it denotes. -/
theorem built_exact {e : EvidenceBytes} (h : Built e) :
    e.layoutValid = e.validate ∧ (e.layoutValid = true → e.Exact) := by
  constructor
  · cases hflag : e.layoutValid with
    | false => simp [validate, hflag]
    | true => exact ((validate_iff e).2 (h.valid_of_flag hflag)).symm
  · exact fun hflag => exact_of_valid (h.valid_of_flag hflag)

def samplePacket (frame : ℕ) : PacketId := ⟨Vector.replicate 32 0, frame, 0⟩

/-- Two neighbouring parts of one packet, joined, and cut across the seam. -/
theorem built_exact_sample :
    let joined := ((fromPacket [1, 2] (samplePacket 1) 54).append
      (fromPacket [3, 4] (samplePacket 1) 56) 16).2
    joined.layoutValid = joined.validate ∧
      ∃ out, joined.slice 1 3 = .ok out ∧ out.entry 1 = joined.entry 2 := by
  dsimp only
  have happend : (fromPacket [1, 2] (samplePacket 1) 54).append (fromPacket [3, 4] (samplePacket 1) 56)
      16 = (.ok (), ((fromPacket [1, 2] (samplePacket 1) 54).append
        (fromPacket [3, 4] (samplePacket 1) 56) 16).2) := rfl
  have hbuilt := Built.append (.fromPacket _ _ _) (.fromPacket _ _ _) happend
  obtain ⟨hflag, hexact⟩ := built_exact hbuilt
  obtain ⟨out, hs, -, hentry⟩ := (hexact (by decide)).slice 1 3 (by decide) (by decide)
  exact ⟨hflag, out, hs, hentry 1⟩

end PcapEvidence.EvidenceBytes
