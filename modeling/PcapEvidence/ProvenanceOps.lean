import PcapEvidence.Provenance

/-!
# Slicing and appending evidence bytes

On a valid layout `slice` succeeds for every range inside the data and restricts the origins to it;
`append` succeeds unless the result would exceed its limit, and concatenates the origins.
-/

namespace PcapEvidence

theorem take_drop_range' (s n i k : ℕ) (h : i + k ≤ n) :
    ((List.range' s n).drop i).take k = List.range' (s + i) k := by
  obtain ⟨m, hm⟩ : ∃ m, n - i = k + m := ⟨n - i - k, by omega⟩
  rw [List.drop_range', mul_one, hm, ← List.range'_append_1, List.take_left' List.length_range']

namespace EvidenceBytes

variable {e other : EvidenceBytes} {c limit n : ℕ}

theorem clipSpans_dropWhile (a b : ℕ) (spans : List SourceSpan) :
    clipSpans a b (spans.dropWhile (fun s => s.stop ≤ a)) = clipSpans a b spans := by
  induction spans with
  | nil => rfl
  | cons s rest ih =>
    by_cases h : s.stop ≤ a
    · have hn : ¬ max s.start a < min s.stop b := by omega
      rw [List.dropWhile_cons_of_pos (by simpa using h), ih, clipSpans, if_neg hn]
    · rw [List.dropWhile_cons_of_neg (by simpa using h)]

theorem clipSpans_eq_nil {a b : ℕ} {spans : List SourceSpan} (h : Tiled c spans n)
    (hb : b ≤ c) : clipSpans a b spans = .ok [] := by
  induction spans generalizing c with
  | nil => rfl
  | cons s rest ih =>
    obtain ⟨hs, hlt, -, hrest⟩ := h
    have hn : ¬ max s.start a < min s.stop b := by omega
    rw [clipSpans, if_neg hn]
    exact ih hrest (by omega)

theorem clipSpans_takeWhile {a b : ℕ} {spans : List SourceSpan} (h : Tiled c spans n) :
    clipSpans a b (spans.takeWhile (fun s => s.start < b)) = clipSpans a b spans := by
  induction spans generalizing c with
  | nil => rfl
  | cons s rest ih =>
    by_cases hb : s.start < b
    · rw [List.takeWhile_cons_of_pos (by simpa using hb), clipSpans, clipSpans, ih h.2.2.2]
    · have hc : b ≤ c := by
        have := h.1
        omega
      rw [List.takeWhile_cons_of_neg (by simpa using hb), clipSpans_eq_nil h hc, clipSpans]

theorem Tiled.dropWhile {a : ℕ} {spans : List SourceSpan} (h : Tiled c spans n) :
    ∃ c', Tiled c' (spans.dropWhile (fun s => s.stop ≤ a)) n := by
  induction spans generalizing c with
  | nil => exact ⟨c, h⟩
  | cons s rest ih =>
    by_cases hs : s.stop ≤ a
    · rw [List.dropWhile_cons_of_pos (by simpa using hs)]
      exact ih h.2.2.2
    · rw [List.dropWhile_cons_of_neg (by simpa using hs)]
      exact ⟨c, h⟩

/-- Clipping a tiling of `[c, n)` to `a..b` shifts it by `a` and keeps the common origins. -/
theorem clipSpans_spec {a b : ℕ} {spans : List SourceSpan} (h : Tiled c spans n)
    (hab : a ≤ b) (hcb : c ≤ b) (hbn : b ≤ n) :
    ∃ out, clipSpans a b spans = .ok out ∧ Tiled (max c a - a) out (b - a) ∧
      origins out = ((origins spans).drop (a - c)).take (b - max c a) := by
  induction spans generalizing c with
  | nil =>
    have hcn : c = n := h
    refine ⟨[], rfl, ?_, by simp⟩
    simp only [Tiled]
    omega
  | cons s rest ih =>
    obtain ⟨hs, hlt, hw, hrest⟩ := h
    by_cases hskip : s.stop ≤ a
    · -- the whole span lies below the range
      have hn : ¬ max s.start a < min s.stop b := by omega
      obtain ⟨out, hok, ht, ho⟩ := ih hrest (by omega)
      refine ⟨out, by rw [clipSpans, if_neg hn, hok], ?_, ?_⟩
      · rwa [show max c a - a = max s.stop a - a by omega]
      · have hdrop : s.origins.drop (a - c) = [] :=
          List.drop_eq_nil_of_le (by rw [s.length_origins]; omega)
        rw [ho, origins_cons, List.drop_append, s.length_origins, hdrop, List.nil_append,
          show a - c - (s.stop - s.start) = a - s.stop by omega,
          show max c a = max s.stop a by omega]
    · by_cases hempty : b ≤ max c a
      · -- the range is empty at this cursor
        have hn : ¬ max s.start a < min s.stop b := by omega
        refine ⟨[], ?_, ?_, ?_⟩
        · rw [clipSpans, if_neg hn]
          exact clipSpans_eq_nil hrest (by omega)
        · simp only [Tiled]
          omega
        · rw [show b - max c a = 0 by omega, List.take_zero, origins_nil]
      · have hpos : max s.start a < min s.stop b := by omega
        have hadd : checkedAdd s.packetStart (max s.start a - s.start) =
            some (s.packetStart + (max s.start a - s.start)) := checkedAdd_of_lt (by omega)
        have hdrop : (origins (s :: rest)).drop (a - c) =
            s.origins.drop (a - c) ++ origins rest := by
          rw [origins_cons, List.drop_append, s.length_origins,
            show a - c - (s.stop - s.start) = 0 by omega, List.drop_zero]
        by_cases hin : s.stop ≤ b
        · -- the span ends inside the range and the rest is clipped recursively
          obtain ⟨out, hok, ht, ho⟩ := ih hrest hin
          refine ⟨⟨max s.start a - a, min s.stop b - a, s.packet,
            s.packetStart + (max s.start a - s.start)⟩ :: out, ?_, ?_, ?_⟩
          · rw [clipSpans, if_pos hpos, hadd, hok]
            rfl
          · refine ⟨by simp only; omega, by simp only; omega, by simp only; omega, ?_⟩
            rwa [show min s.stop b - a = max s.stop a - a by omega]
          · rw [hdrop, List.take_append, List.length_drop, s.length_origins, origins_cons, ho]
            congr 1
            · rw [List.take_of_length_le (by rw [List.length_drop, s.length_origins]; omega)]
              simp only [SourceSpan.origins, ← List.map_drop, List.drop_range', mul_one]
              rw [show s.packetStart + (max s.start a - s.start) = s.packetStart + (a - c) by omega,
                show min s.stop b - a - (max s.start a - a) = s.stop - s.start - (a - c) by omega]
            · rw [show a - s.stop = 0 by omega, List.drop_zero]
              congr 1
              omega
        · -- the range ends inside the span
          refine ⟨[⟨max s.start a - a, min s.stop b - a, s.packet,
            s.packetStart + (max s.start a - s.start)⟩], ?_, ?_, ?_⟩
          · rw [clipSpans, if_pos hpos, hadd, clipSpans_eq_nil hrest (by omega)]
            rfl
          · refine ⟨by simp only; omega, by simp only; omega, by simp only; omega, ?_⟩
            simp only [Tiled]
            omega
          · rw [hdrop, List.take_append_of_le_length
              (by rw [List.length_drop, s.length_origins]; omega)]
            simp only [origins_cons, origins_nil, List.append_nil, SourceSpan.origins,
              ← List.map_drop, ← List.map_take]
            rw [take_drop_range' _ _ _ _ (by omega),
              show s.packetStart + (max s.start a - s.start) = s.packetStart + (a - c) by omega,
              show min s.stop b - a - (max s.start a - a) = b - max c a by omega]

/-- `slice` succeeds on every range inside valid evidence and restricts bytes and origins to it. -/
theorem slice_spec (h : e.Valid) {a b : ℕ} (hab : a ≤ b) (hb : b ≤ e.data.length) :
    ∃ out, e.slice a b = .ok out ∧ out.Valid ∧ out.data = (e.data.take b).drop a ∧
      origins out.spans = ((origins e.spans).take b).drop a := by
  obtain ⟨hflag, ht⟩ := h
  obtain ⟨out, hok, htiled, ho⟩ := clipSpans_spec ht hab (Nat.zero_le b) hb
  obtain ⟨c', hdrop⟩ := Tiled.dropWhile (a := a) ht
  have hclip : clipSpans a b ((e.spans.dropWhile (fun s => s.stop ≤ a)).takeWhile
      (fun s => s.start < b)) = .ok out := by
    rw [clipSpans_takeWhile hdrop, clipSpans_dropWhile, hok]
  have hrange : ¬ (a > b ∨ b > e.data.length) := by omega
  refine ⟨⟨(e.data.take b).drop a, out, true⟩, ?_, ⟨rfl, ?_⟩, rfl, ?_⟩
  · rw [slice, hflag, if_neg (by simp), if_neg hrange, hclip]
    rfl
  · have hlen : ((e.data.take b).drop a).length = b - a := by simp [Nat.min_eq_left hb]
    rw [hlen]
    simpa using htiled
  · rw [ho, List.drop_take]
    simp

theorem slice_ok_range {out : EvidenceBytes} {a b : ℕ} (h : e.slice a b = .ok out) :
    e.layoutValid = true ∧ a ≤ b ∧ b ≤ e.data.length := by
  unfold slice at h
  split_ifs at h with hflag hrange
  push Not at hrange
  exact ⟨by simpa using hflag, hrange.1, hrange.2⟩

theorem pushSpan_spec {m : ℕ} {spans : List SourceSpan} (next : SourceSpan)
    (h : Tiled c spans m) (hstart : next.start = m) (hlt : next.start < next.stop)
    (hw : next.packetStart + (next.stop - next.start) < wordBound) :
    Tiled c (pushSpan spans next) next.stop ∧
      origins (pushSpan spans next) = origins spans ++ next.origins := by
  unfold pushSpan
  cases hl : spans.getLast? with
  | none =>
    obtain rfl := List.getLast?_eq_none_iff.1 hl
    have hc : c = m := h
    exact ⟨⟨by omega, hlt, hw, rfl⟩, by simp⟩
  | some last =>
    obtain ⟨before, rfl⟩ := List.getLast?_eq_some_iff.1 hl
    obtain ⟨k, hbefore, hk, hlast, hlw, hm⟩ := (tiled_append_iff _ _ _ _).1 h
    have hm' : last.stop = m := hm
    dsimp only
    split_ifs with hmerge
    · -- the merged span continues the captured range of the last one
      obtain ⟨hp, -, hcont⟩ := hmerge
      obtain ⟨-, hps⟩ := (checkedAdd_eq_some_iff _ _ _).1 hcont
      rw [List.dropLast_concat]
      constructor
      · exact (tiled_append_iff _ _ _ _).2
          ⟨k, hbefore, hk, by simp only; omega, by simp only; omega, rfl⟩
      · rw [origins_append, origins_append, List.append_assoc]
        congr 1
        simp only [origins_cons, origins_nil, List.append_nil, SourceSpan.origins, ← hp]
        rw [← List.map_append, hps, List.range'_append_1]
        congr 2
        omega
    · constructor
      · exact (tiled_append_iff _ _ _ _).2 ⟨m, h, hstart, hlt, hw, rfl⟩
      · simp [origins_append]

theorem foldl_pushSpan_spec {k : ℕ} (base : ℕ) {spans more : List SourceSpan}
    (h : Tiled c spans (base + k)) (hmore : Tiled k more n) :
    Tiled c ((more.map (shiftSpan base)).foldl pushSpan spans) (base + n) ∧
      origins ((more.map (shiftSpan base)).foldl pushSpan spans) = origins spans ++ origins more := by
  induction more generalizing spans k with
  | nil =>
    have hk : k = n := hmore
    subst hk
    exact ⟨h, by simp⟩
  | cons s rest ih =>
    obtain ⟨hs, hlt, hw, hrest⟩ := hmore
    obtain ⟨ht, ho⟩ := pushSpan_spec (shiftSpan base s) h
      (by simp only [shiftSpan]; omega) (by simp only [shiftSpan]; omega)
      (by simp only [shiftSpan]; omega)
    obtain ⟨ht', ho'⟩ := ih ht hrest
    refine ⟨ht', ?_⟩
    have hshift : (shiftSpan base s).origins = s.origins := by
      simp [SourceSpan.origins, shiftSpan, Nat.add_sub_add_left]
    rw [List.map_cons, List.foldl_cons, ho', ho, hshift, origins_cons, List.append_assoc]

/-- `append` succeeds within its limit and concatenates bytes and origins. -/
theorem append_spec (he : e.Valid) (ho : other.Valid)
    (hw : e.data.length + other.data.length < wordBound)
    (hlimit : e.data.length + other.data.length ≤ limit) :
    ∃ out, e.append other limit = (.ok (), out) ∧ out.Valid ∧ out.data = e.data ++ other.data ∧
      origins out.spans = origins e.spans ++ origins other.spans := by
  obtain ⟨ht, horigins⟩ := foldl_pushSpan_spec e.data.length (k := 0) he.2 ho.2
  refine ⟨{ e with
    data := e.data ++ other.data
    spans := (other.spans.map (shiftSpan e.data.length)).foldl pushSpan e.spans },
    ?_, ⟨he.1, ?_⟩, rfl, horigins⟩
  · have hflags : ¬ (!e.layoutValid || !other.layoutValid) = true := by simp [he.1, ho.1]
    simp only [append, if_neg hflags, checkedAdd_of_lt hw, if_neg hlimit.not_gt]
  · rw [List.length_append]
    exact ht

theorem append_ok {out : EvidenceBytes} (h : e.append other limit = (.ok (), out)) :
    e.layoutValid = true ∧ other.layoutValid = true ∧
      e.data.length + other.data.length < wordBound ∧
      e.data.length + other.data.length ≤ limit := by
  unfold append at h
  split_ifs at h with hflag
  · simp at h
  split at h
  · simp at h
  · rename_i stop hadd
    obtain ⟨hw, rfl⟩ := (checkedAdd_eq_some_iff _ _ _).1 hadd
    split_ifs at h with hlimit
    · simp at h
    · simp only [Bool.or_eq_true, Bool.not_eq_true', not_or, Bool.not_eq_false] at hflag
      exact ⟨hflag.1, hflag.2, hw, by omega⟩

def view (e : EvidenceBytes) : List (Origin × U8) := (origins e.spans).zip e.data

theorem view_slice {out : EvidenceBytes} {a b : ℕ} (h : e.Valid) (hs : e.slice a b = .ok out) :
    out.Valid ∧ out.data = (e.data.take b).drop a ∧ out.view = (e.view.take b).drop a := by
  obtain ⟨-, hab, hb⟩ := slice_ok_range hs
  obtain ⟨out', hok, hv, hd, ho⟩ := slice_spec h hab hb
  obtain rfl : out' = out := Except.ok.inj (hok.symm.trans hs)
  refine ⟨hv, hd, ?_⟩
  simp only [view, ho, hd, List.zip, List.take_zipWith, List.drop_zipWith]

theorem view_append {out : EvidenceBytes} (he : e.Valid) (ho : other.Valid)
    (h : e.append other limit = (.ok (), out)) :
    out.Valid ∧ out.data = e.data ++ other.data ∧ out.view = e.view ++ other.view := by
  obtain ⟨-, -, hw, hlimit⟩ := append_ok h
  obtain ⟨out', hok, hv, hd, horigins⟩ := append_spec he ho hw hlimit
  obtain rfl : out' = out := (Prod.mk.inj (hok.symm.trans h)).2
  refine ⟨hv, hd, ?_⟩
  have hlen : (origins e.spans).length = e.data.length := by simpa using he.2.length_origins
  rw [view, view, view, hd, horigins, List.zip_append hlen]

theorem mem_packets_iff_view (h : e.Valid) (p : PacketId) :
    p ∈ e.packets ↔ ∃ x ∈ e.view, x.1.1 = p := by
  have hlen : (origins e.spans).length = e.data.length := by simpa using h.2.length_origins
  have hview : (∃ x ∈ e.view, x.1.1 = p) ↔ ∃ o ∈ origins e.spans, o.1 = p := by
    have hmap : e.view.map Prod.fst = origins e.spans := List.map_fst_zip hlen.le
    rw [← hmap]
    simp
  rw [hview, mem_packets]
  simp only [origins, List.mem_flatMap, SourceSpan.origins, List.mem_map]
  constructor
  · rintro ⟨s, hs, rfl⟩
    refine ⟨_, ⟨s, hs, s.packetStart, ?_, rfl⟩, rfl⟩
    have := h.2.start_lt s hs
    rw [List.mem_range'_1]
    omega
  · rintro ⟨o, ⟨s, hs, j, -, rfl⟩, rfl⟩
    exact ⟨s, hs, rfl⟩

theorem clipSpans_packets {a b : ℕ} {spans out : List SourceSpan}
    (h : clipSpans a b spans = .ok out) : ∀ s ∈ out, ∃ s' ∈ spans, s'.packet = s.packet := by
  induction spans generalizing out with
  | nil =>
    cases h
    simp
  | cons x rest ih =>
    rw [clipSpans] at h
    split_ifs at h
    · split at h
      next => cases h
      next p hp =>
        cases hrest : clipSpans a b rest with
        | error e =>
          rw [hrest] at h
          cases h
        | ok tail =>
          rw [hrest] at h
          cases h
          intro s hs
          rcases List.mem_cons.1 hs with rfl | hs
          · exact ⟨x, by simp, rfl⟩
          · obtain ⟨s', hs', hpacket⟩ := ih hrest s hs
            exact ⟨s', by simp [hs'], hpacket⟩
    · intro s hs
      obtain ⟨s', hs', hpacket⟩ := ih h s hs
      exact ⟨s', by simp [hs'], hpacket⟩

theorem mem_packets_of_slice {out : EvidenceBytes} {a b : ℕ} (h : e.slice a b = .ok out)
    {p : PacketId} (hp : p ∈ out.packets) : p ∈ e.packets := by
  unfold slice at h
  split_ifs at h
  cases hclip : clipSpans a b
      ((e.spans.dropWhile (fun s => s.stop ≤ a)).takeWhile (fun s => s.start < b)) with
  | error err =>
    rw [hclip] at h
    cases h
  | ok spans =>
    rw [hclip] at h
    cases h
    rw [mem_packets] at hp ⊢
    obtain ⟨s, hs, rfl⟩ := hp
    obtain ⟨s', hs', hpacket⟩ := clipSpans_packets hclip s hs
    exact ⟨s', (List.dropWhile_subset _) ((List.takeWhile_subset _) hs'), hpacket⟩

theorem packets_fromPacket {data : List U8} {packet : PacketId} {packetStart : ℕ} (h : data ≠ []) :
    (fromPacket data packet packetStart).packets = [packet] := by
  cases data with
  | nil => exact absurd rfl h
  | cons b rest => rfl

def Sound (captured : PacketId → List U8) (e : EvidenceBytes) : Prop :=
  ∀ x ∈ e.view, (captured x.1.1)[x.1.2]? = some x.2

end EvidenceBytes
end PcapEvidence
