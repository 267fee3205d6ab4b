import PcapEvidence.HistoryCanonical

/-!
# Round trips of the history formats

Each format of the journal and of the index is canonical for the values that its decoder accepts.
-/

namespace PcapEvidence.History
open Method ByteCodec

/-! ### Decisions -/

namespace Placement

def encode (p : Placement) : List U8 :=
  Encoder.hash p.generation ++ Encoder.u8 p.direction ++ Encoder.i64 p.offset ++
    Encoder.boolean p.selected

def decodeM : DecoderM Placement := do
  let generation ← Decoder.hash
  let direction ← Decoder.u8
  let offset ← Decoder.i64
  let selected ← Decoder.boolean
  if direction.toNat > 1 then fail (bad "history_direction" "invalid direction")
  else pure ⟨generation, direction, offset, selected⟩

def Fits (p : Placement) : Prop := p.direction.toNat ≤ 1 ∧ InI64 p.offset

end Placement

namespace Decision

def saturatingMul (a b : ℕ) : ℕ := min (a * b) (wordBound - 1)

def encode (d : Decision) : Result (List U8) :=
  if d.placements.length ≥ 2 ^ 32 then .error (Error.limit "history_candidates")
  else if d.reasons.length ≥ 2 ^ 32 then .error (Error.limit "history_reasons")
  else do
    let reasons ← Encoder.all Encoder.text d.reasons
    .ok (Encoder.hash d.before ++ Encoder.hash d.after ++ Encoder.boolean d.policyAssumption ++
      Encoder.u32 (BitVec.ofNat 32 d.placements.length) ++ d.placements.flatMap Placement.encode ++
      Encoder.u32 (BitVec.ofNat 32 d.reasons.length) ++ reasons)

def decodeM (c : Config) : DecoderM Decision := do
  let before ← Decoder.hash
  let after ← Decoder.hash
  let policyAssumption ← Decoder.boolean
  let n ← Decoder.u32
  if n.toNat > saturatingMul c.maxGenerations c.maxEpochCandidates then
    fail (Error.limit "history_candidates")
  else do
    let placements ← repeated Placement.decodeM n.toNat
    let n ← Decoder.u32
    if n.toNat > 32 then fail (Error.limit "history_reasons")
    else do
      let reasons ← repeated (Decoder.text 256) n.toNat
      Decoder.finish
      pure ⟨before, after, placements, reasons, policyAssumption⟩

def decode (b : List U8) (c : Config) : Result Decision := Decoder.run (decodeM c) b

/-- The limits of the decoder. -/
structure Fits (c : Config) (d : Decision) : Prop where
  placements : d.placements.length ≤ saturatingMul c.maxGenerations c.maxEpochCandidates
  placement : ∀ p ∈ d.placements, p.Fits
  reasons : d.reasons.length ≤ 32
  reason : ∀ s ∈ d.reasons, (Encoder.utf8 s).length ≤ 256

end Decision

/-! ### Lists of values -/

section Lists
variable {α : Type} {encode : α → Result (List U8)} {m : DecoderM α}

theorem all_cons_ok {v : α} {vs : List α} {e : List U8} (h : Encoder.all encode (v :: vs) = .ok e) :
    ∃ first rest, encode v = .ok first ∧ Encoder.all encode vs = .ok rest ∧ e = first ++ rest := by
  obtain ⟨first, hfirst, h⟩ := bind_eq_ok.1 h
  obtain ⟨rest, hrest, h⟩ := bind_eq_ok.1 h
  exact ⟨first, rest, hfirst, hrest, (Except.ok.inj h).symm⟩

theorem all_cons {v : α} {vs : List α} {first rest : List U8} (hfirst : encode v = .ok first)
    (hrest : Encoder.all encode vs = .ok rest) :
    Encoder.all encode (v :: vs) = .ok (first ++ rest) := by
  rw [Encoder.all, hfirst, hrest]
  rfl

theorem reads_all {vs : List α} {e : List U8} (hm : ∀ v ∈ vs, ∀ e, encode v = .ok e → Reads m e v)
    (h : Encoder.all encode vs = .ok e) : Reads (repeated m vs.length) e vs := by
  induction vs generalizing e with
  | nil =>
    cases h
    exact .pure []
  | cons v vs ih =>
    obtain ⟨first, rest, hfirst, hrest, rfl⟩ := all_cons_ok h
    have hvs := ih (fun u hu => hm u (by simp [hu])) hrest
    exact (hm v (by simp) first hfirst).bind (hvs.map (.pure _))

theorem all_ok {P : α → Prop}
    (hm : ∀ s v t, m s = (.ok v, t) → P v ∧ ∃ e, encode v = .ok e ∧ s = e ++ t)
    (n : ℕ) {s t : List U8} {vs : List α} (h : repeated m n s = (.ok vs, t)) :
    vs.length = n ∧ (∀ v ∈ vs, P v) ∧ ∃ e, Encoder.all encode vs = .ok e ∧ s = e ++ t := by
  induction n generalizing s vs with
  | zero =>
    cases h
    exact ⟨rfl, by simp, [], rfl, rfl⟩
  | succ n ih =>
    obtain ⟨v, u, hv, h⟩ := bind_ok h
    obtain ⟨rest, w, hrest, h⟩ := bind_ok h
    cases h
    obtain ⟨hpv, first, hfirst, hs⟩ := hm s v u hv
    obtain ⟨hlen, hp, e, he, hu⟩ := ih hrest
    refine ⟨by simp [hlen], by simpa using ⟨hpv, hp⟩, first ++ e, all_cons hfirst he, ?_⟩
    rw [hs, hu, List.append_assoc]

theorem repeated_ok {P : α → Prop} {encode : α → List U8}
    (hm : ∀ s v t, m s = (.ok v, t) → P v ∧ s = encode v ++ t) (n : ℕ) {s t : List U8}
    {vs : List α} (h : repeated m n s = (.ok vs, t)) :
    vs.length = n ∧ (∀ v ∈ vs, P v) ∧ s = vs.flatMap encode ++ t := by
  induction n generalizing s vs with
  | zero =>
    cases h
    simp
  | succ n ih =>
    obtain ⟨v, u, hv, h⟩ := bind_ok h
    obtain ⟨rest, w, hrest, h⟩ := bind_ok h
    cases h
    obtain ⟨hpv, hs⟩ := hm s v u hv
    obtain ⟨hlen, hp, hu⟩ := ih hrest
    refine ⟨by simp [hlen], by simpa using ⟨hpv, hp⟩, ?_⟩
    rw [hs, hu, List.flatMap_cons, List.append_assoc]

theorem length_all_le {vs : List α} {e : List U8} {bound : ℕ}
    (hbound : ∀ v ∈ vs, ∀ e, encode v = .ok e → e.length ≤ bound)
    (h : Encoder.all encode vs = .ok e) : e.length ≤ vs.length * bound := by
  induction vs generalizing e with
  | nil =>
    cases h
    simp
  | cons v vs ih =>
    obtain ⟨first, rest, hfirst, hrest, rfl⟩ := all_cons_ok h
    have hv := hbound v (by simp) first hfirst
    have hvs := ih (fun u hu => hbound u (by simp [hu])) hrest
    rw [List.length_append, List.length_cons, Nat.succ_mul]
    omega

theorem toNat_ofNat_32 {n : ℕ} (h : n < 2 ^ 32) : (BitVec.ofNat 32 n).toNat = n := by
  rw [BitVec.toNat_ofNat, Nat.mod_eq_of_lt h]

end Lists

/-! ### Configurations -/

namespace Config

theorem takes_readPolicy {s t : List U8} {policy : EpochPolicy}
    (h : readPolicy s = (.ok policy, t)) : s = Encoder.u8 (policyByte policy) ++ t := by
  obtain ⟨b, u, hb, h⟩ := bind_ok h
  rw [takes_u8 s b u hb]
  split at h
  next hzero =>
    cases h
    rw [hzero]
    rfl
  next =>
    split at h
    next hone =>
      cases h
      rw [hone]
      rfl
    next => cases h

theorem words_ofWords {v : List U64} (hlen : v.length = 15) (hsmall : (v.getD 8 0).toNat < 2 ^ 63)
    (policy : EpochPolicy) : (ofWords v (v.getD 8 0).toNat policy).words = v := by
  match v, hlen with
  | [a0, a1, a2, a3, a4, a5, a6, a7, a8, a9, a10, a11, a12, a13, a14], _ =>
    simp [words, ofWords, BitVec.ofInt_natCast]

theorem closes {c : Config} {e : List U8} (h : c.encode = .ok e) : Closes decodeM e c := by
  obtain ⟨hvalid, engine, hengine, rfl⟩ := encode_ok h
  have hwords : Reads (repeated Decoder.u64 15) (c.words.flatMap Encoder.u64) c.words :=
    @reads_repeated _ _ _ _ Encoder.u64 c.words fun v _ => reads_u64 v
  have hsmall : ¬ (c.words.getD 8 0).toNat ≥ 2 ^ 63 := by
    obtain ⟨-, -, -, -, -, -, -, -, hhorizon, -⟩ := hvalid
    change ¬ (BitVec.ofInt 64 c.sequenceHorizon).toNat ≥ 2 ^ 63
    rw [BitVec.toNat_ofInt]
    omega
  rw [List.append_assoc]
  refine (reads_text hengine (by decide)).closes ?_
  rw [if_neg (by simp)]
  refine hwords.closes ?_
  rw [if_neg hsmall, ← List.append_nil (Encoder.u8 _)]
  refine (reads_readPolicy c.epochPolicy).closes (finish_closes ?_)
  simp only [ofWords_words hvalid, validate_of_valid hvalid]
  rfl

theorem canonical : Canonical encode decode fun _ => True := by
  refine .of_closes (fun c e _ h => closes h) fun s c t h => ⟨trivial, ?_⟩
  obtain ⟨engine, u, hengine, h⟩ := bind_ok h
  obtain ⟨-, e, he, hs⟩ := text_ok hengine
  obtain ⟨hname, h⟩ := guard_ok h
  rw [not_not] at hname
  obtain ⟨v, w, hv, h⟩ := bind_ok h
  obtain ⟨hwords, hlen⟩ := takes_u64.repeated 15 hv
  obtain ⟨hsmall, h⟩ := guard_ok h
  obtain ⟨policy, x, hpolicy, h⟩ := bind_ok h
  obtain ⟨hx, h⟩ := finish_bind_ok h
  obtain ⟨⟨⟩, hvalid, h⟩ := lift_bind_ok h
  cases h
  rw [encode, hvalid, ← hname, he]
  change Except.ok _ = _
  rw [words_ofWords hlen (by omega), hs, hwords, takes_readPolicy hpolicy, hx]
  simp [ofWords]

end Config

/-! ### Tuple keys -/

theorem octets_ofFn {n : ℕ} (o : Vector U8 n) :
    (Vector.ofFn fun i : Fin n => byteAt o.toList i) = o := by
  refine Vector.ext fun i hi => ?_
  simp [byteAt]

theorem reads_octets {n : ℕ} (o : Vector U8 n) : Reads (Decoder.octets n) o.toList o := by
  refine (reads_take_of_length (by simp)).map ?_
  rw [octets_ofFn]
  exact .pure o

theorem octets_ok {n : ℕ} {s t : List U8} {o : Vector U8 n}
    (h : Decoder.octets n s = (.ok o, t)) : s = o.toList ++ t := by
  obtain ⟨b, u, hb, h⟩ := bind_ok h
  obtain ⟨hs, hlen⟩ := take_ok hb
  change (Except.ok (Vector.ofFn fun i : Fin n => byteAt b i), u) = (.ok o, t) at h
  obtain ⟨ho, hu⟩ := Prod.mk.inj h
  rw [hs, hu, ← Except.ok.inj ho]
  congr 1
  exact List.ext_getElem (by simp [hlen]) fun i hi hi' => by simp [byteAt, hi]

theorem reads_endpoint (p : Endpoint) : Reads Decoder.endpoint (Encoder.endpoint p) p := by
  obtain ⟨address, port⟩ := p
  cases address with
  | v4 o =>
    have haddress : Reads Decoder.address (Encoder.u8 4 ++ o.toList) (.v4 o) := by
      refine (reads_u8 4).bind ?_
      rw [if_pos rfl]
      exact (reads_octets o).map (.pure _)
    exact haddress.bind ((reads_u16 port).map (.pure _))
  | v6 o =>
    have haddress : Reads Decoder.address (Encoder.u8 6 ++ o.toList) (.v6 o) := by
      refine (reads_u8 6).bind ?_
      rw [if_neg (by decide), if_pos rfl]
      exact (reads_octets o).map (.pure _)
    exact haddress.bind ((reads_u16 port).map (.pure _))

theorem takes_endpoint : Takes Decoder.endpoint Encoder.endpoint := by
  intro s p t h
  obtain ⟨address, u, haddress, h⟩ := bind_ok h
  obtain ⟨port, w, hport, h⟩ := bind_ok h
  cases h
  obtain ⟨family, x, hfamily, haddress⟩ := bind_ok haddress
  rw [takes_u8 s family x hfamily]
  split at haddress
  next hv4 =>
    obtain ⟨o, y, ho, haddress⟩ := bind_ok haddress
    cases haddress
    rw [octets_ok ho, takes_u16 u port t hport, hv4]
    simp [Encoder.endpoint]
  next =>
    split at haddress
    next hv6 =>
      obtain ⟨o, y, ho, haddress⟩ := bind_ok haddress
      cases haddress
      rw [octets_ok ho, takes_u16 u port t hport, hv6]
      simp [Encoder.endpoint]
    next => cases haddress

theorem length_endpoint_le (p : Endpoint) : (Encoder.endpoint p).length ≤ 19 := by
  obtain ⟨address, port⟩ := p
  cases address <;> simp [Encoder.endpoint, Encoder.u8, Encoder.u16]

namespace Key
variable {k : Key} {e : List U8}

theorem encode_ok (h : k.encode = .ok e) : k.Canonical ∧
    ∃ tunnels, Encoder.all Encoder.text k.tunnels = .ok tunnels ∧
      e = Encoder.u32 k.sectionId ++ (Encoder.u32 k.interface ++
        (Encoder.optionU32 k.linkInterface ++ (Encoder.u8 (BitVec.ofNat 8 k.vlans.length) ++
        (k.vlans.flatMap Encoder.u16 ++ (Encoder.u8 (BitVec.ofNat 8 k.tunnels.length) ++
        (tunnels ++ (Encoder.endpoint k.a ++ Encoder.endpoint k.b))))))) := by
  obtain ⟨hcanonical, h⟩ := guard_eq_ok.1 h
  obtain ⟨tunnels, htunnels, h⟩ := bind_eq_ok.1 h
  cases h
  exact ⟨not_not.1 hcanonical, tunnels, htunnels, by simp only [List.append_assoc]⟩

theorem toNat_count {n bound : ℕ} (h : n ≤ bound) (hbound : bound < 256) :
    (BitVec.ofNat 8 n).toNat = n := by
  rw [BitVec.toNat_ofNat, Nat.mod_eq_of_lt (by omega)]

theorem closes (h : k.encode = .ok e) : Closes decodeM e k := by
  obtain ⟨⟨hends, hvlans, hids, htunnels, hnames⟩, tunnels, hall, rfl⟩ := encode_ok h
  refine (reads_u32 _).closes ((reads_u32 _).closes ((reads_option fun v _ => reads_u32 v).closes
    ((reads_u8 _).closes ?_)))
  rw [toNat_count hvlans (by decide), if_neg (by omega)]
  refine (reads_repeated fun v _ => reads_u16 v).closes ((reads_u8 _).closes ?_)
  rw [toNat_count htunnels (by decide), if_neg (by omega)]
  have hreads := reads_all (m := Decoder.text 512)
    (fun s hs e he => reads_text he (hnames s hs).1) hall
  refine hreads.closes ((reads_endpoint _).closes ?_)
  rw [← List.append_nil (Encoder.endpoint k.b)]
  refine (reads_endpoint _).closes (finish_closes ?_)
  rw [lift_bind h]
  rfl

theorem canonical : ByteCodec.Canonical encode decode fun _ => True := by
  refine .of_closes (fun k e _ h => closes h) fun s k t h => ⟨trivial, ?_⟩
  obtain ⟨sectionId, u₁, h₁, h⟩ := bind_ok h
  obtain ⟨interface, u₂, h₂, h⟩ := bind_ok h
  obtain ⟨linkInterface, u₃, h₃, h⟩ := bind_ok h
  obtain ⟨n, u₄, h₄, h⟩ := bind_ok h
  obtain ⟨hn, h⟩ := guard_ok h
  obtain ⟨vlans, u₅, h₅, h⟩ := bind_ok h
  obtain ⟨m, u₆, h₆, h⟩ := bind_ok h
  obtain ⟨hm, h⟩ := guard_ok h
  obtain ⟨tunnels, u₇, h₇, h⟩ := bind_ok h
  obtain ⟨a, u₈, h₈, h⟩ := bind_ok h
  obtain ⟨b, u₉, h₉, h⟩ := bind_ok h
  obtain ⟨hend, h⟩ := finish_bind_ok h
  obtain ⟨e, he, h⟩ := lift_bind_ok h
  cases h
  obtain ⟨hvlans, hcount⟩ := takes_u16.repeated n.toNat h₅
  obtain ⟨htunnels, -, tunnelBytes, hall, hu₆⟩ := all_ok (fun s v t => text_ok) m.toNat h₇
  obtain ⟨-, tunnels', hall', he'⟩ := encode_ok he
  obtain rfl : tunnelBytes = tunnels' := Except.ok.inj (hall.symm.trans hall')
  rw [he, he', takes_u32 _ _ _ h₁, takes_u32 _ _ _ h₂, takes_optionU32 _ _ _ h₃, takes_u8 _ _ _ h₄,
    hvlans, takes_u8 _ _ _ h₆, hu₆, takes_endpoint _ _ _ h₈, takes_endpoint _ _ _ h₉, hend]
  simp [hcount, htunnels]

theorem length_encode_le (h : k.encode = .ok e) : e.length ≤ 10000 := by
  obtain ⟨⟨-, hvlans, -, htunnels, hnames⟩, tunnels, hall, rfl⟩ := encode_ok h
  have htexts : tunnels.length ≤ k.tunnels.length * 516 := by
    refine length_all_le (fun s hs e he => ?_) hall
    obtain ⟨-, rfl⟩ := bytes_ok he
    have hs := (hnames s hs).1
    simp only [List.length_append, Encoder.u32, length_leBytes]
    omega
  have hlink : (Encoder.optionU32 k.linkInterface).length ≤ 5 := by
    cases k.linkInterface <;>
      simp [Encoder.optionU32, Encoder.option, Encoder.boolean, Encoder.u8, Encoder.u32]
  have hids : (k.vlans.flatMap Encoder.u16).length = k.vlans.length * 2 := by
    simp [Encoder.u16, List.length_flatMap]
  have ha := length_endpoint_le k.a
  have hb := length_endpoint_le k.b
  simp only [List.length_append, hids, Encoder.u32, Encoder.u8, length_leBytes,
    List.length_singleton]
  omega

theorem decode_encode (h : k.encode = .ok e) : Key.decode e = .ok k :=
  canonical.decode_encode k e trivial h

end Key

/-! ### Transport records -/

theorem Witness.reads_decode (w : Witness) : Reads Witness.decode w.encode w := by
  simp only [Witness.encode, List.append_assoc]
  exact (reads_u32 _).bind ((reads_u32 _).bind ((reads_u64 _).bind ((reads_u64 _).bind
    ((reads_u32 _).bind ((reads_u64 _).map (.pure _))))))

theorem Witness.takes_decode : Takes Witness.decode Witness.encode := by
  intro s w t h
  obtain ⟨start, u₁, h₁, h⟩ := bind_ok h
  obtain ⟨stop, u₂, h₂, h⟩ := bind_ok h
  obtain ⟨frame, u₃, h₃, h⟩ := bind_ok h
  obtain ⟨recordOffset, u₄, h₄, h⟩ := bind_ok h
  obtain ⟨packetStart, u₅, h₅, h⟩ := bind_ok h
  obtain ⟨sourceOffset, u₆, h₆, h⟩ := bind_ok h
  cases h
  rw [takes_u32 _ _ _ h₁, takes_u32 _ _ _ h₂, takes_u64 _ _ _ h₃, takes_u64 _ _ _ h₄,
    takes_u32 _ _ _ h₅, takes_u64 _ _ _ h₆]
  simp [Witness.encode]

namespace TcpInput
variable {p : TcpInput} {c : Config}

def Derived (c : Config) (p : TcpInput) : Prop :=
  new p.key p.direction p.frame p.when_ p.raw p.witnesses c = .ok p

instance (c : Config) (p : TcpInput) : Decidable (p.Derived c) :=
  match h : new p.key p.direction p.frame p.when_ p.raw p.witnesses c with
  | .ok q => decidable_of_iff (q = p) (by rw [Derived, h, Except.ok.injEq])
  | .error e => isFalse (by simp [Derived, h])

theorem new_ok {key : Key} {direction : U8} {frame : U64} {when_ : Option (BitVec 128)}
    {raw : List U8} {witnesses : List Witness}
    (h : new key direction frame when_ raw witnesses c = .ok p) :
    (p.key = key ∧ p.direction = direction ∧ p.frame = frame ∧ p.when_ = when_ ∧ p.raw = raw ∧
      p.witnesses = witnesses) ∧ raw.length ≤ 65535 ∧ witnesses.length ≤ c.maxWitnesses ∧
      c.Valid := by
  obtain ⟨⟨⟩, hvalid, h⟩ := bind_eq_ok.1 h
  obtain ⟨-, -, h⟩ := bind_eq_ok.1 h
  obtain ⟨hbounds, h⟩ := guard_eq_ok.1 h
  obtain ⟨-, h⟩ := guard_eq_ok.1 h
  obtain ⟨-, h⟩ := guard_eq_ok.1 h
  obtain ⟨cursor, -, h⟩ := bind_eq_ok.1 h
  obtain ⟨-, h⟩ := guard_eq_ok.1 h
  obtain ⟨timestamp, -, h⟩ := bind_eq_ok.1 h
  cases h
  simp only [not_or, not_lt] at hbounds
  exact ⟨⟨rfl, rfl, rfl, rfl, rfl, rfl⟩, hbounds.2.2.2.1, hbounds.2.2.2.2, Config.validate_ok hvalid⟩

theorem closes {e : List U8} (hderived : p.Derived c) (h : p.encode = .ok e) :
    Closes (decodeM c) e p := by
  obtain ⟨-, hraw, hwitnesses, -⟩ := new_ok hderived
  obtain ⟨key, hkey, h⟩ := bind_eq_ok.1 h
  obtain ⟨blob, hblob, h⟩ := bind_eq_ok.1 h
  obtain ⟨raw, hrawBytes, h⟩ := bind_eq_ok.1 h
  obtain ⟨hcount, h⟩ := guard_eq_ok.1 h
  cases h
  simp only [List.append_assoc]
  refine (reads_bytes hblob (Key.length_encode_le hkey)).closes ?_
  rw [← List.nil_append (Encoder.u8 _ ++ _)]
  refine (Reads.of_lift (Key.decode_encode hkey)).closes ?_
  refine (reads_u8 _).closes ((reads_u64 _).closes ((reads_option fun v _ => reads_i128 v).closes
    ((reads_bytes hrawBytes hraw).closes ((reads_u32 _).closes ?_))))
  rw [toNat_ofNat_32 (by omega), if_neg (by omega), ← List.append_nil (List.flatMap _ _)]
  refine (reads_repeated fun w _ => w.reads_decode).closes (finish_closes ?_)
  exact congrArg (fun r => (r, [])) hderived

theorem canonical (c : Config) : Canonical encode (decode · c) (Derived c) := by
  refine .of_closes (fun p e hp h => closes hp h) fun s p t h => ?_
  obtain ⟨blob, u₁, h₁, h⟩ := bind_ok h
  obtain ⟨key, hkey, h⟩ := lift_bind_ok h
  obtain ⟨direction, u₂, h₂, h⟩ := bind_ok h
  obtain ⟨frame, u₃, h₃, h⟩ := bind_ok h
  obtain ⟨when_, u₄, h₄, h⟩ := bind_ok h
  obtain ⟨raw, u₅, h₅, h⟩ := bind_ok h
  obtain ⟨n, u₆, h₆, h⟩ := bind_ok h
  obtain ⟨hn, h⟩ := guard_ok h
  obtain ⟨witnesses, u₇, h₇, h⟩ := bind_ok h
  obtain ⟨hend, h⟩ := finish_bind_ok h
  obtain ⟨hnew, -⟩ := Prod.mk.inj h
  obtain ⟨⟨hk, hd, hf, hw, hr, hws⟩, -⟩ := new_ok hnew
  obtain ⟨-, keyBytes, hkeyBytes, hs⟩ := blob_ok h₁
  obtain ⟨-, rawBytes, hrawBytes, hu₄⟩ := blob_ok h₅
  obtain ⟨hwitnesses, hcount⟩ := Witness.takes_decode.repeated n.toNat h₇
  refine ⟨by rw [Derived, hk, hd, hf, hw, hr, hws, hnew], ?_⟩
  have hlt : ¬ witnesses.length ≥ 2 ^ 32 := by
    have := n.isLt
    omega
  rw [encode, hk, Key.canonical.encode_decode _ _ hkey]
  change (Encoder.bytes blob >>= _) = _
  rw [hkeyBytes, hr]
  change (Encoder.bytes raw >>= _) = _
  rw [hrawBytes, hws]
  change (if _ then _ else _) = _
  rw [if_neg hlt, hs, takes_u8 _ _ _ h₂, takes_u64 _ _ _ h₃, takes_optionI128 _ _ _ h₄, hu₄,
    takes_u32 _ _ _ h₆, hwitnesses, hend, hd, hf, hw]
  simp [hcount]

end TcpInput

/-! ### Decisions and tuple states -/

theorem Placement.reads_decode {p : Placement} (h : p.Fits) :
    Reads Placement.decodeM p.encode p := by
  simp only [Placement.encode, List.append_assoc]
  refine (reads_hash _).bind ((reads_u8 _).bind ((reads_i64 h.2).bind ((reads_boolean _).map ?_)))
  rw [if_neg (by have := h.1; omega)]
  exact .pure _

theorem Placement.decode_ok {s t : List U8} {p : Placement} (h : decodeM s = (.ok p, t)) :
    p.Fits ∧ s = p.encode ++ t := by
  obtain ⟨generation, u₁, h₁, h⟩ := bind_ok h
  obtain ⟨direction, u₂, h₂, h⟩ := bind_ok h
  obtain ⟨offset, u₃, h₃, h⟩ := bind_ok h
  obtain ⟨selected, u₄, h₄, h⟩ := bind_ok h
  obtain ⟨hdirection, h⟩ := guard_ok h
  cases h
  obtain ⟨hu₂, hoffset⟩ := i64_ok h₃
  refine ⟨⟨Nat.not_lt.1 hdirection, hoffset⟩, ?_⟩
  rw [takes_hash _ _ _ h₁, takes_u8 _ _ _ h₂, hu₂, takes_boolean _ _ _ h₄]
  simp [encode]

namespace Decision
variable {d : Decision} {c : Config}

theorem closes {e : List U8} (hfits : d.Fits c) (h : d.encode = .ok e) :
    Closes (decodeM c) e d := by
  obtain ⟨hplacements, h⟩ := guard_eq_ok.1 h
  obtain ⟨hreasons, h⟩ := guard_eq_ok.1 h
  obtain ⟨reasons, hall, h⟩ := bind_eq_ok.1 h
  cases h
  simp only [List.append_assoc]
  refine (reads_hash _).closes ((reads_hash _).closes ((reads_boolean _).closes
    ((reads_u32 _).closes ?_)))
  have hcount := hfits.placements
  rw [toNat_ofNat_32 (by omega), if_neg (by omega)]
  refine (reads_repeated fun p hp => Placement.reads_decode (hfits.placement p hp)).closes
    ((reads_u32 _).closes ?_)
  have hfew := hfits.reasons
  rw [toNat_ofNat_32 (by omega), if_neg (by omega), ← List.append_nil reasons]
  have hreads := reads_all (m := Decoder.text 256)
    (fun s hs e he => reads_text he (hfits.reason s hs)) hall
  exact hreads.closes (finish_closes rfl)

theorem canonical (c : Config) : Canonical encode (decode · c) (Fits c) := by
  refine .of_closes (fun d e hd h => closes hd h) fun s d t h => ?_
  obtain ⟨before, u₁, h₁, h⟩ := bind_ok h
  obtain ⟨after, u₂, h₂, h⟩ := bind_ok h
  obtain ⟨policy, u₃, h₃, h⟩ := bind_ok h
  obtain ⟨n, u₄, h₄, h⟩ := bind_ok h
  obtain ⟨hn, h⟩ := guard_ok h
  obtain ⟨placements, u₅, h₅, h⟩ := bind_ok h
  obtain ⟨m, u₆, h₆, h⟩ := bind_ok h
  obtain ⟨hm, h⟩ := guard_ok h
  obtain ⟨reasons, u₇, h₇, h⟩ := bind_ok h
  obtain ⟨hend, h⟩ := finish_bind_ok h
  cases h
  obtain ⟨hcount, hplacement, hu₄⟩ := repeated_ok (fun s v t => Placement.decode_ok) n.toNat h₅
  obtain ⟨hfew, hreason, e, hall, hu₆⟩ := all_ok (fun s v t => text_ok) m.toNat h₇
  refine ⟨⟨by dsimp only; omega, hplacement, by dsimp only; omega, hreason⟩, ?_⟩
  have hlt : ¬ placements.length ≥ 2 ^ 32 := by
    have := n.isLt
    omega
  have hlt' : ¬ reasons.length ≥ 2 ^ 32 := by
    have := m.isLt
    omega
  rw [encode, if_neg hlt, if_neg hlt', hall]
  change Except.ok _ = _
  rw [takes_hash _ _ _ h₁, takes_hash _ _ _ h₂, takes_boolean _ _ _ h₃, takes_u32 _ _ _ h₄, hu₄,
    takes_u32 _ _ _ h₆, hu₆, hend]
  simp [hcount, hfew]

end Decision

namespace Generation

/-- The offsets of a generation are values of their type. -/
structure InRange (g : Generation) : Prop where
  low : InI64 g.low.forward ∧ InI64 g.low.backward
  high : InI64 g.high.forward ∧ InI64 g.high.backward
  fin : (∀ v, g.fin.forward = some v → InI64 v) ∧ ∀ v, g.fin.backward = some v → InI64 v

theorem reads_dirs {α : Type} {m : DecoderM α} {a b : List U8} {x : Dirs α}
    (ha : Reads m a x.forward) (hb : Reads m b x.backward) : Reads (decodeDirs m) (a ++ b) x :=
  ha.bind (hb.map (.pure _))

theorem dirs_ok {α : Type} {m : DecoderM α} {s t : List U8} {x : Dirs α}
    (h : decodeDirs m s = (.ok x, t)) :
    ∃ u, m s = (.ok x.forward, u) ∧ m u = (.ok x.backward, t) := by
  obtain ⟨forward, u, hforward, h⟩ := bind_ok h
  obtain ⟨backward, w, hbackward, h⟩ := bind_ok h
  cases h
  exact ⟨u, hforward, hbackward⟩

theorem reads_decode {g : Generation} (h : g.InRange) : Reads decode g.encode g := by
  have hencode : g.encode = Encoder.hash g.id ++ (Encoder.u64 g.birth ++
      ((Encoder.optionU32 g.syn.forward ++ Encoder.optionU32 g.syn.backward) ++
      ((Encoder.optionU32 g.anchor.forward ++ Encoder.optionU32 g.anchor.backward) ++
      ((Encoder.i64 g.low.forward ++ Encoder.i64 g.low.backward) ++
      ((Encoder.i64 g.high.forward ++ Encoder.i64 g.high.backward) ++
      ((Encoder.optionI64 g.fin.forward ++ Encoder.optionI64 g.fin.backward) ++
      (Encoder.boolean g.reset ++ (Encoder.boolean g.midstream ++
        Encoder.optionI128 g.lastTime)))))))) := by
    simp only [encode, List.append_assoc]
  rw [hencode]
  exact (reads_hash _).bind ((reads_u64 _).bind
    ((reads_dirs (reads_option fun v _ => reads_u32 v) (reads_option fun v _ => reads_u32 v)).bind
    ((reads_dirs (reads_option fun v _ => reads_u32 v) (reads_option fun v _ => reads_u32 v)).bind
    ((reads_dirs (reads_i64 h.low.1) (reads_i64 h.low.2)).bind
    ((reads_dirs (reads_i64 h.high.1) (reads_i64 h.high.2)).bind
    ((reads_dirs (reads_option fun v hv => reads_i64 (h.fin.1 v hv))
      (reads_option fun v hv => reads_i64 (h.fin.2 v hv))).bind
    ((reads_boolean _).bind ((reads_boolean _).bind
    ((reads_option fun v _ => reads_i128 v).map (.pure _))))))))))

theorem optionI64_ok {s t : List U8} {o : Option ℤ} (h : Decoder.optionI64 s = (.ok o, t)) :
    s = Encoder.optionI64 o ++ t ∧ ∀ v, o = some v → InI64 v := by
  refine ⟨takes_optionI64 s o t h, ?_⟩
  obtain ⟨present, u, -, h⟩ := bind_ok h
  cases present with
  | false =>
    cases h
    simp
  | true =>
    obtain ⟨v, w, hv, h⟩ := bind_ok h
    cases h
    rintro w ⟨⟩
    exact (i64_ok hv).2

theorem decode_ok {s t : List U8} {g : Generation} (h : decode s = (.ok g, t)) :
    g.InRange ∧ s = g.encode ++ t := by
  obtain ⟨id, u₁, h₁, h⟩ := bind_ok h
  obtain ⟨birth, u₂, h₂, h⟩ := bind_ok h
  obtain ⟨syn, u₃, h₃, h⟩ := bind_ok h
  obtain ⟨anchor, u₄, h₄, h⟩ := bind_ok h
  obtain ⟨low, u₅, h₅, h⟩ := bind_ok h
  obtain ⟨high, u₆, h₆, h⟩ := bind_ok h
  obtain ⟨fin, u₇, h₇, h⟩ := bind_ok h
  obtain ⟨reset, u₈, h₈, h⟩ := bind_ok h
  obtain ⟨midstream, u₉, h₉, h⟩ := bind_ok h
  obtain ⟨lastTime, u₁₀, h₁₀, h⟩ := bind_ok h
  cases h
  obtain ⟨v₃, hsyn, hsyn'⟩ := dirs_ok h₃
  obtain ⟨v₄, hanchor, hanchor'⟩ := dirs_ok h₄
  obtain ⟨v₅, hlow, hlow'⟩ := dirs_ok h₅
  obtain ⟨v₆, hhigh, hhigh'⟩ := dirs_ok h₆
  obtain ⟨v₇, hfin, hfin'⟩ := dirs_ok h₇
  obtain ⟨hu₄, hlowRange⟩ := i64_ok hlow
  obtain ⟨hv₅, hlowRange'⟩ := i64_ok hlow'
  obtain ⟨hu₅, hhighRange⟩ := i64_ok hhigh
  obtain ⟨hv₆, hhighRange'⟩ := i64_ok hhigh'
  obtain ⟨hu₆, hfinRange⟩ := optionI64_ok hfin
  obtain ⟨hv₇, hfinRange'⟩ := optionI64_ok hfin'
  refine ⟨⟨⟨hlowRange, hlowRange'⟩, ⟨hhighRange, hhighRange'⟩, hfinRange, hfinRange'⟩, ?_⟩
  rw [takes_hash _ _ _ h₁, takes_u64 _ _ _ h₂, takes_optionU32 _ _ _ hsyn,
    takes_optionU32 _ _ _ hsyn', takes_optionU32 _ _ _ hanchor, takes_optionU32 _ _ _ hanchor',
    hu₄, hv₅, hu₅, hv₆, hu₆, hv₇, takes_boolean _ _ _ h₈, takes_boolean _ _ _ h₉,
    takes_optionI128 _ _ _ h₁₀]
  simp [encode]

def Bounded (g : Generation) : Prop :=
  g.birth ≠ 0 ∧ g.low.forward ≤ g.high.forward ∧ g.low.backward ≤ g.high.backward

end Generation

namespace TupleState
variable {state : TupleState} {c : Config}

/-- The limits of the decoder. -/
structure Fits (c : Config) (state : TupleState) : Prop where
  count : state.generations.length ≤ c.maxGenerations
  generation : ∀ g ∈ state.generations, g.InRange ∧ g.Bounded

theorem closes {e : List U8} (hfits : state.Fits c) (h : state.encode = .ok e) :
    Closes (decodeM c) e state := by
  obtain ⟨key, hkey, h⟩ := bind_eq_ok.1 h
  obtain ⟨blob, hblob, h⟩ := bind_eq_ok.1 h
  obtain ⟨hcount, h⟩ := guard_eq_ok.1 h
  cases h
  simp only [List.append_assoc]
  refine (reads_bytes hblob (Key.length_encode_le hkey)).closes ?_
  rw [← List.nil_append (Encoder.u32 _ ++ _)]
  refine (Reads.of_lift (Key.decode_encode hkey)).closes ((reads_u32 _).closes ?_)
  have hfew := hfits.count
  rw [toNat_ofNat_32 (by omega), if_neg (by omega), ← List.append_nil (List.flatMap _ _)]
  refine (reads_repeated fun g hg => Generation.reads_decode (hfits.generation g hg).1).closes
    (finish_closes ?_)
  rw [if_neg ?_]
  · rfl
  · rintro ⟨g, hg, hbad⟩
    obtain ⟨-, hbirth, hforward, hbackward⟩ := hfits.generation g hg
    rcases hbad with hbad | hbad | hbad
    · exact hbirth hbad
    · exact absurd hforward (not_le.2 hbad)
    · exact absurd hbackward (not_le.2 hbad)

theorem canonical (c : Config) : Canonical encode (decode · c) (Fits c) := by
  refine .of_closes (fun state e hstate h => closes hstate h) fun s state t h => ?_
  obtain ⟨blob, u₁, h₁, h⟩ := bind_ok h
  obtain ⟨key, hkey, h⟩ := lift_bind_ok h
  obtain ⟨n, u₂, h₂, h⟩ := bind_ok h
  obtain ⟨hn, h⟩ := guard_ok h
  obtain ⟨generations, u₃, h₃, h⟩ := bind_ok h
  obtain ⟨hend, h⟩ := finish_bind_ok h
  obtain ⟨hbounds, h⟩ := guard_ok h
  cases h
  obtain ⟨-, keyBytes, hkeyBytes, hs⟩ := blob_ok h₁
  obtain ⟨hcount, hrange, hu₂⟩ := repeated_ok (fun s v t => Generation.decode_ok) n.toNat h₃
  have hlt : generations.length < 2 ^ 32 := hcount ▸ n.isLt
  push Not at hbounds
  refine ⟨⟨by dsimp only; omega, fun g hg => ⟨hrange g hg, hbounds g hg⟩⟩, ?_⟩
  rw [encode, Key.canonical.encode_decode _ _ hkey]
  change (Encoder.bytes blob >>= _) = _
  rw [hkeyBytes]
  change (if _ then _ else _) = _
  rw [if_neg (by dsimp only; omega), hs, takes_u32 _ _ _ h₂, hu₂, hend]
  simp [hcount]

end TupleState

/-! ### Index rows -/

namespace Row
variable {r : Row} {e : List U8}

/-- The ends of a row are values of their type. -/
def InRange (r : Row) : Prop := InI64 r.start ∧ InI64 r.stop

theorem reads_reserved (n : ℕ) : Reads (reserved n) (List.replicate n 0) () := by
  refine (reads_take_of_length (List.length_replicate ..)).map ?_
  rw [if_neg (by simp)]
  exact .pure ()

theorem reserved_ok {n : ℕ} {s t : List U8} {u : Unit} (h : reserved n s = (.ok u, t)) :
    s = List.replicate n 0 ++ t := by
  obtain ⟨b, w, hb, h⟩ := bind_ok h
  obtain ⟨hzero, h⟩ := guard_ok h
  cases h
  rw [(take_ok hb).1, not_not.1 hzero]

theorem encode_zero : Encoder.u64 0 = List.replicate 8 0 := by decide

theorem length_encode (h : r.encode = .ok e) : e.length = WIDTH := by
  obtain ⟨-, h⟩ := guard_eq_ok.1 h
  cases h
  simp [Encoder.u8, Encoder.boolean, Encoder.u64, Encoder.i64, length_hash, WIDTH]

theorem closes (hrange : r.InRange) (h : r.encode = .ok e) : Closes decodeM e r := by
  have hencode := h
  obtain ⟨-, h⟩ := guard_eq_ok.1 h
  cases h
  simp only [List.append_assoc, encode_zero]
  refine (reads_hash _).closes ((reads_u8 _).closes ((reads_boolean _).closes
    ((reads_reserved 6).closes ((reads_i64 hrange.1).closes ((reads_i64 hrange.2).closes
    ((reads_u64 _).closes ((reads_hash _).closes ((reads_u64 _).closes ?_))))))))
  rw [← List.append_nil (List.replicate 8 0)]
  refine (reads_reserved 8).closes (finish_closes ?_)
  rw [lift_bind hencode]
  rfl

theorem canonical_run : Canonical encode (Decoder.run decodeM) InRange := by
  refine .of_closes (fun r e hr h => closes hr h) fun s r t h => ?_
  obtain ⟨generation, u₁, h₁, h⟩ := bind_ok h
  obtain ⟨direction, u₂, h₂, h⟩ := bind_ok h
  obtain ⟨selected, u₃, h₃, h⟩ := bind_ok h
  obtain ⟨⟨⟩, u₄, h₄, h⟩ := bind_ok h
  obtain ⟨start, u₅, h₅, h⟩ := bind_ok h
  obtain ⟨stop, u₆, h₆, h⟩ := bind_ok h
  obtain ⟨recordOffset, u₇, h₇, h⟩ := bind_ok h
  obtain ⟨recordDigest, u₈, h₈, h⟩ := bind_ok h
  obtain ⟨ordinal, u₉, h₉, h⟩ := bind_ok h
  obtain ⟨⟨⟩, u₁₀, h₁₀, h⟩ := bind_ok h
  obtain ⟨hend, h⟩ := finish_bind_ok h
  obtain ⟨e, he, h⟩ := lift_bind_ok h
  cases h
  obtain ⟨hu₄, hstart⟩ := i64_ok h₅
  obtain ⟨hu₅, hstop⟩ := i64_ok h₆
  refine ⟨⟨hstart, hstop⟩, ?_⟩
  rw [he]
  obtain ⟨-, he⟩ := guard_eq_ok.1 he
  rw [← he, takes_hash _ _ _ h₁, takes_u8 _ _ _ h₂, takes_boolean _ _ _ h₃, reserved_ok h₄, hu₄, hu₅,
    takes_u64 _ _ _ h₇, takes_hash _ _ _ h₈, takes_u64 _ _ _ h₉, reserved_ok h₁₀, hend, encode_zero]
  simp

theorem canonical : Canonical encode decode InRange := by
  have hdecode : ∀ {b : List U8} {r : Row}, decode b = .ok r →
      b.length = WIDTH ∧ Decoder.run decodeM b = .ok r := fun h => by
    obtain ⟨hlen, h⟩ := guard_eq_ok.1 h
    exact ⟨not_not.1 hlen, h⟩
  refine ⟨fun r b hr h => ?_, fun b r h => canonical_run.encode_decode b r (hdecode h).2,
    fun b r h => canonical_run.fits b r (hdecode h).2, fun b r more h hmore => ?_⟩
  · rw [decode, if_neg (not_not.2 (length_encode h))]
    exact canonical_run.decode_encode r b hr h
  · have hlen : (b ++ more).length ≠ WIDTH := by
      have hpos := List.length_pos_of_ne_nil hmore
      have hb := (hdecode h).1
      rw [List.length_append]
      omega
    exact ⟨_, if_pos hlen⟩

end Row

/-! ### All formats -/

/-- Every format decodes what it encodes, encodes what it decodes, and accepts nothing longer. -/
theorem codecs_canonical : Canonical Config.encode Config.decode (fun _ => True) ∧
    Canonical Key.encode Key.decode (fun _ => True) ∧
    (∀ c, Canonical TcpInput.encode (TcpInput.decode · c) (TcpInput.Derived c)) ∧
    (∀ c, Canonical Decision.encode (Decision.decode · c) (Decision.Fits c)) ∧
    (∀ c, Canonical TupleState.encode (TupleState.decode · c) (TupleState.Fits c)) ∧
    Canonical Row.encode Row.decode Row.InRange :=
  ⟨Config.canonical, Key.canonical, TcpInput.canonical, Decision.canonical, TupleState.canonical,
    Row.canonical⟩

def portsSegment : List U8 := [0, 1, 0, 2, 0, 0, 0, 5, 0, 0, 0, 0, 0x50, 16, 0, 0, 0, 0, 0, 0]

def portsKey : Key where
  sectionId := 0
  interface := 0
  linkInterface := none
  vlans := []
  tunnels := []
  a := ⟨.v4 (Vector.replicate 4 10), 1⟩
  b := ⟨.v4 (Vector.replicate 4 11), 2⟩

def portsRecord (sequence : U32) : TcpInput where
  key := portsKey
  direction := 0
  frame := 1
  when_ := none
  raw := portsSegment
  witnesses := [⟨0, 20, 1, 0, 0, 0⟩]
  sequence := sequence
  acknowledgement := 0
  flags := 16
  window := 0
  timestampValue := none
  headerBytes := 20

theorem portsRecord_derived : (portsRecord 5).Derived .default := by decide +kernel

/-- A record with another sequence number than its octets comes back with that of the octets. -/
theorem decode_drops_sequence : ¬ ∀ (c : Config) (p : TcpInput) (b : List U8), p.encode = .ok b →
    (∃ q, TcpInput.decode b c = .ok q) → TcpInput.decode b c = .ok p := by
  intro hall
  have hencode : ∃ b, (portsRecord 5).encode = .ok b := ⟨_, rfl⟩
  obtain ⟨b, hb⟩ := hencode
  have hdecode : TcpInput.decode b .default = .ok (portsRecord 5) :=
    (TcpInput.canonical .default).decode_encode _ b portsRecord_derived hb
  have hother := hall .default (portsRecord 6) b hb ⟨_, hdecode⟩
  rw [hdecode] at hother
  have hsequence : (5 : U32) = 6 := congrArg TcpInput.sequence (Except.ok.inj hother)
  exact absurd hsequence (by decide)

end PcapEvidence.History
