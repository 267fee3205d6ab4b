import PcapEvidence.CaptureLayout

/-!
# The decoder over whole runs

A run is any sequence of calls, with any input and offset each. The options of a record follow one
another inside it, and the interface table holds what the interface records of the current section
declared, so a packet names an interface that was emitted before it.
-/

namespace PcapEvidence

open Method

namespace Decoder

variable {d t : Decoder} {records : List Record} {r : Record}

structure Placed (options : List OptionMeta) (bound : ℕ) : Prop where
  ordered : options.Pairwise (fun a b => a.valueOffset + a.length < b.valueOffset)
  inside : ∀ o ∈ options, o.valueOffset + o.length ≤ bound

theorem Placed.nil (bound : ℕ) : Placed [] bound := ⟨.nil, by simp⟩

theorem Placed.mono {options : List OptionMeta} {bound bound' : ℕ} (h : Placed options bound)
    (hle : bound ≤ bound') : Placed options bound' :=
  ⟨h.ordered, fun o ho => (h.inside o ho).trans hle⟩

theorem Placed.append {options : List OptionMeta} {bound bound' : ℕ} {o : OptionMeta}
    (h : Placed options bound) (hstart : bound < o.valueOffset)
    (hstop : o.valueOffset + o.length ≤ bound') : Placed (options ++ [o]) bound' := by
  constructor
  · rw [List.pairwise_append]
    refine ⟨h.ordered, List.pairwise_singleton _ _, fun a ha b hb => ?_⟩
    rw [List.mem_singleton.1 hb]
    exact (h.inside a ha).trans_lt hstart
  · intro a ha
    rcases List.mem_append.1 ha with ha | ha
    · have := h.inside a ha
      omega
    · rwa [List.mem_singleton.1 ha]

section Options

variable {raw : List U8} {stop offset : ℕ} {endian : Endian} {limits : Limits}

theorem parseOptionsLoop_placed {fuel p : ℕ} {out options : List OptionMeta}
    (h : parseOptionsLoop raw stop endian offset limits fuel p out = .ok options)
    (hout : Placed out p) (hstop : Placed out stop) : Placed options stop := by
  induction fuel generalizing p out with
  | zero =>
    cases h
    exact hstop
  | succ fuel ih =>
    rw [parseOptionsLoop] at h
    dsimp only at h
    split_ifs at h
    · cases h
      exact hstop
    · -- a custom option without its enterprise number
      obtain ⟨next, -, h⟩ := bind_eq_ok.1 h
      split_ifs at h
    · obtain ⟨next, hnext, h⟩ := bind_eq_ok.1 h
      have hend := alignedEnd_ok hnext
      split_ifs at h with hle
      have hlt : p < p + 4 := by omega
      exact ih h (hout.append hlt hend.1) (hout.append hlt (by simp only; omega))
    · cases h
      exact hstop

theorem parseOptions_placed {start : ℕ} {options : List OptionMeta}
    (h : parseOptions raw start stop endian offset limits = .ok options) : Placed options stop :=
  parseOptionsLoop_placed h (.nil _) (.nil _)

end Options

/-- What a record says about the section it stands in. -/
inductive Scope (d : Decoder) : RecordKind → Decoder → Prop
  | opens {t : Decoder} (id : U32) (declared : Option ℕ) (hinterfaces : t.interfaces = [])
      (hformat : t.format = some .pcapNg) : Scope d (.sectionHeader id declared) t
  | declares {t : Decoder} (i : Interface) (hid : i.id = BitVec.ofNat 32 d.interfaces.length)
      (hsection : i.sectionId = d.sectionId) (hinterfaces : t.interfaces = d.interfaces ++ [i])
      (hsame : t.sectionId = d.sectionId) : Scope d (.interface i) t
  | refers {t : Decoder} (p : PacketMeta) (hsame : t.sectionId = d.sectionId)
      (hinterfaces : t.interfaces = d.interfaces)
      (hknown : d.format = some .pcap ∨ p.sectionId = d.sectionId ∧
        ∃ i, d.interfaces[p.interface.toNat]? = some i) : Scope d (.packet p) t
  | neutral {t : Decoder} {kind : RecordKind} (hsection : ∀ id n, kind ≠ .sectionHeader id n)
      (hinterface : ∀ i, kind ≠ .interface i) (hpacket : ∀ p, kind ≠ .packet p)
      (hsame : t.sectionId = d.sectionId) (hinterfaces : t.interfaces = d.interfaces) :
      Scope d kind t

theorem Scope.counted {kind : RecordKind} (h : Scope d kind t) : Scope d kind t.counted := by
  cases h with
  | opens id declared hinterfaces hformat => exact .opens id declared hinterfaces hformat
  | declares i hid hsection hinterfaces hsame => exact .declares i hid hsection hinterfaces hsame
  | refers p hsame hinterfaces hknown => exact .refers p hsame hinterfaces hknown
  | neutral hsection hinterface hpacket hsame hinterfaces =>
    exact .neutral hsection hinterface hpacket hsame hinterfaces

def Scoped (raw : List U8) (d : Decoder) (body : Body) (t : Decoder) : Prop :=
  Placed body.options raw.length ∧ Scope d body.kind t

section Body

variable {raw : List U8} {offset : ℕ} {d : Decoder} {α : Type} {ok : α → Decoder → Prop}

theorem sat_reject {e : Error} : Sat (fail e : DecodeM α) d ok (fun _ _ => True) :=
  sat_fail trivial

theorem sat_guard {c : Prop} [Decidable c] {e : Error} {m : DecodeM α}
    (h : ¬ c → Sat m d ok (fun _ _ => True)) :
    Sat (if c then fail e else m) d ok (fun _ _ => True) :=
  sat_ite (fun _ => sat_reject) h

theorem sat_try {β : Type} {r : Result β} {f : β → DecodeM α}
    (h : ∀ b, r = .ok b → Sat (f b) d ok (fun _ _ => True)) :
    Sat (lift r >>= f) d ok (fun _ _ => True) :=
  sat_lift_bind h (fun _ _ => trivial)

theorem parseOptions_inside {start : ℕ} {endian : Endian} {limits : Limits}
    {options : List OptionMeta}
    (h : parseOptions raw start (raw.length - 4) endian offset limits = .ok options) :
    Placed options raw.length :=
  (parseOptions_placed h).mono (Nat.sub_le _ _)

theorem scoped_plain {endian : Endian} {kind : RecordKind} {options : List OptionMeta}
    (hoptions : Placed options raw.length) (hsection : ∀ id n, kind ≠ .sectionHeader id n)
    (hinterface : ∀ i, kind ≠ .interface i) (hpacket : ∀ p, kind ≠ .packet p) :
    Scoped raw d ⟨endian, kind, options, []⟩ d :=
  ⟨hoptions, .neutral hsection hinterface hpacket rfl rfl⟩

theorem interface_ok {id : U32} {i : Interface} (h : d.interface id offset = .ok i) :
    d.interfaces[id.toNat]? = some i := by
  unfold interface at h
  split at h
  next j hj =>
    cases h
    exact hj
  next => cases h
variable (endian : Endian)
include endian

theorem sectionBlock_scoped :
    Sat (sectionBlock endian raw offset) d (Scoped raw d) (fun _ _ => True) := by
  apply sat_read_bind
  refine sat_guard fun _ => sat_guard fun _ => sat_guard fun _ => ?_
  refine sat_try fun options hoptions => sat_try fun stop _ => sat_guard fun _ => ?_
  exact ⟨parseOptions_inside hoptions, .opens _ _ rfl rfl⟩

theorem interfaceBlock_scoped :
    Sat (interfaceBlock endian raw offset) d (Scoped raw d) (fun _ _ => True) := by
  apply sat_read_bind
  refine sat_try fun _ _ => sat_guard fun _ => ?_
  refine sat_try fun options hoptions => sat_try fun clock _ => ?_
  exact ⟨parseOptions_inside hoptions, .declares _ rfl rfl rfl rfl⟩

theorem packetBlock_scoped (obsolete : Bool) :
    Sat (packetBlock endian obsolete raw offset) d (Scoped raw d) (fun _ _ => True) := by
  apply sat_read_bind
  refine sat_try fun _ _ => sat_try fun i hi => sat_guard fun _ => ?_
  refine sat_try fun after _ => sat_guard fun _ => sat_try fun warnings _ => ?_
  refine sat_try fun options hoptions => ?_
  exact ⟨parseOptions_inside hoptions, .refers _ rfl rfl (Or.inr ⟨rfl, i, interface_ok hi⟩)⟩

theorem simplePacketBlock_scoped :
    Sat (simplePacketBlock endian raw offset) d (Scoped raw d) (fun _ _ => True) := by
  apply sat_read_bind
  refine sat_try fun _ _ => sat_try fun i hi => sat_guard fun _ => ?_
  refine sat_try fun padded _ => sat_guard fun _ => ?_
  exact ⟨.nil _, .refers _ rfl rfl (Or.inr ⟨rfl, i, interface_ok hi⟩)⟩

theorem namesBlock_scoped :
    Sat (namesBlock endian raw offset) d (Scoped raw d) (fun _ _ => True) := by
  apply sat_read_bind
  refine sat_try fun out _ => sat_try fun options hoptions => ?_
  exact scoped_plain (parseOptions_inside hoptions) (by simp) (by simp) (by simp)

theorem statisticsBlock_scoped :
    Sat (statisticsBlock endian raw offset) d (Scoped raw d) (fun _ _ => True) := by
  apply sat_read_bind
  refine sat_try fun _ _ => sat_try fun i _ => sat_try fun options hoptions => ?_
  exact scoped_plain (parseOptions_inside hoptions) (by simp) (by simp) (by simp)

theorem secretsBlock_scoped :
    Sat (secretsBlock endian raw offset) d (Scoped raw d) (fun _ _ => True) := by
  apply sat_read_bind
  refine sat_try fun _ _ => sat_try fun stop _ => sat_guard fun _ => ?_
  refine sat_try fun options hoptions => ?_
  exact scoped_plain (parseOptions_inside hoptions) (by simp) (by simp) (by simp)

theorem customBlock_scoped (copyOnEdit : Bool) :
    Sat (customBlock endian copyOnEdit raw offset) d (Scoped raw d) (fun _ _ => True) :=
  sat_try fun _ _ => scoped_plain (.nil _) (by simp) (by simp) (by simp)

theorem blockBody_scoped :
    Sat (blockBody endian raw offset) d (Scoped raw d) (fun _ _ => True) := by
  unfold blockBody
  refine sat_ite (fun _ => sectionBlock_scoped endian) fun _ => ?_
  refine sat_ite (fun _ => interfaceBlock_scoped endian) fun _ => ?_
  refine sat_ite (fun _ => packetBlock_scoped endian false) fun _ => ?_
  refine sat_ite (fun _ => packetBlock_scoped endian true) fun _ => ?_
  refine sat_ite (fun _ => simplePacketBlock_scoped endian) fun _ => ?_
  refine sat_ite (fun _ => namesBlock_scoped endian) fun _ => ?_
  refine sat_ite (fun _ => statisticsBlock_scoped endian) fun _ => ?_
  refine sat_ite (fun _ => secretsBlock_scoped endian) fun _ => ?_
  refine sat_ite (fun _ => customBlock_scoped endian true) fun _ => ?_
  refine sat_ite (fun _ => customBlock_scoped endian false) fun _ => ?_
  exact scoped_plain (.nil _) (by simp) (by simp) (by simp)

omit endian

theorem decodeBody_scoped : Sat (decodeBody raw offset) d (Scoped raw d) (fun _ _ => True) := by
  apply sat_read_bind
  apply sat_ite
  · intro _
    unfold decodeLegacyHeader
    split
    next => exact sat_reject
    next endian nanos _ =>
      refine sat_guard fun _ => sat_guard fun _ => ?_
      exact ⟨.nil _, .neutral (by simp) (by simp) (by simp) rfl rfl⟩
  intro _
  apply sat_ite
  · intro hformat
    apply sat_read_bind
    cases d.legacy with
    | none => exact sat_reject
    | some header =>
      refine sat_try fun lengths _ => sat_try fun time _ => ?_
      exact ⟨.nil _, .refers _ rfl rfl (Or.inl hformat)⟩
  intro _
  apply sat_read_bind
  refine sat_try fun endian _ => sat_guard fun _ => sat_try fun _ _ => ?_
  exact blockBody_scoped endian

end Body

theorem decode_record {input : List U8} {offset : ℕ}
    (h : decode input offset d = (.ok (.record r), t)) :
    ∃ need body u, d.required input offset = .ok need ∧ need ≤ input.length ∧
      decodeBody (input.take need) offset d = (.ok body, u) ∧
      r = recordOf (input.take need) offset body ∧ t = u.counted := by
  rw [decode, read_bind] at h
  obtain ⟨-, h⟩ := guard_ok h
  obtain ⟨need, hneed, h⟩ := lift_bind_ok h
  by_cases hshort : input.length < need
  · rw [if_pos hshort] at h
    cases h
  · rw [if_neg hshort] at h
    obtain ⟨body, u, hbody, h⟩ := bind_ok h
    cases h
    exact ⟨need, body, u, hneed, by omega, hbody, rfl, rfl⟩

/-- The record a call has yielded, if any. -/
def emitted : Result Decode → List Record
  | .ok (.record r) => [r]
  | _ => []

/-- Any number of calls, with any input and offset each, and the records they have yielded. -/
inductive Reachable (d₀ : Decoder) : List Record → Decoder → Prop
  | start : Reachable d₀ [] d₀
  | call {records : List Record} {d : Decoder} (input : List U8) (offset : ℕ)
      (h : Reachable d₀ records d) :
      Reachable d₀ (records ++ emitted (decode input offset d).1) (decode input offset d).2

def opensSection : RecordKind → Bool
  | .sectionHeader _ _ => true
  | _ => false

def Declared (records : List Record) (i : Interface) : Prop :=
  ∃ before r after, records = before ++ r :: after ∧ r.kind = .interface i ∧
    ∀ a ∈ after, opensSection a.kind = false

theorem Declared.append {i : Interface} (h : Declared records i) (hr : opensSection r.kind = false) : Declared (records ++ [r]) i := by
  obtain ⟨before, q, after, rfl, hkind, hafter⟩ := h
  refine ⟨before, q, after ++ [r], by simp, hkind, fun a ha => ?_⟩
  rcases List.mem_append.1 ha with ha | ha
  · exact hafter a ha
  · rwa [List.mem_singleton.1 ha]

theorem Declared.last {i : Interface} (hr : r.kind = .interface i) : Declared (records ++ [r]) i :=
  ⟨records, r, [], rfl, hr, by simp⟩

def frames (records : List Record) : List ℕ :=
  records.filterMap fun r => r.packet.map (·.1.frame)

structure Tracked (records : List Record) (d : Decoder) : Prop where
  legacy : d.format = some .pcap → d.legacy.isSome
  next : 1 ≤ d.nextFrame
  frames : frames records = List.range' 1 (d.nextFrame - 1)
  interfaces : ∀ (k : ℕ) (i : Interface), d.interfaces[k]? = some i →
    i.id = BitVec.ofNat 32 k ∧ i.sectionId = d.sectionId ∧ Declared records i

theorem Tracked.frames_append (h : Tracked records d)
    {bytes : List U8} {offset : ℕ} (hstep : RecordStep bytes offset d r t) :
    1 ≤ t.nextFrame ∧ Decoder.frames (records ++ [r]) = List.range' 1 (t.nextFrame - 1) := by
  have hnext := h.next
  have hold := h.frames
  by_cases hp : ∃ p, r.kind = .packet p
  · obtain ⟨p, hp⟩ := hp
    obtain ⟨hframe, ht, -⟩ := hstep.packet p hp
    have hone : Decoder.frames [r] = [p.frame] := by
      simp [Decoder.frames, Record.packet, hp]
    refine ⟨by omega, ?_⟩
    rw [Decoder.frames, List.filterMap_append, ← Decoder.frames, ← Decoder.frames, hold, hone,
      hframe, ht]
    obtain ⟨n, hn⟩ : ∃ n, d.nextFrame = n + 1 := ⟨d.nextFrame - 1, by omega⟩
    rw [hn, Nat.add_sub_cancel, Nat.add_sub_cancel, List.range'_concat]
    simp [Nat.add_comm]
  · push Not at hp
    have ht := hstep.other hp
    have hone : Decoder.frames [r] = [] := by
      cases hk : r.kind with
      | packet p => exact absurd hk (hp p)
      | _ => simp [Decoder.frames, Record.packet, hk]
    refine ⟨by omega, ?_⟩
    rw [Decoder.frames, List.filterMap_append, ← Decoder.frames, ← Decoder.frames, hold, hone,
      List.append_nil, ht]

theorem Tracked.interfaces_append (h : Tracked records d) (hscope : Scope d r.kind t) (k : ℕ) (i : Interface)
    (hi : t.interfaces[k]? = some i) :
    i.id = BitVec.ofNat 32 k ∧ i.sectionId = t.sectionId ∧ Declared (records ++ [r]) i := by
  generalize hkind : r.kind = kind at hscope
  cases hscope with
  | opens id declared hinterfaces =>
    rw [hinterfaces] at hi
    cases hi
  | declares j hid hsection hinterfaces hsame =>
    rw [hinterfaces] at hi
    by_cases hk : k < d.interfaces.length
    · rw [List.getElem?_append_left hk] at hi
      obtain ⟨hid, hsec, hdecl⟩ := h.interfaces k i hi
      exact ⟨hid, hsec.trans hsame.symm, hdecl.append (by rw [hkind]; rfl)⟩
    · rw [List.getElem?_append_right (by omega)] at hi
      obtain ⟨hlt, hget⟩ := List.getElem?_eq_some_iff.1 hi
      rw [List.length_singleton] at hlt
      have hlast : k = d.interfaces.length := by omega
      subst hlast
      simp only [Nat.sub_self, List.getElem_cons_zero] at hget
      subst hget
      exact ⟨hid, hsection.trans hsame.symm, .last hkind⟩
  | refers p hsame hinterfaces hknown =>
    rw [hinterfaces] at hi
    obtain ⟨hid, hsec, hdecl⟩ := h.interfaces k i hi
    exact ⟨hid, hsec.trans hsame.symm, hdecl.append (by rw [hkind]; rfl)⟩
  | neutral hsection hinterface hpacket hsame hinterfaces =>
    rw [hinterfaces] at hi
    obtain ⟨hid, hsec, hdecl⟩ := h.interfaces k i hi
    refine ⟨hid, hsec.trans hsame.symm, hdecl.append ?_⟩
    cases hk : r.kind with
    | sectionHeader id n => exact absurd (hkind.symm.trans hk) (hsection id n)
    | _ => rfl

theorem Tracked.step {input : List U8} {offset : ℕ} (h : Tracked records d) (hdecode : decode input offset d = (.ok (.record r), t)) :
    ∃ need, d.required input offset = .ok need ∧ need ≤ input.length ∧
      RecordStep (input.take need) offset d r t ∧ Placed r.options r.raw.length ∧
      Scope d r.kind t := by
  obtain ⟨need, body, u, hneed, hle, hbody, rfl, rfl⟩ := decode_record hdecode
  have hraw : d.format = some .pcap →
      16 + (d.endian.u32 (input.take need) 8).toNat ≤ (input.take need).length := by
    intro hf
    have hsize := required_pcap hf hneed hle
    rw [List.length_take]
    omega
  have hstep := (decodeBody_spec h.legacy hraw).of_ok hbody
  obtain ⟨hplaced, hscope⟩ := decodeBody_scoped.of_ok hbody
  refine ⟨need, hneed, hle, ⟨rfl, rfl, hstep.limits, congrArg (· + 1) hstep.records, hstep.packet,
    hstep.other, hstep.legacy h.legacy⟩, hplaced, hscope.counted⟩

theorem decode_unchanged {input : List U8} {offset : ℕ}
    (hlegacy : d.format = some .pcap → d.legacy.isSome)
    (h : ∀ r, (decode input offset d).1 ≠ .ok (.record r)) : (decode input offset d).2 = d := by
  have hspec := @decode_spec d input offset hlegacy
  rcases hd : decode input offset d with ⟨out, t⟩
  rw [hd] at h
  cases out with
  | error e => exact (hspec.of_error hd).1
  | ok out =>
    rcases hspec.of_ok hd with ⟨need, -, ht⟩ | ⟨r, need, rfl, -⟩
    · exact ht
    · exact absurd rfl (h r)

theorem Tracked.call (h : Tracked records d) (input : List U8) (offset : ℕ) :
    Tracked (records ++ emitted (decode input offset d).1) (decode input offset d).2 := by
  by_cases hr : ∃ r, (decode input offset d).1 = .ok (.record r)
  · obtain ⟨r, hr⟩ := hr
    rcases hd : decode input offset d with ⟨out, t⟩
    rw [hd] at hr
    cases hr
    obtain ⟨need, -, -, hstep, -, hscope⟩ := h.step hd
    obtain ⟨hnext, hframes⟩ := h.frames_append hstep
    exact ⟨hstep.legacy, hnext, hframes, h.interfaces_append hscope⟩
  · push Not at hr
    rw [decode_unchanged h.legacy hr]
    have hnone : emitted (decode input offset d).1 = [] := by
      unfold emitted
      split
      next r heq => exact absurd heq (hr r)
      next => rfl
    rwa [hnone, List.append_nil]

theorem Reachable.tracked {limits : Limits} {mode : ParseMode} {d₀ : Decoder} (hnew : Decoder.new limits mode = .ok d₀)
    (h : Reachable d₀ records d) : Tracked records d := by
  induction h with
  | start =>
    obtain ⟨⟨⟩, -, hnew⟩ := bind_eq_ok.1 hnew
    cases hnew
    exact ⟨by simp, le_rfl, rfl, by simp⟩
  | call input offset _ ih => exact ih.call input offset

/-- The decoder over every run: a record is exactly the bytes it demanded, its packet data and
options are inside, frames count from one, and packets name declared interfaces. -/
theorem decode_sound_reachable {limits : Limits} {mode : ParseMode} {d₀ d : Decoder}
    {records : List Record} (hnew : Decoder.new limits mode = .ok d₀)
    (hreach : Reachable d₀ records d) (input : List U8) (offset : ℕ) :
    ((∀ r, (decode input offset d).1 ≠ .ok (.record r)) → (decode input offset d).2 = d) ∧
    (∀ r t, decode input offset d = (.ok (.record r), t) →
      (∃ need, d.required input offset = .ok need ∧ need ≤ input.length ∧
        r.raw = input.take need) ∧
      (∀ p, r.kind = .packet p → p.dataOffset + p.capturedLen.toNat ≤ r.raw.length) ∧
      (∀ o ∈ r.options, (r.optionValue o).isSome) ∧
      r.options.Pairwise (fun a b => a.valueOffset + a.length < b.valueOffset) ∧
      ∀ p, r.kind = .packet p → d.format ≠ some .pcap →
        ∃ i, i.id = p.interface ∧ i.sectionId = p.sectionId ∧ Declared records i) ∧
    frames records = List.range' 1 (frames records).length := by
  have htracked := hreach.tracked hnew
  refine ⟨decode_unchanged htracked.legacy, fun r t hdecode => ?_, ?_⟩
  · obtain ⟨need, hneed, hle, hstep, hplaced, hscope⟩ := htracked.step hdecode
    refine ⟨⟨need, hneed, hle, hstep.raw⟩, fun p hp => ?_, fun o ho => ?_, hplaced.ordered,
      fun p hp hformat => ?_⟩
    · rw [hstep.raw]
      exact (hstep.packet p hp).2.2
    · rw [Record.optionValue, if_pos (hplaced.inside o ho)]
      rfl
    · rw [hp] at hscope
      cases hscope with
      | refers _ hsame hinterfaces hknown =>
        obtain ⟨hsection, i, hi⟩ := hknown.resolve_left hformat
        obtain ⟨hid, hsec, hdeclared⟩ := htracked.interfaces _ i hi
        refine ⟨i, ?_, hsec.trans hsection.symm, hdeclared⟩
        rw [hid, BitVec.ofNat_toNat, BitVec.setWidth_eq]
      | neutral _ _ hpacket => exact absurd rfl (hpacket p)
  · rw [htracked.frames, List.length_range']

/-- A section header, an interface and a packet of it. -/
def sampleBlocks : List U8 × List U8 × List U8 :=
  ([0x0a, 0x0d, 0x0d, 0x0a, 28, 0, 0, 0, 0x4d, 0x3c, 0x2b, 0x1a, 1, 0, 0, 0, 255, 255, 255, 255, 255,
      255, 255, 255, 28, 0, 0, 0],
    [1, 0, 0, 0, 20, 0, 0, 0, 1, 0, 0, 0, 0, 0, 0, 0, 20, 0, 0, 0],
    [6, 0, 0, 0, 36, 0, 0, 0, 0, 0, 0, 0, 0, 0, 0, 0, 0, 0, 0, 0, 2, 0, 0, 0, 9, 0, 0, 0, 7, 8, 0, 0,
      36, 0, 0, 0])

theorem decode_sound_sample : ∃ d₀ d records r t, Decoder.new .default .strict = .ok d₀ ∧
    Reachable d₀ records d ∧ decode sampleBlocks.2.2 48 d = (.ok (.record r), t) ∧
    ∃ p, r.kind = .packet p ∧ p.dataOffset + p.capturedLen.toNat ≤ r.raw.length ∧
      ∃ i, i.id = p.interface ∧ i.sectionId = p.sectionId ∧ Declared records i := by
  obtain ⟨d₀, hnew⟩ : ∃ d₀, Decoder.new .default .strict = .ok d₀ := ⟨_, rfl⟩
  have hstart : Reachable d₀ [] d₀ := .start
  have hreach := hstart.call sampleBlocks.1 0 |>.call sampleBlocks.2.1 28
  cases hnew
  refine ⟨_, _, _, _, _, rfl, hreach, rfl, _, rfl, ?_, ?_⟩
  · exact ((@decode_sound_reachable .default .strict _ _ _ rfl hreach sampleBlocks.2.2 48).2.1 _ _ rfl).2.1 _ rfl
  · exact ((@decode_sound_reachable .default .strict _ _ _ rfl hreach sampleBlocks.2.2 48).2.1 _ _ rfl).2.2.2.2 _ rfl
      (by decide)

end Decoder

end PcapEvidence
