import PcapEvidence.Protocol
import PcapEvidence.StreamAssembler
import Mathlib.Data.List.GetD

/-!
# DNP3 link frames

`parseLink` reads one link frame out of retained evidence: a header of ten octets with a checksum
of its own, then blocks of at most sixteen octets of user data, each followed by its checksum.
-/

namespace PcapEvidence.Dnp3
open EvidenceBytes
open StreamAssembler (offsetBound)

structure LinkControl where
  direction : Bool
  primary : Bool
  fcb : Option Bool
  fcv : Option Bool
  dfc : Option Bool
  reserved : Option Bool
  function : U8
  functionName : String
  deriving DecidableEq

def linkControl (control : U8) : LinkControl :=
  let primary : Bool := control &&& 0x40 ≠ 0
  let function := control &&& 0x0f
  { direction := control &&& 0x80 ≠ 0
    primary
    fcb := if primary then some (control &&& 0x20 ≠ 0) else none
    fcv := if primary then some (control &&& 0x10 ≠ 0) else none
    dfc := if primary then none else some (control &&& 0x10 ≠ 0)
    reserved := if primary then none else some (control &&& 0x20 ≠ 0)
    function
    functionName :=
      if primary then
        if function = 0 then "reset_link_states"
        else if function = 1 then "reset_user_process"
        else if function = 2 then "test_link_states"
        else if function = 3 then "confirmed_user_data"
        else if function = 4 then "unconfirmed_user_data"
        else if function = 9 then "request_link_status"
        else "primary_unknown"
      else
        if function = 0 then "ack"
        else if function = 1 then "nack"
        else if function = 11 then "link_status"
        else if function = 14 then "link_service_not_functioning"
        else if function = 15 then "link_service_not_implemented"
        else "secondary_unknown" }

def isBroadcast (address : U16) : Bool := 0xfffd ≤ address.toNat

structure LinkFrame where
  streamOffset : ℤ
  control : U8
  linkControl : LinkControl
  source : U16
  destination : U16
  broadcast : Bool
  userData : EvidenceBytes
  raw : EvidenceBytes

def checkedOffset (base : ℤ) (n : ℕ) : Option ℤ :=
  if (n : ℤ) ≤ offsetBound ∧ base + n ≤ offsetBound then some (base + n) else none

/-- The loop over the data blocks of a frame that starts at `offset`. -/
def linkBlocks (bytes : EvidenceBytes) (offset : ℕ) :
    ℕ → ℕ → ℕ → EvidenceBytes → Result EvidenceBytes
  | 0, _, _, userData => .ok userData
  | fuel + 1, p, remaining, userData =>
    if remaining > 0 then
      let n := min remaining 16
      let input := bytes.data.drop offset
      if crc16Dnp (sliceOf input p (p + n)) ≠ le16 input (p + n) then
        .error ⟨.checksum, 0, "dnp3_data_crc", "data block CRC mismatch"⟩
      else do
        let block ← bytes.slice (offset + p) (offset + p + n)
        let appended := userData.append block 250
        appended.1
        linkBlocks bytes offset fuel (p + n + 2) (remaining - n) appended.2
    else .ok userData

def parseLink (bytes : EvidenceBytes) (offset : ℕ) (streamBase : ℤ) : Result (LinkFrame × ℕ) :=
  let input := bytes.data.drop offset
  match checkedOffset streamBase offset with
  | none => .error (Error.limit "stream_offset")
  | some streamOffset =>
    if offset > bytes.data.length then
      .error ⟨.truncated, 0, "dnp3", "offset beyond input"⟩
    else if input.length < 10 then .error ⟨.truncated, 0, "dnp3_header", "need 10 octets"⟩
    else if input.take 2 ≠ [0x05, 0x64] then
      .error ⟨.protocolFraming, 0, "dnp3_magic", "not a DNP3 link frame"⟩
    else if (byteAt input 2).toNat < 5 then
      .error ⟨.invalidLength, 0, "dnp3_length", "length must include five fixed link octets"⟩
    else if crc16Dnp (input.take 8) ≠ le16 input 8 then
      .error ⟨.checksum, 0, "dnp3_header_crc", "header CRC mismatch"⟩
    else if input.length < linkFrameTotal (byteAt input 2) then
      .error ⟨.truncated, 0, "dnp3_frame", "frame extends beyond contiguous captured bytes"⟩
    else do
      let dataLen := (byteAt input 2).toNat - 5
      let userData ← linkBlocks bytes offset dataLen 10 dataLen .empty
      let raw ← bytes.slice offset (offset + linkFrameTotal (byteAt input 2))
      .ok (⟨streamOffset, byteAt input 3, linkControl (byteAt input 3), le16 input 6, le16 input 4,
        isBroadcast (le16 input 4), userData, raw⟩, linkFrameTotal (byteAt input 2))

/-- A frame without its header and without the two octets that close each block. -/
def dropBlockCrcs {α : Type} : ℕ → List α → List α
  | 0, _ => []
  | fuel + 1, xs => ((xs.take 18).take ((xs.take 18).length - 2)) ++ dropBlockCrcs fuel (xs.drop 18)

/-- A frame's octets with the header and every block's checksum removed. -/
def withoutCrcs {α : Type} (raw : List α) : List α := dropBlockCrcs raw.length (raw.drop 10)

/-- The octets begin with the header of a link frame whose checksum holds. -/
def Headed (b : List U8) : Prop :=
  10 ≤ b.length ∧ b.take 2 = [0x05, 0x64] ∧ 5 ≤ (byteAt b 2).toNat ∧
    crc16Dnp (b.take 8) = le16 b 8

/-- The octets begin with a complete link frame, all of whose checksums hold. -/
def Framed (b : List U8) : Prop :=
  Headed b ∧ linkFrameTotal (byteAt b 2) ≤ b.length ∧
    dataCrcsValid b ((byteAt b 2).toNat - 5) 10 ((byteAt b 2).toNat - 5) = true

instance (b : List U8) : Decidable (Headed b) := inferInstanceAs (Decidable (_ ∧ _ ∧ _ ∧ _))

instance (b : List U8) : Decidable (Framed b) := inferInstanceAs (Decidable (_ ∧ _ ∧ _))

section Octets
variable {b more : List U8} {i j : ℕ}

theorem byteAt_append (h : i < b.length) : byteAt (b ++ more) i = byteAt b i :=
  List.getD_append b more 0 i h

theorem le16_append (h : i + 1 < b.length) : le16 (b ++ more) i = le16 b i := by
  rw [le16, le16, byteAt_append h, byteAt_append (Nat.lt_of_succ_lt h)]

theorem sliceOf_append (h : j ≤ b.length) : sliceOf (b ++ more) i j = sliceOf b i j := by
  rw [sliceOf, sliceOf, List.take_append_of_le_length h]

/-- The block loop reads nothing past the frame's end. -/
theorem dataCrcsValid_append (fuel p remaining : ℕ)
    (h : p + remaining + 2 * ((remaining + 15) / 16) ≤ b.length) :
    dataCrcsValid (b ++ more) fuel p remaining = dataCrcsValid b fuel p remaining := by
  induction fuel generalizing p remaining with
  | zero => rfl
  | succ fuel ih =>
    by_cases hr : remaining > 0
    · have hend : p + min remaining 16 + 2 ≤ b.length := by omega
      have hrest := ih (p + min remaining 16 + 2) (remaining - min remaining 16) (by omega)
      simp only [dataCrcsValid, if_pos hr, hrest,
        le16_append (show p + min remaining 16 + 1 < b.length by omega),
        sliceOf_append (show p + min remaining 16 ≤ b.length by omega)]
    · simp only [dataCrcsValid, if_neg hr]

theorem linkFrameTotal_eq (lengthOctet : U8) :
    linkFrameTotal lengthOctet =
      10 + (lengthOctet.toNat - 5) + 2 * ((lengthOctet.toNat - 5 + 15) / 16) := rfl

theorem take_two (h : 2 ≤ b.length) : b.take 2 = [byteAt b 0, byteAt b 1] := by
  match b, h with
  | x :: y :: rest, _ => rfl

theorem headed_append (h : 10 ≤ b.length) : Headed (b ++ more) ↔ Headed b := by
  have hlen : 10 ≤ (b ++ more).length := by rw [List.length_append]; omega
  rw [Headed, Headed, List.take_append_of_le_length (by omega),
    List.take_append_of_le_length (by omega), byteAt_append (by omega), le16_append (by omega)]
  simp only [h, hlen, true_and]

theorem framed_append (h : 10 ≤ b.length) (htotal : linkFrameTotal (byteAt b 2) ≤ b.length) :
    Framed (b ++ more) ↔ Framed b := by
  have hlen : linkFrameTotal (byteAt b 2) ≤ (b ++ more).length := by
    rw [List.length_append]
    omega
  rw [Framed, Framed, headed_append h, byteAt_append (by omega),
    dataCrcsValid_append _ _ _ (linkFrameTotal_eq _ ▸ htotal)]
  simp only [htotal, hlen, true_and]

end Octets

section Blocks
variable {e : EvidenceBytes} {offset : ℕ}

theorem length_view (h : e.Valid) : e.view.length = e.data.length := by
  have hlen : (origins e.spans).length = e.data.length := by simpa using h.2.length_origins
  rw [view, List.length_zip, hlen, Nat.min_self]

theorem dropBlockCrcs_nil {α : Type} (fuel : ℕ) : dropBlockCrcs fuel ([] : List α) = [] := by
  induction fuel with
  | zero => rfl
  | succ fuel ih => simpa [dropBlockCrcs] using ih

theorem dropBlockCrcs_fuel {α : Type} (f g : ℕ) (xs : List α) (hf : xs.length ≤ 18 * f)
    (hg : xs.length ≤ 18 * g) : dropBlockCrcs f xs = dropBlockCrcs g xs := by
  induction f generalizing g xs with
  | zero =>
    obtain rfl : xs = [] := List.length_eq_zero_iff.1 (by omega)
    rw [dropBlockCrcs_nil, dropBlockCrcs_nil]
  | succ f ih =>
    cases g with
    | zero =>
      obtain rfl : xs = [] := List.length_eq_zero_iff.1 (by omega)
      rw [dropBlockCrcs_nil, dropBlockCrcs_nil]
    | succ g =>
      rw [dropBlockCrcs, dropBlockCrcs, ih g (xs.drop 18) (by rw [List.length_drop]; omega)
        (by rw [List.length_drop]; omega)]

theorem dropBlockCrcs_block {α : Type} (fuel : ℕ) {remaining : ℕ} (hr : remaining > 0) {vs : List α}
    (hlen : remaining + 2 * ((remaining + 15) / 16) ≤ vs.length) :
    dropBlockCrcs (fuel + 1) (vs.take (remaining + 2 * ((remaining + 15) / 16))) =
      vs.take (min remaining 16) ++ dropBlockCrcs fuel ((vs.drop (min remaining 16 + 2)).take
        (remaining - min remaining 16 + 2 * ((remaining - min remaining 16 + 15) / 16))) := by
  have hhead : min 18 (min (remaining + 2 * ((remaining + 15) / 16)) vs.length) - 2 =
      min remaining 16 := by omega
  have hblock : min (min (min remaining 16) 18) (remaining + 2 * ((remaining + 15) / 16)) =
      min remaining 16 := by omega
  have hrest : (vs.take (remaining + 2 * ((remaining + 15) / 16))).drop 18 =
      (vs.drop (min remaining 16 + 2)).take
        (remaining - min remaining 16 + 2 * ((remaining - min remaining 16 + 15) / 16)) := by
    rw [List.drop_take]
    by_cases hfull : 16 ≤ remaining
    · rw [Nat.min_eq_right hfull]
      congr 1
      omega
    · rw [show remaining + 2 * ((remaining + 15) / 16) - 18 = 0 by omega,
        show remaining - min remaining 16 + 2 * ((remaining - min remaining 16 + 15) / 16) = 0 by
          omega, List.take_zero, List.take_zero]
  rw [dropBlockCrcs, hrest, List.length_take, List.length_take, hhead, List.take_take,
    List.take_take, hblock]

/-- The block loop succeeds exactly on valid checksums and gathers the octets without them. -/
theorem linkBlocks_spec (offset : ℕ) (he : e.Valid) (fuel p remaining : ℕ) {acc : EvidenceBytes}
    (hacc : acc.Valid) (hfuel : remaining ≤ fuel)
    (hend : offset + p + remaining + 2 * ((remaining + 15) / 16) ≤ e.data.length)
    (hlimit : acc.data.length + remaining ≤ 250) :
    if dataCrcsValid (e.data.drop offset) fuel p remaining then
      ∃ out, linkBlocks e offset fuel p remaining acc = .ok out ∧ out.Valid ∧
        out.view = acc.view ++ dropBlockCrcs fuel
          ((e.view.drop (offset + p)).take (remaining + 2 * ((remaining + 15) / 16)))
    else linkBlocks e offset fuel p remaining acc =
      .error ⟨.checksum, 0, "dnp3_data_crc", "data block CRC mismatch"⟩ := by
  induction fuel generalizing p remaining acc with
  | zero => exact ⟨acc, rfl, hacc, by simp [dropBlockCrcs]⟩
  | succ fuel ih =>
    by_cases hr : remaining > 0
    · by_cases hcrc : crc16Dnp (sliceOf (e.data.drop offset) p (p + min remaining 16)) ≠
          le16 (e.data.drop offset) (p + min remaining 16)
      · simp only [dataCrcsValid, linkBlocks, if_pos hr, if_pos hcrc]
        simp
      · obtain ⟨block, hslice, hblock, hdata, -⟩ := slice_spec he
          (show offset + p ≤ offset + p + min remaining 16 by omega)
          (show offset + p + min remaining 16 ≤ e.data.length by omega)
        have hlen : block.data.length = min remaining 16 := by
          rw [hdata, List.length_drop, List.length_take]
          omega
        have hword : (250 : ℕ) < wordBound := by decide
        obtain ⟨out, happend, -⟩ := append_spec hacc hblock
          (show _ < wordBound by omega) (show _ ≤ 250 by omega)
        obtain ⟨hout, houtData, houtView⟩ := view_append hacc hblock happend
        have hstep := ih (p + min remaining 16 + 2) (remaining - min remaining 16) hout (by omega)
          (by omega) (by rw [houtData, List.length_append]; omega)
        have hunfold : linkBlocks e offset (fuel + 1) p remaining acc =
            linkBlocks e offset fuel (p + min remaining 16 + 2) (remaining - min remaining 16)
              out := by
          simp only [linkBlocks, if_pos hr, if_neg hcrc, hslice]
          change ((acc.append block 250).1 >>= fun _ => _) = _
          rw [happend]
          rfl
        simp only [dataCrcsValid, if_pos hr, if_neg hcrc, hunfold]
        split_ifs at hstep ⊢ with hvalid
        · obtain ⟨final, hok, hfinal, hview⟩ := hstep
          have hblockView := (view_slice he hslice).2.2
          have hvs : remaining + 2 * ((remaining + 15) / 16) ≤
              (e.view.drop (offset + p)).length := by
            rw [List.length_drop, length_view he]
            omega
          refine ⟨final, hok, hfinal, ?_⟩
          rw [hview, houtView, hblockView, dropBlockCrcs_block fuel hr hvs, List.append_assoc,
            List.drop_drop, List.drop_take, Nat.add_sub_cancel_left]
          simp only [Nat.add_assoc]
        · exact hstep
    · simp only [dataCrcsValid, linkBlocks, if_neg hr]
      obtain rfl : remaining = 0 := by omega
      exact ⟨acc, rfl, hacc, by simp [dropBlockCrcs_nil]⟩

end Blocks

/-- What a frame read at `offset` retains. -/
structure FrameAt (e : EvidenceBytes) (offset : ℕ) (base : ℤ) (frame : LinkFrame) : Prop where
  streamOffset : frame.streamOffset = base + offset
  rawValid : frame.raw.Valid
  raw : frame.raw.view =
    (e.view.drop offset).take (linkFrameTotal (byteAt (e.data.drop offset) 2))
  userDataValid : frame.userData.Valid
  userData : frame.userData.view = withoutCrcs frame.raw.view

section Parse
variable {e : EvidenceBytes} {offset : ℕ} {base : ℤ}

theorem checkedOffset_eq_some (hword : (offset : ℤ) ≤ offsetBound)
    (hbase : base + offset ≤ offsetBound) : checkedOffset base offset = some (base + offset) :=
  if_pos ⟨hword, hbase⟩

theorem parseLink_framed (he : e.Valid) (hoffset : offset ≤ e.data.length)
    (hword : (offset : ℤ) ≤ offsetBound) (hbase : base + offset ≤ offsetBound) :
    if Framed (e.data.drop offset) then
      ∃ frame, FrameAt e offset base frame ∧ parseLink e offset base =
          .ok (frame, linkFrameTotal (byteAt (e.data.drop offset) 2))
    else ∃ error, parseLink e offset base = .error error := by
  have hlen : (e.data.drop offset).length = e.data.length - offset := List.length_drop
  have hbound := linkFrameTotal_eq (byteAt (e.data.drop offset) 2)
  have hoctet := (byteAt (e.data.drop offset) 2).isLt
  have hblocks (htotal : linkFrameTotal (byteAt (e.data.drop offset) 2) ≤
      (e.data.drop offset).length) :=
    linkBlocks_spec offset he ((byteAt (e.data.drop offset) 2).toNat - 5) 10
      ((byteAt (e.data.drop offset) 2).toNat - 5) valid_empty le_rfl (by omega)
      (by change 0 + _ ≤ 250; omega)
  by_cases hframed : Framed (e.data.drop offset)
  · rw [if_pos hframed]
    obtain ⟨⟨h10, hmagic, hlength, hcrc⟩, htotal, hvalid⟩ := hframed
    specialize hblocks htotal
    rw [if_pos hvalid] at hblocks
    obtain ⟨userData, hok, huser, hview⟩ := hblocks
    obtain ⟨raw, hslice, -⟩ := slice_spec he (Nat.le_add_right offset _)
      (show offset + linkFrameTotal (byteAt (e.data.drop offset) 2) ≤ e.data.length by omega)
    obtain ⟨hraw, -, hrawView⟩ := view_slice he hslice
    rw [List.drop_take, Nat.add_sub_cancel_left] at hrawView
    have hread : parseLink e offset base = .ok (⟨base + offset, byteAt (e.data.drop offset) 3,
        linkControl (byteAt (e.data.drop offset) 3), le16 (e.data.drop offset) 6,
        le16 (e.data.drop offset) 4, isBroadcast (le16 (e.data.drop offset) 4), userData, raw⟩,
        linkFrameTotal (byteAt (e.data.drop offset) 2)) := by
      simp only [parseLink, checkedOffset_eq_some hword hbase, if_neg hoffset.not_gt,
        if_neg h10.not_gt, if_neg (not_not.2 hmagic), if_neg hlength.not_gt,
        if_neg (not_not.2 hcrc), if_neg htotal.not_gt, hok, hslice]
      rfl
    refine ⟨_, ?_, hread⟩
    have hdrop : raw.view.drop 10 = (e.view.drop (offset + 10)).take
        ((byteAt (e.data.drop offset) 2).toNat - 5 +
          2 * (((byteAt (e.data.drop offset) 2).toNat - 5 + 15) / 16)) := by
      rw [hrawView, List.drop_take, List.drop_drop]
      congr 1
      omega
    have hviewLen := length_view hraw
    have huserView : userData.view = withoutCrcs raw.view := by
      rw [hview, ← hdrop, withoutCrcs]
      have hcut : (raw.view.drop 10).length ≤
          18 * ((byteAt (e.data.drop offset) 2).toNat - 5) := by
        rw [hdrop, List.length_take]
        omega
      exact dropBlockCrcs_fuel _ _ _ hcut (by rw [List.length_drop]; omega)
    exact ⟨rfl, hraw, hrawView, huser, huserView⟩
  · rw [if_neg hframed]
    simp only [parseLink, checkedOffset_eq_some hword hbase, if_neg hoffset.not_gt]
    split_ifs with h10 hmagic hlength hcrc htotal
    -- The header checks and the length check fail with their own errors.
    iterate 5 exact ⟨_, rfl⟩
    have hinvalid : ¬ dataCrcsValid (e.data.drop offset) ((byteAt (e.data.drop offset) 2).toNat - 5)
        10 ((byteAt (e.data.drop offset) 2).toNat - 5) = true := fun hvalid =>
      hframed ⟨⟨by omega, not_not.1 hmagic, by omega, not_not.1 hcrc⟩, by omega, hvalid⟩
    specialize hblocks (by omega)
    rw [if_neg hinvalid] at hblocks
    rw [hblocks]
    exact ⟨_, rfl⟩

theorem parseLink_eq_ok_iff (he : e.Valid) (hoffset : offset ≤ e.data.length)
    (hword : (offset : ℤ) ≤ offsetBound) (hbase : base + offset ≤ offsetBound) (n : ℕ) :
    (∃ frame, parseLink e offset base = .ok (frame, n)) ↔
      Framed (e.data.drop offset) ∧ n = linkFrameTotal (byteAt (e.data.drop offset) 2) := by
  have hread := parseLink_framed he hoffset hword hbase
  split_ifs at hread with hframed
  · obtain ⟨frame, -, hok⟩ := hread
    rw [hok]
    simp only [Except.ok.injEq, Prod.mk.injEq, exists_and_right, exists_eq', true_and, hframed]
    exact eq_comm
  · obtain ⟨error, herror⟩ := hread
    rw [herror]
    simp [hframed]

theorem parseLink_zero_eq_ok_iff (he : e.Valid) (hbase : base ≤ offsetBound) (n : ℕ) :
    (∃ frame, parseLink e 0 base = .ok (frame, n)) ↔
      Framed e.data ∧ n = linkFrameTotal (byteAt e.data 2) := by
  have hsum : base + ((0 : ℕ) : ℤ) ≤ offsetBound := by simpa using hbase
  have h := parseLink_eq_ok_iff he (Nat.zero_le _) (by decide) hsum n
  simpa using h

end Parse

end PcapEvidence.Dnp3
