import PcapEvidence.JsonEncode

/-!
# Names in DNS messages

A name is a sequence of labels that a zero octet ends; a pointer stands for the rest of an earlier
name. `Name` says which labels stand at a position, how many pointers lead to them and where the
octets of the name itself end.
-/

namespace PcapEvidence.Dns

def malformed (field detail : String) : Error := ⟨.protocolFraming, 0, field, detail⟩

def need (b : List U8) (n : ℕ) (field : String) : Result Unit :=
  if b.length < n then .error (malformed field "truncated structure") else .ok ()

def decimal3 (n : ℕ) : List Char :=
  [Nat.digitChar (n / 100), Nat.digitChar (n / 10 % 10), Nat.digitChar (n % 10)]

def isAsciiUppercase (x : U8) : Bool := 0x41 ≤ x.toNat ∧ x.toNat ≤ 0x5a

def isAsciiAlphanumeric (x : U8) : Bool :=
  (0x30 ≤ x.toNat ∧ x.toNat ≤ 0x39) ∨ isAsciiUppercase x ∨ (0x61 ≤ x.toNat ∧ x.toNat ≤ 0x7a)

/-- Letters, digits, hyphen and underscore stand for themselves. -/
def escapeByte (x : U8) : List Char :=
  if isAsciiAlphanumeric x ∨ x = 0x2d ∨ x = 0x5f then [Char.ofNat x.toNat]
  else '\\' :: decimal3 x.toNat

def escapeLabel (label : List U8) : String := String.ofList (label.flatMap escapeByte)

/-- Labels joined by dots; the root is a single dot. -/
def nameText (labels : List String) : String :=
  if labels = [] then "." else ".".intercalate labels

def pointerTarget (n m : U8) : ℕ := (n &&& 63).toNat <<< 8 ||| m.toNat

def grow (expanded n : ℕ) : Result ℕ :=
  match checkedAdd expanded n with
  | none => .error (Error.limit "dns_name")
  | some expanded =>
    if expanded > 255 then .error (malformed "dns_name" "expanded name exceeds 255 octets")
    else .ok expanded

def nameLoop (b : List U8) : ℕ → ℕ → Option ℕ → List String → ℕ → Result (String × ℕ)
  | 0, _, _, _, _ => .error (Error.limit "dns_name_steps")
  | fuel + 1, p, consumed, labels, expanded => do
    need b (p + 1) "dns_name"
    let n := byteAt b p
    if n &&& 0xc0 = 0xc0 then do
      need b (p + 2) "dns_pointer"
      let target := pointerTarget n (byteAt b (p + 1))
      if target ≥ p then .error (malformed "dns_pointer" "forward/self compression pointer")
      else nameLoop b fuel target (some (consumed.getD (p + 2))) labels expanded
    else if n &&& 0xc0 ≠ 0 then .error (malformed "dns_name" "unsupported extended label type")
    else if n = 0 then .ok (nameText labels, consumed.getD (p + 1))
    else do
      need b (p + 1 + n.toNat) "dns_label"
      let expanded ← grow expanded (n.toNat + 1)
      nameLoop b fuel (p + 1 + n.toNat) consumed
        (labels ++ [escapeLabel (sliceOf b (p + 1) (p + 1 + n.toNat))]) expanded

def dnsName (b : List U8) (start : ℕ) : Result (String × ℕ) :=
  if start ≥ b.length then .error (malformed "dns_name" "start outside packet")
  else nameLoop b 128 start none [] 1

/-! ### What stands at a position -/

/-- The labels of the name at a position, the number of its pointers and the end of its octets. -/
inductive Name (b : List U8) : ℕ → List (List U8) → ℕ → ℕ → Prop where
  | root {p : ℕ} (hin : p < b.length) (hn : byteAt b p = 0) : Name b p [] 0 (p + 1)
  | label {p k e : ℕ} {labels : List (List U8)} (hn : byteAt b p ≠ 0)
      (hplain : byteAt b p &&& 0xc0 = 0) (hin : p + 1 + (byteAt b p).toNat ≤ b.length)
      (rest : Name b (p + 1 + (byteAt b p).toNat) labels k e) :
      Name b p (sliceOf b (p + 1) (p + 1 + (byteAt b p).toNat) :: labels) k e
  | pointer {p k e : ℕ} {labels : List (List U8)} (hin : p + 2 ≤ b.length)
      (hn : byteAt b p &&& 0xc0 = 0xc0)
      (hback : pointerTarget (byteAt b p) (byteAt b (p + 1)) < p)
      (rest : Name b (pointerTarget (byteAt b p) (byteAt b (p + 1))) labels k e) :
      Name b p labels (k + 1) (p + 2)

def octets (labels : List (List U8)) : ℕ := (labels.map fun l => l.length + 1).sum

def wire (labels : List (List U8)) : List U8 :=
  labels.flatMap (fun l => BitVec.ofNat 8 l.length :: l) ++ [0]

def labelsText (labels : List (List U8)) : String := nameText (labels.map escapeLabel)

section Name
variable {expanded fuel : ℕ} {consumed : Option ℕ} {before : List String}
variable {b : List U8} {p k e : ℕ} {labels : List (List U8)}

theorem need_ok {n : ℕ} {field : String} {u : Unit} : need b n field = .ok u ↔ n ≤ b.length := by
  unfold need
  split_ifs <;> simp_all

theorem grow_ok {n grown : ℕ} :
    grow expanded n = .ok grown ↔ grown = expanded + n ∧ expanded + n ≤ 255 := by
  unfold grow checkedAdd
  by_cases hword : expanded + n < wordBound
  · rw [if_pos hword]
    dsimp only
    split_ifs with h
    · simp only [false_iff]
      omega
    · rw [Except.ok.injEq]
      omega
  · rw [if_neg hword]
    have hbig : ¬ expanded + n ≤ 255 := by
      unfold wordBound at hword
      omega
    simp [hbig]

theorem Name.lt_length (h : Name b p labels k e) : p < b.length := by
  cases h with
  | root hin _ => exact hin
  | label _ _ hin _ => omega
  | pointer hin _ _ _ => omega

theorem Name.unique {labels' : List (List U8)} {k' e' : ℕ} (h : Name b p labels k e)
    (h' : Name b p labels' k' e') : labels = labels' ∧ k = k' ∧ e = e' := by
  induction h generalizing labels' k' e' with
  | root hin hn =>
    cases h' with
    | root _ _ => exact ⟨rfl, rfl, rfl⟩
    | label hn' _ _ _ => exact absurd hn hn'
    | pointer _ hn' _ _ => simp [hn] at hn'
  | label hn hplain hin rest ih =>
    cases h' with
    | root _ hn' => exact absurd hn' hn
    | label _ _ _ rest' =>
      obtain ⟨rfl, hk, he⟩ := ih rest'
      exact ⟨rfl, hk, he⟩
    | pointer _ hn' _ _ => exact absurd (hplain.symm.trans hn') (by decide)
  | pointer hin hn hback rest ih =>
    cases h' with
    | root _ hn' => simp [hn'] at hn
    | label _ hn' _ _ => exact absurd (hn'.symm.trans hn) (by decide)
    | pointer _ _ _ rest' =>
      obtain ⟨rfl, rfl, -⟩ := ih rest'
      exact ⟨rfl, rfl, rfl⟩

theorem length_label (hin : p + 1 + (byteAt b p).toNat ≤ b.length) :
    (sliceOf b (p + 1) (p + 1 + (byteAt b p).toNat)).length = (byteAt b p).toNat := by
  simp only [sliceOf, List.length_drop, List.length_take]
  omega

theorem Name.loop (h : Name b p labels k e) (hoctets : expanded + octets labels ≤ 255) :
    nameLoop b fuel p consumed before expanded = if labels.length + k < fuel then
      .ok (nameText (before ++ labels.map escapeLabel), consumed.getD e)
    else .error (Error.limit "dns_name_steps") := by
  induction h generalizing fuel expanded consumed before with
  | @root p hin hn =>
    cases fuel with
    | zero => rfl
    | succ fuel =>
      have hneed : need b (p + 1) "dns_name" = .ok () := need_ok.2 hin
      rw [nameLoop, hneed]
      simp [hn, bind, Except.bind]
  | @label p k e labels hn hplain hin rest ih =>
    cases fuel with
    | zero => rfl
    | succ fuel =>
      simp only [octets, List.map_cons, List.sum_cons, length_label hin] at hoctets
      have hneed : need b (p + 1) "dns_name" = .ok () := need_ok.2 (by omega)
      have hlabel : need b (p + 1 + (byteAt b p).toNat) "dns_label" = .ok () := need_ok.2 hin
      have hgrow : grow expanded ((byteAt b p).toNat + 1) =
          .ok (expanded + ((byteAt b p).toNat + 1)) := grow_ok.2 ⟨rfl, by omega⟩
      have hcount : (sliceOf b (p + 1) (p + 1 + (byteAt b p).toNat) :: labels).length + k <
          fuel + 1 ↔ labels.length + k < fuel := by
        rw [List.length_cons]
        omega
      rw [nameLoop, hneed]
      simp only [bind, Except.bind, hplain, hn, hlabel, hgrow, hcount]
      simp [ih (show expanded + ((byteAt b p).toNat + 1) + octets labels ≤ 255 by
        unfold octets
        omega)]
  | @pointer p k e labels hin hn hback rest ih =>
    cases fuel with
    | zero => rfl
    | succ fuel =>
      have hneed : need b (p + 1) "dns_name" = .ok () := need_ok.2 (by omega)
      have hpointer : need b (p + 2) "dns_pointer" = .ok () := need_ok.2 hin
      have hcount : labels.length + (k + 1) < fuel + 1 ↔ labels.length + k < fuel := by omega
      rw [nameLoop, hneed]
      simp only [bind, Except.bind, hn, hpointer, if_true, hcount]
      rw [if_neg (by omega), ih hoctets]
      rfl

theorem loop_name {e' : ℕ} {t : String} (hexpanded : expanded ≤ 255)
    (h : nameLoop b fuel p consumed before expanded = .ok (t, e')) :
    ∃ labels k e, Name b p labels k e ∧ labels.length + k < fuel ∧
      expanded + octets labels ≤ 255 ∧ t = nameText (before ++ labels.map escapeLabel) ∧
      e' = consumed.getD e := by
  induction fuel generalizing p expanded consumed before with
  | zero => cases h
  | succ fuel ih =>
    rw [nameLoop] at h
    obtain ⟨⟨⟩, hneed, h⟩ := bind_eq_ok.1 h
    have hin : p + 1 ≤ b.length := need_ok.1 hneed
    dsimp only at h
    split at h
    next hn =>
      obtain ⟨⟨⟩, hpointer, h⟩ := bind_eq_ok.1 h
      obtain ⟨hback, h⟩ := guard_eq_ok.1 h
      obtain ⟨labels, k, e, hname, hsteps, hoctets, rfl, rfl⟩ := ih hexpanded h
      exact ⟨labels, k + 1, p + 2, .pointer (need_ok.1 hpointer) hn (Nat.not_le.1 hback) hname,
        by omega, hoctets, rfl, rfl⟩
    next =>
      obtain ⟨hplain, h⟩ := guard_eq_ok.1 h
      rw [not_not] at hplain
      split at h
      next hn =>
        cases h
        exact ⟨[], 0, p + 1, .root hin hn, by simp, by simpa [octets] using hexpanded,
          by simp, rfl⟩
      next hn =>
        obtain ⟨⟨⟩, hlabel, h⟩ := bind_eq_ok.1 h
        obtain ⟨grown, hgrow, h⟩ := bind_eq_ok.1 h
        obtain ⟨rfl, hgrown⟩ := grow_ok.1 hgrow
        obtain ⟨labels, k, e, hname, hsteps, hoctets, rfl, rfl⟩ := ih hgrown h
        have hend : p + 1 + (byteAt b p).toNat ≤ b.length := need_ok.1 hlabel
        have hlen := length_label hend
        refine ⟨_, k, e, .label hn hplain hend hname, ?_, ?_, by simp, rfl⟩
        · rw [List.length_cons]
          omega
        · simp only [octets, List.map_cons, List.sum_cons, hlen] at hoctets ⊢
          omega

/-- The reader returns the text and the end of a name of at most 255 octets and 128 steps. -/
theorem dnsName_eq_ok_iff (t : String) (e : ℕ) :
    dnsName b p = .ok (t, e) ↔ ∃ labels k, Name b p labels k e ∧ octets labels + 1 ≤ 255 ∧
      labels.length + k < 128 ∧ t = labelsText labels := by
  constructor
  · intro h
    obtain ⟨-, h⟩ := guard_eq_ok.1 h
    obtain ⟨labels, k, e, hname, hsteps, hoctets, rfl, rfl⟩ := loop_name (by omega) h
    exact ⟨labels, k, hname, by omega, hsteps, rfl⟩
  · rintro ⟨labels, k, hname, hoctets, hsteps, rfl⟩
    rw [dnsName, if_neg (by have := hname.lt_length; omega), hname.loop (by omega),
      if_pos hsteps]
    rfl

end Name

/-! ### Names without pointers -/

section Wire
variable {labels : List (List U8)}

/-- Labels that can stand in a message. -/
def Encodable (labels : List (List U8)) : Prop := ∀ l ∈ labels, l ≠ [] ∧ l.length ≤ 63

theorem length_wire (labels : List (List U8)) : (wire labels).length = octets labels + 1 := by
  induction labels with
  | nil => rfl
  | cons l labels ih =>
    simp only [wire, List.flatMap_cons, List.append_assoc, List.length_append, List.length_cons,
      octets, List.map_cons, List.sum_cons] at ih ⊢
    omega

theorem octets_ge (hlabels : Encodable labels) : 2 * labels.length ≤ octets labels := by
  induction labels with
  | nil => simp
  | cons l labels ih =>
    have hrest := ih fun x hx => hlabels x (by simp [hx])
    have hpos := List.length_pos_of_ne_nil (hlabels l (by simp)).1
    simp only [octets, List.length_cons, List.map_cons, List.sum_cons] at hrest ⊢
    omega

theorem length_octet {n : ℕ} (hpos : 0 < n) (h : n ≤ 63) :
    (BitVec.ofNat 8 n).toNat = n ∧ BitVec.ofNat 8 n ≠ 0 ∧ BitVec.ofNat 8 n &&& 0xc0 = 0 := by
  have hall : ∀ n ≤ 63, 0 < n → (BitVec.ofNat 8 n).toNat = n ∧ BitVec.ofNat 8 n ≠ 0 ∧
      BitVec.ofNat 8 n &&& 0xc0 = 0 := by decide
  exact hall n h hpos

theorem name_wire (hlabels : Encodable labels) (pre post : List U8) :
    Name (pre ++ wire labels ++ post) pre.length labels 0 (pre.length + (wire labels).length) := by
  induction labels generalizing pre with
  | nil =>
    have hbyte : byteAt (pre ++ wire [] ++ post) pre.length = 0 := by simp [byteAt, wire]
    exact .root (by simp [wire]) hbyte
  | cons l labels ih =>
    obtain ⟨hne, hshort⟩ := hlabels l (by simp)
    obtain ⟨hn, hnz, hplain⟩ := length_octet (List.length_pos_of_ne_nil hne) hshort
    have hsplit : pre ++ wire (l :: labels) ++ post =
        (pre ++ BitVec.ofNat 8 l.length :: l) ++ wire labels ++ post := by
      simp [wire]
    have hbyte : byteAt (pre ++ wire (l :: labels) ++ post) pre.length =
        BitVec.ofNat 8 l.length := by
      simp [byteAt, wire]
    have hslice : sliceOf (pre ++ wire (l :: labels) ++ post) (pre.length + 1)
        (pre.length + 1 + l.length) = l := by
      have hpre : pre ++ wire (l :: labels) ++ post =
          (pre ++ [BitVec.ofNat 8 l.length]) ++ (l ++ (wire labels ++ post)) := by
        simp [wire]
      have hlen : (pre ++ [BitVec.ofNat 8 l.length]).length = pre.length + 1 := by simp
      rw [hpre, sliceOf, ← hlen, List.take_length_add_append, List.drop_left, List.take_left]
    have hrest := ih (fun x hx => hlabels x (by simp [hx])) (pre ++ BitVec.ofNat 8 l.length :: l)
    have hlength : (pre ++ BitVec.ofNat 8 l.length :: l).length = pre.length + 1 + l.length := by
      simp only [List.length_append, List.length_cons]
      omega
    have hend : pre.length + 1 + l.length + (wire labels).length =
        pre.length + (wire (l :: labels)).length := by
      rw [length_wire, length_wire]
      simp only [octets, List.map_cons, List.sum_cons]
      omega
    rw [← hsplit, hlength, hend] at hrest
    have hlabel := Name.label (b := pre ++ wire (l :: labels) ++ post) (p := pre.length)
      (by rw [hbyte]; exact hnz) (by rw [hbyte]; exact hplain)
      (by rw [hbyte, hn]; have := hrest.lt_length; omega) (by rw [hbyte, hn]; exact hrest)
    rwa [hbyte, hn, hslice] at hlabel

theorem dnsName_wire (hlabels : Encodable labels) (hoctets : octets labels + 1 ≤ 255)
    (pre post : List U8) : dnsName (pre ++ wire labels ++ post) pre.length =
      .ok (labelsText labels, pre.length + (wire labels).length) := by
  have hcount := octets_ge hlabels
  exact (dnsName_eq_ok_iff _ _).2 ⟨labels, 0, name_wire hlabels pre post, hoctets, by omega, rfl⟩

theorem Name.encodable {b : List U8} {p k e : ℕ} (h : Name b p labels k e) : Encodable labels := by
  induction h with
  | root _ _ => simp [Encodable]
  | @label p k e labels hn hplain hin rest ih =>
    intro l hl
    rcases List.mem_cons.1 hl with rfl | hl
    · have hlen := length_label hin
      have hsmall : ∀ n : U8, n &&& 0xc0 = 0 → n.toNat ≤ 63 := by decide +kernel
      refine ⟨fun hnil => hn ?_, by rw [hlen]; exact hsmall _ hplain⟩
      rw [hnil] at hlen
      exact BitVec.eq_of_toNat_eq hlen.symm
    · exact ih l hl
  | pointer _ _ _ _ ih => exact ih

end Wire

end PcapEvidence.Dns
