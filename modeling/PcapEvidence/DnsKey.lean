import PcapEvidence.DnsName

/-!
# Keys of DNS messages

A message is read from its twelve octets on: the questions, then the records of three sections, and
nothing behind them. Its key shows the identifier and the questions in lower case.
-/

namespace PcapEvidence.Dns
open Bgp (Json hex)

structure DnsQuestion where
  name : String
  kind : U16
  cls : U16

structure DnsMessage where
  id : U16
  response : Bool
  truncated : Bool
  questions : List DnsQuestion
  metadata : Json

def ip4 (b : List U8) : String :=
  ".".intercalate ((List.range 4).map fun i => (byteAt b i).toNat.repr)

structure ZeroRun where
  start : ℕ
  len : ℕ

def longestZeros (segments : List ℕ) : ZeroRun :=
  (segments.zipIdx.foldl (fun (longest, current) segment =>
    if segment.1 = 0 then
      let current : ZeroRun :=
        ⟨if current.len = 0 then segment.2 else current.start, current.len + 1⟩
      (if current.len > longest.len then current else longest, current)
    else (longest, ⟨0, 0⟩)) ((⟨0, 0⟩, ⟨0, 0⟩) : ZeroRun × ZeroRun)).1

def segmentsText (segments : List ℕ) : String :=
  ":".intercalate (segments.map fun n => String.ofList (Nat.toDigits 16 n))

/-- A mapped IPv4 address is shown as such; the first longest run of zero segments is left out. -/
def ip6 (b : List U8) : String :=
  let segments := (List.range 8).map fun i => (be16 b (2 * i)).toNat
  let zeros := longestZeros segments
  if b.take 12 = List.replicate 10 0 ++ [0xff, 0xff] then "::ffff:" ++ ip4 (b.drop 12)
  else if zeros.len > 1 then
    segmentsText (segments.take zeros.start) ++ "::" ++
      segmentsText (segments.drop (zeros.start + zeros.len))
  else segmentsText segments

def number16 (n : U16) : Json := .number (n.setWidth 64)

def readQuestions (b : List U8) : ℕ → ℕ → Result (List DnsQuestion × ℕ)
  | 0, p => .ok ([], p)
  | n + 1, p => do
    let name ← dnsName b p
    need b (name.2 + 4) "dns_question"
    let rest ← readQuestions b n (name.2 + 4)
    .ok (⟨name.1, be16 b name.2, be16 b (name.2 + 2)⟩ :: rest.1, rest.2)

def rdataName (b : List U8) (p stop : ℕ) (field : String) : Result String := do
  let target ← dnsName b p
  if target.2 ≠ stop then .error (malformed field "name does not fill RDATA") else .ok target.1

def recordValue (b : List U8) (kind : U16) (p len : ℕ) : Result Json :=
  let data := sliceOf b p (p + len)
  if kind = 1 ∧ len = 4 then .ok (.objectOf [("address", .string (ip4 data))])
  else if kind = 28 ∧ len = 16 then .ok (.objectOf [("address", .string (ip6 data))])
  else if kind ∈ [2, 5, 12] then
    (rdataName b p (p + len) "dns_rdata").map fun target => .objectOf [("name", .string target)]
  else if kind = 15 then
    if len < 3 then .error (malformed "dns_mx" "short MX RDATA")
    else (rdataName b (p + 2) (p + len) "dns_mx").map fun target =>
      .objectOf [("preference", number16 (be16 b p)), ("exchange", .string target)]
  else .ok (.objectOf [("opaque_sha256", .string (hex (Sha256.digest data).toList)),
    ("length", .number (BitVec.ofNat 64 len))])

def readRecords (b : List U8) (section_ : String) : ℕ → ℕ → Result (List Json × ℕ)
  | 0, p => .ok ([], p)
  | n + 1, p => do
    let name ← dnsName b p
    let at_ := name.2
    need b (at_ + 10) "dns_rr"
    let kind := be16 b at_
    let len := (be16 b (at_ + 8)).toNat
    need b (at_ + 10 + len) "dns_rdata"
    let value ← recordValue b kind (at_ + 10) len
    let rest ← readRecords b section_ n (at_ + 10 + len)
    .ok (.objectOf [("section", .string section_), ("name", .string name.1),
      ("type", number16 kind), ("class", number16 (be16 b (at_ + 2))),
      ("ttl", .number ((be32 b (at_ + 4)).setWidth 64)), ("value", value)] :: rest.1, rest.2)

def questionJson (q : DnsQuestion) : Json :=
  .objectOf [("name", .string q.name), ("type", number16 q.kind), ("class", number16 q.cls)]

def dns (b : List U8) : Result DnsMessage := do
  need b 12 "dns"
  let flags := be16 b 2
  let count (i : ℕ) := (be16 b (4 + 2 * i)).toNat
  if count 0 + count 1 + count 2 + count 3 > 512 then .error (Error.limit "dns_records")
  else do
  let questions ← readQuestions b (count 0) 12
  let answer ← readRecords b "answer" (count 1) questions.2
  let authority ← readRecords b "authority" (count 2) answer.2
  let additional ← readRecords b "additional" (count 3) authority.2
  if additional.2 ≠ b.length then .error (malformed "dns" "unexplained trailing bytes")
  else
    let response : Bool := flags &&& 0x8000 ≠ 0
    let truncated : Bool := flags &&& 0x0200 ≠ 0
    .ok {
      id := be16 b 0
      response
      truncated
      questions := questions.1
      metadata := .objectOf [("id", number16 (be16 b 0)), ("response", .bool response),
        ("truncated", .bool truncated), ("opcode", number16 ((flags >>> 11) &&& 15)),
        ("rcode", number16 (flags &&& 15)),
        ("questions", .arrayOf (questions.1.map questionJson)),
        ("records", .arrayOf (answer.1 ++ authority.1 ++ additional.1)),
        ("dnssec_validation", .string "not_performed")] }

def asciiLowercase (s : String) : String := String.ofList (s.toList.map Char.toLower)

def questionKey (q : DnsQuestion) : String :=
  "|" ++ asciiLowercase q.name ++ ":" ++ q.kind.toNat.repr ++ ":" ++ q.cls.toNat.repr

def dnsKey (d : DnsMessage) : String :=
  d.questions.foldl (fun out q => out ++ questionKey q) d.id.toNat.repr

/-! ### The questions of a message as octets -/

structure Question where
  labels : List (List U8)
  kind : U16
  cls : U16

/-- The questions that stand one after the other from a position on, and the position after them. -/
inductive Asks (b : List U8) : ℕ → List Question → ℕ → Prop where
  | done {p : ℕ} : Asks b p [] p
  | ask {p k e stop : ℕ} {labels : List (List U8)} {rest : List Question}
      (name : Name b p labels k e) (hin : e + 4 ≤ b.length) (more : Asks b (e + 4) rest stop) :
      Asks b p (⟨labels, be16 b e, be16 b (e + 2)⟩ :: rest) stop

def Question.shown (q : Question) : DnsQuestion := ⟨labelsText q.labels, q.kind, q.cls⟩

def foldCase (x : U8) : U8 := if isAsciiUppercase x then x + 0x20 else x

def Question.Same (q q' : Question) : Prop :=
  q.kind = q'.kind ∧ q.cls = q'.cls ∧
    q.labels.map (·.map foldCase) = q'.labels.map (·.map foldCase)

/-! ### Escapes -/

/-- The octet behind an escape. -/
def unescapeByte : List Char → U8
  | [c] => BitVec.ofNat 8 c.toNat
  | [_, a, b, c] => BitVec.ofNat 8 ((a.toNat - 48) * 100 + (b.toNat - 48) * 10 + (c.toNat - 48))
  | _ => 0

theorem unescape_escape : ∀ x : U8, unescapeByte (escapeByte x) = x := by decide +kernel

theorem length_escape : ∀ x : U8,
    (escapeByte x).length = if (escapeByte x).head? = some '\\' then 4 else 1 := by
  decide +kernel

theorem lower_escape : ∀ x : U8, (escapeByte x).map Char.toLower = escapeByte (foldCase x) := by
  decide +kernel

theorem separator_escape : ∀ x : U8, '.' ∉ escapeByte x ∧ ':' ∉ escapeByte x := by
  decide +kernel

theorem escape_append_inj {x y : U8} {r t : List Char}
    (h : escapeByte x ++ r = escapeByte y ++ t) : x = y ∧ r = t := by
  have hne : ∀ z : U8, escapeByte z ≠ [] := by
    intro z hz
    have hlen := length_escape z
    rw [hz] at hlen
    split at hlen <;> cases hlen
  have hhead : (escapeByte x).head? = (escapeByte y).head? := by
    have := congrArg List.head? h
    rwa [List.head?_append_of_ne_nil _ (hne x), List.head?_append_of_ne_nil _ (hne y)] at this
  have hlen : (escapeByte x).length = (escapeByte y).length := by
    rw [length_escape, length_escape, hhead]
  obtain ⟨hescape, hrest⟩ := List.append_inj h hlen
  refine ⟨?_, hrest⟩
  rw [← unescape_escape x, hescape, unescape_escape]

theorem escapes_injective : Function.Injective (List.flatMap escapeByte) := by
  intro l m h
  induction l generalizing m with
  | nil =>
    cases m with
    | nil => rfl
    | cons y m =>
      rw [List.flatMap_nil, List.flatMap_cons] at h
      have hlen := congrArg List.length h
      rw [List.length_append, length_escape, List.length_nil] at hlen
      split at hlen <;> omega
  | cons x l ih =>
    cases m with
    | nil =>
      rw [List.flatMap_nil, List.flatMap_cons] at h
      have hlen := congrArg List.length h
      rw [List.length_append, length_escape, List.length_nil] at hlen
      split at hlen <;> omega
    | cons y m =>
      rw [List.flatMap_cons, List.flatMap_cons] at h
      obtain ⟨rfl, hrest⟩ := escape_append_inj h
      rw [ih hrest]

section Text
variable {labels labels' : List (List U8)}

def labelsChars (labels : List (List U8)) : List Char :=
  if labels = [] then ['.'] else ['.'].intercalate (labels.map (List.flatMap escapeByte))

theorem toList_labelsText (labels : List (List U8)) :
    (labelsText labels).toList = labelsChars labels := by
  cases labels with
  | nil => rfl
  | cons l rest =>
    have hmap : (String.toList ∘ escapeLabel) = List.flatMap escapeByte := by
      funext l
      simp [escapeLabel]
    simp only [labelsText, nameText, labelsChars, List.map_eq_nil_iff, reduceCtorEq, if_false,
      String.toList_intercalate, List.map_map, hmap]
    rfl

theorem map_intercalate {α β : Type} (f : α → β) (sep : List α) (ls : List (List α)) :
    (sep.intercalate ls).map f = (sep.map f).intercalate (ls.map (List.map f)) := by
  induction ls with
  | nil => rfl
  | cons l ls ih =>
    cases ls with
    | nil => simp
    | cons m ls => simpa using ih

theorem mem_intercalate {α : Type} {sep : List α} {ls : List (List α)} {c : α}
    (h : c ∈ sep.intercalate ls) : c ∈ sep ∨ ∃ l ∈ ls, c ∈ l := by
  induction ls with
  | nil => cases h
  | cons l ls ih =>
    cases ls with
    | nil => exact .inr ⟨l, by simp, by simpa using h⟩
    | cons m ls =>
      rw [List.intercalate_cons_cons, List.mem_append, List.mem_append] at h
      rcases h with (h | h) | h
      · exact .inr ⟨l, by simp, h⟩
      · exact .inl h
      · rcases ih h with h | ⟨x, hx, hc⟩
        · exact .inl h
        · exact .inr ⟨x, by simp [hx], hc⟩

theorem lower_labelsChars (labels : List (List U8)) :
    (labelsChars labels).map Char.toLower = labelsChars (labels.map (·.map foldCase)) := by
  unfold labelsChars
  simp only [List.map_eq_nil_iff]
  split_ifs with h
  · rfl
  · rw [map_intercalate, List.map_map, List.map_map]
    congr 1
    refine List.map_congr_left fun l _ => ?_
    simp only [Function.comp_apply, List.map_flatMap, List.flatMap_map, lower_escape]

theorem dot_notMem (l : List U8) : '.' ∉ l.flatMap escapeByte := by
  simp [separator_escape]

theorem colon_notMem (labels : List (List U8)) : ':' ∉ labelsChars labels := by
  unfold labelsChars
  split_ifs with h
  · decide
  · intro hmem
    rcases mem_intercalate hmem with hc | ⟨l, hl, hc⟩
    · exact absurd hc (by decide)
    · obtain ⟨label, -, rfl⟩ := List.mem_map.1 hl
      simp [separator_escape] at hc

theorem labelsChars_inj (h : Encodable labels) (h' : Encodable labels')
    (heq : labelsChars labels = labelsChars labels') : labels = labels' := by
  have hsplit : ∀ {labels : List (List U8)}, labels ≠ [] →
      (labelsChars labels).splitOn '.' = labels.map (List.flatMap escapeByte) := by
    intro labels hne
    rw [labelsChars, if_neg hne]
    refine List.splitOn_intercalate '.' (fun l hl => ?_) (by simpa using hne)
    obtain ⟨label, -, rfl⟩ := List.mem_map.1 hl
    exact dot_notMem label
  have hroot : ∀ {labels : List (List U8)}, Encodable labels → labels ≠ [] →
      labelsChars labels ≠ ['.'] := by
    intro labels hlabels hne hdot
    have hempty := hsplit hne
    rw [hdot] at hempty
    obtain ⟨l, hl, hl'⟩ := List.mem_map.1 (hempty ▸ (by decide : [] ∈ List.splitOn '.' ['.']))
    exact (hlabels l hl).1 (escapes_injective hl')
  by_cases hne : labels = []
  · by_cases hne' : labels' = []
    · rw [hne, hne']
    · exact absurd (by rw [← heq, hne]; rfl) (hroot h' hne')
  · by_cases hne' : labels' = []
    · exact absurd (by rw [heq, hne']; rfl) (hroot h hne)
    · have hmap := (hsplit hne).symm.trans ((congrArg _ heq).trans (hsplit hne'))
      exact List.map_injective_iff.2 escapes_injective hmap

theorem Encodable.fold (h : Encodable labels) : Encodable (labels.map (·.map foldCase)) := by
  intro folded hfolded
  obtain ⟨l, hl, rfl⟩ := List.mem_map.1 hfolded
  simpa using h l hl

end Text

/-! ### Keys -/

def questionChars (q : Question) : List Char :=
  '|' :: (labelsChars (q.labels.map (·.map foldCase)) ++
    ':' :: (q.kind.toNat.repr.toList ++ ':' :: q.cls.toNat.repr.toList))

theorem toList_questionKey (q : Question) : (questionKey q.shown).toList = questionChars q := by
  simp only [questionKey, Question.shown, asciiLowercase, String.toList_append,
    String.toList_ofList, toList_labelsText, lower_labelsChars, questionChars]
  rw [show "|".toList = ['|'] from rfl, show ":".toList = [':'] from rfl]
  simp

theorem toList_keys (qs : List Question) (s : String) :
    ((qs.map Question.shown).foldl (fun out q => out ++ questionKey q) s).toList =
      s.toList ++ qs.flatMap questionChars := by
  induction qs generalizing s with
  | nil => simp
  | cons q qs ih =>
    rw [List.map_cons, List.foldl_cons, ih, String.toList_append, toList_questionKey,
      List.flatMap_cons, List.append_assoc]

theorem ends_questions (qs : List Question) : Json.Ends (qs.flatMap questionChars) := by
  intro c hc
  cases qs with
  | nil => cases hc
  | cons q qs =>
    obtain rfl : '|' = c := by simpa [questionChars] using hc
    rfl

theorem question_append_inj {q q' : Question} {r t : List Char} (hr : Json.Ends r)
    (ht : Json.Ends t) (hq : Encodable q.labels) (hq' : Encodable q'.labels)
    (h : questionChars q ++ r = questionChars q' ++ t) : q.Same q' ∧ r = t := by
  simp only [questionChars, List.cons_append, List.append_assoc, List.cons.injEq, true_and] at h
  obtain ⟨hlabels, h⟩ := Json.cut_inj (colon_notMem _) (colon_notMem _) h
  obtain ⟨hkind, h⟩ := Json.repr_inj (by rintro c ⟨⟩; rfl) (by rintro c ⟨⟩; rfl) h
  rw [List.cons.injEq] at h
  obtain ⟨hcls, hrest⟩ := Json.repr_inj hr ht h.2
  exact ⟨⟨BitVec.eq_of_toNat_eq hkind, BitVec.eq_of_toNat_eq hcls,
    labelsChars_inj hq.fold hq'.fold hlabels⟩, hrest⟩

theorem questions_chars_iff {qs qs' : List Question} (h : ∀ q ∈ qs, Encodable q.labels)
    (h' : ∀ q ∈ qs', Encodable q.labels) :
    qs.flatMap questionChars = qs'.flatMap questionChars ↔ List.Forall₂ Question.Same qs qs' := by
  induction qs generalizing qs' with
  | nil =>
    cases qs' with
    | nil => simp
    | cons q' qs' => simp [questionChars]
  | cons q qs ih =>
    cases qs' with
    | nil => simp [questionChars]
    | cons q' qs' =>
      rw [List.flatMap_cons, List.flatMap_cons, List.forall₂_cons]
      have hrest := @ih qs' (fun x hx => h x (by simp [hx])) (fun x hx => h' x (by simp [hx]))
      constructor
      · intro heq
        obtain ⟨hsame, htail⟩ := question_append_inj (ends_questions qs) (ends_questions qs')
          (h q (by simp)) (h' q' (by simp)) heq
        exact ⟨hsame, hrest.1 htail⟩
      · rintro ⟨⟨hkind, hcls, hlabels⟩, htail⟩
        rw [hrest.2 htail, questionChars, questionChars, hkind, hcls, hlabels]

/-! ### Accepted messages -/

section Messages
variable {b : List U8} {p stop : ℕ} {qs : List Question} {d : DnsMessage}

theorem Asks.encodable (h : Asks b p qs stop) : ∀ q ∈ qs, Encodable q.labels := by
  induction h with
  | done => simp
  | ask name hin more ih =>
    intro q hq
    rcases List.mem_cons.1 hq with rfl | hq
    · exact name.encodable
    · exact ih q hq

theorem Asks.unique {qs' : List Question} {stop' : ℕ} (h : Asks b p qs stop)
    (h' : Asks b p qs' stop') (hlen : qs.length = qs'.length) : qs = qs' := by
  induction h generalizing qs' with
  | done =>
    cases h' with
    | done => rfl
    | ask _ _ _ => cases hlen
  | ask name hin more ih =>
    cases h' with
    | done => cases hlen
    | ask name' hin' more' =>
      obtain ⟨rfl, -, rfl⟩ := name.unique name'
      rw [ih more' (by simpa using hlen)]

def Questions (b : List U8) (qs : List Question) : Prop :=
  qs.length = (be16 b 4).toNat ∧ ∃ stop, Asks b 12 qs stop

theorem readQuestions_ok {n : ℕ} {shown : List DnsQuestion}
    (h : readQuestions b n p = .ok (shown, stop)) :
    ∃ qs, Asks b p qs stop ∧ qs.length = n ∧ shown = qs.map Question.shown := by
  induction n generalizing p shown with
  | zero =>
    cases h
    exact ⟨[], .done, rfl, rfl⟩
  | succ n ih =>
    obtain ⟨⟨name, next⟩, hname, h⟩ := bind_eq_ok.1 h
    obtain ⟨⟨⟩, hneed, h⟩ := bind_eq_ok.1 h
    obtain ⟨⟨rest, last⟩, hrest, h⟩ := bind_eq_ok.1 h
    cases h
    obtain ⟨labels, k, hlabels, -, -, rfl⟩ := (dnsName_eq_ok_iff name next).1 hname
    obtain ⟨qs, hasks, rfl, rfl⟩ := ih hrest
    exact ⟨_, .ask hlabels (need_ok.1 hneed) hasks, rfl, rfl⟩

theorem dns_ok (h : dns b = .ok d) :
    ∃ qs, Questions b qs ∧ d.id = be16 b 0 ∧ d.questions = qs.map Question.shown := by
  obtain ⟨⟨⟩, -, h⟩ := bind_eq_ok.1 h
  obtain ⟨-, h⟩ := guard_eq_ok.1 h
  obtain ⟨⟨shown, next⟩, hquestions, h⟩ := bind_eq_ok.1 h
  obtain ⟨answer, -, h⟩ := bind_eq_ok.1 h
  obtain ⟨authority, -, h⟩ := bind_eq_ok.1 h
  obtain ⟨additional, -, h⟩ := bind_eq_ok.1 h
  obtain ⟨-, h⟩ := guard_eq_ok.1 h
  cases h
  obtain ⟨qs, hasks, hlen, hshown⟩ := readQuestions_ok hquestions
  exact ⟨qs, ⟨hlen, next, hasks⟩, rfl, hshown⟩

theorem toList_dnsKey {b : List U8} {d : DnsMessage} {qs : List Question} (h : dns b = .ok d)
    (hqs : Questions b qs) :
    (dnsKey d).toList = d.id.toNat.repr.toList ++ qs.flatMap questionChars := by
  obtain ⟨qs', ⟨hlen', stop', hasks'⟩, -, hquestions⟩ := dns_ok h
  obtain ⟨hlen, stop, hasks⟩ := hqs
  obtain rfl : qs = qs' := hasks.unique hasks' (hlen.trans hlen'.symm)
  rw [dnsKey, hquestions, toList_keys]

theorem dnsKey_eq_iff {b' : List U8} {d' : DnsMessage} {qs' : List Question} (h : dns b = .ok d)
    (h' : dns b' = .ok d') (hqs : Questions b qs) (hqs' : Questions b' qs') :
    dnsKey d = dnsKey d' ↔ d.id = d'.id ∧ List.Forall₂ Question.Same qs qs' := by
  have hchars := questions_chars_iff (hqs.2.elim fun _ => Asks.encodable)
    (hqs'.2.elim fun _ => Asks.encodable)
  rw [← String.toList_inj, toList_dnsKey h hqs, toList_dnsKey h' hqs', ← hchars]
  constructor
  · intro heq
    obtain ⟨hid, hrest⟩ := Json.repr_inj (ends_questions qs) (ends_questions qs') heq
    exact ⟨BitVec.eq_of_toNat_eq hid, hrest⟩
  · rintro ⟨hid, hrest⟩
    rw [hid, hrest]

/-- Keys agree exactly when identifiers and questions do. Uncompressed names come back escaped, and
a name behind pointers reads like its expansion or is refused for its length. -/
theorem dns_names_and_keys : (∀ b d, dns b = .ok d → d.id = be16 b 0 ∧ ∃ qs, Questions b qs) ∧
    (∀ b b' d d' qs qs', dns b = .ok d → dns b' = .ok d' → Questions b qs → Questions b' qs' →
      (dnsKey d = dnsKey d' ↔ d.id = d'.id ∧ List.Forall₂ Question.Same qs qs')) ∧
    (∀ labels, Encodable labels → octets labels + 1 ≤ 255 → ∀ pre post,
      dnsName (pre ++ wire labels ++ post) pre.length =
        .ok (labelsText labels, pre.length + (wire labels).length)) ∧
    (∀ b p labels k e, Name b p labels k e → octets labels + 1 ≤ 255 → labels.length + k ≤ 127 →
      dnsName b p = .ok (labelsText labels, e) ∧
      dnsName (wire labels) 0 = .ok (labelsText labels, (wire labels).length)) ∧
    ∀ b p labels k e, Name b p labels k e → octets labels + 1 ≤ 255 → 127 < labels.length + k →
      dnsName b p = .error (Error.limit "dns_name_steps") := by
  refine ⟨fun b d h => ?_, fun b b' d d' qs qs' h h' hqs hqs' => dnsKey_eq_iff h h' hqs hqs',
    fun labels hlabels hoctets => dnsName_wire hlabels hoctets,
    fun b p labels k e hname hoctets hsteps => ⟨?_, ?_⟩,
    fun b p labels k e hname hoctets hsteps => ?_⟩
  · obtain ⟨qs, hqs, hid, -⟩ := dns_ok h
    exact ⟨hid, qs, hqs⟩
  · exact (dnsName_eq_ok_iff _ _).2 ⟨labels, k, hname, hoctets, by omega, rfl⟩
  · have hwire := dnsName_wire hname.encodable hoctets [] []
    simpa using hwire
  · rw [dnsName, if_neg (by have := hname.lt_length; omega)]
    rw [hname.loop (by omega), if_neg (by omega)]

end Messages

def chain : List U8 :=
  0 :: (List.range 128).flatMap fun i => [0xc0, BitVec.ofNat 8 (2 * i - 1)]

theorem chain_octets : ∀ i < 128, 2 * i + 3 ≤ chain.length ∧ byteAt chain (2 * i + 1) = 0xc0 ∧
    pointerTarget (byteAt chain (2 * i + 1)) (byteAt chain (2 * i + 2)) = 2 * i - 1 := by
  decide +kernel

theorem chain_name (i : ℕ) (h : i < 128) : Name chain (2 * i + 1) [] (i + 1) (2 * i + 3) := by
  have hin : 0 < chain.length := by simp [chain]
  have hroot : Name chain 0 [] 0 1 := .root hin (by simp [chain, byteAt])
  induction i with
  | zero =>
    obtain ⟨hin, hn, htarget⟩ := chain_octets 0 h
    exact .pointer hin (by rw [hn]; rfl) (by rw [htarget]; omega) (by rw [htarget]; exact hroot)
  | succ i ih =>
    obtain ⟨hin, hn, htarget⟩ := chain_octets (i + 1) h
    have hprev : 2 * (i + 1) - 1 = 2 * i + 1 := by omega
    rw [hprev] at htarget
    exact .pointer hin (by rw [hn]; rfl) (by rw [htarget]; omega)
      (by rw [htarget]; exact ih (by omega))

/-- The root behind 128 pointers is not returned. -/
theorem dnsName_chain : ¬ ∀ b p labels k e, Name b p labels k e → octets labels + 1 ≤ 255 →
    ∃ e, dnsName b p = .ok (labelsText labels, e) := by
  intro hall
  obtain ⟨e, he⟩ := hall chain 255 [] 128 257 (chain_name 127 (by decide)) (by decide)
  obtain ⟨labels, k, hname, -, hsteps, -⟩ := (dnsName_eq_ok_iff _ _).1 he
  obtain ⟨-, hk, -⟩ := hname.unique (chain_name 127 (by decide))
  omega

end PcapEvidence.Dns
