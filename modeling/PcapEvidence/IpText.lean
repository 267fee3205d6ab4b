import PcapEvidence.JsonText

/-!
# The texts of addresses

An IPv4 address is shown with dots. An IPv6 address is shown in hexadecimal segments, with the first
longest run of zero segments left out, and with dots when it is a mapped IPv4 address. An address is
determined by its text.
-/

namespace PcapEvidence.IpText

section Digits

variable {b : ℕ}

theorem toDigits_inj (hb : 1 < b) (hb' : b ≤ 16) {m n : ℕ}
    (h : Nat.toDigits b m = Nat.toDigits b n) : m = n := by
  have hdigit : ∀ i < 16, ∀ j < 16, i.digitChar = j.digitChar → i = j := by decide
  have hshort : ∀ k, k < b → (Nat.toDigits b k).length = 1 := by
    intro k hk
    rw [Nat.toDigits_of_lt_base hk]
    rfl
  have hlong : ∀ k, b ≤ k → 1 < (Nat.toDigits b k).length := by
    intro k hk
    have hpos : 0 < (Nat.toDigits b (k / b)).length := Nat.length_toDigits_pos
    rw [Nat.toDigits_of_base_le hb hk, List.length_append, List.length_singleton]
    omega
  induction m using Nat.strong_induction_on generalizing n with
  | _ m ih =>
    rcases Nat.lt_or_ge m b with hm | hm
    · have hn : n < b := by
        by_contra hn
        have := hlong n (Nat.not_lt.1 hn)
        rw [← h, hshort m hm] at this
        exact Nat.lt_irrefl _ this
      rw [Nat.toDigits_of_lt_base hm, Nat.toDigits_of_lt_base hn] at h
      exact hdigit m (by omega) n (by omega) (List.cons.inj h).1
    · have hn : b ≤ n := by
        by_contra hn
        have := hlong m hm
        rw [h, hshort n (Nat.not_le.1 hn)] at this
        exact Nat.lt_irrefl _ this
      rw [Nat.toDigits_of_base_le hb hm, Nat.toDigits_of_base_le hb hn] at h
      obtain ⟨hinit, hlast⟩ := List.append_inj' h rfl
      have hquotient := ih (m / b) (Nat.div_lt_self (by omega) hb) hinit
      have hmod := hdigit (m % b) (by have := Nat.mod_lt m (by omega : 0 < b); omega) (n % b)
        (by have := Nat.mod_lt n (by omega : 0 < b); omega) (List.cons.inj hlast).1
      rw [← Nat.div_add_mod m b, ← Nat.div_add_mod n b, hquotient, hmod]

theorem digitChar_ne_separator (n : ℕ) : n.digitChar ≠ '.' ∧ n.digitChar ≠ ':' :=
  ⟨Nat.digitChar_ne '.' (by decide), Nat.digitChar_ne ':' (by decide)⟩

theorem separator_notMem_toDigits {n : ℕ} (hb : 1 < b) :
    '.' ∉ Nat.toDigits b n ∧ ':' ∉ Nat.toDigits b n := by
  induction n using Nat.strong_induction_on with
  | _ n ih =>
    rcases Nat.lt_or_ge n b with hn | hn
    · rw [Nat.toDigits_of_lt_base hn, List.mem_singleton, List.mem_singleton]
      exact ⟨(digitChar_ne_separator n).1.symm, (digitChar_ne_separator n).2.symm⟩
    · obtain ⟨hdot, hcolon⟩ := ih (n / b) (Nat.div_lt_self (by omega) hb)
      rw [Nat.toDigits_of_base_le hb hn]
      simp only [List.mem_append, List.mem_singleton, not_or]
      exact ⟨⟨hdot, (digitChar_ne_separator _).1.symm⟩, hcolon, (digitChar_ne_separator _).2.symm⟩

theorem intercalate_inj {c : Char} {l m : List (List Char)} (hl : ∀ x ∈ l, c ∉ x) (hm : ∀ x ∈ m, c ∉ x)
    (hl' : l ≠ []) (hm' : m ≠ []) (h : [c].intercalate l = [c].intercalate m) : l = m := by
  rw [← List.splitOn_intercalate c hl hl', ← List.splitOn_intercalate c hm hm', h]

theorem map_toDigits_inj (hb : 1 < b) (hb' : b ≤ 16) {l m : List ℕ}
    (h : l.map (Nat.toDigits b) = m.map (Nat.toDigits b)) : l = m :=
  List.map_injective_iff.2 (fun _ _ => toDigits_inj hb hb') h

end Digits

/-- The octets in decimal, separated by dots. -/
def ipv4Chars (octets : List U8) : List Char :=
  ['.'].intercalate (octets.map fun b => Nat.toDigits 10 b.toNat)

theorem ipv4Chars_inj {a b : List U8} (ha : a ≠ []) (hb : b ≠ []) (h : ipv4Chars a = ipv4Chars b) :
    a = b := by
  have hdot : ∀ l : List U8, ∀ x ∈ l.map fun b => Nat.toDigits 10 b.toNat, '.' ∉ x := by
    intro l x hx
    obtain ⟨b, _, rfl⟩ := List.mem_map.1 hx
    exact (separator_notMem_toDigits (by decide)).1
  have hlists := intercalate_inj (hdot a) (hdot b) (by simpa using ha) (by simpa using hb) h
  have hnumbers : a.map BitVec.toNat = b.map BitVec.toNat := by
    apply map_toDigits_inj (b := 10) (by decide) (by decide)
    rw [List.map_map, List.map_map]
    exact hlists
  exact List.map_injective_iff.2 (fun _ _ => BitVec.eq_of_toNat_eq) hnumbers

theorem dot_mem_intercalate {x y : List Char} {l : List (List Char)} :
    '.' ∈ ['.'].intercalate (x :: y :: l) := by
  rw [List.intercalate_cons_cons]
  simp

structure Span where
  start : ℕ
  len : ℕ

structure Scan where
  longest : Span
  current : Span

def Scan.step (s : Scan) (segment : ℕ) (i : ℕ) : Scan :=
  if segment = 0 then
    let current : Span := ⟨if s.current.len = 0 then i else s.current.start, s.current.len + 1⟩
    ⟨if current.len > s.longest.len then current else s.longest, current⟩
  else ⟨s.longest, ⟨0, 0⟩⟩

def scanFrom : List ℕ → ℕ → Scan → Scan
  | [], _, s => s
  | segment :: rest, i, s => scanFrom rest (i + 1) (s.step segment i)

def zeroes (segments : List ℕ) : Span := (scanFrom segments 0 ⟨⟨0, 0⟩, ⟨0, 0⟩⟩).longest

def Holds (segments : List ℕ) (span : Span) : Prop :=
  span.start + span.len ≤ segments.length ∧
    (segments.drop span.start).take span.len = List.replicate span.len 0

structure Scan.Sound (s : Scan) (read : List ℕ) : Prop where
  longest : Holds read s.longest
  current : Holds read s.current
  ends : s.current.len ≠ 0 → s.current.start + s.current.len = read.length

theorem Holds.append {segments : List ℕ} {span : Span} (h : Holds segments span) (more : List ℕ) :
    Holds (segments ++ more) span := by
  obtain ⟨hle, htake⟩ := h
  refine ⟨by rw [List.length_append]; omega, ?_⟩
  rw [List.drop_append_of_le_length (by omega), List.take_append_of_le_length]
  · exact htake
  · rw [List.length_drop]
    omega

theorem Scan.Sound.step {s : Scan} {read : List ℕ} (h : s.Sound read) (segment : ℕ) :
    (s.step segment read.length).Sound (read ++ [segment]) := by
  unfold Scan.step
  by_cases hzero : segment = 0
  · subst hzero
    rw [if_pos rfl]
    dsimp only
    have hcurrent : Holds (read ++ [0])
        ⟨if s.current.len = 0 then read.length else s.current.start, s.current.len + 1⟩ := by
      unfold Holds
      dsimp only
      by_cases hlen : s.current.len = 0
      · rw [if_pos hlen, hlen, List.length_append, List.drop_left]
        exact ⟨le_rfl, rfl⟩
      · obtain ⟨hle, htake⟩ := h.current
        have hends := h.ends hlen
        have hall : read.drop s.current.start = List.replicate s.current.len 0 := by
          rw [← htake, List.take_of_length_le]
          rw [List.length_drop]
          omega
        rw [if_neg hlen, List.length_append, List.drop_append_of_le_length (by omega), hall,
          List.replicate_succ', List.take_of_length_le]
        · exact ⟨by rw [List.length_singleton]; omega, rfl⟩
        · rw [List.length_append, List.length_replicate]
          rfl
    refine ⟨?_, hcurrent, fun _ => ?_⟩
    · split
      · exact hcurrent
      · exact h.longest.append [0]
    · rw [List.length_append, List.length_singleton]
      dsimp only
      by_cases hlen : s.current.len = 0
      · rw [if_pos hlen, hlen]
      · rw [if_neg hlen]
        have := h.ends hlen
        omega
  · rw [if_neg hzero]
    exact ⟨h.longest.append _, ⟨Nat.zero_le _, rfl⟩, fun hne => absurd rfl hne⟩

theorem scanFrom_sound (rest read : List ℕ) {s : Scan} (h : s.Sound read) :
    (scanFrom rest read.length s).Sound (read ++ rest) := by
  induction rest generalizing read s with
  | nil => rwa [List.append_nil]
  | cons segment rest ih =>
    have hstep := ih (read ++ [segment]) (h.step segment)
    rwa [List.length_append, List.append_assoc] at hstep

theorem zeroes_holds (segments : List ℕ) : Holds segments (zeroes segments) :=
  (scanFrom_sound segments [] ⟨⟨Nat.zero_le _, rfl⟩, ⟨Nat.zero_le _, rfl⟩, fun h => absurd rfl h⟩).longest

theorem Holds.split {segments : List ℕ} {span : Span} (h : Holds segments span) :
    segments = segments.take span.start ++ List.replicate span.len 0 ++
      segments.drop (span.start + span.len) := by
  rw [← h.2, List.append_assoc, ← List.drop_drop, List.take_append_drop, List.take_append_drop]

section Ipv6

variable {octets : List U8} {segments : List ℕ}

def segmentsOf : List U8 → List ℕ
  | high :: low :: rest => (high.toNat * 256 + low.toNat) :: segmentsOf rest
  | _ => []

def segmentChars (segments : List ℕ) : List Char :=
  [':'].intercalate (segments.map (Nat.toDigits 16))

def MAPPED : List U8 := List.replicate 10 0 ++ [0xff, 0xff]

def MAPPED_TEXT : List Char := [':', ':', 'f', 'f', 'f', 'f', ':']

def ipv6Chars (octets : List U8) : List Char :=
  if octets.take 12 = MAPPED then MAPPED_TEXT ++ ipv4Chars (octets.drop 12)
  else
    let segments := segmentsOf octets
    let span := zeroes segments
    if span.len > 1 then
      segmentChars (segments.take span.start) ++ [':', ':'] ++
        segmentChars (segments.drop (span.start + span.len))
    else segmentChars segments

example : ipv6Chars [0x20, 1, 0xd, 0xb8, 0, 0, 0, 0, 0, 0, 0, 0, 0, 0, 0, 1] =
    ['2', '0', '0', '1', ':', 'd', 'b', '8', ':', ':', '1'] := by decide

/-- The texts of a part; one empty text when there is none. -/
def around (l : List ℕ) : List (List Char) := if l = [] then [[]] else l.map (Nat.toDigits 16)

/-- The texts between the colons. -/
def fieldsOf (segments : List ℕ) : List (List Char) :=
  let span := zeroes segments
  if span.len > 1 then
    around (segments.take span.start) ++ [] :: around (segments.drop (span.start + span.len))
  else segments.map (Nat.toDigits 16)

theorem intercalate_append {c : Char} {l m : List (List Char)} (hl : l ≠ []) (hm : m ≠ []) :
    [c].intercalate (l ++ m) = [c].intercalate l ++ c :: [c].intercalate m := by
  induction l with
  | nil => exact absurd rfl hl
  | cons x l ih =>
    cases l with
    | nil =>
      rw [List.singleton_append, List.intercalate_cons_of_ne_nil hm, List.intercalate_singleton]
      simp
    | cons y l =>
      have hrest := ih (List.cons_ne_nil y l)
      rw [List.cons_append, List.cons_append, List.intercalate_cons_cons, ← List.cons_append, hrest,
        List.intercalate_cons_cons]
      simp only [List.append_assoc]

theorem segmentChars_around (l : List ℕ) : segmentChars l = [':'].intercalate (around l) := by
  unfold around
  by_cases hl : l = []
  · subst hl
    rfl
  · rw [if_neg hl]
    rfl

theorem around_ne_nil (l : List ℕ) : around l ≠ [] := by
  unfold around
  by_cases hl : l = []
  · rw [if_pos hl]
    exact List.cons_ne_nil _ _
  · rw [if_neg hl]
    exact fun h => hl (List.map_eq_nil_iff.1 h)

theorem ipv6Chars_eq (h : octets.take 12 ≠ MAPPED) :
    ipv6Chars octets = [':'].intercalate (fieldsOf (segmentsOf octets)) := by
  unfold ipv6Chars fieldsOf
  rw [if_neg h]
  dsimp only
  by_cases hspan : (zeroes (segmentsOf octets)).len > 1
  · have hnext : ∀ l : List ℕ, [] :: around l = [[]] ++ around l := fun _ => rfl
    rw [if_pos hspan, if_pos hspan, intercalate_append (around_ne_nil _) (List.cons_ne_nil _ _), hnext,
      intercalate_append (List.cons_ne_nil _ _) (around_ne_nil _), List.intercalate_singleton,
      segmentChars_around, segmentChars_around]
    simp
  · rw [if_neg hspan, if_neg hspan]
    rfl

theorem takeWhile_around (l : List ℕ) (rest : List (List Char)) :
    (around l ++ [] :: rest).takeWhile (· ≠ []) = l.map (Nat.toDigits 16) := by
  have hstop : ∀ m : List (List Char), ([] :: m).takeWhile (· ≠ []) = [] := fun _ => rfl
  unfold around
  by_cases hl : l = []
  · subst hl
    rw [if_pos rfl]
    rfl
  · rw [if_neg hl, List.takeWhile_append_of_pos, hstop, List.append_nil]
    intro x hx
    obtain ⟨n, _, rfl⟩ := List.mem_map.1 hx
    exact decide_eq_true Nat.toDigits_ne_nil

theorem reverse_around (l : List ℕ) : (around l).reverse = around l.reverse := by
  unfold around
  by_cases hl : l = []
  · subst hl
    rfl
  · rw [if_neg hl, if_neg fun h => hl (List.reverse_eq_nil_iff.1 h), List.map_reverse]

theorem nil_mem_fieldsOf : [] ∈ fieldsOf segments ↔ (zeroes segments).len > 1 := by
  unfold fieldsOf
  by_cases hspan : (zeroes segments).len > 1
  · rw [if_pos hspan]
    exact ⟨fun _ => hspan, fun _ => List.mem_append_right _ List.mem_cons_self⟩
  · rw [if_neg hspan]
    refine ⟨fun hmem => ?_, fun h => absurd h hspan⟩
    obtain ⟨n, _, hn⟩ := List.mem_map.1 hmem
    exact absurd hn Nat.toDigits_ne_nil

/-- The texts determine the segments, since their number is known. -/
theorem fieldsOf_inj {a b : List ℕ} (hlength : a.length = b.length) (h : fieldsOf a = fieldsOf b) :
    a = b := by
  have hboth : (zeroes a).len > 1 ↔ (zeroes b).len > 1 := by
    rw [← nil_mem_fieldsOf, ← nil_mem_fieldsOf, h]
  unfold fieldsOf at h
  by_cases hspan : (zeroes a).len > 1
  · rw [if_pos hspan, if_pos (hboth.1 hspan)] at h
    have hbefore := congrArg (List.takeWhile (· ≠ [])) h
    rw [takeWhile_around, takeWhile_around] at hbefore
    have hbefore := map_toDigits_inj (by decide) (by decide) hbefore
    have hafter := congrArg (fun l => List.takeWhile (· ≠ []) (List.reverse l)) h
    simp only [List.reverse_append, List.reverse_cons, reverse_around, List.append_assoc,
      List.singleton_append, takeWhile_around] at hafter
    have hafter := List.reverse_injective (map_toDigits_inj (by decide) (by decide) hafter)
    have ha := (zeroes_holds a).split
    have hb := (zeroes_holds b).split
    have hlen : (zeroes a).len = (zeroes b).len := by
      have halen := congrArg List.length ha
      have hblen := congrArg List.length hb
      rw [hbefore, hafter] at halen
      simp only [List.length_append, List.length_replicate] at halen hblen
      omega
    rw [ha, hb, hbefore, hafter, hlen]
  · rw [if_neg hspan, if_neg fun hb => hspan (hboth.2 hb)] at h
    exact map_toDigits_inj (by decide) (by decide) h

theorem separators_fieldsOf : ∀ x ∈ fieldsOf segments, '.' ∉ x ∧ ':' ∉ x := by
  have hdigits : ∀ l : List ℕ, ∀ x ∈ l.map (Nat.toDigits 16), '.' ∉ x ∧ ':' ∉ x := by
    intro l x hx
    obtain ⟨n, _, rfl⟩ := List.mem_map.1 hx
    exact separator_notMem_toDigits (by decide)
  have hnil : ∀ x ∈ [([] : List Char)], '.' ∉ x ∧ ':' ∉ x := by
    intro x hx
    rw [List.mem_singleton.1 hx]
    exact ⟨List.not_mem_nil, List.not_mem_nil⟩
  have haround : ∀ l : List ℕ, ∀ x ∈ around l, '.' ∉ x ∧ ':' ∉ x := by
    intro l x hx
    unfold around at hx
    split at hx
    · exact hnil x hx
    · exact hdigits l x hx
  unfold fieldsOf
  dsimp only
  split
  · intro x hx
    rcases List.mem_append.1 hx with hx | hx
    · exact haround _ x hx
    · rcases List.mem_cons.1 hx with rfl | hx
      · exact ⟨List.not_mem_nil, List.not_mem_nil⟩
      · exact haround _ x hx
  · exact hdigits segments

theorem segmentsOf_inj : ∀ {a b : List U8}, a.length = b.length → a.length % 2 = 0 →
    segmentsOf a = segmentsOf b → a = b
  | [], [], _, _, _ => rfl
  | [], _ :: _, hlength, _, _ => by cases hlength
  | _ :: _, [], hlength, _, _ => by cases hlength
  | [_], _, _, heven, _ => by cases heven
  | _ :: _ :: _, [_], hlength, _, _ => by cases hlength
  | p :: q :: a, r :: t :: b, hlength, heven, h => by
    simp only [List.length_cons, Nat.add_right_cancel_iff] at hlength heven
    rw [segmentsOf, segmentsOf, List.cons.injEq] at h
    have hp := p.isLt
    have hq := q.isLt
    have hr := r.isLt
    have ht := t.isLt
    have hhigh : p = r := BitVec.eq_of_toNat_eq (by omega)
    have hlow : q = t := BitVec.eq_of_toNat_eq (by omega)
    rw [hhigh, hlow, segmentsOf_inj hlength (by omega) h.2]

theorem length_segmentsOf : ∀ {a : List U8}, (segmentsOf a).length = a.length / 2
  | [] => rfl
  | [_] => by rw [segmentsOf, List.length_nil, List.length_singleton]; exact fun _ _ _ h => nomatch h
  | _ :: _ :: rest => by
    rw [segmentsOf, List.length_cons, length_segmentsOf, List.length_cons, List.length_cons]
    omega

theorem mem_intercalate {c d : Char} {l : List (List Char)} (h : d ∈ [c].intercalate l) :
    d = c ∨ ∃ x ∈ l, d ∈ x := by
  induction l with
  | nil => cases h
  | cons x l ih =>
    by_cases hl : l = []
    · subst hl
      rw [List.intercalate_singleton] at h
      exact .inr ⟨x, List.mem_cons_self, h⟩
    · rw [List.intercalate_cons_of_ne_nil hl] at h
      rcases List.mem_append.1 h with h | h
      · rcases List.mem_append.1 h with h | h
        · exact .inr ⟨x, List.mem_cons_self, h⟩
        · exact .inl (List.mem_singleton.1 h)
      · rcases ih h with rfl | ⟨y, hy, hd⟩
        · exact .inl rfl
        · exact .inr ⟨y, List.mem_cons_of_mem _ hy, hd⟩

theorem fieldsOf_ne_nil (h : segments ≠ []) : fieldsOf segments ≠ [] := by
  unfold fieldsOf
  dsimp only
  split
  · exact fun hnil => around_ne_nil _ (List.append_eq_nil_iff.1 hnil).1
  · exact fun hnil => h (List.map_eq_nil_iff.1 hnil)

theorem dot_ipv6Chars (h : octets.length = 16) :
    '.' ∈ ipv6Chars octets ↔ octets.take 12 = MAPPED := by
  by_cases hmapped : octets.take 12 = MAPPED
  · refine ⟨fun _ => hmapped, fun _ => ?_⟩
    unfold ipv6Chars
    rw [if_pos hmapped]
    apply List.mem_append_right
    have hdrop : (octets.drop 12).length = 4 := by rw [List.length_drop, h]
    rcases hfour : octets.drop 12 with _ | ⟨p, _ | ⟨q, rest⟩⟩
    · rw [hfour] at hdrop
      cases hdrop
    · rw [hfour] at hdrop
      cases hdrop
    · exact dot_mem_intercalate
  · refine ⟨fun hdot => ?_, fun h => absurd h hmapped⟩
    rw [ipv6Chars_eq hmapped] at hdot
    rcases mem_intercalate hdot with hcolon | ⟨x, hx, hdot⟩
    · exact absurd hcolon (by decide)
    · exact absurd hdot (separators_fieldsOf x hx).1

theorem ipv6Chars_inj {a b : List U8} (ha : a.length = 16) (hb : b.length = 16)
    (h : ipv6Chars a = ipv6Chars b) : a = b := by
  have hboth : a.take 12 = MAPPED ↔ b.take 12 = MAPPED := by
    rw [← dot_ipv6Chars ha, ← dot_ipv6Chars hb, h]
  by_cases hmapped : a.take 12 = MAPPED
  · have hmapped' := hboth.1 hmapped
    unfold ipv6Chars at h
    rw [if_pos hmapped, if_pos hmapped'] at h
    have hne : ∀ l : List U8, l.length = 16 → l.drop 12 ≠ [] := by
      intro l hl hnil
      have := congrArg List.length hnil
      rw [List.length_drop, hl] at this
      cases this
    have hdrop := ipv4Chars_inj (hne a ha) (hne b hb) (List.append_cancel_left h)
    rw [← List.take_append_drop 12 a, ← List.take_append_drop 12 b, hmapped, hmapped', hdrop]
  · have hmapped' : b.take 12 ≠ MAPPED := fun hb => hmapped (hboth.2 hb)
    rw [ipv6Chars_eq hmapped, ipv6Chars_eq hmapped'] at h
    have hne : ∀ l : List U8, l.length = 16 → segmentsOf l ≠ [] := by
      intro l hl hnil
      have hlength := length_segmentsOf (a := l)
      rw [hnil, hl] at hlength
      cases hlength
    have hfields := intercalate_inj (fun x hx => (separators_fieldsOf x hx).2)
      (fun x hx => (separators_fieldsOf x hx).2) (fieldsOf_ne_nil (hne a ha)) (fieldsOf_ne_nil (hne b hb)) h
    have hsegments := fieldsOf_inj (by rw [length_segmentsOf, length_segmentsOf, ha, hb]) hfields
    exact segmentsOf_inj (ha.trans hb.symm) (by rw [ha]) hsegments

theorem colon_ipv6Chars (h : octets.length = 16) : ':' ∈ ipv6Chars octets := by
  unfold ipv6Chars
  split
  · exact List.mem_append_left _ List.mem_cons_self
  · dsimp only
    split
    · apply List.mem_append_left
      apply List.mem_append_right
      exact List.mem_cons_self
    · have hlength := length_segmentsOf (a := octets)
      rw [h] at hlength
      rcases hsegments : segmentsOf octets with _ | ⟨m, _ | ⟨n, rest⟩⟩
      · rw [hsegments] at hlength
        cases hlength
      · rw [hsegments] at hlength
        cases hlength
      · unfold segmentChars
        rw [List.map_cons, List.map_cons, List.intercalate_cons_cons]
        simp

end Ipv6

/-- `Ipv4Addr` as it is displayed. -/
def showIpv4 (octets : List U8) : String := String.ofList (ipv4Chars octets)

/-- `Ipv6Addr` as it is displayed. -/
def showIpv6 (octets : List U8) : String := String.ofList (ipv6Chars octets)

end PcapEvidence.IpText
