import PcapEvidence.JsonEncode
import PcapEvidence.JsonSize

/-!
# Reading a JSON text back

A decoder for the standard grammar of JSON: blanks between tokens, every escape with surrogate pairs,
members in their order. Of the numbers it takes the unsigned integers of 64 bits, which are all that a
value has. The text of a value decodes to the value.
-/

namespace PcapEvidence.Bgp.Json.Decoder

def isBlank (c : Char) : Bool := c = ' ' || c = '\t' || c = '\n' || c = '\r'

def skipBlanks (l : List Char) : List Char := l.dropWhile isBlank

def hexDigitValue (c : Char) : Option ℕ :=
  if '0' ≤ c ∧ c ≤ '9' then some (c.toNat - 48)
  else if 'a' ≤ c ∧ c ≤ 'f' then some (c.toNat - 87)
  else if 'A' ≤ c ∧ c ≤ 'F' then some (c.toNat - 55)
  else none

def codeUnit : List Char → Option (ℕ × List Char)
  | a :: b :: c :: d :: rest => do
    let a ← hexDigitValue a
    let b ← hexDigitValue b
    let c ← hexDigitValue c
    let d ← hexDigitValue d
    return (((a * 16 + b) * 16 + c) * 16 + d, rest)
  | _ => none

def codePoint (unit : ℕ) (rest : List Char) : Option (Char × List Char) :=
  if 0xd800 ≤ unit ∧ unit < 0xdc00 then
    match rest with
    | '\\' :: 'u' :: more => do
      let (low, more) ← codeUnit more
      if 0xdc00 ≤ low ∧ low < 0xe000 then
        return (Char.ofNat (0x10000 + (unit - 0xd800) * 0x400 + (low - 0xdc00)), more)
      else none
    | _ => none
  else if 0xdc00 ≤ unit ∧ unit < 0xe000 then none
  else some (Char.ofNat unit, rest)

/-- What stands behind a backslash. -/
def escaped : List Char → Option (Char × List Char)
  | '"' :: rest => some ('"', rest)
  | '\\' :: rest => some ('\\', rest)
  | '/' :: rest => some ('/', rest)
  | 'b' :: rest => some (Char.ofNat 8, rest)
  | 'f' :: rest => some (Char.ofNat 12, rest)
  | 'n' :: rest => some ('\n', rest)
  | 'r' :: rest => some ('\r', rest)
  | 't' :: rest => some ('\t', rest)
  | 'u' :: rest => do
    let (unit, rest) ← codeUnit rest
    codePoint unit rest
  | _ => none

def stringBody : ℕ → List Char → Option (List Char × List Char)
  | 0, _ => none
  | _ + 1, [] => none
  | fuel + 1, c :: rest =>
    if c = '"' then some ([], rest)
    else if c = '\\' then do
      let (c, rest) ← escaped rest
      let (cs, rest) ← stringBody fuel rest
      return (c :: cs, rest)
    else if c.toNat < 32 then none
    else do
      let (cs, rest) ← stringBody fuel rest
      return (c :: cs, rest)

def stringTail (l : List Char) : Option (String × List Char) := do
  let (cs, rest) ← stringBody (l.length + 1) l
  return (String.ofList cs, rest)

/-- An unsigned integer without leading zeros. A fraction or an exponent is no such number. -/
def numberToken (l : List Char) : Option (U64 × List Char) :=
  let digits := l.takeWhile Char.isDigit
  let rest := l.dropWhile Char.isDigit
  if digits = [] ∨ (digits.head? = some '0' ∧ digits ≠ ['0']) then none
  else if rest.head? ∈ [some '.', some 'e', some 'E'] then none
  else
    let n := Nat.ofDigitChars 10 digits 0
    if n < 2 ^ 64 then some (BitVec.ofNat 64 n, rest) else none

def memberKey (l : List Char) : Option (String × List Char) :=
  match skipBlanks l with
  | '"' :: rest => do
    let (key, rest) ← stringTail rest
    match skipBlanks rest with
    | ':' :: rest => some (key, rest)
    | _ => none
  | _ => none

mutual

def value : ℕ → List Char → Option (Json × List Char)
  | 0, _ => none
  | fuel + 1, l =>
    match skipBlanks l with
    | 'n' :: 'u' :: 'l' :: 'l' :: rest => some (.null, rest)
    | 't' :: 'r' :: 'u' :: 'e' :: rest => some (.bool true, rest)
    | 'f' :: 'a' :: 'l' :: 's' :: 'e' :: rest => some (.bool false, rest)
    | '"' :: rest => do
      let (s, rest) ← stringTail rest
      return (.string s, rest)
    | '[' :: rest => do
      let (items, rest) ← arrayTail fuel true rest
      return (.array items, rest)
    | '\x7b' :: rest => do
      let (fields, rest) ← objectTail fuel true rest
      return (.object fields, rest)
    | rest => do
      let (n, rest) ← numberToken rest
      return (.number n, rest)

def arrayTail : ℕ → Bool → List Char → Option (JsonItems × List Char)
  | 0, _, _ => none
  | fuel + 1, first, l =>
    match first, skipBlanks l with
    | _, ']' :: rest => some (.nil, rest)
    | true, rest => do
      let (item, rest) ← value fuel rest
      let (items, rest) ← arrayTail fuel false rest
      return (.cons item items, rest)
    | false, ',' :: rest => do
      let (item, rest) ← value fuel rest
      let (items, rest) ← arrayTail fuel false rest
      return (.cons item items, rest)
    | false, _ => none

def objectTail : ℕ → Bool → List Char → Option (JsonFields × List Char)
  | 0, _, _ => none
  | fuel + 1, first, l =>
    match first, skipBlanks l with
    | _, '\x7d' :: rest => some (.nil, rest)
    | true, rest => do
      let (key, rest) ← memberKey rest
      let (v, rest) ← value fuel rest
      let (fields, rest) ← objectTail fuel false rest
      return (.cons key v fields, rest)
    | false, ',' :: rest => do
      let (key, rest) ← memberKey rest
      let (v, rest) ← value fuel rest
      let (fields, rest) ← objectTail fuel false rest
      return (.cons key v fields, rest)
    | false, _ => none

end

def decode (text : String) : Option Json := do
  let (v, rest) ← value (2 * text.toList.length) text.toList
  if skipBlanks rest = [] then return v else none

theorem hexDigitValue_hexDigit : ∀ n < 16, hexDigitValue (hexDigit n) = some n := by decide

theorem escaped_control {c : Char} (h : c.toNat < 32) (rest : List Char) :
    escaped ('u' :: '0' :: '0' :: hexDigit (c.toNat / 16) :: hexDigit (c.toNat % 16) :: rest) =
      some (c, rest) := by
  have hzero : hexDigitValue '0' = some 0 := rfl
  have hhigh := hexDigitValue_hexDigit (c.toNat / 16) (by omega)
  have hlow := hexDigitValue_hexDigit (c.toNat % 16) (by omega)
  have hunit : ((0 * 16 + 0) * 16 + c.toNat / 16) * 16 + c.toNat % 16 = c.toNat := by omega
  have hpoint : codePoint c.toNat rest = some (c, rest) := by
    unfold codePoint
    rw [if_neg (by omega), if_neg (by omega), Char.ofNat_toNat]
  simp only [escaped, codeUnit, hzero, hhigh, hlow, hunit, Option.bind_eq_bind, Option.bind_some,
    Option.pure_def]
  exact hpoint

theorem stringBody_escapeChar (fuel : ℕ) (c : Char) (rest : List Char) :
    stringBody (fuel + 1) (escapeChar c ++ rest) =
      (stringBody fuel rest).map fun r => (c :: r.1, r.2) := by
  have hescape : ∀ {d : Char} {tail : List Char}, escaped (d :: tail) = some (c, rest) →
      stringBody (fuel + 1) ('\\' :: d :: tail) =
        (stringBody fuel rest).map fun r => (c :: r.1, r.2) := by
    intro d tail h
    rw [stringBody, if_neg (by decide), if_pos rfl]
    simp only [h, Option.bind_eq_bind, Option.bind_some]
    cases stringBody fuel rest <;> rfl
  unfold escapeChar
  split
  next h => exact hescape (by rw [h]; rfl)
  split
  next h => exact hescape (by rw [h]; rfl)
  split
  next h => exact hescape (by rw [h]; rfl)
  split
  next h => exact hescape (by rw [h]; rfl)
  split
  next h => exact hescape (by rw [h]; rfl)
  split
  next h => exact hescape (by rw [← Char.ofNat_toNat c, h]; rfl)
  split
  next h => exact hescape (by rw [← Char.ofNat_toNat c, h]; rfl)
  split
  next h => exact hescape (escaped_control h rest)
  next hquote hslash _ _ _ _ _ hplain =>
    rw [List.singleton_append, stringBody, if_neg hquote, if_neg hslash, if_neg hplain]
    cases stringBody fuel rest <;> rfl

theorem stringBody_escape (cs : List Char) {fuel : ℕ} (h : cs.length < fuel) (rest : List Char) :
    stringBody fuel (cs.flatMap escapeChar ++ '"' :: rest) = some (cs, rest) := by
  induction cs generalizing fuel with
  | nil =>
    cases fuel with
    | zero => cases h
    | succ fuel => rfl
  | cons c cs ih =>
    cases fuel with
    | zero => cases h
    | succ fuel =>
      rw [List.flatMap_cons, List.append_assoc, stringBody_escapeChar,
        ih (Nat.lt_of_succ_lt_succ h)]
      rfl

theorem length_escapeChar_pos (c : Char) : 0 < (escapeChar c).length := by
  unfold escapeChar
  repeat' split
  all_goals exact Nat.succ_pos _

theorem length_le_flatMap (cs : List Char) : cs.length ≤ (cs.flatMap escapeChar).length := by
  induction cs with
  | nil => exact Nat.zero_le _
  | cons c cs ih =>
    have hc := length_escapeChar_pos c
    rw [List.flatMap_cons, List.length_append, List.length_cons]
    omega

theorem stringTail_escape (s : String) (rest : List Char) :
    stringTail (s.toList.flatMap escapeChar ++ '"' :: rest) = some (s, rest) := by
  have hlength := length_le_flatMap s.toList
  have hfuel : s.toList.length < (s.toList.flatMap escapeChar ++ '"' :: rest).length + 1 := by
    rw [List.length_append]
    omega
  rw [stringTail, stringBody_escape s.toList hfuel]
  simp

/-- What follows a value in a text: a comma, a closing bracket or nothing. -/
def Closes (rest : List Char) : Prop := ∀ c ∈ rest.head?, c = ',' ∨ c = ']' ∨ c = '\x7d'

theorem closes_nil : Closes [] := fun c hc => absurd hc (by simp)

theorem Closes.ends {rest : List Char} (h : Closes rest) : Ends rest := by
  intro c hc
  rcases h c hc with rfl | rfl | rfl <;> rfl

theorem head_toDigits {n : ℕ} (h : (Nat.toDigits 10 n).head? = some '0') : n = 0 := by
  induction n using Nat.strong_induction_on with
  | h n ih =>
    rcases Nat.lt_or_ge n 10 with hlt | hge
    · have hdigit : ∀ d < 10, Nat.digitChar d = '0' → d = 0 := by decide
      rw [Nat.toDigits_of_lt_base hlt] at h
      exact hdigit n hlt (Option.some.inj h)
    · rw [Nat.toDigits_of_base_le (by decide) hge,
        List.head?_append_of_ne_nil _ Nat.toDigits_ne_nil] at h
      have hzero := ih (n / 10) (by omega) h
      omega

theorem numberToken_repr (n : U64) {rest : List Char} (h : Closes rest) :
    numberToken (n.toNat.repr.toList ++ rest) = some (n, rest) := by
  have hdigits := takeWhile_repr (n := n.toNat) h.ends
  have hrest : (n.toNat.repr.toList ++ rest).dropWhile Char.isDigit = rest := by
    have hcut := List.takeWhile_append_dropWhile (p := Char.isDigit)
      (l := n.toNat.repr.toList ++ rest)
    rw [hdigits] at hcut
    exact List.append_cancel_left hcut
  have hlead : ¬ (Nat.toDigits 10 n.toNat = [] ∨
      ((Nat.toDigits 10 n.toNat).head? = some '0' ∧ Nat.toDigits 10 n.toNat ≠ ['0'])) := by
    rintro (hnil | ⟨hzero, hlong⟩)
    · exact Nat.toDigits_ne_nil hnil
    · rw [head_toDigits hzero] at hlong
      exact hlong rfl
  have hnext : ¬ rest.head? ∈ [some '.', some 'e', some 'E'] := by
    intro hmem
    simp only [List.mem_cons, List.not_mem_nil, or_false] at hmem
    rcases hmem with hc | hc | hc <;>
      · rcases h _ hc with hd | hd | hd <;> cases hd
  have hn : n.toNat < 2 ^ 64 := n.isLt
  rw [Nat.toList_repr] at hdigits hrest
  rw [Nat.toList_repr, numberToken]
  simp only [hdigits, hrest, Nat.ofDigitChars_ten_toDigits]
  rw [if_neg hlead, if_neg hnext, if_pos hn, BitVec.ofNat_toNat, BitVec.setWidth_eq]

theorem skipBlanks_cons {c : Char} (h : isBlank c = false) (rest : List Char) :
    skipBlanks (c :: rest) = c :: rest := by
  rw [skipBlanks, List.dropWhile_cons_of_neg (by simp [h])]

theorem isBlank_of_leads {v : Json} {c : Char} (h : Leads v c) : isBlank c = false := by
  cases v with
  | bool b => cases b <;> simp only [Leads] at h <;> subst h <;> rfl
  | number n =>
    simp only [Leads] at h
    cases hblank : isBlank c with
    | false => rfl
    | true =>
      simp only [isBlank, Bool.or_eq_true, decide_eq_true_eq] at hblank
      rcases hblank with ((rfl | rfl) | rfl) | rfl <;> cases h
  | null | string s | array items | object fields => subst h; rfl

theorem value_digit (fuel : ℕ) {c : Char} (h : c.isDigit = true) (rest : List Char) :
    value (fuel + 1) (c :: rest) = (numberToken (c :: rest)).map fun r => (.number r.1, r.2) := by
  have hblank : isBlank c = false := isBlank_of_leads (v := .number 0) h
  rw [value, skipBlanks_cons hblank]
  split
  all_goals first
    | (rename_i heq; obtain ⟨rfl, -⟩ := List.cons.inj heq; cases h)
    | cases numberToken (c :: rest) <;> rfl

theorem memberKey_escape (key : String) (rest : List Char) :
    memberKey ((escape key).toList ++ ':' :: rest) = some (key, rest) := by
  rw [toList_escape, List.cons_append, List.append_assoc, List.singleton_append, memberKey,
    skipBlanks_cons (by rfl)]
  simp only [stringTail_escape, Option.bind_eq_bind, Option.bind_some]
  rw [skipBlanks_cons (by rfl)]
  rfl

theorem closes_encodeItems (items : JsonItems) (rest : List Char) :
    Closes ((encodeItems items false).toList ++ rest) := by
  cases items with
  | nil => rintro c ⟨⟩; exact .inr (.inl rfl)
  | cons item more =>
    rw [toList_encodeItems_cons]
    rintro c ⟨⟩
    exact .inl rfl

theorem closes_encodeFields (fields : JsonFields) (rest : List Char) :
    Closes ((encodeFields fields false).toList ++ rest) := by
  cases fields with
  | nil => rintro c ⟨⟩; exact .inr (.inr rfl)
  | cons key value more =>
    rw [toList_encodeFields_cons]
    rintro c ⟨⟩
    exact .inl rfl

theorem length_encode_pos (v : Json) : 0 < v.encode.toList.length := by
  obtain ⟨c, rest, h, -⟩ := leads v
  rw [h]
  exact Nat.succ_pos _

theorem length_encodeItems_pos (items : JsonItems) (first : Bool) :
    0 < (encodeItems items first).toList.length := by
  cases items with
  | nil => rw [encodeItems]; decide
  | cons item rest =>
    have hitem := length_encode_pos item
    rw [toList_encodeItems_cons, List.length_append, List.length_append]
    omega

theorem length_encodeFields_pos (fields : JsonFields) (first : Bool) :
    0 < (encodeFields fields first).toList.length := by
  cases fields with
  | nil => rw [encodeFields]; decide
  | cons key value rest =>
    rw [toList_encodeFields_cons, toList_escape, List.length_append]
    simp only [List.length_append, List.length_cons]
    omega

theorem arrayTail_close (fuel : ℕ) (first : Bool) (rest : List Char) :
    arrayTail (fuel + 1) first (']' :: rest) = some (.nil, rest) := by
  conv_lhs => unfold arrayTail
  rw [skipBlanks_cons (by rfl)]
  cases first <;> rfl

theorem arrayTail_first (fuel : ℕ) {v : Json} {c : Char} (h : Leads v c) (rest : List Char) :
    arrayTail (fuel + 1) true (c :: rest) = (value fuel (c :: rest)).bind fun r =>
      (arrayTail fuel false r.2).map fun t => (.cons r.1 t.1, t.2) := by
  have hclose := (not_leads_close h).1
  conv_lhs => unfold arrayTail
  rw [skipBlanks_cons (isBlank_of_leads h)]
  split
  next heq => exact absurd (List.cons.inj heq).1 hclose
  next =>
    cases value fuel (c :: rest) with
    | none => rfl
    | some r => cases h : arrayTail fuel false r.2 <;> simp [h]
  all_goals contradiction

theorem arrayTail_next (fuel : ℕ) (rest : List Char) :
    arrayTail (fuel + 1) false (',' :: rest) = (value fuel rest).bind fun r =>
      (arrayTail fuel false r.2).map fun t => (.cons r.1 t.1, t.2) := by
  conv_lhs => unfold arrayTail
  rw [skipBlanks_cons (by rfl)]
  change ((value fuel rest).bind fun r => (arrayTail fuel false r.2).bind fun t =>
    some (JsonItems.cons r.1 t.1, t.2)) = _
  simp only [Option.map_eq_bind, Function.comp_def]

theorem objectTail_close (fuel : ℕ) (first : Bool) (rest : List Char) :
    objectTail (fuel + 1) first ('\x7d' :: rest) = some (.nil, rest) := by
  conv_lhs => unfold objectTail
  rw [skipBlanks_cons (by rfl)]
  cases first <;> rfl

theorem objectTail_member (fuel : ℕ) (first : Bool) {key : String} {v : Json} {fields : JsonFields}
    {text rest more : List Char} (hvalue : value fuel text = some (v, more))
    (hmore : objectTail fuel false more = some (fields, rest)) :
    objectTail (fuel + 1) first ((if first then [] else [',']) ++
      ((escape key).toList ++ ':' :: text)) = some (.cons key v fields, rest) := by
  have hkey := memberKey_escape key text
  cases first with
  | true =>
    rw [if_pos rfl, List.nil_append]
    rw [toList_escape, List.cons_append] at hkey ⊢
    conv_lhs => unfold objectTail
    rw [skipBlanks_cons (by rfl)]
    change ((memberKey ('"' :: (key.toList.flatMap escapeChar ++ ['"'] ++ ':' :: text))).bind fun k =>
      (value fuel k.2).bind fun r => (objectTail fuel false r.2).bind fun t =>
        some (JsonFields.cons k.1 r.1 t.1, t.2)) = _
    simp only [hkey, hvalue, hmore, Option.bind_some]
  | false =>
    rw [if_neg (by decide), List.singleton_append]
    conv_lhs => unfold objectTail
    rw [skipBlanks_cons (by rfl)]
    change ((memberKey ((escape key).toList ++ ':' :: text)).bind fun k =>
      (value fuel k.2).bind fun r => (objectTail fuel false r.2).bind fun t =>
        some (JsonFields.cons k.1 r.1 t.1, t.2)) = _
    simp only [hkey, hvalue, hmore, Option.bind_some]

mutual

theorem value_encode : ∀ (v : Json) {fuel : ℕ} {rest : List Char},
    2 * v.encode.toList.length ≤ fuel → Closes rest →
      value fuel (v.encode.toList ++ rest) = some (v, rest)
  | v, 0, rest, hfuel, _ => by
    have hpos := length_encode_pos v
    omega
  | .null, fuel + 1, rest, _, _ => by
    change value (fuel + 1) ('n' :: 'u' :: 'l' :: 'l' :: rest) = _
    rw [value, skipBlanks_cons (by rfl)]
    rfl
  | .bool true, fuel + 1, rest, _, _ => by
    change value (fuel + 1) ('t' :: 'r' :: 'u' :: 'e' :: rest) = _
    rw [value, skipBlanks_cons (by rfl)]
    rfl
  | .bool false, fuel + 1, rest, _, _ => by
    change value (fuel + 1) ('f' :: 'a' :: 'l' :: 's' :: 'e' :: rest) = _
    rw [value, skipBlanks_cons (by rfl)]
    rfl
  | .number n, fuel + 1, rest, _, hrest => by
    obtain ⟨c, more, htext, hlead⟩ := leads (.number n)
    have htoken := numberToken_repr n hrest
    rw [encode] at htext
    rw [encode]
    rw [htext] at htoken ⊢
    rw [List.cons_append] at htoken ⊢
    rw [value_digit fuel hlead, htoken]
    rfl
  | .string s, fuel + 1, rest, _, _ => by
    rw [encode, toList_escape, List.cons_append, List.append_assoc, List.singleton_append, value,
      skipBlanks_cons (by rfl)]
    simp only [stringTail_escape, Option.bind_eq_bind, Option.bind_some]
    rfl
  | .array items, fuel + 1, rest, hfuel, _ => by
    have htext : (encode (.array items)).toList = '[' :: (encodeItems items true).toList := by
      rw [encode, String.toList_append]
      rfl
    rw [htext, List.length_cons] at hfuel
    have htail : arrayTail fuel true ((encodeItems items true).toList ++ rest) =
        some (items, rest) := arrayTail_encode items (by omega)
    rw [htext, List.cons_append, value, skipBlanks_cons (by rfl)]
    simp only [htail, Option.bind_eq_bind, Option.bind_some]
    rfl
  | .object fields, fuel + 1, rest, hfuel, _ => by
    have htext : (encode (.object fields)).toList = '\x7b' :: (encodeFields fields true).toList := by
      rw [encode, String.toList_append]
      rfl
    rw [htext, List.length_cons] at hfuel
    have htail : objectTail fuel true ((encodeFields fields true).toList ++ rest) =
        some (fields, rest) := objectTail_encode fields (by omega)
    rw [htext, List.cons_append, value, skipBlanks_cons (by rfl)]
    simp only [htail, Option.bind_eq_bind, Option.bind_some]
    rfl

theorem arrayTail_encode : ∀ (items : JsonItems) {fuel : ℕ} {first : Bool} {rest : List Char},
    2 * (encodeItems items first).toList.length ≤ fuel →
      arrayTail fuel first ((encodeItems items first).toList ++ rest) = some (items, rest)
  | items, 0, first, rest, hfuel => by
    have hpos := length_encodeItems_pos items first
    omega
  | .nil, fuel + 1, first, rest, _ => by
    rw [encodeItems]
    exact arrayTail_close fuel first rest
  | .cons item more, fuel + 1, first, rest, hfuel => by
    have hitem := length_encode_pos item
    have hmore := length_encodeItems_pos more false
    rw [toList_encodeItems_cons, List.length_append, List.length_append] at hfuel
    have hvalue : value fuel (item.encode.toList ++ ((encodeItems more false).toList ++ rest)) =
        some (item, (encodeItems more false).toList ++ rest) :=
      value_encode item (by omega) (closes_encodeItems more rest)
    have htail : arrayTail fuel false ((encodeItems more false).toList ++ rest) =
        some (more, rest) := arrayTail_encode more (by omega)
    rw [toList_encodeItems_cons, List.append_assoc, List.append_assoc]
    cases first with
    | true =>
      obtain ⟨c, text, htext, hlead⟩ := leads item
      rw [if_pos rfl, List.nil_append]
      rw [htext, List.cons_append] at hvalue ⊢
      rw [arrayTail_first fuel hlead, hvalue, Option.bind_some, htail]
      rfl
    | false =>
      rw [if_neg (by decide), List.singleton_append, arrayTail_next, hvalue, Option.bind_some, htail]
      rfl

theorem objectTail_encode : ∀ (fields : JsonFields) {fuel : ℕ} {first : Bool} {rest : List Char},
    2 * (encodeFields fields first).toList.length ≤ fuel →
      objectTail fuel first ((encodeFields fields first).toList ++ rest) = some (fields, rest)
  | fields, 0, first, rest, hfuel => by
    have hpos := length_encodeFields_pos fields first
    omega
  | .nil, fuel + 1, first, rest, _ => by
    rw [encodeFields]
    exact objectTail_close fuel first rest
  | .cons key v more, fuel + 1, first, rest, hfuel => by
    have hpos := length_encode_pos v
    have hmore := length_encodeFields_pos more false
    rw [toList_encodeFields_cons, List.length_append, List.length_append, List.length_cons,
      List.length_append] at hfuel
    have hvalue : value fuel (v.encode.toList ++ ((encodeFields more false).toList ++ rest)) =
        some (v, (encodeFields more false).toList ++ rest) :=
      value_encode v (by omega) (closes_encodeFields more rest)
    have htail : objectTail fuel false ((encodeFields more false).toList ++ rest) =
        some (more, rest) := objectTail_encode more (by omega)
    rw [toList_encodeFields_cons, List.append_assoc, List.append_assoc, List.cons_append,
      List.append_assoc]
    exact objectTail_member fuel first hvalue htail

end

theorem decode_encode (v : Json) : decode v.encode = some v := by
  have hvalue : value (2 * v.encode.toList.length) (v.encode.toList ++ []) = some (v, []) :=
    value_encode v le_rfl closes_nil
  rw [List.append_nil] at hvalue
  rw [decode, hvalue]
  rfl

example : decode " \x7b\"a\" : [1, \"\\u00e9\\/\"]\x7d" =
    some (objectOf [("a", arrayOf [.number 1, .string "é/"])]) := by
  decide +kernel

example : decode "[1,]" = none := by decide +kernel

end PcapEvidence.Bgp.Json.Decoder

namespace PcapEvidence.Bgp.Json

/-- The text of a value determines the value. -/
theorem encode_inj {a b : Json} (h : a.encode = b.encode) : a = b := by
  have hdecode := congrArg Decoder.decode h
  rw [Decoder.decode_encode, Decoder.decode_encode] at hdecode
  exact Option.some.inj hdecode

end PcapEvidence.Bgp.Json

namespace PcapEvidence.Bgp.Json.Reserved

open Decoder

section Bounded

-- Whether a buffer of the first length can be enlarged by the second one.
variable (reserve : ℕ → ℕ → Bool)

def encodeBounded (j : Json) (limit : U64) : Result String := do
  let size ← j.encodedLenBounded limit.toNat
  if reserve 0 size then return j.encode else .error (Error.limit "report_allocation")

def appendBounded (j : Json) (out : String) (limit : U64) : Result Unit × String :=
  if limit.toNat < out.utf8ByteSize then (.error (Error.limit "report_bytes"), out)
  else
    match j.encodedLenBounded (limit.toNat - out.utf8ByteSize) with
    | .error e => (.error e, out)
    | .ok size =>
      if reserve out.utf8ByteSize size then (.ok (), out ++ j.encode)
      else (.error (Error.limit "report_allocation"), out)

theorem encodeBounded_eq_ok {j : Json} {limit : U64} {text : String} :
    encodeBounded reserve j limit = .ok text ↔
      j.encode.utf8ByteSize ≤ limit.toNat ∧ reserve 0 j.encode.utf8ByteSize = true ∧
        text = j.encode := by
  have hlimit : limit.toNat < wordBound := limit.isLt
  unfold encodeBounded
  rw [encodedLenBounded_eq j hlimit]
  by_cases hsize : j.encode.utf8ByteSize ≤ limit.toNat
  · rw [if_pos hsize]
    cases hreserve : reserve 0 j.encode.utf8ByteSize with
    | true => simp [Bind.bind, Except.bind, hreserve, hsize, pure, Except.pure, eq_comm]
    | false => simp [Bind.bind, Except.bind, hreserve]
  · rw [if_neg hsize]
    simp [Bind.bind, Except.bind, hsize]

theorem appendBounded_cases (j : Json) (out : String) (limit : U64) :
    (appendBounded reserve j out limit = (.ok (), out ++ j.encode) ∧
        out.utf8ByteSize + j.encode.utf8ByteSize ≤ limit.toNat ∧
        reserve out.utf8ByteSize j.encode.utf8ByteSize = true) ∨
      ((∃ e, appendBounded reserve j out limit = (.error e, out)) ∧
        ¬ (out.utf8ByteSize + j.encode.utf8ByteSize ≤ limit.toNat ∧
          reserve out.utf8ByteSize j.encode.utf8ByteSize = true)) := by
  have hlimit : limit.toNat - out.utf8ByteSize < wordBound :=
    lt_of_le_of_lt (Nat.sub_le _ _) limit.isLt
  unfold appendBounded
  rw [encodedLenBounded_eq j hlimit]
  by_cases hout : limit.toNat < out.utf8ByteSize
  · rw [if_pos hout]
    exact .inr ⟨⟨_, rfl⟩, fun h => by omega⟩
  rw [if_neg hout]
  by_cases hsize : j.encode.utf8ByteSize ≤ limit.toNat - out.utf8ByteSize
  · rw [if_pos hsize]
    cases hreserve : reserve out.utf8ByteSize j.encode.utf8ByteSize with
    | true =>
      refine .inl ⟨?_, by omega, rfl⟩
      simp only [hreserve, if_true]
    | false =>
      refine .inr ⟨⟨Error.limit "report_allocation", ?_⟩, fun h => Bool.noConfusion h.2⟩
      simp only [hreserve, Bool.false_eq_true, if_false]
  · rw [if_neg hsize]
    exact .inr ⟨⟨_, rfl⟩, fun h => by omega⟩

end Bounded

/-- The size of a value is the size of its text, the bounded renderings give the text within the
limit, and the text decodes to the value. -/
theorem encode_exact (v : Json) :
    v.encodedLen? = sized v.encode.utf8ByteSize ∧
      (∀ (reserve : ℕ → ℕ → Bool) (limit : U64) (text : String),
        encodeBounded reserve v limit = .ok text ↔
          v.encode.utf8ByteSize ≤ limit.toNat ∧ reserve 0 v.encode.utf8ByteSize = true ∧
            text = v.encode) ∧
      (∀ (reserve : ℕ → ℕ → Bool) (limit : U64) (out : String),
        ((appendBounded reserve v out limit).1 = .ok () ↔
          out.utf8ByteSize + v.encode.utf8ByteSize ≤ limit.toNat ∧
            reserve out.utf8ByteSize v.encode.utf8ByteSize = true) ∧
        ((appendBounded reserve v out limit).1 = .ok () →
          (appendBounded reserve v out limit).2 = out ++ v.encode ∧
            (appendBounded reserve v out limit).2.utf8ByteSize ≤ limit.toNat) ∧
        ∀ e, (appendBounded reserve v out limit).1 = .error e →
          (appendBounded reserve v out limit).2 = out) ∧
      decode v.encode = some v := by
  refine ⟨encodedLen?_eq v, fun reserve limit text => encodeBounded_eq_ok reserve,
    fun reserve limit out => ?_, decode_encode v⟩
  rcases appendBounded_cases reserve v out limit with ⟨h, hsize, hreserve⟩ | ⟨⟨e, h⟩, hfail⟩
  · rw [h]
    refine ⟨⟨fun _ => ⟨hsize, hreserve⟩, fun _ => rfl⟩, fun _ => ⟨rfl, ?_⟩, fun e he => ?_⟩
    · rw [String.utf8ByteSize_append]
      exact hsize
    · cases he
  · rw [h]
    refine ⟨⟨fun he => ?_, fun hfit => absurd hfit hfail⟩, fun he => ?_, fun _ _ => rfl⟩
    all_goals cases he

end PcapEvidence.Bgp.Json.Reserved
