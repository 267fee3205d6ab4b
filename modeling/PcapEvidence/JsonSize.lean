import PcapEvidence.JsonTree

/-!
# The size of a JSON text

The size is summed up over the value with checked additions, without building the text. It is the size
of the text, and it is missing when the text is longer than a word counts.
-/

namespace PcapEvidence.Bgp.Json

def sized (n : ℕ) : Option ℕ := if n < wordBound then some n else none

def quotedCharLen (c : Char) : ℕ :=
  if c = '"' ∨ c = '\\' ∨ c = '\n' ∨ c = '\r' ∨ c = '\t' ∨ c.toNat = 8 ∨ c.toNat = 12 then 2
  else if c.toNat < 32 then 6
  else c.utf8Size

def quotedLen (value : String) : Option ℕ :=
  value.toList.foldlM (fun size c => checkedAdd size (quotedCharLen c)) 2

def numberLen (n : ℕ) : ℕ := if n = 0 then 1 else Nat.log 10 n + 1

mutual

def encodedLen? : Json → Option ℕ
  | .null => some 4
  | .bool true => some 4
  | .bool false => some 5
  | .number n => some (numberLen n.toNat)
  | .string s => quotedLen s
  | .array items => do
    let size ← itemsLen items 2
    checkedAdd size (items.toList.length - 1)
  | .object fields => do
    let size ← fieldsLen fields 2
    checkedAdd size (fields.toList.length - 1)

def itemsLen : JsonItems → ℕ → Option ℕ
  | .nil, size => some size
  | .cons item rest, size => do
    let next ← checkedAdd size (← encodedLen? item)
    itemsLen rest next

def fieldsLen : JsonFields → ℕ → Option ℕ
  | .nil, size => some size
  | .cons key value rest, size => do
    let keyed ← checkedAdd size (← quotedLen key)
    let colon ← checkedAdd keyed 1
    let next ← checkedAdd colon (← encodedLen? value)
    fieldsLen rest next

end

def encodedLenBounded (j : Json) (limit : ℕ) : Result ℕ :=
  match j.encodedLen?.filter (· ≤ limit) with
  | some size => .ok size
  | none => .error (Error.limit "report_bytes")

theorem sized_bind_add (a b : ℕ) : (sized a >>= fun x => checkedAdd x b) = sized (a + b) := by
  unfold sized
  split
  · rfl
  next h =>
    rw [if_neg (by omega)]
    rfl

theorem add_bind_sized (a b : ℕ) : (sized b >>= fun y => checkedAdd a y) = sized (a + b) := by
  unfold sized
  split
  · rfl
  next h =>
    rw [if_neg (by omega)]
    rfl

theorem sized_bind_sized (a b : ℕ) :
    (sized a >>= fun x => sized b >>= fun y => checkedAdd x y) = sized (a + b) := by
  simp only [add_bind_sized]
  unfold sized
  split
  · rfl
  next h =>
    rw [if_neg (by omega)]
    rfl

theorem sized_of_lt {n : ℕ} (h : n < wordBound) : sized n = some n := if_pos h

theorem foldlM_checkedAdd (f : Char → ℕ) (l : List Char) (a : ℕ) :
    (sized a >>= fun x => l.foldlM (fun size c => checkedAdd size (f c)) x) =
      sized (a + (l.map f).sum) := by
  induction l generalizing a with
  | nil =>
    rw [List.map_nil, List.sum_nil, Nat.add_zero]
    exact bind_pure _
  | cons c l ih =>
    simp only [List.foldlM_cons]
    rw [← bind_assoc, sized_bind_add, ih, List.map_cons, List.sum_cons, Nat.add_assoc]

theorem utf8ByteSize_ofList (l : List Char) :
    (String.ofList l).utf8ByteSize = (l.map Char.utf8Size).sum := by
  induction l with
  | nil => rfl
  | cons c l ih =>
    rw [show c :: l = [c] ++ l from rfl, String.ofList_append, String.utf8ByteSize_append, ih,
      ← String.singleton_eq_ofList, String.utf8ByteSize_singleton, List.singleton_append,
      List.map_cons, List.sum_cons]

theorem utf8Size_hexDigit : ∀ n < 16, (hexDigit n).utf8Size = 1 := by decide

theorem sum_utf8Size_escapeChar (c : Char) :
    ((escapeChar c).map Char.utf8Size).sum = quotedCharLen c := by
  unfold escapeChar quotedCharLen
  split
  next h => rw [if_pos (by simp [h])]; rfl
  split
  next h => rw [if_pos (by simp [h])]; rfl
  split
  next h => rw [if_pos (by simp [h])]; rfl
  split
  next h => rw [if_pos (by simp [h])]; rfl
  split
  next h => rw [if_pos (by simp [h])]; rfl
  split
  next h => rw [if_pos (by simp [h])]; rfl
  split
  next h => rw [if_pos (by simp [h])]; rfl
  next h₁ h₂ h₃ h₄ h₅ h₆ h₇ =>
    have hplain : ¬ (c = '"' ∨ c = '\\' ∨ c = '\n' ∨ c = '\r' ∨ c = '\t' ∨ c.toNat = 8 ∨
        c.toNat = 12) := by
      rintro (h | h | h | h | h | h | h) <;> contradiction
    rw [if_neg hplain]
    split
    next h =>
      have hhigh := utf8Size_hexDigit (c.toNat / 16) (by omega)
      have hlow := utf8Size_hexDigit (c.toNat % 16) (by omega)
      simp only [List.map_cons, List.map_nil, List.sum_cons, List.sum_nil, hhigh, hlow]
      rfl
    next => simp

theorem utf8ByteSize_escape (s : String) :
    (escape s).utf8ByteSize = 2 + (s.toList.map quotedCharLen).sum := by
  have hbody : ((s.toList.flatMap escapeChar).map Char.utf8Size).sum =
      (s.toList.map quotedCharLen).sum := by
    induction s.toList with
    | nil => rfl
    | cons c l ih =>
      rw [List.flatMap_cons, List.map_append, List.sum_append, ih, sum_utf8Size_escapeChar,
        List.map_cons, List.sum_cons]
  rw [escape, String.utf8ByteSize_append, String.utf8ByteSize_append,
    utf8ByteSize_ofList (s.toList.flatMap escapeChar), hbody]
  have hquote : "\"".utf8ByteSize = 1 := rfl
  omega

theorem quotedLen_eq (s : String) : quotedLen s = sized (escape s).utf8ByteSize := by
  rw [utf8ByteSize_escape, ← foldlM_checkedAdd, sized_of_lt (by decide)]
  rfl

theorem utf8Size_digitChar : ∀ n < 10, (Nat.digitChar n).utf8Size = 1 := by decide

theorem utf8ByteSize_repr (n : ℕ) : n.repr.utf8ByteSize = numberLen n := by
  induction n using Nat.strong_induction_on with
  | h n ih =>
    rcases Nat.lt_or_ge n 10 with hlt | hge
    · have hlog : Nat.log 10 n = 0 := Nat.log_of_lt hlt
      rw [Nat.repr_of_lt hlt, String.utf8ByteSize_singleton, utf8Size_digitChar n hlt, numberLen, hlog]
      split <;> rfl
    · have hlog : Nat.log 10 n = Nat.log 10 (n / 10) + 1 := Nat.log_of_one_lt_of_le (by decide) hge
      have hstep : numberLen n = numberLen (n / 10) + 1 := by
        rw [numberLen, numberLen, if_neg (by omega), if_neg (by omega), hlog]
      rw [Nat.repr_of_ge hge, String.utf8ByteSize_append, String.utf8ByteSize_singleton,
        ih (n / 10) (by omega), utf8Size_digitChar _ (Nat.mod_lt n (by decide)), hstep]

theorem numberLen_lt (n : U64) : numberLen n.toNat < wordBound := by
  have hword : n.toNat < wordBound := n.isLt
  unfold numberLen
  split
  · decide
  next hne =>
    have hlog := Nat.log_lt_self 10 hne
    omega

def itemsSize (items : JsonItems) : ℕ := (items.toList.map fun j => j.encode.utf8ByteSize).sum

def fieldsSize (fields : JsonFields) : ℕ :=
  (fields.toList.map fun p => (escape p.1).utf8ByteSize + 1 + p.2.encode.utf8ByteSize).sum

theorem utf8ByteSize_encodeItems (items : JsonItems) (first : Bool) :
    (encodeItems items first).utf8ByteSize =
      itemsSize items + (items.toList.length - if first then 1 else 0) + 1 := by
  cases items with
  | nil => cases first <;> rfl
  | cons item rest =>
    have hcomma : (if first then "" else ",").utf8ByteSize = if first then 0 else 1 := by
      cases first <;> rfl
    rw [encodeItems, String.utf8ByteSize_append, String.utf8ByteSize_append, hcomma,
      utf8ByteSize_encodeItems rest false]
    simp only [itemsSize, JsonItems.toList, List.map_cons, List.sum_cons, List.length_cons]
    cases first <;> simp <;> omega

theorem utf8ByteSize_encodeFields (fields : JsonFields) (first : Bool) :
    (encodeFields fields first).utf8ByteSize =
      fieldsSize fields + (fields.toList.length - if first then 1 else 0) + 1 := by
  cases fields with
  | nil => cases first <;> rfl
  | cons key value rest =>
    have hcomma : (if first then "" else ",").utf8ByteSize = if first then 0 else 1 := by
      cases first <;> rfl
    have hcolon : ":".utf8ByteSize = 1 := rfl
    rw [encodeFields, String.utf8ByteSize_append, String.utf8ByteSize_append,
      String.utf8ByteSize_append, String.utf8ByteSize_append, hcomma, hcolon,
      utf8ByteSize_encodeFields rest false]
    simp only [fieldsSize, JsonFields.toList, List.map_cons, List.sum_cons, List.length_cons]
    cases first <;> simp <;> omega

mutual

theorem encodedLen?_eq (j : Json) : j.encodedLen? = sized j.encode.utf8ByteSize := by
  match j with
  | .null => rfl
  | .bool true => rfl
  | .bool false => rfl
  | .number n =>
    rw [encodedLen?, encode, utf8ByteSize_repr, sized_of_lt (numberLen_lt n)]
  | .string s =>
    rw [encodedLen?, encode]
    exact quotedLen_eq s
  | .array items =>
    have hsize : (encode (.array items)).utf8ByteSize =
        2 + itemsSize items + (items.toList.length - 1) := by
      have hbracket : "[".utf8ByteSize = 1 := rfl
      rw [encode, String.utf8ByteSize_append, utf8ByteSize_encodeItems, hbracket, if_pos rfl]
      omega
    have htwo : itemsLen items 2 = sized (2 + itemsSize items) := itemsLen_eq items 2
    rw [encodedLen?, htwo, sized_bind_add, hsize]
  | .object fields =>
    have hsize : (encode (.object fields)).utf8ByteSize =
        2 + fieldsSize fields + (fields.toList.length - 1) := by
      have hbrace : "\x7b".utf8ByteSize = 1 := rfl
      rw [encode, String.utf8ByteSize_append, utf8ByteSize_encodeFields, hbrace, if_pos rfl]
      omega
    have htwo : fieldsLen fields 2 = sized (2 + fieldsSize fields) := fieldsLen_eq fields 2
    rw [encodedLen?, htwo, sized_bind_add, hsize]

theorem itemsLen_eq (items : JsonItems) (size : ℕ) :
    (sized size >>= fun x => itemsLen items x) = sized (size + itemsSize items) := by
  cases items with
  | nil => exact bind_pure _
  | cons item rest =>
    have hsum : size + itemsSize (.cons item rest) =
        size + item.encode.utf8ByteSize + itemsSize rest := by
      simp only [itemsSize, JsonItems.toList, List.map_cons, List.sum_cons]
      omega
    simp only [itemsLen]
    rw [encodedLen?_eq item, hsum, ← itemsLen_eq rest, ← sized_bind_sized]
    simp only [bind_assoc]

theorem fieldsLen_eq (fields : JsonFields) (size : ℕ) :
    (sized size >>= fun x => fieldsLen fields x) = sized (size + fieldsSize fields) := by
  cases fields with
  | nil => exact bind_pure _
  | cons key value rest =>
    have hsum : size + fieldsSize (.cons key value rest) =
        size + (escape key).utf8ByteSize + 1 + value.encode.utf8ByteSize + fieldsSize rest := by
      simp only [fieldsSize, JsonFields.toList, List.map_cons, List.sum_cons]
      omega
    simp only [fieldsLen]
    rw [encodedLen?_eq value, quotedLen_eq, hsum, ← fieldsLen_eq rest, ← sized_bind_sized,
      ← sized_bind_add, ← sized_bind_sized]
    simp only [bind_assoc]

end

theorem encodedLenBounded_eq (j : Json) {limit : ℕ} (h : limit < wordBound) :
    j.encodedLenBounded limit = if j.encode.utf8ByteSize ≤ limit then .ok j.encode.utf8ByteSize
      else .error (Error.limit "report_bytes") := by
  unfold encodedLenBounded
  rw [encodedLen?_eq]
  by_cases hle : j.encode.utf8ByteSize ≤ limit
  · rw [if_pos hle, sized_of_lt (by omega), Option.filter_some_pos (by simpa using hle)]
  · rw [if_neg hle]
    cases hsize : sized j.encode.utf8ByteSize with
    | none => rfl
    | some size =>
      unfold sized at hsize
      split at hsize
      · obtain rfl := Option.some.inj hsize
        rw [Option.filter_some_neg (by simpa using hle)]
      · cases hsize

end PcapEvidence.Bgp.Json
