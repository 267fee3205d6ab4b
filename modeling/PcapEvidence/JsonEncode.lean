import PcapEvidence.JsonTree

/-!
# The text of a value from the left

The first character of a text tells what kind of value it is of, and a number ends at the first
character that is not a digit.
-/

namespace PcapEvidence.Bgp.Json

theorem toList_escape (s : String) : (escape s).toList = '"' :: (s.toList.flatMap escapeChar ++ ['"']) := by
  simp only [escape, String.toList_append, String.toList_ofList]
  rfl

theorem cut_inj {α : Type} {c : α} {l m r t : List α} (hl : c ∉ l) (hm : c ∉ m)
    (h : l ++ c :: r = m ++ c :: t) : l = m ∧ r = t := by
  simp only [List.append_eq_append_iff, List.cons_eq_append_iff, List.cons_eq_cons] at h
  rcases h with ⟨d, rfl, ⟨rfl, -, rfl⟩ | ⟨e, rfl, rfl⟩⟩ | ⟨d, rfl, ⟨rfl, -, rfl⟩ | ⟨e, rfl, rfl⟩⟩
  · simp
  · simp at hm
  · simp
  · simp at hl

/-- What follows a value does not continue a number. -/
def Ends (x : List Char) : Prop := ∀ c ∈ x.head?, c.isDigit = false

theorem takeWhile_repr {n : ℕ} {x : List Char} (h : Ends x) :
    (n.repr.toList ++ x).takeWhile Char.isDigit = n.repr.toList := by
  have hdigits : ∀ c ∈ n.repr.toList, c.isDigit = true := by
    intro c hc
    rw [Nat.toList_repr] at hc
    exact Nat.isDigit_of_mem_toDigits (by decide) (by decide) hc
  have hx : x.takeWhile Char.isDigit = [] := by
    cases x with
    | nil => rfl
    | cons c x => rw [List.takeWhile_cons, h c rfl]; rfl
  rw [List.takeWhile_append_of_pos hdigits, hx, List.append_nil]

theorem repr_inj {n m : ℕ} {x y : List Char} (hx : Ends x) (hy : Ends y)
    (h : n.repr.toList ++ x = m.repr.toList ++ y) : n = m ∧ x = y := by
  have hn : n.repr.toList = m.repr.toList := by
    rw [← takeWhile_repr hx, h, takeWhile_repr hy]
  rw [hn] at h
  exact ⟨Nat.repr_injective (String.toList_injective hn), List.append_cancel_left h⟩

/-- The first character of the text of a value. -/
def Leads : Json → Char → Prop
  | .null, c => c = 'n'
  | .bool b, c => c = if b then 't' else 'f'
  | .number _, c => c.isDigit = true
  | .string _, c => c = '"'
  | .array _, c => c = '['
  | .object _, c => c = '\x7b'

theorem leads (v : Json) : ∃ c rest, v.encode.toList = c :: rest ∧ Leads v c := by
  cases v with
  | null => exact ⟨_, _, rfl, rfl⟩
  | bool b => cases b <;> exact ⟨_, _, rfl, rfl⟩
  | number n =>
    rw [encode, Nat.toList_repr]
    cases hdigits : Nat.toDigits 10 n.toNat with
    | nil => exact absurd hdigits Nat.toDigits_ne_nil
    | cons c rest =>
      have hmem : c ∈ Nat.toDigits 10 n.toNat := hdigits ▸ List.mem_cons_self
      exact ⟨c, rest, rfl, Nat.isDigit_of_mem_toDigits (by decide) (by decide) hmem⟩
  | string s => exact ⟨_, _, toList_escape s, rfl⟩
  | array items => exact ⟨_, _, by rw [encode, String.toList_append]; rfl, rfl⟩
  | object fields => exact ⟨_, _, by rw [encode, String.toList_append]; rfl, rfl⟩

theorem not_leads_close {v : Json} {c : Char} (h : Leads v c) : c ≠ ']' ∧ c ≠ '\x7d' := by
  cases v with
  | bool b => cases b <;> simp only [Leads] at h <;> subst h <;> decide
  | number n => constructor <;> rintro rfl <;> cases h
  | null | string s | array items | object fields => subst h; decide

theorem toList_encodeItems_cons (item : Json) (rest : JsonItems) (first : Bool) :
    (encodeItems (.cons item rest) first).toList =
      (if first then [] else [',']) ++ (item.encode.toList ++ (encodeItems rest false).toList) := by
  cases first <;> simp [encodeItems]

theorem toList_encodeFields_cons (key : String) (value : Json) (rest : JsonFields) (first : Bool) :
    (encodeFields (.cons key value rest) first).toList = (if first then [] else [',']) ++
      ((escape key).toList ++ (':' :: (value.encode.toList ++ (encodeFields rest false).toList))) := by
  cases first <;> simp [encodeFields]

end PcapEvidence.Bgp.Json
