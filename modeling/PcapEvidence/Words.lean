import PcapEvidence.Errors

/-!
# Computations that may stop the program

Besides an error, an operator of the source can stop the program: an arithmetic operator whose result
leaves its range, or an index outside its slice. Such a stop is a failure without an error. A
computation that is the lifting of a result never stops.
-/

namespace PcapEvidence

/-- The failure `none` is a stop of the program. -/
abbrev Words (α : Type) : Type := Except (Option Error) α

namespace Words

variable {α β : Type}

def stop : Words α := .error none

def fail (e : Error) : Words α := .error (some e)

def ofResult : Result α → Words α
  | .ok v => .ok v
  | .error e => fail e

/-- An operator that stops the program when its result leaves the range. -/
def within (fits : Prop) [Decidable fits] (value : α) : Words α := if fits then .ok value else stop

/-- A checked operator with the error that replaces `None`. -/
def orElse (value : Option α) (e : Error) : Words α :=
  match value with
  | some v => .ok v
  | none => fail e

/-- A value that has to be there. -/
def orStop : Option α → Words α
  | some v => .ok v
  | none => stop

def index (l : List α) (i : ℕ) : Words α := orStop l[i]?

/-- The subslice `l[x..y]`. -/
def slice (l : List α) (x y : ℕ) : Words (List α) :=
  within (x ≤ y ∧ y ≤ l.length) ((l.take y).drop x)

/-- The cast of a signed word to an index. -/
def asUsize (z : ℤ) : ℕ := (z % 2 ^ 64).toNat

theorem within_of {fits : Prop} [Decidable fits] (h : fits) (value : α) :
    within fits value = .ok value := if_pos h

@[simp] theorem ok_bind (v : α) (f : α → Words β) : (Except.ok v >>= f : Words β) = f v := rfl

@[simp] theorem ofResult_ok (v : α) : (ofResult (.ok v) : Words α) = .ok v := rfl

@[simp] theorem ofResult_error (e : Error) : (ofResult (.error e) : Words α) = fail e := rfl

theorem index_of {l : List α} {i : ℕ} {v : α} (h : l[i]? = some v) : index l i = .ok v := by
  rw [index, h]
  rfl

theorem slice_of {l : List α} {x y : ℕ} (hxy : x ≤ y) (hy : y ≤ l.length) :
    slice l x y = .ok ((l.take y).drop x) := within_of ⟨hxy, hy⟩ _

theorem asUsize_of {z : ℤ} (h : 0 ≤ z) (hlt : z < 2 ^ 64) : asUsize z = z.toNat := by
  rw [asUsize, Int.emod_eq_of_lt h hlt]

end Words
end PcapEvidence
