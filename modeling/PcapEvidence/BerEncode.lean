import PcapEvidence.BgpAttributes
import PcapEvidence.ByteSlices
import PcapEvidence.Septets

/-!
# The structural BER reader

Elements with definite or constructed-indefinite length are read at positions of the whole buffer.
Depth and element count are bounded.
-/

namespace PcapEvidence.Ber

open Bgp.Wire (badAt)

structure Element where
  cls : U8
  tag : ℕ
  constructed : Bool
  header : ℕ × ℕ
  content : ℕ × ℕ
  stop : ℕ
  indefinite : Bool
  children : List Element

def uint (b : List U8) : Result ℕ :=
  if b.length > 8 then .error (Error.limit "integer_width")
  else .ok (b.foldl (fun n x => n * 256 + x.toNat) 0)

/-- The octets of a high tag: `n` of them were read and hold `tag`. -/
def highTag (b : List U8) (ceiling : ℕ) : ℕ → ℕ → ℕ → ℕ → Result (ℕ × ℕ)
  | 0, position, _, _ => .error (badAt "ber_tag" position "unterminated high tag")
  | fuel + 1, position, n, tag =>
    let v := byteAt b position
    if n = 0 ∧ v &&& 127 = 0 then .error (badAt "ber_tag" position "nonminimal high tag")
    else if n + 1 > 5 ∨ tag > 0xffffffff / 2 ^ 7 then .error (Error.limit "ber_tag")
    else
      let tag := tag * 2 ^ 7 + (v &&& 127).toNat
      if v &&& 128 = 0 then .ok (tag, position + 1) else highTag b ceiling fuel (position + 1) (n + 1) tag

def tagNumber (b : List U8) (start ceiling : ℕ) : Result (ℕ × ℕ) :=
  let low := byteAt b start &&& 31
  if low = 31 then do
    let (tag, position) ← highTag b ceiling (ceiling - (start + 1)) (start + 1) 0 0
    if tag < 31 then .error (badAt "ber_tag" start "unnecessary high tag") else .ok (tag, position)
  else .ok (low.toNat, start + 1)

/-- The length and the position behind the length octets, for the length octet before `position`. -/
def contentLength (b : List U8) (octet : U8) (position ceiling : ℕ) : Result (ℕ × ℕ) :=
  if octet < 128 then .ok (octet.toNat, position)
  else if octet = 128 then .ok (0, position)
  else
    let n := (octet &&& 127).toNat
    if n = 0 ∨ n > 8 ∨ position + n > ceiling then
      .error (badAt "ber_length" position "invalid long-form length")
    else do
      let value ← uint (sliceOf b position (position + n))
      .ok (value, position + n)

structure Header where
  cls : U8
  tag : ℕ
  constructed : Bool
  indefinite : Bool
  length : ℕ
  valueStart : ℕ

def header (b : List U8) (start ceiling : ℕ) : Result Header :=
  if start ≥ ceiling then .error (badAt "ber" start "missing tag")
  else do
    let first := byteAt b start
    let (tag, position) ← tagNumber b start ceiling
    if position ≥ ceiling then .error (badAt "ber_length" position "missing length")
    else if first >>> 6 = 0 ∧ tag = 0 then
      .error (badAt "ber_eoc" start "EOC outside indefinite terminator")
    else do
      let octet := byteAt b position
      let (length, valueStart) ← contentLength b octet (position + 1) ceiling
      .ok ⟨first >>> 6, tag, first &&& 32 ≠ 0, octet = 128, length, valueStart⟩

abbrev Reader : Type := ℕ → ℕ → Result (Element × ℕ)

/-- The children of a definite length, up to `stop`. -/
def definite (child : Reader) (stop : ℕ) : ℕ → ℕ → ℕ → Result (List Element × ℕ)
  | 0, _, count => .ok ([], count)
  | fuel + 1, position, count =>
    if position < stop then do
      let (e, count) ← child position count
      let (rest, count) ← definite child stop fuel e.stop count
      .ok (e :: rest, count)
    else .ok ([], count)

def childrenWithin (child : Reader) (constructed : Bool) (valueStart contentEnd count : ℕ) :
    Result (List Element × ℕ) :=
  if constructed then definite child contentEnd (contentEnd - valueStart) valueStart count
  else .ok ([], count)

def untilEoc (child : Reader) (b : List U8) (ceiling : ℕ) : ℕ → ℕ → ℕ →
    Result (List Element × ℕ × ℕ)
  | 0, position, _ => .error (badAt "ber_indefinite" position "missing EOC")
  | fuel + 1, position, count =>
    if position + 2 > ceiling then .error (badAt "ber_indefinite" position "missing EOC")
    else if sliceOf b position (position + 2) = [0, 0] then .ok ([], position, count)
    else do
      let (e, count) ← child position count
      let (rest, contentEnd, count) ← untilEoc child b ceiling fuel e.stop count
      .ok (e :: rest, contentEnd, count)

def element (child : ℕ → Reader) (b : List U8) (start ceiling count : ℕ) : Result (Element × ℕ) := do
  let h ← header b start ceiling
  if h.indefinite then
    if !h.constructed then .error (badAt "ber_indefinite" start "primitive indefinite length")
    else do
      let (children, contentEnd, count) ←
        untilEoc (child ceiling) b ceiling (ceiling - h.valueStart) h.valueStart count
      .ok (⟨h.cls, h.tag, h.constructed, (start, h.valueStart), (h.valueStart, contentEnd),
        contentEnd + 2, h.indefinite, children⟩, count)
  else if h.valueStart + h.length > ceiling then
    .error (badAt "ber_length" h.valueStart "value exceeds parent")
  else do
    let contentEnd := h.valueStart + h.length
    let (children, count) ← childrenWithin (child contentEnd) h.constructed h.valueStart contentEnd count
    .ok (⟨h.cls, h.tag, h.constructed, (start, h.valueStart), (h.valueStart, contentEnd), contentEnd,
      h.indefinite, children⟩, count)

/-- One element at `start`, for the depth that is left. -/
def one (b : List U8) (limits : Bgp.Limits) : ℕ → ℕ → Reader
  | 0, _, _, _ => .error (Error.limit "ber_structure")
  | depth + 1, ceiling, start, count =>
    if count ≥ limits.elements then .error (Error.limit "ber_structure")
    else element (one b limits depth) b start ceiling (count + 1)

def parse (b : List U8) (limits : Bgp.Limits) : Result (List Element) := do
  limits.validate
  if b.length > limits.inputBytes then .error (Error.limit "ber_input")
  else do
    let (elements, _) ← definite (one b limits limits.depth b.length) b.length b.length 0 0
    .ok elements

/-- The subidentifiers: `values` are complete, and `count` octets of the next one hold `value`. -/
def subidentifiers : List U8 → List ℕ → ℕ → ℕ → Result (List ℕ)
  | [], values, _, count =>
    if count ≠ 0 then .error (badAt "oid" 0 "truncated subidentifier") else .ok values
  | v :: rest, values, value, count =>
    if count = 0 ∧ v = 128 then .error (badAt "oid" 0 "nonminimal subidentifier")
    else if value > (2 ^ 64 - 1) / 2 ^ 7 ∨ count ≥ 10 then .error (Error.limit "oid_arc")
    else
      let value := value * 2 ^ 7 + (v &&& 127).toNat
      if v &&& 128 = 0 then subidentifiers rest (values ++ [value]) 0 0
      else subidentifiers rest values value (count + 1)

def firstArc (first : ℕ) : ℕ := if first < 40 then 0 else if first < 80 then 1 else 2

def oid (b : List U8) : Result (List ℕ) :=
  if b = [] ∨ b.length > 128 then .error (badAt "oid" 0 "invalid OID size")
  else do
    let values ← subidentifiers b [] 0 0
    let first := values.headD 0
    .ok (firstArc first :: (first - 40 * firstArc first) :: values.tail)

end PcapEvidence.Ber

/-!
## BER trees and their octets

A tree says how each of its elements is written: with a definite length in short or long form, or
constructed with an end-of-contents pair. Its octets are the encoding, and placing it at a position
gives the element that a reader reports there.
-/

namespace PcapEvidence.Ber

/-- A class and a tag number. Universal tag 0 is the end-of-contents marker and no element's. -/
structure Identifier where
  cls : U8
  tag : ℕ
  cls_lt : cls.toNat < 4
  tag_lt : tag < 2 ^ 32
  proper : ¬ (cls = 0 ∧ tag = 0)

namespace Identifier

def firstOctet (id : Identifier) (constructed : Bool) : U8 :=
  BitVec.ofNat 8 (64 * id.cls.toNat + (if constructed then 32 else 0) + min id.tag 31)

def octets (id : Identifier) (constructed : Bool) : List U8 :=
  id.firstOctet constructed :: if id.tag < 31 then [] else Septets.octets id.tag

end Identifier

/-- A definite length in one octet, or in a count and that many octets. -/
inductive LengthForm where
  | short
  | long (n : ℕ)

namespace LengthForm

def octets : LengthForm → ℕ → List U8
  | short, v => [BitVec.ofNat 8 v]
  | long n, v => BitVec.ofNat 8 (128 + n) :: (ByteCodec.leBytes n v).reverse

def Fits : LengthForm → ℕ → Prop
  | short, v => v < 128
  | long n, v => 1 ≤ n ∧ n ≤ 8 ∧ v < 256 ^ n

end LengthForm

inductive Node where
  | primitive (id : Identifier) (form : LengthForm) (value : List U8)
  | definite (id : Identifier) (form : LengthForm) (children : List Node)
  | indefinite (id : Identifier) (children : List Node)

mutual

def Node.encode : Node → List U8
  | .primitive id form value => (id.octets false ++ form.octets value.length) ++ value
  | .definite id form children =>
    (id.octets true ++ form.octets (encodeAll children).length) ++ encodeAll children
  | .indefinite id children => (id.octets true ++ [128]) ++ (encodeAll children ++ [0, 0])

def encodeAll : List Node → List U8
  | [] => []
  | n :: rest => n.encode ++ encodeAll rest

end

mutual

def Node.Fits : Node → Prop
  | .primitive _ form value => form.Fits value.length
  | .definite _ form children => form.Fits (encodeAll children).length ∧ FitsAll children
  | .indefinite _ children => FitsAll children

def FitsAll : List Node → Prop
  | [] => True
  | n :: rest => n.Fits ∧ FitsAll rest

end

mutual

def Node.depth : Node → ℕ
  | .primitive _ _ _ => 1
  | .definite _ _ children => depthAll children + 1
  | .indefinite _ children => depthAll children + 1

def depthAll : List Node → ℕ
  | [] => 0
  | n :: rest => max n.depth (depthAll rest)

end

mutual

def Node.size : Node → ℕ
  | .primitive _ _ _ => 1
  | .definite _ _ children => sizeAll children + 1
  | .indefinite _ children => sizeAll children + 1

def sizeAll : List Node → ℕ
  | [] => 0
  | n :: rest => n.size + sizeAll rest

end

mutual

/-- The element a reader reports for the tree at a position. -/
def Node.place : Node → ℕ → Element
  | .primitive id form value, start =>
    let valueStart := start + (id.octets false ++ form.octets value.length).length
    ⟨id.cls, id.tag, false, (start, valueStart), (valueStart, valueStart + value.length),
      valueStart + value.length, false, []⟩
  | .definite id form children, start =>
    let valueStart := start + (id.octets true ++ form.octets (encodeAll children).length).length
    ⟨id.cls, id.tag, true, (start, valueStart),
      (valueStart, valueStart + (encodeAll children).length),
      valueStart + (encodeAll children).length, false, placeAll children valueStart⟩
  | .indefinite id children, start =>
    let valueStart := start + (id.octets true ++ [128]).length
    ⟨id.cls, id.tag, true, (start, valueStart),
      (valueStart, valueStart + (encodeAll children).length),
      valueStart + (encodeAll children).length + 2, true, placeAll children valueStart⟩

def placeAll : List Node → ℕ → List Element
  | [], _ => []
  | n :: rest, start => n.place start :: placeAll rest (start + n.encode.length)

end

/-- The arcs as subidentifiers: the first two share one. -/
def subsOf : List ℕ → List ℕ
  | a :: x :: rest => (40 * a + x) :: rest
  | _ => []

def encodeOid (arcs : List ℕ) : List U8 := (subsOf arcs).flatMap Septets.octets

/-- The first arc is 0, 1 or 2, and below 2 the second one is below 40. -/
def ValidArcs : List ℕ → Prop
  | a :: x :: _ => a ≤ 2 ∧ (a < 2 → x < 40)
  | _ => False

theorem Node.stop_place (n : Node) (start : ℕ) : (n.place start).stop = start + n.encode.length := by
  cases n with
  | primitive id form value =>
    simp only [place, encode, List.length_append]
    omega
  | definite id form children =>
    simp only [place, encode, List.length_append]
    omega
  | indefinite id children =>
    simp only [place, encode, List.length_append, List.length_cons, List.length_nil]
    omega

theorem Node.size_pos (n : Node) : 0 < n.size := by
  cases n <;> simp [size]

theorem Identifier.octets_pos (id : Identifier) (constructed : Bool) :
    0 < (id.octets constructed).length := by
  simp [octets]

end PcapEvidence.Ber
