import PcapEvidence.BgpFeed
import PcapEvidence.JsonOrder

/-!
# The preflight of a replay

The preflight walks a value on its own and sums up sizes, work, nodes and references. The size of an
accepted tree is that of its text, and its cost is a sum over the nodes, so the order of the members of
an object decides neither whether the tree is taken nor what it costs.
-/

namespace PcapEvidence.Bgp.Feed

open Json History

/-- The work, the nodes and the references of a tree. -/
abbrev Cost : Type := ℕ × ℕ × ℕ

def width : Json → ℕ
  | .array items => items.toList.length
  | _ => 0

/-- The references of a member: the items of an array under one of the names. -/
def spanCount (key : String) (v : Json) : ℕ := if key ∈ Guard.spanKeys then width v else 0

mutual

def cost : Json → Cost
  | .null => (1, 1, 0)
  | .bool _ => (1, 1, 0)
  | .number _ => (1, 1, 0) + (20, 0, 0)
  | .string s => (1, 1, 0) + (s.utf8ByteSize, 0, 0)
  | .array items => (1, 1, 0) + itemsCost items
  | .object fields => (1, 1, 0) + fieldsCost fields

def itemsCost : JsonItems → Cost
  | .nil => 0
  | .cons item rest => cost item + itemsCost rest

def fieldsCost : JsonFields → Cost
  | .nil => 0
  | .cons key value rest =>
    (key.utf8ByteSize, 0, 0) + ((0, 0, spanCount key value) + (cost value + fieldsCost rest))

end

def MemberAdmits (l : Limits) (key : String) (v : Json) : Prop :=
  key.utf8ByteSize ≤ l.inputBytes ∧ ¬ (key ∈ Guard.authorityKeys ∧ v ≠ .bool false)

mutual

/-- What the preflight asks of the shape of a tree. -/
def Admits (l : Limits) : Json → ℕ → Prop
  | .null, depth => depth ≤ l.depth
  | .bool _, depth => depth ≤ l.depth
  | .number _, depth => depth ≤ l.depth
  | .string s, depth => depth ≤ l.depth ∧ s.utf8ByteSize ≤ l.inputBytes
  | .array items, depth => depth ≤ l.depth ∧ items.toList.length ≤ l.fields ∧
      ItemsAdmit l items (depth + 1)
  | .object fields, depth => depth ≤ l.depth ∧ fields.toList.length ≤ l.fields ∧
      (fields.toList.map Prod.fst).Nodup ∧ FieldsAdmit l fields (depth + 1)

def ItemsAdmit (l : Limits) : JsonItems → ℕ → Prop
  | .nil, _ => True
  | .cons item rest, depth => Admits l item depth ∧ ItemsAdmit l rest depth

def FieldsAdmit (l : Limits) : JsonFields → ℕ → Prop
  | .nil, _ => True
  | .cons key value rest, depth =>
    MemberAdmits l key value ∧ Admits l value depth ∧ FieldsAdmit l rest depth

end

namespace Guard

def plus (g : Guard) (c : Cost) : Guard := ⟨g.work + c.1, g.nodes + c.2.1, g.spans + c.2.2⟩

theorem plus_zero (g : Guard) : g.plus 0 = g := rfl

theorem plus_plus (g : Guard) (c d : Cost) : (g.plus c).plus d = g.plus (c + d) := by
  simp only [plus, Prod.fst_add, Prod.snd_add, Nat.add_assoc]

structure Within (l : Limits) (g : Guard) : Prop where
  work : g.work ≤ l.work ∧ g.work < wordBound
  nodes : g.nodes ≤ l.fields ∧ g.nodes < wordBound
  spans : g.spans ≤ l.spans ∧ g.spans < wordBound

theorem Within.of_plus {l : Limits} {g : Guard} {c : Cost} (h : Within l (g.plus c)) :
    Within l g := by
  obtain ⟨hwork, hnodes, hspans⟩ := h
  simp only [plus] at hwork hnodes hspans
  constructor <;> omega

section Steps

variable {l : Limits} {g g' : Guard} {depth n : ℕ}

theorem add_eq_ok {a b n : ℕ} : add a b = .ok n ↔ a + b < wordBound ∧ n = a + b := by
  unfold add State.add
  rw [guard_eq_ok, ge_iff_le, not_le, Except.ok.injEq]
  exact and_congr_right fun _ => eq_comm

theorem charge_eq_ok {amount : ℕ} : g.charge l amount = .ok g' ↔
    (g.work + amount ≤ l.work ∧ g.work + amount < wordBound) ∧ g' = g.plus (amount, 0, 0) := by
  unfold charge
  rw [bind_eq_ok]
  simp only [add_eq_ok]
  constructor
  · rintro ⟨work, ⟨hword, rfl⟩, h⟩
    obtain ⟨hle, h⟩ := guard_eq_ok.1 h
    cases h
    exact ⟨⟨not_lt.1 hle, hword⟩, rfl⟩
  · rintro ⟨⟨hle, hword⟩, rfl⟩
    exact ⟨_, ⟨hword, rfl⟩, guard_eq_ok.2 ⟨not_lt.2 hle, rfl⟩⟩

theorem charge_eq_ok_within (hg : Within l g) {amount : ℕ} : g.charge l amount = .ok g' ↔
    g' = g.plus (amount, 0, 0) ∧ Within l g' := by
  rw [charge_eq_ok]
  constructor
  · rintro ⟨hwork, rfl⟩
    exact ⟨rfl, hwork, hg.nodes, hg.spans⟩
  · rintro ⟨rfl, hwithin⟩
    exact ⟨hwithin.work, rfl⟩

/-- A node costs one unit of work, and nothing has passed its limit behind it. -/
theorem enter_eq_ok (hspans : g.spans ≤ l.spans ∧ g.spans < wordBound) :
    g.enter l depth = .ok g' ↔ depth ≤ l.depth ∧ g' = g.plus (1, 1, 0) ∧ Within l g' := by
  unfold enter
  rw [guard_eq_ok, bind_eq_ok, not_lt]
  simp only [add_eq_ok]
  constructor
  · rintro ⟨hdepth, nodes, ⟨hword, rfl⟩, h⟩
    obtain ⟨hnodes, h⟩ := guard_eq_ok.1 h
    obtain ⟨hwork, rfl⟩ := charge_eq_ok.1 h
    exact ⟨hdepth, rfl, ⟨hwork, ⟨not_lt.1 hnodes, hword⟩, hspans⟩⟩
  · rintro ⟨hdepth, rfl, hwithin⟩
    exact ⟨hdepth, _, ⟨hwithin.nodes.2, rfl⟩,
      guard_eq_ok.2 ⟨not_lt.2 hwithin.nodes.1, charge_eq_ok.2 ⟨hwithin.work, rfl⟩⟩⟩

theorem countSpans_eq_ok (hg : Within l g) (key : String) (v : Json) :
    g.countSpans l key v = .ok g' ↔ g' = g.plus (0, 0, spanCount key v) ∧ Within l g' := by
  have hstay : Except.ok (ε := Error) g = .ok g' ↔ g' = g.plus (0, 0, 0) ∧ Within l g' := by
    rw [Except.ok.injEq]
    constructor
    · rintro rfl
      exact ⟨rfl, hg⟩
    · rintro ⟨rfl, -⟩
      rfl
  cases v with
  | array items =>
    unfold countSpans spanCount
    dsimp only
    by_cases hkey : key ∈ spanKeys
    · rw [if_pos hkey, if_pos hkey, bind_eq_ok]
      simp only [add_eq_ok]
      constructor
      · rintro ⟨spans, ⟨hword, rfl⟩, h⟩
        obtain ⟨hle, h⟩ := guard_eq_ok.1 h
        cases h
        exact ⟨rfl, hg.work, hg.nodes, not_lt.1 hle, hword⟩
      · rintro ⟨rfl, hwithin⟩
        exact ⟨_, ⟨hwithin.spans.2, rfl⟩, guard_eq_ok.2 ⟨not_lt.2 hwithin.spans.1, rfl⟩⟩
    · rw [if_neg hkey, if_neg hkey]
      exact hstay
  | null | bool b | number n | string s | object fields =>
    have hzero : ∀ w : Json, width w = 0 → spanCount key w = 0 := by
      intro w hw
      rw [spanCount, hw, ite_self]
    rw [countSpans, hzero _ rfl]
    · exact hstay
    all_goals exact fun _ h => by cases h

end Steps

section Sizes

variable {l : Limits}

theorem quotedSize_eq (c : Char) : quotedSize c = quotedCharLen c := by
  unfold quotedSize quotedCharLen
  have hb : c = '\x08' ↔ c.toNat = 8 := by
    rw [Char.ext_iff, UInt32.ext_iff]
    rfl
  have hf : c = '\x0c' ↔ c.toNat = 12 := by
    rw [Char.ext_iff, UInt32.ext_iff]
    rfl
  simp only [List.mem_cons, List.not_mem_nil, or_false, hb, hf]

theorem foldlM_add_eq_ok (f : Char → ℕ) {cs : List Char} {a n : ℕ} (ha : a < wordBound) :
    cs.foldlM (fun size c => add size (f c)) a = .ok n ↔
      a + (cs.map f).sum < wordBound ∧ n = a + (cs.map f).sum := by
  induction cs generalizing a with
  | nil => simp [pure, Except.pure, ha, eq_comm]
  | cons c cs ih =>
    rw [List.foldlM_cons, bind_eq_ok, List.map_cons, List.sum_cons]
    constructor
    · rintro ⟨m, hm, hrest⟩
      obtain ⟨hword, rfl⟩ := add_eq_ok.1 hm
      rw [ih hword] at hrest
      omega
    · rintro ⟨hword, rfl⟩
      refine ⟨_, add_eq_ok.2 ⟨by omega, rfl⟩, ?_⟩
      rw [ih (by omega)]
      omega

theorem quotedLen_eq_ok {g g' : Guard} {s : String} {n : ℕ} : g.quotedLen l s = .ok (n, g') ↔
    s.utf8ByteSize ≤ l.inputBytes ∧ g.charge l s.utf8ByteSize = .ok g' ∧
      n = (escape s).utf8ByteSize ∧ n < wordBound := by
  have hsum : (s.toList.map quotedSize).sum = (s.toList.map quotedCharLen).sum :=
    congrArg List.sum (List.map_congr_left fun c _ => quotedSize_eq c)
  unfold quotedLen
  rw [guard_eq_ok, bind_eq_ok, gt_iff_lt, not_lt]
  simp only [bind_eq_ok, foldlM_add_eq_ok quotedSize (show 2 < wordBound by decide), hsum,
    ← utf8ByteSize_escape]
  constructor
  · rintro ⟨hinput, _, hcharge, size, ⟨hword, rfl⟩, h⟩
    cases h
    exact ⟨hinput, hcharge, rfl, hword⟩
  · rintro ⟨hinput, hcharge, rfl, hword⟩
    exact ⟨hinput, _, hcharge, _, ⟨hword, rfl⟩, rfl⟩

theorem countDigits_eq {fuel n : ℕ} (h : n < 10 ^ (fuel + 1)) (digits : ℕ) :
    countDigits fuel n digits = digits + Nat.log 10 n := by
  induction fuel generalizing n digits with
  | zero =>
    rw [countDigits, Nat.log_of_lt (by omega)]
    rfl
  | succ fuel ih =>
    unfold countDigits
    split
    next hge =>
      rw [ih (by omega), Nat.log_of_one_lt_of_le (by decide) hge]
      omega
    next hlt => rw [Nat.log_of_lt (by omega), Nat.add_zero]

theorem countDigits_number (n : U64) : countDigits 20 n.toNat 1 = (Json.number n).textSize := by
  have hword : n.toNat < 2 ^ 64 := n.isLt
  rw [countDigits_eq (by omega), textSize, Json.encode, utf8ByteSize_repr, numberLen]
  split
  next hzero => rw [hzero, Nat.log_zero_right]
  next => exact Nat.add_comm _ _

end Sizes

section Sound

variable {l : Limits}

def Fresh (fields : JsonFields) (keys : List String) : Prop :=
  (fields.toList.map Prod.fst).Nodup ∧ ∀ p ∈ fields.toList, p.1 ∉ keys

theorem fresh_nil (keys : List String) : Fresh .nil keys :=
  ⟨List.nodup_nil, List.forall_mem_nil _⟩

theorem fresh_cons {key : String} {v : Json} {rest : JsonFields} {keys : List String} :
    Fresh (.cons key v rest) keys ↔ key ∉ keys ∧ Fresh rest (key :: keys) := by
  simp only [Fresh, JsonFields.toList, List.map_cons, List.nodup_cons, List.mem_cons, List.mem_map,
    not_or, not_exists, not_and, forall_eq_or_imp]
  constructor
  · rintro ⟨⟨hkey, hnodup⟩, hfirst, hrest⟩
    exact ⟨hfirst, hnodup, fun p hp => ⟨hkey p hp, hrest p hp⟩⟩
  · rintro ⟨hfirst, hnodup, hrest⟩
    exact ⟨⟨fun p hp => (hrest p hp).1, hnodup⟩, hfirst, fun p hp => (hrest p hp).2⟩

theorem fresh_nil_right {fields : JsonFields} :
    Fresh fields [] ↔ (fields.toList.map Prod.fst).Nodup :=
  and_iff_left fun _ _ => List.not_mem_nil

mutual

theorem tree_sound : ∀ (v : Json) {depth n : ℕ} {g g' : Guard}, tree l v depth g = .ok (n, g') →
    n = v.textSize ∧ NoRepeats v
  | .null, depth, n, g, g', h => by
    obtain ⟨_, _, h⟩ := map_ok (by rwa [tree] at h)
    cases h
    exact ⟨rfl, trivial⟩
  | .bool b, depth, n, g, g', h => by
    obtain ⟨_, _, h⟩ := map_ok (by rwa [tree] at h)
    cases h
    cases b <;> exact ⟨rfl, trivial⟩
  | .number m, depth, n, g, g', h => by
    rw [tree] at h
    obtain ⟨_, _, h⟩ := bind_eq_ok.1 h
    obtain ⟨_, _, h⟩ := bind_eq_ok.1 h
    cases h
    exact ⟨countDigits_number m, trivial⟩
  | .string s, depth, n, g, g', h => by
    rw [tree] at h
    obtain ⟨_, _, h⟩ := bind_eq_ok.1 h
    exact ⟨(quotedLen_eq_ok.1 h).2.2.1, trivial⟩
  | .array items, depth, n, g, g', h => by
    rw [tree] at h
    obtain ⟨_, _, h⟩ := bind_eq_ok.1 h
    obtain ⟨_, h⟩ := guard_eq_ok.1 h
    obtain ⟨size, hsize, h⟩ := bind_eq_ok.1 h
    obtain ⟨_, rfl⟩ := add_eq_ok.1 hsize
    rw [textSize_array]
    exact treeItems_sound items h
  | .object fields, depth, n, g, g', h => by
    rw [tree] at h
    obtain ⟨_, _, h⟩ := bind_eq_ok.1 h
    obtain ⟨_, h⟩ := guard_eq_ok.1 h
    obtain ⟨size, hsize, h⟩ := bind_eq_ok.1 h
    obtain ⟨_, rfl⟩ := add_eq_ok.1 hsize
    obtain ⟨hn, hfresh, hfields⟩ := treeFields_sound fields h
    rw [textSize_object]
    exact ⟨hn, fresh_nil_right.1 hfresh, hfields⟩

theorem treeItems_sound : ∀ (items : JsonItems) {depth size n : ℕ} {g g' : Guard},
    treeItems l items depth size g = .ok (n, g') → n = size + itemsSize items ∧ NoRepeatsItems items
  | .nil, depth, size, n, g, g', h => by
    rw [treeItems] at h
    cases h
    exact ⟨rfl, trivial⟩
  | .cons item rest, depth, size, n, g, g', h => by
    rw [treeItems] at h
    obtain ⟨⟨itemSize, _⟩, hitem, h⟩ := bind_eq_ok.1 h
    obtain ⟨_, hadd, h⟩ := bind_eq_ok.1 h
    obtain ⟨_, rfl⟩ := add_eq_ok.1 hadd
    obtain ⟨hn, hrest⟩ := treeItems_sound rest h
    obtain ⟨hitemSize, hitem⟩ := tree_sound item hitem
    rw [itemsSize_cons, hn, hitemSize]
    exact ⟨Nat.add_assoc _ _ _, hitem, hrest⟩

theorem treeFields_sound : ∀ (fields : JsonFields) {depth size n : ℕ} {keys : List String}
    {g g' : Guard}, treeFields l fields depth keys size g = .ok (n, g') →
      n = size + fieldsSize fields ∧ Fresh fields keys ∧ NoRepeatsFields fields
  | .nil, depth, size, n, keys, g, g', h => by
    rw [treeFields] at h
    cases h
    exact ⟨rfl, fresh_nil keys, trivial⟩
  | .cons key v rest, depth, size, n, keys, g, g', h => by
    rw [treeFields] at h
    obtain ⟨⟨keySize, _⟩, hquoted, h⟩ := bind_eq_ok.1 h
    obtain ⟨_, hcolon, h⟩ := bind_eq_ok.1 h
    obtain ⟨_, hadd, h⟩ := bind_eq_ok.1 h
    obtain ⟨_, rfl⟩ := add_eq_ok.1 hcolon
    obtain ⟨_, rfl⟩ := add_eq_ok.1 hadd
    obtain ⟨hnew, h⟩ := guard_eq_ok.1 h
    obtain ⟨_, h⟩ := guard_eq_ok.1 h
    obtain ⟨_, _, h⟩ := bind_eq_ok.1 h
    obtain ⟨⟨valueSize, _⟩, hvalue, h⟩ := bind_eq_ok.1 h
    obtain ⟨_, hadd, h⟩ := bind_eq_ok.1 h
    obtain ⟨_, rfl⟩ := add_eq_ok.1 hadd
    obtain ⟨hn, hfresh, hrest⟩ := treeFields_sound rest h
    obtain ⟨hvalueSize, hvalue⟩ := tree_sound v hvalue
    obtain ⟨-, -, hkeySize, -⟩ := quotedLen_eq_ok.1 hquoted
    rw [fieldsSize_cons, hn, hvalueSize, hkeySize]
    exact ⟨by omega, fresh_cons.2 ⟨hnew, hfresh⟩, hvalue, hrest⟩

end

end Sound

section Complete

variable {l : Limits}

theorem enter_map_eq_ok {depth size n : ℕ} {g g' : Guard} (hsize : size < wordBound)
    (hspans : g.spans ≤ l.spans ∧ g.spans < wordBound) :
    (g.enter l depth).map (size, ·) = .ok (n, g') ↔
      depth ≤ l.depth ∧ n = size ∧ n < wordBound ∧ g' = g.plus (1, 1, 0) ∧ Within l g' := by
  constructor
  · intro h
    obtain ⟨_, henter, h⟩ := map_ok h
    cases h
    obtain ⟨hdepth, hg, hwithin⟩ := (enter_eq_ok hspans).1 henter
    exact ⟨hdepth, rfl, hsize, hg, hwithin⟩
  · rintro ⟨hdepth, rfl, -, hg, hwithin⟩
    rw [(enter_eq_ok hspans).2 ⟨hdepth, hg, hwithin⟩]
    rfl

mutual

/-- A tree is accepted exactly when its shape is admitted and its cost stays within the limits. -/
theorem tree_eq_ok : ∀ (v : Json) {depth n : ℕ} {g g' : Guard},
    g.spans ≤ l.spans ∧ g.spans < wordBound →
      (tree l v depth g = .ok (n, g') ↔ Admits l v depth ∧ n = v.textSize ∧ n < wordBound ∧
        g' = g.plus (cost v) ∧ Within l g')
  | .null, depth, n, g, g', hspans => by
    rw [tree]
    exact enter_map_eq_ok (by decide) hspans
  | .bool b, depth, n, g, g', hspans => by
    have hsize : (Json.bool b).textSize = if b then 4 else 5 := by cases b <;> rfl
    rw [tree, hsize]
    exact enter_map_eq_ok (by cases b <;> decide) hspans
  | .number m, depth, n, g, g', hspans => by
    have hword : (Json.number m).textSize < wordBound := by
      rw [textSize, Json.encode, utf8ByteSize_repr]
      exact numberLen_lt m
    rw [tree, bind_eq_ok, cost, ← plus_plus, Admits]
    constructor
    · rintro ⟨g₁, henter, h⟩
      obtain ⟨hdepth, rfl, hfirst⟩ := (enter_eq_ok hspans).1 henter
      obtain ⟨g₂, hcharge, h⟩ := bind_eq_ok.1 h
      cases h
      obtain ⟨hg, hwithin⟩ := (charge_eq_ok_within hfirst).1 hcharge
      rw [countDigits_number]
      exact ⟨hdepth, rfl, hword, hg, hwithin⟩
    · rintro ⟨hdepth, rfl, -, rfl, hwithin⟩
      have hfirst := hwithin.of_plus
      refine ⟨_, (enter_eq_ok hspans).2 ⟨hdepth, rfl, hfirst⟩, ?_⟩
      rw [(charge_eq_ok_within hfirst).2 ⟨rfl, hwithin⟩, ← countDigits_number]
      rfl
  | .string s, depth, n, g, g', hspans => by
    rw [tree, bind_eq_ok, cost, ← plus_plus, Admits]
    simp only [quotedLen_eq_ok]
    constructor
    · rintro ⟨g₁, henter, hinput, hcharge, hsize, hword⟩
      obtain ⟨hdepth, rfl, hfirst⟩ := (enter_eq_ok hspans).1 henter
      obtain ⟨hg, hwithin⟩ := (charge_eq_ok_within hfirst).1 hcharge
      exact ⟨⟨hdepth, hinput⟩, hsize, hword, hg, hwithin⟩
    · rintro ⟨⟨hdepth, hinput⟩, hsize, hword, rfl, hwithin⟩
      have hfirst := hwithin.of_plus
      exact ⟨_, (enter_eq_ok hspans).2 ⟨hdepth, rfl, hfirst⟩, hinput,
        (charge_eq_ok_within hfirst).2 ⟨rfl, hwithin⟩, hsize, hword⟩
  | .array items, depth, n, g, g', hspans => by
    rw [tree, bind_eq_ok, cost, ← plus_plus, Admits, textSize_array]
    constructor
    · rintro ⟨g₁, henter, h⟩
      obtain ⟨hdepth, rfl, hfirst⟩ := (enter_eq_ok hspans).1 henter
      obtain ⟨hwidth, h⟩ := guard_eq_ok.1 h
      obtain ⟨size, hsize, h⟩ := bind_eq_ok.1 h
      obtain ⟨hword, rfl⟩ := add_eq_ok.1 hsize
      obtain ⟨hitems, hrest⟩ := (treeItems_eq_ok items hfirst hword).1 h
      exact ⟨⟨hdepth, not_lt.1 hwidth, hitems⟩, hrest⟩
    · rintro ⟨⟨hdepth, hwidth, hitems⟩, hn, hword, rfl, hwithin⟩
      have hfirst := hwithin.of_plus
      have hsize : 2 + (items.toList.length - 1) < wordBound := by omega
      refine ⟨_, (enter_eq_ok hspans).2 ⟨hdepth, rfl, hfirst⟩, guard_eq_ok.2 ⟨not_lt.2 hwidth, ?_⟩⟩
      rw [add_eq_ok.2 ⟨hsize, rfl⟩]
      exact (treeItems_eq_ok items hfirst hsize).2 ⟨hitems, hn, hword, rfl, hwithin⟩
  | .object fields, depth, n, g, g', hspans => by
    rw [tree, bind_eq_ok, cost, ← plus_plus, Admits, textSize_object]
    constructor
    · rintro ⟨g₁, henter, h⟩
      obtain ⟨hdepth, rfl, hfirst⟩ := (enter_eq_ok hspans).1 henter
      obtain ⟨hwidth, h⟩ := guard_eq_ok.1 h
      obtain ⟨size, hsize, h⟩ := bind_eq_ok.1 h
      obtain ⟨hword, rfl⟩ := add_eq_ok.1 hsize
      obtain ⟨hfresh, hfields, hrest⟩ := (treeFields_eq_ok fields hfirst hword).1 h
      exact ⟨⟨hdepth, not_lt.1 hwidth, fresh_nil_right.1 hfresh, hfields⟩, hrest⟩
    · rintro ⟨⟨hdepth, hwidth, hnodup, hfields⟩, hn, hword, rfl, hwithin⟩
      have hfirst := hwithin.of_plus
      have hsize : 2 + (fields.toList.length - 1) < wordBound := by omega
      refine ⟨_, (enter_eq_ok hspans).2 ⟨hdepth, rfl, hfirst⟩, guard_eq_ok.2 ⟨not_lt.2 hwidth, ?_⟩⟩
      rw [add_eq_ok.2 ⟨hsize, rfl⟩]
      exact (treeFields_eq_ok fields hfirst hsize).2
        ⟨fresh_nil_right.2 hnodup, hfields, hn, hword, rfl, hwithin⟩

theorem treeItems_eq_ok : ∀ (items : JsonItems) {depth size n : ℕ} {g g' : Guard},
    Within l g → size < wordBound →
      (treeItems l items depth size g = .ok (n, g') ↔ ItemsAdmit l items depth ∧
        n = size + itemsSize items ∧ n < wordBound ∧ g' = g.plus (itemsCost items) ∧ Within l g')
  | .nil, depth, size, n, g, g', hg, hsize => by
    rw [treeItems, ItemsAdmit, itemsCost, plus_zero]
    constructor
    · rintro ⟨⟩
      exact ⟨trivial, rfl, hsize, rfl, hg⟩
    · rintro ⟨-, rfl, -, rfl, -⟩
      rfl
  | .cons item rest, depth, size, n, g, g', hg, hsize => by
    rw [treeItems, ItemsAdmit, itemsCost, ← plus_plus, itemsSize_cons, bind_eq_ok]
    constructor
    · rintro ⟨⟨itemSize, g₁⟩, hitem, h⟩
      obtain ⟨next, hadd, h⟩ := bind_eq_ok.1 h
      obtain ⟨hnext, rfl⟩ := add_eq_ok.1 hadd
      obtain ⟨hadmits, rfl, -, rfl, hfirst⟩ := (tree_eq_ok item hg.spans).1 hitem
      obtain ⟨hrest, hn, hword, hg', hwithin⟩ := (treeItems_eq_ok rest hfirst hnext).1 h
      exact ⟨⟨hadmits, hrest⟩, by omega, hword, hg', hwithin⟩
    · rintro ⟨⟨hadmits, hrest⟩, hn, hword, rfl, hwithin⟩
      have hfirst := hwithin.of_plus
      have hnext : size + item.textSize < wordBound := by omega
      refine ⟨(item.textSize, g.plus (cost item)),
        (tree_eq_ok item hg.spans).2 ⟨hadmits, rfl, by omega, rfl, hfirst⟩, ?_⟩
      dsimp only
      rw [add_eq_ok.2 ⟨hnext, rfl⟩]
      exact (treeItems_eq_ok rest hfirst hnext).2 ⟨hrest, by omega, hword, rfl, hwithin⟩

theorem treeFields_eq_ok : ∀ (fields : JsonFields) {depth size n : ℕ} {keys : List String}
    {g g' : Guard}, Within l g → size < wordBound →
      (treeFields l fields depth keys size g = .ok (n, g') ↔ Fresh fields keys ∧
        FieldsAdmit l fields depth ∧ n = size + fieldsSize fields ∧ n < wordBound ∧
        g' = g.plus (fieldsCost fields) ∧ Within l g')
  | .nil, depth, size, n, keys, g, g', hg, hsize => by
    rw [treeFields, FieldsAdmit, fieldsCost, plus_zero]
    constructor
    · rintro ⟨⟩
      exact ⟨fresh_nil keys, trivial, rfl, hsize, rfl, hg⟩
    · rintro ⟨-, -, rfl, -, rfl, -⟩
      rfl
  | .cons key v rest, depth, size, n, keys, g, g', hg, hsize => by
    rw [treeFields, FieldsAdmit, fieldsCost, ← plus_plus, ← plus_plus, ← plus_plus,
      fieldsSize_cons, bind_eq_ok, fresh_cons, MemberAdmits]
    constructor
    · rintro ⟨⟨keySize, g₁⟩, hquoted, h⟩
      obtain ⟨hinput, hcharge, rfl, -⟩ := quotedLen_eq_ok.1 hquoted
      obtain ⟨rfl, hfirst⟩ := (charge_eq_ok_within hg).1 hcharge
      obtain ⟨colon, hcolon, h⟩ := bind_eq_ok.1 h
      obtain ⟨-, rfl⟩ := add_eq_ok.1 hcolon
      obtain ⟨keyed, hkeyed, h⟩ := bind_eq_ok.1 h
      obtain ⟨-, rfl⟩ := add_eq_ok.1 hkeyed
      obtain ⟨hnew, h⟩ := guard_eq_ok.1 h
      obtain ⟨hauthority, h⟩ := guard_eq_ok.1 h
      obtain ⟨g₂, hspans, h⟩ := bind_eq_ok.1 h
      obtain ⟨rfl, hsecond⟩ := (countSpans_eq_ok hfirst key v).1 hspans
      obtain ⟨⟨valueSize, g₃⟩, hvalue, h⟩ := bind_eq_ok.1 h
      obtain ⟨hadmits, rfl, -, rfl, hthird⟩ := (tree_eq_ok v hsecond.spans).1 hvalue
      obtain ⟨next, hadd, h⟩ := bind_eq_ok.1 h
      obtain ⟨hnext, rfl⟩ := add_eq_ok.1 hadd
      obtain ⟨hfresh, hrest, hn, hword, hg', hwithin⟩ := (treeFields_eq_ok rest hthird hnext).1 h
      exact ⟨⟨hnew, hfresh⟩, ⟨⟨hinput, hauthority⟩, hadmits, hrest⟩, by omega, hword, hg', hwithin⟩
    · rintro ⟨⟨hnew, hfresh⟩, ⟨⟨hinput, hauthority⟩, hadmits, hrest⟩, hn, hword, rfl, hwithin⟩
      have hthird := hwithin.of_plus
      have hsecond := hthird.of_plus
      have hfirst := hsecond.of_plus
      have hnext : size + ((escape key).utf8ByteSize + 1) + v.textSize < wordBound := by omega
      refine ⟨((escape key).utf8ByteSize, g.plus (key.utf8ByteSize, 0, 0)), quotedLen_eq_ok.2
        ⟨hinput, (charge_eq_ok_within hg).2 ⟨rfl, hfirst⟩, rfl, by omega⟩, ?_⟩
      dsimp only
      refine bind_eq_ok.2 ⟨_, add_eq_ok.2 ⟨by omega, rfl⟩, ?_⟩
      refine bind_eq_ok.2 ⟨_, add_eq_ok.2 ⟨by omega, rfl⟩, ?_⟩
      refine guard_eq_ok.2 ⟨hnew, guard_eq_ok.2 ⟨hauthority, ?_⟩⟩
      refine bind_eq_ok.2 ⟨_, (countSpans_eq_ok hfirst key v).2 ⟨rfl, hsecond⟩, ?_⟩
      refine bind_eq_ok.2 ⟨(v.textSize, _), (tree_eq_ok v hsecond.spans).2
        ⟨hadmits, rfl, by omega, rfl, hthird⟩, ?_⟩
      refine bind_eq_ok.2 ⟨_, add_eq_ok.2 ⟨hnext, rfl⟩, ?_⟩
      exact (treeFields_eq_ok rest hthird hnext).2 ⟨hfresh, hrest, by omega, hword, rfl, hwithin⟩

end

end Complete

end Guard
section Order

variable {depth : ℕ} {v v' : Json}
variable {l : Limits}

def memberCost (p : String × Json) : Cost :=
  (p.1.utf8ByteSize, 0, 0) + ((0, 0, spanCount p.1 p.2) + cost p.2)

theorem itemsCost_eq (items : JsonItems) : itemsCost items = (items.toList.map cost).sum := by
  cases items with
  | nil => rfl
  | cons item rest =>
    rw [itemsCost, itemsCost_eq rest, JsonItems.toList, List.map_cons, List.sum_cons]

theorem fieldsCost_eq (fields : JsonFields) :
    fieldsCost fields = (fields.toList.map memberCost).sum := by
  cases fields with
  | nil => rfl
  | cons key v rest =>
    rw [fieldsCost, fieldsCost_eq rest, JsonFields.toList, List.map_cons, List.sum_cons, memberCost,
      add_assoc, add_assoc]

theorem itemsAdmit_iff (items : JsonItems) :
    ItemsAdmit l items depth ↔ ∀ j ∈ items.toList, Admits l j depth := by
  cases items with
  | nil => simp [ItemsAdmit, JsonItems.toList]
  | cons item rest => simp [ItemsAdmit, JsonItems.toList, itemsAdmit_iff rest]

theorem fieldsAdmit_iff (fields : JsonFields) :
    FieldsAdmit l fields depth ↔
      ∀ p ∈ fields.toList, MemberAdmits l p.1 p.2 ∧ Admits l p.2 depth := by
  cases fields with
  | nil => simp [FieldsAdmit, JsonFields.toList]
  | cons key v rest => simp [FieldsAdmit, JsonFields.toList, fieldsAdmit_iff rest, and_assoc]

theorem cost_arrayOf (items : List Json) : cost (arrayOf items) = (1, 1, 0) + (items.map cost).sum := by
  rw [arrayOf, cost, itemsCost_eq, toList_itemsOf]

theorem cost_objectOf (fields : List (String × Json)) :
    cost (objectOf fields) = (1, 1, 0) + (fields.map memberCost).sum := by
  rw [objectOf, cost, fieldsCost_eq, toList_fieldsOf]

theorem admits_arrayOf {items : List Json} : Admits l (arrayOf items) depth ↔
    depth ≤ l.depth ∧ items.length ≤ l.fields ∧ ∀ j ∈ items, Admits l j (depth + 1) := by
  rw [arrayOf, Admits, itemsAdmit_iff, toList_itemsOf]

theorem admits_objectOf {fields : List (String × Json)} :
    Admits l (objectOf fields) depth ↔ depth ≤ l.depth ∧ fields.length ≤ l.fields ∧
      (fields.map Prod.fst).Nodup ∧
      ∀ p ∈ fields, MemberAdmits l p.1 p.2 ∧ Admits l p.2 (depth + 1) := by
  rw [objectOf, Admits, fieldsAdmit_iff, toList_fieldsOf]

theorem frame_of_reorders (h : Reorders v v') : v ≠ .bool false ∧ width v = width v' := by
  induction h with
  | members _ => exact ⟨fun heq => Json.noConfusion heq, rfl⟩
  | item before after _ _ =>
    refine ⟨fun heq => Json.noConfusion heq, ?_⟩
    simp only [arrayOf, width, toList_itemsOf, List.length_append, List.length_cons]
  | member before after key _ _ => exact ⟨fun heq => Json.noConfusion heq, rfl⟩

theorem cost_of_reorders (h : Reorders v v') : cost v = cost v' := by
  induction h with
  | members hperm =>
    rw [cost_objectOf, cost_objectOf, (hperm.map memberCost).sum_eq]
  | item before after _ ih =>
    rw [cost_arrayOf, cost_arrayOf, List.map_append, List.map_append, List.map_cons, List.map_cons,
      ih]
  | @member v v' before after key h ih =>
    have hmember : memberCost (key, v) = memberCost (key, v') := by
      rw [memberCost, memberCost, spanCount, spanCount, (frame_of_reorders h).2, ih]
    rw [cost_objectOf, cost_objectOf, List.map_append, List.map_append, List.map_cons,
      List.map_cons, hmember]

theorem admits_of_reorders (h : Reorders v v') (hv : Admits l v depth) : Admits l v' depth := by
  induction h generalizing depth with
  | members hperm =>
    rw [admits_objectOf] at hv ⊢
    obtain ⟨hdepth, hwidth, hnodup, hall⟩ := hv
    exact ⟨hdepth, hperm.length_eq ▸ hwidth, ((hperm.map Prod.fst).nodup_iff).1 hnodup,
      fun p hp => hall p (hperm.mem_iff.2 hp)⟩
  | item before after _ ih =>
    rw [admits_arrayOf] at hv ⊢
    obtain ⟨hdepth, hwidth, hall⟩ := hv
    refine ⟨hdepth, by simpa using hwidth, ?_⟩
    rw [List.forall_mem_append, List.forall_mem_cons] at hall ⊢
    exact ⟨hall.1, ih hall.2.1, hall.2.2⟩
  | member before after key h ih =>
    rw [admits_objectOf] at hv ⊢
    obtain ⟨hdepth, hwidth, hnodup, hall⟩ := hv
    refine ⟨hdepth, by simpa using hwidth, by simpa using hnodup, ?_⟩
    rw [List.forall_mem_append, List.forall_mem_cons] at hall ⊢
    obtain ⟨hbefore, ⟨⟨hinput, hauthority⟩, hvalue⟩, hafter⟩ := hall
    refine ⟨hbefore, ⟨⟨hinput, fun hfalse => hauthority ⟨hfalse.1, (frame_of_reorders h).1⟩⟩,
      ih hvalue⟩, hafter⟩

theorem tree_of_reorders (h : Reorders v v') {n : ℕ} {g g' : Guard}
    (hspans : g.spans ≤ l.spans ∧ g.spans < wordBound)
    (hv : Guard.tree l v depth g = .ok (n, g')) : Guard.tree l v' depth g = .ok (n, g') := by
  have hclean := (Guard.tree_sound v hv).2
  have hsize : v.textSize = v'.textSize := by
    rw [← textSize_canonical v, h.canonical_eq hclean, textSize_canonical v']
  obtain ⟨hadmits, hn, hrest⟩ := (Guard.tree_eq_ok v hspans).1 hv
  rw [cost_of_reorders h] at hrest
  exact (Guard.tree_eq_ok v' hspans).2 ⟨admits_of_reorders h hadmits, hn.trans hsize, hrest⟩

end Order

section Encoding

variable {v v' : Json}
variable {l : Limits}

theorem prepareEncoding_eq_ok {g g' : Guard} {max n : ℕ} :
    g.prepareEncoding l v max = .ok (n, g') ↔
      ∃ phase, Guard.tree l v 1 ⟨g.work, 0, 0⟩ = .ok (n, phase) ∧ ¬ min max l.outputBytes < n ∧
        ¬ wordBound ≤ n * 4 ∧ Guard.charge l { g with work := phase.work } (n * 4) = .ok g' := by
  unfold Guard.prepareEncoding Guard.measure
  constructor
  · intro h
    obtain ⟨⟨size, carried⟩, hmeasure, h⟩ := bind_eq_ok.1 h
    obtain ⟨⟨treeSize, phase⟩, htree, hmeasure⟩ := bind_eq_ok.1 hmeasure
    obtain ⟨hmax, hmeasure⟩ := guard_eq_ok.1 hmeasure
    cases hmeasure
    obtain ⟨hword, h⟩ := guard_eq_ok.1 h
    obtain ⟨charged, hcharge, h⟩ := bind_eq_ok.1 h
    cases h
    exact ⟨phase, htree, hmax, hword, hcharge⟩
  · rintro ⟨phase, htree, hmax, hword, hcharge⟩
    refine bind_eq_ok.2 ⟨(n, { g with work := phase.work }), ?_, guard_eq_ok.2 ⟨hword, ?_⟩⟩
    · exact bind_eq_ok.2 ⟨(n, phase), htree, guard_eq_ok.2 ⟨hmax, rfl⟩⟩
    · exact bind_eq_ok.2 ⟨g', hcharge, rfl⟩

theorem encode_of_prepareEncoding {g g' : Guard} {max n : ℕ}
    (h : g.prepareEncoding l v max = .ok (n, g')) :
    g.encode l v max = .ok (v.canonical, v.canonical.encode, g') ∧
      v.canonical.encode.utf8ByteSize = n := by
  obtain ⟨phase, htree, -⟩ := prepareEncoding_eq_ok.1 h
  have hsize : v.canonical.encode.utf8ByteSize = n :=
    (textSize_canonical v).trans (Guard.tree_sound v htree).1.symm
  have hencoded : v.canonical.encodeBounded n = .ok v.canonical.encode :=
    if_pos hsize.le
  refine ⟨?_, hsize⟩
  unfold Guard.encode
  refine bind_eq_ok.2 ⟨(n, g'), h, bind_eq_ok.2 ⟨_, hencoded, rfl⟩⟩

theorem encode_of_reorders (h : Reorders v v') {g : Guard} {max : ℕ}
    {r : Json × String × Guard} (hv : g.encode l v max = .ok r) : g.encode l v' max = .ok r := by
  obtain ⟨⟨n, g'⟩, hprepare, -⟩ := bind_eq_ok.1 hv
  rw [(encode_of_prepareEncoding hprepare).1] at hv
  obtain ⟨phase, htree, hrest⟩ := prepareEncoding_eq_ok.1 hprepare
  have htree' := tree_of_reorders h ⟨Nat.zero_le _, Nat.two_pow_pos 64⟩ htree
  have hencode := (encode_of_prepareEncoding (prepareEncoding_eq_ok.2 ⟨phase, htree', hrest⟩)).1
  rw [hencode, ← h.canonical_eq (Guard.tree_sound v htree).2]
  exact hv

theorem encode_of_sameMembers (h : SameMembers v v') {g : Guard} {max : ℕ}
    {r : Json × String × Guard} (hv : g.encode l v max = .ok r) : g.encode l v' max = .ok r := by
  induction h with
  | refl => exact hv
  | tail _ hstep ih => exact encode_of_reorders hstep ih

theorem toOption_encode (h : SameMembers v v') (g : Guard) (max : ℕ) :
    (g.encode l v max).toOption = (g.encode l v' max).toOption := by
  have hback : ∀ r, g.encode l v' max = .ok r → g.encode l v max = .ok r := fun r =>
    encode_of_sameMembers h.symm
  cases hv : g.encode l v max with
  | ok r => rw [encode_of_sameMembers h hv]
  | error e =>
    cases hv' : g.encode l v' max with
    | ok r => rw [hback r hv'] at hv; cases hv
    | error e' => rfl

end Encoding

/-- The preflight and the encoder take the same trees and agree about the size of the text; the
order of the members decides neither the canonical form nor its digest. -/
theorem guard_encoding_exact (l : Limits) :
    (∀ (v : Json) (depth n : ℕ) (g g' : Guard), Guard.tree l v depth g = .ok (n, g') →
      n = v.encode.utf8ByteSize ∧ n = v.canonical.encode.utf8ByteSize ∧ NoRepeats v ∧
        ∀ v', SameMembers v v' → v'.canonical = v.canonical) ∧
    (∀ v : Json, v.canonical.canonical = v.canonical) ∧
    (∀ (v : Json) (g : Guard) (max : ℕ),
      ((∃ r, g.encode l v max = .ok r) ↔ ∃ p, g.prepareEncoding l v max = .ok p) ∧
      ∀ n g', g.prepareEncoding l v max = .ok (n, g') →
        g.encode l v max = .ok (v.canonical, v.canonical.encode, g') ∧
          v.canonical.encode.utf8ByteSize = n) ∧
    ∀ (v v' : Json) (g : Guard) (max : ℕ), SameMembers v v' →
      (g.encode l v max).toOption = (g.encode l v' max).toOption ∧
      ∀ (sha256 : List U8 → Digest) (r r' : Json × String × Guard),
        g.encode l v max = .ok r → g.encode l v' max = .ok r' →
          r.2.1 = r'.2.1 ∧ FeedReplay.digest sha256 (Encoder.utf8 r.2.1) =
            FeedReplay.digest sha256 (Encoder.utf8 r'.2.1) := by
  refine ⟨fun v depth n g g' h => ?_, canonical_canonical, fun v g max => ⟨⟨?_, ?_⟩, ?_⟩,
    fun v v' g max hsame => ⟨toOption_encode hsame g max, fun sha256 r r' hr hr' => ?_⟩⟩
  · obtain ⟨hn, hclean⟩ := Guard.tree_sound v h
    exact ⟨hn, hn.trans (textSize_canonical v).symm, hclean,
      fun v' hsame => (SameMembers.canonical_eq hsame hclean).symm⟩
  · rintro ⟨r, hr⟩
    obtain ⟨p, hprepare, -⟩ := bind_eq_ok.1 hr
    exact ⟨p, hprepare⟩
  · rintro ⟨⟨n, g'⟩, hprepare⟩
    exact ⟨_, (encode_of_prepareEncoding hprepare).1⟩
  · exact fun n g' hprepare => encode_of_prepareEncoding hprepare
  · have heq : r = r' := Except.ok.inj ((encode_of_sameMembers hsame hr).symm.trans hr')
    rw [heq]
    exact ⟨rfl, rfl⟩

example : (Guard.tree Limits.default (objectOf [("b", .number 10), ("a", .null)]) 1
    ⟨0, 0, 0⟩).toOption.map Prod.fst = some 17 := by
  decide +kernel

end PcapEvidence.Bgp.Feed
