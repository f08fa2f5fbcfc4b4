import ProseMarkup.Value.Basic

/-!
# Access to values

Reading the parts of a value, editing plain data at a place, and putting values in order. Each of these
can fail, and a fault says how. Compiling a text or a style sheet never fails by itself: every fault is
due to a malformed whitelist or to a value of the wrong kind.

* `RuleSpace` : the three namespaces of style rules, with their keywords.
* `Fault`, `Fault.message` : the causes of failure, and the wording where a fault has one.
* `Position.index?`, `Position.bound`, `Position.slice` : positions in a list. A negative one counts
  from the end of the list, the last item being at minus one. A position of an item must lie inside the
  list, and a bound of a slice is moved inside.
* `Value.elements` : the items of a value that can be listed.
* `Value.entries` : the entries of a dictionary.
* `Value.underKey`, `Value.place` : access by key and by position.
* `Value.update`, `Value.erase` : plain data with the place at a path written or removed.
* `Text.le`, `Value.le?`, `Value.sorted` : texts are ordered by their code points, numbers of all kinds
  by their size. Values of different kinds are in no order, and neither are two values of any other
  kind.

Main statements: for positions counted from the beginning access and slices are the usual operations
(`Position.index?_natCast`, `slice_natCast`, `slice_natCast_none`, `slice_none_natCast`).
-/

namespace ProseMarkup

/-! ### Faults -/

/-- The namespaces of style rules. -/
inductive RuleSpace where
  | paragraph
  | span
  | container
deriving DecidableEq, Repr

/-- The keyword of a namespace. -/
def RuleSpace.keyword : RuleSpace → Text
  | .paragraph => "para".toList
  | .span => "span".toList
  | .container => "cont".toList

/-- The causes of failure. -/
inductive Fault where
  /-- A value lacks the field or operation asked of it. -/
  | lacksMember
  /-- A value cannot be listed item by item. -/
  | notIterable
  /-- A value is no dictionary. -/
  | notMapping
  /-- A value that is used like a text is none. -/
  | notText
  /-- A position lies outside its list. -/
  | outOfRange
  /-- A key is not in its dictionary. -/
  | missingKey
  /-- A value cannot be a key. -/
  | notKey
  /-- A value cannot be a position in a list. -/
  | notPosition
  /-- Values of different kinds cannot be put in order. -/
  | notOrdered
  /-- Whitelist patterns lack a namespace. -/
  | missingNamespace (space : RuleSpace)
  /-- A content item is neither text nor a span nor a link. -/
  | unrecognisedContent (item : Value)

/-- The wording of a fault, where it has one. -/
def Fault.message : Fault → Option Text
  | .missingNamespace space =>
    some ("error: whitelist patterns lack the `".toList ++ space.keyword ++ "` namespace".toList)
  | .unrecognisedContent item =>
    some ("error: cannot serialise content item ".toList ++ item.display)
  | _ => none

/-! ### Positions in a list -/

namespace Position

variable {α : Type}

/-- The place of the item at a position of a list of length `size`; none outside the list. -/
def index? (size : Nat) (position : Int) : Option Nat :=
  let place := if position < 0 then position + size else position
  if 0 ≤ place ∧ place < size then some place.toNat else none

/-- The place of a bound, moved inside a list of length `size`. -/
def bound (size : Nat) (position : Int) : Nat :=
  min size (if position < 0 then position + size else position).toNat

/-- The items from one bound on and before another; an absent bound is that end of the list. -/
def slice (first last : Option Int) (xs : List α) : List α :=
  (xs.take ((last.map (bound xs.length)).getD xs.length)).drop
    ((first.map (bound xs.length)).getD 0)

@[simp] theorem index?_natCast (size n : Nat) : index? size n = if n < size then some n else none := by
  rw [index?]
  by_cases h : n < size
  · rw [if_pos h]
    simp [h, Int.not_lt.2 (Int.natCast_nonneg n)]
  · rw [if_neg h]
    simp [h, Int.not_lt.2 (Int.natCast_nonneg n)]

@[simp] theorem bound_natCast (size n : Nat) : bound size n = min size n := by
  rw [bound]
  rw [if_neg (Int.not_lt.2 (Int.natCast_nonneg n)), Int.toNat_natCast]

@[simp] theorem slice_natCast_none (i : Nat) (xs : List α) : slice (some (i : Int)) none xs = xs.drop i := by
  rw [slice]
  simp only [Option.map_some, Option.map_none, Option.getD_some, Option.getD_none, bound_natCast,
    List.take_length, Nat.min_comm xs.length]
  exact List.drop_eq_drop_min.symm

@[simp] theorem slice_none_natCast (j : Nat) (xs : List α) : slice none (some (j : Int)) xs = xs.take j := by
  rw [slice]
  simp only [Option.map_some, Option.map_none, Option.getD_some, Option.getD_none, bound_natCast,
    List.drop_zero, Nat.min_comm xs.length]
  exact List.take_eq_take_min.symm

@[simp] theorem slice_natCast (i j : Nat) (xs : List α) :
    slice (some (i : Int)) (some (j : Int)) xs = (xs.take j).drop i := by
  rw [slice]
  simp only [Option.map_some, Option.getD_some, bound_natCast, Nat.min_comm xs.length]
  rw [← List.take_eq_take_min]
  rcases Nat.le_total xs.length i with h | h
  · rw [Nat.min_eq_right h, List.drop_eq_nil_of_le (by rw [List.length_take]; omega),
      List.drop_eq_nil_of_le (by rw [List.length_take]; omega)]
  · rw [Nat.min_eq_left h]

end Position

/-! ### Access by key and by position -/

namespace Value

/-- The items of a value: those of a list, the characters of a text, the keys of a dictionary. -/
def elements : Value → Except Fault (List Value)
  | list xs => .ok xs
  | str s => .ok (s.map fun c => str [c])
  | dict es => .ok (es.map Prod.fst)
  | _ => .error .notIterable

/-- The entries of a dictionary. -/
def entries : Value → Except Fault (List (Value × Value))
  | dict es => .ok es
  | _ => .error .lacksMember

/-- The value under a key of a dictionary's entries. -/
def underKey (key : Value) (es : List (Value × Value)) : Except Fault Value :=
  if key.isKey then
    match Dict.lookupEntry key es with
    | some v => .ok v
    | none => .error .missingKey
  else .error .notKey

/-- The place in a list of length `size` that a value points to as a position; a truth value counts
as one or zero. -/
def place (size : Nat) (position : Value) : Except Fault Nat :=
  let found (n : Int) : Except Fault Nat :=
    match Position.index? size n with
    | some i => .ok i
    | none => .error .outOfRange
  match position with
  | int n => found n
  | bool b => found (if b then 1 else 0)
  | _ => .error .notPosition

/-- Plain data with the place at `path` (keys and list positions) written; a new key goes last. A text
can be read on the way but not written. -/
def update : (path : List Value) → (new data : Value) → Except Fault Value
  | [], new, _ => .ok new
  | [k], new, dict es =>
    if k.isKey then .ok (dict (Dict.setEntry k new es)) else .error .notKey
  | k :: path, new, dict es => do
    return dict (Dict.setEntry k (← update path new (← underKey k es)) es)
  | k :: path, new, list xs => do
    let i ← place xs.length k
    return list (xs.set i (← update path new (xs.getD i null)))
  | k :: l :: path, new, str s => do
    let i ← place s.length k
    update (l :: path) new (str (s.drop i |>.take 1))
  | _ :: _, _, _ => .error .notMapping

/-- Plain data with the key or position at `path` removed. -/
def erase : (path : List Value) → (data : Value) → Except Fault Value
  | [], data => .ok data
  | [k], dict es => do
    let _ ← underKey k es
    return dict (es.filter fun e => !(e.1 == k))
  | [k], list xs => do
    let i ← place xs.length k
    return list (xs.eraseIdx i)
  | k :: path, dict es => do
    return dict (Dict.setEntry k (← erase path (← underKey k es)) es)
  | k :: path, list xs => do
    let i ← place xs.length k
    return list (xs.set i (← erase path (xs.getD i null)))
  | k :: l :: path, str s => do
    let i ← place s.length k
    erase (l :: path) (str (s.drop i |>.take 1))
  | _ :: _, _ => .error .notMapping

end Value

/-! ### Order -/

/-- The order of texts: at the first difference the smaller code point comes first, and a text comes
before those that it begins. -/
def Text.le : Text → Text → Bool
  | [], _ => true
  | _ :: _, [] => false
  | c :: s, d :: t => if c = d then Text.le s t else c.toNat < d.toNat

namespace Value

/-- The number that a value stands for. -/
def number? : Value → Option Decimal.Scaled
  | float s => some (Decimal.scaled s)
  | v => v.integer?.map .ofInt

/-- Whether two values are in order: both texts, or both numbers. -/
def le? : Value → Value → Option Bool
  | str s, str t => some (s.le t)
  | v, w => do return (← v.number?).le (← w.number?)

/-- Values in ascending order. A single value needs no order. -/
def sorted (vs : List Value) : Except Fault (List Value) :=
  if vs.tail.isEmpty || vs.all fun v => (le? v (vs.headD null)).isSome then
    .ok (vs.mergeSort fun v w => (le? v w).getD true)
  else .error .notOrdered

end Value

end ProseMarkup
