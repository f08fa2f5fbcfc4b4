import ProseMarkup.PrefixTree
import ProseMarkup.Value.Access

/-!
# Prefix trees and values

Values of any kind in the place of texts: the items of a list, and the values of a dictionary, are
walked through like the characters of a text. An item that is a single character is that character,
and any other item is found in no pattern. Items are looked at only as far as the walk gets, and one
that cannot be a key is a fault when it is looked at.

* `Value.symbol` : an item as a character.
* `PrefixTree.ofValues` : the tree of two values as lists of patterns.
* `PrefixTree.holdsValue`, `PrefixTree.coversValue` : membership of a value.
* `PrefixTree.leftmostIn` : the leftmost place in a value where an exact pattern begins.

Main statement: lists of texts make the same tree as the texts (`ofValues_list`).
-/

namespace ProseMarkup

/-- An item as a character; `none` if it is something else that can be looked up. -/
def Value.symbol : Value → Except Fault (Option Char)
  | .str [c] => .ok (some c)
  | item => if item.isKey then .ok none else .error .notKey

namespace PrefixTree

/-! ### Patterns -/

/-- The text that a value spells as a pattern; none if it has an item that is no character, for such a
pattern is found in no text. -/
def spelling (pattern : Value) : Except Fault (Option Text) := do
  return (← (← pattern.elements).mapM Value.symbol).mapM id

/-- The texts that the items of a value spell. -/
def spellings (patterns : Value) : Except Fault (List Text) := do
  return (← (← patterns.elements).mapM spelling).filterMap id

/-- The tree of two values as lists of exact and of wildcard patterns. -/
def ofValues (exact wildcard : Value) : Except Fault PrefixTree := do
  return ofPatterns (← spellings exact) (← spellings wildcard)

theorem mapM_id_some (s : Text) : (s.map some).mapM id = some s := by
  induction s with
  | nil => rfl
  | cons c s ih => rw [List.map_cons, List.mapM_cons, ih]; rfl

@[simp] theorem spelling_str (s : Text) : spelling (.str s) = .ok (some s) := by
  have h : (s.map fun c => Value.str [c]).mapM Value.symbol = Except.ok (s.map some) := by
    induction s with
    | nil => rfl
    | cons c s ih => simp only [List.map_cons, List.mapM_cons, ih]; rfl
  simp only [spelling, Value.elements, bind, Except.bind, pure, Except.pure, h, mapM_id_some]

@[simp] theorem spellings_list (patterns : List Text) :
    spellings (.list (patterns.map .str)) = .ok patterns := by
  have h : (patterns.map Value.str).mapM spelling = Except.ok (patterns.map some) := by
    induction patterns with
    | nil => rfl
    | cons p ps ih => simp only [List.map_cons, List.mapM_cons, spelling_str, ih]; rfl
  simp only [spellings, Value.elements, bind, Except.bind, pure, Except.pure, h]
  simp [List.filterMap_map]

@[simp] theorem ofValues_list (exact wildcard : List Text) :
    ofValues (.list (exact.map .str)) (.list (wildcard.map .str)) =
      .ok (ofPatterns exact wildcard) := by
  simp [ofValues, bind, Except.bind, pure, Except.pure]

/-- The subtree that an item leads to. -/
def descend? (item : Value) : PrefixTree → Except Fault (Option PrefixTree)
  | node _ _ children => do return (← item.symbol).bind fun c => child? c children

/-! ### Membership -/

/-- Whether items are exactly one of the exact patterns. -/
def holdsItems : (items : List Value) → PrefixTree → Except Fault Bool
  | [], t => .ok t.isTerminal
  | item :: items, t => do
    match ← descend? item t with
    | none => return false
    | some u => holdsItems items u

/-- Whether items are one of the exact patterns, or begin with a wildcard pattern. -/
def coversItems : (items : List Value) → PrefixTree → Except Fault Bool
  | [], node terminal accepting _ => .ok (accepting || terminal)
  | item :: items, node terminal accepting children =>
    if accepting then .ok true
    else do
      match ← descend? item (node terminal accepting children) with
      | none => return false
      | some u => coversItems items u

/-- Whether a value is exactly one of the exact patterns. -/
def holdsValue (t : PrefixTree) : Value → Except Fault Bool
  | .str s => .ok (t.holds s)
  | v => do holdsItems (← v.elements) t

/-- Whether a value is one of the exact patterns, or begins with a wildcard pattern. -/
def coversValue (t : PrefixTree) : Value → Except Fault Bool
  | .str s => .ok (t.covers s)
  | v => if t.isAccepting then .ok true else do coversItems (← v.elements) t

/-! ### Search -/

/-- The lengths of the exact patterns that begin items, greatest first. `sliceable` says whether the
items passed can be taken out as a pattern. -/
def lengthsAt (sliceable : Bool) (passed : Nat) :
    (items : List (Except Fault Value)) → PrefixTree → Except Fault (List Nat)
  | [], _ => .ok []
  | item :: items, t => do
    match ← descend? (← item) t with
    | none => return []
    | some u =>
      if u.isTerminal then
        if sliceable then return (← lengthsAt sliceable (passed + 1) items u) ++ [passed + 1]
        else .error .notKey
      else lengthsAt sliceable (passed + 1) items u

/-- The leftmost place where exact patterns begin, and their lengths. -/
def leftmostItem (t : PrefixTree) (sliceable : Bool) :
    (items : List (Except Fault Value)) → Except Fault (Option (Nat × List Nat))
  | [] => .ok none
  | item :: items => do
    match ← lengthsAt sliceable 0 (item :: items) t with
    | [] => return (← leftmostItem t sliceable items).map fun m => (m.1 + 1, m.2)
    | lengths => return some (0, lengths)

/-- The leftmost place at or after `start` where exact patterns begin in a value, and the patterns,
longest first. Patterns found in a list are runs of its items. -/
def leftmostIn (t : PrefixTree) (haystack : Value) (start : Int) :
    Except Fault (Option (Nat × List Value)) :=
  let first := start.toNat
  match haystack with
  | .str s => .ok ((t.leftmostFrom? s start).map fun m => (m.index, m.patterns.map .str))
  | .list items => do
    let found ← t.leftmostItem true ((items.drop first).map .ok)
    return found.map fun m =>
      (m.1 + first, m.2.map fun n => .list ((items.drop (m.1 + first)).take n))
  | .dict es => do
    let items := (List.range es.length).map fun (i : Nat) => Value.underKey (.int i) es
    let found ← t.leftmostItem false (items.drop first)
    return found.map fun m => (m.1 + first, [])
  | _ => .error .notText

end PrefixTree

end ProseMarkup
