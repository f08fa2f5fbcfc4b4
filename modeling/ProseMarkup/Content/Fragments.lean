import ProseMarkup.Content.Basic

/-!
# Fragments

Before resolution content is a run of *fragments*. As a rule they are the items of a list. Given as
any other value, a text gives its characters, and a dictionary its keys; but a position in a
dictionary is a key like any other, and what it holds there is not the key at that place.

* `Fragments`, `Fragments.ofValue` : fragments, and the fragments that a value gives.
* `Fragments.get`, `Fragments.later`, `Fragments.between` : the fragment at a position, those after it,
  and those between two positions. Negative positions count from the end.
* `Fragments.literal` : fragments as content, without resolution.
* `Content.sliceItem` : the part of a fragment between two bounds.

Main statements: positions counted from the beginning of a row are those of its list
(`get_row_natCast`, `later_row_natCast`, `between_row_natCast`), and a row of texts and links stays as it is without
resolution (`literal_row_of_all`).
-/

namespace ProseMarkup

/-- Fragments as they are given. -/
inductive Fragments where
  /-- Items in a row. -/
  | row (items : List Content)
  /-- The keys of a dictionary. -/
  | keyed (entries : List (Value × Value))
  /-- What is no list, text or dictionary. -/
  | unlisted

/-! ### Parts of a fragment -/

/-- The part of a fragment between two bounds: of a text its characters, of a list its items. -/
def Content.sliceItem (first last : Option Int) : Content → Except Fault Content
  | .text s => .ok (.text (Position.slice first last s))
  | .foreign (.list items) => .ok (.foreign (.list (Position.slice first last items)))
  | _ => .error .notText

/-- A fragment that is left without resolution. The contents of a link become a list of their own. -/
def Content.literalItem : Content → Except Fault Content
  | .foreign (.link url contents) => do return .foreign (.link url (.list (← contents.elements)))
  | c => .ok c

/-- Whether a fragment is raw text, a span or a link with a list of contents. -/
def Content.isOwn : Content → Bool
  | .foreign _ => false
  | _ => true

namespace Fragments

/-- The fragments that a value gives. -/
def ofValue : Value → Fragments
  | .list items => row (Content.ofValues items)
  | .str s => row (s.map fun c => .text [c])
  | .dict entries => keyed entries
  | _ => unlisted

/-- The fragment at a position. -/
def get : Fragments → (position : Int) → Except Fault Content
  | row items, position =>
    match (Position.index? items.length position).bind (items[·]?) with
    | some c => .ok c
    | none => .error .outOfRange
  | keyed entries, position => do
    return Content.ofValue (← Value.underKey (.int position) entries)
  | unlisted, _ => .error .notIterable

/-- The items before the first fault, and that fault. -/
def untilFault : List (Except Fault Content) → List Content × Option Fault
  | [] => ([], none)
  | .error fault :: _ => ([], some fault)
  | .ok c :: rest => (c :: (untilFault rest).1, (untilFault rest).2)

/-- The fragments at the positions after a given one, up to the last, and the fault at the first of
them that cannot be had. After a negative position come those up to minus one, and then all from the
beginning on. -/
def later : Fragments → (position : Int) → List Content × Option Fault
  | row items, position =>
    if position < 0 then (items.drop (position + items.length + 1).toNat ++ items, none)
    else (items.drop (position.toNat + 1), none)
  | keyed entries, position =>
    untilFault ((List.range (entries.length - (position + 1)).toNat).map fun (i : Nat) =>
      get (keyed entries) (position + 1 + i))
  | unlisted, _ => ([], none)

/-- The fragments from one position on and before another. -/
def between : Fragments → (first last : Int) → Except Fault (List Content)
  | row items, first, last => .ok (Position.slice (some first) (some last) items)
  | keyed _, _, _ => .error .notKey
  | unlisted, _, _ => .error .notIterable

/-- Fragments as content, without resolution. -/
def literal : Fragments → Except Fault (List Content)
  | row items => items.mapM Content.literalItem
  | keyed entries => .ok (entries.map fun e => .foreign e.1)
  | unlisted => .error .notIterable

@[simp] theorem get_row_natCast (items : List Content) (n : Nat) :
    get (row items) n = match items[n]? with
      | some c => .ok c
      | none => .error .outOfRange := by
  have h : (Position.index? items.length n).bind (items[·]?) = items[n]? := by
    rw [Position.index?_natCast]
    by_cases hn : n < items.length
    · rw [if_pos hn, Option.bind_some]
    · rw [if_neg hn, Option.bind_none, List.getElem?_eq_none_iff.2 (Nat.le_of_not_lt hn)]
  simp only [get, h]

@[simp] theorem later_row_natCast (items : List Content) (n : Nat) :
    later (row items) n = (items.drop (n + 1), none) := by
  simp only [later, if_neg (Int.not_lt.2 (Int.natCast_nonneg n)), Int.toNat_natCast]

@[simp] theorem between_row_natCast (items : List Content) (m n : Nat) :
    between (row items) m n = .ok ((items.drop m).take (n - m)) := by
  simp only [between, Position.slice_natCast]
  rw [List.drop_take]

theorem literal_row_of_all {items : List Content} (h : items.all Content.isOwn = true) :
    literal (row items) = .ok items := by
  rw [literal.eq_def]
  induction items with
  | nil => rfl
  | cons c cs ih =>
    simp only [List.all_cons, Bool.and_eq_true] at h
    have hc : Content.literalItem c = .ok c := by
      cases c <;> simp_all [Content.literalItem, Content.isOwn]
    simp only [List.mapM_cons, hc, ih h.2, bind, Except.bind, pure, Except.pure]

end Fragments

end ProseMarkup
