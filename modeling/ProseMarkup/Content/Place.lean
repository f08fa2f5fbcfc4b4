import ProseMarkup.Content.Fragments
import ProseMarkup.Content.Span
import ProseMarkup.PrefixTree.Values

/-!
# Places in fragments

The search for spans and closing delimiters from any position of fragments given as any value. What is
not looked at may be of any kind; a fault arises only where the search meets it.

* `Span.closingPlaceAt` : the first admissible place of a closing delimiter.
* `Span.findAt` : the first span that begins in a fragment and can be closed.
* `Span.sliceAt` : the fragments between two places.
* `Span.keyedFault?` : the fault that the search for spans meets in a dictionary.

Main statements: in a row of fragments, at places counted from the beginning, these are the operations
on the list of its items (`closingPlaceAt_row`, `findAt_row`, `sliceAt_row`).
-/

namespace ProseMarkup.Span

/-! ### Closing delimiters -/

/-- The first place of a closing delimiter in a text at or after `start`. A negative `start` counts
from the end of the text, and no place found is equal to it. But minus one also stands for no place:
where it is the start and there is no place, the search goes on past a closing delimiter that would
begin at minus one. -/
def findInTextFrom? (closer s : Text) (start : Int) : Option Nat :=
  if start < 0 then
    match Text.findFrom? closer s (start + s.length).toNat with
    | some j => some j
    | none => if start = -1 then Text.findFrom? closer s (closer.length - 1) else none
  else findInText? closer s start.toNat

/-- The first admissible place of a closing delimiter for content that begins at `start` of the
fragment at `position`: the position of a fragment, and the place in it. -/
def closingPlaceAt (fragments : Fragments) (position start : Int) (closer : Value) :
    Except Fault (Option (Int × Nat)) := do
  match ← fragments.get position, closer with
  | .text s, .str e =>
    match findInTextFrom? e s start with
    | some j => return some (position, j)
    | none =>
      let (later, missing) := fragments.later position
      match findLater? e later, missing with
      | some p, _ => return some (position + 1 + p.1, p.2)
      | none, some fault => .error fault
      | none, none => return none
  | .text _, _ => .error .notText
  | _, _ => .error .lacksMember

theorem closingPlaceAt_row {items : List Content} {n : Nat} {s : Text}
    (h : items[n]? = some (.text s)) (start : Nat) (closer : Text) :
    closingPlaceAt (.row items) n start (.str closer) =
      .ok ((closingPlace? closer s (items.drop (n + 1)) start).map fun p =>
        ((n : Int) + p.1, p.2)) := by
  have hs : findInTextFrom? closer s start = findInText? closer s start := by
    rw [findInTextFrom?, if_neg (Int.not_lt.2 (Int.natCast_nonneg start)), Int.toNat_natCast]
  rw [closingPlaceAt.eq_def, closingPlace?.eq_def]
  rw [Fragments.get_row_natCast, h]
  simp only [bind, Except.bind, pure, Except.pure, Fragments.later_row_natCast, hs]
  cases findInText? closer s start with
  | some j => simp
  | none =>
    cases findLater? closer (items.drop (n + 1)) with
    | none => rfl
    | some p =>
      simp only [Option.map_some, Except.ok.injEq, Option.some.injEq, Prod.mk.injEq, and_true]
      omega

/-! ### Spans -/

/-- The span that the first opening delimiter of a text begins, if it can be closed; `none` if the text
has no opening delimiter. -/
def firstTried? (rules : RuleIndex) (s : Text) (later : List Content) : Option (Option Found) :=
  (rules.openings.leftmostFrom? s 0).map fun m =>
    m.patterns.head?.bind (tryOpening? rules s later m.index)

/-- A span that has been found, unless its opening delimiter is unusable. -/
def usable (rules : RuleIndex) (span : Found) : Except Fault Found :=
  if rules.isUnusable span.opening then .error .notText else .ok span

/-- The first span that begins in a text and can be closed in it or in later fragments. If one of those
cannot be had, an opening delimiter that is not closed before it runs into the fault. -/
def findInText (rules : RuleIndex) (s : Text) (later : List Content) :
    (missing : Option Fault) → Except Fault (Option Found)
  | none =>
    match find? rules s later with
    | some span => do return some (← usable rules span)
    | none => .ok none
  | some fault =>
    match firstTried? rules s later with
    | some (some span) => do return some (← usable rules span)
    | some none => .error fault
    | none => .ok none

/-- The first span that begins in the fragment at `position` and can be closed, and the position of the
fragment that closes it. In an item that is no text patterns may be met, but no span begins. -/
def findAt (rules : RuleIndex) (fragments : Fragments) (position : Int) :
    Except Fault (Option (Found × Int)) := do
  match ← fragments.get position with
  | .text s =>
    let (later, missing) := fragments.later position
    return (← findInText rules s later missing).map fun span =>
      (span, position + span.closingFragment)
  | item =>
    match ← rules.openings.leftmostIn item.toValue 0 with
    | some _ => .error .notKey
    | none => return none

theorem findAt_row {rules : RuleIndex} {items : List Content} {n : Nat} {s : Text}
    (h : items[n]? = some (.text s)) (hu : rules.unusable = []) :
    findAt rules (.row items) n =
      .ok ((find? rules s (items.drop (n + 1))).map fun span => (span, n + span.closingFragment)) := by
  have hus : ∀ span : Found, usable rules span = .ok span := by
    intro span
    simp [usable, RuleIndex.isUnusable, hu]
  rw [findAt]
  rw [Fragments.get_row_natCast, h]
  simp only [bind, Except.bind, Fragments.later_row_natCast, findInText]
  cases find? rules s (items.drop (n + 1)) with
  | none => rfl
  | some span => simp [hus, pure, Except.pure]

/-- The fault that the search for spans meets at a key of a dictionary. Where a span is found there is
one too: what follows the span cannot be taken out of a dictionary. -/
def keyFault? (rules : RuleIndex) (entries : List (Value × Value)) (i : Nat) : Option Fault :=
  match findAt rules (.keyed entries) i with
  | .error fault => some fault
  | .ok (some _) => some .notKey
  | .ok none => none

/-- The fault that the search for spans meets first in a dictionary; only keys that are texts are
searched. -/
def keyedFault? (rules : RuleIndex) (entries : List (Value × Value)) : Option Fault :=
  entries.zipIdx.findSome? fun e =>
    match e.1.1 with
    | .str _ => keyFault? rules entries e.2
    | _ => none

/-! ### Slices -/

/-- The fragments from place `i` of the fragment at `f` to place `j` of the fragment at `g`, without
empty texts. -/
def sliceAt (fragments : Fragments) (f i g j : Int) : Except Fault (List Content) := do
  if f = g then
    let c ← (← fragments.get f).sliceItem (some i) (some j)
    return dropEmpty [c]
  else
    let head ← (← fragments.get f).sliceItem (some i) none
    let inner ← fragments.between (f + 1) g
    let last ← (← fragments.get g).sliceItem none (some j)
    return dropEmpty (head :: inner ++ [last])

theorem sliceAt_row {items : List Content} {f g : Nat} {s t : Text}
    (hf : items[f]? = some (.text s)) (hg : items[g]? = some (.text t)) (i j : Nat) :
    sliceAt (.row items) f i g j = .ok (slice items f i g j) := by
  have hfg : ((f : Int) = g) = (f = g) := propext Int.ofNat_inj
  rw [sliceAt, slice]
  rw [Fragments.get_row_natCast, Fragments.get_row_natCast, hf, hg]
  have hb : Fragments.between (.row items) ((f : Int) + 1) g =
      .ok ((items.drop (f + 1)).take (g - (f + 1))) :=
    Fragments.between_row_natCast items (f + 1) g
  simp only [hfg, hb]
  split
  · simp [bind, Except.bind, pure, Except.pure, Content.sliceItem, dropChars, takeChars]
  · simp [bind, Except.bind, pure, Except.pure, Content.sliceItem, dropChars, takeChars]

end ProseMarkup.Span
