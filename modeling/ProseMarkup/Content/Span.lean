import ProseMarkup.Content.Basic
import ProseMarkup.Style.RuleIndex

/-!
# Spans in fragments, and their resolution

Before resolution content is a list of *fragments*: raw texts and links. A span begins with an opening
delimiter in a text and ends with its closing delimiter in the same or a later text; links are never
searched. Resolution finds the spans in fragments, and the spans in what those enclose, down to a limit
of nesting. It is defined here by recursion on the content tree, for texts and links; foreign items
stay as they are. `ProseMarkup.Content.Assembly` builds the same content from a list of pending jobs,
and opens the links among the foreign items too.

* `Span.closingPlace?` : the first admissible place of a closing delimiter.
* `Span.Found` : the place of a span.
* `Span.find?` : the first span that begins in the text at the head of fragments and can be closed.
* `Span.slice` : the fragments between two places.
* `Span.Found.contents`, `Span.Found.rest` : what a span encloses, and what follows it.
* `Resolution`, `Resolution.resolve` : content, with whether the limit cut it; the resolution of
  fragments.
* `Content.source`, `Content.sources` : content as the text it was resolved from: raw text as itself, a
  span between its delimiters, a link in its markup.

Main statements: what a span encloses and what follows it are both smaller than the fragments it was
found in (`weights_contents_lt`, `weights_rest_lt`); the source of two runs of items, one after the
other, is the source of the first followed by that of the second (`sources_append`).
-/

namespace ProseMarkup

namespace Span

open Content (weight weights)

/-! ### Closing delimiters -/

/-- The first place of a closing delimiter in later fragments: the number of fragments skipped, and the
position in the text. -/
def findLater? (closer : Text) : List Content → Option (Nat × Nat)
  | [] => none
  | .text s :: rest =>
    match Text.find? closer s with
    | some j => some (0, j)
    | none => (findLater? closer rest).map fun p => (p.1 + 1, p.2)
  | _ :: rest => (findLater? closer rest).map fun p => (p.1 + 1, p.2)

/-- The first place of a closing delimiter in a text at or after `start`. One at `start` itself does
not count, and the search goes on past it. -/
def findInText? (closer s : Text) (start : Nat) : Option Nat :=
  match Text.findFrom? closer s start with
  | some j => if j = start then Text.findFrom? closer s (start + closer.length) else some j
  | none => none

/-- The first admissible place of a closing delimiter, in the text `s` after `start` or in the
fragments that follow: the number of fragments skipped, and the position in the text. -/
def closingPlace? (closer s : Text) (later : List Content) (start : Nat) : Option (Nat × Nat) :=
  match findInText? closer s start with
  | some j => some (0, j)
  | none => (findLater? closer later).map fun p => (p.1 + 1, p.2)

theorem findInText?_bounds {closer s : Text} {start j : Nat}
    (h : findInText? closer s start = some j) : start ≤ j ∧ j + closer.length ≤ s.length := by
  rw [findInText?] at h
  split at h
  · next k hk =>
    split at h
    · have := Text.findFrom?_bounds h
      exact ⟨by omega, this.2⟩
    · cases h
      exact Text.findFrom?_bounds hk
  · simp at h

/-! ### Openings -/

/-- The place of a span in a list of fragments, the first of which is the text it begins in. -/
structure Found where
  /-- The opening delimiter. -/
  opening : Text
  /-- The closing delimiter. -/
  closer : Text
  /-- Where the opening delimiter begins. -/
  start : Nat
  /-- How many fragments after the first one the closing delimiter stands; zero if in the same text. -/
  closingFragment : Nat
  /-- Where the closing delimiter begins in its text. -/
  closingStart : Nat
deriving DecidableEq, Repr

/-- Where the content of a span begins. -/
def Found.contentStart (f : Found) : Nat :=
  f.start + f.opening.length

/-- The span that one opening delimiter at `start` begins, if it can be closed. -/
def tryOpening? (rules : RuleIndex) (s : Text) (later : List Content) (start : Nat)
    (opening : Text) : Option Found :=
  let closer := rules.closing opening
  (closingPlace? closer s later (start + opening.length)).map fun p =>
    ⟨opening, closer, start, p.1, p.2⟩

/-- What a single look for a span answers. -/
inductive Look where
  /-- A span that can be closed. -/
  | found (span : Found)
  /-- Openings that cannot be closed; look again from this position. -/
  | again (start : Nat)
  /-- No opening. -/
  | nothing

/-- Looks for the leftmost place at or after `start` where openings begin, and tries them, longest
first. -/
def look (rules : RuleIndex) (s : Text) (later : List Content) (start : Nat) : Look :=
  match rules.openings.leftmostFrom? s start with
  | none => .nothing
  | some m =>
    match m.patterns.findSome? (tryOpening? rules s later m.index) with
    | some span => .found span
    | none => .again (m.index + 1)

/-- A further look begins further on, and not past the end of the text. -/
theorem look_again_bounds {rules : RuleIndex} {s : Text} {later : List Content} {start next : Nat}
    (h : look rules s later start = .again next) : start < next ∧ next ≤ s.length := by
  rw [look] at h
  split at h
  · simp at h
  · next m hm =>
    have := PrefixTree.leftmostFrom?_bounds hm
    split at h
    · simp at h
    · simp only [Look.again.injEq] at h
      omega

/-- The first span that begins in `s` at or after `start` and can be closed in `s` or in the later
fragments. -/
def findFrom? (rules : RuleIndex) (s : Text) (later : List Content) (start : Nat) : Option Found :=
  match h : look rules s later start with
  | .found span => some span
  | .nothing => none
  | .again next =>
    have := look_again_bounds h
    findFrom? rules s later next
termination_by s.length - start
decreasing_by omega

/-- The first span that begins in `s` and can be closed in `s` or in the later fragments. -/
def find? (rules : RuleIndex) (s : Text) (later : List Content) : Option Found :=
  findFrom? rules s later 0

/-! ### Slices -/

/-- A text without its first `n` characters; other items are left as they are. -/
def dropChars (n : Nat) : Content → Content
  | .text s => .text (s.drop n)
  | c => c

/-- The first `n` characters of a text; other items are left as they are. -/
def takeChars (n : Nat) : Content → Content
  | .text s => .text (s.take n)
  | c => c

/-- Items without the empty texts. -/
def dropEmpty (cs : List Content) : List Content :=
  cs.filter fun c => !c.isEmptyText

/-- The fragments from position `i` of fragment `f` to position `j` of fragment `g`, without empty
texts. -/
def slice (fragments : List Content) (f i g j : Nat) : List Content :=
  dropEmpty <|
    if f = g then (fragments[f]?.map fun c => dropChars i (takeChars j c)).toList
    else (fragments[f]?.map (dropChars i)).toList
      ++ (fragments.drop (f + 1)).take (g - (f + 1))
      ++ (fragments[g]?.map (takeChars j)).toList

/-- The fragments from position `i` of fragment `f` on, without empty texts. -/
def sliceFrom (fragments : List Content) (f i : Nat) : List Content :=
  dropEmpty ((fragments[f]?.map (dropChars i)).toList ++ fragments.drop (f + 1))

/-- What a span encloses. -/
def Found.contents (span : Found) (fragments : List Content) : List Content :=
  slice fragments 0 span.contentStart span.closingFragment span.closingStart

/-- What follows a span. -/
def Found.rest (span : Found) (fragments : List Content) : List Content :=
  sliceFrom fragments span.closingFragment (span.closingStart + span.closer.length)

/-! ### Slices are smaller -/

/-- A span found opens with at least one character, all inside its text, and closes after that. -/
theorem find?_bounds {rules : RuleIndex} {s : Text} {later : List Content} {span : Found}
    (h : find? rules s later = some span) :
    0 < span.opening.length ∧ span.contentStart ≤ s.length ∧
      (span.closingFragment = 0 → span.contentStart ≤ span.closingStart) := by
  have key : ∀ start : Nat, findFrom? rules s later start = some span →
      0 < span.opening.length ∧ span.contentStart ≤ s.length ∧
        (span.closingFragment = 0 → span.contentStart ≤ span.closingStart) := by
    intro start
    fun_induction findFrom? rules s later start with
    | case1 start span' hl =>
      intro hs
      cases hs
      rw [look] at hl
      split at hl
      · simp at hl
      · next m hm =>
        split at hl
        · next found hf =>
          cases hl
          obtain ⟨p, hp, ht⟩ := List.exists_of_findSome?_eq_some hf
          have hb := PrefixTree.leftmostFrom?_patterns hm hp
          rw [tryOpening?] at ht
          simp only [Option.map_eq_some_iff] at ht
          obtain ⟨q, hq, rfl⟩ := ht
          refine ⟨List.length_pos_iff.2 hb.1, hb.2, ?_⟩
          intro hz
          rw [closingPlace?] at hq
          split at hq
          · next j hj =>
            cases hq
            exact (findInText?_bounds hj).1
          · simp only [Option.map_eq_some_iff] at hq
            obtain ⟨r, -, rfl⟩ := hq
            simp at hz
        · simp at hl
    | case2 start hl => intro hs; simp at hs
    | case3 start next hl hb ih => exact ih
  exact key 0 h

theorem weight_dropChars_le (n : Nat) (c : Content) : (dropChars n c).weight ≤ c.weight := by
  cases c <;> simp [dropChars]

theorem weight_takeChars_le (n : Nat) (c : Content) : (takeChars n c).weight ≤ c.weight := by
  cases c with
  | text s => simp only [takeChars, weight, List.length_take]; omega
  | _ => simp [takeChars]

theorem weights_getElem?_toList_le (cs : List Content) (n : Nat) (t : Content → Content)
    (h : ∀ c, (t c).weight ≤ c.weight) :
    weights ((cs[n]?.map t).toList) + weights (cs.drop (n + 1)) ≤ weights (cs.drop n) := by
  cases hn : cs[n]? with
  | none =>
    rw [List.getElem?_eq_none_iff] at hn
    simp [List.drop_eq_nil_of_le hn, List.drop_eq_nil_of_le (Nat.le_succ_of_le hn)]
  | some c =>
    obtain ⟨hlt, hc⟩ := List.getElem?_eq_some_iff.1 hn
    rw [List.drop_eq_getElem_cons hlt, hc]
    simp only [Option.map_some, Option.toList_some, weights]
    have := h c
    omega

theorem weights_drop_le (cs : List Content) (n : Nat) : weights (cs.drop n) ≤ weights cs := by
  have := Content.weights_take_add_drop n cs
  omega

theorem weights_contents_lt {rules : RuleIndex} {s : Text} {later : List Content} {span : Found}
    (h : find? rules s later = some span) :
    weights (span.contents (.text s :: later)) < weights (.text s :: later) := by
  obtain ⟨hpos, hin, hafter⟩ := find?_bounds h
  have hcs : 0 < span.contentStart := by unfold Found.contentStart; omega
  rw [Found.contents, slice]
  refine Nat.lt_of_le_of_lt (Content.weights_filter_le _ _) ?_
  split
  · simp only [List.getElem?_cons_zero, Option.map_some, Option.toList_some, takeChars, dropChars,
      weights, weight, List.length_drop, List.length_take]
    omega
  · next hne =>
    obtain ⟨k, hk⟩ : ∃ k, span.closingFragment = k + 1 :=
      ⟨span.closingFragment - 1, by omega⟩
    rw [hk]
    have hsub : k + 1 - (0 + 1) = k := by omega
    rw [hsub]
    simp only [List.getElem?_cons_zero, Option.map_some, Option.toList_some, dropChars,
      List.drop_succ_cons, List.drop_zero, List.getElem?_cons_succ, Content.weights_append, weights,
      weight, List.length_drop]
    have h₁ := weights_getElem?_toList_le later k (takeChars span.closingStart)
      (weight_takeChars_le _)
    have h₂ := Content.weights_take_add_drop k later
    omega

theorem weights_rest_lt {rules : RuleIndex} {s : Text} {later : List Content} {span : Found}
    (h : find? rules s later = some span) :
    weights (span.rest (.text s :: later)) < weights (.text s :: later) := by
  obtain ⟨hpos, hin, hafter⟩ := find?_bounds h
  have hcs : 0 < span.contentStart := by unfold Found.contentStart; omega
  rw [Found.rest, sliceFrom]
  refine Nat.lt_of_le_of_lt (Content.weights_filter_le _ _) ?_
  rw [Content.weights_append]
  cases hk : span.closingFragment with
  | zero =>
    have := hafter hk
    simp only [List.getElem?_cons_zero, Option.map_some, Option.toList_some, dropChars, weights,
      weight, List.length_drop, List.drop_succ_cons, List.drop_zero]
    omega
  | succ k =>
    have h₁ := weights_getElem?_toList_le later k
      (dropChars (span.closingStart + span.closer.length)) (weight_dropChars_le _)
    have h₂ := weights_drop_le later k
    simp only [List.getElem?_cons_succ, List.drop_succ_cons, weights, weight] at h₁ ⊢
    omega

end Span

/-! ### Resolution of fragments -/

/-- Content, and whether some of it lies at the limit of nesting and has been kept as it was. -/
structure Resolution where
  contents : List Content
  cut : Bool

namespace Resolution

open Content (weights weight)

/-- Raw text before a span; none if it is empty. -/
def before (span : Span.Found) (s : Text) : List Content :=
  Content.ofText (s.take span.start)

/-- The resolution of fragments at a level of nesting. At the limit they are kept as they are. Above
it a link is resolved inside, a text in which no span can be closed is kept, and otherwise the first
span is taken out, and what it encloses and what follows it are resolved. -/
def resolve (rules : RuleIndex) (limit : Int) (depth : Nat) (fragments : List Content) :
    Resolution :=
  if limit ≤ depth then ⟨fragments, true⟩
  else match fragments with
    | [] => ⟨[], false⟩
    | .text s :: later =>
      match h : Span.find? rules s later with
      | none =>
        let rest := resolve rules limit depth later
        ⟨.text s :: rest.contents, rest.cut⟩
      | some span =>
        have := Span.weights_contents_lt h
        have := Span.weights_rest_lt h
        let inner := resolve rules limit (depth + 1) (span.contents (.text s :: later))
        let rest := resolve rules limit depth (span.rest (.text s :: later))
        ⟨before span s ++ .span span.opening inner.contents :: rest.contents, inner.cut || rest.cut⟩
    | .link url contents :: later =>
      let inner := resolve rules limit (depth + 1) contents
      let rest := resolve rules limit depth later
      ⟨.link url inner.contents :: rest.contents, inner.cut || rest.cut⟩
    | c :: later =>
      let rest := resolve rules limit depth later
      ⟨c :: rest.contents, rest.cut⟩
termination_by weights fragments
decreasing_by
  all_goals simp only [weights, weight] at *
  all_goals try omega
  have := Content.weight_pos c
  omega

end Resolution

/-! ### Content as source text -/

namespace Content

/-- The text of a url; a url that is no text has none. -/
def urlText : Value → Text
  | .str s => s
  | _ => []

mutual

/-- An item as source text. -/
@[simp] def source (rules : RuleIndex) : Content → Text
  | text s => s
  | span opening contents => opening ++ sources rules contents ++ rules.closing opening
  | link url contents =>
    '[' :: urlText url ++ "](".toList ++ sources rules contents ++ [')']
  | foreign _ => []
termination_by structural c => c

/-- Items as source text. -/
@[simp] def sources (rules : RuleIndex) : List Content → Text
  | [] => []
  | c :: cs => source rules c ++ sources rules cs
termination_by structural cs => cs

end

@[simp] theorem sources_append (rules : RuleIndex) (cs ds : List Content) :
    sources rules (cs ++ ds) = sources rules cs ++ sources rules ds := by
  induction cs with
  | nil => rfl
  | cons c cs ih => simp [ih]

@[simp] theorem sources_ofText (rules : RuleIndex) (s : Text) : sources rules (ofText s) = s := by
  cases s <;> simp [ofText]

end Content

end ProseMarkup
