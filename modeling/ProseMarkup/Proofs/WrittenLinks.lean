import Mathlib.Data.List.Forall2
import ProseMarkup.Proofs.LinkScan
import ProseMarkup.Proofs.Resolution

/-!
# Links as they are written

Resolution may put a link into a span, but it neither makes links nor loses one, nor does it change their
order; the content of each is what is written between its parentheses.

* `Content.writtenLinks` : the links of a text, as they are written.
* `Content.allLinks` : the links in content, at any depth.
* `Resolution.contents_eq_nil_iff` : only what is empty is resolved to nothing.
* `Resolution.sameLinks_resolve` : **resolution keeps the links**, one for one.
* `Content.allLinks_fragmentsOf` : the links in the fragments of a text are those that are written.
-/

namespace ProseMarkup

namespace Content

/-! ### Links in a text -/

/-- The url and the content of each link of a text, as they are written, in order. -/
def writtenLinks : Text → List (Text × Text)
  | [] => []
  | c :: s =>
    match h : linkAt? (c :: s) with
    | some (written, rest) =>
      have := length_lt_of_linkAt? h
      written :: writtenLinks rest
    | none => writtenLinks s
termination_by s => s.length
decreasing_by
  · exact this
  · exact Nat.lt_succ_self _

theorem writtenLinks_of_some {s rest : Text} {written : Text × Text}
    (h : linkAt? s = some (written, rest)) : writtenLinks s = written :: writtenLinks rest := by
  cases s with
  | nil => cases h
  | cons c s =>
    rw [writtenLinks]
    split
    · next hfound =>
      rw [h] at hfound
      cases hfound
      rfl
    · next hnone =>
      rw [h] at hnone
      cases hnone

theorem writtenLinks_of_none {c : Char} {s : Text} (h : linkAt? (c :: s) = none) :
    writtenLinks (c :: s) = writtenLinks s := by
  rw [writtenLinks]
  split
  · next hfound =>
    rw [h] at hfound
    cases hfound
  · rfl

/-! ### Links in content -/

mutual

/-- The url and the contents of each link in an item, at any depth, in order. -/
@[simp] def links : Content → List (Value × List Content)
  | text _ => []
  | span _ contents => allLinks contents
  | link url contents => (url, contents) :: allLinks contents
  | foreign _ => []
termination_by structural c => c

/-- The url and the contents of each link in items, at any depth, in order. -/
@[simp] def allLinks : List Content → List (Value × List Content)
  | [] => []
  | c :: cs => links c ++ allLinks cs
termination_by structural cs => cs

end

@[simp] theorem allLinks_append (cs ds : List Content) :
    allLinks (cs ++ ds) = allLinks cs ++ allLinks ds := by
  induction cs with
  | nil => rfl
  | cons c cs ih => simp [ih]

theorem allLinks_eq_flatMap (cs : List Content) :
    allLinks cs = (symbols cs).flatMap (Sum.elim (fun _ => []) links) := by
  rw [← flatMap_symbols links (fun _ => []) (fun s => by simp)]
  induction cs with
  | nil => rfl
  | cons c cs ih => simp [ih]

@[simp] theorem allLinks_ofText (s : Text) : allLinks (ofText s) = [] := by
  rw [ofText]
  split <;> rfl

@[simp] theorem allLinks_consChar (c : Char) (cs : List Content) :
    allLinks (consChar c cs) = allLinks cs := by
  rw [consChar.eq_def]
  split <;> rfl

/-- The links in the fragments of a text are those that are written, if links are wanted. -/
@[simp] theorem allLinks_fragmentsOf (links : Bool) (s : Text) :
    allLinks (fragmentsOf links s) =
      (if links then writtenLinks s else []).map fun l => (.str l.1, ofText l.2) := by
  cases links with
  | false => exact allLinks_ofText s
  | true =>
    show allLinks (scanLinks s) = (writtenLinks s).map fun l => (.str l.1, ofText l.2)
    fun_induction scanLinks s with
    | case1 =>
      rw [writtenLinks]
      rfl
    | case2 c s url content rest h hlt ih => simp [ih, writtenLinks_of_some h]
    | case3 c s h ih => simp [ih, writtenLinks_of_none h]

end Content

/-- The links among fragments are on both sides of the cut at a span. -/
theorem Span.allLinks_cut {rules : RuleIndex} {s : Text} {later : List Content} {span : Found}
    (h : find? rules s later = some span) :
    Content.allLinks (.text s :: later) =
      Content.allLinks (span.contents (.text s :: later)) ++
        Content.allLinks (span.rest (.text s :: later)) := by
  have htext : ∀ t : Text, (t.map Sum.inl).flatMap
      (Sum.elim (fun _ => ([] : List (Value × List Content))) Content.links) = [] := by
    intro t
    simp [List.flatMap_map]
  simp only [Content.allLinks_eq_flatMap, symbols_cut h, List.flatMap_append, htext, List.nil_append,
    List.append_nil]

/-! ### Resolution -/

namespace Resolution

open Content (allLinks links sources)

variable (rules : RuleIndex) (limit : Int)

/-- Only what is empty is resolved to nothing. -/
theorem contents_eq_nil_iff (depth : Nat) (fragments : List Content) :
    (resolve rules limit depth fragments).contents = [] ↔ fragments = [] := by
  fun_cases resolve rules limit depth fragments with
  | case1 => exact Iff.rfl
  | case2 => exact Iff.rfl
  | case3 => simp
  | case4 => simp
  | case5 => simp
  | case6 => simp

/-- A link as it is in a resolution, and as it was: its url, the source of its contents, and whether there
are any. -/
def SameLink (l l' : Value × List Content) : Prop :=
  l.1 = l'.1 ∧ sources rules l.2 = sources rules l'.2 ∧ (l.2 = [] ↔ l'.2 = [])

/-- **Resolution keeps the links**, one for one. -/
theorem sameLinks_resolve (depth : Nat) (fragments : List Content) :
    List.Forall₂ (SameLink rules) (allLinks (resolve rules limit depth fragments).contents)
      (allLinks fragments) := by
  have hrefl : ∀ ls : List (Value × List Content), List.Forall₂ (SameLink rules) ls ls :=
    fun ls => List.forall₂_same.2 fun l _ => ⟨rfl, rfl, Iff.rfl⟩
  fun_induction resolve rules limit depth fragments with
  | case1 depth fragments hcut => exact hrefl _
  | case2 depth hdepth => exact .nil
  | case3 depth hdepth s later hnone rest ih => exact ih
  | case4 depth hdepth s later span hspan _ _ inner rest ihInner ihRest =>
    have hbefore : allLinks (before span s) = [] := Content.allLinks_ofText _
    rw [Span.allLinks_cut hspan, Content.allLinks_append, hbefore, List.nil_append, allLinks, links]
    exact List.rel_append ihInner ihRest
  | case5 depth hdepth url contents later inner rest ihInner ihRest =>
    have hlink : SameLink rules (url, inner.contents) (url, contents) :=
      ⟨rfl, sources_resolve rules limit (depth + 1) contents,
        contents_eq_nil_iff rules limit (depth + 1) contents⟩
    simpa using List.rel_append (.cons hlink ihInner) ihRest
  | case6 depth hdepth c later _ _ rest ih => simpa using List.rel_append (hrefl _) ih

end Resolution

end ProseMarkup
