import ProseMarkup.Content.Assembly

/-!
# Content of a text

The text of a paragraph becomes content: its links are set apart, if links are wanted, and its spans
are resolved down to a fixed limit of nesting. A link is written `[url](content)`: the url runs up to
the next `]`, which a `(` must follow at once, and the content up to the next `)`. All other text stays
text.

* `Content.linkAt?` : the link that a text begins with.
* `Content.scanLinks` : a text as a list of raw texts and links.
* `Content.nestingLimit` : the limit.
* `Content.fragmentsOf`, `Content.ofMarkup` : the fragments and the content of a text.
* `Content.warnings` : what is reported of content that has met the limit.

Main statement: a link uses up some of the text (`length_lt_of_linkAt?`).
-/

namespace ProseMarkup.Content

/-! ### Links -/

/-- The url and the content of the link that a text begins with, and what follows the link. -/
def linkAt? : Text → Option ((Text × Text) × Text)
  | '[' :: s =>
    match s.dropWhile (· ≠ ']') with
    | ']' :: '(' :: t =>
      match t.dropWhile (· ≠ ')') with
      | ')' :: rest => some ((s.takeWhile (· ≠ ']'), t.takeWhile (· ≠ ')')), rest)
      | _ => none
    | _ => none
  | _ => none

theorem length_lt_of_linkAt? {s rest : Text} {link : Text × Text}
    (h : linkAt? s = some (link, rest)) : rest.length < s.length := by
  rw [linkAt?.eq_def] at h
  split at h
  · next s =>
    split at h
    · next t ht =>
      split at h
      · next rest' hr =>
        simp only [Option.some.injEq, Prod.mk.injEq] at h
        have h₁ := (List.dropWhile_sublist (fun c => decide (c ≠ ']')) (l := s)).length_le
        have h₂ := (List.dropWhile_sublist (fun c => decide (c ≠ ')')) (l := t)).length_le
        rw [ht, List.length_cons, List.length_cons] at h₁
        rw [hr, List.length_cons] at h₂
        rw [← h.2, List.length_cons]
        omega
      · simp at h
    · simp at h
  · simp at h

/-- Content with one more character of text in front. -/
def consChar (c : Char) : List Content → List Content
  | text s :: cs => text (c :: s) :: cs
  | cs => text [c] :: cs

/-- A text as a list of raw texts and links; the content of a link is left as it is written. -/
def scanLinks : Text → List Content
  | [] => []
  | c :: s =>
    match h : linkAt? (c :: s) with
    | some ((url, content), rest) =>
      have := length_lt_of_linkAt? h
      link (.str url) (ofText content) :: scanLinks rest
    | none => consChar c (scanLinks s)
termination_by s => s.length
decreasing_by
  · exact this
  · exact Nat.lt_succ_self _

/-! ### Content of a text -/

/-- The deepest level of nesting. -/
def nestingLimit : Int := 256

/-- The fragments of a text. -/
def fragmentsOf (links : Bool) (s : Text) : List Content :=
  if links then scanLinks s else ofText s

/-- The content of a text; a fault if an unusable delimiter is tried. -/
def ofMarkup (rules : RuleIndex) (links : Bool) (s : Text) : Except Fault Resolution :=
  Assembly.resolve rules nestingLimit (.row (fragmentsOf links s))

/-- The warning that content has met a limit of nesting. -/
def cutWarning (limit : Int) : Text :=
  "warning: nesting deeper than ".toList ++ Decimal.ofInt limit ++
    " levels; content beyond that depth has been kept as literal text".toList

/-- The warnings of a resolution: one if content has met the limit. -/
def warnings (limit : Int) (r : Resolution) : List Text :=
  if r.cut then [cutWarning limit] else []

end ProseMarkup.Content
