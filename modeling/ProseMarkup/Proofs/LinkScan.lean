import ProseMarkup.Content.OfText
import ProseMarkup.Proofs.Symbols

/-!
# The links of a text

A text is taken apart into raw texts and links so that nothing of it is lost: written back, the
fragments are the text.

* `Content.eq_of_linkAt?` : a link that is found, written out.
* `Content.areFragments_fragmentsOf` : the fragments of a text are raw texts and links.
* `Content.sources_fragmentsOf` : **the source of the fragments of a text is the text**.
-/

namespace ProseMarkup.Content

/-- What begins with a link is that link and what follows it. -/
theorem eq_of_linkAt? {s url content rest : Text} (h : linkAt? s = some ((url, content), rest)) :
    s = '[' :: url ++ "](".toList ++ content ++ ')' :: rest := by
  rw [linkAt?.eq_def] at h
  split at h
  · next s =>
    split at h
    · next t ht =>
      split at h
      · next rest' hrest =>
        cases h
        have hs := List.takeWhile_append_dropWhile (p := fun c => decide (c ≠ ']')) (l := s)
        have ht' := List.takeWhile_append_dropWhile (p := fun c => decide (c ≠ ')')) (l := t)
        rw [ht] at hs
        rw [hrest] at ht'
        calc '[' :: s
            = '[' :: (s.takeWhile _ ++ ']' :: '(' :: t) := by rw [hs]
          _ = '[' :: (s.takeWhile _ ++ ']' :: '(' :: (t.takeWhile _ ++ ')' :: rest)) := by rw [ht']
          _ = _ := by
            rw [show "](".toList = [']', '('] from rfl]
            simp only [List.append_assoc, List.cons_append, List.nil_append]
      · cases h
    · cases h
  · cases h

/-! ### The kind of the fragments -/

section Kind

variable {p : Content → Bool} (htext : ∀ s, p (text s) = true)

include htext

theorem all_ofText (s : Text) : (ofText s).all p = true := by
  rw [ofText]
  split
  · rfl
  · rw [List.all_cons, htext]
    rfl

theorem all_consChar (c : Char) {cs : List Content} (h : cs.all p = true) :
    (consChar c cs).all p = true := by
  rw [consChar.eq_def]
  split
  · rw [List.all_cons, Bool.and_eq_true] at h
    rw [List.all_cons, htext, h.2]
    rfl
  · rw [List.all_cons, htext, h]
    rfl

/-- What holds of texts, and of links with a text as url and one text or none as contents, holds of all
fragments of a text. -/
theorem all_fragmentsOf (hlink : ∀ url content, p (link (.str url) (ofText content)) = true)
    (links : Bool) (s : Text) : (fragmentsOf links s).all p = true := by
  have hscan : (scanLinks s).all p = true := by
    fun_induction scanLinks s with
    | case1 => rfl
    | case2 c s url content rest h hlt ih =>
      rw [List.all_cons, hlink, ih]
      rfl
    | case3 c s h ih => exact all_consChar htext c ih
  rw [fragmentsOf]
  split
  · exact hscan
  · exact all_ofText htext s

end Kind

/-- The fragments of a text are raw texts and links. -/
@[simp] theorem areFragments_fragmentsOf (links : Bool) (s : Text) :
    areFragments (fragmentsOf links s) = true := by
  rw [areFragments_eq_all]
  refine all_fragmentsOf (fun _ => rfl) (fun url content => ?_) links s
  simpa [areFragments_eq_all] using all_ofText (fun _ => rfl) content

/-! ### The source of the fragments -/

@[simp] theorem sources_consChar (rules : RuleIndex) (c : Char) (cs : List Content) :
    sources rules (consChar c cs) = c :: sources rules cs := by
  rw [consChar.eq_def]
  split <;> rfl

@[simp] theorem sources_scanLinks (rules : RuleIndex) (s : Text) : sources rules (scanLinks s) = s := by
  fun_induction scanLinks s with
  | case1 => rfl
  | case2 c s url content rest h hlt ih =>
    rw [eq_of_linkAt? h, sources, source, sources_ofText, ih, urlText]
    simp only [List.append_assoc, List.cons_append, List.nil_append]
  | case3 c s h ih => simp [ih]

/-- **Written back, the fragments of a text are the text.** -/
@[simp] theorem sources_fragmentsOf (rules : RuleIndex) (links : Bool) (s : Text) :
    sources rules (fragmentsOf links s) = s := by
  rw [fragmentsOf]
  split
  · exact sources_scanLinks rules s
  · exact sources_ofText rules s

end ProseMarkup.Content
