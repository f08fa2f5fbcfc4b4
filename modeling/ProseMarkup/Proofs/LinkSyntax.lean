import ProseMarkup.Proofs.NormalForm

/-!
# The syntax of links

A text is read from the left for its first link: an opening bracket whose next closing bracket is followed at once
by an opening parenthesis, with a closing one somewhere after it. What comes before is raw text, and reading begins
anew behind the link. A bracket that begins no link takes nothing with it, so a link may begin inside what looked
like the url of another.

* `Content.linkMarkup`, `Content.BeginsLink` : a link as it is written, and the texts that begin with one.
* `Content.linkAt?_iff` : when a link is found at the beginning of a text.
* `Content.Scanned` : the reading of a text from link to link.
* `Content.scanned_scanLinks`, `Content.Scanned.eq_scanLinks` : **a text has one reading, its fragments**.
* `Content.IsScannedItem` : raw text without links, and links with the url and the content that can be written.
* `Content.scanLinks_exact` : **the fragments of a text are read by the syntax of links**, and what follows from it.
-/

namespace ProseMarkup.Content

/-! ### One link -/

/-- A link as it is written. -/
def linkMarkup (url content : Text) : Text :=
  '[' :: url ++ "](".toList ++ content ++ [')']

/-- The texts that begin with a link. Its url goes up to the next closing bracket, and its content up to the next
closing parenthesis. -/
def BeginsLink (s : Text) : Prop :=
  ∃ url content rest, ']' ∉ url ∧ ')' ∉ content ∧ s = linkMarkup url content ++ rest

/-- No link begins anywhere in a text. -/
def LinkFree (s : Text) : Prop :=
  ∀ t, t <:+ s → ¬ BeginsLink t

theorem linkMarkup_append (url content rest : Text) :
    linkMarkup url content ++ rest = '[' :: (url ++ ']' :: '(' :: (content ++ ')' :: rest)) := by
  simp [linkMarkup]

/-- A link is found at the beginning of a text just if the text begins with it. -/
theorem linkAt?_iff {s url content rest : Text} :
    linkAt? s = some ((url, content), rest) ↔
      ']' ∉ url ∧ ')' ∉ content ∧ s = linkMarkup url content ++ rest := by
  have hall : ∀ {c : Char} {t : Text}, c ∉ t → t.all (fun d => decide (d ≠ c)) = true := by
    intro c t h
    rw [List.all_eq_true]
    exact fun d hd => decide_eq_true fun heq => h (heq ▸ hd)
  have hnot : ∀ {c : Char} {t : Text}, c ∉ t.takeWhile fun d => decide (d ≠ c) := by
    intro c t hmem
    have hne := List.mem_takeWhile_imp hmem
    exact of_decide_eq_true hne rfl
  constructor
  · intro h
    have hform := eq_of_linkAt? h
    rw [linkAt?.eq_def] at h
    split at h
    · split at h
      · split at h
        · cases h
          refine ⟨hnot, hnot, hform.trans ?_⟩
          simp [linkMarkup]
        · cases h
      · cases h
    · cases h
  · rintro ⟨hurl, hcontent, rfl⟩
    rw [linkMarkup_append, linkAt?,
      Text.dropWhile_run (hall hurl) (Text.stops_cons (by decide) _),
      Text.takeWhile_run (hall hurl) (Text.stops_cons (by decide) _)]
    split
    · next t heq =>
      cases heq
      rw [Text.dropWhile_run (hall hcontent) (Text.stops_cons (by decide) _),
        Text.takeWhile_run (hall hcontent) (Text.stops_cons (by decide) _)]
      rfl
    · next hno => exact absurd rfl (hno _)

theorem linkAt?_eq_none_iff {s : Text} : linkAt? s = none ↔ ¬ BeginsLink s := by
  rw [Option.eq_none_iff_forall_ne_some]
  constructor
  · rintro h ⟨url, content, rest, hlink⟩
    exact h ((url, content), rest) (linkAt?_iff.2 hlink)
  · rintro h ⟨⟨url, content⟩, rest⟩ hfound
    exact h ⟨url, content, rest, linkAt?_iff.1 hfound⟩

/-- More text after it makes no difference to a link. -/
theorem BeginsLink.append {s : Text} (h : BeginsLink s) (t : Text) : BeginsLink (s ++ t) := by
  obtain ⟨url, content, rest, hurl, hcontent, rfl⟩ := h
  exact ⟨url, content, rest ++ t, hurl, hcontent, List.append_assoc _ _ _⟩

/-! ### From link to link -/

/-- The reading of a text: either there is no link in it, or it is read up to the first one, and then what follows
that link is. -/
inductive Scanned : Text → List Content → Prop
  | rest {s : Text} (h : LinkFree s) : Scanned s (ofText s)
  | link {before url content rest : Text} {fragments : List Content}
      (hfirst : ∀ t, t <:+ before → t ≠ [] → ¬ BeginsLink (t ++ (linkMarkup url content ++ rest)))
      (hurl : ']' ∉ url) (hcontent : ')' ∉ content) (hrest : Scanned rest fragments) :
      Scanned (before ++ (linkMarkup url content ++ rest))
        (ofText before ++ link (.str url) (ofText content) :: fragments)

theorem scanLinks_of_some {s url content rest : Text} (h : linkAt? s = some ((url, content), rest)) :
    scanLinks s = link (.str url) (ofText content) :: scanLinks rest := by
  cases s with
  | nil => cases h
  | cons c s =>
    rw [scanLinks]
    split
    · next hfound =>
      rw [h] at hfound
      cases hfound
      rfl
    · next hnone =>
      rw [h] at hnone
      cases hnone

theorem scanLinks_of_none {c : Char} {s : Text} (h : linkAt? (c :: s) = none) :
    scanLinks (c :: s) = consChar c (scanLinks s) := by
  rw [scanLinks]
  split
  · next hfound =>
    rw [h] at hfound
    cases hfound
  · rfl

/-- Up to the first link, a text is read character by character. -/
theorem scanLinks_append {before after : Text}
    (h : ∀ t, t <:+ before → t ≠ [] → ¬ BeginsLink (t ++ after)) :
    scanLinks (before ++ after) = before.foldr consChar (scanLinks after) := by
  induction before with
  | nil => rfl
  | cons c before ih =>
    have hhere := linkAt?_eq_none_iff.2 (h (c :: before) List.suffix_rfl (List.cons_ne_nil c before))
    rw [List.cons_append] at hhere ⊢
    rw [scanLinks_of_none hhere, List.foldr_cons,
      ih fun t ht => h t (ht.trans (List.suffix_cons c before))]

/-- Characters put in front of items that begin with no text are a text. -/
theorem foldr_consChar {cs : List Content} (h : beginWithText cs = false) (s : Text) :
    s.foldr consChar cs = ofText s ++ cs := by
  induction s with
  | nil => rfl
  | cons c s ih =>
    rw [List.foldr_cons, ih]
    cases s with
    | nil => exact consChar_of_beginWithText h c
    | cons d s => rfl

/-- The fragments of a text are what it is read as. -/
theorem Scanned.eq_scanLinks {s : Text} {fragments : List Content} (h : Scanned s fragments) :
    fragments = scanLinks s := by
  induction h with
  | @rest s h =>
    have hread : scanLinks (s ++ []) = s.foldr consChar (scanLinks []) :=
      scanLinks_append fun t ht _ hlink => h t ht (List.append_nil t ▸ hlink)
    rw [List.append_nil, scanLinks, foldr_consChar rfl, List.append_nil] at hread
    exact hread.symm
  | @link before url content rest fragments hfirst hurl hcontent _ ih =>
    rw [scanLinks_append hfirst, scanLinks_of_some (linkAt?_iff.2 ⟨hurl, hcontent, rfl⟩), foldr_consChar rfl, ih]

/-- A character that begins no link belongs to the text before the first link. -/
theorem Scanned.cons {c : Char} {s : Text} {fragments : List Content} (hc : ¬ BeginsLink (c :: s))
    (h : Scanned s fragments) : Scanned (c :: s) (consChar c fragments) := by
  cases h with
  | rest h =>
    have hfree : LinkFree (c :: s) := by
      intro t ht
      rcases List.suffix_cons_iff.1 ht with rfl | ht
      · exact hc
      · exact h t ht
    have hrest := Scanned.rest hfree
    cases s <;> exact hrest
  | @link before url content rest fragments hfirst hurl hcontent hrest =>
    have hfirst' : ∀ t, t <:+ c :: before → t ≠ [] → ¬ BeginsLink (t ++ (linkMarkup url content ++ rest)) := by
      intro t ht hne
      rcases List.suffix_cons_iff.1 ht with rfl | ht
      · exact hc
      · exact hfirst t ht hne
    have hlink := Scanned.link hfirst' hurl hcontent hrest
    cases before <;> exact hlink

/-- **Every text is read as its fragments.** -/
theorem scanned_scanLinks (s : Text) : Scanned s (scanLinks s) := by
  fun_induction scanLinks s with
  | case1 =>
    refine Scanned.rest (s := []) fun t ht hlink => ?_
    rw [List.suffix_nil.1 ht] at hlink
    exact linkAt?_eq_none_iff.1 rfl hlink
  | case2 c s url content rest h hlt ih =>
    obtain ⟨hurl, hcontent, hs⟩ := linkAt?_iff.1 h
    rw [hs]
    have hfirst : ∀ t, t <:+ [] → t ≠ [] → ¬ BeginsLink (t ++ (linkMarkup url content ++ rest)) :=
      fun t ht hne => absurd (List.suffix_nil.1 ht) hne
    exact Scanned.link hfirst hurl hcontent ih
  | case3 c s h ih => exact ih.cons (linkAt?_eq_none_iff.1 h)

/-! ### The fragments -/

/-- An item that a text can be read as: raw text, which is not empty and by itself has no link, or a link without a
closing bracket in its url, and with contents that are empty or one text, without a closing parenthesis. -/
inductive IsScannedItem : Content → Prop
  | text {s : Text} (hne : s ≠ []) (hfree : scanLinks s = [text s]) : IsScannedItem (text s)
  | emptyLink {url : Text} (hurl : ']' ∉ url) : IsScannedItem (link (.str url) [])
  | link {url content : Text} (hurl : ']' ∉ url) (hne : content ≠ []) (hcontent : ')' ∉ content) :
      IsScannedItem (link (.str url) [Content.text content])

theorem isScannedItem_of_mem_ofText {s : Text} (h : LinkFree s) {c : Content} (hc : c ∈ ofText s) :
    IsScannedItem c := by
  cases s with
  | nil => cases hc
  | cons d s =>
    rw [List.mem_singleton.1 hc]
    exact .text (List.cons_ne_nil d s) (Scanned.rest h).eq_scanLinks.symm

theorem Scanned.isScannedItem {s : Text} {fragments : List Content} (h : Scanned s fragments) :
    ∀ c ∈ fragments, IsScannedItem c := by
  induction h with
  | rest h => exact fun c hc => isScannedItem_of_mem_ofText h hc
  | @link before url content rest fragments hfirst hurl hcontent _ ih =>
    -- a link in the text before the first one would stand in the whole text as well
    have hfree : LinkFree before := by
      intro t ht hlink
      rcases List.eq_nil_or_concat t with rfl | ⟨u, c, rfl⟩
      · exact linkAt?_eq_none_iff.1 rfl hlink
      · exact hfirst _ ht (by simp) (hlink.append _)
    intro c hc
    rcases List.mem_append.1 hc with hc | hc
    · exact isScannedItem_of_mem_ofText hfree hc
    rcases List.mem_cons.1 hc with rfl | hc
    · cases content with
      | nil => exact .emptyLink hurl
      | cons d content => exact .link hurl (List.cons_ne_nil d content) hcontent
    · exact ih c hc

/-- **The fragments of a text are read by the syntax of links.** They are its one reading from link to link;
written back they are the text, no two texts are next to each other, and each is raw text without links or a link
that can be written. -/
theorem scanLinks_exact (s : Text) :
    (∀ fragments, Scanned s fragments ↔ fragments = scanLinks s) ∧
      (∀ rules, sources rules (scanLinks s) = s) ∧ (scanLinks s).IsChain Apart ∧
      ∀ c ∈ scanLinks s, IsScannedItem c := by
  have hread := scanned_scanLinks s
  refine ⟨fun fragments => ⟨Scanned.eq_scanLinks, ?_⟩, fun rules => sources_scanLinks rules s, ?_,
    hread.isScannedItem⟩
  · rintro rfl
    exact hread
  · exact (areCanonical_iff.1 (areCanonical_fragmentsOf true s)).2

/-- A bracket that begins no link, and a link whose url has an opening bracket. -/
theorem scanLinks_exact_retried :
    text "[x] ".toList ∈ scanLinks "[x] [[u](v)".toList ∧ IsScannedItem (text "[x] ".toList) := by
  have hscan : scanLinks "[x] [[u](v)".toList =
      [text "[x] ".toList, link (.str "[u".toList) [text "v".toList]] := by cbv
  have hmem : text "[x] ".toList ∈ scanLinks "[x] [[u](v)".toList := by
    rw [hscan]
    exact List.mem_cons_self
  exact ⟨hmem, (scanLinks_exact "[x] [[u](v)".toList).2.2.2 _ hmem⟩

end ProseMarkup.Content
