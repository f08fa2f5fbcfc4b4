import ProseMarkup.Proofs.Canonical
import ProseMarkup.Proofs.IndexOfStyles
import ProseMarkup.Proofs.SourceKept
import ProseMarkup.Proofs.WrittenLinks

/-!
# The normal form of compiled content

The content of a text has no empty text, no two texts next to each other and no empty span, at any depth, as
long as no closing delimiter is empty. What carries this is that the fragments of a text are canonical, and
stay so in every part they are cut into: a span that closes in the text it begins in encloses a character, and
one that closes in a later text encloses the link that parts the two.

* `Content.areCanonical_fragmentsOf` : the fragments of a text are canonical.
* `Span.contents_ne_nil`, `Span.contents_eq_nil_iff_closer` : **a span in canonical fragments encloses something,
  unless its closing delimiter is empty**.
* `Content.allSpans`, `Content.areFilled` : the spans in content, and whether none of them is empty.
* `Resolution.areCanonical_resolve` : resolution keeps content canonical.
* `Resolution.allSpans_resolve`, `Resolution.areFilled_resolve` : which spans of a resolution are empty.
* `Content.ofMarkup_normal` : **the content of a text is in normal form**.
-/

namespace ProseMarkup

namespace Content

/-! ### Fragments of a text -/

@[simp] theorem areCanonical_ofText (s : Text) : areCanonical (ofText s) = true := by
  cases s <;> rfl

theorem areCanonical_consChar (c : Char) {cs : List Content} (h : areCanonical cs = true) :
    areCanonical (consChar c cs) = true := by
  cases cs with
  | nil => rfl
  | cons d ds =>
    cases d with
    | text s =>
      rw [areCanonical, Bool.and_eq_true, Bool.and_eq_true, Bool.not_eq_true'] at h
      have hapart : beginWithText ds = false := h.1.2
      simp [consChar, hapart, h.2]
    | _ =>
      rw [consChar_of_beginWithText rfl, areCanonical, h]
      rfl

/-- The fragments of a text are canonical. -/
@[simp] theorem areCanonical_fragmentsOf (links : Bool) (s : Text) :
    areCanonical (fragmentsOf links s) = true := by
  cases links with
  | false => exact areCanonical_ofText s
  | true =>
    show areCanonical (scanLinks s) = true
    fun_induction scanLinks s with
    | case1 => rfl
    | case2 c s url content rest h hlt ih =>
      rw [areCanonical, isCanonical, areCanonical_ofText, ih]
      rfl
    | case3 c s h ih => exact areCanonical_consChar c ih

/-! ### Spans that are not empty -/

mutual

/-- Whether no span in an item is empty, at any depth. -/
@[simp] def isFilled : Content → Bool
  | text _ => true
  | span _ contents => !contents.isEmpty && areFilled contents
  | link _ contents => areFilled contents
  | foreign _ => true
termination_by structural c => c

/-- Whether no span in items is empty, at any depth. -/
@[simp] def areFilled : List Content → Bool
  | [] => true
  | c :: cs => isFilled c && areFilled cs
termination_by structural cs => cs

end

mutual

/-- The opening delimiter and the contents of each span in an item, at any depth, in order. -/
@[simp] def spans : Content → List (Text × List Content)
  | text _ => []
  | span opening contents => (opening, contents) :: allSpans contents
  | link _ contents => allSpans contents
  | foreign _ => []
termination_by structural c => c

/-- The opening delimiter and the contents of each span in items, at any depth, in order. -/
@[simp] def allSpans : List Content → List (Text × List Content)
  | [] => []
  | c :: cs => spans c ++ allSpans cs
termination_by structural cs => cs

end

@[simp] theorem allSpans_append (cs ds : List Content) :
    allSpans (cs ++ ds) = allSpans cs ++ allSpans ds := by
  induction cs with
  | nil => rfl
  | cons c cs ih => simp [ih]

mutual

@[simp] theorem map_fst_spans : ∀ c : Content, (spans c).map Prod.fst = openings c
  | text _ => rfl
  | span opening contents => congrArg (opening :: ·) (map_fst_allSpans contents)
  | link _ contents => map_fst_allSpans contents
  | foreign _ => rfl

@[simp] theorem map_fst_allSpans : ∀ cs : List Content, (allSpans cs).map Prod.fst = allOpenings cs
  | [] => rfl
  | c :: cs => by
    simp [map_fst_spans c, map_fst_allSpans cs]

end

theorem allSpans_eq_nil {cs : List Content} (h : allOpenings cs = []) : allSpans cs = [] := by
  rw [← map_fst_allSpans] at h
  exact List.map_eq_nil_iff.1 h

mutual

theorem isFilled_iff : ∀ c : Content, isFilled c = true ↔ ∀ p ∈ spans c, p.2 ≠ []
  | text _ => by simp
  | span opening contents => by simp [areFilled_iff contents]
  | link _ contents => areFilled_iff contents
  | foreign _ => by simp

theorem areFilled_iff : ∀ cs : List Content, areFilled cs = true ↔ ∀ p ∈ allSpans cs, p.2 ≠ []
  | [] => by simp
  | c :: cs => by
    rw [areFilled, Bool.and_eq_true, isFilled_iff c, areFilled_iff cs, allSpans, List.forall_mem_append]

end

end Content

/-! ### What a span encloses -/

namespace Span

open Content (areCanonical)

variable {rules : RuleIndex} {s : Text} {later : List Content} {span : Found}

/-- The search in a text passes over a closing delimiter where it starts. -/
theorem lt_of_findInText? {closer : Text} (hcloser : closer ≠ []) {start j : Nat}
    (h : findInText? closer s start = some j) : start < j := by
  have hlength := List.length_pos_of_ne_nil hcloser
  have hle := (findInText?_bounds h).1
  rw [findInText?] at h
  split at h
  · next k hk =>
    split at h
    · have hbounds := Text.findFrom?_bounds h
      omega
    · cases h
      omega
  · cases h

/-- A span that closes in the text it begins in encloses a character. -/
theorem contentStart_lt (h : find? rules s later = some span) (hcloser : span.closer ≠ [])
    (hf : span.closingFragment = 0) : span.contentStart < span.closingStart := by
  obtain ⟨start, m, -, -, -, -, hclose⟩ := find?_hit h
  rw [closingPlace?] at hclose
  split at hclose
  · next j hj =>
    rw [Option.some.injEq, Prod.mk.injEq] at hclose
    rw [← hclose.2]
    exact lt_of_findInText? hcloser hj
  · obtain ⟨place, -, heq⟩ := Option.map_eq_some_iff.1 hclose
    rw [hf] at heq
    cases heq

/-- **A span in canonical fragments encloses something**, unless its closing delimiter is empty. -/
theorem contents_ne_nil (h : find? rules s later = some span) (hcloser : span.closer ≠ [])
    (hc : areCanonical (.text s :: later) = true) : span.contents (.text s :: later) ≠ [] := by
  rcases closing_cases h with ⟨hf, -, hprefix⟩ | ⟨k, t, hf, ht, -⟩
  · have hstart := contentStart_lt h hcloser hf
    have hlength := hprefix.length_le
    rw [List.length_drop] at hlength
    have hpos := List.length_pos_of_ne_nil hcloser
    rw [contents_within s later hf]
    cases hinside : (s.take span.closingStart).drop span.contentStart with
    | nil =>
      rw [List.drop_eq_nil_iff, List.length_take] at hinside
      omega
    | cons c inside => exact List.cons_ne_nil _ _
  · rw [contents_across s hf ht]
    rw [areCanonical, Bool.and_eq_true, Bool.and_eq_true, Bool.not_eq_true'] at hc
    obtain ⟨⟨-, hapart⟩, -⟩ := hc
    cases later with
    | nil => cases ht
    | cons c later =>
      -- next to a text stands an item of another kind, so the closing text comes after it
      have hitem : c.isText = false := hapart
      cases k with
      | zero =>
        cases ht
        cases hitem
      | succ k =>
        have hkept : (!c.isEmptyText) = true := by
          cases c with
          | text s => cases hitem
          | _ => rfl
        refine List.ne_nil_of_mem (a := c) (List.mem_filter.2 ⟨?_, hkept⟩)
        exact List.mem_cons_of_mem _ (List.mem_append_left _ List.mem_cons_self)

/-- A span whose closing delimiter is empty closes where its content begins. -/
theorem contents_eq_nil_of_closer (h : find? rules s later = some span) (hcloser : span.closer = []) :
    span.contents (.text s :: later) = [] := by
  obtain ⟨start, m, -, -, -, -, hclose⟩ := find?_hit h
  obtain ⟨-, hin, -⟩ := find?_bounds h
  have hfind : Text.findFrom? [] s span.contentStart = some span.contentStart :=
    Text.findFrom?_eq_some_iff.2 ⟨⟨Nat.le_refl _, hin, List.nil_prefix⟩, fun j hj => hj.1⟩
  have hplace : findInText? [] s span.contentStart = some span.contentStart := by
    rw [findInText?, hfind]
    dsimp only
    rw [if_pos rfl, List.length_nil, Nat.add_zero, hfind]
  rw [hcloser, closingPlace?, hplace] at hclose
  rw [Option.some.injEq, Prod.mk.injEq] at hclose
  obtain ⟨hfragment, hstart⟩ := hclose
  rw [contents_within s later hfragment.symm, ← hstart, List.drop_take, Nat.sub_self, List.take_zero]
  rfl

/-- **In canonical fragments a span encloses nothing just if its closing delimiter is empty.** -/
theorem contents_eq_nil_iff_closer (h : find? rules s later = some span)
    (hc : areCanonical (.text s :: later) = true) :
    span.contents (.text s :: later) = [] ↔ rules.closing span.opening = [] := by
  rw [← closer_eq h]
  constructor
  · intro hnil
    by_contra hcloser
    exact contents_ne_nil h hcloser hc hnil
  · exact contents_eq_nil_of_closer h

end Span

/-! ### Resolution -/

namespace Resolution

open Content (areCanonical isCanonical areFilled beginWithText areFragments allOpenings allSpans)

variable {rules : RuleIndex} {limit : Int}

/-- Fragments that do not begin with text are not resolved to content that does. -/
theorem beginWithText_resolve {depth : Nat} {fragments : List Content}
    (h : beginWithText fragments = false) :
    beginWithText (resolve rules limit depth fragments).contents = false := by
  fun_cases resolve rules limit depth fragments with
  | case1 => exact h
  | case2 => rfl
  | case3 => cases h
  | case4 => cases h
  | case5 => rfl
  | case6 => exact h

/-- **Canonical fragments are resolved to canonical content.** -/
theorem areCanonical_resolve (depth : Nat) (fragments : List Content)
    (h : areCanonical fragments = true) :
    areCanonical (resolve rules limit depth fragments).contents = true := by
  fun_induction resolve rules limit depth fragments with
  | case1 depth fragments hcut => exact h
  | case2 depth hdepth => rfl
  | case3 depth hdepth s later hnone rest ih =>
    rw [areCanonical, Bool.and_eq_true, Bool.and_eq_true, Bool.not_eq_true'] at h
    obtain ⟨⟨hs, hapart⟩, hlater⟩ := h
    have hrest : beginWithText rest.contents = false := beginWithText_resolve hapart
    rw [areCanonical, hs, ih hlater, hrest]
    rfl
  | case4 depth hdepth s later span hspan _ _ inner rest ihInner ihRest =>
    have hinner := ihInner (Span.areCanonical_contents hspan h)
    have hrest := ihRest (Span.areCanonical_rest hspan h)
    have htail : areCanonical (.span span.opening inner.contents :: rest.contents) = true := by
      rw [areCanonical, isCanonical, hinner, hrest]
      rfl
    rw [before, Content.ofText]
    split
    · exact htail
    · next hne =>
      rw [List.singleton_append, areCanonical, htail, isCanonical, Bool.eq_false_iff.2 hne]
      rfl
  | case5 depth hdepth url contents later inner rest ihInner ihRest =>
    rw [areCanonical, Bool.and_eq_true, Bool.and_eq_true] at h
    obtain ⟨⟨hcontents, -⟩, hlater⟩ := h
    rw [areCanonical, isCanonical, ihInner hcontents, ihRest hlater]
    rfl
  | case6 depth hdepth c later hnoText _ rest ih =>
    rw [areCanonical, Bool.and_eq_true, Bool.and_eq_true] at h
    obtain ⟨⟨hc, -⟩, hlater⟩ := h
    have hitem : c.isText = false := by
      cases c with
      | text s => exact absurd rfl (hnoText s)
      | _ => rfl
    rw [areCanonical, hc, hitem, ih hlater]
    rfl

/-- **The empty spans in canonical fragments are those whose closing delimiter is empty.** -/
theorem allSpans_resolve (depth : Nat) (fragments : List Content) (hf : areFragments fragments = true)
    (hc : areCanonical fragments = true) :
    ∀ p ∈ allSpans (resolve rules limit depth fragments).contents,
      p.2 = [] ↔ rules.closing p.1 = [] := by
  have hnone : ∀ cs : List Content, allOpenings cs = [] →
      ∀ p ∈ allSpans cs, p.2 = [] ↔ rules.closing p.1 = [] := by
    intro cs hcs p hp
    rw [Content.allSpans_eq_nil hcs] at hp
    cases hp
  fun_induction resolve rules limit depth fragments with
  | case1 depth fragments hcut => exact hnone _ (Content.allOpenings_of_areFragments hf)
  | case2 depth hdepth => exact hnone [] rfl
  | case3 depth hdepth s later hnone rest ih =>
    rw [areCanonical, Bool.and_eq_true] at hc
    exact ih hf hc.2
  | case4 depth hdepth s later span hspan _ _ inner rest ihInner ihRest =>
    have hempty : inner.contents = [] ↔ rules.closing span.opening = [] :=
      (contents_eq_nil_iff rules limit _ _).trans (Span.contents_eq_nil_iff_closer hspan hc)
    rw [Span.areFragments_cut hspan, Bool.and_eq_true] at hf
    simp only [Content.allSpans_append, allSpans, Content.spans, List.forall_mem_append, List.cons_append,
      List.forall_mem_cons]
    exact ⟨hnone _ (allOpenings_before span s), hempty,
      ihInner hf.1 (Span.areCanonical_contents hspan hc), ihRest hf.2 (Span.areCanonical_rest hspan hc)⟩
  | case5 depth hdepth url contents later inner rest ihInner ihRest =>
    rw [areCanonical, isCanonical, Bool.and_eq_true, Bool.and_eq_true] at hc
    rw [areFragments, Bool.and_eq_true] at hf
    rw [allSpans, Content.spans, List.forall_mem_append]
    exact ⟨ihInner hf.1 hc.1.1, ihRest hf.2 hc.2⟩
  | case6 depth hdepth c later _ _ rest ih =>
    rw [areCanonical, Bool.and_eq_true] at hc
    rw [areFragments, Bool.and_eq_true] at hf
    have hitem : allOpenings [c] = [] := by
      simp [Content.openings_of_isFragment hf.1]
    rw [← List.singleton_append, Content.allSpans_append, List.forall_mem_append]
    exact ⟨hnone [c] hitem, ih hf.2 hc.2⟩

/-- **In canonical fragments no empty span is found**, unless the closing delimiter of an opening one is empty, which
is not empty itself. -/
theorem areFilled_resolve
    (hrules : ∀ opening ∈ rules.closers.keys, opening ≠ [] → rules.closing opening ≠ []) (depth : Nat)
    (fragments : List Content) (hf : areFragments fragments = true)
    (hc : areCanonical fragments = true) :
    areFilled (resolve rules limit depth fragments).contents = true := by
  have hfound : ∀ s later span, Span.find? rules s later = some span →
      rules.closing span.opening ≠ [] := by
    intro s later span hspan
    obtain ⟨hlength, -, -⟩ := Span.find?_bounds hspan
    exact hrules _ (Span.opening_mem_keys hspan) (List.ne_nil_of_length_pos hlength)
  rw [Content.areFilled_iff]
  intro p hp hnil
  have hopening : p.1 ∈ allOpenings (resolve rules limit depth fragments).contents := by
    rw [← Content.map_fst_allSpans]
    exact List.mem_map_of_mem hp
  have hclosing := openings_resolve_of (P := fun o => rules.closing o ≠ []) rules limit hfound depth
    fragments hf p.1 hopening
  exact hclosing ((allSpans_resolve depth fragments hf hc p hp).1 hnil)

end Resolution

/-! ### The content of a text -/

namespace Content

/-- A link in content and a link of a text: they have the same url, the contents are what is written
between the parentheses, and they are empty just if these are. -/
def IsWritten (rules : RuleIndex) (l : Value × List Content) (written : Text × Text) : Prop :=
  l.1 = .str written.1 ∧ sources rules l.2 = written.2 ∧ (l.2 = [] ↔ written.2 = [])

/-- **The content of a text is in normal form.** Under an index in which no closing delimiter is empty
every text has content: no text in it is empty, no two texts are next to each other and no span is empty, at
any depth, and its links are those of the text, each empty just if it is written with empty parentheses.
And such is every index of styles of sheets. -/
theorem ofMarkup_normal :
    (∀ rules : RuleIndex, rules.IsClosable → ∀ (links : Bool) (s : Text),
      ∃ r, ofMarkup rules links s = .ok r ∧ areCanonical r.contents = true ∧
        areFilled r.contents = true ∧
        List.Forall₂ (IsWritten rules) (allLinks r.contents) (if links then writtenLinks s else [])) ∧
    ∀ sheets : List (Whitelists × Text), ∃ rules,
      RuleIndex.ofValues (sheets.map fun p => (Style.ofSheet p.1 p.2).toValue) = .ok rules ∧
        rules.IsClosable := by
  constructor
  · intro rules hrules links s
    have hf := areFragments_fragmentsOf links s
    have hc := areCanonical_fragmentsOf links s
    have hlinks := Resolution.sameLinks_resolve rules nestingLimit 0 (fragmentsOf links s)
    rw [allLinks_fragmentsOf, List.forall₂_map_right_iff] at hlinks
    refine ⟨_, Assembly.resolve_of_usable hrules.usable hf, Resolution.areCanonical_resolve 0 _ hc,
      Resolution.areFilled_resolve (fun _ ho _ => hrules.closing_ne_nil ho) 0 _ hf hc, ?_⟩
    refine hlinks.imp fun l written hsame => ?_
    obtain ⟨hurl, hsource, hempty⟩ := hsame
    refine ⟨hurl, hsource.trans (sources_ofText rules written.2), hempty.trans ?_⟩
    rw [ofText]
    split
    · next hnil => simp [List.isEmpty_iff.1 hnil]
    · next hne => simpa using fun h => hne (List.isEmpty_iff.2 h)
  · intro sheets
    have hindex := RuleIndex.ofValues_toValue (sheets.map fun p => Style.ofSheet p.1 p.2)
    rw [List.map_map] at hindex
    exact ⟨_, hindex, RuleIndex.isClosable_ofSheets sheets⟩

/-- A text with a link inside a span, delimiters that enclose nothing, and a link without content. -/
theorem ofMarkup_normal_link_in_span :
    RuleIndex.IsClosable { ruleNames := [], closers := Dict.empty.set ['*'] ['*'] } ∧
    ∃ r, ofMarkup { ruleNames := [], closers := Dict.empty.set ['*'] ['*'] } true
        "a *[u](c)* ** [v]()".toList = .ok r ∧
      areCanonical r.contents = true ∧ areFilled r.contents = true ∧
      List.Forall₂ (IsWritten { ruleNames := [], closers := Dict.empty.set ['*'] ['*'] })
        (allLinks r.contents) [("u".toList, "c".toList), ("v".toList, [])] := by
  have hclosable : RuleIndex.IsClosable
      { ruleNames := [], closers := Dict.empty.set ['*'] ['*'] } :=
    ⟨rfl, by decide⟩
  have hwritten : writtenLinks "a *[u](c)* ** [v]()".toList =
      [("u".toList, "c".toList), ("v".toList, [])] := by
    decide +kernel
  have hnormal := ofMarkup_normal.1 _ hclosable true "a *[u](c)* ** [v]()".toList
  rw [if_pos rfl, hwritten] at hnormal
  exact ⟨hclosable, hnormal⟩

end Content

end ProseMarkup
