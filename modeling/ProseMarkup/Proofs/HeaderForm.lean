import ProseMarkup.Proofs.Runs
import ProseMarkup.StyleSheet.Block

/-!
# The form of headers

The grammar of the headers of blocks, as it is written: a keyword, blanks, names. Reading a header agrees
with the grammar in both directions, so the brace after a header, and the header itself, can be read in one
way only.

* `StyleSheet.HeaderForm` : the texts that are headers, and what they declare.
* `StyleSheet.afterKeyword?_iff`, `StyleSheet.nameAt?_iff`, `StyleSheet.afterBrace?_iff` : what is read of
  the parts of a header.
* `StyleSheet.headerAt?_iff` : **a header is read at the beginning of a text just if the text begins with one
  and goes on with an opening brace**.
-/

namespace ProseMarkup.StyleSheet

open Text (isAsciiBlank Stops stops_cons stops_nil)

/-! ### The grammar -/

/-- Blanks, any number of them. -/
def AreBlanks (s : Text) : Prop :=
  s.all isAsciiBlank = true

/-- Blanks, at least one. -/
def IsGap (s : Text) : Prop :=
  s ≠ [] ∧ AreBlanks s

/-- Characters of names, at least one. -/
def IsName (s : Text) : Prop :=
  s ≠ [] ∧ s.all isNameChar = true

/-- The keywords of paragraph rules. -/
def paragraphKeywords : List Text :=
  ["para".toList, "p".toList]

/-- The keywords of span rules. -/
def spanKeywords : List Text :=
  ["span".toList, "s".toList]

/-- The texts that are headers up to their brace, and what they declare. -/
inductive HeaderForm : Header → Text → Prop
  | paragraph {keyword gap name after : Text} (hkeyword : keyword ∈ paragraphKeywords)
      (hgap : IsGap gap) (hname : IsName name) (hafter : AreBlanks after) :
      HeaderForm (.paragraph name) (keyword ++ gap ++ name ++ after)
  | span {keyword gap opening after : Text} (hkeyword : keyword ∈ spanKeywords)
      (hgap : IsGap gap) (hopening : IsName opening) (hafter : AreBlanks after) :
      HeaderForm (.span opening none) (keyword ++ gap ++ opening ++ after)
  | closedSpan {keyword gap opening between closer after : Text} (hkeyword : keyword ∈ spanKeywords)
      (hgap : IsGap gap) (hopening : IsName opening) (hbetween : IsGap between)
      (hcloser : IsName closer) (hafter : AreBlanks after) :
      HeaderForm (.span opening (some closer)) (keyword ++ gap ++ opening ++ between ++ closer ++ after)
  | container {after : Text} (hafter : AreBlanks after) :
      HeaderForm .container ("cont".toList ++ after)

/-! ### Where blanks and names stop -/

theorem isNameChar_of_isAsciiBlank {c : Char} (h : isAsciiBlank c = true) : isNameChar c = false := by
  rw [isNameChar, h, Bool.not_true, Bool.and_false]

theorem isAsciiBlank_of_isNameChar {c : Char} (h : isNameChar c = true) : isAsciiBlank c = false := by
  cases hc : isAsciiBlank c with
  | false => rfl
  | true => rw [isNameChar_of_isAsciiBlank hc] at h; cases h

theorem IsName.stops {name : Text} (h : IsName name) (rest : Text) :
    Stops isAsciiBlank (name ++ rest) := by
  obtain ⟨hne, hall⟩ := h
  cases name with
  | nil => exact absurd rfl hne
  | cons c name =>
    rw [List.all_cons, Bool.and_eq_true] at hall
    exact stops_cons (isAsciiBlank_of_isNameChar hall.1) _

theorem IsGap.stops {gap : Text} (h : IsGap gap) (rest : Text) : Stops isNameChar (gap ++ rest) := by
  obtain ⟨hne, hall⟩ := h
  cases gap with
  | nil => exact absurd rfl hne
  | cons c gap =>
    rw [AreBlanks, List.all_cons, Bool.and_eq_true] at hall
    exact stops_cons (isNameChar_of_isAsciiBlank hall.1) _

/-- Blanks before a text at which a name stops. -/
theorem AreBlanks.stops {after : Text} (h : AreBlanks after) {rest : Text}
    (hrest : Stops isNameChar rest) : Stops isNameChar (after ++ rest) := by
  cases after with
  | nil => exact hrest
  | cons c after => exact IsGap.stops ⟨List.cons_ne_nil c after, h⟩ rest

theorem stops_brace (rest : Text) :
    Stops isAsciiBlank ('{' :: rest) ∧ Stops isNameChar ('{' :: rest) :=
  ⟨stops_cons rfl rest, stops_cons rfl rest⟩

/-! ### The parts of a header -/

theorem afterKeyword?_iff {keyword s t : Text} :
    afterKeyword? keyword s = some t ↔
      ∃ gap, s = keyword ++ gap ++ t ∧ IsGap gap ∧ Stops isAsciiBlank t := by
  constructor
  · intro h
    rw [afterKeyword?] at h
    split at h
    · next hprefix =>
      obtain ⟨u, rfl⟩ := List.isPrefixOf_iff_prefix.1 hprefix
      rw [List.drop_left] at h
      split at h
      · next c v =>
        split at h
        · next hc =>
          cases h
          obtain ⟨heq, hrun, hstops⟩ := Text.exists_run isAsciiBlank v
          refine ⟨c :: v.takeWhile isAsciiBlank, ?_, ⟨List.cons_ne_nil _ _, ?_⟩, hstops⟩
          · rw [List.append_assoc, List.cons_append, skipBlanks, ← heq]
          · rw [AreBlanks, List.all_cons, hc, hrun]
            rfl
        · cases h
      · cases h
    · cases h
  · rintro ⟨gap, rfl, ⟨hne, hgap⟩, hstops⟩
    cases gap with
    | nil => exact absurd rfl hne
    | cons c gap =>
      rw [AreBlanks, List.all_cons, Bool.and_eq_true] at hgap
      have hprefix : keyword.isPrefixOf (keyword ++ (c :: gap ++ t)) = true :=
        List.isPrefixOf_iff_prefix.2 (List.prefix_append _ _)
      rw [List.append_assoc, afterKeyword?, if_pos hprefix, List.drop_left]
      show (if isAsciiBlank c = true then some (skipBlanks (gap ++ t)) else none) = some t
      rw [if_pos hgap.1, skipBlanks, Text.dropWhile_run hgap.2 hstops]

theorem nameAt?_iff {s name t : Text} :
    nameAt? s = some (name, t) ↔
      ∃ after, s = name ++ after ++ t ∧ IsName name ∧ AreBlanks after ∧ Stops isAsciiBlank t ∧
        Stops isNameChar (after ++ t) := by
  constructor
  · intro h
    rw [nameAt?.eq_def] at h
    dsimp only at h
    split at h
    · cases h
    · next hne =>
      obtain ⟨hs, hname, hstops⟩ := Text.exists_run isNameChar s
      obtain ⟨hrest, hafter, hblank⟩ := Text.exists_run isAsciiBlank (s.dropWhile isNameChar)
      cases h
      rw [skipBlanks]
      refine ⟨(s.dropWhile isNameChar).takeWhile isAsciiBlank, ?_, ⟨?_, hname⟩, hafter, hblank, ?_⟩
      · rw [List.append_assoc, ← hrest, ← hs]
      · intro hnil
        rw [hnil] at hne
        exact hne rfl
      · rw [← hrest]
        exact hstops
  · rintro ⟨after, rfl, ⟨hne, hname⟩, hafter, hblank, hstops⟩
    have hempty : ¬ name.isEmpty = true := fun h => hne (List.isEmpty_iff.1 h)
    rw [List.append_assoc, nameAt?.eq_def]
    dsimp only
    rw [Text.takeWhile_run hname hstops, Text.dropWhile_run hname hstops, if_neg hempty, skipBlanks,
      Text.dropWhile_run hafter hblank]

theorem afterBrace?_iff {s t : Text} : afterBrace? s = some t ↔ s = '{' :: t := by
  cases s with
  | nil => exact iff_of_false (fun h => by cases h) fun h => by cases h
  | cons c s =>
    rw [afterBrace?, List.cons.injEq]
    by_cases hc : c = '{'
    · rw [if_pos hc, Option.some.injEq]
      simp only [hc, true_and]
    · rw [if_neg hc]
      simp only [hc, false_and, reduceCtorEq]

/-- A keyword is read in its long or in its short form. -/
theorem either_keyword_iff {long short more s t : Text} {c : Char} (hlong : long = short ++ c :: more)
    (hc : isAsciiBlank c = false) :
    (afterKeyword? long s).or (afterKeyword? short s) = some t ↔
      ∃ keyword ∈ [long, short], afterKeyword? keyword s = some t := by
  simp only [List.mem_cons, List.not_mem_nil, or_false, exists_eq_or_imp, exists_eq_left]
  rw [Option.or_eq_some_iff]
  constructor
  · rintro (h | ⟨-, h⟩)
    · exact .inl h
    · exact .inr h
  · rintro (h | h)
    · exact .inl h
    · refine .inr ⟨?_, h⟩
      cases hfirst : afterKeyword? long s with
      | none => rfl
      | some u =>
        -- a text that goes on with a blank after the short keyword does not begin with the long one
        obtain ⟨gap, hs, -, -⟩ := afterKeyword?_iff.1 hfirst
        obtain ⟨gap', hs', ⟨hne, hgap⟩, -⟩ := afterKeyword?_iff.1 h
        cases gap' with
        | nil => exact absurd rfl hne
        | cons b gap' =>
          rw [AreBlanks, List.all_cons, Bool.and_eq_true] at hgap
          rw [hs', hlong] at hs
          simp only [List.append_assoc, List.cons_append, List.append_cancel_left_eq,
            List.cons.injEq] at hs
          rw [← hs.1, hgap.1] at hc
          cases hc

theorem paragraphKeyword_iff {s t : Text} :
    (afterKeyword? "para".toList s).or (afterKeyword? "p".toList s) = some t ↔
      ∃ keyword ∈ paragraphKeywords, afterKeyword? keyword s = some t :=
  either_keyword_iff (show "para".toList = "p".toList ++ 'a' :: "ra".toList from rfl) rfl

theorem spanKeyword_iff {s t : Text} :
    (afterKeyword? "span".toList s).or (afterKeyword? "s".toList s) = some t ↔
      ∃ keyword ∈ spanKeywords, afterKeyword? keyword s = some t :=
  either_keyword_iff (show "span".toList = "s".toList ++ 'p' :: "an".toList from rfl) rfl

/-! ### Headers of each kind -/

/-- What the three kinds of headers have in common: the text that is read is of their form, and a brace
follows it. -/
def ReadsForm (readHeader : Text → Option (Header × Text)) : Prop :=
  ∀ {s rest : Text} {header : Header}, readHeader s = some (header, rest) →
    ∃ form, s = form ++ '{' :: rest ∧ HeaderForm header form

theorem readsForm_paragraphHeaderAt? : ReadsForm paragraphHeaderAt? := by
  intro s rest header h
  simp only [paragraphHeaderAt?, Option.bind_eq_bind, Option.bind_eq_some_iff] at h
  obtain ⟨t, ht, ⟨name, u⟩, hu, v, hv, h⟩ := h
  cases h
  obtain ⟨keyword, hkeyword, hk⟩ := paragraphKeyword_iff.1 ht
  obtain ⟨gap, rfl, hgap, -⟩ := afterKeyword?_iff.1 hk
  obtain ⟨after, rfl, hname, hafter, -⟩ := nameAt?_iff.1 hu
  obtain rfl : u = '{' :: rest := afterBrace?_iff.1 hv
  exact ⟨_, by simp only [List.append_assoc], .paragraph hkeyword hgap hname hafter⟩

theorem readsForm_spanHeaderAt? : ReadsForm spanHeaderAt? := by
  intro s rest header h
  simp only [spanHeaderAt?, Option.bind_eq_bind, Option.bind_eq_some_iff] at h
  obtain ⟨t, ht, ⟨opening, u⟩, hu, h⟩ := h
  obtain ⟨keyword, hkeyword, hk⟩ := spanKeyword_iff.1 ht
  obtain ⟨gap, rfl, hgap, -⟩ := afterKeyword?_iff.1 hk
  obtain ⟨between, rfl, hopening, hbetween, -, hstops⟩ := nameAt?_iff.1 hu
  split at h
  · next closer v hcloser =>
    obtain ⟨w, hw, h⟩ := Option.bind_eq_some_iff.1 h
    cases h
    obtain ⟨after, rfl, hname, hafter, -⟩ := nameAt?_iff.1 hcloser
    obtain rfl : v = '{' :: rest := afterBrace?_iff.1 hw
    have hne : between ≠ [] := by
      -- the opening delimiter is read as far as it goes, so blanks must part it from the closing one
      rintro rfl
      obtain ⟨hne, hall⟩ := hname
      cases closer with
      | nil => exact hne rfl
      | cons c closer =>
        rw [List.all_cons, hstops c rfl] at hall
        cases hall
    exact ⟨_, by simp only [List.append_assoc],
      .closedSpan hkeyword hgap hopening ⟨hne, hbetween⟩ hname hafter⟩
  · obtain ⟨w, hw, h⟩ := Option.bind_eq_some_iff.1 h
    cases h
    obtain rfl : u = '{' :: rest := afterBrace?_iff.1 hw
    exact ⟨_, by simp only [List.append_assoc], .span hkeyword hgap hopening hbetween⟩

theorem readsForm_containerHeaderAt? : ReadsForm containerHeaderAt? := by
  intro s rest header h
  rw [containerHeaderAt?] at h
  split at h
  · next hprefix =>
    obtain ⟨u, rfl⟩ := List.isPrefixOf_iff_prefix.1 hprefix
    obtain ⟨v, hv, h⟩ := Option.map_eq_some_iff.1 h
    cases h
    have hdrop : ("cont".toList ++ u).drop 4 = u := rfl
    rw [hdrop, afterBrace?_iff, skipBlanks] at hv
    obtain ⟨hu, hblanks, -⟩ := Text.exists_run isAsciiBlank u
    rw [hv] at hu
    exact ⟨_, by rw [List.append_assoc, ← hu], .container hblanks⟩
  · cases h

section Complete

variable {keyword gap name after : Text} (rest : Text)

/-- After its keyword a name is read, and then what follows the blanks after it. -/
theorem afterKeyword?_name (keyword : Text) (hgap : IsGap gap) (hname : IsName name) (t : Text) :
    afterKeyword? keyword (keyword ++ gap ++ (name ++ t)) = some (name ++ t) :=
  afterKeyword?_iff.2 ⟨gap, rfl, hgap, hname.stops _⟩

/-- The last name of a header is read up to the brace. -/
theorem nameAt?_brace (hname : IsName name) (hafter : AreBlanks after) :
    nameAt? (name ++ (after ++ '{' :: rest)) = some (name, '{' :: rest) := by
  obtain ⟨hblank, hnoName⟩ := stops_brace rest
  exact nameAt?_iff.2 ⟨after, (List.append_assoc _ _ _).symm, hname, hafter, hblank,
    hafter.stops hnoName⟩

theorem paragraphHeaderAt?_form (hkeyword : keyword ∈ paragraphKeywords) (hgap : IsGap gap)
    (hname : IsName name) (hafter : AreBlanks after) :
    paragraphHeaderAt? (keyword ++ gap ++ (name ++ (after ++ '{' :: rest))) =
      some (.paragraph name, rest) := by
  have hread := afterKeyword?_name keyword hgap hname (after ++ '{' :: rest)
  rw [paragraphHeaderAt?, paragraphKeyword_iff.2 ⟨keyword, hkeyword, hread⟩, Option.bind_eq_bind,
    Option.bind_some, nameAt?_brace rest hname hafter]
  rfl

theorem spanHeaderAt?_form (hkeyword : keyword ∈ spanKeywords) (hgap : IsGap gap)
    (hname : IsName name) (hafter : AreBlanks after) :
    spanHeaderAt? (keyword ++ gap ++ (name ++ (after ++ '{' :: rest))) =
      some (.span name none, rest) := by
  have hread := afterKeyword?_name keyword hgap hname (after ++ '{' :: rest)
  rw [spanHeaderAt?, spanKeyword_iff.2 ⟨keyword, hkeyword, hread⟩, Option.bind_eq_bind,
    Option.bind_some, nameAt?_brace rest hname hafter]
  rfl

theorem spanHeaderAt?_closedForm {opening between : Text} (hkeyword : keyword ∈ spanKeywords)
    (hgap : IsGap gap) (hopening : IsName opening) (hbetween : IsGap between) (hname : IsName name)
    (hafter : AreBlanks after) :
    spanHeaderAt? (keyword ++ gap ++ (opening ++ (between ++ (name ++ (after ++ '{' :: rest))))) =
      some (.span opening (some name), rest) := by
  have hread := afterKeyword?_name keyword hgap hopening
    (between ++ (name ++ (after ++ '{' :: rest)))
  have hfirst : nameAt? (opening ++ (between ++ (name ++ (after ++ '{' :: rest)))) =
      some (opening, name ++ (after ++ '{' :: rest)) :=
    nameAt?_iff.2 ⟨between, (List.append_assoc _ _ _).symm, hopening, hbetween.2, hname.stops _,
      hbetween.stops _⟩
  rw [spanHeaderAt?, spanKeyword_iff.2 ⟨keyword, hkeyword, hread⟩, Option.bind_eq_bind,
    Option.bind_some, hfirst, Option.bind_eq_bind, Option.bind_some]
  dsimp only
  rw [nameAt?_brace rest hname hafter]
  rfl

theorem containerHeaderAt?_form (hafter : AreBlanks after) :
    containerHeaderAt? ("cont".toList ++ (after ++ '{' :: rest)) = some (.container, rest) := by
  have hblanks : skipBlanks (after ++ '{' :: rest) = '{' :: rest :=
    Text.dropWhile_run hafter (stops_brace rest).1
  show (afterBrace? (skipBlanks (after ++ '{' :: rest))).map _ = _
  rw [hblanks]
  rfl

/-- What begins with a keyword of span rules is no header of a paragraph rule. -/
theorem paragraphHeaderAt?_spanKeyword (hkeyword : keyword ∈ spanKeywords) (t : Text) :
    paragraphHeaderAt? (keyword ++ t) = none := by
  rcases List.mem_cons.1 hkeyword with rfl | hkeyword
  · rfl
  · rw [List.mem_singleton.1 hkeyword]
    rfl

/-- A header is read at its own beginning, and its brace with it. -/
theorem headerAt?_form {header : Header} {form : Text} (h : HeaderForm header form) :
    headerAt? (form ++ '{' :: rest) = some (header, rest) := by
  cases h with
  | paragraph hkeyword hgap hname hafter =>
    have hread := paragraphHeaderAt?_form rest hkeyword hgap hname hafter
    simp only [List.append_assoc] at hread ⊢
    rw [headerAt?, hread]
    rfl
  | span hkeyword hgap hopening hafter =>
    have hread := spanHeaderAt?_form rest hkeyword hgap hopening hafter
    simp only [List.append_assoc] at hread ⊢
    rw [headerAt?, hread, paragraphHeaderAt?_spanKeyword hkeyword]
    rfl
  | closedSpan hkeyword hgap hopening hbetween hcloser hafter =>
    have hread := spanHeaderAt?_closedForm rest hkeyword hgap hopening hbetween hcloser hafter
    simp only [List.append_assoc] at hread ⊢
    rw [headerAt?, hread, paragraphHeaderAt?_spanKeyword hkeyword]
    rfl
  | @container after hafter =>
    have hparagraph : paragraphHeaderAt? ("cont".toList ++ (after ++ '{' :: rest)) = none := rfl
    have hspan : spanHeaderAt? ("cont".toList ++ (after ++ '{' :: rest)) = none := rfl
    rw [List.append_assoc, headerAt?, hparagraph, hspan, containerHeaderAt?_form rest hafter]
    rfl

end Complete

/-- **A header is read at the beginning of a text just if the text begins with one and goes on with an
opening brace.** -/
theorem headerAt?_iff {s rest : Text} {header : Header} :
    headerAt? s = some (header, rest) ↔
      ∃ form, s = form ++ '{' :: rest ∧ HeaderForm header form := by
  constructor
  · intro h
    rw [headerAt?, Option.or_eq_some_iff, Option.or_eq_some_iff] at h
    rcases h with (h | ⟨-, h⟩) | ⟨-, h⟩
    · exact readsForm_paragraphHeaderAt? h
    · exact readsForm_spanHeaderAt? h
    · exact readsForm_containerHeaderAt? h
  · rintro ⟨form, rfl, hform⟩
    exact headerAt?_form rest hform

/-- A text is the header of at most one rule. -/
theorem HeaderForm.unique {header header' : Header} {form : Text} (h : HeaderForm header form)
    (h' : HeaderForm header' form) : header = header' := by
  have hsame := headerAt?_form [] h
  rw [headerAt?_form [] h'] at hsame
  cases hsame
  rfl

end ProseMarkup.StyleSheet
