import ProseMarkup.Proofs.EdgeMatter
import ProseMarkup.Proofs.IndexOfStyles

/-!
# The index of a combination

Styles can be combined before they are indexed, or indexed as they are. Either way there are the same names and the
same opening delimiters, in the same order. But where styles disagree on how an opening delimiter is closed, the
first of them decides in a combination, and the last in an index; so the two ways agree just if the first and the
last style that declare an opening delimiter close it the same.

* `Style.closings`, `Style.AgreeOnClosing` : how styles close an opening delimiter, in order; and that the first
  and the last that declare it close it the same.
* `Style.get?_closers_foldl_merge`, `RuleIndex.get?_foldl_overlay` : the first decides, and the last.
* `RuleIndex.ofStyles_combine_iff` : **when the index of a combination is that of the styles**.
* `RuleIndex.ofStyles_combine_append` : then it is so with whatever styles come after.
* `combined_or_separate` : **styles combined, and styles given separately**.
-/

namespace ProseMarkup

namespace Style

/-- How styles close an opening delimiter: what each that declares it closes it with, in order. -/
def closings (styles : List Style) (opening : Text) : List Text :=
  styles.filterMap fun s => (s.span.get? opening).map fun r => r.closing opening

/-- The first and the last style that declare an opening delimiter close it the same. -/
def AgreeOnClosing (styles : List Style) : Prop :=
  ∀ opening, (closings styles opening).head? = (closings styles opening).getLast?

theorem keys_closers (s : Style) : s.closers.keys = s.span.keys := by
  rw [Dict.keys, closers, List.map_map, Dict.keys]
  rfl

theorem get?_closers (s : Style) (opening : Text) :
    s.closers.get? opening = (s.span.get? opening).map fun r => r.closing opening := by
  cases hspan : s.span.get? opening with
  | none =>
    rw [Dict.get?_eq_none_iff, ← keys_closers] at hspan
    rw [Dict.get?_eq_none_iff.2 hspan, Option.map_none]
  | some r =>
    have hmem := Dict.mem_entries_iff.2 hspan
    exact Dict.mem_entries_iff.1 (List.mem_map_of_mem hmem)

@[simp] theorem closings_cons (s : Style) (styles : List Style) (opening : Text) :
    closings (s :: styles) opening =
      (s.closers.get? opening).toList ++ closings styles opening := by
  rw [closings, List.filterMap_cons, ← get?_closers, ← closings]
  cases s.closers.get? opening <;> rfl

/-! ### The first decides in a combination -/

@[simp] theorem keys_closers_merge (s t : Style) :
    (s.merge t).closers.keys = t.closers.keys.foldl Dict.addKey s.closers.keys := by
  rw [keys_closers, keys_closers, keys_closers]
  exact Dict.keys_mergeWith _ _ _

/-- Of two styles the first closes an opening delimiter, if it declares it. -/
@[simp] theorem get?_closers_merge (s t : Style) (opening : Text) :
    (s.merge t).closers.get? opening = (s.closers.get? opening).or (t.closers.get? opening) := by
  simp only [get?_closers, merge, Dict.get?_mergeWith]
  cases s.span.get? opening <;> cases t.span.get? opening <;> rfl

theorem keys_paragraph_foldl_merge (styles : List Style) (s : Style) :
    (styles.foldl merge s).paragraph.keys =
      (styles.flatMap fun t => t.paragraph.keys).foldl Dict.addKey s.paragraph.keys := by
  induction styles generalizing s with
  | nil => rfl
  | cons t styles ih => simp [ih, merge]

theorem keys_closers_foldl_merge (styles : List Style) (s : Style) :
    (styles.foldl merge s).closers.keys =
      (styles.flatMap fun t => t.closers.keys).foldl Dict.addKey s.closers.keys := by
  induction styles generalizing s with
  | nil => rfl
  | cons t styles ih => simp [ih]

/-- **In a combination the first style that declares an opening delimiter closes it.** -/
theorem get?_closers_foldl_merge (styles : List Style) (s : Style) (opening : Text) :
    (styles.foldl merge s).closers.get? opening =
      (s.closers.get? opening).or (closings styles opening).head? := by
  induction styles generalizing s with
  | nil => exact (Option.or_none).symm
  | cons t styles ih =>
    cases ht : t.closers.get? opening <;> simp [ih, ht]

end Style

namespace RuleIndex

open Style (closings combine)

/-! ### The last decides in an index -/

theorem keys_foldl_overlay (styles : List Style) (d : Dict Text Text) :
    (styles.foldl (fun d s => d.overlay s.closers) d).keys =
      (styles.flatMap fun t => t.closers.keys).foldl Dict.addKey d.keys := by
  induction styles generalizing d with
  | nil => rfl
  | cons t styles ih => simp [ih]

/-- **In an index the last style that declares an opening delimiter closes it.** -/
theorem get?_foldl_overlay (styles : List Style) (d : Dict Text Text) (opening : Text) :
    (styles.foldl (fun d s => d.overlay s.closers) d).get? opening =
      (closings styles opening).getLast?.or (d.get? opening) := by
  induction styles generalizing d with
  | nil => rfl
  | cons t styles ih =>
    cases ht : t.closers.get? opening <;> simp [ih, ht, List.getLast?_cons]

/-! ### Both ways -/

variable (styles : List Style)

/-- What the index of styles is made of sets it. -/
theorem ofStyles_congr {a b : List Style} (hnames : (ofStyles a).ruleNames = (ofStyles b).ruleNames)
    (hclosers : (ofStyles a).closers = (ofStyles b).closers) : ofStyles a = ofStyles b := by
  simp only [ofStyles] at hnames hclosers ⊢
  simp only [hnames, hclosers]

theorem closers_ofStyles_combine (rest : List Style) :
    (ofStyles (combine styles :: rest)).closers =
      rest.foldl (fun d s => d.overlay s.closers) (ofStyles [combine styles]).closers := rfl

theorem closers_ofStyles_append (rest : List Style) :
    (ofStyles (styles ++ rest)).closers =
      rest.foldl (fun d s => d.overlay s.closers) (ofStyles styles).closers := by
  simp only [ofStyles, List.foldl_append]

/-- Combined or not, styles have the same names, in the same order. -/
theorem ruleNames_ofStyles_combine (rest : List Style) :
    (ofStyles (combine styles :: rest)).ruleNames = (ofStyles (styles ++ rest)).ruleNames := by
  have hkeys : (combine styles).paragraph.keys =
      (styles.flatMap fun t => t.paragraph.keys).foldl Dict.addKey [] :=
    Style.keys_paragraph_foldl_merge styles Style.empty
  simp only [ofStyles, Dict.eraseDups_eq_foldl, List.flatMap_cons, List.flatMap_append, List.foldl_append]
  rw [Dict.foldl_addKey_keys, hkeys]

@[simp] theorem closers_ofStyles_singleton (s : Style) : (ofStyles [s]).closers = s.closers :=
  Dict.overlay_empty s.closers

/-- Combined or not, styles have the same opening delimiters, in the same order. -/
theorem keys_ofStyles_combine : (ofStyles [combine styles]).closers.keys = (ofStyles styles).closers.keys := by
  rw [closers_ofStyles_singleton]
  exact (Style.keys_closers_foldl_merge styles .empty).trans (keys_foldl_overlay styles .empty).symm

/-- How a combination closes an opening delimiter, and how the styles do. -/
theorem get?_ofStyles_combine_iff (opening : Text) :
    (ofStyles [combine styles]).closers.get? opening = (ofStyles styles).closers.get? opening ↔
      (closings styles opening).head? = (closings styles opening).getLast? := by
  have hfirst : (ofStyles [combine styles]).closers.get? opening = (closings styles opening).head? := by
    rw [closers_ofStyles_singleton]
    exact Style.get?_closers_foldl_merge styles .empty opening
  have hlast : (ofStyles styles).closers.get? opening = (closings styles opening).getLast? :=
    (get?_foldl_overlay styles .empty opening).trans Option.or_none
  rw [hfirst, hlast]

/-- **The index of a combination is that of the styles just if every opening delimiter is closed the same by the
first and by the last style that declare it.** -/
theorem ofStyles_combine_iff :
    ofStyles [combine styles] = ofStyles styles ↔ Style.AgreeOnClosing styles := by
  constructor
  · intro h opening
    rw [← get?_ofStyles_combine_iff, h]
  · intro h
    apply ofStyles_congr
    · rw [ruleNames_ofStyles_combine, List.append_nil]
    · exact Dict.ext_get? (keys_ofStyles_combine styles) fun opening =>
        (get?_ofStyles_combine_iff styles opening).2 (h opening)

/-- If the index of a combination is that of the styles, it is so with whatever styles come after. -/
theorem ofStyles_combine_append {styles : List Style} (h : ofStyles [combine styles] = ofStyles styles)
    (rest : List Style) : ofStyles (combine styles :: rest) = ofStyles (styles ++ rest) := by
  apply ofStyles_congr (ruleNames_ofStyles_combine styles rest)
  rw [closers_ofStyles_combine, closers_ofStyles_append, h]

end RuleIndex

/-! ### Texts -/

namespace Document

@[simp] theorem contributing_toValue (w : Whitelists) (styles : List Style) (edgeMatter : Text) :
    contributing w (styles.map Style.toValue) edgeMatter =
      (styles ++ [Style.ofSheet w edgeMatter]).map Style.toValue := by
  rw [contributing, List.map_append, List.map_singleton]

/-- If the index of a combination is that of the styles, a text compiles to the same paragraphs under either. -/
theorem compile_combine {styles : List Style}
    (h : RuleIndex.ofStyles [Style.combine styles] = RuleIndex.ofStyles styles) (w : Whitelists)
    (options : CompileOptions) (s : Text) :
    ∃ c d, compile w options [(Style.combine styles).toValue] s = .ok c ∧
      compile w options (styles.map Style.toValue) s = .ok d ∧
      c.document.paragraphs = d.document.paragraphs := by
  have hindex : ∀ styles : List Style,
      RuleIndex.ofValues (contributing w (styles.map Style.toValue) (Manuscript.ofText s).edgeMatter) =
        .ok (RuleIndex.ofStyles (styles ++ [Style.ofSheet w (Manuscript.ofText s).edgeMatter])) := by
    intro styles
    rw [contributing_toValue, RuleIndex.ofValues_toValue]
  obtain ⟨c, hc, -, -⟩ := exists_compile options (hindex [Style.combine styles]) fun lines =>
    Paragraph.exists_compile rfl options.links lines
  have hsame : RuleIndex.ofValues (contributing w (styles.map Style.toValue)
        (Manuscript.ofText s).edgeMatter) =
      RuleIndex.ofValues (contributing w ([Style.combine styles].map Style.toValue)
        (Manuscript.ofText s).edgeMatter) := by
    rw [hindex, hindex, ← RuleIndex.ofStyles_combine_append h]
    rfl
  have hd := compile_congr rfl hsame options
  rw [hc] at hd
  exact ⟨c, _, hc, hd, rfl⟩

end Document

/-- **Styles combined, and styles given separately.** Any styles combine, and the combination and the styles both
have an index, with the same names and the same opening delimiters. The indices are the same, and close each
opening delimiter the same, just if the first and the last style that declare an opening delimiter close it the
same; and then every text compiles, under either, to the same paragraphs. -/
theorem combined_or_separate (styles : List Style) :
    ∃ combination combined separate,
      Value.combine (styles.map Style.toValue) = .ok combination ∧
      RuleIndex.ofValues [combination] = .ok combined ∧
      RuleIndex.ofValues (styles.map Style.toValue) = .ok separate ∧
      combined.ruleNames = separate.ruleNames ∧ combined.otherNames = separate.otherNames ∧
      combined.closers.keys = separate.closers.keys ∧
      (combined = separate ↔ Style.AgreeOnClosing styles) ∧
      ((∀ opening, combined.closers.get? opening = separate.closers.get? opening) ↔
        Style.AgreeOnClosing styles) ∧
      (Style.AgreeOnClosing styles → ∀ w options s, ∃ c d,
        Document.compile w options [combination] s = .ok c ∧
        Document.compile w options (styles.map Style.toValue) s = .ok d ∧
        c.document.paragraphs = d.document.paragraphs) := by
  refine ⟨(Style.combine styles).toValue, RuleIndex.ofStyles [Style.combine styles],
    RuleIndex.ofStyles styles, Value.combine_toValue styles,
    RuleIndex.ofValues_toValue [Style.combine styles], RuleIndex.ofValues_toValue styles, ?names, rfl,
    RuleIndex.keys_ofStyles_combine styles, RuleIndex.ofStyles_combine_iff styles,
    forall_congr' (RuleIndex.get?_ofStyles_combine_iff styles), fun h => ?texts⟩
  case names =>
    rw [RuleIndex.ruleNames_ofStyles_combine, List.append_nil]
  case texts =>
    exact Document.compile_combine ((RuleIndex.ofStyles_combine_iff styles).2 h)

/-- Three styles of which the second alone closes an opening delimiter by another one. -/
theorem combined_or_separate_overridden :
    Style.AgreeOnClosing ([none, some ['!'], some ['*']].map fun closer =>
      ⟨.empty, .singleton ['*'] ⟨.empty, closer⟩, none⟩) ∧
    ∃ combination c d,
      Value.combine (([none, some ['!'], some ['*']].map fun closer =>
          ⟨.empty, .singleton ['*'] ⟨.empty, closer⟩, none⟩).map Style.toValue) = .ok combination ∧
      Document.compile ⟨.ofPatterns [], .ofPatterns [], .ofPatterns []⟩ {} [combination]
        "a *b! c* d".toList = .ok c ∧
      Document.compile ⟨.ofPatterns [], .ofPatterns [], .ofPatterns []⟩ {}
        (([none, some ['!'], some ['*']].map fun closer =>
          ⟨.empty, .singleton ['*'] ⟨.empty, closer⟩, none⟩).map Style.toValue)
        "a *b! c* d".toList = .ok d ∧
      c.document.paragraphs = d.document.paragraphs := by
  have hagree : Style.AgreeOnClosing ([none, some ['!'], some ['*']].map fun closer =>
      ⟨.empty, .singleton ['*'] ⟨.empty, closer⟩, none⟩) := by
    intro opening
    by_cases h : ['*'] = opening
    · subst h
      rfl
    · simp [Style.closings, Dict.get?, Dict.singleton, Dict.lookupEntry, h]
  obtain ⟨combination, -, -, hcombine, -, -, -, -, -, -, -, htexts⟩ :=
    combined_or_separate ([none, some ['!'], some ['*']].map fun closer =>
      ⟨.empty, .singleton ['*'] ⟨.empty, closer⟩, none⟩)
  obtain ⟨c, d, hc, hd, hsame⟩ :=
    htexts hagree ⟨.ofPatterns [], .ofPatterns [], .ofPatterns []⟩ {} "a *b! c* d".toList
  exact ⟨hagree, combination, c, d, hcombine, hc, hd, hsame⟩

end ProseMarkup
