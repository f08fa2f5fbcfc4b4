import ProseMarkup.Proofs.Declared
import ProseMarkup.Proofs.Lookup
import ProseMarkup.Style.RuleIndex

/-!
# The index of styles

The index of styles as values is that of the styles: the names of their paragraph rules, and the closing
delimiters of their span rules, those of later styles written over those of earlier ones. Styles of sheets
have names and delimiters that are not empty.

* `Style.closers`, `RuleIndex.ofStyles` : the closing delimiters of a style, and the index of styles.
* `RuleIndex.add_toValue` : what one more style declares.
* `RuleIndex.ofValues_toValue` : **the index of styles as values is the index of the styles**.
* `RuleIndex.IsClosable` : indices whose closing delimiters are texts that are not empty.
* `RuleIndex.isClosable_ofSheets` : **so they are in the index of styles of sheets**.
-/

namespace ProseMarkup

namespace Dict

variable {κ ν : Type} [DecidableEq κ]

theorem mem_entries_overlay {d e : Dict κ ν} {p : κ × ν}
    (h : p ∈ (d.overlay e).entries) : p ∈ d.entries ∨ p ∈ e.entries := by
  obtain ⟨k, v⟩ := p
  simp only [mem_entries_iff, get?_overlay, Option.or_eq_some_iff] at h ⊢
  rcases h with he | ⟨-, hd⟩
  · exact .inr he
  · exact .inl hd

end Dict

/-- The closing delimiter of each opening one that a style declares. -/
def Style.closers (s : Style) : Dict Text Text where
  entries := s.span.entries.map fun e => (e.1, e.2.closing e.1)
  nodup := by
    rw [List.map_map]
    exact s.span.nodup

namespace RuleIndex

/-- The index of styles, of which the last to declare an opening delimiter decides how it is closed. -/
def ofStyles (styles : List Style) : RuleIndex where
  ruleNames := (styles.flatMap fun s => s.paragraph.keys).eraseDups
  closers := styles.foldl (fun d s => d.overlay s.closers) .empty

/-! ### Styles as values -/

/-- What names and closing delimiters declare, as values. -/
def Declarations.ofTexts (names : List Text) (closers : Dict Text Text) : Declarations :=
  ⟨names.map .str, closers.toEntries .str⟩

@[simp] theorem addSpanRule_toValue (closers : List (Value × Value)) (opening : Text) (r : SpanRule) :
    Declarations.addSpanRule closers (.str opening, r.toValue) =
      .ok (Dict.setEntry (.str opening) (.str (r.closing opening)) closers) := by
  obtain ⟨props, closer⟩ := r
  cases closer <;> rfl

/-- The span rules of a style write its closing delimiters. -/
@[simp] theorem foldlM_addSpanRule (closers : List (Value × Value)) (s : Style) :
    (s.span.toEntries SpanRule.toValue).foldlM Declarations.addSpanRule closers =
      .ok (Dict.overlayEntries closers (s.closers.toEntries .str)) := by
  rw [Dict.overlayEntries, Dict.toEntries, Dict.toEntries, Style.closers]
  dsimp only
  generalize s.span.entries = es
  induction es generalizing closers with
  | nil => rfl
  | cons e es ih => simpa using ih _

/-- **What a style declares**: the names of its paragraph rules, and its closing delimiters. Its properties
do not matter. -/
@[simp] theorem add_toValue (d : Declarations) (s : Style) :
    d.add s.toValue = .ok ⟨d.names ++ s.paragraph.keys.map .str,
      Dict.overlayEntries d.closers (s.closers.toEntries .str)⟩ := by
  have hnames : (s.paragraph.toEntries Rule.toValue).map Prod.fst = s.paragraph.keys.map .str := by
    rw [Dict.toEntries, Dict.keys, List.map_map, List.map_map]
    rfl
  show (List.foldlM Declarations.addSpanRule d.closers
    (s.span.toEntries SpanRule.toValue) >>= fun closers => _) = _
  rw [foldlM_addSpanRule, bind_ok]
  show Except.ok (⟨d.names ++ (s.paragraph.toEntries Rule.toValue).map Prod.fst, _⟩ :
    Declarations) = _
  rw [hnames]

/-- What styles declare, one after another. -/
theorem foldlM_add_toValue (styles : List Style) (names : List Text) (closers : Dict Text Text) :
    (styles.map Style.toValue).foldlM Declarations.add (.ofTexts names closers) =
      .ok (.ofTexts (names ++ styles.flatMap fun s => s.paragraph.keys)
        (styles.foldl (fun d s => d.overlay s.closers) closers)) := by
  induction styles generalizing names closers with
  | nil =>
    rw [List.flatMap_nil, List.append_nil]
    rfl
  | cons s styles ih =>
    have hadd : (Declarations.ofTexts names closers).add s.toValue =
        .ok (.ofTexts (names ++ s.paragraph.keys) (closers.overlay s.closers)) := by
      simp [Declarations.ofTexts, ← List.map_append]
    simp [hadd, ih]

/-- Closing delimiters that are texts are all usable. -/
@[simp] theorem foldlM_addOpening (d e : Dict Text Text) :
    (e.toEntries .str).foldlM addOpening (d, []) = .ok (d.overlay e, []) := by
  rw [Dict.overlay, Dict.toEntries]
  generalize e.entries = es
  induction es generalizing d with
  | nil => rfl
  | cons p es ih => simpa [addOpening, openingText] using ih _

/-- **The index of styles as values is the index of the styles.** -/
@[simp] theorem ofValues_toValue (styles : List Style) :
    ofValues (styles.map Style.toValue) = .ok (ofStyles styles) := by
  have htexts : ∀ names : List Text, (names.map Value.str).filterMap text? = names := by
    intro names
    rw [List.filterMap_map]
    exact List.filterMap_some
  have hothers : ∀ names : List Text,
      (names.map Value.str).filter (fun n => (text? n).isNone) = [] := by
    intro names
    rw [List.filter_map]
    simp [Function.comp_def, text?]
  have hfold := foldlM_add_toValue styles [] .empty
  rw [List.nil_append] at hfold
  have hstart : (⟨[], []⟩ : Declarations) = .ofTexts [] .empty := rfl
  rw [ofValues, hstart, hfold, bind_ok, Declarations.ofTexts]
  dsimp only
  rw [foldlM_addOpening, bind_ok, Dict.overlay_empty, htexts, hothers]
  rfl

/-! ### Closing delimiters that are not empty -/

/-- Every closing delimiter is a text that is not empty. -/
structure IsClosable (rules : RuleIndex) : Prop where
  usable : rules.unusable = []
  nonempty : ∀ e ∈ rules.closers.entries, e.2 ≠ []

/-- The delimiter that closes an opening one of the index is not empty. -/
theorem IsClosable.closing_ne_nil {rules : RuleIndex} (h : rules.IsClosable) {opening : Text}
    (ho : opening ∈ rules.closers.keys) : rules.closing opening ≠ [] := by
  obtain ⟨closer, hget, hmem⟩ := Dict.exists_get?_of_mem_keys ho
  rw [closing, hget]
  exact h.nonempty _ hmem

/-- The closing delimiters in the index of styles are those of the styles. -/
theorem exists_of_mem_closers {styles : List Style} {p : Text × Text}
    (h : p ∈ (ofStyles styles).closers.entries) : ∃ s ∈ styles, p ∈ s.closers.entries := by
  revert h
  apply List.foldlRecOn (motive := fun d : Dict Text Text =>
    p ∈ d.entries → ∃ s ∈ styles, p ∈ s.closers.entries)
  · intro hp
    cases hp
  · intro d hd s hs hp
    rcases Dict.mem_entries_overlay hp with hp | hp
    · exact hd hp
    · exact ⟨s, hs, hp⟩

/-- In a style of a sheet closing delimiters are names. -/
theorem closing_ne_nil_of_isLegible {w : Whitelists} {s : Style} (hs : s.IsLegible w)
    {p : Text × Text} (hp : p ∈ s.closers.entries) : p.2 ≠ [] := by
  obtain ⟨⟨opening, rule⟩, he, rfl⟩ := List.mem_map.1 hp
  have hdeclared : (Header.span opening rule.closer, rule.props) ∈ s.declared := by
    rw [Style.declared]
    exact List.mem_append_left _ (List.mem_append_right _ (List.mem_map_of_mem he))
  obtain ⟨hnames, -⟩ := hs _ hdeclared
  have hname : rule.closing opening ∈ (Header.span opening rule.closer).names := by
    rw [Header.names, SpanRule.closing]
    cases rule.closer with
    | none => exact List.mem_cons_self
    | some closer => exact List.mem_cons_of_mem _ List.mem_cons_self
  exact (hnames _ hname).1.1

/-- **In the index of styles of sheets every closing delimiter is a text that is not empty.** -/
theorem isClosable_ofSheets (sheets : List (Whitelists × Text)) :
    (ofStyles (sheets.map fun p => Style.ofSheet p.1 p.2)).IsClosable where
  usable := rfl
  nonempty := by
    intro e he
    obtain ⟨s, hs, he⟩ := exists_of_mem_closers he
    obtain ⟨p, -, rfl⟩ := List.mem_map.1 hs
    exact closing_ne_nil_of_isLegible (Style.isLegible_ofSheet p.1 p.2) he

end RuleIndex

end ProseMarkup
