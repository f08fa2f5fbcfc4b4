import ProseMarkup.Proofs.IndexOfStyles
import ProseMarkup.Proofs.ManuscriptSource

/-!
# Rules selected by their names

A line selects the paragraph rule that it names. Names and lines end at different blanks: a name in a sheet ends at the
blanks of ASCII, and a line of a text is trimmed of every blank of Unicode. So a rule is selected by its name if the
name has no blank at its ends; the line of any other name selects the rule that the trimmed name is the name of, if
there is one.

* `Manuscript.ofText_line_above` : a text of a line and of another one below it that cannot close edge matter.
* `RuleIndex.selects_ofStyles` : the lines that select a rule of styles.
* `Style.isName_of_mem_keys` : the names of paragraph rules in the style of a sheet.
* `Paragraph.ruleLines_line_above` : the lines of such a text that name rules.
* `Document.exists_compile_line_above` : **what a line above another one selects**.
* `Document.named_rule_selected` : **a rule of a sheet is selected by its name**, if trimming leaves the name as it is.
-/

namespace ProseMarkup

variable {line below : Text}

/-! ### Two lines -/

/-- A line that is trimmed, is not empty and is not the delimiter of edge matter. -/
structure Manuscript.IsBodyLine (below : Text) : Prop where
  nonempty : below ≠ []
  single : '\n' ∉ below
  trimmed : Text.strip below = below
  ne_delimiter : below ≠ Lines.edgeDelimiter

/-- A delimiter that has no partner is a line like others. -/
theorem Lines.splitFront_of_not_mem_tail {ls : List Text} (h : edgeDelimiter ∉ ls.tail) :
    splitFront ls = ([], ls) := by
  rcases splitFront_cases ls with hnone | ⟨edge, rest, rfl, -, -⟩
  · exact hnone
  · exact absurd (List.mem_append_right edge List.mem_cons_self) h

/-- The two lines are a paragraph, or the upper one is blank. The upper one may be the delimiter. -/
theorem Manuscript.ofText_line_above (hline : '\n' ∉ line) (h : IsBodyLine below) :
    ofText (line ++ '\n' :: below) =
      ⟨[], [if Text.strip line = [] then [below] else [Text.strip line, below]]⟩ := by
  have hlines : strippedLines (line ++ '\n' :: below) = [Text.strip line, below] := by
    simp [strippedLines, Text.lines_of_not_mem hline, Text.lines_of_not_mem h.single, h.trimmed]
  have hfront : Lines.splitFront (strippedLines (line ++ '\n' :: below)) = ([], [Text.strip line, below]) := by
    rw [hlines]
    exact Lines.splitFront_of_not_mem_tail fun hmem => h.ne_delimiter (List.mem_singleton.1 hmem).symm
  have hback : Lines.splitBack [Text.strip line, below] = ([], [Text.strip line, below]) :=
    Lines.splitBack_of_getLast? fun heq => h.ne_delimiter (Option.some.inj heq)
  rw [ofText_of_split hfront hback, Lines.paragraphs_trimEnds]
  congr 1
  split
  · next hblank => simp [hblank, Lines.paragraphs_singleton h.nonempty]
  · next hfilled =>
    apply Lines.paragraphs_of_ne_nil (List.cons_ne_nil _ _)
    intro l hl
    rcases List.mem_cons.1 hl with rfl | hl
    · exact hfilled
    · rw [List.mem_singleton.1 hl]
      exact h.nonempty

/-! ### Names -/

@[simp] theorem RuleIndex.selects_ofStyles {styles : List Style} :
    (ofStyles styles).selects line = true ↔ ∃ s ∈ styles, line ∈ s.paragraph.keys := by
  rw [selects, List.contains_iff_mem, ofStyles, List.mem_eraseDups, List.mem_flatMap]

/-- The names of paragraph rules in the style of a sheet are made of characters of names. -/
theorem Style.isName_of_mem_keys {w : Whitelists} {sheet name : Text}
    (h : name ∈ (ofSheet w sheet).paragraph.keys) : StyleSheet.IsName name := by
  obtain ⟨⟨name, rule⟩, he, rfl⟩ := List.mem_map.1 h
  have hdeclared : (Header.paragraph name, rule.props) ∈ (ofSheet w sheet).declared := by
    rw [declared]
    exact List.mem_append_left _ (List.mem_append_left _ (List.mem_map_of_mem he))
  obtain ⟨hnames, -⟩ := isLegible_ofSheet w sheet _ hdeclared
  exact (hnames name (List.mem_singleton_self _)).1

theorem StyleSheet.IsName.newline_not_mem {name : Text} (h : IsName name) : '\n' ∉ name := by
  intro hmem
  have hchar := List.all_eq_true.1 h.2 _ hmem
  cases hchar

/-! ### The paragraph of two lines -/

/-- The upper line selects a rule if it names one; the lower one, which names none, stops the selection. -/
theorem Paragraph.ruleLines_line_above {rules : RuleIndex} (hblank : ¬ rules.selects [] = true)
    (hbelow : ¬ rules.selects below = true) :
    ruleLines rules (if line = [] then [below] else [line, below]) = if rules.selects line = true then [line] else [] := by
  rw [ruleLines]
  by_cases hempty : line = []
  · rw [if_pos hempty, hempty, List.takeWhile_cons_of_neg hbelow, if_neg hblank]
  · rw [if_neg hempty]
    by_cases hline : rules.selects line = true
    · rw [List.takeWhile_cons_of_pos hline, List.takeWhile_cons_of_neg hbelow, if_pos hline]
    · rw [List.takeWhile_cons_of_neg hline, if_neg hline]

/-- **What a line above another one selects.** Given a style of a sheet none of whose rules the lower line names, the
upper line selects the rule that it names when it is trimmed, and no other rule is selected. -/
theorem Document.exists_compile_line_above (w : Whitelists) (options : CompileOptions) {sheet : Text}
    (hline : '\n' ∉ line) (h : Manuscript.IsBodyLine below)
    (hother : below ∉ (Style.ofSheet w sheet).paragraph.keys) :
    ∃ c p, compile w options [(Style.ofSheet w sheet).toValue] (line ++ '\n' :: below) = .ok c ∧
      c.document.paragraphs = [p] ∧
      p.styles = if Text.strip line ∈ (Style.ofSheet w sheet).paragraph.keys then [Text.strip line] else [] := by
  have htext := Manuscript.ofText_line_above hline h
  have hselects : ∀ l, (RuleIndex.ofStyles [Style.ofSheet w sheet, Style.empty]).selects l = true ↔
      l ∈ (Style.ofSheet w sheet).paragraph.keys := by
    intro l
    simp [Style.empty]
  have hrules : RuleIndex.ofValues (contributing w [(Style.ofSheet w sheet).toValue]
      (Manuscript.ofText (line ++ '\n' :: below)).edgeMatter) =
        .ok (.ofStyles [Style.ofSheet w sheet, Style.empty]) := by
    simpa [htext, contributing] using RuleIndex.ofValues_toValue [Style.ofSheet w sheet, Style.empty]
  obtain ⟨c, hc, -, hparagraphs⟩ := exists_compile options hrules
    (R := fun lines p => p.styles = Paragraph.ruleLines (.ofStyles [Style.ofSheet w sheet, Style.empty]) lines)
    fun lines => ⟨_, Paragraph.compile_of_usable rfl options.links lines, rfl⟩
  rw [htext, List.forall₂_cons_left_iff] at hparagraphs
  obtain ⟨p, ps, hp, hps, hdocument⟩ := hparagraphs
  rw [List.forall₂_nil_left_iff.1 hps] at hdocument
  -- a name is not empty, so a blank line is none
  have hempty : [] ∉ (Style.ofSheet w sheet).paragraph.keys :=
    fun hmem => (Style.isName_of_mem_keys hmem).1 rfl
  rw [Paragraph.ruleLines_line_above (by rwa [hselects]) (by rwa [hselects])] at hp
  simp only [hselects] at hp
  exact ⟨c, p, hc, hdocument, hp⟩

/-- **A rule of a sheet is selected by its name**, if trimming leaves the name as it is. A line of the name selects the
rule that has the trimmed name, if there is one, and so another rule or none if the name has a blank at an end. -/
theorem Document.named_rule_selected (w : Whitelists) (options : CompileOptions) {sheet name : Text}
    (hname : name ∈ (Style.ofSheet w sheet).paragraph.keys) (hne : below ≠ []) (hsingle : '\n' ∉ below)
    (htrimmed : Text.strip below = below) (hdelimiter : below ≠ Lines.edgeDelimiter)
    (hother : below ∉ (Style.ofSheet w sheet).paragraph.keys) :
    ∃ c p, compile w options [(Style.ofSheet w sheet).toValue] (name ++ '\n' :: below) = .ok c ∧
      c.document.paragraphs = [p] ∧
      p.styles = (if Text.strip name ∈ (Style.ofSheet w sheet).paragraph.keys then [Text.strip name] else []) ∧
      (p.styles = [name] ↔ Text.strip name = name) := by
  have hline := (Style.isName_of_mem_keys hname).newline_not_mem
  obtain ⟨c, p, hc, hdocument, hstyles⟩ :=
    exists_compile_line_above w options hline ⟨hne, hsingle, htrimmed, hdelimiter⟩ hother
  refine ⟨c, p, hc, hdocument, hstyles, ?_⟩
  rw [hstyles]
  constructor
  · intro h
    split at h
    · exact (List.cons.inj h).1
    · cases h
  · intro h
    rw [h, if_pos hname]

/-- A rule that has the name of the delimiter of edge matter. -/
theorem Document.named_rule_selected_delimiter :
    ∃ c p, compile ⟨.ofPatterns [], .ofPatterns [], .ofPatterns []⟩ {}
        [(Style.ofSheet ⟨.ofPatterns [], .ofPatterns [], .ofPatterns []⟩ "p --- \x7b\x7d".toList).toValue]
        "---\nb".toList = .ok c ∧ c.document.paragraphs = [p] ∧ p.styles = ["---".toList] := by
  have hname : "---".toList ∈ (Style.ofSheet ⟨.ofPatterns [], .ofPatterns [], .ofPatterns []⟩
      "p --- \x7b\x7d".toList).paragraph.keys := by
    decide +kernel
  have hother : "b".toList ∉ (Style.ofSheet ⟨.ofPatterns [], .ofPatterns [], .ofPatterns []⟩
      "p --- \x7b\x7d".toList).paragraph.keys := by
    decide +kernel
  obtain ⟨c, p, hc, hdocument, -, hstyles⟩ := named_rule_selected
    ⟨.ofPatterns [], .ofPatterns [], .ofPatterns []⟩ {} hname (by decide) (by decide) (by decide) (by decide) hother
  exact ⟨c, p, hc, hdocument, hstyles.2 (by decide)⟩

/-- **A rule that its name does not select**: the name ends with a no-break space. -/
theorem Document.rule_not_selected_by_name :
    "a\u00a0".toList ∈ (Style.ofSheet ⟨.ofPatterns [], .ofPatterns [], .ofPatterns []⟩
        "p a\u00a0 \x7b\x7d".toList).paragraph.keys ∧
    "b".toList ≠ [] ∧ '\n' ∉ "b".toList ∧ Text.strip "b".toList = "b".toList ∧
    "b".toList ≠ Lines.edgeDelimiter ∧
    "b".toList ∉ (Style.ofSheet ⟨.ofPatterns [], .ofPatterns [], .ofPatterns []⟩
        "p a\u00a0 \x7b\x7d".toList).paragraph.keys ∧
    ¬ ∃ c p, compile ⟨.ofPatterns [], .ofPatterns [], .ofPatterns []⟩ {}
        [(Style.ofSheet ⟨.ofPatterns [], .ofPatterns [], .ofPatterns []⟩ "p a\u00a0 \x7b\x7d".toList).toValue]
        "a\u00a0\nb".toList = .ok c ∧ c.document.paragraphs.head? = some p ∧ p.styles = ["a\u00a0".toList] := by
  have hother : "b".toList ∉ (Style.ofSheet ⟨.ofPatterns [], .ofPatterns [], .ofPatterns []⟩
      "p a\u00a0 \x7b\x7d".toList).paragraph.keys := by
    decide +kernel
  refine ⟨by decide +kernel, by decide, by decide, by decide, by decide, hother, ?_⟩
  intro h
  obtain ⟨c, p, hc, hp, hstyles⟩ := h
  have hline : '\n' ∉ "a\u00a0".toList := by decide
  obtain ⟨c', p', hc', hdocument, hstyles'⟩ := exists_compile_line_above
    ⟨.ofPatterns [], .ofPatterns [], .ofPatterns []⟩ {} hline ⟨by decide, by decide, by decide, by decide⟩ hother
  have hnot : Text.strip "a\u00a0".toList ∉ (Style.ofSheet ⟨.ofPatterns [], .ofPatterns [], .ofPatterns []⟩
      "p a\u00a0 \x7b\x7d".toList).paragraph.keys := by
    decide +kernel
  obtain rfl : c = c' := Except.ok.inj (hc.symm.trans hc')
  rw [hdocument] at hp
  obtain rfl : p' = p := Option.some.inj hp
  rw [if_neg hnot, hstyles] at hstyles'
  cases hstyles'

end ProseMarkup
