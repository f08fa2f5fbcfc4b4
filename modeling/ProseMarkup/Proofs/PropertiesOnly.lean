import ProseMarkup.Proofs.EdgeMatter
import ProseMarkup.Proofs.IndexOfStyles
import ProseMarkup.Proofs.Restriction

/-!
# Whitelists decide properties only

Two compilers with different whitelists read the same rules in a sheet and the same content in a text; the
whitelists show in the properties of rules, and nowhere else. For the style of a sheet this is what restriction
to a whitelist leaves as it is; and the index of styles, which is all that content depends on, looks at names
and delimiters alone.

* `Style.SameStructure` : two styles that differ in their properties at most.
* `Style.sameStructure_ofSheet` : the styles of a sheet under any two whitelists.
* `RuleIndex.ofValues_congr` : the index does not look at properties.
* `Document.compile_whitelists` : **a text compiles to the same under any whitelists, but for its styles**.
* `whitelists_decide_properties_only` : **the whitelists decide properties only, never structure**.
-/

namespace ProseMarkup

/-! ### The structure of a style -/

/-- Two styles have the same rules, whatever properties these have. -/
structure Style.SameStructure (s t : Style) : Prop where
  /-- The names of the paragraph rules, in order. -/
  names : s.paragraph.keys = t.paragraph.keys
  /-- The opening delimiters, in order. -/
  openings : s.span.keys = t.span.keys
  /-- The closing delimiter that the rule of each opening one names, if it names one. -/
  closers : s.span.mapValues SpanRule.closer = t.span.mapValues SpanRule.closer
  /-- Whether there is a container rule. -/
  container : s.container.isSome = t.container.isSome

/-- Every name is permitted in every namespace. -/
def Whitelists.IsUnlimited (w : Whitelists) : Prop :=
  ∀ space name, (w.get space).permits name = true

/-- The whitelists of the pattern that every name begins with. -/
def Whitelists.unlimited : Whitelists :=
  ⟨.ofPatterns [['*']], .ofPatterns [['*']], .ofPatterns [['*']]⟩

theorem Whitelists.isUnlimited_unlimited : unlimited.IsUnlimited := by
  intro space name
  have hpermits : (Whitelist.ofPatterns [['*']]).permits name = true :=
    Whitelist.permits_ofPatterns.2 (.inr ⟨[], List.mem_singleton_self _, List.nil_prefix⟩)
  cases space <;> exact hpermits

theorem Whitelists.IsUnlimited.within {w v : Whitelists} (h : v.IsUnlimited) : w.Within v :=
  fun space name _ => h space name

namespace Style

variable {s t u : Style}

theorem SameStructure.symm (h : s.SameStructure t) : t.SameStructure s :=
  ⟨h.names.symm, h.openings.symm, h.closers.symm, h.container.symm⟩

theorem SameStructure.trans (h : s.SameStructure t) (h' : t.SameStructure u) : s.SameStructure u :=
  ⟨h.names.trans h'.names, h.openings.trans h'.openings, h.closers.trans h'.closers,
    h.container.trans h'.container⟩

/-- Restriction leaves out properties only. -/
theorem sameStructure_restrict (w : Whitelists) (s : Style) : (s.restrict w).SameStructure s where
  names := Dict.keys_mapValues _ _
  openings := Dict.keys_mapValues _ _
  closers := Dict.mapValues_mapValues _ _ _
  container := Option.isSome_map

/-- The styles of a sheet under any two whitelists have the same structure. -/
theorem sameStructure_ofSheet (w₁ w₂ : Whitelists) (sheet : Text) :
    (ofSheet w₁ sheet).SameStructure (ofSheet w₂ sheet) := by
  have hfull : ∀ w, (ofSheet w sheet).SameStructure (ofSheet .unlimited sheet) := by
    intro w
    rw [ofSheet_restrict Whitelists.isUnlimited_unlimited.within]
    exact sameStructure_restrict w _
  exact (hfull w₁).trans (hfull w₂).symm

theorem SameStructure.closers_eq (h : s.SameStructure t) : Style.closers s = Style.closers t := by
  have hentries : ∀ s : Style, (Style.closers s).entries =
      (s.span.mapValues SpanRule.closer).entries.map fun e => (e.1, e.2.getD e.1) := by
    intro s
    rw [Style.closers, Dict.mapValues, List.map_map]
    rfl
  apply Dict.ext
  rw [hentries, hentries, h.closers]

end Style

/-! ### Texts -/

/-- The index of styles does not look at the properties of the last one. -/
theorem RuleIndex.ofValues_congr {s t : Style} (h : s.SameStructure t) (styles : List Value) :
    ofValues (styles ++ [s.toValue]) = ofValues (styles ++ [t.toValue]) := by
  have hadd : ∀ d : Declarations, d.add s.toValue = d.add t.toValue := by
    intro d
    simp [h.names, h.closers_eq]
  have hlast : ∀ d : Declarations,
      [s.toValue].foldlM Declarations.add d = [t.toValue].foldlM Declarations.add d := by
    intro d
    rw [List.foldlM_cons, List.foldlM_cons, hadd]
  rw [ofValues, ofValues, List.foldlM_append, List.foldlM_append]
  simp only [hlast]

namespace Document

/-- **A text compiles to the same under any whitelists, but for its styles**, faults included. -/
theorem compile_whitelists (w₁ w₂ : Whitelists) (options : CompileOptions) (styles : List Value)
    (s : Text) :
    compile w₂ options styles s = (compile w₁ options styles s).map
      (Compilation.withStyles (contributing w₂ styles (Manuscript.ofText s).edgeMatter)) :=
  compile_congr rfl (RuleIndex.ofValues_congr (Style.sameStructure_ofSheet w₂ w₁ _) styles) options

end Document

/-- **Whitelists decide properties only, never structure.** Under styles that are valid, whatever the
whitelists they were checked against, a text compiles under any two whitelists to the same paragraphs. The
styles of a sheet under any two whitelists have the same structure. And under any whitelists the style of a
sheet is that under unlimited ones, with the properties that are permitted. -/
theorem whitelists_decide_properties_only :
    (∀ (w₁ w₂ : Whitelists) (options : CompileOptions) (styles : List Value) (s : Text),
      (∀ st ∈ styles, ∃ v, Storage.validStyle v st = true) →
      ∃ c₁ c₂, Document.compile w₁ options styles s = .ok c₁ ∧
        Document.compile w₂ options styles s = .ok c₂ ∧
        c₁.document.paragraphs = c₂.document.paragraphs ∧
        c₁.warnings = c₂.warnings ∧ c₁.transcript = c₂.transcript) ∧
    (∀ (w₁ w₂ : Whitelists) (sheet : Text),
      (Style.ofSheet w₁ sheet).SameStructure (Style.ofSheet w₂ sheet)) ∧
    ∀ (w full : Whitelists) (sheet : Text), full.IsUnlimited →
      Style.ofSheet w sheet = (Style.ofSheet full sheet).restrict w := by
  refine ⟨?_, Style.sameStructure_ofSheet, fun w full sheet h => Style.ofSheet_restrict h.within sheet⟩
  intro w₁ w₂ options styles s h
  obtain ⟨rules, hrules, hu, -⟩ :=
    RuleIndex.exists_ofValues_of_each (Document.valid_contributing (w := w₁) h _)
  obtain ⟨c, hc, -, -⟩ := Document.exists_compile options hrules fun lines =>
    Paragraph.exists_compile hu options.links lines
  have hother := Document.compile_whitelists w₁ w₂ options styles s
  rw [hc] at hother
  exact ⟨c, _, hc, hother, rfl, rfl, rfl⟩

/-- A text with rules of its own for a line and for delimiters, under whitelists of which one permits the
property of the former and the other that of the latter. -/
theorem whitelists_decide_properties_only_note :
    (∀ st ∈ [Value.style (.dict []) (.dict [(.str "_".toList, .spanRule (.dict []) .null)]) .null],
        ∃ v, Storage.validStyle v st = true) ∧
    (∃ c₁ c₂,
      Document.compile ⟨.ofPatterns ["color".toList], .ofPatterns [], .ofPatterns []⟩ {}
        [.style (.dict []) (.dict [(.str "_".toList, .spanRule (.dict []) .null)]) .null]
        "---\np note \x7bcolor: red;\x7d s * \x7bfont: 2;\x7d\n---\nnote\n_a *b*_".toList = .ok c₁ ∧
      Document.compile ⟨.ofPatterns [], .ofPatterns ["font*".toList], .ofPatterns []⟩ {}
        [.style (.dict []) (.dict [(.str "_".toList, .spanRule (.dict []) .null)]) .null]
        "---\np note \x7bcolor: red;\x7d s * \x7bfont: 2;\x7d\n---\nnote\n_a *b*_".toList = .ok c₂ ∧
      c₁.document.paragraphs = c₂.document.paragraphs) ∧
    Whitelists.unlimited.IsUnlimited ∧
    Style.ofSheet ⟨.ofPatterns ["color".toList], .ofPatterns [], .ofPatterns []⟩
        "p note \x7bcolor: red; margin: 0;\x7d s * \x7bcolor: red;\x7d".toList =
      (Style.ofSheet .unlimited
        "p note \x7bcolor: red; margin: 0;\x7d s * \x7bcolor: red;\x7d".toList).restrict
          ⟨.ofPatterns ["color".toList], .ofPatterns [], .ofPatterns []⟩ := by
  have hvalid : ∀ st ∈ [Value.style (.dict []) (.dict [(.str "_".toList,
      .spanRule (.dict []) .null)]) .null], ∃ v, Storage.validStyle v st = true := by
    intro st hst
    rw [List.mem_singleton.1 hst]
    exact ⟨⟨.ofPatterns [], .ofPatterns [], .ofPatterns []⟩, rfl⟩
  have hfull := Whitelists.isUnlimited_unlimited
  obtain ⟨hcompile, -, hrestrict⟩ := whitelists_decide_properties_only
  obtain ⟨c₁, c₂, hc₁, hc₂, hparagraphs, -⟩ :=
    hcompile ⟨.ofPatterns ["color".toList], .ofPatterns [], .ofPatterns []⟩
      ⟨.ofPatterns [], .ofPatterns ["font*".toList], .ofPatterns []⟩ {} _
      "---\np note \x7bcolor: red;\x7d s * \x7bfont: 2;\x7d\n---\nnote\n_a *b*_".toList hvalid
  exact ⟨hvalid, ⟨c₁, c₂, hc₁, hc₂, hparagraphs⟩, hfull, hrestrict _ _ _ hfull⟩

end ProseMarkup
