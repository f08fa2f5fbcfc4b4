import ProseMarkup.Compiler
import ProseMarkup.Proofs.AnyOrder
import ProseMarkup.Proofs.LinkScan
import ProseMarkup.Proofs.StyleIndex

/-!
# What is written stays

Resolution loses nothing, repeats nothing and moves nothing: content written back is the source it was
resolved from. So every line of a paragraph can be found again in the paragraph compiled from it, either
among its rules or in its content.

* `Paragraph.KeepsLines` : a compiled paragraph accounts for the lines it was compiled from.
* `Paragraph.exists_compile` : with usable delimiters a paragraph compiles, and keeps its lines.
* `Document.exists_compile` : if paragraphs compile as required, so does the document.
* `Document.forall_contributing` : what holds of the styles that contribute.
* `source_kept` : **resolution keeps the source, and compilation keeps every line of every paragraph**.
-/

namespace ProseMarkup

open Content (sources allOpenings areFragments)

/-! ### Resolution -/

namespace Assembly

variable {rules : RuleIndex} {limit : Int} {fragments : List Content}

/-- What the pending jobs come to, if there is no fault, is the recursive resolution. -/
theorem eq_of_resolve_eq_ok (hf : areFragments fragments = true) {r : Resolution}
    (h : resolve rules limit (.row fragments) = .ok r) :
    r = Resolution.resolve rules limit 0 fragments := by
  rw [resolve_row rules limit hf] at h
  split at h
  · cases h
  · exact (Except.ok.inj h).symm

theorem resolve_of_usable (hu : rules.unusable = []) (hf : areFragments fragments = true) :
    resolve rules limit (.row fragments) = .ok (Resolution.resolve rules limit 0 fragments) := by
  rw [resolve_row rules limit hf, Resolution.isFaulty_of_usable hu]
  rfl

end Assembly

/-! ### Paragraphs -/

/-- A compiled paragraph accounts for lines: those before some place are its rules, that place is the
first that names no rule, and the other lines, joined with spaces, are the source of its content. -/
def Paragraph.KeepsLines (rules : RuleIndex) (lines : List Text) (p : Paragraph) : Prop :=
  ∃ rest, lines = p.styles ++ rest ∧ (∀ l ∈ p.styles, rules.selects l = true) ∧
    (∀ l, rest.head? = some l → rules.selects l = false) ∧
    sources rules p.contents = Text.joinWith [' '] rest ∧
    ∀ o ∈ allOpenings p.contents, o ∈ rules.closers.keys

namespace Paragraph

variable {rules : RuleIndex}

theorem compile_of_usable (hu : rules.unusable = []) (links : Bool) (lines : List Text) :
    Paragraph.compile rules links lines =
      .ok ⟨⟨ruleLines rules lines, (Resolution.resolve rules Content.nestingLimit 0
          (Content.fragmentsOf links (bodyText rules lines))).contents⟩,
        (Resolution.resolve rules Content.nestingLimit 0
          (Content.fragmentsOf links (bodyText rules lines))).cut⟩ := by
  have hf := Content.areFragments_fragmentsOf links (bodyText rules lines)
  rw [Paragraph.compile, Content.ofMarkup, Assembly.resolve_of_usable hu hf]
  rfl

theorem selects_of_mem_ruleLines {lines : List Text} {l : Text} (h : l ∈ ruleLines rules lines) :
    rules.selects l = true := by
  have hall := List.all_takeWhile (p := rules.selects) (l := lines)
  exact List.all_eq_true.1 hall l h

theorem not_selects_head_dropWhile {lines : List Text} {l : Text}
    (h : (lines.dropWhile rules.selects).head? = some l) : rules.selects l = false := by
  have hhead := List.head?_dropWhile_not rules.selects lines
  rw [h] at hhead
  exact hhead

/-- **With usable delimiters every paragraph compiles, and keeps its lines.** -/
theorem exists_compile (hu : rules.unusable = []) (links : Bool) (lines : List Text) :
    ∃ p, Paragraph.compile rules links lines = .ok p ∧ p.paragraph.KeepsLines rules lines := by
  have hf := Content.areFragments_fragmentsOf links (bodyText rules lines)
  refine ⟨_, compile_of_usable hu links lines, lines.dropWhile rules.selects, ?_, ?_, ?_, ?_, ?_⟩
  · exact List.takeWhile_append_dropWhile.symm
  · intro l hl
    exact selects_of_mem_ruleLines hl
  · intro l hl
    exact not_selects_head_dropWhile hl
  · show sources rules (Resolution.resolve rules Content.nestingLimit 0 _).contents = _
    rw [Resolution.sources_resolve, Content.sources_fragmentsOf]
    rfl
  · exact Resolution.openings_resolve rules Content.nestingLimit 0 _ hf

end Paragraph

/-! ### Documents -/

namespace Document

variable {w : Whitelists} {styles : List Value} {s : Text}

/-- If the styles have an index with which all paragraphs compile as required, the text compiles, and
its paragraphs are as required, one for one. -/
theorem exists_compile (options : CompileOptions) {rules : RuleIndex}
    {R : List Text → Paragraph → Prop}
    (hrules : RuleIndex.ofValues (contributing w styles (Manuscript.ofText s).edgeMatter) = .ok rules)
    (hR : ∀ lines, ∃ p, Paragraph.compile rules options.links lines = .ok p ∧ R lines p.paragraph) :
    ∃ c, Document.compile w options styles s = .ok c ∧
      c.document.styles = contributing w styles (Manuscript.ofText s).edgeMatter ∧
      List.Forall₂ R (Manuscript.ofText s).paragraphs c.document.paragraphs := by
  have hall : ∀ lines ∈ (Manuscript.ofText s).paragraphs,
      ∃ p, Paragraph.compile rules options.links lines = .ok p ∧ R lines p.paragraph :=
    fun lines _ => hR lines
  obtain ⟨compiled, hcompiled, hall⟩ :=
    exists_mapM (R := fun lines (p : ParagraphResolution) => R lines p.paragraph) hall
  have hparagraphs : List.Forall₂ R (Manuscript.ofText s).paragraphs
      (compiled.map ParagraphResolution.paragraph) :=
    List.forall₂_map_right_iff.2 hall
  simp only [Document.compile, hrules, hcompiled, bind_ok]
  exact ⟨_, rfl, rfl, hparagraphs⟩

/-- What holds of the styles that are given, and of the style of edge matter, holds of all that contribute. -/
theorem forall_contributing {P : Value → Prop} (h : ∀ st ∈ styles, P st) {edgeMatter : Text}
    (hown : P (Style.ofSheet w edgeMatter).toValue) : ∀ st ∈ contributing w styles edgeMatter, P st := by
  intro st hst
  rcases List.mem_append.1 hst with hst | hst
  · exact h st hst
  · rw [List.mem_singleton.1 hst]
    exact hown

/-- Valid styles stay valid together with the style of edge matter. -/
theorem validStyle_contributing (h : ∀ st ∈ styles, Storage.validStyle w st = true)
    (edgeMatter : Text) : ∀ st ∈ contributing w styles edgeMatter, Storage.validStyle w st = true :=
  forall_contributing h (Storage.validStyle_ofSheet w edgeMatter)

/-- Styles that are valid, each under whitelists of its own, stay so together with the style of edge
matter. -/
theorem valid_contributing (h : ∀ st ∈ styles, ∃ v, Storage.validStyle v st = true)
    (edgeMatter : Text) : ∀ st ∈ contributing w styles edgeMatter, ∃ v, Storage.validStyle v st = true :=
  forall_contributing h ⟨w, Storage.validStyle_ofSheet w edgeMatter⟩

end Document

/-- **What is written stays.** The resolution of raw texts and links has the source that they have, and
every span in it can be closed; with usable delimiters there is a resolution. And under valid styles
every text compiles to paragraphs that keep the lines they were compiled from, one for one. -/
theorem source_kept :
    (∀ (rules : RuleIndex) (limit : Int) (fragments : List Content), areFragments fragments = true →
      (∀ r, Assembly.resolve rules limit (.row fragments) = .ok r →
        sources rules r.contents = sources rules fragments ∧
          ∀ o ∈ allOpenings r.contents, o ∈ rules.closers.keys) ∧
      (rules.unusable = [] → ∃ r, Assembly.resolve rules limit (.row fragments) = .ok r)) ∧
    ∀ (w : Whitelists) (options : CompileOptions) (styles : List Value) (s : Text),
      (∀ st ∈ styles, Storage.validStyle w st = true) →
      ∃ rules c,
        RuleIndex.ofValues (Document.contributing w styles (Manuscript.ofText s).edgeMatter) =
          .ok rules ∧
        (∀ line, rules.selects line = true ↔
          ∃ st ∈ Document.contributing w styles (Manuscript.ofText s).edgeMatter,
            Storage.hasRuleNamed line st = true) ∧
        Document.compile w options styles s = .ok c ∧
        List.Forall₂ (Paragraph.KeepsLines rules) (Manuscript.ofText s).paragraphs
          c.document.paragraphs := by
  constructor
  · intro rules limit fragments hf
    refine ⟨fun r hr => ?_, fun hu => ⟨_, Assembly.resolve_of_usable hu hf⟩⟩
    rw [Assembly.eq_of_resolve_eq_ok hf hr]
    exact ⟨Resolution.sources_resolve rules limit 0 fragments,
      Resolution.openings_resolve rules limit 0 fragments hf⟩
  · intro w options styles s h
    have hvalid := Document.validStyle_contributing h (Manuscript.ofText s).edgeMatter
    obtain ⟨rules, hrules, hu, hselects⟩ := RuleIndex.exists_ofValues hvalid
    obtain ⟨c, hc, -, hparagraphs⟩ :=
      Document.exists_compile options hrules fun lines => Paragraph.exists_compile hu options.links lines
    exact ⟨rules, c, hrules, hselects, hc, hparagraphs⟩

/-- A span around a link has a resolution, and its source is the text it came from; and a text compiles
under a valid style. -/
theorem source_kept_span_around_link :
    (areFragments [.text "a *b".toList, .link (.str "u".toList) [.text "c".toList],
        .text "d* e".toList] = true ∧
      ∃ r, Assembly.resolve { ruleNames := [], closers := Dict.empty.set ['*'] ['*'] } 16
          (.row [.text "a *b".toList, .link (.str "u".toList) [.text "c".toList],
            .text "d* e".toList]) = .ok r ∧
        sources { ruleNames := [], closers := Dict.empty.set ['*'] ['*'] } r.contents =
          "a *b[u](c)d* e".toList) ∧
    (∀ st ∈ [Value.style (.dict []) (.dict [(.str "*".toList, .spanRule (.dict []) .null)]) .null],
        Storage.validStyle ⟨.ofPatterns [], .ofPatterns [], .ofPatterns []⟩ st = true) ∧
    ∃ rules c,
      Document.compile ⟨.ofPatterns [], .ofPatterns [], .ofPatterns []⟩ {}
        [.style (.dict []) (.dict [(.str "*".toList, .spanRule (.dict []) .null)]) .null]
        "a *b[u](c)d* e".toList = .ok c ∧
      List.Forall₂ (Paragraph.KeepsLines rules)
        (Manuscript.ofText "a *b[u](c)d* e".toList).paragraphs c.document.paragraphs := by
  have hvalid : ∀ st ∈ [Value.style (.dict []) (.dict [(.str "*".toList,
      .spanRule (.dict []) .null)]) .null],
      Storage.validStyle ⟨.ofPatterns [], .ofPatterns [], .ofPatterns []⟩ st = true := by
    intro st hst
    rw [List.mem_singleton.1 hst]
    rfl
  obtain ⟨hkept, hexists⟩ := source_kept.1 { ruleNames := [], closers := Dict.empty.set ['*'] ['*'] } 16
    [.text "a *b".toList, .link (.str "u".toList) [.text "c".toList], .text "d* e".toList] rfl
  obtain ⟨r, hr⟩ := hexists rfl
  obtain ⟨rules, c, -, -, hc, hlines⟩ :=
    source_kept.2 ⟨.ofPatterns [], .ofPatterns [], .ofPatterns []⟩ {} _ "a *b[u](c)d* e".toList hvalid
  exact ⟨⟨rfl, r, hr, (hkept r hr).1⟩, hvalid, rules, c, hc, hlines⟩

end ProseMarkup
