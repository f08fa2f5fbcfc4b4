import ProseMarkup.Proofs.SourceKept
import ProseMarkup.Proofs.StoredContent
import ProseMarkup.Proofs.StoredStyle

/-!
# Stored documents

A compiled text is stored as text data and loaded again as it was, and so stays valid.

* `Storage.roundTrips_paragraph`, `Storage.roundTrips_document` : paragraphs and documents are stored and
  loaded again.
* `Storage.validDocument_toValue` : a document is valid if the styles in it are.
* `Storage.compiled_round_trips` : **so it is with the document that any text compiles to**.
-/

namespace ProseMarkup.Storage

open Content (areStorable)

/-! ### Paragraphs -/

theorem areTextData_names (names : List Text) :
    Value.areTextData (names.map .str) = true ∧ Value.areNanFree (names.map .str) = true := by
  induction names with
  | nil => exact ⟨rfl, rfl⟩
  | cons name names ih => exact ih

/-- A paragraph is stored and loaded again if its content is. -/
theorem roundTrips_paragraph {p : Paragraph} (h : areStorable p.contents = true) :
    RoundTrips save loadParagraph p.toValue := by
  obtain ⟨hnan, data, hsave, htext, hload⟩ := Content.roundTrips_contents h
  obtain ⟨hnames, hnamesNan⟩ := areTextData_names p.styles
  refine ⟨?_, record [("styles".toList, .list (p.styles.map .str)), ("contents".toList, .list data)],
    ?_, ?_, ?_⟩
  · show (Value.areNanFree (p.styles.map .str) && Value.areNanFree (Content.toValues p.contents)) = true
    rw [hnamesNan, hnan]
    rfl
  · rw [Paragraph.toValue, save, saveContents, hsave]
    rfl
  · simp [hnames, htext]
  · show Value.paragraph (.list (p.styles.map .str)) (.list (loadContentItems data)) = _
    rw [hload, Paragraph.toValue]

/-! ### Documents -/

/-- A document is stored and loaded again if its paragraphs and its styles are. -/
theorem roundTrips_document {d : Document} (hp : ∀ p ∈ d.paragraphs, areStorable p.contents = true)
    (hs : ∀ s ∈ d.styles, RoundTrips save loadStyle s) : RoundTrips save loadDocument d.toValue := by
  have hparagraphs : ∀ v ∈ d.paragraphs.map Paragraph.toValue, RoundTrips save loadParagraph v := by
    intro v hv
    obtain ⟨p, hmem, rfl⟩ := List.mem_map.1 hv
    exact roundTrips_paragraph (hp p hmem)
  obtain ⟨hpnan, ps, hpsave, hptext, hpload⟩ := roundTrips_items hparagraphs
  obtain ⟨hsnan, ss, hssave, hstext, hsload⟩ := roundTrips_items hs
  refine ⟨?_, record [("paragraphs".toList, .list ps), ("styles".toList, .list ss)], ?_, ?_, ?_⟩
  · show (Value.areNanFree (d.paragraphs.map Paragraph.toValue) && Value.areNanFree d.styles) = true
    rw [hpnan, hsnan]
    rfl
  · rw [Document.toValue, save, saveEach, saveEach, hpsave, hssave]
    rfl
  · simp [hptext, hstext]
  · show Value.document (.list (ps.map loadParagraph)) (.list (ss.map loadStyle)) = _
    rw [hpload, hsload, Document.toValue]

theorem validDocument_toValue {w : Whitelists} {d : Document}
    (h : ∀ s ∈ d.styles, validStyle w s = true) : validDocument w d.toValue = true := by
  show (d.styles.all (validStyle w) && (d.paragraphs.map Paragraph.toValue).all validParagraph) = true
  rw [List.all_eq_true.2 h, List.all_map, Bool.true_and]
  exact List.all_eq_true.2 fun p _ => rfl

/-! ### Compiled texts -/

theorem exists_compile_storable {rules : RuleIndex} (hu : rules.unusable = []) (links : Bool)
    (lines : List Text) : ∃ p, Paragraph.compile rules links lines = .ok p ∧
      areStorable p.paragraph.contents = true := by
  refine ⟨_, Paragraph.compile_of_usable hu links lines, ?_⟩
  exact Resolution.areStorable_resolve rules Content.nestingLimit 0 _
    (Content.areStorable_fragmentsOf links _)

/-- **Every text compiles under valid styles that come from sheets, from storage or from combining such
styles**; the document is valid, it is stored as text data, and what is loaded from the data equals the
document and is valid. -/
theorem compiled_round_trips {w : Whitelists} (options : CompileOptions) {styles : List Value}
    (s : Text) (hv : ∀ st ∈ styles, validStyle w st = true) (hp : ∀ st ∈ styles, Produced st) :
    ∃ c data, Document.compile w options styles s = .ok c ∧
      validDocument w c.document.toValue = true ∧
      save c.document.toValue = .ok data ∧ data.isTextData = true ∧
      Value.beq (loadDocument data) c.document.toValue = true ∧
      loadDocument data = c.document.toValue ∧ validDocument w (loadDocument data) = true := by
  have hvalid := Document.validStyle_contributing hv (Manuscript.ofText s).edgeMatter
  have hproduced : ∀ st ∈ Document.contributing w styles (Manuscript.ofText s).edgeMatter,
      Produced st := by
    intro st hst
    rcases List.mem_append.1 hst with hst | hst
    · exact hp st hst
    · rw [List.mem_singleton.1 hst]
      exact .sheet w _
  obtain ⟨rules, hrules, hu, -⟩ := RuleIndex.exists_ofValues hvalid
  obtain ⟨c, hc, hstyles, hparagraphs⟩ := Document.exists_compile options
    (R := fun _ p => areStorable p.contents = true) hrules
    fun lines => exists_compile_storable hu options.links lines
  have hstored : RoundTrips save loadDocument c.document.toValue := by
    refine roundTrips_document (fun p hmem => ?_) (fun st hst => ?_)
    · obtain ⟨lines, -, hp⟩ := exists_mem_of_forall₂ hparagraphs hmem
      exact hp
    · rw [hstyles] at hst
      exact roundTrips_style (hvalid st hst) ((hproduced st hst).hasPlainRules (hvalid st hst))
  obtain ⟨hnan, data, hsave, htext, hload⟩ := hstored
  have hdocument : validDocument w c.document.toValue = true :=
    validDocument_toValue (hstyles ▸ hvalid)
  refine ⟨c, data, hc, hdocument, hsave, htext, ?_, hload, ?_⟩
  · rw [hload]
    exact Value.beq_self hnan
  · rw [hload]
    exact hdocument

/-- A text with a heading rule from a sheet and an emphasis rule from storage. -/
theorem compiled_round_trips_sheet_and_storage :
    (∀ st ∈ [(Style.ofSheet ⟨.ofPatterns ["color".toList], .ofPatterns [], .ofPatterns []⟩
          "p note { color: red; }".toList).toValue,
        loadStyle (.dict [(.str "para".toList, .dict []), (.str "span".toList,
          .dict [(.str "*".toList, .dict [])])])],
      validStyle ⟨.ofPatterns ["color".toList], .ofPatterns [], .ofPatterns []⟩ st = true ∧
        Produced st) ∧
    ∃ c data,
      Document.compile ⟨.ofPatterns ["color".toList], .ofPatterns [], .ofPatterns []⟩ {}
        [(Style.ofSheet ⟨.ofPatterns ["color".toList], .ofPatterns [], .ofPatterns []⟩
            "p note { color: red; }".toList).toValue,
          loadStyle (.dict [(.str "para".toList, .dict []), (.str "span".toList,
            .dict [(.str "*".toList, .dict [])])])]
        "note\n*a* b".toList = .ok c ∧
      save c.document.toValue = .ok data ∧
      Value.beq (loadDocument data) c.document.toValue = true := by
  have hstyles : ∀ st ∈ [(Style.ofSheet ⟨.ofPatterns ["color".toList], .ofPatterns [], .ofPatterns []⟩
        "p note { color: red; }".toList).toValue,
      loadStyle (.dict [(.str "para".toList, .dict []), (.str "span".toList,
        .dict [(.str "*".toList, .dict [])])])],
      validStyle ⟨.ofPatterns ["color".toList], .ofPatterns [], .ofPatterns []⟩ st = true ∧
        Produced st := by
    intro st hst
    rcases List.mem_cons.1 hst with rfl | hst
    · exact ⟨validStyle_ofSheet _ _, .sheet _ _⟩
    · rw [List.mem_singleton.1 hst]
      exact ⟨rfl, .loaded rfl⟩
  refine ⟨hstyles, ?_⟩
  obtain ⟨c, data, hc, -, hsave, -, hequal, -⟩ := compiled_round_trips {} "note\n*a* b".toList
    (fun st hst => (hstyles st hst).1) (fun st hst => (hstyles st hst).2)
  exact ⟨c, data, hc, hsave, hequal⟩

end ProseMarkup.Storage
