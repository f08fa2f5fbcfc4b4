import ProseMarkup.Proofs.NormalForm
import ProseMarkup.Proofs.References

/-!
# Which spans are empty

A closing delimiter right after its opening one does not count, so that a span encloses something. This holds of
every closing delimiter but one: the empty text, which occurs everywhere, and which the search goes on past without
getting ahead. No sheet declares it. But stored styles may, and they are valid; their spans are then all empty.

* `Storage.hasEmptyCloser` : whether a style has a span rule whose closing delimiter is the empty text.
* `RuleIndex.closing_ne_nil` : without such rules no opening delimiter is closed by the empty text.
* `Document.empty_spans` : **a span is empty just if its closing delimiter is**.
* `Document.empty_span_of_valid_style` : a valid style, loaded from storage, with which there is an empty span.
-/

namespace ProseMarkup

namespace Storage

/-- Whether a span rule declares the empty text as its closing delimiter. -/
def closesEmpty : Value → Bool
  | .spanRule _ (.str []) => true
  | _ => false

/-- Whether a style has a span rule that declares the empty text as its closing delimiter. -/
def hasEmptyCloser : Value → Bool
  | .style _ (.dict span) _ => span.any fun e => closesEmpty e.2
  | _ => false

/-- A style of a sheet has no such rule. -/
theorem hasEmptyCloser_ofSheet (w : Whitelists) (sheet : Text) :
    hasEmptyCloser (Style.ofSheet w sheet).toValue = false := by
  show ((Style.ofSheet w sheet).span.entries.map fun e => (Value.str e.1, e.2.toValue)).any
    (fun e => closesEmpty e.2) = false
  rw [List.any_map, List.any_eq_false]
  intro e he
  obtain ⟨opening, props, closer⟩ := e
  cases closer with
  | none => exact Bool.false_ne_true
  | some closer =>
    cases closer with
    | nil =>
      have hcloser : (opening, []) ∈ (Style.ofSheet w sheet).closers.entries :=
        List.mem_map.2 ⟨_, he, rfl⟩
      exact absurd rfl (RuleIndex.closing_ne_nil_of_isLegible (Style.isLegible_ofSheet w sheet) hcloser)
    | cons c closer => exact Bool.false_ne_true

end Storage

/-! ### Empty closing delimiters in an index -/

namespace RuleIndex

/-- A declaration closes by the empty text nothing but the empty opening delimiter. -/
def IsSound (e : Value × Value) : Prop :=
  e.2 = .str [] → e.1 = .str []

theorem isSound_setEntry {k v : Value} (hkv : IsSound (k, v)) {es : List (Value × Value)}
    (h : ∀ e ∈ es, IsSound e) : ∀ e ∈ Dict.setEntry k v es, IsSound e := by
  induction es with
  | nil => exact List.forall_mem_singleton.2 hkv
  | cons f es ih =>
    obtain ⟨hf, hes⟩ := List.forall_mem_cons.1 h
    rw [Dict.setEntry]
    split
    · next hkey =>
      refine List.forall_mem_cons.2 ⟨fun hv => ?_, hes⟩
      have hk : k = .str [] := hkv hv
      rw [hk] at hkey
      exact Value.isStr_iff.1 (Value.isStr_of_beq hkey)
    · exact List.forall_mem_cons.2 ⟨hf, ih hes⟩

/-- A span rule that does not declare the empty text. -/
theorem isSound_declaredCloser {entry : Value × Value} (h : Storage.closesEmpty entry.2 = false) :
    IsSound (entry.1, declaredCloser entry) := by
  intro hv
  obtain ⟨opening, rule⟩ := entry
  cases rule with
  | spanRule props closer =>
    cases closer with
    | str t =>
      obtain rfl : t = [] := Value.str.inj hv
      cases h
    | null => exact hv
    | _ => cases hv
  | _ => exact hv

/-- One more declaration, as long as all declarations are usable. -/
theorem nil_of_addOpening {c c' : Dict Text Text × List (Text × Value)} {entry : Value × Value}
    (h : addOpening c entry = .ok c') (hentry : IsSound entry)
    (hc : c.2 = [] → ∀ e ∈ c.1.entries, e.2 = [] → e.1 = []) :
    c'.2 = [] → ∀ e ∈ c'.1.entries, e.2 = [] → e.1 = [] := by
  obtain ⟨opening, hopening, h⟩ := addOpening_cases h
  intro hnone e he hnil
  rcases h with ⟨closer, hcloser, rfl⟩ | rfl
  · rcases Dict.mem_entries_set he with he | rfl
    · exact hc hnone e he hnil
    · have hempty : closer = [] := hnil
      rw [hempty] at hcloser
      exact Value.str.inj (hopening.symm.trans (hentry hcloser))
  · exact absurd hnone (List.append_ne_nil_of_right_ne_nil _ (List.cons_ne_nil _ _))

/-- **In an index of styles none of whose rules declares the empty text, no opening delimiter is closed by it**, except
the empty one. -/
theorem closing_ne_nil {styles : List Value} {rules : RuleIndex} (h : ofValues styles = .ok rules)
    (hu : rules.unusable = []) (hs : ∀ s ∈ styles, Storage.hasEmptyCloser s = false) {opening : Text}
    (ho : opening ∈ rules.closers.keys) (hne : opening ≠ []) : rules.closing opening ≠ [] := by
  obtain ⟨d, hd, h⟩ := bind_eq_ok.1 h
  obtain ⟨c, hc, h⟩ := bind_eq_ok.1 h
  cases h
  have hsound : ∀ e ∈ d.closers, IsSound e := by
    refine closers_kept (P := fun closers => ∀ e ∈ closers, IsSound e) ?_ (fun e he => by cases he) hd
    intro paragraph span container hmem entry hentry closers hkept
    have hempty := List.any_eq_false.1 (hs _ hmem) entry hentry
    exact isSound_setEntry (isSound_declaredCloser (Bool.eq_false_iff.2 hempty)) hkept
  have hnil : c.2 = [] → ∀ e ∈ c.1.entries, e.2 = [] → e.1 = [] :=
    foldlM_kept (f := addOpening) (fun c => c.2 = [] → ∀ e ∈ c.1.entries, e.2 = [] → e.1 = [])
      (fun c e c' hkept hmem hstep => nil_of_addOpening hstep (hsound e hmem) hkept)
      (fun _ e he => by cases he) hc
  obtain ⟨closer, hget, hmem⟩ := Dict.exists_get?_of_mem_keys ho
  intro hclosing
  rw [closing, hget] at hclosing
  exact hne (hnil hu _ hmem hclosing)

end RuleIndex

/-! ### Texts -/

/-- Which spans of a paragraph are empty: those whose closing delimiter is, and so none if no opening delimiter is
closed by the empty text. -/
structure Paragraph.EmptySpans (rules : RuleIndex) (p : Paragraph) : Prop where
  closed : ∀ span ∈ Content.allSpans p.contents, span.2 = [] ↔ rules.closing span.1 = []
  filled : (∀ opening ∈ rules.closers.keys, opening ≠ [] → rules.closing opening ≠ []) →
    Content.areFilled p.contents = true

theorem Paragraph.exists_compile_emptySpans {rules : RuleIndex} (hu : rules.unusable = []) (links : Bool)
    (lines : List Text) :
    ∃ p, Paragraph.compile rules links lines = .ok p ∧ p.paragraph.EmptySpans rules := by
  have hf := Content.areFragments_fragmentsOf links (bodyText rules lines)
  have hc := Content.areCanonical_fragmentsOf links (bodyText rules lines)
  exact ⟨_, compile_of_usable hu links lines, Resolution.allSpans_resolve 0 _ hf hc,
    fun hclosing => Resolution.areFilled_resolve hclosing 0 _ hf hc⟩

/-- **A span is empty just if its closing delimiter is.** Under styles that are valid, whatever the whitelists they were
checked against, every text compiles, and the empty spans in it, at any depth, are those that the empty text closes.
So there are none if no span rule of the styles declares the empty text as its closing delimiter; the edge matter of
the text never does. -/
theorem Document.empty_spans (w : Whitelists) (options : CompileOptions) {styles : List Value}
    (h : ∀ st ∈ styles, ∃ v, Storage.validStyle v st = true) (s : Text) :
    ∃ rules c, RuleIndex.ofValues (contributing w styles (Manuscript.ofText s).edgeMatter) = .ok rules ∧
      compile w options styles s = .ok c ∧
      (∀ p ∈ c.document.paragraphs, ∀ span ∈ Content.allSpans p.contents,
        span.2 = [] ↔ rules.closing span.1 = []) ∧
      ((∀ st ∈ styles, Storage.hasEmptyCloser st = false) →
        ∀ p ∈ c.document.paragraphs, Content.areFilled p.contents = true) := by
  obtain ⟨rules, hrules, hu, -⟩ :=
    RuleIndex.exists_ofValues_of_each (valid_contributing (w := w) h (Manuscript.ofText s).edgeMatter)
  obtain ⟨c, hc, -, hparagraphs⟩ := exists_compile options hrules fun lines =>
    Paragraph.exists_compile_emptySpans hu options.links lines
  refine ⟨rules, c, hrules, hc, fun p hp => ?_, fun hs p hp => ?_⟩
  · obtain ⟨lines, -, hspans⟩ := exists_mem_of_forall₂ hparagraphs hp
    exact hspans.closed
  · obtain ⟨lines, -, hspans⟩ := exists_mem_of_forall₂ hparagraphs hp
    have hall := forall_contributing hs (Storage.hasEmptyCloser_ofSheet w (Manuscript.ofText s).edgeMatter)
    exact hspans.filled fun opening ho hne => RuleIndex.closing_ne_nil hrules hu hall ho hne

/-- Delimiters that enclose nothing, and a link in a span. -/
theorem Document.empty_spans_link_in_span :
    (∀ st ∈ [Value.style (.dict []) (.dict [(.str ['*'], .spanRule (.dict []) .null)]) .null],
      ∃ v, Storage.validStyle v st = true) ∧
    (∀ st ∈ [Value.style (.dict []) (.dict [(.str ['*'], .spanRule (.dict []) .null)]) .null],
      Storage.hasEmptyCloser st = false) ∧
    ∃ c, compile ⟨.ofPatterns [], .ofPatterns [], .ofPatterns []⟩ {}
        [.style (.dict []) (.dict [(.str ['*'], .spanRule (.dict []) .null)]) .null]
        "a ** *[u](b)*".toList = .ok c ∧
      ∀ p ∈ c.document.paragraphs, Content.areFilled p.contents = true := by
  have hvalid : ∀ st ∈ [Value.style (.dict []) (.dict [(.str ['*'], .spanRule (.dict []) .null)]) .null],
      ∃ v, Storage.validStyle v st = true :=
    List.forall_mem_singleton.2 ⟨⟨.ofPatterns [], .ofPatterns [], .ofPatterns []⟩, rfl⟩
  have hnone : ∀ st ∈ [Value.style (.dict []) (.dict [(.str ['*'], .spanRule (.dict []) .null)]) .null],
      Storage.hasEmptyCloser st = false :=
    List.forall_mem_singleton.2 rfl
  obtain ⟨-, c, -, hc, -, hfilled⟩ := empty_spans ⟨.ofPatterns [], .ofPatterns [], .ofPatterns []⟩ {} hvalid
    "a ** *[u](b)*".toList
  exact ⟨hvalid, hnone, c, hc, hfilled hnone⟩

/-- A style loaded from storage with the empty text as a closing delimiter is valid, and with it a text has an empty
span. -/
theorem Document.empty_span_of_valid_style :
    Storage.validStyle ⟨.ofPatterns [], .ofPatterns [], .ofPatterns []⟩
        (Storage.loadStyle (.dict [(.str "para".toList, .dict []),
          (.str "span".toList, .dict [(.str ['*'], .dict [(.str "props".toList, .dict []),
            (.str "endPattern".toList, .str [])])])])) = true ∧
    ∃ c, compile ⟨.ofPatterns [], .ofPatterns [], .ofPatterns []⟩ {}
        [Storage.loadStyle (.dict [(.str "para".toList, .dict []),
          (.str "span".toList, .dict [(.str ['*'], .dict [(.str "props".toList, .dict []),
            (.str "endPattern".toList, .str [])])])])] "a*b".toList = .ok c ∧
      ∃ p ∈ c.document.paragraphs, (['*'], []) ∈ Content.allSpans p.contents := by
  refine ⟨by decide +kernel, ?_⟩
  have hempty : (compile ⟨.ofPatterns [], .ofPatterns [], .ofPatterns []⟩ {}
      [Storage.loadStyle (.dict [(.str "para".toList, .dict []),
        (.str "span".toList, .dict [(.str ['*'], .dict [(.str "props".toList, .dict []),
          (.str "endPattern".toList, .str [])])])])] "a*b".toList).toOption.any
      (fun c => c.document.paragraphs.any fun p => (Content.allSpans p.contents).any fun span =>
        span.1 == ['*'] && span.2.isEmpty) = true := by
    decide +kernel
  cases hc : compile ⟨.ofPatterns [], .ofPatterns [], .ofPatterns []⟩ {}
      [Storage.loadStyle (.dict [(.str "para".toList, .dict []),
        (.str "span".toList, .dict [(.str ['*'], .dict [(.str "props".toList, .dict []),
          (.str "endPattern".toList, .str [])])])])] "a*b".toList with
  | error e =>
    rw [hc] at hempty
    cases hempty
  | ok c =>
    rw [hc] at hempty
    obtain ⟨p, hp, hspans⟩ := List.any_eq_true.1 hempty
    obtain ⟨⟨opening, contents⟩, hspan, hkey⟩ := List.any_eq_true.1 hspans
    rw [Bool.and_eq_true] at hkey
    obtain rfl : opening = ['*'] := eq_of_beq hkey.1
    obtain rfl : contents = [] := List.isEmpty_iff.1 hkey.2
    exact ⟨c, rfl, p, hp, hspan⟩

end ProseMarkup
