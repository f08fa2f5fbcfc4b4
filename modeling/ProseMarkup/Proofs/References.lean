import ProseMarkup.Proofs.SourceKept
import ProseMarkup.Proofs.StoredContent

/-!
# References to rules

A compiled paragraph names the rules that apply to it, and each of its spans names a rule by its opening
delimiter. Whoever renders the text looks the rules up in the styles that come with it, and finds them all. For
spans this has to be followed all the way: from the style that declares an opening delimiter to the index, into
the prefix tree, and out of it again as a piece of the text.

* `Storage.hasSpanRule` : whether a style has a span rule under an opening delimiter.
* `RuleIndex.closers_kept`, `RuleIndex.addOpening_cases` : what the styles, and their declarations, add to an index.
* `RuleIndex.exists_hasSpanRule` : **every opening delimiter of an index is declared by a style**.
* `Paragraph.ReferTo` : all rules that a paragraph refers to are there.
* `Document.no_dangling_references` : **a compiled text refers to no rule that its styles do not have**.
-/

namespace ProseMarkup

/-- The keys after an entry is written: no key but that of the entry is new. -/
theorem Dict.fst_of_mem_setEntry {κ ν : Type} [BEq κ] {k : κ} {v : ν} {es : List (κ × ν)} {e : κ × ν}
    (h : e ∈ setEntry k v es) : e.1 = k ∨ e.1 ∈ es.map Prod.fst := by
  induction es with
  | nil =>
    rw [setEntry, List.mem_singleton] at h
    exact .inl (congrArg Prod.fst h)
  | cons f es ih =>
    rw [setEntry] at h
    rw [List.map_cons, List.mem_cons]
    split at h
    · rcases List.mem_cons.1 h with rfl | h
      · exact .inr (.inl rfl)
      · exact .inr (.inr (List.mem_map_of_mem h))
    · rcases List.mem_cons.1 h with rfl | h
      · exact .inr (.inl rfl)
      · exact (ih h).imp id .inr

/-- Whether a dictionary of a style has a span rule under an opening delimiter. -/
def Storage.hasSpanRule (opening : Text) : Value → Bool
  | .style _ (.dict span) _ => span.any fun e => e.1.isStr opening
  | _ => false

/-! ### The opening delimiters of an index -/

namespace RuleIndex

/-- The opening delimiters of the span rules of a value as a style. -/
def declaredOpenings : Value → List Value
  | .style _ (.dict span) _ => span.map Prod.fst
  | _ => []

theorem mem_declaredOpenings {opening : Text} {s : Value} (h : .str opening ∈ declaredOpenings s) :
    Storage.hasSpanRule opening s = true := by
  cases s with
  | style paragraph span container =>
    cases span with
    | dict es =>
      obtain ⟨e, he, hkey⟩ := List.mem_map.1 h
      exact List.any_eq_true.2 ⟨e, he, Value.isStr_iff.2 hkey⟩
    | _ => cases h
  | _ => cases h

/-- What an entry for a span rule declares to close its opening delimiter. -/
def declaredCloser : Value × Value → Value
  | (opening, .spanRule _ .null) => opening
  | (_, .spanRule _ closer) => closer
  | (opening, _) => opening

/-- A span rule that is added writes what it declares under its opening delimiter. -/
theorem addSpanRule_eq_ok {closers closers' : List (Value × Value)} {entry : Value × Value}
    (h : Declarations.addSpanRule closers entry = .ok closers') :
    closers' = Dict.setEntry entry.1 (declaredCloser entry) closers := by
  obtain ⟨closer, hcloser, h⟩ := bind_eq_ok.1 h
  obtain ⟨opening, rule⟩ := entry
  cases rule with
  | spanRule props c =>
    obtain rfl : c = closer := Except.ok.inj hcloser
    cases c <;> exact (Except.ok.inj h).symm
  | _ => cases hcloser

/-- What holds of the closing delimiters before any style is added, and stays so with each span rule that is written,
holds after all styles. -/
theorem closers_kept {styles : List Value} {P : List (Value × Value) → Prop}
    (hstep : ∀ paragraph span container, .style paragraph (.dict span) container ∈ styles →
      ∀ entry ∈ span, ∀ closers, P closers → P (Dict.setEntry entry.1 (declaredCloser entry) closers))
    {d d' : Declarations} (hd : P d.closers) (h : styles.foldlM Declarations.add d = .ok d') :
    P d'.closers := by
  refine foldlM_kept (f := Declarations.add) (fun d => P d.closers) (fun d s d' hd hs hadd => ?_) hd h
  cases s with
  | style paragraph span container =>
    obtain ⟨ps, -, hadd⟩ := bind_eq_ok.1 hadd
    obtain ⟨es, hes, hadd⟩ := bind_eq_ok.1 hadd
    obtain ⟨closers, hclosers, hadd⟩ := bind_eq_ok.1 hadd
    cases hadd
    cases span with
    | dict span =>
      obtain rfl : span = es := Except.ok.inj hes
      refine foldlM_kept P (fun closers entry closers' hP hentry hrule => ?_) hd hclosers
      rw [addSpanRule_eq_ok hrule]
      exact hstep paragraph span container hs entry hentry closers hP
    | _ => cases hes
  | _ => cases hadd

/-- A declaration that is added writes its closing delimiter under its opening one, both texts; or it is recorded as
unusable. -/
theorem addOpening_cases {c c' : Dict Text Text × List (Text × Value)} {entry : Value × Value}
    (h : addOpening c entry = .ok c') : ∃ opening, entry.1 = .str opening ∧
      ((∃ closer, entry.2 = .str closer ∧ c' = (c.1.set opening closer, c.2)) ∨
        c' = (c.1.set opening [], c.2 ++ [(opening, entry.2)])) := by
  obtain ⟨opening, hopening, h⟩ := bind_eq_ok.1 h
  obtain ⟨key, declared⟩ := entry
  cases key with
  | str o =>
    cases hopening
    refine ⟨opening, rfl, ?_⟩
    cases declared with
    | str closer => exact .inl ⟨closer, rfl, (Except.ok.inj h).symm⟩
    | _ => exact .inr (Except.ok.inj h).symm
  | _ => cases hopening

/-- No opening delimiter but those that are declared is in the index. -/
theorem openings_addOpening {c c' : Dict Text Text × List (Text × Value)} {entry : Value × Value}
    (h : addOpening c entry = .ok c') {o : Text} (ho : o ∈ c'.1.keys) :
    .str o = entry.1 ∨ o ∈ c.1.keys := by
  obtain ⟨opening, hopening, h⟩ := addOpening_cases h
  have hset : ∃ v, c'.1 = c.1.set opening v := by
    rcases h with ⟨closer, -, rfl⟩ | rfl
    · exact ⟨closer, rfl⟩
    · exact ⟨[], rfl⟩
  obtain ⟨v, hset⟩ := hset
  rw [hset, Dict.keys_set] at ho
  split at ho
  · exact .inr ho
  · rcases List.mem_append.1 ho with ho | ho
    · exact .inr ho
    · rw [hopening, List.mem_singleton.1 ho]
      exact .inl rfl

/-- **Every opening delimiter of an index is declared by a style.** -/
theorem exists_hasSpanRule {styles : List Value} {rules : RuleIndex} (h : ofValues styles = .ok rules)
    {opening : Text} (ho : opening ∈ rules.closers.keys) :
    ∃ s ∈ styles, Storage.hasSpanRule opening s = true := by
  obtain ⟨d, hd, h⟩ := bind_eq_ok.1 h
  obtain ⟨c, hc, h⟩ := bind_eq_ok.1 h
  cases h
  have hdeclared : .str opening ∈ d.closers.map Prod.fst := by
    refine foldlM_kept (f := addOpening) (fun c => ∀ o ∈ c.1.keys, .str o ∈ d.closers.map Prod.fst)
      (fun c e c' hkept he hstep o ho => ?_) (fun o ho => by cases ho) hc opening ho
    rcases openings_addOpening hstep ho with hkey | ho
    · rw [hkey]
      exact List.mem_map_of_mem he
    · exact hkept o ho
  have hstyle : .str opening ∈ styles.flatMap declaredOpenings := by
    refine closers_kept (P := fun closers => ∀ o ∈ closers.map Prod.fst, o ∈ styles.flatMap declaredOpenings)
      ?_ (fun o ho => by cases ho) hd _ hdeclared
    intro paragraph span container hs entry hentry closers hkept o ho
    obtain ⟨e, he, rfl⟩ := List.mem_map.1 ho
    rcases Dict.fst_of_mem_setEntry he with hkey | he
    · rw [hkey]
      exact List.mem_flatMap.2 ⟨_, hs, List.mem_map_of_mem hentry⟩
    · exact hkept _ he
  obtain ⟨s, hs, hmem⟩ := List.mem_flatMap.1 hstyle
  exact ⟨s, hs, mem_declaredOpenings hmem⟩

end RuleIndex

/-! ### Paragraphs and documents -/

/-- All rules that a paragraph refers to are there: those that it names, and those that its spans name by
their opening delimiters, which are not empty. Its content is made of texts, links and spans alone, so that
there are no spans but these. -/
structure Paragraph.ReferTo (styles : List Value) (p : Paragraph) : Prop where
  names : ∀ name ∈ p.styles, ∃ st ∈ styles, Storage.hasRuleNamed name st = true
  openings : ∀ opening ∈ Content.allOpenings p.contents,
    opening ≠ [] ∧ ∃ st ∈ styles, Storage.hasSpanRule opening st = true
  storable : Content.areStorable p.contents = true

/-- A paragraph compiled under an index of styles refers to rules of theirs. -/
theorem Paragraph.exists_compile_referTo {styles : List Value} {rules : RuleIndex}
    (hrules : RuleIndex.ofValues styles = .ok rules) (hu : rules.unusable = [])
    (hselects : ∀ line, rules.selects line = true ↔
      ∃ st ∈ styles, Storage.hasRuleNamed line st = true) (links : Bool) (lines : List Text) :
    ∃ p, Paragraph.compile rules links lines = .ok p ∧ p.paragraph.ReferTo styles := by
  refine ⟨_, compile_of_usable hu links lines, ?_, ?_, ?_⟩
  · intro name hname
    exact (hselects name).1 (selects_of_mem_ruleLines hname)
  · refine Resolution.openings_resolve_of rules Content.nestingLimit ?_ 0 _
      (Content.areFragments_fragmentsOf links _)
    intro s later span hspan
    obtain ⟨hlength, -, -⟩ := Span.find?_bounds hspan
    exact ⟨List.ne_nil_of_length_pos hlength,
      RuleIndex.exists_hasSpanRule hrules (Span.opening_mem_keys hspan)⟩
  · exact Resolution.areStorable_resolve rules Content.nestingLimit 0 _
      (Content.areStorable_fragmentsOf links _)

/-- **A compiled text refers to no rule that its styles do not have.** Under styles that are valid, whatever the
whitelists they were checked against, every text compiles, and all rules that its paragraphs refer to, at any
depth, are rules of the styles in the compiled text. -/
theorem Document.no_dangling_references (w : Whitelists) (options : CompileOptions) {styles : List Value}
    (h : ∀ st ∈ styles, ∃ v, Storage.validStyle v st = true) (s : Text) :
    ∃ c, compile w options styles s = .ok c ∧
      ∀ p ∈ c.document.paragraphs, p.ReferTo c.document.styles := by
  obtain ⟨rules, hrules, hu, hselects⟩ :=
    RuleIndex.exists_ofValues_of_each (valid_contributing (w := w) h (Manuscript.ofText s).edgeMatter)
  obtain ⟨c, hc, hstyles, hparagraphs⟩ := exists_compile options hrules
    fun lines => Paragraph.exists_compile_referTo hrules hu hselects options.links lines
  refine ⟨c, hc, fun p hp => ?_⟩
  obtain ⟨lines, -, hp⟩ := exists_mem_of_forall₂ hparagraphs hp
  rw [hstyles]
  exact hp

/-- A rule that is named in the first line, a span in a link in a span, and a rule without an opening
delimiter. -/
theorem Document.no_dangling_references_nested :
    (∀ st ∈ [Value.style (.dict [(.str "note".toList, .rule (.dict []))])
          (.dict [(.str "*".toList, .spanRule (.dict []) .null),
            (.str [], .spanRule (.dict []) .null)]) .null],
        ∃ v, Storage.validStyle v st = true) ∧
    ∃ c, compile ⟨.ofPatterns [], .ofPatterns [], .ofPatterns []⟩ {}
        [.style (.dict [(.str "note".toList, .rule (.dict []))])
          (.dict [(.str "*".toList, .spanRule (.dict []) .null),
            (.str [], .spanRule (.dict []) .null)]) .null]
        "---\ns _ \x7b\x7d\n---\nnote\n*a [u](b _c_)* d".toList = .ok c ∧
      ∀ p ∈ c.document.paragraphs, p.ReferTo c.document.styles := by
  have hvalid : ∀ st ∈ [Value.style (.dict [(.str "note".toList, .rule (.dict []))])
      (.dict [(.str "*".toList, .spanRule (.dict []) .null),
        (.str [], .spanRule (.dict []) .null)]) .null], ∃ v, Storage.validStyle v st = true := by
    intro st hst
    rw [List.mem_singleton.1 hst]
    exact ⟨⟨.ofPatterns [], .ofPatterns [], .ofPatterns []⟩, rfl⟩
  exact ⟨hvalid, no_dangling_references ⟨.ofPatterns [], .ofPatterns [], .ofPatterns []⟩ {} hvalid _⟩

end ProseMarkup
