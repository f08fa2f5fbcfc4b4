import ProseMarkup.Proofs.StyleValue
import ProseMarkup.Proofs.ValidStyle
import ProseMarkup.Style.RuleIndex

/-!
# The index of valid styles

Valid styles can be indexed, every closing delimiter in the index is usable, and a line selects a
paragraph rule just if one of the styles has a rule of that name.

* `RuleIndex.ruleNames` : the names of the paragraph rules of a style, as declared.
* `RuleIndex.exists_declarations` : what valid styles declare.
* `RuleIndex.exists_ofValues` : **valid styles have an index, without unusable delimiters**.
-/

namespace ProseMarkup.RuleIndex

open Storage

/-- The names of the paragraph rules of a value as a style. -/
def declaredNames : Value → List Value
  | .style (.dict paragraph) _ _ => paragraph.map Prod.fst
  | _ => []

/-- Whether openings and closing delimiters are all texts. -/
def areTexts (closers : List (Value × Value)) : Bool :=
  closers.all fun e => isText e.1 && isText e.2

theorem mem_declaredNames {w : Whitelists} {s : Value} (hs : validStyle w s = true) (name : Text) :
    .str name ∈ declaredNames s ↔ hasRuleNamed name s = true := by
  obtain ⟨ps, ss, container, rfl, -, -, -⟩ := validStyle_cases hs
  show Value.str name ∈ ps.map Prod.fst ↔ (ps.any fun e => e.1.isStr name) = true
  rw [List.mem_map, List.any_eq_true]
  constructor
  · rintro ⟨e, he, hkey⟩
    exact ⟨e, he, Value.isStr_iff.2 hkey⟩
  · rintro ⟨e, he, hkey⟩
    exact ⟨e, he, Value.isStr_iff.1 hkey⟩

/-- A valid span rule declares a text as its closing delimiter. -/
theorem exists_addSpanRule {w : Whitelist} {closers : List (Value × Value)}
    (hc : areTexts closers = true) {entry : Value × Value} (he : validSpanEntry w entry = true) :
    ∃ closers', Declarations.addSpanRule closers entry = .ok closers' ∧ areTexts closers' = true := by
  obtain ⟨opening, rule⟩ := entry
  rw [validSpanEntry, Bool.and_eq_true] at he
  obtain ⟨props, closer, hrule, hcloser, -⟩ := validSpanRule_cases he.2
  cases hrule
  rcases isOptionalText_cases hcloser with rfl | ⟨s, rfl⟩
  · exact ⟨Dict.setEntry opening opening closers, rfl, Dict.all_setEntry he.1 he.1 hc⟩
  · exact ⟨Dict.setEntry opening (.str s) closers, rfl, Dict.all_setEntry he.1 rfl hc⟩

/-- A valid style adds its names, and texts as delimiters. -/
theorem exists_add {w : Whitelists} {d : Declarations} (hd : areTexts d.closers = true) {s : Value}
    (hs : validStyle w s = true) :
    ∃ d', d.add s = .ok d' ∧ d'.names = d.names ++ declaredNames s ∧ areTexts d'.closers = true := by
  obtain ⟨ps, ss, container, rfl, -, hss, -⟩ := validStyle_cases hs
  obtain ⟨closers, hclosers, htexts⟩ := exists_foldlM (f := Declarations.addSpanRule)
    (fun closers => areTexts closers = true)
    (fun closers e hc he => exists_addSpanRule hc (List.all_eq_true.1 hss e he)) hd
  refine ⟨⟨d.names ++ ps.map Prod.fst, closers⟩, ?_, rfl, htexts⟩
  show (ss.foldlM Declarations.addSpanRule d.closers >>= fun closers => _) = _
  rw [hclosers]
  rfl

/-- **What valid styles declare**: the names of their rules, and texts as delimiters. -/
theorem exists_declarations {styles : List Value}
    (h : ∀ s ∈ styles, ∃ w, validStyle w s = true) {d : Declarations}
    (hd : areTexts d.closers = true) :
    ∃ d', styles.foldlM Declarations.add d = .ok d' ∧
      d'.names = d.names ++ styles.flatMap declaredNames ∧ areTexts d'.closers = true := by
  induction styles generalizing d with
  | nil => exact ⟨d, rfl, (List.append_nil _).symm, hd⟩
  | cons s styles ih =>
    obtain ⟨⟨w, hs⟩, hstyles⟩ := List.forall_mem_cons.1 h
    obtain ⟨next, hnext, hnames, htexts⟩ := exists_add hd hs
    obtain ⟨d', hrest, hnames', htexts'⟩ := ih hstyles htexts
    refine ⟨d', ?_, ?_, htexts'⟩
    · rw [List.foldlM_cons, hnext]
      exact hrest
    · rw [hnames', hnames, List.flatMap_cons, List.append_assoc]

/-- Delimiters that are texts are all usable. -/
theorem exists_addOpenings {closers : List (Value × Value)} (h : areTexts closers = true) :
    ∃ c : Dict Text Text × List (Text × Value),
      closers.foldlM addOpening (.empty, []) = .ok c ∧ c.2 = [] := by
  refine exists_foldlM (f := addOpening) (fun c => c.2 = []) (fun c e hc he => ?_) rfl
  have htexts := List.all_eq_true.1 h e he
  rw [Bool.and_eq_true] at htexts
  obtain ⟨opening, declared⟩ := e
  obtain ⟨o, rfl⟩ := isText_cases htexts.1
  obtain ⟨s, rfl⟩ := isText_cases htexts.2
  exact ⟨(c.1.set o s, c.2), rfl, hc⟩

/-- Styles that are valid, each under whitelists of its own, have an index: all its delimiters are usable,
and the lines that select paragraph rules are the names of the rules that the styles have. -/
theorem exists_ofValues_of_each {styles : List Value} (h : ∀ s ∈ styles, ∃ w, validStyle w s = true) :
    ∃ rules, ofValues styles = .ok rules ∧ rules.unusable = [] ∧
      ∀ line, rules.selects line = true ↔ ∃ s ∈ styles, hasRuleNamed line s = true := by
  obtain ⟨d, hd, hnames, htexts⟩ := exists_declarations h (d := ⟨[], []⟩) rfl
  obtain ⟨c, hc, hnone⟩ := exists_addOpenings htexts
  have hrules : ofValues styles = .ok
      { ruleNames := (d.names.filterMap text?).eraseDups
        otherNames := (d.names.filter fun n => (text? n).isNone).eraseDups
        closers := c.1
        unusable := c.2 } := by
    simp [ofValues, hd, hc]
  refine ⟨_, hrules, hnone, fun line => ?_⟩
  rw [selects, List.contains_iff_mem, List.mem_eraseDups, List.mem_filterMap, hnames]
  show (∃ n, n ∈ styles.flatMap declaredNames ∧ text? n = some line) ↔ _
  constructor
  · rintro ⟨n, hn, htext⟩
    obtain ⟨s, hs, hmem⟩ := List.mem_flatMap.1 hn
    have hstr : n = .str line := by
      cases n with
      | str t => cases htext; rfl
      | _ => cases htext
    rw [hstr] at hmem
    obtain ⟨w, hvalid⟩ := h s hs
    exact ⟨s, hs, (mem_declaredNames hvalid line).1 hmem⟩
  · rintro ⟨s, hs, hname⟩
    obtain ⟨w, hvalid⟩ := h s hs
    exact ⟨.str line, List.mem_flatMap.2 ⟨s, hs, (mem_declaredNames hvalid line).2 hname⟩, rfl⟩

/-- **Valid styles have an index** without unusable delimiters. -/
theorem exists_ofValues {w : Whitelists} {styles : List Value}
    (h : ∀ s ∈ styles, validStyle w s = true) :
    ∃ rules, ofValues styles = .ok rules ∧ rules.unusable = [] ∧
      ∀ line, rules.selects line = true ↔ ∃ s ∈ styles, hasRuleNamed line s = true :=
  exists_ofValues_of_each fun s hs => ⟨w, h s hs⟩

end ProseMarkup.RuleIndex
