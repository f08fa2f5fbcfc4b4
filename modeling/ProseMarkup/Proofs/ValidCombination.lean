import ProseMarkup.Compiler
import ProseMarkup.Proofs.StyleValue
import ProseMarkup.Proofs.ValidStyle

/-!
# Combinations of valid styles

Combining styles that have not been validated may fail. Valid ones combine to a valid one, rule by
rule; and since a combination keeps every rule name, the styles of a compiler can be used on their own,
combined or not.

* `Value.Combination.Valid` : the invariant, that the rules gathered are valid.
* `Storage.exists_combine` : **valid styles combine, and to a valid style**.
* `Compiler.acceptsStyle_style`, `Compiler.exists_combine_style` : **a compiler accepts the styles of
  its sheets, and every combination of them**.
-/

namespace ProseMarkup

open Storage

/-! ### Valid rules -/

namespace Value

variable {w : Whitelist}

theorem exists_overlayProps {p other : Value} (hp : validProps w p = true)
    (hother : validRule w other = true) :
    ∃ v, overlayProps p other = .ok v ∧ validProps w v = true := by
  obtain ⟨lower, rfl, hlower⟩ := validProps_cases hp
  obtain ⟨upper, hprops, hupper⟩ := validRule_props hother
  refine ⟨dict (Dict.overlayEntries lower upper), ?_, Dict.all_overlayEntries hlower hupper⟩
  rw [overlayProps, hprops]
  rfl

/-- One valid rule laid over another. -/
theorem exists_overlaidBy {r other : Value} (hr : validRule w r = true)
    (hother : validRule w other = true) : ∃ v, overlaidBy r other = .ok v ∧ validRule w v = true := by
  cases r with
  | rule p =>
    obtain ⟨v, hv, hvalid⟩ := exists_overlayProps (p := p) hr hother
    refine ⟨rule v, ?_, hvalid⟩
    rw [overlaidBy, hv]
    rfl
  | spanRule p c =>
    obtain ⟨v, hv, hvalid⟩ := exists_overlayProps (p := p) hr hother
    refine ⟨spanRule v c, ?_, hvalid⟩
    rw [overlaidBy, hv]
    rfl
  | _ => cases hr

theorem validRule_of_validSpanRule {r : Value} (h : validSpanRule w r = true) :
    validRule w r = true := by
  obtain ⟨props, closer, rfl, -, hprops⟩ := validSpanRule_cases h
  exact hprops

/-- One valid span rule laid over another. -/
theorem exists_overlaidBy_span {r other : Value} (hr : validSpanRule w r = true)
    (hother : validSpanRule w other = true) :
    ∃ v, overlaidBy r other = .ok v ∧ validSpanRule w v = true := by
  obtain ⟨props, closer, rfl, hcloser, hprops⟩ := validSpanRule_cases hr
  obtain ⟨v, hv, hvalid⟩ := exists_overlayProps (p := .dict props) hprops
    (validRule_of_validSpanRule hother)
  refine ⟨spanRule v closer, ?_, ?_⟩
  · rw [overlaidBy, hv]
    rfl
  · rw [validSpanRule, hcloser, hvalid]
    rfl

theorem exists_adoptRule {r : Value} (hr : validRule w r = true) :
    ∃ v, adoptRule r = .ok v ∧ validRule w v = true := by
  obtain ⟨props, hp, hprops⟩ := validRule_props hr
  refine ⟨rule (dict props), ?_, hprops⟩
  rw [adoptRule, hp]
  rfl

theorem exists_adoptSpanRule {r : Value} (hr : validSpanRule w r = true) :
    ∃ v, adoptSpanRule r = .ok v ∧ validSpanRule w v = true := by
  obtain ⟨props, closer, rfl, hcloser, hprops⟩ := validSpanRule_cases hr
  refine ⟨spanRule (dict props) closer, rfl, ?_⟩
  rw [validSpanRule, hcloser]
  exact hprops

/-- A namespace after one more rule, if rules that pass a check can be adopted and laid over each other
so that they still pass it. -/
theorem exists_combineRule {q : Value → Bool} {adopt : Value → Except Fault Value}
    (hadopt : ∀ r, q r = true → ∃ v, adopt r = .ok v ∧ q v = true)
    (hover : ∀ r s, q r = true → q s = true → ∃ v, overlaidBy r s = .ok v ∧ q v = true)
    {rules : List (Value × Value)} (hrules : rules.all (fun e => isText e.1 && q e.2) = true)
    {entry : Value × Value} (hentry : (isText entry.1 && q entry.2) = true) :
    ∃ rules', combineRule adopt rules entry = .ok rules' ∧
      rules'.all (fun e => isText e.1 && q e.2) = true := by
  rw [Bool.and_eq_true] at hentry
  cases hlookup : Dict.lookupEntry entry.1 rules with
  | none =>
    obtain ⟨v, hv, hq⟩ := hadopt entry.2 hentry.2
    refine ⟨Dict.setEntry entry.1 v rules, ?_, Dict.all_setEntry hentry.1 hq hrules⟩
    rw [combineRule_of_none hlookup, hv]
    rfl
  | some existing =>
    obtain ⟨v, hv, hq⟩ := hover existing entry.2 (Dict.all_lookupEntry hrules hlookup) hentry.2
    refine ⟨Dict.setEntry entry.1 v rules, ?_, Dict.all_setEntry hentry.1 hq hrules⟩
    rw [combineRule_of_some hlookup, hv]
    rfl

theorem exists_combineContainer {existing new : Value} (he : validContainer w existing = true)
    (hn : validContainer w new = true) :
    ∃ v, combineContainer existing new = .ok v ∧ validContainer w v = true := by
  have hrule : ∀ v, validRule w v = true → validContainer w v = true := by
    intro v hv
    cases v with
    | null => rfl
    | _ => exact hv
  rcases validContainer_cases hn with rfl | ⟨hne, hnew⟩
  · exact ⟨existing, rfl, he⟩
  · rw [combineContainer_of_ne hne]
    rcases validContainer_cases he with rfl | ⟨hne', hold⟩
    · obtain ⟨v, hv, hvalid⟩ := exists_adoptRule hnew
      exact ⟨v, hv, hrule v hvalid⟩
    · obtain ⟨v, hv, hvalid⟩ := exists_overlaidBy hold hnew
      refine ⟨v, ?_, hrule v hvalid⟩
      cases existing with
      | null => exact absurd rfl hne'
      | _ => exact hv

/-! ### Valid styles -/

/-- The rules gathered are valid. -/
structure Combination.Valid (w : Whitelists) (c : Combination) : Prop where
  paragraph : c.paragraph.all (validParagraphEntry w.paragraph) = true
  span : c.span.all (validSpanEntry w.span) = true
  container : validContainer w.container c.container = true

/-- A valid style can be added to valid rules, and they stay valid. -/
theorem Combination.Valid.exists_add {w : Whitelists} {c : Combination} (hc : c.Valid w)
    {style : Value} (hs : validStyle w style = true) : ∃ c', c.add style = .ok c' ∧ c'.Valid w := by
  obtain ⟨ps, ss, container, rfl, hps, hss, hcontainer⟩ := validStyle_cases hs
  obtain ⟨paragraph, hparagraph, hpvalid⟩ :=
    exists_foldlM (f := combineRule adoptRule)
      (fun rules => rules.all (validParagraphEntry w.paragraph) = true)
      (fun rules e hrules he => exists_combineRule (fun r => exists_adoptRule)
        (fun r s => exists_overlaidBy) hrules (List.all_eq_true.1 hps e he)) hc.paragraph
  obtain ⟨span, hspan, hsvalid⟩ :=
    exists_foldlM (f := combineRule adoptSpanRule)
      (fun rules => rules.all (validSpanEntry w.span) = true)
      (fun rules e hrules he => exists_combineRule (fun r => exists_adoptSpanRule)
        (fun r s => exists_overlaidBy_span) hrules (List.all_eq_true.1 hss e he)) hc.span
  obtain ⟨merged, hmerged, hcvalid⟩ := exists_combineContainer hc.container hcontainer
  refine ⟨⟨paragraph, span, merged⟩, ?_, hpvalid, hsvalid, hcvalid⟩
  simp only [Combination.add, entries, bind_ok, hparagraph, hspan, hmerged]
  rfl

end Value

/-- **Valid styles combine, and what they combine to is valid.** -/
theorem Storage.exists_combine {w : Whitelists} {styles : List Value}
    (h : ∀ s ∈ styles, validStyle w s = true) :
    ∃ v, Value.combine styles = .ok v ∧ validStyle w v = true := by
  have hstart : (⟨[], [], .null⟩ : Value.Combination).Valid w := ⟨rfl, rfl, rfl⟩
  obtain ⟨c, hc, hvalid⟩ := exists_foldlM (fun c : Value.Combination => c.Valid w)
    (fun c s hc hs => hc.exists_add (h s hs)) hstart
  refine ⟨.style (.dict c.paragraph) (.dict c.span) c.container, ?_, ?_⟩
  · rw [Value.combine, hc]
    rfl
  · rw [validStyle, hvalid.paragraph, hvalid.span, hvalid.container]
    rfl

/-! ### The styles of a compiler -/

namespace Compiler

variable (c : Compiler)

theorem validStyle_defaultStyle : validStyle c.whitelists c.defaultStyle.toValue = true := rfl

/-- **A compiler accepts the style of every sheet.** -/
theorem acceptsStyle_style (sheet : Text) : c.acceptsStyle (c.style sheet).toValue = true := by
  have hcombine := Value.combine_toValue [c.defaultStyle, Style.ofSheet c.whitelists sheet]
  have hvalid : ∀ s ∈ [c.defaultStyle, Style.ofSheet c.whitelists sheet].map Style.toValue,
      validStyle c.whitelists s = true := by
    intro s hs
    rcases List.mem_cons.1 hs with rfl | hs
    · exact c.validStyle_defaultStyle
    · rw [List.mem_singleton.1 hs]
      exact validStyle_ofSheet c.whitelists sheet
  obtain ⟨v, hv, hok⟩ := exists_combine hvalid
  have hstyle : v = (c.style sheet).toValue := Except.ok.inj (hv.symm.trans hcombine)
  subst hstyle
  have hname : hasRuleNamed c.defaultRule c.defaultStyle.toValue = true := by
    show (Value.isStr c.defaultRule (.str c.defaultRule) || false) = true
    rw [Value.isStr_iff.2 rfl]
    rfl
  rw [acceptsStyle, completeStyle, hok, hasRuleNamed_combine hv List.mem_cons_self hname]
  rfl

/-- **A compiler accepts every combination of its styles**, except that of none. -/
theorem exists_combine_style {sheets : List Text} (hne : sheets ≠ []) :
    ∃ v, Value.combine (sheets.map fun sheet => (c.style sheet).toValue) = .ok v ∧
      c.acceptsStyle v = true := by
  have haccepted : ∀ s ∈ sheets.map fun sheet => (c.style sheet).toValue,
      validStyle c.whitelists s = true ∧ hasRuleNamed c.defaultRule s = true := by
    intro s hs
    obtain ⟨sheet, -, rfl⟩ := List.mem_map.1 hs
    have h := c.acceptsStyle_style sheet
    rw [acceptsStyle, completeStyle, Bool.and_eq_true] at h
    exact h
  obtain ⟨v, hv, hvalid⟩ := exists_combine fun s hs => (haccepted s hs).1
  refine ⟨v, hv, ?_⟩
  obtain ⟨sheet, hsheet⟩ := List.exists_mem_of_ne_nil sheets hne
  have hmem : (c.style sheet).toValue ∈ sheets.map fun sheet => (c.style sheet).toValue :=
    List.mem_map_of_mem hsheet
  rw [acceptsStyle, completeStyle, hvalid, hasRuleNamed_combine hv hmem (haccepted _ hmem).2]
  rfl

end Compiler

/-- **Every style that is built passes the check on styles**: the style of any sheet, the combination of
any valid styles, and, with the default rule, the styles of any compiler and their combinations. -/
theorem built_styles_valid :
    (∀ w sheet, validStyle w (Style.ofSheet w sheet).toValue = true) ∧
    (∀ w styles, (∀ s ∈ styles, validStyle w s = true) →
      ∃ v, Value.combine styles = .ok v ∧ validStyle w v = true) ∧
    (∀ (c : Compiler) sheet, c.acceptsStyle (c.style sheet).toValue = true) ∧
    ∀ (c : Compiler) (sheets : List Text), sheets ≠ [] →
      ∃ v, Value.combine (sheets.map fun sheet => (c.style sheet).toValue) = .ok v ∧
        c.acceptsStyle v = true :=
  ⟨validStyle_ofSheet, fun _ _ => exists_combine, Compiler.acceptsStyle_style,
    fun c _ => c.exists_combine_style⟩

/-- Two styles under a whitelist that permits one property, one with a paragraph rule and one with a
span rule, combine to a valid one. -/
theorem built_styles_valid_paragraph_and_span :
    (∀ s ∈ [Value.style (.dict [(.str "note".toList, .rule (.dict [(.str "color".toList,
          .str "red".toList)]))]) (.dict []) .null,
        .style (.dict []) (.dict [(.str "*".toList, .spanRule (.dict []) .null)]) .null],
      validStyle ⟨.ofPatterns ["color".toList], .ofPatterns [], .ofPatterns []⟩ s = true) ∧
    ∃ v, Value.combine [.style (.dict [(.str "note".toList, .rule (.dict [(.str "color".toList,
          .str "red".toList)]))]) (.dict []) .null,
        .style (.dict []) (.dict [(.str "*".toList, .spanRule (.dict []) .null)]) .null] = .ok v ∧
      validStyle ⟨.ofPatterns ["color".toList], .ofPatterns [], .ofPatterns []⟩ v = true := by
  refine ⟨?valid, built_styles_valid.2.1 _ _ ?valid⟩
  decide +kernel

end ProseMarkup
