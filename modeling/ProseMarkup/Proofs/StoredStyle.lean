import ProseMarkup.Proofs.StyleValue
import ProseMarkup.Proofs.TextData
import ProseMarkup.Proofs.ValidStyle

/-!
# Stored styles

A valid style is stored as text data. It is loaded again as it was if its paragraph and container rules
are plain ones, since a span rule in their place would be loaded as a plain rule; and so it is with every
style that comes from a sheet, from storage, or from combining such styles.

* `Storage.hasPlainRules` : whether the paragraph and container rules are plain.
* `Storage.roundTrips_style` : **a valid style with plain rules is stored and loaded again**.
* `Storage.Produced` : the ways in which styles come about.
* `Storage.Produced.hasPlainRules` : **valid styles that come about so have plain rules**.
-/

namespace ProseMarkup.Storage

/-! ### Plain rules -/

/-- Whether a value is a rule that is no span rule. -/
def isPlainRule : Value → Bool
  | .rule _ => true
  | _ => false

/-- Whether a container rule is plain, or absent. -/
def isPlainContainer : Value → Bool
  | .null => true
  | rule => isPlainRule rule

/-- Whether the paragraph rules and the container rule of a style are plain. -/
def hasPlainRules : Value → Bool
  | .style (.dict paragraph) _ container =>
    paragraph.all (fun e => isPlainRule e.2) && isPlainContainer container
  | _ => false

theorem isPlainRule_cases {r : Value} (h : isPlainRule r = true) : ∃ props, r = .rule props := by
  cases r with
  | rule props => exact ⟨props, rfl⟩
  | _ => cases h

theorem isPlainContainer_cases {v : Value} (h : isPlainContainer v = true) :
    v = .null ∨ ∃ props, v = .rule props := by
  cases v with
  | null => exact .inl rfl
  | rule props => exact .inr ⟨props, rfl⟩
  | _ => cases h

/-! ### Storing rules -/

section Rules

variable {w : Whitelist}

theorem validProperty_cases {p : Value × Value} (h : validProperty w p = true) :
    ∃ name value, p = (.str name, .str value) := by
  obtain ⟨k, v⟩ := p
  rw [validProperty, Bool.and_eq_true] at h
  have hk : ∃ name, k = .str name := by
    cases k with
    | str name => exact ⟨name, rfl⟩
    | _ => cases h.1
  have hv : ∃ value, v = .str value := by
    cases v with
    | str value => exact ⟨value, rfl⟩
    | _ => cases h.2
  obtain ⟨name, rfl⟩ := hk
  obtain ⟨value, rfl⟩ := hv
  exact ⟨name, value, rfl⟩

theorem areTextEntries_of_valid {props : List (Value × Value)}
    (h : props.all (validProperty w) = true) :
    Value.areTextEntries props = true ∧ Value.areEntriesNanFree props = true := by
  induction props with
  | nil => exact ⟨rfl, rfl⟩
  | cons p props ih =>
    rw [List.all_cons, Bool.and_eq_true] at h
    obtain ⟨name, value, rfl⟩ := validProperty_cases h.1
    exact ih h.2

theorem roundTrips_rule {r : Value} (h : (isPlainRule r && validRule w r) = true) :
    RoundTrips save loadRule r := by
  rw [Bool.and_eq_true] at h
  obtain ⟨p, rfl⟩ := isPlainRule_cases h.1
  obtain ⟨props, rfl, hprops⟩ := validProps_cases (w := w) h.2
  obtain ⟨htext, hnan⟩ := areTextEntries_of_valid hprops
  refine ⟨hnan, record [("props".toList, .dict props)], rfl, ?_, rfl⟩
  simp [htext]

theorem roundTrips_spanRule {r : Value} (h : validSpanRule w r = true) :
    RoundTrips save loadSpanRule r := by
  obtain ⟨props, closer, rfl, hcloser, hprops⟩ := validSpanRule_cases h
  obtain ⟨htext, hnan⟩ := areTextEntries_of_valid hprops
  rcases isOptionalText_cases hcloser with rfl | ⟨s, rfl⟩
  · refine ⟨?_, record [("props".toList, .dict props)], rfl, ?_, rfl⟩
    · show (Value.areEntriesNanFree props && true) = true
      rw [hnan]
      rfl
    · simp [htext]
  · refine ⟨?_, record [("props".toList, .dict props), ("endPattern".toList, .str s)], rfl, ?_, rfl⟩
    · show (Value.areEntriesNanFree props && true) = true
      rw [hnan]
      rfl
    · simp [htext]

/-- Rules that are loaded again are so in a namespace. -/
theorem roundTrips_entries {q : Value → Bool} {load : Value → Value}
    (hq : ∀ r, q r = true → RoundTrips save load r) {es : List (Value × Value)}
    (h : es.all (fun e => isText e.1 && q e.2) = true) :
    Value.areEntriesNanFree es = true ∧ ∃ data, saveRuleEntries es = .ok data ∧
      Value.areTextEntries data = true ∧ data.map (fun e => (e.1, load e.2)) = es := by
  induction es with
  | nil => exact ⟨rfl, [], rfl, rfl, rfl⟩
  | cons e es ih =>
    rw [List.all_cons, Bool.and_eq_true, Bool.and_eq_true] at h
    obtain ⟨k, r⟩ := e
    obtain ⟨name, rfl⟩ := isText_cases h.1.1
    obtain ⟨hnan, data, hsave, htext, hload⟩ := hq r h.1.2
    obtain ⟨hnans, later, hsaves, htexts, hloads⟩ := ih h.2
    refine ⟨?_, (.str name, data) :: later, ?_, ?_, ?_⟩
    · simp [hnan, hnans]
    · simp [saveRuleEntries, hsave, hsaves]
    · simp [htext, htexts]
    · rw [List.map_cons, hload, hloads]

end Rules

/-! ### Storing styles -/

theorem save_style {paragraph span : List (Value × Value)} {para spans : List (Value × Value)}
    (hp : saveRuleEntries paragraph = .ok para) (hs : saveRuleEntries span = .ok spans) :
    save (.style (.dict paragraph) (.dict span) .null) =
      .ok (record [("para".toList, .dict para), ("span".toList, .dict spans)]) := by
  rw [save, saveRules, saveRules, hp, hs]
  rfl

theorem save_style_container {paragraph span : List (Value × Value)} {para spans : List (Value × Value)}
    (props : Value) (hp : saveRuleEntries paragraph = .ok para)
    (hs : saveRuleEntries span = .ok spans) :
    save (.style (.dict paragraph) (.dict span) (.rule props)) =
      .ok (record [("para".toList, .dict para), ("span".toList, .dict spans),
        ("cont".toList, record [("props".toList, props)])]) := by
  rw [save, saveRules, saveRules, hp, hs]
  rfl

/-- **A valid style with plain rules is stored and loaded again.** -/
theorem roundTrips_style {w : Whitelists} {v : Value} (hv : validStyle w v = true)
    (hp : hasPlainRules v = true) : RoundTrips save loadStyle v := by
  obtain ⟨ps, ss, container, rfl, hps, hss, hcontainer⟩ := validStyle_cases hv
  rw [hasPlainRules, Bool.and_eq_true] at hp
  have hentries : ps.all (fun e => isText e.1 && (isPlainRule e.2 && validRule w.paragraph e.2)) =
      true := by
    apply List.all_eq_true.2
    intro e he
    have hplain := List.all_eq_true.1 hp.1 e he
    have hvalid := List.all_eq_true.1 hps e he
    rw [validParagraphEntry, Bool.and_eq_true] at hvalid
    rw [hvalid.1, hplain, hvalid.2]
    rfl
  obtain ⟨hpnan, para, hpsave, hptext, hpload⟩ :=
    roundTrips_entries (fun r => roundTrips_rule (w := w.paragraph)) hentries
  obtain ⟨hsnan, spans, hssave, hstext, hsload⟩ :=
    roundTrips_entries (fun r => roundTrips_spanRule (w := w.span)) hss
  rcases validContainer_cases hcontainer with rfl | ⟨hne, hrule⟩
  · refine ⟨?_, _, save_style hpsave hssave, ?_, ?_⟩
    · show (Value.areEntriesNanFree ps && Value.areEntriesNanFree ss && true) = true
      rw [hpnan, hsnan]
      rfl
    · simp [hptext, hstext]
    · show Value.style (.dict (para.map fun e => (e.1, loadRule e.2)))
        (.dict (spans.map fun e => (e.1, loadSpanRule e.2))) .null = _
      rw [hpload, hsload]
  · obtain ⟨p, rfl⟩ := (isPlainContainer_cases hp.2).resolve_left hne
    obtain ⟨props, rfl, hprops⟩ := validProps_cases (w := w.container) hrule
    obtain ⟨hctext, hcnan⟩ := areTextEntries_of_valid hprops
    refine ⟨?_, _, save_style_container (.dict props) hpsave hssave, ?_, ?_⟩
    · show (Value.areEntriesNanFree ps && Value.areEntriesNanFree ss &&
        Value.areEntriesNanFree props) = true
      rw [hpnan, hsnan, hcnan]
      rfl
    · simp [hptext, hstext, hctext]
    · show Value.style (.dict (para.map fun e => (e.1, loadRule e.2)))
        (.dict (spans.map fun e => (e.1, loadSpanRule e.2))) (.rule (.dict props)) = _
      rw [hpload, hsload]

/-! ### Where styles come from -/

mutual

/-- Whether a value is plain data: no record is in it, at any depth. -/
@[simp] def isPlainData : Value → Bool
  | .list items => arePlainData items
  | .dict entries => arePlainEntries entries
  | v => !v.isRecord
termination_by structural v => v

/-- Whether items are plain data. -/
@[simp] def arePlainData : List Value → Bool
  | [] => true
  | x :: xs => isPlainData x && arePlainData xs
termination_by structural xs => xs

/-- Whether the keys and the values of entries are plain data. -/
@[simp] def arePlainEntries : List (Value × Value) → Bool
  | [] => true
  | (k, v) :: es => isPlainData k && isPlainData v && arePlainEntries es
termination_by structural es => es

end

/-- The ways in which styles come about: from a sheet, by combining styles, and from stored data. -/
inductive Produced : Value → Prop
  | sheet (w : Whitelists) (sheet : Text) : Produced (Style.ofSheet w sheet).toValue
  | combined {styles : List Value} {v : Value} (hs : ∀ s ∈ styles, Produced s)
      (hv : Value.combine styles = .ok v) : Produced v
  | loaded {data : Value} (hd : isPlainData data = true) : Produced (loadStyle data)

theorem hasPlainRules_toValue (s : Style) : hasPlainRules s.toValue = true := by
  have hcontainer : isPlainContainer (optionValue Rule.toValue s.container) = true := by
    cases s.container <;> rfl
  show (List.all (s.paragraph.entries.map _) _ && isPlainContainer _) = true
  rw [List.all_map, hcontainer, Bool.and_true]
  exact List.all_eq_true.2 fun e _ => rfl

/-! #### Combinations -/

theorem isPlainRule_adoptRule {r v : Value} (h : Value.adoptRule r = .ok v) :
    isPlainRule v = true := by
  obtain ⟨p, -, hv⟩ := bind_eq_ok.1 h
  cases hv
  rfl

theorem isPlainRule_overlaidBy {r s v : Value} (hr : isPlainRule r = true)
    (h : Value.overlaidBy r s = .ok v) : isPlainRule v = true := by
  obtain ⟨props, rfl⟩ := isPlainRule_cases hr
  obtain ⟨p, -, hv⟩ := bind_eq_ok.1 h
  cases hv
  rfl

/-- Whatever is combined, the paragraph rules gathered are plain. -/
theorem isPlainRule_combineRule {rules rules' : List (Value × Value)} {entry : Value × Value}
    (hrules : rules.all (fun e => true && isPlainRule e.2) = true)
    (h : Value.combineRule Value.adoptRule rules entry = .ok rules') :
    rules'.all (fun e => true && isPlainRule e.2) = true := by
  obtain ⟨r, rfl, hr⟩ := Value.combineRule_eq_ok h
  have hplain : isPlainRule r = true := by
    cases hlookup : Dict.lookupEntry entry.1 rules with
    | none =>
      rw [hlookup] at hr
      exact isPlainRule_adoptRule hr
    | some existing =>
      rw [hlookup] at hr
      exact isPlainRule_overlaidBy
        (Dict.all_lookupEntry (p := fun _ => true) (q := isPlainRule) hrules hlookup) hr
  exact Dict.all_setEntry (p := fun _ => true) (q := isPlainRule) rfl hplain hrules

theorem isPlainContainer_combineContainer {existing new v : Value}
    (he : isPlainContainer existing = true) (h : Value.combineContainer existing new = .ok v) :
    isPlainContainer v = true := by
  have hrule : ∀ v, isPlainRule v = true → isPlainContainer v = true := by
    intro v hv
    obtain ⟨props, rfl⟩ := isPlainRule_cases hv
    rfl
  by_cases hnew : new = .null
  · subst hnew
    cases h
    exact he
  · rw [Value.combineContainer_of_ne hnew] at h
    rcases isPlainContainer_cases he with rfl | ⟨props, rfl⟩
    · exact hrule v (isPlainRule_adoptRule h)
    · exact hrule v (isPlainRule_overlaidBy (r := .rule props) rfl h)

/-- Whatever is combined, the combination has plain rules. -/
theorem hasPlainRules_combine {styles : List Value} {v : Value} (h : Value.combine styles = .ok v) :
    hasPlainRules v = true := by
  obtain ⟨c, hc, hv⟩ := bind_eq_ok.1 h
  cases hv
  have hinv : c.paragraph.all (fun e => true && isPlainRule e.2) = true ∧
      isPlainContainer c.container = true := by
    refine foldlM_kept (f := Value.Combination.add)
      (fun c => c.paragraph.all (fun e => true && isPlainRule e.2) = true ∧
        isPlainContainer c.container = true) (fun c s c' hplain _ hadd => ?_) ⟨rfl, rfl⟩ hc
    obtain ⟨ps, ss, container, -, hps, -, hcontainer⟩ := Value.Combination.add_eq_ok hadd
    refine ⟨?_, isPlainContainer_combineContainer hplain.2 hcontainer⟩
    exact foldlM_kept (f := Value.combineRule Value.adoptRule)
      (fun rules => rules.all (fun e => true && isPlainRule e.2) = true)
      (fun rules e rules' hrules _ hstep => isPlainRule_combineRule hrules hstep) hplain.1 hps
  show (c.paragraph.all (fun e => true && isPlainRule e.2) && isPlainContainer c.container) = true
  rw [hinv.1, hinv.2]
  rfl

/-! #### Stored data -/

theorem isPlainData_entryAt (key : Text) {es : List (Value × Value)}
    (h : arePlainEntries es = true) : isPlainData (Value.entryAt key es) = true := by
  induction es with
  | nil => rfl
  | cons e es ih =>
    obtain ⟨k, v⟩ := e
    rw [arePlainEntries, Bool.and_eq_true, Bool.and_eq_true] at h
    rw [Value.entryAt]
    split
    · exact h.1.2
    · exact ih h.2

theorem isPlainData_of_mem {es : List (Value × Value)} (h : arePlainEntries es = true)
    {e : Value × Value} (he : e ∈ es) : isPlainData e.2 = true := by
  induction es with
  | nil => cases he
  | cons f es ih =>
    obtain ⟨k, v⟩ := f
    rw [arePlainEntries, Bool.and_eq_true, Bool.and_eq_true] at h
    rcases List.mem_cons.1 he with rfl | he
    · exact h.1.2
    · exact ih h.2 he

/-- A valid rule that is loaded from plain data is a plain one. -/
theorem isPlainRule_loadRule {w : Whitelist} {data : Value} (hd : isPlainData data = true)
    (hv : validRule w (loadRule data) = true) : isPlainRule (loadRule data) = true := by
  cases data with
  | dict es => rfl
  | rule p => cases hd
  | spanRule p c => cases hd
  | _ => cases hv

theorem hasPlainRules_loadStyle {w : Whitelists} {data : Value} (hd : isPlainData data = true)
    (hv : validStyle w (loadStyle data) = true) : hasPlainRules (loadStyle data) = true := by
  cases data with
  | dict es =>
    obtain ⟨ps, ss, container, hstyle, hps, -, hcontainer⟩ := validStyle_cases hv
    injection hstyle with hpara hspan hcont
    have hparagraph : ps.all (fun e => isPlainRule e.2) = true := by
      cases hdata : Value.entryAt "para".toList es with
      | dict rules =>
        rw [hdata] at hpara
        cases hpara
        have hplain := isPlainData_entryAt "para".toList hd
        rw [hdata] at hplain
        apply List.all_eq_true.2
        intro e he
        obtain ⟨f, hf, rfl⟩ := List.mem_map.1 he
        have hvalid := List.all_eq_true.1 hps _ he
        rw [validParagraphEntry, Bool.and_eq_true] at hvalid
        exact isPlainRule_loadRule (isPlainData_of_mem hplain hf) hvalid.2
      | _ =>
        rw [hdata] at hpara
        cases hpara
    have hcontainer' : isPlainContainer container = true := by
      rcases validContainer_cases hcontainer with rfl | ⟨hne, hrule⟩
      · rfl
      · rw [← hcont] at hrule ⊢
        have hplain := isPlainRule_loadRule (isPlainData_entryAt "cont".toList hd) hrule
        obtain ⟨props, hprops⟩ := isPlainRule_cases hplain
        rw [hprops]
        rfl
    have heq : loadStyle (.dict es) = .style (.dict ps) (.dict ss) container := by
      rw [loadStyle, hpara, hspan, hcont]
    rw [heq, hasPlainRules, hparagraph, hcontainer']
    rfl
  | _ => cases hv

/-- **A valid style that has come about in one of these ways has plain rules.** -/
theorem Produced.hasPlainRules {w : Whitelists} {v : Value} (hp : Produced v)
    (hv : validStyle w v = true) : Storage.hasPlainRules v = true := by
  cases hp with
  | sheet w' sheet => exact hasPlainRules_toValue _
  | combined hs hcombine => exact hasPlainRules_combine hcombine
  | loaded hd => exact hasPlainRules_loadStyle hd hv

end ProseMarkup.Storage
