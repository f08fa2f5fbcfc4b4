import ProseMarkup.Storage.Validate

/-!
# Valid styles

Styles are checked entry by entry, and a check on an entry is one on its key together with one on its
value; so it survives every way in which entries are written.

* `Dict.all_setEntry`, `Dict.all_overlayEntries` : entries that pass such a check, written over others.
* `Style.Permitted` : a style all of whose properties are permitted and safe.
* `StyleSheet.mem_pairs_of_mem_permittedProps` : what the body of a block sets is permitted and safe.
* `Storage.validStyle_toValue` : **these are the styles that are valid**.
* `Storage.validStyle_ofSheet` : **the style of a sheet is valid**, whatever the sheet.
* `Storage.validStyle_cases`, `Storage.validRule_props`, `Storage.validSpanRule_cases` : what a valid
  value looks like.
-/

namespace ProseMarkup

/-! ### Entries that pass a check -/

namespace Dict

variable {κ ν : Type} [BEq κ] {p : κ → Bool} {q : ν → Bool}

theorem all_setEntry {k : κ} {v : ν} (hk : p k = true) (hv : q v = true) {es : List (κ × ν)}
    (h : es.all (fun e => p e.1 && q e.2) = true) :
    (setEntry k v es).all (fun e => p e.1 && q e.2) = true := by
  have hkv : (p k && q v) = true := by rw [hk, hv]; rfl
  induction es with
  | nil =>
    show ((p k && q v) && true) = true
    rw [hkv, Bool.and_true]
  | cons e es ih =>
    rw [List.all_cons, Bool.and_eq_true] at h
    rw [setEntry]
    split
    · have he : p e.1 = true := (Bool.and_eq_true _ _ ▸ h.1).1
      rw [List.all_cons, h.2, he, hv]
      rfl
    · rw [List.all_cons, h.1, ih h.2]
      rfl

theorem all_overlayEntries {base es : List (κ × ν)}
    (hbase : base.all (fun e => p e.1 && q e.2) = true)
    (hes : es.all (fun e => p e.1 && q e.2) = true) :
    (overlayEntries base es).all (fun e => p e.1 && q e.2) = true := by
  induction es generalizing base with
  | nil => exact hbase
  | cons e es ih =>
    rw [List.all_cons, Bool.and_eq_true, Bool.and_eq_true] at hes
    rw [overlayEntries, List.foldl_cons]
    exact ih (all_setEntry hes.1.1 hes.1.2 hbase) hes.2

/-- A value found under a key passes the check on values. -/
theorem all_lookupEntry {k : κ} {v : ν} {es : List (κ × ν)}
    (h : es.all (fun e => p e.1 && q e.2) = true) (hv : lookupEntry k es = some v) : q v = true := by
  induction es with
  | nil => cases hv
  | cons e es ih =>
    rw [List.all_cons, Bool.and_eq_true, Bool.and_eq_true] at h
    rw [lookupEntry] at hv
    split at hv
    · cases hv
      exact h.1.2
    · exact ih h.2 hv

/-- What is among the entries after a key has been set: old entries, and the new one. -/
theorem mem_entries_set {κ : Type} [DecidableEq κ] {d : Dict κ ν} {k : κ} {v : ν} {e : κ × ν}
    (h : e ∈ (d.set k v).entries) : e ∈ d.entries ∨ e = (k, v) := by
  have hmem : ∀ es : List (κ × ν), e ∈ setEntry k v es → e ∈ es ∨ e = (k, v) := by
    intro es he
    induction es with
    | nil => exact .inr (List.mem_singleton.1 he)
    | cons f es ih =>
      rw [setEntry] at he
      split at he
      · next hk =>
        rcases List.mem_cons.1 he with rfl | he
        · rw [eq_of_beq hk]
          exact .inr rfl
        · exact .inl (List.mem_cons_of_mem f he)
      · rcases List.mem_cons.1 he with rfl | he
        · exact .inl List.mem_cons_self
        · exact (ih he).imp (List.mem_cons_of_mem f) id
  exact hmem d.entries h

end Dict

/-! ### The styles of sheets -/

/-- Whether properties are permitted and safe. -/
def Whitelist.permitsAll (w : Whitelist) (props : Dict Text Text) : Bool :=
  props.entries.all fun e => w.permits e.1 && PropertyValue.isSafe e.2

/-- All properties of a style are permitted in their namespace and safe. -/
structure Style.Permitted (w : Whitelists) (s : Style) : Prop where
  paragraph : ∀ e ∈ s.paragraph.entries, w.paragraph.permitsAll e.2.props = true
  span : ∀ e ∈ s.span.entries, w.span.permitsAll e.2.props = true
  container : ∀ r ∈ s.container, w.container.permitsAll r.props = true

/-- The properties that a body sets are pairs of it, permitted and safe. -/
theorem StyleSheet.mem_pairs_of_mem_permittedProps {body : Text} {w : Whitelist} {p : Text × Text}
    (h : p ∈ (permittedProps body w).entries) :
    p ∈ pairs body ∧ (w.permits p.1 && PropertyValue.isSafe p.2) = true := by
  revert p
  rw [permittedProps]
  apply List.foldlRecOn (motive := fun props : Dict Text Text => ∀ p ∈ props.entries,
    p ∈ pairs body ∧ (w.permits p.1 && PropertyValue.isSafe p.2) = true)
  · intro p hp
    cases hp
  · intro props hprops q hq p hp
    split at hp
    · next hpermitted =>
      rcases Dict.mem_entries_set hp with hp | rfl
      · exact hprops p hp
      · exact ⟨hq, hpermitted⟩
    · exact hprops p hp

/-- Only permitted and safe properties are read from the body of a block. -/
@[simp] theorem StyleSheet.permitsAll_permittedProps (w : Whitelist) (body : Text) :
    w.permitsAll (permittedProps body w) = true :=
  List.all_eq_true.2 fun _ hp => (mem_pairs_of_mem_permittedProps hp).2

namespace Style

variable {w : Whitelists}

theorem permitted_empty : empty.Permitted w where
  paragraph := fun _ h => absurd h List.not_mem_nil
  span := fun _ h => absurd h List.not_mem_nil
  container := fun _ h => by cases h

theorem Permitted.addBlock {s : Style} (h : s.Permitted w) (b : Block) :
    (Style.addBlock w s b).Permitted w := by
  rw [Style.addBlock]
  cases b.header with
  | paragraph name =>
    refine ⟨fun e he => ?_, h.span, h.container⟩
    rcases Dict.mem_entries_set he with he | rfl
    · exact h.paragraph e he
    · exact StyleSheet.permitsAll_permittedProps w.paragraph b.body
  | span opening closer =>
    refine ⟨h.paragraph, fun e he => ?_, h.container⟩
    rcases Dict.mem_entries_set he with he | rfl
    · exact h.span e he
    · exact StyleSheet.permitsAll_permittedProps w.span b.body
  | container =>
    refine ⟨h.paragraph, h.span, fun r hr => ?_⟩
    cases hr
    exact StyleSheet.permitsAll_permittedProps w.container b.body

theorem permitted_ofSheet (w : Whitelists) (sheet : Text) : (ofSheet w sheet).Permitted w := by
  rw [ofSheet]
  exact List.foldlRecOn (motive := fun s : Style => s.Permitted w) _ _ permitted_empty
    fun s hs b _ => hs.addBlock b

end Style

namespace Storage

@[simp] theorem validProps_propsValue (w : Whitelist) (props : Dict Text Text) :
    validProps w (propsValue props) = w.permitsAll props := by
  show (props.entries.map fun e => (Value.str e.1, Value.str e.2)).all (validProperty w) = _
  rw [List.all_map]
  rfl

@[simp] theorem validContainer_optionValue (w : Whitelist) (container : Option Rule) :
    validContainer w (optionValue Rule.toValue container) =
      container.all fun r => w.permitsAll r.props := by
  cases container with
  | none => rfl
  | some r => exact validProps_propsValue w r.props

/-- **A style is valid just if all its properties are permitted and safe.** -/
@[simp] theorem validStyle_toValue {w : Whitelists} {s : Style} :
    validStyle w s.toValue = true ↔ s.Permitted w := by
  have hparagraph : (s.paragraph.entries.map fun e => (Value.str e.1, e.2.toValue)).all
      (validParagraphEntry w.paragraph) =
        s.paragraph.entries.all fun e => w.paragraph.permitsAll e.2.props := by
    rw [List.all_map]
    congr 1
    funext e
    exact validProps_propsValue w.paragraph e.2.props
  have hspan : (s.span.entries.map fun e => (Value.str e.1, e.2.toValue)).all
      (validSpanEntry w.span) = s.span.entries.all fun e => w.span.permitsAll e.2.props := by
    rw [List.all_map]
    congr 1
    funext e
    obtain ⟨opening, props, closer⟩ := e
    have hcloser : isOptionalText (optionValue Value.str closer) = true := by
      cases closer <;> rfl
    show (isOptionalText (optionValue Value.str closer) && validProps w.span (propsValue props)) = _
    simp [hcloser]
  show ((List.all _ _ && List.all _ _) && _) = true ↔ _
  rw [hparagraph, hspan, validContainer_optionValue, Bool.and_eq_true, Bool.and_eq_true,
    List.all_eq_true, List.all_eq_true, Option.all_eq_true]
  constructor
  · rintro ⟨⟨hp, hs⟩, hc⟩
    exact ⟨hp, hs, hc⟩
  · rintro ⟨hp, hs, hc⟩
    exact ⟨⟨hp, hs⟩, hc⟩

/-- **The style of a sheet is valid.** -/
theorem validStyle_ofSheet (w : Whitelists) (sheet : Text) :
    validStyle w (Style.ofSheet w sheet).toValue = true :=
  validStyle_toValue.2 (Style.permitted_ofSheet w sheet)

/-! ### What valid values look like -/

theorem validProps_cases {w : Whitelist} {v : Value} (h : validProps w v = true) :
    ∃ props, v = .dict props ∧ props.all (validProperty w) = true := by
  cases v with
  | dict props => exact ⟨props, rfl, h⟩
  | _ => cases h

theorem validRule_props {w : Whitelist} {r : Value} (h : validRule w r = true) :
    ∃ props, Value.props r = .ok (.dict props) ∧ props.all (validProperty w) = true := by
  cases r with
  | rule p =>
    obtain ⟨props, rfl, hprops⟩ := validProps_cases h
    exact ⟨props, rfl, hprops⟩
  | spanRule p c =>
    obtain ⟨props, rfl, hprops⟩ := validProps_cases h
    exact ⟨props, rfl, hprops⟩
  | _ => cases h

theorem validSpanRule_cases {w : Whitelist} {r : Value} (h : validSpanRule w r = true) :
    ∃ props closer, r = .spanRule (.dict props) closer ∧ isOptionalText closer = true ∧
      props.all (validProperty w) = true := by
  cases r with
  | spanRule p c =>
    rw [validSpanRule, Bool.and_eq_true] at h
    obtain ⟨props, rfl, hprops⟩ := validProps_cases h.2
    exact ⟨props, c, rfl, h.1, hprops⟩
  | _ => cases h

theorem isText_cases {v : Value} (h : isText v = true) : ∃ s, v = .str s := by
  cases v with
  | str s => exact ⟨s, rfl⟩
  | _ => cases h

theorem isOptionalText_cases {v : Value} (h : isOptionalText v = true) :
    v = .null ∨ ∃ s, v = .str s := by
  cases v with
  | null => exact .inl rfl
  | str s => exact .inr ⟨s, rfl⟩
  | _ => cases h

theorem validContainer_cases {w : Whitelist} {v : Value} (h : validContainer w v = true) :
    v = .null ∨ (v ≠ .null ∧ validRule w v = true) := by
  cases v with
  | null => exact .inl rfl
  | rule p => exact .inr ⟨nofun, h⟩
  | spanRule p c => exact .inr ⟨nofun, h⟩
  | _ => cases h

theorem validStyle_cases {w : Whitelists} {v : Value} (h : validStyle w v = true) :
    ∃ paragraph span container, v = .style (.dict paragraph) (.dict span) container ∧
      paragraph.all (validParagraphEntry w.paragraph) = true ∧
      span.all (validSpanEntry w.span) = true ∧ validContainer w.container container = true := by
  cases v with
  | style paragraph span container =>
    cases paragraph with
    | dict ps =>
      cases span with
      | dict ss =>
        rw [validStyle, Bool.and_eq_true, Bool.and_eq_true] at h
        exact ⟨ps, ss, container, rfl, h.1.1, h.1.2, h.2⟩
      | _ => cases h
    | _ => cases h
  | _ => cases h

end Storage

end ProseMarkup
