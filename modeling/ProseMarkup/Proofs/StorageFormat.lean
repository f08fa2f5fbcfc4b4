import ProseMarkup.Proofs.StoredStyle

/-!
# The storage format

What stored documents look like, without a word about records: dictionaries with certain fields. Loading
lets data of the wrong shape through, or puts the absent value or an empty dictionary in its place, and
validation looks at what came of it; together they accept the storage format and nothing else.

* `Storage.IsDictOf`, `Storage.IsListOf`, `Storage.IsList`, `Storage.IsTextOf`, `Storage.IsText`,
  `Storage.IsOptional`, `Storage.HasFields` : shapes of data.
* `Storage.IsRuleData`, `Storage.IsSpanRuleData`, `Storage.IsStyleData`, `Storage.IsParagraphData`,
  `Storage.IsDocumentData` : the storage format, record by record.
* `Storage.validDocument_loadDocument_iff` : **what is loaded from plain data is a valid document just if
  the data is in the storage format**.

A field that is missing reads as absent, so `Storage.IsOptional` covers both.
-/

namespace ProseMarkup.Storage

open Value (entryAt ofProps)

/-! ### Shapes of data -/

/-- A dictionary with keys and values of given kinds. -/
def IsDictOf (key value : Value → Prop) (data : Value) : Prop :=
  ∃ es, data = .dict es ∧ ∀ e ∈ es, key e.1 ∧ value e.2

/-- A list with items of a given kind. -/
def IsListOf (item : Value → Prop) (data : Value) : Prop :=
  ∃ xs, data = .list xs ∧ ∀ x ∈ xs, item x

/-- A list of anything. -/
def IsList (data : Value) : Prop :=
  ∃ xs, data = .list xs

/-- Data of a given kind, or the absent value. -/
def IsOptional (kind : Value → Prop) (data : Value) : Prop :=
  data = .null ∨ kind data

/-- A text that passes a check. -/
def IsTextOf (check : Text → Bool) (data : Value) : Prop :=
  ∃ s, data = .str s ∧ check s = true

/-- Any text. -/
def IsText : Value → Prop :=
  IsTextOf fun _ => true

/-- A dictionary whose fields are as described; it may have others. -/
def HasFields (fields : List (Value × Value) → Prop) (data : Value) : Prop :=
  ∃ es, data = .dict es ∧ fields es

/-! ### The format -/

/-- Properties: permitted names with safe values. -/
def IsPropsData (w : Whitelist) : Value → Prop :=
  IsDictOf (IsTextOf w.permits) (IsTextOf PropertyValue.isSafe)

/-- A paragraph or container rule. -/
def IsRuleData (w : Whitelist) : Value → Prop :=
  HasFields fun es => IsOptional (IsPropsData w) (entryAt "props".toList es)

/-- A span rule. -/
def IsSpanRuleData (w : Whitelist) : Value → Prop :=
  HasFields fun es => IsOptional (IsPropsData w) (entryAt "props".toList es) ∧
    IsOptional IsText (entryAt "endPattern".toList es)

/-- A style. -/
def IsStyleData (w : Whitelists) : Value → Prop :=
  HasFields fun es => IsDictOf IsText (IsRuleData w.paragraph) (entryAt "para".toList es) ∧
    IsDictOf IsText (IsSpanRuleData w.span) (entryAt "span".toList es) ∧
    IsOptional (IsRuleData w.container) (entryAt "cont".toList es)

/-- A paragraph. Neither the names of its rules nor its content are looked at. -/
def IsParagraphData : Value → Prop :=
  HasFields fun es => IsList (entryAt "styles".toList es) ∧
    IsList (entryAt "contents".toList es)

/-- A document. -/
def IsDocumentData (w : Whitelists) : Value → Prop :=
  HasFields fun es => IsListOf IsParagraphData (entryAt "paragraphs".toList es) ∧
    IsListOf (IsStyleData w) (entryAt "styles".toList es)

/-! ### Loaded rules -/

section Rules

variable {w : Whitelist} {data : Value}

@[simp] theorem isText_iff : isText data = true ↔ IsText data := by
  constructor
  · intro h
    obtain ⟨s, rfl⟩ := isText_cases h
    exact ⟨s, rfl, rfl⟩
  · rintro ⟨s, rfl, -⟩
    rfl

@[simp] theorem isOptionalText_iff : isOptionalText data = true ↔ IsOptional IsText data := by
  constructor
  · intro h
    exact (isOptionalText_cases h).imp_right fun ⟨s, hs⟩ => ⟨s, hs, rfl⟩
  · rintro (rfl | ⟨s, rfl, -⟩) <;> rfl

@[simp] theorem validProperty_iff {e : Value × Value} :
    validProperty w e = true ↔ IsTextOf w.permits e.1 ∧ IsTextOf PropertyValue.isSafe e.2 := by
  constructor
  · intro h
    obtain ⟨name, value, rfl⟩ := validProperty_cases h
    rw [validProperty, Bool.and_eq_true] at h
    exact ⟨⟨name, rfl, h.1⟩, ⟨value, rfl, h.2⟩⟩
  · obtain ⟨k, v⟩ := e
    rintro ⟨⟨name, rfl, hname⟩, ⟨value, rfl, hvalue⟩⟩
    exact Bool.and_eq_true _ _ ▸ ⟨hname, hvalue⟩

@[simp] theorem validProps_iff : validProps w data = true ↔ IsPropsData w data := by
  constructor
  · intro h
    obtain ⟨props, rfl, hprops⟩ := validProps_cases h
    exact ⟨props, rfl, fun e he => validProperty_iff.1 (List.all_eq_true.1 hprops e he)⟩
  · rintro ⟨props, rfl, hprops⟩
    exact List.all_eq_true.2 fun e he => validProperty_iff.2 (hprops e he)

/-- Properties that are not given count as none, which are valid. -/
theorem validProps_ofProps_iff :
    validProps w (ofProps data) = true ↔ IsOptional (IsPropsData w) data := by
  by_cases h : data = .null
  · subst h
    exact ⟨fun _ => .inl rfl, fun _ => rfl⟩
  · have hprops : ofProps data = data := by
      cases data with
      | null => exact absurd rfl h
      | _ => rfl
    simp [hprops, IsOptional, or_iff_right h]

theorem validRule_loadRule_iff (hd : isPlainData data = true) :
    validRule w (loadRule data) = true ↔ IsRuleData w data := by
  constructor
  · intro h
    cases data with
    | dict es => exact ⟨es, rfl, validProps_ofProps_iff.1 h⟩
    -- a record would be carried over and found valid, but it is no plain data
    | rule p => cases hd
    | spanRule p c => cases hd
    | _ => cases h
  · rintro ⟨es, rfl, hprops⟩
    exact validProps_ofProps_iff.2 hprops

theorem validSpanRule_loadSpanRule_iff (hd : isPlainData data = true) :
    validSpanRule w (loadSpanRule data) = true ↔ IsSpanRuleData w data := by
  constructor
  · intro h
    cases data with
    | dict es =>
      rw [loadSpanRule, validSpanRule, Bool.and_eq_true] at h
      exact ⟨es, rfl, validProps_ofProps_iff.1 h.2, isOptionalText_iff.1 h.1⟩
    | spanRule p c => cases hd
    | _ => cases h
  · rintro ⟨es, rfl, hprops, hcloser⟩
    rw [loadSpanRule, validSpanRule, isOptionalText_iff.2 hcloser, validProps_ofProps_iff.2 hprops]
    rfl

theorem validContainer_loadRule_iff (hd : isPlainData data = true) :
    validContainer w (loadRule data) = true ↔ IsOptional (IsRuleData w) data := by
  rw [IsOptional, ← validRule_loadRule_iff hd]
  constructor
  · intro h
    rcases validContainer_cases h with hnull | ⟨-, hrule⟩
    · cases data with
      | null => exact .inl rfl
      | _ => cases hnull
    · exact .inr hrule
  · rintro (rfl | hrule)
    · rfl
    · obtain ⟨props, hprops⟩ := isPlainRule_cases (isPlainRule_loadRule hd hrule)
      rw [hprops] at hrule ⊢
      exact hrule

/-- A namespace is loaded and found valid just if it is a dictionary of rules, each under a text, that
are. -/
theorem loadRules_valid_iff {load : Value → Value} {valid : Value → Bool} {IsData : Value → Prop}
    (hload : ∀ r, isPlainData r = true → (valid (load r) = true ↔ IsData r))
    (hd : isPlainData data = true) :
    (∃ es, loadRules load data = .dict es ∧ es.all (fun e => isText e.1 && valid e.2) = true) ↔
      IsDictOf IsText IsData data := by
  constructor
  · rintro ⟨es, hes, hvalid⟩
    cases data with
    | dict rules =>
      cases hes
      refine ⟨rules, rfl, fun e he => ?_⟩
      have hentry := List.all_eq_true.1 hvalid _ (List.mem_map_of_mem he)
      rw [Bool.and_eq_true] at hentry
      exact ⟨isText_iff.1 hentry.1, (hload e.2 (isPlainData_of_mem hd he)).1 hentry.2⟩
    | _ => cases hes
  · rintro ⟨rules, rfl, hrules⟩
    refine ⟨_, rfl, List.all_eq_true.2 fun f hf => ?_⟩
    obtain ⟨e, he, rfl⟩ := List.mem_map.1 hf
    obtain ⟨hname, hrule⟩ := hrules e he
    rw [isText_iff.2 hname, (hload e.2 (isPlainData_of_mem hd he)).2 hrule]
    rfl

end Rules

/-! ### Loaded documents -/

section Documents

variable {w : Whitelists} {data : Value}

theorem validStyle_iff {paragraph span container : Value} :
    validStyle w (.style paragraph span container) = true ↔
      (∃ ps, paragraph = .dict ps ∧ ps.all (validParagraphEntry w.paragraph) = true) ∧
        (∃ ss, span = .dict ss ∧ ss.all (validSpanEntry w.span) = true) ∧
        validContainer w.container container = true := by
  constructor
  · intro h
    obtain ⟨ps, ss, c, hstyle, hps, hss, hc⟩ := validStyle_cases h
    cases hstyle
    exact ⟨⟨ps, rfl, hps⟩, ⟨ss, rfl, hss⟩, hc⟩
  · rintro ⟨⟨ps, rfl, hps⟩, ⟨ss, rfl, hss⟩, hc⟩
    rw [validStyle, hps, hss, hc]
    rfl

theorem validStyle_loadStyle_iff (hd : isPlainData data = true) :
    validStyle w (loadStyle data) = true ↔ IsStyleData w data := by
  constructor
  · intro h
    cases data with
    | dict es =>
      have hfield (key : Text) := isPlainData_entryAt key hd
      obtain ⟨hpara, hspan, hcont⟩ := validStyle_iff.1 h
      exact ⟨es, rfl, (loadRules_valid_iff (fun _ => validRule_loadRule_iff) (hfield _)).1 hpara,
        (loadRules_valid_iff (fun _ => validSpanRule_loadSpanRule_iff) (hfield _)).1 hspan,
        (validContainer_loadRule_iff (hfield _)).1 hcont⟩
    | _ => cases h
  · rintro ⟨es, rfl, hpara, hspan, hcont⟩
    have hfield (key : Text) := isPlainData_entryAt key hd
    exact validStyle_iff.2
      ⟨(loadRules_valid_iff (fun _ => validRule_loadRule_iff) (hfield _)).2 hpara,
        (loadRules_valid_iff (fun _ => validSpanRule_loadSpanRule_iff) (hfield _)).2 hspan,
        (validContainer_loadRule_iff (hfield _)).2 hcont⟩

@[simp] theorem validParagraph_iff {styles contents : Value} :
    validParagraph (.paragraph styles contents) = true ↔
      IsList styles ∧ IsList contents := by
  constructor
  · intro h
    cases styles with
    | list names =>
      cases contents with
      | list items => exact ⟨⟨names, rfl⟩, ⟨items, rfl⟩⟩
      | _ => cases h
    | _ => cases h
  · rintro ⟨⟨names, rfl⟩, ⟨items, rfl⟩⟩
    rfl

/-- Loading keeps a list of rule names, and puts the absent value in the place of anything else. -/
@[simp] theorem isList_listOrNull_iff : IsList (listOrNull data) ↔ IsList data := by
  cases data with
  | list xs => exact Iff.rfl
  | _ => constructor <;> rintro ⟨xs, hxs⟩ <;> cases hxs

/-- So it does with contents, whatever the items are. -/
@[simp] theorem isList_loadContents_iff : IsList (loadContents data) ↔ IsList data := by
  cases data with
  | list xs => exact ⟨fun _ => ⟨xs, rfl⟩, fun _ => ⟨loadContentItems xs, rfl⟩⟩
  | _ => constructor <;> rintro ⟨xs, hxs⟩ <;> cases hxs

theorem validParagraph_loadParagraph_iff :
    validParagraph (loadParagraph data) = true ↔ IsParagraphData data := by
  constructor
  · intro h
    cases data with
    | dict es =>
      obtain ⟨hstyles, hcontents⟩ := validParagraph_iff.1 h
      exact ⟨es, rfl, isList_listOrNull_iff.1 hstyles, isList_loadContents_iff.1 hcontents⟩
    | _ => cases h
  · rintro ⟨es, rfl, hstyles, hcontents⟩
    exact validParagraph_iff.2
      ⟨isList_listOrNull_iff.2 hstyles, isList_loadContents_iff.2 hcontents⟩

theorem validDocument_iff {paragraphs styles : Value} :
    validDocument w (.document paragraphs styles) = true ↔
      (∃ ps, paragraphs = .list ps ∧ ps.all validParagraph = true) ∧
        ∃ ss, styles = .list ss ∧ ss.all (validStyle w) = true := by
  constructor
  · intro h
    cases paragraphs with
    | list ps =>
      cases styles with
      | list ss =>
        rw [validDocument, Bool.and_eq_true] at h
        exact ⟨⟨ps, rfl, h.2⟩, ⟨ss, rfl, h.1⟩⟩
      | _ => cases h
    | _ => cases h
  · rintro ⟨⟨ps, rfl, hps⟩, ⟨ss, rfl, hss⟩⟩
    rw [validDocument, hps, hss]
    rfl

theorem isPlainData_of_mem_list {xs : List Value} (h : arePlainData xs = true) {x : Value}
    (hx : x ∈ xs) : isPlainData x = true := by
  induction xs with
  | nil => cases hx
  | cons y xs ih =>
    rw [arePlainData, Bool.and_eq_true] at h
    rcases List.mem_cons.1 hx with rfl | hx
    · exact h.1
    · exact ih h.2 hx

/-- A list is loaded item by item and found valid just if it is a list of items that are. -/
theorem loadEach_valid_iff {load : Value → Value} {valid : Value → Bool} {IsData : Value → Prop}
    (hload : ∀ x, isPlainData x = true → (valid (load x) = true ↔ IsData x))
    (hd : isPlainData data = true) :
    (∃ xs, loadEach load data = .list xs ∧ xs.all valid = true) ↔ IsListOf IsData data := by
  constructor
  · rintro ⟨xs, hxs, hvalid⟩
    cases data with
    | list items =>
      cases hxs
      refine ⟨items, rfl, fun x hx => ?_⟩
      exact (hload x (isPlainData_of_mem_list hd hx)).1
        (List.all_eq_true.1 hvalid _ (List.mem_map_of_mem hx))
    | _ => cases hxs
  · rintro ⟨items, rfl, hitems⟩
    refine ⟨_, rfl, List.all_eq_true.2 fun y hy => ?_⟩
    obtain ⟨x, hx, rfl⟩ := List.mem_map.1 hy
    exact (hload x (isPlainData_of_mem_list hd hx)).2 (hitems x hx)

/-- **What is loaded from plain data is a valid document just if the data is in the storage format.**
Neither loading nor validation can fail, whatever the data. -/
theorem validDocument_loadDocument_iff (hd : isPlainData data = true) :
    validDocument w (loadDocument data) = true ↔ IsDocumentData w data := by
  constructor
  · intro h
    cases data with
    | dict es =>
      have hfield (key : Text) := isPlainData_entryAt key hd
      obtain ⟨hparagraphs, hstyles⟩ := validDocument_iff.1 h
      exact ⟨es, rfl,
        (loadEach_valid_iff (fun _ _ => validParagraph_loadParagraph_iff) (hfield _)).1 hparagraphs,
        (loadEach_valid_iff (fun _ => validStyle_loadStyle_iff) (hfield _)).1 hstyles⟩
    | _ => cases h
  · rintro ⟨es, rfl, hparagraphs, hstyles⟩
    have hfield (key : Text) := isPlainData_entryAt key hd
    exact validDocument_iff.2
      ⟨(loadEach_valid_iff (fun _ _ => validParagraph_loadParagraph_iff) (hfield _)).2 hparagraphs,
        (loadEach_valid_iff (fun _ => validStyle_loadStyle_iff) (hfield _)).2 hstyles⟩

end Documents

/-- The data of a document with a paragraph of mixed content, and with a style whose rules leave out what
they may. -/
def sparseDocument : Value :=
  record [("paragraphs".toList, .list [record [("styles".toList, .list [.int 3]),
      ("contents".toList, .list [.null, .str "a".toList])]]),
    ("styles".toList, .list [record [("para".toList, .dict []),
      ("span".toList, record [("*".toList, record [("endPattern".toList, .str "!".toList),
        ("props".toList, record [("color".toList, .str "red".toList)])]), ("_".toList, record [])]),
      ("cont".toList, .null)]])]

/-- That data is in the storage format if a span rule may set a colour, and it is not if none may. -/
theorem isDocumentData_sparseDocument :
    isPlainData sparseDocument = true ∧
      IsDocumentData ⟨.ofPatterns [], .ofPatterns ["color".toList], .ofPatterns []⟩ sparseDocument ∧
      ¬ IsDocumentData ⟨.ofPatterns ["color".toList], .ofPatterns [], .ofPatterns []⟩ sparseDocument :=
  ⟨rfl, (validDocument_loadDocument_iff rfl).1 (by decide +kernel),
    fun h => absurd ((validDocument_loadDocument_iff rfl).2 h) (by decide +kernel)⟩

end ProseMarkup.Storage
