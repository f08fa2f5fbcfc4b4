import ProseMarkup.Proofs.StoredAgain

/-!
# What cannot be saved

Contents are saved item by item, and the first item met that is neither a text nor a span nor a link is reported,
however deep it lies. All other contents are saved, and loading undoes saving.

* `Storage.walk` : the items of contents at any depth, in document order.
* `Storage.isForeign`, `Storage.hasListedContents`, `Storage.hasTextName` : what an item may be like.
* `Storage.areContent_of_walk` : contents without foreign items are those that can be saved.
* `Storage.saveContentItems_of_find?` : **the first foreign item in document order is reported**.
* `Storage.exists_storable` : content with texts as delimiters and urls.
* `Storage.saveContents_eq_error_iff`, `Storage.exists_reloaded` : contents that are not saved, and that are.
* `Storage.saveContents_exact` : **saving fails just if there is a foreign item, and else loading undoes it**.
-/

namespace ProseMarkup

/-! ### Data that consists of texts -/

namespace Value

mutual

/-- In text data nothing is unlike itself. -/
theorem isNanFree_of_isTextData : ∀ {v : Value}, isTextData v = true → isNanFree v = true
  | str _, _ => rfl
  | list items, h => @areNanFree_of_areTextData items h
  | dict entries, h => @areEntriesNanFree_of_areTextEntries entries h

theorem areNanFree_of_areTextData : ∀ {xs : List Value}, areTextData xs = true → areNanFree xs = true
  | [], _ => rfl
  | x :: xs, h => and_eq_true_imp (isNanFree_of_isTextData (v := x)) (@areNanFree_of_areTextData xs) h

theorem areEntriesNanFree_of_areTextEntries : ∀ {es : List (Value × Value)}, areTextEntries es = true →
    areEntriesNanFree es = true
  | [], _ => rfl
  | (str _, v) :: es, h =>
    and_eq_true_imp (isNanFree_of_isTextData (v := v)) (@areEntriesNanFree_of_areTextEntries es) h

end

end Value

namespace Storage

/-! ### Items at any depth -/

mutual

/-- An item, and after it the items that it holds, at any depth. -/
def walkItem : Value → List Value
  | .span opening (.list items) => .span opening (.list items) :: walk items
  | .link url (.list items) => .link url (.list items) :: walk items
  | v => [v]
termination_by structural v => v

/-- The items of contents at any depth, in document order. -/
def walk : List Value → List Value
  | [] => []
  | x :: xs => walkItem x ++ walk xs
termination_by structural xs => xs

end

/-- Whether an item is neither a text nor a span nor a link. -/
def isForeign : Value → Bool
  | .str _ => false
  | .span .. => false
  | .link .. => false
  | _ => true

/-- Whether the contents of an item are a list, if it is a span or a link. -/
def hasListedContents : Value → Bool
  | .span _ (.list _) => true
  | .link _ (.list _) => true
  | .span .. => false
  | .link .. => false
  | _ => true

/-- Whether the delimiter of an item, or its url, is a text, if it is a span or a link. -/
def hasTextName : Value → Bool
  | .span (.str _) _ => true
  | .link (.str _) _ => true
  | .span .. => false
  | .link .. => false
  | _ => true

theorem content_cases {v : Value} (hown : isForeign v = false) (hlisted : hasListedContents v = true) :
    (∃ s, v = .str s) ∨ (∃ opening items, v = .span opening (.list items)) ∨
      ∃ url items, v = .link url (.list items) := by
  cases v with
  | str s => exact .inl ⟨s, rfl⟩
  | span opening contents =>
    cases contents with
    | list items => exact .inr (.inl ⟨opening, items, rfl⟩)
    | _ => cases hlisted
  | link url contents =>
    cases contents with
    | list items => exact .inr (.inr ⟨url, items, rfl⟩)
    | _ => cases hlisted
  | _ => cases hown

theorem mem_walkItem_self (v : Value) : v ∈ walkItem v := by
  cases v with
  | span opening contents => cases contents <;> exact List.mem_cons_self
  | link url contents => cases contents <;> exact List.mem_cons_self
  | _ => exact List.mem_cons_self

/-! ### Contents without foreign items -/

/-- Contents without foreign items, in which all that is held is held in lists, can be saved. -/
theorem areContent_of_walk :
    (∀ v, (∀ u ∈ walkItem v, isForeign u = false ∧ hasListedContents u = true) → isContent v = true) ∧
    ∀ vs, (∀ u ∈ walk vs, isForeign u = false ∧ hasListedContents u = true) → areContent vs = true := by
  refine walkItem.mutual_induct
    (fun v => (∀ u ∈ walkItem v, isForeign u = false ∧ hasListedContents u = true) → isContent v = true)
    (fun vs => (∀ u ∈ walk vs, isForeign u = false ∧ hasListedContents u = true) → areContent vs = true)
    ?_ ?_ ?_ ?_ ?_
  · intro opening items ih h
    rw [walkItem, List.forall_mem_cons] at h
    exact ih h.2
  · intro url items ih h
    rw [walkItem, List.forall_mem_cons] at h
    exact ih h.2
  · intro v hspan hlink h
    obtain ⟨hown, hlisted⟩ := h v (mem_walkItem_self v)
    obtain ⟨s, rfl⟩ | ⟨opening, items, rfl⟩ | ⟨url, items, rfl⟩ := content_cases hown hlisted
    · rfl
    · exact absurd rfl (hspan opening items)
    · exact absurd rfl (hlink url items)
  · intro _
    rfl
  · intro v vs ih ihs h
    rw [walk, List.forall_mem_append] at h
    simp [ih h.1, ihs h.2]

/-- Content in which delimiters and urls are texts is content of the kind that is stored as text data. -/
theorem exists_storable :
    (∀ v, isContent v = true → (∀ u ∈ walkItem v, hasTextName u = true) →
      ∃ c : Content, c.isStorable = true ∧ c.toValue = v) ∧
    ∀ vs, areContent vs = true → (∀ u ∈ walk vs, hasTextName u = true) →
      ∃ cs, Content.areStorable cs = true ∧ Content.toValues cs = vs := by
  refine isContent.mutual_induct
    (fun v => isContent v = true → (∀ u ∈ walkItem v, hasTextName u = true) →
      ∃ c : Content, c.isStorable = true ∧ c.toValue = v)
    (fun vs => areContent vs = true → (∀ u ∈ walk vs, hasTextName u = true) →
      ∃ cs, Content.areStorable cs = true ∧ Content.toValues cs = vs) ?_ ?_ ?_ ?_ ?_ ?_
  · intro s _ _
    exact ⟨.text s, rfl, rfl⟩
  · intro opening items ih h hnames
    rw [walkItem, List.forall_mem_cons] at hnames
    obtain ⟨cs, hcs, rfl⟩ := ih h hnames.2
    cases opening with
    | str s => exact ⟨.span s cs, hcs, rfl⟩
    | _ => cases hnames.1
  · intro url items ih h hnames
    rw [walkItem, List.forall_mem_cons] at hnames
    obtain ⟨cs, hcs, rfl⟩ := ih h hnames.2
    cases url with
    | str s => exact ⟨.link (.str s) cs, hcs, rfl⟩
    | _ => cases hnames.1
  · intro v hstr hspan hlink h
    rw [isContent] at h
    · cases h
    · assumption
    · assumption
    · assumption
  · intro _ _
    exact ⟨[], rfl, rfl⟩
  · intro v vs ih ihs h hnames
    rw [areContent, Bool.and_eq_true] at h
    rw [walk, List.forall_mem_append] at hnames
    obtain ⟨c, hc, rfl⟩ := ih h.1 hnames.1
    obtain ⟨cs, hcs, rfl⟩ := ihs h.2 hnames.2
    refine ⟨c :: cs, ?_, rfl⟩
    simp [hc, hcs]

/-! ### The first foreign item -/

theorem saveContentItem_of_isForeign {v : Value} (h : isForeign v = true) :
    saveContentItem v = .error (.unrecognisedContent v) := by
  cases v with
  | str s => cases h
  | span opening contents => cases h
  | link url contents => cases h
  | _ => rfl

theorem find?_walkItem_of_isForeign {v : Value} (h : isForeign v = true) :
    (walkItem v).find? isForeign = some v := by
  cases v with
  | str s => cases h
  | span opening contents => cases h
  | link url contents => cases h
  | _ => rfl

/-- **The first foreign item in document order is reported.** -/
theorem saveContentItems_of_find? :
    (∀ v, (∀ u ∈ walkItem v, hasListedContents u = true) → ∀ f, (walkItem v).find? isForeign = some f →
      saveContentItem v = .error (.unrecognisedContent f)) ∧
    ∀ vs, (∀ u ∈ walk vs, hasListedContents u = true) → ∀ f, (walk vs).find? isForeign = some f →
      saveContentItems vs = .error (.unrecognisedContent f) := by
  refine walkItem.mutual_induct
    (fun v => (∀ u ∈ walkItem v, hasListedContents u = true) → ∀ f, (walkItem v).find? isForeign = some f →
      saveContentItem v = .error (.unrecognisedContent f))
    (fun vs => (∀ u ∈ walk vs, hasListedContents u = true) → ∀ f, (walk vs).find? isForeign = some f →
      saveContentItems vs = .error (.unrecognisedContent f)) ?_ ?_ ?_ ?_ ?_
  · intro opening items ih hlisted f hf
    rw [walkItem, List.forall_mem_cons] at hlisted
    rw [walkItem, List.find?_cons_of_neg Bool.false_ne_true] at hf
    rw [saveContentItem, saveContents, ih hlisted.2 f hf]
    rfl
  · intro url items ih hlisted f hf
    rw [walkItem, List.forall_mem_cons] at hlisted
    rw [walkItem, List.find?_cons_of_neg Bool.false_ne_true] at hf
    rw [saveContentItem, saveContents, ih hlisted.2 f hf]
    rfl
  · intro v hspan hlink hlisted f hf
    cases hforeign : isForeign v with
    | true =>
      rw [find?_walkItem_of_isForeign hforeign] at hf
      cases hf
      exact saveContentItem_of_isForeign hforeign
    | false =>
      obtain ⟨s, rfl⟩ | ⟨opening, items, rfl⟩ | ⟨url, items, rfl⟩ :=
        content_cases hforeign (hlisted v (mem_walkItem_self v))
      · cases hf
      · exact absurd rfl (hspan opening items)
      · exact absurd rfl (hlink url items)
  · intro _ f hf
    cases hf
  · intro v vs ih ihs hlisted f hf
    rw [walk, List.forall_mem_append] at hlisted
    rw [walk, List.find?_append] at hf
    rw [saveContentItems]
    cases hv : (walkItem v).find? isForeign with
    | some g =>
      rw [hv, Option.some_or] at hf
      cases hf
      rw [ih hlisted.1 f hv]
      rfl
    | none =>
      -- the item itself is saved, so the fault is that of the items after it
      have hown : ∀ u ∈ walkItem v, isForeign u = false ∧ hasListedContents u = true := fun u hu =>
        ⟨Bool.not_eq_true _ ▸ List.find?_eq_none.1 hv u hu, hlisted.1 u hu⟩
      obtain ⟨data, hsave, -⟩ := reloads_content.1 v (areContent_of_walk.1 v hown)
      rw [hv, Option.none_or] at hf
      simp [hsave, ihs hlisted.2 f hf]

section Listed

variable {items : List Value}

/-- A fault is that of the first foreign item; without one contents are saved. -/
theorem saveContents_eq_error_iff (hlisted : ∀ v ∈ walk items, hasListedContents v = true) (fault : Fault) :
    saveContents (.list items) = .error fault ↔
      ∃ v, (walk items).find? isForeign = some v ∧ fault = .unrecognisedContent v := by
  have hforeign : ∀ v, (walk items).find? isForeign = some v →
      saveContents (.list items) = .error (.unrecognisedContent v) := by
    intro v hv
    rw [saveContents, saveContentItems_of_find?.2 items hlisted v hv]
    rfl
  cases hfind : (walk items).find? isForeign with
  | some v =>
    rw [hforeign v hfind]
    constructor
    · intro h
      cases h
      exact ⟨v, rfl, rfl⟩
    · rintro ⟨f, hf, rfl⟩
      cases hf
      rfl
  | none =>
    have hown : ∀ v ∈ walk items, isForeign v = false ∧ hasListedContents v = true := fun v hv =>
      ⟨Bool.not_eq_true _ ▸ List.find?_eq_none.1 hfind v hv, hlisted v hv⟩
    obtain ⟨data, hsave, -⟩ := reloads_content.2 items (areContent_of_walk.2 items hown)
    rw [saveContents, hsave]
    constructor
    · intro h
      cases h
    · rintro ⟨v, hv, -⟩
      cases hv

/-- Contents without foreign items, in which delimiters and urls are texts, are saved as data from which they are
loaded again. -/
theorem exists_reloaded (hcontent : areContent items = true) (hnames : ∀ v ∈ walk items, hasTextName v = true) :
    ∃ data, saveContents (.list items) = .ok data ∧ loadContents data = .list items ∧
      Value.isNanFree (.list items) = true ∧ Value.isNanFree data = true := by
  obtain ⟨cs, hcs, rfl⟩ := exists_storable.2 items hcontent hnames
  obtain ⟨hnan, data, hsave, htext, hload⟩ := Content.roundTrips_contents hcs
  refine ⟨.list data, ?_, ?_, hnan, Value.areNanFree_of_areTextData htext⟩
  · rw [saveContents, hsave]
    rfl
  · rw [loadContents, hload]

/-- **Contents are saved unless there is a foreign item in them.** If all that spans and links hold is held in lists,
there is a fault just if some item at some depth is neither a text nor a span nor a link, and then the fault names
the first such item in document order. Else there are data; if delimiters and urls are texts, what is loaded from
the data equals the contents, and what is saved again equals the data. -/
theorem saveContents_exact (hlisted : ∀ v ∈ walk items, hasListedContents v = true) :
    ((∃ fault, saveContents (.list items) = .error fault) ↔ ∃ v ∈ walk items, isForeign v = true) ∧
    (∀ fault, saveContents (.list items) = .error fault →
      ∃ v, (walk items).find? isForeign = some v ∧ fault = .unrecognisedContent v ∧
        fault.message = some ("error: cannot serialise content item ".toList ++ v.display)) ∧
    ((∀ v ∈ walk items, isForeign v = false) → (∀ v ∈ walk items, hasTextName v = true) →
      ∃ data, saveContents (.list items) = .ok data ∧
        loadContents data = .list items ∧ Value.beq (loadContents data) (.list items) = true ∧
        saveContents (loadContents data) = .ok data ∧ Value.beq data data = true) := by
  refine ⟨⟨?_, ?_⟩, ?_, ?_⟩
  · rintro ⟨fault, h⟩
    obtain ⟨v, hv, -⟩ := (saveContents_eq_error_iff hlisted fault).1 h
    exact ⟨v, List.mem_of_find?_eq_some hv, List.find?_some hv⟩
  · rintro ⟨v, hv, hforeign⟩
    obtain ⟨f, hf⟩ := Option.isSome_iff_exists.1 (List.find?_isSome.2 ⟨v, hv, hforeign⟩)
    exact ⟨_, (saveContents_eq_error_iff hlisted _).2 ⟨f, hf, rfl⟩⟩
  · intro fault h
    obtain ⟨v, hv, rfl⟩ := (saveContents_eq_error_iff hlisted fault).1 h
    exact ⟨v, hv, rfl, rfl⟩
  · intro hown hnames
    have hcontent : areContent items = true :=
      areContent_of_walk.2 items fun v hv => ⟨hown v hv, hlisted v hv⟩
    obtain ⟨data, hsave, hload, hnan, hnanData⟩ := exists_reloaded hcontent hnames
    refine ⟨data, hsave, hload, ?_⟩
    rw [hload]
    exact ⟨Value.beq_self hnan, hsave, Value.beq_self hnanData⟩

end Listed

/-- A number in a link in a span, which comes before the absent value after the span; and a link in a span, with the
same number as text. -/
theorem saveContents_exact_in_span :
    (∀ v ∈ walk [.span (.str "*".toList) (.list [.link (.str "u".toList) (.list [.int 3])]), .null],
      hasListedContents v = true) ∧
    (∃ fault, saveContents
        (.list [.span (.str "*".toList) (.list [.link (.str "u".toList) (.list [.int 3])]), .null]) =
          .error fault ∧
      fault = .unrecognisedContent (.int 3) ∧
      fault.message = some "error: cannot serialise content item 3".toList) ∧
    (∀ v ∈ walk [.span (.str "*".toList) (.list [.link (.str "u".toList) (.list [.str "3".toList])])],
      hasListedContents v = true ∧ isForeign v = false ∧ hasTextName v = true) ∧
    ∃ data, saveContents
        (.list [.span (.str "*".toList) (.list [.link (.str "u".toList) (.list [.str "3".toList])])]) = .ok data ∧
      Value.beq (loadContents data)
        (.list [.span (.str "*".toList) (.list [.link (.str "u".toList) (.list [.str "3".toList])])]) = true ∧
      saveContents (loadContents data) = .ok data := by
  have hlisted : ∀ v ∈ walk [.span (.str "*".toList) (.list [.link (.str "u".toList) (.list [.int 3])]), .null],
      hasListedContents v = true := by
    decide
  have hall : ∀ v ∈ walk [.span (.str "*".toList) (.list [.link (.str "u".toList) (.list [.str "3".toList])])],
      hasListedContents v = true ∧ isForeign v = false ∧ hasTextName v = true := by
    decide
  obtain ⟨hfails, hnames, -⟩ := saveContents_exact hlisted
  obtain ⟨fault, hfault⟩ := hfails.2 ⟨.int 3, by simp [walk, walkItem], rfl⟩
  obtain ⟨v, hv, rfl, hmessage⟩ := hnames fault hfault
  obtain rfl : .int 3 = v := Option.some.inj hv
  obtain ⟨-, -, hsaves⟩ := saveContents_exact fun v hv => (hall v hv).1
  obtain ⟨data, hsave, -, hload, hagain, -⟩ :=
    hsaves (fun v hv => (hall v hv).2.1) fun v hv => (hall v hv).2.2
  exact ⟨hlisted, ⟨_, hfault, rfl, hmessage.trans (by decide)⟩, hall, data, hsave, hload, hagain⟩

end Storage

end ProseMarkup
