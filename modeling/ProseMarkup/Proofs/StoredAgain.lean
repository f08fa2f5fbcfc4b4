import ProseMarkup.Proofs.StorageFormat
import ProseMarkup.Proofs.StoredContent

/-!
# Storage settles at once

What is loaded need not be what the data says: content that is no content becomes the text that shows it,
and what is missing is filled in. But whatever has been loaded so is saved without a fault, and loaded from
what is saved it stays as it is. So one pass through storage brings all data into a form that the next one
leaves alone.

* `Storage.isContent`, `Storage.areContent` : the values that are content as loading makes it.
* `Storage.isContent_loadContent` : **whatever the data of an item, what is loaded from it is content**.
* `Storage.reloads_content` : **content is saved, and loaded again as it was**.
* `Storage.Reloads` : a value is saved, and loaded again as it was.
* `Storage.reloads_loadDocument` : so it is with every valid document that has been loaded from plain data.
* `Storage.load_save_settles` : **what one pass through storage makes of data, the next one leaves alone**.

`Storage.RoundTrips` asks more than `Storage.Reloads`: that a value is saved as text data. The opening
delimiters, urls and rule names of loaded content may be data of any kind.
-/

namespace ProseMarkup.Storage

open Value (entryAt ofContents)

/-- A value in which nothing is unlike itself is saved, and from the saved data it is loaded again. -/
def Reloads (store : Value → Except Fault Value) (load : Value → Value) (v : Value) : Prop :=
  v.isNanFree = true ∧ ∃ data, store v = .ok data ∧ load data = v

theorem RoundTrips.reloads {store : Value → Except Fault Value} {load : Value → Value} {v : Value}
    (h : RoundTrips store load v) : Reloads store load v := by
  obtain ⟨hnan, data, hsave, -, hload⟩ := h
  exact ⟨hnan, data, hsave, hload⟩

/-- Records that are loaded again are so when they are saved one by one. -/
theorem reloads_items {load : Value → Value} {xs : List Value}
    (h : ∀ x ∈ xs, Reloads save load x) :
    Value.areNanFree xs = true ∧ ∃ data, saveItems xs = .ok data ∧ data.map load = xs := by
  induction xs with
  | nil => exact ⟨rfl, [], rfl, rfl⟩
  | cons x xs ih =>
    obtain ⟨hx, hxs⟩ := List.forall_mem_cons.1 h
    obtain ⟨hnan, data, hsave, hload⟩ := hx
    obtain ⟨hnans, later, hsaves, hloads⟩ := ih hxs
    refine ⟨?_, data :: later, ?_, ?_⟩
    · simp [hnan, hnans]
    · simp [saveItems, hsave, hsaves]
    · rw [List.map_cons, hload, hloads]

/-! ### Content as loading makes it -/

mutual

/-- Whether a value is a text, or a span or a link with a list of such values. -/
@[simp] def isContent : Value → Bool
  | .str _ => true
  | .span _ (.list items) => areContent items
  | .link _ (.list items) => areContent items
  | _ => false
termination_by structural v => v

/-- Whether all items are such values. -/
@[simp] def areContent : List Value → Bool
  | [] => true
  | x :: xs => isContent x && areContent xs
termination_by structural xs => xs

end

mutual

/-- **Whatever the data of an item, what is loaded from it is content.** -/
theorem isContent_loadContent : ∀ data : Value, isContent (loadContent data) = true
  | .dict es => by
    obtain ⟨items, hitems, hcontent⟩ := areContent_loadContentsAt es
    rw [loadContent, hitems]
    split
    · exact hcontent
    · split
      · exact hcontent
      · rfl
  | .null | .bool _ | .int _ | .float _ | .nan _ | .str _ | .list _ => rfl
  | .rule _ | .spanRule .. | .style .. | .span .. | .link .. | .paragraph .. | .document .. => rfl

/-- Contents that are no list are filled in as none. -/
theorem areContent_loadContents : ∀ data : Value,
    ∃ items, ofContents (loadContents data) = .list items ∧ areContent items = true
  | .list xs => ⟨loadContentItems xs, rfl, areContent_loadContentItems xs⟩
  | .null | .bool _ | .int _ | .float _ | .nan _ | .str _ | .dict _ => ⟨[], rfl, rfl⟩
  | .rule _ | .spanRule .. | .style .. | .span .. | .link .. | .paragraph .. | .document .. =>
    ⟨[], rfl, rfl⟩

theorem areContent_loadContentsAt : ∀ es : List (Value × Value),
    ∃ items, ofContents (loadContentsAt es) = .list items ∧ areContent items = true
  | [] => ⟨[], rfl, rfl⟩
  | (k, v) :: es => by
    rw [loadContentsAt]
    split
    · exact areContent_loadContents v
    · exact areContent_loadContentsAt es

theorem areContent_loadContentItems : ∀ xs : List Value, areContent (loadContentItems xs) = true
  | [] => rfl
  | x :: xs => by
    simp [loadContentItems, isContent_loadContent x, areContent_loadContentItems xs]

end

/-- **Content is saved, and loaded again as it was**, item by item and as a list. -/
theorem reloads_content :
    (∀ c, isContent c = true → ∃ data, saveContentItem c = .ok data ∧ loadContent data = c) ∧
    ∀ cs, areContent cs = true → ∃ data, saveContentItems cs = .ok data ∧
      loadContentItems data = cs := by
  refine isContent.mutual_induct
    (fun c => isContent c = true → ∃ data, saveContentItem c = .ok data ∧ loadContent data = c)
    (fun cs => areContent cs = true → ∃ data, saveContentItems cs = .ok data ∧
      loadContentItems data = cs) ?_ ?_ ?_ ?_ ?_ ?_
  · intro s _
    exact ⟨.str s, rfl, rfl⟩
  · intro opening items ih h
    obtain ⟨data, hsave, hload⟩ := ih h
    exact ⟨_, Content.save_span opening hsave, by simp [hload]⟩
  · intro url items ih h
    obtain ⟨data, hsave, hload⟩ := ih h
    exact ⟨_, Content.save_link url hsave, by simp [hload]⟩
  · intro c hstr hspan hlink h
    rw [isContent] at h
    · cases h
    · assumption
    · assumption
    · assumption
  · intro _
    exact ⟨[], rfl, rfl⟩
  · intro c cs ih ihs h
    rw [areContent, Bool.and_eq_true] at h
    obtain ⟨data, hsave, hload⟩ := ih h.1
    obtain ⟨later, hsaves, hloads⟩ := ihs h.2
    refine ⟨data :: later, ?_, ?_⟩
    · simp [saveContentItems, hsave, hsaves]
    · rw [loadContentItems, hload, hloads]

/-! ### Loading keeps what is like itself -/

theorem isNanFree_entryAt (key : Text) {es : List (Value × Value)}
    (h : Value.areEntriesNanFree es = true) : (entryAt key es).isNanFree = true := by
  induction es with
  | nil => rfl
  | cons e es ih =>
    obtain ⟨k, v⟩ := e
    rw [Value.areEntriesNanFree, Bool.and_eq_true, Bool.and_eq_true] at h
    rw [entryAt]
    split
    · exact h.1.2
    · exact ih h.2

theorem isNanFree_of_mem {xs : List Value} (h : Value.areNanFree xs = true) {x : Value}
    (hx : x ∈ xs) : x.isNanFree = true := by
  induction xs with
  | nil => cases hx
  | cons y xs ih =>
    rw [Value.areNanFree, Bool.and_eq_true] at h
    rcases List.mem_cons.1 hx with rfl | hx
    · exact h.1
    · exact ih h.2 hx

theorem isNanFree_ofContents {v : Value} (h : v.isNanFree = true) :
    (ofContents v).isNanFree = true := by
  cases v with
  | null => rfl
  | _ => exact h

mutual

theorem isNanFree_loadContent : ∀ data : Value, data.isNanFree = true →
    (loadContent data).isNanFree = true
  | .dict es, h => by
    have hcontents := isNanFree_ofContents (isNanFree_loadContentsAt es h)
    rw [loadContent]
    split
    · exact Bool.and_eq_true _ _ ▸ ⟨isNanFree_entryAt "style".toList h, hcontents⟩
    · split
      · exact Bool.and_eq_true _ _ ▸ ⟨isNanFree_entryAt "url".toList h, hcontents⟩
      · rfl
  | .null, _ | .bool _, _ | .int _, _ | .float _, _ | .nan _, _ | .str _, _ | .list _, _ => rfl
  | .rule _, _ | .spanRule .., _ | .style .., _ | .span .., _ | .link .., _ | .paragraph .., _
  | .document .., _ => rfl

theorem isNanFree_loadContents : ∀ data : Value, data.isNanFree = true →
    (loadContents data).isNanFree = true
  | .list xs, h => areNanFree_loadContentItems xs h
  | .null, _ | .bool _, _ | .int _, _ | .float _, _ | .nan _, _ | .str _, _ | .dict _, _ => rfl
  | .rule _, _ | .spanRule .., _ | .style .., _ | .span .., _ | .link .., _ | .paragraph .., _
  | .document .., _ => rfl

theorem isNanFree_loadContentsAt : ∀ es : List (Value × Value),
    Value.areEntriesNanFree es = true → (loadContentsAt es).isNanFree = true
  | [], _ => rfl
  | (k, v) :: es, h => by
    rw [Value.areEntriesNanFree, Bool.and_eq_true, Bool.and_eq_true] at h
    rw [loadContentsAt]
    split
    · exact isNanFree_loadContents v h.1.2
    · exact isNanFree_loadContentsAt es h.2

theorem areNanFree_loadContentItems : ∀ xs : List Value, Value.areNanFree xs = true →
    Value.areNanFree (loadContentItems xs) = true
  | [], _ => rfl
  | x :: xs, h => by
    rw [Value.areNanFree, Bool.and_eq_true] at h
    simp [loadContentItems, isNanFree_loadContent x h.1, areNanFree_loadContentItems xs h.2]

end

/-! ### Loaded records -/

/-- A paragraph that has been loaded is saved, and loaded again, whatever its content came from. -/
theorem reloads_loadParagraph {data : Value} (hn : data.isNanFree = true)
    (hd : IsParagraphData data) : Reloads save loadParagraph (loadParagraph data) := by
  obtain ⟨es, rfl, ⟨names, hnames⟩, items, hitems⟩ := hd
  have hload : loadParagraph (.dict es) = .paragraph (.list names) (.list (loadContentItems items)) := by
    rw [loadParagraph, hnames, hitems]
    rfl
  have hnamesNan : Value.areNanFree names = true := by
    have hfield := isNanFree_entryAt "styles".toList hn
    rwa [hnames] at hfield
  have hitemsNan : Value.areNanFree items = true := by
    have hfield := isNanFree_entryAt "contents".toList hn
    rwa [hitems] at hfield
  obtain ⟨contents, hsave, hagain⟩ := reloads_content.2 _ (areContent_loadContentItems items)
  rw [hload]
  refine ⟨?_, record [("styles".toList, .list names), ("contents".toList, .list contents)], ?_, ?_⟩
  · exact Bool.and_eq_true _ _ ▸ ⟨hnamesNan, areNanFree_loadContentItems items hitemsNan⟩
  · rw [save, saveContents, hsave]
    rfl
  · show Value.paragraph (.list names) (.list (loadContentItems contents)) = _
    rw [hagain]

/-- **A valid document that has been loaded from plain data is saved, and loaded again as it was.** -/
theorem reloads_loadDocument {w : Whitelists} {data : Value} (hd : isPlainData data = true)
    (hn : data.isNanFree = true) (hv : validDocument w (loadDocument data) = true) :
    Reloads save loadDocument (loadDocument data) := by
  obtain ⟨es, rfl, ⟨paragraphs, hparagraphs, hp⟩, styles, hstyles, hs⟩ :=
    (validDocument_loadDocument_iff hd).1 hv
  have hload : loadDocument (.dict es) =
      .document (.list (paragraphs.map loadParagraph)) (.list (styles.map loadStyle)) := by
    rw [loadDocument, hparagraphs, hstyles]
    rfl
  have hparagraphsNan : Value.areNanFree paragraphs = true := by
    have hfield := isNanFree_entryAt "paragraphs".toList hn
    rwa [hparagraphs] at hfield
  have hstylesPlain : arePlainData styles = true := by
    have hfield := isPlainData_entryAt "styles".toList hd
    rwa [hstyles] at hfield
  have hps : ∀ v ∈ paragraphs.map loadParagraph, Reloads save loadParagraph v := by
    intro v hmem
    obtain ⟨p, hpmem, rfl⟩ := List.mem_map.1 hmem
    exact reloads_loadParagraph (isNanFree_of_mem hparagraphsNan hpmem) (hp p hpmem)
  have hss : ∀ v ∈ styles.map loadStyle, Reloads save loadStyle v := by
    intro v hmem
    obtain ⟨s, hsmem, rfl⟩ := List.mem_map.1 hmem
    have hplain := isPlainData_of_mem_list hstylesPlain hsmem
    have hvalid := (validStyle_loadStyle_iff (w := w) hplain).2 (hs s hsmem)
    exact (roundTrips_style hvalid (hasPlainRules_loadStyle hplain hvalid)).reloads
  obtain ⟨hpnan, ps, hpsave, hpload⟩ := reloads_items hps
  obtain ⟨hsnan, ss, hssave, hsload⟩ := reloads_items hss
  rw [hload]
  refine ⟨?_, record [("paragraphs".toList, .list ps), ("styles".toList, .list ss)], ?_, ?_⟩
  · exact Bool.and_eq_true _ _ ▸ ⟨hpnan, hsnan⟩
  · rw [save, saveEach, saveEach, hpsave, hssave]
    rfl
  · show Value.document (.list (ps.map loadParagraph)) (.list (ss.map loadStyle)) = _
    rw [hpload, hsload]

/-- **What one pass through storage makes of data, the next one leaves alone.** A valid document loaded
from plain data is saved without a fault; what is loaded from the saved data equals the document, is valid
too, and is saved as the same data. And so it is with content, whatever list it is loaded from. -/
theorem load_save_settles {w : Whitelists} {data : Value} (hd : isPlainData data = true)
    (hn : data.isNanFree = true) :
    (validDocument w (loadDocument data) = true →
      ∃ saved, save (loadDocument data) = .ok saved ∧
        Value.beq (loadDocument saved) (loadDocument data) = true ∧
        loadDocument saved = loadDocument data ∧
        validDocument w (loadDocument saved) = true ∧ save (loadDocument saved) = .ok saved) ∧
    ∀ items, data = .list items →
      ∃ saved, saveContents (loadContents data) = .ok saved ∧
        loadContents saved = loadContents data ∧ saveContents (loadContents saved) = .ok saved := by
  constructor
  · intro hv
    obtain ⟨hnan, saved, hsave, hload⟩ := reloads_loadDocument hd hn hv
    refine ⟨saved, hsave, ?_, hload, ?_, ?_⟩
    · rw [hload]
      exact Value.beq_self hnan
    · rw [hload]
      exact hv
    · rw [hload]
      exact hsave
  · rintro items rfl
    obtain ⟨saved, hsave, hload⟩ := reloads_content.2 _ (areContent_loadContentItems items)
    have hcontents : saveContents (loadContents (.list items)) = .ok (.list saved) := by
      rw [loadContents, saveContents, hsave]
      rfl
    have hagain : loadContents (.list saved) = loadContents (.list items) := by
      rw [loadContents, loadContents, hload]
    refine ⟨.list saved, hcontents, hagain, ?_⟩
    rw [hagain]
    exact hcontents

/-- Contents with a number, a span that names neither its delimiter nor its contents, and a link to no text
that holds a list and an unknown kind of item. -/
def strayContents : Value :=
  .list [.int 3, record [("type".toList, .str spanKind)],
    record [("type".toList, .str linkKind), ("url".toList, .bool true),
      ("contents".toList, .list [.list [.null], record [("type".toList, .str "rule".toList)]])]]

/-- The data of a document with such contents, and with a style whose rules leave out what they may. -/
def strayDocument : Value :=
  record [("paragraphs".toList, .list [record [("styles".toList, .list [.null]),
      ("contents".toList, strayContents)]]),
    ("styles".toList, .list [record [("para".toList, record [("a".toList, record [])]),
      ("span".toList, record [("*".toList, record [("endPattern".toList, .null)])]),
      ("cont".toList, record [("props".toList, .null)])]])]

theorem load_save_settles_stray :
    (isPlainData strayDocument = true ∧ strayDocument.isNanFree = true ∧
      validDocument ⟨.ofPatterns [], .ofPatterns [], .ofPatterns []⟩ (loadDocument strayDocument) = true ∧
      ∃ saved, save (loadDocument strayDocument) = .ok saved ∧
        loadDocument saved = loadDocument strayDocument ∧ save (loadDocument saved) = .ok saved) ∧
    isPlainData strayContents = true ∧ strayContents.isNanFree = true ∧
      ∃ saved, saveContents (loadContents strayContents) = .ok saved ∧
        saveContents (loadContents saved) = .ok saved := by
  have hvalid : validDocument ⟨.ofPatterns [], .ofPatterns [], .ofPatterns []⟩
      (loadDocument strayDocument) = true := rfl
  obtain ⟨saved, hsave, -, hload, -, hagain⟩ := (load_save_settles rfl rfl).1 hvalid
  obtain ⟨contents, hcontents, -, hsame⟩ :=
    (@load_save_settles ⟨.ofPatterns [], .ofPatterns [], .ofPatterns []⟩ strayContents rfl rfl).2 _ rfl
  exact ⟨⟨rfl, rfl, hvalid, saved, hsave, hload, hagain⟩, rfl, rfl, contents, hcontents, hsame⟩

end ProseMarkup.Storage
