import ProseMarkup.Storage.Save

/-!
# Loading

Records are rebuilt from stored data, which may have been tampered with. Loading never fails: data of
the wrong shape is carried over, or replaced by the absent value, for the validators to refuse, and
content that is no content becomes the text that shows it.

* `Storage.loadRule`, `Storage.loadSpanRule`, `Storage.loadStyle` : rules and styles.
* `Storage.loadContent`, `Storage.loadContents` : content.
* `Storage.loadParagraph`, `Storage.loadDocument` : paragraphs and documents.

Main statements: the recursion on the data reads contents under their key (`loadContentsAt_eq`) and item
by item (`loadContentItems_eq_map`).
-/

namespace ProseMarkup.Storage

open Value (entryAt ofProps ofContents)

/-! ### Styles -/

/-- A rule from its data; what is no dictionary is carried over. -/
def loadRule : Value → Value
  | .dict es => .rule (ofProps (entryAt "props".toList es))
  | data => data

/-- A span rule from its data; what is no dictionary is carried over. -/
def loadSpanRule : Value → Value
  | .dict es =>
    .spanRule (ofProps (entryAt "props".toList es)) (entryAt "endPattern".toList es)
  | data => data

/-- A namespace of rules from its data; what is no dictionary is carried over. -/
def loadRules (load : Value → Value) : Value → Value
  | .dict es => .dict (es.map fun e => (e.1, load e.2))
  | data => data

/-- A style from its data; one without namespaces if that is no dictionary. -/
def loadStyle : Value → Value
  | .dict es =>
    .style (loadRules loadRule (entryAt "para".toList es))
      (loadRules loadSpanRule (entryAt "span".toList es))
      (loadRule (entryAt "cont".toList es))
  | _ => .style .null .null .null

/-! ### Content -/

mutual

/-- A content item from its data. -/
def loadContent : Value → Value
  | .str s => .str s
  | .dict es =>
    let kind := entryAt "type".toList es
    if kind.isStr spanKind then
      .span (entryAt "style".toList es) (ofContents (loadContentsAt es))
    else if kind.isStr linkKind then
      .link (entryAt "url".toList es) (ofContents (loadContentsAt es))
    else .str (Value.asText (.dict es))
  | data => .str (Value.asText data)
termination_by structural v => v

/-- Contents from their data; absent if that is no list. -/
def loadContents : Value → Value
  | .list items => .list (loadContentItems items)
  | _ => .null
termination_by structural v => v

/-- Contents from the data under their key. -/
def loadContentsAt : List (Value × Value) → Value
  | [] => .null
  | (k, v) :: es => if k.isStr "contents".toList then loadContents v else loadContentsAt es
termination_by structural es => es

/-- Content items from their data. -/
def loadContentItems : List Value → List Value
  | [] => []
  | x :: xs => loadContent x :: loadContentItems xs
termination_by structural xs => xs

end

theorem loadContentsAt_eq (es : List (Value × Value)) :
    loadContentsAt es = loadContents (entryAt "contents".toList es) := by
  induction es with
  | nil => rfl
  | cons e es ih =>
    obtain ⟨k, v⟩ := e
    rw [loadContentsAt, entryAt]
    split
    · rfl
    · exact ih

theorem loadContentItems_eq_map (items : List Value) :
    loadContentItems items = items.map loadContent := by
  induction items with
  | nil => rfl
  | cons x xs ih => simp [loadContentItems, ih]

/-! ### Documents -/

/-- A value if it is a list, else the absent value. -/
def listOrNull : Value → Value
  | .list items => .list items
  | _ => .null

/-- A paragraph from its data; absent if that is no dictionary. -/
def loadParagraph : Value → Value
  | .dict es =>
    .paragraph (listOrNull (entryAt "styles".toList es))
      (loadContents (entryAt "contents".toList es))
  | _ => .null

/-- The items of a list loaded one by one; absent if the value is no list. -/
def loadEach (load : Value → Value) : Value → Value
  | .list items => .list (items.map load)
  | _ => .null

/-- A document from its data; one without paragraphs and styles if that is no dictionary. -/
def loadDocument : Value → Value
  | .dict es =>
    .document (loadEach loadParagraph (entryAt "paragraphs".toList es))
      (loadEach loadStyle (entryAt "styles".toList es))
  | _ => .document .null .null

end ProseMarkup.Storage
