import ProseMarkup.Value.Access

/-!
# Saving

The library's records are stored as plain data: dictionaries, lists and texts.

* `Storage.save` : the data of a record.
* `Storage.saveContents` : the data of contents.

What is no record cannot be saved, and neither can contents with an item that is neither text nor a
span nor a link; the first such item is reported.
-/

namespace ProseMarkup.Storage

/-- The kind of a stored span. -/
def spanKind : Text := "span".toList

/-- The kind of a stored link. -/
def linkKind : Text := "link".toList

/-- A dictionary with text keys. -/
def record (fields : List (Text × Value)) : Value :=
  .dict (fields.map fun f => (.str f.1, f.2))

/-- A field that is left out if its value is absent. -/
def optionalField (key : Text) : Value → List (Text × Value)
  | .null => []
  | v => [(key, v)]

/-- A stored span. -/
def spanRecord (opening contents : Value) : Value :=
  record [("type".toList, .str spanKind), ("style".toList, opening), ("contents".toList, contents)]

/-- A stored link. -/
def linkRecord (url contents : Value) : Value :=
  record [("type".toList, .str linkKind), ("url".toList, url), ("contents".toList, contents)]

/-- Contents that are not a list are read item by item like one; a key or a character among them is
content only if it is a text. -/
def saveScalar : Value → Except Fault Value
  | .str s => .ok (.str s)
  | v => .error (.unrecognisedContent v)

mutual

/-- The data of a record. -/
def save : Value → Except Fault Value
  | .rule props => .ok (record [("props".toList, props)])
  | .spanRule props closer =>
    .ok (record (("props".toList, props) :: optionalField "endPattern".toList closer))
  | .style paragraph span container => do
    let para ← saveRules paragraph
    let spans ← saveRules span
    let fields := [("para".toList, para), ("span".toList, spans)]
    match container with
    | .null => return record fields
    | c => return record (fields ++ [("cont".toList, ← save c)])
  | .span opening contents => do return spanRecord opening (← saveContents contents)
  | .link url contents => do return linkRecord url (← saveContents contents)
  | .paragraph styles contents => do
    let names ← styles.elements
    let items ← saveContents contents
    return record [("styles".toList, .list names), ("contents".toList, items)]
  | .document paragraphs styles => do
    let ps ← saveEach paragraphs
    let ss ← saveEach styles
    return record [("paragraphs".toList, ps), ("styles".toList, ss)]
  | _ => .error .lacksMember
termination_by structural v => v

/-- The data of contents. -/
def saveContents : Value → Except Fault Value
  | .list items => do return .list (← saveContentItems items)
  | v => do return .list (← (← v.elements).mapM saveScalar)
termination_by structural v => v

/-- The data of content items. -/
def saveContentItems : List Value → Except Fault (List Value)
  | [] => .ok []
  | x :: xs => do
    let y ← saveContentItem x
    let ys ← saveContentItems xs
    return y :: ys
termination_by structural xs => xs

/-- The data of a content item. -/
def saveContentItem : Value → Except Fault Value
  | .str s => .ok (.str s)
  | .span opening contents => do return spanRecord opening (← saveContents contents)
  | .link url contents => do return linkRecord url (← saveContents contents)
  | v => .error (.unrecognisedContent v)
termination_by structural v => v

/-- The data of a dictionary of rules. -/
def saveRules : Value → Except Fault Value
  | .dict rules => do return .dict (← saveRuleEntries rules)
  | _ => .error .lacksMember
termination_by structural v => v

/-- The data of the entries of a dictionary of rules. -/
def saveRuleEntries : List (Value × Value) → Except Fault (List (Value × Value))
  | [] => .ok []
  | (name, rule) :: es => do
    let data ← save rule
    let rest ← saveRuleEntries es
    return (name, data) :: rest
termination_by structural es => es

/-- The data of the records in a list. -/
def saveEach : Value → Except Fault Value
  | .list xs => do return .list (← saveItems xs)
  | v => do if (← v.elements).isEmpty then return .list [] else .error .lacksMember
termination_by structural v => v

/-- The data of records. -/
def saveItems : List Value → Except Fault (List Value)
  | [] => .ok []
  | x :: xs => do
    let y ← save x
    let ys ← saveItems xs
    return y :: ys
termination_by structural xs => xs

end

end ProseMarkup.Storage
