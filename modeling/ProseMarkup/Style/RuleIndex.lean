import ProseMarkup.PrefixTree
import ProseMarkup.Style.Basic

/-!
# The index of the rules of several styles

What the compilation of a text asks of its styles: which paragraph rules there are, which opening
delimiters, and how each is closed. Of several styles with the same opening delimiter the last
decides.

* `RuleIndex` : the index, with the prefix tree of its opening delimiters.
* `RuleIndex.selects`, `RuleIndex.closing` : the questions it answers.
* `RuleIndex.selectsValue`, `RuleIndex.sortedNames` : any value as a name, and all names in order.
* `RuleIndex.ofValues` : the index of a list of values as styles.

A closing delimiter that is no text does no harm until the delimiter it belongs to is tried. Such an
opening is kept among the closable ones with an empty closing delimiter, and recorded as unusable with
what was declared.
-/

namespace ProseMarkup

/-- The paragraph rules and the span delimiters of several styles. -/
structure RuleIndex where
  /-- The names of the paragraph rules that are texts, each once. -/
  ruleNames : List Text
  /-- The names of the paragraph rules that are no texts, each once. No line selects them. -/
  otherNames : List Value := []
  /-- The closing delimiter of each opening one. -/
  closers : Dict Text Text
  /-- Openings whose declared closing delimiter is no text, with what was declared. -/
  unusable : List (Text × Value) := []
  /-- The opening delimiters as a prefix tree. -/
  openings : PrefixTree := PrefixTree.ofPatterns closers.keys []
  /-- The tree holds the openings and nothing else. -/
  openings_eq : openings = PrefixTree.ofPatterns closers.keys [] := by rfl

namespace RuleIndex

/-- The index of no rules. -/
def empty : RuleIndex where
  ruleNames := []
  closers := .empty

instance : Inhabited RuleIndex := ⟨empty⟩

/-- Whether a line selects a paragraph rule, that is, names one. -/
def selects (t : RuleIndex) (name : Text) : Bool :=
  t.ruleNames.contains name

/-- Whether a value names a paragraph rule. -/
def selectsValue (t : RuleIndex) : Value → Except Fault Bool
  | .str name => .ok (t.selects name)
  | name => if name.isKey then .ok (t.otherNames.any (· == name)) else .error .notKey

/-- The names of all paragraph rules in ascending order. -/
def sortedNames (t : RuleIndex) : Except Fault (List Value) :=
  Value.sorted (t.ruleNames.map .str ++ t.otherNames)

/-- The delimiter that closes the spans of an opening one. -/
def closing (t : RuleIndex) (opening : Text) : Text :=
  (t.closers.get? opening).getD opening

/-- Whether the closing delimiter declared for an opening one is no text. -/
def isUnusable (t : RuleIndex) (opening : Text) : Bool :=
  t.unusable.any fun e => e.1 == opening

/-- The closing delimiter declared for each opening one, in order, usable or not. -/
def declaredClosers (t : RuleIndex) : List (Text × Value) :=
  t.closers.entries.map fun e =>
    (e.1, (Dict.lookupEntry e.1 t.unusable).getD (.str e.2))

/-! ### The index of values -/

/-- Names and closing delimiters as declared by the styles read so far. -/
structure Declarations where
  names : List Value
  closers : List (Value × Value)

/-- Closing delimiters after one more span rule: what the rule names, else its opening. -/
def Declarations.addSpanRule (closers : List (Value × Value)) (entry : Value × Value) :
    Except Fault (List (Value × Value)) := do
  match ← Value.closer entry.2 with
  | .null => return Dict.setEntry entry.1 entry.1 closers
  | c => return Dict.setEntry entry.1 c closers

/-- Names and closing delimiters after one more style. -/
def Declarations.add (d : Declarations) : Value → Except Fault Declarations
  | .style paragraphRules spanRules _ => do
    let names := (← Value.entries paragraphRules).map Prod.fst
    let closers ← (← Value.entries spanRules).foldlM addSpanRule d.closers
    return ⟨d.names ++ names, closers⟩
  | _ => .error .lacksMember

/-- The text of an opening delimiter. -/
def openingText : Value → Except Fault Text
  | .str s => .ok s
  | _ => .error .notIterable

/-- The text that a value is. -/
def text? : Value → Option Text
  | .str s => some s
  | _ => none

/-- Closing delimiters, and unusable openings, after one more declaration. -/
def addOpening (closers : Dict Text Text × List (Text × Value)) (entry : Value × Value) :
    Except Fault (Dict Text Text × List (Text × Value)) := do
  let opening ← openingText entry.1
  match entry.2 with
  | .str closer => return (closers.1.set opening closer, closers.2)
  | declared => return (closers.1.set opening [], closers.2 ++ [(opening, declared)])

/-- The index of a list of values as styles. -/
def ofValues (styles : List Value) : Except Fault RuleIndex := do
  let d ← styles.foldlM Declarations.add ⟨[], []⟩
  let (closers, unusable) ← d.closers.foldlM addOpening (.empty, [])
  return {
    ruleNames := (d.names.filterMap text?).eraseDups
    otherNames := (d.names.filter fun n => (text? n).isNone).eraseDups
    closers, unusable }

end RuleIndex

end ProseMarkup
