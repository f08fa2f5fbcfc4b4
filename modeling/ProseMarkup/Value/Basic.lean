import ProseMarkup.Dict
import ProseMarkup.Number.Decimal
import ProseMarkup.Text.Quoted

/-!
# Values

What can be kept in storage, and what can be found there: plain data, and the library's own records
with fields of any kind. Everything that crosses the boundary of trust is a `Value` until it has
been validated.

* `Value` : plain data, style rules, styles, content items, paragraphs and documents.
* `Value.ofProps`, `Value.ofContents` : the defaults for a missing set of properties and for missing
  contents.
* `Value.entryAt` : the value under a text key of a dictionary's entries.
* `Value.isKey`, `Value.isRecord` : kinds of values.
* `Value.beq` : equality of values. Two values are equal when no reader can tell them apart:
  dictionaries are compared without regard to the order of their entries, numbers of different kinds
  by the number they stand for, and records field by field. A rule and a span rule are never equal.
* `Value.sameItem` : equality of two items of lists or dictionaries. Here the result of an undefined
  operation, which equals nothing, counts as equal to itself.
* `Value.equalsItself` : whether a value equals itself.
* `Value.display` : the text that shows a value on one line: plain data in the notation of literals, a
  record as its name with its fields in parentheses.
* `Value.asText` : the text that a value stands for where a text is called for.

The instance `BEq Value` makes `==` and dictionaries with values as keys follow `Value.sameItem`.

## Limits of the interpreter

Values may be nested to any depth, and an integer may have any number of digits. An interpreter bounds
both by settings of its own: how deep a call may recurse, and how many digits an integer may have when
it is read from a text or written as one. Those settings are no part of the model. Comparing, showing,
loading, validating and saving a value are functions with a result for every value, and a statement
about them says nothing of an interpreter that gives up at one of its own bounds.
-/

namespace ProseMarkup

/-- Plain data, and the library's records with fields of any kind. -/
inductive Value where
  /-- The absent value. -/
  | null
  | bool (b : Bool)
  | int (n : Int)
  /-- A binary64 number, by its shortest literal. -/
  | float (literal : Text)
  /-- The result of an undefined operation. It equals no number, and yet is the same as itself: a mark
  tells it from others of its kind. -/
  | nan (mark : Nat)
  | str (s : Text)
  | list (items : List Value)
  /-- Entries in order of insertion. -/
  | dict (entries : List (Value × Value))
  /-- A paragraph or container rule. -/
  | rule (props : Value)
  /-- A span rule. -/
  | spanRule (props closer : Value)
  | style (paragraph span container : Value)
  | span (opening contents : Value)
  | link (url contents : Value)
  | paragraph (styles contents : Value)
  | document (paragraphs styles : Value)

namespace Value

instance : Inhabited Value := ⟨null⟩

/-- A rule without properties given has an empty dictionary of them. -/
def ofProps : Value → Value
  | null => dict []
  | props => props

/-- A content item without contents given has an empty list of them. -/
def ofContents : Value → Value
  | null => list []
  | contents => contents

/-- Whether a value is the text `s`. -/
def isStr (s : Text) : Value → Bool
  | str t => t == s
  | _ => false

/-- The value under a text key of a dictionary's entries; `null` if there is none. -/
def entryAt (key : Text) : List (Value × Value) → Value
  | [] => null
  | (k, v) :: es => if k.isStr key then v else entryAt key es

/-- Whether a value can be a key of a dictionary: plain data without parts. -/
def isKey : Value → Bool
  | null | bool _ | int _ | float _ | nan _ | str _ => true
  | _ => false

/-- Whether a value is one of the library's records. -/
def isRecord : Value → Bool
  | rule _ | spanRule .. | style .. | span .. | link .. | paragraph .. | document .. => true
  | _ => false

/-! ### Equality -/

/-- The integer a value stands for: a truth value counts as one or zero. -/
def integer? : Value → Option Int
  | bool b => some (if b then 1 else 0)
  | int n => some n
  | float s => Decimal.integer? s
  | _ => none

/-- Equality of two values of which one is a number. -/
def numberEq : Value → Value → Bool
  | float s, float t => Decimal.equal s t
  | v, w => match v.integer?, w.integer? with
    | some m, some n => m == n
    | _, _ => false

/-- Whether two values are the same result of an undefined operation. -/
def sameNan : Value → Value → Bool
  | nan m, nan n => m == n
  | _, _ => false

mutual

/-- Equality of values. -/
def beq : Value → Value → Bool
  | null, null => true
  | str s, str t => s == t
  | list xs, list ys => beqItems xs ys
  | dict es, dict fs => es.length == fs.length && beqEntries es fs
  | rule p, rule q => beq p q
  | spanRule p c, spanRule q d => beq p q && beq c d
  | style p s c, style q t d => beq p q && beq s t && beq c d
  | span o c, span p d => beq o p && beq c d
  | link u c, link v d => beq u v && beq c d
  | paragraph s c, paragraph t d => beq s t && beq c d
  | document p s, document q t => beq p q && beq s t
  | bool b, w => numberEq (bool b) w
  | int n, w => numberEq (int n) w
  | float s, w => numberEq (float s) w
  | _, _ => false
termination_by structural v => v

/-- Equality item by item. -/
def beqItems : List Value → List Value → Bool
  | [], [] => true
  | x :: xs, y :: ys => (sameNan x y || beq x y) && beqItems xs ys
  | _, _ => false
termination_by structural xs => xs

/-- Every entry of the first list has an equal one in the second. -/
def beqEntries : List (Value × Value) → List (Value × Value) → Bool
  | [], _ => true
  | (k, v) :: es, fs =>
    fs.any (fun f => (sameNan k f.1 || beq k f.1) && (sameNan v f.2 || beq v f.2)) &&
      beqEntries es fs
termination_by structural es => es

end

/-- Equality of two items of lists or dictionaries. -/
def sameItem (v w : Value) : Bool :=
  sameNan v w || beq v w

instance : BEq Value := ⟨sameItem⟩

/-- Whether a value equals itself: the items of a list or dictionary are always the same as
themselves, and the fields of a record must equal themselves. -/
def equalsItself : Value → Bool
  | nan _ => false
  | rule p => equalsItself p
  | spanRule p c => equalsItself p && equalsItself c
  | style p s c => equalsItself p && equalsItself s && equalsItself c
  | span o c => equalsItself o && equalsItself c
  | link u c => equalsItself u && equalsItself c
  | paragraph s c => equalsItself s && equalsItself c
  | document p s => equalsItself p && equalsItself s
  | _ => true

/-! ### Display -/

/-- Pieces in order, with a comma and a space between each two neighbours. -/
def commaSeparated : List Text → Text :=
  Text.joinWith ", ".toList

mutual

/-- The text that shows a value. -/
def display : Value → Text
  | null => "None".toList
  | bool true => "True".toList
  | bool false => "False".toList
  | int n => Decimal.ofInt n
  | float s => s
  | nan _ => Decimal.nan
  | str s => s.quoted
  | list xs => '[' :: commaSeparated (displayItems xs) ++ [']']
  | dict es => '{' :: commaSeparated (displayEntries es) ++ ['}']
  | rule p => "StyleRule(".toList ++ display p ++ [')']
  | spanRule p c =>
    "SpanStyleRule(".toList ++ display p ++ ", end_pattern=".toList ++ display c ++ [')']
  | style p s c =>
    "Style(paragraph=".toList ++ display p ++ ", span=".toList ++ display s ++
      ", container=".toList ++ display c ++ [')']
  | span o c => "Span(".toList ++ display o ++ ", ".toList ++ display c ++ [')']
  | link u c => "Link(".toList ++ display u ++ ", ".toList ++ display c ++ [')']
  | paragraph s c =>
    "CompiledParagraph(styles=".toList ++ display s ++ ", contents=".toList ++ display c ++ [')']
  | document p s =>
    "CompiledText(paragraphs=".toList ++ display p ++ ", styles=".toList ++ display s ++ [')']
termination_by structural v => v

/-- The texts that show the items of a list. -/
def displayItems : List Value → List Text
  | [] => []
  | x :: xs => display x :: displayItems xs
termination_by structural xs => xs

/-- The texts that show the entries of a dictionary, each as key, colon and value. -/
def displayEntries : List (Value × Value) → List Text
  | [] => []
  | (k, v) :: es => (display k ++ ": ".toList ++ display v) :: displayEntries es
termination_by structural es => es

end

/-- The text that a value stands for: a text stands for itself, and all else is shown. -/
def asText : Value → Text
  | str s => s
  | v => v.display

end Value

end ProseMarkup
