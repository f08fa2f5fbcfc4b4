import ProseMarkup.Value.Access

/-!
# Styles

A style holds rules in three namespaces: paragraph rules by name, span rules by opening delimiter, and
at most one container rule. A rule is a dictionary of properties; a span rule may also name the
delimiter that closes its spans.

* `Rule`, `SpanRule`, `Style` : the types.
* `SpanRule.closing` : the delimiter that closes the spans of a rule.
* `Rule.toValue`, `SpanRule.toValue`, `Style.toValue` : a style as a value.
* `Style.sheet` : a style written out as a sheet, one block a line: the paragraph rules, the span rules
  and the container rule, each with its properties in order.
* `Style.merge`, `Style.combine` : styles merged from left to right. Where two styles have a rule of
  the same name, the later one is laid over the earlier: its property values prevail, but the closing
  delimiter of a span rule stays that of the earlier.
* `Value.combine` : the same merge of values that have not been validated. Parts are read only when
  they are needed, so the first part of the wrong kind decides which fault is reported.
-/

namespace ProseMarkup

/-- A rule for paragraphs or for the container. -/
structure Rule where
  /-- Property values by property name. -/
  props : Dict Text Text
deriving DecidableEq

/-- A rule for spans. -/
structure SpanRule where
  /-- Property values by property name. -/
  props : Dict Text Text
  /-- The closing delimiter, where it differs from the opening one. -/
  closer : Option Text
deriving DecidableEq

/-- Rules for paragraphs, for spans and for the container. -/
structure Style where
  /-- Paragraph rules by name. -/
  paragraph : Dict Text Rule
  /-- Span rules by opening delimiter. -/
  span : Dict Text SpanRule
  /-- The container rule, if there is one. -/
  container : Option Rule
deriving DecidableEq

/-- The delimiter that closes the spans of a rule: its own closer, else the opening delimiter. -/
def SpanRule.closing (r : SpanRule) (opening : Text) : Text :=
  r.closer.getD opening

/-- The style without rules. -/
def Style.empty : Style := ⟨.empty, .empty, none⟩

instance : Inhabited Style := ⟨Style.empty⟩

/-! ### Styles as values -/

/-- A dictionary with text keys as a value. -/
def Dict.toValue {ν : Type} (f : ν → Value) (d : Dict Text ν) : Value :=
  .dict (d.entries.map fun e => (.str e.1, f e.2))

/-- The properties of a rule as a value. -/
def propsValue (props : Dict Text Text) : Value :=
  props.toValue .str

/-- An optional value, `null` where there is none. -/
def optionValue {α : Type} (f : α → Value) : Option α → Value
  | none => .null
  | some a => f a

/-- A rule as a value. -/
def Rule.toValue (r : Rule) : Value :=
  .rule (propsValue r.props)

/-- A span rule as a value. -/
def SpanRule.toValue (r : SpanRule) : Value :=
  .spanRule (propsValue r.props) (optionValue .str r.closer)

/-- A style as a value. -/
def Style.toValue (s : Style) : Value :=
  .style (s.paragraph.toValue Rule.toValue) (s.span.toValue SpanRule.toValue)
    (optionValue Rule.toValue s.container)

/-! ### Styles as sheets -/

/-- The properties of a rule, each as `key: value;`. -/
def propsSource (props : Dict Text Text) : Text :=
  props.entries.flatMap fun p => p.1 ++ ": ".toList ++ p.2 ++ [';']

/-- A block: its header, and the properties between braces, on a line of its own. -/
def blockSource (header : Text) (props : Dict Text Text) : Text :=
  header ++ " \x7b".toList ++ propsSource props ++ "\x7d\n".toList

/-- The closing delimiter in the header of a span rule. -/
def closerSource : Option Text → Text
  | none => []
  | some closer => ' ' :: closer

namespace Style

/-- The block of a paragraph rule. -/
def paragraphSource (entry : Text × Rule) : Text :=
  blockSource ("para ".toList ++ entry.1) entry.2.props

/-- The block of a span rule. -/
def spanSource (entry : Text × SpanRule) : Text :=
  blockSource ("span ".toList ++ entry.1 ++ closerSource entry.2.closer) entry.2.props

/-- The block of the container rule. -/
def containerSource : Option Rule → Text
  | none => []
  | some r => blockSource "cont".toList r.props

/-- The sheet of a style. -/
def sheet (s : Style) : Text :=
  s.paragraph.entries.flatMap paragraphSource ++ s.span.entries.flatMap spanSource ++
    containerSource s.container

end Style

/-! ### Combining styles -/

/-- The rule `s` laid over the rule `r`. -/
def Rule.overlaidBy (r s : Rule) : Rule :=
  ⟨r.props.overlay s.props⟩

/-- The span rule `s` laid over the span rule `r`, whose closing delimiter is kept. -/
def SpanRule.overlaidBy (r s : SpanRule) : SpanRule :=
  ⟨r.props.overlay s.props, r.closer⟩

namespace Style

/-- The container rule of two styles. -/
def mergeContainer : Option Rule → Option Rule → Option Rule
  | none, s => s
  | r, none => r
  | some r, some s => some (r.overlaidBy s)

/-- The style `t` laid over the style `s`. -/
def merge (s t : Style) : Style where
  paragraph := s.paragraph.mergeWith Rule.overlaidBy t.paragraph
  span := s.span.mergeWith SpanRule.overlaidBy t.span
  container := mergeContainer s.container t.container

/-- The merge of a list of styles, from left to right. -/
def combine (styles : List Style) : Style :=
  styles.foldl merge empty

end Style

/-! ### Combining styles that have not been validated -/

namespace Value

/-- The properties of a rule of either kind. -/
def props : Value → Except Fault Value
  | rule p => .ok p
  | spanRule p _ => .ok p
  | _ => .error .lacksMember

/-- The closing delimiter that a span rule names, `null` if none. -/
def closer : Value → Except Fault Value
  | spanRule _ c => .ok c
  | _ => .error .lacksMember

/-- The entries of a dictionary of properties. -/
def mapping : Value → Except Fault (List (Value × Value))
  | dict es => .ok es
  | _ => .error .notMapping

/-- The properties of the rule `other` laid over the properties `base`. -/
def overlayProps (base other : Value) : Except Fault Value := do
  let lower ← mapping base
  let upper ← mapping (← props other)
  return dict (Dict.overlayEntries lower upper)

/-- The rule `other` laid over a rule, whose kind and closing delimiter are kept. -/
def overlaidBy (r other : Value) : Except Fault Value :=
  match r with
  | rule p => do return rule (← overlayProps p other)
  | spanRule p c => do return spanRule (← overlayProps p other) c
  | _ => .error .lacksMember

/-- Rules by name, with one more rule: laid over the rule of its name, or adopted by `adopt`. -/
def combineRule (adopt : Value → Except Fault Value) (rules : List (Value × Value))
    (entry : Value × Value) : Except Fault (List (Value × Value)) := do
  let r ← match Dict.lookupEntry entry.1 rules with
    | some existing => overlaidBy existing entry.2
    | none => adopt entry.2
  return Dict.setEntry entry.1 r rules

/-- A plain rule with the properties of a rule. -/
def adoptRule (r : Value) : Except Fault Value := do
  return rule (ofProps (← props r))

/-- A span rule with the properties and the closing delimiter of a span rule. -/
def adoptSpanRule (r : Value) : Except Fault Value := do
  return spanRule (ofProps (← props r)) (← closer r)

/-- The container rule after one more. -/
def combineContainer (existing new : Value) : Except Fault Value :=
  match new with
  | null => .ok existing
  | _ => match existing with
    | null => adoptRule new
    | _ => overlaidBy existing new

/-- The rules gathered so far: by paragraph name, by opening delimiter, and for the container. -/
structure Combination where
  paragraph : List (Value × Value)
  span : List (Value × Value)
  container : Value

/-- The rules gathered after one more style. -/
def Combination.add (c : Combination) : Value → Except Fault Combination
  | style paragraphRules spanRules containerRule => do
    let paragraph ← (← entries paragraphRules).foldlM (combineRule adoptRule) c.paragraph
    let span ← (← entries spanRules).foldlM (combineRule adoptSpanRule) c.span
    let container ← combineContainer c.container containerRule
    return ⟨paragraph, span, container⟩
  | _ => .error .lacksMember

/-- The merge of a list of values as styles, from left to right. -/
def combine (styles : List Value) : Except Fault Value := do
  let c ← styles.foldlM Combination.add ⟨[], [], null⟩
  return style (dict c.paragraph) (dict c.span) c.container

end Value

end ProseMarkup
