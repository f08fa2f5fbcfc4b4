import ProseMarkup.StyleSheet.Property

/-!
# Validation

Styles and documents that come from storage are checked before use: every part must be of its kind,
every property name permitted by the whitelist, and every property value safe. Validation takes any
value and never fails.

* `Storage.validRule`, `Storage.validStyle` : rules and styles.
* `Storage.completeStyle` : a valid style that has the default paragraph rule.
* `Storage.validParagraph`, `Storage.validDocument` : paragraphs and documents. Content is not
  checked, because raw text is never interpreted.
-/

namespace ProseMarkup.Storage

/-- The name of the default paragraph rule, when none is given. -/
def defaultRuleName : Text := "default".toList

/-- Whether a property is permitted and safe. -/
def validProperty (w : Whitelist) (property : Value × Value) : Bool :=
  w.permitsValue property.1 && PropertyValue.isSafeValue property.2

/-- Whether a value is a dictionary of valid properties. -/
def validProps (w : Whitelist) : Value → Bool
  | .dict props => props.all (validProperty w)
  | _ => false

/-- Whether a value is a valid rule of either kind. -/
def validRule (w : Whitelist) : Value → Bool
  | .rule props => validProps w props
  | .spanRule props _ => validProps w props
  | _ => false

/-- Whether a value is a text. -/
def isText : Value → Bool
  | .str _ => true
  | _ => false

/-- Whether a value is a text or absent. -/
def isOptionalText : Value → Bool
  | .null => true
  | v => isText v

/-- Whether an entry is a valid paragraph rule under a name. -/
def validParagraphEntry (w : Whitelist) (entry : Value × Value) : Bool :=
  isText entry.1 && validRule w entry.2

/-- Whether a value is a valid span rule, with a text as its closing delimiter if it has one. -/
def validSpanRule (w : Whitelist) : Value → Bool
  | .spanRule props closer => isOptionalText closer && validProps w props
  | _ => false

/-- Whether an entry is a valid span rule under an opening delimiter. -/
def validSpanEntry (w : Whitelist) (entry : Value × Value) : Bool :=
  isText entry.1 && validSpanRule w entry.2

/-- Whether a value is a valid container rule, or absent. -/
def validContainer (w : Whitelist) : Value → Bool
  | .null => true
  | rule => validRule w rule

/-- Whether a value is a valid style. -/
def validStyle (w : Whitelists) : Value → Bool
  | .style (.dict paragraph) (.dict span) container =>
    paragraph.all (validParagraphEntry w.paragraph) && span.all (validSpanEntry w.span) &&
      validContainer w.container container
  | _ => false

/-- Whether a dictionary of a style has a paragraph rule of a name. -/
def hasRuleNamed (name : Text) : Value → Bool
  | .style (.dict paragraph) _ _ => paragraph.any fun e => e.1.isStr name
  | _ => false

/-- Whether a value is a valid style with the default paragraph rule. -/
def completeStyle (w : Whitelists) (defaultRule : Text) (style : Value) : Bool :=
  validStyle w style && hasRuleNamed defaultRule style

/-- Whether a value is a valid paragraph. -/
def validParagraph : Value → Bool
  | .paragraph (.list _) (.list _) => true
  | _ => false

/-- Whether a value is a valid document. -/
def validDocument (w : Whitelists) : Value → Bool
  | .document (.list paragraphs) (.list styles) =>
    styles.all (validStyle w) && paragraphs.all validParagraph
  | _ => false

end ProseMarkup.Storage
