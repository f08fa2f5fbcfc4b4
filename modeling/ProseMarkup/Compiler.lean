import ProseMarkup.Content.OfText
import ProseMarkup.Document
import ProseMarkup.Storage.Validate

/-!
# Compilation

The leading lines of a paragraph that name paragraph rules select those rules; the other lines are
joined with spaces and resolved into content. The style of the edge matter comes after the given
styles, and so prevails over them where delimiters conflict. In verbose mode each paragraph is reported
as it was and as it has become, between lines of divider characters.

A compiler fixes the whitelists and the options once, for many style sheets, texts and stored values.

* `Transcript.comparison` : the report of one thing before and after its compilation.
* `Transcript.ofParagraphs` : the report of the paragraphs of a text.
* `Paragraph.compile` : the compilation of the lines of one paragraph.
* `Document.compile` : the compilation of a text, with its warnings and its transcript.
* `Compiler`, `Compiler.ofPatterns` : the compiler of given whitelist patterns.
* `Compiler.style`, `Compiler.document` : compilation of style sheets and texts.
* `Compiler.acceptsStyle`, `Compiler.acceptsDocument` : validation of what comes from storage.
-/

namespace ProseMarkup

/-! ### The transcript of a compilation -/

namespace Transcript

/-- The number of characters in a divider. -/
def dividerWidth : Nat := 48

/-- A divider of one character, with a caption. -/
def divider (c : Char) (caption : Text) : Text :=
  List.replicate dividerWidth c ++ caption ++ ['\n']

/-- What is reported of something before and after its compilation; five newlines set it apart from
what comes next. -/
def comparison (label before after : Text) : Text :=
  divider '<' (" BEFORE ".toList ++ label) ++ before ++ ['\n'] ++
    divider '=' [] ++ after ++ ['\n'] ++
    divider '>' (" AFTER ".toList ++ label) ++ List.replicate 5 '\n'

/-- What is reported of a paragraph, of which the first has number one. -/
def ofParagraph (number : Nat) (lines : List Text) (p : Paragraph) : Text :=
  comparison ("paragraph ".toList ++ Decimal.ofInt number) (Text.joinWith ['\n'] lines)
    p.toValue.display

/-- What is reported of paragraphs, the first of which has the given number. -/
def ofParagraphs : (number : Nat) → List (List Text) → List Paragraph → Text
  | number, lines :: rest, p :: ps =>
    ofParagraph number lines p ++ ofParagraphs (number + 1) rest ps
  | _, _, _ => []

end Transcript

/-! ### Compilation of paragraphs -/

/-- A compiled paragraph, and whether its content has met the limit of nesting. -/
structure ParagraphResolution where
  paragraph : Paragraph
  cut : Bool

/-- The warnings of a compiled paragraph. -/
def ParagraphResolution.warnings (p : ParagraphResolution) : List Text :=
  Content.warnings Content.nestingLimit ⟨p.paragraph.contents, p.cut⟩

namespace Paragraph

/-- The leading lines that name paragraph rules. -/
def ruleLines (rules : RuleIndex) (lines : List Text) : List Text :=
  lines.takeWhile rules.selects

/-- The text of the other lines. -/
def bodyText (rules : RuleIndex) (lines : List Text) : Text :=
  Text.joinWith [' '] (lines.dropWhile rules.selects)

/-- The compilation of the lines of a paragraph. -/
def compile (rules : RuleIndex) (links : Bool) (lines : List Text) :
    Except Fault ParagraphResolution := do
  let r ← Content.ofMarkup rules links (bodyText rules lines)
  return ⟨⟨ruleLines rules lines, r.contents⟩, r.cut⟩

end Paragraph

/-! ### Compilation of texts -/

/-- What the compilation of a text is set to do. -/
structure CompileOptions where
  /-- Whether links are recognised. -/
  links : Bool := true
  /-- Whether each paragraph is reported. -/
  verbose : Bool := false

/-- A compiled text, with the warnings issued and the report made on the way. -/
structure Compilation where
  document : Document
  warnings : List Text
  transcript : Text

namespace Document

/-- The styles that contribute to a text: those given, and that of its edge matter. -/
def contributing (w : Whitelists) (styles : List Value) (edgeMatter : Text) : List Value :=
  styles ++ [(Style.ofSheet w edgeMatter).toValue]

/-- The compilation of a text against styles and the style of its own edge matter. -/
def compile (w : Whitelists) (options : CompileOptions) (styles : List Value) (s : Text) :
    Except Fault Compilation := do
  let manuscript := Manuscript.ofText s
  let styles := contributing w styles manuscript.edgeMatter
  let rules ← RuleIndex.ofValues styles
  let compiled ← manuscript.paragraphs.mapM (Paragraph.compile rules options.links)
  let paragraphs := compiled.map ParagraphResolution.paragraph
  return {
    document := ⟨paragraphs, styles⟩
    warnings := compiled.flatMap ParagraphResolution.warnings
    transcript :=
      if options.verbose then Transcript.ofParagraphs 1 manuscript.paragraphs paragraphs else [] }

end Document

/-! ### Compilers -/

/-- What compilation and validation are set to do. -/
structure Compiler where
  whitelists : Whitelists
  options : CompileOptions
  /-- The name of the default paragraph rule. -/
  defaultRule : Text

namespace Compiler

/-- The compiler of given whitelist patterns, or of the standard ones. -/
def ofPatterns (patterns : Option WhitelistPatterns) (options : CompileOptions) (defaultRule : Text) :
    Except Fault Compiler := do
  return ⟨← (patterns.getD .standard).toWhitelists, options, defaultRule⟩

/-- The style that has the default paragraph rule, without properties, and no other. -/
def defaultStyle (c : Compiler) : Style :=
  { Style.empty with paragraph := .singleton c.defaultRule ⟨.empty⟩ }

/-- The style of a sheet, laid over the default paragraph rule. -/
def style (c : Compiler) (sheet : Text) : Style :=
  Style.combine [c.defaultStyle, Style.ofSheet c.whitelists sheet]

/-- The compilation of a text against styles. -/
def document (c : Compiler) (styles : List Value) (s : Text) : Except Fault Compilation :=
  Document.compile c.whitelists c.options styles s

/-- Whether a value is a style that can be used on its own. -/
def acceptsStyle (c : Compiler) (style : Value) : Bool :=
  Storage.completeStyle c.whitelists c.defaultRule style

/-- Whether a value is a document that can be used. -/
def acceptsDocument (c : Compiler) (document : Value) : Bool :=
  Storage.validDocument c.whitelists document

end Compiler

end ProseMarkup
