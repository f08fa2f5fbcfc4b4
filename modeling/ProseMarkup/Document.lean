import ProseMarkup.Content.Basic

/-!
# Manuscripts and documents

A text that is to be compiled is cut into stripped lines. A run of lines between two delimiter lines at
the very beginning is front matter, and one at the very end back matter; together they are the edge
matter, a style sheet. The other lines form paragraphs, which blank lines separate.

A compiled paragraph has the names of the paragraph rules applied to it and its content; a document
has its paragraphs, and every style that contributed to it, so that it can be validated again without
the text it comes from.

* `Lines.edgeDelimiter` : the line that encloses edge matter.
* `Lines.splitFront`, `Lines.splitBack`, `Lines.splitEdge` : edge matter apart from all other lines.
* `Lines.trimEnds`, `Lines.paragraphs` : blank lines at the ends, and the runs between blank lines.
* `Manuscript`, `Manuscript.ofText` : a text as a style sheet and paragraphs of lines.
* `Paragraph`, `Document` : what is compiled.
* `Paragraph.toValue`, `Document.toValue` : both as values.
-/

namespace ProseMarkup

namespace Lines

/-- The line that encloses edge matter. -/
def edgeDelimiter : Text := "---".toList

/-! ### Edge matter -/

/-- The lines before the first delimiter line and the lines after it, if there is one. -/
def cutAtDelimiter : List Text → Option (List Text × List Text)
  | [] => none
  | l :: ls =>
    if l = edgeDelimiter then some ([], ls)
    else (cutAtDelimiter ls).map fun p => (l :: p.1, p.2)

/-- The front matter and the other lines. There is front matter only if the first line is the
delimiter, and a later one is. -/
def splitFront : List Text → List Text × List Text
  | [] => ([], [])
  | l :: ls =>
    if l = edgeDelimiter then
      match cutAtDelimiter ls with
      | some (front, rest) => (front, rest)
      | none => ([], l :: ls)
    else ([], l :: ls)

/-- The back matter and the other lines. There is back matter only if the last line is the delimiter,
and an earlier one is; the nearest such line begins it. -/
def splitBack (lines : List Text) : List Text × List Text :=
  let (back, rest) := splitFront lines.reverse
  (back.reverse, rest.reverse)

/-- The edge matter, front before back, and the other lines. -/
def splitEdge (lines : List Text) : List Text × List Text :=
  let (front, lines) := splitFront lines
  let (back, lines) := splitBack lines
  (front ++ back, lines)

/-! ### Paragraphs -/

/-- Lines without the empty ones at the beginning and at the end. -/
def trimEnds (lines : List Text) : List Text :=
  ((lines.dropWhile List.isEmpty).reverse.dropWhile List.isEmpty).reverse

/-- The runs of lines that are not empty, in order. -/
def paragraphs : List Text → List (List Text)
  | [] => []
  | [] :: lines => paragraphs lines
  | l :: lines =>
    match lines, paragraphs lines with
    | (_ :: _) :: _, p :: ps => (l :: p) :: ps
    | _, ps => [l] :: ps

end Lines

/-- A text cut into edge matter and paragraphs of lines. -/
structure Manuscript where
  /-- The edge matter, a style sheet. -/
  edgeMatter : Text
  /-- The lines of each paragraph. -/
  paragraphs : List (List Text)
deriving DecidableEq, Repr

/-- Cuts a text into edge matter and paragraphs of stripped lines. -/
def Manuscript.ofText (s : Text) : Manuscript :=
  let (edge, rest) := Lines.splitEdge ((Text.lines s).map Text.strip)
  ⟨Text.joinWith ['\n'] edge, Lines.paragraphs (Lines.trimEnds rest)⟩

/-! ### Documents -/

/-- A compiled paragraph. -/
structure Paragraph where
  /-- The names of the paragraph rules applied. -/
  styles : List Text
  contents : List Content

/-- A compiled text. -/
structure Document where
  paragraphs : List Paragraph
  /-- The contributing styles, that of the edge matter last. -/
  styles : List Value

/-- A paragraph as a value. -/
def Paragraph.toValue (p : Paragraph) : Value :=
  .paragraph (.list (p.styles.map .str)) (.list (Content.toValues p.contents))

/-- A document as a value. -/
def Document.toValue (d : Document) : Value :=
  .document (.list (d.paragraphs.map Paragraph.toValue)) (.list d.styles)

end ProseMarkup
