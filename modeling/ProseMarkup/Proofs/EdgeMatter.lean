import ProseMarkup.Proofs.SheetGrammar
import ProseMarkup.Proofs.SourceKept

/-!
# Sheets embedded in texts

A sheet can be given from outside, as a style, or from inside, between delimiter lines at one end of the text
or at both. It makes no difference to what the text is compiled to: the lines of the sheet and the lines of
the body are told apart again, whatever delimiter lines stand inside the body.

* `Text.lines_append_newline` : the lines of two texts with a newline between them.
* `Manuscript.enclosed`, `Manuscript.Embeds` : the texts that embed a sheet in a body.
* `Manuscript.ofText_embeds` : **such a text is cut into the sheet and the paragraphs of the body**.
* `Document.compile_congr` : the same paragraphs under styles with the same index compile to the same.
* `Document.compile_embeds` : its compilation is that of the body, the style of the sheet being given.
* `Document.embedded_sheet` : **an embedded sheet is worth the same as one that is given**.
-/

namespace ProseMarkup

/-- The lines of two texts with a newline between them. -/
@[simp] theorem Text.lines_append_newline (s t : Text) :
    Text.lines (s ++ '\n' :: t) = Text.lines s ++ Text.lines t := by
  induction s with
  | nil => exact StyleSheet.lines_newline t
  | cons c s ih =>
    rw [List.cons_append]
    by_cases hc : c = '\n'
    · simp [hc, ih]
    · cases hs : Text.lines s with
      | nil => exact absurd hs (Text.lines_ne_nil s)
      | cons l ls =>
        rw [hs] at ih
        rw [StyleSheet.lines_cons hc hs]
        exact StyleSheet.lines_cons hc ih

/-! ### Lines between delimiters -/

namespace Lines

variable {edge rest : List Text}

theorem cutAtDelimiter_append (h : edgeDelimiter ∉ edge) (rest : List Text) :
    cutAtDelimiter (edge ++ edgeDelimiter :: rest) = some (edge, rest) := by
  induction edge with
  | nil => rw [List.nil_append, cutAtDelimiter, if_pos rfl]
  | cons l ls ih =>
    rw [List.mem_cons, not_or] at h
    rw [List.cons_append, cutAtDelimiter, if_neg (Ne.symm h.1), ih h.2, Option.map_some]

/-- Lines between two delimiters at the beginning are the front matter. -/
theorem splitFront_enclosed (h : edgeDelimiter ∉ edge) (rest : List Text) :
    splitFront (edgeDelimiter :: (edge ++ edgeDelimiter :: rest)) = (edge, rest) := by
  rw [splitFront, if_pos rfl, cutAtDelimiter_append h]

/-- Without a delimiter at the beginning there is no front matter. -/
theorem splitFront_of_head? (h : rest.head? ≠ some edgeDelimiter) : splitFront rest = ([], rest) := by
  cases rest with
  | nil => rfl
  | cons l ls => rw [splitFront, if_neg fun hl => h (congrArg some hl)]

/-- Lines between two delimiters at the end are the back matter. -/
theorem splitBack_enclosed (h : edgeDelimiter ∉ edge) (rest : List Text) :
    splitBack (rest ++ edgeDelimiter :: (edge ++ [edgeDelimiter])) = (edge, rest) := by
  have hreverse : (rest ++ edgeDelimiter :: (edge ++ [edgeDelimiter])).reverse =
      edgeDelimiter :: (edge.reverse ++ edgeDelimiter :: rest.reverse) := by
    simp
  rw [splitBack, hreverse, splitFront_enclosed fun hmem => h (List.mem_reverse.1 hmem)]
  simp only [List.reverse_reverse]

/-- Without a delimiter at the end there is no back matter. -/
theorem splitBack_of_getLast? (h : rest.getLast? ≠ some edgeDelimiter) :
    splitBack rest = ([], rest) := by
  rw [splitBack, splitFront_of_head? (by rwa [List.head?_reverse])]
  simp only [List.reverse_nil, List.reverse_reverse]

end Lines

/-! ### Sheets in texts -/

namespace Manuscript

open Lines (edgeDelimiter)

/-- A sheet between two delimiter lines. -/
def enclosed (sheet : Text) : Text :=
  edgeDelimiter ++ '\n' :: (sheet ++ '\n' :: edgeDelimiter)

/-- No line of the sheet has blanks at its ends, and none is the delimiter. -/
def IsEnclosable (sheet : Text) : Prop :=
  ∀ l ∈ Text.lines sheet, Text.strip l = l ∧ l ≠ edgeDelimiter

instance (sheet : Text) : Decidable (IsEnclosable sheet) :=
  inferInstanceAs (Decidable (∀ l ∈ Text.lines sheet, Text.strip l = l ∧ l ≠ edgeDelimiter))

/-- The lines of a text without the blanks at their ends. -/
def strippedLines (s : Text) : List Text :=
  (Text.lines s).map Text.strip

/-- Neither the first nor the last line of the text is the delimiter. -/
def IsBody (s : Text) : Prop :=
  (strippedLines s).head? ≠ some edgeDelimiter ∧ (strippedLines s).getLast? ≠ some edgeDelimiter

instance (s : Text) : Decidable (IsBody s) :=
  inferInstanceAs (Decidable (_ ∧ _))

/-- The texts that embed a sheet in a body: before it, after it, or in two parts. -/
inductive Embeds (body : Text) : (sheet text : Text) → Prop
  | front {sheet : Text} (h : IsEnclosable sheet) : Embeds body sheet (enclosed sheet ++ '\n' :: body)
  | back {sheet : Text} (h : IsEnclosable sheet) : Embeds body sheet (body ++ '\n' :: enclosed sheet)
  | both {front back : Text} (hfront : IsEnclosable front) (hback : IsEnclosable back) :
      Embeds body (front ++ '\n' :: back)
        (enclosed front ++ '\n' :: (body ++ '\n' :: enclosed back))

variable {sheet body text : Text}

@[simp] theorem strippedLines_append_newline (s t : Text) :
    strippedLines (s ++ '\n' :: t) = strippedLines s ++ strippedLines t := by
  simp [strippedLines]

theorem strippedLines_ne_nil (s : Text) : strippedLines s ≠ [] := by
  rw [strippedLines, ne_eq, List.map_eq_nil_iff]
  exact Text.lines_ne_nil s

theorem strippedLines_eq_lines {s : Text} (h : ∀ l ∈ Text.lines s, Text.strip l = l) :
    strippedLines s = Text.lines s := by
  rw [strippedLines]
  exact (List.map_congr_left h).trans (List.map_id _)

theorem IsEnclosable.strippedLines_eq (h : IsEnclosable sheet) :
    strippedLines sheet = Text.lines sheet :=
  strippedLines_eq_lines fun l hl => (h l hl).1

theorem IsEnclosable.not_mem (h : IsEnclosable sheet) : edgeDelimiter ∉ Text.lines sheet :=
  fun hmem => (h _ hmem).2 rfl

theorem IsEnclosable.strippedLines_enclosed (h : IsEnclosable sheet) :
    strippedLines (enclosed sheet) =
      edgeDelimiter :: (Text.lines sheet ++ [edgeDelimiter]) := by
  have hdelimiter : strippedLines edgeDelimiter = [edgeDelimiter] := by decide
  simp [enclosed, hdelimiter, h.strippedLines_eq]

/-- An enclosed sheet is cut off the lines after it. -/
theorem IsEnclosable.splitFront (h : IsEnclosable sheet) (rest : List Text) :
    Lines.splitFront (strippedLines (enclosed sheet) ++ rest) = (Text.lines sheet, rest) := by
  rw [h.strippedLines_enclosed, List.cons_append, List.append_assoc, List.singleton_append,
    Lines.splitFront_enclosed h.not_mem]

/-- An enclosed sheet is cut off the lines before it. -/
theorem IsEnclosable.splitBack (h : IsEnclosable sheet) (rest : List Text) :
    Lines.splitBack (rest ++ strippedLines (enclosed sheet)) = (Text.lines sheet, rest) := by
  rw [h.strippedLines_enclosed, Lines.splitBack_enclosed h.not_mem]

theorem IsBody.head?_append (h : IsBody body) (ls : List Text) :
    (strippedLines body ++ ls).head? ≠ some edgeDelimiter := by
  rw [List.head?_append_of_ne_nil _ (strippedLines_ne_nil body)]
  exact h.1

/-- A text is cut at one end and then at the other. -/
theorem ofText_of_split {s : Text} {front middle back rest : List Text}
    (hfront : Lines.splitFront (strippedLines s) = (front, middle))
    (hback : Lines.splitBack middle = (back, rest)) :
    ofText s =
      ⟨Text.joinWith ['\n'] (front ++ back), Lines.paragraphs (Lines.trimEnds rest)⟩ := by
  have hedge : Lines.splitEdge (strippedLines s) = (front ++ back, rest) := by
    rw [Lines.splitEdge, hfront]
    dsimp only
    rw [hback]
  rw [strippedLines] at hedge
  rw [ofText, hedge]

/-- A body has no edge matter. -/
theorem ofText_of_isBody (h : IsBody body) :
    ofText body = ⟨[], Lines.paragraphs (Lines.trimEnds (strippedLines body))⟩ :=
  ofText_of_split (Lines.splitFront_of_head? h.1) (Lines.splitBack_of_getLast? h.2)

/-- **A text that embeds a sheet in a body is cut into the sheet and the paragraphs of the body.** -/
theorem ofText_embeds (hbody : IsBody body) (h : Embeds body sheet text) :
    ofText text = ⟨sheet, (ofText body).paragraphs⟩ := by
  have hlast := Lines.splitBack_of_getLast? hbody.2
  rw [ofText_of_isBody hbody]
  cases h with
  | front h =>
    have hsplit : Lines.splitFront (strippedLines (enclosed sheet ++ '\n' :: body)) =
        (Text.lines sheet, strippedLines body) := by
      simp [h.splitFront]
    simp [ofText_of_split hsplit hlast]
  | back h =>
    have hsplit : Lines.splitFront (strippedLines (body ++ '\n' :: enclosed sheet)) =
        ([], strippedLines body ++ strippedLines (enclosed sheet)) := by
      simp [Lines.splitFront_of_head? (hbody.head?_append _)]
    simp [ofText_of_split hsplit (h.splitBack _)]
  | @both front back hfront hback =>
    have hsplit : Lines.splitFront
        (strippedLines (enclosed front ++ '\n' :: (body ++ '\n' :: enclosed back))) =
          (Text.lines front, strippedLines body ++ strippedLines (enclosed back)) := by
      simp [hfront.splitFront]
    rw [ofText_of_split hsplit (hback.splitBack _), ← Text.lines_append_newline, Text.joinWith_lines]

end Manuscript

/-! ### Their compilation -/

/-- The style without rules adds nothing to an index. -/
@[simp] theorem RuleIndex.ofValues_append_empty (styles : List Value) :
    ofValues (styles ++ [Style.empty.toValue]) = ofValues styles := by
  have hadd : ∀ d : Declarations, d.add Style.empty.toValue = .ok d := by
    intro d
    show Except.ok (⟨d.names ++ [], d.closers⟩ : Declarations) = .ok d
    rw [List.append_nil]
  have hfold : (styles ++ [Style.empty.toValue]).foldlM Declarations.add ⟨[], []⟩ =
      styles.foldlM Declarations.add ⟨[], []⟩ := by
    rw [List.foldlM_append]
    cases styles.foldlM Declarations.add ⟨[], []⟩ with
    | error e => rfl
    | ok d => exact congrArg (· >>= pure) (hadd d)
  rw [ofValues, hfold, ofValues]

@[simp] theorem Style.ofSheet_nil (w : Whitelists) : ofSheet w [] = empty := by
  have hblocks : StyleSheet.blocks (StyleSheet.removeComments []) = [] :=
    StyleSheet.blocks_of_none rfl
  rw [ofSheet, hblocks, List.foldl_nil]

/-- A compilation with other contributing styles put down in its document. -/
def Compilation.withStyles (styles : List Value) (c : Compilation) : Compilation :=
  { c with document := { c.document with styles := styles } }

namespace Document

open Manuscript (Embeds IsBody)

variable {sheet body text : Text}

/-- Texts with the same paragraphs compile to the same under styles with the same index, but for the styles put
down in the document, faults included. -/
theorem compile_congr {w₁ w₂ : Whitelists} {styles₁ styles₂ : List Value} {s₁ s₂ : Text}
    (hparagraphs : (Manuscript.ofText s₂).paragraphs = (Manuscript.ofText s₁).paragraphs)
    (hrules : RuleIndex.ofValues (contributing w₂ styles₂ (Manuscript.ofText s₂).edgeMatter) =
      RuleIndex.ofValues (contributing w₁ styles₁ (Manuscript.ofText s₁).edgeMatter))
    (options : CompileOptions) :
    compile w₂ options styles₂ s₂ = (compile w₁ options styles₁ s₁).map
      (Compilation.withStyles (contributing w₂ styles₂ (Manuscript.ofText s₂).edgeMatter)) := by
  simp only [compile, hparagraphs, hrules]
  cases RuleIndex.ofValues (contributing w₁ styles₁ (Manuscript.ofText s₁).edgeMatter) with
  | error e => rfl
  | ok rules =>
    simp only [bind_ok]
    cases (Manuscript.ofText s₁).paragraphs.mapM (Paragraph.compile rules options.links) with
    | error e => rfl
    | ok compiled => rfl

/-- The compilation of a text that embeds a sheet is that of the body, the style of the sheet being given,
faults included; only that the body adds an empty style of its own. -/
theorem compile_embeds (w : Whitelists) (options : CompileOptions) (styles : List Value)
    (hbody : IsBody body) (h : Embeds body sheet text) :
    compile w options styles text = (compile w options (contributing w styles sheet) body).map
      (Compilation.withStyles (contributing w styles sheet)) := by
  have htext := Manuscript.ofText_embeds hbody h
  have hgiven : contributing w (contributing w styles sheet) (Manuscript.ofText body).edgeMatter =
      contributing w styles sheet ++ [Style.empty.toValue] := by
    simp [contributing, Manuscript.ofText_of_isBody hbody]
  have hrules : RuleIndex.ofValues (contributing w styles (Manuscript.ofText text).edgeMatter) =
      RuleIndex.ofValues (contributing w (contributing w styles sheet)
        (Manuscript.ofText body).edgeMatter) := by
    simp [hgiven, htext]
  have hcompile := compile_congr (by rw [htext]) hrules options
  rw [htext] at hcompile
  exact hcompile

/-- **An embedded sheet is worth the same as one that is given.** Under styles that are valid, whatever the
whitelists they were checked against, a text that embeds a sheet in a body compiles, and so does the body
with the style of the sheet given last; paragraphs, warnings and transcript are the same, and the styles
that contribute are those given and that of the sheet. -/
theorem embedded_sheet (w : Whitelists) (options : CompileOptions) {styles : List Value}
    (hvalid : ∀ st ∈ styles, ∃ v, Storage.validStyle v st = true) (hbody : IsBody body)
    (h : Embeds body sheet text) :
    ∃ c given, compile w options styles text = .ok c ∧
      compile w options (styles ++ [(Style.ofSheet w sheet).toValue]) body = .ok given ∧
      c.document.paragraphs = given.document.paragraphs ∧
      c.document.styles = styles ++ [(Style.ofSheet w sheet).toValue] ∧
      c.warnings = given.warnings ∧ c.transcript = given.transcript := by
  have hgiven : ∀ st ∈ contributing w (contributing w styles sheet) (Manuscript.ofText body).edgeMatter,
      ∃ v, Storage.validStyle v st = true := by
    simp only [contributing, List.mem_append, List.mem_singleton]
    rintro st ((hst | rfl) | rfl)
    · exact hvalid st hst
    · exact ⟨w, Storage.validStyle_ofSheet w sheet⟩
    · exact ⟨w, Storage.validStyle_ofSheet w _⟩
  obtain ⟨rules, hrules, hu, -⟩ := RuleIndex.exists_ofValues_of_each hgiven
  obtain ⟨given, hcompile, -, -⟩ := exists_compile options hrules fun lines =>
    Paragraph.exists_compile hu options.links lines
  have htext := compile_embeds w options styles hbody h
  rw [hcompile] at htext
  exact ⟨_, given, htext, hcompile, rfl, rfl, rfl, rfl⟩

/-- A block that begins before the body and ends after it, and a body with a delimiter line inside. -/
theorem embedded_sheet_in_two_parts :
    (∀ st ∈ [Value.style (.dict []) (.dict [(.str "*".toList, .spanRule (.dict []) .null)]) .null],
        ∃ v, Storage.validStyle v st = true) ∧
    IsBody "note\na *b*\n---\nc".toList ∧
    Embeds "note\na *b*\n---\nc".toList "p note \x7b\ncolor: red; \x7d".toList
      "---\np note \x7b\n---\nnote\na *b*\n---\nc\n---\ncolor: red; \x7d\n---".toList ∧
    ∃ c given,
      compile ⟨.ofPatterns ["color".toList], .ofPatterns [], .ofPatterns []⟩ {}
        [.style (.dict []) (.dict [(.str "*".toList, .spanRule (.dict []) .null)]) .null]
        "---\np note \x7b\n---\nnote\na *b*\n---\nc\n---\ncolor: red; \x7d\n---".toList = .ok c ∧
      compile ⟨.ofPatterns ["color".toList], .ofPatterns [], .ofPatterns []⟩ {}
        [.style (.dict []) (.dict [(.str "*".toList, .spanRule (.dict []) .null)]) .null,
          (Style.ofSheet ⟨.ofPatterns ["color".toList], .ofPatterns [], .ofPatterns []⟩
            "p note \x7b\ncolor: red; \x7d".toList).toValue]
        "note\na *b*\n---\nc".toList = .ok given ∧
      c.document.paragraphs = given.document.paragraphs := by
  have hvalid : ∀ st ∈ [Value.style (.dict []) (.dict [(.str "*".toList,
      .spanRule (.dict []) .null)]) .null], ∃ v, Storage.validStyle v st = true := by
    intro st hst
    rw [List.mem_singleton.1 hst]
    exact ⟨⟨.ofPatterns [], .ofPatterns [], .ofPatterns []⟩, rfl⟩
  have hbody : IsBody "note\na *b*\n---\nc".toList := by decide +kernel
  have hembeds : Embeds "note\na *b*\n---\nc".toList "p note \x7b\ncolor: red; \x7d".toList
      "---\np note \x7b\n---\nnote\na *b*\n---\nc\n---\ncolor: red; \x7d\n---".toList :=
    @Embeds.both _ "p note \x7b".toList "color: red; \x7d".toList (by decide +kernel)
      (by decide +kernel)
  obtain ⟨c, given, hc, hgiven, hparagraphs, -⟩ := embedded_sheet
    ⟨.ofPatterns ["color".toList], .ofPatterns [], .ofPatterns []⟩ {} hvalid hbody hembeds
  exact ⟨hvalid, hbody, hembeds, c, given, hc, hgiven, hparagraphs⟩

end Document

end ProseMarkup
