import ProseMarkup.Proofs.CarriageReturns
import ProseMarkup.Proofs.Comments
import ProseMarkup.Proofs.ManuscriptSource

/-!
# Line endings

Some programs end lines with a carriage return and a newline. It makes no difference: a sheet so ended has
the same style, with its rules and properties in the same order, and a text is compiled to the same. In a
sheet the carriage returns that comments leave over are blanks before blanks, and a value that a newline is
inside of is refused with a carriage return or without; in a text they are trimmed off with the other blanks
at the ends of lines.

* `Text.withReturns` : a text whose lines end so.
* `StyleSheet.withoutReturns_removeComments` : what comments leave, but for carriage returns before newlines.
* `StyleSheet.permittedProps_withoutReturns` : the properties of a body.
* `Style.ofSheet_withReturns` : **the style of a sheet**.
* `Manuscript.ofText_withReturns` : **the edge matter and the paragraphs of a text**.
* `Document.line_endings` : **line endings make no difference to a sheet or a text**.
-/

namespace ProseMarkup

/-- A text with a carriage return put before every newline. -/
def Text.withReturns (s : Text) : Text :=
  s.flatMap fun c => if c = '\n' then ['\r', '\n'] else [c]

namespace Text

@[simp] theorem withReturns_newline (s : Text) : withReturns ('\n' :: s) = '\r' :: '\n' :: withReturns s := rfl

theorem withReturns_cons {c : Char} (hc : c ≠ '\n') (s : Text) :
    withReturns (c :: s) = c :: withReturns s := by
  rw [withReturns, List.flatMap_cons, if_neg hc]
  rfl

@[simp] theorem withReturns_append (s t : Text) : withReturns (s ++ t) = withReturns s ++ withReturns t :=
  List.flatMap_append

theorem withReturns_of_not_mem {s : Text} (h : '\n' ∉ s) : withReturns s = s := by
  induction s with
  | nil => rfl
  | cons c s ih =>
    rw [List.mem_cons, not_or] at h
    rw [withReturns_cons (Ne.symm h.1), ih h.2]

/-- A slash comes next with carriage returns if it does without. -/
theorem head?_withReturns (s : Text) : (withReturns s).head? = some '/' ↔ s.head? = some '/' := by
  cases s with
  | nil => exact Iff.rfl
  | cons c s =>
    by_cases hc : c = '\n'
    · rw [hc, withReturns_newline]
      simp
    · rw [withReturns_cons hc]
      exact Iff.rfl

/-- A carriage return at the end of a line is trimmed off. -/
@[simp] theorem strip_append_return (l : Text) : strip (l ++ ['\r']) = strip l := by
  have hreturn : isBlank '\r' = true := by decide
  rw [strip, strip, trim_eq, trim_eq, List.dropWhile_append]
  split
  · next h =>
    rw [List.isEmpty_iff.1 h, List.dropWhile_cons_of_pos hreturn, List.dropWhile_nil]
  · exact List.rdropWhile_concat_pos _ _ _ hreturn

end Text

/-! ### Sheets -/

namespace StyleSheet

open Text (withReturns withoutReturns withoutReturns_cons)

/-- Outside comments a carriage return stays; inside it does not. -/
theorem removeCommentsFrom_return (inside : Bool) (s : Text) :
    removeCommentsFrom inside ('\r' :: s) =
      if inside then removeCommentsFrom true s else '\r' :: removeCommentsFrom false s := by
  cases inside with
  | true => exact if_neg (by decide)
  | false => exact if_neg fun h => absurd h.1 (by decide)

/-- Leaving out comments, the state being whether one is being read: the carriage returns end up in comments,
or right before newlines. -/
theorem withoutReturns_removeCommentsFrom (inside : Bool) (s : Text) :
    withoutReturns (removeCommentsFrom inside (withReturns s)) =
      withoutReturns (removeCommentsFrom inside s) := by
  induction s generalizing inside with
  | nil => rfl
  | cons c s ih =>
    by_cases hc : c = '\n'
    · have hline : withoutReturns ('\n' :: removeCommentsFrom false (withReturns s)) =
          withoutReturns ('\n' :: removeCommentsFrom false s) := by
        rw [withoutReturns_cons, ih, withoutReturns_cons]
      rw [hc, Text.withReturns_newline, removeCommentsFrom_return, removeCommentsFrom_newline,
        removeCommentsFrom_newline, removeCommentsFrom_newline, ← hline]
      split
      · rfl
      · exact Text.withoutReturns_return_newline _
    · rw [Text.withReturns_cons hc]
      cases inside with
      | true => rw [removeCommentsFrom, removeCommentsFrom, if_neg hc, if_neg hc, ih]
      | false =>
        simp only [removeCommentsFrom, Text.head?_withReturns]
        split
        · exact ih true
        · rw [withoutReturns_cons, ih, withoutReturns_cons]

/-- What comments leave of a sheet. -/
theorem withoutReturns_removeComments (sheet : Text) :
    withoutReturns (removeComments (withReturns sheet)) = withoutReturns (removeComments sheet) :=
  withoutReturns_removeCommentsFrom false sheet

/-- A value with a newline inside is refused; of any other nothing is left out. -/
theorem isSafe_withoutReturns (value : Text) :
    withoutReturns value = value ∨
      PropertyValue.isSafe (withoutReturns value) = false ∧ PropertyValue.isSafe value = false := by
  have hrefused : ∀ {v : Text}, '\n' ∈ v → PropertyValue.isSafe v = false := by
    intro v hmem
    have hall : v.all PropertyValue.isSafeChar = false :=
      List.all_eq_false.2 ⟨'\n', hmem, by decide⟩
    rw [PropertyValue.isSafe, hall, Bool.false_and]
  rcases Text.withoutReturns_eq_or_mem value with h | hmem
  · exact .inl h
  · exact .inr ⟨hrefused ((Text.mem_withoutReturns (by decide)).2 hmem), hrefused hmem⟩

@[simp] theorem permittedProps_withoutReturns (body : Text) (w : Whitelist) :
    permittedProps (withoutReturns body) w = permittedProps body w := by
  rw [permittedProps, pairs_withoutReturns, List.foldl_map, permittedProps]
  congr 1
  funext props pair
  rcases isSafe_withoutReturns pair.2 with h | ⟨hleft, h⟩
  · rw [Prod.map_fst, Prod.map_snd, h]
    rfl
  · rw [Prod.map_fst, Prod.map_snd, hleft, h, Bool.and_false, Bool.and_false]
    rfl

end StyleSheet

namespace Style

open Text (withReturns withoutReturns)

@[simp] theorem addBlock_withoutReturns (w : Whitelists) (style : Style) (b : Block) :
    addBlock w style b.withoutReturns = addBlock w style b := by
  obtain ⟨header, body⟩ := b
  cases header <;>
    simp [addBlock, Block.withoutReturns]

/-- What is left of a sheet without its comments is read the same without carriage returns before newlines. -/
theorem foldl_blocks_withoutReturns (w : Whitelists) (s : Text) :
    (StyleSheet.blocks (withoutReturns s)).foldl (addBlock w) empty =
      (StyleSheet.blocks s).foldl (addBlock w) empty := by
  rw [StyleSheet.blocks_withoutReturns, List.foldl_map]
  simp

/-- **The style of a sheet does not depend on its line endings.** -/
theorem ofSheet_withReturns (w : Whitelists) (sheet : Text) :
    ofSheet w (withReturns sheet) = ofSheet w sheet := by
  rw [ofSheet, ← foldl_blocks_withoutReturns, StyleSheet.withoutReturns_removeComments,
    foldl_blocks_withoutReturns, ofSheet]

end Style

/-! ### Texts -/

namespace Manuscript

open Text (withReturns)

/-- The lines of a text, by induction on its length: each line takes its newline with it. -/
@[simp] theorem strippedLines_withReturns (s : Text) : strippedLines (withReturns s) = strippedLines s := by
  induction hn : s.length using Nat.strongRecOn generalizing s with
  | ind n ih =>
    by_cases hmem : '\n' ∈ s
    · obtain ⟨l, rest, rfl, hl⟩ := List.eq_append_cons_of_mem hmem
      have hline : strippedLines (l ++ ['\r']) = strippedLines l := by
        have hlr : '\n' ∉ l ++ ['\r'] := by simp [hl]
        simp [strippedLines, Text.lines_of_not_mem hlr, Text.lines_of_not_mem hl]
      have hreturns : withReturns (l ++ '\n' :: rest) = (l ++ ['\r']) ++ '\n' :: withReturns rest := by
        simp [Text.withReturns_of_not_mem hl]
      have hlt : rest.length < n := by
        rw [List.length_append, List.length_cons] at hn
        omega
      rw [hreturns, strippedLines_append_newline, strippedLines_append_newline, hline,
        ih rest.length hlt rest rfl]
    · rw [Text.withReturns_of_not_mem hmem]

/-- **Edge matter and paragraphs do not depend on the line endings of a text.** -/
@[simp] theorem ofText_withReturns (s : Text) : ofText (withReturns s) = ofText s := by
  have hlines := strippedLines_withReturns s
  rw [strippedLines, strippedLines] at hlines
  rw [ofText, ofText, hlines]

end Manuscript

namespace Document

open Text (withReturns)

theorem compile_withReturns (w : Whitelists) (options : CompileOptions) (styles : List Value) (s : Text) :
    compile w options styles (withReturns s) = compile w options styles s := by
  simp [compile]

/-- **Line endings make no difference.** A sheet has the same style, rules and properties in the same order, if
a carriage return is put before every newline; and a text, with edge matter or without, under styles that are
valid compiles to the same. -/
theorem line_endings (w : Whitelists) (sheet : Text) (options : CompileOptions) {styles : List Value}
    (hvalid : ∀ st ∈ styles, ∃ v, Storage.validStyle v st = true) (s : Text) :
    Style.ofSheet w (withReturns sheet) = Style.ofSheet w sheet ∧
      ∃ c, compile w options styles s = .ok c ∧ compile w options styles (withReturns s) = .ok c := by
  obtain ⟨rules, hrules, hu, -⟩ :=
    RuleIndex.exists_ofValues_of_each (valid_contributing (w := w) hvalid (Manuscript.ofText s).edgeMatter)
  obtain ⟨c, hc, -, -⟩ :=
    exists_compile options hrules fun lines => Paragraph.exists_compile hu options.links lines
  exact ⟨Style.ofSheet_withReturns w sheet, c, hc, (compile_withReturns w options styles s).trans hc⟩

/-- Newlines at the beginning of a name, after a comment, around a colon and inside a value, which is refused; and
next to delimiter lines and blank lines. -/
theorem line_endings_everywhere :
    (∀ st ∈ [Value.style (.dict []) (.dict [(.str "*".toList, .spanRule (.dict []) .null)]) .null],
        ∃ v, Storage.validStyle v st = true) ∧
    withReturns "p\nnote // a\n\x7b color\n:\nred; width: a\nb; \x7d".toList =
      "p\r\nnote // a\r\n\x7b color\r\n:\r\nred; width: a\r\nb; \x7d".toList ∧
    withReturns "---\np note \x7b \x7d\n---\n\nnote\n*a\n---\n*b".toList =
      "---\r\np note \x7b \x7d\r\n---\r\n\r\nnote\r\n*a\r\n---\r\n*b".toList ∧
    Style.ofSheet ⟨.ofPatterns ["*".toList], .ofPatterns [], .ofPatterns []⟩
        "p\r\nnote // a\r\n\x7b color\r\n:\r\nred; width: a\r\nb; \x7d".toList =
      Style.ofSheet ⟨.ofPatterns ["*".toList], .ofPatterns [], .ofPatterns []⟩
        "p\nnote // a\n\x7b color\n:\nred; width: a\nb; \x7d".toList ∧
    Style.ofSheet ⟨.ofPatterns ["*".toList], .ofPatterns [], .ofPatterns []⟩
        "p\nnote // a\n\x7b color\n:\nred; width: a\nb; \x7d".toList =
      { Style.empty with
        paragraph := Dict.empty.set "note".toList ⟨Dict.empty.set "color".toList "red".toList⟩ } ∧
    ∃ c,
      compile ⟨.ofPatterns ["*".toList], .ofPatterns [], .ofPatterns []⟩ {}
        [.style (.dict []) (.dict [(.str "*".toList, .spanRule (.dict []) .null)]) .null]
        "---\np note \x7b \x7d\n---\n\nnote\n*a\n---\n*b".toList = .ok c ∧
      compile ⟨.ofPatterns ["*".toList], .ofPatterns [], .ofPatterns []⟩ {}
        [.style (.dict []) (.dict [(.str "*".toList, .spanRule (.dict []) .null)]) .null]
        "---\r\np note \x7b \x7d\r\n---\r\n\r\nnote\r\n*a\r\n---\r\n*b".toList = .ok c := by
  have hvalid : ∀ st ∈ [Value.style (.dict []) (.dict [(.str "*".toList,
      .spanRule (.dict []) .null)]) .null], ∃ v, Storage.validStyle v st = true :=
    List.forall_mem_singleton.2 ⟨⟨.ofPatterns [], .ofPatterns [], .ofPatterns []⟩, rfl⟩
  have hsheet : withReturns "p\nnote // a\n\x7b color\n:\nred; width: a\nb; \x7d".toList =
      "p\r\nnote // a\r\n\x7b color\r\n:\r\nred; width: a\r\nb; \x7d".toList := by decide +kernel
  have htext : withReturns "---\np note \x7b \x7d\n---\n\nnote\n*a\n---\n*b".toList =
      "---\r\np note \x7b \x7d\r\n---\r\n\r\nnote\r\n*a\r\n---\r\n*b".toList := by decide +kernel
  obtain ⟨hstyle, c, hc, hreturns⟩ :=
    line_endings ⟨.ofPatterns ["*".toList], .ofPatterns [], .ofPatterns []⟩
      "p\nnote // a\n\x7b color\n:\nred; width: a\nb; \x7d".toList {} hvalid
      "---\np note \x7b \x7d\n---\n\nnote\n*a\n---\n*b".toList
  rw [hsheet] at hstyle
  rw [htext] at hreturns
  exact ⟨hvalid, hsheet, htext, hstyle, by decide +kernel, c, hc, hreturns⟩

end Document

end ProseMarkup
