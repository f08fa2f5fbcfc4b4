import Mathlib.Data.List.Chain
import ProseMarkup.StyleSheet.Property

/-!
# Comments in a sheet

A comment begins with two slashes, so a text without two slashes next to each other has none; and a sheet
whose comments are left out is such a text, since what is left on the two sides of a comment is parted by
the newline that ends it.

A comment at the end of a line makes no difference to a sheet, whatever comes before it: text, another comment,
or the inside of one. Only a slash must not come right before it, since the comment would then begin with that
slash.

* `StyleSheet.SlashesApart` : the texts without comments.
* `StyleSheet.slashesApart_append_cons` : a character other than a slash parts what comes before and after it.
* `StyleSheet.slashesApart_removeComments` : **leaving comments out leaves no slashes next to each other**.
* `StyleSheet.removeComments_of_slashesApart` : **it changes no text without comments**.
* `StyleSheet.exists_removeCommentsFrom_append` : a text that is cut, but not between two slashes;
  `StyleSheet.removeCommentsFrom_append_newline` : one that is cut at a newline.
* `StyleSheet.removeCommentsFrom_append_comment` : a comment at the end of a text, whatever state reading begins in.
* `StyleSheet.removeComments_put_in` : **a comment at the end of any line**.
* `StyleSheet.removeComments_eq_self_iff` : **the sheets that are left as they are**.
* `Style.comments_invisible` : **comments make no difference to the style of a sheet**.
-/

namespace ProseMarkup

namespace StyleSheet

/-- No two slashes stand next to each other. -/
def SlashesApart (s : Text) : Prop :=
  s.IsChain fun c d => ¬ (c = '/' ∧ d = '/')

theorem slashesApart_cons {c : Char} {s : Text} :
    SlashesApart (c :: s) ↔ ¬ (c = '/' ∧ s.head? = some '/') ∧ SlashesApart s := by
  rw [SlashesApart, List.isChain_cons]
  apply and_congr_left'
  cases s with
  | nil => simp
  | cons d s => simp

/-- A character other than a slash, put at the end of a text, does not make it begin with a slash. -/
theorem head?_append_cons {s t : Text} {c : Char} (hc : c ≠ '/') :
    (s ++ c :: t).head? = some '/' ↔ s.head? = some '/' := by
  cases s with
  | nil => simp [hc]
  | cons d s => exact Iff.rfl

/-- A character other than a slash parts what comes before and after it. -/
theorem slashesApart_append_cons {s t : Text} {c : Char} (hc : c ≠ '/') :
    SlashesApart (s ++ c :: t) ↔ SlashesApart s ∧ SlashesApart t := by
  induction s with
  | nil =>
    rw [List.nil_append, slashesApart_cons]
    simp [hc, SlashesApart]
  | cons d s ih =>
    rw [List.cons_append, slashesApart_cons, slashesApart_cons, ih, head?_append_cons hc, and_assoc]

/-- A text without slashes has none next to each other. -/
theorem slashesApart_of_not_mem {s : Text} (h : '/' ∉ s) : SlashesApart s := by
  induction s with
  | nil => exact .nil
  | cons c s ih =>
    rw [List.mem_cons, not_or] at h
    exact slashesApart_cons.2 ⟨fun hslash => h.1 hslash.1.symm, ih h.2⟩

theorem slashesApart_iff {s : Text} : SlashesApart s ↔ ¬ "//".toList <:+: s := by
  rw [SlashesApart, List.isChain_iff_forall_rel_of_append_cons_cons]
  constructor
  · rintro h ⟨before, after, hs⟩
    exact h (by rw [← hs, List.append_assoc]; rfl) ⟨rfl, rfl⟩
  · rintro h c d before after hs ⟨rfl, rfl⟩
    exact h ⟨before, after, by rw [hs, List.append_assoc]; rfl⟩

/-- What is left of a text begins with a slash only if the text does and no comment is being read. -/
theorem head?_removeCommentsFrom (s : Text) :
    ((removeCommentsFrom false s).head? = some '/' → s.head? = some '/') ∧
      (removeCommentsFrom true s).head? ≠ some '/' := by
  induction s with
  | nil => exact ⟨fun h => h, nofun⟩
  | cons c s ih =>
    rw [removeCommentsFrom, removeCommentsFrom]
    constructor
    · split
      · exact fun h => absurd h ih.2
      · exact fun h => h
    · split
      · exact nofun
      · exact ih.2

theorem slashesApart_removeCommentsFrom (s : Text) (inside : Bool) :
    SlashesApart (removeCommentsFrom inside s) := by
  induction s generalizing inside with
  | nil => cases inside <;> exact .nil
  | cons c s ih =>
    cases inside with
    | true =>
      rw [removeCommentsFrom]
      split
      · exact slashesApart_cons.2 ⟨fun h => absurd h.1 (by decide), ih false⟩
      · exact ih true
    | false =>
      rw [removeCommentsFrom]
      split
      · exact ih true
      · next h =>
        refine slashesApart_cons.2 ⟨fun hboth => h ⟨hboth.1, ?_⟩, ih false⟩
        exact (head?_removeCommentsFrom s).1 hboth.2

/-- **Leaving comments out leaves no slashes next to each other.** -/
theorem slashesApart_removeComments (sheet : Text) : SlashesApart (removeComments sheet) :=
  slashesApart_removeCommentsFrom sheet false

/-- **A text without slashes next to each other has no comments to leave out.** -/
theorem removeComments_of_slashesApart {s : Text} (h : SlashesApart s) : removeComments s = s := by
  rw [removeComments]
  induction s with
  | nil => rfl
  | cons c s ih =>
    obtain ⟨hc, hs⟩ := slashesApart_cons.1 h
    rw [removeCommentsFrom, if_neg hc, ih hs]

/-! ### Cutting a sheet -/

/-- If no two slashes next to each other are parted, what is left of a text is what is left of its beginning and, read
on in whatever state that leads to, of its end. -/
theorem exists_removeCommentsFrom_append (inside : Bool) {s t : Text}
    (h : s.getLast? = some '/' → t.head? ≠ some '/') :
    ∃ inside', removeCommentsFrom inside (s ++ t) = removeCommentsFrom inside s ++ removeCommentsFrom inside' t := by
  induction s generalizing inside with
  | nil => exact ⟨inside, by cases inside <;> rfl⟩
  | cons c s ih =>
    have hrest : s.getLast? = some '/' → t.head? ≠ some '/' := by
      intro hlast
      rw [List.getLast?_cons, hlast] at h
      exact h rfl
    rw [List.cons_append]
    cases inside with
    | true =>
      rw [removeCommentsFrom, removeCommentsFrom]
      split
      · obtain ⟨inside', heq⟩ := ih false hrest
        exact ⟨inside', congrArg ('\n' :: ·) heq⟩
      · exact ih true hrest
    | false =>
      have hslashes : (c = '/' ∧ (s ++ t).head? = some '/') ↔ (c = '/' ∧ s.head? = some '/') := by
        cases s with
        | nil => exact iff_of_false (fun hboth => h (congrArg some hboth.1) hboth.2) (fun hboth => nomatch hboth.2)
        | cons d s => exact Iff.rfl
      rw [removeCommentsFrom, removeCommentsFrom]
      simp only [hslashes]
      split
      · exact ih true hrest
      · obtain ⟨inside', heq⟩ := ih false hrest
        exact ⟨inside', congrArg (c :: ·) heq⟩

@[simp] theorem removeCommentsFrom_newline (inside : Bool) (s : Text) :
    removeCommentsFrom inside ('\n' :: s) = '\n' :: removeCommentsFrom false s := by
  cases inside with
  | true => exact if_pos rfl
  | false => exact if_neg fun h => absurd h.1 (by decide)

/-- A newline ends every comment. -/
@[simp] theorem removeCommentsFrom_append_newline (inside : Bool) (s t : Text) :
    removeCommentsFrom inside (s ++ '\n' :: t) =
      removeCommentsFrom inside s ++ '\n' :: removeCommentsFrom false t := by
  have hnewline : ('\n' :: t).head? ≠ some '/' := fun h => absurd (Option.some.inj h) (by decide)
  obtain ⟨inside', h⟩ := exists_removeCommentsFrom_append inside (s := s) fun _ => hnewline
  simp [h]

/-! ### Putting comments into a sheet -/

variable {a b c : Text}

/-- A comment that is being read and does not end takes up all of the text. -/
theorem removeCommentsFrom_of_not_mem (hc : '\n' ∉ c) : removeCommentsFrom true c = [] := by
  induction c with
  | nil => rfl
  | cons d c ih =>
    rw [List.mem_cons, not_or] at hc
    rw [removeCommentsFrom, if_neg (Ne.symm hc.1), ih hc.2]

/-- A comment at the end of a text that does not end with a slash. The text may end inside a comment. -/
theorem removeCommentsFrom_append_comment (inside : Bool) (ha : a.getLast? ≠ some '/') (hc : '\n' ∉ c) :
    removeCommentsFrom inside (a ++ ("//".toList ++ c)) = removeCommentsFrom inside a := by
  have hcomment : ∀ inside', removeCommentsFrom inside' ("//".toList ++ c) = [] := by
    intro inside'
    have hread : removeCommentsFrom true ('/' :: c) = [] :=
      removeCommentsFrom_of_not_mem (List.not_mem_cons_of_ne_of_not_mem (by decide) hc)
    cases inside' with
    | true => exact (if_neg (by decide)).trans hread
    | false => exact (if_pos ⟨rfl, rfl⟩).trans hread
  obtain ⟨inside', h⟩ := exists_removeCommentsFrom_append inside fun hlast => absurd hlast ha
  rw [h, hcomment, List.append_nil]

/-- **A comment at the end of a line is left out with nothing else**: what comes before it does not end with a slash,
and what comes after it is nothing or begins with a newline. -/
theorem removeComments_put_in (ha : a.getLast? ≠ some '/') (hb : b = [] ∨ b.head? = some '\n') (hc : '\n' ∉ c) :
    removeComments (a ++ "//".toList ++ c ++ b) = removeComments (a ++ b) := by
  rw [List.append_assoc a, removeComments, removeComments]
  rcases hb with rfl | hb
  · rw [List.append_nil, List.append_nil, removeCommentsFrom_append_comment false ha hc]
  · obtain ⟨rest, rfl⟩ := List.head?_eq_some_iff.1 hb
    rw [removeCommentsFrom_append_newline, removeCommentsFrom_append_newline,
      removeCommentsFrom_append_comment false ha hc]

/-- After a slash a comment begins one character earlier. -/
example : removeComments "p a///b".toList ≠ removeComments "p a/".toList := by
  decide

theorem not_infix_removeComments (sheet : Text) : ¬ "//".toList <:+: removeComments sheet :=
  slashesApart_iff.1 (slashesApart_removeComments sheet)

/-- **A sheet is left as it is just if it does not have two slashes in a row.** -/
theorem removeComments_eq_self_iff {sheet : Text} : removeComments sheet = sheet ↔ ¬ "//".toList <:+: sheet := by
  constructor
  · intro h
    rw [← h]
    exact not_infix_removeComments sheet
  · exact fun h => removeComments_of_slashesApart (slashesApart_iff.2 h)

end StyleSheet

/-! ### Styles -/

namespace Style

open StyleSheet (removeComments)

/-- **Comments make no difference to the style of a sheet.** If a comment is put at the end of a line that does not end
with a slash, the same is left of the sheet, and it has the same style, rules and properties in the same order. What is
left of a sheet does not have two slashes in a row, only such sheets are left as they are, and nothing more is left out
of it a second time. -/
theorem comments_invisible (w : Whitelists) {a b c : Text} (ha : a.getLast? ≠ some '/')
    (hb : b = [] ∨ b.head? = some '\n') (hc : '\n' ∉ c) (sheet : Text) :
    removeComments (a ++ "//".toList ++ c ++ b) = removeComments (a ++ b) ∧
      ofSheet w (a ++ "//".toList ++ c ++ b) = ofSheet w (a ++ b) ∧
      ¬ "//".toList <:+: removeComments sheet ∧
      (removeComments sheet = sheet ↔ ¬ "//".toList <:+: sheet) ∧
      removeComments (removeComments sheet) = removeComments sheet := by
  have hleft := StyleSheet.removeComments_put_in ha hb hc
  refine ⟨hleft, ?_, StyleSheet.not_infix_removeComments sheet, StyleSheet.removeComments_eq_self_iff, ?_⟩
  · rw [ofSheet, ofSheet, hleft]
  · exact StyleSheet.removeComments_eq_self_iff.2 (StyleSheet.not_infix_removeComments sheet)

/-- A comment inside another one, with slashes and a block in it; and slashes on both sides of a comment. -/
theorem comments_invisible_in_comment :
    "p a \x7b color: red; \x7d /\n// b ".toList.getLast? ≠ some '/' ∧
    ("\np d \x7b\x7d".toList = [] ∨ "\np d \x7b\x7d".toList.head? = some '\n') ∧ '\n' ∉ "/ p c \x7b\x7d //".toList ∧
    ofSheet ⟨.ofPatterns ["*".toList], .ofPatterns [], .ofPatterns []⟩
        "p a \x7b color: red; \x7d /\n// b /// p c \x7b\x7d //\np d \x7b\x7d".toList =
      { Style.empty with
        paragraph := (Dict.empty.set "a".toList ⟨Dict.empty.set "color".toList "red".toList⟩).set
          "d".toList ⟨Dict.empty⟩ } ∧
    removeComments "a / // b\n/c///d".toList = "a / \n/c".toList ∧
    ¬ "//".toList <:+: "a / \n/c".toList ∧
    removeComments "a / \n/c".toList = "a / \n/c".toList := by
  have ha : "p a \x7b color: red; \x7d /\n// b ".toList.getLast? ≠ some '/' := by decide
  have hb : "\np d \x7b\x7d".toList = [] ∨ "\np d \x7b\x7d".toList.head? = some '\n' := by decide
  have hc : '\n' ∉ "/ p c \x7b\x7d //".toList := by decide
  have hleft : removeComments "a / // b\n/c///d".toList = "a / \n/c".toList := by decide
  obtain ⟨-, hstyle, hnone, -, hagain⟩ :=
    comments_invisible ⟨.ofPatterns ["*".toList], .ofPatterns [], .ofPatterns []⟩ ha hb hc
      "a / // b\n/c///d".toList
  rw [hleft] at hnone hagain
  exact ⟨ha, hb, hc, hstyle.trans (by decide +kernel), hleft, hnone, hagain⟩

end Style

end ProseMarkup
