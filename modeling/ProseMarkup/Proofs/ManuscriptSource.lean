import ProseMarkup.Proofs.EdgeMatter

/-!
# Manuscripts written out

A text is cut in four stages: its lines are stripped, edge matter is taken off both ends, blank lines are
trimmed, and the rest is grouped into paragraphs. What comes out obeys a few rules, and whatever obeys them
comes out of some text: the one that encloses the edge matter at the beginning, and puts an empty sheet
after the paragraphs, so that no delimiter line inside them is taken for the end of edge matter.

* `Text.lines_joinWith` : the lines that a text was joined from.
* `Lines.splitFront_cases` : all that taking off front matter can do.
* `Lines.paragraphs_append_blank` : the paragraphs on both sides of a blank line.
* `Lines.flatten_paragraphs` : the lines of all paragraphs.
* `Manuscript.IsWellFormed` : the rules; `Manuscript.source` : a manuscript written out.
* `Manuscript.isWellFormed_ofText` : **a text is cut into a well-formed manuscript**.
* `Manuscript.ofText_source` : **a well-formed manuscript that is written out is cut into itself**.
* `Manuscript.ofText_wellFormed_and_source` : both.
-/

namespace ProseMarkup

/-! ### Lines of texts -/

namespace Text

/-- Nothing but the newlines is missing from the lines of a text. -/
@[simp] theorem flatten_lines (s : Text) : (lines s).flatten = s.filter (· ≠ '\n') := by
  induction s with
  | nil => rfl
  | cons c s ih =>
    by_cases hc : c = '\n'
    · simp [hc, ih]
    · rw [List.filter_cons_of_pos (by simpa using hc), ← ih]
      cases hs : lines s with
      | nil => exact absurd hs (lines_ne_nil s)
      | cons l ls => rw [StyleSheet.lines_cons hc hs, List.flatten_cons, List.flatten_cons, List.cons_append]

/-- The characters of a line are characters of the text, and no newlines. -/
theorem of_mem_lines {s l : Text} (h : l ∈ lines s) : l ⊆ s ∧ '\n' ∉ l := by
  have hmem : ∀ c ∈ l, c ∈ s ∧ c ≠ '\n' := by
    intro c hc
    have hflat : c ∈ s.filter (· ≠ '\n') := flatten_lines s ▸ List.mem_flatten_of_mem h hc
    obtain ⟨hs, hne⟩ := List.mem_filter.1 hflat
    exact ⟨hs, of_decide_eq_true hne⟩
  exact ⟨fun c hc => (hmem c hc).1, fun hnewline => (hmem _ hnewline).2 rfl⟩

theorem lines_of_not_mem {l : Text} (h : '\n' ∉ l) : lines l = [l] := by
  induction l with
  | nil => rfl
  | cons c l ih =>
    rw [List.mem_cons, not_or] at h
    exact StyleSheet.lines_cons (Ne.symm h.1) (ih h.2)

/-- The lines that a text was joined from are its lines. -/
theorem lines_joinWith {ls : List Text} (hne : ls ≠ []) (h : ∀ l ∈ ls, '\n' ∉ l) :
    lines (joinWith ['\n'] ls) = ls := by
  induction ls with
  | nil => exact absurd rfl hne
  | cons l ls ih =>
    rw [List.forall_mem_cons] at h
    cases ls with
    | nil => exact lines_of_not_mem h.1
    | cons l' ls =>
      have hjoin : joinWith ['\n'] (l :: l' :: ls) = l ++ '\n' :: joinWith ['\n'] (l' :: ls) :=
        List.append_assoc l ['\n'] _
      simp [hjoin, lines_of_not_mem h.1, ih (List.cons_ne_nil l' ls) h.2]

end Text

namespace Lines

variable {ls edge rest : List Text} {l l' : Text}

/-! ### Edge matter -/

theorem eq_of_cutAtDelimiter (h : cutAtDelimiter ls = some (edge, rest)) :
    ls = edge ++ edgeDelimiter :: rest ∧ edgeDelimiter ∉ edge := by
  induction ls generalizing edge with
  | nil => cases h
  | cons l ls ih =>
    rw [cutAtDelimiter] at h
    split at h
    · next hl =>
      cases h
      rw [hl]
      exact ⟨rfl, List.not_mem_nil⟩
    · next hl =>
      obtain ⟨⟨front, after⟩, hcut, heq⟩ := Option.map_eq_some_iff.1 h
      cases heq
      obtain ⟨hls, hfront⟩ := ih hcut
      rw [hls, List.mem_cons, not_or]
      exact ⟨rfl, Ne.symm hl, hfront⟩

/-- There is no front matter, or it is what stands between the first line and the next delimiter. -/
theorem splitFront_cases (ls : List Text) :
    splitFront ls = ([], ls) ∨
      ∃ edge rest, ls = edgeDelimiter :: (edge ++ edgeDelimiter :: rest) ∧ edgeDelimiter ∉ edge ∧
        splitFront ls = (edge, rest) := by
  cases ls with
  | nil => exact .inl rfl
  | cons l ls =>
    rw [splitFront]
    split
    · next hl =>
      cases hcut : cutAtDelimiter ls with
      | none => exact .inl rfl
      | some p =>
        obtain ⟨hls, hedge⟩ := eq_of_cutAtDelimiter hcut
        exact .inr ⟨p.1, p.2, by rw [hl, hls], hedge, rfl⟩
    · exact .inl rfl

/-- Front matter has no delimiter, and the lines are taken from those that are given. -/
theorem splitFront_subset (ls : List Text) :
    edgeDelimiter ∉ (splitFront ls).1 ∧ (splitFront ls).1 ⊆ ls ∧ (splitFront ls).2 ⊆ ls := by
  obtain h | ⟨edge, rest, hls, hedge, h⟩ := splitFront_cases ls
  · rw [h]
    exact ⟨List.not_mem_nil, List.nil_subset ls, List.Subset.refl ls⟩
  · rw [h, hls]
    refine ⟨hedge, fun l hl => ?_, fun l hl => ?_⟩
    · exact List.mem_cons_of_mem _ (List.mem_append_left _ hl)
    · exact List.mem_cons_of_mem _ (List.mem_append_right _ (List.mem_cons_of_mem _ hl))

theorem splitBack_subset (ls : List Text) :
    edgeDelimiter ∉ (splitBack ls).1 ∧ (splitBack ls).1 ⊆ ls ∧ (splitBack ls).2 ⊆ ls := by
  obtain ⟨hdelimiter, hedge, hrest⟩ := splitFront_subset ls.reverse
  rw [splitBack]
  refine ⟨fun hmem => hdelimiter (List.mem_reverse.1 hmem), fun l hl => ?_, fun l hl => ?_⟩
  · exact List.mem_reverse.1 (hedge (List.mem_reverse.1 hl))
  · exact List.mem_reverse.1 (hrest (List.mem_reverse.1 hl))

theorem splitEdge_subset (ls : List Text) :
    edgeDelimiter ∉ (splitEdge ls).1 ∧ (splitEdge ls).1 ⊆ ls ∧ (splitEdge ls).2 ⊆ ls := by
  obtain ⟨hfront, hfrontSubset, hmiddle⟩ := splitFront_subset ls
  obtain ⟨hback, hbackSubset, hrest⟩ := splitBack_subset (splitFront ls).2
  refine ⟨?_, ?_, List.Subset.trans hrest hmiddle⟩
  · rw [splitEdge, List.mem_append, not_or]
    exact ⟨hfront, hback⟩
  · rw [splitEdge]
    exact List.append_subset.2 ⟨hfrontSubset, List.Subset.trans hbackSubset hmiddle⟩

/-! ### Paragraphs -/

/-- Some lines, none of them empty, that have no blanks at their ends and no newlines. -/
def IsParagraph (p : List Text) : Prop :=
  p ≠ [] ∧ ∀ l ∈ p, l ≠ [] ∧ Text.strip l = l ∧ '\n' ∉ l

instance (p : List Text) : Decidable (IsParagraph p) :=
  inferInstanceAs (Decidable (_ ∧ ∀ l ∈ p, _ ∧ _ ∧ _))

@[simp] theorem paragraphs_blank (ls : List Text) : paragraphs ([] :: ls) = paragraphs ls := by
  rw [paragraphs]

theorem paragraphs_singleton (hl : l ≠ []) : paragraphs [l] = [[l]] := by
  cases l with
  | nil => exact absurd rfl hl
  | cons c l => rfl

theorem paragraphs_cons_blank (hl : l ≠ []) (ls : List Text) :
    paragraphs (l :: [] :: ls) = [l] :: paragraphs ls := by
  cases l with
  | nil => exact absurd rfl hl
  | cons c l => rfl

/-- A line that is not empty is a paragraph of its own, or joins the one after it. -/
theorem paragraphs_cons_cases (hl : l ≠ []) (ls : List Text) :
    paragraphs (l :: ls) = [l] :: paragraphs ls ∨
      ∃ p ps, paragraphs ls = p :: ps ∧ paragraphs (l :: ls) = (l :: p) :: ps := by
  cases l with
  | nil => exact absurd rfl hl
  | cons c l =>
    rw [paragraphs.eq_def ((c :: l) :: ls)]
    dsimp only
    split
    · next p ps h => exact .inr ⟨p, ps, h, rfl⟩
    · exact .inl rfl

theorem exists_paragraphs_cons (hl : l ≠ []) (ls : List Text) :
    ∃ p ps, paragraphs (l :: ls) = p :: ps := by
  obtain h | ⟨p, ps, -, h⟩ := paragraphs_cons_cases hl ls
  · exact ⟨_, _, h⟩
  · exact ⟨_, _, h⟩

/-- A line joins the paragraph that the next line begins. -/
theorem paragraphs_cons_cons {p : List Text} {ps : List (List Text)} (hl : l ≠ []) (hl' : l' ≠ [])
    (h : paragraphs (l' :: ls) = p :: ps) : paragraphs (l :: l' :: ls) = (l :: p) :: ps := by
  cases l with
  | nil => exact absurd rfl hl
  | cons c l =>
    cases l' with
    | nil => exact absurd rfl hl'
    | cons c' l' =>
      unfold paragraphs
      rw [h]

/-- The paragraphs on both sides of a blank line are apart. -/
@[simp] theorem paragraphs_append_blank (ls rest : List Text) :
    paragraphs (ls ++ [] :: rest) = paragraphs ls ++ paragraphs rest := by
  induction ls with
  | nil => exact paragraphs_blank rest
  | cons l ls ih =>
    by_cases hl : l = []
    · simp [hl, ih]
    · cases ls with
      | nil =>
        rw [List.singleton_append, paragraphs_cons_blank hl, paragraphs_singleton hl,
          List.singleton_append]
      | cons l' ls =>
        by_cases hl' : l' = []
        · rw [hl', List.cons_append, paragraphs_blank, paragraphs_blank] at ih
          rw [hl', List.cons_append, List.cons_append, paragraphs_cons_blank hl,
            paragraphs_cons_blank hl, ih, List.cons_append]
        · obtain ⟨p, ps, h⟩ := exists_paragraphs_cons hl' ls
          rw [h, List.cons_append, List.cons_append] at ih
          rw [List.cons_append, List.cons_append, paragraphs_cons_cons hl hl' ih,
            paragraphs_cons_cons hl hl' h, List.cons_append]

/-- Lines that are not empty are one paragraph. -/
theorem paragraphs_of_ne_nil {p : List Text} (hne : p ≠ []) (h : ∀ l ∈ p, l ≠ []) :
    paragraphs p = [p] := by
  induction p with
  | nil => exact absurd rfl hne
  | cons l p ih =>
    rw [List.forall_mem_cons] at h
    cases p with
    | nil => exact paragraphs_singleton h.1
    | cons l' p =>
      exact paragraphs_cons_cons h.1 (h.2 l' List.mem_cons_self) (ih (List.cons_ne_nil l' p) h.2)

/-- Trimming blank lines does not change the paragraphs. -/
@[simp] theorem paragraphs_trimEnds (ls : List Text) : paragraphs (trimEnds ls) = paragraphs ls := by
  have hbegin : paragraphs (ls.dropWhile List.isEmpty) = paragraphs ls := by
    induction ls with
    | nil => rfl
    | cons l ls ih =>
      cases l with
      | nil => simp [ih]
      | cons c l => rw [List.dropWhile_cons_of_neg Bool.false_ne_true]
  have hend : ∀ ls : List Text, paragraphs (ls.rdropWhile List.isEmpty) = paragraphs ls := by
    intro ls
    induction ls using List.reverseRecOn with
    | nil => rfl
    | append_singleton ls l ih =>
      cases l with
      | nil => simp [ih, paragraphs]
      | cons c l => rw [List.rdropWhile_concat_neg _ _ _ Bool.false_ne_true]
  exact (hend _).trans hbegin

/-- Nothing but the empty lines is missing from the paragraphs. -/
@[simp] theorem flatten_paragraphs (ls : List Text) : (paragraphs ls).flatten = ls.filter (· ≠ []) := by
  induction ls with
  | nil => rfl
  | cons l ls ih =>
    by_cases hl : l = []
    · simp [hl, ih]
    · rw [List.filter_cons_of_pos (by simpa using hl), ← ih]
      obtain h | ⟨p, ps, hls, h⟩ := paragraphs_cons_cases hl ls
      · rw [h, List.flatten_cons, List.singleton_append]
      · rw [h, hls, List.flatten_cons, List.flatten_cons, List.cons_append]

theorem nil_not_mem_paragraphs (ls : List Text) : [] ∉ paragraphs ls := by
  induction ls with
  | nil => exact List.not_mem_nil
  | cons l ls ih =>
    by_cases hl : l = []
    · simpa [hl] using ih
    · obtain h | ⟨p, ps, hls, h⟩ := paragraphs_cons_cases hl ls
      · rw [h, List.mem_cons, not_or]
        exact ⟨(List.cons_ne_nil l []).symm, ih⟩
      · rw [hls, List.mem_cons, not_or] at ih
        rw [h, List.mem_cons, not_or]
        exact ⟨(List.cons_ne_nil l p).symm, ih.2⟩

/-- Paragraphs are made of lines that are there and are not empty. -/
theorem of_mem_paragraphs {p : List Text} (h : p ∈ paragraphs ls) :
    p ≠ [] ∧ p ⊆ ls ∧ [] ∉ p := by
  have hmem : ∀ l ∈ p, l ∈ ls ∧ l ≠ [] := by
    intro l hl
    have hflat : l ∈ ls.filter (· ≠ []) := flatten_paragraphs ls ▸ List.mem_flatten_of_mem h hl
    obtain ⟨hls, hne⟩ := List.mem_filter.1 hflat
    exact ⟨hls, of_decide_eq_true hne⟩
  refine ⟨?_, fun l hl => (hmem l hl).1, fun hempty => (hmem [] hempty).2 rfl⟩
  rintro rfl
  exact nil_not_mem_paragraphs ls h

end Lines

/-! ### Manuscripts -/

namespace Manuscript

open Lines (IsParagraph edgeDelimiter)

/-- No line of the edge matter has blanks at its ends or is the delimiter, and the paragraphs are made of
stripped lines that are not empty. -/
structure IsWellFormed (m : Manuscript) : Prop where
  edgeMatter : IsEnclosable m.edgeMatter
  paragraphs : ∀ p ∈ m.paragraphs, IsParagraph p

instance (m : Manuscript) : Decidable m.IsWellFormed :=
  decidable_of_iff (IsEnclosable m.edgeMatter ∧ ∀ p ∈ m.paragraphs, IsParagraph p)
    ⟨fun h => ⟨h.1, h.2⟩, fun h => ⟨h.1, h.2⟩⟩

/-- Paragraphs with a blank line between each two neighbours. -/
def bodySource (paragraphs : List (List Text)) : Text :=
  Text.joinWith "\n\n".toList (paragraphs.map (Text.joinWith ['\n']))

/-- A manuscript written out: its edge matter enclosed, its paragraphs, and an empty sheet enclosed. -/
def source (m : Manuscript) : Text :=
  "---\n".toList ++ m.edgeMatter ++ "\n---\n\n".toList ++ bodySource m.paragraphs ++
    "\n\n---\n---".toList

/-! ### What comes out of a text -/

theorem of_mem_strippedLines {s l : Text} (h : l ∈ strippedLines s) :
    Text.strip l = l ∧ '\n' ∉ l := by
  obtain ⟨line, hline, rfl⟩ := List.mem_map.1 h
  exact ⟨Text.trim_trim line,
    fun hmem => (Text.of_mem_lines hline).2 ((Text.trim_infix line).subset hmem)⟩

theorem isEnclosable_joinWith {ls : List Text} (hdelimiter : edgeDelimiter ∉ ls)
    (h : ∀ l ∈ ls, Text.strip l = l ∧ '\n' ∉ l) : IsEnclosable (Text.joinWith ['\n'] ls) := by
  cases ls with
  | nil => decide
  | cons l ls =>
    rw [IsEnclosable, Text.lines_joinWith (List.cons_ne_nil l ls) fun l' hl' => (h l' hl').2]
    exact fun l' hl' => ⟨(h l' hl').1, fun heq => hdelimiter (heq ▸ hl')⟩

/-- **A text is cut into a well-formed manuscript.** -/
theorem isWellFormed_ofText (s : Text) : (ofText s).IsWellFormed := by
  obtain ⟨hdelimiter, hedge, hrest⟩ := Lines.splitEdge_subset (strippedLines s)
  refine ⟨isEnclosable_joinWith hdelimiter fun l hl => of_mem_strippedLines (hedge hl), ?_⟩
  intro p hp
  have hmem : p ∈ Lines.paragraphs (Lines.splitEdge (strippedLines s)).2 :=
    Lines.paragraphs_trimEnds _ ▸ hp
  obtain ⟨hne, hsubset, hblank⟩ := Lines.of_mem_paragraphs hmem
  exact ⟨hne, fun l hl =>
    ⟨fun heq => hblank (heq ▸ hl), of_mem_strippedLines (hrest (hsubset hl))⟩⟩

/-! ### What is written out -/

@[simp] theorem strippedLines_newline (s : Text) : strippedLines ('\n' :: s) = [] :: strippedLines s :=
  strippedLines_append_newline [] s

/-- The lines of a paragraph are read back. -/
theorem strippedLines_joinWith {p : List Text} (h : IsParagraph p) :
    strippedLines (Text.joinWith ['\n'] p) = p := by
  have hlines : Text.lines (Text.joinWith ['\n'] p) = p :=
    Text.lines_joinWith h.1 fun l hl => (h.2 l hl).2.2
  rw [strippedLines_eq_lines, hlines]
  rw [hlines]
  exact fun l hl => (h.2 l hl).2.1

/-- The paragraphs of a body that is written out are read back. -/
theorem paragraphs_bodySource {ps : List (List Text)} (h : ∀ p ∈ ps, IsParagraph p) :
    Lines.paragraphs (strippedLines (bodySource ps)) = ps := by
  induction ps with
  | nil => decide
  | cons p ps ih =>
    rw [List.forall_mem_cons] at h
    have hp : Lines.paragraphs p = [p] := Lines.paragraphs_of_ne_nil h.1.1 fun l hl => (h.1.2 l hl).1
    cases ps with
    | nil =>
      have hsource : bodySource [p] = Text.joinWith ['\n'] p := rfl
      rw [hsource, strippedLines_joinWith h.1, hp]
    | cons q ps =>
      have hsource : bodySource (p :: q :: ps) =
          Text.joinWith ['\n'] p ++ '\n' :: '\n' :: bodySource (q :: ps) :=
        List.append_assoc _ _ _
      simp [hsource, strippedLines_joinWith h.1, hp, ih h.2]

/-- The lines of a manuscript that is written out. -/
theorem strippedLines_source (m : Manuscript) :
    strippedLines m.source = strippedLines (enclosed m.edgeMatter) ++
      ([] :: (strippedLines (bodySource m.paragraphs) ++ [[]]) ++
        edgeDelimiter :: ([] ++ [edgeDelimiter])) := by
  have hsource : m.source = enclosed m.edgeMatter ++ '\n' ::
      '\n' :: (bodySource m.paragraphs ++ '\n' :: "\n---\n---".toList) := by
    have hopening : "---\n".toList = edgeDelimiter ++ ['\n'] := rfl
    have hclosing : "\n---\n\n".toList = '\n' :: (edgeDelimiter ++ ['\n', '\n']) := rfl
    have hsheet : "\n\n---\n---".toList = '\n' :: "\n---\n---".toList := rfl
    show "---\n".toList ++ m.edgeMatter ++ "\n---\n\n".toList ++ bodySource m.paragraphs ++
      "\n\n---\n---".toList = _
    simp only [enclosed, hopening, hclosing, hsheet, List.append_assoc, List.cons_append,
      List.nil_append]
  have hend : strippedLines "\n---\n---".toList = [[], edgeDelimiter, edgeDelimiter] := by decide
  simp only [hsource, strippedLines_append_newline, strippedLines_newline, hend, List.append_assoc,
    List.cons_append, List.nil_append]

/-- **A well-formed manuscript that is written out is cut into itself.** -/
theorem ofText_source {m : Manuscript} (h : m.IsWellFormed) : ofText m.source = m := by
  have hfront := h.edgeMatter.splitFront
    ([] :: (strippedLines (bodySource m.paragraphs) ++ [[]]) ++ edgeDelimiter :: ([] ++ [edgeDelimiter]))
  rw [← strippedLines_source] at hfront
  -- The sheet at the end is empty: no line stands between its two delimiters.
  have hback := Lines.splitBack_enclosed (List.not_mem_nil (a := edgeDelimiter))
    ([] :: (strippedLines (bodySource m.paragraphs) ++ [[]]))
  simp [ofText_of_split hfront hback, paragraphs_bodySource h.paragraphs, Lines.paragraphs]

/-- **Texts are cut into the well-formed manuscripts, and into all of them.** Whatever the text, the edge
matter and the paragraphs that it is cut into are well formed; and a manuscript that is well formed, with
delimiter lines in its paragraphs or without, is written out as a text that is cut into it. -/
theorem ofText_wellFormed_and_source :
    (∀ s, (ofText s).IsWellFormed) ∧ ∀ m : Manuscript, m.IsWellFormed → ofText m.source = m :=
  ⟨isWellFormed_ofText, fun _ => ofText_source⟩

/-- A rule in the edge matter, and delimiter lines that begin a paragraph, end one and make one up. -/
theorem ofText_wellFormed_and_source_delimiters :
    (⟨"p note \x7b\ncolor: red;\n\x7d".toList,
      [["---".toList, "a b".toList], ["c".toList, "---".toList], ["---".toList]]⟩ :
        Manuscript).IsWellFormed ∧
    ofText "---\np note \x7b\ncolor: red;\n\x7d\n---\n\n---\na b\n\nc\n---\n\n---\n\n---\n---".toList =
      ⟨"p note \x7b\ncolor: red;\n\x7d".toList,
        [["---".toList, "a b".toList], ["c".toList, "---".toList], ["---".toList]]⟩ := by
  have h : (⟨"p note \x7b\ncolor: red;\n\x7d".toList,
      [["---".toList, "a b".toList], ["c".toList, "---".toList], ["---".toList]]⟩ :
        Manuscript).IsWellFormed := by decide +kernel
  have hsource : source ⟨"p note \x7b\ncolor: red;\n\x7d".toList,
      [["---".toList, "a b".toList], ["c".toList, "---".toList], ["---".toList]]⟩ =
      "---\np note \x7b\ncolor: red;\n\x7d\n---\n\n---\na b\n\nc\n---\n\n---\n\n---\n---".toList := by
    decide +kernel
  exact ⟨h, (congrArg ofText hsource.symm).trans (ofText_wellFormed_and_source.2 _ h)⟩

end Manuscript

end ProseMarkup
