import ProseMarkup.Proofs.Comments
import ProseMarkup.Proofs.Lookup
import ProseMarkup.Proofs.ManuscriptSource

/-!
# One sheet after another

A sheet that ends with a closing brace, and not inside a comment, keeps to itself: whatever is wrong with its blocks
or with those of the sheet written after it, no comment, no header and no body reaches from one into the other. So
the blocks of the two are those of the first and then those of the second, and the rules of the second replace
those of the first.

* `StyleSheet.removeComments_append` : the comments of the two are left out apart.
* `StyleSheet.blocks_append` : **the blocks of a text that ends with a closing brace, and of what follows it**.
* `Dict.IsOverlay`, `Style.IsOverlay` : one dictionary, or one style, with another written over it.
* `Style.foldl_addBlock_eq_overlay` : blocks read after others are written over them.
* `Style.isOverlay_ofSheet_append` : **the style of two sheets is that of the second written over that of the
  first**.
-/

namespace ProseMarkup

/-! ### Comments -/

/-- What comes after the last newline of a text is its last line. -/
theorem Text.exists_lastLine (s : Text) :
    ∃ before last, '\n' ∉ last ∧ (s = last ∨ s = before ++ '\n' :: last) ∧
      (lines s).getLast? = some last := by
  induction s with
  | nil => exact ⟨[], [], List.not_mem_nil, .inl rfl, rfl⟩
  | cons c s ih =>
    obtain ⟨before, last, hlast, rfl | rfl, hlines⟩ := ih
    · by_cases hc : c = '\n'
      · refine ⟨[], s, hlast, .inr (by rw [hc, List.nil_append]), ?_⟩
        simp [hc, lines_of_not_mem hlast]
      · have hall : '\n' ∉ c :: s := by
          rw [List.mem_cons, not_or]
          exact ⟨Ne.symm hc, hlast⟩
        exact ⟨[], c :: s, hall, .inl rfl, by rw [lines_of_not_mem hall]; rfl⟩
    · refine ⟨c :: before, last, hlast, .inr rfl, ?_⟩
      rw [← List.cons_append, lines_append_newline, lines_of_not_mem hlast, List.getLast?_concat]

namespace StyleSheet

/-- Outside of comments, nothing is left out up to a character other than a slash, if there are no two slashes
before it. -/
theorem removeCommentsFrom_append_cons {s : Text} (h : SlashesApart s) {c : Char} (hc : c ≠ '/') (t : Text) :
    removeCommentsFrom false (s ++ c :: t) = s ++ c :: removeCommentsFrom false t := by
  induction s with
  | nil => exact if_neg fun hslash => hc hslash.1
  | cons d s ih =>
    obtain ⟨hd, hs⟩ := slashesApart_cons.1 h
    have hnot : ¬ (d = '/' ∧ (s ++ c :: t).head? = some '/') :=
      fun h => hd ⟨h.1, (head?_append_cons hc).1 h.2⟩
    rw [List.cons_append, removeCommentsFrom, if_neg hnot, ih hs, List.cons_append]

/-- The comments of two sheets are left out apart, if the first ends with a closing brace and not inside a comment. -/
theorem removeComments_append {a : Text} (hend : a.getLast? = some '}')
    (hlast : ∀ l ∈ (Text.lines a).getLast?, ¬ "//".toList <:+: l) :
    ∃ s, removeComments a = s ++ ['}'] ∧ ∀ b, removeComments (a ++ b) = s ++ '}' :: removeComments b := by
  obtain ⟨before, last, -, ha, hlines⟩ := Text.exists_lastLine a
  have hclosed : ∃ l, last = l ++ ['}'] := by
    rcases ha with rfl | rfl
    · exact List.getLast?_eq_some_iff.1 hend
    · rcases List.eq_nil_or_concat last with rfl | ⟨l, c, rfl⟩
      · rw [List.getLast?_concat] at hend
        cases hend
      · rw [List.concat_eq_append, ← List.cons_append, ← List.append_assoc, List.getLast?_concat] at hend
        cases hend
        exact ⟨l, List.concat_eq_append⟩
  obtain ⟨l, rfl⟩ := hclosed
  have hapart : SlashesApart l := by
    rw [slashesApart_iff]
    exact fun h => hlast _ hlines (h.trans (List.prefix_append l _).isInfix)
  have hrun : ∀ t, removeCommentsFrom false (l ++ '}' :: t) = l ++ '}' :: removeCommentsFrom false t :=
    removeCommentsFrom_append_cons hapart (by decide)
  rcases ha with rfl | rfl
  · exact ⟨l, hrun [], fun b => by rw [removeComments, List.append_assoc]; exact hrun b⟩
  · refine ⟨removeComments before ++ '\n' :: l, ?_, fun b => ?_⟩
    · rw [removeComments, removeCommentsFrom_append_newline, hrun, List.append_assoc]
      rfl
    · have hsplit : before ++ '\n' :: (l ++ ['}']) ++ b = before ++ '\n' :: (l ++ '}' :: b) := by
        simp
      simp [removeComments, hsplit, hrun]

/-! ### Blocks -/

/-- A text is cut at a brace into what comes before and what comes after it. -/
theorem exists_pieces_append (s : Text) {brace : Char} (h : isBrace brace = true) :
    ∃ ps before, ∀ t, pieces (s ++ brace :: t) = ps ++ (before, brace) :: pieces t := by
  induction s with
  | nil => exact ⟨[], [], fun t => by rw [List.nil_append, pieces, if_pos h, List.nil_append]⟩
  | cons c s ih =>
    obtain ⟨ps, before, hps⟩ := ih
    by_cases hc : isBrace c = true
    · refine ⟨([], c) :: ps, before, fun t => ?_⟩
      rw [List.cons_append, pieces, if_pos hc, hps, List.cons_append]
    · cases ps with
      | nil =>
        refine ⟨[], c :: before, fun t => ?_⟩
        rw [List.cons_append, pieces, if_neg hc, hps]
        rfl
      | cons p ps =>
        refine ⟨(c :: p.1, p.2) :: ps, before, fun t => ?_⟩
        rw [List.cons_append, pieces, if_neg hc, hps]
        rfl

/-- Behind a closing brace the innermost blocks begin anew. -/
theorem innermost_append_closing (ps : List (Text × Char)) (before : Text) (qs : List (Text × Char)) :
    innermost (ps ++ (before, '}') :: qs) = innermost (ps ++ [(before, '}')]) ++ innermost qs := by
  induction ps with
  | nil => exact innermost_closing before qs
  | cons p ps ih =>
    have hcons : ∀ p q : Text × Char, ∀ rest, innermost (p :: q :: rest) =
        (innermost? p q).toList ++ innermost (q :: rest) := by
      intro p q rest
      rw [innermost, List.tail_cons, List.zip_cons_cons, List.filterMap_cons]
      cases innermost? p q <;> rfl
    cases ps with
    | nil =>
      rw [List.nil_append, List.nil_append] at ih
      rw [List.singleton_append, List.singleton_append, hcons, hcons, ih, List.append_assoc]
    | cons q ps =>
      rw [List.cons_append, List.cons_append] at ih
      simp only [List.cons_append, hcons p q, ih, List.append_assoc]

theorem Reads.append {ps qs : List (Text × Text)} {bs cs : List Block} (h : Reads ps bs)
    (h' : Reads qs cs) : Reads (ps ++ qs) (bs ++ cs) := by
  induction h with
  | done => exact h'
  | ignored hnone _ ih => exact .ignored hnone ih
  | block hsome _ ih => exact .block hsome ih

/-- **The blocks of a text that ends with a closing brace, and of what follows it**, are found apart. -/
theorem blocks_append (s t : Text) : blocks (s ++ '}' :: t) = blocks (s ++ ['}']) ++ blocks t := by
  obtain ⟨ps, before, hps⟩ := @exists_pieces_append s '}' rfl
  have hfirst := reads_blocks (s ++ ['}'])
  have hboth := reads_blocks (s ++ '}' :: t)
  rw [hps, innermost_append_closing] at hboth
  rw [hps] at hfirst
  exact hboth.unique (hfirst.append (reads_blocks t))

end StyleSheet

/-! ### Dictionaries written over one another -/

namespace Dict

variable {κ ν : Type} [DecidableEq κ]

/-- A dictionary `d` with `e` written over it: the keys of `d` come first and then the new ones of `e`, each in
their order, and under a key of `e` stands what `e` has there. -/
structure IsOverlay (d e result : Dict κ ν) : Prop where
  keys : result.keys = d.keys ++ e.keys.filter fun k => decide (k ∉ d.keys)
  get? : ∀ k, result.get? k = (e.get? k).or (d.get? k)

theorem isOverlay_overlay (d e : Dict κ ν) : IsOverlay d e (d.overlay e) where
  keys := by
    have hnodup : (e.keys.filter fun k => decide (k ∉ d.keys)).Nodup := e.nodup.filter _
    rw [keys_overlay, foldl_addKey, eraseDups_eq_foldl, foldl_addKey_of_nodup hnodup, List.nil_append]
  get? := get?_overlay d e

/-- Writing a value under a key comes after writing the dictionaries over one another. -/
@[simp] theorem overlay_set (d e : Dict κ ν) (k : κ) (v : ν) : d.overlay (e.set k v) = (d.overlay e).set k v := by
  apply ext_get?
  · by_cases hk : k ∈ e.keys <;> simp [hk, addKey]
  · intro k'
    by_cases hk : k = k' <;> simp [hk]

end Dict

/-! ### Styles written over one another -/

namespace Style

variable (w : Whitelists)

/-- The rules of a style written over those of another. A rule replaces the one of its name whole. -/
def overlay (s t : Style) : Style where
  paragraph := s.paragraph.overlay t.paragraph
  span := s.span.overlay t.span
  container := t.container.or s.container

/-- A style `s` with `t` written over it: in every namespace the rules of `t` replace those of `s`. -/
structure IsOverlay (s t result : Style) : Prop where
  paragraph : Dict.IsOverlay s.paragraph t.paragraph result.paragraph
  span : Dict.IsOverlay s.span t.span result.span
  container : result.container = t.container.or s.container

theorem isOverlay_overlay (s t : Style) : IsOverlay s t (s.overlay t) where
  paragraph := Dict.isOverlay_overlay _ _
  span := Dict.isOverlay_overlay _ _
  container := rfl

@[simp] theorem overlay_addBlock (s t : Style) (b : Block) :
    s.overlay (addBlock w t b) = addBlock w (s.overlay t) b := by
  rw [addBlock, addBlock]
  cases b.header with
  | paragraph name => simp [overlay]
  | span opening closer => simp [overlay]
  | container => rfl

/-- Blocks read after others set rules that are written over theirs. -/
theorem foldl_addBlock_eq_overlay (bs : List Block) (s : Style) :
    bs.foldl (addBlock w) s = s.overlay (bs.foldl (addBlock w) empty) := by
  have hempty : s.overlay empty = s := by
    rw [overlay]
    rfl
  rw [← List.foldl_hom s.overlay fun t b => (overlay_addBlock w s t b).symm, hempty]

/-- **The style of two sheets, one after the other, is that of the second written over that of the first**, if the
first ends with a closing brace and its last line has no comment. -/
theorem isOverlay_ofSheet_append {a : Text} (hend : a.getLast? = some '}')
    (hlast : ∀ l ∈ (Text.lines a).getLast?, ¬ "//".toList <:+: l) (b : Text) :
    IsOverlay (ofSheet w a) (ofSheet w b) (ofSheet w (a ++ b)) := by
  obtain ⟨s, ha, hboth⟩ := StyleSheet.removeComments_append hend hlast
  have hsheet : ofSheet w (a ++ b) = (ofSheet w a).overlay (ofSheet w b) := by
    rw [ofSheet, hboth, StyleSheet.blocks_append, ← ha, List.foldl_append, foldl_addBlock_eq_overlay]
    rfl
  rw [hsheet]
  exact isOverlay_overlay _ _

/-- A block without its closing brace in the first sheet, a closing brace too many in the second, and a paragraph
rule that both have. -/
theorem isOverlay_ofSheet_append_broken :
    "p x \x7bcolor: red;\x7d // p z \x7b\x7d\np y \x7b s * \x7b\x7d".toList.getLast? = some '}' ∧
    (∀ l ∈ (Text.lines "p x \x7bcolor: red;\x7d // p z \x7b\x7d\np y \x7b s * \x7b\x7d".toList).getLast?,
      ¬ "//".toList <:+: l) ∧
    IsOverlay
      (ofSheet ⟨.ofPatterns ["*".toList], .ofPatterns [], .ofPatterns []⟩
        "p x \x7bcolor: red;\x7d // p z \x7b\x7d\np y \x7b s * \x7b\x7d".toList)
      (ofSheet ⟨.ofPatterns ["*".toList], .ofPatterns [], .ofPatterns []⟩
        "\x7d p x \x7bfont: serif;\x7d cont \x7b\x7d".toList)
      (ofSheet ⟨.ofPatterns ["*".toList], .ofPatterns [], .ofPatterns []⟩
        ("p x \x7bcolor: red;\x7d // p z \x7b\x7d\np y \x7b s * \x7b\x7d".toList ++
          "\x7d p x \x7bfont: serif;\x7d cont \x7b\x7d".toList)) := by
  refine ⟨?hend, ?hlast, isOverlay_ofSheet_append _ ?hend ?hlast _⟩
  case hend => decide +kernel
  case hlast => decide +kernel

end Style

end ProseMarkup
