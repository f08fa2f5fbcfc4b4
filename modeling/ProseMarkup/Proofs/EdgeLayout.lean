import ProseMarkup.Proofs.ManuscriptSource

/-!
# The layout of edge matter

Lines are divided in one way only: front matter with the delimiters around it, the lines that remain, and back
matter with the delimiters around it. A delimiter belongs to one place, so the one that closes the front matter
does not open the back matter as well, and one that has no partner remains.

* `Lines.Encloses` : edge matter with the delimiters around it, or none.
* `Lines.EdgeLayout` : the division of lines.
* `Lines.splitFront_eq_iff`, `Lines.splitBack_eq_iff` : what is taken off at either end.
* `Lines.splitEdge_eq_iff` : **the edge matter and the lines that remain are those of the one division**.
-/

namespace ProseMarkup.Lines

variable {ls edge rest : List Text}

/-! ### One end -/

/-- Some lines between two delimiters, none of which is the delimiter; or no lines at all. -/
inductive Encloses : (enclosed matter : List Text) → Prop
  | nothing : Encloses [] []
  | matter {matter : List Text} (h : edgeDelimiter ∉ matter) :
      Encloses (edgeDelimiter :: (matter ++ [edgeDelimiter])) matter

theorem Encloses.reverse {enclosed matter : List Text} (h : Encloses enclosed matter) :
    Encloses enclosed.reverse matter.reverse := by
  cases h with
  | nothing => exact .nothing
  | matter h =>
    have hreverse := Encloses.matter fun hmem => h (List.mem_reverse.1 hmem)
    simpa using hreverse

/-- The first line is the delimiter, and so is a later one. -/
def BeginEnclosed (ls : List Text) : Prop :=
  ls.head? = some edgeDelimiter ∧ edgeDelimiter ∈ ls.tail

/-- The last of two or more lines is the delimiter, and so is an earlier one. -/
def EndEnclosed (ls : List Text) : Prop :=
  2 ≤ ls.length ∧ ls.getLast? = some edgeDelimiter ∧ edgeDelimiter ∈ ls.dropLast

theorem beginEnclosed_append (edge rest : List Text) :
    BeginEnclosed (edgeDelimiter :: (edge ++ edgeDelimiter :: rest)) :=
  ⟨rfl, List.mem_append_right edge List.mem_cons_self⟩

theorem exists_of_beginEnclosed (h : BeginEnclosed ls) :
    ∃ edge rest, edgeDelimiter ∉ edge ∧ ls = edgeDelimiter :: (edge ++ edgeDelimiter :: rest) := by
  obtain ⟨hhead, htail⟩ := h
  cases ls with
  | nil => cases hhead
  | cons l ls =>
    cases hhead
    obtain ⟨edge, rest, rfl, hedge⟩ := List.eq_append_cons_of_mem htail
    exact ⟨edge, rest, hedge, rfl⟩

theorem beginEnclosed_reverse : BeginEnclosed ls.reverse ↔ EndEnclosed ls := by
  rw [BeginEnclosed, EndEnclosed, List.head?_reverse, List.tail_reverse, List.mem_reverse]
  constructor
  · rintro ⟨hlast, hmem⟩
    have hlength := List.length_pos_of_mem hmem
    rw [List.length_dropLast] at hlength
    exact ⟨by omega, hlast, hmem⟩
  · exact fun h => h.2

/-- Front matter is taken off just if the lines begin with some. -/
theorem splitFront_eq_iff : splitFront ls = (edge, rest) ↔
    ∃ front, Encloses front edge ∧ ls = front ++ rest ∧ (front ≠ [] ↔ BeginEnclosed ls) := by
  constructor
  · intro h
    by_cases hbegin : BeginEnclosed ls
    · obtain ⟨matter, after, hmatter, rfl⟩ := exists_of_beginEnclosed hbegin
      rw [splitFront_enclosed hmatter] at h
      cases h
      exact ⟨_, .matter hmatter, by simp, fun _ => hbegin, fun _ => List.cons_ne_nil _ _⟩
    · obtain hnone | ⟨matter, after, rfl, -, -⟩ := splitFront_cases ls
      · rw [hnone] at h
        cases h
        exact ⟨[], .nothing, rfl, fun hne => absurd rfl hne, fun h => absurd h hbegin⟩
      · exact absurd (beginEnclosed_append matter after) hbegin
  · rintro ⟨front, henclosed, rfl, hfront⟩
    cases henclosed with
    | nothing =>
      have hnot : ¬ BeginEnclosed rest := fun h => hfront.2 h rfl
      obtain hnone | ⟨matter, after, rfl, -, -⟩ := splitFront_cases rest
      · exact hnone
      · exact absurd (beginEnclosed_append matter after) hnot
    | matter h =>
      rw [List.cons_append, List.append_assoc]
      exact splitFront_enclosed h rest

/-- Back matter is taken off just if the lines end with some. -/
theorem splitBack_eq_iff : splitBack ls = (edge, rest) ↔
    ∃ back, Encloses back edge ∧ ls = rest ++ back ∧ (back ≠ [] ↔ EndEnclosed ls) := by
  have hreverse : splitBack ls = (edge, rest) ↔ splitFront ls.reverse = (edge.reverse, rest.reverse) := by
    rw [splitBack, Prod.ext_iff, Prod.ext_iff]
    exact and_congr List.reverse_eq_iff List.reverse_eq_iff
  rw [hreverse, splitFront_eq_iff, beginEnclosed_reverse]
  constructor
  · rintro ⟨front, henclosed, hls, hfront⟩
    refine ⟨front.reverse, ?_, ?_, ?_⟩
    · have hback := henclosed.reverse
      rwa [List.reverse_reverse] at hback
    · rw [List.reverse_eq_iff, List.reverse_append, List.reverse_reverse] at hls
      exact hls
    · rwa [ne_eq, List.reverse_eq_nil_iff]
  · rintro ⟨back, henclosed, rfl, hback⟩
    refine ⟨back.reverse, henclosed.reverse, List.reverse_append, ?_⟩
    rwa [ne_eq, List.reverse_eq_nil_iff]

/-! ### Both ends -/

/-- The division of lines into front matter, the lines that remain, and back matter. There is front matter just if
the first line is the delimiter and a later one is, and back matter just if, of what follows the front matter, the
last line is the delimiter and an earlier one is. -/
structure EdgeLayout (lines front frontMatter remaining back backMatter : List Text) : Prop where
  encloses_front : Encloses front frontMatter
  encloses_back : Encloses back backMatter
  lines_eq : lines = front ++ remaining ++ back
  front_ne_nil_iff : front ≠ [] ↔ BeginEnclosed lines
  back_ne_nil_iff : back ≠ [] ↔ EndEnclosed (remaining ++ back)

/-- **The edge matter and the lines that remain are those of the one division** of the lines: there is one, and every
division leads to them. -/
theorem splitEdge_eq_iff (lines edge remaining : List Text) :
    splitEdge lines = (edge, remaining) ↔ ∃ front frontMatter back backMatter,
      EdgeLayout lines front frontMatter remaining back backMatter ∧ edge = frontMatter ++ backMatter := by
  constructor
  · intro h
    cases h
    obtain ⟨front, hfront, hlines, hfrontIff⟩ := splitFront_eq_iff.1 (Prod.eta (splitFront lines)).symm
    obtain ⟨back, hback, hmiddle, hbackIff⟩ := splitBack_eq_iff.1 (Prod.eta (splitBack (splitFront lines).2)).symm
    refine ⟨front, _, back, _, ⟨hfront, hback, ?_, hfrontIff, ?_⟩, rfl⟩
    · rw [List.append_assoc]
      exact hlines.trans (congrArg (front ++ ·) hmiddle)
    · exact hmiddle ▸ hbackIff
  · rintro ⟨front, frontMatter, back, backMatter, h, rfl⟩
    have hfront : splitFront lines = (frontMatter, remaining ++ back) :=
      splitFront_eq_iff.2 ⟨front, h.encloses_front, by rw [h.lines_eq, List.append_assoc], h.front_ne_nil_iff⟩
    have hback : splitBack (remaining ++ back) = (backMatter, remaining) :=
      splitBack_eq_iff.2 ⟨back, h.encloses_back, rfl, h.back_ne_nil_iff⟩
    rw [splitEdge, hfront]
    dsimp only
    rw [hback]

/-- Three delimiters: the second closes the front matter, and the third has no partner. -/
example : splitEdge [edgeDelimiter, "a".toList, edgeDelimiter, edgeDelimiter] = (["a".toList], [edgeDelimiter]) := by
  decide

end ProseMarkup.Lines
