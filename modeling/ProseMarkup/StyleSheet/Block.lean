import ProseMarkup.Text.Basic

/-!
# Blocks of a style sheet

A style sheet is a sequence of blocks, each a header and a body in braces:
`para NAME { … }`, `span OPENING { … }`, `span OPENING CLOSER { … }` or `cont { … }`, where `p` and
`s` may stand for `para` and `span`. What is no block is passed over; a block whose body has an
opening brace is given up, and reading goes on inside its body; without a closing brace all the rest
is given up. A comment begins with two slashes and runs up to, and not including, the next newline.

* `StyleSheet.removeComments` : a sheet without its comments.
* `Header` : what a header declares.
* `StyleSheet.headerAt?` : the header that a text begins with, up to and including its brace.
* `StyleSheet.findHeader?` : the first header of a text that begins at a word boundary.
* `StyleSheet.blocks` : the blocks of a text without comments.

Main statements: a header uses up some of the text (`length_lt_of_headerAt?`,
`length_lt_of_findHeader?`).
-/

namespace ProseMarkup

/-- What the header of a block declares. -/
inductive Header where
  | paragraph (name : Text)
  | span (opening : Text) (closer : Option Text)
  | container
deriving DecidableEq, Repr

/-- A header and the text between its braces. -/
structure Block where
  header : Header
  body : Text
deriving DecidableEq, Repr

namespace StyleSheet

/-! ### Comments -/

/-- A sheet without its comments; the flag says whether reading begins inside a comment. -/
def removeCommentsFrom : (inside : Bool) → Text → Text
  | _, [] => []
  | true, c :: s => if c = '\n' then '\n' :: removeCommentsFrom false s else removeCommentsFrom true s
  | false, c :: s =>
    if c = '/' ∧ s.head? = some '/' then removeCommentsFrom true s
    else c :: removeCommentsFrom false s

/-- A sheet without its comments. -/
def removeComments (sheet : Text) : Text :=
  removeCommentsFrom false sheet

/-! ### Headers -/

/-- Letters and digits of ASCII, and underscore. -/
def isWordChar (c : Char) : Bool :=
  c.isAlphanum || c = '_'

/-- Everything but braces and the blanks of ASCII. -/
def isNameChar (c : Char) : Bool :=
  c ≠ '{' && c ≠ '}' && !Text.isAsciiBlank c

/-- A text without its leading blanks. -/
def skipBlanks (s : Text) : Text :=
  s.dropWhile Text.isAsciiBlank

/-- What follows a keyword and the blanks after it, of which there must be one. -/
def afterKeyword? (keyword s : Text) : Option Text :=
  if keyword.isPrefixOf s then
    match s.drop keyword.length with
    | c :: t => if Text.isAsciiBlank c then some (skipBlanks t) else none
    | [] => none
  else none

/-- The name that a text begins with, as long as possible, and what follows it and the blanks after
it. -/
def nameAt? (s : Text) : Option (Text × Text) :=
  let name := s.takeWhile isNameChar
  if name.isEmpty then none else some (name, skipBlanks (s.dropWhile isNameChar))

/-- What follows the opening brace that a text begins with. -/
def afterBrace? : Text → Option Text
  | c :: s => if c = '{' then some s else none
  | [] => none

/-- The header of a paragraph rule. -/
def paragraphHeaderAt? (s : Text) : Option (Header × Text) := do
  let t ← (afterKeyword? "para".toList s).or (afterKeyword? "p".toList s)
  let (name, t) ← nameAt? t
  let rest ← afterBrace? t
  return (.paragraph name, rest)

/-- The header of a span rule. -/
def spanHeaderAt? (s : Text) : Option (Header × Text) := do
  let t ← (afterKeyword? "span".toList s).or (afterKeyword? "s".toList s)
  let (opening, t) ← nameAt? t
  match nameAt? t with
  | some (closer, t) =>
    let rest ← afterBrace? t
    return (.span opening (some closer), rest)
  | none =>
    let rest ← afterBrace? t
    return (.span opening none, rest)

/-- The header of the container rule. -/
def containerHeaderAt? (s : Text) : Option (Header × Text) :=
  if "cont".toList.isPrefixOf s then
    (afterBrace? (skipBlanks (s.drop 4))).map fun rest => (.container, rest)
  else none

/-- The header that a text begins with, and what follows its brace. -/
def headerAt? (s : Text) : Option (Header × Text) :=
  ((paragraphHeaderAt? s).or (spanHeaderAt? s)).or (containerHeaderAt? s)

/-- The first header of a text that begins at a word boundary, and what follows its brace. The flag
says whether a word character comes right before the text. -/
def findHeader? : (afterWord : Bool) → Text → Option (Header × Text)
  | _, [] => none
  | afterWord, c :: s =>
    match if afterWord then none else headerAt? (c :: s) with
    | some found => some found
    | none => findHeader? (isWordChar c) s

/-! ### Headers use up text -/

theorem length_skipBlanks_le (s : Text) : (skipBlanks s).length ≤ s.length :=
  (List.dropWhile_sublist _).length_le

theorem length_le_of_afterKeyword? {keyword s t : Text} (h : afterKeyword? keyword s = some t) :
    t.length ≤ s.length := by
  rw [afterKeyword?] at h
  split at h
  · split at h
    · next c u hu =>
      split at h
      · simp only [Option.some.injEq] at h
        have h₁ := length_skipBlanks_le u
        have h₂ : (s.drop keyword.length).length ≤ s.length := by
          rw [List.length_drop]; omega
        rw [hu, List.length_cons] at h₂
        rw [h] at h₁
        omega
      · simp at h
    · simp at h
  · simp at h

theorem length_le_of_nameAt? {s name t : Text} (h : nameAt? s = some (name, t)) :
    t.length ≤ s.length := by
  rw [nameAt?.eq_def] at h
  simp only at h
  split at h
  · simp at h
  · simp only [Option.some.injEq, Prod.mk.injEq] at h
    have h₁ := length_skipBlanks_le (s.dropWhile isNameChar)
    have h₂ : (s.dropWhile isNameChar).length ≤ s.length := (List.dropWhile_sublist _).length_le
    rw [h.2] at h₁
    omega

theorem length_lt_of_afterBrace? {s t : Text} (h : afterBrace? s = some t) :
    t.length < s.length := by
  cases s with
  | nil => simp [afterBrace?] at h
  | cons c s =>
    simp only [afterBrace?] at h
    split at h
    · simp only [Option.some.injEq] at h
      simp [h]
    · simp at h

theorem length_lt_of_headerAt? {s rest : Text} {header : Header}
    (h : headerAt? s = some (header, rest)) : rest.length < s.length := by
  have keywordLe : ∀ {long short t : Text},
      (afterKeyword? long s).or (afterKeyword? short s) = some t → t.length ≤ s.length := by
    intro long short t ht
    rw [Option.or_eq_some_iff] at ht
    rcases ht with ht | ⟨-, ht⟩ <;> exact length_le_of_afterKeyword? ht
  rw [headerAt?] at h
  rw [Option.or_eq_some_iff, Option.or_eq_some_iff] at h
  rcases h with (h | ⟨-, h⟩) | ⟨-, h⟩
  · simp only [paragraphHeaderAt?, Option.bind_eq_bind, Option.bind_eq_some_iff] at h
    obtain ⟨t, ht, ⟨name, u⟩, hu, v, hv, h⟩ := h
    have h₁ := keywordLe ht
    have h₂ : u.length ≤ t.length := length_le_of_nameAt? hu
    have h₃ : v.length < u.length := length_lt_of_afterBrace? hv
    simp only [Option.pure_def, Option.some.injEq, Prod.mk.injEq] at h
    rw [← h.2]
    omega
  · simp only [spanHeaderAt?, Option.bind_eq_bind, Option.bind_eq_some_iff] at h
    obtain ⟨t, ht, ⟨name, u⟩, hu, h⟩ := h
    have h₁ := keywordLe ht
    have h₂ : u.length ≤ t.length := length_le_of_nameAt? hu
    split at h
    · next closer v hc =>
      have h₃ : v.length ≤ u.length := length_le_of_nameAt? hc
      simp only [Option.bind_eq_some_iff] at h
      obtain ⟨w, hw, h⟩ := h
      have h₄ := length_lt_of_afterBrace? hw
      simp only [Option.pure_def, Option.some.injEq, Prod.mk.injEq] at h
      rw [← h.2]
      omega
    · simp only [Option.bind_eq_some_iff] at h
      obtain ⟨w, hw, h⟩ := h
      have h₄ : w.length < u.length := length_lt_of_afterBrace? hw
      simp only [Option.pure_def, Option.some.injEq, Prod.mk.injEq] at h
      rw [← h.2]
      omega
  · rw [containerHeaderAt?] at h
    split at h
    · simp only [Option.map_eq_some_iff] at h
      obtain ⟨w, hw, h⟩ := h
      have h₃ := length_lt_of_afterBrace? hw
      have h₄ := length_skipBlanks_le (s.drop 4)
      rw [List.length_drop] at h₄
      simp only [Prod.mk.injEq] at h
      rw [← h.2]
      omega
    · simp at h

theorem length_lt_of_findHeader? {s rest : Text} {afterWord : Bool} {header : Header}
    (h : findHeader? afterWord s = some (header, rest)) : rest.length < s.length := by
  induction s generalizing afterWord with
  | nil => simp [findHeader?] at h
  | cons c s ih =>
    rw [findHeader?] at h
    split at h
    · next found hf =>
      split at hf
      · simp at hf
      · rw [h] at hf
        exact length_lt_of_headerAt? hf
    · have := ih h
      simp only [List.length_cons]
      omega

/-! ### Blocks -/

/-- Whether a character is not the closing brace. -/
def isBodyChar (c : Char) : Bool :=
  c ≠ '}'

/-- The blocks of a text without comments, in order. -/
def blocks (s : Text) : List Block :=
  match hf : findHeader? false s with
  | none => []
  | some (header, t) =>
    have hlt := length_lt_of_findHeader? hf
    match hr : t.dropWhile isBodyChar with
    | [] => []
    | _ :: rest =>
      have hle : rest.length < t.length := by
        have := (List.dropWhile_sublist isBodyChar (l := t)).length_le
        rw [hr] at this
        exact this
      let body := t.takeWhile isBodyChar
      if body.contains '{' then blocks t else ⟨header, body⟩ :: blocks rest
termination_by s.length
decreasing_by
  · exact hlt
  · exact Nat.lt_trans hle hlt

end StyleSheet

end ProseMarkup
