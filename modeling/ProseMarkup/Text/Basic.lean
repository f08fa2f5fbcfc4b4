/-!
# Texts

A text is a sequence of code points; every position and length in this library counts code points.

* `Text.find?`, `Text.findFrom?` : the first place where one text occurs in another.
* `Text.trim` : a text without the leading and trailing characters of a class.
* `Text.lines`, `Text.joinWith` : cutting a text at its newlines, and joining pieces again.
* `Text.isAsciiBlank`, `Text.isBlank` : the two classes of blank characters. A style sheet is divided
  by the six blanks of ASCII; lines of prose and property values are trimmed of every blank of
  Unicode (`Text.strip`).

Main statements: `find?` answers a position at which the needle fits (`find?_add_length_le`), and
joining the lines of a text with newlines gives the text back (`joinWith_lines`).
-/

namespace ProseMarkup

/-- A sequence of code points. -/
abbrev Text := List Char

namespace Text

/-! ### Searching -/

/-- The first position at which `needle` begins in a text; an empty needle begins at once. -/
def find? (needle : Text) : Text → Option Nat
  | [] => if needle.isEmpty then some 0 else none
  | c :: s => if needle.isPrefixOf (c :: s) then some 0 else (find? needle s).map (· + 1)

/-- The first position at or after `start` at which `needle` begins; there is none past the end. -/
def findFrom? (needle s : Text) (start : Nat) : Option Nat :=
  if start ≤ s.length then (find? needle (s.drop start)).map (· + start) else none

/-- Whether `needle` occurs somewhere in a text. -/
def hasInfix (needle s : Text) : Bool :=
  (find? needle s).isSome

/-- The needle fits into the text at the position found. -/
theorem find?_add_length_le {needle s : Text} {i : Nat} (h : find? needle s = some i) :
    i + needle.length ≤ s.length := by
  induction s generalizing i with
  | nil =>
    cases needle with
    | nil => simp [find?] at h; simp [← h]
    | cons c n => simp [find?] at h
  | cons c s ih =>
    rw [find?] at h
    split at h
    · next hp =>
      cases h
      have := (List.isPrefixOf_iff_prefix.1 hp).length_le
      omega
    · cases hf : find? needle s with
      | none => simp [hf] at h
      | some j =>
        simp only [hf, Option.map_some, Option.some.injEq] at h
        have := ih hf
        simp only [List.length_cons]
        omega

/-- A search from `start` answers no position before `start`, and the needle fits there. -/
theorem findFrom?_bounds {needle s : Text} {start i : Nat}
    (h : findFrom? needle s start = some i) : start ≤ i ∧ i + needle.length ≤ s.length := by
  rw [findFrom?] at h
  split at h
  · next hle =>
    cases hf : find? needle (s.drop start) with
    | none => simp [hf] at h
    | some j =>
      simp only [hf, Option.map_some, Option.some.injEq] at h
      have := find?_add_length_le hf
      rw [List.length_drop] at this
      omega
  · simp at h

/-! ### Trimming -/

/-- A text without its longest head of characters in `blank`, and without its longest such tail. -/
def trim (blank : Char → Bool) (s : Text) : Text :=
  ((s.dropWhile blank).reverse.dropWhile blank).reverse

/-! ### Lines -/

/-- The pieces between the newlines of a text; there is always at least one. -/
def lines : Text → List Text
  | [] => [[]]
  | c :: s =>
    if c = '\n' then [] :: lines s
    else match lines s with
      | [] => [[c]]
      | l :: ls => (c :: l) :: ls

/-- The pieces in order, with `separator` between each two neighbours. -/
def joinWith (separator : Text) : List Text → Text
  | [] => []
  | [l] => l
  | l :: ls => l ++ separator ++ joinWith separator ls

theorem lines_ne_nil (s : Text) : lines s ≠ [] := by
  cases s with
  | nil => simp [lines]
  | cons c s =>
    rw [lines]
    split
    · simp
    · split <;> simp

@[simp] theorem joinWith_lines (s : Text) : joinWith ['\n'] (lines s) = s := by
  induction s with
  | nil => rfl
  | cons c s ih =>
    have hne := lines_ne_nil s
    rw [lines]
    split
    · next hc =>
      subst hc
      cases hl : lines s with
      | nil => exact absurd hl hne
      | cons l ls => rw [hl] at ih; simp [joinWith, ih]
    · cases hl : lines s with
      | nil => exact absurd hl hne
      | cons l ls =>
        rw [hl] at ih
        cases ls with
        | nil => simp only [joinWith] at ih ⊢; rw [ih]
        | cons l' ls => simp only [joinWith, List.cons_append] at ih ⊢; rw [ih]

/-! ### Blank characters -/

/-- Space, tab, newline, vertical tab, form feed and carriage return. -/
def isAsciiBlank (c : Char) : Bool :=
  c = ' ' || (9 ≤ c.toNat && c.toNat ≤ 13)

/-- The code point ranges of the characters of Unicode that are separators of words, lines or
paragraphs: the property `White_Space`, and the four information separators of ASCII. -/
def blankRanges : List (Nat × Nat) :=
  [(0x09, 0x0D), (0x1C, 0x20), (0x85, 0x85), (0xA0, 0xA0), (0x1680, 0x1680), (0x2000, 0x200A),
    (0x2028, 0x2029), (0x202F, 0x202F), (0x205F, 0x205F), (0x3000, 0x3000)]

/-- Whether a character is blank. -/
def isBlank (c : Char) : Bool :=
  blankRanges.any fun r => r.1 ≤ c.toNat && c.toNat ≤ r.2

/-- A text without its leading and trailing blanks. -/
def strip (s : Text) : Text :=
  s.trim isBlank

end Text

end ProseMarkup
