import ProseMarkup.Style.Basic
import ProseMarkup.StyleSheet.Block
import ProseMarkup.Whitelist

/-!
# Properties, and the style of a sheet

The body of a block holds pairs of the form `key: value;`. Whatever does not have this form is passed
over, and so is a pair whose semicolon is missing. A permitted name is not enough: a value such as
`red; background: url(evil)` would carry a second declaration past the whitelist. So values are checked
on their own, whatever name they stand under.

* `PropertyValue.isSafe` : whether a text is harmless as a property value.
* `PropertyValue.isSafeValue` : the same of any value; only texts can be safe.
* `StyleSheet.pairAt?` : the pair that a text begins with.
* `StyleSheet.pairs` : all pairs of a text, in order.
* `StyleSheet.permittedProps` : the pairs that a whitelist permits, as a dictionary.
* `Style.ofSheet` : the style of a whole sheet, which is read block by block; each block replaces any
  earlier rule of its name. Reading never fails.

Main statement: a pair uses up some of the text (`length_lt_of_pairAt?`).
-/

namespace ProseMarkup

/-! ### Property values -/

namespace PropertyValue

/-- The printable characters of ASCII that end a value or a text, or escape what follows. -/
def delimiters : List Char :=
  ['"', '\'', ':', ';', '\\']

/-- Whether a character may occur in a property value: printable ASCII, and no delimiter. -/
def isSafeChar (c : Char) : Bool :=
  32 ≤ c.toNat && c.toNat ≤ 126 && !delimiters.contains c

/-- The beginning of a reference to another resource. -/
def resourceMark : Text := "url(".toList

/-- Whether a text is harmless as a property value: each of its characters is, and it refers to no
other resource, in any letter case. -/
def isSafe (s : Text) : Bool :=
  s.all isSafeChar && !Text.hasInfix resourceMark (s.map Char.toLower)

/-- Whether a value is a text that is harmless as a property value. -/
def isSafeValue : Value → Bool
  | .str s => isSafe s
  | _ => false

end PropertyValue

/-! ### Properties in the body of a block -/

namespace StyleSheet

/-- Letters and digits of ASCII, underscore and hyphen. -/
def isKeyChar (c : Char) : Bool :=
  c.isAlphanum || c = '_' || c = '-'

/-- Everything but the colon and the semicolon. -/
def isValueChar (c : Char) : Bool :=
  c ≠ ';' && c ≠ ':'

/-- The pair that a text begins with, its value stripped of blanks, and the text after it. -/
def pairAt? (s : Text) : Option ((Text × Text) × Text) :=
  let key := s.takeWhile isKeyChar
  if key.isEmpty then none
  else match (s.dropWhile isKeyChar).dropWhile Text.isAsciiBlank with
    | ':' :: t =>
      match t.dropWhile isValueChar with
      | ';' :: rest => some ((key, Text.strip (t.takeWhile isValueChar)), rest)
      | _ => none
    | _ => none

theorem length_lt_of_pairAt? {s rest : Text} {pair : Text × Text}
    (h : pairAt? s = some (pair, rest)) : rest.length < s.length := by
  rw [pairAt?.eq_def] at h
  simp only at h
  split at h
  · simp at h
  · split at h
    · next t ht =>
      split at h
      · next rest' hr =>
        simp only [Option.some.injEq, Prod.mk.injEq] at h
        have h₁ := (List.dropWhile_sublist Text.isAsciiBlank (l := s.dropWhile isKeyChar)).length_le
        have h₂ := (List.dropWhile_sublist isKeyChar (l := s)).length_le
        have h₃ := (List.dropWhile_sublist isValueChar (l := t)).length_le
        rw [ht, List.length_cons] at h₁
        rw [hr, List.length_cons, h.2] at h₃
        omega
      · simp at h
    · simp at h

/-- All pairs of a text, in order: at each place either a pair is taken whole or one character is
passed over. -/
def pairs : Text → List (Text × Text)
  | [] => []
  | c :: s =>
    match h : pairAt? (c :: s) with
    | some (pair, rest) =>
      have := length_lt_of_pairAt? h
      pair :: pairs rest
    | none => pairs s
termination_by s => s.length
decreasing_by
  · exact this
  · exact Nat.lt_succ_self _

/-- The properties that the body of a block sets: those with a permitted name and a safe value. Where
a name is repeated the latest such value prevails. -/
def permittedProps (body : Text) (w : Whitelist) : Dict Text Text :=
  (pairs body).foldl
    (fun props p => if w.permits p.1 && PropertyValue.isSafe p.2 then props.set p.1 p.2 else props)
    Dict.empty

end StyleSheet

/-! ### The style of a sheet -/

namespace Style

/-- A style with the rule of one more block, restricted to the properties that the whitelist of its
namespace permits. -/
def addBlock (w : Whitelists) (style : Style) (b : Block) : Style :=
  match b.header with
  | .paragraph name =>
    let rule : Rule := ⟨StyleSheet.permittedProps b.body w.paragraph⟩
    { style with paragraph := style.paragraph.set name rule }
  | .span opening closer =>
    let rule : SpanRule := ⟨StyleSheet.permittedProps b.body w.span, closer⟩
    { style with span := style.span.set opening rule }
  | .container => { style with container := some ⟨StyleSheet.permittedProps b.body w.container⟩ }

/-- The style of a sheet. -/
def ofSheet (w : Whitelists) (sheet : Text) : Style :=
  (StyleSheet.blocks (StyleSheet.removeComments sheet)).foldl (addBlock w) empty

end Style

end ProseMarkup
