import ProseMarkup.Proofs.DelimitedPairs

/-!
# Carriage returns before newlines

To the readers of style sheets a carriage return and a newline are blanks both, and no character of a name, a
keyword or a key. Whether one or more carriage returns stand right before a newline is therefore of no account
to them: what they read of a text is what they read of the text without these, and is itself without them.

* `Text.withoutReturns` : a text without the carriage returns right before its newlines.
* `Text.takeWhile_withoutReturns`, `Text.dropWhile_withoutReturns`, `Text.strip_withoutReturns` : what is
  read and trimmed, if the class does not tell the two characters apart.
* `StyleSheet.headerAt?_withoutReturns`, `StyleSheet.pairAt?_withoutReturns` : the two readers.
* `StyleSheet.blocks_withoutReturns` : **the blocks of a text**; `StyleSheet.pairs_withoutReturns` : **the
  pairs of a body**.
-/

namespace ProseMarkup

namespace Text

/-! ### Leaving carriage returns out -/

/-- A character before a text, unless it is a carriage return before a newline. -/
def consReturn (c : Char) (s : Text) : Text :=
  if c = '\r' ∧ s.head? = some '\n' then s else c :: s

/-- A text without the carriage returns that stand right before a newline, one or several. -/
def withoutReturns (s : Text) : Text :=
  s.foldr consReturn []

variable {c : Char} {s t : Text}

theorem withoutReturns_cons (c : Char) (s : Text) :
    withoutReturns (c :: s) = consReturn c (withoutReturns s) := rfl

theorem consReturn_cases (c : Char) (s : Text) :
    (c = '\r' ∧ (∃ t, s = '\n' :: t) ∧ consReturn c s = s) ∨ consReturn c s = c :: s := by
  rw [consReturn]
  split
  · next h => exact .inl ⟨h.1, List.head?_eq_some_iff.1 h.2, rfl⟩
  · exact .inr rfl

theorem withoutReturns_cons_of_ne (hc : c ≠ '\r') (s : Text) :
    withoutReturns (c :: s) = c :: withoutReturns s :=
  (withoutReturns_cons c s).trans (if_neg fun h => hc h.1)

theorem withoutReturns_return_newline (s : Text) :
    withoutReturns ('\r' :: '\n' :: s) = withoutReturns ('\n' :: s) := by
  rw [withoutReturns_cons, withoutReturns_cons_of_ne (by decide)]
  exact if_pos ⟨rfl, rfl⟩

theorem withoutReturns_append (h : '\r' ∉ s) (t : Text) :
    withoutReturns (s ++ t) = s ++ withoutReturns t := by
  induction s with
  | nil => rfl
  | cons c s ih =>
    rw [List.mem_cons, not_or] at h
    rw [List.cons_append, withoutReturns_cons_of_ne (Ne.symm h.1), ih h.2, List.cons_append]

theorem withoutReturns_of_not_mem (h : '\r' ∉ s) : withoutReturns s = s := by
  have happend := withoutReturns_append h []
  rwa [List.append_nil, show withoutReturns [] = [] from rfl, List.append_nil] at happend

/-- A text that goes on with a character that is neither of the two did so before. -/
theorem withoutReturns_eq_cons_iff (hreturn : c ≠ '\r') (hnewline : c ≠ '\n') :
    withoutReturns s = c :: t ↔ ∃ u, s = c :: u ∧ withoutReturns u = t := by
  cases s with
  | nil =>
    constructor
    · intro h
      cases h
    · rintro ⟨u, h, -⟩
      cases h
  | cons d s =>
    rw [withoutReturns_cons]
    obtain ⟨rfl, ⟨v, hv⟩, h⟩ | h := consReturn_cases d (withoutReturns s)
    · rw [h, hv]
      constructor
      · intro heq
        exact absurd (List.cons.inj heq).1 (Ne.symm hnewline)
      · rintro ⟨u, heq, -⟩
        exact absurd (List.cons.inj heq).1 (Ne.symm hreturn)
    · rw [h, List.cons.injEq]
      constructor
      · rintro ⟨rfl, rfl⟩
        exact ⟨s, rfl, rfl⟩
      · rintro ⟨u, heq, rfl⟩
        cases heq
        exact ⟨rfl, rfl⟩

/-- Only carriage returns are left out. -/
theorem mem_withoutReturns (hc : c ≠ '\r') : c ∈ withoutReturns s ↔ c ∈ s := by
  induction s with
  | nil => exact Iff.rfl
  | cons d s ih =>
    rw [withoutReturns_cons]
    obtain ⟨rfl, -, h⟩ | h := consReturn_cases d (withoutReturns s)
    · rw [h, ih, List.mem_cons, or_iff_right hc]
    · rw [h, List.mem_cons, List.mem_cons, ih]

/-- Nothing is left out unless there is a newline. -/
theorem withoutReturns_eq_or_mem (s : Text) : withoutReturns s = s ∨ '\n' ∈ s := by
  induction s with
  | nil => exact .inl rfl
  | cons c s ih =>
    rcases ih with ih | ih
    · rw [withoutReturns_cons, ih]
      obtain ⟨-, ⟨t, rfl⟩, -⟩ | h := consReturn_cases c s
      · exact .inr (List.mem_cons_of_mem c List.mem_cons_self)
      · exact .inl h
    · exact .inr (List.mem_cons_of_mem c ih)

/-! ### Runs of a class -/

section Class

variable {p : Char → Bool}

theorem head?_withoutReturns (hp : p '\r' = p '\n') (s : Text) :
    (withoutReturns s).head?.any p = s.head?.any p := by
  cases s with
  | nil => rfl
  | cons c s =>
    rw [withoutReturns_cons]
    obtain ⟨rfl, ⟨t, ht⟩, h⟩ | h := consReturn_cases c (withoutReturns s)
    · rw [h, ht]
      exact hp.symm
    · rw [h]
      rfl

theorem all_withoutReturns (hp : p '\r' = p '\n') (s : Text) : (withoutReturns s).all p = s.all p := by
  induction s with
  | nil => rfl
  | cons c s ih =>
    rw [withoutReturns_cons, List.all_cons]
    obtain ⟨rfl, ⟨t, ht⟩, h⟩ | h := consReturn_cases c (withoutReturns s)
    · rw [h, ← ih, ht, List.all_cons, hp, Bool.and_self_left]
    · rw [h, List.all_cons, ih]

/-- A character before the beginning of a text: it stands there if it does before all of the text. -/
theorem consReturn_beginning (ht : t <+: s) (h : consReturn c s = c :: s) : consReturn c t = c :: t := by
  obtain ⟨rfl, ⟨u, rfl⟩, -⟩ | h' := consReturn_cases c t
  · obtain ⟨rest, rfl⟩ := ht
    have hlength : (consReturn '\r' ('\n' :: u ++ rest)).length = ('\n' :: u ++ rest).length := rfl
    rw [h, List.length_cons] at hlength
    omega
  · exact h'

theorem takeWhile_withoutReturns (hp : p '\r' = p '\n') (s : Text) :
    (withoutReturns s).takeWhile p = withoutReturns (s.takeWhile p) := by
  induction s with
  | nil => rfl
  | cons c s ih =>
    rw [withoutReturns_cons, List.takeWhile_cons]
    obtain ⟨rfl, ⟨t, ht⟩, h⟩ | h := consReturn_cases c (withoutReturns s)
    · rw [h]
      split
      · next hc =>
        rw [withoutReturns_cons, ← ih, ht, List.takeWhile_cons, ← hp, hc]
        rfl
      · next hc => rw [ht, List.takeWhile_cons, ← hp, if_neg hc]; rfl
    · rw [h, List.takeWhile_cons]
      split
      · rw [withoutReturns_cons, ← ih, consReturn_beginning (List.takeWhile_prefix p) h]
      · rfl

theorem dropWhile_withoutReturns (hp : p '\r' = p '\n') (s : Text) :
    (withoutReturns s).dropWhile p = withoutReturns (s.dropWhile p) := by
  induction s with
  | nil => rfl
  | cons c s ih =>
    rw [withoutReturns_cons, List.dropWhile_cons]
    obtain ⟨rfl, ⟨t, ht⟩, h⟩ | h := consReturn_cases c (withoutReturns s)
    · split
      · rw [h, ih]
      · next hc => rw [withoutReturns_cons, h, ht, List.dropWhile_cons, ← hp, if_neg hc]
    · rw [h, List.dropWhile_cons]
      split
      · exact ih
      · rw [withoutReturns_cons, h]

/-- A run of a class that neither of the two characters is in. -/
theorem takeWhile_withoutReturns_of_not (hreturn : p '\r' = false) (hnewline : p '\n' = false) (s : Text) :
    (withoutReturns s).takeWhile p = s.takeWhile p := by
  rw [takeWhile_withoutReturns (hreturn.trans hnewline.symm), withoutReturns_of_not_mem]
  intro hmem
  rw [List.all_eq_true.1 List.all_takeWhile _ hmem] at hreturn
  cases hreturn

/-! ### Trimming -/

theorem rdropWhile_withoutReturns (hreturn : p '\r' = true) (hnewline : p '\n' = true) (s : Text) :
    (withoutReturns s).rdropWhile p = withoutReturns (s.rdropWhile p) := by
  have hall := all_withoutReturns (hreturn.trans hnewline.symm)
  induction s with
  | nil => rfl
  | cons c s ih =>
    by_cases hs : s.all p = true
    · have hone : ∀ {t : Text}, t.all p = true → (c :: t).rdropWhile p = if p c then [] else [c] :=
        fun ht => (StyleSheet.rdropWhile_append_of_all ht [c]).trans (List.rdropWhile_singleton p c)
      rw [withoutReturns_cons, hone hs]
      obtain ⟨rfl, -, h⟩ | h := consReturn_cases c (withoutReturns s)
      · rw [h, hreturn, if_pos rfl]
        exact List.rdropWhile_eq_nil_iff.2 (List.all_eq_true.1 ((hall s).trans hs))
      · rw [h, hone ((hall s).trans hs)]
        split
        · rfl
        · exact (consReturn_beginning (List.nil_prefix) h).symm
    · rw [withoutReturns_cons, StyleSheet.rdropWhile_cons_of_not_all hs, withoutReturns_cons, ← ih]
      rw [← hall s] at hs
      obtain ⟨rfl, ⟨t, ht⟩, h⟩ | h := consReturn_cases c (withoutReturns s)
      · rw [ht, List.all_cons, hnewline, Bool.true_and] at hs
        rw [h, ht, StyleSheet.rdropWhile_cons_of_not_all hs]
        rfl
      · rw [h, StyleSheet.rdropWhile_cons_of_not_all hs, consReturn_beginning (List.rdropWhile_prefix p _) h]

/-- A text is trimmed after carriage returns have been left out as before. -/
@[simp] theorem strip_withoutReturns (s : Text) : strip (withoutReturns s) = withoutReturns (strip s) := by
  have hreturn : isBlank '\r' = true := by decide
  have hnewline : isBlank '\n' = true := by decide
  rw [strip, strip, trim_eq, trim_eq, dropWhile_withoutReturns (hreturn.trans hnewline.symm),
    rdropWhile_withoutReturns hreturn hnewline]

end Class

end Text

/-- A block without the carriage returns right before the newlines of its body. -/
def Block.withoutReturns (b : Block) : Block :=
  { b with body := Text.withoutReturns b.body }

namespace StyleSheet

open Text (isAsciiBlank consReturn_cases withoutReturns withoutReturns_append withoutReturns_cons
  withoutReturns_cons_of_ne)

/-! ### Headers -/

@[simp] theorem skipBlanks_withoutReturns (s : Text) :
    skipBlanks (withoutReturns s) = withoutReturns (skipBlanks s) :=
  Text.dropWhile_withoutReturns rfl s

/-- A keyword that neither of the two characters is in. -/
theorem isPrefixOf_withoutReturns {keyword : Text} (hreturn : '\r' ∉ keyword) (hnewline : '\n' ∉ keyword)
    (s : Text) : keyword.isPrefixOf (withoutReturns s) = keyword.isPrefixOf s := by
  induction keyword generalizing s with
  | nil => rfl
  | cons k keyword ih =>
    rw [List.mem_cons, not_or] at hreturn hnewline
    cases s with
    | nil => rfl
    | cons c s =>
      rw [withoutReturns_cons]
      obtain ⟨rfl, ⟨t, ht⟩, h⟩ | h := consReturn_cases c (withoutReturns s)
      · have hk : (k == '\n') = false := beq_false_of_ne (Ne.symm hnewline.1)
        have hk' : (k == '\r') = false := beq_false_of_ne (Ne.symm hreturn.1)
        rw [h, ht, List.isPrefixOf_cons_cons, List.isPrefixOf_cons_cons, hk, hk']
        rfl
      · rw [h, List.isPrefixOf_cons_cons, List.isPrefixOf_cons_cons, ih hreturn.2 hnewline.2]

/-- What follows a keyword, if it is there. -/
theorem drop_withoutReturns {keyword s : Text} (hreturn : '\r' ∉ keyword)
    (h : keyword.isPrefixOf s = true) :
    (withoutReturns s).drop keyword.length = withoutReturns (s.drop keyword.length) := by
  obtain ⟨t, rfl⟩ := List.isPrefixOf_iff_prefix.1 h
  rw [withoutReturns_append hreturn, List.drop_left, List.drop_left]

theorem afterKeyword?_eq (keyword s : Text) :
    afterKeyword? keyword s =
      if keyword.isPrefixOf s = true ∧ (s.drop keyword.length).head?.any isAsciiBlank = true then
        some (skipBlanks (s.drop keyword.length))
      else none := by
  rw [afterKeyword?]
  split
  · next hkeyword =>
    cases hs : s.drop keyword.length with
    | nil => exact (if_neg fun h => by cases h.2).symm
    | cons c t =>
      dsimp only
      by_cases hc : isAsciiBlank c = true
      · have hskip : skipBlanks (c :: t) = skipBlanks t := List.dropWhile_cons_of_pos hc
        rw [if_pos hc, if_pos ⟨hkeyword, hc⟩, hskip]
      · rw [if_neg hc, if_neg fun h => hc h.2]
  · next hkeyword => rw [if_neg fun h => hkeyword h.1]

theorem afterKeyword?_withoutReturns {keyword : Text} (hreturn : '\r' ∉ keyword) (hnewline : '\n' ∉ keyword)
    (s : Text) : afterKeyword? keyword (withoutReturns s) = (afterKeyword? keyword s).map withoutReturns := by
  rw [afterKeyword?_eq, afterKeyword?_eq, isPrefixOf_withoutReturns hreturn hnewline]
  by_cases hkeyword : keyword.isPrefixOf s = true
  · rw [drop_withoutReturns hreturn hkeyword, Text.head?_withoutReturns rfl, skipBlanks_withoutReturns]
    split
    · rfl
    · rfl
  · rw [if_neg fun h => hkeyword h.1, if_neg fun h => hkeyword h.1]
    rfl

@[simp] theorem nameAt?_withoutReturns (s : Text) :
    nameAt? (withoutReturns s) = (nameAt? s).map (Prod.map id withoutReturns) := by
  rw [nameAt?, nameAt?, Text.takeWhile_withoutReturns_of_not rfl rfl, Text.dropWhile_withoutReturns rfl,
    skipBlanks_withoutReturns]
  split
  · rfl
  · rfl

@[simp] theorem afterBrace?_withoutReturns (s : Text) :
    afterBrace? (withoutReturns s) = (afterBrace? s).map withoutReturns := by
  apply Option.ext
  intro t
  rw [afterBrace?_iff, Text.withoutReturns_eq_cons_iff (by decide) (by decide), Option.map_eq_some_iff]
  simp only [afterBrace?_iff]

/-- One of two keywords. -/
theorem eitherKeyword_withoutReturns {long short : Text} (hlong : '\r' ∉ long ∧ '\n' ∉ long)
    (hshort : '\r' ∉ short ∧ '\n' ∉ short) (s : Text) :
    (afterKeyword? long (withoutReturns s)).or (afterKeyword? short (withoutReturns s)) =
      ((afterKeyword? long s).or (afterKeyword? short s)).map withoutReturns := by
  rw [afterKeyword?_withoutReturns hlong.1 hlong.2, afterKeyword?_withoutReturns hshort.1 hshort.2,
    Option.map_or]

/-- The brace that ends a header. -/
theorem braced_withoutReturns (header : Header) (s : Text) :
    ((afterBrace? (withoutReturns s)).bind fun rest => some (header, rest)) =
      ((afterBrace? s).bind fun rest => some (header, rest)).map (Prod.map id withoutReturns) := by
  rw [afterBrace?_withoutReturns]
  cases afterBrace? s with
  | none => rfl
  | some rest => rfl

@[simp] theorem paragraphHeaderAt?_withoutReturns (s : Text) :
    paragraphHeaderAt? (withoutReturns s) = (paragraphHeaderAt? s).map (Prod.map id withoutReturns) := by
  rw [paragraphHeaderAt?, paragraphHeaderAt?, eitherKeyword_withoutReturns (by decide) (by decide)]
  cases (afterKeyword? "para".toList s).or (afterKeyword? "p".toList s) with
  | none => rfl
  | some t =>
    simp only [Option.map_some, Option.bind_eq_bind, Option.bind_some, nameAt?_withoutReturns]
    cases nameAt? t with
    | none => rfl
    | some named => exact braced_withoutReturns (.paragraph named.1) named.2

@[simp] theorem spanHeaderAt?_withoutReturns (s : Text) :
    spanHeaderAt? (withoutReturns s) = (spanHeaderAt? s).map (Prod.map id withoutReturns) := by
  rw [spanHeaderAt?, spanHeaderAt?, eitherKeyword_withoutReturns (by decide) (by decide)]
  cases (afterKeyword? "span".toList s).or (afterKeyword? "s".toList s) with
  | none => rfl
  | some t =>
    simp only [Option.map_some, Option.bind_eq_bind, Option.bind_some, nameAt?_withoutReturns]
    cases nameAt? t with
    | none => rfl
    | some named =>
      simp only [Option.map_some, Option.bind_some, Prod.map_fst, Prod.map_snd, nameAt?_withoutReturns]
      cases nameAt? named.2 with
      | none => exact braced_withoutReturns (.span named.1 none) named.2
      | some closing => exact braced_withoutReturns (.span named.1 (some closing.1)) closing.2

@[simp] theorem containerHeaderAt?_withoutReturns (s : Text) :
    containerHeaderAt? (withoutReturns s) = (containerHeaderAt? s).map (Prod.map id withoutReturns) := by
  have hreturn : '\r' ∉ "cont".toList := by decide
  rw [containerHeaderAt?, containerHeaderAt?, isPrefixOf_withoutReturns hreturn (by decide)]
  split
  · next h =>
    have hdrop : (withoutReturns s).drop 4 = withoutReturns (s.drop 4) := drop_withoutReturns hreturn h
    rw [hdrop, skipBlanks_withoutReturns, afterBrace?_withoutReturns, Option.map_map, Option.map_map]
    rfl
  · rfl

@[simp] theorem headerAt?_withoutReturns (s : Text) :
    headerAt? (withoutReturns s) = (headerAt? s).map (Prod.map id withoutReturns) := by
  simp [headerAt?, Option.map_or]

/-- The search for a header passes over what is no character of a word, if no header begins there. -/
theorem findHeader?_blank {c : Char} {s : Text} (hc : isWordChar c = false)
    (h : headerAt? (c :: s) = none) (afterWord : Bool) :
    findHeader? afterWord (c :: s) = findHeader? false s := by
  rw [findHeader?, h, ite_self, hc]

@[simp] theorem findHeader?_withoutReturns (afterWord : Bool) (s : Text) :
    findHeader? afterWord (withoutReturns s) =
      (findHeader? afterWord s).map (Prod.map id withoutReturns) := by
  induction s generalizing afterWord with
  | nil => rfl
  | cons c s ih =>
    rw [withoutReturns_cons]
    obtain ⟨rfl, ⟨t, ht⟩, h⟩ | h := consReturn_cases c (withoutReturns s)
    · -- A newline is left; the carriage return before it has been passed over like it.
      have hreturn := findHeader?_blank (c := '\r') (s := s) rfl rfl afterWord
      have hnewline := findHeader?_blank (c := '\n') (s := t) rfl rfl
      rw [h, hreturn, ← ih false, ht, hnewline, hnewline]
    · have hhead := headerAt?_withoutReturns (c :: s)
      rw [withoutReturns_cons, h] at hhead
      rw [h, findHeader?, findHeader?, hhead, ih]
      cases afterWord with
      | true => rfl
      | false => cases headerAt? (c :: s) <;> rfl

/-! ### Blocks -/

/-- **The blocks of a text**, by induction on its length: the search goes on behind a header or a block. -/
@[simp] theorem blocks_withoutReturns (s : Text) :
    blocks (withoutReturns s) = (blocks s).map Block.withoutReturns := by
  induction hn : s.length using Nat.strongRecOn generalizing s with
  | ind n ih =>
    have hfound := findHeader?_withoutReturns false s
    cases hs : findHeader? false s with
    | none =>
      rw [hs] at hfound
      rw [blocks_of_none hs, blocks_of_none hfound, List.map_nil]
    | some found =>
      obtain ⟨header, t⟩ := found
      have hlt := length_lt_of_findHeader? hs
      rw [hs] at hfound
      rw [blocks_of_some hs, blocks_of_some hfound, Text.dropWhile_withoutReturns rfl,
        Text.takeWhile_withoutReturns rfl]
      have hlength := (List.dropWhile_sublist isBodyChar (l := t)).length_le
      have hstops := Text.stops_dropWhile isBodyChar t
      have hnested : (withoutReturns (t.takeWhile isBodyChar)).contains '{' =
          (t.takeWhile isBodyChar).contains '{' := by
        rw [Bool.eq_iff_iff, List.contains_iff_mem, List.contains_iff_mem,
          Text.mem_withoutReturns (by decide)]
      cases hrest : t.dropWhile isBodyChar with
      | nil => rfl
      | cons c rest =>
        rw [hrest] at hlength hstops
        have hc : c ≠ '\r' := by
          rintro rfl
          cases hstops '\r' rfl
        rw [withoutReturns_cons_of_ne hc]
        dsimp only
        rw [hnested, ih t.length (hn ▸ hlt) t rfl,
          ih rest.length (by rw [List.length_cons] at hlength; omega) rest rfl]
        split
        · rfl
        · rfl

/-! ### Pairs -/

/-- A pair, as it is read: key and blanks up to a colon, value up to a semicolon. -/
theorem pairAt?_iff_dropWhile {s rest : Text} {pair : Text × Text} :
    pairAt? s = some (pair, rest) ↔
      (s.takeWhile isKeyChar).isEmpty = false ∧
        ∃ t, (s.dropWhile isKeyChar).dropWhile isAsciiBlank = ':' :: t ∧ t.dropWhile isValueChar = ';' :: rest ∧
          pair = (s.takeWhile isKeyChar, Text.strip (t.takeWhile isValueChar)) := by
  rw [pairAt?]
  constructor
  · intro h
    split at h
    · cases h
    · next hkey =>
      split at h
      · next t hcolon =>
        split at h
        · next rest' hsemicolon =>
          cases h
          exact ⟨Bool.eq_false_iff.2 hkey, t, hcolon, hsemicolon, rfl⟩
        · cases h
      · cases h
  · rintro ⟨hkey, t, hcolon, hsemicolon, rfl⟩
    rw [hkey, if_neg Bool.false_ne_true]
    split
    · next t' hcolon' =>
      obtain rfl : t = t' := (List.cons.inj (hcolon.symm.trans hcolon')).2
      split
      · next rest' hsemicolon' =>
        obtain rfl : rest = rest' := (List.cons.inj (hsemicolon.symm.trans hsemicolon')).2
        rfl
      · next hother => exact absurd hsemicolon (hother rest)
    · next hother => exact absurd hcolon (hother t)

@[simp] theorem pairAt?_withoutReturns (s : Text) :
    pairAt? (withoutReturns s) =
      (pairAt? s).map (Prod.map (Prod.map id withoutReturns) withoutReturns) := by
  have hkeys := Text.takeWhile_withoutReturns_of_not (p := isKeyChar) rfl rfl s
  have hafter : ((withoutReturns s).dropWhile isKeyChar).dropWhile isAsciiBlank =
      withoutReturns ((s.dropWhile isKeyChar).dropWhile isAsciiBlank) := by
    rw [Text.dropWhile_withoutReturns rfl, Text.dropWhile_withoutReturns rfl]
  have hcolons : ∀ {u t : Text}, withoutReturns u = ':' :: t ↔ ∃ v, u = ':' :: v ∧ withoutReturns v = t :=
    Text.withoutReturns_eq_cons_iff (by decide) (by decide)
  have hsemicolons : ∀ {u t : Text}, withoutReturns u = ';' :: t ↔ ∃ v, u = ';' :: v ∧ withoutReturns v = t :=
    Text.withoutReturns_eq_cons_iff (by decide) (by decide)
  have hvalue : ∀ t, Text.strip ((withoutReturns t).takeWhile isValueChar) =
      withoutReturns (Text.strip (t.takeWhile isValueChar)) := by
    intro t
    rw [Text.takeWhile_withoutReturns rfl, Text.strip_withoutReturns]
  apply Option.ext
  rintro ⟨pair, rest⟩
  rw [pairAt?_iff_dropWhile, Option.map_eq_some_iff, hkeys, hafter]
  constructor
  · rintro ⟨hkey, t', hcolon, hsemicolon, rfl⟩
    obtain ⟨t, hs, rfl⟩ := hcolons.1 hcolon
    rw [Text.dropWhile_withoutReturns rfl] at hsemicolon
    obtain ⟨after, ht, rfl⟩ := hsemicolons.1 hsemicolon
    refine ⟨_, pairAt?_iff_dropWhile.2 ⟨hkey, t, hs, ht, rfl⟩, ?_⟩
    rw [hvalue]
    rfl
  · rintro ⟨⟨read, after⟩, hread, heq⟩
    obtain ⟨hkey, t, hs, ht, rfl⟩ := pairAt?_iff_dropWhile.1 hread
    cases heq
    refine ⟨hkey, withoutReturns t, ?_, ?_, ?_⟩
    · exact hcolons.2 ⟨t, hs, rfl⟩
    · rw [Text.dropWhile_withoutReturns rfl]
      exact hsemicolons.2 ⟨after, ht, rfl⟩
    · rw [hvalue]
      rfl

/-- **The pairs of a body**, by induction on its length: the search goes on behind a character or a pair. -/
@[simp] theorem pairs_withoutReturns (s : Text) :
    pairs (withoutReturns s) = (pairs s).map (Prod.map id withoutReturns) := by
  induction hn : s.length using Nat.strongRecOn generalizing s with
  | ind n ih =>
    cases s with
    | nil =>
      show pairs [] = (pairs []).map _
      rw [pairs, List.map_nil]
    | cons c s =>
      rw [List.length_cons] at hn
      have hread := pairAt?_withoutReturns (c :: s)
      cases hs : pairAt? (c :: s) with
      | none =>
        rw [hs] at hread
        rw [pairs_cons_none hs, ← ih s.length (by omega) s rfl, withoutReturns_cons]
        rw [withoutReturns_cons] at hread
        obtain ⟨-, -, h⟩ | h := consReturn_cases c (withoutReturns s)
        · rw [h]
        · rw [h] at hread ⊢
          exact pairs_cons_none hread
      | some found =>
        obtain ⟨pair, rest⟩ := found
        have hlt := length_lt_of_pairAt? hs
        rw [List.length_cons] at hlt
        rw [hs] at hread
        rw [pairs_cons_some hs, pairs_cons_some hread, ih rest.length (by omega) rest rfl, List.map_cons]

end StyleSheet

end ProseMarkup
