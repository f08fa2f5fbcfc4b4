import ProseMarkup.Proofs.Declarations
import ProseMarkup.Proofs.SheetGrammar

/-!
# Pairs by their delimiters

The pairs of a body can be had without searching for them. Semicolons end pieces, and a piece declares one pair at
most, by its last colon: the value is what comes after the colon, and the key is the name right before it. The search,
which begins anew at each character that no pair begins with, finds the same pairs.

* `StyleSheet.terminated`, `StyleSheet.pairOf?` : the pieces of a body, and the pair that a piece declares.
* `StyleSheet.setPiece` : properties after one more piece.
* `StyleSheet.PairForm` : the texts that are pairs, up to their semicolon.
* `StyleSheet.pairOf?_cons` : what one character more before a piece does to its pair.
* `StyleSheet.pairs_eq` : **the pairs that are found are those of the pieces**.
* `StyleSheet.permittedProps_by_delimiters` : **a body sets the properties that its pieces set one by one**.
-/

namespace ProseMarkup.StyleSheet

open Text (isAsciiBlank)

/-! ### Pieces -/

/-- The pieces of a body that a semicolon ends, in order. What comes after the last semicolon is no piece. -/
def terminated (body : Text) : List Text :=
  (body.splitOn ';').dropLast

/-- The longest run of characters of keys that a text ends with, blanks after it left out. -/
def nameBefore (s : Text) : Text :=
  (s.rdropWhile isAsciiBlank).rtakeWhile isKeyChar

/-- The pair that a piece declares: of its parts between colons the last is the value, and the one before it ends with
the key. -/
def pairOf? (piece : Text) : Option (Text × Text) :=
  match (piece.splitOn ':').reverse with
  | value :: before :: _ =>
    if (nameBefore before).isEmpty then none else some (nameBefore before, Text.strip value)
  | _ => none

/-- Properties after one more piece: its pair is set if the name is permitted and the value is safe. -/
def setPiece (w : Whitelist) (props : Dict Text Text) (piece : Text) : Dict Text Text :=
  match pairOf? piece with
  | some pair =>
    if w.permits pair.1 && PropertyValue.isSafe pair.2 then props.set pair.1 pair.2 else props
  | none => props

/-- The value that a piece sets for a name, if it does. -/
def pieceValue? (w : Whitelist) (name : Text) (piece : Text) : Option Text :=
  match pairOf? piece with
  | some pair =>
    if pair.1 = name ∧ (w.permits pair.1 && PropertyValue.isSafe pair.2) = true then some pair.2 else none
  | none => none

theorem terminated_of_not_mem {body : Text} (h : ';' ∉ body) : terminated body = [] := by
  rw [terminated, List.splitOn_eq_singleton h, List.dropLast_singleton]

/-- What comes before a semicolon and what comes after it is cut into pieces apart. -/
theorem terminated_append (s t : Text) :
    terminated (s ++ ';' :: t) = terminated (s ++ [';']) ++ terminated t := by
  have hlast : terminated (s ++ [';']) = s.splitOn ';' := by
    rw [terminated, List.splitOn_append_cons_self, List.splitOn_eq_singleton List.not_mem_nil, List.dropLast_concat]
  rw [hlast, terminated, List.splitOn_append_cons_self,
    List.dropLast_append_of_ne_nil (List.splitOn_ne_nil _ _), terminated]

theorem terminated_piece {piece : Text} (h : ';' ∉ piece) (rest : Text) :
    terminated (piece ++ ';' :: rest) = piece :: terminated rest := by
  rw [terminated, List.splitOn_append_cons_self, List.splitOn_eq_singleton h, List.singleton_append,
    List.dropLast_cons_of_ne_nil (List.splitOn_ne_nil _ _), terminated]

/-! ### The name at the end of a text -/

section EndOfText

variable {p : Char → Bool} {c : Char} {s : Text}

theorem rtakeWhile_cons (p : Char → Bool) (c : Char) (s : Text) :
    (c :: s).rtakeWhile p = s.rtakeWhile p ∨ (c :: s).all p = true := by
  by_cases hall : (c :: s).all p = true
  · exact .inr hall
  · left
    rw [List.rtakeWhile, List.rtakeWhile, List.reverse_cons, List.takeWhile_append]
    split
    · next hlength =>
      have hs : s.reverse.takeWhile p = s.reverse :=
        (List.takeWhile_prefix p).eq_of_length hlength
      have hall' : s.all p = true := by
        rw [← List.all_reverse, ← hs]
        exact List.all_takeWhile
      have hc : p c = false := by
        rw [List.all_cons, hall', Bool.and_true, Bool.not_eq_true] at hall
        exact hall
      rw [hs, List.takeWhile_cons, hc]
      simp
    · rfl

theorem rdropWhile_cons_of_not_all (h : ¬ s.all p = true) : (c :: s).rdropWhile p = c :: s.rdropWhile p := by
  have hne : (s.reverse.dropWhile p).isEmpty = false := by
    rw [List.isEmpty_eq_false_iff, ne_eq, List.dropWhile_eq_nil_iff]
    intro hall
    exact h (List.all_eq_true.2 fun d hd => hall d (List.mem_reverse.2 hd))
  rw [List.rdropWhile, List.rdropWhile, List.reverse_cons, List.dropWhile_append, hne, if_neg Bool.false_ne_true,
    List.reverse_append]
  rfl

/-- A run of one class at the end of a text is left out whole if another character stands before it. -/
theorem rdropWhile_append_of_all (h : s.all p = true) (t : Text) : (t ++ s).rdropWhile p = t.rdropWhile p := by
  rw [List.rdropWhile, List.rdropWhile, List.reverse_append,
    List.dropWhile_append_of_pos fun d hd => List.all_eq_true.1 h d (List.mem_reverse.1 hd)]

end EndOfText

theorem nameBefore_of_blanks {blanks : Text} (h : AreBlanks blanks) : nameBefore blanks = [] := by
  rw [nameBefore, List.rdropWhile_eq_nil_iff.2 (List.all_eq_true.1 h), List.rtakeWhile_nil]

/-- A text ends with a name if a character of another class stands before it, or nothing. -/
theorem nameBefore_run {front key blanks : Text} (hfront : Text.Stops isKeyChar front.reverse) (hne : key ≠ [])
    (hkey : key.all isKeyChar = true) (hblanks : AreBlanks blanks) : nameBefore (front ++ (key ++ blanks)) = key := by
  have hdrop : (front ++ key).rdropWhile isAsciiBlank = front ++ key := by
    apply List.rdropWhile_eq_self_iff.2
    intro happend hblank
    rw [List.getLast_append_of_right_ne_nil _ _ hne] at hblank
    have hlast := List.all_eq_true.1 hkey _ (List.getLast_mem hne)
    rw [isKeyChar_of_isAsciiBlank hblank] at hlast
    cases hlast
  rw [nameBefore, ← List.append_assoc, rdropWhile_append_of_all hblanks, hdrop, List.rtakeWhile, List.reverse_append,
    Text.takeWhile_run (by rw [List.all_reverse, hkey]) hfront, List.reverse_reverse]

/-- One character more before a text: it changes the name that the text ends with only if there is nothing but that
name and blanks after it. -/
theorem nameBefore_cons (c : Char) (s : Text) :
    nameBefore (c :: s) = nameBefore s ∨
      ∃ key blanks, c :: s = key ++ blanks ∧ key ≠ [] ∧ key.all isKeyChar = true ∧ AreBlanks blanks := by
  by_cases hs : s.all isAsciiBlank = true
  · by_cases hc : isKeyChar c = true
    · exact .inr ⟨[c], s, rfl, by simp, by simp [hc], hs⟩
    · left
      have hnil : nameBefore s = [] := nameBefore_of_blanks hs
      have hone : nameBefore ([c] ++ s) = [] := by
        rw [nameBefore, rdropWhile_append_of_all hs, List.rdropWhile_singleton]
        split
        · rfl
        · exact List.rtakeWhile_concat_neg _ [] c hc
      exact hone.trans hnil.symm
  · rw [nameBefore, rdropWhile_cons_of_not_all hs]
    rcases rtakeWhile_cons isKeyChar c (s.rdropWhile isAsciiBlank) with h | hall
    · exact .inl h
    · refine .inr ⟨_, s.rtakeWhile isAsciiBlank, ?_, List.cons_ne_nil _ _, hall, ?_⟩
      · rw [List.cons_append, List.rdropWhile_append_rtakeWhile]
      · exact List.all_eq_true.2 fun d hd => List.mem_rtakeWhile_imp hd

/-! ### Pairs -/

/-- The texts that are pairs, up to their semicolon, and what they declare. -/
inductive PairForm : (pair : Text × Text) → Text → Prop
  | intro {key blanks raw : Text} (hne : key ≠ []) (hkey : key.all isKeyChar = true) (hblanks : AreBlanks blanks)
      (hraw : raw.all isValueChar = true) : PairForm (key, Text.strip raw) (key ++ (blanks ++ ':' :: raw))

/-- A pair is read at the beginning of a text just if the text begins with one and goes on with a semicolon. -/
theorem pairAt?_iff_form {s rest : Text} {pair : Text × Text} :
    pairAt? s = some (pair, rest) ↔ ∃ form, PairForm pair form ∧ s = form ++ ';' :: rest := by
  obtain ⟨key, value⟩ := pair
  rw [pairAt?_iff]
  constructor
  · intro h
    obtain ⟨blanks, raw, rfl, hne, hkey, hblanks, hraw, rfl⟩ := h
    exact ⟨_, .intro hne hkey hblanks hraw, by simp⟩
  · intro h
    obtain ⟨form, hform, rfl⟩ := h
    cases hform with
    | @intro _ blanks raw hne hkey hblanks hraw =>
      exact ⟨blanks, raw, by simp, hne, hkey, hblanks, hraw, rfl⟩

theorem all_isValueChar_iff {s : Text} : s.all isValueChar = true ↔ ';' ∉ s ∧ ':' ∉ s := by
  simp only [List.all_eq_true, isValueChar, Bool.and_eq_true, decide_eq_true_eq]
  constructor
  · intro h
    exact ⟨fun hmem => (h _ hmem).1 rfl, fun hmem => (h _ hmem).2 rfl⟩
  · intro h c hc
    exact ⟨fun heq => h.1 (heq ▸ hc), fun heq => h.2 (heq ▸ hc)⟩

theorem PairForm.not_mem {pair : Text × Text} {form : Text} (h : PairForm pair form) : ';' ∉ form := by
  cases h with
  | intro hne hkey hblanks hraw =>
    have hkey' := (all_isValueChar_iff.1 (all_isValueChar rfl rfl hkey)).1
    have hblanks' := (all_isValueChar_iff.1 (all_isValueChar rfl rfl hblanks)).1
    have hraw' := (all_isValueChar_iff.1 hraw).1
    simp [hkey', hblanks', hraw']

/-- In a piece with its semicolon a pair is read only if it goes up to that semicolon. -/
theorem pairAt?_piece {piece rest : Text} (h : ';' ∉ piece) {pair : Text × Text} {after : Text}
    (hread : pairAt? (piece ++ ';' :: rest) = some (pair, after)) : PairForm pair piece ∧ after = rest := by
  obtain ⟨form, hform, heq⟩ := pairAt?_iff_form.1 hread
  have hother : ∀ {s : Text}, ';' ∉ s → (s.all fun c => c ≠ ';') = true := by
    intro s hs
    exact List.all_eq_true.2 fun c hc => decide_eq_true fun hsemicolon => hs (hsemicolon ▸ hc)
  obtain ⟨rfl, -, rfl⟩ := Text.run_injective (hother h) (by simp) (hother hform.not_mem) (by simp) heq
  exact ⟨hform, rfl⟩

/-! ### The pair of a piece -/

/-- What comes before the last colon of a text that has one, and what comes after it. -/
theorem exists_last_colon {s : Text} (h : ':' ∈ s) : ∃ before value, s = before ++ ':' :: value ∧ ':' ∉ value := by
  obtain ⟨value, before, heq, hvalue⟩ := List.eq_append_cons_of_mem (List.mem_reverse.2 h)
  refine ⟨before.reverse, value.reverse, ?_, fun hmem => hvalue (List.mem_reverse.1 hmem)⟩
  rw [← List.reverse_reverse s, heq]
  simp

theorem pairOf?_of_not_mem {piece : Text} (h : ':' ∉ piece) : pairOf? piece = none := by
  rw [pairOf?, List.splitOn_eq_singleton h]
  rfl

/-- A name does not go on before a colon. -/
theorem nameBefore_append_colon (s t : Text) : nameBefore (s ++ ':' :: t) = nameBefore t := by
  have hcolon : ∀ key blanks : Text, key.all isKeyChar = true → AreBlanks blanks → ':' ∉ key ++ blanks := by
    intro key blanks hkey hblanks hmem
    rcases List.mem_append.1 hmem with hmem | hmem
    · exact (all_isValueChar_iff.1 (all_isValueChar rfl rfl hkey)).2 hmem
    · exact (all_isValueChar_iff.1 (all_isValueChar rfl rfl hblanks)).2 hmem
  induction s with
  | nil =>
    rcases nameBefore_cons ':' t with h | ⟨key, blanks, heq, -, hkey, hblanks⟩
    · exact h
    · exact absurd (heq ▸ List.mem_cons_self) (hcolon key blanks hkey hblanks)
  | cons c s ih =>
    rw [List.cons_append]
    rcases nameBefore_cons c (s ++ ':' :: t) with h | ⟨key, blanks, heq, -, hkey, hblanks⟩
    · exact h.trans ih
    · exact absurd (heq ▸ by simp) (hcolon key blanks hkey hblanks)

/-- The last colon of a piece decides. -/
theorem pairOf?_colon {value : Text} (h : ':' ∉ value) (before : Text) :
    pairOf? (before ++ ':' :: value) =
      if (nameBefore before).isEmpty then none else some (nameBefore before, Text.strip value) := by
  have hlast : ∃ parts last, before.splitOn ':' = parts ++ [last] ∧ nameBefore last = nameBefore before := by
    by_cases hmem : ':' ∈ before
    · obtain ⟨front, last, rfl, hlast⟩ := exists_last_colon hmem
      exact ⟨front.splitOn ':', last, by rw [List.splitOn_append_cons_self, List.splitOn_eq_singleton hlast],
        (nameBefore_append_colon front last).symm⟩
    · exact ⟨[], before, List.splitOn_eq_singleton hmem, rfl⟩
  obtain ⟨parts, last, hparts, hname⟩ := hlast
  rw [pairOf?, List.splitOn_append_cons_self, List.splitOn_eq_singleton h, hparts, ← hname]
  simp

/-- A piece that ends with a pair declares it, whatever stands before, if the key does not go on there. -/
theorem PairForm.pairOf?_append {pair : Text × Text} {form : Text} (h : PairForm pair form) {front : Text}
    (hfront : Text.Stops isKeyChar front.reverse) : pairOf? (front ++ form) = some pair := by
  cases h with
  | @intro key blanks raw hne hkey hblanks hraw =>
    have hempty : ¬ key.isEmpty = true := fun h => hne (List.isEmpty_iff.1 h)
    have hsplit : front ++ (key ++ (blanks ++ ':' :: raw)) = (front ++ (key ++ blanks)) ++ ':' :: raw := by
      simp
    rw [hsplit, pairOf?_colon (all_isValueChar_iff.1 hraw).2, nameBefore_run hfront hne hkey hblanks, if_neg hempty]

theorem PairForm.pairOf?_eq {pair : Text × Text} {form : Text} (h : PairForm pair form) :
    pairOf? form = some pair := by
  have hfront : Text.Stops isKeyChar ([] : Text).reverse := Text.stops_nil
  exact h.pairOf?_append hfront

/-- **One character more before a piece**: its pair stays as it was, or else all of the text is a pair. -/
theorem pairOf?_cons {c : Char} {piece : Text} (h : ';' ∉ piece) :
    pairOf? (c :: piece) = pairOf? piece ∨ ∃ pair, PairForm pair (c :: piece) := by
  by_cases hmem : ':' ∈ piece
  · obtain ⟨before, value, rfl, hvalue⟩ := exists_last_colon hmem
    rcases nameBefore_cons c before with hname | ⟨key, blanks, heq, hne, hkey, hblanks⟩
    · left
      rw [← List.cons_append, pairOf?_colon hvalue, pairOf?_colon hvalue, hname]
    · right
      have hsemicolon : ';' ∉ value := by
        intro hmem'
        simp [hmem'] at h
      have hraw : value.all isValueChar = true := all_isValueChar_iff.2 ⟨hsemicolon, hvalue⟩
      refine ⟨(key, Text.strip value), ?_⟩
      rw [← List.cons_append, heq, List.append_assoc]
      exact .intro hne hkey hblanks hraw
  · left
    rw [pairOf?_of_not_mem hmem]
    by_cases hc : c = ':'
    · rw [hc]
      exact pairOf?_colon hmem []
    · exact pairOf?_of_not_mem (by simp [hmem, Ne.symm hc])

/-- A piece is passed over up to its pair, and the search goes on behind its semicolon. -/
theorem pairs_piece {piece : Text} (h : ';' ∉ piece) (rest : Text) :
    pairs (piece ++ ';' :: rest) = (pairOf? piece).toList ++ pairs rest := by
  induction piece with
  | nil => exact pairs_cons_none rfl
  | cons c piece ih =>
    have hpiece : ';' ∉ piece := fun hmem => h (List.mem_cons_of_mem c hmem)
    cases hread : pairAt? (c :: piece ++ ';' :: rest) with
    | none =>
      have hsame : pairOf? (c :: piece) = pairOf? piece := by
        rcases pairOf?_cons (c := c) hpiece with hsame | ⟨pair, hform⟩
        · exact hsame
        · rw [pairAt?_iff_form.2 ⟨_, hform, rfl⟩] at hread
          cases hread
      rw [List.cons_append] at hread ⊢
      rw [pairs_cons_none hread, ih hpiece, hsame]
    | some found =>
      obtain ⟨pair, after⟩ := found
      obtain ⟨hform, rfl⟩ := pairAt?_piece h hread
      rw [pairs_cons_some hread, hform.pairOf?_eq]
      rfl

/-- Without a semicolon there is no pair. -/
theorem pairs_of_not_mem {body : Text} (h : ';' ∉ body) : pairs body = [] := by
  induction body with
  | nil => rw [pairs]
  | cons c body ih =>
    have hnone : pairAt? (c :: body) = none := by
      cases hread : pairAt? (c :: body) with
      | none => rfl
      | some found =>
        obtain ⟨form, -, heq⟩ := pairAt?_iff_form.1 hread
        rw [heq] at h
        simp at h
    rw [pairs_cons_none hnone, ih fun hmem => h (List.mem_cons_of_mem c hmem)]

/-- **The pairs that are found are those of the pieces**, by induction on the length of the body: each piece takes
its semicolon with it. -/
theorem pairs_eq (body : Text) : pairs body = (terminated body).filterMap pairOf? := by
  induction hn : body.length using Nat.strongRecOn generalizing body with
  | ind n ih =>
    by_cases hmem : ';' ∈ body
    · obtain ⟨piece, rest, rfl, hpiece⟩ := List.eq_append_cons_of_mem hmem
      have hlt : rest.length < n := by
        simp at hn
        omega
      rw [pairs_piece hpiece, terminated_piece hpiece, ih rest.length hlt rest rfl, List.filterMap_cons]
      cases pairOf? piece <;> rfl
    · rw [pairs_of_not_mem hmem, terminated_of_not_mem hmem, List.filterMap_nil]

/-! ### Properties -/

variable (w : Whitelist)

/-- **A body sets the properties that its pieces set**, one after another. -/
theorem permittedProps_eq (body : Text) : permittedProps body w = (terminated body).foldl (setPiece w) Dict.empty := by
  rw [permittedProps, pairs_eq, List.foldl_filterMap]
  congr 1
  funext props piece
  rw [setPiece]
  cases pairOf? piece <;> rfl

theorem get?_setPiece (name : Text) (props : Dict Text Text) (piece : Text) :
    (setPiece w props piece).get? name = (pieceValue? w name piece).or (props.get? name) := by
  rw [setPiece, pieceValue?]
  cases pairOf? piece with
  | none => rfl
  | some pair =>
    dsimp only
    by_cases hset : (w.permits pair.1 && PropertyValue.isSafe pair.2) = true
    · rw [if_pos hset, Dict.get?_set]
      by_cases hname : pair.1 = name
      · rw [if_pos hname, if_pos ⟨hname, hset⟩]
        rfl
      · rw [if_neg hname, if_neg fun h => hname h.1]
        rfl
    · rw [if_neg hset, if_neg fun h => hset h.2]
      rfl

/-- What comes before a semicolon is set first. -/
theorem permittedProps_append (s t : Text) : permittedProps (s ++ ';' :: t) w =
    (terminated t).foldl (setPiece w) (permittedProps (s ++ [';']) w) := by
  rw [permittedProps_eq, terminated_append, List.foldl_append, permittedProps_eq]

/-- **A body sets the properties that its pieces set one by one.** So the value under a name is that of the last piece
with a permitted value for it, and a pair that is refused takes nothing away. An unterminated pair is dropped alone:
at the end of a body it sets nothing, and before another pair it does not keep that pair from being read. -/
theorem permittedProps_by_delimiters (body : Text) :
    permittedProps body w = (terminated body).foldl (setPiece w) Dict.empty ∧
    (∀ name, (permittedProps body w).get? name = (terminated body).reverse.findSome? (pieceValue? w name)) ∧
    (∀ tail, ';' ∉ tail → permittedProps (body ++ ';' :: tail) w = permittedProps (body ++ [';']) w) ∧
    ∀ front form pair rest, PairForm pair form → ';' ∉ front →
      (∀ c, front.getLast? = some c → isKeyChar c = false) →
      permittedProps (body ++ ';' :: (front ++ form ++ ';' :: rest)) w =
        permittedProps (body ++ ';' :: (form ++ ';' :: rest)) w := by
  refine ⟨permittedProps_eq w body, ?_, ?_, ?_⟩
  · intro name
    rw [permittedProps_eq]
    exact (Style.foldl_lookup (fun props : Dict Text Text => props.get? name) (get?_setPiece w name) _ _).trans
      Option.or_none
  · intro tail htail
    rw [permittedProps_append, terminated_of_not_mem htail, List.foldl_nil]
  · intro front form pair rest hform hfront hlast
    have hstops : Text.Stops isKeyChar front.reverse := by
      intro c hc
      exact hlast c (by rwa [List.head?_reverse] at hc)
    have hpiece : ';' ∉ front ++ form := by
      simp [hfront, hform.not_mem]
    have hset : setPiece w (permittedProps (body ++ [';']) w) (front ++ form) =
        setPiece w (permittedProps (body ++ [';']) w) form := by
      rw [setPiece, setPiece, hform.pairOf?_append hstops, hform.pairOf?_eq]
    rw [permittedProps_append w body (front ++ form ++ ';' :: rest),
      permittedProps_append w body (form ++ ';' :: rest), terminated_piece hpiece, terminated_piece hform.not_mem,
      List.foldl_cons, List.foldl_cons, hset]

/-- A pair without its semicolon before another pair, and one at the end of the body. -/
theorem permittedProps_by_delimiters_unterminated :
    let w := Whitelist.ofPatterns ["color".toList, "margin".toList]
    permittedProps ("color:red".toList ++ ';' ::
        ("color: blue ".toList ++ "margin : 0 ".toList ++ ';' :: "margin: a(b);".toList)) w =
      permittedProps ("color:red".toList ++ ';' :: ("margin : 0 ".toList ++ ';' :: "margin: a(b);".toList)) w ∧
    permittedProps ("color:red".toList ++ ';' :: "margin: 1".toList) w =
      permittedProps ("color:red".toList ++ [';']) w ∧
    (permittedProps "color:red; margin : 0 ; margin: url(x); color: blue".toList w).entries =
      [("color".toList, "red".toList), ("margin".toList, "0".toList)] := by
  have hblanks : AreBlanks " ".toList := by unfold AreBlanks; decide
  have hform : PairForm ("margin".toList, Text.strip " 0 ".toList) "margin : 0 ".toList :=
    .intro (by decide) (by decide) hblanks (by decide)
  have hfront : ';' ∉ "color: blue ".toList := by decide +kernel
  have hspace : "color: blue ".toList.getLast? = some ' ' := by decide +kernel
  have hlast : ∀ c, "color: blue ".toList.getLast? = some c → isKeyChar c = false := by
    intro c hc
    rw [hspace] at hc
    rw [← Option.some.inj hc]
    decide
  have htail : ';' ∉ "margin: 1".toList := by decide +kernel
  obtain ⟨-, -, hdropped, hskipped⟩ :=
    permittedProps_by_delimiters (.ofPatterns ["color".toList, "margin".toList]) "color:red".toList
  exact ⟨hskipped _ _ _ _ hform hfront hlast, hdropped _ htail, by decide +kernel⟩

end ProseMarkup.StyleSheet
