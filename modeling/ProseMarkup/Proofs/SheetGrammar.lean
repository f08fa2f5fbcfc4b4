import ProseMarkup.Proofs.HeaderForm
import ProseMarkup.StyleSheet.Property

/-!
# The grammar of style sheets

A sheet is read in one pass by its braces. The comments are left out of its lines, the rest is cut at the
braces, and every opening brace whose next brace is a closing one makes a block of the text before it and the
text in between. A block counts if a header begins at a word boundary of the text before it and goes up to
the brace; of several such headers the longest does. The search of the reader, which restarts inside bodies
and gives up at the end, finds the same blocks.

* `StyleSheet.uncommented`, `StyleSheet.pieces`, `StyleSheet.innermost` : a sheet cut into blocks.
* `StyleSheet.Declares`, `StyleSheet.Reads` : what the text before a block declares, and the blocks that count.
* `StyleSheet.findHeader?_opening` : a search for a header over the text before an opening brace.
* `StyleSheet.reads_blocks` : **the blocks that are found are the blocks that count**.
* `Style.sheet_read_exactly` : **the style of a sheet is set by these blocks, the last of a name deciding**.
-/

namespace ProseMarkup

namespace StyleSheet

/-! ### Blocks between braces -/

/-- What comes before the first two slashes of a line. -/
def beforeComment (line : Text) : Text :=
  match Text.find? "//".toList line with
  | some i => line.take i
  | none => line

/-- The lines of a sheet, each up to its comment. -/
def uncommented (sheet : Text) : Text :=
  Text.joinWith ['\n'] ((Text.lines sheet).map beforeComment)

/-- Whether a character is a brace of either kind. -/
def isBrace (c : Char) : Bool :=
  c = '{' || c = '}'

/-- Whether a character is no brace. -/
def isPlain (c : Char) : Bool :=
  !isBrace c

/-- The texts before the braces of a text, from one brace to the next, each with the brace after it. -/
def pieces : Text → List (Text × Char)
  | [] => []
  | c :: s =>
    if isBrace c then ([], c) :: pieces s
    else match pieces s with
      | [] => []
      | (p, brace) :: ps => (c :: p, brace) :: ps

/-- The text before an opening brace and the text after it, if the next brace is a closing one. -/
def innermost? (piece next : Text × Char) : Option (Text × Text) :=
  if piece.2 = '{' ∧ next.2 = '}' then some (piece.1, next.1) else none

/-- The innermost blocks: what comes before each, and its body. -/
def innermost (ps : List (Text × Char)) : List (Text × Text) :=
  (ps.zip ps.tail).filterMap fun pair => innermost? pair.1 pair.2

/-! ### Headers before a brace -/

/-- Whether a text ends with a word character; the flag says so of what comes before it. -/
def endsInWord (afterWord : Bool) (s : Text) : Bool :=
  (s.getLast?.map isWordChar).getD afterWord

/-- Whether of the characters on the two sides of a place just one is a word character. -/
def AtWordBoundary (afterWord : Bool) (before after : Text) : Prop :=
  endsInWord afterWord before ≠ after.head?.any isWordChar

/-- A header that a text ends with and that begins at a word boundary. -/
def Candidate (afterWord : Bool) (s : Text) (header : Header) (form : Text) : Prop :=
  HeaderForm header form ∧ ∃ before, s = before ++ form ∧ AtWordBoundary afterWord before form

/-- What a text before a brace declares: its longest header, or nothing if it ends with none. -/
def Declares (afterWord : Bool) (s : Text) : Option Header → Prop
  | none => ∀ header form, ¬ Candidate afterWord s header form
  | some header => ∃ form, Candidate afterWord s header form ∧
      ∀ header' form', Candidate afterWord s header' form' → form'.length ≤ form.length

/-- The blocks that count among innermost ones. Before each comes a brace or nothing, so no word. -/
inductive Reads : List (Text × Text) → List Block → Prop
  | done : Reads [] []
  | ignored {before body : Text} {pairs : List (Text × Text)} {blocks : List Block}
      (h : Declares false before none) (hrest : Reads pairs blocks) :
      Reads ((before, body) :: pairs) blocks
  | block {before body : Text} {header : Header} {pairs : List (Text × Text)} {blocks : List Block}
      (h : Declares false before (some header)) (hrest : Reads pairs blocks) :
      Reads ((before, body) :: pairs) (⟨header, body⟩ :: blocks)

/-! ### Comments -/

theorem beforeComment_cons (c : Char) (line : Text) :
    beforeComment (c :: line) =
      if c = '/' ∧ line.head? = some '/' then [] else c :: beforeComment line := by
  have hmark : "//".toList.isPrefixOf (c :: line) = true ↔ c = '/' ∧ line.head? = some '/' := by
    rw [List.isPrefixOf_iff_prefix, show "//".toList = ['/', '/'] from rfl, List.cons_prefix_cons]
    cases line with
    | nil => simp
    | cons d line => simp [List.cons_prefix_cons, eq_comm]
  rw [beforeComment, Text.find?]
  by_cases h : c = '/' ∧ line.head? = some '/'
  · rw [if_pos (hmark.2 h), if_pos h]
    rfl
  · rw [if_neg fun hp => h (hmark.1 hp), if_neg h, beforeComment]
    cases Text.find? "//".toList line <;> rfl

@[simp] theorem joinWith_cons_cons (c : Char) (l : Text) (ls : List Text) :
    Text.joinWith ['\n'] ((c :: l) :: ls) = c :: Text.joinWith ['\n'] (l :: ls) := by
  cases ls <;> rfl

@[simp] theorem lines_newline (s : Text) : Text.lines ('\n' :: s) = [] :: Text.lines s := by
  rw [Text.lines, if_pos rfl]

theorem lines_cons {c : Char} {s l : Text} {ls : List Text} (hc : c ≠ '\n')
    (h : Text.lines s = l :: ls) : Text.lines (c :: s) = (c :: l) :: ls := by
  rw [Text.lines, if_neg hc, h]

/-- A text goes on with a slash if its first line does. -/
theorem head?_lines {s l : Text} {ls : List Text} (h : Text.lines s = l :: ls) :
    l.head? = some '/' ↔ s.head? = some '/' := by
  cases s with
  | nil =>
    cases h
    exact Iff.rfl
  | cons c s =>
    by_cases hc : c = '\n'
    · subst hc
      rw [lines_newline] at h
      cases h
      simp
    · cases hs : Text.lines s with
      | nil => exact absurd hs (Text.lines_ne_nil s)
      | cons l' ls' =>
        rw [lines_cons hc hs] at h
        cases h
        exact Iff.rfl

/-- Leaving comments out character by character, the state being whether one is being read, is leaving
them out line by line. -/
theorem removeCommentsFrom_eq {s l : Text} {ls : List Text} (h : Text.lines s = l :: ls) :
    removeCommentsFrom false s = Text.joinWith ['\n'] (beforeComment l :: ls.map beforeComment) ∧
      removeCommentsFrom true s = Text.joinWith ['\n'] ([] :: ls.map beforeComment) := by
  induction s generalizing l ls with
  | nil =>
    cases h
    exact ⟨rfl, rfl⟩
  | cons c s ih =>
    cases hs : Text.lines s with
    | nil => exact absurd hs (Text.lines_ne_nil s)
    | cons l' ls' =>
      obtain ⟨hout, hin⟩ := ih hs
      by_cases hc : c = '\n'
      · subst hc
        rw [lines_newline, hs] at h
        cases h
        constructor
        · rw [removeCommentsFrom, if_neg (by simp), hout]
          rfl
        · rw [removeCommentsFrom, if_pos rfl, hout]
          rfl
      · rw [lines_cons hc hs] at h
        cases h
        constructor
        · rw [removeCommentsFrom, beforeComment_cons]
          by_cases hslash : c = '/' ∧ s.head? = some '/'
          · rw [if_pos hslash, if_pos ⟨hslash.1, (head?_lines hs).2 hslash.2⟩, hin]
          · rw [if_neg hslash, if_neg fun h => hslash ⟨h.1, (head?_lines hs).1 h.2⟩, hout,
              joinWith_cons_cons]
        · rw [removeCommentsFrom, if_neg hc, hin]

theorem removeComments_eq (sheet : Text) : removeComments sheet = uncommented sheet := by
  cases h : Text.lines sheet with
  | nil => exact absurd h (Text.lines_ne_nil sheet)
  | cons l ls =>
    rw [removeComments, (removeCommentsFrom_eq h).1, uncommented, h]
    rfl

/-! ### Cutting at the first brace -/

theorem isPlain_iff {c : Char} : isPlain c = true ↔ c ≠ '{' ∧ c ≠ '}' := by
  rw [isPlain, isBrace]
  simp

theorem pieces_of_plain {s : Text} (h : s.all isPlain = true) : pieces s = [] := by
  induction s with
  | nil => rfl
  | cons c s ih =>
    rw [List.all_cons, Bool.and_eq_true, isPlain, Bool.not_eq_true'] at h
    rw [pieces, h.1, ih h.2]
    rfl

theorem pieces_append {before : Text} (h : before.all isPlain = true) {brace : Char}
    (hbrace : isPlain brace = false) (rest : Text) :
    pieces (before ++ brace :: rest) = (before, brace) :: pieces rest := by
  induction before with
  | nil =>
    rw [isPlain, Bool.not_eq_false'] at hbrace
    rw [List.nil_append, pieces, if_pos hbrace]
  | cons c before ih =>
    rw [List.all_cons, Bool.and_eq_true, isPlain, Bool.not_eq_true'] at h
    rw [List.cons_append, pieces, h.1, ih h.2]
    rfl

@[simp] theorem innermost_closing (before : Text) (ps : List (Text × Char)) :
    innermost ((before, '}') :: ps) = innermost ps := by
  cases ps <;> rfl

@[simp] theorem innermost_opening_nil (before : Text) : innermost [(before, '{')] = [] := rfl

@[simp] theorem innermost_opening_opening (before body : Text) (ps : List (Text × Char)) :
    innermost ((before, '{') :: (body, '{') :: ps) = innermost ((body, '{') :: ps) := rfl

@[simp] theorem innermost_opening_closing (before body : Text) (ps : List (Text × Char)) :
    innermost ((before, '{') :: (body, '}') :: ps) = (before, body) :: innermost ps := by
  have hpair : innermost ((before, '{') :: (body, '}') :: ps) =
      (before, body) :: innermost ((body, '}') :: ps) := rfl
  simp [hpair]

/-- A text without braces, or what comes before its first brace, the brace and the rest. -/
theorem brace_cases (s : Text) :
    s.all isPlain = true ∨ ∃ before rest, before.all isPlain = true ∧
      (s = before ++ '{' :: rest ∨ s = before ++ '}' :: rest) := by
  rcases Text.run_cases isPlain s with h | ⟨before, c, rest, rfl, hbefore, hc⟩
  · exact .inl h
  · refine .inr ⟨before, rest, hbefore, ?_⟩
    rw [isPlain, Bool.not_eq_false', isBrace, Bool.or_eq_true, decide_eq_true_eq,
      decide_eq_true_eq] at hc
    rcases hc with rfl | rfl
    · exact .inl rfl
    · exact .inr rfl

/-! ### Headers -/

theorem isPlain_of_isNameChar {c : Char} (h : isNameChar c = true) : isPlain c = true := by
  rw [isNameChar, Bool.and_eq_true, Bool.and_eq_true, decide_eq_true_eq, decide_eq_true_eq] at h
  exact isPlain_iff.2 h.1

theorem isPlain_of_isAsciiBlank {c : Char} (h : Text.isAsciiBlank c = true) : isPlain c = true := by
  refine isPlain_iff.2 ⟨?_, ?_⟩
  · rintro rfl
    cases h
  · rintro rfl
    cases h

theorem AreBlanks.plain {s : Text} (h : AreBlanks s) : s.all isPlain = true :=
  List.all_eq_true.2 fun c hc => isPlain_of_isAsciiBlank (List.all_eq_true.1 h c hc)

theorem IsName.plain {s : Text} (h : IsName s) : s.all isPlain = true :=
  List.all_eq_true.2 fun c hc => isPlain_of_isNameChar (List.all_eq_true.1 h.2 c hc)

/-- Keywords begin with a word character and hold no brace. -/
theorem keyword_plain {keyword : Text} (h : keyword ∈ paragraphKeywords ++ spanKeywords) :
    keyword.all isPlain = true ∧ ∀ t, (keyword ++ t).head?.any isWordChar = true := by
  simp only [paragraphKeywords, spanKeywords, List.mem_append, List.mem_cons, List.not_mem_nil,
    or_false] at h
  rcases h with (rfl | rfl) | rfl | rfl <;> exact ⟨rfl, fun t => rfl⟩

/-- A header begins with a word character and holds no brace. -/
theorem HeaderForm.plain {header : Header} {form : Text} (h : HeaderForm header form) :
    form.all isPlain = true ∧ form.head?.any isWordChar = true := by
  cases h with
  | paragraph hkeyword hgap hname hafter =>
    obtain ⟨hplain, hword⟩ := keyword_plain (List.mem_append_left _ hkeyword)
    simp only [List.all_append, hplain, hgap.2.plain, hname.plain, hafter.plain, List.append_assoc,
      hword, Bool.and_self, and_self]
  | span hkeyword hgap hopening hafter =>
    obtain ⟨hplain, hword⟩ := keyword_plain (List.mem_append_right _ hkeyword)
    simp only [List.all_append, hplain, hgap.2.plain, hopening.plain, hafter.plain,
      List.append_assoc, hword, Bool.and_self, and_self]
  | closedSpan hkeyword hgap hopening hbetween hcloser hafter =>
    obtain ⟨hplain, hword⟩ := keyword_plain (List.mem_append_right _ hkeyword)
    simp only [List.all_append, hplain, hgap.2.plain, hopening.plain, hbetween.2.plain,
      hcloser.plain, hafter.plain, List.append_assoc, hword, Bool.and_self, and_self]
  | container hafter =>
    refine ⟨?_, rfl⟩
    rw [List.all_append, hafter.plain]
    rfl

/-- Over a text without braces a header is read just if it is the whole text, and an opening brace
follows. -/
theorem headerAt?_plain {s : Text} (hs : s.all isPlain = true) {brace : Char}
    (hbrace : isPlain brace = false) {rest rest' : Text} {header : Header} :
    headerAt? (s ++ brace :: rest) = some (header, rest') ↔
      HeaderForm header s ∧ brace = '{' ∧ rest = rest' := by
  rw [headerAt?_iff]
  constructor
  · rintro ⟨form, heq, hform⟩
    obtain ⟨rfl, rfl, rfl⟩ := Text.run_injective hs hbrace hform.plain.1 rfl heq
    exact ⟨hform, rfl, rfl⟩
  · rintro ⟨hform, rfl, rfl⟩
    exact ⟨s, rfl, hform⟩

/-- No header is read in a text without braces. -/
theorem headerAt?_of_plain {s : Text} (hs : s.all isPlain = true) : headerAt? s = none := by
  refine Option.eq_none_iff_forall_not_mem.2 fun found hfound => ?_
  obtain ⟨form, rfl, -⟩ := headerAt?_iff.1 hfound
  rw [List.all_append, List.all_cons] at hs
  simp [isPlain, isBrace] at hs

/-! ### Searching up to the first brace -/

/-- A search goes on behind a character at which no header is read. -/
theorem findHeader?_cons {afterWord : Bool} {c : Char} {s : Text}
    (h : afterWord = true ∨ headerAt? (c :: s) = none) :
    findHeader? afterWord (c :: s) = findHeader? (isWordChar c) s := by
  have hnone : (if afterWord = true then none else headerAt? (c :: s)) = none := by
    rcases h with h | h
    · rw [if_pos h]
    · rw [h, ite_self]
  rw [findHeader?, hnone]

theorem findHeader?_of_plain {s : Text} (hs : s.all isPlain = true) (afterWord : Bool) :
    findHeader? afterWord s = none := by
  induction s generalizing afterWord with
  | nil => rfl
  | cons c s ih =>
    rw [findHeader?_cons (.inr (headerAt?_of_plain hs))]
    rw [List.all_cons, Bool.and_eq_true] at hs
    exact ih hs.2 _

/-- A search passes over what comes before a closing brace. -/
theorem findHeader?_closing {before : Text} (hbefore : before.all isPlain = true) (afterWord : Bool)
    (rest : Text) : findHeader? afterWord (before ++ '}' :: rest) = findHeader? false rest := by
  have hnone : ∀ s : Text, s.all isPlain = true → headerAt? (s ++ '}' :: rest) = none := by
    intro s hs
    refine Option.eq_none_iff_forall_not_mem.2 fun found hfound => ?_
    have hbrace := ((headerAt?_plain hs rfl).1 hfound).2.1
    cases hbrace
  induction before generalizing afterWord with
  | nil => exact findHeader?_cons (.inr (hnone [] rfl))
  | cons c before ih =>
    have hhere := hnone (c :: before) hbefore
    rw [List.cons_append] at hhere ⊢
    rw [findHeader?_cons (.inr hhere)]
    rw [List.all_cons, Bool.and_eq_true] at hbefore
    exact ih hbefore.2 _

@[simp] theorem endsInWord_cons (afterWord : Bool) (c : Char) (s : Text) :
    endsInWord afterWord (c :: s) = endsInWord (isWordChar c) s := by
  cases s with
  | nil => rfl
  | cons d s =>
    rw [endsInWord, List.getLast?_cons_cons, endsInWord]
    cases h : (d :: s).getLast? with
    | none => simp at h
    | some e => rfl

/-- The headers that a text ends with are the text itself, if no word comes before it, and those that it
ends with behind its first character. -/
theorem candidate_cons {afterWord : Bool} {c : Char} {s : Text} {header : Header} {form : Text} :
    Candidate afterWord (c :: s) header form ↔
      (afterWord = false ∧ form = c :: s ∧ HeaderForm header (c :: s)) ∨
        Candidate (isWordChar c) s header form := by
  constructor
  · rintro ⟨hform, before, heq, hboundary⟩
    cases before with
    | nil =>
      rw [List.nil_append] at heq
      rw [AtWordBoundary, hform.plain.2] at hboundary
      refine .inl ⟨?_, heq.symm, heq ▸ hform⟩
      exact Bool.eq_false_iff.2 hboundary
    | cons d before =>
      rw [List.cons_append, List.cons.injEq] at heq
      obtain ⟨rfl, rfl⟩ := heq
      exact .inr ⟨hform, before, rfl, by simpa [AtWordBoundary] using hboundary⟩
  · rintro (⟨rfl, rfl, hform⟩ | ⟨hform, before, rfl, hboundary⟩)
    · refine ⟨hform, [], rfl, ?_⟩
      rw [AtWordBoundary, hform.plain.2]
      exact Bool.false_ne_true
    · exact ⟨hform, c :: before, rfl, by simpa [AtWordBoundary] using hboundary⟩

theorem Candidate.length_le {afterWord : Bool} {s : Text} {header : Header} {form : Text}
    (h : Candidate afterWord s header form) : form.length ≤ s.length := by
  obtain ⟨-, before, rfl, -⟩ := h
  rw [List.length_append]
  omega

/-- What a text declares whose whole is no header, its rest declares. -/
theorem declares_cons {afterWord : Bool} {c : Char} {s : Text}
    (h : afterWord = true ∨ ∀ header, ¬ HeaderForm header (c :: s)) {declared : Option Header} :
    Declares afterWord (c :: s) declared ↔ Declares (isWordChar c) s declared := by
  have hsame : ∀ header form, Candidate afterWord (c :: s) header form ↔
      Candidate (isWordChar c) s header form := by
    intro header form
    rw [candidate_cons]
    refine or_iff_right fun hwhole => ?_
    rcases h with h | h
    · rw [h] at hwhole
      cases hwhole.1
    · exact h header hwhole.2.2
  cases declared <;> simp only [Declares, hsame]

/-- **A search over what comes before an opening brace finds the header that is declared there**, and what
follows the brace; if none is declared, it goes on behind the brace. -/
theorem findHeader?_opening {before : Text} (hbefore : before.all isPlain = true) (afterWord : Bool)
    (rest : Text) :
    (∃ header, Declares afterWord before (some header) ∧
      findHeader? afterWord (before ++ '{' :: rest) = some (header, rest)) ∨
    (Declares afterWord before none ∧
      findHeader? afterWord (before ++ '{' :: rest) = findHeader? false rest) := by
  induction before generalizing afterWord with
  | nil =>
    refine .inr ⟨?_, findHeader?_cons (.inr ?_)⟩
    · rintro header form ⟨hform, prev, heq, -⟩
      obtain ⟨-, rfl⟩ := List.append_eq_nil_iff.1 heq.symm
      have hword := hform.plain.2
      cases hword
    · rfl
  | cons c before ih =>
    by_cases hhere : afterWord = false ∧ ∃ header, HeaderForm header (c :: before)
    · obtain ⟨rfl, header, hform⟩ := hhere
      refine .inl ⟨header, ⟨c :: before, candidate_cons.2 (.inl ⟨rfl, rfl, hform⟩),
        fun _ _ h => h.length_le⟩, ?_⟩
      have hread : headerAt? (c :: before ++ '{' :: rest) = some (header, rest) :=
        (headerAt?_plain hbefore rfl).2 ⟨hform, rfl, rfl⟩
      rw [List.cons_append] at hread ⊢
      rw [findHeader?, if_neg Bool.false_ne_true, hread]
    · have hnot : afterWord = true ∨ ∀ header, ¬ HeaderForm header (c :: before) := by
        cases afterWord with
        | true => exact .inl rfl
        | false => exact .inr fun header h => hhere ⟨rfl, header, h⟩
      have hskip : afterWord = true ∨ headerAt? (c :: before ++ '{' :: rest) = none := by
        refine hnot.imp_right fun h => Option.eq_none_iff_forall_not_mem.2 fun found hfound => ?_
        exact h _ ((headerAt?_plain hbefore rfl).1 hfound).1
      rw [List.cons_append] at hskip ⊢
      rw [findHeader?_cons hskip]
      simp only [declares_cons hnot]
      rw [List.all_cons, Bool.and_eq_true] at hbefore
      exact ih hbefore.2 _

/-- A header that is found stands in the text, and a brace after it. -/
theorem exists_of_findHeader? {afterWord : Bool} {s rest : Text} {header : Header}
    (h : findHeader? afterWord s = some (header, rest)) :
    ∃ before form, s = before ++ form ++ '{' :: rest ∧ HeaderForm header form := by
  induction s generalizing afterWord with
  | nil => cases h
  | cons c s ih =>
    rw [findHeader?] at h
    split at h
    · next found hfound =>
      rw [h] at hfound
      split at hfound
      · cases hfound
      · obtain ⟨form, hform, hheader⟩ := headerAt?_iff.1 hfound
        exact ⟨[], form, hform, hheader⟩
    · obtain ⟨before, form, rfl, hheader⟩ := ih h
      exact ⟨c :: before, form, rfl, hheader⟩

/-! ### The blocks found -/

theorem blocks_of_none {s : Text} (h : findHeader? false s = none) : blocks s = [] := by
  rw [blocks.eq_def]
  split
  · rfl
  · next hfound => rw [h] at hfound; cases hfound

/-- A search that finds a header looks for the closing brace behind it. -/
theorem blocks_of_some {s t : Text} {header : Header} (h : findHeader? false s = some (header, t)) :
    blocks s = match t.dropWhile isBodyChar with
      | [] => []
      | _ :: rest =>
        if (t.takeWhile isBodyChar).contains '{' then blocks t
        else ⟨header, t.takeWhile isBodyChar⟩ :: blocks rest := by
  rw [blocks.eq_def]
  split
  · next hnone => rw [h] at hnone; cases hnone
  · next header' t' hfound =>
    rw [h] at hfound
    cases hfound
    split
    · next hnil =>
      dsimp only
      rw [hnil]
    · next hcons =>
      dsimp only
      rw [hcons]

/-- The blocks found depend on the first header alone. -/
theorem blocks_congr {s t : Text} (h : findHeader? false s = findHeader? false t) :
    blocks s = blocks t := by
  cases ht : findHeader? false t with
  | none => rw [blocks_of_none ht, blocks_of_none (h.trans ht)]
  | some found => rw [blocks_of_some ht, blocks_of_some (h.trans ht)]

/-- Without a closing brace there is no block. -/
theorem blocks_of_body {s : Text} (h : s.all isBodyChar = true) : blocks s = [] := by
  cases hs : findHeader? false s with
  | none => exact blocks_of_none hs
  | some found =>
    obtain ⟨header, t⟩ := found
    obtain ⟨before, form, rfl, -⟩ := exists_of_findHeader? hs
    rw [List.all_append, List.all_cons, Bool.and_eq_true, Bool.and_eq_true] at h
    have hrest : t.dropWhile isBodyChar = [] := by
      have hrun := Text.dropWhile_run h.2.2 (Text.stops_nil)
      rwa [List.append_nil] at hrun
    rw [blocks_of_some hs, hrest]

theorem isBodyChar_of_isPlain {c : Char} (h : isPlain c = true) : isBodyChar c = true :=
  decide_eq_true (isPlain_iff.1 h).2

theorem all_isBodyChar {s : Text} (h : s.all isPlain = true) : s.all isBodyChar = true :=
  List.all_eq_true.2 fun c hc => isBodyChar_of_isPlain (List.all_eq_true.1 h c hc)

/-- A header with the next brace a closing one makes a block, and reading goes on behind it. -/
theorem blocks_closing {s body rest : Text} {header : Header} (hbody : body.all isPlain = true)
    (h : findHeader? false s = some (header, body ++ '}' :: rest)) :
    blocks s = ⟨header, body⟩ :: blocks rest := by
  have hstops : Text.Stops isBodyChar ('}' :: rest) := Text.stops_cons rfl rest
  have hno : ¬ body.contains '{' = true := by
    rw [List.contains_iff_mem]
    intro hmem
    exact (isPlain_iff.1 (List.all_eq_true.1 hbody _ hmem)).1 rfl
  rw [blocks_of_some h, Text.dropWhile_run (all_isBodyChar hbody) hstops,
    Text.takeWhile_run (all_isBodyChar hbody) hstops]
  dsimp only
  rw [if_neg hno]

/-- A header with the next brace an opening one makes no block, and reading goes on inside. -/
theorem blocks_opening {s body rest : Text} {header : Header} (hbody : body.all isPlain = true)
    (h : findHeader? false s = some (header, body ++ '{' :: rest)) :
    blocks s = blocks (body ++ '{' :: rest) := by
  obtain ⟨heq, hrun, -⟩ := Text.exists_run isBodyChar (body ++ '{' :: rest)
  rw [blocks_of_some h]
  cases hdrop : (body ++ '{' :: rest).dropWhile isBodyChar with
  | nil =>
    -- there is no closing brace in all the rest, and so no block in it either
    rw [hdrop, List.append_nil] at heq
    rw [← heq] at hrun
    exact (blocks_of_body hrun).symm
  | cons c after =>
    have htake : (body ++ '{' :: rest).takeWhile isBodyChar =
        body ++ '{' :: rest.takeWhile isBodyChar := by
      rw [List.takeWhile_append_of_pos (List.all_eq_true.1 (all_isBodyChar hbody)),
        List.takeWhile_cons]
      rfl
    have hmem : (body ++ '{' :: rest.takeWhile isBodyChar).contains '{' = true :=
      List.contains_iff_mem.2 (List.mem_append_right _ List.mem_cons_self)
    rw [htake]
    dsimp only
    rw [if_pos hmem]

/-- **The blocks that are found are the blocks that count**, by induction on the length of the text: each
search passes over one brace at least. -/
theorem reads_blocks (s : Text) : Reads (innermost (pieces s)) (blocks s) := by
  induction hn : s.length using Nat.strongRecOn generalizing s with
  | ind n ih =>
    have step : ∀ before rest : Text, ∀ c, s = before ++ c :: rest →
        Reads (innermost (pieces rest)) (blocks rest) := by
      intro before rest c hs
      refine ih rest.length ?_ rest rfl
      rw [← hn, hs, List.length_append, List.length_cons]
      omega
    rcases brace_cases s with hs | ⟨before, rest, hbefore, rfl | rfl⟩
    · rw [pieces_of_plain hs, blocks_of_none (findHeader?_of_plain hs false)]
      exact .done
    · rw [pieces_append hbefore rfl]
      have hinside := step before rest '{' rfl
      rcases findHeader?_opening hbefore false rest with ⟨header, hdeclares, hfound⟩ | ⟨hnone, hfound⟩
      · rcases brace_cases rest with hrest | ⟨body, rest, hbody, rfl | rfl⟩
        · have hblocks : blocks (before ++ '{' :: rest) = [] := by
            have hdrop := Text.dropWhile_run (all_isBodyChar hrest) Text.stops_nil
            rw [List.append_nil] at hdrop
            rw [blocks_of_some hfound, hdrop]
          simpa [hblocks, pieces_of_plain hrest] using Reads.done
        · rw [blocks_opening hbody hfound, pieces_append hbody rfl, innermost_opening_opening,
            ← pieces_append hbody rfl]
          exact hinside
        · rw [blocks_closing hbody hfound, pieces_append hbody rfl, innermost_opening_closing]
          exact .block hdeclares (step (before ++ '{' :: body) rest '}' (by simp))
      · rw [blocks_congr hfound]
        rcases brace_cases rest with hrest | ⟨body, rest, hbody, rfl | rfl⟩
        · rw [pieces_of_plain hrest] at hinside ⊢
          exact hinside
        · rw [pieces_append hbody rfl, innermost_opening_opening, ← pieces_append hbody rfl]
          exact hinside
        · rw [pieces_append hbody rfl, innermost_closing] at hinside
          rw [pieces_append hbody rfl, innermost_opening_closing]
          exact .ignored hnone hinside
    · rw [pieces_append hbefore rfl, innermost_closing, blocks_congr (findHeader?_closing hbefore false rest)]
      exact step before rest '}' rfl

/-! ### One reading -/

/-- A text declares one thing only. -/
theorem Declares.unique {afterWord : Bool} {s : Text} {d d' : Option Header}
    (h : Declares afterWord s d) (h' : Declares afterWord s d') : d = d' := by
  cases d with
  | none =>
    cases d' with
    | none => rfl
    | some header' =>
      obtain ⟨form', hform', -⟩ := h'
      exact absurd hform' (h header' form')
  | some header =>
    obtain ⟨form, hform, hlongest⟩ := h
    cases d' with
    | none => exact absurd hform (h' header form)
    | some header' =>
      obtain ⟨form', hform', hlongest'⟩ := h'
      have hlength : form.length = form'.length :=
        Nat.le_antisymm (hlongest' header form hform) (hlongest header' form' hform')
      obtain ⟨hh, before, heq, -⟩ := hform
      obtain ⟨hh', before', heq', -⟩ := hform'
      obtain ⟨-, rfl⟩ := List.append_inj' (heq.symm.trans heq') hlength
      rw [hh.unique hh']

theorem Reads.unique {pairs : List (Text × Text)} {bs bs' : List Block} (h : Reads pairs bs)
    (h' : Reads pairs bs') : bs = bs' := by
  induction h generalizing bs' with
  | done =>
    cases h'
    rfl
  | ignored hnone _ ih =>
    cases h' with
    | ignored _ hrest => exact ih hrest
    | block hsome _ => exact absurd (hnone.unique hsome) nofun
  | block hsome _ ih =>
    cases h' with
    | ignored hnone _ => exact absurd (hnone.unique hsome) nofun
    | block hsome' hrest =>
      have hheader := hsome.unique hsome'
      cases hheader
      rw [ih hrest]

end StyleSheet

/-! ### The style that blocks set -/

open StyleSheet (permittedProps Reads innermost pieces uncommented)

namespace Block

variable (w : Whitelists)

/-- The rule that a block sets for a paragraph name. -/
def paragraphRule? (name : Text) (b : Block) : Option Rule :=
  if b.header = .paragraph name then some ⟨permittedProps b.body w.paragraph⟩ else none

/-- The rule that a block sets for an opening delimiter. -/
def spanRule? (opening : Text) (b : Block) : Option SpanRule :=
  match b.header with
  | .span o closer => if o = opening then some ⟨permittedProps b.body w.span, closer⟩ else none
  | _ => none

/-- The rule that a block sets for the container. -/
def containerRule? (b : Block) : Option Rule :=
  if b.header = .container then some ⟨permittedProps b.body w.container⟩ else none

end Block

/-- The rules of a style are those that blocks set, the last block with a rule of a name deciding. -/
structure Style.SetBy (w : Whitelists) (blocks : List Block) (style : Style) : Prop where
  paragraph : ∀ name, style.paragraph.get? name =
    blocks.reverse.findSome? (Block.paragraphRule? w name)
  span : ∀ opening, style.span.get? opening = blocks.reverse.findSome? (Block.spanRule? w opening)
  container : style.container = blocks.reverse.findSome? (Block.containerRule? w)

namespace Style

/-- What a fold writes last is what is read after it. -/
theorem foldl_lookup {σ β α : Type} {step : σ → β → σ} {write : β → Option α} (look : σ → Option α)
    (h : ∀ s b, look (step s b) = (write b).or (look s)) (bs : List β) (s : σ) :
    look (bs.foldl step s) = (bs.reverse.findSome? write).or (look s) := by
  induction bs generalizing s with
  | nil => rfl
  | cons b bs ih =>
    have hlast : (bs.reverse ++ [b]).findSome? write =
        (bs.reverse.findSome? write).or (write b) := by
      rw [List.findSome?_append, List.findSome?_singleton]
    rw [List.foldl_cons, ih, h, List.reverse_cons, hlast, Option.or_assoc]

variable (w : Whitelists)

@[simp] theorem paragraph_addBlock (name : Text) (s : Style) (b : Block) :
    (addBlock w s b).paragraph.get? name =
      (b.paragraphRule? w name).or (s.paragraph.get? name) := by
  rw [addBlock, Block.paragraphRule?]
  cases b.header with
  | paragraph n =>
    by_cases hn : n = name <;> simp [hn]
  | span o closer => simp
  | container => simp

@[simp] theorem span_addBlock (opening : Text) (s : Style) (b : Block) :
    (addBlock w s b).span.get? opening = (b.spanRule? w opening).or (s.span.get? opening) := by
  rw [addBlock, Block.spanRule?]
  cases b.header with
  | span o closer =>
    by_cases ho : o = opening <;> simp [ho]
  | paragraph n => simp
  | container => simp

@[simp] theorem container_addBlock (s : Style) (b : Block) :
    (addBlock w s b).container = (b.containerRule? w).or s.container := by
  rw [addBlock, Block.containerRule?]
  cases b.header <;> simp

theorem setBy_foldl (bs : List Block) : SetBy w bs (bs.foldl (addBlock w) empty) where
  paragraph := fun name =>
    (foldl_lookup (fun s : Style => s.paragraph.get? name) (paragraph_addBlock w name) bs
      empty).trans (Option.or_none)
  span := fun opening =>
    (foldl_lookup (fun s : Style => s.span.get? opening) (span_addBlock w opening) bs empty).trans (Option.or_none)
  container :=
    (foldl_lookup Style.container (container_addBlock w) bs empty).trans (Option.or_none)

/-- **A sheet is read exactly by its grammar.** Of the sheet without its comments there is one reading by
the braces, and the style of the sheet has just the rules that the blocks of this reading set, each with
the properties that the whitelist of its namespace permits, the last block of a name deciding. They are set
one after the other, so rules come in the order in which their names first occur. -/
theorem sheet_read_exactly (sheet : Text) :
    ∃ bs, (∀ bs', Reads (innermost (pieces (uncommented sheet))) bs' ↔ bs' = bs) ∧
      SetBy w bs (ofSheet w sheet) ∧ ofSheet w sheet = bs.foldl (addBlock w) empty := by
  have hreads := StyleSheet.reads_blocks (uncommented sheet)
  have hsheet : ofSheet w sheet =
      (StyleSheet.blocks (uncommented sheet)).foldl (addBlock w) empty := by
    rw [ofSheet, StyleSheet.removeComments_eq]
  refine ⟨StyleSheet.blocks (uncommented sheet), fun bs' => ⟨fun h => h.unique hreads, ?_⟩, ?_, hsheet⟩
  · rintro rfl
    exact hreads
  · rw [hsheet]
    exact setBy_foldl w _

end Style

end ProseMarkup
