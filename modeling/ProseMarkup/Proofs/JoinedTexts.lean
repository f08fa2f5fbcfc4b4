import ProseMarkup.Proofs.ManuscriptSource

/-!
# Texts joined at blank lines

What separates two paragraphs is one blank line or more. Two texts without edge matter that are joined at
blank lines therefore have no paragraph in common: the lines around the joint are ordinary ones, whatever
delimiter lines and blank lines the two texts have inside, and the ends of the joined text are the outer
ends of the two.

* `Lines.paragraphs_append_blanks` : the paragraphs on both sides of blank lines.
* `Manuscript.joinedAt` : two texts with blank lines between them.
* `Manuscript.ofText_joinedAt` : **they are cut into the paragraphs of the one and those of the other**.
* `Document.compile_joinedAt` : **and are compiled piece by piece**.
-/

namespace ProseMarkup

/-- The paragraphs on both sides of empty lines are apart. -/
theorem Lines.paragraphs_append_blanks {blanks : List Text} (hne : blanks ≠ [])
    (hblanks : ∀ l ∈ blanks, l = []) (ls rest : List Text) :
    paragraphs (ls ++ (blanks ++ rest)) = paragraphs ls ++ paragraphs rest := by
  induction blanks generalizing ls with
  | nil => exact absurd rfl hne
  | cons l blanks ih =>
    rw [List.forall_mem_cons] at hblanks
    rw [hblanks.1, List.cons_append, paragraphs_append_blank]
    cases blanks with
    | nil => rw [List.nil_append]
    | cons l' blanks =>
      -- The empty lines that remain stand before the rest, with no line in front of them.
      exact congrArg (paragraphs ls ++ ·) (ih (List.cons_ne_nil l' blanks) hblanks.2 [])

/-! ### Cutting a joined text -/

namespace Manuscript

/-- A text of blanks only. -/
def IsBlankLine (l : Text) : Prop :=
  l.all Text.isBlank = true

instance (l : Text) : Decidable (IsBlankLine l) :=
  inferInstanceAs (Decidable (_ = _))

/-- Two texts with a newline between them, and with lines after that, each of which a newline ends. -/
def joinedAt (between : List Text) (s t : Text) : Text :=
  s ++ '\n' :: (between.flatMap (· ++ ['\n']) ++ t)

variable {between : List Text} {s t : Text}

/-- Nothing is left of blanks when they are stripped, not even if there are newlines among them. -/
theorem strippedLines_of_isBlankLine {l : Text} (h : IsBlankLine l) :
    ∀ l' ∈ strippedLines l, l' = [] := by
  intro l' hl'
  obtain ⟨piece, hpiece, rfl⟩ := List.mem_map.1 hl'
  have hdrop : piece.dropWhile Text.isBlank = [] :=
    List.dropWhile_eq_nil_iff.2 fun c hc => List.all_eq_true.1 h c ((Text.of_mem_lines hpiece).1 hc)
  rw [Text.strip, Text.trim, hdrop]
  rfl

/-- The lines of a text after others, each of which a newline ends. -/
@[simp] theorem strippedLines_ended (between : List Text) (t : Text) :
    strippedLines (between.flatMap (· ++ ['\n']) ++ t) =
      between.flatMap strippedLines ++ strippedLines t := by
  induction between with
  | nil => rfl
  | cons l between ih =>
    have hcons : (l :: between).flatMap (· ++ ['\n']) ++ t =
        l ++ '\n' :: (between.flatMap (· ++ ['\n']) ++ t) := by
      rw [List.flatMap_cons, List.append_assoc, List.append_assoc, List.singleton_append]
    simp [ih]

@[simp] theorem strippedLines_joinedAt (between : List Text) (s t : Text) :
    strippedLines (joinedAt between s t) =
      strippedLines s ++ (between.flatMap strippedLines ++ strippedLines t) := by
  simp [joinedAt]

/-- The ends of a joined text are those of the texts. -/
theorem IsBody.joinedAt (hs : IsBody s) (ht : IsBody t) (between : List Text) :
    IsBody (joinedAt between s t) := by
  rw [IsBody, strippedLines_joinedAt]
  refine ⟨hs.head?_append _, ?_⟩
  rw [← List.append_assoc, List.getLast?_append_of_ne_nil _ (strippedLines_ne_nil t)]
  exact ht.2

/-- **Texts that are joined at blank lines are cut into the paragraphs of the one and those of the other.** -/
theorem ofText_joinedAt (hs : IsBody s) (ht : IsBody t) (hne : between ≠ [])
    (hblank : ∀ l ∈ between, IsBlankLine l) :
    ofText (joinedAt between s t) = ⟨[], (ofText s).paragraphs ++ (ofText t).paragraphs⟩ := by
  have hlines : between.flatMap strippedLines ≠ [] := by
    obtain ⟨l, rest, rfl⟩ := List.exists_cons_of_ne_nil hne
    rw [List.flatMap_cons]
    exact List.append_ne_nil_of_left_ne_nil (strippedLines_ne_nil l) _
  have hempty : ∀ l' ∈ between.flatMap strippedLines, l' = [] := by
    intro l' hl'
    obtain ⟨l, hl, hmem⟩ := List.mem_flatMap.1 hl'
    exact strippedLines_of_isBlankLine (hblank l hl) l' hmem
  rw [ofText_of_isBody (hs.joinedAt ht between), ofText_of_isBody hs, ofText_of_isBody ht]
  simp [Lines.paragraphs_append_blanks hlines hempty]

end Manuscript

/-! ### Its compilation -/

namespace Document

open Manuscript (IsBody IsBlankLine joinedAt)

/-- With usable delimiters, a text is compiled paragraph by paragraph. -/
theorem exists_compiled {w : Whitelists} {styles : List Value} {s : Text} (options : CompileOptions)
    {rules : RuleIndex}
    (hrules : RuleIndex.ofValues (contributing w styles (Manuscript.ofText s).edgeMatter) = .ok rules)
    (hu : rules.unusable = []) :
    ∃ compiled c,
      (Manuscript.ofText s).paragraphs.mapM (Paragraph.compile rules options.links) = .ok compiled ∧
      compile w options styles s = .ok c ∧
      c.document.paragraphs = compiled.map ParagraphResolution.paragraph ∧
      c.warnings = compiled.flatMap ParagraphResolution.warnings := by
  have hall : ∀ lines ∈ (Manuscript.ofText s).paragraphs,
      ∃ p, Paragraph.compile rules options.links lines = .ok p ∧ True :=
    fun lines _ => ⟨_, Paragraph.compile_of_usable hu options.links lines, trivial⟩
  obtain ⟨compiled, hcompiled, -⟩ := exists_mapM (R := fun _ _ => True) hall
  simp only [compile, hrules, hcompiled, bind_ok]
  exact ⟨compiled, _, rfl, rfl, rfl, rfl⟩

/-- **Texts that are joined at blank lines are compiled piece by piece.** Under styles that are valid, two
texts without edge matter compile, and so do the two with one blank line or more between them: to the
paragraphs of the one and then those of the other, with the warnings of both. -/
theorem compile_joinedAt (w : Whitelists) (options : CompileOptions) {styles : List Value}
    (hvalid : ∀ st ∈ styles, ∃ v, Storage.validStyle v st = true) {s t : Text} (hs : IsBody s)
    (ht : IsBody t) {between : List Text} (hne : between ≠ []) (hblank : ∀ l ∈ between, IsBlankLine l) :
    ∃ cs ct c, compile w options styles s = .ok cs ∧ compile w options styles t = .ok ct ∧
      compile w options styles (joinedAt between s t) = .ok c ∧
      c.document.paragraphs = cs.document.paragraphs ++ ct.document.paragraphs ∧
      c.warnings = cs.warnings ++ ct.warnings := by
  have hjoined := Manuscript.ofText_joinedAt hs ht hne hblank
  -- None of the three texts has edge matter: the same rules apply to all of them.
  obtain ⟨rules, hrules, hu, -⟩ := RuleIndex.exists_ofValues_of_each (valid_contributing (w := w) hvalid [])
  have hindex : ∀ {text : Text}, (Manuscript.ofText text).edgeMatter = [] →
      RuleIndex.ofValues (contributing w styles (Manuscript.ofText text).edgeMatter) = .ok rules :=
    fun h => h ▸ hrules
  obtain ⟨before, cs, hbefore, hcs, hps, hws⟩ :=
    exists_compiled options (hindex (congrArg Manuscript.edgeMatter (Manuscript.ofText_of_isBody hs))) hu
  obtain ⟨after, ct, hafter, hct, hpt, hwt⟩ :=
    exists_compiled options (hindex (congrArg Manuscript.edgeMatter (Manuscript.ofText_of_isBody ht))) hu
  obtain ⟨compiled, c, hcompiled, hc, hp, hw⟩ :=
    exists_compiled options (hindex (congrArg Manuscript.edgeMatter hjoined)) hu
  have hboth : compiled = before ++ after := by
    rw [hjoined, List.mapM_append, hbefore, hafter] at hcompiled
    exact (Except.ok.inj hcompiled).symm
  refine ⟨cs, ct, c, hcs, hct, hc, ?_, ?_⟩
  · rw [hp, hps, hpt, hboth, List.map_append]
  · rw [hw, hws, hwt, hboth, List.flatMap_append]

/-- Delimiter lines inside both texts, and two blank lines between them, one of which has blanks. -/
theorem compile_joinedAt_delimiters_inside :
    (∀ st ∈ [Value.style (.dict []) (.dict [(.str "*".toList, .spanRule (.dict []) .null)]) .null],
        ∃ v, Storage.validStyle v st = true) ∧
    IsBody "a\n---\n\n*b".toList ∧ IsBody "c*\n---\nd".toList ∧
    (∀ l ∈ [[], " \t".toList], IsBlankLine l) ∧
    joinedAt [[], " \t".toList] "a\n---\n\n*b".toList "c*\n---\nd".toList =
      "a\n---\n\n*b\n\n \t\nc*\n---\nd".toList ∧
    ∃ cs ct c,
      compile ⟨.ofPatterns [], .ofPatterns [], .ofPatterns []⟩ {}
        [.style (.dict []) (.dict [(.str "*".toList, .spanRule (.dict []) .null)]) .null]
        "a\n---\n\n*b".toList = .ok cs ∧
      compile ⟨.ofPatterns [], .ofPatterns [], .ofPatterns []⟩ {}
        [.style (.dict []) (.dict [(.str "*".toList, .spanRule (.dict []) .null)]) .null]
        "c*\n---\nd".toList = .ok ct ∧
      compile ⟨.ofPatterns [], .ofPatterns [], .ofPatterns []⟩ {}
        [.style (.dict []) (.dict [(.str "*".toList, .spanRule (.dict []) .null)]) .null]
        "a\n---\n\n*b\n\n \t\nc*\n---\nd".toList = .ok c ∧
      c.document.paragraphs = cs.document.paragraphs ++ ct.document.paragraphs := by
  have hvalid : ∀ st ∈ [Value.style (.dict []) (.dict [(.str "*".toList,
      .spanRule (.dict []) .null)]) .null], ∃ v, Storage.validStyle v st = true :=
    List.forall_mem_singleton.2 ⟨⟨.ofPatterns [], .ofPatterns [], .ofPatterns []⟩, rfl⟩
  have hs : IsBody "a\n---\n\n*b".toList := by decide +kernel
  have ht : IsBody "c*\n---\nd".toList := by decide +kernel
  have hblank : ∀ l ∈ [[], " \t".toList], IsBlankLine l := by decide
  have hjoined : joinedAt [[], " \t".toList] "a\n---\n\n*b".toList "c*\n---\nd".toList =
      "a\n---\n\n*b\n\n \t\nc*\n---\nd".toList := by decide +kernel
  obtain ⟨cs, ct, c, hcs, hct, hc, hparagraphs, -⟩ :=
    compile_joinedAt ⟨.ofPatterns [], .ofPatterns [], .ofPatterns []⟩ {} hvalid hs ht
      (List.cons_ne_nil [] [" \t".toList]) hblank
  rw [hjoined] at hc
  exact ⟨hvalid, hs, ht, hblank, hjoined, cs, ct, c, hcs, hct, hc, hparagraphs⟩

end Document

end ProseMarkup
