import ProseMarkup.Proofs.Comments
import ProseMarkup.Proofs.Declarations
import ProseMarkup.Proofs.SheetGrammar

/-!
# What a style declares

The rules of all namespaces in one list, each as a header with properties, say all there is to a style.
What the style of a sheet declares stands in the sheet, and so its names and its properties can be written
in a sheet again: they hold no brace, no comment, and nothing that would end them early.

* `Style.declared`, `Style.declare` : the rules of a style, and a style with one more rule.
* `Style.foldl_declare_declared` : **a style is set by what it declares**.
* `StyleSheet.IsWord`, `StyleSheet.IsLegible` : names and properties that can be written in a sheet.
* `StyleSheet.exists_of_mem_blocks` : a block that is found stands in the text.
* `Style.IsLegible`, `Style.isLegible_ofSheet` : **what the style of a sheet declares can be written in a
  sheet**.
-/

namespace ProseMarkup

/-! ### Dictionaries, entry by entry -/

namespace Dict

section Entries

variable {κ ν : Type} [BEq κ] [LawfulBEq κ]

theorem setEntry_of_not_mem {k : κ} (v : ν) {es : List (κ × ν)} (h : k ∉ es.map Prod.fst) :
    setEntry k v es = es ++ [(k, v)] := by
  induction es with
  | nil => rfl
  | cons e es ih =>
    rw [List.map_cons, List.mem_cons, not_or] at h
    rw [setEntry, if_neg fun heq => h.1 (eq_of_beq heq).symm, ih h.2]
    rfl

/-- Entries with new keys, written one by one, come after those that are there. -/
theorem overlayEntries_of_nodup {base es : List (κ × ν)}
    (h : ((base ++ es).map Prod.fst).Nodup) : overlayEntries base es = base ++ es := by
  induction es generalizing base with
  | nil => exact (List.append_nil base).symm
  | cons e es ih =>
    have hnew : e.1 ∉ base.map Prod.fst := by
      rw [List.map_append, List.nodup_append] at h
      exact fun hmem => h.2.2 _ hmem _ List.mem_cons_self rfl
    have hsplit : base ++ e :: es = (base ++ [e]) ++ es := by
      rw [List.append_assoc, List.singleton_append]
    rw [overlayEntries, List.foldl_cons, setEntry_of_not_mem e.2 hnew, hsplit]
    rw [hsplit] at h
    exact ih h

end Entries

variable {κ ν : Type} [DecidableEq κ]

@[simp] theorem entries_overlay (d e : Dict κ ν) :
    (d.overlay e).entries = overlayEntries d.entries e.entries := by
  rw [overlay]
  generalize e.entries = es
  induction es generalizing d with
  | nil => rfl
  | cons p es ih => exact ih (d.set p.1 p.2)

/-- Written over nothing, a dictionary is itself, the order of its entries included. -/
@[simp] theorem overlay_empty (d : Dict κ ν) : empty.overlay d = d := by
  apply ext
  rw [entries_overlay]
  exact overlayEntries_of_nodup d.nodup

end Dict

/-! ### The rules of a style in one list -/

/-- The names in a header. -/
def Header.names : Header → List Text
  | .paragraph name => [name]
  | .span opening closer => opening :: closer.toList
  | .container => []

/-- The whitelist of the namespace of a header. -/
def Header.whitelist (w : Whitelists) : Header → Whitelist
  | .paragraph _ => w.paragraph
  | .span _ _ => w.span
  | .container => w.container

namespace Style

open StyleSheet (permittedProps)

/-- The rules of a style: those for paragraphs, those for spans and that for the container. -/
def declared (s : Style) : List (Header × Dict Text Text) :=
  (s.paragraph.entries.map fun e => (.paragraph e.1, e.2.props)) ++
    (s.span.entries.map fun e => (.span e.1 e.2.closer, e.2.props)) ++
    s.container.toList.map fun r => (.container, r.props)

/-- A style with one more rule, in the place of any earlier one of its name. -/
def declare (s : Style) (d : Header × Dict Text Text) : Style :=
  match d.1 with
  | .paragraph name => { s with paragraph := s.paragraph.set name ⟨d.2⟩ }
  | .span opening closer => { s with span := s.span.set opening ⟨d.2, closer⟩ }
  | .container => { s with container := some ⟨d.2⟩ }

theorem addBlock_eq_declare (w : Whitelists) (s : Style) (b : Block) :
    addBlock w s b = s.declare (b.header, permittedProps b.body (b.header.whitelist w)) := by
  rw [addBlock, declare]
  cases b.header <;> rfl

theorem foldl_declare_paragraph (es : List (Text × Rule)) (s : Style) :
    (es.map fun e => (Header.paragraph e.1, e.2.props)).foldl declare s =
      { s with paragraph := es.foldl (fun acc e => acc.set e.1 e.2) s.paragraph } := by
  induction es generalizing s with
  | nil => rfl
  | cons e es ih => exact ih _

theorem foldl_declare_span (es : List (Text × SpanRule)) (s : Style) :
    (es.map fun e => (Header.span e.1 e.2.closer, e.2.props)).foldl declare s =
      { s with span := es.foldl (fun acc e => acc.set e.1 e.2) s.span } := by
  induction es generalizing s with
  | nil => rfl
  | cons e es ih => exact ih _

/-- **A style is set by what it declares**, rule after rule. -/
@[simp] theorem foldl_declare_declared (s : Style) : s.declared.foldl declare empty = s := by
  obtain ⟨paragraph, span, container⟩ := s
  rw [declared, List.foldl_append, List.foldl_append, foldl_declare_paragraph, foldl_declare_span]
  have hparagraph := Dict.overlay_empty paragraph
  have hspan := Dict.overlay_empty span
  rw [Dict.overlay] at hparagraph hspan
  simp only [empty, hparagraph, hspan]
  cases container <;> rfl

/-- One more rule: nothing else comes to what a style declares. -/
theorem mem_declared_declare {s : Style} {d e : Header × Dict Text Text}
    (h : e ∈ (s.declare d).declared) : e ∈ s.declared ∨ e = d := by
  obtain ⟨header, props⟩ := d
  simp only [declared, List.mem_append, List.mem_map, Option.mem_toList] at h ⊢
  cases header with
  | paragraph name =>
    rcases h with (⟨f, hf, rfl⟩ | h) | h
    · rcases Dict.mem_entries_set hf with hf | rfl
      · exact .inl (.inl (.inl ⟨f, hf, rfl⟩))
      · exact .inr rfl
    · exact .inl (.inl (.inr h))
    · exact .inl (.inr h)
  | span opening closer =>
    rcases h with (h | ⟨f, hf, rfl⟩) | h
    · exact .inl (.inl (.inl h))
    · rcases Dict.mem_entries_set hf with hf | rfl
      · exact .inl (.inl (.inr ⟨f, hf, rfl⟩))
      · exact .inr rfl
    · exact .inl (.inr h)
  | container =>
    rcases h with (h | h) | ⟨r, hr, rfl⟩
    · exact .inl (.inl (.inl h))
    · exact .inl (.inl (.inr h))
    · cases hr
      exact .inr rfl

/-- What the style of a sheet declares, blocks of the sheet declare. -/
theorem exists_block_of_mem_declared {w : Whitelists} {sheet : Text} {d : Header × Dict Text Text}
    (h : d ∈ (ofSheet w sheet).declared) :
    ∃ b ∈ StyleSheet.blocks (StyleSheet.removeComments sheet),
      d = (b.header, permittedProps b.body (b.header.whitelist w)) := by
  revert d
  rw [ofSheet]
  apply List.foldlRecOn (motive := fun s : Style => ∀ d ∈ s.declared,
    ∃ b ∈ StyleSheet.blocks (StyleSheet.removeComments sheet),
      d = (b.header, permittedProps b.body (b.header.whitelist w)))
  · intro d hd
    cases hd
  · intro s hs b hb d hd
    rw [addBlock_eq_declare] at hd
    rcases mem_declared_declare hd with hd | rfl
    · exact hs d hd
    · exact ⟨b, hb, rfl⟩

end Style

/-! ### What can be written in a sheet -/

namespace StyleSheet

/-- A name that can be written in a sheet. -/
def IsWord (s : Text) : Prop :=
  IsName s ∧ SlashesApart s

/-- A property that can be written in a sheet, and is permitted there. -/
structure IsLegible (w : Whitelist) (p : Text × Text) : Prop where
  named : p.1 ≠ []
  key : p.1.all isKeyChar = true
  plain : p.2.all isPlain = true
  apart : SlashesApart p.2
  trimmed : Text.strip p.2 = p.2
  permitted : w.permits p.1 = true
  safe : PropertyValue.isSafe p.2 = true

theorem all_of_infix {p : Char → Bool} {s t : Text} (h : t.all p = true) (hs : s <:+: t) :
    s.all p = true :=
  List.all_eq_true.2 fun c hc => List.all_eq_true.1 h c (hs.subset hc)

/-- The names in a header stand in its text. -/
theorem HeaderForm.names {header : Header} {form : Text} (h : HeaderForm header form) :
    ∀ n ∈ header.names, IsName n ∧ n <:+: form := by
  intro n hn
  cases h with
  | @paragraph keyword gap name after hkeyword hgap hname hafter =>
    rw [List.mem_singleton.1 hn]
    exact ⟨hname, keyword ++ gap, after, rfl⟩
  | @span keyword gap opening after hkeyword hgap hopening hafter =>
    rw [List.mem_singleton.1 hn]
    exact ⟨hopening, keyword ++ gap, after, rfl⟩
  | @closedSpan keyword gap opening between closer after hkeyword hgap hopening hbetween hcloser
      hafter =>
    rcases List.mem_cons.1 hn with rfl | hn
    · exact ⟨hopening, keyword ++ gap, between ++ closer ++ after, by simp only [List.append_assoc]⟩
    · rw [List.mem_singleton.1 hn]
      exact ⟨hcloser, keyword ++ gap ++ opening ++ between, after, rfl⟩
  | container hafter => cases hn

/-- **A block that is found stands in the text**: its header, a brace, its body, and no brace in either. -/
theorem exists_of_mem_blocks {s : Text} {b : Block} (h : b ∈ blocks s) :
    ∃ form, HeaderForm b.header form ∧ b.body.all isPlain = true ∧ form ++ '{' :: b.body <:+: s := by
  fun_induction blocks s with
  | case1 s hnone => cases h
  | case2 s header t hfound hlt hdrop => cases h
  | case3 s header t hfound hlt c rest hdrop hle body hbrace ih =>
    -- the block was given up, and reading went on behind the brace of its header
    obtain ⟨before, form, rfl, -⟩ := exists_of_findHeader? hfound
    obtain ⟨form', hform', hbody, hinfix⟩ := ih h
    refine ⟨form', hform', hbody, hinfix.trans ?_⟩
    exact ⟨before ++ form ++ ['{'], [], by simp⟩
  | case4 s header t hfound hlt c rest hdrop hle body hbrace ih =>
    obtain ⟨before, form, rfl, hform⟩ := exists_of_findHeader? hfound
    have ht : t = body ++ c :: rest := by
      rw [← hdrop]
      exact List.takeWhile_append_dropWhile.symm
    rcases List.mem_cons.1 h with rfl | h
    · refine ⟨form, hform, ?_, before, c :: rest, ?_⟩
      · apply List.all_eq_true.2
        intro d hd
        refine isPlain_iff.2 ⟨?_, ?_⟩
        · rintro rfl
          exact hbrace (List.contains_iff_mem.2 hd)
        · exact of_decide_eq_true (List.all_eq_true.1 List.all_takeWhile d hd)
      · rw [ht]
        simp
    · obtain ⟨form', hform', hbody, hinfix⟩ := ih h
      refine ⟨form', hform', hbody, hinfix.trans ?_⟩
      exact ⟨before ++ form ++ '{' :: body ++ [c], [], by rw [ht]; simp⟩

/-! ### Pairs in a body -/

/-- A pair that is read of a body has a name, and its value stands in the body. -/
theorem exists_of_mem_pairs {body : Text} {p : Text × Text} (h : p ∈ pairs body) :
    p.1 ≠ [] ∧ p.1.all isKeyChar = true ∧ ∃ raw, raw <:+: body ∧ p.2 = Text.strip raw := by
  fun_induction pairs body with
  | case1 => cases h
  | case2 c s pair rest hpair hlt ih =>
    obtain ⟨blanks, raw, heq, hne, hkey, -, -, hvalue⟩ := exists_of_pairAt? hpair
    rw [heq]
    rcases List.mem_cons.1 h with rfl | h
    · exact ⟨hne, hkey, raw, ⟨p.1 ++ blanks ++ [':'], ';' :: rest, by simp⟩, hvalue⟩
    · obtain ⟨hne', hkey', raw', hinfix, hvalue'⟩ := ih h
      refine ⟨hne', hkey', raw', hinfix.trans ?_, hvalue'⟩
      exact ⟨pair.1 ++ blanks ++ ':' :: raw ++ [';'], [], by simp⟩
  | case3 c s hnone ih =>
    obtain ⟨hne, hkey, raw, hinfix, hvalue⟩ := ih h
    exact ⟨hne, hkey, raw, hinfix.trans (List.suffix_cons c s).isInfix, hvalue⟩

/-- **The properties that a body without braces and comments sets can be written in a sheet.** -/
theorem isLegible_of_mem_permittedProps {body : Text} (hplain : body.all isPlain = true)
    (hapart : SlashesApart body) {w : Whitelist} {p : Text × Text}
    (h : p ∈ (permittedProps body w).entries) : IsLegible w p := by
  obtain ⟨hpair, hpermitted⟩ := mem_pairs_of_mem_permittedProps h
  obtain ⟨hne, hkey, raw, hinfix, hvalue⟩ := exists_of_mem_pairs hpair
  rw [Bool.and_eq_true] at hpermitted
  have hinside : p.2 <:+: body := by
    rw [hvalue]
    exact (Text.trim_infix raw).trans hinfix
  exact {
    named := hne
    key := hkey
    plain := all_of_infix hplain hinside
    apart := List.IsChain.infix hapart hinside
    trimmed := by
      rw [hvalue]
      exact Text.trim_trim raw
    permitted := hpermitted.1
    safe := hpermitted.2 }

end StyleSheet

namespace Style

/-- A style that can be written in a sheet, and is permitted there. -/
def IsLegible (w : Whitelists) (s : Style) : Prop :=
  ∀ d ∈ s.declared, (∀ n ∈ d.1.names, StyleSheet.IsWord n) ∧
    ∀ p ∈ d.2.entries, StyleSheet.IsLegible (d.1.whitelist w) p

/-- **What the style of a sheet declares can be written in a sheet**: all names and all properties. -/
theorem isLegible_ofSheet (w : Whitelists) (sheet : Text) : (ofSheet w sheet).IsLegible w := by
  intro d h
  obtain ⟨b, hb, rfl⟩ := exists_block_of_mem_declared h
  obtain ⟨form, hform, hbody, hinfix⟩ := StyleSheet.exists_of_mem_blocks hb
  have hapart := List.IsChain.infix (StyleSheet.slashesApart_removeComments sheet) hinfix
  obtain ⟨hformApart, hbodyApart⟩ := (StyleSheet.slashesApart_append_cons (by decide)).1 hapart
  constructor
  · intro n hn
    obtain ⟨hname, hnform⟩ := hform.names n hn
    exact ⟨hname, List.IsChain.infix hformApart hnform⟩
  · intro p hp
    exact StyleSheet.isLegible_of_mem_permittedProps hbody hbodyApart hp

end Style

end ProseMarkup
