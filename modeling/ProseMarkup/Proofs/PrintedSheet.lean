import ProseMarkup.Proofs.Declared

/-!
# Printed sheets are read again

A style that comes of a sheet can be printed and read again: its names and properties can be written in a
sheet, so each block that is printed is found where it begins, ends at its own brace, and sets the rule that it
was printed from.

* `Style.sheet_eq` : a sheet is printed rule by rule.
* `StyleSheet.blocks_blockSource` : **a printed block is read as one block**, and reading goes on behind it.
* `StyleSheet.permittedProps_propsSource` : **printed properties are set again**.
* `Style.ofSheet_sheet` : **a style that can be written in a sheet is printed and read again**.
* `Style.ofSheet_sheet_ofSheet` : **the style of any sheet is**.
-/

namespace ProseMarkup

/-- The header that is printed. -/
def headerSource : Header → Text
  | .paragraph name => "para ".toList ++ name
  | .span opening closer => "span ".toList ++ opening ++ closerSource closer
  | .container => "cont".toList

theorem headerSource_span (opening : Text) (closer : Option Text) :
    headerSource (.span opening closer) = "span ".toList ++ opening ++ closerSource closer := rfl

/-- The block that is printed of a rule. -/
def declaredSource (d : Header × Dict Text Text) : Text :=
  blockSource (headerSource d.1) d.2

/-- A sheet is printed rule by rule. -/
theorem Style.sheet_eq (s : Style) : s.sheet = s.declared.flatMap declaredSource := by
  rw [declared, List.flatMap_append, List.flatMap_append, List.flatMap_map, List.flatMap_map, sheet]
  congr 1
  cases s.container with
  | none => rfl
  | some r => exact (List.append_nil _).symm

namespace StyleSheet

variable {header : Header} {props : Dict Text Text} {w : Whitelist}

theorem propsSource_eq (props : Dict Text Text) : propsSource props = declarations props.entries := rfl

/-! ### No comments -/

/-- Names without comments make a header without comments. -/
theorem slashesApart_headerSource (h : ∀ n ∈ header.names, SlashesApart n) :
    SlashesApart (headerSource header) := by
  have hkeyword {keyword name : Text} (hk : SlashesApart keyword) (hname : SlashesApart name) :
      SlashesApart (keyword ++ ' ' :: name) :=
    (slashesApart_append_cons (by decide)).2 ⟨hk, hname⟩
  cases header with
  | paragraph name =>
    have hpara : SlashesApart "para".toList := slashesApart_of_not_mem (by decide)
    exact hkeyword hpara (h name List.mem_cons_self)
  | span opening closer =>
    have hspan : SlashesApart "span".toList := slashesApart_of_not_mem (by decide)
    have hopening := hkeyword hspan (h opening List.mem_cons_self)
    cases closer with
    | none =>
      rw [headerSource_span, closerSource, List.append_nil]
      exact hopening
    | some closer => exact hkeyword hopening (h closer (List.mem_cons_of_mem _ List.mem_cons_self))
  | container => exact slashesApart_of_not_mem (by decide)

/-- Properties that can be written in a sheet make no comment. -/
theorem slashesApart_declarations {ps : List (Text × Text)} (h : ∀ p ∈ ps, IsLegible w p) :
    SlashesApart (declarations ps) := by
  induction ps with
  | nil => exact .nil
  | cons p ps ih =>
    obtain ⟨hp, hps⟩ := List.forall_mem_cons.1 h
    have hkey : SlashesApart p.1 := by
      refine slashesApart_of_not_mem fun hmem => ?_
      have hslash := List.all_eq_true.1 hp.key '/' hmem
      cases hslash
    have hform : declarations (p :: ps) =
        p.1 ++ ':' :: ([] ++ ' ' :: (p.2 ++ ';' :: declarations ps)) := by
      simp [declarations, declaration]
    rw [hform, slashesApart_append_cons (by decide), slashesApart_append_cons (by decide),
      slashesApart_append_cons (by decide)]
    exact ⟨hkey, .nil, hp.apart, ih hps⟩

/-- A block without comments, and a text without comments after it. -/
theorem slashesApart_blockSource {form rest : Text} (hform : SlashesApart form)
    (hprops : ∀ p ∈ props.entries, IsLegible w p) (hrest : SlashesApart rest) :
    SlashesApart (blockSource form props ++ rest) := by
  have hsource : blockSource form props ++ rest =
      form ++ ' ' :: ([] ++ '{' :: (declarations props.entries ++ '}' :: ([] ++ '\n' :: rest))) := by
    rw [blockSource, propsSource_eq]
    simp
  rw [hsource, slashesApart_append_cons (by decide), slashesApart_append_cons (by decide),
    slashesApart_append_cons (by decide), slashesApart_append_cons (by decide)]
  exact ⟨hform, .nil, slashesApart_declarations hprops, .nil, hrest⟩

/-! ### Blocks -/

/-- What is printed, up to its brace, is of the form of headers. -/
theorem headerForm_headerSource (h : ∀ n ∈ header.names, IsName n) :
    HeaderForm header (headerSource header ++ [' ']) := by
  have hblank : AreBlanks [' '] := rfl
  have hgap : IsGap [' '] := ⟨List.cons_ne_nil _ _, hblank⟩
  cases header with
  | paragraph name =>
    exact .paragraph (List.mem_cons_self (a := "para".toList)) hgap (h name List.mem_cons_self) hblank
  | span opening closer =>
    have hopening := h opening List.mem_cons_self
    have hkeyword : "span".toList ∈ spanKeywords := List.mem_cons_self
    cases closer with
    | none =>
      rw [headerSource_span, closerSource, List.append_nil]
      exact .span hkeyword hgap hopening hblank
    | some closer =>
      have hcloser := h closer (List.mem_cons_of_mem _ List.mem_cons_self)
      have hform := HeaderForm.closedSpan hkeyword hgap hopening hgap hcloser hblank
      rw [headerSource_span, closerSource, List.append_cons _ ' ' closer]
      exact hform
  | container => exact .container hblank

/-- A search stops at a header that the text begins with. -/
theorem findHeader?_of_headerAt? {s : Text} {found : Header × Text} (h : headerAt? s = some found) :
    findHeader? false s = some found := by
  cases s with
  | nil => cases h
  | cons c s => rw [findHeader?, if_neg Bool.false_ne_true, h]

/-- Properties that can be written in a sheet hold no brace. -/
theorem declarations_plain {ps : List (Text × Text)} (h : ∀ p ∈ ps, IsLegible w p) :
    (declarations ps).all isPlain = true := by
  induction ps with
  | nil => rfl
  | cons p ps ih =>
    obtain ⟨hp, hps⟩ := List.forall_mem_cons.1 h
    have hkey : p.1.all isPlain = true := by
      refine List.all_eq_true.2 fun c hc => isPlain_iff.2 ⟨?_, ?_⟩
      all_goals
        rintro rfl
        have hbrace := List.all_eq_true.1 hp.key _ hc
        cases hbrace
    rw [declarations, List.flatMap_cons, List.all_append, declaration, List.all_append,
      List.all_append, List.all_append, hkey, hp.plain]
    exact ih hps

/-- **A printed block is read as one block**, and reading goes on behind it. -/
theorem blocks_blockSource (hnames : ∀ n ∈ header.names, IsName n)
    (hprops : ∀ p ∈ props.entries, IsLegible w p) (rest : Text) :
    blocks (blockSource (headerSource header) props ++ rest) =
      ⟨header, propsSource props⟩ :: blocks rest := by
  have hsource : blockSource (headerSource header) props ++ rest =
      headerSource header ++ [' '] ++ '{' :: (propsSource props ++ '}' :: '\n' :: rest) := by
    simp [blockSource]
  have hbody : (propsSource props).all isPlain = true := declarations_plain hprops
  have hread := headerAt?_form (propsSource props ++ '}' :: '\n' :: rest)
    (headerForm_headerSource hnames)
  have hnewline : blocks ('\n' :: rest) = blocks rest := blocks_congr (findHeader?_cons (.inr rfl))
  rw [hsource, blocks_closing hbody (findHeader?_of_headerAt? hread), hnewline]

/-! ### Properties -/

/-- Properties that can be written in a sheet are read again, each as it was printed. -/
theorem pairs_of_isLegible {ps : List (Text × Text)} (h : ∀ p ∈ ps, IsLegible w p) :
    pairs (declarations ps) = ps := by
  have hdeclarable : ps.all isDeclarable = true := by
    refine List.all_eq_true.2 fun p hp => ?_
    rw [isDeclarable, (h p hp).key, isValueChar_of_isSafe (h p hp).safe]
    rfl
  have hread : ∀ p ∈ ps, readDeclaration p = [p] := by
    intro p hp
    have hempty : ¬ p.1.isEmpty = true := fun he => (h p hp).named (List.isEmpty_iff.1 he)
    rw [readDeclaration, if_neg hempty, (h p hp).trimmed]
  rw [pairs_declarations hdeclarable, List.flatMap_congr hread, List.flatMap_singleton']

/-- **Printed properties are set again.** -/
theorem permittedProps_propsSource (h : ∀ p ∈ props.entries, IsLegible w p) :
    permittedProps (propsSource props) w = props := by
  have hset : ∀ (d : Dict Text Text), ∀ p ∈ props.entries,
      (if w.permits p.1 && PropertyValue.isSafe p.2 then d.set p.1 p.2 else d) = d.set p.1 p.2 := by
    intro d p hp
    rw [(h p hp).permitted, (h p hp).safe]
    rfl
  rw [permittedProps, propsSource_eq, pairs_of_isLegible h, List.foldl_ext _ _ _ hset]
  exact Dict.overlay_empty props

end StyleSheet

/-! ### Styles -/

namespace Style

variable {w : Whitelists} {s : Style}

theorem IsLegible.slashesApart (h : s.IsLegible w) : StyleSheet.SlashesApart s.sheet := by
  rw [sheet_eq]
  rw [IsLegible] at h
  generalize s.declared = ds at h ⊢
  induction ds with
  | nil => exact .nil
  | cons d ds ih =>
    obtain ⟨⟨hnames, hprops⟩, hds⟩ := List.forall_mem_cons.1 h
    have hheader := StyleSheet.slashesApart_headerSource fun n hn => (hnames n hn).2
    exact StyleSheet.slashesApart_blockSource hheader hprops (ih hds)

/-- The blocks of a printed sheet, one for each rule. -/
theorem IsLegible.blocks (h : s.IsLegible w) :
    StyleSheet.blocks s.sheet = s.declared.map fun d => ⟨d.1, propsSource d.2⟩ := by
  rw [sheet_eq]
  rw [IsLegible] at h
  generalize s.declared = ds at h ⊢
  induction ds with
  | nil => exact StyleSheet.blocks_of_none rfl
  | cons d ds ih =>
    obtain ⟨⟨hnames, hprops⟩, hds⟩ := List.forall_mem_cons.1 h
    rw [List.flatMap_cons, declaredSource,
      StyleSheet.blocks_blockSource (fun n hn => (hnames n hn).1) hprops, ih hds, List.map_cons]

/-- **A style that can be written in a sheet is printed and read again**, its rules and their properties in
their order. -/
theorem ofSheet_sheet (h : s.IsLegible w) : ofSheet w s.sheet = s := by
  have hadd : ∀ (t : Style), ∀ d ∈ s.declared,
      addBlock w t ⟨d.1, propsSource d.2⟩ = t.declare d := by
    intro t d hd
    rw [addBlock_eq_declare, StyleSheet.permittedProps_propsSource (h d hd).2]
  rw [ofSheet, StyleSheet.removeComments_of_slashesApart h.slashesApart, h.blocks, List.foldl_map,
    List.foldl_ext _ _ _ hadd, foldl_declare_declared]

/-- **The style of any sheet is printed and read again under the same whitelists.** -/
theorem ofSheet_sheet_ofSheet (w : Whitelists) (sheet : Text) :
    ofSheet w (ofSheet w sheet).sheet = ofSheet w sheet :=
  ofSheet_sheet (isLegible_ofSheet w sheet)

end Style

end ProseMarkup
