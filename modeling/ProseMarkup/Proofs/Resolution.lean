import ProseMarkup.Proofs.SpanCut

/-!
# What resolution keeps

Resolution is a recursion on the content tree; what it keeps is proved along that recursion, the cut of
fragments at a span being the one step that is not plain.

* `Resolution.sources_resolve` : resolution keeps the source text of fragments.
* `Resolution.openings_resolve_of`, `Resolution.openings_resolve` : the spans of a resolution open as spans do
  that are found, and so with delimiters of the index.
* `Resolution.resolve_of_le`, `Resolution.resolve_nil`, `Resolution.resolve_text_none`,
  `Resolution.resolve_text_some`, `Resolution.resolve_link`, `Resolution.resolve_other` : resolution case by case.
-/

namespace ProseMarkup.Resolution

open Content (sources source allOpenings openings)

variable (rules : RuleIndex) (limit : Int)

theorem resolve_of_le {limit : Int} {depth : Nat} (h : limit ≤ depth) (fragments : List Content) :
    resolve rules limit depth fragments = ⟨fragments, true⟩ := by
  rw [resolve.eq_def, if_pos h]

theorem resolve_nil {limit : Int} {depth : Nat} (h : ¬ limit ≤ depth) :
    resolve rules limit depth [] = ⟨[], false⟩ := by
  rw [resolve.eq_def, if_neg h]

theorem resolve_text_none {limit : Int} {depth : Nat} (hd : ¬ limit ≤ depth) {s : Text}
    {later : List Content} (h : Span.find? rules s later = none) :
    resolve rules limit depth (.text s :: later) =
      ⟨.text s :: (resolve rules limit depth later).contents,
        (resolve rules limit depth later).cut⟩ := by
  rw [resolve.eq_def, if_neg hd]
  dsimp only
  split
  · rfl
  · next span hspan => rw [h] at hspan; cases hspan

theorem resolve_text_some {limit : Int} {depth : Nat} (hd : ¬ limit ≤ depth) {s : Text}
    {later : List Content} {span : Span.Found} (h : Span.find? rules s later = some span) :
    resolve rules limit depth (.text s :: later) =
      ⟨before span s ++ .span span.opening
          (resolve rules limit (depth + 1) (span.contents (.text s :: later))).contents ::
          (resolve rules limit depth (span.rest (.text s :: later))).contents,
        (resolve rules limit (depth + 1) (span.contents (.text s :: later))).cut ||
          (resolve rules limit depth (span.rest (.text s :: later))).cut⟩ := by
  rw [resolve.eq_def, if_neg hd]
  dsimp only
  split
  · next hnone => rw [h] at hnone; cases hnone
  · next found hfound =>
    rw [h] at hfound
    cases hfound
    rfl

theorem resolve_link {limit : Int} {depth : Nat} (hd : ¬ limit ≤ depth) (url : Value)
    (contents later : List Content) :
    resolve rules limit depth (.link url contents :: later) =
      ⟨.link url (resolve rules limit (depth + 1) contents).contents ::
          (resolve rules limit depth later).contents,
        (resolve rules limit (depth + 1) contents).cut ||
          (resolve rules limit depth later).cut⟩ := by
  rw [resolve.eq_def, if_neg hd]

theorem resolve_other {limit : Int} {depth : Nat} (hd : ¬ limit ≤ depth) {c : Content}
    (htext : ∀ s, c = .text s → False) (hlink : ∀ url contents, c = .link url contents → False)
    (later : List Content) :
    resolve rules limit depth (c :: later) =
      ⟨c :: (resolve rules limit depth later).contents, (resolve rules limit depth later).cut⟩ := by
  cases c with
  | text s => exact absurd rfl (htext s)
  | link url contents => exact absurd rfl (hlink url contents)
  | _ => rw [resolve.eq_def, if_neg hd]

@[simp] theorem sources_before (span : Span.Found) (s : Text) :
    sources rules (before span s) = s.take span.start :=
  Content.sources_ofText rules _

@[simp] theorem allOpenings_before (span : Span.Found) (s : Text) : allOpenings (before span s) = [] := by
  rw [before, Content.ofText]
  split <;> rfl

/-- **Resolution keeps the source text**, at any level and down to any limit of nesting. -/
theorem sources_resolve (depth : Nat) (fragments : List Content) :
    sources rules (resolve rules limit depth fragments).contents = sources rules fragments := by
  fun_induction resolve rules limit depth fragments with
  | case1 depth fragments hcut => rfl
  | case2 depth hdepth => rfl
  | case3 depth hdepth s later hnone rest ih =>
    show s ++ sources rules rest.contents = s ++ sources rules later
    rw [ih]
  | case4 depth hdepth s later span hspan _ _ inner rest ihInner ihRest =>
    -- the recursive calls keep the two sides of the cut, and the delimiters are written back
    rw [Span.sources_cut hspan, Span.closer_eq hspan]
    simp [inner, rest, ihInner, ihRest]
  | case5 depth hdepth url contents later inner rest ihInner ihRest =>
    simp [inner, rest, ihInner, ihRest]
  | case6 depth hdepth c later _ _ rest ih =>
    show source rules c ++ sources rules rest.contents = source rules c ++ sources rules later
    rw [ih]

/-- What holds of the opening delimiter of every span that is found holds of those of the spans in a
resolution of raw texts and links, at any level and down to any limit of nesting. -/
theorem openings_resolve_of {P : Text → Prop}
    (hfound : ∀ s later span, Span.find? rules s later = some span → P span.opening) (depth : Nat)
    (fragments : List Content) (hf : Content.areFragments fragments = true) :
    ∀ o ∈ allOpenings (resolve rules limit depth fragments).contents, P o := by
  fun_induction resolve rules limit depth fragments with
  | case1 depth fragments hcut =>
    rw [Content.allOpenings_of_areFragments hf]
    intro o ho
    exact absurd ho List.not_mem_nil
  | case2 depth hdepth => exact fun o ho => absurd ho List.not_mem_nil
  | case3 depth hdepth s later hnone rest ih => exact ih hf
  | case4 depth hdepth s later span hspan _ _ inner rest ihInner ihRest =>
    rw [Span.areFragments_cut hspan, Bool.and_eq_true] at hf
    intro o ho
    rw [Content.allOpenings_append, allOpenings_before, List.nil_append, allOpenings, openings,
      List.cons_append, List.mem_cons, List.mem_append] at ho
    rcases ho with rfl | ho | ho
    · exact hfound s later span hspan
    · exact ihInner hf.1 o ho
    · exact ihRest hf.2 o ho
  | case5 depth hdepth url contents later inner rest ihInner ihRest =>
    rw [Content.areFragments, Bool.and_eq_true] at hf
    intro o ho
    rw [allOpenings, openings, List.mem_append] at ho
    rcases ho with ho | ho
    · exact ihInner hf.1 o ho
    · exact ihRest hf.2 o ho
  | case6 depth hdepth c later hnoText hnoLink rest ih =>
    rw [Content.areFragments, Bool.and_eq_true] at hf
    have hc := Content.openings_of_isFragment hf.1
    intro o ho
    rw [allOpenings, hc, List.nil_append] at ho
    exact ih hf.2 o ho

/-- The spans in a resolution of raw texts and links open with delimiters of the index. -/
theorem openings_resolve (depth : Nat) (fragments : List Content)
    (hf : Content.areFragments fragments = true) :
    ∀ o ∈ allOpenings (resolve rules limit depth fragments).contents, o ∈ rules.closers.keys :=
  openings_resolve_of rules limit (fun _ _ _ => Span.opening_mem_keys) depth fragments hf

end ProseMarkup.Resolution
