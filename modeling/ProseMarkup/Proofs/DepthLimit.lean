import ProseMarkup.Proofs.Canonical
import ProseMarkup.Proofs.SourceKept

/-!
# The limit of nesting

Resolution down to a limit and resolution down to a higher one see the same fragments at each level above
the lower limit. What lies at the lower limit is kept as it was before resolution, and it can be had back
from what the other resolution has made of it: a span is written out between its delimiters, and the texts
that then stand next to each other are joined.

* `Content.unresolved` : content as it was before its spans were resolved.
* `Content.cutBelow` : content with what its items at a level enclose unresolved.
* `Content.reaches`, `Content.spansWithin` : whether items are found at a level, and whether spans are found
  at no deeper one.
* `Resolution.unresolved_resolve` : **canonical fragments can be had back from their resolution**.
* `Resolution.CutAt`, `Resolution.cutAt_resolve` : **a lower limit cuts what a higher one resolves**.
* `Assembly.lower_limit_cuts` : so it is with the content built from pending jobs, and with its warnings.
-/

namespace ProseMarkup

/-! ### Cutting content at a level -/

namespace Content

mutual

/-- The symbols of an item with the spans in it written out. -/
@[simp] def literalSymbols (rules : RuleIndex) : Content → List Symbol
  | text s => s.map .inl
  | span opening contents =>
    opening.map .inl ++ allLiteralSymbols rules contents ++ (rules.closing opening).map .inl
  | link url contents => [.inr (link url (ofSymbols (allLiteralSymbols rules contents)))]
  | foreign item => [.inr (foreign item)]
termination_by structural c => c

/-- The symbols of items with the spans in them written out. -/
@[simp] def allLiteralSymbols (rules : RuleIndex) : List Content → List Symbol
  | [] => []
  | c :: cs => literalSymbols rules c ++ allLiteralSymbols rules cs
termination_by structural cs => cs

end

/-- Content as it was before its spans were resolved: they are written out, and joined with the texts
around them; links keep their url, and what they enclose is unresolved too. -/
def unresolved (rules : RuleIndex) (cs : List Content) : List Content :=
  ofSymbols (allLiteralSymbols rules cs)

/-- An item with what it encloses replaced. -/
def mapInside (f : List Content → List Content) : Content → Content
  | span opening contents => span opening (f contents)
  | link url contents => link url (f contents)
  | c => c

/-- Content with what its spans and links at a level enclose unresolved. The items themselves are at level
one; at level zero all of them are unresolved. -/
def cutBelow (rules : RuleIndex) : (level : Nat) → List Content → List Content
  | 0, cs => unresolved rules cs
  | level + 1, cs => cs.map (mapInside (cutBelow rules level))

/-- What a span or a link encloses. -/
def inside? : Content → Option (List Content)
  | span _ contents => some contents
  | link _ contents => some contents
  | _ => none

/-- Whether there are spans or links at a level. The items themselves are at level one; at level zero there
is always the list of them. -/
def reaches : (level : Nat) → List Content → Bool
  | 0, _ => true
  | level + 1, cs => cs.any fun c => c.inside?.any (reaches level)

/-- Whether no span is found deeper than at a level. -/
def spansWithin : (level : Nat) → List Content → Bool
  | 0, cs => (allOpenings cs).isEmpty
  | level + 1, cs => cs.all fun c => c.inside?.all (spansWithin level)

/-! ### Fragments are unresolved -/

@[simp] theorem allLiteralSymbols_append (rules : RuleIndex) (cs ds : List Content) :
    allLiteralSymbols rules (cs ++ ds) = allLiteralSymbols rules cs ++ allLiteralSymbols rules ds := by
  induction cs with
  | nil => rfl
  | cons c cs ih => simp [ih]

mutual

theorem literalSymbols_of_isFragment (rules : RuleIndex) : ∀ {c : Content}, isFragment c = true →
    isCanonical c = true → literalSymbols rules c = itemSymbols c
  | text _, _, _ => rfl
  | link url contents, hf, hc => by
    have hcontents : allLiteralSymbols rules contents = symbols contents :=
      allLiteralSymbols_of_areFragments rules hf hc
    have hback : ofSymbols (symbols contents) = contents := ofSymbols_symbols hc
    rw [literalSymbols, hcontents, hback]
    rfl
  | span _ _, hf, _ => absurd hf Bool.false_ne_true
  | foreign _, hf, _ => absurd hf Bool.false_ne_true

/-- Canonical raw texts and links have no spans to write out. -/
theorem allLiteralSymbols_of_areFragments (rules : RuleIndex) : ∀ {cs : List Content},
    areFragments cs = true → areCanonical cs = true → allLiteralSymbols rules cs = symbols cs
  | [], _, _ => rfl
  | c :: cs, hf, hc => by
    rw [areFragments, Bool.and_eq_true] at hf
    rw [areCanonical, Bool.and_eq_true, Bool.and_eq_true] at hc
    simp [literalSymbols_of_isFragment rules hf.1 hc.1.1, allLiteralSymbols_of_areFragments rules hf.2 hc.2]

end

end Content

/-! ### Two limits -/

namespace Resolution

open Content (symbols symbols_cons areFragments areCanonical allLiteralSymbols allLiteralSymbols_append
  literalSymbols unresolved cutBelow reaches spansWithin allOpenings)

variable {rules : RuleIndex} {limit lower : Int} {depth : Nat} {fragments : List Content}

@[simp] theorem allLiteralSymbols_before (rules : RuleIndex) (span : Span.Found) (s : Text) :
    allLiteralSymbols rules (before span s) = (s.take span.start).map .inl := by
  rw [before, Content.ofText]
  split
  · next hempty =>
    rw [List.isEmpty_iff.1 hempty]
    rfl
  · exact List.append_nil _

/-- Written out, the spans of a resolution give the symbols of the fragments back. -/
theorem allLiteralSymbols_resolve (hf : areFragments fragments = true)
    (hc : areCanonical fragments = true) :
    allLiteralSymbols rules (resolve rules limit depth fragments).contents = symbols fragments := by
  fun_induction resolve rules limit depth fragments with
  | case1 depth fragments hcut => exact Content.allLiteralSymbols_of_areFragments rules hf hc
  | case2 depth hdepth => rfl
  | case3 depth hdepth s later hnone rest ih =>
    rw [areCanonical, Bool.and_eq_true] at hc
    show s.map Sum.inl ++ allLiteralSymbols rules rest.contents = _
    rw [ih hf hc.2]
    rfl
  | case4 depth hdepth s later span hspan _ _ inner rest ihInner ihRest =>
    have hcontents := Span.areCanonical_contents hspan hc
    have hrest := Span.areCanonical_rest hspan hc
    rw [Span.areFragments_cut hspan, Bool.and_eq_true] at hf
    rw [Span.symbols_cut hspan, allLiteralSymbols_append, allLiteralSymbols_before, allLiteralSymbols,
      literalSymbols, ihInner hf.1 hcontents, ihRest hf.2 hrest, Span.closer_eq hspan]
    simp only [List.append_assoc]
  | case5 depth hdepth url contents later inner rest ihInner ihRest =>
    rw [areFragments, Bool.and_eq_true] at hf
    rw [areCanonical, Bool.and_eq_true, Bool.and_eq_true] at hc
    have hcontents : Content.ofSymbols (symbols contents) = contents :=
      Content.ofSymbols_symbols hc.1.1
    rw [allLiteralSymbols, literalSymbols, ihInner hf.1 hc.1.1, ihRest hf.2 hc.2, hcontents]
    rfl
  | case6 depth hdepth c later hnoText hnoLink rest ih =>
    cases c with
    | text s => exact absurd rfl (hnoText s)
    | link url contents => exact absurd rfl (hnoLink url contents)
    | span opening contents => cases hf
    | foreign item => cases hf

/-- **Canonical fragments can be had back from their resolution.** -/
theorem unresolved_resolve (hf : areFragments fragments = true) (hc : areCanonical fragments = true) :
    unresolved rules (resolve rules limit depth fragments).contents = fragments := by
  rw [unresolved, allLiteralSymbols_resolve hf hc, Content.ofSymbols_symbols hc]

/-- What a resolution down to a level is, next to one that goes further down. -/
structure CutAt (rules : RuleIndex) (level : Nat) (r further : Resolution) : Prop where
  /-- It is what is left of the other one when that is cut at the level. -/
  contents : r.contents = cutBelow rules level further.contents
  /-- It has been cut if there is anything at the level. -/
  cut : r.cut = reaches level r.contents
  /-- No span of it is found deeper. -/
  spans : spansWithin level r.contents = true
  /-- Its spans are among those of the other one. -/
  openings : ∀ o ∈ allOpenings r.contents, o ∈ allOpenings further.contents
  /-- If it has not been cut, there was nothing to cut. -/
  same : r.cut = false → further = r

theorem CutAt.zero (hf : areFragments fragments = true) (hc : areCanonical fragments = true) :
    CutAt rules 0 ⟨fragments, true⟩ (resolve rules limit depth fragments) where
  contents := (unresolved_resolve hf hc).symm
  cut := rfl
  spans := by
    rw [spansWithin, Content.allOpenings_of_areFragments hf]
    rfl
  openings := by
    rw [Content.allOpenings_of_areFragments hf]
    exact fun o ho => absurd ho List.not_mem_nil
  same := fun h => by cases h

section Steps

variable {level : Nat} {r further inner furtherInner : Resolution}

theorem CutAt.nil : CutAt rules (level + 1) ⟨[], false⟩ ⟨[], false⟩ where
  contents := rfl
  cut := rfl
  spans := rfl
  openings := fun _ ho => ho
  same := fun _ => rfl

theorem CutAt.text (h : CutAt rules (level + 1) r further) (s : Text) :
    CutAt rules (level + 1) ⟨.text s :: r.contents, r.cut⟩
      ⟨.text s :: further.contents, further.cut⟩ where
  contents := congrArg (Content.text s :: ·) h.contents
  cut := h.cut
  spans := h.spans
  openings := h.openings
  same := fun hcut => by rw [h.same hcut]

/-- The text before a span. -/
theorem CutAt.before (h : CutAt rules (level + 1) r further) (span : Span.Found) (s : Text) :
    CutAt rules (level + 1) ⟨Resolution.before span s ++ r.contents, r.cut⟩
      ⟨Resolution.before span s ++ further.contents, further.cut⟩ := by
  rw [Resolution.before, Content.ofText]
  split
  · exact h
  · exact h.text _

/-- An item that encloses others, at a level above: it is a span or a link. -/
theorem CutAt.node {node : List Content → Content} (own : List Text)
    (hinside : ∀ cs, (node cs).inside? = some cs)
    (hmap : ∀ f cs, (node cs).mapInside f = node (f cs))
    (hopenings : ∀ cs, (node cs).openings = own ++ allOpenings cs)
    (hinner : CutAt rules level inner furtherInner) (h : CutAt rules (level + 1) r further) :
    CutAt rules (level + 1) ⟨node inner.contents :: r.contents, inner.cut || r.cut⟩
      ⟨node furtherInner.contents :: further.contents, furtherInner.cut || further.cut⟩ where
  contents := by
    show node inner.contents :: r.contents =
      (node furtherInner.contents).mapInside (cutBelow rules level) :: cutBelow rules (level + 1) _
    rw [hmap, ← hinner.contents, ← h.contents]
  cut := by
    rw [reaches, List.any_cons, hinside, Option.any_some, hinner.cut, h.cut, reaches]
  spans := by
    rw [spansWithin, List.all_cons, hinside, Option.all_some, hinner.spans, Bool.true_and]
    exact h.spans
  openings := by
    intro o ho
    rw [allOpenings, hopenings, List.append_assoc, List.mem_append, List.mem_append] at ho ⊢
    exact ho.imp_right (Or.imp (hinner.openings o) (h.openings o))
  same := fun hcut => by
    rw [Bool.or_eq_false_iff] at hcut
    rw [hinner.same hcut.1, h.same hcut.2]

end Steps

/-- Above a limit there is a level more than one nesting further. -/
theorem level_of_not_le (h : ¬ lower ≤ depth) :
    (lower - depth).toNat = (lower - (depth + 1 : Nat)).toNat + 1 := by
  omega

/-- **A lower limit cuts what a higher one resolves**, and nothing else, at any level of nesting. -/
theorem cutAt_resolve (hle : lower ≤ limit) (hf : areFragments fragments = true)
    (hc : areCanonical fragments = true) :
    CutAt rules (lower - depth).toNat (resolve rules lower depth fragments)
      (resolve rules limit depth fragments) := by
  -- along the resolution down to the lower limit: above it the other one takes the same steps
  induction depth, fragments using resolve.induct rules lower with
  | case1 depth fragments hcut =>
    rw [resolve_of_le rules hcut, Int.toNat_of_nonpos (Int.sub_nonpos_of_le hcut)]
    exact .zero hf hc
  | case2 depth hl =>
    have hl' : ¬ limit ≤ depth := fun h => hl (Int.le_trans hle h)
    rw [level_of_not_le hl, resolve_nil rules hl, resolve_nil rules hl']
    exact .nil
  | case3 depth hl s later hnone ih =>
    have hl' : ¬ limit ≤ depth := fun h => hl (Int.le_trans hle h)
    rw [areCanonical, Bool.and_eq_true] at hc
    have hlater := ih hf hc.2
    rw [level_of_not_le hl] at hlater ⊢
    rw [resolve_text_none rules hl hnone, resolve_text_none rules hl' hnone]
    exact hlater.text s
  | case4 depth hl s later span hspan _ _ ihInner ihRest =>
    have hl' : ¬ limit ≤ depth := fun h => hl (Int.le_trans hle h)
    have hcontents := Span.areCanonical_contents hspan hc
    have hrest := Span.areCanonical_rest hspan hc
    rw [Span.areFragments_cut hspan, Bool.and_eq_true] at hf
    have hinner := ihInner hf.1 hcontents
    have hlater := ihRest hf.2 hrest
    rw [level_of_not_le hl] at hlater ⊢
    rw [resolve_text_some rules hl hspan, resolve_text_some rules hl' hspan]
    exact .before (.node [span.opening] (fun _ => rfl) (fun _ _ => rfl) (fun _ => rfl) hinner hlater)
      span s
  | case5 depth hl url contents later ihInner ihRest =>
    have hl' : ¬ limit ≤ depth := fun h => hl (Int.le_trans hle h)
    rw [areFragments, Bool.and_eq_true] at hf
    rw [areCanonical, Bool.and_eq_true, Bool.and_eq_true] at hc
    have hinner := ihInner hf.1 hc.1.1
    have hlater := ihRest hf.2 hc.2
    rw [level_of_not_le hl] at hlater ⊢
    rw [resolve_link rules hl, resolve_link rules hl']
    exact .node [] (fun _ => rfl) (fun _ _ => rfl) (fun _ => rfl) hinner hlater
  | case6 depth hl c later hnoText hnoLink ih =>
    cases c with
    | text s => exact absurd rfl (hnoText s)
    | link url contents => exact absurd rfl (hnoLink url contents)
    | span opening contents => cases hf
    | foreign item => cases hf

end Resolution

/-! ### Two limits, from pending jobs -/

namespace Assembly

open Content (areFragments areCanonical allOpenings cutBelow reaches spansWithin)

variable {rules : RuleIndex} {limit lower : Int} {fragments : List Content}

theorem resolve_eq_ok_iff (hf : areFragments fragments = true) {r : Resolution} :
    resolve rules limit (.row fragments) = .ok r ↔
      Resolution.resolve rules limit 0 fragments = r ∧ r.isFaulty rules = false := by
  rw [resolve_row rules limit hf]
  constructor
  · intro h
    split at h
    · cases h
    · next hfault =>
      cases h
      exact ⟨rfl, Bool.eq_false_iff.2 hfault⟩
  · rintro ⟨rfl, hfault⟩
    rw [hfault, if_neg Bool.false_ne_true]

/-- A resolution whose spans are all in another one has a fault only if that has one. -/
theorem isFaulty_of_openings {r further : Resolution}
    (h : ∀ o ∈ allOpenings r.contents, o ∈ allOpenings further.contents)
    (hfault : further.isFaulty rules = false) : r.isFaulty rules = false := by
  apply List.any_eq_false.2
  intro o ho
  exact List.any_eq_false.1 hfault o (h o ho)

/-- The limit is met just if there is anything at its level; at level zero there always is. -/
theorem warnings_of_cut {r : Resolution} (h : r.cut = reaches lower.toNat r.contents) :
    Content.warnings lower r =
      if lower ≤ 0 ∨ reaches lower.toNat r.contents = true then [Content.cutWarning lower] else [] := by
  have hcut : r.cut = true ↔ lower ≤ 0 ∨ reaches lower.toNat r.contents = true := by
    rw [h]
    refine ⟨.inr, fun hlevel => hlevel.elim (fun hle => ?_) id⟩
    rw [Int.toNat_of_nonpos hle]
    rfl
  rw [Content.warnings]
  exact if_congr hcut rfl rfl

/-- **The limit of nesting cuts the unlimited tree and nothing else.** For canonical raw texts and links,
content resolved down to a limit is content resolved down to any higher limit, with what its spans and
links at the level of the lower limit enclose unresolved. No span is found deeper than at that level. There
is one warning if the limit is not positive or there is a span or a link at its level, and else there is
none, and every higher limit gives the same content. With usable delimiters there is a resolution. -/
theorem lower_limit_cuts (rules : RuleIndex) (hle : lower ≤ limit) (hf : areFragments fragments = true)
    (hc : areCanonical fragments = true) :
    (∀ further, resolve rules limit (.row fragments) = .ok further →
      ∃ r, resolve rules lower (.row fragments) = .ok r ∧
        r.contents = cutBelow rules lower.toNat further.contents ∧
        spansWithin lower.toNat r.contents = true ∧
        Content.warnings lower r =
          if lower ≤ 0 ∨ reaches lower.toNat r.contents = true then [Content.cutWarning lower]
          else []) ∧
    (∀ r, resolve rules lower (.row fragments) = .ok r → Content.warnings lower r = [] →
      resolve rules limit (.row fragments) = .ok r) ∧
    (rules.unusable = [] → ∃ r, resolve rules limit (.row fragments) = .ok r) := by
  have hcut : Resolution.CutAt rules lower.toNat (Resolution.resolve rules lower 0 fragments)
      (Resolution.resolve rules limit 0 fragments) := by
    have hlevel : (lower - (0 : Nat)).toNat = lower.toNat := by
      rw [Int.natCast_zero, Int.sub_zero]
    rw [← hlevel]
    exact Resolution.cutAt_resolve hle hf hc
  refine ⟨fun further hfurther => ?_, fun r hr hwarning => ?_, fun hu => ⟨_, resolve_of_usable hu hf⟩⟩
  · obtain ⟨rfl, hfault⟩ := (resolve_eq_ok_iff hf).1 hfurther
    refine ⟨_, (resolve_eq_ok_iff hf).2 ⟨rfl, isFaulty_of_openings hcut.openings hfault⟩,
      hcut.contents, hcut.spans, warnings_of_cut hcut.cut⟩
  · obtain ⟨rfl, hfault⟩ := (resolve_eq_ok_iff hf).1 hr
    have hno : (Resolution.resolve rules lower 0 fragments).cut = false := by
      rw [Content.warnings] at hwarning
      split at hwarning
      · cases hwarning
      · next h => exact Bool.eq_false_iff.2 h
    exact (resolve_eq_ok_iff hf).2 ⟨hcut.same hno, hfault⟩

/-- A span in a span, and a link, cut at the first level. -/
theorem lower_limit_cuts_span_in_span :
    (1 : Int) ≤ 16 ∧
    areFragments [.text "*a _b_ c*".toList, .link (.str "u".toList) [.text "_d_".toList]] = true ∧
    areCanonical [.text "*a _b_ c*".toList, .link (.str "u".toList) [.text "_d_".toList]] = true ∧
    ∃ r further,
      resolve { ruleNames := [], closers := (Dict.empty.set ['*'] ['*']).set ['_'] ['_'] } 16
        (.row [.text "*a _b_ c*".toList, .link (.str "u".toList) [.text "_d_".toList]]) = .ok further ∧
      resolve { ruleNames := [], closers := (Dict.empty.set ['*'] ['*']).set ['_'] ['_'] } 1
        (.row [.text "*a _b_ c*".toList, .link (.str "u".toList) [.text "_d_".toList]]) = .ok r ∧
      r.contents = cutBelow { ruleNames := [], closers := (Dict.empty.set ['*'] ['*']).set ['_'] ['_'] }
        1 further.contents := by
  have hle : (1 : Int) ≤ 16 := by decide
  have hf : areFragments [.text "*a _b_ c*".toList, .link (.str "u".toList) [.text "_d_".toList]] =
      true := rfl
  obtain ⟨hcuts, -, hexists⟩ := lower_limit_cuts
    { ruleNames := [], closers := (Dict.empty.set ['*'] ['*']).set ['_'] ['_'] } hle hf rfl
  obtain ⟨further, hfurther⟩ := hexists rfl
  obtain ⟨r, hr, hcontents, -, -⟩ := hcuts further hfurther
  exact ⟨hle, hf, rfl, r, further, hfurther, hr, hcontents⟩

end Assembly

end ProseMarkup
