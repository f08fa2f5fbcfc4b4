import ProseMarkup.Proofs.Declared
import ProseMarkup.Proofs.Lookup

/-!
# The laws of combination

A combination is set name by name. It has the rules that its styles have; of each rule the last style that sets a
property gives its value, but the first style that has an opening delimiter says how it is closed. So it makes no
difference how styles are grouped before they are combined, and a style combined with itself is itself.

* `Dict.mergeWith_assoc`, `Dict.overlay_assoc` : merging dictionaries in groups.
* `Dict.get?_foldl_mergeWith` : what stands under a key after several dictionaries have been merged.
* `Dict.IsLastOf` : the dictionary that says what the last of several dictionaries says.
* `Style.IsCombination` : a combination, rule by rule.
* `Style.isCombination_combine`, `Style.IsCombination.unique` : **the combination of styles is the one that is**.
* `Style.combine_append` : **styles combined in two groups**.
* `Style.combine_by_rules_and_groups` : both, for styles as values.
-/

namespace ProseMarkup

/-! ### Merging dictionaries in groups -/

namespace Dict

variable {κ ν : Type} [DecidableEq κ]

/-- Keys that are added in groups are added in the same order. -/
theorem foldl_addKey_foldl (js ks ls : List κ) :
    (ls.foldl addKey ks).foldl addKey js = ls.foldl addKey (ks.foldl addKey js) := by
  induction ls generalizing ks with
  | nil => rfl
  | cons l ls ih =>
    have hadd : (addKey ks l).foldl addKey js = addKey (ks.foldl addKey js) l := by
      rw [addKey]
      split
      · next hl => rw [addKey, if_pos (mem_foldl_addKey.2 (.inr hl))]
      · rw [List.foldl_append]
        rfl
    rw [List.foldl_cons, ih, hadd, List.foldl_cons]

section Merge

variable {f : ν → ν → ν}

theorem mergeWith_assoc (hf : ∀ u v w, f (f u v) w = f u (f v w)) (d e g : Dict κ ν) :
    (d.mergeWith f e).mergeWith f g = d.mergeWith f (e.mergeWith f g) := by
  apply ext_get?
  · simp [foldl_addKey_foldl]
  · intro k
    simp only [get?_mergeWith]
    cases d.get? k <;> cases e.get? k <;> cases g.get? k <;> simp [joined, hf]

@[simp] theorem empty_mergeWith (d : Dict κ ν) : empty.mergeWith f d = d := by
  apply ext_get?
  · simp
  · intro k
    rw [get?_mergeWith]
    cases d.get? k <;> rfl

theorem mergeWith_self (hf : ∀ v, f v v = v) (d : Dict κ ν) : d.mergeWith f d = d := by
  apply ext_get?
  · have hnone : d.keys.filter (fun k => decide (k ∉ d.keys)) = [] := by simp
    rw [keys_mergeWith, foldl_addKey, hnone, List.eraseDups_nil, List.append_nil]
  · intro k
    rw [get?_mergeWith]
    cases d.get? k with
    | none => rfl
    | some v => exact congrArg some (hf v)

end Merge

/-- Writing a dictionary over another is merging the two so that the later value prevails. -/
theorem overlay_eq_mergeWith (d e : Dict κ ν) : d.overlay e = d.mergeWith (fun _ v => v) e := by
  rw [mergeWith_eq_foldl, overlay]
  congr 1
  funext acc p
  cases acc.get? p.1 <;> rfl

@[simp] theorem overlay_assoc (d e g : Dict κ ν) : (d.overlay e).overlay g = d.overlay (e.overlay g) := by
  simp only [overlay_eq_mergeWith]
  exact mergeWith_assoc (fun _ _ _ => rfl) d e g

@[simp] theorem overlay_self (d : Dict κ ν) : d.overlay d = d := by
  rw [overlay_eq_mergeWith]
  exact mergeWith_self (fun _ => rfl) d

/-! ### Several dictionaries -/

/-- Values joined from left to right; there is none if there are no values. -/
def joinedAll (f : ν → ν → ν) : List ν → Option ν
  | [] => none
  | v :: vs => some (vs.foldl f v)

theorem keys_foldl_mergeWith (f : ν → ν → ν) (ds : List (Dict κ ν)) (d : Dict κ ν) :
    (ds.foldl (mergeWith f) d).keys = (ds.flatMap keys).foldl addKey d.keys := by
  induction ds generalizing d with
  | nil => rfl
  | cons e ds ih => simp [ih]

/-- Under a key stand the values that the dictionaries have there, joined. -/
theorem get?_foldl_mergeWith (f : ν → ν → ν) (ds : List (Dict κ ν)) (d : Dict κ ν) (k : κ) :
    (ds.foldl (mergeWith f) d).get? k =
      joinedAll f ((d.get? k).toList ++ ds.filterMap fun e => e.get? k) := by
  induction ds generalizing d with
  | nil =>
    rw [List.filterMap_nil, List.append_nil]
    show d.get? k = _
    cases d.get? k <;> rfl
  | cons e ds ih =>
    rw [List.foldl_cons, ih, get?_mergeWith, List.filterMap_cons]
    cases e.get? k with
    | none => rfl
    | some v => cases d.get? k <;> rfl

@[simp] theorem keys_foldl_mergeWith_empty [BEq κ] [LawfulBEq κ] (f : ν → ν → ν) (ds : List (Dict κ ν)) :
    (ds.foldl (mergeWith f) empty).keys = (ds.flatMap keys).eraseDups := by
  rw [keys_foldl_mergeWith, eraseDups_eq_foldl]
  rfl

@[simp] theorem get?_foldl_mergeWith_empty (f : ν → ν → ν) (ds : List (Dict κ ν)) (k : κ) :
    (ds.foldl (mergeWith f) empty).get? k = joinedAll f (ds.filterMap fun e => e.get? k) :=
  get?_foldl_mergeWith f ds empty k

/-- The dictionary that says what the last of several dictionaries says: its keys are theirs, each once, in order of
their first appearance, and under a key stands what the last of them that has it has there. -/
structure IsLastOf (ds : List (Dict κ ν)) (d : Dict κ ν) : Prop where
  keys : d.keys = (ds.flatMap Dict.keys).eraseDups
  get? : ∀ k, d.get? k = (ds.filterMap fun e => e.get? k).getLast?

theorem IsLastOf.unique {ds : List (Dict κ ν)} {d e : Dict κ ν} (hd : IsLastOf ds d) (he : IsLastOf ds e) :
    d = e :=
  ext_get? (hd.keys.trans he.keys.symm) fun k => (hd.get? k).trans (he.get? k).symm

/-- Dictionaries written over one another. -/
theorem isLastOf_foldl_overlay (ds : List (Dict κ ν)) : IsLastOf ds (ds.foldl overlay empty) := by
  have hmerge : (overlay : Dict κ ν → Dict κ ν → Dict κ ν) = mergeWith fun _ v => v := by
    funext d e
    exact overlay_eq_mergeWith d e
  have hlast : ∀ vs : List ν, joinedAll (fun _ v => v) vs = vs.getLast? := by
    intro vs
    cases vs with
    | nil => rfl
    | cons v vs =>
      rw [joinedAll]
      induction vs generalizing v with
      | nil => rfl
      | cons u vs ih => exact ih u
  rw [hmerge]
  exact ⟨keys_foldl_mergeWith_empty _ ds, fun k => by simp [hlast]⟩

/-- Dictionaries with the same keys are the same if their values agree. -/
theorem ext_of_keys {d e : Dict κ ν} (hkeys : d.keys = e.keys)
    (h : ∀ k v w, d.get? k = some v → e.get? k = some w → v = w) : d = e := by
  refine ext_get? hkeys fun k => ?_
  by_cases hk : k ∈ d.keys
  · obtain ⟨v, hv, -⟩ := exists_get?_of_mem_keys hk
    obtain ⟨w, hw, -⟩ := exists_get?_of_mem_keys (hkeys ▸ hk)
    rw [hv, hw, h k v w hv hw]
  · rw [get?_eq_none_iff.2 hk, get?_eq_none_iff.2 (hkeys ▸ hk)]

end Dict

/-! ### Rules laid over one another -/

@[simp] theorem Rule.overlaidBy_assoc (r s t : Rule) : (r.overlaidBy s).overlaidBy t = r.overlaidBy (s.overlaidBy t) :=
  congrArg Rule.mk (Dict.overlay_assoc r.props s.props t.props)

@[simp] theorem Rule.overlaidBy_self (r : Rule) : r.overlaidBy r = r :=
  congrArg Rule.mk (Dict.overlay_self r.props)

@[simp] theorem SpanRule.overlaidBy_assoc (r s t : SpanRule) :
    (r.overlaidBy s).overlaidBy t = r.overlaidBy (s.overlaidBy t) :=
  congrArg (SpanRule.mk · r.closer) (Dict.overlay_assoc r.props s.props t.props)

@[simp] theorem SpanRule.overlaidBy_self (r : SpanRule) : r.overlaidBy r = r :=
  congrArg (SpanRule.mk · r.closer) (Dict.overlay_self r.props)

/-- Of several rules of either kind the last that sets a property gives its value. -/
theorem Dict.isLastOf_joinedAll {ρ : Type} {props : ρ → Dict Text Text} {join : ρ → ρ → ρ}
    (hjoin : ∀ r s, props (join r s) = (props r).overlay (props s)) {rs : List ρ} {r : ρ}
    (h : joinedAll join rs = some r) : IsLastOf (rs.map props) (props r) := by
  cases rs with
  | nil => cases h
  | cons s rs =>
    cases h
    have hprops : props (rs.foldl join s) = ((s :: rs).map props).foldl overlay empty := by
      rw [List.map_cons, List.foldl_cons, overlay_empty, List.foldl_map]
      exact (List.foldl_hom props fun r s => (hjoin r s).symm).symm
    rw [hprops]
    exact isLastOf_foldl_overlay _

/-- Of several span rules the first says how a span is closed. -/
theorem SpanRule.head?_closer_joinedAll {rs : List SpanRule} {r : SpanRule}
    (h : Dict.joinedAll SpanRule.overlaidBy rs = some r) : (rs.map SpanRule.closer).head? = some r.closer := by
  cases rs with
  | nil => cases h
  | cons s rs =>
    cases h
    have hcloser : (rs.foldl SpanRule.overlaidBy s).closer = s.closer :=
      List.foldlRecOn (motive := fun r : SpanRule => r.closer = s.closer) rs SpanRule.overlaidBy rfl
        fun _ hr _ _ => hr
    rw [hcloser]
    rfl

/-! ### Combinations, rule by rule -/

namespace Style

/-- A combination of styles. It has the rules that one of them has, in order of their first appearance; of each rule
the last style that sets a property gives its value, and the first that has an opening delimiter says whether and
how its closing one is named. -/
structure IsCombination (styles : List Style) (c : Style) : Prop where
  paragraph_keys : c.paragraph.keys = (styles.flatMap fun s => s.paragraph.keys).eraseDups
  paragraph_props : ∀ name r, c.paragraph.get? name = some r →
    Dict.IsLastOf ((styles.filterMap fun s => s.paragraph.get? name).map Rule.props) r.props
  span_keys : c.span.keys = (styles.flatMap fun s => s.span.keys).eraseDups
  span_props : ∀ opening r, c.span.get? opening = some r →
    Dict.IsLastOf ((styles.filterMap fun s => s.span.get? opening).map SpanRule.props) r.props
  span_closer : ∀ opening r, c.span.get? opening = some r →
    ((styles.filterMap fun s => s.span.get? opening).map SpanRule.closer).head? = some r.closer
  container_eq_none_iff : c.container = none ↔ ∀ s ∈ styles, s.container = none
  container_props : ∀ r, c.container = some r →
    Dict.IsLastOf ((styles.filterMap Style.container).map Rule.props) r.props

theorem paragraph_combine (styles : List Style) :
    (combine styles).paragraph = (styles.map paragraph).foldl (Dict.mergeWith Rule.overlaidBy) .empty := by
  rw [List.foldl_map]
  exact (List.foldl_hom paragraph fun _ _ => rfl).symm

theorem span_combine (styles : List Style) :
    (combine styles).span = (styles.map span).foldl (Dict.mergeWith SpanRule.overlaidBy) .empty := by
  rw [List.foldl_map]
  exact (List.foldl_hom span fun _ _ => rfl).symm

theorem container_combine (styles : List Style) :
    (combine styles).container = Dict.joinedAll Rule.overlaidBy (styles.filterMap container) := by
  have hfold : ∀ s : Style, (styles.foldl merge s).container =
      Dict.joinedAll Rule.overlaidBy (s.container.toList ++ styles.filterMap container) := by
    induction styles with
    | nil =>
      intro s
      rw [List.filterMap_nil, List.append_nil]
      show s.container = _
      cases s.container <;> rfl
    | cons t styles ih =>
      intro s
      rw [List.foldl_cons, ih, merge, List.filterMap_cons]
      cases t.container with
      | none => cases s.container <;> rfl
      | some r => cases s.container <;> rfl
  exact hfold empty

/-- **The combination of styles is one**, rule by rule. -/
theorem isCombination_combine (styles : List Style) : IsCombination styles (combine styles) := by
  have hparagraph : ∀ name, (combine styles).paragraph.get? name =
      Dict.joinedAll Rule.overlaidBy (styles.filterMap fun s => s.paragraph.get? name) := by
    intro name
    simp [paragraph_combine]
  have hspan : ∀ opening, (combine styles).span.get? opening =
      Dict.joinedAll SpanRule.overlaidBy (styles.filterMap fun s => s.span.get? opening) := by
    intro opening
    simp [span_combine]
  constructor
  case paragraph_keys =>
    simp [paragraph_combine, List.flatMap_map]
  case paragraph_props =>
    intro name r hr
    exact Dict.isLastOf_joinedAll (fun _ _ => rfl) (hparagraph name ▸ hr)
  case span_keys =>
    simp [span_combine, List.flatMap_map]
  case span_props =>
    intro opening r hr
    exact Dict.isLastOf_joinedAll (fun _ _ => rfl) (hspan opening ▸ hr)
  case span_closer =>
    intro opening r hr
    exact SpanRule.head?_closer_joinedAll (hspan opening ▸ hr)
  case container_eq_none_iff =>
    have hnone : ∀ rs : List Rule, Dict.joinedAll Rule.overlaidBy rs = none ↔ rs = [] := by
      intro rs
      cases rs <;> simp [Dict.joinedAll]
    rw [container_combine, hnone, List.filterMap_eq_nil_iff]
  case container_props =>
    intro r hr
    exact Dict.isLastOf_joinedAll (fun _ _ => rfl) (container_combine styles ▸ hr)

/-- Styles have one combination only. -/
theorem IsCombination.unique {styles : List Style} {c d : Style} (hc : IsCombination styles c)
    (hd : IsCombination styles d) : c = d := by
  have hparagraph : c.paragraph = d.paragraph := by
    refine Dict.ext_of_keys (hc.paragraph_keys.trans hd.paragraph_keys.symm) fun name r s hr hs => ?_
    exact congrArg Rule.mk ((hc.paragraph_props name r hr).unique (hd.paragraph_props name s hs))
  have hspan : c.span = d.span := by
    refine Dict.ext_of_keys (hc.span_keys.trans hd.span_keys.symm) fun opening r s hr hs => ?_
    have hprops := (hc.span_props opening r hr).unique (hd.span_props opening s hs)
    have hcloser := (hc.span_closer opening r hr).symm.trans (hd.span_closer opening s hs)
    exact congrArg₂ SpanRule.mk hprops (Option.some.inj hcloser)
  have hcontainer : c.container = d.container := by
    have hnone := hc.container_eq_none_iff.trans hd.container_eq_none_iff.symm
    cases hr : c.container with
    | none => exact (hnone.1 hr).symm
    | some r =>
      cases hs : d.container with
      | none =>
        rw [hnone.2 hs] at hr
        cases hr
      | some s =>
        exact congrArg (some ∘ Rule.mk) ((hc.container_props r hr).unique (hd.container_props s hs))
  cases c
  cases d
  exact congr (congrArg₂ Style.mk hparagraph hspan) hcontainer

/-! ### Combinations of combinations -/

@[simp] theorem merge_assoc (s t u : Style) : (s.merge t).merge u = s.merge (t.merge u) := by
  have hcontainer : mergeContainer (mergeContainer s.container t.container) u.container =
      mergeContainer s.container (mergeContainer t.container u.container) := by
    cases s.container <;> cases t.container <;> cases u.container <;>
      simp [mergeContainer]
  simp only [merge, Dict.mergeWith_assoc Rule.overlaidBy_assoc, Dict.mergeWith_assoc SpanRule.overlaidBy_assoc,
    hcontainer]

@[simp] theorem empty_merge (s : Style) : empty.merge s = s := by
  simp [merge, empty, mergeContainer]

@[simp] theorem merge_empty (s : Style) : s.merge empty = s := by
  obtain ⟨paragraph, span, container⟩ := s
  cases container <;> rfl

@[simp] theorem merge_self (s : Style) : s.merge s = s := by
  obtain ⟨paragraph, span, container⟩ := s
  simp only [merge, Dict.mergeWith_self Rule.overlaidBy_self, Dict.mergeWith_self SpanRule.overlaidBy_self]
  cases container with
  | none => rfl
  | some r => simp [mergeContainer]

@[simp] theorem combine_singleton (s : Style) : combine [s] = s :=
  empty_merge s

theorem combine_pair (s t : Style) : combine [s, t] = s.merge t :=
  congrArg (merge · t) (empty_merge s)

/-- **Styles combined in two groups** combine to the same. -/
theorem combine_append (xs ys : List Style) : combine (xs ++ ys) = combine [combine xs, combine ys] := by
  have hgroup : ∀ s : Style, ys.foldl merge s = s.merge (combine ys) := by
    intro s
    rw [combine, ← List.foldl_hom s.merge (fun t u => merge_assoc s t u), merge_empty]
  rw [combine_pair, combine, List.foldl_append, hgroup]
  rfl

/-- **A combination is set rule by rule, and grouping makes no difference to it.** Any styles combine, and what they
combine to is their one combination; combined in two groups they combine to the same, and a style alone or twice
combines to itself. -/
theorem combine_by_rules_and_groups :
    (∀ styles : List Style, Value.combine (styles.map toValue) = .ok (combine styles).toValue ∧
      ∀ c, IsCombination styles c ↔ c = combine styles) ∧
    (∀ xs ys : List Style, ∃ x y, Value.combine (xs.map toValue) = .ok x ∧
      Value.combine (ys.map toValue) = .ok y ∧
      Value.combine ((xs ++ ys).map toValue) = Value.combine [x, y]) ∧
    (∀ s : Style, Value.combine [s.toValue] = .ok s.toValue) ∧
    ∀ s : Style, Value.combine [s.toValue, s.toValue] = .ok s.toValue := by
  have hvalue : ∀ styles : List Style, Value.combine (styles.map toValue) = .ok (combine styles).toValue :=
    Value.combine_toValue
  refine ⟨fun styles => ⟨hvalue styles, fun c => ⟨fun h => ?rules, ?_⟩⟩, fun xs ys => ?groups,
    fun s => ?alone, fun s => ?twice⟩
  case rules => exact h.unique (isCombination_combine styles)
  · rintro rfl
    exact isCombination_combine styles
  case groups =>
    refine ⟨_, _, hvalue xs, hvalue ys, ?_⟩
    rw [hvalue, combine_append]
    exact (hvalue [combine xs, combine ys]).symm
  case alone => exact (hvalue [s]).trans (by simp)
  case twice => exact (hvalue [s, s]).trans (by simp [combine_pair])

end Style

end ProseMarkup
