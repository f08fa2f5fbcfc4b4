import Mathlib.Data.List.Nodup
import ProseMarkup.Proofs.Membership
import ProseMarkup.Proofs.Restriction
import ProseMarkup.Proofs.StoredStyle

/-!
# Validation under tightened whitelists

A style that was compiled under whitelists since tightened can be dealt with in two ways: check it against the
new ones, or compile its sheet again and see whether it has changed. Both come to the same verdict. The check
finds the properties that the new whitelists refuse, and compiling again leaves out just these. Values are
compared without regard to the order of entries, which is enough here, because a dictionary with entries left
out has fewer of them.

* `Value.exists_of_beqEntries` : an entry of one dictionary has an equal one in an equal dictionary.
* `Style.Permitted.restrict_eq` : restriction leaves a style of permitted properties as it is.
* `Style.eq_of_beq_restrict` : **a style that equals its restriction, as a value, is its restriction**.
* `Storage.validStyle_iff_compiled_again` : **a style is valid under tightened whitelists just if it equals what
  its sheet compiles to under them**.
-/

namespace ProseMarkup

/-! ### Equal dictionaries -/

namespace Value

theorem beq_dict {es fs : List (Value × Value)} (h : beq (dict es) (dict fs) = true) :
    es.length = fs.length ∧ beqEntries es fs = true := by
  rw [beq, Bool.and_eq_true, beq_iff_eq] at h
  exact h

/-- An entry of one dictionary has an equal one in an equal dictionary. -/
theorem exists_of_beqEntries {es fs : List (Value × Value)} (h : beqEntries es fs = true)
    {e : Value × Value} (he : e ∈ es) : ∃ f ∈ fs, (e.1 == f.1) = true ∧ (e.2 == f.2) = true := by
  induction es with
  | nil => cases he
  | cons d es ih =>
    obtain ⟨k, v⟩ := d
    rw [beqEntries, Bool.and_eq_true] at h
    rcases List.mem_cons.1 he with rfl | he
    · obtain ⟨f, hf, hsame⟩ := List.any_eq_true.1 h.1
      rw [Bool.and_eq_true] at hsame
      exact ⟨f, hf, hsame⟩
    · exact ih h.2 he

end Value

namespace Dict

/-- If a dictionary equals itself with its values changed, as a value, then every value equals what it has
been changed to: keys that are equal stand in one place. -/
theorem beq_of_beq_mapValues {ν : Type} {g : ν → Value} {f : ν → ν} {d : Dict Text ν}
    (h : Value.beq ((d.mapValues f).toValue g) (d.toValue g) = true) :
    ∀ e ∈ d.entries, (g (f e.2) == g e.2) = true := by
  intro e he
  obtain ⟨-, hentries⟩ := Value.beq_dict h
  have hchanged : (e.1, f e.2) ∈ (d.mapValues f).entries :=
    List.mem_map_of_mem (f := fun e : Text × ν => (e.1, f e.2)) he
  obtain ⟨_, hfound, hkey, hvalue⟩ := Value.exists_of_beqEntries hentries
    (List.mem_map_of_mem (f := fun e : Text × ν => (Value.str e.1, g e.2)) hchanged)
  obtain ⟨e', he', rfl⟩ := List.mem_map.1 hfound
  rw [Value.str_beq_str, decide_eq_true_eq] at hkey
  obtain rfl : e = e' := List.inj_on_of_nodup_map d.nodup he he' hkey
  exact hvalue

/-- Properties that equal what is left of them, as values, are all left. -/
theorem restrict_eq_self_of_beq {p : Text → Bool} {d : Dict Text Text}
    (h : Value.beq (propsValue (d.restrict p)) (propsValue d) = true) : d.restrict p = d := by
  obtain ⟨hlength, -⟩ := Value.beq_dict h
  rw [List.length_map, List.length_map] at hlength
  exact restrict_eq_self_of_length hlength

end Dict

/-! ### Styles and their restrictions -/

namespace Style

variable {w : Whitelists} {s : Style}

/-- Restriction leaves a style of permitted properties as it is. -/
theorem Permitted.restrict_eq (h : s.Permitted w) : s.restrict w = s := by
  have hprops : ∀ {v : Whitelist} {props : Dict Text Text}, v.permitsAll props = true →
      props.restrict v.permits = props := by
    intro v props hall
    refine Dict.restrict_eq_self fun e he => ?_
    have hentry := List.all_eq_true.1 hall e he
    rw [Bool.and_eq_true] at hentry
    exact hentry.1
  refine restrict_eq_self ?_ ?_ ?_
  · intro e he
    rw [Rule.restrict, hprops (h.paragraph e he)]
  · intro e he
    rw [SpanRule.restrict, hprops (h.span e he)]
  · intro r hr
    rw [Rule.restrict, hprops (h.container r hr)]

/-- **A style that equals its restriction, as a value, is its restriction.** -/
theorem eq_of_beq_restrict (h : Value.beq (s.restrict w).toValue s.toValue = true) :
    s.restrict w = s := by
  have hfields : ((Value.beq ((s.restrict w).paragraph.toValue Rule.toValue)
      (s.paragraph.toValue Rule.toValue) &&
    Value.beq ((s.restrict w).span.toValue SpanRule.toValue) (s.span.toValue SpanRule.toValue)) &&
    Value.beq (optionValue Rule.toValue (s.restrict w).container)
      (optionValue Rule.toValue s.container)) = true := h
  rw [Bool.and_eq_true, Bool.and_eq_true] at hfields
  obtain ⟨⟨hparagraph, hspan⟩, hcontainer⟩ := hfields
  refine restrict_eq_self ?_ ?_ ?_
  · intro e he
    have hrule : Value.beq (propsValue (e.2.restrict w.paragraph).props) (propsValue e.2.props) = true :=
      Dict.beq_of_beq_mapValues hparagraph e he
    rw [Rule.restrict, Dict.restrict_eq_self_of_beq hrule]
  · intro e he
    have hrule : (Value.beq (propsValue (e.2.restrict w.span).props) (propsValue e.2.props) &&
        Value.beq (optionValue .str e.2.closer) (optionValue .str e.2.closer)) = true :=
      Dict.beq_of_beq_mapValues hspan e he
    rw [Bool.and_eq_true] at hrule
    rw [SpanRule.restrict, Dict.restrict_eq_self_of_beq hrule.1]
  · intro r hr
    rw [restrict, Option.mem_def.1 hr] at hcontainer
    have hrule : Value.beq (propsValue (r.restrict w.container).props) (propsValue r.props) = true :=
      hcontainer
    rw [Rule.restrict, Dict.restrict_eq_self_of_beq hrule]

/-- A style equals itself as a value if it is that of a sheet. -/
theorem beq_ofSheet_self (w : Whitelists) (sheet : Text) :
    Value.beq (ofSheet w sheet).toValue (ofSheet w sheet).toValue = true := by
  obtain ⟨hnan, -⟩ := Storage.roundTrips_style (Storage.validStyle_ofSheet w sheet)
    (Storage.hasPlainRules_toValue _)
  exact Value.beq_self hnan

end Style

/-! ### The two verdicts -/

/-- **A style is valid under tightened whitelists just if it equals what its sheet compiles to under them.** -/
theorem Storage.validStyle_iff_compiled_again {w₁ w₂ : Whitelists} (h : w₂.Within w₁) (sheet : Text) :
    validStyle w₂ (Style.ofSheet w₁ sheet).toValue = true ↔
      Value.beq (Style.ofSheet w₂ sheet).toValue (Style.ofSheet w₁ sheet).toValue = true := by
  have hrestrict := Style.ofSheet_restrict h sheet
  constructor
  · intro hvalid
    rw [hrestrict, (validStyle_toValue.1 hvalid).restrict_eq]
    exact Style.beq_ofSheet_self w₁ sheet
  · intro hsame
    rw [hrestrict] at hsame
    rw [← Style.eq_of_beq_restrict hsame, ← hrestrict]
    exact validStyle_ofSheet w₂ sheet

/-- Of the names that begin with `margin`, and `color`, one is still permitted: a sheet that sets it stays
valid, and one that sets `color` too does not. -/
theorem Storage.validStyle_iff_compiled_again_margin :
    Whitelists.Within ⟨.ofPatterns ["margin-top".toList], .ofPatterns [], .ofPatterns []⟩
      ⟨.ofPatterns ["margin*".toList, "color".toList], .ofPatterns [], .ofPatterns []⟩ ∧
    Value.beq
      (Style.ofSheet ⟨.ofPatterns ["margin-top".toList], .ofPatterns [], .ofPatterns []⟩
        "p a \x7bmargin-top: 1;\x7d".toList).toValue
      (Style.ofSheet ⟨.ofPatterns ["margin*".toList, "color".toList], .ofPatterns [], .ofPatterns []⟩
        "p a \x7bmargin-top: 1;\x7d".toList).toValue = true ∧
    ¬ Value.beq
      (Style.ofSheet ⟨.ofPatterns ["margin-top".toList], .ofPatterns [], .ofPatterns []⟩
        "p a \x7bmargin-top: 1; color: red;\x7d".toList).toValue
      (Style.ofSheet ⟨.ofPatterns ["margin*".toList, "color".toList], .ofPatterns [], .ofPatterns []⟩
        "p a \x7bmargin-top: 1; color: red;\x7d".toList).toValue = true := by
  have hwithin : Whitelists.Within ⟨.ofPatterns ["margin-top".toList], .ofPatterns [], .ofPatterns []⟩
      ⟨.ofPatterns ["margin*".toList, "color".toList], .ofPatterns [], .ofPatterns []⟩ := by
    intro space name hname
    cases space with
    | paragraph =>
      rcases Whitelist.permits_ofPatterns.1 hname with ⟨hmem, -⟩ | ⟨beginning, hmem, -⟩
      · rw [List.mem_singleton.1 hmem]
        decide
      · have hlast := congrArg List.getLast? (List.mem_singleton.1 hmem)
        rw [List.getLast?_concat] at hlast
        exact absurd hlast (by decide)
    | span => exact hname
    | container => exact hname
  refine ⟨hwithin, (validStyle_iff_compiled_again hwithin _).1 (by decide +kernel), ?_⟩
  exact fun hsame => absurd ((validStyle_iff_compiled_again hwithin _).2 hsame) (by decide +kernel)

end ProseMarkup
