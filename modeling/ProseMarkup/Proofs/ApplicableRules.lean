import Mathlib.Data.List.Infix
import ProseMarkup.Proofs.Lookup
import ProseMarkup.Proofs.SourceKept
import ProseMarkup.Proofs.SpanSearch

/-!
# Rules that apply

A span rule applies to a text if its opening delimiter is not empty and both its delimiters occur in the text. The
other rules of an index, and the order of all of them, do not show in what a text is resolved to: spans are looked
for in pieces of the text only, and every candidate for a span opens and closes with delimiters that occur in a piece.

* `RuleIndex.applicable`, `RuleIndex.mem_applicable` : the delimiters of the span rules that apply to a text.
* `Span.isCandidate_iff_applicable` : the candidates for a span, said with the rules that apply.
* `Span.find?_congr` : with the same rules that apply, the same span is found.
* `Resolution.resolve_congr` : and fragments of the text are resolved to the same.
* `Content.ofMarkup_congr` : **rules that do not apply do not interfere**.
-/

namespace ProseMarkup

open Text (OccursAt)

/-- The delimiters of the span rules that apply to a text: an opening one that is not empty and a closing one, both of
which occur in the text. -/
def RuleIndex.applicable (rules : RuleIndex) (s : Text) : List (Text × Text) :=
  rules.closers.entries.filter fun e => decide (e.1 ≠ [] ∧ e.1 <:+: s ∧ e.2 <:+: s)

theorem RuleIndex.mem_applicable {rules : RuleIndex} {s : Text} {e : Text × Text} :
    e ∈ rules.applicable s ↔ e ∈ rules.closers.entries ∧ e.1 ≠ [] ∧ e.1 <:+: s ∧ e.2 <:+: s := by
  rw [applicable, List.mem_filter, decide_eq_true_iff]

/-! ### Candidates -/

namespace Span

variable {rules rules' : RuleIndex} {s whole : Text} {later : List Content}

/-- A closing delimiter that closes a span stands in one of the texts. -/
theorem ClosesAt.exists_occursAt {items : List Content} {k start g j : Nat} {closer : Text}
    (h : ClosesAt items k start closer g j) : ∃ t, .text t ∈ items ∧ OccursAt closer t j := by
  cases h with
  | here hs hj => exact ⟨_, List.mem_of_getElem? hs, hj.1.2⟩
  | later hs hnone hg ht hj => exact ⟨_, List.mem_of_getElem? ht, hj.1⟩

/-- In pieces of a text, candidates are spans between the delimiters of a rule that applies to it. -/
theorem isCandidate_iff_applicable (hpieces : ∀ t, .text t ∈ Content.text s :: later → t <:+: whole)
    {f : Found} :
    IsCandidate rules s later f ↔ (f.opening, f.closer) ∈ rules.applicable whole ∧
      OccursAt f.opening s f.start ∧
      ClosesAt (.text s :: later) 0 f.contentStart f.closer f.closingFragment f.closingStart := by
  have hhead : (Content.text s :: later)[0]? = some (.text s) := rfl
  have hcandidate : IsCandidate rules s later f ↔ _ := isCandidate_iff hhead
  rw [Nat.zero_add f.closingFragment] at hcandidate
  rw [hcandidate, RuleIndex.mem_applicable]
  constructor
  · intro h
    obtain ⟨⟨hne, hkey, hopens⟩, hcloser, hcloses⟩ := h
    obtain ⟨closer, hget, hmem⟩ := Dict.exists_get?_of_mem_keys hkey
    have hclosing : f.closer = closer := by
      rw [hcloser, RuleIndex.closing, hget, Option.getD_some]
    obtain ⟨t, ht, hoccurs⟩ := hcloses.exists_occursAt
    refine ⟨⟨hclosing ▸ hmem, hne, ?_, ?_⟩, hopens, hcloses⟩
    · exact hopens.isInfix.trans (hpieces s List.mem_cons_self)
    · exact hoccurs.isInfix.trans (hpieces t ht)
  · intro h
    obtain ⟨⟨hmem, hne, -, -⟩, hopens, hcloses⟩ := h
    have hget := Dict.mem_entries_iff.1 hmem
    refine ⟨⟨hne, List.mem_map_of_mem hmem, hopens⟩, ?_, hcloses⟩
    rw [RuleIndex.closing, hget, Option.getD_some]

/-- With the same candidates the same span is found. -/
theorem find?_eq_of_isCandidate_iff
    (h : ∀ f, IsCandidate rules s later f ↔ IsCandidate rules' s later f) :
    find? rules s later = find? rules' s later := by
  apply Option.ext
  intro f
  rw [find?_eq_some_iff, find?_eq_some_iff]
  simp only [h]

/-- **In pieces of a text, two indices with the same rules that apply to it find the same span.** -/
theorem find?_congr (h : ∀ e, e ∈ rules.applicable whole ↔ e ∈ rules'.applicable whole)
    (hpieces : ∀ t, .text t ∈ Content.text s :: later → t <:+: whole) :
    find? rules s later = find? rules' s later := by
  apply find?_eq_of_isCandidate_iff
  intro f
  rw [isCandidate_iff_applicable hpieces, isCandidate_iff_applicable hpieces, h]

end Span

/-! ### Resolution -/

theorem Content.infix_sources (rules : RuleIndex) {t : Text} {items : List Content} (h : .text t ∈ items) :
    t <:+: sources rules items := by
  obtain ⟨before, after, rfl⟩ := List.append_of_mem h
  simp

/-- **Two indices with the same rules that apply to a text resolve its fragments to the same**, at any level and
down to any limit of nesting: every cut leaves pieces of the text. -/
theorem Resolution.resolve_congr {rules rules' : RuleIndex} {whole : Text}
    (h : ∀ e, e ∈ rules.applicable whole ↔ e ∈ rules'.applicable whole) (limit : Int) (depth : Nat)
    (fragments : List Content) (hpieces : Content.sources rules fragments <:+: whole) :
    resolve rules limit depth fragments = resolve rules' limit depth fragments := by
  have hfind : ∀ s later, Content.sources rules (.text s :: later) <:+: whole →
      Span.find? rules s later = Span.find? rules' s later := by
    intro s later hpieces
    exact Span.find?_congr h fun t ht => (Content.infix_sources rules ht).trans hpieces
  fun_induction resolve rules limit depth fragments with
  | case1 depth fragments hcut => exact (resolve_of_le rules' hcut fragments).symm
  | case2 depth hdepth => exact (resolve_nil rules' hdepth).symm
  | case3 depth hdepth s later hnone rest ih =>
    rw [hfind s later hpieces] at hnone
    have hlater : Content.sources rules later <:+: whole := (List.suffix_append _ _).isInfix.trans hpieces
    rw [resolve_text_none rules' hdepth hnone, ← ih hlater]
  | case4 depth hdepth s later span hspan _ _ inner rest ihInner ihRest =>
    have hspan' := hspan
    rw [hfind s later hpieces] at hspan'
    rw [Span.sources_cut hspan] at hpieces
    have hinner : Content.sources rules (span.contents (.text s :: later)) <:+: whole := by
      refine List.IsInfix.trans ?_ hpieces
      rw [List.append_assoc _ span.closer]
      exact List.infix_append _ _ _
    have hrest : Content.sources rules (span.rest (.text s :: later)) <:+: whole :=
      (List.suffix_append _ _).isInfix.trans hpieces
    rw [resolve_text_some rules' hdepth hspan', ← ihInner hinner, ← ihRest hrest]
  | case5 depth hdepth url contents later inner rest ihInner ihRest =>
    have hinner : Content.sources rules contents <:+: whole := by
      refine List.IsInfix.trans ?_ hpieces
      rw [Content.sources, Content.source, List.append_assoc, List.append_assoc]
      exact (List.infix_append_left).trans (List.infix_append_right)
    have hlater : Content.sources rules later <:+: whole := (List.suffix_append _ _).isInfix.trans hpieces
    rw [resolve_link rules' hdepth, ← ihInner hinner, ← ihRest hlater]
  | case6 depth hdepth c later hnoText hnoLink rest ih =>
    have hlater : Content.sources rules later <:+: whole := (List.suffix_append _ _).isInfix.trans hpieces
    rw [resolve_other rules' hdepth hnoText hnoLink, ← ih hlater]

/-- **Rules that do not apply do not interfere.** If the same rules of two indices apply to a text, whatever other rules
they have and in whatever order, the text is resolved under both, and to the same. -/
theorem Content.ofMarkup_congr {rules rules' : RuleIndex} (hu : rules.unusable = [])
    (hu' : rules'.unusable = []) (links : Bool) {s : Text}
    (h : ∀ e, e ∈ rules.applicable s ↔ e ∈ rules'.applicable s) :
    ∃ r, ofMarkup rules links s = .ok r ∧ ofMarkup rules' links s = .ok r := by
  have hf := areFragments_fragmentsOf links s
  have hpieces : sources rules (fragmentsOf links s) <:+: s := by
    simpa only [sources_fragmentsOf] using List.infix_refl s
  refine ⟨_, Assembly.resolve_of_usable hu hf, ?_⟩
  rw [Resolution.resolve_congr h _ _ _ hpieces]
  exact Assembly.resolve_of_usable hu' hf

/-- One rule that applies to a text, in an index of its own, and behind a longer opening delimiter that is never closed
and an empty one. -/
theorem Content.ofMarkup_congr_longer_opening :
    (RuleIndex.unusable { ruleNames := [], closers := .singleton ['*'] ['*'] } = [] ∧
      RuleIndex.unusable
        { ruleNames := [], closers := ⟨[(['*', '*'], ['!']), ([], ['*']), (['*'], ['*'])], by decide⟩ } = [] ∧
      ∀ e, e ∈ RuleIndex.applicable { ruleNames := [], closers := .singleton ['*'] ['*'] } "a **b* c".toList ↔
        e ∈ RuleIndex.applicable
          { ruleNames := [], closers := ⟨[(['*', '*'], ['!']), ([], ['*']), (['*'], ['*'])], by decide⟩ }
          "a **b* c".toList) ∧
    ∃ r, ofMarkup { ruleNames := [], closers := .singleton ['*'] ['*'] } true "a **b* c".toList = .ok r ∧
      ofMarkup { ruleNames := [], closers := ⟨[(['*', '*'], ['!']), ([], ['*']), (['*'], ['*'])], by decide⟩ }
        true "a **b* c".toList = .ok r := by
  have happlicable :
      RuleIndex.applicable { ruleNames := [], closers := .singleton ['*'] ['*'] } "a **b* c".toList =
        RuleIndex.applicable
          { ruleNames := [], closers := ⟨[(['*', '*'], ['!']), ([], ['*']), (['*'], ['*'])], by decide⟩ }
          "a **b* c".toList := by
    decide +kernel
  have h := fun e => iff_of_eq (congrArg (e ∈ ·) happlicable)
  exact ⟨⟨rfl, rfl, h⟩, ofMarkup_congr rfl rfl true h⟩

end ProseMarkup
