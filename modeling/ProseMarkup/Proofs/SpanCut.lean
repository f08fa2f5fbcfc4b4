import ProseMarkup.Proofs.PrefixTree
import ProseMarkup.Proofs.Symbols

/-!
# How a span cuts fragments

A span found in fragments cuts them into the text before it, its opening delimiter, what it encloses,
its closing delimiter, and what follows it.

* `Span.find?_hit` : what is known of a span found.
* `Span.symbols_cut` : **the cut**. No symbol is lost, none is repeated, and all keep their order.
-/

namespace ProseMarkup.Span

open Content (Symbol symbols)

variable {rules : RuleIndex} {s : Text} {later : List Content} {span : Found}

/-! ### What is known of a span found -/

/-- A span found opens with a pattern of a hit, and closes at the first admissible place. -/
theorem find?_hit (h : find? rules s later = some span) :
    ∃ (start : Nat) (m : PrefixTree.Hit), rules.openings.leftmostFrom? s start = some m ∧
      span.opening ∈ m.patterns ∧ span.start = m.index ∧
      span.closer = rules.closing span.opening ∧
      closingPlace? span.closer s later span.contentStart =
        some (span.closingFragment, span.closingStart) := by
  have key : ∀ start : Nat, findFrom? rules s later start = some span →
      ∃ (start : Nat) (m : PrefixTree.Hit), rules.openings.leftmostFrom? s start = some m ∧
        span.opening ∈ m.patterns ∧ span.start = m.index ∧
        span.closer = rules.closing span.opening ∧
        closingPlace? span.closer s later span.contentStart =
          some (span.closingFragment, span.closingStart) := by
    intro start
    fun_induction findFrom? rules s later start with
    | case1 start found hl =>
      intro hs
      cases hs
      rw [look] at hl
      split at hl
      · cases hl
      · next m hm =>
        split at hl
        · next found hf =>
          cases hl
          obtain ⟨p, hp, ht⟩ := List.exists_of_findSome?_eq_some hf
          obtain ⟨place, hplace, rfl⟩ := Option.map_eq_some_iff.1 ht
          exact ⟨start, m, hm, hp, rfl, rfl, hplace⟩
        · cases hl
    | case2 start hl =>
      intro hs
      cases hs
    | case3 start next hl hb ih => exact ih
  exact key 0 h

/-- The opening delimiter of a span found is one of the index. -/
theorem opening_mem_keys (h : find? rules s later = some span) :
    span.opening ∈ rules.closers.keys := by
  obtain ⟨start, m, hm, hp, -⟩ := find?_hit h
  rw [rules.openings_eq] at hm
  exact (PrefixTree.mem_patterns_leftmostFrom? hm hp).1

theorem closer_eq (h : find? rules s later = some span) :
    span.closer = rules.closing span.opening := by
  obtain ⟨start, m, -, -, -, hcloser, -⟩ := find?_hit h
  exact hcloser

/-- The text from the beginning of a span on: its opening delimiter, and all after it. -/
theorem take_append_opening (h : find? rules s later = some span) :
    s.take span.start ++ span.opening ++ s.drop span.contentStart = s := by
  obtain ⟨start, m, hm, hp, hstart, -⟩ := find?_hit h
  rw [rules.openings_eq] at hm
  have hprefix := (PrefixTree.mem_patterns_leftmostFrom? hm hp).2
  rw [← hstart] at hprefix
  exact Text.take_append_drop_of_prefix hprefix

/-! ### Where a span closes -/

theorem prefix_drop_of_findInText? {closer : Text} {start j : Nat}
    (h : findInText? closer s start = some j) : closer <+: s.drop j := by
  rw [findInText?] at h
  split at h
  · next k hk =>
    split at h
    · exact Text.prefix_drop_of_findFrom? h
    · cases h
      exact Text.prefix_drop_of_findFrom? hk
  · cases h

/-- A closing delimiter found in later fragments stands in one of their texts. -/
theorem findLater?_text {closer : Text} {place : Nat × Nat}
    (h : findLater? closer later = some place) :
    ∃ t, later[place.1]? = some (.text t) ∧ closer <+: t.drop place.2 := by
  induction later generalizing place with
  | nil => cases h
  | cons c later ih =>
    cases c with
    | text t =>
      rw [findLater?] at h
      split at h
      · next i hi =>
        cases h
        exact ⟨t, rfl, Text.prefix_drop_of_find? hi⟩
      · obtain ⟨p, hp, rfl⟩ := Option.map_eq_some_iff.1 h
        exact ih hp
    | _ =>
      rw [findLater?] at h
      · obtain ⟨p, hp, rfl⟩ := Option.map_eq_some_iff.1 h
        exact ih hp
      · intro t ht
        cases ht

/-- A span closes in the text it begins in, or in a later one. -/
theorem closing_cases (h : find? rules s later = some span) :
    (span.closingFragment = 0 ∧ span.contentStart ≤ span.closingStart ∧
      span.closer <+: s.drop span.closingStart) ∨
    ∃ k t, span.closingFragment = k + 1 ∧ later[k]? = some (.text t) ∧
      span.closer <+: t.drop span.closingStart := by
  obtain ⟨start, m, -, -, -, -, hclose⟩ := find?_hit h
  rw [closingPlace?] at hclose
  split at hclose
  · next j hj =>
    simp only [Option.some.injEq, Prod.mk.injEq] at hclose
    obtain ⟨hfragment, hstart⟩ := hclose
    rw [← hstart]
    exact .inl ⟨hfragment.symm, (findInText?_bounds hj).1, prefix_drop_of_findInText? hj⟩
  · obtain ⟨place, hplace, heq⟩ := Option.map_eq_some_iff.1 hclose
    simp only [Prod.mk.injEq] at heq
    obtain ⟨hfragment, hstart⟩ := heq
    obtain ⟨t, ht, hprefix⟩ := findLater?_text hplace
    rw [← hstart]
    exact .inr ⟨place.1, t, hfragment.symm, ht, hprefix⟩

/-! ### The cut -/

theorem contents_within (s : Text) (later : List Content) (hf : span.closingFragment = 0) :
    span.contents (.text s :: later) =
      dropEmpty [.text ((s.take span.closingStart).drop span.contentStart)] := by
  rw [Found.contents, slice, hf, if_pos rfl]
  rfl

theorem rest_within (s : Text) (later : List Content) (hf : span.closingFragment = 0) :
    span.rest (.text s :: later) =
      dropEmpty (.text (s.drop (span.closingStart + span.closer.length)) :: later) := by
  rw [Found.rest, sliceFrom, hf]
  rfl

theorem contents_across {k : Nat} {t : Text} (s : Text) (hf : span.closingFragment = k + 1)
    (ht : later[k]? = some (.text t)) :
    span.contents (.text s :: later) =
      dropEmpty (.text (s.drop span.contentStart) ::
        (later.take k ++ [.text (t.take span.closingStart)])) := by
  have hne : ¬ 0 = k + 1 := by omega
  rw [Found.contents, slice, hf, if_neg hne, List.getElem?_cons_succ, ht, Nat.zero_add,
    Nat.add_sub_cancel]
  rfl

theorem rest_across {k : Nat} {t : Text} (s : Text) (hf : span.closingFragment = k + 1)
    (ht : later[k]? = some (.text t)) :
    span.rest (.text s :: later) =
      dropEmpty (.text (t.drop (span.closingStart + span.closer.length)) :: later.drop (k + 1)) := by
  rw [Found.rest, sliceFrom, hf, List.getElem?_cons_succ, ht]
  rfl

/-- **The cut.** The symbols of fragments are those of the text before a span, of its opening delimiter,
of what it encloses, of its closing delimiter and of what follows it. -/
theorem symbols_cut (h : find? rules s later = some span) :
    symbols (.text s :: later) =
      (s.take span.start).map .inl ++ span.opening.map .inl ++
        symbols (span.contents (.text s :: later)) ++ span.closer.map .inl ++
        symbols (span.rest (.text s :: later)) := by
  have hopen : s.take span.start ++ (span.opening ++ s.drop span.contentStart) = s := by
    rw [← List.append_assoc, take_append_opening h]
  have hcons : symbols (.text s :: later) = s.map .inl ++ symbols later := by simp
  rw [hcons]
  rcases closing_cases h with ⟨hf, hle, hprefix⟩ | ⟨k, t, hf, ht, hprefix⟩
  · have hcontent : (s.take span.closingStart).drop span.contentStart ++
        (span.closer ++ s.drop (span.closingStart + span.closer.length)) =
          s.drop span.contentStart := by
      rw [← Text.drop_eq_of_prefix hprefix, Text.drop_take_append_drop s hle]
    rw [contents_within s later hf, rest_within s later hf]
    calc s.map Sum.inl ++ symbols later
        = (s.take span.start ++ (span.opening ++
            ((s.take span.closingStart).drop span.contentStart ++
              (span.closer ++ s.drop (span.closingStart + span.closer.length))))).map .inl ++
            symbols later := by rw [hcontent, hopen]
      _ = _ := by simp
  · have hclose := Text.take_append_drop_of_prefix hprefix
    have hlater : later.take k ++ (.text t :: later.drop (k + 1)) = later := by
      obtain ⟨hlt, hget⟩ := List.getElem?_eq_some_iff.1 ht
      rw [← hget, ← List.drop_eq_getElem_cons hlt, List.take_append_drop]
    rw [contents_across s hf ht, rest_across s hf ht]
    calc s.map Sum.inl ++ symbols later
        = (s.take span.start ++ (span.opening ++ s.drop span.contentStart)).map .inl ++
            symbols (later.take k ++ (.text (t.take span.closingStart ++ span.closer ++
              t.drop (span.closingStart + span.closer.length)) :: later.drop (k + 1))) := by
          rw [hopen, hclose, hlater]
      _ = _ := by simp

/-! ### What adds up over the cut -/

theorem sources_cut (h : find? rules s later = some span) :
    Content.sources rules (.text s :: later) =
      s.take span.start ++ span.opening ++
        Content.sources rules (span.contents (.text s :: later)) ++ span.closer ++
        Content.sources rules (span.rest (.text s :: later)) := by
  have htext : ∀ t : Text,
      (t.map Sum.inl).flatMap (Sum.elim (fun c => [c]) (Content.source rules)) = t := by
    intro t
    simp [List.flatMap_map]
  simp only [Content.sources_eq_flatMap, symbols_cut h, List.flatMap_append, htext]

theorem charCounts_cut (h : find? rules s later = some span) :
    Content.charCounts (.text s :: later) =
      (s.take span.start).length + span.opening.length +
        Content.charCounts (span.contents (.text s :: later)) + span.closer.length +
        Content.charCounts (span.rest (.text s :: later)) := by
  have htext : ∀ t : Text,
      ((t.map Sum.inl).map (Sum.elim (fun _ => 1) Content.charCount)).sum = t.length := by
    intro t
    simp [List.map_map, Function.comp_def, List.map_const']
  simp only [Content.charCounts_eq_sum, symbols_cut h, List.map_append, List.sum_append, htext]

theorem linkCounts_cut (h : find? rules s later = some span) :
    Content.linkCounts (.text s :: later) =
      Content.linkCounts (span.contents (.text s :: later)) +
        Content.linkCounts (span.rest (.text s :: later)) := by
  have htext : ∀ t : Text,
      ((t.map Sum.inl).map (Sum.elim (fun _ => 0) Content.linkCount)).sum = 0 := by
    intro t
    simp [List.map_map, Function.comp_def, List.map_const']
  simp only [Content.linkCounts_eq_sum, symbols_cut h, List.map_append, List.sum_append, htext,
    Nat.zero_add, Nat.add_zero]

/-- What holds of every text holds of all fragments just if it holds on both sides of the cut. -/
theorem all_cut {p : Content → Bool} (hp : ∀ t, p (.text t) = true)
    (h : find? rules s later = some span) :
    (Content.text s :: later).all p =
      ((span.contents (.text s :: later)).all p && (span.rest (.text s :: later)).all p) := by
  have htext : ∀ t : Text, (t.map Sum.inl).all (Sum.elim (fun _ => true) p) = true := by
    intro t
    simp [List.all_map]
  simp only [Content.all_symbols p hp, symbols_cut h, List.all_append, htext, Bool.true_and,
    Bool.and_true]

theorem areFragments_cut (h : find? rules s later = some span) :
    Content.areFragments (.text s :: later) =
      (Content.areFragments (span.contents (.text s :: later)) &&
        Content.areFragments (span.rest (.text s :: later))) := by
  simp only [Content.areFragments_eq_all, all_cut (p := Content.isFragment) (fun _ => rfl) h]

end ProseMarkup.Span
