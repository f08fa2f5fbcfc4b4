import Mathlib.Data.List.Sort
import ProseMarkup.Proofs.PrefixTree

/-!
# The search for patterns

What a search for patterns answers is said without the tree that it walks through: the least position, there or
later, at which one of the patterns begins, and with it the patterns that begin there.

* `PrefixTree.BeginsAt` : one of some patterns begins at a position, the empty pattern left aside.
* `PrefixTree.IsFirstHit` : the first such position, and the patterns there, longest first.
* `PrefixTree.IsFirstHit.unique` : there is one first hit at most.
* `PrefixTree.leftmostFrom?_eq_some_iff` : **a search answers the first hit**.
* `PrefixTree.leftmostFrom?_exact` : **the answers of a search**, and what has no part in them.
-/

namespace ProseMarkup.PrefixTree

variable {exact wildcard : List Text} {s : Text} {start : Int} {m : Hit}

/-- One of some patterns begins at a position of a text. The empty pattern does not count. -/
def BeginsAt (patterns : List Text) (s : Text) (i : Nat) : Prop :=
  ∃ p ∈ patterns, p ≠ [] ∧ Text.OccursAt p s i

/-- The first hit of some patterns in a text, from a position on; a negative position counts as zero. -/
structure IsFirstHit (patterns : List Text) (s : Text) (start : Int) (m : Hit) : Prop where
  least : IsLeast {i : Nat | max start 0 ≤ (i : Int) ∧ BeginsAt patterns s i} m.index
  mem_patterns_iff : ∀ p, p ∈ m.patterns ↔ p ∈ patterns ∧ p ≠ [] ∧ Text.OccursAt p s m.index
  once : m.patterns.Nodup
  longestFirst : m.patterns.Pairwise fun p q => q.length < p.length

/-! ### First hits -/

/-- Lists with the same members, each in the order of their lengths, are equal. -/
theorem eq_of_longestFirst {ps qs : List Text} (hps : ps.Pairwise fun p q => q.length < p.length)
    (hqs : qs.Pairwise fun p q => q.length < p.length) (h : ∀ p, p ∈ ps ↔ p ∈ qs) : ps = qs := by
  have : Std.Irrefl fun p q : Text => q.length < p.length := ⟨fun p => Nat.lt_irrefl p.length⟩
  have : Std.Antisymm fun p q : Text => q.length < p.length :=
    ⟨fun p q hpq hqp => absurd hpq (Nat.lt_asymm hqp)⟩
  exact hps.eq_of_mem_iff hqs (fun {p} => h p)

theorem IsFirstHit.unique {m' : Hit} (h : IsFirstHit exact s start m) (h' : IsFirstHit exact s start m') : m = m' := by
  obtain ⟨i, ps⟩ := m
  obtain ⟨j, qs⟩ := m'
  have hindex : i = j := h.least.unique h'.least
  subst hindex
  have hpatterns : ps = qs := by
    apply eq_of_longestFirst h.longestFirst h'.longestFirst
    intro p
    rw [h.mem_patterns_iff, h'.mem_patterns_iff]
  rw [hpatterns]

theorem beginsAt_congr {exact' : List Text} (h : ∀ p, p ≠ [] → (p ∈ exact ↔ p ∈ exact')) (i : Nat) :
    BeginsAt exact s i ↔ BeginsAt exact' s i := by
  apply exists_congr
  intro p
  exact and_congr_left fun hp => h p hp.1

/-- The order of the patterns, their number and the empty one do not matter. -/
theorem IsFirstHit.congr {exact' : List Text} (h : ∀ p, p ≠ [] → (p ∈ exact ↔ p ∈ exact'))
    (hfirst : IsFirstHit exact s start m) : IsFirstHit exact' s start m := by
  refine ⟨?_, ?_, hfirst.once, hfirst.longestFirst⟩
  · simpa only [beginsAt_congr h] using hfirst.least
  · intro p
    rw [hfirst.mem_patterns_iff]
    exact and_congr_left fun hp => h p hp.1

/-! ### The walk -/

theorem patternsAt_drop_eq_nil_iff {i : Nat} :
    (ofPatterns exact wildcard).patternsAt (s.drop i) = [] ↔ ¬ BeginsAt exact s i := by
  rw [List.eq_nil_iff_forall_not_mem]
  simp only [mem_patternsAt_drop, BeginsAt, not_exists]

theorem leftmostFrom?_toNat (t : PrefixTree) (s : Text) (start : Int) :
    t.leftmostFrom? s start = t.leftmostFrom? s (start.toNat : Int) := by
  rw [leftmostFrom?, leftmostFrom?, Int.toNat_natCast]

theorem patterns_ne_nil_of_leftmost? {t : PrefixTree} (h : t.leftmost? s = some m) : m.patterns ≠ [] := by
  induction s generalizing m with
  | nil => cases h
  | cons c s ih =>
    rw [leftmost?] at h
    split at h
    · obtain ⟨m', hm', rfl⟩ := Option.map_eq_some_iff.1 h
      have hne : m'.patterns ≠ [] := ih hm'
      exact hne
    · cases h
      exact List.cons_ne_nil _ _

/-- Where there is a hit, there is a pattern. -/
theorem patterns_ne_nil_of_leftmostFrom? {t : PrefixTree} (h : t.leftmostFrom? s start = some m) :
    m.patterns ≠ [] := by
  obtain ⟨m', hm', rfl⟩ := Option.map_eq_some_iff.1 h
  have hne : m'.patterns ≠ [] := patterns_ne_nil_of_leftmost? hm'
  exact hne

/-- What a walk answers is a first hit: the walk passes over the positions before it one by one. -/
theorem isFirstHit_of_leftmostFrom? (h : (ofPatterns exact wildcard).leftmostFrom? s start = some m) :
    IsFirstHit exact s start m := by
  rw [leftmostFrom?_toNat] at h
  have hpatterns := leftmostFrom?_patterns_eq h
  have hbounds := leftmostFrom?_bounds h
  have hordered : m.patterns.Pairwise fun p q => q.length < p.length := by
    rw [hpatterns]
    exact pairwise_patternsAt _ _
  have hbegins : BeginsAt exact s m.index := by
    by_contra hnot
    exact patterns_ne_nil_of_leftmostFrom? h (hpatterns.trans (patternsAt_drop_eq_nil_iff.2 hnot))
  refine ⟨⟨⟨by omega, hbegins⟩, ?_⟩, ?_, ?_, hordered⟩
  · intro i hi
    obtain ⟨hstart, hpattern⟩ := hi
    by_contra hlt
    exact patternsAt_drop_eq_nil_iff.1 (patternsAt_eq_nil_of_lt h (by omega) (by omega)) hpattern
  · intro p
    rw [hpatterns, mem_patternsAt_drop]
  · apply hordered.imp
    intro p q hlt heq
    rw [heq] at hlt
    exact Nat.lt_irrefl _ hlt

theorem leftmostFrom?_eq_none_iff_not_beginsAt :
    (ofPatterns exact wildcard).leftmostFrom? s start = none ↔
      ∀ i : Nat, max start 0 ≤ (i : Int) → ¬ BeginsAt exact s i := by
  rw [leftmostFrom?_toNat, leftmostFrom?_eq_none_iff]
  simp only [patternsAt_drop_eq_nil_iff]
  constructor
  · intro h i hi
    exact h i (by omega)
  · intro h i hi
    exact h i (by omega)

/-- **A search answers the first hit**, and it does if there is one. -/
theorem leftmostFrom?_eq_some_iff :
    (ofPatterns exact wildcard).leftmostFrom? s start = some m ↔ IsFirstHit exact s start m := by
  constructor
  · exact isFirstHit_of_leftmostFrom?
  · intro h
    cases hfound : (ofPatterns exact wildcard).leftmostFrom? s start with
    | none => exact absurd h.least.1.2 (leftmostFrom?_eq_none_iff_not_beginsAt.1 hfound _ h.least.1.1)
    | some m' => rw [(isFirstHit_of_leftmostFrom? hfound).unique h]

/-- **The answers of a search.** For any patterns, any text and any position to begin at, a search in the tree of the
patterns answers the first hit, or nothing if none of the patterns begins there or later. Wildcard patterns have no
part in it, and neither has the empty pattern. -/
theorem leftmostFrom?_exact (exact wildcard : List Text) (s : Text) (start : Int) :
    (∀ m, (ofPatterns exact wildcard).leftmostFrom? s start = some m ↔ IsFirstHit exact s start m) ∧
    ((ofPatterns exact wildcard).leftmostFrom? s start = none ↔
      ∀ i : Nat, max start 0 ≤ (i : Int) → ¬ BeginsAt exact s i) ∧
    ∀ wildcard', (ofPatterns (exact.filter (· ≠ [])) wildcard').leftmostFrom? s start =
      (ofPatterns exact wildcard).leftmostFrom? s start := by
  refine ⟨fun m => leftmostFrom?_eq_some_iff, leftmostFrom?_eq_none_iff_not_beginsAt, fun wildcard' => ?_⟩
  have hmem : ∀ p, p ≠ [] → (p ∈ exact.filter (· ≠ []) ↔ p ∈ exact) := by
    intro p hne
    simp [hne]
  apply Option.ext
  intro m
  rw [leftmostFrom?_eq_some_iff, leftmostFrom?_eq_some_iff]
  exact ⟨.congr hmem, .congr fun p hne => (hmem p hne).symm⟩

/-- A pattern that begins in a longer one, which breaks off. -/
example : (ofPatterns ["abcd".toList, "bc".toList, "b".toList, [], "bc".toList] ["a".toList]).leftmostFrom?
    "xabce".toList (-1) = some ⟨2, ["bc".toList, "b".toList]⟩ := by
  decide +kernel

end ProseMarkup.PrefixTree
