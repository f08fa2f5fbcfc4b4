import ProseMarkup.PrefixTree
import ProseMarkup.Proofs.Occurrence

/-!
# What a prefix tree holds

The tree built by repeated insertion is tied to the lists of patterns it was built from.

* `PrefixTree.holds_insert_exact`, `PrefixTree.holds_insert_wildcard` : what one more pattern changes.
* `PrefixTree.holds_ofPatterns` : a tree holds exactly its exact patterns.
* `PrefixTree.mem_patternsAt`, `PrefixTree.mem_patternsAt_drop`, `PrefixTree.pairwise_patternsAt` : the patterns found
  at a place are those that begin the text there, longest first.
* `PrefixTree.leftmostFrom?_eq_none_iff`, `PrefixTree.patternsAt_eq_nil_of_lt` : before a hit there is none.
* `PrefixTree.mem_patterns_leftmostFrom?` : the patterns of a hit in the tree of a list of patterns.
-/

namespace ProseMarkup.PrefixTree

/-! ### Children -/

@[simp] theorem child?_setChild (c d : Char) (t : PrefixTree) (children : List (Char × PrefixTree)) :
    child? d (setChild c t children) = if c = d then some t else child? d children := by
  induction children with
  | nil => rfl
  | cons e rest ih =>
    obtain ⟨b, u⟩ := e
    rw [setChild]
    by_cases hbc : b = c
    · subst hbc
      rw [if_pos rfl]
      by_cases hbd : b = d
      · simp only [child?, hbd, if_true]
      · simp only [child?, hbd, if_false]
    · rw [if_neg hbc]
      by_cases hbd : b = d
      · subst hbd
        have hcb : ¬ c = b := fun h => hbc h.symm
        simp only [child?, hcb, if_true, if_false]
      · simp only [child?, hbd, if_false]
        exact ih

@[simp] theorem holds_nil (t : PrefixTree) : t.holds [] = t.isTerminal := by
  cases t
  rfl

@[simp] theorem holds_empty (k : Text) : empty.holds k = false := by
  cases k <;> rfl

/-- Holding a key below a child is holding the longer key, a missing child being an empty tree. -/
@[simp] theorem holds_cons (c : Char) (k : Text) (terminal accepting : Bool)
    (children : List (Char × PrefixTree)) :
    (node terminal accepting children).holds (c :: k) =
      ((child? c children).getD empty).holds k := by
  rw [holds]
  cases child? c children with
  | none => exact (holds_empty k).symm
  | some t => rfl

/-! ### Insertion -/

@[simp] theorem holds_insert_exact (p k : Text) (t : PrefixTree) :
    (insert .exact p t).holds k = true ↔ t.holds k = true ∨ k = p := by
  induction p generalizing k t with
  | nil =>
    obtain ⟨terminal, accepting, children⟩ := t
    cases k with
    | nil => simp [insert, isTerminal]
    | cons c k => simp [insert]
  | cons d p ih =>
    obtain ⟨terminal, accepting, children⟩ := t
    cases k with
    | nil => simp [insert, isTerminal]
    | cons c k =>
      by_cases hdc : d = c
      · subst hdc
        simp [insert, ih]
      · have hcd : ¬ c = d := fun h => hdc h.symm
        simp [insert, hdc, hcd]

@[simp] theorem holds_insert_wildcard (p k : Text) (t : PrefixTree) :
    (insert .wildcard p t).holds k = t.holds k := by
  induction p generalizing k t with
  | nil =>
    obtain ⟨terminal, accepting, children⟩ := t
    cases k with
    | nil => rfl
    | cons c k => simp [insert]
  | cons d p ih =>
    obtain ⟨terminal, accepting, children⟩ := t
    cases k with
    | nil => rfl
    | cons c k =>
      by_cases hdc : d = c
      · subst hdc
        simp [insert, ih]
      · simp [insert, hdc]

@[simp] theorem holds_foldl_insert_exact (ps : List Text) (t : PrefixTree) (k : Text) :
    (ps.foldl (fun t p => t.insert .exact p) t).holds k = true ↔ t.holds k = true ∨ k ∈ ps := by
  induction ps generalizing t with
  | nil => simp
  | cons p ps ih => simp [ih, or_assoc]

@[simp] theorem holds_foldl_insert_wildcard (ps : List Text) (t : PrefixTree) (k : Text) :
    (ps.foldl (fun t p => t.insert .wildcard p) t).holds k = t.holds k := by
  induction ps generalizing t with
  | nil => rfl
  | cons p ps ih => simp [ih]

/-- **A tree holds exactly its exact patterns**, in whatever order they were put in, and whatever
wildcard patterns share its nodes. -/
@[simp] theorem holds_ofPatterns (exact wildcard : List Text) (k : Text) :
    (ofPatterns exact wildcard).holds k = true ↔ k ∈ exact := by
  simp [ofPatterns]

/-! ### Patterns found -/

/-- The patterns found at the beginning of a text are the non-empty ones held that begin it. -/
theorem mem_patternsAt {t : PrefixTree} {s p : Text} :
    p ∈ t.patternsAt s ↔ p ≠ [] ∧ p <+: s ∧ t.holds p = true := by
  induction s generalizing t p with
  | nil =>
    simp only [patternsAt, List.not_mem_nil, List.prefix_nil, false_iff]
    rintro ⟨hne, hp, -⟩
    exact hne hp
  | cons c s ih =>
    obtain ⟨terminal, accepting, children⟩ := t
    cases p with
    | nil => exact iff_of_false (fun h => (patternsAt_bounds h).1 rfl) fun h => h.1 rfl
    | cons d p =>
      rw [patternsAt, List.cons_prefix_cons, holds]
      cases hc : child? c children with
      | none =>
        simp only [List.not_mem_nil, false_iff]
        rintro ⟨-, ⟨rfl, -⟩, hh⟩
        rw [hc] at hh
        exact absurd hh (by simp)
      | some u =>
        have hlonger : d :: p ∈ (patternsAt s u).map (c :: ·) ↔
            d = c ∧ p ≠ [] ∧ p <+: s ∧ u.holds p = true := by
          simp only [List.mem_map, List.cons.injEq]
          constructor
          · rintro ⟨q, hq, rfl, rfl⟩
            exact ⟨rfl, ih.1 hq⟩
          · rintro ⟨rfl, hp⟩
            exact ⟨p, ih.2 hp, rfl, rfl⟩
        have hsingle : d :: p ∈ (if u.isTerminal then [[c]] else []) ↔
            d = c ∧ p = [] ∧ u.holds [] = true := by
          rw [holds_nil]
          by_cases hu : u.isTerminal = true
          · simp [hu]
          · simp [hu]
        rw [List.mem_append, hlonger, hsingle]
        by_cases hdc : d = c
        · subst hdc
          simp only [true_and, hc]
          by_cases hp : p = []
          · subst hp
            simp
          · simp [hp]
        · simp [hdc]

/-- The patterns found at a position are the non-empty ones that occur there. -/
theorem mem_patternsAt_drop {exact wildcard : List Text} {s p : Text} {i : Nat} :
    p ∈ (ofPatterns exact wildcard).patternsAt (s.drop i) ↔ p ∈ exact ∧ p ≠ [] ∧ Text.OccursAt p s i := by
  rw [mem_patternsAt, holds_ofPatterns, Text.OccursAt]
  constructor
  · intro h
    obtain ⟨hne, hprefix, hp⟩ := h
    have hlength := hprefix.length_le
    have hpos := List.length_pos_iff.2 hne
    rw [List.length_drop] at hlength
    exact ⟨hp, hne, by omega, hprefix⟩
  · intro h
    obtain ⟨hp, hne, -, hprefix⟩ := h
    exact ⟨hne, hprefix, hp⟩

/-- The patterns found at a place stand in order, longest first. -/
theorem pairwise_patternsAt (t : PrefixTree) (s : Text) :
    (t.patternsAt s).Pairwise fun p q => q.length < p.length := by
  induction s generalizing t with
  | nil => exact .nil
  | cons c s ih =>
    obtain ⟨terminal, accepting, children⟩ := t
    rw [patternsAt]
    split
    · exact .nil
    · next u _ =>
      rw [List.pairwise_append, List.pairwise_map]
      refine ⟨(ih u).imp (by simp), ?_, ?_⟩
      · split
        · exact List.pairwise_singleton _ _
        · exact .nil
      · -- the pattern that ends at the child is the shortest
        intro p hp q hq
        obtain ⟨longer, hlonger, rfl⟩ := List.mem_map.1 hp
        have hpos := List.length_pos_iff.2 (patternsAt_bounds hlonger).1
        split at hq
        · rw [List.mem_singleton.1 hq, List.length_cons, List.length_cons]
          exact Nat.succ_lt_succ hpos
        · cases hq

/-! ### Hits -/

theorem leftmost?_eq_none_iff {t : PrefixTree} {s : Text} :
    t.leftmost? s = none ↔ ∀ i, t.patternsAt (s.drop i) = [] := by
  induction s with
  | nil => simp [leftmost?, patternsAt]
  | cons c s ih =>
    rw [leftmost?, ← Nat.and_forall_add_one, List.drop_zero]
    simp only [List.drop_succ_cons]
    split
    · next hnone => rw [Option.map_eq_none_iff, ih, and_iff_right hnone]
    · next p ps hps => simp [hps]

theorem patternsAt_eq_nil_of_lt_leftmost? {t : PrefixTree} {s : Text} {m : Hit}
    (h : t.leftmost? s = some m) {i : Nat} (hi : i < m.index) : t.patternsAt (s.drop i) = [] := by
  induction s generalizing m i with
  | nil => cases h
  | cons c s ih =>
    rw [leftmost?] at h
    split at h
    · next hnone =>
      obtain ⟨m', hm', rfl⟩ := Option.map_eq_some_iff.1 h
      cases i with
      | zero => exact hnone
      | succ i => exact ih hm' (Nat.lt_of_succ_lt_succ hi)
    · cases h
      exact absurd hi (Nat.not_lt_zero i)

/-- There is no hit from a position on just if no pattern begins there or later. -/
theorem leftmostFrom?_eq_none_iff {t : PrefixTree} {s : Text} {start : Nat} :
    t.leftmostFrom? s start = none ↔ ∀ i, start ≤ i → t.patternsAt (s.drop i) = [] := by
  rw [leftmostFrom?, Int.toNat_natCast, Option.map_eq_none_iff, leftmost?_eq_none_iff]
  constructor
  · intro h i hi
    rw [← Nat.add_sub_cancel' hi, ← List.drop_drop]
    exact h _
  · intro h i
    rw [List.drop_drop]
    exact h _ (Nat.le_add_right start i)

/-- Before a hit no pattern begins. -/
theorem patternsAt_eq_nil_of_lt {t : PrefixTree} {s : Text} {start : Nat} {m : Hit}
    (h : t.leftmostFrom? s start = some m) {i : Nat} (hstart : start ≤ i) (hi : i < m.index) :
    t.patternsAt (s.drop i) = [] := by
  rw [leftmostFrom?, Int.toNat_natCast] at h
  obtain ⟨m', hm', rfl⟩ := Option.map_eq_some_iff.1 h
  have hi' : i < m'.index + start := hi
  rw [← Nat.add_sub_cancel' hstart, ← List.drop_drop]
  exact patternsAt_eq_nil_of_lt_leftmost? hm' (by omega)

theorem leftmost?_patterns_eq {t : PrefixTree} {s : Text} {m : Hit} (h : t.leftmost? s = some m) :
    m.patterns = t.patternsAt (s.drop m.index) := by
  induction s generalizing m with
  | nil => simp [leftmost?] at h
  | cons c s ih =>
    rw [leftmost?] at h
    split at h
    · obtain ⟨m', hm', rfl⟩ := Option.map_eq_some_iff.1 h
      exact ih hm'
    · next p ps hps =>
      cases h
      exact hps.symm

/-- The patterns of a hit are those found where it is. -/
theorem leftmostFrom?_patterns_eq {t : PrefixTree} {s : Text} {start : Nat} {m : Hit}
    (h : t.leftmostFrom? s start = some m) : m.patterns = t.patternsAt (s.drop m.index) := by
  rw [leftmostFrom?, Int.toNat_natCast] at h
  obtain ⟨m', hm', rfl⟩ := Option.map_eq_some_iff.1 h
  rw [leftmost?_patterns_eq hm', List.drop_drop, Nat.add_comm]

/-- A pattern of a hit is one of those the tree was built from, and begins where the hit is. -/
theorem mem_patterns_leftmostFrom? {exact wildcard : List Text} {s p : Text} {start : Nat} {m : Hit}
    (h : (ofPatterns exact wildcard).leftmostFrom? s start = some m) (hp : p ∈ m.patterns) :
    p ∈ exact ∧ p <+: s.drop m.index := by
  rw [leftmostFrom?_patterns_eq h] at hp
  obtain ⟨-, hprefix, hholds⟩ := mem_patternsAt.1 hp
  exact ⟨(holds_ofPatterns exact wildcard p).1 hholds, hprefix⟩

end ProseMarkup.PrefixTree
