import ProseMarkup.Text.Basic

/-!
# Prefix trees

A prefix tree holds a fixed set of patterns of two kinds: an exact pattern stands for itself, a
wildcard pattern for every text that begins with it.

* `PrefixTree.ofPatterns` : the tree of a list of exact and a list of wildcard patterns.
* `PrefixTree.holds`, `PrefixTree.covers` : membership, without and with wildcards.
* `PrefixTree.patternsAt` : the exact patterns that begin a text, longest first.
* `PrefixTree.leftmost?` : the leftmost place in a text where an exact pattern begins.

Main statements: a match lies inside its text, and none of its patterns is empty
(`leftmost?_index_lt`, `leftmost?_patterns`).
-/

namespace ProseMarkup

/-- A node of a prefix tree. -/
inductive PrefixTree where
  /-- `terminal`: an exact pattern ends here. `accepting`: a wildcard pattern ends here. -/
  | node (terminal accepting : Bool) (children : List (Char × PrefixTree))

namespace PrefixTree

/-- What is marked at the node where a pattern ends. -/
inductive Mark where
  | exact
  | wildcard
deriving DecidableEq, Repr

/-- The tree without patterns. -/
def empty : PrefixTree := node false false []

instance : Inhabited PrefixTree := ⟨empty⟩

/-- The child under a character. -/
def child? (c : Char) : List (Char × PrefixTree) → Option PrefixTree
  | [] => none
  | (d, t) :: rest => if d = c then some t else child? c rest

/-- Children after putting a tree under a character. -/
def setChild (c : Char) (t : PrefixTree) : List (Char × PrefixTree) → List (Char × PrefixTree)
  | [] => [(c, t)]
  | (d, u) :: rest => if d = c then (c, t) :: rest else (d, u) :: setChild c t rest

/-- A tree with one more pattern. -/
def insert (mark : Mark) : (pattern : Text) → PrefixTree → PrefixTree
  | [], node terminal accepting children =>
    match mark with
    | .exact => node true accepting children
    | .wildcard => node terminal true children
  | c :: p, node terminal accepting children =>
    node terminal accepting
      (setChild c (insert mark p ((child? c children).getD empty)) children)

/-- The tree of the given exact and wildcard patterns. -/
def ofPatterns (exact wildcard : List Text) : PrefixTree :=
  wildcard.foldl (fun t p => t.insert .wildcard p)
    (exact.foldl (fun t p => t.insert .exact p) empty)

/-! ### Membership -/

/-- Whether a key is exactly one of the exact patterns. -/
def holds : (key : Text) → PrefixTree → Bool
  | [], node terminal _ _ => terminal
  | c :: s, node _ _ children =>
    match child? c children with
    | none => false
    | some t => holds s t

/-- Whether a key is one of the exact patterns, or begins with a wildcard pattern. -/
def covers : (key : Text) → PrefixTree → Bool
  | [], node terminal accepting _ => accepting || terminal
  | c :: s, node _ accepting children =>
    accepting ||
      match child? c children with
      | none => false
      | some t => covers s t

/-! ### Search -/

/-- Whether an exact pattern ends at the root. -/
def isTerminal : PrefixTree → Bool
  | node terminal _ _ => terminal

/-- Whether a wildcard pattern ends at the root. -/
def isAccepting : PrefixTree → Bool
  | node _ accepting _ => accepting

/-- The non-empty exact patterns that begin a text, longest first. -/
def patternsAt : (s : Text) → PrefixTree → List Text
  | [], _ => []
  | c :: s, node _ _ children =>
    match child? c children with
    | none => []
    | some t => (patternsAt s t).map (c :: ·) ++ if t.isTerminal then [[c]] else []

/-- A place where patterns begin. -/
structure Hit where
  /-- The place. -/
  index : Nat
  /-- The patterns that begin there, longest first. -/
  patterns : List Text
deriving DecidableEq, Repr

/-- The leftmost place in a text where a non-empty exact pattern begins. -/
def leftmost? (t : PrefixTree) : Text → Option Hit
  | [] => none
  | c :: s =>
    match t.patternsAt (c :: s) with
    | [] => (leftmost? t s).map fun m => ⟨m.index + 1, m.patterns⟩
    | p :: ps => some ⟨0, p :: ps⟩

/-- The leftmost such place at or after `start`; a negative `start` counts as zero. -/
def leftmostFrom? (t : PrefixTree) (s : Text) (start : Int) : Option Hit :=
  (t.leftmost? (s.drop start.toNat)).map fun m => ⟨m.index + start.toNat, m.patterns⟩

theorem patternsAt_bounds {t : PrefixTree} {s p : Text} (h : p ∈ t.patternsAt s) :
    p ≠ [] ∧ p.length ≤ s.length := by
  induction s generalizing t p with
  | nil => simp [patternsAt] at h
  | cons c s ih =>
    obtain ⟨terminal, accepting, children⟩ := t
    rw [patternsAt] at h
    cases hc : child? c children with
    | none => simp [hc] at h
    | some u =>
      simp only [hc, List.mem_append, List.mem_map] at h
      rcases h with ⟨q, hq, rfl⟩ | h
      · have := ih hq
        simp only [List.length_cons]
        exact ⟨by simp, by omega⟩
      · split at h
        · simp only [List.mem_singleton] at h
          subst h
          simp
        · simp at h

theorem leftmost?_index_lt {t : PrefixTree} {s : Text} {m : Hit} (h : t.leftmost? s = some m) :
    m.index < s.length := by
  induction s generalizing m with
  | nil => simp [leftmost?] at h
  | cons c s ih =>
    rw [leftmost?] at h
    split at h
    · cases hf : t.leftmost? s with
      | none => simp [hf] at h
      | some m' =>
        simp only [hf, Option.map_some, Option.some.injEq] at h
        have := ih hf
        subst h
        simpa using this
    · simp only [Option.some.injEq] at h
      subst h
      simp

theorem leftmost?_patterns {t : PrefixTree} {s : Text} {m : Hit} (h : t.leftmost? s = some m)
    {p : Text} (hp : p ∈ m.patterns) : p ≠ [] ∧ m.index + p.length ≤ s.length := by
  induction s generalizing m with
  | nil => simp [leftmost?] at h
  | cons c s ih =>
    rw [leftmost?] at h
    split at h
    · cases hf : t.leftmost? s with
      | none => simp [hf] at h
      | some m' =>
        simp only [hf, Option.map_some, Option.some.injEq] at h
        subst h
        have := ih hf hp
        simp only [List.length_cons]
        exact ⟨this.1, by omega⟩
    · next q qs hq =>
      simp only [Option.some.injEq] at h
      subst h
      have := patternsAt_bounds (t := t) (s := c :: s) (p := p) (by rw [hq]; exact hp)
      exact ⟨this.1, by simpa using this.2⟩

theorem leftmostFrom?_bounds {t : PrefixTree} {s : Text} {start : Nat} {m : Hit}
    (h : t.leftmostFrom? s start = some m) : start ≤ m.index ∧ m.index < s.length := by
  rw [leftmostFrom?] at h
  rw [Int.toNat_natCast] at h
  cases hf : t.leftmost? (s.drop start) with
  | none => simp [hf] at h
  | some m' =>
    simp only [hf, Option.map_some, Option.some.injEq] at h
    have := leftmost?_index_lt hf
    rw [List.length_drop] at this
    subst h
    exact ⟨by simp, by simp; omega⟩

theorem leftmostFrom?_patterns {t : PrefixTree} {s : Text} {start : Nat} {m : Hit}
    (h : t.leftmostFrom? s start = some m) {p : Text} (hp : p ∈ m.patterns) :
    p ≠ [] ∧ m.index + p.length ≤ s.length := by
  rw [leftmostFrom?] at h
  rw [Int.toNat_natCast] at h
  cases hf : t.leftmost? (s.drop start) with
  | none => simp [hf] at h
  | some m' =>
    simp only [hf, Option.map_some, Option.some.injEq] at h
    have hlt := leftmost?_index_lt hf
    subst h
    have := leftmost?_patterns hf hp
    rw [List.length_drop] at this hlt
    exact ⟨this.1, by simp; omega⟩

end PrefixTree

end ProseMarkup
