import ProseMarkup.Content.Place
import ProseMarkup.Proofs.SpanCut

/-!
# Which span is found

Fragments may be cut at many spans. The one that is found begins first, and of those that begin at the same
position it has the longest opening delimiter; it closes at the first admissible place. An opening delimiter that
cannot be closed hides no other.

* `Span.IsCandidate`, `Span.Found.Precedes` : the spans there are, and their order.
* `Span.find?_eq_none_iff`, `Span.find?_eq_some_iff` : **the first of all candidates is found**.
* `Span.OpensAt`, `Span.ClosesAt` : where opening delimiters stand, and where a span that begins with one closes.
* `Span.isCandidate_iff` : what candidates are, said with those two.
* `Span.findAt_leftmost_longest` : **the search finds the leftmost, then longest, opening delimiter that can be
  closed**.
-/

namespace ProseMarkup.Span

open Text (OccursAt)

variable {rules : RuleIndex} {s : Text} {later : List Content}

/-! ### Candidates -/

/-- A span at which fragments may be cut: a delimiter of the index opens it, and it closes where that is first
admissible. -/
def IsCandidate (rules : RuleIndex) (s : Text) (later : List Content) (f : Found) : Prop :=
  f.opening ∈ rules.openings.patternsAt (s.drop f.start) ∧
    tryOpening? rules s later f.start f.opening = some f

/-- A span begins before another one, or where it begins, with an opening delimiter that is no shorter. -/
def Found.Precedes (f g : Found) : Prop :=
  f.start < g.start ∨ f.start = g.start ∧ g.opening.length ≤ f.opening.length

theorem tryOpening?_eq_some_iff {start : Nat} {opening : Text} {f : Found} :
    tryOpening? rules s later start opening = some f ↔
      f.start = start ∧ f.opening = opening ∧ f.closer = rules.closing opening ∧
        closingPlace? (rules.closing opening) s later (start + opening.length) =
          some (f.closingFragment, f.closingStart) := by
  rw [tryOpening?, Option.map_eq_some_iff]
  constructor
  · rintro ⟨p, hp, rfl⟩
    exact ⟨rfl, rfl, rfl, hp⟩
  · intro h
    obtain ⟨hstart, hopening, hcloser, hp⟩ := h
    refine ⟨(f.closingFragment, f.closingStart), hp, ?_⟩
    rw [← hcloser, ← hopening, ← hstart]

/-- Two candidates each of which precedes the other are the same. -/
theorem IsCandidate.eq_of_precedes {f g : Found} (hf : IsCandidate rules s later f)
    (hg : IsCandidate rules s later g) (hfg : f.Precedes g) (hgf : g.Precedes f) : f = g := by
  have hstart : f.start = g.start := by
    rcases hfg with h | h <;> rcases hgf with h' | h' <;> omega
  have hlength : f.opening.length = g.opening.length := by
    rcases hfg with h | h <;> rcases hgf with h' | h' <;> omega
  obtain ⟨-, hfprefix, -⟩ := PrefixTree.mem_patternsAt.1 hf.1
  obtain ⟨-, hgprefix, -⟩ := PrefixTree.mem_patternsAt.1 hg.1
  rw [hstart] at hfprefix
  have hopening : f.opening = g.opening :=
    (List.prefix_of_prefix_length_le hfprefix hgprefix hlength.le).eq_of_length hlength
  have hsame := hf.2
  rw [hstart, hopening, hg.2] at hsame
  exact (Option.some.inj hsame).symm

theorem IsCandidate.patternsAt_ne_nil {f : Found} (hf : IsCandidate rules s later f) :
    rules.openings.patternsAt (s.drop f.start) ≠ [] :=
  List.ne_nil_of_mem hf.1

/-! ### A single look -/

/-- A look that finds a span finds the first candidate. -/
theorem first_of_look_found {start : Nat} {f : Found} (h : look rules s later start = .found f) :
    start ≤ f.start ∧ IsCandidate rules s later f ∧
      ∀ g, IsCandidate rules s later g → start ≤ g.start → f.Precedes g := by
  rw [look] at h
  split at h
  · cases h
  · next m hm =>
    have hstart := (PrefixTree.leftmostFrom?_bounds hm).1
    have hpatterns := PrefixTree.leftmostFrom?_patterns_eq hm
    have horder := PrefixTree.pairwise_patternsAt rules.openings (s.drop m.index)
    split at h
    · next found hfound =>
      cases h
      obtain ⟨longer, opening, shorter, hsplit, htry, hfail⟩ := List.findSome?_eq_some_iff.1 hfound
      obtain ⟨hi, ho, -, -⟩ := tryOpening?_eq_some_iff.1 htry
      rw [← hpatterns, hsplit, List.pairwise_append, List.pairwise_cons] at horder
      refine ⟨by omega, ⟨?_, by rw [hi, ho, htry]⟩, fun g hg hle => ?_⟩
      · rw [hi, ho, ← hpatterns, hsplit]
        exact List.mem_append_right _ List.mem_cons_self
      · rcases Nat.lt_trichotomy g.start m.index with hlt | heq | hgt
        · exact absurd (PrefixTree.patternsAt_eq_nil_of_lt hm hle hlt) hg.patternsAt_ne_nil
        · -- of the delimiters that begin here the longer ones have been tried in vain
          refine .inr ⟨hi.trans heq.symm, ?_⟩
          obtain ⟨hmem, hcandidate⟩ := hg
          rw [heq, ← hpatterns, hsplit, List.mem_append, List.mem_cons] at hmem
          rw [ho]
          rcases hmem with hmem | hmem | hmem
          · rw [heq, hfail _ hmem] at hcandidate
            cases hcandidate
          · exact (congrArg List.length hmem).le
          · exact (horder.2.1.1 _ hmem).le
        · exact .inl (hi.trans_lt hgt)
    · cases h

/-- A look that meets no opening delimiter leaves no candidate. -/
theorem lt_of_look_nothing {start : Nat} (h : look rules s later start = .nothing) {g : Found}
    (hg : IsCandidate rules s later g) : g.start < start := by
  rw [look] at h
  split at h
  · next hnone =>
    by_contra hlt
    exact hg.patternsAt_ne_nil
      (PrefixTree.leftmostFrom?_eq_none_iff.1 hnone g.start (Nat.le_of_not_lt hlt))
  · split at h <;> cases h

/-- A further look passes over no candidate. -/
theorem le_of_look_again {start next : Nat} (h : look rules s later start = .again next) {g : Found}
    (hg : IsCandidate rules s later g) (hle : start ≤ g.start) : next ≤ g.start := by
  rw [look] at h
  split at h
  · cases h
  · next m hm =>
    split at h
    · cases h
    · next hfail =>
      cases h
      rcases Nat.lt_trichotomy g.start m.index with hlt | heq | hgt
      · exact absurd (PrefixTree.patternsAt_eq_nil_of_lt hm hle hlt) hg.patternsAt_ne_nil
      · obtain ⟨hmem, hcandidate⟩ := hg
        rw [heq, ← PrefixTree.leftmostFrom?_patterns_eq hm] at hmem
        rw [heq, List.findSome?_eq_none_iff.1 hfail _ hmem] at hcandidate
        cases hcandidate
      · exact hgt

/-! ### The search -/

/-- From a position on the first candidate is found, if there is one. -/
theorem findFrom?_cases (rules : RuleIndex) (s : Text) (later : List Content) (start : Nat) :
    (∃ f, findFrom? rules s later start = some f ∧ start ≤ f.start ∧ IsCandidate rules s later f ∧
      ∀ g, IsCandidate rules s later g → start ≤ g.start → f.Precedes g) ∨
    findFrom? rules s later start = none ∧ ∀ g, IsCandidate rules s later g → g.start < start := by
  fun_induction findFrom? rules s later start with
  | case1 start f hlook =>
    exact .inl ⟨f, rfl, first_of_look_found hlook⟩
  | case2 start hlook =>
    exact .inr ⟨rfl, fun g => lt_of_look_nothing hlook⟩
  | case3 start next hlook hbounds ih =>
    rcases ih with ⟨f, hf, hle, hcandidate, hfirst⟩ | ⟨hnone, hlt⟩
    · refine .inl ⟨f, hf, hbounds.1.le.trans hle, hcandidate, fun g hg hstart => ?_⟩
      exact hfirst g hg (le_of_look_again hlook hg hstart)
    · refine .inr ⟨hnone, fun g hg => ?_⟩
      by_contra hstart
      have hagain := le_of_look_again hlook hg (Nat.le_of_not_lt hstart)
      have := hlt g hg
      omega

/-- **No span is found just if there is no candidate.** -/
theorem find?_eq_none_iff : find? rules s later = none ↔ ∀ f, ¬ IsCandidate rules s later f := by
  rw [find?]
  rcases findFrom?_cases rules s later 0 with ⟨f, hf, -, hcandidate, -⟩ | ⟨hnone, hlt⟩
  · rw [hf]
    exact iff_of_false (fun h => by cases h) fun h => h f hcandidate
  · exact iff_of_true hnone fun f hf => absurd (hlt f hf) (Nat.not_lt_zero _)

/-- **A span is found just if it is a candidate and precedes them all.** -/
theorem find?_eq_some_iff {f : Found} :
    find? rules s later = some f ↔
      IsCandidate rules s later f ∧ ∀ g, IsCandidate rules s later g → f.Precedes g := by
  rw [find?]
  rcases findFrom?_cases rules s later 0 with ⟨f', hf', -, hcandidate, hfirst⟩ | ⟨hnone, hlt⟩
  · have hfirst' : ∀ g, IsCandidate rules s later g → f'.Precedes g :=
      fun g hg => hfirst g hg (Nat.zero_le _)
    rw [hf', Option.some.injEq]
    constructor
    · rintro rfl
      exact ⟨hcandidate, hfirst'⟩
    · rintro ⟨hf, hprecedes⟩
      exact hcandidate.eq_of_precedes hf (hfirst' f hf) (hprecedes f' hcandidate)
  · rw [hnone]
    exact iff_of_false (fun h => by cases h) fun h => absurd (hlt f h.1) (Nat.not_lt_zero _)

/-! ### Where a span closes -/

/-- Where the search for a closing delimiter begins: it passes over one that stands where the content begins. -/
def searchStart (closer s : Text) (start : Nat) : Nat :=
  if OccursAt closer s start then start + closer.length else start

/-- A fragment is a text in which a closing delimiter occurs. -/
def ClosesIn (items : List Content) (closer : Text) (g : Nat) : Prop :=
  ∃ t, items[g]? = some (.text t) ∧ ∃ j, OccursAt closer t j

/-- The admissible closing of content that begins at `start` of the text at `k`: the place `j` of the fragment `g`.
It is the first place in that text where the closing delimiter occurs, or else, if it occurs there no more, the first
place in the first later text in which it occurs. Items that are no texts have no part in it. -/
inductive ClosesAt (items : List Content) (k start : Nat) (closer : Text) : (g j : Nat) → Prop where
  | here {s : Text} {j : Nat} (hs : items[k]? = some (.text s))
      (hj : IsLeast {j | searchStart closer s start ≤ j ∧ OccursAt closer s j} j) :
      ClosesAt items k start closer k j
  | later {s t : Text} {g j : Nat} (hs : items[k]? = some (.text s))
      (hnone : ∀ j, searchStart closer s start ≤ j → ¬ OccursAt closer s j)
      (hg : IsLeast {g | k < g ∧ ClosesIn items closer g} g) (ht : items[g]? = some (.text t))
      (hj : IsLeast {j | OccursAt closer t j} j) :
      ClosesAt items k start closer g j

theorem findInText?_eq (closer s : Text) (start : Nat) :
    findInText? closer s start = Text.findFrom? closer s (searchStart closer s start) := by
  rw [findInText?, searchStart]
  split
  · next j hj =>
    have hleast := Text.findFrom?_eq_some_iff.1 hj
    by_cases hstart : OccursAt closer s start
    · have hle : j ≤ start := hleast.2 ⟨Nat.le_refl start, hstart⟩
      rw [if_pos hstart, if_pos (Nat.le_antisymm hle hleast.1.1)]
    · have hne : j ≠ start := by
        rintro rfl
        exact hstart hleast.1.2
      rw [if_neg hstart, if_neg hne, hj]
  · next hnone =>
    have hstart := Text.findFrom?_eq_none_iff.1 hnone start (Nat.le_refl start)
    rw [if_neg hstart, hnone]

theorem closesIn_cons_succ {c : Content} {items : List Content} {closer : Text} {g : Nat} :
    ClosesIn (c :: items) closer (g + 1) ↔ ClosesIn items closer g := by
  rw [ClosesIn, ClosesIn, List.getElem?_cons_succ]

theorem not_closesIn_nil {closer : Text} {g : Nat} : ¬ ClosesIn [] closer g := by
  rintro ⟨t, ht, -⟩
  cases ht

/-- Nothing is found in later fragments just if none of them has the closing delimiter. -/
theorem findLater?_eq_none_iff {closer : Text} :
    findLater? closer later = none ↔ ∀ g, ¬ ClosesIn later closer g := by
  induction later with
  | nil => exact iff_of_true rfl fun g => not_closesIn_nil
  | cons c later ih =>
    rw [← Nat.and_forall_add_one]
    simp only [closesIn_cons_succ]
    cases c with
    | text t =>
      have hhead : ClosesIn (.text t :: later) closer 0 ↔ ∃ j, OccursAt closer t j := by
        simp [ClosesIn]
      rw [findLater?, hhead, not_exists]
      split
      · next j hj =>
        exact iff_of_false (fun h => by cases h) fun h => h.1 j (Text.isLeast_of_find? hj).1
      · next hnone =>
        rw [Option.map_eq_none_iff, ih, and_iff_right (Text.find?_eq_none_iff.1 hnone)]
    | _ =>
      rw [findLater?, Option.map_eq_none_iff, ih, and_iff_right]
      · rintro ⟨t, ht, -⟩
        cases ht
      · intro t ht
        cases ht

/-- What is found in later fragments is the first place in the first text that has the closing delimiter. -/
theorem isLeast_of_findLater? {closer : Text} {n j : Nat} (h : findLater? closer later = some (n, j)) :
    IsLeast {g | ClosesIn later closer g} n ∧
      ∃ t, later[n]? = some (.text t) ∧ IsLeast {j | OccursAt closer t j} j := by
  induction later generalizing n j with
  | nil => cases h
  | cons c later ih =>
    have hskip : ¬ ClosesIn (c :: later) closer 0 →
        (findLater? closer later).map (fun p => (p.1 + 1, p.2)) = some (n, j) →
        IsLeast {g | ClosesIn (c :: later) closer g} n ∧
          ∃ t, (c :: later)[n]? = some (.text t) ∧ IsLeast {j | OccursAt closer t j} j := by
      intro hhead hmap
      obtain ⟨p, hp, heq⟩ := Option.map_eq_some_iff.1 hmap
      cases heq
      obtain ⟨hleast, t, ht, hj⟩ := ih hp
      refine ⟨⟨closesIn_cons_succ.2 hleast.1, fun g hg => ?_⟩, t, ht, hj⟩
      cases g with
      | zero => exact absurd hg hhead
      | succ g => exact Nat.succ_le_succ (hleast.2 (closesIn_cons_succ.1 hg))
    cases c with
    | text t =>
      rw [findLater?] at h
      split at h
      · next i hi =>
        cases h
        have hleast := Text.isLeast_of_find? hi
        exact ⟨⟨⟨t, rfl, _, hleast.1⟩, fun g _ => Nat.zero_le g⟩, t, rfl, hleast⟩
      · next hnone =>
        refine hskip (fun hhead => ?_) h
        obtain ⟨t', ht', i, hi⟩ := hhead
        cases ht'
        exact Text.find?_eq_none_iff.1 hnone i hi
    | _ =>
      rw [findLater?] at h
      · refine hskip (fun hhead => ?_) h
        obtain ⟨t, ht, -⟩ := hhead
        cases ht
      · intro t ht
        cases ht

/-! ### The admissible closing -/

section Closing

variable {items : List Content} {k start : Nat} {closer : Text}

theorem closesIn_drop {n g : Nat} :
    ClosesIn (items.drop n) closer g ↔ ClosesIn items closer (n + g) := by
  rw [ClosesIn, ClosesIn, List.getElem?_drop]

/-- Content has no more than one admissible closing. -/
theorem ClosesAt.unique {g g' j j' : Nat} (h : ClosesAt items k start closer g j)
    (h' : ClosesAt items k start closer g' j') : g = g' ∧ j = j' := by
  have htext : ∀ {g : Nat} {s t : Text}, items[g]? = some (.text s) → items[g]? = some (.text t) →
      s = t := by
    intro g s t hs ht
    rw [hs] at ht
    cases ht
    rfl
  cases h with
  | here hs hj =>
    cases h' with
    | here hs' hj' =>
      cases htext hs hs'
      exact ⟨rfl, hj.unique hj'⟩
    | later hs' hnone hg ht hj' =>
      cases htext hs hs'
      exact absurd hj.1.2 (hnone j hj.1.1)
  | later hs hnone hg ht hj =>
    cases h' with
    | here hs' hj' =>
      cases htext hs hs'
      exact absurd hj'.1.2 (hnone j' hj'.1.1)
    | later hs' hnone' hg' ht' hj' =>
      have hsame := hg.unique hg'
      subst hsame
      cases htext ht ht'
      exact ⟨rfl, hj.unique hj'⟩

/-- What the search answers is the admissible closing. -/
theorem closesAt_of_closingPlace? (hs : items[k]? = some (.text s)) {d j : Nat}
    (h : closingPlace? closer s (items.drop (k + 1)) start = some (d, j)) :
    ClosesAt items k start closer (k + d) j := by
  rw [closingPlace?, findInText?_eq] at h
  split at h
  · next i hi =>
    cases h
    exact .here hs (Text.findFrom?_eq_some_iff.1 hi)
  · next hnone =>
    obtain ⟨p, hp, heq⟩ := Option.map_eq_some_iff.1 h
    cases heq
    obtain ⟨hleast, t, ht, hj⟩ := isLeast_of_findLater? hp
    rw [List.getElem?_drop] at ht
    have hplace : k + (p.1 + 1) = k + 1 + p.1 := by omega
    rw [hplace]
    refine .later hs (Text.findFrom?_eq_none_iff.1 hnone) ⟨⟨by omega, closesIn_drop.1 hleast.1⟩, ?_⟩
      ht hj
    intro g hg
    obtain ⟨hlt, hcloses⟩ := hg
    rw [← Nat.add_sub_cancel' hlt, ← closesIn_drop] at hcloses
    have := hleast.2 hcloses
    omega

/-- Where the search answers nothing there is no admissible closing. -/
theorem not_closesAt_of_closingPlace? (hs : items[k]? = some (.text s))
    (h : closingPlace? closer s (items.drop (k + 1)) start = none) (g j : Nat) :
    ¬ ClosesAt items k start closer g j := by
  rw [closingPlace?, findInText?_eq] at h
  split at h
  · cases h
  · next hnone =>
    rw [Option.map_eq_none_iff, findLater?_eq_none_iff] at h
    intro hcloses
    cases hcloses with
    | here hs' hj =>
      rw [hs] at hs'
      cases hs'
      exact Text.findFrom?_eq_none_iff.1 hnone j hj.1.1 hj.1.2
    | later hs' hnone' hg ht hj =>
      obtain ⟨hlt, hin⟩ := hg.1
      rw [← Nat.add_sub_cancel' hlt, ← closesIn_drop] at hin
      exact h _ hin

/-- **The search for a closing delimiter answers the admissible closing.** -/
theorem closingPlace?_eq_some_iff (hs : items[k]? = some (.text s)) {d j : Nat} :
    closingPlace? closer s (items.drop (k + 1)) start = some (d, j) ↔
      ClosesAt items k start closer (k + d) j := by
  constructor
  · exact closesAt_of_closingPlace? hs
  · intro h
    cases hplace : closingPlace? closer s (items.drop (k + 1)) start with
    | none => exact absurd h (not_closesAt_of_closingPlace? hs hplace _ _)
    | some p =>
      obtain ⟨hg, hj⟩ := (closesAt_of_closingPlace? hs hplace).unique h
      rw [Option.some.injEq, Prod.ext_iff]
      exact ⟨Nat.add_left_cancel hg, hj⟩

end Closing

/-! ### The leftmost, then longest, opening delimiter -/

/-- An opening delimiter of the index that is not empty occurs at a position of a text. -/
def OpensAt (rules : RuleIndex) (s : Text) (i : Nat) (opening : Text) : Prop :=
  opening ≠ [] ∧ opening ∈ rules.closers.keys ∧ OccursAt opening s i

/-- An opening delimiter at a position of the text at `k` has an admissible closing. -/
def CanClose (rules : RuleIndex) (items : List Content) (k i : Nat) (opening : Text) : Prop :=
  ∃ g j, ClosesAt items k (i + opening.length) (rules.closing opening) g j

/-- A span in the text at `k` opens with the leftmost delimiter that can be closed, which is the longest of those at
its position, and closes where this is admissible. -/
structure IsFirst (rules : RuleIndex) (items : List Content) (k : Nat) (s : Text) (f : Found) : Prop where
  opens : OpensAt rules s f.start f.opening
  closer : f.closer = rules.closing f.opening
  closes : ClosesAt items k f.contentStart f.closer (k + f.closingFragment) f.closingStart
  leftmost : ∀ i o, OpensAt rules s i o → CanClose rules items k i o → f.start ≤ i
  longest : ∀ o, OpensAt rules s f.start o → CanClose rules items k f.start o →
    o.length ≤ f.opening.length

theorem mem_patternsAt_openings {i : Nat} {opening : Text} :
    opening ∈ rules.openings.patternsAt (s.drop i) ↔ OpensAt rules s i opening := by
  rw [rules.openings_eq, PrefixTree.mem_patternsAt_drop, OpensAt, and_left_comm]

section Items

variable {items : List Content} {k : Nat}

/-- Candidates open with a delimiter of the index and close where that is admissible. -/
theorem isCandidate_iff (hs : items[k]? = some (.text s)) {f : Found} :
    IsCandidate rules s (items.drop (k + 1)) f ↔
      OpensAt rules s f.start f.opening ∧ f.closer = rules.closing f.opening ∧
        ClosesAt items k f.contentStart f.closer (k + f.closingFragment) f.closingStart := by
  rw [IsCandidate, mem_patternsAt_openings, tryOpening?_eq_some_iff, closingPlace?_eq_some_iff hs]
  apply and_congr_right'
  constructor
  · intro h
    obtain ⟨-, -, hcloser, hcloses⟩ := h
    rw [← hcloser] at hcloses
    exact ⟨hcloser, hcloses⟩
  · intro h
    obtain ⟨hcloser, hcloses⟩ := h
    rw [hcloser] at hcloses
    exact ⟨rfl, rfl, hcloser, hcloses⟩

/-- An opening delimiter that can be closed makes a candidate. -/
theorem exists_isCandidate_iff (hs : items[k]? = some (.text s)) {i : Nat} {o : Text} :
    (∃ f, IsCandidate rules s (items.drop (k + 1)) f ∧ f.start = i ∧ f.opening = o) ↔
      OpensAt rules s i o ∧ CanClose rules items k i o := by
  constructor
  · intro h
    obtain ⟨f, hf, hstart, hopening⟩ := h
    obtain ⟨hopens, hcloser, hcloses⟩ := (isCandidate_iff hs).1 hf
    rw [Found.contentStart, hcloser, hstart, hopening] at hcloses
    rw [hstart, hopening] at hopens
    exact ⟨hopens, _, _, hcloses⟩
  · intro h
    obtain ⟨hopens, g, j, hcloses⟩ := h
    have hle : k ≤ g := by
      cases hcloses with
      | here => exact Nat.le_refl k
      | later _ _ hg => exact hg.1.1.le
    refine ⟨⟨o, rules.closing o, i, g - k, j⟩, (isCandidate_iff hs).2 ⟨hopens, rfl, ?_⟩, rfl, rfl⟩
    show ClosesAt items k (i + o.length) (rules.closing o) (k + (g - k)) j
    rw [Nat.add_sub_cancel' hle]
    exact hcloses

/-- A candidate that precedes them all is the leftmost, then longest, that can be closed. -/
theorem isFirst_iff (hs : items[k]? = some (.text s)) {f : Found} :
    IsFirst rules items k s f ↔ IsCandidate rules s (items.drop (k + 1)) f ∧
      ∀ g, IsCandidate rules s (items.drop (k + 1)) g → f.Precedes g := by
  constructor
  · intro h
    refine ⟨(isCandidate_iff hs).2 ⟨h.opens, h.closer, h.closes⟩, fun g hg => ?_⟩
    obtain ⟨hopens, hcan⟩ := (exists_isCandidate_iff hs).1 ⟨g, hg, rfl, rfl⟩
    rcases Nat.lt_or_eq_of_le (h.leftmost _ _ hopens hcan) with hlt | heq
    · exact .inl hlt
    · rw [← heq] at hopens hcan
      exact .inr ⟨heq, h.longest _ hopens hcan⟩
  · intro h
    obtain ⟨hcandidate, hfirst⟩ := h
    obtain ⟨hopens, hcloser, hcloses⟩ := (isCandidate_iff hs).1 hcandidate
    refine ⟨hopens, hcloser, hcloses, fun i o ho hcan => ?_, fun o ho hcan => ?_⟩
    · obtain ⟨g, hg, hstart, -⟩ := (exists_isCandidate_iff hs).2 ⟨ho, hcan⟩
      rcases hfirst g hg with hlt | ⟨heq, -⟩ <;> omega
    · obtain ⟨g, hg, hstart, hopening⟩ := (exists_isCandidate_iff hs).2 ⟨ho, hcan⟩
      rw [← hopening]
      rcases hfirst g hg with hlt | ⟨-, hlength⟩
      · omega
      · exact hlength

end Items

/-- **The search finds the leftmost, then longest, opening delimiter that can be closed, and closes it at the first
admissible place.** If all closing delimiters are usable, it always has an answer, in any text among any fragments:
nothing just if no opening delimiter has an admissible closing, and else that span. -/
theorem findAt_leftmost_longest (rules : RuleIndex) (hu : rules.unusable = []) (items : List Content)
    (k : Nat) (s : Text) (hs : items[k]? = some (.text s)) :
    ∃ answer, findAt rules (.row items) k = .ok answer ∧
      (answer = none ↔ ∀ i o, OpensAt rules s i o → ¬ CanClose rules items k i o) ∧
      ∀ (f : Found) (g : Int), answer = some (f, g) ↔
        IsFirst rules items k s f ∧ g = k + f.closingFragment := by
  refine ⟨_, findAt_row hs hu, ?_, fun f g => ?_⟩
  · rw [Option.map_eq_none_iff, find?_eq_none_iff]
    constructor
    · intro h i o hopens hcan
      obtain ⟨f, hf, -⟩ := (exists_isCandidate_iff hs).2 ⟨hopens, hcan⟩
      exact h f hf
    · intro h f hf
      obtain ⟨hopens, hcan⟩ := (exists_isCandidate_iff hs).1 ⟨f, hf, rfl, rfl⟩
      exact h _ _ hopens hcan
  · rw [Option.map_eq_some_iff, isFirst_iff hs]
    constructor
    · intro h
      obtain ⟨f', hf', heq⟩ := h
      cases heq
      exact ⟨find?_eq_some_iff.1 hf', rfl⟩
    · intro h
      obtain ⟨hf, hg⟩ := h
      exact ⟨f, find?_eq_some_iff.2 hf, by rw [hg]⟩

/-- An opening delimiter that is not closed, then two that overlap, of which the longer one is closed beyond a
link. -/
theorem findAt_leftmost_longest_overlapping :
    (RuleIndex.unusable
          { ruleNames := [], closers := ⟨[(['*'], ['*']), (['*', '*'], ['*', '*']), (['_'], ['_'])], by decide⟩ } =
        [] ∧
      [Content.text "_a **b*".toList, .link (.str ['u']) [], .text "c** d".toList][0]? =
        some (.text "_a **b*".toList)) ∧
    findAt
        { ruleNames := [], closers := ⟨[(['*'], ['*']), (['*', '*'], ['*', '*']), (['_'], ['_'])], by decide⟩ }
        (.row [.text "_a **b*".toList, .link (.str ['u']) [], .text "c** d".toList]) (0 : Nat) =
      .ok (some (⟨['*', '*'], ['*', '*'], 3, 2, 1⟩, 2)) ∧
    IsFirst
      { ruleNames := [], closers := ⟨[(['*'], ['*']), (['*', '*'], ['*', '*']), (['_'], ['_'])], by decide⟩ }
      [.text "_a **b*".toList, .link (.str ['u']) [], .text "c** d".toList] 0 "_a **b*".toList
      ⟨['*', '*'], ['*', '*'], 3, 2, 1⟩ := by
  obtain ⟨answer, hanswer, -, hsome⟩ := findAt_leftmost_longest
    { ruleNames := [], closers := ⟨[(['*'], ['*']), (['*', '*'], ['*', '*']), (['_'], ['_'])], by decide⟩ }
    rfl [.text "_a **b*".toList, .link (.str ['u']) [], .text "c** d".toList] 0 _ rfl
  have hfound : (findAt
      { ruleNames := [], closers := ⟨[(['*'], ['*']), (['*', '*'], ['*', '*']), (['_'], ['_'])], by decide⟩ }
      (.row [.text "_a **b*".toList, .link (.str ['u']) [], .text "c** d".toList]) (0 : Nat)).toOption =
        some (some (⟨['*', '*'], ['*', '*'], 3, 2, 1⟩, 2)) := by
    decide +kernel
  rw [hanswer] at hfound
  cases hfound
  exact ⟨⟨rfl, rfl⟩, hanswer, ((hsome _ _).1 rfl).1⟩

end ProseMarkup.Span
