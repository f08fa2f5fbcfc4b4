import ProseMarkup.PrefixTree.Values
import ProseMarkup.Proofs.PrefixTree
import ProseMarkup.Whitelist

/-!
# Which names a whitelist permits

One more pattern lets a tree cover what the pattern stands for, and nothing else; so the order of the
patterns, and the nodes they share, do not matter.

* `PrefixTree.StandsFor` : what a pattern of either kind stands for.
* `PrefixTree.covers_insert` : what one more pattern changes.
* `PrefixTree.covers_ofPatterns` : a tree covers its exact patterns and what begins with a wildcard pattern.
* `Whitelist.permits_ofPatterns` : **so it is with the names that a whitelist permits**.
* `Whitelist.membership_exact` : **the trees and whitelists that are made of lists of texts**, and their verdicts.
-/

namespace ProseMarkup

namespace PrefixTree

/-- What a pattern stands for: itself, or every text that begins with it. -/
def StandsFor : Mark → (pattern key : Text) → Prop
  | .exact, pattern, key => key = pattern
  | .wildcard, pattern, key => pattern <+: key

@[simp] theorem standsFor_cons (mark : Mark) (c d : Char) (pattern key : Text) :
    StandsFor mark (d :: pattern) (c :: key) ↔ d = c ∧ StandsFor mark pattern key := by
  cases mark with
  | exact => rw [StandsFor, StandsFor, List.cons.injEq, eq_comm]
  | wildcard => exact List.cons_prefix_cons

theorem not_standsFor_nil (mark : Mark) (d : Char) (pattern : Text) :
    ¬ StandsFor mark (d :: pattern) [] := by
  cases mark with
  | exact => exact List.cons_ne_nil d pattern ∘ Eq.symm
  | wildcard => exact fun h => List.cons_ne_nil d pattern (List.prefix_nil.1 h)

@[simp] theorem covers_empty (key : Text) : empty.covers key = false := by
  cases key <;> rfl

/-- Covering a key below a child is covering the longer key, a missing child being an empty tree. -/
@[simp] theorem covers_cons (c : Char) (key : Text) (terminal accepting : Bool)
    (children : List (Char × PrefixTree)) :
    (node terminal accepting children).covers (c :: key) =
      (accepting || ((child? c children).getD empty).covers key) := by
  rw [covers]
  cases child? c children with
  | none => simp
  | some t => rfl

@[simp] theorem covers_insert (mark : Mark) (pattern key : Text) (t : PrefixTree) :
    (insert mark pattern t).covers key = true ↔
      t.covers key = true ∨ StandsFor mark pattern key := by
  induction pattern generalizing key t with
  | nil =>
    obtain ⟨terminal, accepting, children⟩ := t
    cases key with
    | nil => cases mark <;> simp [insert, covers, StandsFor]
    | cons c key => cases mark <;> simp [insert, StandsFor]
  | cons d pattern ih =>
    obtain ⟨terminal, accepting, children⟩ := t
    cases key with
    | nil => exact (or_iff_left (not_standsFor_nil mark d pattern)).symm
    | cons c key =>
      by_cases hdc : d = c
      · subst hdc
        simp [insert, ih, or_assoc]
      · simp [insert, hdc]

@[simp] theorem covers_foldl_insert (mark : Mark) (patterns : List Text) (t : PrefixTree) (key : Text) :
    (patterns.foldl (fun t p => t.insert mark p) t).covers key = true ↔
      t.covers key = true ∨ ∃ p ∈ patterns, StandsFor mark p key := by
  induction patterns generalizing t with
  | nil => simp
  | cons p patterns ih => simp [ih, or_assoc]

@[simp] theorem covers_ofPatterns (exact wildcard : List Text) (key : Text) :
    (ofPatterns exact wildcard).covers key = true ↔ key ∈ exact ∨ ∃ p ∈ wildcard, p <+: key := by
  simp [ofPatterns, StandsFor]

/-! ### Texts as values -/

@[simp] theorem holdsValue_ofPatterns (exact wildcard : List Text) (key : Text) :
    (ofPatterns exact wildcard).holdsValue (.str key) = .ok (decide (key ∈ exact)) := by
  rw [holdsValue, Bool.eq_iff_iff.2 ((holds_ofPatterns exact wildcard key).trans (decide_eq_true_iff).symm)]

@[simp] theorem coversValue_ofPatterns (exact wildcard : List Text) (key : Text) :
    (ofPatterns exact wildcard).coversValue (.str key) =
      .ok (decide (key ∈ exact ∨ ∃ p ∈ wildcard, p <+: key)) := by
  rw [coversValue, Bool.eq_iff_iff.2 ((covers_ofPatterns exact wildcard key).trans (decide_eq_true_iff).symm)]

end PrefixTree

/-! ### Whitelists -/

/-- A pattern ends with a star just if there is something that the star comes after. -/
theorem Whitelist.isWildcard_iff {pattern : Text} :
    isWildcard pattern = true ↔ ∃ beginning, pattern = beginning ++ ['*'] := by
  rw [isWildcard, beq_iff_eq, List.getLast?_eq_some_iff]

/-- **A whitelist permits the names among its patterns, and those that begin with what comes before the
last star of a pattern.** -/
theorem Whitelist.permits_ofPatterns {patterns : List Text} {name : Text} :
    (ofPatterns patterns).permits name = true ↔
      (name ∈ patterns ∧ isWildcard name = false) ∨
        ∃ beginning, beginning ++ ['*'] ∈ patterns ∧ beginning <+: name := by
  rw [permits, ofPatterns, PrefixTree.covers_ofPatterns, List.mem_filter, Bool.not_eq_true']
  apply or_congr_right
  constructor
  · rintro ⟨p, hp, hname⟩
    obtain ⟨pattern, hmem, rfl⟩ := List.mem_map.1 hp
    obtain ⟨hmem, hstar⟩ := List.mem_filter.1 hmem
    obtain ⟨beginning, rfl⟩ := isWildcard_iff.1 hstar
    rw [List.dropLast_concat] at hname
    exact ⟨beginning, hmem, hname⟩
  · rintro ⟨beginning, hmem, hname⟩
    have hstar := isWildcard_iff.2 ⟨beginning, rfl⟩
    exact ⟨beginning,
      List.mem_map.2 ⟨_, List.mem_filter.2 ⟨hmem, hstar⟩, List.dropLast_concat⟩, hname⟩

/-- A name that is no text is not permitted. -/
theorem Whitelist.permitsValue_iff {w : Whitelist} {name : Value} :
    w.permitsValue name = true ↔ ∃ s, name = .str s ∧ w.permits s = true := by
  constructor
  · intro h
    cases name with
    | str s => exact ⟨s, rfl, h⟩
    | _ => cases h
  · intro h
    obtain ⟨s, rfl, hs⟩ := h
    exact hs

/-- **Membership is exact.** A tree can be made of any two lists of texts, and a whitelist of any list. The tree tells
the texts of the first list from all others, and those that begin with a text of the second list are covered as well.
A whitelist permits the texts of its list that do not end with a star, and those that begin with what comes before the
last star of one. -/
theorem Whitelist.membership_exact :
    (∀ exact wildcard : List Text, ∃ t,
      PrefixTree.ofValues (.list (exact.map .str)) (.list (wildcard.map .str)) = .ok t ∧ ∀ key,
        t.holdsValue (.str key) = .ok (decide (key ∈ exact)) ∧
        t.coversValue (.str key) = .ok (decide (key ∈ exact ∨ ∃ p ∈ wildcard, p <+: key))) ∧
    ∀ patterns : List Text, ∃ w, ofValue (.list (patterns.map .str)) = .ok w ∧ ∀ name,
      w.permitsValue name = true ↔ ∃ s, name = .str s ∧
        ((s ∈ patterns ∧ ¬ ['*'] <:+ s) ∨ ∃ beginning, beginning ++ ['*'] ∈ patterns ∧ beginning <+: s) := by
  constructor
  · intro exact wildcard
    refine ⟨.ofPatterns exact wildcard, PrefixTree.ofValues_list exact wildcard, fun key => ⟨?_, ?_⟩⟩
    · exact PrefixTree.holdsValue_ofPatterns exact wildcard key
    · exact PrefixTree.coversValue_ofPatterns exact wildcard key
  · intro patterns
    refine ⟨.ofPatterns patterns, ofValue_list patterns, fun name => ?_⟩
    have hstar : ∀ s : Text, isWildcard s = false ↔ ¬ ['*'] <:+ s := by
      intro s
      rw [← Bool.not_eq_true, isWildcard_iff]
      simp only [List.suffix_iff_exists_eq_append]
    rw [permitsValue_iff]
    simp only [permits_ofPatterns, hstar]

/-- Of two stars at the end of a pattern the first one stands for itself. -/
example : (["a".toList, "a*".toList, "a*b".toList, "ab".toList].map
    (Whitelist.ofPatterns ["a**".toList, "".toList]).permits) = [false, true, true, false] := by
  decide +kernel

end ProseMarkup
