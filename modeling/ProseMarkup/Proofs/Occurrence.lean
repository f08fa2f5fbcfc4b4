import Mathlib.Order.Bounds.Basic
import ProseMarkup.Text.Basic

/-!
# Occurrences in a text

A needle occurs at a position if it begins what follows that position.

* `Text.OccursAt` : a needle occurs at a position of a text, which is its end at the latest.
* `Text.findFrom?_eq_some_iff`, `Text.findFrom?_eq_none_iff` : **a search answers the least position at which the
  needle occurs**, if there is one.
* `Text.prefix_drop_of_find?`, `Text.prefix_drop_of_findFrom?` : a search answers an occurrence.
* `Text.drop_eq_of_prefix`, `Text.take_append_drop_of_prefix` : a text cut at an occurrence, before it and after it.
* `Text.drop_take_append_drop` : the part of a text between two positions.
-/

namespace ProseMarkup.Text

theorem prefix_drop_of_find? {needle s : Text} {i : Nat} (h : find? needle s = some i) :
    needle <+: s.drop i := by
  induction s generalizing i with
  | nil =>
    rw [find?] at h
    split at h
    · next hn =>
      rw [List.isEmpty_iff.1 hn]
      exact List.nil_prefix
    · cases h
  | cons c s ih =>
    rw [find?] at h
    split at h
    · next hp =>
      cases h
      exact List.isPrefixOf_iff_prefix.1 hp
    · obtain ⟨j, hj, rfl⟩ := Option.map_eq_some_iff.1 h
      exact ih hj

theorem prefix_drop_of_findFrom? {needle s : Text} {start i : Nat}
    (h : findFrom? needle s start = some i) : needle <+: s.drop i := by
  rw [findFrom?] at h
  split at h
  · obtain ⟨j, hj, rfl⟩ := Option.map_eq_some_iff.1 h
    have hp := prefix_drop_of_find? hj
    rwa [List.drop_drop, Nat.add_comm] at hp
  · cases h

theorem drop_eq_of_prefix {needle s : Text} {i : Nat} (h : needle <+: s.drop i) :
    s.drop i = needle ++ s.drop (i + needle.length) := by
  obtain ⟨after, hafter⟩ := h
  rw [← List.drop_drop, ← hafter, List.drop_left]

/-- A text cut at an occurrence of a needle gives the text back. -/
theorem take_append_drop_of_prefix {needle s : Text} {i : Nat} (h : needle <+: s.drop i) :
    s.take i ++ needle ++ s.drop (i + needle.length) = s := by
  rw [List.append_assoc, ← drop_eq_of_prefix h, List.take_append_drop]

theorem drop_take_append_drop (s : Text) {i j : Nat} (h : i ≤ j) :
    (s.take j).drop i ++ s.drop j = s.drop i := by
  have hj : s.drop j = (s.drop i).drop (j - i) := by
    rw [List.drop_drop, Nat.add_sub_cancel' h]
  rw [List.drop_take, hj, List.take_append_drop]

/-! ### First occurrences -/

/-- A needle occurs at a position of a text; an empty one occurs at every position, the end among them. -/
def OccursAt (needle s : Text) (i : Nat) : Prop :=
  i ≤ s.length ∧ needle <+: s.drop i

instance (needle s : Text) (i : Nat) : Decidable (OccursAt needle s i) :=
  inferInstanceAs (Decidable (_ ∧ _))

theorem OccursAt.isInfix {needle s : Text} {i : Nat} (h : OccursAt needle s i) : needle <:+: s :=
  h.2.isInfix.trans (List.drop_suffix i s).isInfix

@[simp] theorem occursAt_cons_zero {needle s : Text} {c : Char} :
    OccursAt needle (c :: s) 0 ↔ needle <+: c :: s :=
  and_iff_right (Nat.zero_le _)

@[simp] theorem occursAt_cons_succ {needle s : Text} {c : Char} {i : Nat} :
    OccursAt needle (c :: s) (i + 1) ↔ OccursAt needle s i := by
  rw [OccursAt, OccursAt, List.length_cons, Nat.add_le_add_iff_right, List.drop_succ_cons]

theorem occursAt_drop {needle s : Text} {start i : Nat} (h : start ≤ s.length) :
    OccursAt needle (s.drop start) i ↔ OccursAt needle s (start + i) := by
  rw [OccursAt, OccursAt, List.length_drop, List.drop_drop]
  exact and_congr_left' (by omega)

/-- A search answers nothing just if the needle occurs nowhere. -/
theorem find?_eq_none_iff {needle s : Text} : find? needle s = none ↔ ∀ i, ¬ OccursAt needle s i := by
  induction s with
  | nil =>
    rw [find?]
    cases needle with
    | nil => simpa using ⟨0, Nat.le_refl 0, List.nil_prefix⟩
    | cons c needle => simp [OccursAt]
  | cons c s ih =>
    rw [find?, ← Nat.and_forall_add_one, occursAt_cons_zero]
    simp only [occursAt_cons_succ]
    split
    · next hp => simp [List.isPrefixOf_iff_prefix.1 hp]
    · next hp =>
      have hnot : ¬ needle <+: c :: s := fun h => hp (List.isPrefixOf_iff_prefix.2 h)
      rw [Option.map_eq_none_iff, ih, and_iff_right hnot]

theorem le_of_find? {needle s : Text} {i j : Nat} (h : find? needle s = some i)
    (hj : OccursAt needle s j) : i ≤ j := by
  induction s generalizing i j with
  | nil =>
    have hfit := find?_add_length_le h
    rw [List.length_nil] at hfit
    omega
  | cons c s ih =>
    rw [find?] at h
    split at h
    · cases h
      exact Nat.zero_le j
    · next hp =>
      obtain ⟨k, hk, rfl⟩ := Option.map_eq_some_iff.1 h
      cases j with
      | zero => exact absurd (List.isPrefixOf_iff_prefix.2 hj.2) hp
      | succ j => exact Nat.succ_le_succ (ih hk (occursAt_cons_succ.1 hj))

theorem isLeast_of_find? {needle s : Text} {i : Nat} (h : find? needle s = some i) :
    IsLeast {j | OccursAt needle s j} i := by
  have hfit := find?_add_length_le h
  exact ⟨⟨by omega, prefix_drop_of_find? h⟩, fun j hj => le_of_find? h hj⟩

/-- **A search answers the least position at which the needle occurs.** -/
theorem find?_eq_some_iff {needle s : Text} {i : Nat} :
    find? needle s = some i ↔ IsLeast {j | OccursAt needle s j} i := by
  refine ⟨isLeast_of_find?, fun h => ?_⟩
  cases hf : find? needle s with
  | none => exact absurd h.1 (find?_eq_none_iff.1 hf i)
  | some j => rw [(isLeast_of_find? hf).unique h]

/-- A search from a position on answers nothing just if the needle does not occur there or later. -/
theorem findFrom?_eq_none_iff {needle s : Text} {start : Nat} :
    findFrom? needle s start = none ↔ ∀ i, start ≤ i → ¬ OccursAt needle s i := by
  rw [findFrom?]
  split
  · next hle =>
    rw [Option.map_eq_none_iff, find?_eq_none_iff]
    constructor
    · intro h i hi hoccurs
      rw [← Nat.add_sub_cancel' hi, ← occursAt_drop hle] at hoccurs
      exact h _ hoccurs
    · intro h i hi
      exact h (start + i) (Nat.le_add_right start i) ((occursAt_drop hle).1 hi)
  · next hlt =>
    refine iff_of_true rfl fun i hi hoccurs => ?_
    have := hoccurs.1
    omega

/-- **A search from a position on answers the least position, there or later, at which the needle
occurs.** -/
theorem findFrom?_eq_some_iff {needle s : Text} {start i : Nat} :
    findFrom? needle s start = some i ↔ IsLeast {j | start ≤ j ∧ OccursAt needle s j} i := by
  have hleast : ∀ {k}, findFrom? needle s start = some k →
      IsLeast {j | start ≤ j ∧ OccursAt needle s j} k := by
    intro k hk
    obtain ⟨hstart, hfit⟩ := findFrom?_bounds hk
    refine ⟨⟨hstart, by omega, prefix_drop_of_findFrom? hk⟩, fun j hj => ?_⟩
    rw [findFrom?] at hk
    split at hk
    · next hle =>
      obtain ⟨l, hl, rfl⟩ := Option.map_eq_some_iff.1 hk
      have hj' := hj.2
      rw [← Nat.add_sub_cancel' hj.1, ← occursAt_drop hle] at hj'
      have := le_of_find? hl hj'
      have := hj.1
      omega
    · cases hk
  refine ⟨hleast, fun h => ?_⟩
  cases hf : findFrom? needle s start with
  | none => exact absurd h.1.2 (findFrom?_eq_none_iff.1 hf i h.1.1)
  | some k => rw [(hleast hf).unique h]

end ProseMarkup.Text
