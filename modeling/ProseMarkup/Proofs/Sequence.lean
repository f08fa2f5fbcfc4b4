import Mathlib.Data.List.Forall2

/-!
# Computations that may fail, one after the other

What folds and maps over a list do when each of their steps may fail.

* `bind_eq_ok` : when one computation after another succeeds.
* `foldlM_kept`, `exists_foldlM` : what every step keeps, a fold keeps; and if then every step succeeds,
  the fold does.
* `exists_mapM` : a map succeeds if it does on every item.
-/

namespace ProseMarkup

variable {ε α β σ : Type}

theorem bind_eq_ok {x : Except ε α} {f : α → Except ε β} {b : β} :
    x >>= f = .ok b ↔ ∃ a, x = .ok a ∧ f a = .ok b := by
  cases x with
  | error e =>
    constructor
    · intro h
      cases h
    · rintro ⟨a, ha, -⟩
      cases ha
  | ok a =>
    constructor
    · intro h
      exact ⟨a, rfl, h⟩
    · rintro ⟨a', ha, h⟩
      cases ha
      exact h

@[simp] theorem bind_ok (a : α) (f : α → Except ε β) : (Except.ok a >>= f) = f a :=
  rfl

theorem foldlM_kept {f : σ → α → Except ε σ} (P : σ → Prop) {xs : List α}
    (hstep : ∀ s x s', P s → x ∈ xs → f s x = .ok s' → P s') {s s' : σ} (hs : P s)
    (h : xs.foldlM f s = .ok s') : P s' := by
  induction xs generalizing s with
  | nil =>
    cases h
    exact hs
  | cons x xs ih =>
    rw [List.foldlM_cons] at h
    obtain ⟨next, hnext, hrest⟩ := bind_eq_ok.1 h
    have hlater : ∀ s x s', P s → x ∈ xs → f s x = .ok s' → P s' :=
      fun s y s' hs hy => hstep s y s' hs (List.mem_cons_of_mem x hy)
    exact ih hlater (hstep s x next hs List.mem_cons_self hnext) hrest

theorem exists_foldlM {f : σ → α → Except ε σ} (P : σ → Prop) {xs : List α}
    (hstep : ∀ s x, P s → x ∈ xs → ∃ s', f s x = .ok s' ∧ P s') {s : σ} (hs : P s) :
    ∃ s', xs.foldlM f s = .ok s' ∧ P s' := by
  induction xs generalizing s with
  | nil => exact ⟨s, rfl, hs⟩
  | cons x xs ih =>
    obtain ⟨next, hnext, hP⟩ := hstep s x hs List.mem_cons_self
    obtain ⟨s', hrest, hs'⟩ := ih (fun s y hs hy => hstep s y hs (List.mem_cons_of_mem x hy)) hP
    refine ⟨s', ?_, hs'⟩
    rw [List.foldlM_cons, hnext]
    exact hrest

/-- What one step brings about and every step keeps holds after the fold. -/
theorem foldlM_reached {f : σ → α → Except ε σ} (P : σ → Prop) {xs : List α}
    (hstep : ∀ s x s', P s → x ∈ xs → f s x = .ok s' → P s') {x : α} (hx : x ∈ xs)
    (hreach : ∀ s s', f s x = .ok s' → P s') {s s' : σ} (h : xs.foldlM f s = .ok s') : P s' := by
  induction xs generalizing s with
  | nil => cases hx
  | cons y xs ih =>
    rw [List.foldlM_cons] at h
    obtain ⟨next, hnext, hrest⟩ := bind_eq_ok.1 h
    have hlater : ∀ s x s', P s → x ∈ xs → f s x = .ok s' → P s' :=
      fun s z s' hs hz => hstep s z s' hs (List.mem_cons_of_mem y hz)
    rcases List.mem_cons.1 hx with rfl | hx
    · exact foldlM_kept P hlater (hreach s next hnext) hrest
    · exact ih hlater hx hrest

theorem exists_mapM {f : α → Except ε β} {R : α → β → Prop} {xs : List α}
    (h : ∀ x ∈ xs, ∃ y, f x = .ok y ∧ R x y) : ∃ ys, xs.mapM f = .ok ys ∧ List.Forall₂ R xs ys := by
  induction xs with
  | nil => exact ⟨[], rfl, .nil⟩
  | cons x xs ih =>
    obtain ⟨hx, hxs⟩ := List.forall_mem_cons.1 h
    obtain ⟨y, hy, hR⟩ := hx
    obtain ⟨ys, hys, hRs⟩ := ih hxs
    refine ⟨y :: ys, ?_, .cons hR hRs⟩
    rw [List.mapM_cons, hy, hys]
    rfl

/-- What is related to the items of a list, one for one, is related to an item of it. -/
theorem exists_mem_of_forall₂ {R : α → β → Prop} {xs : List α} {ys : List β}
    (h : List.Forall₂ R xs ys) {y : β} (hy : y ∈ ys) : ∃ x ∈ xs, R x y := by
  induction h with
  | nil => cases hy
  | cons hR _ ih =>
    rcases List.mem_cons.1 hy with rfl | hy
    · exact ⟨_, List.mem_cons_self, hR⟩
    · obtain ⟨x, hx, hxR⟩ := ih hy
      exact ⟨x, List.mem_cons_of_mem _ hx, hxR⟩

end ProseMarkup
