import Mathlib.Data.List.DropRight
import ProseMarkup.Text.Basic

/-!
# Runs of characters of a class

Reading as many characters of a class as there are stops at the first character outside it, or at the end
of the text; what was read and what is left give the text back. Trimming a text leaves out such runs at
its ends.

* `Text.Stops` : whether a text does not go on with a character of a class.
* `Text.takeWhile_run`, `Text.dropWhile_run` : a run is read whole if the text after it stops.
* `Text.exists_run` : every text is a run with a text after it that stops.
* `Text.run_cases` : every text is a run, or a run with a character outside the class after it.
* `Text.run_injective` : a text has only one run up to its first character outside the class.
* `Text.trim_infix` : a text is trimmed at its ends only.
* `Text.trim_trim` : **a trimmed text stays as it is when it is trimmed again**.
-/

namespace ProseMarkup.Text

variable {p : Char → Bool}

/-- Whether a text does not go on with a character of a class. -/
def Stops (p : Char → Bool) (s : Text) : Prop :=
  ∀ c, s.head? = some c → p c = false

theorem stops_nil : Stops p [] := by
  intro c hc
  cases hc

theorem stops_cons {c : Char} (hc : p c = false) (s : Text) : Stops p (c :: s) := by
  intro d hd
  cases hd
  exact hc

theorem takeWhile_of_stops {s : Text} (h : Stops p s) : s.takeWhile p = [] := by
  cases s with
  | nil => rfl
  | cons c s => rw [List.takeWhile_cons, h c rfl]; rfl

theorem dropWhile_of_stops {s : Text} (h : Stops p s) : s.dropWhile p = s := by
  cases s with
  | nil => rfl
  | cons c s => rw [List.dropWhile_cons, h c rfl]; rfl

theorem takeWhile_run {run rest : Text} (hrun : run.all p = true) (hrest : Stops p rest) :
    (run ++ rest).takeWhile p = run := by
  rw [List.takeWhile_append_of_pos (List.all_eq_true.1 hrun), takeWhile_of_stops hrest,
    List.append_nil]

theorem dropWhile_run {run rest : Text} (hrun : run.all p = true) (hrest : Stops p rest) :
    (run ++ rest).dropWhile p = rest := by
  rw [List.dropWhile_append_of_pos (List.all_eq_true.1 hrun), dropWhile_of_stops hrest]

theorem stops_dropWhile (p : Char → Bool) (s : Text) : Stops p (s.dropWhile p) := by
  intro c hc
  have hhead := List.head?_dropWhile_not p s
  rw [hc] at hhead
  exact hhead

/-- Every text is a run with a text after it that stops. -/
theorem exists_run (p : Char → Bool) (s : Text) :
    s = s.takeWhile p ++ s.dropWhile p ∧ (s.takeWhile p).all p = true ∧ Stops p (s.dropWhile p) :=
  ⟨List.takeWhile_append_dropWhile.symm, List.all_takeWhile, stops_dropWhile p s⟩

/-- Every text is a run, or a run with a character outside the class after it. -/
theorem run_cases (p : Char → Bool) (s : Text) :
    s.all p = true ∨ ∃ run c rest, s = run ++ c :: rest ∧ run.all p = true ∧ p c = false := by
  obtain ⟨heq, hrun, hstops⟩ := exists_run p s
  cases hrest : s.dropWhile p with
  | nil =>
    rw [hrest, List.append_nil] at heq
    rw [heq]
    exact .inl hrun
  | cons c rest =>
    rw [hrest] at heq hstops
    exact .inr ⟨_, c, rest, heq, hrun, hstops c rfl⟩

/-- A text has only one run up to its first character outside the class. -/
theorem run_injective {run run' rest rest' : Text} {c c' : Char} (hrun : run.all p = true)
    (hc : p c = false) (hrun' : run'.all p = true) (hc' : p c' = false)
    (h : run ++ c :: rest = run' ++ c' :: rest') : run = run' ∧ c = c' ∧ rest = rest' := by
  have htake : run = run' := by
    rw [← takeWhile_run hrun (stops_cons hc rest), h, takeWhile_run hrun' (stops_cons hc' rest')]
  have hdrop : c :: rest = c' :: rest' := by
    rw [← dropWhile_run hrun (stops_cons hc rest), h, dropWhile_run hrun' (stops_cons hc' rest')]
  rw [List.cons.injEq] at hdrop
  exact ⟨htake, hdrop⟩

/-! ### Trimmed texts -/

theorem trim_eq (s : Text) : s.trim p = (s.dropWhile p).rdropWhile p := rfl

theorem trim_infix (s : Text) : s.trim p <:+: s := by
  rw [trim_eq]
  exact (List.rdropWhile_prefix p _).isInfix.trans (List.dropWhile_suffix p).isInfix

/-- A text that does not begin with a character of the class still does not when its end is trimmed. -/
theorem dropWhile_rdropWhile {s : Text} (h : s.dropWhile p = s) :
    (s.rdropWhile p).dropWhile p = s.rdropWhile p := by
  cases hs : s.rdropWhile p with
  | nil => rfl
  | cons c t =>
    obtain ⟨rest, hrest⟩ := List.rdropWhile_prefix p s
    rw [hs] at hrest
    rw [← hrest, List.cons_append, List.dropWhile_cons] at h
    split at h
    · have hlength := (List.dropWhile_sublist p (l := t ++ rest)).length_le
      rw [h, List.length_cons] at hlength
      omega
    · next hc => rw [List.dropWhile_cons, if_neg hc]

/-- **A trimmed text stays as it is when it is trimmed again.** -/
@[simp] theorem trim_trim (s : Text) : (s.trim p).trim p = s.trim p := by
  have hbegin : (s.trim p).dropWhile p = s.trim p :=
    dropWhile_rdropWhile (List.dropWhile_idempotent p s)
  rw [trim_eq (s.trim p), hbegin]
  exact List.rdropWhile_idempotent p _

end ProseMarkup.Text
