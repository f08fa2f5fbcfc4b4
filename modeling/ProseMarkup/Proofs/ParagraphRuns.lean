import ProseMarkup.Proofs.ManuscriptSource

/-!
# Paragraphs as runs of lines

The paragraphs of some lines are the maximal runs of lines that are not empty, in order. A run has a place, from
its first line up to the first line after it, and no two runs have a line in common or touch. If lines are cut where
no run goes on, their runs are those of the two parts, and so are their paragraphs. Reading the lines one by one, a
paragraph is finished at an empty line and at the end of the lines.

* `Lines.IsFilledAt`, `Lines.IsRunAt` : a line that is not empty, and a maximal run of such lines.
* `Lines.AreRunPlaces` : the places of all runs, in order; `Lines.AreRunPlaces.append` : those of lines that are cut.
* `Lines.exists_places` : **the paragraphs are the lines at these places**.
* `Lines.Grouping` : the state of reading line by line; `Lines.Grouping.finished_foldl_read` : what it leads to.
* `Lines.head?_trimEnds`, `Lines.getLast?_trimEnds` : trimmed lines neither begin nor end with an empty one.
* `Lines.paragraphs_are_runs` : **the paragraphs are the maximal runs of lines that are not empty**.
-/

namespace ProseMarkup.Lines

variable {ls front rest : List Text} {places : List (Nat × Nat)} {i j start stop : Nat}

/-! ### Runs -/

/-- There is a line at a position, and it is not empty. -/
def IsFilledAt (ls : List Text) (i : Nat) : Prop :=
  ∃ l, ls[i]? = some l ∧ l ≠ []

/-- From one position up to another there are lines, none of them empty, and neither the line before nor the line
after them is such a line. -/
structure IsRunAt (ls : List Text) (start stop : Nat) : Prop where
  start_lt_stop : start < stop
  filled : ∀ i, start ≤ i → i < stop → IsFilledAt ls i
  before : ∀ i, i + 1 = start → ¬ IsFilledAt ls i
  after : ¬ IsFilledAt ls stop

/-- The places of runs in order, such that each line that is not empty is in one of them. -/
structure AreRunPlaces (ls : List Text) (places : List (Nat × Nat)) : Prop where
  ordered : places.Pairwise fun p q => p.2 < q.1
  isRunAt : ∀ p ∈ places, IsRunAt ls p.1 p.2
  covering : ∀ i, IsFilledAt ls i → ∃ p ∈ places, p.1 ≤ i ∧ i < p.2

theorem isFilledAt_iff : IsFilledAt ls i ↔ i < ls.length ∧ ls[i]? ≠ some [] := by
  constructor
  · rintro ⟨l, hl, hne⟩
    refine ⟨(List.getElem?_eq_some_iff.1 hl).1, ?_⟩
    rw [hl]
    exact fun h => hne (Option.some.inj h)
  · rintro ⟨hi, hne⟩
    rw [List.getElem?_eq_getElem hi] at hne
    exact ⟨ls[i], List.getElem?_eq_getElem hi, fun h => hne (congrArg some h)⟩

theorem isFilledAt_append :
    IsFilledAt (front ++ rest) i ↔ IsFilledAt front i ∨ ∃ k, i = k + front.length ∧ IsFilledAt rest k := by
  rcases Nat.lt_or_ge i front.length with hlt | hge
  · rw [IsFilledAt, List.getElem?_append_left hlt, IsFilledAt]
    refine (or_iff_left ?_).symm
    rintro ⟨k, rfl, -⟩
    omega
  · rw [IsFilledAt, List.getElem?_append_right hge, or_iff_right fun h => Nat.not_lt.2 hge (isFilledAt_iff.1 h).1]
    constructor
    · exact fun h => ⟨i - front.length, by omega, h⟩
    · rintro ⟨k, rfl, h⟩
      rwa [Nat.add_sub_cancel]

theorem not_isFilledAt_blank (i : Nat) : ¬ IsFilledAt [[]] i := by
  intro h
  obtain ⟨hlt, hne⟩ := isFilledAt_iff.1 h
  rw [Nat.lt_one_iff.1 hlt] at hne
  exact hne rfl

/-- A run contains all of a stretch of lines that are not empty, if it contains one of them. -/
theorem IsRunAt.contains (h : IsRunAt ls start stop) (hi : start ≤ i ∧ i < stop) {first last : Nat}
    (hfilled : ∀ k, first ≤ k → k < last → IsFilledAt ls k) (hi' : first ≤ i ∧ i < last) :
    start ≤ first ∧ last ≤ stop := by
  constructor
  · by_contra hlt
    exact h.before (start - 1) (by omega) (hfilled (start - 1) (by omega) (by omega))
  · by_contra hlt
    exact h.after (hfilled stop (by omega) (by omega))

theorem IsRunAt.stop_le (h : IsRunAt ls start stop) : stop ≤ ls.length := by
  have hlt := h.start_lt_stop
  have hlast := (isFilledAt_iff.1 (h.filled (stop - 1) (by omega) (by omega))).1
  omega

/-! ### Cutting lines -/

/-- The last line of the one part or the first line of the other is empty, or there is none. -/
def AreApart (front rest : List Text) : Prop :=
  ∀ i, i + 1 = front.length → IsFilledAt front i → ¬ IsFilledAt rest 0

theorem IsRunAt.append_rest (h : IsRunAt front start stop) (hcut : AreApart front rest) :
    IsRunAt (front ++ rest) start stop := by
  have hlt := h.start_lt_stop
  have hle := h.stop_le
  refine ⟨hlt, fun i hi hi' => ?_, fun i hi hbefore => ?_, fun hafter => ?_⟩
  · exact isFilledAt_append.2 (.inl (h.filled i hi hi'))
  · rcases isFilledAt_append.1 hbefore with hbefore | ⟨k, hk, -⟩
    · exact h.before i hi hbefore
    · omega
  · rcases isFilledAt_append.1 hafter with hafter | ⟨k, hk, hrest⟩
    · exact h.after hafter
    · -- The run ends where the front does, so its last line is the last of the front.
      have hzero : k = 0 := by omega
      rw [hzero] at hrest
      exact hcut (stop - 1) (by omega) (h.filled (stop - 1) (by omega) (by omega)) hrest

theorem IsRunAt.append_front (h : IsRunAt rest start stop) (hcut : AreApart front rest) :
    IsRunAt (front ++ rest) (start + front.length) (stop + front.length) := by
  have hlt := h.start_lt_stop
  refine ⟨by omega, fun i hi hi' => ?_, fun i hi hbefore => ?_, fun hafter => ?_⟩
  · exact isFilledAt_append.2 (.inr ⟨i - front.length, by omega, h.filled _ (by omega) (by omega)⟩)
  · rcases isFilledAt_append.1 hbefore with hbefore | ⟨k, rfl, hrest⟩
    · have hi' := (isFilledAt_iff.1 hbefore).1
      exact hcut i (by omega) hbefore (h.filled 0 (by omega) (by omega))
    · exact h.before k (by omega) hrest
  · rcases isFilledAt_append.1 hafter with hafter | ⟨k, hk, hrest⟩
    · have hstop := (isFilledAt_iff.1 hafter).1
      omega
    · rw [Nat.add_right_cancel hk] at h
      exact h.after hrest

/-! ### Places of runs -/

namespace AreRunPlaces

/-- Every run is at one of the places, since a line of it is and no two runs have a line in common. -/
theorem mem_iff (h : AreRunPlaces ls places) : (start, stop) ∈ places ↔ IsRunAt ls start stop := by
  constructor
  · exact h.isRunAt (start, stop)
  · intro hrun
    have hstart : start ≤ start ∧ start < stop := ⟨Nat.le_refl start, hrun.start_lt_stop⟩
    obtain ⟨⟨start', stop'⟩, hmem, hstart'⟩ := h.covering start (hrun.filled start hstart.1 hstart.2)
    have hrun' := h.isRunAt _ hmem
    obtain ⟨hle, hge⟩ := hrun.contains hstart hrun'.filled hstart'
    obtain ⟨hle', hge'⟩ := hrun'.contains hstart' hrun.filled hstart
    rwa [Nat.le_antisymm hle hle', Nat.le_antisymm hge' hge]

/-- Two lines that are not empty are in the same run just if no empty line separates them. -/
theorem same_run_iff (h : AreRunPlaces ls places) (hij : i < j) (hi : IsFilledAt ls i) (hj : IsFilledAt ls j) :
    (∃ p ∈ places, p.1 ≤ i ∧ j < p.2) ↔ ∀ k, i < k → k < j → ls[k]? ≠ some [] := by
  constructor
  · rintro ⟨p, hp, hstart, hstop⟩ k hik hkj
    exact (isFilledAt_iff.1 ((h.isRunAt p hp).filled k (by omega) (by omega))).2
  · intro hbetween
    have hfilled : ∀ k, i ≤ k → k < j + 1 → IsFilledAt ls k := by
      intro k hik hkj
      rcases Nat.eq_or_lt_of_le hik with rfl | hik
      · exact hi
      · rcases Nat.eq_or_lt_of_le (Nat.le_of_lt_succ hkj) with rfl | hkj
        · exact hj
        · exact isFilledAt_iff.2 ⟨hkj.trans (isFilledAt_iff.1 hj).1, hbetween k hik hkj⟩
    obtain ⟨p, hp, hip⟩ := h.covering i hi
    obtain ⟨-, hstop⟩ := (h.isRunAt p hp).contains hip hfilled ⟨Nat.le_refl i, by omega⟩
    exact ⟨p, hp, hip.1, hstop⟩

/-- Lines that are cut inside no run have the runs of the two parts. -/
theorem append {frontPlaces : List (Nat × Nat)} (hfront : AreRunPlaces front frontPlaces)
    (hrest : AreRunPlaces rest places) (hcut : AreApart front rest) :
    AreRunPlaces (front ++ rest)
      (frontPlaces ++ places.map (Prod.map (· + front.length) (· + front.length))) := by
  refine ⟨List.pairwise_append.2 ⟨hfront.ordered, ?_, ?_⟩, ?_, ?_⟩
  · rw [List.pairwise_map]
    exact hrest.ordered.imp fun hlt => Nat.add_lt_add_right hlt _
  · intro p hp _ hshifted
    obtain ⟨q, hq, rfl⟩ := List.mem_map.1 hshifted
    have hrun := (hrest.isRunAt q hq).append_front hcut
    by_contra hlt
    have hstart := hrun.start_lt_stop
    have hle := (hfront.isRunAt p hp).stop_le
    rw [Prod.map_fst] at hlt
    -- The two runs would touch, so that the line after the first is the first line of the second.
    have hstop : p.2 = q.1 + front.length := by omega
    refine ((hfront.isRunAt p hp).append_rest hcut).after ?_
    rw [hstop]
    exact hrun.filled _ (Nat.le_refl _) hstart
  · intro p hp
    rcases List.mem_append.1 hp with hp | hp
    · exact (hfront.isRunAt p hp).append_rest hcut
    · obtain ⟨q, hq, rfl⟩ := List.mem_map.1 hp
      exact (hrest.isRunAt q hq).append_front hcut
  · intro i hi
    rcases isFilledAt_append.1 hi with hi | ⟨k, rfl, hk⟩
    · obtain ⟨p, hp, hip⟩ := hfront.covering i hi
      exact ⟨p, List.mem_append_left _ hp, hip⟩
    · obtain ⟨p, hp, hkp⟩ := hrest.covering k hk
      refine ⟨_, List.mem_append_right _ (List.mem_map_of_mem hp), ?_⟩
      rw [Prod.map_fst, Prod.map_snd]
      omega

theorem nil : AreRunPlaces [] [] :=
  ⟨.nil, fun _ hp => absurd hp List.not_mem_nil, fun _ hi => absurd (isFilledAt_iff.1 hi).1 (Nat.not_lt_zero _)⟩

theorem blank : AreRunPlaces [[]] [] :=
  ⟨.nil, fun _ hp => absurd hp List.not_mem_nil, fun i hi => absurd hi (not_isFilledAt_blank i)⟩

/-- Lines that are not empty are one run. -/
theorem run (hne : ls ≠ []) (h : ∀ l ∈ ls, l ≠ []) : AreRunPlaces ls [(0, ls.length)] := by
  have hfilled : ∀ i, i < ls.length → IsFilledAt ls i :=
    fun i hi => ⟨ls[i], List.getElem?_eq_getElem hi, h _ (List.getElem_mem hi)⟩
  refine ⟨List.pairwise_singleton _ _, ?_, ?_⟩
  · intro p hp
    rw [List.mem_singleton.1 hp]
    refine ⟨List.length_pos_iff.2 hne, fun i _ hi => hfilled i hi, fun i hi => ?_, fun hafter => ?_⟩
    · exact absurd hi (Nat.succ_ne_zero i)
    · exact Nat.lt_irrefl _ (isFilledAt_iff.1 hafter).1
  · intro i hi
    exact ⟨_, List.mem_singleton_self _, Nat.zero_le i, (isFilledAt_iff.1 hi).1⟩

end AreRunPlaces

/-! ### Paragraphs -/

/-- Lines that begin with one that is not empty begin with a run. -/
theorem exists_front {l : Text} (hl : l ≠ []) (ls : List Text) :
    ∃ front rest, l :: ls = front ++ rest ∧ front ≠ [] ∧ (∀ l ∈ front, l ≠ []) ∧ ¬ IsFilledAt rest 0 := by
  induction ls generalizing l with
  | nil =>
    refine ⟨[l], [], rfl, List.cons_ne_nil l [], List.forall_mem_singleton.2 hl, ?_⟩
    exact fun h => Nat.not_lt_zero 0 (isFilledAt_iff.1 h).1
  | cons l' ls ih =>
    by_cases hl' : l' = []
    · refine ⟨[l], l' :: ls, rfl, List.cons_ne_nil l [], List.forall_mem_singleton.2 hl, ?_⟩
      rw [isFilledAt_iff, hl']
      exact fun h => h.2 rfl
    · obtain ⟨front, rest, heq, -, hfront, hrest⟩ := ih hl'
      exact ⟨l :: front, rest, congrArg (l :: ·) heq, List.cons_ne_nil l front,
        List.forall_mem_cons.2 ⟨hl, hfront⟩, hrest⟩

/-- There are no lines, or they begin with an empty one, or with a run: what holds of all lines is proved by taking it
for granted of the lines after that. -/
theorem runs_induction {motive : List Text → Prop} (nil : motive [])
    (blank : ∀ rest, motive rest → motive ([[]] ++ rest))
    (run : ∀ front rest, front ≠ [] → (∀ l ∈ front, l ≠ []) → ¬ IsFilledAt rest 0 → motive rest →
      motive (front ++ rest)) (ls : List Text) : motive ls := by
  induction hn : ls.length using Nat.strongRecOn generalizing ls with
  | ind n ih =>
    cases ls with
    | nil => exact nil
    | cons l ls =>
      by_cases hl : l = []
      · rw [hl]
        exact blank ls (ih ls.length (by rw [← hn]; exact Nat.lt_succ_self _) ls rfl)
      · obtain ⟨front, rest, heq, hne, hfront, hrest⟩ := exists_front hl ls
        have hlength := List.length_pos_iff.2 hne
        rw [heq] at hn ⊢
        rw [List.length_append] at hn
        exact run front rest hne hfront hrest (ih rest.length (by omega) rest rfl)

theorem paragraphs_run_append (hne : front ≠ []) (h : ∀ l ∈ front, l ≠ []) (hrest : ¬ IsFilledAt rest 0) :
    paragraphs (front ++ rest) = front :: paragraphs rest := by
  cases rest with
  | nil => rw [List.append_nil, paragraphs_of_ne_nil hne h, paragraphs]
  | cons l rest =>
    have hl : l = [] := by
      by_contra hl
      exact hrest ⟨l, rfl, hl⟩
    simp [hl, paragraphs_of_ne_nil hne h]

/-- The lines at places further down are those at the places of the rest. -/
theorem extract_append (front rest : List Text) (start stop : Nat) :
    (front ++ rest).extract (start + front.length) (stop + front.length) = rest.extract start stop := by
  rw [List.extract, List.extract, Nat.add_sub_add_right, Nat.add_comm start, List.drop_length_add_append]

/-- **Paragraphs are the lines at the places of runs.** -/
theorem exists_places (ls : List Text) :
    ∃ places, AreRunPlaces ls places ∧ paragraphs ls = places.map fun p => ls.extract p.1 p.2 := by
  induction ls using runs_induction with
  | nil => exact ⟨[], .nil, rfl⟩
  | blank rest ih =>
    obtain ⟨places, hplaces, hparagraphs⟩ := ih
    refine ⟨_, AreRunPlaces.blank.append hplaces fun i _ h => absurd h (not_isFilledAt_blank i), ?_⟩
    simp [hparagraphs]
  | run front rest hne hfront hrest ih =>
    obtain ⟨places, hplaces, hparagraphs⟩ := ih
    refine ⟨_, (AreRunPlaces.run hne hfront).append hplaces fun _ _ _ => hrest, ?_⟩
    rw [paragraphs_run_append hne hfront hrest, hparagraphs, List.singleton_append, List.map_cons, List.map_map,
      List.extract, List.drop_zero, Nat.sub_zero, List.take_left]
    exact congrArg (front :: ·) (List.map_congr_left fun p _ => (extract_append front rest p.1 p.2).symm)

/-! ### Reading line by line -/

/-- The paragraphs that are finished, and the lines of the one that is being read. -/
structure Grouping where
  finished : List (List Text)
  current : List Text

namespace Grouping

/-- Finishes the paragraph that is being read, if it has any lines. -/
def finish (g : Grouping) : Grouping :=
  if g.current = [] then g else ⟨g.finished ++ [g.current], []⟩

/-- Reads one more line. -/
def read (g : Grouping) (l : Text) : Grouping :=
  if l = [] then g.finish else { g with current := g.current ++ [l] }

variable {g : Grouping}

@[simp] theorem current_finish (g : Grouping) : g.finish.current = [] := by
  rw [finish]
  split
  · next h => exact h
  · rfl

/-- What is being read becomes a paragraph. -/
theorem finished_finish (h : ∀ l ∈ g.current, l ≠ []) :
    g.finish.finished = g.finished ++ paragraphs g.current := by
  rw [finish]
  split
  · next hempty => rw [hempty, paragraphs, List.append_nil]
  · next hne => rw [paragraphs_of_ne_nil hne h]

/-- One line: what is being read has no empty line, and with the lines that follow makes the same paragraphs. -/
theorem read_spec (h : ∀ l ∈ g.current, l ≠ []) (l : Text) :
    (∀ l' ∈ (g.read l).current, l' ≠ []) ∧ ∀ ls,
      (g.read l).finished ++ paragraphs ((g.read l).current ++ ls) =
        g.finished ++ paragraphs (g.current ++ l :: ls) := by
  rw [read]
  split
  · next hl =>
    rw [current_finish, finished_finish h, hl]
    refine ⟨fun _ hmem => absurd hmem List.not_mem_nil, fun ls => ?_⟩
    simp
  · next hl =>
    refine ⟨List.forall_mem_append.2 ⟨h, List.forall_mem_singleton.2 hl⟩, fun ls => ?_⟩
    rw [List.append_assoc, List.singleton_append]

/-- All lines, from any state. -/
theorem finished_foldl_read (h : ∀ l ∈ g.current, l ≠ []) (ls : List Text) :
    (ls.foldl read g).finish.finished = g.finished ++ paragraphs (g.current ++ ls) := by
  induction ls generalizing g with
  | nil => rw [List.foldl_nil, finished_finish h, List.append_nil]
  | cons l ls ih =>
    obtain ⟨hread, hparagraphs⟩ := read_spec h l
    rw [List.foldl_cons, ih hread, hparagraphs]

end Grouping

/-! ### Trimming -/

/-- Only empty lines at the ends are trimmed off. -/
theorem exists_trimmed (ls : List Text) :
    ∃ before after, ls = before ++ trimEnds ls ++ after ∧ ∀ l ∈ before ++ after, l = [] := by
  have hends : ls.takeWhile List.isEmpty ++ (trimEnds ls ++ (ls.dropWhile List.isEmpty).rtakeWhile List.isEmpty) =
      ls.takeWhile List.isEmpty ++ ls.dropWhile List.isEmpty :=
    congrArg _ List.rdropWhile_append_rtakeWhile
  rw [List.takeWhile_append_dropWhile, ← List.append_assoc] at hends
  refine ⟨_, _, hends.symm, List.forall_mem_append.2 ⟨fun l hl => ?_, fun l hl => ?_⟩⟩
  · exact List.isEmpty_iff.1 (List.mem_takeWhile_imp hl)
  · exact List.isEmpty_iff.1 (List.mem_rtakeWhile_imp hl)

theorem head?_dropWhile_isEmpty (ls : List Text) : (ls.dropWhile List.isEmpty).head? ≠ some [] := by
  intro h
  have hnot := List.head?_dropWhile_not List.isEmpty ls
  rw [h] at hnot
  cases hnot

theorem head?_trimEnds (ls : List Text) : (trimEnds ls).head? ≠ some [] := by
  intro h
  obtain ⟨after, hafter⟩ := List.rdropWhile_prefix List.isEmpty (l := ls.dropWhile List.isEmpty)
  refine head?_dropWhile_isEmpty ls ?_
  rw [← hafter, List.head?_append]
  exact congrArg (·.or after.head?) h

theorem getLast?_trimEnds (ls : List Text) : (trimEnds ls).getLast? ≠ some [] := by
  rw [trimEnds, List.getLast?_reverse]
  exact head?_dropWhile_isEmpty _

/-! ### The paragraphs of lines -/

/-- **The paragraphs are the maximal runs of lines that are not empty**, in order: the lines at the places of these
runs, each of which ends before the next begins. Two lines that are not empty are in the same run just if no empty line
separates them. No paragraph is empty or has an empty line, all other lines are in them in order, and reading line by
line leads to them. Trimming takes off empty lines at both ends, as many as there are, and leaves the paragraphs as they
are. -/
theorem paragraphs_are_runs (ls : List Text) :
    (∃ places : List (Nat × Nat),
        places.Pairwise (fun p q => p.2 < q.1) ∧
        (∀ start stop, (start, stop) ∈ places ↔ IsRunAt ls start stop) ∧
        paragraphs ls = places.map (fun p => ls.extract p.1 p.2) ∧
        ∀ i j, i < j → IsFilledAt ls i → IsFilledAt ls j →
          ((∃ p ∈ places, p.1 ≤ i ∧ j < p.2) ↔ ∀ k, i < k → k < j → ls[k]? ≠ some [])) ∧
      (∀ p ∈ paragraphs ls, p ≠ [] ∧ [] ∉ p) ∧
      (paragraphs ls).flatten = ls.filter (· ≠ []) ∧
      paragraphs ls = (ls.foldl Grouping.read ⟨[], []⟩).finish.finished ∧
      (∃ before after, ls = before ++ trimEnds ls ++ after ∧ ∀ l ∈ before ++ after, l = []) ∧
      (trimEnds ls).head? ≠ some [] ∧ (trimEnds ls).getLast? ≠ some [] ∧
      paragraphs (trimEnds ls) = paragraphs ls := by
  obtain ⟨places, hplaces, hparagraphs⟩ := exists_places ls
  have hread : (ls.foldl Grouping.read ⟨[], []⟩).finish.finished = [] ++ paragraphs ([] ++ ls) :=
    Grouping.finished_foldl_read (fun _ hmem => absurd hmem List.not_mem_nil) ls
  refine ⟨⟨places, hplaces.ordered, fun _ _ => hplaces.mem_iff, hparagraphs, ?_⟩, ?_, flatten_paragraphs ls,
    hread.symm, exists_trimmed ls, head?_trimEnds ls, getLast?_trimEnds ls, paragraphs_trimEnds ls⟩
  · exact fun _ _ hij hi hj => hplaces.same_run_iff hij hi hj
  · intro p hp
    obtain ⟨hne, -, hempty⟩ := of_mem_paragraphs hp
    exact ⟨hne, hempty⟩

/-- One empty line between the first two paragraphs, two between the others, and some at the ends. -/
example : paragraphs [[], "a".toList, "b".toList, [], "c".toList, [], [], "d".toList, []] =
    [["a".toList, "b".toList], ["c".toList], ["d".toList]] := by
  decide

end ProseMarkup.Lines
