import ProseMarkup.Proofs.AnyOrder

/-!
# How long a resolution takes

There are two loops in the resolution of fragments. The outer one does the foremost pending job until none is left;
a span uses up at least one character, that of its opening delimiter, and every link is opened once, so the number of
jobs is linear in what there is to resolve. The inner one looks for a span in a text again and again, each time
further on. Neither depends on what the delimiters are: an opening delimiter without characters is never met, and
a closing one without characters only makes spans that are shorter.

* `Span.Search` : the looks of one search for a span, and its answer.
* `Span.exists_search`, `Span.Search.answer_eq` : every search has its looks, and they lead to its answer.
* `Span.Search.increasing` : **each look of a search begins further on, and none past the end of the text**.
* `Assembly.follow_append` : runs one after the other.
* `Assembly.isSome_follow_iff` : the foremost job can be done until no job is left, and no more often.
* `Assembly.resolution_ends` : **every resolution ends, within a linear number of jobs**.
-/

namespace ProseMarkup

/-! ### The looks of a search -/

namespace Span

/-- The search for a span in a text looks from the positions `starts`, one after the other, and ends with an
answer. -/
inductive Search (rules : RuleIndex) (s : Text) (later : List Content) :
    (starts : List Nat) → (answer : Option Found) → Prop
  | found {start : Nat} {span : Found} (h : look rules s later start = .found span) :
      Search rules s later [start] (some span)
  | nothing {start : Nat} (h : look rules s later start = .nothing) : Search rules s later [start] none
  | again {start next : Nat} {starts : List Nat} {answer : Option Found}
      (h : look rules s later start = .again next) (rest : Search rules s later (next :: starts) answer) :
      Search rules s later (start :: next :: starts) answer

variable {rules : RuleIndex} {s : Text} {later : List Content} {starts : List Nat} {answer : Option Found}

theorem findFrom?_eq (rules : RuleIndex) (s : Text) (later : List Content) (start : Nat) :
    findFrom? rules s later start = match look rules s later start with
      | .found span => some span
      | .nothing => none
      | .again next => findFrom? rules s later next := by
  rw [findFrom?]
  split
  · next span h => rw [h]
  · next h => rw [h]
  · next further h => simp only [h]

/-- Every search has its looks. -/
theorem exists_search (rules : RuleIndex) (s : Text) (later : List Content) (start : Nat) :
    ∃ starts, Search rules s later (start :: starts) (findFrom? rules s later start) := by
  fun_induction findFrom? rules s later start with
  | case1 start span hfound => exact ⟨[], .found hfound⟩
  | case2 start hnothing => exact ⟨[], .nothing hnothing⟩
  | case3 start next hagain _ ih =>
    obtain ⟨starts, hrest⟩ := ih
    exact ⟨next :: starts, .again hagain hrest⟩

/-- The looks of a search lead to its answer. -/
theorem Search.answer_eq {start : Nat} (h : Search rules s later (start :: starts) answer) :
    answer = findFrom? rules s later start := by
  induction starts generalizing start with
  | nil =>
    cases h with
    | found h => rw [findFrom?_eq, h]
    | nothing h => rw [findFrom?_eq, h]
  | cons next starts ih =>
    cases h with
    | again h rest => rw [findFrom?_eq, h, ih rest]

/-- **Each look of a search begins further on than all before it, and none after the first past the end of the
text.** -/
theorem Search.increasing {start : Nat} (h : Search rules s later (start :: starts) answer) :
    (start :: starts).Pairwise (· < ·) ∧ ∀ i ∈ starts, i ≤ s.length := by
  induction starts generalizing start with
  | nil => exact ⟨List.pairwise_singleton _ _, fun i hi => absurd hi List.not_mem_nil⟩
  | cons next starts ih =>
    cases h with
    | again h rest =>
      obtain ⟨hlt, hle⟩ := look_again_bounds h
      obtain ⟨hincreasing, hbounded⟩ := ih rest
      have hlater : ∀ i ∈ starts, next < i := (List.pairwise_cons.1 hincreasing).1
      refine ⟨List.pairwise_cons.2 ⟨?_, hincreasing⟩, List.forall_mem_cons.2 ⟨hle, hbounded⟩⟩
      exact List.forall_mem_cons.2 ⟨hlt, fun i hi => hlt.trans (hlater i hi)⟩

end Span

/-! ### The jobs of a resolution -/

namespace Assembly

variable {rules : RuleIndex} {limit : Int} {a b : Assembly}

/-- Runs one after the other. -/
@[simp] theorem follow_append (rules : RuleIndex) (limit : Int) (choices choices' : List Nat) (a : Assembly) :
    follow rules limit (choices ++ choices') a =
      (follow rules limit choices a).bind (follow rules limit choices') := by
  induction choices generalizing a with
  | nil => rfl
  | cons i choices ih =>
    rw [List.cons_append, follow, follow, Option.bind_assoc]
    congr 1
    funext b
    exact ih b

/-- The foremost job can be done until no job is left, and no more often. -/
theorem isSome_follow_iff {n : Nat} (h : follow rules limit (List.replicate n 0) a = some b)
    (hdone : b.pending = []) (k : Nat) :
    (follow rules limit (List.replicate k 0) a).isSome = true ↔ k ≤ n := by
  constructor
  · intro hk
    by_contra hlt
    obtain ⟨m, rfl⟩ : ∃ m, k = n + (m + 1) := ⟨k - n - 1, by omega⟩
    have hstuck : b.stepAt rules limit 0 = none := by
      rw [stepAt, hdone]
      rfl
    have hnone : follow rules limit (List.replicate (m + 1) 0) b = none := by
      rw [List.replicate_succ, follow, hstuck, Option.bind_none]
    rw [← List.replicate_append_replicate, follow_append, h, Option.bind_some, hnone] at hk
    cases hk
  · intro hle
    obtain ⟨m, rfl⟩ := Nat.exists_eq_add_of_le hle
    rw [← List.replicate_append_replicate, follow_append] at h
    obtain ⟨c, hc, -⟩ := Option.bind_eq_some_iff.1 h
    rw [hc]
    rfl

/-- **Every resolution ends, within a number of jobs that is linear in its input**, whatever the delimiters are. For
raw texts and links with `L` links and `C` characters at any depth, the foremost job can be done no more than
`1 + L + 2 * C` times in a row, and then none is left. And every search for a span on the way ends: each of its looks
begins further on than the one before, and none past the end of the text. -/
theorem resolution_ends (rules : RuleIndex) (limit : Int) {fragments : List Content}
    (hf : Content.areFragments fragments = true) :
    (∃ n, n ≤ 1 + Content.linkCounts fragments + 2 * Content.charCounts fragments ∧
      follow rules limit (List.replicate n 0) (start (.row fragments)) =
        some (build rules limit (.row fragments)) ∧
      (build rules limit (.row fragments)).pending = [] ∧
      ∀ k, (follow rules limit (List.replicate k 0) (start (.row fragments))).isSome = true ↔ k ≤ n) ∧
    ∀ (s : Text) (later : List Content),
      (∃ starts, Span.Search rules s later (0 :: starts) (Span.find? rules s later)) ∧
      ∀ starts answer, Span.Search rules s later (0 :: starts) answer →
        answer = Span.find? rules s later ∧ (0 :: starts).Pairwise (· < ·) ∧
          ∀ i ∈ 0 :: starts, i ≤ s.length := by
  constructor
  · obtain ⟨n, hfollow, -⟩ :=
      run_follow rules limit (stepBound (.row fragments)) (start (.row fragments))
    have hdone : (build rules limit (.row fragments)).pending = [] := pending_build hf
    have hbound := (leads_follow (consistent_start hf) hfollow).2
    have hload : (start (.row fragments)).load =
        1 + Content.linkCounts fragments + 2 * Content.charCounts fragments := rfl
    rw [List.length_replicate, hload] at hbound
    refine ⟨n, by omega, hfollow, hdone, isSome_follow_iff hfollow hdone⟩
  · intro s later
    refine ⟨Span.exists_search rules s later 0, fun starts answer h => ?_⟩
    obtain ⟨hincreasing, hbounded⟩ := h.increasing
    exact ⟨h.answer_eq, hincreasing, List.forall_mem_cons.2 ⟨Nat.zero_le _, hbounded⟩⟩

/-- An opening delimiter without characters, and one that an empty text closes: every asterisk makes a span without
contents, in the link too. Seven jobs are done where twelve are allowed. -/
theorem resolution_ends_empty_delimiters :
    Content.areFragments [.text "a*b*".toList, .link (.str "u".toList) [.text "*".toList]] = true ∧
    7 ≤ 1 + Content.linkCounts [.text "a*b*".toList, .link (.str "u".toList) [.text "*".toList]] +
      2 * Content.charCounts [.text "a*b*".toList, .link (.str "u".toList) [.text "*".toList]] ∧
    ∀ k, (follow { ruleNames := [], closers := ⟨[([], ['x']), (['*'], [])], by decide⟩ } 16 (List.replicate k 0)
      (start (.row [.text "a*b*".toList, .link (.str "u".toList) [.text "*".toList]]))).isSome = true ↔ k ≤ 7 := by
  have hfragments : Content.areFragments
      [.text "a*b*".toList, .link (.str "u".toList) [.text "*".toList]] = true := rfl
  obtain ⟨⟨n, hle, -, -, hiff⟩, -⟩ :=
    resolution_ends { ruleNames := [], closers := ⟨[([], ['x']), (['*'], [])], by decide⟩ } 16 hfragments
  have hseven : 7 ≤ n := (hiff 7).1 (by decide +kernel)
  have height : ¬ 8 ≤ n := fun h => absurd ((hiff 8).2 h) (by decide +kernel)
  obtain rfl : n = 7 := by omega
  exact ⟨hfragments, hle, hiff⟩

end Assembly

end ProseMarkup
