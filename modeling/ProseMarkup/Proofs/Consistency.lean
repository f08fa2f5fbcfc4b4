import ProseMarkup.Proofs.JobResolution

/-!
# What holds of an assembly at every moment

Whatever job is done next, an assembly stays consistent: each list has at most one pending job, and its
pieces refer to later lists that have been begun.

* `Assembly.Consistent` : the invariant.
* `Assembly.Effect.WellFormed` : what every effect is like; `effect_wellFormed` says that it is so.
* `Assembly.stepAt_cases` : a step takes one job from among the pending ones and adds its effect.
* `Assembly.after` : an assembly after a job with an effect.
* `Assembly.Consistent.after` : **a step keeps an assembly consistent**.
-/

namespace ProseMarkup

namespace Assembly

/-- What holds of an assembly at every moment of every run. -/
structure Consistent (a : Assembly) : Prop where
  /-- No two pending jobs are for the same list. -/
  owned : (a.pending.map Job.target).Nodup
  bounded : ∀ j ∈ a.pending, j.target < a.lists.length
  raw : ∀ j ∈ a.pending, j.fragments.areRaw = true
  /-- Pieces refer to later lists. -/
  later : ∀ t ps, a.lists[t]? = some ps → ∀ p ∈ ps, ∀ n, p.list? = some n →
    t < n ∧ n < a.lists.length
  fault : a.fault = none ∨ a.fault = some .notText

/-! ### The shape of an effect -/

/-- What holds of the effect of every job: it begins the next lists in turn, leaves at most one job
for its own list, and refers to the new lists only. -/
structure Effect.WellFormed (e : Effect) (next target : Nat) : Prop where
  opened : e.opened.map Job.target = List.range' next e.opened.length
  rest : e.rest.map Job.target = [] ∨ e.rest.map Job.target = [target]
  refs : ∀ p ∈ e.pieces, ∀ n, p.list? = some n → next ≤ n ∧ n < next + e.opened.length
  raw : ∀ j ∈ e.jobs, j.fragments.areRaw = true
  fault : e.fault = none ∨ e.fault = some .notText

theorem findSome?_findingFault (rules : RuleIndex) (found : List Finding) :
    found.findSome? (findingFault? rules) = none ∨
      found.findSome? (findingFault? rules) = some .notText := by
  cases hfault : found.findSome? (findingFault? rules) with
  | none => exact .inl rfl
  | some fault =>
    obtain ⟨f, -, hf⟩ := List.exists_of_findSome?_eq_some hfault
    refine .inr ?_
    cases f with
    | span opening fragments =>
      rw [findingFault?] at hf
      split at hf
      · rw [hf]
      · cases hf
    | _ => cases hf

theorem effect_wellFormed (rules : RuleIndex) (limit : Int) (next target depth : Nat)
    {items : List Content} (hf : Content.areFragments items = true) :
    (effect rules limit next target depth items).WellFormed next target := by
  have hraw := areRaw_effect rules limit next target depth hf
  by_cases hd : limit ≤ depth
  · rw [effect_of_le hd] at hraw ⊢
    refine ⟨rfl, .inl rfl, fun p hp n hn => ?_, hraw, .inl rfl⟩
    obtain ⟨c, -, rfl⟩ := List.mem_map.1 hp
    cases hn
  · rw [effect_of_lt hd] at hraw ⊢
    refine ⟨openedJobs_targets (depth + 1) next _, ?_, pieces_refs (depth + 1) next _, hraw,
      findSome?_findingFault rules _⟩
    show (restJobs target depth _).map Job.target = [] ∨
      (restJobs target depth _).map Job.target = [target]
    rw [restJobs]
    split
    · exact .inl rfl
    · exact .inr rfl

/-! ### The lists after an effect -/

section Lists

variable {a : Assembly} {target t : Nat} {e : Effect} {ps : List Piece}

@[simp] theorem length_add : (a.add target e).lists.length = a.lists.length + e.opened.length := by
  rw [add, List.length_append, List.length_modify, List.length_replicate]

theorem add_self (h : a.lists[target]? = some ps) :
    (a.add target e).lists[target]? = some (ps ++ e.pieces) := by
  have hlt : target < a.lists.length := (List.getElem?_eq_some_iff.1 h).1
  show (a.lists.modify target _ ++ _)[target]? = _
  rw [List.getElem?_append_left (by rwa [List.length_modify]), List.getElem?_modify_eq, h]
  rfl

theorem add_other (hne : t ≠ target) (h : a.lists[t]? = some ps) :
    (a.add target e).lists[t]? = some ps := by
  have hlt : t < a.lists.length := (List.getElem?_eq_some_iff.1 h).1
  show (a.lists.modify target _ ++ _)[t]? = _
  rw [List.getElem?_append_left (by rwa [List.length_modify]),
    List.getElem?_modify_ne _ _ (Ne.symm hne), h]

theorem add_new (hle : a.lists.length ≤ t) (hlt : t < a.lists.length + e.opened.length) :
    (a.add target e).lists[t]? = some [] := by
  show (a.lists.modify target _ ++ _)[t]? = _
  rw [List.getElem?_append_right (by rwa [List.length_modify]), List.length_modify,
    List.getElem?_replicate_of_lt (by omega)]

/-- A piece of a list is an old one, or has been added to its list by the effect. -/
theorem mem_add (h : (a.add target e).lists[t]? = some ps) {p : Piece} (hp : p ∈ ps) :
    (∃ qs, a.lists[t]? = some qs ∧ p ∈ qs) ∨ (t = target ∧ t < a.lists.length ∧ p ∈ e.pieces) := by
  have hlt : t < a.lists.length + e.opened.length := by
    have hlt := (List.getElem?_eq_some_iff.1 h).1
    rwa [length_add] at hlt
  rcases Nat.lt_or_ge t a.lists.length with hold | hnew
  · obtain ⟨qs, hqs⟩ : ∃ qs, a.lists[t]? = some qs := ⟨_, List.getElem?_eq_getElem hold⟩
    by_cases htarget : t = target
    · subst htarget
      rw [add_self hqs] at h
      cases h
      rcases List.mem_append.1 hp with hp | hp
      · exact .inl ⟨qs, hqs, hp⟩
      · exact .inr ⟨rfl, hold, hp⟩
    · rw [add_other htarget hqs] at h
      cases h
      exact .inl ⟨ps, hqs, hp⟩
  · rw [add_new hnew hlt] at h
    cases h
    exact absurd hp List.not_mem_nil

end Lists

/-! ### Steps -/

variable {rules : RuleIndex} {limit : Int} {a b : Assembly}

/-- An assembly after a job with an effect, the other jobs staying as they are. -/
def after (a : Assembly) (others : List Job) (job : Job) (e : Effect) : Assembly :=
  ({ a with pending := others }).add job.target e

/-- A step takes one job from among the pending ones and adds its effect. -/
theorem stepAt_cases (ha : a.Consistent) {i : Nat} (h : a.stepAt rules limit i = some b) :
    ∃ earlier job others items, a.pending = earlier ++ job :: others ∧
      job.fragments = .row items ∧ Content.areFragments items = true ∧
      b = a.after (earlier ++ others) job
        (effect rules limit a.lists.length job.target job.depth items) := by
  rw [stepAt] at h
  obtain ⟨job, hjob, rfl⟩ := Option.map_eq_some_iff.1 h
  obtain ⟨hi, hget⟩ := List.getElem?_eq_some_iff.1 hjob
  have hmem : job ∈ a.pending := List.mem_of_getElem? hjob
  have hsplit : a.pending = a.pending.take i ++ job :: a.pending.drop (i + 1) := by
    rw [← hget, List.getElem_cons_drop, List.take_append_drop]
  obtain ⟨items, hrow, hraw⟩ := Fragments.exists_row_of_areRaw (ha.raw job hmem)
  refine ⟨a.pending.take i, job, a.pending.drop (i + 1), items, hsplit, hrow, hraw, ?_⟩
  rw [List.eraseIdx_eq_take_drop_succ]
  exact perform_row rules limit _ hrow hraw (ha.bounded job hmem)

/-- The job that a step takes is the only one for its list. -/
theorem not_mem_others {earlier others : List Job} {job : Job}
    (ha : a.Consistent) (hp : a.pending = earlier ++ job :: others) :
    ∀ j ∈ earlier ++ others, j.target ≠ job.target := by
  have hnodup := ha.owned
  rw [hp, List.map_append, List.map_cons, List.nodup_append, List.nodup_cons] at hnodup
  obtain ⟨-, ⟨hother, -⟩, hearlier⟩ := hnodup
  intro j hj
  rcases List.mem_append.1 hj with hj | hj
  · exact hearlier j.target (List.mem_map_of_mem hj) job.target List.mem_cons_self
  · intro heq
    exact hother (heq ▸ List.mem_map_of_mem hj)

/-- The pending jobs before a step, those that stay among them. -/
theorem mem_pending_of_mem_others {earlier others : List Job} {job : Job}
    (hp : a.pending = earlier ++ job :: others) {j : Job} (hj : j ∈ earlier ++ others) :
    j ∈ a.pending := by
  rw [hp]
  rcases List.mem_append.1 hj with hj | hj
  · exact List.mem_append_left _ hj
  · exact List.mem_append_right _ (List.mem_cons_of_mem _ hj)

theorem Effect.WellFormed.target_rest {e : Effect} {next target : Nat} (he : e.WellFormed next target)
    {j : Job} (hj : j ∈ e.rest) : j.target = target := by
  have hmem := List.mem_map_of_mem (f := Job.target) hj
  rcases he.rest with hrest | hrest
  · rw [hrest] at hmem
    cases hmem
  · rw [hrest] at hmem
    exact List.mem_singleton.1 hmem

theorem Effect.WellFormed.target_opened {e : Effect} {next target : Nat}
    (he : e.WellFormed next target) {j : Job} (hj : j ∈ e.opened) :
    next ≤ j.target ∧ j.target < next + e.opened.length := by
  have hmem := List.mem_map_of_mem (f := Job.target) hj
  rw [he.opened, List.mem_range'_1] at hmem
  exact hmem

section Step

variable {earlier others : List Job} {job : Job} {e : Effect}

theorem mem_pending (hp : a.pending = earlier ++ job :: others) : job ∈ a.pending := by
  rw [hp]
  exact List.mem_append_right _ List.mem_cons_self

/-- No two jobs have one list after a step. -/
theorem owned_after (ha : a.Consistent) (hp : a.pending = earlier ++ job :: others)
    (he : e.WellFormed a.lists.length job.target) :
    ((a.after (earlier ++ others) job e).pending.map Job.target).Nodup := by
  have hbounded : ∀ j ∈ a.pending, j.target < a.lists.length := ha.bounded
  have hold : ((earlier ++ others).map Job.target).Nodup := by
    have hnodup := ha.owned
    rw [hp] at hnodup
    refine hnodup.sublist (List.Sublist.map _ ?_)
    exact List.Sublist.append_left (List.sublist_cons_self _ _) _
  have hopened : (e.opened.reverse.map Job.target).Nodup := by
    rw [List.map_reverse, he.opened]
    exact List.pairwise_reverse.2 (List.Pairwise.imp Ne.symm List.nodup_range')
  have hrest : (e.rest.map Job.target).Nodup := by
    rcases he.rest with h | h
    · rw [h]
      exact List.nodup_nil
    · rw [h]
      exact List.nodup_cons.2 ⟨List.not_mem_nil, List.nodup_nil⟩
  have hjob := hbounded job (mem_pending hp)
  show ((e.rest ++ (e.opened.reverse ++ (earlier ++ others))).map Job.target).Nodup
  rw [List.map_append, List.map_append, List.nodup_append, List.nodup_append]
  refine ⟨hrest, ⟨hopened, hold, ?_⟩, ?_⟩
  · intro t ht u hu
    obtain ⟨j, hj, rfl⟩ := List.mem_map.1 ht
    obtain ⟨k, hk, rfl⟩ := List.mem_map.1 hu
    have hnew := (he.target_opened (List.mem_reverse.1 hj)).1
    have hlt := hbounded k (mem_pending_of_mem_others hp hk)
    omega
  · intro t ht u hu
    obtain ⟨j, hj, rfl⟩ := List.mem_map.1 ht
    rw [he.target_rest hj]
    rcases List.mem_append.1 hu with hu | hu
    · obtain ⟨k, hk, rfl⟩ := List.mem_map.1 hu
      have hnew := (he.target_opened (List.mem_reverse.1 hk)).1
      omega
    · obtain ⟨k, hk, rfl⟩ := List.mem_map.1 hu
      exact Ne.symm (not_mem_others ha hp k hk)

theorem mem_pending_after {j : Job}
    (hj : j ∈ (a.after (earlier ++ others) job e).pending) :
    j ∈ e.rest ∨ j ∈ e.opened ∨ j ∈ earlier ++ others := by
  rcases List.mem_append.1 hj with hj | hj
  · exact .inl hj
  · rcases List.mem_append.1 hj with hj | hj
    · exact .inr (.inl (List.mem_reverse.1 hj))
    · exact .inr (.inr hj)

/-- **A step keeps an assembly consistent.** -/
theorem Consistent.after (ha : a.Consistent) (hp : a.pending = earlier ++ job :: others)
    (he : e.WellFormed a.lists.length job.target) :
    (a.after (earlier ++ others) job e).Consistent := by
  have hjob := ha.bounded job (mem_pending hp)
  refine ⟨owned_after ha hp he, fun j hj => ?_, fun j hj => ?_, fun t ps hps p hp' n hn => ?_, ?_⟩
  · rw [Assembly.after, length_add]
    show j.target < a.lists.length + _
    rcases mem_pending_after hj with hj | hj | hj
    · rw [he.target_rest hj]
      omega
    · exact (he.target_opened hj).2
    · have := ha.bounded j (mem_pending_of_mem_others hp hj)
      omega
  · rcases mem_pending_after hj with hj | hj | hj
    · exact he.raw j (List.mem_append_left _ hj)
    · exact he.raw j (List.mem_append_right _ hj)
    · exact ha.raw j (mem_pending_of_mem_others hp hj)
  · rw [Assembly.after, length_add]
    show t < n ∧ n < a.lists.length + _
    rcases mem_add hps hp' with ⟨qs, hqs, hq⟩ | ⟨rfl, hlt, hpiece⟩
    · have := ha.later t qs hqs p hq n hn
      omega
    · have := he.refs p hpiece n hn
      have hlen : ({ a with pending := earlier ++ others } : Assembly).lists.length =
        a.lists.length := rfl
      omega
  · show a.fault.or e.fault = none ∨ a.fault.or e.fault = some .notText
    rcases ha.fault with h | h
    · rw [h, Option.none_or]
      exact he.fault
    · rw [h, Option.some_or]
      exact .inr rfl

end Step

end Assembly

end ProseMarkup
