import ProseMarkup.Proofs.Consistency

/-!
# Doing the pending jobs in any order

The order in which an assembly's pending jobs are done does not matter: every order ends, and all end
with the recursive resolution. What a list comes to is fixed at every moment by its pieces and by what
its pending job, of which there is at most one, resolves to; a step only moves the boundary between
the two.

* `Assembly.follow` : the run that does, step by step, the pending jobs at chosen places.
* `Assembly.load` : how much there is left to do.
* `Assembly.Settles` : that contents assigned to all lists agree with the pieces and the jobs.
* `Assembly.Leads` : what a step, and hence a run, guarantees.
-/

namespace ProseMarkup

namespace Assembly

/-- The run that does the pending jobs at the places chosen, one after the other; `none` if a choice
is no place of the pending jobs. -/
def follow (rules : RuleIndex) (limit : Int) : (choices : List Nat) → Assembly → Option Assembly
  | [], a => some a
  | i :: choices, a => (a.stepAt rules limit i).bind (follow rules limit choices)

/-- How much there is left to do. -/
def load (a : Assembly) : Nat :=
  (a.pending.map fun j => stepBound j.fragments).sum

/-- The pending jobs for a list. -/
def awaited (a : Assembly) (list : Nat) : List Job :=
  a.pending.filter fun j => j.target == list

/-- Contents assigned to the lists agree with an assembly: a list comes to its pieces, followed by what
its pending job resolves to. -/
def Settles (rules : RuleIndex) (limit : Int) (a : Assembly) (content : Nat → List Content) : Prop :=
  ∀ t ps, a.lists[t]? = some ps → content t =
    ps.map (fill content) ++ (a.awaited t).flatMap fun j => (j.resolution rules limit).contents

/-- Whether the limit has been met, or will be. -/
def willCut (rules : RuleIndex) (limit : Int) (a : Assembly) : Bool :=
  a.cut || a.pending.any fun j => (j.resolution rules limit).cut

/-- Whether a fault has been met, or will be. -/
def willFail (rules : RuleIndex) (limit : Int) (a : Assembly) : Bool :=
  a.fault.isSome || a.pending.any fun j => (j.resolution rules limit).isFaulty rules

/-- What a run from one assembly to another guarantees: the later one is consistent, and what it comes
to is what the earlier one comes to. -/
structure Leads (rules : RuleIndex) (limit : Int) (a b : Assembly) : Prop where
  consistent : b.Consistent
  settles : ∀ content, b.Settles rules limit content → a.Settles rules limit content
  cut : b.willCut rules limit = a.willCut rules limit
  fail : b.willFail rules limit = a.willFail rules limit

/-! ### The jobs awaited for a list -/

section Awaited

variable {a : Assembly} {earlier others : List Job} {job : Job} {e : Effect}

theorem filter_target {jobs : List Job} (h : (jobs.map Job.target).Nodup) {j : Job} (hj : j ∈ jobs) :
    jobs.filter (fun k => k.target == j.target) = [j] := by
  induction jobs with
  | nil => cases hj
  | cons k jobs ih =>
    rw [List.map_cons, List.nodup_cons] at h
    rcases List.mem_cons.1 hj with rfl | hj
    · rw [List.filter_cons, if_pos BEq.rfl]
      congr 1
      refine List.filter_eq_nil_iff.2 fun l hl heq => h.1 ?_
      rw [← eq_of_beq heq]
      exact List.mem_map_of_mem hl
    · have hne : ¬ (k.target == j.target) = true := fun heq =>
        h.1 (eq_of_beq heq ▸ List.mem_map_of_mem hj)
      rw [List.filter_cons, if_neg hne]
      exact ih h.2 hj

/-- A pending job is the only one awaited for its list. -/
theorem awaited_of_mem (ha : a.Consistent) {j : Job} (hj : j ∈ a.pending) :
    a.awaited j.target = [j] :=
  filter_target ha.owned hj

/-- After a step, what is left of the job is all that is awaited for its list. -/
theorem awaited_after_self (ha : a.Consistent) (hp : a.pending = earlier ++ job :: others)
    (he : e.WellFormed a.lists.length job.target) :
    (a.after (earlier ++ others) job e).awaited job.target = e.rest := by
  have hjob := ha.bounded job (mem_pending hp)
  have hrest : e.rest.filter (fun j => j.target == job.target) = e.rest :=
    List.filter_eq_self.2 fun j hj => beq_iff_eq.2 (he.target_rest hj)
  have hopened : e.opened.reverse.filter (fun j => j.target == job.target) = [] := by
    apply List.filter_eq_nil_iff.2
    intro j hj heq
    have hnew := (he.target_opened (List.mem_reverse.1 hj)).1
    have := eq_of_beq heq
    omega
  have hothers : (earlier ++ others).filter (fun j => j.target == job.target) = [] :=
    List.filter_eq_nil_iff.2 fun j hj heq => not_mem_others ha hp j hj (eq_of_beq heq)
  show (e.rest ++ (e.opened.reverse ++ (earlier ++ others))).filter _ = _
  rw [List.filter_append, List.filter_append, hrest, hopened, hothers, List.append_nil, List.append_nil]

/-- A step does not change what is awaited for another list. -/
theorem awaited_after_other (hp : a.pending = earlier ++ job :: others)
    (he : e.WellFormed a.lists.length job.target) {t : Nat} (ht : t < a.lists.length)
    (hne : t ≠ job.target) :
    (a.after (earlier ++ others) job e).awaited t = a.awaited t := by
  have hrest : e.rest.filter (fun j => j.target == t) = [] := by
    refine List.filter_eq_nil_iff.2 fun j hj heq => hne ?_
    rw [← eq_of_beq heq, he.target_rest hj]
  have hopened : e.opened.reverse.filter (fun j => j.target == t) = [] := by
    apply List.filter_eq_nil_iff.2
    intro j hj heq
    have hnew := (he.target_opened (List.mem_reverse.1 hj)).1
    have := eq_of_beq heq
    omega
  have hjob : ¬ (job.target == t) = true := fun heq => hne (eq_of_beq heq).symm
  show (e.rest ++ (e.opened.reverse ++ (earlier ++ others))).filter _ = a.pending.filter _
  rw [List.filter_append, List.filter_append, hrest, hopened, hp, List.filter_append,
    List.filter_append, List.filter_cons, if_neg hjob]
  rfl

end Awaited

/-! ### Steps -/

section Step

variable {rules : RuleIndex} {limit : Int} {a : Assembly} {earlier others : List Job} {job : Job}
  {items : List Content}

theorem resolution_of_row (hrow : job.fragments = .row items) :
    job.resolution rules limit = Resolution.resolve rules limit job.depth items := by
  rw [Job.resolution, hrow]
  rfl

/-- **Contents that agree with an assembly after a step agree with it before the step.** -/
theorem settles_of_after (ha : a.Consistent) (hp : a.pending = earlier ++ job :: others)
    (hrow : job.fragments = .row items) (hraw : Content.areFragments items = true)
    {content : Nat → List Content}
    (h : (a.after (earlier ++ others) job
      (effect rules limit a.lists.length job.target job.depth items)).Settles rules limit content) :
    a.Settles rules limit content := by
  have he := effect_wellFormed rules limit a.lists.length job.target job.depth hraw
  have hafter := ha.after hp he
  generalize heff : effect rules limit a.lists.length job.target job.depth items = e at h he hafter
  intro t ps hps
  by_cases htarget : t = job.target
  · subst htarget
    -- the pieces added and the job left are together what the job resolves to
    have hnew : ∀ j ∈ e.opened, content j.target = (j.resolution rules limit).contents := by
      intro j hj
      obtain ⟨hle, hlt⟩ := he.target_opened hj
      have hj' : j ∈ (a.after (earlier ++ others) job e).pending :=
        List.mem_append_right _ (List.mem_append_left _ (List.mem_reverse.2 hj))
      have hcontent := h j.target [] (add_new hle hlt)
      rw [awaited_of_mem hafter hj'] at hcontent
      rw [hcontent]
      exact List.append_nil _
    subst heff
    have hfill := fill_effect hraw content hnew
    have hcontent := h job.target _ (add_self hps)
    rw [awaited_after_self ha hp he, List.map_append, List.append_assoc, hfill,
      ← resolution_of_row hrow] at hcontent
    rw [hcontent, awaited_of_mem ha (mem_pending hp), List.flatMap_singleton]
  · have hlt : t < a.lists.length := (List.getElem?_eq_some_iff.1 hps).1
    have hcontent := h t ps (add_other htarget hps)
    rwa [awaited_after_other hp he hlt htarget] at hcontent

theorem any_pending (hp : a.pending = earlier ++ job :: others) (flag : Job → Bool) :
    a.pending.any flag = (flag job || (earlier ++ others).any flag) := by
  rw [hp, List.any_append, List.any_cons, List.any_append, Bool.or_left_comm]

theorem any_pending_after (others : List Job) (e : Effect) (flag : Job → Bool) :
    (a.after others job e).pending.any flag = (e.jobs.any flag || others.any flag) := by
  show (e.rest ++ (e.opened.reverse ++ others)).any flag = ((e.rest ++ e.opened).any flag || _)
  rw [List.any_append, List.any_append, List.any_append, List.any_reverse, Bool.or_assoc]

theorem willCut_after (hp : a.pending = earlier ++ job :: others)
    (hrow : job.fragments = .row items) (hraw : Content.areFragments items = true) :
    (a.after (earlier ++ others) job
      (effect rules limit a.lists.length job.target job.depth items)).willCut rules limit =
      a.willCut rules limit := by
  rw [willCut, willCut, any_pending hp, any_pending_after, resolution_of_row hrow, ← cut_effect hraw]
  show ((a.cut || _) || (_ || _)) = (a.cut || ((_ || _) || _))
  rw [Bool.or_assoc, Bool.or_assoc]

theorem willFail_after (hp : a.pending = earlier ++ job :: others)
    (hrow : job.fragments = .row items) (hraw : Content.areFragments items = true) :
    (a.after (earlier ++ others) job
      (effect rules limit a.lists.length job.target job.depth items)).willFail rules limit =
      a.willFail rules limit := by
  rw [willFail, willFail, any_pending hp, any_pending_after, resolution_of_row hrow,
    ← fault_effect hraw]
  show ((Option.or a.fault _).isSome || (_ || _)) = (a.fault.isSome || ((_ || _) || _))
  rw [Option.isSome_or, Bool.or_assoc, Bool.or_assoc]

/-- **Every step leaves less to do.** -/
theorem load_after (hp : a.pending = earlier ++ job :: others)
    (hrow : job.fragments = .row items) (hraw : Content.areFragments items = true) :
    (a.after (earlier ++ others) job
      (effect rules limit a.lists.length job.target job.depth items)).load < a.load := by
  have hless := load_effect rules limit a.lists.length job.target job.depth hraw
  rw [← hrow] at hless
  generalize effect rules limit a.lists.length job.target job.depth items = e at hless ⊢
  have hsum : (e.jobs.map fun j => stepBound j.fragments).sum =
      (e.rest.map fun j => stepBound j.fragments).sum +
        (e.opened.map fun j => stepBound j.fragments).sum := by
    rw [Effect.jobs, List.map_append, List.sum_append]
  have hrev : (e.opened.reverse.map fun j => stepBound j.fragments).sum =
      (e.opened.map fun j => stepBound j.fragments).sum := by
    rw [List.map_reverse, List.sum_reverse]
  rw [load, load, hp]
  show ((e.rest ++ (e.opened.reverse ++ (earlier ++ others))).map _).sum < _
  simp only [List.map_append, List.map_cons, List.sum_append, List.sum_cons, hrev]
  omega

/-- **What a step guarantees.** -/
theorem leads_stepAt (ha : a.Consistent) {b : Assembly} {i : Nat}
    (h : a.stepAt rules limit i = some b) : Leads rules limit a b ∧ b.load < a.load := by
  obtain ⟨earlier, job, others, items, hp, hrow, hraw, rfl⟩ := stepAt_cases ha h
  have he := effect_wellFormed rules limit a.lists.length job.target job.depth hraw
  refine ⟨⟨ha.after hp he, fun content => settles_of_after ha hp hrow hraw, ?_, ?_⟩, ?_⟩
  · exact willCut_after hp hrow hraw
  · exact willFail_after hp hrow hraw
  · exact load_after hp hrow hraw

end Step

/-! ### Runs -/

section Run

variable {rules : RuleIndex} {limit : Int} {a b c : Assembly}

theorem Leads.refl (ha : a.Consistent) : Leads rules limit a a :=
  ⟨ha, fun _ h => h, rfl, rfl⟩

theorem Leads.trans (hab : Leads rules limit a b) (hbc : Leads rules limit b c) :
    Leads rules limit a c where
  consistent := hbc.consistent
  settles := fun content h => hab.settles content (hbc.settles content h)
  cut := hbc.cut.trans hab.cut
  fail := hbc.fail.trans hab.fail

/-- **What a run guarantees, and that it cannot be longer than there is to do.** -/
theorem leads_follow (ha : a.Consistent) {choices : List Nat}
    (h : follow rules limit choices a = some b) :
    Leads rules limit a b ∧ choices.length + b.load ≤ a.load := by
  induction choices generalizing a with
  | nil =>
    have heq : a = b := Option.some.inj h
    subst heq
    refine ⟨Leads.refl ha, ?_⟩
    show 0 + a.load ≤ a.load
    omega
  | cons i choices ih =>
    obtain ⟨next, hstep, hrest⟩ := Option.bind_eq_some_iff.1 h
    obtain ⟨hfirst, hless⟩ := leads_stepAt ha hstep
    obtain ⟨hlater, hbound⟩ := ih hfirst.consistent hrest
    refine ⟨hfirst.trans hlater, ?_⟩
    rw [List.length_cons]
    omega

theorem exists_stepAt (rules : RuleIndex) (limit : Int) {i : Nat} (h : i < a.pending.length) :
    ∃ b, a.stepAt rules limit i = some b := by
  rw [stepAt, List.getElem?_eq_getElem h]
  exact ⟨_, rfl⟩

/-- Doing the foremost job again and again is a run that always chooses the first place. It stops only
when there is no job left or the steps are used up. -/
theorem run_follow (rules : RuleIndex) (limit : Int) (steps : Nat) (a : Assembly) :
    ∃ n, follow rules limit (List.replicate n 0) a = some (run rules limit steps a) ∧
      ((run rules limit steps a).pending = [] ∨ n = steps) := by
  induction steps generalizing a with
  | zero => exact ⟨0, rfl, .inr rfl⟩
  | succ steps ih =>
    rw [run]
    cases hstep : a.stepAt rules limit 0 with
    | none =>
      refine ⟨0, rfl, .inl ?_⟩
      cases hpending : a.pending with
      | nil => rfl
      | cons j jobs =>
        have hlt : 0 < a.pending.length := by rw [hpending]; exact Nat.succ_pos _
        obtain ⟨b, hb⟩ := exists_stepAt rules limit hlt
        rw [hstep] at hb
        cases hb
    | some b =>
      obtain ⟨n, hfollow, hend⟩ := ih b
      refine ⟨n + 1, ?_, ?_⟩
      · show (a.stepAt rules limit 0).bind (follow rules limit (List.replicate n 0)) = _
        rw [hstep]
        exact hfollow
      · rcases hend with hdone | rfl
        · exact .inl hdone
        · exact .inr rfl

theorem stepBound_pos (fragments : Fragments) : 0 < stepBound fragments := by
  cases fragments with
  | row items =>
    show 0 < 1 + _ + _
    omega
  | _ => exact Nat.one_pos

theorem pending_of_load (h : a.load = 0) : a.pending = [] := by
  cases hp : a.pending with
  | nil => rfl
  | cons j jobs =>
    rw [load, hp, List.map_cons, List.sum_cons] at h
    have := stepBound_pos j.fragments
    omega

/-! ### Reading the result -/

theorem drop_finish (k n : Nat) (lists : List (List Piece)) :
    (finish n lists).drop k = finish (n + k) (lists.drop k) := by
  induction k generalizing n lists with
  | zero => rfl
  | succ k ih =>
    cases lists with
    | nil => rfl
    | cons ps lists =>
      rw [finish, List.drop_succ_cons, List.drop_succ_cons, ih, Nat.add_right_comm, Nat.add_assoc]

theorem finish_getD {lists : List (List Piece)} {t : Nat} {ps : List Piece}
    (h : lists[t]? = some ps) (n : Nat) :
    (finish n lists).getD t [] =
      ps.map (finishPiece (n + t + 1) (finish (n + t + 1) (lists.drop (t + 1)))) := by
  induction t generalizing lists n with
  | zero =>
    cases lists with
    | nil => cases h
    | cons qs lists =>
      cases h
      rfl
  | succ t ih =>
    cases lists with
    | nil => cases h
    | cons qs lists =>
      rw [finish, List.getD_cons_succ, List.drop_succ_cons, ih h (n + 1)]
      rw [show n + 1 + t + 1 = n + (t + 1) + 1 by omega]

theorem finishPiece_eq_fill {lists : List (List Piece)} {t : Nat} {p : Piece}
    (h : ∀ n, p.list? = some n → t < n) :
    finishPiece (t + 1) (finish (t + 1) (lists.drop (t + 1))) p =
      fill (fun n => (finish 0 lists).getD n []) p := by
  have hdrop : finish (t + 1) (lists.drop (t + 1)) = (finish 0 lists).drop (t + 1) := by
    rw [drop_finish, Nat.zero_add]
  have hget : ∀ n, t < n →
      ((finish 0 lists).drop (t + 1)).getD (n - (t + 1)) [] = (finish 0 lists).getD n [] := by
    intro n hn
    rw [List.getD_eq_getElem?_getD, List.getD_eq_getElem?_getD, List.getElem?_drop,
      Nat.add_sub_cancel' hn]
  rw [hdrop]
  cases p with
  | whole c => rfl
  | span opening n => rw [finishPiece, hget n (h n rfl), fill]
  | link url n => rw [finishPiece, hget n (h n rfl), fill]

/-- When no job is left, the finished lists agree with the assembly. -/
theorem settles_finish (ha : a.Consistent) (hdone : a.pending = []) :
    a.Settles rules limit fun t => (finish 0 a.lists).getD t [] := by
  intro t ps hps
  have hawaited : a.awaited t = [] := by
    rw [awaited, hdone]
    rfl
  show (finish 0 a.lists).getD t [] = _
  rw [finish_getD hps, hawaited, List.flatMap_nil, List.append_nil, Nat.zero_add]
  exact List.map_congr_left fun p hp => finishPiece_eq_fill fun n hn => (ha.later t ps hps p hp n hn).1

/-! ### From the start -/

variable {fragments : List Content}

theorem consistent_start (hf : Content.areFragments fragments = true) :
    (start (.row fragments)).Consistent where
  owned := List.nodup_cons.2 ⟨List.not_mem_nil, List.nodup_nil⟩
  bounded := fun j hj => by
    cases List.mem_singleton.1 hj
    exact Nat.one_pos
  raw := fun j hj => by
    cases List.mem_singleton.1 hj
    exact hf
  later := fun t ps hps p hp => by
    cases t with
    | zero =>
      cases hps
      cases hp
    | succ t => cases hps
  fault := .inl rfl

/-- **A run from the start with no job left has the recursive resolution.** -/
theorem contents_of_leads (h : Leads rules limit (start (.row fragments)) a) (hdone : a.pending = []) :
    a.contents = (Resolution.resolve rules limit 0 fragments).contents ∧
      a.cut = (Resolution.resolve rules limit 0 fragments).cut ∧
      a.fault = if (Resolution.resolve rules limit 0 fragments).isFaulty rules then some .notText
        else none := by
  have hcontents := h.settles _ (settles_finish h.consistent hdone) 0 [] rfl
  have hcut := h.cut
  have hfail := h.fail
  rw [willCut, hdone, List.any_nil, Bool.or_false] at hcut
  rw [willFail, hdone, List.any_nil, Bool.or_false] at hfail
  have hstart : (start (.row fragments)).willFail rules limit =
      (Resolution.resolve rules limit 0 fragments).isFaulty rules := Bool.or_false _
  refine ⟨?_, hcut.trans (Bool.or_false _), ?_⟩
  · rw [contents, List.headD_eq_getD]
    exact hcontents.trans (List.append_nil _)
  · rw [hstart] at hfail
    rw [← hfail]
    rcases h.consistent.fault with hfault | hfault
    · rw [hfault]
      rfl
    · rw [hfault]
      rfl

/-- The steps allowed suffice. -/
theorem pending_build (hf : Content.areFragments fragments = true) :
    (build rules limit (.row fragments)).pending = [] := by
  obtain ⟨n, hfollow, hend⟩ := run_follow rules limit (stepBound (.row fragments)) (start (.row fragments))
  rcases hend with hdone | rfl
  · exact hdone
  · apply pending_of_load
    have hbound := (leads_follow (consistent_start hf) hfollow).2
    rw [List.length_replicate] at hbound
    have hload : (start (.row fragments)).load = stepBound (.row fragments) := rfl
    show (run rules limit _ _).load = 0
    omega

theorem leads_build (rules : RuleIndex) (limit : Int) (hf : Content.areFragments fragments = true) :
    Leads rules limit (start (.row fragments)) (build rules limit (.row fragments)) := by
  obtain ⟨n, hfollow, -⟩ := run_follow rules limit (stepBound (.row fragments)) (start (.row fragments))
  exact (leads_follow (consistent_start hf) hfollow).1

/-- **The resolution of fragments from pending jobs is the recursive one**, unless that has a span whose
closing delimiter is unusable. -/
theorem resolve_row (rules : RuleIndex) (limit : Int) (hf : Content.areFragments fragments = true) :
    resolve rules limit (.row fragments) =
      if (Resolution.resolve rules limit 0 fragments).isFaulty rules then .error .notText
      else .ok (Resolution.resolve rules limit 0 fragments) := by
  obtain ⟨hcontents, hcut, hfault⟩ :=
    contents_of_leads (leads_build rules limit hf) (pending_build hf)
  rw [resolve, hcontents, hcut, hfault]
  cases (Resolution.resolve rules limit 0 fragments).isFaulty rules <;> rfl

/-- **Whatever the order in which the pending jobs are done**, no two of them are ever for one list,
there is an end, and the end is the recursive resolution; it has a fault just if that has a span whose
closing delimiter is unusable. Doing the foremost job again and again is one of these orders, so
`Assembly.resolve` is the recursive resolution too. -/
theorem any_order_resolves (rules : RuleIndex) (limit : Int)
    (hf : Content.areFragments fragments = true) :
    (∀ choices a, follow rules limit choices (start (.row fragments)) = some a →
      (a.pending.map Job.target).Nodup ∧
      choices.length ≤ stepBound (.row fragments) ∧
      (∀ i, i < a.pending.length → ∃ b, a.stepAt rules limit i = some b) ∧
      (a.pending = [] →
        a.contents = (Resolution.resolve rules limit 0 fragments).contents ∧
        a.cut = (Resolution.resolve rules limit 0 fragments).cut ∧
        a.fault = if (Resolution.resolve rules limit 0 fragments).isFaulty rules
          then some .notText else none)) ∧
    (∃ n, follow rules limit (List.replicate n 0) (start (.row fragments)) =
      some (build rules limit (.row fragments))) ∧
    (build rules limit (.row fragments)).pending = [] ∧
    resolve rules limit (.row fragments) =
      (if (Resolution.resolve rules limit 0 fragments).isFaulty rules then .error .notText
      else .ok (Resolution.resolve rules limit 0 fragments)) ∧
    (rules.unusable = [] → (Resolution.resolve rules limit 0 fragments).isFaulty rules = false) := by
  refine ⟨fun choices a h => ?_, ?_, pending_build hf, resolve_row rules limit hf, ?_⟩
  · obtain ⟨hleads, hbound⟩ := leads_follow (consistent_start hf) h
    refine ⟨hleads.consistent.owned, ?_, fun i hi => exists_stepAt rules limit hi, contents_of_leads hleads⟩
    have hload : (start (.row fragments)).load = stepBound (.row fragments) := rfl
    omega
  · obtain ⟨n, hfollow, -⟩ :=
      run_follow rules limit (stepBound (.row fragments)) (start (.row fragments))
    exact ⟨n, hfollow⟩
  · intro h
    exact Resolution.isFaulty_of_usable h _

/-- A span around a link: every order ends without a fault and without meeting the limit. -/
theorem any_order_resolves_span_around_link :
    Content.areFragments [.text "a *b".toList, .link (.str "u".toList) [.text "c".toList],
      .text "d* e".toList] = true ∧
    ∀ choices a,
      follow { ruleNames := [], closers := Dict.empty.set ['*'] ['*'] } 16 choices
        (start (.row [.text "a *b".toList, .link (.str "u".toList) [.text "c".toList],
          .text "d* e".toList])) = some a →
      a.pending = [] → a.cut = false ∧ a.fault = none := by
  refine ⟨rfl, fun choices a h hdone => ?_⟩
  have hfragments : Content.areFragments [.text "a *b".toList,
      .link (.str "u".toList) [.text "c".toList], .text "d* e".toList] = true := rfl
  have hall := any_order_resolves { ruleNames := [], closers := Dict.empty.set ['*'] ['*'] } 16
    hfragments
  obtain ⟨-, hcut, hfault⟩ := (hall.1 choices a h).2.2.2 hdone
  rw [hall.2.2.2.2 rfl] at hfault
  refine ⟨hcut.trans ?_, hfault⟩
  decide +kernel

end Run

end Assembly

end ProseMarkup
