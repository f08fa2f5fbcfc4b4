import ProseMarkup.Proofs.JobEffect
import ProseMarkup.Proofs.Resolution

/-!
# What a job amounts to

Once everything that a job leaves has been resolved, the pieces it added are the resolution of the job.

* `Fragments.resolution`, `Job.resolution` : the recursive resolution of what a job is given.
* `Resolution.isFaulty` : whether a resolution has a span with an unusable delimiter.
* `Assembly.resolve_unfold` : the items found, resolved, and then the resolution of what is left.
* `Assembly.fill_effect`, `Assembly.cut_effect`, `Assembly.fault_effect` : the effect of a job against its
  resolution.
* `Assembly.load_effect` : a job is more to do than all the jobs it leaves.
-/

namespace ProseMarkup

/-! ### The resolution of a job -/

/-- The recursive resolution of fragments; nothing for those that are no row. -/
def Fragments.resolution (rules : RuleIndex) (limit : Int) (depth : Nat) : Fragments → Resolution
  | .row items => Resolution.resolve rules limit depth items
  | _ => ⟨[], false⟩

/-- Whether fragments are a row of raw texts and links alone. -/
def Fragments.areRaw : Fragments → Bool
  | .row items => Content.areFragments items
  | _ => false

theorem Fragments.exists_row_of_areRaw {fragments : Fragments} (h : fragments.areRaw = true) :
    ∃ items, fragments = .row items ∧ Content.areFragments items = true := by
  cases fragments with
  | row items => exact ⟨items, rfl, h⟩
  | _ => cases h

/-- What a job resolves to. -/
def Job.resolution (rules : RuleIndex) (limit : Int) (job : Job) : Resolution :=
  job.fragments.resolution rules limit job.depth

/-- An item found at a level of nesting, with its contents resolved. -/
def Finding.resolved (rules : RuleIndex) (limit : Int) (depth : Nat) : Finding → Content
  | .whole c => c
  | .span opening fragments =>
    .span opening (Resolution.resolve rules limit (depth + 1) fragments).contents
  | .link url fragments => .link url (fragments.resolution rules limit (depth + 1)).contents

/-- Whether `flag` holds of the resolution of what an item found encloses. -/
def Finding.inside (rules : RuleIndex) (limit : Int) (depth : Nat) (flag : Resolution → Bool)
    (f : Finding) : Bool :=
  f.inner.any fun fragments => flag (fragments.resolution rules limit (depth + 1))

/-- Whether items have a span, at any depth, whose closing delimiter is unusable. -/
def Content.haveUnusable (rules : RuleIndex) (cs : List Content) : Bool :=
  (allOpenings cs).any rules.isUnusable

/-- Whether a resolution has a span whose closing delimiter is unusable. -/
def Resolution.isFaulty (rules : RuleIndex) (r : Resolution) : Bool :=
  Content.haveUnusable rules r.contents

/-- If every closing delimiter is usable, no resolution has a fault. -/
theorem Resolution.isFaulty_of_usable {rules : RuleIndex} (h : rules.unusable = []) (r : Resolution) :
    r.isFaulty rules = false := by
  apply List.any_eq_false.2
  intro opening _
  rw [RuleIndex.isUnusable, h]
  exact Bool.false_ne_true

namespace Assembly

variable (rules : RuleIndex) (limit : Int)

/-- A piece as content, given the content of every list. -/
def fill (content : Nat → List Content) : Piece → Content
  | .whole c => c
  | .span opening list => .span opening (content list)
  | .link url list => .link url (content list)

/-- Pieces filled with what their jobs resolve to are the items found, resolved. -/
theorem map_fill_pieces (content : Nat → List Content) (depth next : Nat) (found : List Finding)
    (h : ∀ j ∈ openedJobs (depth + 1) next found,
      content j.target = (j.resolution rules limit).contents) :
    (pieces next found).map (fill content) = found.map (Finding.resolved rules limit depth) := by
  induction found generalizing next with
  | nil => rfl
  | cons f found ih =>
    rw [pieces, List.map_cons, List.map_cons]
    rw [openedJobs] at h
    cases f with
    | whole c =>
      show c :: (pieces next found).map (fill content) = _
      rw [ih next h]
      rfl
    | span opening items =>
      obtain ⟨hself, hrest⟩ := List.forall_mem_cons.1 h
      have hnext : content next = (Resolution.resolve rules limit (depth + 1) items).contents :=
        hself
      show Content.span opening (content next) :: _ = _
      rw [hnext, ← ih (next + 1) hrest]
      rfl
    | link url fragments =>
      obtain ⟨hself, hrest⟩ := List.forall_mem_cons.1 h
      have hnext : content next = (fragments.resolution rules limit (depth + 1)).contents := hself
      show Content.link url (content next) :: _ = _
      rw [hnext, ← ih (next + 1) hrest]
      rfl

/-! ### Resolution item by item -/

theorem inside_before (depth : Nat) (flag : Resolution → Bool) (span : Span.Found) (s : Text) :
    ((Resolution.before span s).map Finding.whole).any (Finding.inside rules limit depth flag) =
      false := by
  rw [List.any_map]
  exact List.any_eq_false.2 fun c _ => Bool.false_ne_true

/-- The items found, resolved, and then the resolution of what is left: the resolution of all. -/
theorem resolve_unfold {depth : Nat} (hd : ¬ limit ≤ depth) {items : List Content}
    (hf : Content.areFragments items = true) :
    Resolution.resolve rules limit depth items =
      ⟨(unfold rules items).1.map (Finding.resolved rules limit depth) ++
          (Resolution.resolve rules limit depth (unfold rules items).2).contents,
        (unfold rules items).1.any (Finding.inside rules limit depth Resolution.cut) ||
          (Resolution.resolve rules limit depth (unfold rules items).2).cut⟩ := by
  induction items with
  | nil =>
    rw [unfold, Resolution.resolve_nil rules hd]
    rfl
  | cons c later ih =>
    rw [Content.areFragments, Bool.and_eq_true] at hf
    have hlater := ih hf.2
    cases c with
    | text s =>
      rw [unfold]
      cases hspan : Span.find? rules s later with
      | none =>
        rw [Resolution.resolve_text_none rules hd hspan, hlater]
        rfl
      | some span =>
        rw [Resolution.resolve_text_some rules hd hspan]
        have hbefore : (Resolution.before span s).map
            (Finding.resolved rules limit depth ∘ Finding.whole) = Resolution.before span s :=
          List.map_id _
        simp only [List.map_append, List.map_map, hbefore, List.any_append, inside_before,
          Bool.false_or, List.append_assoc]
        show _ = Resolution.mk _ (((Resolution.resolve rules limit (depth + 1) _).cut || false) || _)
        rw [Bool.or_false]
        rfl
    | link url contents =>
      rw [unfold, Resolution.resolve_link rules hd, hlater]
      show _ = Resolution.mk _ (((Resolution.resolve rules limit (depth + 1) contents).cut || _) || _)
      rw [Bool.or_assoc]
      rfl
    | span opening contents => cases hf.1
    | foreign item => cases hf.1

/-! ### What is left to do -/

theorem inner_before (span : Span.Found) (s : Text) :
    ((Resolution.before span s).map Finding.whole).filterMap Finding.inner = [] := by
  rw [List.filterMap_map]
  exact List.filterMap_eq_nil_iff.2 fun c _ => rfl

/-- What items found begin, and what is left after them, are raw texts and links again. -/
theorem areRaw_unfold {items : List Content} (hf : Content.areFragments items = true) :
    (∀ fragments ∈ (unfold rules items).1.filterMap Finding.inner, fragments.areRaw = true) ∧
      Content.areFragments (unfold rules items).2 = true := by
  induction items with
  | nil => exact ⟨fun _ h => absurd h List.not_mem_nil, rfl⟩
  | cons c later ih =>
    have hall := hf
    rw [Content.areFragments, Bool.and_eq_true] at hf
    have hlater := ih hf.2
    cases c with
    | text s =>
      rw [unfold]
      cases hspan : Span.find? rules s later with
      | none => exact hlater
      | some span =>
        rw [Span.areFragments_cut hspan, Bool.and_eq_true] at hall
        refine ⟨fun fragments hmem => ?_, hall.2⟩
        rw [List.filterMap_append, inner_before, List.nil_append] at hmem
        cases List.mem_singleton.1 hmem
        exact hall.1
    | link url contents =>
      rw [unfold]
      exact ⟨List.forall_mem_cons.2 ⟨hf.1, hlater.1⟩, hlater.2⟩
    | span opening contents => cases hf.1
    | foreign item => cases hf.1

/-- What is left of a job, for its own list. -/
def restLoad (rest : List Content) : Nat :=
  if rest.isEmpty then 0 else stepBound (.row rest)

theorem restLoad_le (rest : List Content) : restLoad rest ≤ stepBound (.row rest) := by
  rw [restLoad]
  split
  · exact Nat.zero_le _
  · exact Nat.le_refl _

/-- All that items found leave to do is less than there was: a span uses up a character, which counts
for two, and a link is opened once. -/
theorem load_unfold {items : List Content} (hf : Content.areFragments items = true) :
    (((unfold rules items).1.filterMap Finding.inner).map stepBound).sum +
        restLoad (unfold rules items).2 < stepBound (.row items) := by
  induction items with
  | nil => exact Nat.one_pos
  | cons c later ih =>
    rw [Content.areFragments, Bool.and_eq_true] at hf
    have hlater := ih hf.2
    cases c with
    | text s =>
      rw [unfold]
      cases hspan : Span.find? rules s later with
      | none =>
        show (((unfold rules later).1.filterMap Finding.inner).map stepBound).sum +
          restLoad (unfold rules later).2 < _
        simp only [stepBound, Content.linkCounts, Content.linkCount, Content.charCounts] at hlater ⊢
        omega
      | some span =>
        have hpos := (Span.find?_bounds hspan).1
        have hchars := Span.charCounts_cut hspan
        have hlinks := Span.linkCounts_cut hspan
        have hrest := restLoad_le (span.rest (.text s :: later))
        simp only [List.filterMap_append, inner_before, List.nil_append]
        show stepBound (.row (span.contents (.text s :: later))) + 0 + restLoad _ < _
        simp only [stepBound] at hrest ⊢
        omega
    | link url contents =>
      rw [unfold]
      show stepBound (.row contents) +
        (((unfold rules later).1.filterMap Finding.inner).map stepBound).sum +
        restLoad (unfold rules later).2 < _
      simp only [stepBound, Content.linkCounts, Content.linkCount, Content.charCounts,
        Content.charCount] at hlater ⊢
      omega
    | span opening contents => cases hf.1
    | foreign item => cases hf.1

/-! ### Faults -/

@[simp] theorem haveUnusable_span (opening : Text) (cs ds : List Content) :
    Content.haveUnusable rules (.span opening cs :: ds) =
      (rules.isUnusable opening || (Content.haveUnusable rules cs || Content.haveUnusable rules ds)) := by
  simp [Content.haveUnusable]

@[simp] theorem haveUnusable_link (url : Value) (cs ds : List Content) :
    Content.haveUnusable rules (.link url cs :: ds) =
      (Content.haveUnusable rules cs || Content.haveUnusable rules ds) := by
  simp [Content.haveUnusable]

@[simp] theorem haveUnusable_before (span : Span.Found) (s : Text) (cs : List Content) :
    Content.haveUnusable rules (Resolution.before span s ++ cs) = Content.haveUnusable rules cs := by
  simp [Content.haveUnusable]

@[simp] theorem findingFault_before (span : Span.Found) (s : Text) :
    ((Resolution.before span s).map Finding.whole).findSome? (findingFault? rules) = none := by
  rw [List.findSome?_map]
  exact List.findSome?_eq_none_iff.2 fun c _ => rfl

/-- A span with an unusable delimiter is found, or lies inside what is found, or in what is left. -/
theorem isFaulty_unfold {depth : Nat} (hd : ¬ limit ≤ depth) {items : List Content}
    (hf : Content.areFragments items = true) :
    (((unfold rules items).1.findSome? (findingFault? rules)).isSome ||
        ((unfold rules items).1.any
          (Finding.inside rules limit depth (Resolution.isFaulty rules)) ||
        (Resolution.resolve rules limit depth (unfold rules items).2).isFaulty rules)) =
      (Resolution.resolve rules limit depth items).isFaulty rules := by
  induction items with
  | nil => rfl
  | cons c later ih =>
    rw [Content.areFragments, Bool.and_eq_true] at hf
    have hlater := ih hf.2
    cases c with
    | text s =>
      rw [unfold]
      cases hspan : Span.find? rules s later with
      | none =>
        rw [Resolution.resolve_text_none rules hd hspan]
        exact hlater
      | some span =>
        have hopening : ∀ items, (findingFault? rules (.span span.opening items)).isSome =
            rules.isUnusable span.opening := by
          intro items
          rw [findingFault?]
          cases rules.isUnusable span.opening <;> rfl
        rw [Resolution.resolve_text_some rules hd hspan, Resolution.isFaulty, Resolution.isFaulty,
          haveUnusable_before, haveUnusable_span, List.findSome?_append, findingFault_before,
          Option.none_or, List.findSome?_singleton, hopening, List.any_append, inside_before,
          Bool.false_or, List.any_cons, List.any_nil, Bool.or_false]
        rfl
    | link url contents =>
      have hlink : (Resolution.resolve rules limit depth (.link url contents :: later)).isFaulty rules =
          ((Resolution.resolve rules limit (depth + 1) contents).isFaulty rules ||
            (Resolution.resolve rules limit depth later).isFaulty rules) := by
        rw [Resolution.resolve_link rules hd]
        exact haveUnusable_link rules _ _ _
      rw [hlink, ← hlater, unfold, List.any_cons, Bool.or_assoc, Bool.or_left_comm]
      rfl
    | span opening contents => cases hf.1
    | foreign item => cases hf.1

/-! ### The jobs that a job leaves -/

theorem openedJobs_any (depth next : Nat) (flag : Resolution → Bool) (found : List Finding) :
    (openedJobs (depth + 1) next found).any (fun j => flag (j.resolution rules limit)) =
      found.any (Finding.inside rules limit depth flag) := by
  induction found generalizing next with
  | nil => rfl
  | cons f found ih =>
    rw [openedJobs, List.any_cons, Finding.inside]
    cases f.inner with
    | none => exact ih next
    | some fragments =>
      rw [List.any_cons, ih (next + 1)]
      rfl

theorem restJobs_contents {depth : Nat} (hd : ¬ limit ≤ depth) (target : Nat)
    (rest : List Content) :
    (restJobs target depth rest).flatMap (fun j => (j.resolution rules limit).contents) =
      (Resolution.resolve rules limit depth rest).contents := by
  cases rest with
  | nil => rw [Resolution.resolve_nil rules hd]; rfl
  | cons c rest => exact List.append_nil _

theorem restJobs_any {depth : Nat} (hd : ¬ limit ≤ depth) (target : Nat)
    {flag : Resolution → Bool} (hflag : flag ⟨[], false⟩ = false) (rest : List Content) :
    (restJobs target depth rest).any (fun j => flag (j.resolution rules limit)) =
      flag (Resolution.resolve rules limit depth rest) := by
  cases rest with
  | nil => rw [Resolution.resolve_nil rules hd, hflag]; rfl
  | cons c rest => exact Bool.or_false _

theorem restJobs_load (target depth : Nat) (rest : List Content) :
    ((restJobs target depth rest).map fun j => stepBound j.fragments).sum = restLoad rest := by
  cases rest with
  | nil => rfl
  | cons c rest => rfl

/-! ### The effect of a job against its resolution -/

variable {rules limit} {next target depth : Nat} {items : List Content}

theorem effect_of_le (h : limit ≤ depth) :
    effect rules limit next target depth items = ⟨items.map .whole, [], [], true, none⟩ :=
  if_pos h

theorem effect_of_lt (h : ¬ limit ≤ depth) :
    effect rules limit next target depth items =
      foundEffect rules next target depth (unfold rules items).1 (unfold rules items).2 :=
  if_neg h

/-- The jobs that a job leaves are for raw texts and links again. -/
theorem areRaw_effect (rules : RuleIndex) (limit : Int) (next target depth : Nat)
    (hf : Content.areFragments items = true) :
    ∀ j ∈ (effect rules limit next target depth items).jobs, j.fragments.areRaw = true := by
  by_cases hd : limit ≤ depth
  · rw [effect_of_le hd]
    intro j hj
    exact absurd hj List.not_mem_nil
  · rw [effect_of_lt hd]
    obtain ⟨hfound, hrest⟩ := areRaw_unfold rules hf
    intro j hj
    rcases List.mem_append.1 hj with hj | hj
    · replace hj : j ∈ restJobs target depth (unfold rules items).2 := hj
      rw [restJobs] at hj
      split at hj
      · cases hj
      · cases List.mem_singleton.1 hj
        exact hrest
    · apply hfound
      rw [← openedJobs_fragments (depth + 1) next]
      exact List.mem_map_of_mem hj

/-- **A job is more to do than all the jobs it leaves.** -/
theorem load_effect (rules : RuleIndex) (limit : Int) (next target depth : Nat)
    (hf : Content.areFragments items = true) :
    ((effect rules limit next target depth items).jobs.map fun j => stepBound j.fragments).sum <
      stepBound (.row items) := by
  by_cases hd : limit ≤ depth
  · rw [effect_of_le hd]
    show 0 < 1 + _ + _
    omega
  · rw [effect_of_lt hd]
    have hload := load_unfold rules hf
    have hopened : ((openedJobs (depth + 1) next (unfold rules items).1).map fun j =>
        stepBound j.fragments) = ((unfold rules items).1.filterMap Finding.inner).map stepBound := by
      rw [← openedJobs_fragments (depth + 1) next, List.map_map]
      rfl
    show (((restJobs _ _ _) ++ openedJobs _ _ _).map _).sum < _
    rw [List.map_append, List.sum_append, hopened, restJobs_load]
    omega

/-- **The pieces that a job adds, filled with what its new jobs resolve to, and followed by the
resolution of what is left, are the resolution of the job.** -/
theorem fill_effect (hf : Content.areFragments items = true) (content : Nat → List Content)
    (h : ∀ j ∈ (effect rules limit next target depth items).opened,
      content j.target = (j.resolution rules limit).contents) :
    (effect rules limit next target depth items).pieces.map (fill content) ++
        (effect rules limit next target depth items).rest.flatMap
          (fun j => (j.resolution rules limit).contents) =
      (Resolution.resolve rules limit depth items).contents := by
  by_cases hd : limit ≤ depth
  · rw [effect_of_le hd, Resolution.resolve_of_le rules hd]
    show (items.map Piece.whole).map (fill content) ++ [] = items
    rw [List.map_map, List.append_nil]
    exact List.map_id items
  · rw [effect_of_lt hd] at h ⊢
    show (pieces next (unfold rules items).1).map (fill content) ++
      (restJobs target depth (unfold rules items).2).flatMap _ = _
    rw [map_fill_pieces rules limit content depth next _ h, restJobs_contents rules limit hd,
      resolve_unfold rules limit hd hf]

theorem cut_effect (hf : Content.areFragments items = true) :
    ((effect rules limit next target depth items).cut ||
      (effect rules limit next target depth items).jobs.any
        fun j => (j.resolution rules limit).cut) =
      (Resolution.resolve rules limit depth items).cut := by
  by_cases hd : limit ≤ depth
  · rw [effect_of_le hd, Resolution.resolve_of_le rules hd]
    rfl
  · rw [effect_of_lt hd, resolve_unfold rules limit hd hf]
    show (false || ((restJobs _ _ _) ++ openedJobs _ _ _).any _) = _
    rw [Bool.false_or, List.any_append, openedJobs_any rules limit depth next Resolution.cut,
      restJobs_any rules limit hd target rfl, Bool.or_comm]

theorem fault_effect (hf : Content.areFragments items = true) :
    ((effect rules limit next target depth items).fault.isSome ||
      (effect rules limit next target depth items).jobs.any
        fun j => (j.resolution rules limit).isFaulty rules) =
      (Resolution.resolve rules limit depth items).isFaulty rules := by
  by_cases hd : limit ≤ depth
  · rw [effect_of_le hd, Resolution.resolve_of_le rules hd, Resolution.isFaulty,
      Content.haveUnusable, Content.allOpenings_of_areFragments hf]
    rfl
  · rw [effect_of_lt hd, ← isFaulty_unfold rules limit hd hf]
    show (_ || ((restJobs _ _ _) ++ openedJobs _ _ _).any _) = _
    rw [List.any_append, openedJobs_any rules limit depth next (Resolution.isFaulty rules),
      restJobs_any rules limit hd target rfl]
    show (((unfold rules items).1.findSome? _).isSome || _) = _
    rw [Bool.or_comm ((unfold rules items).1.any _)]

end Assembly

end ProseMarkup
