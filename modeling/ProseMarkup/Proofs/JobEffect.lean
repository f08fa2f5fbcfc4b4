import ProseMarkup.Content.Assembly
import ProseMarkup.Proofs.Symbols

/-!
# What a job adds to an assembly

A job is done in one go: it adds pieces to its list, begins new lists with a job for each, and leaves at
most one job for its own list. Here this is written out as one value, the *effect* of a job.

* `Assembly.pieces`, `Assembly.openedJobs` : the pieces for items found, and the jobs for the lists they
  begin.
* `Assembly.Effect`, `Assembly.effect`, `Assembly.add` : what a job adds, and an assembly with it added.
* `Assembly.perform_row` : **doing a job is adding its effect**.
-/

namespace ProseMarkup

/-- The fragments of the list that an item found begins, if it begins one. -/
def Finding.inner : Finding → Option Fragments
  | .whole _ => none
  | .span _ fragments => some (.row fragments)
  | .link _ fragments => some fragments

/-- The piece for an item found, given the number of the list it begins. -/
def Finding.piece (next : Nat) : Finding → Piece
  | .whole c => .whole c
  | .span opening _ => .span opening next
  | .link url _ => .link url next

/-- The number of the list that a piece refers to, if it refers to one. -/
def Piece.list? : Piece → Option Nat
  | .whole _ => none
  | .span _ list => some list
  | .link _ list => some list

@[simp] theorem Finding.piece_list? (f : Finding) (next : Nat) :
    (f.piece next).list? = f.inner.map fun _ => next := by
  cases f <;> rfl

namespace Assembly

variable (rules : RuleIndex) (limit : Int)

/-! ### Effects -/

/-- The pieces for items found, the next new list having the number `next`. -/
def pieces : (next : Nat) → List Finding → List Piece
  | _, [] => []
  | next, f :: found =>
    f.piece next :: pieces (if f.inner.isSome then next + 1 else next) found

/-- The jobs for the lists that items found begin, in the order of their numbers. -/
def openedJobs (depth : Nat) : (next : Nat) → List Finding → List Job
  | _, [] => []
  | next, f :: found =>
    match f.inner with
    | none => openedJobs depth next found
    | some fragments => ⟨next, fragments, depth⟩ :: openedJobs depth (next + 1) found

/-- What is left for the list `target`: a job for the fragments that follow a span, if there are any. -/
def restJobs (target depth : Nat) (rest : List Content) : List Job :=
  if rest.isEmpty then [] else [⟨target, .row rest, depth⟩]

/-- What a job adds to an assembly. -/
structure Effect where
  /-- The pieces for its list. -/
  pieces : List Piece
  /-- The jobs for new lists, in the order of their numbers. -/
  opened : List Job
  /-- What is left for its own list: one job or none. -/
  rest : List Job
  cut : Bool
  fault : Option Fault

/-- All the jobs that a job leaves. -/
def Effect.jobs (e : Effect) : List Job :=
  e.rest ++ e.opened

/-- The effect of a job at level `depth` for the list `target` that finds items and leaves the
fragments `rest`, the next new list having the number `next`. -/
def foundEffect (next target depth : Nat) (found : List Finding) (rest : List Content) : Effect where
  pieces := pieces next found
  opened := openedJobs (depth + 1) next found
  rest := restJobs target depth rest
  cut := false
  fault := found.findSome? (findingFault? rules)

/-- The effect of a job for a row of fragments. -/
def effect (next target depth : Nat) (items : List Content) : Effect :=
  if limit ≤ depth then ⟨items.map .whole, [], [], true, none⟩
  else foundEffect rules next target depth (unfold rules items).1 (unfold rules items).2

/-- An assembly with an effect added for the list `target`. -/
def add (a : Assembly) (target : Nat) (e : Effect) : Assembly where
  lists := a.lists.modify target (· ++ e.pieces) ++ List.replicate e.opened.length []
  pending := e.rest ++ (e.opened.reverse ++ a.pending)
  cut := a.cut || e.cut
  fault := a.fault.or e.fault

theorem modify_append_of_lt {α : Type} (f : α → α) (xs ys : List α) {i : Nat} (h : i < xs.length) :
    (xs ++ ys).modify i f = xs.modify i f ++ ys := by
  induction xs generalizing i with
  | nil => exact absurd h (Nat.not_lt_zero i)
  | cons x xs ih =>
    cases i with
    | zero => rfl
    | succ i =>
      rw [List.cons_append, List.modify_succ_cons, List.modify_succ_cons, List.cons_append,
        ih (Nat.lt_of_succ_lt_succ h)]

theorem modify_append_nil (lists : List (List Piece)) (target : Nat) :
    lists.modify target (· ++ []) = lists := by
  rw [show (fun ps : List Piece => ps ++ []) = id from funext List.append_nil, List.modify_id]

/-- Pieces put at the end of a list in two goes. -/
@[simp] theorem modify_append_append (lists : List (List Piece)) (target : Nat) (ps qs : List Piece) :
    (lists.modify target (· ++ ps)).modify target (· ++ qs) =
      lists.modify target (· ++ (ps ++ qs)) := by
  rw [List.modify_modify_eq]
  congr 1
  funext xs
  exact List.append_assoc xs ps qs

/-- Adding a piece that refers to a new list, and then more: the new list comes first. -/
theorem modify_begin (lists : List (List Piece)) {target : Nat} (ht : target < lists.length)
    (p : Piece) (ps : List Piece) (k : Nat) :
    (lists.modify target (· ++ [p]) ++ [[]]).modify target (· ++ ps) ++ List.replicate k [] =
      lists.modify target (· ++ (p :: ps)) ++ List.replicate (k + 1) [] := by
  have hlt : target < (lists.modify target (· ++ [p])).length := by rwa [List.length_modify]
  simp [modify_append_of_lt _ _ _ hlt, List.replicate_succ]

theorem place_of_inner_none {f : Finding} (h : f.inner = none) (target depth : Nat) (a : Assembly) :
    place target depth a f = a.append target [f.piece a.lists.length] := by
  cases f with
  | whole c => rfl
  | _ => cases h

theorem place_of_inner_some {f : Finding} {fragments : Fragments} (h : f.inner = some fragments)
    (target depth : Nat) (a : Assembly) :
    place target depth a f =
      (a.append target [f.piece a.lists.length]).beginList fragments (depth + 1) := by
  cases f with
  | whole c => cases h
  | span opening items =>
    cases h
    rfl
  | link url items =>
    cases h
    rfl

/-- Placing items found one by one comes to adding all their pieces, lists and jobs. -/
theorem foldl_place (target depth : Nat) (found : List Finding) (a : Assembly)
    (ht : target < a.lists.length) :
    found.foldl (place target depth) a =
      { a with
        lists := a.lists.modify target (· ++ pieces a.lists.length found) ++
          List.replicate (openedJobs (depth + 1) a.lists.length found).length []
        pending := (openedJobs (depth + 1) a.lists.length found).reverse ++ a.pending } := by
  induction found generalizing a with
  | nil =>
    show a = { a with lists := a.lists.modify target (· ++ []) ++ [], pending := a.pending }
    rw [modify_append_nil, List.append_nil]
  | cons f found ih =>
    rw [List.foldl_cons]
    cases hf : f.inner with
    | none =>
      have hlen : (a.append target [f.piece a.lists.length]).lists.length = a.lists.length :=
        List.length_modify _ _ _
      have hih := ih (a.append target [f.piece a.lists.length]) (by rwa [hlen])
      rw [hlen] at hih
      rw [place_of_inner_none hf, hih]
      simp [append, pieces, openedJobs, hf]
    | some fragments =>
      have hlen : ((a.append target [f.piece a.lists.length]).beginList fragments
          (depth + 1)).lists.length = a.lists.length + 1 := by
        rw [beginList, List.length_append, append, List.length_modify]
        rfl
      have hih := ih ((a.append target [f.piece a.lists.length]).beginList fragments (depth + 1))
        (by rw [hlen]; omega)
      rw [hlen] at hih
      rw [place_of_inner_some hf, hih]
      simp only [beginList, append, List.length_modify, modify_begin _ ht, pieces, openedJobs, hf,
        Option.isSome_some, if_true, List.length_cons, List.reverse_cons, List.append_assoc,
        List.singleton_append]

/-! ### Doing a job -/

theorem all_isOwn_of_areFragments {items : List Content} (h : Content.areFragments items = true) :
    items.all Content.isOwn = true := by
  induction items with
  | nil => rfl
  | cons c items ih =>
    rw [Content.areFragments, Bool.and_eq_true] at h
    rw [List.all_cons, ih h.2, Bool.and_true]
    cases c with
    | foreign item => cases h.1
    | _ => rfl

/-- **Doing a job for a row of raw texts and links is adding its effect.** -/
theorem perform_row (a : Assembly) {job : Job} {items : List Content}
    (hi : job.fragments = .row items) (hf : Content.areFragments items = true)
    (ht : job.target < a.lists.length) :
    perform rules limit a job =
      a.add job.target (effect rules limit a.lists.length job.target job.depth items) := by
  by_cases hl : limit ≤ job.depth
  · have hliteral := Fragments.literal_row_of_all (all_isOwn_of_areFragments hf)
    rw [perform, if_pos hl, effect, if_pos hl, keep, hi, hliteral]
    simp only [add, append, List.length_nil, List.replicate_zero, List.append_nil,
      List.reverse_nil, List.nil_append, Bool.or_true, Option.or_none]
  · rw [perform, if_neg hl, effect, if_neg hl, hi]
    show performRow rules a job.target job.depth items = _
    cases hu : unfold rules items with
    | mk found rest =>
      simp only [performRow, hu]
      rw [foldl_place job.target job.depth found (a.fail _) ht]
      by_cases hrest : rest.isEmpty = true
      · simp only [hrest, if_true, foundEffect, restJobs, add, fail, List.nil_append, Bool.or_false]
      · simp only [hrest, foundEffect, restJobs, add, fail, Bool.or_false, Bool.false_eq_true, if_false,
          List.singleton_append]

/-! ### The items found -/

/-- What jobs for new lists have to do with the items that begin those lists. -/
@[simp] theorem openedJobs_targets (depth next : Nat) (found : List Finding) :
    (openedJobs depth next found).map Job.target =
      List.range' next (openedJobs depth next found).length := by
  induction found generalizing next with
  | nil => rfl
  | cons f found ih =>
    rw [openedJobs]
    cases f.inner with
    | none => exact ih next
    | some fragments =>
      show next :: (openedJobs depth (next + 1) found).map Job.target = _
      rw [ih (next + 1)]
      rfl

/-- Each job for a new list has the fragments of an item found. -/
@[simp] theorem openedJobs_fragments (depth next : Nat) (found : List Finding) :
    (openedJobs depth next found).map Job.fragments = found.filterMap Finding.inner := by
  induction found generalizing next with
  | nil => rfl
  | cons f found ih =>
    rw [openedJobs]
    cases hf : f.inner with
    | none => rw [List.filterMap_cons_none hf, ih next]
    | some fragments => rw [List.filterMap_cons_some hf, List.map_cons, ih (next + 1)]

/-- The pieces for items found refer to the new lists only. -/
theorem pieces_refs (depth next : Nat) (found : List Finding) :
    ∀ p ∈ pieces next found, ∀ n, p.list? = some n →
      next ≤ n ∧ n < next + (openedJobs depth next found).length := by
  induction found generalizing next with
  | nil => exact fun p hp => absurd hp List.not_mem_nil
  | cons f found ih =>
    rw [pieces, openedJobs]
    cases hf : f.inner with
    | none =>
      refine List.forall_mem_cons.2 ⟨fun n hn => ?_, ih next⟩
      rw [f.piece_list?, hf] at hn
      cases hn
    | some fragments =>
      refine List.forall_mem_cons.2 ⟨fun n hn => ?_, fun p hp n hn => ?_⟩
      · rw [f.piece_list?, hf] at hn
        cases hn
        exact ⟨Nat.le_refl _, Nat.lt_add_of_pos_right (Nat.succ_pos _)⟩
      · have hlater := ih (next + 1) p hp n hn
        rw [List.length_cons]
        omega

end Assembly

end ProseMarkup
