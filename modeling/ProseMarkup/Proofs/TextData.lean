import ProseMarkup.Proofs.Sequence
import ProseMarkup.Storage.Load

/-!
# Storage as text data

A value equals itself unless a result of an undefined operation is somewhere in it. Everything that is
stored consists of texts, lists and dictionaries with texts as keys, and is loaded again as it was.

* `Value.isNanFree` : whether no result of an undefined operation is in a value.
* `Value.beq_self` : **such a value equals itself**.
* `Value.isTextData` : whether a value consists of texts, lists and dictionaries alone.
* `Storage.RoundTrips` : a value is stored as text data and loaded again as it was.
* `Storage.roundTrips_items` : items of a list that do so, stored one by one.
-/

namespace ProseMarkup

namespace Value

/-! ### Equality with itself -/

mutual

/-- Whether no result of an undefined operation is in a value, at any depth. -/
@[simp] def isNanFree : Value → Bool
  | nan _ => false
  | list items => areNanFree items
  | dict entries => areEntriesNanFree entries
  | rule p => isNanFree p
  | spanRule p c => isNanFree p && isNanFree c
  | style p s c => isNanFree p && isNanFree s && isNanFree c
  | span o c => isNanFree o && isNanFree c
  | link u c => isNanFree u && isNanFree c
  | paragraph s c => isNanFree s && isNanFree c
  | document p s => isNanFree p && isNanFree s
  | _ => true
termination_by structural v => v

/-- Whether none is in items. -/
@[simp] def areNanFree : List Value → Bool
  | [] => true
  | x :: xs => isNanFree x && areNanFree xs
termination_by structural xs => xs

/-- Whether none is in entries. -/
@[simp] def areEntriesNanFree : List (Value × Value) → Bool
  | [] => true
  | (k, v) :: es => isNanFree k && isNanFree v && areEntriesNanFree es
termination_by structural es => es

end

theorem numberEq_self_of_integer? {v : Value} {n : Int} (hv : v.integer? = some n)
    (h : ∀ w, numberEq v w = match v.integer?, w.integer? with
      | some m, some n => m == n
      | _, _ => false) : numberEq v v = true := by
  rw [h, hv]
  exact beq_self_eq_true n

/-- Two checks that follow from two others, together. -/
theorem and_eq_true_imp {a b c d : Bool} (hac : a = true → c = true) (hbd : b = true → d = true)
    (h : (a && b) = true) : (c && d) = true := by
  rw [Bool.and_eq_true] at h ⊢
  exact ⟨hac h.1, hbd h.2⟩

mutual

/-- **A value in which nothing is unlike itself equals itself.** -/
theorem beq_self : ∀ {v : Value}, isNanFree v = true → beq v v = true
  | null, _ => rfl
  | bool b, _ => numberEq_self_of_integer? (v := bool b) rfl fun _ => rfl
  | int n, _ => numberEq_self_of_integer? (v := int n) rfl fun _ => rfl
  | float s, _ => by
    show Decimal.equal s s = true
    rw [Decimal.equal, beq_self_eq_true, Bool.true_or]
  | nan _, h => absurd h Bool.false_ne_true
  | str s, _ => beq_self_eq_true s
  | list xs, h => @beqItems_self xs h
  | dict es, h => by
    rw [beq, beq_self_eq_true, Bool.true_and]
    exact beqEntries_of_subset h fun _ he => he
  | rule p, h => beq_self (v := p) h
  | spanRule p c, h => and_eq_true_imp (beq_self (v := p)) (beq_self (v := c)) h
  | style p s c, h => and_eq_true_imp (and_eq_true_imp (beq_self (v := p)) (beq_self (v := s))) (beq_self (v := c)) h
  | span o c, h => and_eq_true_imp (beq_self (v := o)) (beq_self (v := c)) h
  | link u c, h => and_eq_true_imp (beq_self (v := u)) (beq_self (v := c)) h
  | paragraph s c, h => and_eq_true_imp (beq_self (v := s)) (beq_self (v := c)) h
  | document p s, h => and_eq_true_imp (beq_self (v := p)) (beq_self (v := s)) h

theorem beqItems_self : ∀ {xs : List Value}, areNanFree xs = true → beqItems xs xs = true
  | [], _ => rfl
  | x :: xs, h => by
    rw [areNanFree, Bool.and_eq_true] at h
    rw [beqItems, beq_self h.1, beqItems_self h.2, Bool.or_true]
    rfl

theorem beqEntries_of_subset : ∀ {es fs : List (Value × Value)}, areEntriesNanFree es = true →
    (∀ e ∈ es, e ∈ fs) → beqEntries es fs = true
  | [], _, _, _ => rfl
  | (k, v) :: es, fs, h, hsub => by
    rw [areEntriesNanFree, Bool.and_eq_true, Bool.and_eq_true] at h
    have hfound : fs.any (fun f => (sameNan k f.1 || beq k f.1) && (sameNan v f.2 || beq v f.2)) =
        true := by
      refine List.any_eq_true.2 ⟨(k, v), hsub _ List.mem_cons_self, ?_⟩
      rw [beq_self h.1.1, beq_self h.1.2, Bool.or_true, Bool.or_true]
      rfl
    rw [beqEntries, hfound, Bool.true_and]
    exact beqEntries_of_subset h.2 fun e he => hsub e (List.mem_cons_of_mem _ he)

end

/-! ### Text data -/

mutual

/-- Whether a value consists of texts, lists and dictionaries with texts as keys. -/
@[simp] def isTextData : Value → Bool
  | str _ => true
  | list items => areTextData items
  | dict entries => areTextEntries entries
  | _ => false
termination_by structural v => v

/-- Whether items do. -/
@[simp] def areTextData : List Value → Bool
  | [] => true
  | x :: xs => isTextData x && areTextData xs
termination_by structural xs => xs

/-- Whether the keys of entries are texts, and their values consist of texts. -/
@[simp] def areTextEntries : List (Value × Value) → Bool
  | [] => true
  | (k, v) :: es => (match k with | str _ => true | _ => false) && isTextData v && areTextEntries es
termination_by structural es => es

end

end Value

namespace Storage

/-- A stored record consists of texts if its fields do. -/
@[simp] theorem isTextData_record (fields : List (Text × Value)) :
    (record fields).isTextData = fields.all fun f => f.2.isTextData := by
  show Value.areTextEntries (fields.map fun f => (.str f.1, f.2)) = _
  induction fields with
  | nil => rfl
  | cons f fields ih => simp [ih]

/-- A value without anything that is unlike itself is stored as text data, and from that data it is
loaded again. -/
def RoundTrips (store : Value → Except Fault Value) (load : Value → Value) (v : Value) : Prop :=
  v.isNanFree = true ∧
    ∃ data, store v = .ok data ∧ data.isTextData = true ∧ load data = v

variable {load : Value → Value}

/-- Records that are loaded again are so when they are stored one by one. -/
theorem roundTrips_items {xs : List Value} (h : ∀ x ∈ xs, RoundTrips save load x) :
    Value.areNanFree xs = true ∧ ∃ data, saveItems xs = .ok data ∧
      Value.areTextData data = true ∧ data.map load = xs := by
  induction xs with
  | nil => exact ⟨rfl, [], rfl, rfl, rfl⟩
  | cons x xs ih =>
    obtain ⟨hx, hxs⟩ := List.forall_mem_cons.1 h
    obtain ⟨hnan, data, hsave, htext, hload⟩ := hx
    obtain ⟨hnans, later, hsaves, htexts, hloads⟩ := ih hxs
    refine ⟨?_, data :: later, ?_, ?_, ?_⟩
    · simp [hnan, hnans]
    · simp [saveItems, hsave, hsaves]
    · simp [htext, htexts]
    · rw [List.map_cons, hload, hloads]

end Storage

end ProseMarkup
