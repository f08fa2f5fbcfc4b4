/-!
# Dictionaries in order of insertion

A dictionary holds each key once and lists its entries in the order in which the keys first came.
Setting a key that is present changes the value and keeps the place.

* `Dict.setEntry`, `Dict.lookupEntry` : the two operations on bare entry lists.
* `Dict` : entries together with the proof that no key occurs twice.
* `Dict.set`, `Dict.get?`, `Dict.keys`, `Dict.overlay`, `Dict.mergeWith` : the operations.

Main statements: the keys after a `set` (`keys_set`), and reading after writing (`get?_set`).
-/

namespace ProseMarkup

namespace Dict

variable {κ ν : Type}

/-! ### Entry lists -/

/-- Entries after writing a value under a key: in its place if the key is present, else last. -/
def setEntry [BEq κ] (k : κ) (v : ν) : List (κ × ν) → List (κ × ν)
  | [] => [(k, v)]
  | e :: es => if e.1 == k then (e.1, v) :: es else e :: setEntry k v es

/-- The value of the first entry under a key. -/
def lookupEntry [BEq κ] (k : κ) : List (κ × ν) → Option ν
  | [] => none
  | e :: es => if e.1 == k then some e.2 else lookupEntry k es

/-- Entries after writing all of `es` over `base`, one by one. -/
def overlayEntries [BEq κ] (base es : List (κ × ν)) : List (κ × ν) :=
  es.foldl (fun acc e => setEntry e.1 e.2 acc) base

@[simp] theorem map_fst_setEntry [BEq κ] [LawfulBEq κ] (k : κ) (v : ν) (es : List (κ × ν)) :
    (setEntry k v es).map Prod.fst =
      if k ∈ es.map Prod.fst then es.map Prod.fst else es.map Prod.fst ++ [k] := by
  induction es with
  | nil => simp [setEntry]
  | cons e es ih =>
    by_cases h : e.1 = k
    · simp [setEntry, h]
    · have h' : ¬ k = e.1 := fun hk => h hk.symm
      simp only [setEntry, beq_iff_eq, h, if_false, List.map_cons, ih, List.mem_cons, h', false_or]
      split <;> simp

theorem nodup_setEntry [BEq κ] [LawfulBEq κ] (k : κ) (v : ν) {es : List (κ × ν)}
    (h : (es.map Prod.fst).Nodup) : ((setEntry k v es).map Prod.fst).Nodup := by
  rw [map_fst_setEntry]
  split
  · exact h
  · next hk =>
    rw [List.nodup_append]
    refine ⟨h, by simp, ?_⟩
    intro a ha b hb hab
    rw [List.mem_singleton] at hb
    exact hk (hb ▸ hab ▸ ha)

@[simp] theorem lookupEntry_setEntry [BEq κ] [LawfulBEq κ] (k k' : κ) (v : ν) (es : List (κ × ν)) :
    lookupEntry k' (setEntry k v es) = if k == k' then some v else lookupEntry k' es := by
  induction es with
  | nil => simp [setEntry, lookupEntry]
  | cons e es ih =>
    by_cases h : e.1 = k
    · by_cases h' : k = k' <;> simp [setEntry, lookupEntry, h, h']
    · simp only [setEntry, beq_iff_eq, h, if_false, lookupEntry, ih]
      by_cases h' : k = k'
      · subst h'
        simp [h]
      · simp [h']

end Dict

/-- Entries in order of insertion, each key once. -/
structure Dict (κ ν : Type) where
  /-- The entries, in order of the first insertion of their keys. -/
  entries : List (κ × ν)
  /-- No key occurs twice. -/
  nodup : (entries.map Prod.fst).Nodup

namespace Dict

variable {κ ν : Type}

theorem ext {d d' : Dict κ ν} (h : d.entries = d'.entries) : d = d' := by
  cases d; cases d'; cases h; rfl

instance [DecidableEq κ] [DecidableEq ν] : DecidableEq (Dict κ ν) := fun d d' =>
  decidable_of_iff (d.entries = d'.entries) ⟨ext, fun h => h ▸ rfl⟩

/-- The dictionary without entries. -/
def empty : Dict κ ν := ⟨[], List.nodup_nil⟩

/-- The dictionary of one entry. -/
def singleton (k : κ) (v : ν) : Dict κ ν := ⟨[(k, v)], by simp⟩

instance : Inhabited (Dict κ ν) := ⟨empty⟩

/-- The keys, in order. -/
def keys (d : Dict κ ν) : List κ := d.entries.map Prod.fst

@[simp] theorem keys_empty : (empty : Dict κ ν).keys = [] := rfl

/-- The same keys, with `f` applied to each value. -/
def mapValues {μ : Type} (f : ν → μ) (d : Dict κ ν) : Dict κ μ :=
  ⟨d.entries.map fun e => (e.1, f e.2), by
    have h := d.nodup
    simpa [List.map_map, Function.comp_def] using h⟩

variable [DecidableEq κ]

/-- The value under a key. -/
def get? (d : Dict κ ν) (k : κ) : Option ν := lookupEntry k d.entries

/-- Writes a value under a key. -/
def set (d : Dict κ ν) (k : κ) (v : ν) : Dict κ ν :=
  ⟨setEntry k v d.entries, nodup_setEntry k v d.nodup⟩

/-- Writes the entries of `e` over those of `d`. -/
def overlay (d e : Dict κ ν) : Dict κ ν :=
  e.entries.foldl (fun acc p => acc.set p.1 p.2) d

/-- Writes the entries of `e` over those of `d`; where both have a key, `f` joins the two values. -/
def mergeWith (f : ν → ν → ν) (d e : Dict κ ν) : Dict κ ν :=
  e.entries.foldl
    (fun acc p => acc.set p.1 (match acc.get? p.1 with | none => p.2 | some v => f v p.2)) d

@[simp] theorem keys_set (d : Dict κ ν) (k : κ) (v : ν) :
    (d.set k v).keys = if k ∈ d.keys then d.keys else d.keys ++ [k] :=
  map_fst_setEntry k v d.entries

@[simp] theorem get?_set (d : Dict κ ν) (k k' : κ) (v : ν) :
    (d.set k v).get? k' = if k = k' then some v else d.get? k' := by
  simp [get?, set]

end Dict

end ProseMarkup
