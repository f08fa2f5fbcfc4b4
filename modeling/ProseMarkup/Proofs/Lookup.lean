import ProseMarkup.Dict
import ProseMarkup.Proofs.Sequence

/-!
# Reading dictionaries

A dictionary is set by its keys, in order, and by what is read under each. Both are known after one dictionary has
been written over another, or merged with it.

* `Dict.mem_entries_iff`, `Dict.get?_eq_none_iff` : reading and the entries.
* `Dict.ext_get?` : **dictionaries with the same keys, and the same values under them, are the same**.
* `Dict.addKey`, `Dict.eraseDups_eq_foldl` : keys in order of their first appearance.
* `Dict.keys_overlay`, `Dict.get?_overlay` : writing one dictionary over another.
* `Dict.keys_mergeWith`, `Dict.get?_mergeWith` : merging one dictionary with another.
-/

namespace ProseMarkup.Dict

variable {κ ν : Type} [DecidableEq κ]

/-! ### Entries -/

theorem lookupEntry_eq_none_iff {k : κ} {es : List (κ × ν)} :
    lookupEntry k es = none ↔ k ∉ es.map Prod.fst := by
  induction es with
  | nil => simp [lookupEntry]
  | cons e es ih =>
    rw [lookupEntry, List.map_cons, List.mem_cons, not_or, ← ih]
    by_cases h : e.1 = k
    · rw [if_pos (beq_iff_eq.2 h)]
      simp [h]
    · rw [if_neg (fun hb => h (beq_iff_eq.1 hb)), and_iff_right (Ne.symm h)]

theorem mem_of_lookupEntry {k : κ} {v : ν} {es : List (κ × ν)} (h : lookupEntry k es = some v) :
    (k, v) ∈ es := by
  induction es with
  | nil => cases h
  | cons e es ih =>
    rw [lookupEntry] at h
    split at h
    · next hk =>
      cases h
      rw [← eq_of_beq hk]
      exact List.mem_cons_self
    · exact List.mem_cons_of_mem e (ih h)

theorem lookupEntry_of_mem {k : κ} {v : ν} {es : List (κ × ν)} (hnodup : (es.map Prod.fst).Nodup)
    (h : (k, v) ∈ es) : lookupEntry k es = some v := by
  induction es with
  | nil => cases h
  | cons e es ih =>
    rw [List.map_cons, List.nodup_cons] at hnodup
    rw [lookupEntry]
    rcases List.mem_cons.1 h with rfl | h
    · rw [if_pos (beq_self_eq_true k)]
    · have hne : e.1 ≠ k := by
        intro hk
        rw [hk] at hnodup
        exact hnodup.1 (List.mem_map_of_mem h)
      rw [if_neg (fun hb => hne (beq_iff_eq.1 hb))]
      exact ih hnodup.2 h

@[simp] theorem mem_entries_iff {d : Dict κ ν} {k : κ} {v : ν} : (k, v) ∈ d.entries ↔ d.get? k = some v :=
  ⟨lookupEntry_of_mem d.nodup, mem_of_lookupEntry⟩

@[simp] theorem get?_eq_none_iff {d : Dict κ ν} {k : κ} : d.get? k = none ↔ k ∉ d.keys :=
  lookupEntry_eq_none_iff

/-- A key is found, with a value that stands under it. -/
theorem exists_get?_of_mem_keys {d : Dict κ ν} {k : κ} (h : k ∈ d.keys) :
    ∃ v, d.get? k = some v ∧ (k, v) ∈ d.entries := by
  obtain ⟨e, he, rfl⟩ := List.mem_map.1 h
  exact ⟨e.2, mem_entries_iff.1 he, he⟩

/-- **Dictionaries with the same keys, and the same values under them, are the same.** -/
theorem ext_get? {d e : Dict κ ν} (hkeys : d.keys = e.keys) (hget : ∀ k, d.get? k = e.get? k) : d = e := by
  have hentries : ∀ d : Dict κ ν, d.entries.map some = d.keys.map fun k => (d.get? k).map fun v => (k, v) := by
    intro d
    rw [keys, List.map_map]
    apply List.map_congr_left
    intro entry hentry
    have hread : d.get? entry.1 = some entry.2 := mem_entries_iff.1 hentry
    show some entry = (d.get? entry.1).map fun v => (entry.1, v)
    rw [hread]
    rfl
  apply ext
  have hsome : d.entries.map some = e.entries.map some := by
    rw [hentries, hentries, hkeys]
    simp only [hget]
  exact (List.map_inj_right fun _ _ h => Option.some.inj h).1 hsome

/-! ### Keys in order of their first appearance -/

/-- Keys with one more key: in its place if it is present, else last. -/
def addKey (ks : List κ) (k : κ) : List κ :=
  if k ∈ ks then ks else ks ++ [k]

theorem foldl_addKey [BEq κ] [LawfulBEq κ] (ks ls : List κ) :
    ls.foldl addKey ks = ks ++ (ls.filter fun k => decide (k ∉ ks)).eraseDups := by
  induction ls generalizing ks with
  | nil => simp
  | cons l ls ih =>
    rw [List.foldl_cons, ih, addKey]
    by_cases hl : l ∈ ks
    · rw [if_pos hl, List.filter_cons_of_neg (by simpa using hl)]
    · rw [if_neg hl, List.filter_cons_of_pos (by simpa using hl), List.eraseDups_cons, List.filter_filter,
        List.append_assoc, List.singleton_append]
      congr 3
      apply List.filter_congr
      intro k _
      by_cases hk : k = l <;> simp [hk, hl]

@[simp] theorem mem_foldl_addKey {k : κ} {ks ls : List κ} : k ∈ ls.foldl addKey ks ↔ k ∈ ks ∨ k ∈ ls := by
  rw [foldl_addKey, List.mem_append, List.mem_eraseDups, List.mem_filter, decide_eq_true_eq]
  by_cases hk : k ∈ ks <;> simp [hk]

theorem eraseDups_eq_foldl [BEq κ] [LawfulBEq κ] (ks : List κ) : ks.eraseDups = ks.foldl addKey [] := by
  rw [foldl_addKey, List.nil_append]
  simp

theorem foldl_addKey_of_nodup {ks ls : List κ} (h : (ks ++ ls).Nodup) : ls.foldl addKey ks = ks ++ ls := by
  induction ls generalizing ks with
  | nil => exact (List.append_nil ks).symm
  | cons l ls ih =>
    have hnew : l ∉ ks := fun hl => (List.nodup_append.1 h).2.2 l hl l List.mem_cons_self rfl
    rw [List.append_cons] at h
    rw [List.foldl_cons, addKey, if_neg hnew, ih h, ← List.append_cons]

@[simp] theorem foldl_addKey_keys (d : Dict κ ν) : d.keys.foldl addKey [] = d.keys :=
  foldl_addKey_of_nodup d.nodup

/-! ### Entries written one after another -/

/-- Entries written one after another, the value of each made from what is there and from its own, add their keys. -/
theorem keys_foldl_set (f : Dict κ ν → κ × ν → ν) (es : List (κ × ν)) (d : Dict κ ν) :
    (es.foldl (fun acc e => acc.set e.1 (f acc e)) d).keys = (es.map Prod.fst).foldl addKey d.keys := by
  induction es generalizing d with
  | nil => rfl
  | cons e es ih => simp [ih, addKey]

/-- Under a key of entries that are written one after another, with no key twice, stands what the entry makes of the
value that was there. -/
theorem get?_foldl_set (f : Option ν → ν → ν) {es : List (κ × ν)} (h : (es.map Prod.fst).Nodup)
    (d : Dict κ ν) (k : κ) :
    (es.foldl (fun acc e => acc.set e.1 (f (acc.get? e.1) e.2)) d).get? k =
      match lookupEntry k es with
      | none => d.get? k
      | some v => some (f (d.get? k) v) := by
  induction es generalizing d with
  | nil => rfl
  | cons e es ih =>
    rw [List.map_cons, List.nodup_cons] at h
    by_cases hk : e.1 = k
    · have hnone : lookupEntry k es = none := lookupEntry_eq_none_iff.2 (hk ▸ h.1)
      simp [ih h.2, lookupEntry, hnone, hk]
    · simp [ih h.2, lookupEntry, hk]

@[simp] theorem keys_overlay (d e : Dict κ ν) : (d.overlay e).keys = e.keys.foldl addKey d.keys :=
  keys_foldl_set (fun _ p => p.2) e.entries d

/-- What is written over a dictionary prevails. -/
@[simp] theorem get?_overlay (d e : Dict κ ν) (k : κ) : (d.overlay e).get? k = (e.get? k).or (d.get? k) := by
  have h := get?_foldl_set (fun _ v => v) e.nodup d k
  rw [overlay, h]
  show _ = (lookupEntry k e.entries).or _
  cases lookupEntry k e.entries <;> rfl

/-- A value joined to the one that is there, if there is one. -/
def joined (f : ν → ν → ν) : Option ν → ν → ν
  | none, v => v
  | some v, v' => f v v'

theorem mergeWith_eq_foldl (f : ν → ν → ν) (d e : Dict κ ν) :
    d.mergeWith f e = e.entries.foldl (fun acc p => acc.set p.1 (joined f (acc.get? p.1) p.2)) d := by
  rw [mergeWith]
  congr 1
  funext acc p
  cases acc.get? p.1 <;> rfl

@[simp] theorem keys_mergeWith (f : ν → ν → ν) (d e : Dict κ ν) :
    (d.mergeWith f e).keys = e.keys.foldl addKey d.keys := by
  rw [mergeWith_eq_foldl]
  exact keys_foldl_set (fun acc p => joined f (acc.get? p.1) p.2) e.entries d

/-- Where both dictionaries have a key, the two values are joined. -/
theorem get?_mergeWith (f : ν → ν → ν) (d e : Dict κ ν) (k : κ) :
    (d.mergeWith f e).get? k =
      match e.get? k with
      | none => d.get? k
      | some v => some (joined f (d.get? k) v) := by
  rw [mergeWith_eq_foldl]
  exact get?_foldl_set (joined f) e.nodup d k

end ProseMarkup.Dict
