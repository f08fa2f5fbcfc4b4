import ProseMarkup.Proofs.ValidStyle

/-!
# Styles restricted to a whitelist

A narrower whitelist leaves properties out of a style and does nothing else to it. Reading a sheet goes
through the same blocks and the same pairs under every whitelist, and whether one pair is permitted does not
depend on the others; so leaving properties out while the sheet is read, and leaving them out afterwards, come
to the same.

* `Dict.restrict`, `Style.restrict` : the entries whose keys pass a check, and the properties of a style that
  whitelists permit.
* `Dict.restrict_set`, `Dict.mapValues_set` : writing an entry before and after.
* `Whitelists.Within` : whatever the one permits, the other does.
* `StyleSheet.permittedProps_restrict` : what a body sets under a narrower whitelist.
* `Style.ofSheet_restrict` : **the style of a sheet under narrower whitelists is the restriction of that under
  wider ones**.
-/

namespace ProseMarkup

/-! ### Dictionaries -/

namespace Dict

variable {κ ν μ : Type}

/-- The entries whose keys pass a check, in order. -/
def restrict (p : κ → Bool) (d : Dict κ ν) : Dict κ ν where
  entries := d.entries.filter fun e => p e.1
  nodup := (List.filter_sublist.map Prod.fst).nodup d.nodup

@[simp] theorem keys_mapValues (f : ν → μ) (d : Dict κ ν) : (d.mapValues f).keys = d.keys := by
  rw [keys, mapValues, List.map_map]
  rfl

@[simp] theorem mapValues_mapValues {ρ : Type} (g : μ → ρ) (f : ν → μ) (d : Dict κ ν) :
    (d.mapValues f).mapValues g = d.mapValues (g ∘ f) := by
  apply ext
  show (d.entries.map _).map _ = _
  rw [List.map_map]
  rfl

/-- Values that do not change leave the dictionary as it is. -/
theorem mapValues_eq_self {f : ν → ν} {d : Dict κ ν} (h : ∀ e ∈ d.entries, f e.2 = e.2) :
    d.mapValues f = d := by
  apply ext
  show d.entries.map _ = d.entries
  refine (List.map_congr_left fun e he => ?_).trans (List.map_id _)
  show (e.1, f e.2) = e
  rw [h e he]

/-- If every key passes, nothing is left out. -/
theorem restrict_eq_self {p : κ → Bool} {d : Dict κ ν} (h : ∀ e ∈ d.entries, p e.1 = true) :
    d.restrict p = d :=
  ext (List.filter_eq_self.2 h)

/-- If no entry is missing, nothing has been left out. -/
theorem restrict_eq_self_of_length {p : κ → Bool} {d : Dict κ ν}
    (h : (d.restrict p).entries.length = d.entries.length) : d.restrict p = d :=
  ext (List.filter_sublist.eq_of_length h)

variable [DecidableEq κ]

/-- Values changed before and after an entry is written. -/
@[simp] theorem mapValues_set (f : ν → μ) (d : Dict κ ν) (k : κ) (v : ν) :
    (d.set k v).mapValues f = (d.mapValues f).set k (f v) := by
  apply ext
  show (setEntry k v d.entries).map _ = setEntry k (f v) (d.entries.map _)
  induction d.entries with
  | nil => rfl
  | cons e es ih =>
    rw [setEntry, List.map_cons, setEntry]
    split
    · rfl
    · rw [List.map_cons, ih]

/-- Entries left out before and after one is written. -/
theorem restrict_set (p : κ → Bool) (d : Dict κ ν) (k : κ) (v : ν) :
    (d.set k v).restrict p = if p k then (d.restrict p).set k v else d.restrict p := by
  have hentries : ∀ es : List (κ × ν), (setEntry k v es).filter (fun e => p e.1) =
      if p k then setEntry k v (es.filter fun e => p e.1) else es.filter fun e => p e.1 := by
    intro es
    induction es with
    | nil => by_cases hk : p k <;> simp [setEntry, hk]
    | cons e es ih =>
      by_cases he : e.1 = k
      · by_cases hk : p k <;> simp [setEntry, he, hk]
      · by_cases hp : p e.1 <;> by_cases hk : p k <;> simp [setEntry, he, hp, hk, ih]
  apply ext
  show (setEntry k v d.entries).filter _ = _
  rw [hentries]
  split <;> rfl

end Dict

/-! ### Styles -/

/-- A rule with the properties that a whitelist permits. -/
def Rule.restrict (w : Whitelist) (r : Rule) : Rule :=
  ⟨r.props.restrict w.permits⟩

/-- A span rule with the properties that a whitelist permits. -/
def SpanRule.restrict (w : Whitelist) (r : SpanRule) : SpanRule :=
  ⟨r.props.restrict w.permits, r.closer⟩

/-- A style with the properties that the whitelists of their namespaces permit. -/
def Style.restrict (w : Whitelists) (s : Style) : Style where
  paragraph := s.paragraph.mapValues (Rule.restrict w.paragraph)
  span := s.span.mapValues (SpanRule.restrict w.span)
  container := s.container.map (Rule.restrict w.container)

/-- In every namespace, whatever name the one permits the other does. -/
def Whitelists.Within (w v : Whitelists) : Prop :=
  ∀ space name, (w.get space).permits name = true → (v.get space).permits name = true

namespace StyleSheet

/-- What a body sets under a narrower whitelist: what it sets under the wider one, as far as the narrower
permits. -/
theorem permittedProps_restrict {w v : Whitelist}
    (h : ∀ name, w.permits name = true → v.permits name = true) (body : Text) :
    permittedProps body w = (permittedProps body v).restrict w.permits := by
  rw [permittedProps, permittedProps]
  show List.foldl _ (Dict.empty.restrict w.permits) _ = _
  refine List.foldl_hom (Dict.restrict w.permits) fun props p => ?_
  by_cases hw : w.permits p.1 = true
  · rw [hw, h p.1 hw]
    split
    · rw [Dict.restrict_set, if_pos hw]
    · rfl
  · have hfalse : w.permits p.1 = false := Bool.eq_false_iff.2 hw
    rw [hfalse, Bool.false_and, if_neg Bool.false_ne_true]
    split
    · rw [Dict.restrict_set, if_neg hw]
    · rfl

end StyleSheet

namespace Style

variable {w v : Whitelists}

theorem addBlock_restrict (h : w.Within v) (s : Style) (b : Block) :
    addBlock w (s.restrict w) b = (addBlock v s b).restrict w := by
  have hparagraph := StyleSheet.permittedProps_restrict (h .paragraph) b.body
  have hspan := StyleSheet.permittedProps_restrict (h .span) b.body
  have hcontainer := StyleSheet.permittedProps_restrict (h .container) b.body
  simp only [Whitelists.get] at hparagraph hspan hcontainer
  rw [addBlock, addBlock]
  cases b.header with
  | paragraph name => simp [restrict, Rule.restrict, hparagraph]
  | span opening closer => simp [restrict, SpanRule.restrict, hspan]
  | container => simp only [restrict, Option.map_some, Rule.restrict, hcontainer]

/-- **The style of a sheet under narrower whitelists is the restriction of that under wider ones.** -/
theorem ofSheet_restrict (h : w.Within v) (sheet : Text) :
    ofSheet w sheet = (ofSheet v sheet).restrict w := by
  rw [ofSheet, ofSheet]
  show List.foldl _ (empty.restrict w) _ = _
  exact List.foldl_hom (restrict w) fun s b => addBlock_restrict h s b

/-- If the properties of every rule stay, the style does. -/
theorem restrict_eq_self {s : Style}
    (hparagraph : ∀ e ∈ s.paragraph.entries, e.2.restrict w.paragraph = e.2)
    (hspan : ∀ e ∈ s.span.entries, e.2.restrict w.span = e.2)
    (hcontainer : ∀ r ∈ s.container, r.restrict w.container = r) : s.restrict w = s := by
  obtain ⟨paragraph, span, container⟩ := s
  have hrule : container.map (Rule.restrict w.container) = container := by
    cases container with
    | none => rfl
    | some r => exact congrArg some (hcontainer r rfl)
  rw [restrict, Dict.mapValues_eq_self hparagraph, Dict.mapValues_eq_self hspan, hrule]

end Style

end ProseMarkup
