import ProseMarkup.Proofs.Sequence
import ProseMarkup.Storage.Validate

/-!
# Combining styles as values

Styles as values combine as the styles do, and a combination keeps the names of all rules.

* `Value.str_beq_str` : texts are equal as values just if they are equal.
* `Dict.toEntries` : a dictionary's entries with their keys as values; writing and looking up commute
  with it.
* `Value.combine_toValue` : **combining styles as values is combining styles**.
* `Storage.hasRuleNamed_combine` : **a combination has every paragraph rule that one of its styles has**,
  whatever else is in them.
-/

namespace ProseMarkup

/-! ### Texts as keys -/

namespace Value

@[simp] theorem str_beq_str (s t : Text) : (str s == str t) = decide (s = t) := by
  show (false || (s == t)) = _
  rw [Bool.false_or]
  by_cases h : s = t
  · rw [h, beq_self_eq_true, decide_eq_true rfl]
  · rw [beq_false_of_ne h, decide_eq_false h]

/-- What equals a text is that text. -/
theorem isStr_of_beq {v : Value} {s : Text} (h : (v == str s) = true) : v.isStr s = true := by
  cases v with
  | str t =>
    rw [str_beq_str, decide_eq_true_eq] at h
    rw [isStr, h, beq_self_eq_true]
  | float l =>
    have hnone : (float l == str s) = false := by
      show numberEq (float l) (str s) = false
      rw [numberEq]
      · cases (float l).integer? <;> rfl
      · intro _ _ _ hfloat
        cases hfloat
    rw [hnone] at h
    cases h
  | _ => cases h

@[simp] theorem isStr_iff {v : Value} {s : Text} : v.isStr s = true ↔ v = str s := by
  constructor
  · intro h
    cases v with
    | str t => rw [eq_of_beq h]
    | _ => cases h
  · rintro rfl
    rw [isStr, beq_self_eq_true]

end Value

namespace Dict

section Keys

variable {κ ν : Type} [DecidableEq κ] {key : κ → Value}
  (hkey : ∀ a b, (key a == key b) = decide (a = b)) (f : ν → Value)

include hkey

theorem lookupEntry_map (k : κ) (es : List (κ × ν)) :
    lookupEntry (key k) (es.map fun e => (key e.1, f e.2)) = (lookupEntry k es).map f := by
  induction es with
  | nil => rfl
  | cons e es ih =>
    rw [List.map_cons, lookupEntry, lookupEntry, hkey, ih]
    by_cases h : e.1 = k
    · rw [if_pos (decide_eq_true h), if_pos (beq_iff_eq.2 h)]
      rfl
    · rw [if_neg (fun hd => h (of_decide_eq_true hd)), if_neg (fun hb => h (beq_iff_eq.1 hb))]

theorem setEntry_map (k : κ) (v : ν) (es : List (κ × ν)) :
    setEntry (key k) (f v) (es.map fun e => (key e.1, f e.2)) =
      (setEntry k v es).map fun e => (key e.1, f e.2) := by
  induction es with
  | nil => rfl
  | cons e es ih =>
    rw [List.map_cons, setEntry, setEntry, hkey, ih]
    by_cases h : e.1 = k
    · rw [if_pos (decide_eq_true h), if_pos (beq_iff_eq.2 h)]
      rfl
    · rw [if_neg (fun hd => h (of_decide_eq_true hd)), if_neg (fun hb => h (beq_iff_eq.1 hb))]
      rfl

end Keys

variable {ν : Type} (f : ν → Value)

/-- The entries of a dictionary with text keys as entries of a value. -/
def toEntries (d : Dict Text ν) : List (Value × Value) :=
  d.entries.map fun e => (.str e.1, f e.2)

@[simp] theorem lookupEntry_toEntries (d : Dict Text ν) (k : Text) :
    lookupEntry (.str k) (d.toEntries f) = (d.get? k).map f :=
  lookupEntry_map Value.str_beq_str f k d.entries

@[simp] theorem setEntry_toEntries (d : Dict Text ν) (k : Text) (v : ν) :
    setEntry (.str k) (f v) (d.toEntries f) = (d.set k v).toEntries f :=
  setEntry_map Value.str_beq_str f k v d.entries

@[simp] theorem overlayEntries_toEntries (d e : Dict Text ν) :
    overlayEntries (d.toEntries f) (e.toEntries f) = (d.overlay e).toEntries f := by
  rw [overlay, overlayEntries, toEntries.eq_def f e]
  generalize e.entries = es
  induction es generalizing d with
  | nil => rfl
  | cons p es ih =>
    rw [List.map_cons, List.foldl_cons, List.foldl_cons]
    show List.foldl _ (setEntry (.str p.1) (f p.2) (d.toEntries f)) _ = _
    simpa using ih _

end Dict

/-! ### Combining styles -/

namespace Value

theorem combineRule_of_none {adopt : Value → Except Fault Value} {rules : List (Value × Value)}
    {entry : Value × Value} (h : Dict.lookupEntry entry.1 rules = none) :
    combineRule adopt rules entry = adopt entry.2 >>= fun r => .ok (Dict.setEntry entry.1 r rules) := by
  rw [combineRule, h]
  rfl

theorem combineRule_of_some {adopt : Value → Except Fault Value} {rules : List (Value × Value)}
    {entry : Value × Value} {existing : Value} (h : Dict.lookupEntry entry.1 rules = some existing) :
    combineRule adopt rules entry =
      overlaidBy existing entry.2 >>= fun r => .ok (Dict.setEntry entry.1 r rules) := by
  rw [combineRule, h]
  rfl

theorem combineContainer_of_ne {new : Value} (hne : new ≠ null) {existing : Value} :
    combineContainer existing new =
      match existing with
      | null => adoptRule new
      | _ => overlaidBy existing new := by
  cases new with
  | null => exact absurd rfl hne
  | _ => rfl

@[simp] theorem overlaidBy_toValue (r s : Rule) :
    overlaidBy r.toValue s.toValue = .ok (r.overlaidBy s).toValue := by
  have hprops : overlayProps (propsValue r.props) s.toValue =
      .ok (dict (Dict.overlayEntries (r.props.toEntries str) (s.props.toEntries str))) := rfl
  rw [Dict.overlayEntries_toEntries] at hprops
  rw [Rule.toValue, overlaidBy, hprops]
  rfl

@[simp] theorem overlaidBy_span_toValue (r s : SpanRule) :
    overlaidBy r.toValue s.toValue = .ok (r.overlaidBy s).toValue := by
  have hprops : overlayProps (propsValue r.props) s.toValue =
      .ok (dict (Dict.overlayEntries (r.props.toEntries str) (s.props.toEntries str))) := rfl
  rw [Dict.overlayEntries_toEntries] at hprops
  rw [SpanRule.toValue, overlaidBy, hprops]
  rfl

/-- Gathering the rules of a namespace one by one is merging the namespaces. -/
theorem foldlM_combineRule {ν : Type} {f : ν → Value} {join : ν → ν → ν}
    {adopt : Value → Except Fault Value} (hadopt : ∀ r, adopt (f r) = .ok (f r))
    (hover : ∀ r s, overlaidBy (f r) (f s) = .ok (f (join r s))) (d e : Dict Text ν) :
    (e.toEntries f).foldlM (combineRule adopt) (d.toEntries f) =
      .ok ((d.mergeWith join e).toEntries f) := by
  rw [Dict.mergeWith, Dict.toEntries.eq_def f e]
  generalize e.entries = es
  induction es generalizing d with
  | nil => rfl
  | cons p es ih =>
    have hlookup := Dict.lookupEntry_toEntries f d p.1
    rw [List.map_cons, List.foldlM_cons, List.foldl_cons]
    cases hget : d.get? p.1 with
    | none =>
      rw [hget] at hlookup
      rw [combineRule_of_none hlookup, hadopt]
      simpa using ih _
    | some v =>
      rw [hget] at hlookup
      rw [combineRule_of_some hlookup, hover]
      simpa using ih _

/-- The rules of a style as rules gathered. -/
def Combination.ofStyle (s : Style) : Combination :=
  ⟨s.paragraph.toEntries Rule.toValue, s.span.toEntries SpanRule.toValue,
    optionValue Rule.toValue s.container⟩

@[simp] theorem Combination.add_toValue (s t : Style) :
    (Combination.ofStyle s).add t.toValue = .ok (Combination.ofStyle (s.merge t)) := by
  have hadopt : ∀ r : Rule, adoptRule r.toValue = .ok r.toValue := fun r => rfl
  have hadoptSpan : ∀ r : SpanRule, adoptSpanRule r.toValue = .ok r.toValue := fun r => rfl
  have hparagraph := foldlM_combineRule hadopt overlaidBy_toValue s.paragraph t.paragraph
  have hspan := foldlM_combineRule hadoptSpan overlaidBy_span_toValue s.span t.span
  have hcontainer : combineContainer (optionValue Rule.toValue s.container)
      (optionValue Rule.toValue t.container) =
        .ok (optionValue Rule.toValue (Style.mergeContainer s.container t.container)) := by
    cases s.container with
    | none => cases t.container <;> rfl
    | some r =>
      cases t.container with
      | none => rfl
      | some s => exact overlaidBy_toValue r s
  show (List.foldlM (combineRule adoptRule) (s.paragraph.toEntries Rule.toValue)
    (t.paragraph.toEntries Rule.toValue) >>= fun paragraph => _) = _
  rw [hparagraph, bind_ok]
  show (List.foldlM (combineRule adoptSpanRule) (s.span.toEntries SpanRule.toValue)
    (t.span.toEntries SpanRule.toValue) >>= fun span => _) = _
  rw [hspan, bind_ok]
  show (combineContainer (optionValue Rule.toValue s.container)
    (optionValue Rule.toValue t.container) >>= fun container => _) = _
  rw [hcontainer]
  rfl

/-- **Combining styles as values is combining styles.** -/
@[simp] theorem combine_toValue (styles : List Style) :
    combine (styles.map Style.toValue) = .ok (Style.combine styles).toValue := by
  have hfold : ∀ s, (styles.map Style.toValue).foldlM Combination.add (Combination.ofStyle s) =
      .ok (Combination.ofStyle (styles.foldl Style.merge s)) := by
    induction styles with
    | nil => exact fun s => rfl
    | cons t styles ih =>
      intro s
      simp [ih]
  have hstart : (⟨[], [], null⟩ : Combination) = Combination.ofStyle Style.empty := rfl
  rw [combine, hstart, hfold, bind_ok]
  rfl

/-! ### The names of rules -/

/-- Whether entries have the text `name` as a key. -/
def hasName (name : Text) (entries : List (Value × Value)) : Bool :=
  entries.any fun e => e.1.isStr name

@[simp] theorem hasName_setEntry_self (name : Text) (v : Value) (es : List (Value × Value)) :
    hasName name (Dict.setEntry (str name) v es) = true := by
  induction es with
  | nil =>
    show (Value.isStr name (str name) || false) = true
    rw [isStr, beq_self_eq_true]
    rfl
  | cons e es ih =>
    rw [Dict.setEntry]
    split
    · next h =>
      rw [hasName, List.any_cons, isStr_of_beq h, Bool.true_or]
    · rw [hasName, List.any_cons]
      show (_ || hasName name _) = true
      rw [ih, Bool.or_true]

theorem hasName_setEntry (name : Text) (k v : Value) {es : List (Value × Value)}
    (h : hasName name es = true) : hasName name (Dict.setEntry k v es) = true := by
  induction es with
  | nil => cases h
  | cons e es ih =>
    rw [hasName, List.any_cons, Bool.or_eq_true] at h
    rw [Dict.setEntry]
    split
    · rw [hasName, List.any_cons, Bool.or_eq_true]
      exact h
    · rw [hasName, List.any_cons, Bool.or_eq_true]
      exact h.imp id ih

/-- A namespace after one more rule: whatever it is, it is written under its name. -/
theorem combineRule_eq_ok {adopt : Value → Except Fault Value} {rules rules' : List (Value × Value)}
    {entry : Value × Value} (h : combineRule adopt rules entry = .ok rules') :
    ∃ r, rules' = Dict.setEntry entry.1 r rules ∧
      match Dict.lookupEntry entry.1 rules with
      | some existing => overlaidBy existing entry.2 = .ok r
      | none => adopt entry.2 = .ok r := by
  cases hlookup : Dict.lookupEntry entry.1 rules with
  | none =>
    rw [combineRule_of_none hlookup] at h
    obtain ⟨r, hr, hset⟩ := bind_eq_ok.1 h
    cases hset
    exact ⟨r, rfl, hr⟩
  | some existing =>
    rw [combineRule_of_some hlookup] at h
    obtain ⟨r, hr, hset⟩ := bind_eq_ok.1 h
    cases hset
    exact ⟨r, rfl, hr⟩

/-- Rules gathered after one more style, opened up. -/
theorem Combination.add_eq_ok {c c' : Combination} {s : Value} (h : c.add s = .ok c') :
    ∃ ps ss container, s = style (dict ps) (dict ss) container ∧
      ps.foldlM (combineRule adoptRule) c.paragraph = .ok c'.paragraph ∧
      ss.foldlM (combineRule adoptSpanRule) c.span = .ok c'.span ∧
      combineContainer c.container container = .ok c'.container := by
  cases s with
  | style paragraph span container =>
    cases paragraph with
    | dict ps =>
      obtain ⟨p, hp, h⟩ := bind_eq_ok.1 (show (ps.foldlM (combineRule adoptRule) c.paragraph >>= _) = _
        from h)
      cases span with
      | dict ss =>
        obtain ⟨q, hq, h⟩ := bind_eq_ok.1 (show (ss.foldlM (combineRule adoptSpanRule) c.span >>= _) = _
          from h)
        obtain ⟨k, hk, h⟩ := bind_eq_ok.1 h
        cases h
        exact ⟨ps, ss, container, rfl, hp, hq, hk⟩
      | _ => cases h
    | _ => cases h
  | _ => cases h

theorem hasName_combineRule {adopt : Value → Except Fault Value} {rules rules' : List (Value × Value)}
    {entry : Value × Value} {name : Text} (h : combineRule adopt rules entry = .ok rules') :
    (hasName name rules = true → hasName name rules' = true) ∧
      (entry.1.isStr name = true → hasName name rules' = true) := by
  obtain ⟨r, rfl, -⟩ := combineRule_eq_ok h
  constructor
  · exact hasName_setEntry name entry.1 r
  · intro hname
    rw [isStr_iff.1 hname]
    exact hasName_setEntry_self name r rules

/-- One more style: the names of the rules gathered stay, and those of the style come to them. -/
theorem Combination.hasName_add {c c' : Combination} {s : Value} {name : Text}
    (h : c.add s = .ok c') :
    (hasName name c.paragraph = true → hasName name c'.paragraph = true) ∧
      (Storage.hasRuleNamed name s = true → hasName name c'.paragraph = true) := by
  obtain ⟨ps, ss, container, rfl, hps, -, -⟩ := Combination.add_eq_ok h
  constructor
  · exact fun hname => foldlM_kept (fun rules => hasName name rules = true)
      (fun rules e rules' hrules _ hstep => (hasName_combineRule hstep).1 hrules) hname hps
  · intro hname
    obtain ⟨e, he, hkey⟩ := List.any_eq_true.1 hname
    exact foldlM_reached (f := combineRule adoptRule) (fun rules => hasName name rules = true)
      (fun rules e rules' hrules _ hstep => (hasName_combineRule hstep).1 hrules) he
      (fun rules rules' hstep => (hasName_combineRule hstep).2 hkey) hps

end Value

/-- **A combination has every paragraph rule that one of its styles has.** -/
theorem Storage.hasRuleNamed_combine {styles : List Value} {v s : Value} {name : Text}
    (h : Value.combine styles = .ok v) (hs : s ∈ styles) (hname : hasRuleNamed name s = true) :
    hasRuleNamed name v = true := by
  obtain ⟨c, hc, hv⟩ := bind_eq_ok.1 h
  cases hv
  exact foldlM_reached (f := Value.Combination.add)
    (fun c : Value.Combination => Value.hasName name c.paragraph = true)
    (fun c t c' hkept _ hstep => (Value.Combination.hasName_add hstep).1 hkept) hs
    (fun c c' hstep => (Value.Combination.hasName_add hstep).2 hname) hc

end ProseMarkup
