import ProseMarkup.Value.Access

/-!
# Content

The content of a paragraph is a list of items: raw text, spans, links, and, where content was not
made by this library, items of any other kind.

* `Content` : the items.
* `Content.ofText` : raw text as content.
* `Content.toValue`, `Content.toValues` : content as values.
* `Content.ofValue`, `Content.ofValues` : the items that values stand for before resolution; only texts
  and links are taken apart, all else is foreign.
* `Content.charCount`, `Content.linkCount`, `Content.weight` : measures of content.
-/

namespace ProseMarkup

/-- An item of content. -/
inductive Content where
  /-- Raw text. -/
  | text (s : Text)
  /-- Content between the delimiters of a span rule, which its opening delimiter names. -/
  | span (opening : Text) (contents : List Content)
  /-- Content that refers to a place elsewhere. -/
  | link (url : Value) (contents : List Content)
  /-- An item of any other kind, and also a link whose contents are not a list. -/
  | foreign (item : Value)

namespace Content

instance : Inhabited Content := ⟨text []⟩

/-- Whether an item is text without characters. -/
def isEmptyText : Content → Bool
  | text [] => true
  | _ => false

/-- Raw text of any length as content; none for the empty text. -/
def ofText (s : Text) : List Content :=
  if s.isEmpty then [] else [text s]

/-! ### Content as values -/

mutual

/-- An item as a value. -/
@[simp] def toValue : Content → Value
  | text s => .str s
  | span opening contents => .span (.str opening) (.list (toValues contents))
  | link url contents => .link url (.list (toValues contents))
  | foreign item => item
termination_by structural c => c

/-- Items as values. -/
@[simp] def toValues : List Content → List Value
  | [] => []
  | c :: cs => toValue c :: toValues cs
termination_by structural cs => cs

end

mutual

/-- The item that a value stands for: a text, a link whose contents are a list, or a foreign item. -/
def ofValue : Value → Content
  | .str s => text s
  | .link url (.list items) => link url (ofValues items)
  | item => foreign item
termination_by structural v => v

/-- The items that values stand for. -/
def ofValues : List Value → List Content
  | [] => []
  | v :: vs => ofValue v :: ofValues vs
termination_by structural vs => vs

end

/-- Taking values apart loses nothing. -/
theorem toValue_ofValue_and :
    (∀ v : Value, toValue (ofValue v) = v) ∧ ∀ vs : List Value, toValues (ofValues vs) = vs := by
  refine ofValue.mutual_induct (fun v => toValue (ofValue v) = v)
    (fun vs => toValues (ofValues vs) = vs) ?_ ?_ ?_ ?_ ?_
  · intro s
    rfl
  · intro url items ih
    simp [ofValue, ih]
  · intro item _ h
    rw [ofValue, toValue]
    · assumption
    · assumption
  · rfl
  · intro v vs hv hvs
    simp [ofValues, hv, hvs]

@[simp] theorem toValue_ofValue (v : Value) : toValue (ofValue v) = v :=
  toValue_ofValue_and.1 v

@[simp] theorem toValues_ofValues (vs : List Value) : toValues (ofValues vs) = vs :=
  toValue_ofValue_and.2 vs

/-! ### Measures -/

/-- The number of characters of a foreign item: those of a text that is the contents of a link. -/
def foreignCharCount : Value → Nat
  | .link _ (.str s) => s.length
  | _ => 0

/-- The number of links of a foreign item: one if it is a link. -/
def foreignLinkCount : Value → Nat
  | .link .. => 1
  | _ => 0

mutual

/-- The number of characters of text in an item, at any depth. -/
@[simp] def charCount : Content → Nat
  | text s => s.length
  | span _ contents => charCounts contents
  | link _ contents => charCounts contents
  | foreign item => foreignCharCount item
termination_by structural c => c

/-- The number of characters of text in items, at any depth. -/
@[simp] def charCounts : List Content → Nat
  | [] => 0
  | c :: cs => charCount c + charCounts cs
termination_by structural cs => cs

end

mutual

/-- The number of links in an item, at any depth. -/
@[simp] def linkCount : Content → Nat
  | text _ => 0
  | span _ contents => linkCounts contents
  | link _ contents => linkCounts contents + 1
  | foreign item => foreignLinkCount item
termination_by structural c => c

/-- The number of links in items, at any depth. -/
@[simp] def linkCounts : List Content → Nat
  | [] => 0
  | c :: cs => linkCount c + linkCounts cs
termination_by structural cs => cs

end

mutual

/-- A size of items in which every character and every item counts. -/
@[simp] def weight : Content → Nat
  | text s => s.length + 1
  | span _ contents => weights contents + 1
  | link _ contents => weights contents + 1
  | foreign _ => 1
termination_by structural c => c

/-- The sum of the weights of items. -/
@[simp] def weights : List Content → Nat
  | [] => 0
  | c :: cs => weight c + weights cs
termination_by structural cs => cs

end

theorem weight_pos (c : Content) : 0 < c.weight := by
  cases c <;> simp

@[simp] theorem weights_append (cs ds : List Content) : weights (cs ++ ds) = weights cs + weights ds := by
  induction cs with
  | nil => simp
  | cons c cs ih => simp [ih, Nat.add_assoc]

theorem weights_filter_le (p : Content → Bool) (cs : List Content) :
    weights (cs.filter p) ≤ weights cs := by
  induction cs with
  | nil => simp
  | cons c cs ih =>
    by_cases h : p c
    · simp only [List.filter_cons, h, if_true, weights]; omega
    · simp only [List.filter_cons, h, weights]; simp; omega

@[simp] theorem weights_take_add_drop (n : Nat) (cs : List Content) :
    weights (cs.take n) + weights (cs.drop n) = weights cs := by
  rw [← weights_append, List.take_append_drop]

end Content

end ProseMarkup
