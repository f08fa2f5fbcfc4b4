import Mathlib.Algebra.GroupWithZero.Nat
import ProseMarkup.Content.Span

/-!
# Content as a sequence of symbols

A text in a row of items may be cut in two, and an empty text left out, without any change to what is
written. The *symbols* of items are what stays the same: the characters of the texts, and the other
items as they are.

* `Content.symbols` : the symbols of items.
* `Content.isFragment`, `Content.areFragments` : items made of raw text and links alone, at any depth.
* `Content.openings`, `Content.allOpenings` : the opening delimiters of the spans at any depth.

Main statements: dropping empty texts keeps the symbols (`symbols_dropEmpty`), and whatever adds up over
items adds up over their symbols (`sources_eq_flatMap`, `charCounts_eq_sum`, `linkCounts_eq_sum`,
`all_symbols`).
-/

namespace ProseMarkup.Content

/-- A character of text, or an item that is no text. -/
abbrev Symbol := Char ⊕ Content

/-- The symbols of an item. -/
def itemSymbols : Content → List Symbol
  | text s => s.map .inl
  | c => [.inr c]

/-- The symbols of items, in order. -/
def symbols (cs : List Content) : List Symbol :=
  cs.flatMap itemSymbols

/-! ### Items of a kind, at any depth -/

mutual

/-- Whether an item is raw text or a link, and so are all items in it. -/
@[simp] def isFragment : Content → Bool
  | text _ => true
  | link _ contents => areFragments contents
  | _ => false
termination_by structural c => c

/-- Whether items are made of raw text and links alone. -/
@[simp] def areFragments : List Content → Bool
  | [] => true
  | c :: cs => isFragment c && areFragments cs
termination_by structural cs => cs

end

mutual

/-- The opening delimiters of the spans in an item, at any depth. -/
@[simp] def openings : Content → List Text
  | text _ => []
  | span opening contents => opening :: allOpenings contents
  | link _ contents => allOpenings contents
  | foreign _ => []
termination_by structural c => c

/-- The opening delimiters of the spans in items, at any depth. -/
@[simp] def allOpenings : List Content → List Text
  | [] => []
  | c :: cs => openings c ++ allOpenings cs
termination_by structural cs => cs

end

/-! ### Symbols of items -/

@[simp] theorem symbols_nil : symbols [] = [] := rfl

@[simp] theorem symbols_cons (c : Content) (cs : List Content) :
    symbols (c :: cs) = itemSymbols c ++ symbols cs :=
  List.flatMap_cons

@[simp] theorem symbols_append (cs ds : List Content) : symbols (cs ++ ds) = symbols cs ++ symbols ds :=
  List.flatMap_append

@[simp] theorem itemSymbols_text (s : Text) : itemSymbols (text s) = s.map .inl := rfl

/-- Empty texts have no symbols. -/
@[simp] theorem symbols_dropEmpty (cs : List Content) : symbols (Span.dropEmpty cs) = symbols cs := by
  induction cs with
  | nil => rfl
  | cons c cs ih =>
    rw [Span.dropEmpty, List.filter_cons]
    by_cases hc : c.isEmptyText = true
    · have hnone : itemSymbols c = [] := by
        cases c with
        | text s => cases s with
          | nil => rfl
          | cons d s => simp [isEmptyText] at hc
        | _ => simp [isEmptyText] at hc
      rw [symbols_cons, hnone, ← ih]
      simp [hc, Span.dropEmpty]
    · rw [symbols_cons, ← ih]
      simp [hc, Span.dropEmpty]

/-! ### Sums over symbols -/

/-- What adds up over the characters of a text, in a list, adds up over symbols. -/
theorem flatMap_symbols {β : Type} (f : Content → List β) (char : Char → List β)
    (htext : ∀ s, f (text s) = s.flatMap char) (cs : List Content) :
    cs.flatMap f = (symbols cs).flatMap (Sum.elim char f) := by
  induction cs with
  | nil => rfl
  | cons c cs ih =>
    have hitem : (itemSymbols c).flatMap (Sum.elim char f) = f c := by
      cases c with
      | text s => simp [List.flatMap_map, htext]
      | _ => simp [itemSymbols]
    simp [hitem, ih]

/-- What adds up over the characters of a text, as a number, adds up over symbols. -/
theorem sum_symbols (f : Content → Nat) (char : Char → Nat)
    (htext : ∀ s, f (text s) = (s.map char).sum) (cs : List Content) :
    (cs.map f).sum = ((symbols cs).map (Sum.elim char f)).sum := by
  induction cs with
  | nil => rfl
  | cons c cs ih =>
    have hitem : ((itemSymbols c).map (Sum.elim char f)).sum = f c := by
      cases c with
      | text s => simp [Function.comp_def, htext]
      | _ => simp [itemSymbols]
    simp [hitem, ih]

/-- What holds of every text holds of items if it holds of the symbols that are no characters. -/
theorem all_symbols (p : Content → Bool) (htext : ∀ s, p (text s) = true) (cs : List Content) :
    cs.all p = (symbols cs).all (Sum.elim (fun _ => true) p) := by
  induction cs with
  | nil => rfl
  | cons c cs ih =>
    have hitem : (itemSymbols c).all (Sum.elim (fun _ => true) p) = p c := by
      cases c with
      | text s => simp [htext]
      | _ => simp [itemSymbols]
    simp [hitem, ih]

theorem sources_eq_flatMap (rules : RuleIndex) (cs : List Content) :
    sources rules cs = (symbols cs).flatMap (Sum.elim (fun c => [c]) (source rules)) := by
  rw [← flatMap_symbols (source rules) (fun c => [c]) (fun s => by simp)]
  induction cs with
  | nil => rfl
  | cons c cs ih => simp [ih]

theorem charCounts_eq_sum (cs : List Content) :
    charCounts cs = ((symbols cs).map (Sum.elim (fun _ => 1) charCount)).sum := by
  rw [← sum_symbols charCount (fun _ => 1) (fun s => by simp [List.map_const'])]
  induction cs with
  | nil => rfl
  | cons c cs ih => simp [ih]

theorem linkCounts_eq_sum (cs : List Content) :
    linkCounts cs = ((symbols cs).map (Sum.elim (fun _ => 0) linkCount)).sum := by
  rw [← sum_symbols linkCount (fun _ => 0) (fun s => by simp [List.map_const'])]
  induction cs with
  | nil => rfl
  | cons c cs ih => simp [ih]

theorem areFragments_eq_all (cs : List Content) : areFragments cs = cs.all isFragment := by
  induction cs with
  | nil => rfl
  | cons c cs ih => simp [ih]

/-! ### Openings -/

@[simp] theorem allOpenings_append (cs ds : List Content) :
    allOpenings (cs ++ ds) = allOpenings cs ++ allOpenings ds := by
  induction cs with
  | nil => rfl
  | cons c cs ih => simp [ih]

mutual

theorem openings_of_isFragment : ∀ {c : Content}, isFragment c = true → openings c = []
  | text _, _ => rfl
  | link _ contents, h => @allOpenings_of_areFragments contents h
  | span _ _, h => absurd h Bool.false_ne_true
  | foreign _, h => absurd h Bool.false_ne_true

/-- Raw text and links have no spans in them. -/
theorem allOpenings_of_areFragments : ∀ {cs : List Content}, areFragments cs = true →
    allOpenings cs = []
  | [], _ => rfl
  | c :: cs, h => by
    rw [areFragments, Bool.and_eq_true] at h
    simp [openings_of_isFragment h.1, allOpenings_of_areFragments h.2]

end

end ProseMarkup.Content
