import Mathlib.Data.List.Chain
import ProseMarkup.Content.OfText
import ProseMarkup.Proofs.SpanCut

/-!
# Canonical content

Content is canonical if it has no empty text and no two texts next to each other, at any depth. Among all
the items with the same symbols there is one canonical list, and the cut of canonical fragments at a span
leaves canonical fragments.

* `Content.areCanonical` : whether items are canonical.
* `Content.ofSymbols` : the canonical items with given symbols.
* `Content.ofSymbols_symbols` : **canonical items are those with their symbols**.
* `Span.areCanonical_contents`, `Span.areCanonical_rest` : **what a span encloses and what follows it is
  canonical**, if the fragments it was found in are.
-/

namespace ProseMarkup

namespace Content

/-- Whether an item is text. -/
def isText : Content → Bool
  | text _ => true
  | _ => false

/-- Whether items begin with text. -/
def beginWithText : List Content → Bool
  | c :: _ => c.isText
  | [] => false

mutual

/-- Whether an item is no empty text, and what it encloses is canonical. -/
@[simp] def isCanonical : Content → Bool
  | text s => !s.isEmpty
  | span _ contents => areCanonical contents
  | link _ contents => areCanonical contents
  | foreign _ => true
termination_by structural c => c

/-- Whether items are canonical, and no two texts are next to each other. -/
@[simp] def areCanonical : List Content → Bool
  | [] => true
  | c :: cs => isCanonical c && !(c.isText && beginWithText cs) && areCanonical cs
termination_by structural cs => cs

end

/-- Items of which not both are text. -/
def Apart (c d : Content) : Prop :=
  (c.isText && d.isText) = false

theorem isChain_apart_cons {c : Content} {cs : List Content} :
    (c :: cs).IsChain Apart ↔ (c.isText && beginWithText cs) = false ∧ cs.IsChain Apart := by
  rw [List.isChain_cons]
  apply and_congr_left'
  cases cs with
  | nil => simp [beginWithText]
  | cons d cs => simp [beginWithText, Apart]

theorem areCanonical_iff {cs : List Content} :
    areCanonical cs = true ↔ (∀ c ∈ cs, c.isCanonical = true) ∧ cs.IsChain Apart := by
  induction cs with
  | nil => exact ⟨fun _ => ⟨fun c hc => absurd hc List.not_mem_nil, .nil⟩, fun _ => rfl⟩
  | cons c cs ih =>
    rw [areCanonical, Bool.and_eq_true, Bool.and_eq_true, Bool.not_eq_true', ih, isChain_apart_cons,
      List.forall_mem_cons]
    constructor
    · rintro ⟨⟨hc, hapart⟩, hcs, hchain⟩
      exact ⟨⟨hc, hcs⟩, hapart, hchain⟩
    · rintro ⟨⟨hc, hcs⟩, hapart, hchain⟩
      exact ⟨⟨hc, hapart⟩, hcs, hchain⟩

/-! ### Texts apart -/

/-- Whether texts are apart depends on nothing but which items are text. -/
theorem isChain_apart_congr {cs ds : List Content} (h : cs.map isText = ds.map isText)
    (hcs : cs.IsChain Apart) : ds.IsChain Apart := by
  have hflags (xs : List Content) :
      (xs.map isText).IsChain (fun a b => (a && b) = false) ↔ xs.IsChain Apart :=
    List.isChain_map isText
  rw [← hflags, ← h, hflags]
  exact hcs

/-- Where an empty text is left out, the items on both sides of it are no texts. -/
theorem isChain_apart_dropEmpty {cs : List Content} (h : cs.IsChain Apart) :
    (Span.dropEmpty cs).IsChain Apart ∧
      (beginWithText cs = false → beginWithText (Span.dropEmpty cs) = false) := by
  induction cs with
  | nil => exact ⟨.nil, id⟩
  | cons c cs ih =>
    obtain ⟨hhead, htail⟩ := isChain_apart_cons.1 h
    obtain ⟨hchain, hbegin⟩ := ih htail
    by_cases hc : c.isEmptyText = true
    · have htext : c.isText = true := by
        cases c with
        | text s => rfl
        | _ => cases hc
      have hdrop : Span.dropEmpty (c :: cs) = Span.dropEmpty cs := by
        simp [Span.dropEmpty, hc]
      rw [hdrop]
      refine ⟨hchain, fun hnot => ?_⟩
      rw [beginWithText, htext] at hnot
      cases hnot
    · have hdrop : Span.dropEmpty (c :: cs) = c :: Span.dropEmpty cs := by
        simp [Span.dropEmpty, hc]
      rw [hdrop]
      refine ⟨isChain_apart_cons.2 ⟨?_, hchain⟩, id⟩
      rw [Bool.and_eq_false_iff] at hhead ⊢
      exact hhead.imp_right hbegin

/-- Items some of which may be empty texts, without these. -/
theorem areCanonical_dropEmpty {cs : List Content}
    (h : ∀ c ∈ cs, c.isText = true ∨ c.isCanonical = true) (hcs : cs.IsChain Apart) :
    areCanonical (Span.dropEmpty cs) = true := by
  refine areCanonical_iff.2 ⟨fun c hc => ?_, (isChain_apart_dropEmpty hcs).1⟩
  obtain ⟨hmem, hne⟩ := List.mem_filter.1 hc
  rcases h c hmem with htext | hcanonical
  · cases c with
    | text s =>
      cases s with
      | nil => cases hne
      | cons d s => rfl
    | _ => cases htext
  · exact hcanonical

/-! ### Items with given symbols -/

/-- The canonical items with given symbols: characters next to each other make up one text. -/
def ofSymbols : List Symbol → List Content
  | [] => []
  | .inl c :: rest => consChar c (ofSymbols rest)
  | .inr item :: rest => item :: ofSymbols rest

theorem consChar_of_beginWithText {cs : List Content} (h : beginWithText cs = false) (c : Char) :
    consChar c cs = text [c] :: cs := by
  cases cs with
  | nil => rfl
  | cons d cs =>
    cases d with
    | text s => cases h
    | _ => rfl

theorem ofSymbols_text {s : Text} (hs : s ≠ []) {rest : List Symbol}
    (h : beginWithText (ofSymbols rest) = false) :
    ofSymbols (s.map .inl ++ rest) = text s :: ofSymbols rest := by
  induction s with
  | nil => exact absurd rfl hs
  | cons c s ih =>
    show consChar c (ofSymbols (s.map .inl ++ rest)) = _
    cases s with
    | nil => exact consChar_of_beginWithText h c
    | cons d s =>
      rw [ih (List.cons_ne_nil d s)]
      rfl

/-- **Canonical items are those with their symbols.** -/
theorem ofSymbols_symbols {cs : List Content} (h : areCanonical cs = true) :
    ofSymbols (symbols cs) = cs := by
  induction cs with
  | nil => rfl
  | cons c cs ih =>
    rw [areCanonical, Bool.and_eq_true, Bool.and_eq_true, Bool.not_eq_true'] at h
    obtain ⟨⟨hc, hapart⟩, hcs⟩ := h
    have hrest := ih hcs
    rw [symbols_cons]
    cases c with
    | text s =>
      have hne : s ≠ [] := by
        rintro rfl
        cases hc
      show ofSymbols (s.map .inl ++ symbols cs) = text s :: cs
      rw [ofSymbols_text hne (by rw [hrest]; exact hapart), hrest]
    | _ =>
      show _ :: ofSymbols (symbols cs) = _
      rw [hrest]

end Content

/-! ### The cut of canonical fragments -/

namespace Span

open Content (areCanonical areCanonical_iff areCanonical_dropEmpty isChain_apart_congr)

variable {rules : RuleIndex} {s : Text} {later : List Content} {span : Found}

/-- **What a span encloses in canonical fragments is canonical.** -/
theorem areCanonical_contents (h : find? rules s later = some span)
    (hc : areCanonical (.text s :: later) = true) :
    areCanonical (span.contents (.text s :: later)) = true := by
  obtain ⟨hitems, hchain⟩ := areCanonical_iff.1 hc
  rcases closing_cases h with ⟨hf, -, -⟩ | ⟨k, t, hf, ht, -⟩
  · rw [contents_within s later hf]
    refine areCanonical_dropEmpty (fun c hmem => ?_) (.singleton _)
    rw [List.mem_singleton.1 hmem]
    exact .inl rfl
  · rw [contents_across s hf ht]
    refine areCanonical_dropEmpty (fun c hmem => ?_) ?_
    · rcases List.mem_cons.1 hmem with rfl | hmem
      · exact .inl rfl
      · rcases List.mem_append.1 hmem with hmem | hmem
        · exact .inr (hitems c (List.mem_cons_of_mem _ (List.mem_of_mem_take hmem)))
        · rw [List.mem_singleton.1 hmem]
          exact .inl rfl
    · -- the two texts are cut, but stand where the texts they are cut from stood
      have htake : (Content.text s :: later).take (k + 2) = .text s :: (later.take k ++ [.text t]) := by
        rw [List.take_succ_cons, List.take_add_one, ht]
        rfl
      have hwhole := hchain.take (k + 2)
      rw [htake] at hwhole
      exact isChain_apart_congr (by simp [Content.isText]) hwhole

/-- **What follows a span in canonical fragments is canonical.** -/
theorem areCanonical_rest (h : find? rules s later = some span)
    (hc : areCanonical (.text s :: later) = true) :
    areCanonical (span.rest (.text s :: later)) = true := by
  obtain ⟨hitems, hchain⟩ := areCanonical_iff.1 hc
  rcases closing_cases h with ⟨hf, -, -⟩ | ⟨k, t, hf, ht, -⟩
  · rw [rest_within s later hf]
    refine areCanonical_dropEmpty (fun c hmem => ?_) (isChain_apart_congr (by simp [Content.isText]) hchain)
    rcases List.mem_cons.1 hmem with rfl | hmem
    · exact .inl rfl
    · exact .inr (hitems c (List.mem_cons_of_mem _ hmem))
  · rw [rest_across s hf ht]
    refine areCanonical_dropEmpty (fun c hmem => ?_) ?_
    · rcases List.mem_cons.1 hmem with rfl | hmem
      · exact .inl rfl
      · exact .inr (hitems c (List.mem_cons_of_mem _ (List.mem_of_mem_drop hmem)))
    · have hdrop : (Content.text s :: later).drop (k + 1) = .text t :: later.drop (k + 1) := by
        obtain ⟨hlt, hget⟩ := List.getElem?_eq_some_iff.1 ht
        rw [List.drop_succ_cons, List.drop_eq_getElem_cons hlt, hget]
      have hend := hchain.drop (k + 1)
      rw [hdrop] at hend
      exact isChain_apart_congr (by simp [Content.isText]) hend

end Span

end ProseMarkup
