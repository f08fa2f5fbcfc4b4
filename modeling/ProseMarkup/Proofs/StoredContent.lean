import ProseMarkup.Proofs.LinkScan
import ProseMarkup.Proofs.Resolution
import ProseMarkup.Proofs.TextData

/-!
# Stored content

Content made of texts, spans and links with texts as urls is stored and loaded again as it was. The
content of every text is of this kind.

* `Content.isStorable`, `Content.areStorable` : content of this kind.
* `Content.roundTrips` : **it is stored and loaded again**.
* `Resolution.areStorable_resolve` : resolution keeps content of this kind.
-/

namespace ProseMarkup

open Storage (RoundTrips saveContentItem saveContentItems saveContents loadContent loadContentItems)

namespace Content

mutual

/-- Whether an item is a text, a span, or a link with a text as its url, and so are all items in it. -/
@[simp] def isStorable : Content → Bool
  | text _ => true
  | span _ contents => areStorable contents
  | link (.str _) contents => areStorable contents
  | link _ _ => false
  | foreign _ => false
termination_by structural c => c

/-- Whether all items are of this kind. -/
@[simp] def areStorable : List Content → Bool
  | [] => true
  | c :: cs => isStorable c && areStorable cs
termination_by structural cs => cs

end

theorem areStorable_eq_all (cs : List Content) : areStorable cs = cs.all isStorable := by
  induction cs with
  | nil => rfl
  | cons c cs ih => simp [ih]

@[simp] theorem areStorable_append (cs ds : List Content) :
    areStorable (cs ++ ds) = (areStorable cs && areStorable ds) := by
  rw [areStorable_eq_all, areStorable_eq_all, areStorable_eq_all, List.all_append]

@[simp] theorem areStorable_ofText (s : Text) : areStorable (ofText s) = true := by
  rw [areStorable_eq_all]
  exact all_ofText (fun _ => rfl) s

theorem isStorable_link {url : Value} {contents : List Content}
    (h : isStorable (link url contents) = true) :
    ∃ s, url = .str s ∧ areStorable contents = true := by
  cases url with
  | str s => exact ⟨s, rfl, h⟩
  | _ => cases h

/-! ### Storing -/

theorem save_span (opening : Value) {items data : List Value}
    (h : saveContentItems items = .ok data) :
    saveContentItem (.span opening (.list items)) = .ok (Storage.spanRecord opening (.list data)) := by
  rw [saveContentItem, saveContents, h]
  rfl

theorem save_link (url : Value) {items data : List Value} (h : saveContentItems items = .ok data) :
    saveContentItem (.link url (.list items)) = .ok (Storage.linkRecord url (.list data)) := by
  rw [saveContentItem, saveContents, h]
  rfl

@[simp] theorem load_span (opening : Value) (data : List Value) :
    loadContent (Storage.spanRecord opening (.list data)) =
      .span opening (.list (loadContentItems data)) := rfl

@[simp] theorem load_link (url : Value) (data : List Value) :
    loadContent (Storage.linkRecord url (.list data)) =
      .link url (.list (loadContentItems data)) := rfl

mutual

/-- **An item of this kind is stored and loaded again.** -/
theorem roundTrips : ∀ {c : Content}, isStorable c = true →
    RoundTrips saveContentItem loadContent c.toValue
  | text s, _ => ⟨rfl, .str s, rfl, rfl, rfl⟩
  | span opening cs, h => by
    obtain ⟨hnan, data, hsave, htext, hload⟩ := @roundTrips_contents cs h
    refine ⟨hnan, _, save_span (.str opening) hsave, ?_, ?_⟩
    · simp [Storage.spanRecord, htext]
    · simp [hload]
  | link url cs, h => by
    obtain ⟨s, hurl, hcs⟩ := isStorable_link h
    obtain ⟨hnan, data, hsave, htext, hload⟩ := @roundTrips_contents cs hcs
    subst hurl
    refine ⟨hnan, _, save_link (.str s) hsave, ?_, ?_⟩
    · simp [Storage.linkRecord, htext]
    · simp [hload]
  | foreign item, h => absurd h Bool.false_ne_true

theorem roundTrips_contents : ∀ {cs : List Content}, areStorable cs = true →
    Value.areNanFree (toValues cs) = true ∧ ∃ data, saveContentItems (toValues cs) = .ok data ∧
      Value.areTextData data = true ∧ loadContentItems data = toValues cs
  | [], _ => ⟨rfl, [], rfl, rfl, rfl⟩
  | c :: cs, h => by
    rw [areStorable, Bool.and_eq_true] at h
    obtain ⟨hnan, data, hsave, htext, hload⟩ := roundTrips (c := c) h.1
    obtain ⟨hnans, later, hsaves, htexts, hloads⟩ := @roundTrips_contents cs h.2
    refine ⟨?_, data :: later, ?_, ?_, ?_⟩
    · simp [hnan, hnans]
    · simp [saveContentItems, hsave, hsaves]
    · simp [htext, htexts]
    · simp [loadContentItems, hload, hloads]

end

/-! ### The content of texts -/

/-- The fragments of a text can be stored. -/
@[simp] theorem areStorable_fragmentsOf (links : Bool) (s : Text) :
    areStorable (fragmentsOf links s) = true := by
  rw [areStorable_eq_all]
  exact all_fragmentsOf (fun _ => rfl) (fun url content => areStorable_ofText content) links s

end Content

open Content (areStorable isStorable)

/-- **Resolution keeps content that can be stored.** -/
theorem Resolution.areStorable_resolve (rules : RuleIndex) (limit : Int) (depth : Nat)
    (fragments : List Content) (hf : areStorable fragments = true) :
    areStorable (resolve rules limit depth fragments).contents = true := by
  fun_induction resolve rules limit depth fragments with
  | case1 depth fragments hcut => exact hf
  | case2 depth hdepth => rfl
  | case3 depth hdepth s later hnone rest ih => exact ih hf
  | case4 depth hdepth s later span hspan _ _ inner rest ihInner ihRest =>
    rw [Content.areStorable_eq_all, Span.all_cut (fun _ => rfl) hspan,
      ← Content.areStorable_eq_all, ← Content.areStorable_eq_all, Bool.and_eq_true] at hf
    rw [Content.areStorable_append, before, Content.areStorable_ofText, areStorable, isStorable,
      ihInner hf.1, ihRest hf.2]
    rfl
  | case5 depth hdepth url contents later inner rest ihInner ihRest =>
    rw [areStorable, Bool.and_eq_true] at hf
    obtain ⟨s, rfl, hcontents⟩ := Content.isStorable_link hf.1
    rw [areStorable, isStorable, ihInner hcontents, ihRest hf.2]
    rfl
  | case6 depth hdepth c later _ _ rest ih =>
    rw [areStorable, Bool.and_eq_true] at hf
    rw [areStorable, hf.1, ih hf.2]
    rfl

end ProseMarkup
